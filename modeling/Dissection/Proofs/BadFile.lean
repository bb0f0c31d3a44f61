import Dissection.Proofs.Invocation
import Dissection.Proofs.LongNumeral
import Dissection.Proofs.Table
import Dissection.Proofs.Utf8

/-!
# Files that hold no configuration

Whoever names a file that holds no configuration is told so by a report, and the session ends as
one that was refused.  This goes for a missing file, for a text that is no JSON and for JSON of the
wrong shape.

Two kinds of files are not judged at all.  The bytes of one are no text, and the other has an
integer with more digits than are read; loading such a file breaks the session off.

## Main definitions

* `Config.Judged` — a file that is judged.

## Main statements

* `Json.keyedByTextsWithin_of_read` — what is read from JSON has its values under texts.
* `Config.isSome_report?_of_ofValue` — a value of the wrong shape is reported.
* `Config.judged_of_not_hasRun` — a text without too many digits in a row is judged.
* `Config.isSome_report?_iff_judged` — an error is reported exactly if the file is judged.
* `CommandLine.session_of_badFile` — the session that names such a file.
-/

namespace Dissection

open Text Traversal

/-! ## Keys are texts -/

namespace Value

/-- A value with texts for keys, if it is a map. -/
def KeyedByTexts : Value → Prop
  | .map entries => ∀ entry ∈ entries, ∃ name, entry.1 = .text name
  | _ => True

/-- A value with texts for keys, if it is a map, and with values that have texts for keys, if
they are maps. -/
def KeyedByTextsWithin : Value → Prop
  | .map entries => ∀ entry ∈ entries, (∃ name, entry.1 = .text name) ∧ entry.2.KeyedByTexts
  | _ => True

end Value

namespace Json

variable {text rest : Text} {fuel : Nat} {v : Value} {entries : List (Value × Value)}

/-- The members of an object are values that are read, under texts. -/
theorem forall_of_members {P : Value → Prop}
    (hread : ∀ {fuel text v rest}, value fuel text = .ok (v, rest) → P v)
    (h : members fuel text = .ok (entries, rest)) :
    ∀ entry ∈ entries, (∃ name, entry.1 = .text name) ∧ P entry.2 := by
  induction fuel generalizing text entries rest with
  | zero => cases h
  | succ fuel ih =>
    unfold members at h
    split at h
    · simp only [bind_eq_ok_iff] at h
      obtain ⟨⟨name, left⟩, -, h⟩ := h
      dsimp only at h
      split at h
      · simp only [bind_eq_ok_iff] at h
        obtain ⟨⟨item, left⟩, hitem, h⟩ := h
        dsimp only at h
        split at h
        · cases h
          simpa using hread hitem
        · simp only [bind_eq_ok_iff] at h
          obtain ⟨⟨more, left⟩, hmore, h⟩ := h
          cases h
          exact List.forall_mem_cons.2 ⟨⟨⟨name, rfl⟩, hread hitem⟩, ih hmore⟩
        · cases h
      · cases h
    · cases h

theorem ne_map_of_word? (h : word? text = some (v, rest)) : v ≠ .map entries := by
  obtain ⟨word, hmem, hfound⟩ := List.exists_of_findSome?_eq_some h
  have hwords : ∀ word ∈ words, word.2 ≠ .map entries := by simp [words]
  simp only [Option.map_eq_some_iff] at hfound
  obtain ⟨left, -, heq⟩ := hfound
  cases heq
  exact hwords word hmem

theorem ne_map_of_numberFrom (h : numberFrom text = .ok (v, rest)) : v ≠ .map entries := by
  unfold numberFrom at h
  split at h
  split at h
  · cases h
  · split at h
    · split at h <;> cases h
      nofun
    · cases h
      nofun

/-- A map that is read is empty, or made from the members of an object. -/
theorem members_of_value (h : value fuel text = .ok (.map entries, rest)) :
    entries = [] ∨ ∃ fuel text rest found, members fuel text = .ok (found, rest) ∧
      entries = (Table.ofList found).entries := by
  cases fuel with
  | zero => cases h
  | succ fuel =>
    unfold value at h
    split at h
    · obtain ⟨found, -, heq⟩ := map_eq_ok_iff.1 h
      cases heq
    · split at h
      · cases h
      · obtain ⟨found, -, heq⟩ := map_eq_ok_iff.1 h
        cases heq
    · split at h
      · cases h
        exact .inl rfl
      · obtain ⟨⟨found, left⟩, hmembers, heq⟩ := map_eq_ok_iff.1 h
        cases heq
        exact .inr ⟨_, _, _, found, hmembers, rfl⟩
    · split at h
      · next found hfound =>
        cases h
        exact absurd rfl (ne_map_of_word? hfound)
      · exact absurd rfl (ne_map_of_numberFrom h)

/-- What holds of all that is read holds of the values of a map that is read, and they are under
texts. -/
theorem forall_of_value {P : Value → Prop}
    (hread : ∀ {fuel text v rest}, value fuel text = .ok (v, rest) → P v)
    (h : value fuel text = .ok (.map entries, rest)) :
    ∀ entry ∈ entries, (∃ name, entry.1 = .text name) ∧ P entry.2 := by
  rcases members_of_value h with rfl | ⟨_, _, _, found, hmembers, rfl⟩
  · simp
  · exact Table.forall_mem_ofList (P := fun key : Value => ∃ name, key = .text name)
      (forall_of_members hread hmembers)

theorem keyedByTexts_of_value (h : value fuel text = .ok (v, rest)) : v.KeyedByTexts := by
  cases v with
  | map entries =>
    intro entry he
    exact (forall_of_value (P := fun _ => True) (fun _ => trivial) h entry he).1
  | _ => trivial

theorem keyedByTextsWithin_of_value (h : value fuel text = .ok (v, rest)) :
    v.KeyedByTextsWithin := by
  cases v with
  | map entries => exact forall_of_value keyedByTexts_of_value h
  | _ => trivial

/-- A whole text is read as the value at its front. -/
theorem exists_of_document_eq_ok (h : document text = .ok v) :
    ∃ fuel rest, value fuel (skipSpace text) = .ok (v, rest) := by
  unfold document at h
  split at h
  · cases h
  · obtain ⟨⟨found, left⟩, hvalue, h⟩ := bind_eq_ok_iff.1 h
    dsimp only at h
    split at h
    · cases h
      exact ⟨_, left, hvalue⟩
    · cases h

/-- What is read from JSON has its values under texts. -/
theorem keyedByTextsWithin_of_read (h : read text = .ok v) : v.KeyedByTextsWithin := by
  unfold read at h
  split at h
  · next found hdocument =>
    cases h
    obtain ⟨fuel, rest, hvalue⟩ := exists_of_document_eq_ok hdocument
    exact keyedByTextsWithin_of_value hvalue
  · cases h
  · cases h

end Json

/-! ## Values of the wrong shape -/

namespace Config

variable {e : Error} {v : Value} {entries : List (Value × Value)} {key : Key} {path : Text}

/-- Errors in values are reported as errors of configuration. -/
theorem Error.kind_of_report? {report : Report} (h : e.report? = some report) :
    report.kind = .configuration := by
  cases e with
  | keyNotText | keysNotOrdered | unshownEntry => cases h
  | notAMap | unknownKeys | notATable | badEntry | notTexts =>
    cases h
    rfl

theorem isSome_report?_of_entriesOf (hkeys : ∀ entry ∈ entries, ∃ name, entry.1 = .text name)
    (h : entriesOf key entries = .error e) : e.report?.isSome := by
  induction entries with
  | nil => cases h
  | cons entry rest ih =>
    obtain ⟨⟨name, hname⟩, hrest⟩ := List.forall_mem_cons.1 hkeys
    unfold entriesOf at h
    split at h
    · contradiction
    · next heq =>
      cases heq
      exact ih hrest (map_eq_error_iff.1 h)
    · next heq =>
      cases heq
      cases hname
      cases h
      rfl

theorem isSome_report?_of_tableOf (hv : v.KeyedByTexts) (h : tableOf key v = .error e) :
    e.report?.isSome := by
  unfold tableOf at h
  split at h
  · exact isSome_report?_of_entriesOf hv (map_eq_error_iff.1 h)
  · cases h
    rfl

theorem isSome_report?_of_tagsOf (h : tagsOf key v = .error e) : e.report?.isSome := by
  unfold tagsOf at h
  split at h
  · cases h
  · split at h
    · cases h
    · cases h
      rfl
  · cases h
    rfl

theorem isSome_report?_of_settingOr {α : Type} {read : Key → Value → Except Error α} {usual : α}
    (hread : ∀ entry ∈ entries, read key entry.2 = .error e → e.report?.isSome)
    (h : settingOr entries key read usual = .error e) : e.report?.isSome := by
  unfold settingOr at h
  split at h
  · next v hv =>
    obtain ⟨entry, hfound, rfl⟩ := Option.map_eq_some_iff.1 hv
    exact hread entry (List.mem_of_find?_eq_some hfound) h
  · cases h

/-- Keys that belong to no setting are reported if they are texts. -/
theorem isSome_report?_unknownError {keys : List Value}
    (h : ∀ key ∈ keys, ∃ name, key = .text name) : (unknownError keys).report?.isSome := by
  have htexts : ∃ names, textsOf keys = some names := by
    induction keys with
    | nil => exact ⟨[], rfl⟩
    | cons key rest ih =>
      obtain ⟨⟨name, rfl⟩, hrest⟩ := List.forall_mem_cons.1 h
      obtain ⟨names, hnames⟩ := ih hrest
      rw [textsOf] at hnames
      exact ⟨name :: names, by simp [textsOf, List.mapM_cons, Value.text?, hnames]⟩
  obtain ⟨names, hnames⟩ := htexts
  rw [unknownError, hnames]
  rfl

/-- A value of the wrong shape is reported if its keys are texts. -/
theorem isSome_report?_of_ofValue (hv : v.KeyedByTextsWithin) (h : ofValue v = .error e) :
    e.report?.isSome := by
  unfold ofValue at h
  split at h
  · next entries =>
    split at h
    · simp only [bind_eq_error_iff] at h
      rcases h with h | ⟨_, -, h | ⟨_, -, h | ⟨_, -, h | ⟨_, -, h | ⟨_, -, h⟩⟩⟩⟩⟩
      · exact isSome_report?_of_settingOr
          (fun entry he => isSome_report?_of_tableOf (hv entry he).2) h
      · exact isSome_report?_of_settingOr
          (fun entry he => isSome_report?_of_tableOf (hv entry he).2) h
      · exact isSome_report?_of_settingOr (fun _ _ => isSome_report?_of_tagsOf) h
      · exact isSome_report?_of_settingOr
          (fun entry he => isSome_report?_of_tableOf (hv entry he).2) h
      · exact isSome_report?_of_settingOr (fun _ _ => isSome_report?_of_tagsOf) h
      · cases h
    · cases h
      refine isSome_report?_unknownError fun key hkey => ?_
      obtain ⟨entry, hentry, rfl⟩ := List.mem_map.1 (List.mem_of_mem_filter hkey)
      exact (hv entry hentry).1
  · cases h
    rfl

/-! ## Files -/

/-- A file that is judged: it is missing, or it is a text in which no integer is too long to be
read. -/
def Judged : File → Prop
  | .missing => True
  | .directory => False
  | .content bytes =>
    ∃ text, bytes = Utf8.encode text ∧
      ∀ digits, Json.read (Lines.unify text) ≠ .error (.numeralTooLong digits)

/-- A text is judged unless more digits stand in a row than an integer may have. -/
theorem judged_of_not_hasRun {text : Text}
    (h : ∀ count, text.HasRun count → count ≤ Numeral.limit) :
    Judged (.content (Utf8.encode text)) := by
  refine ⟨text, rfl, ?_⟩
  intro digits hread
  have hlong := Json.hasRun_of_read hread
  have hlimit := h digits (Lines.hasRun_of_unify hlong.2)
  omega

theorem not_judged_of_decode {bytes : List UInt8} {e : Utf8.Error}
    (h : Utf8.decode bytes = .error e) : ¬ Judged (.content bytes) := by
  intro hjudged
  obtain ⟨text, hbytes, -⟩ := hjudged
  rw [Utf8.decode_eq_ok_iff.2 hbytes] at h
  cases h

/-- A text is judged by what reading it comes to. -/
theorem judged_iff_of_decode {bytes : List UInt8} {text : Text}
    (h : Utf8.decode bytes = .ok text) :
    Judged (.content bytes) ↔
      ∀ digits, Json.read (Lines.unify text) ≠ .error (.numeralTooLong digits) := by
  constructor
  · intro hjudged
    obtain ⟨other, hbytes, hread⟩ := hjudged
    have hsame : text = other := by
      rw [Utf8.decode_eq_ok_iff.2 hbytes] at h
      exact (Except.ok.inj h).symm
    rwa [hsame]
  · intro hread
    exact ⟨text, Utf8.decode_eq_ok_iff.1 h, hread⟩

theorem LoadError.kind_of_report? {e : LoadError} {report : Report}
    (h : e.report? path = some report) : report.kind = .configuration := by
  cases e with
  | unreadable | undecodable | numeralTooLong => cases h
  | missing | notJson =>
    cases h
    rfl
  | invalid e => exact Error.kind_of_report? h

/-- An error is reported exactly if the file is judged. -/
theorem isSome_report?_iff_judged {file : File} {e : LoadError} (h : load file = .error e)
    (path : Text) : (e.report? path).isSome ↔ Judged file := by
  cases file with
  | missing =>
    cases h
    exact iff_of_true rfl trivial
  | directory =>
    cases h
    exact iff_of_false Bool.false_ne_true id
  | content bytes =>
    unfold load at h
    dsimp only at h
    split at h
    · next cause hdecode =>
      cases h
      exact iff_of_false Bool.false_ne_true (not_judged_of_decode hdecode)
    · next text hdecode =>
      rw [judged_iff_of_decode hdecode]
      split at h
      · next cause hread =>
        cases h
        exact iff_of_true rfl (by simp [hread])
      · next digits hread =>
        cases h
        exact iff_of_false Bool.false_ne_true (by simp [hread])
      · next v hread =>
        split at h
        · next cause hvalue =>
          cases h
          -- only keys that are no texts go without a report, and JSON has none of them
          have hreported := isSome_report?_of_ofValue (Json.keyedByTextsWithin_of_read hread) hvalue
          exact iff_of_true hreported (by simp [hread])
        · cases h

end Config

/-! ## Sessions -/

namespace CommandLine

namespace Stream.Request

variable {refuse : Objection → Session} {files : Text → File} {r : Request} {path : Text}
  {e : Config.LoadError}

/-- What is said of a file that holds no configuration. -/
def complaint (path : Text) (e : Config.LoadError) : Session :=
  match e.report? path with
  | some report => .reported report
  | none => .broken (.config path e)

/-- No filter is made from a file that holds no configuration. -/
theorem filter_of_load_error (hconfig : r.config = some path) (hpattern : r.pattern = none)
    (h : Config.load (files (Path.plain path)) = .error e) :
    r.filter refuse files = .error (complaint (Path.plain path) e) := by
  have hbase : r.base files = .error (complaint (Path.plain path) e) := by
    simp only [base, hconfig, h]
    rfl
  simp only [filter, hconfig, hpattern, hbase]
  rfl

end Stream.Request

namespace Invocation

variable {program : Text} {around : Surroundings} {arguments : List Text}

/-- A file is named as the one with the configuration, and no pattern is given. -/
structure Names (call : Invocation program around arguments) (path : Text) (file : File) :
    Prop where
  config : call.request.config = some path
  noPattern : call.request.pattern = none
  found : around.files (Path.plain path) = file

/-- A session that names a file without a configuration ends with what is said of it. -/
theorem session_of_load_error (call : Invocation program around arguments) {path : Text}
    {file : File} {e : Config.LoadError} (hnames : call.Names path file)
    (h : Config.load file = .error e) :
    session program around arguments = Stream.Request.complaint (Path.plain path) e := by
  rw [← hnames.found] at h
  rw [call.session_eq, Stream.respond,
    Stream.Request.filter_of_load_error hnames.config hnames.noPattern h]

end Invocation

/-- A file that holds no configuration is reported if it is judged, and whoever names it is shown
the report and refused.  If it is not judged, there is no report, and the session breaks off. -/
theorem session_of_badFile {file : File} {e : Config.LoadError} (h : Config.load file = .error e)
    (path : Text) :
    (Config.Judged file →
      ∃ report, e.report? (Path.plain path) = some report ∧ report.kind = .configuration ∧
        ∀ program around arguments (call : Invocation program around arguments),
          call.Names path file → session program around arguments = .reported report) ∧
    (¬ Config.Judged file →
      e.report? (Path.plain path) = none ∧
        ∀ program around arguments (call : Invocation program around arguments),
          call.Names path file →
            session program around arguments = .broken (.config (Path.plain path) e)) ∧
    ∀ text : Text, (∀ count, text.HasRun count → count ≤ Numeral.limit) →
      Config.Judged (.content (Utf8.encode text)) := by
  have hreported := Config.isSome_report?_iff_judged h (Path.plain path)
  refine ⟨?_, ?_, fun text => Config.judged_of_not_hasRun⟩
  · intro hjudged
    obtain ⟨report, hreport⟩ := Option.isSome_iff_exists.1 (hreported.2 hjudged)
    refine ⟨report, hreport, Config.LoadError.kind_of_report? hreport, ?_⟩
    intro program around arguments call hnames
    rw [call.session_of_load_error hnames h, Stream.Request.complaint, hreport]
  · intro hjudged
    have hreport : e.report? (Path.plain path) = none := by
      rw [← Option.not_isSome_iff_eq_none]
      exact mt hreported.1 hjudged
    refine ⟨hreport, ?_⟩
    intro program around arguments call hnames
    rw [call.session_of_load_error hnames h, Stream.Request.complaint, hreport]

/-! ### A file that is named -/

/-- A place where there is one file, which is found at `config.json`. -/
def placeOf (file : File) : Surroundings where
  files := fun path => if path = "config.json" then file else .missing

/-- The arguments that name the file of such a place. -/
def configArguments : List Text := ["run", "--config", "config.json"]

/-- The file of a place is named, and the lines are those of the standard input. -/
def configCall (file : File) (hfile : file ≠ .directory) :
    Invocation "linedissect" (placeOf file) configArguments where
  level := none
  rest := ["--config", "config.json"]
  log := warningLog
  sink := 1
  finds := rfl
  configured := configure_none
  given := { config := some "config.json", source := ⟨[], .any⟩ }
  reads := by
    have hread : Given.ofArguments Stream.options true ["--config", "config.json"] =
        .ok ⟨[(.config, "config.json")], []⟩ := rfl
    have hvalue : Given.value? ⟨[(Stream.Choice.config, "config.json")], []⟩ .config =
        some ("config.json" : Text) := rfl
    have hfound : Customary.directoryProblem? (placeOf file).files
        (some ("config.json" : Text)) = none := if_neg hfile
    rw [show (placeOf file).shell.run = Customary.run from rfl]
    simp only [Customary.run, hread, hvalue, hfound]
    rfl

theorem names_configCall (file : File) (hfile : file ≠ .directory) :
    (configCall file hfile).Names "config.json" file where
  config := rfl
  noPattern := rfl
  found := by
    have hplain : Path.plain "config.json" = ("config.json" : Text) := by decide +kernel
    rw [hplain]
    rfl

/-- An array is no configuration, and whoever names it is told so. -/
theorem session_of_badFile_emptyArray :
    Config.load (.content (Utf8.encode "[]")) = .error (.invalid (.notAMap "list")) ∧
      Config.Judged (.content (Utf8.encode "[]")) ∧
        ∃ report : Report,
          report.message = ("Dissect configuration must be an object, got list" : Text) ∧
            session "linedissect" (placeOf (.content (Utf8.encode "[]"))) configArguments =
              .reported report := by
  have hload : Config.load (.content (Utf8.encode "[]")) = .error (.invalid (.notAMap "list")) := by
    decide +kernel
  have hread : Json.read (Lines.unify "[]") = .ok (.list []) := by decide +kernel
  have hjudged : Config.Judged (.content (Utf8.encode "[]")) := by
    refine ⟨"[]", rfl, ?_⟩
    intro digits
    rw [hread]
    nofun
  have hfile : File.content (Utf8.encode "[]") ≠ .directory := nofun
  obtain ⟨report, hreport, -, hsession⟩ := (session_of_badFile hload "config.json").1 hjudged
  refine ⟨hload, hjudged, report, ?_, hsession _ _ _ _ (names_configCall _ hfile)⟩
  cases hreport
  rfl

/-- Whoever names a file that is no text is told nothing, and the session breaks off. -/
theorem not_reported_notText :
    ∃ e, Config.load (.content [0xFF]) = .error e ∧ e.report? "config.json" = none ∧
      session "linedissect" (placeOf (.content [0xFF])) configArguments =
        .broken (.config "config.json" e) ∧
      (session "linedissect" (placeOf (.content [0xFF])) configArguments).ending.code ≠ 2 := by
  have hload : Config.load (.content [0xFF]) =
      .error (.undecodable ⟨0, [0xFF], .invalidStart⟩) := by decide +kernel
  have hfile : File.content [0xFF] ≠ .directory := nofun
  have hsession := (configCall _ hfile).session_of_load_error (names_configCall _ hfile) hload
  refine ⟨_, hload, rfl, hsession, ?_⟩
  rw [hsession]
  decide

end CommandLine

end Dissection
