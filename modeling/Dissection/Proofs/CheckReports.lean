import Dissection.Proofs.BrokenPattern
import Dissection.Proofs.Lines
import Dissection.Proofs.ReadBack
import Dissection.Proofs.Substitution

/-!
# What is said when patterns are checked

Patterns are checked one after another, and nothing that is wrong with one of them keeps the
others from being checked.  So each channel shows what it would show of each text alone: the
channel for errors two lines of every text that is no pattern, and the channel for output, if
tokens are given as JSON, one line of every text that is one.

No character of a pattern is lost in JSON: the line is read as an object, and the object's prefix
and tokens spell the pattern.  A report is for people, and the shell may leave control sequences
for terminals out of it.  A report adds none of its own, so one of a text without an escape
character is shown as it is.

## Main definitions

* `Value.Describes` — an object spells a pattern by its prefix and its tokens.
* `CommandLine.writtenOn` — what is written on a channel.
* `CommandLine.Check.complaint` — what the channel for errors shows of a text.
* `CommandLine.Check.Shows` — a line from which a pattern can be read.

## Main statements

* `Pattern.forall_mem_message` — no control character is added by a report.
* `CommandLine.Check.legible_description`, `CommandLine.Check.describes_description` — a pattern
  as an object.
* `CommandLine.Check.session_reports` — what both channels show, and how the session ends.
-/

namespace Dissection

open Text

/-! ## Messages -/

theorem Text.Unbroken.forall_mem {words : Text} {P : Char → Prop} (h : words.Unbroken)
    (hprinted : ∀ c, 0x20 ≤ c.toNat → P c) : ∀ c ∈ words, P c :=
  fun c hc => hprinted c (h c hc)

theorem Numeral.unbroken_tooLong (count : Nat) : Unbroken (tooLong count) := by
  have hfront : Unbroken "Exceeds the limit (" := by decide +kernel
  have hmiddle : Unbroken " digits) for integer string conversion: value has " := by
    decide +kernel
  have hback : Unbroken " digits; use sys.set_int_max_str_digits() to increase the limit" := by
    decide +kernel
  unfold tooLong
  simp only [unbroken_append_iff, unbroken_ofNat, hfront, hmiddle, hback, and_self]

namespace Placeholder

variable {raw : Text} {e : Error} {P : Char → Prop}

/-- An error in a placeholder's text holds the text, and the marks in front of it if they are at
fault; only of a slot that is too long it holds the number of digits alone. -/
theorem eq_of_parse_eq_error (h : parse raw = .error e) :
    e = .badSlot raw ∨ (∃ digits, e = .slotTooLong digits) ∨
      e = .appendWithIndirect (raw.takeWhile isMark) raw ∨
      e = .severalMarks (raw.takeWhile isMark) raw := by
  rw [parse] at h
  split at h
  · cases h
  · rw [parseAppend] at h
    split at h
    · cases h
    · rw [Traversal.map_eq_error_iff, readSlot] at h
      split at h
      · exact .inl (Except.error.inj h).symm
      · exact .inl (Except.error.inj h).symm
      · split at h
        · cases h
        · exact .inr (.inl ⟨_, (Except.error.inj h).symm⟩)
  · cases h
  · cases h
  · split at h
    · exact .inr (.inr (.inl (Except.error.inj h).symm))
    · exact .inr (.inr (.inr (Except.error.inj h).symm))

/-- What is said of a placeholder's text are words without control characters, the marks in
front of the text, and the text. -/
theorem forall_mem_message (h : parse raw = .error e) (hraw : ∀ c ∈ raw, P c)
    (hprinted : ∀ c, 0x20 ≤ c.toNat → P c) : ∀ c ∈ e.message, P c := by
  have hmarks : ∀ c ∈ raw.takeWhile isMark, P c :=
    fun c hc => hraw c ((List.takeWhile_prefix isMark).subset hc)
  have hmarked : ∀ front : Text, front.Unbroken →
      ∀ c ∈ front ++ raw.takeWhile isMark ++ "): " ++ raw, P c := by
    intro front hfront
    have hclosing : Unbroken "): " := by decide +kernel
    simp only [List.forall_mem_append]
    exact ⟨⟨⟨hfront.forall_mem hprinted, hmarks⟩, hclosing.forall_mem hprinted⟩, hraw⟩
  rcases eq_of_parse_eq_error h with rfl | ⟨digits, rfl⟩ | rfl | rfl
  · have hfront : Unbroken "Field append order must be a non-negative integer: " := by
      decide +kernel
    exact List.forall_mem_append.2 ⟨hfront.forall_mem hprinted, hraw⟩
  · exact (Numeral.unbroken_tooLong digits).forall_mem hprinted
  · have hfront : Unbroken "Field cannot prefix with both Append and Indirect Prefix (" := by
      decide +kernel
    exact hmarked _ hfront
  · have hfront : Unbroken "Field cannot have more than one prefix (" := by decide +kernel
    exact hmarked _ hfront

end Placeholder

/-- A pattern's text is unterminated where scanning fails. -/
theorem Pattern.scan_of_compile_eq_unterminated {text : Text} {u : Unterminated}
    (h : compile text = .error (.unterminated u)) : scan text = .error u := by
  cases hs : scan text with
  | error found =>
    rw [compile, hs] at h
    cases h
    rfl
  | ok found =>
    have hd : Decomposes text found.1 found.2 := scan_eq_ok_iff.1 hs
    exact absurd ⟨_, _, hd⟩ (compile_eq_unterminated_iff.1 ⟨u, h⟩)

/-- What is said of a pattern's text is of words without control characters and of characters of
the text. -/
theorem Pattern.forall_mem_message {text : Text} {e : Error} {P : Char → Prop}
    (h : compile text = .error e) (htext : ∀ c ∈ text, P c)
    (hprinted : ∀ c, 0x20 ≤ c.toNat → P c) : ∀ c ∈ e.message, P c := by
  cases e with
  | placeholder q =>
    obtain ⟨leading, before, part, after, hd, -, hpart⟩ := compile_eq_placeholder_iff.1 h
    have hstands := hd.infix_of_mem (List.mem_append_right before List.mem_cons_self)
    exact Placeholder.forall_mem_message hpart (fun c hc => htext c (hstands.subset hc)) hprinted
  | unterminated u =>
    obtain ⟨leading, parts, -, hrest, -⟩ :=
      exists_of_scan_eq_error (scan_of_compile_eq_unterminated h)
    have hfront : Unbroken "Unterminated field placeholder at position " := by decide +kernel
    have hcolon : Unbroken ": " := by decide +kernel
    have hposition := Numeral.unbroken_ofNat u.position
    unfold Error.message
    simp only [List.forall_mem_append]
    refine ⟨⟨⟨hfront.forall_mem hprinted, hposition.forall_mem hprinted⟩,
      hcolon.forall_mem hprinted⟩, fun c hc => ?_⟩
    rw [← hrest] at hc
    exact htext c (List.drop_subset _ _ hc)

/-! ## Objects -/

namespace Value

/-- The value that an object has under a name. -/
def under? (name : Text) : Value → Option Value
  | .map entries => (entries.find? (·.1 == .text name)).map Prod.snd
  | _ => none

theorem under?_cons_self (name : Text) (v : Value) (entries : List (Value × Value)) :
    (map ((.text name, v) :: entries)).under? name = some v := by
  rw [under?, List.find?_cons_of_pos (by simp)]
  rfl

theorem under?_cons_of_ne {other name : Text} (h : other ≠ name) (v : Value)
    (entries : List (Value × Value)) :
    (map ((.text other, v) :: entries)).under? name = (map entries).under? name := by
  rw [under?, List.find?_cons_of_neg (by simpa using h)]
  rfl

/-- An object describes the placeholder at a position, and the literal behind it. -/
structure DescribesPart (v : Value) (position : Nat) (part : Text × Text) : Prop where
  position : v.under? "position" = some (.int position)
  raw : v.under? "raw" = some (.text part.1)
  delimiter : v.under? "delimiter" = some (.text part.2)

/-- An object describes the pattern that is written as `text`: it says so, and its prefix and
its tokens, which stand in the order of their positions, spell the text. -/
structure Describes (v : Value) (text leading : Text) (parts : List (Text × Text)) : Prop where
  written : v.under? "pattern" = some (.text text)
  front : v.under? "prefix" = some (.text leading)
  tokens : ∃ tokens, v.under? "tokens" = some (.list tokens) ∧
    List.Forall₂ (fun token part => token.1.DescribesPart token.2 part) tokens.zipIdx parts
  spells : text = Pattern.glued leading parts

end Value

namespace CommandLine

/-! ## Channels -/

section

variable {echo : Text → Text} {channel : Channel} {time : Text}

/-- What some outputs write on a channel at a time. -/
def writtenOn (echo : Text → Text) (channel : Channel) (time : Text) (outputs : List Output) :
    Text :=
  (outputs.filter (·.channel = channel)).flatMap (·.written echo time)

theorem writtenOn_eq_nil {outputs : List Output}
    (h : ∀ output ∈ outputs, output.channel ≠ channel) :
    writtenOn echo channel time outputs = [] := by
  have hfilter : outputs.filter (·.channel = channel) = [] :=
    List.filter_eq_nil_iff.2 fun output hout => by simpa using h output hout
  rw [writtenOn, hfilter, List.flatMap_nil]

theorem writtenOn_append (first second : List Output) :
    writtenOn echo channel time (first ++ second) =
      writtenOn echo channel time first ++ writtenOn echo channel time second := by
  simp [writtenOn]

theorem writtenOn_flatten (outputs : List (List Output)) :
    writtenOn echo channel time outputs.flatten =
      outputs.flatMap (writtenOn echo channel time) := by
  induction outputs with
  | nil => rfl
  | cons first outputs ih => rw [List.flatten_cons, writtenOn_append, ih, List.flatMap_cons]

end

namespace Check

variable {asJson : Bool} {text : Text} {texts : List Text} {p : Pattern} {lines : List Output}
  {echo : Text → Text}

/-! ## Patterns as objects -/

theorem legible_tokenValue {token : Token} {position : Nat}
    (hread : Placeholder.parse token.placeholder.raw = .ok token.placeholder)
    (hposition : Numeral.isShown position = true) : (tokenValue position token).Legible := by
  have hslot : (token.placeholder.modifier.slot?.elim .null
      fun slot => .int slot : Value).Legible := by
    cases hm : token.placeholder.modifier.slot? with
    | none => exact .null
    | some slot => exact .int (Placeholder.isShown_of_parse hread hm)
  refine .map ?_ ?_ ?_
  · simp
  · simp
  · simp only [List.forall_mem_cons]
    exact ⟨.int hposition, .text _, .text _, .text _, hslot, .text _, nofun⟩

/-- A pattern is an object that is read as it was written, unless it has too many tokens to
number. -/
theorem legible_description (hp : Pattern.compile text = .ok p)
    (hshown : Numeral.isShown text.length = true) : (description text p).Legible := by
  have hlength := Pattern.length_tokens_le hp
  have htokens : (Value.list (p.tokens.mapIdx tokenValue)).Legible := by
    refine .list fun v hv => ?_
    obtain ⟨position, hposition, rfl⟩ := List.mem_mapIdx.1 hv
    have hread := (Pattern.compile_eq_ok_iff.1 hp).2 _ (List.getElem_mem hposition)
    exact legible_tokenValue hread (Numeral.isShown_of_le (by omega) hshown)
  refine .map ?_ ?_ ?_
  · simp
  · simp
  · simp only [List.forall_mem_cons]
    exact ⟨.text _, .text _, htokens, nofun⟩

theorem describesPart_tokenValue (position : Nat) (token : Token) :
    (tokenValue position token).DescribesPart position (Pattern.partOf token) where
  position := Value.under?_cons_self _ _ _
  raw := by
    unfold tokenValue
    rw [Value.under?_cons_of_ne (by decide +kernel), Value.under?_cons_self]
    rfl
  delimiter := by
    unfold tokenValue
    iterate 5 rw [Value.under?_cons_of_ne (by decide +kernel)]
    exact Value.under?_cons_self _ _ _

/-- The object of a pattern describes it. -/
theorem describes_description (hp : Pattern.compile text = .ok p) :
    (description text p).Describes text p.leading (p.tokens.map Pattern.partOf) where
  written := Value.under?_cons_self _ _ _
  front := by
    unfold description
    rw [Value.under?_cons_of_ne (by decide +kernel), Value.under?_cons_self]
  tokens := by
    refine ⟨p.tokens.mapIdx tokenValue, ?_, ?_⟩
    · unfold description
      iterate 2 rw [Value.under?_cons_of_ne (by decide +kernel)]
      exact Value.under?_cons_self _ _ _
    · refine List.forall₂_iff_get.2 ⟨by simp, fun i hi hi' => ?_⟩
      simpa using describesPart_tokenValue i _
  spells := (Pattern.compile_eq_ok_iff.1 hp).1.glued

/-! ## What is said of a text -/

/-- What the channel for errors shows of a text: nothing of a pattern, and of any other text that
it is invalid, and why, as far as the shell writes it. -/
def complaint (echo : Text → Text) (text : Text) : Text :=
  match Pattern.compile text with
  | .ok _ => []
  | .error e => echo ("invalid: " ++ text) ++ "\n" ++ (echo ("  " ++ e.message) ++ "\n")

/-- A line that shows a pattern: it has no line break in it, and is read as an object that
describes the pattern. -/
def Shows (text line : Text) : Prop :=
  line.Unbroken ∧ ∃ v leading parts, Json.read line = .ok v ∧ v.Describes text leading parts

/-- A report of a text without an escape character is shown as it is. -/
theorem complaint_of_error (hecho : ∀ text, escape ∉ text → echo text = text)
    {e : Pattern.Error} (he : Pattern.compile text = .error e) (hescape : escape ∉ text) :
    complaint echo text = "invalid: " ++ text ++ "\n" ++ ("  " ++ e.message ++ "\n") := by
  have hmessage : ∀ c ∈ e.message, c ≠ escape := by
    refine Pattern.forall_mem_message he (fun c hc h => hescape (h ▸ hc)) ?_
    rintro c hc rfl
    exact absurd hc (by decide)
  have hfront : escape ∉ ("invalid: " : Text) := by decide +kernel
  have hindent : escape ∉ ("  " : Text) := by decide +kernel
  have hfirst : escape ∉ "invalid: " ++ text := by
    rw [List.mem_append, not_or]
    exact ⟨hfront, hescape⟩
  have hsecond : escape ∉ "  " ++ e.message := by
    rw [List.mem_append, not_or]
    exact ⟨hindent, fun h => hmessage escape h rfl⟩
  unfold complaint
  rw [he]
  dsimp only
  rw [hecho _ hfirst, hecho _ hsecond]

theorem channel_of_approval (h : approval asJson text p = .ok lines) :
    ∀ output ∈ lines, output.channel = .output := by
  rw [approval] at h
  split at h
  · obtain ⟨line, -, rfl⟩ := Traversal.map_eq_ok_iff.1 h
    exact List.forall_mem_singleton.2 rfl
  · cases h
    exact List.forall_mem_map.2 fun _ _ => rfl

/-- The channel for errors shows the complaint about a text. -/
theorem Says.writtenOn_errors (h : Says asJson text lines) (time : Text) :
    writtenOn echo .errors time lines = complaint echo text := by
  cases h with
  | valid hp happroval =>
    unfold complaint
    rw [hp]
    refine writtenOn_eq_nil fun output hout => ?_
    rw [channel_of_approval happroval output hout]
    decide
  | @invalid e he =>
    unfold complaint
    rw [he]
    simp only [writtenOn, rejection, List.filter_cons, Output.channel, decide_true, if_true,
      List.filter_nil, List.flatMap_cons, List.flatMap_nil, Output.written, List.append_nil]

/-- The channel for output shows a line for a pattern. -/
theorem Says.exists_line (hecho : ∀ text, escape ∉ text → echo text = text)
    (h : Says true text lines) (hp : Pattern.compile text = .ok p)
    (hshown : Numeral.isShown text.length = true) (time : Text) :
    ∃ line, Shows text line ∧ writtenOn echo .output time lines = line ++ ['\n'] := by
  cases h with
  | invalid he => exact nomatch he.symm.trans hp
  | valid hq happroval =>
    rw [approval, if_pos rfl] at happroval
    obtain ⟨line, hline, rfl⟩ := Traversal.map_eq_ok_iff.1 happroval
    have hread := Json.read_write (legible_description hq hshown) hline
    have hunbroken := Json.unbroken_of_write _ hline
    have hescape : escape ∉ line := fun hmem => absurd (hunbroken escape hmem) (by decide)
    refine ⟨line, ⟨hunbroken, _, _, _, hread, describes_description hq⟩, ?_⟩
    calc writtenOn echo .output time [.line .output line]
        = echo line ++ ['\n'] := List.append_nil _
      _ = line ++ ['\n'] := by rw [hecho line hescape]

/-- The channel for output shows nothing of a text that is no pattern. -/
theorem Says.writtenOn_output_eq_nil {e : Pattern.Error} (h : Says asJson text lines)
    (he : Pattern.compile text = .error e) (time : Text) :
    writtenOn echo .output time lines = [] := by
  cases h with
  | valid hp _ => exact nomatch he.symm.trans hp
  | invalid _ => rfl

/-! ## What is said of texts -/

variable {outputs : List (List Output)}

/-- The channel for errors shows the complaints, one after another. -/
theorem writtenOn_errors_flatten (h : List.Forall₂ (Says asJson) texts outputs) (time : Text) :
    writtenOn echo .errors time outputs.flatten = texts.flatMap (complaint echo) := by
  rw [writtenOn_flatten]
  induction h with
  | nil => rfl
  | cons hsaid _ ih => rw [List.flatMap_cons, List.flatMap_cons, hsaid.writtenOn_errors, ih]

/-- The channel for output shows a line for each pattern, whatever stands between them. -/
theorem exists_lines (hecho : ∀ text, escape ∉ text → echo text = text)
    (h : List.Forall₂ (Says true) texts outputs)
    (hshown : ∀ text ∈ texts, Numeral.isShown text.length = true) (time : Text) :
    ∃ lines, List.Forall₂ Shows (texts.filter fun text => (Pattern.compile text).isOk) lines ∧
      writtenOn echo .output time outputs.flatten = lines.flatMap (· ++ ['\n']) := by
  rw [writtenOn_flatten]
  induction h with
  | nil => exact ⟨[], .nil, rfl⟩
  | @cons text said texts outputs hsaid _ ih =>
    obtain ⟨hfirst, hrest⟩ := List.forall_mem_cons.1 hshown
    obtain ⟨lines, hlines, hwritten⟩ := ih hrest
    rw [List.flatMap_cons, hwritten]
    cases hc : Pattern.compile text with
    | ok p =>
      obtain ⟨line, hline, hwrites⟩ := hsaid.exists_line hecho hc hfirst time
      refine ⟨line :: lines, ?_, by rw [hwrites, List.flatMap_cons]⟩
      rw [List.filter_cons_of_pos (by rw [hc]; rfl)]
      exact .cons hline hlines
    | error e =>
      -- neither the lines nor the patterns that they are for become more
      refine ⟨lines, ?_, by rw [hsaid.writtenOn_output_eq_nil hc, List.nil_append]⟩
      rwa [List.filter_cons_of_neg (by rw [hc]; nofun)]

/-- Every text is reported, and nothing of a pattern is lost.  A session is a success exactly if
every text is a pattern.  The channel for errors shows the complaints about the others in their
order and nothing else, and a complaint about a text without an escape character holds the text
and the message as they are.  If tokens are given as JSON, the channel for output shows a line
for each pattern, in their order and whatever stands between them, and the line is read as an
object that spells the pattern.

The shell is any that reads the arguments and writes lines without escape characters as they
are. -/
theorem session_reports {program : Text} {around : Surroundings} {arguments : List Text}
    (hecho : around.shell.Verbatim) (call : Call program around arguments)
    (hslots : ∀ text ∈ call.patterns, ¬ Pattern.Overlong text)
    (hshown : call.asJson = true → ∀ text ∈ call.patterns, Numeral.isShown text.length = true)
    (time : Text) :
    ((CommandLine.session program around arguments).ending = .exit 0 ↔
      ∀ text ∈ call.patterns, ∃ p, Pattern.compile text = .ok p) ∧
    ((CommandLine.session program around arguments).ending = .exit 1 ↔
      ∃ text ∈ call.patterns, ∃ e, Pattern.compile text = .error e) ∧
    (CommandLine.session program around arguments).onErrors around.shell.echo time =
      call.patterns.flatMap (complaint around.shell.echo) ∧
    (∀ text e, Pattern.compile text = .error e → escape ∉ text →
      complaint around.shell.echo text =
        "invalid: " ++ text ++ "\n" ++ ("  " ++ e.message ++ "\n")) ∧
    (call.asJson = true →
      ∃ lines,
        List.Forall₂ Shows (call.patterns.filter fun text => (Pattern.compile text).isOk) lines ∧
        (CommandLine.session program around arguments).onOutput around.shell.echo =
          lines.flatMap (· ++ ['\n']) ∧
        Lines.ofText
          ((CommandLine.session program around arguments).onOutput around.shell.echo) =
            lines) := by
  obtain ⟨said, hsaid, houtputs, hvalid, hinvalid⟩ := checkAll_append hslots hshown []
  rw [List.append_nil] at houtputs hvalid hinvalid
  -- nothing is written behind what is said of the last text
  have hflatten : (checkAll call.asJson call.patterns).outputs = said.flatten :=
    houtputs.trans (List.append_nil _)
  rw [call.session_eq_checkAll]
  refine ⟨⟨?_, hvalid⟩, ⟨?_, hinvalid⟩, ?_, fun text e => complaint_of_error hecho,
    fun hjson => ?_⟩
  · intro hending
    refine (all_compile_or call.patterns).resolve_right fun hsome => ?_
    exact nomatch (hinvalid hsome).symm.trans hending
  · intro hending
    refine (all_compile_or call.patterns).resolve_left fun hall => ?_
    exact nomatch (hvalid hall).symm.trans hending
  · calc (checkAll call.asJson call.patterns).onErrors around.shell.echo time
        = writtenOn around.shell.echo .errors time said.flatten :=
          congrArg (writtenOn around.shell.echo .errors time) hflatten
      _ = call.patterns.flatMap (complaint around.shell.echo) :=
          writtenOn_errors_flatten hsaid time
  · rw [hjson] at hsaid
    obtain ⟨lines, hlines, hwritten⟩ := exists_lines hecho hsaid (hshown hjson) []
    have houtput : (checkAll call.asJson call.patterns).onOutput around.shell.echo =
        lines.flatMap (· ++ ['\n']) :=
      (congrArg (writtenOn around.shell.echo .output []) hflatten).trans hwritten
    have hunbroken : ∀ line ∈ lines, line.Unbroken :=
      Traversal.forall_mem_of_forall₂ hlines fun _ _ hshows => hshows.1
    refine ⟨lines, hlines, houtput, ?_⟩
    rw [houtput, Lines.ofText_flatMap hunbroken]

/-- Patterns without a dash in front are checked and given as JSON where there is nothing
around. -/
def jsonCall (texts : List Text) (hne : texts ≠ []) (h : ∀ text ∈ texts, text.head? ≠ some '-') :
    Call "linedissect" {} ("check" :: "--json" :: texts) where
  level := none
  rest := "--json" :: texts
  log := warningLog
  sink := 1
  finds := rfl
  configured := configure_none
  request := ⟨texts, true⟩
  reads := by
    have hoption : readOptions options "--json" = .ok ⟨[(.json, [])], none⟩ := rfl
    have hread : Given.ofArguments options true ("--json" :: texts) =
        .ok ⟨[(.json, [])], texts⟩ := by
      rw [Given.ofArguments, if_neg (by decide), if_pos (by decide), hoption]
      simp only [ofArguments_operands h]
      rfl
    rw [show Surroundings.shell {} = .customary from rfl,
      show Shell.customary.check = Customary.check from rfl]
    simp only [Customary.check, hread, hne]
    rfl

/-- Three texts, of which the second is a pattern. -/
def mixedTexts : List Text :=
  ["\x1b[1m%\x7ba", "\x22%\x7ba\x7d\n\x1b[1m%\x7b+b/2\x7d", "%\x7b+?a\x7d"]

/-- Between two texts that are no patterns one with a quotation mark, a line feed and an escape
character is shown on a line. -/
theorem session_reports_mixedTexts :
    let s := CommandLine.session "linedissect" {} ("check" :: "--json" :: mixedTexts)
    s.ending = .exit 1 ∧
    s.onErrors Shell.customary.echo [] =
      "invalid: %\x7ba\n  Unterminated field placeholder at position 4: %\x7ba\n" ++
      ("invalid: %\x7b+?a\x7d\n" ++
        "  Field cannot prefix with both Append and Indirect Prefix (+?): +?a\n") ∧
    ∃ line, Shows "\x22%\x7ba\x7d\n\x1b[1m%\x7b+b/2\x7d" line ∧
      Lines.ofText (s.onOutput Shell.customary.echo) = [line] := by
  intro s
  have hslots : ∀ text ∈ mixedTexts, ¬ Pattern.Overlong text := by
    have hruns : ∀ text ∈ mixedTexts, text.length ≤ Numeral.limit := by decide +kernel
    intro text htext
    refine Pattern.not_overlong fun count hcount => ?_
    obtain ⟨run, hstands, hlength, -⟩ := hcount
    exact hlength ▸ hstands.length_le.trans (hruns text htext)
  have hshown : ∀ text ∈ mixedTexts, Numeral.isShown text.length = true := by decide +kernel
  have hcomplaints : mixedTexts.flatMap (complaint Shell.customary.echo) =
      "invalid: %\x7ba\n  Unterminated field placeholder at position 4: %\x7ba\n" ++
      ("invalid: %\x7b+?a\x7d\n" ++
        "  Field cannot prefix with both Append and Indirect Prefix (+?): +?a\n") := by
    decide +kernel
  have hpatterns : (mixedTexts.filter fun text => (Pattern.compile text).isOk) =
      [("\x22%\x7ba\x7d\n\x1b[1m%\x7b+b/2\x7d" : Text)] := by decide +kernel
  have hbad : Pattern.compile "\x1b[1m%\x7ba" = .error (.unterminated ⟨4, "%\x7ba"⟩) := by
    decide +kernel
  let call := jsonCall mixedTexts nofun (by decide +kernel)
  obtain ⟨-, hending, herrors, -, houtput⟩ :=
    session_reports Shell.verbatim_customary call hslots (fun _ => hshown) []
  obtain ⟨lines, hlines, -, hread⟩ := houtput rfl
  refine ⟨hending.2 ⟨_, List.mem_cons_self, _, hbad⟩, herrors.trans hcomplaints, ?_⟩
  rw [show call.patterns = mixedTexts from rfl, hpatterns] at hlines
  obtain ⟨line, more, hline, hmore, rfl⟩ := List.forall₂_cons_left_iff.1 hlines
  obtain rfl := List.forall₂_nil_left_iff.1 hmore
  exact ⟨line, hline, hread⟩

/-- The customary shell leaves a control sequence out of both lines of a report. -/
theorem not_verbatim_sequence :
    let s := CommandLine.session "linedissect" {} ["check", "\x1b[1m%\x7ba"]
    Pattern.compile "\x1b[1m%\x7ba" = .error (.unterminated ⟨4, "%\x7ba"⟩) ∧
    s.onErrors Shell.customary.echo [] =
      "invalid: %\x7ba\n  Unterminated field placeholder at position 4: %\x7ba\n" ∧
    s.onErrors Shell.customary.echo [] ≠
      "invalid: \x1b[1m%\x7ba\n  Unterminated field placeholder at position 4: %\x7ba\n" := by
  decide +kernel

end Check

end CommandLine

end Dissection
