import Dissection.Proofs.JsonStandard
import Dissection.Proofs.Spelling
import Dissection.Proofs.Stream

/-!
# Which printed records are standard JSON

A record is printed as a JSON object, and that object is of the standard grammar unless a field
of the record holds an infinity or NaN.  Nothing but a conversion puts one there, when it reads
the text of a field that is to become a binary64 number.

## Main definitions

* `Record.HoldsNonFinite` — a field of a record holds an infinity or NaN.

## Main statements

* `CommandLine.session_standard` — which of the printed records are standard JSON, and why the
  others are not.
-/

namespace Dissection

open Text Dissection.Action

/-! ## Records -/

/-- A field of a record holds an infinity or NaN. -/
def Record.HoldsNonFinite (r : Record) : Prop :=
  ∃ name x, r.get? (.text name) = some (.float x) ∧ x.isFinite = false

theorem Value.Printable.eq_float {v : Value} (hv : v.Printable) (h : v.HasNonFinite) :
    ∃ x, v = .float x ∧ x.isFinite = false := by
  cases hv with
  | texts texts =>
    obtain ⟨item, hitem, hnon⟩ := Value.hasNonFinite_list_iff.1 h
    obtain ⟨t, -, rfl⟩ := List.mem_map.1 hitem
    cases hnon
  | float x => exact ⟨x, rfl, Value.hasNonFinite_float_iff.1 h⟩
  | text | int => cases h

theorem Record.Printable.hasNonFinite_iff {r : Record} (hr : r.Printable) :
    r.toValue.HasNonFinite ↔ r.HoldsNonFinite := by
  rw [Record.toValue, Value.hasNonFinite_map_iff]
  constructor
  · rintro ⟨⟨key, v⟩, hmem, hnon⟩
    obtain ⟨name, hname⟩ := hr.named _ hmem
    obtain ⟨x, hx, hfinite⟩ := (hr.shown _ hmem).eq_float hnon
    dsimp only at hname hx
    subst hname hx
    exact ⟨name, x, Table.get?_of_mem_entries hmem, hfinite⟩
  · rintro ⟨name, x, hget, hfinite⟩
    exact ⟨_, Table.mem_entries_of_get? hget, .float hfinite⟩

namespace CommandLine

namespace Stream

variable {field line text : Text} {f : Filter} {c : Config}

/-- What is printed of a record is judged as an object. -/
theorem judged_recordText {r : Record} (h : recordText r = .ok text) :
    Json.Judged .object r.toValue text := Json.judged_of_write_map h

/-- Either a printed record is an object of the standard grammar and names no infinity and no
NaN, or a field holds one; then the record names it, and the field is converted and its text
spells it. -/
theorem standard_of_prints (hf : (Filter.ofConfig c).register = .ok f)
    (h : Prints f field line text) :
    ∃ s final, f.process.Gives (Filter.lineRecord (.text line) (.text field)) s final ∧
      recordText final = .ok text ∧
      (Json.Derives .object text ↔ ¬ final.HoldsNonFinite) ∧
      (Json.NamesNonFinite text ↔ final.HoldsNonFinite) ∧
      ∀ name x, final.get? (.text name) = some (.float x) → x.isFinite = false →
        f.Spells (Filter.lineRecord (.text line) (.text field)) s name x := by
  obtain ⟨s, final, hgives, htext⟩ := h
  have hprintable := Filter.printable_of_gives_process hf (printable_lineRecord line field) hgives
  have hjudged := judged_recordText htext
  refine ⟨s, final, hgives, htext, ?_, ?_, fun name x hget hx => ?_⟩
  · rw [hjudged.derives_iff, hprintable.hasNonFinite_iff]
  · rw [hjudged.namesNonFinite_iff, hprintable.hasNonFinite_iff]
  · refine (Filter.spells_of_gives_process hgives hget hx).resolve_left fun hstart => ?_
    cases List.mem_singleton.1 (Table.mem_entries_of_get? hstart)

theorem onOutput_lastOf (echo : Text → Text) (e : Option Utf8.Error) :
    (lastOf e).onOutput echo = [] := by
  cases e <;> rfl

end Stream

/-- Of the lines of a stream a record is printed each, up to the first that is not processed to
the end, whatever bytes the stream has.  What is printed of a record is an object of the standard
grammar unless a field of the record holds an infinity or NaN; then it is none, and that number
is named outside of the strings.  Such a field is one that is converted to a binary64 number, and
a text spells that number which is the line itself or what a rule captured. -/
theorem session_standard {program : Text} {around : Surroundings} {arguments : List Text}
    (hecho : around.shell.Verbatim) (call : Invocation program around arguments) {f : Filter}
    (hfilter : call.request.filter (around.shell.refuse program) around.files = .ok f) :
    ∃ texts, List.Forall₂ (fun line text =>
          ∃ s final,
            f.process.Gives (Filter.lineRecord (.text line) (.text call.request.field)) s final ∧
            Stream.recordText final = .ok text ∧
            (Json.Derives .object text ↔ ¬ final.HoldsNonFinite) ∧
            (Json.NamesNonFinite text ↔ final.HoldsNonFinite) ∧
            ∀ name x, final.get? (.text name) = some (.float x) → x.isFinite = false →
              f.Spells (Filter.lineRecord (.text line) (.text call.request.field)) s name x)
        ((call.request.keptLines call.request.source.lines.1).takeWhile fun line =>
          f.process.Returns (Filter.lineRecord (.text line) (.text call.request.field))) texts ∧
      (session program around arguments).onOutput around.shell.echo =
        texts.flatMap (· ++ ['\n']) := by
  obtain ⟨c, -, hregister⟩ := Stream.exists_configures_of_filter hfilter
  obtain ⟨texts, hprints, honOutput⟩ := Stream.exists_prints_dissectAll hecho hregister call.log
    (Stream.onOutput_lastOf _ call.request.source.lines.2)
    (call.request.keptLines call.request.source.lines.1)
  refine ⟨texts, hprints.imp fun line text h => Stream.standard_of_prints hregister h, ?_⟩
  rw [call.session_of_filter hfilter, honOutput]

/-- A line whose second part spells NaN, and one whose second part is a number. -/
theorem session_standard_twoParts :
    let input : Text := "x nan\ny 1.5\n"
    let around := inputOf (Utf8.encode input)
    let named : Text := "\x7b\"message\": \"x nan\", \"a\": \"x\", \"b\": NaN\x7d"
    let standard : Text := "\x7b\"message\": \"y 1.5\", \"a\": \"y\", \"b\": 1.5\x7d"
    (twoPartCall (Utf8.encode input)).request.filter (around.shell.refuse "linedissect")
        around.files = .ok twoPartFilter ∧
      (session "linedissect" around twoPartArguments).onOutput around.shell.echo =
        named ++ ['\n'] ++ (standard ++ ['\n']) ∧
      ¬ Json.Derives .object named ∧ Json.NamesNonFinite named ∧
      Json.Derives .object standard ∧ ¬ Json.NamesNonFinite standard := by
  intro input around named standard
  have hfilter := filter_twoPartCall (Utf8.encode input) (around.shell.refuse "linedissect")
  have hlines : (((twoPartCall (Utf8.encode input)).request.keptLines
      (twoPartCall (Utf8.encode input)).request.source.lines.1).takeWhile fun line =>
        twoPartFilter.process.Returns (Filter.lineRecord (.text line)
          (.text (twoPartCall (Utf8.encode input)).request.field))) =
      ["x nan".toList, "y 1.5".toList] := by decide +kernel
  obtain ⟨texts, hprinted, honOutput⟩ :=
    session_standard Shell.verbatim_customary (twoPartCall (Utf8.encode input)) hfilter
  rw [hlines] at hprinted
  obtain _ | ⟨⟨_, _, ⟨-, rfl⟩, htext, hderives, hnames, -⟩, _ |
    ⟨⟨_, _, ⟨-, rfl⟩, htext', hderives', hnames', -⟩, ⟨⟩⟩⟩ := hprinted
  have hnamed : Stream.recordText (twoPartFilter.process.run
      (Filter.lineRecord (.text "x nan") (.text "message"))).record = .ok named := by decide +kernel
  have hstandard : Stream.recordText (twoPartFilter.process.run
      (Filter.lineRecord (.text "y 1.5") (.text "message"))).record = .ok standard := by
    decide +kernel
  obtain rfl := Except.ok.inj (hnamed.symm.trans htext)
  obtain rfl := Except.ok.inj (hstandard.symm.trans htext')
  have hnan : Record.HoldsNonFinite (twoPartFilter.process.run
      (Filter.lineRecord (.text "x nan") (.text "message"))).record :=
    ⟨"b", .nan, by decide +kernel, rfl⟩
  have hfinite : ¬ Record.HoldsNonFinite (twoPartFilter.process.run
      (Filter.lineRecord (.text "y 1.5") (.text "message"))).record := by
    have hentries : (twoPartFilter.process.run (Filter.lineRecord (.text "y 1.5")
        (.text "message"))).record.entries = [(.text "message", .text "y 1.5"),
          (.text "a", .text "y"), (.text "b", .float (Binary64.ofRatio false 3 2))] := by
      decide +kernel
    rintro ⟨name, x, hget, hx⟩
    have hmem := Table.mem_entries_of_get? hget
    rw [hentries] at hmem
    simp only [List.mem_cons, Prod.mk.injEq, List.not_mem_nil, or_false, reduceCtorEq, and_false,
      false_or, Value.float.injEq] at hmem
    rw [hmem.2] at hx
    revert hx
    decide +kernel
  refine ⟨hfilter, ?_, mt hderives.1 (not_not.2 hnan), hnames.2 hnan, hderives'.2 hfinite,
    mt hnames'.1 hfinite⟩
  simpa using honOutput

/-- A line is processed to the end, and what is printed of it is no standard JSON. -/
theorem not_standard_nan :
    let input : Text := "x nan\n"
    let around := inputOf (Utf8.encode input)
    let text : Text := "\x7b\"message\": \"x nan\", \"a\": \"x\", \"b\": NaN\x7d"
    (twoPartCall (Utf8.encode input)).request.filter (around.shell.refuse "linedissect")
        around.files = .ok twoPartFilter ∧
      twoPartFilter.process.Returns (Filter.lineRecord (.text "x nan") (.text "message")) ∧
      (session "linedissect" around twoPartArguments).onOutput around.shell.echo =
        text ++ ['\n'] ∧
      Json.NamesNonFinite text ∧ ∀ part, ¬ Json.Derives part text := by
  intro input around text
  have hnames : Json.NamesNonFinite text := by
    refine ⟨"NaN", by decide, ?_⟩
    decide +kernel
  refine ⟨filter_twoPartCall _ _, by decide +kernel, by decide +kernel, hnames, fun part h => ?_⟩
  exact h.not_namesNonFinite hnames

end CommandLine

end Dissection
