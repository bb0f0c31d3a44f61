import Dissection.Proofs.Captures
import Dissection.Proofs.Conversion

/-!
# What processing writes to the log

A run tells of itself twice: by the summary that it gives, and by the lines that it writes to
the log on the way.  The stages that write fields and tags are silent.  A rule writes one line
if it does not fit, and if it does, one line for each tag under which its pattern captures a
value and no name.  A conversion that fails writes the line that its failure gives as its
message.  So the summary alone, with the rules, tells which lines were written.

Which tags have a value and no name depends on the pattern alone.

## Main definitions

* `Action.Silent` — an action that writes no line.
* `Filter.ruleLines` — the lines of a rule that had an outcome.
* `Conversion.Failure.Logged` — the line of a failure.

## Main statements

* `Filter.log_of_gives_process` — the lines that processing a record writes.
-/

namespace Dissection

open Dissection.Action Dissection.Record

variable {r r' final : Record} {f : Filter} {s : Filter.Summary} {failureTags source : Value}
  {pattern : Pattern} {o : Outcome}

/-! ## The lines of actions -/

namespace Action

variable {α β : Type}

/-- An action in front of another writes its lines first. -/
theorem log_bind_of_gives {a : Action α} {next : α → Action β} {x : α} (h : a.Gives r x r') :
    ((a >>= next).run r).log = (a.run r).log ++ ((next x).run r').log := by
  obtain ⟨hresult, rfl⟩ := h
  simp only [run_bind, hresult]

@[simp] theorem log_get_bind (next : Record → Action β) :
    ((get >>= next).run r).log = ((next r).run r).log := rfl

@[simp] theorem log_log_bind (lines : List Log.Line) (next : Unit → Action β) :
    ((log lines >>= next).run r).log = lines ++ ((next ()).run r).log := rfl

/-- An action that writes no line. -/
def Silent (a : Action α) : Prop := ∀ r, (a.run r).log = []

theorem Silent.bind {a : Action α} {next : α → Action β} (ha : a.Silent)
    (hnext : ∀ x, (next x).Silent) : (a >>= next).Silent := by
  intro r
  rw [run_bind]
  cases (a.run r).result with
  | error fault => exact ha r
  | ok x => simp only [ha r, hnext x _, List.append_nil]

theorem silent_pure (x : α) : (pure x).Silent := fun _ => rfl

theorem silent_get : get.Silent := fun _ => rfl

theorem silent_set (name v : Value) : (set name v).Silent := fun _ => rfl

theorem silent_use (e : Except Value.Misfit α) : (use e).Silent := by
  cases e <;> exact fun _ => rfl

theorem silent_appendTag (tag : Value) : (appendTag tag).Silent := by
  intro r
  simp only [appendTag]
  cases Record.appendTag r tag <;> rfl

theorem silent_appendTags (tags : List Value) : (appendTags tags).Silent := by
  induction tags with
  | nil => exact silent_pure ()
  | cons tag rest ih => exact (silent_appendTag tag).bind fun _ => ih

theorem silent_setAll (entries : List (Text × Text)) : (setAll entries).Silent := by
  induction entries with
  | nil => exact silent_pure ()
  | cons entry rest ih => exact (silent_set _ _).bind fun _ => ih

end Action

/-! ## Rules -/

theorem Pattern.orphans_of_dissectField {p : Pattern} (h : p.dissectField r source = .ok o)
    (ho : o.isMatched = true) : o.orphans = p.unpairedTags := by
  obtain rfl | ⟨text, rfl⟩ := eq_of_dissectField h
  · cases ho
  · exact orphans_of_dissect ho

namespace Filter

/-- The lines of a rule that had an outcome. -/
def ruleLines (rule : Value × Pattern) : Outcome → List Log.Line
  | .matched .. => rule.2.unpairedTags.map fun tag =>
      .debug ("Dissector indirect value has no matching key, tag: " ++ tag)
  | .patternNotFound .. => [.warningFrom rule.1 "Dissector mapping, pattern not found"]
  | .keyNotFound => [.warningFrom rule.1 "Dissector mapping, key not found in event"]

theorem log_of_gives_applyRule {rule : Value × Pattern}
    (h : (applyRule failureTags rule.1 rule.2).Gives r o r') :
    ((applyRule failureTags rule.1 rule.2).run r).log = ruleLines rule o := by
  obtain ⟨ho, merged, tags, hset, htags, happend⟩ := gives_applyRule_iff.1 h
  have horphans := Pattern.orphans_of_dissectField ho
  rw [applyRule, log_get_bind, ho, use_ok_bind, log_log_bind, log_bind_of_gives hset, silent_setAll,
    List.nil_append]
  cases o with
  | matched values orphans =>
    obtain rfl : orphans = rule.2.unpairedTags := horphans rfl
    exact List.append_nil _
  | patternNotFound values token delimiter =>
    have hquiet := (silent_use failureTags.items).bind fun tags =>
      (silent_appendTags tags).bind fun _ =>
        silent_pure (Outcome.patternNotFound values token delimiter)
    exact congrArg (List.cons _) (hquiet merged)
  | keyNotFound => rfl

/-- Rules write their lines one after another. -/
theorem log_of_gives_applyRules {rules : List (Value × Pattern)}
    {outcomes : List (Value × Outcome)} (h : (applyRules failureTags rules).Gives r outcomes r') :
    ((applyRules failureTags rules).run r).log =
      (List.zipWith (fun rule entry => ruleLines rule entry.2) rules outcomes).flatten := by
  induction rules generalizing r outcomes with
  | nil =>
    obtain ⟨rfl, -⟩ := gives_applyRules_nil_iff.1 h
    rfl
  | cons rule rest ih =>
    obtain ⟨o, r₁, others, hrule, hothers, rfl⟩ := gives_applyRules_cons_iff.1 h
    rw [applyRules, log_bind_of_gives hrule, log_bind_of_gives hothers,
      log_of_gives_applyRule hrule, ih hothers]
    exact congrArg (_ ++ ·) (List.append_nil _)

end Filter

/-! ## Conversions -/

namespace Conversion

/-- The line of a failure says what the failure says of itself. -/
def Failure.Logged (failure : Failure) (line : Log.Line) : Prop :=
  ∃ message, failure.message = .ok message ∧ line = .warning message

theorem log_of_gives_report {failure : Failure} (h : (report failure).Gives r () r') :
    ∃ line, failure.Logged line ∧ ((report failure).run r).log = [line] := by
  obtain ⟨message, hmessage, happend⟩ := gives_report_iff.1 h
  refine ⟨.warning message, ⟨message, hmessage, rfl⟩, ?_⟩
  rw [report, Failure.warning_eq_message, hmessage]
  have hsilent := (silent_use failure.tag?).bind fun tag => silent_appendTag (.text tag)
  exact congrArg (_ ++ ·) (hsilent _)

/-- A conversion writes a line if it fails. -/
theorem log_of_gives_convertField {field datatype : Value} {failure : Option Failure}
    (h : (convertField field datatype).Gives r failure r') :
    List.Forall₂ Failure.Logged failure.toList ((convertField field datatype).run r).log := by
  rw [convertField, log_get_bind]
  rcases gives_convertField_iff.1 h with
    ⟨v, hv, rfl, rfl⟩ | ⟨cause, message, hcause, rfl, hmessage, happend⟩
  · rw [hv]
    exact .nil
  · have hreport : (report ⟨field, datatype, cause⟩).Gives r () r' :=
      gives_report_iff.2 ⟨message, hmessage, happend⟩
    obtain ⟨line, hline, hlog⟩ := log_of_gives_report hreport
    simp only [hcause]
    rw [log_bind_of_gives hreport, hlog]
    exact .cons hline .nil

/-- Conversions write a line for each failure. -/
theorem log_of_gives_convertAll {entries : List (Value × Value)} {failures : List Failure}
    (h : (convertAll entries).Gives r failures r') :
    List.Forall₂ Failure.Logged failures ((convertAll entries).run r).log := by
  induction entries generalizing r failures with
  | nil =>
    obtain ⟨rfl, -⟩ := gives_convertAll_nil_iff.1 h
    exact .nil
  | cons entry rest ih =>
    obtain ⟨failure, r₁, others, hfirst, hothers, rfl⟩ := gives_convertAll_cons_iff.1 h
    rw [convertAll, log_bind_of_gives hfirst, log_bind_of_gives hothers]
    refine List.rel_append (log_of_gives_convertField hfirst) ?_
    rw [show ((Pure.pure (failure.toList ++ others) : Action _).run _).log = [] from rfl]
    exact (List.append_nil _).symm ▸ ih hothers

/-- The fields of failures are among those that are converted. -/
theorem field_mem_of_gives_convertAll {entries : List (Value × Value)}
    {failures : List Failure}
    (h : (convertAll entries).Gives r failures r') {failure : Failure}
    (hfailure : failure ∈ failures) : failure.field ∈ entries.map Prod.fst := by
  induction entries generalizing r failures with
  | nil =>
    obtain ⟨rfl, -⟩ := gives_convertAll_nil_iff.1 h
    cases hfailure
  | cons entry rest ih =>
    obtain ⟨_, r₁, others, hfirst, hothers, rfl⟩ := gives_convertAll_cons_iff.1 h
    rcases List.mem_append.1 hfailure with hmem | hmem
    · rcases gives_convertField_iff.1 hfirst with
        ⟨_, -, rfl, -⟩ | ⟨cause, _, -, rfl, -⟩
      · cases hmem
      · obtain rfl := List.mem_singleton.1 hmem
        exact List.mem_cons_self
    · exact List.mem_cons_of_mem _ (ih hothers hmem)

end Conversion

/-! ## Additions -/

namespace Filter

theorem silent_filledIn (template : Value) : (filledIn template).Silent :=
  silent_get.bind fun _ => silent_use _

theorem silent_addField (entry : Value × Value) : (addField entry).Silent :=
  (silent_filledIn entry.1).bind fun _ => (silent_filledIn entry.2).bind fun _ => silent_set _ _

theorem silent_addTag (template : Value) : (addTag template).Silent :=
  (silent_filledIn template).bind fun _ => silent_appendTag _

theorem silent_addFields (entries : List (Value × Value)) : (addFields entries).Silent := by
  induction entries with
  | nil => exact silent_pure ()
  | cons entry rest ih => exact (silent_addField entry).bind fun _ => ih

theorem silent_addTags (templates : List Value) : (addTags templates).Silent := by
  induction templates with
  | nil => exact silent_pure ()
  | cons template rest ih => exact (silent_addTag template).bind fun _ => ih

/-- Adding fields and tags writes no line. -/
theorem silent_decorate (settings : Settings) : (decorate settings).Silent :=
  (silent_use _).bind fun _ => (silent_addFields _).bind fun _ =>
    (silent_use _).bind fun _ => silent_addTags _

/-! ## A whole run -/

theorem log_of_gives_finish {outcomes : List (Value × Outcome)}
    {failures : List Conversion.Failure} (h : (f.finish outcomes failures).Gives r s final) :
    ((f.finish outcomes failures).run r).log = [after] := by
  obtain ⟨hdecorate, -⟩ := gives_finish_iff.1 h
  rw [finish, log_get_bind]
  cases hsuccess : isSuccess outcomes with
  | true =>
    rw [hsuccess, if_pos rfl] at hdecorate
    rw [if_pos rfl]
    exact (log_bind_of_gives hdecorate).trans (congrArg (· ++ _) (silent_decorate f.settings r))
  | false => rfl

/-- Unless the tags are to be converted, a summary has the failures as they occurred. -/
theorem failures_of_gives_finish {outcomes : List (Value × Outcome)}
    {failures : List Conversion.Failure} (h : (f.finish outcomes failures).Gives r s final)
    (htags : ∀ failure ∈ failures, failure.field ≠ .text tagsField) : s.failures = failures := by
  rw [(gives_finish_iff.1 h).2]
  refine (List.map_congr_left fun failure hfailure => ?_).trans (List.map_id _)
  exact Conversion.seenWith_eq_self (htags failure hfailure) _

/-- Processing a record writes a line before, the lines of the rules' outcomes, a line for each
failure that says what the failure says of itself, and a line after, in this order and no other
line, unless the tags are to be converted. -/
theorem log_of_gives_process (h : f.process.Gives r s final)
    (htags : .text tagsField ∉ f.conversions.keys) :
    s.outcomes.keys = f.rules.keys ∧
    ∃ failureLines, List.Forall₂ Conversion.Failure.Logged s.failures failureLines ∧
      (f.process.run r).log =
        [before] ++
          (List.zipWith (fun rule entry => ruleLines rule entry.2) f.rules.entries
            s.outcomes.entries).flatten ++
          failureLines ++ [after] := by
  obtain ⟨failures, converted, hconverts, hfinish⟩ := entries_outcomes_of_gives_process h
  obtain ⟨r₁, hrules, hconvert⟩ := id hconverts
  have hfailures : s.failures = failures := by
    refine failures_of_gives_finish hfinish fun failure hfailure hfield => htags ?_
    rw [← hfield]
    exact Conversion.field_mem_of_gives_convertAll hconvert hfailure
  have hlines := Conversion.log_of_gives_convertAll hconvert
  refine ⟨keys_of_converts hconverts, _, hfailures ▸ hlines, ?_⟩
  rw [process, log_log_bind, log_bind_of_gives hrules, log_bind_of_gives hconvert,
    log_of_gives_applyRules hrules, log_of_gives_finish hfinish]
  simp only [List.append_assoc]

/-- A filter with a rule for each of three fields, which converts a field as well. -/
def unnamedValue : Filter where
  settings := Config.settings { failureTags := ["failed"] }
  conversions := Table.ofList [(.text "a", .text "int"), (.text "d", .text "float")]
  rules := Table.ofList [
    (.text "first",
      { leading := []
        tokens := [⟨⟨"k", .value, "&k"⟩, " "⟩, ⟨⟨"a", .normal, "a"⟩, []⟩] }),
    (.text "second", { leading := [], tokens := [⟨⟨"b", .normal, "b"⟩, ";"⟩] }),
    (.text "third", { leading := [], tokens := [⟨⟨"c", .normal, "c"⟩, []⟩] })]
  registered := true

/-- A tag without a name, a literal and a field that are not found, and two failures. -/
theorem log_of_gives_process_unnamedValue :
    let r : Record := Table.ofList [(.text "first", .text "x y"), (.text "second", .text "z")]
    let s : Summary :=
      { outcomes := Table.ofList [
          (.text "first", .matched (Table.ofList [("a", "y")]) ["k"]),
          (.text "second", .patternNotFound {} (some 0) ";"),
          (.text "third", .keyNotFound)]
        failures := [⟨.text "a", .text "int", .uncoercible (.text "y")⟩,
          ⟨.text "d", .text "float", .nullValue⟩] }
    let final : Record := Table.ofList [(.text "first", .text "x y"), (.text "second", .text "z"),
      (.text "a", .text "y"), (.text tagsField, .list [.text "failed",
        .text "_dataconversionuncoercible_a_int", .text "_dataconversionnullvalue_d_float"])]
    unnamedValue.process.Gives r s final ∧
      .text tagsField ∉ unnamedValue.conversions.keys ∧
      ∃ failureLines, List.Forall₂ Conversion.Failure.Logged s.failures failureLines ∧
        (unnamedValue.process.run r).log =
          [before,
            .debug "Dissector indirect value has no matching key, tag: k",
            .warningFrom (.text "second") "Dissector mapping, pattern not found",
            .warningFrom (.text "third") "Dissector mapping, key not found in event"] ++
          failureLines ++ [after] := by
  intro r s final
  have h : unnamedValue.process.Gives r s final := by decide +kernel
  have htags : .text tagsField ∉ unnamedValue.conversions.keys := by
    have hkeys : unnamedValue.conversions.keys = [.text "a", .text "d"] := by decide +kernel
    simp [hkeys, tagsField]
  obtain ⟨-, failureLines, hlines, hlog⟩ := log_of_gives_process h htags
  have hrules : (List.zipWith (fun rule entry => ruleLines rule entry.2)
      unnamedValue.rules.entries s.outcomes.entries).flatten =
        [.debug "Dissector indirect value has no matching key, tag: k",
          .warningFrom (.text "second") "Dissector mapping, pattern not found",
          .warningFrom (.text "third") "Dissector mapping, key not found in event"] := by
    decide +kernel
  rw [hrules] at hlog
  exact ⟨h, htags, failureLines, hlines, hlog⟩

end Filter

end Dissection
