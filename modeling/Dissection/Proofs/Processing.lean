import Dissection.Filter
import Dissection.Proofs.Action
import Dissection.Proofs.Record

/-!
# The stages of processing

A registered filter processes a record in stages: it applies its rules one after another,
converts fields one after another and, where every rule matched, adds fields and then
tags.  For each stage it is said here what one step gives, so that what a whole run gives
follows by going along the steps.

## Main definitions

* `Filter.Converts` — the record when the rules are applied and the fields converted.
* `Filter.Captures`, `Filter.Adds` — the names of the fields that rules and additions write.

## Main statements

* `Filter.gives_applyRule_iff`, `Conversion.gives_convertField_iff`,
  `Filter.gives_addField_iff` — one step of each stage.
* `Filter.gives_process_iff` — the stages together.
-/

namespace Dissection

open Dissection.Action

variable {r r' r'' : Record}

/-! ## Writing fields and tags -/

namespace Action

@[simp] theorem gives_setAll_nil_iff {x : Unit} : (setAll []).Gives r x r' ↔ r = r' := by
  simp [setAll]

@[simp] theorem gives_setAll_cons_iff {entry : Text × Text} {rest : List (Text × Text)} {x : Unit} :
    (setAll (entry :: rest)).Gives r x r' ↔
      (setAll rest).Gives (Table.put r (.text entry.1) (.text entry.2)) x r' := by
  simp [setAll]

/-- Writing fields always comes to its end. -/
theorem returns_setAll (entries : List (Text × Text)) (r : Record) :
    (setAll entries).Returns r := by
  induction entries generalizing r with
  | nil => exact ⟨(), r, by simp⟩
  | cons entry rest ih =>
    obtain ⟨x, r', h⟩ := ih (Table.put r (.text entry.1) (.text entry.2))
    exact ⟨x, r', gives_setAll_cons_iff.2 h⟩

/-- What every write keeps holds when all fields are written. -/
theorem keeps_of_gives_setAll (Inv : Record → Prop) {entries : List (Text × Text)} (hr : Inv r)
    (h : (setAll entries).Gives r () r')
    (hput : ∀ entry ∈ entries, ∀ r, Inv r → Inv (Table.put r (.text entry.1) (.text entry.2))) :
    Inv r' := by
  induction entries generalizing r with
  | nil =>
    obtain rfl := gives_setAll_nil_iff.1 h
    exact hr
  | cons entry rest ih =>
    obtain ⟨hfirst, hrest⟩ := List.forall_mem_cons.1 hput
    exact ih (hfirst r hr) (gives_setAll_cons_iff.1 h) hrest

@[simp] theorem gives_appendTags_nil_iff {x : Unit} : (appendTags []).Gives r x r' ↔ r = r' := by
  simp [appendTags]

@[simp] theorem gives_appendTags_cons_iff {tag : Value} {tags : List Value} {x : Unit} :
    (appendTags (tag :: tags)).Gives r x r'' ↔
      ∃ r', Record.appendTag r tag = .ok r' ∧ (appendTags tags).Gives r' x r'' := by
  simp [appendTags]

end Action

/-! ## Conversions -/

namespace Conversion

/-- What is said of a failure when it occurs is what it says of itself. -/
theorem Failure.warning_eq_message (failure : Failure) : failure.warning = failure.message := by
  obtain ⟨field, datatype, cause⟩ := failure
  cases cause <;> rfl

/-- The names of a failure of texts have texts. -/
@[simp] theorem Failure.isNamed_texts (field datatype : Text) (cause : Cause) :
    Failure.isNamed ⟨.text field, .text datatype, cause⟩ = true := rfl

/-- A failure is reported if its message can be shown and its tag appended. -/
@[simp] theorem gives_report_iff {failure : Failure} {x : Unit} :
    (report failure).Gives r x r' ↔
      ∃ message, failure.message = .ok message ∧ failure.isNamed = true ∧
        Record.appendTag r (.text failure.tag) = .ok r' := by
  rw [report, Failure.warning_eq_message]
  cases failure.message with
  | error u => simp
  | ok message =>
    simp only [gives_log_iff, exists_eq_left', gives_seq_iff, Except.ok.injEq, Failure.tag?]
    by_cases h : failure.isNamed = true
    · rw [if_pos h, use_ok_bind, gives_appendTag_iff]
      simp [h]
    · simp [h]

/-- What is converted is coerced to the datatype that is named. -/
theorem coerce_of_judge {datatype v w : Value} (h : judge datatype v = .ok (.inl w)) :
    ∃ target, Datatype.ofValue datatype = .ok (some target) ∧ coerce target v = .ok w := by
  unfold judge at h
  split at h
  · cases h
  · cases h
  · cases h
  · next found target htarget _ =>
    split at h
    · next hcoerce =>
      cases h
      exact ⟨target, htarget, hcoerce⟩
    · cases h
    · cases h

/-- Converting a field writes the converted value, or reports the cause with a tag. -/
theorem gives_convertField_iff {field datatype : Value} {failure : Option Failure} :
    (convertField field datatype).Gives r failure r' ↔
      (∃ v, judge datatype (Record.value r field) = .ok (.inl v) ∧ failure = none ∧
        Table.put r field v = r') ∨
      ∃ cause message, judge datatype (Record.value r field) = .ok (.inr cause) ∧
        failure = some ⟨field, datatype, cause⟩ ∧
        Failure.message ⟨field, datatype, cause⟩ = .ok message ∧
        Failure.isNamed ⟨field, datatype, cause⟩ = true ∧
        Record.appendTag r (.text (Failure.tag ⟨field, datatype, cause⟩)) = .ok r' := by
  rw [convertField, gives_get_bind_iff]
  cases judge datatype (Record.value r field) with
  | error fault => simp
  | ok verdict =>
    cases verdict with
    | inl v =>
      simp only [gives_seq_iff, gives_set_iff, monad_pure_eq, gives_pure_iff]
      constructor
      · rintro ⟨_, rfl, rfl, rfl⟩
        exact .inl ⟨v, rfl, rfl, rfl⟩
      · rintro (⟨_, ⟨⟩, rfl, rfl⟩ | ⟨_, _, h, -⟩)
        · exact ⟨_, rfl, rfl, rfl⟩
        · cases h
    | inr cause =>
      simp only [gives_seq_iff, gives_report_iff, monad_pure_eq, gives_pure_iff]
      constructor
      · rintro ⟨_, ⟨message, hreported⟩, rfl, rfl⟩
        exact .inr ⟨cause, message, rfl, rfl, hreported⟩
      · rintro (⟨v, h, -⟩ | ⟨_, message, ⟨⟩, rfl, hreported⟩)
        · cases h
        · exact ⟨r', ⟨message, hreported⟩, rfl, rfl⟩

@[simp] theorem gives_convertAll_nil_iff {failures : List Failure} :
    (convertAll []).Gives r failures r' ↔ failures = [] ∧ r = r' := by
  simp [convertAll, eq_comm]

@[simp] theorem gives_convertAll_cons_iff {entry : Value × Value} {rest : List (Value × Value)}
    {failures : List Failure} :
    (convertAll (entry :: rest)).Gives r failures r'' ↔
      ∃ failure r' others, (convertField entry.1 entry.2).Gives r failure r' ∧
        (convertAll rest).Gives r' others r'' ∧ failures = failure.toList ++ others := by
  simp [convertAll, eq_comm]

end Conversion

/-! ## Rules -/

/-- A field is not found, or its text is dissected. -/
theorem Pattern.eq_of_dissectField {p : Pattern} {source : Value} {o : Outcome}
    (h : p.dissectField r source = .ok o) : o = .keyNotFound ∨ ∃ text, o = p.dissect text := by
  unfold dissectField at h
  split at h
  · exact .inl (Except.ok.inj h).symm
  · exact .inl (Except.ok.inj h).symm
  · next v _ _ =>
    cases hv : v.shown with
    | error m =>
      rw [hv] at h
      cases h
    | ok text =>
      rw [hv] at h
      exact .inr ⟨text, (Except.ok.inj h).symm⟩

/-- The tags that an outcome brings: the failure tags where a literal was not found. -/
def Outcome.tags (failureTags : Value) : Outcome → Except Value.Misfit (List Value)
  | .patternNotFound .. => failureTags.items
  | .matched .. | .keyNotFound => .ok []

namespace Filter

/-- Applying a rule writes what was captured and appends the tags of the outcome. -/
theorem gives_applyRule_iff {failureTags source : Value} {pattern : Pattern} {o : Outcome} :
    (applyRule failureTags source pattern).Gives r o r' ↔
      pattern.dissectField r source = .ok o ∧ ∃ merged tags,
        (setAll o.values.entries).Gives r () merged ∧ o.tags failureTags = .ok tags ∧
          (appendTags tags).Gives merged () r' := by
  rw [applyRule, gives_get_bind_iff]
  cases pattern.dissectField r source with
  | error m => simp
  | ok found =>
    rw [use_ok_bind, Except.ok.injEq]
    simp only [gives_seq_iff, gives_log_iff, exists_eq_left']
    cases found with
    | matched =>
      simp only [monad_pure_eq, gives_pure_iff]
      constructor
      · rintro ⟨merged, hset, rfl, rfl⟩
        exact ⟨rfl, merged, [], hset, rfl, gives_appendTags_nil_iff.2 rfl⟩
      · rintro ⟨rfl, merged, tags, hset, ⟨⟩, htags⟩
        exact ⟨merged, hset, rfl, gives_appendTags_nil_iff.1 htags⟩
    | keyNotFound =>
      simp only [gives_seq_iff, gives_log_iff, exists_eq_left', monad_pure_eq, gives_pure_iff]
      constructor
      · rintro ⟨merged, hset, rfl, rfl⟩
        exact ⟨rfl, merged, [], hset, rfl, gives_appendTags_nil_iff.2 rfl⟩
      · rintro ⟨rfl, merged, tags, hset, ⟨⟩, htags⟩
        exact ⟨merged, hset, rfl, gives_appendTags_nil_iff.1 htags⟩
    | patternNotFound =>
      simp only [gives_seq_iff, gives_log_iff, exists_eq_left', monad_pure_eq]
      constructor
      · rintro ⟨merged, hset, happend⟩
        obtain ⟨tags, _, huse, hrest⟩ := gives_bind_iff.1 happend
        obtain ⟨hitems, rfl⟩ := gives_use_iff.1 huse
        obtain ⟨_, htags, h⟩ := gives_seq_iff.1 hrest
        obtain ⟨rfl, rfl⟩ := gives_pure_iff.1 h
        exact ⟨rfl, merged, tags, hset, hitems, htags⟩
      · rintro ⟨rfl, merged, tags, hset, hitems, htags⟩
        refine ⟨merged, hset, gives_bind_iff.2 ⟨tags, merged, gives_use_iff.2 ⟨hitems, rfl⟩, ?_⟩⟩
        exact gives_seq_iff.2 ⟨r', htags, gives_pure_iff.2 ⟨rfl, rfl⟩⟩

@[simp] theorem gives_applyRules_nil_iff {failureTags : Value}
    {outcomes : List (Value × Outcome)} :
    (applyRules failureTags []).Gives r outcomes r' ↔ outcomes = [] ∧ r = r' := by
  simp [applyRules, eq_comm]

@[simp] theorem gives_applyRules_cons_iff {failureTags : Value} {rule : Value × Pattern}
    {rest : List (Value × Pattern)} {outcomes : List (Value × Outcome)} :
    (applyRules failureTags (rule :: rest)).Gives r outcomes r'' ↔
      ∃ o r' others, (applyRule failureTags rule.1 rule.2).Gives r o r' ∧
        (applyRules failureTags rest).Gives r' others r'' ∧ outcomes = (rule.1, o) :: others := by
  simp [applyRules, eq_comm]

/-- Rules have one outcome each, in order. -/
theorem keys_of_gives_applyRules {failureTags : Value} {rules : List (Value × Pattern)}
    {outcomes : List (Value × Outcome)}
    (h : (applyRules failureTags rules).Gives r outcomes r') :
    outcomes.map Prod.fst = rules.map Prod.fst := by
  induction rules generalizing r outcomes with
  | nil =>
    obtain ⟨rfl, -⟩ := gives_applyRules_nil_iff.1 h
    rfl
  | cons rule rest ih =>
    obtain ⟨o, r₁, others, -, hrest, rfl⟩ := gives_applyRules_cons_iff.1 h
    rw [List.map_cons, List.map_cons, ih hrest]

/-- Every outcome is that of a rule when it was reached. -/
theorem reaches_of_mem_outcomes {failureTags : Value} {rules : List (Value × Pattern)}
    {outcomes : List (Value × Outcome)} (h : (applyRules failureTags rules).Gives r outcomes r')
    {entry : Value × Outcome} (he : entry ∈ outcomes) :
    ∃ pattern r₁, Reaches (fun rule => applyRule failureTags rule.1 rule.2) rules
      r (entry.1, pattern) r₁ ∧ pattern.dissectField r₁ entry.1 = .ok entry.2 := by
  induction rules generalizing r outcomes with
  | nil =>
    obtain ⟨rfl, -⟩ := gives_applyRules_nil_iff.1 h
    cases he
  | cons rule rest ih =>
    obtain ⟨o, r₁, others, hrule, hrest, rfl⟩ := gives_applyRules_cons_iff.1 h
    rcases List.mem_cons.1 he with rfl | he
    · exact ⟨rule.2, r, .here, (gives_applyRule_iff.1 hrule).1⟩
    · obtain ⟨pattern, r₂, hreach, ho⟩ := ih hrest he
      exact ⟨pattern, r₂, .later hrule hreach, ho⟩

/-! ## Additions -/

/-- A template that is a text yields what that text is filled in to. -/
theorem yield_text (r : Record) (template : Text) :
    yield r (.text template) = Template.interpolate r template := rfl

theorem yield_congr {r r' : Record} (h : ∀ name : Text, r.get? (.text name) = r'.get? (.text name))
    (template : Value) : yield r template = yield r' template := by
  rw [yield, yield, funext (Template.interpolate_congr h)]

@[simp] theorem gives_filledIn_iff {template : Value} {text : Text} :
    (filledIn template).Gives r text r' ↔ yield r template = .ok text ∧ r = r' := by
  rw [filledIn, gives_get_bind_iff, gives_use_iff]

/-- Adding a field writes the text that its template yields under the name that its other
template yields. -/
theorem gives_addField_iff {entry : Value × Value} {x : Unit} :
    (addField entry).Gives r x r' ↔
      ∃ name text, yield r entry.1 = .ok name ∧ yield r entry.2 = .ok text ∧
        Table.put r (.text name) (.text text) = r' := by
  simp only [addField, gives_bind_iff, gives_set_iff, gives_filledIn_iff]
  constructor
  · rintro ⟨name, _, ⟨hname, rfl⟩, text, _, ⟨htext, rfl⟩, rfl⟩
    exact ⟨name, text, hname, htext, rfl⟩
  · rintro ⟨name, text, hname, htext, rfl⟩
    exact ⟨name, r, ⟨hname, rfl⟩, text, r, ⟨htext, rfl⟩, rfl⟩

@[simp] theorem gives_addFields_nil_iff {x : Unit} : (addFields []).Gives r x r' ↔ r = r' := by
  simp [addFields]

@[simp] theorem gives_addFields_cons_iff {entry : Value × Value} {rest : List (Value × Value)}
    {x : Unit} :
    (addFields (entry :: rest)).Gives r x r'' ↔
      ∃ r', (addField entry).Gives r () r' ∧ (addFields rest).Gives r' x r'' := by
  rw [addFields, gives_seq_iff]

theorem gives_addTag_iff {template : Value} {x : Unit} :
    (addTag template).Gives r x r' ↔
      ∃ tag, yield r template = .ok tag ∧ Record.appendTag r (.text tag) = .ok r' := by
  simp only [addTag, gives_bind_iff, gives_appendTag_iff, gives_filledIn_iff]
  constructor
  · rintro ⟨tag, _, ⟨htag, rfl⟩, happend⟩
    exact ⟨tag, htag, happend⟩
  · rintro ⟨tag, htag, happend⟩
    exact ⟨tag, r, ⟨htag, rfl⟩, happend⟩

@[simp] theorem gives_addTags_nil_iff {x : Unit} : (addTags []).Gives r x r' ↔ r = r' := by
  simp [addTags]

@[simp] theorem gives_addTags_cons_iff {template : Value} {rest : List Value} {x : Unit} :
    (addTags (template :: rest)).Gives r x r'' ↔
      ∃ r', (addTag template).Gives r () r' ∧ (addTags rest).Gives r' x r'' := by
  rw [addTags, gives_seq_iff]

/-- Decorating adds the fields and then the tags. -/
theorem gives_decorate_iff {s : Settings} {x : Unit} :
    (decorate s).Gives r x r'' ↔
      ∃ fields r' tags, s.addedFields.entries = .ok fields ∧ (addFields fields).Gives r () r' ∧
        s.addedTags.items = .ok tags ∧ (addTags tags).Gives r' () r'' := by
  simp only [decorate, gives_bind_iff, gives_use_iff]
  constructor
  · rintro ⟨fields, _, ⟨hfields, rfl⟩, ⟨⟩, r', hadd, tags, _, ⟨htags, rfl⟩, h⟩
    exact ⟨fields, r', tags, hfields, hadd, htags, h⟩
  · rintro ⟨fields, r', tags, hfields, hadd, htags, h⟩
    exact ⟨fields, r, ⟨hfields, rfl⟩, (), r', hadd, tags, r', ⟨htags, rfl⟩, h⟩

/-! ## The stages together -/

theorem gives_finish_iff {f : Filter} {outcomes : List (Value × Outcome)}
    {failures : List Conversion.Failure} {s : Summary} {final : Record} :
    (f.finish outcomes failures).Gives r s final ↔
      (if isSuccess outcomes then (decorate f.settings).Gives r () final else r = final) ∧
        s = ⟨Table.ofList outcomes, failures.map
          (.seenWith ((Record.tagList? final).or (Record.tagList? r)))⟩ := by
  rw [finish, gives_get_bind_iff]
  cases isSuccess outcomes with
  | false =>
    simp only [Bool.false_eq_true, if_false, gives_get_bind_iff, gives_seq_iff, gives_log_iff,
      exists_eq_left', monad_pure_eq, gives_pure_iff]
    constructor
    · rintro ⟨rfl, rfl⟩
      exact ⟨rfl, rfl⟩
    · rintro ⟨rfl, rfl⟩
      exact ⟨rfl, rfl⟩
  | true =>
    simp only [if_true, gives_get_bind_iff, gives_seq_iff, gives_log_iff, exists_eq_left',
      monad_pure_eq, gives_pure_iff]
    constructor
    · rintro ⟨_, hdecorate, rfl, rfl⟩
      exact ⟨hdecorate, rfl⟩
    · rintro ⟨hdecorate, rfl⟩
      exact ⟨final, hdecorate, rfl, rfl⟩

/-- The rules are applied to a record and its fields are converted, with these outcomes and
failures and this record. -/
def Converts (f : Filter) (r : Record) (outcomes : List (Value × Outcome))
    (failures : List Conversion.Failure) (converted : Record) : Prop :=
  ∃ r', (applyRules f.settings.failureTags f.rules.entries).Gives r outcomes r' ∧
    (Conversion.convertAll f.conversions.entries).Gives r' failures converted

theorem Converts.unique {f : Filter} {outcomes outcomes' : List (Value × Outcome)}
    {failures failures' : List Conversion.Failure}
    (h : f.Converts r outcomes failures r') (h' : f.Converts r outcomes' failures' r'') :
    outcomes = outcomes' ∧ failures = failures' ∧ r' = r'' := by
  obtain ⟨_, hrules, hconvert⟩ := h
  obtain ⟨_, hrules', hconvert'⟩ := h'
  obtain ⟨rfl, rfl⟩ := hrules.unique hrules'
  exact ⟨rfl, hconvert.unique hconvert'⟩

theorem keys_of_converts {f : Filter} {outcomes : List (Value × Outcome)}
    {failures : List Conversion.Failure} {converted : Record}
    (h : f.Converts r outcomes failures converted) : outcomes.map Prod.fst = f.rules.keys := by
  obtain ⟨_, hrules, -⟩ := h
  exact keys_of_gives_applyRules hrules

/-- Processing a record is to convert it and to finish it. -/
theorem gives_process_iff {f : Filter} {s : Summary} {final : Record} :
    f.process.Gives r s final ↔
      ∃ outcomes failures converted, f.Converts r outcomes failures converted ∧
        (f.finish outcomes failures).Gives converted s final := by
  rw [process, gives_seq_iff]
  simp only [gives_log_iff, exists_eq_left', gives_bind_iff, Converts]
  constructor
  · rintro ⟨outcomes, r', hrules, failures, converted, hconvert, h⟩
    exact ⟨outcomes, failures, converted, ⟨r', hrules, hconvert⟩, h⟩
  · rintro ⟨outcomes, failures, converted, ⟨r', hrules, hconvert⟩, h⟩
    exact ⟨outcomes, r', hrules, failures, converted, hconvert, h⟩

/-- The outcomes of a run are those of its rules, in order. -/
theorem entries_outcomes_of_gives_process {f : Filter} {s : Summary} {final : Record}
    (h : f.process.Gives r s final) :
    ∃ failures converted, f.Converts r s.outcomes.entries failures converted ∧
      (f.finish s.outcomes.entries failures).Gives converted s final := by
  obtain ⟨outcomes, failures, converted, hconverts, hfinish⟩ := gives_process_iff.1 h
  have hkeys := keys_of_converts hconverts
  have houtcomes : s.outcomes.entries = outcomes := by
    rw [(gives_finish_iff.1 hfinish).2]
    exact Table.entries_foldl_put ∅ (hkeys.symm ▸ f.rules.distinct)
  exact ⟨failures, converted, houtcomes ▸ hconverts, houtcomes ▸ hfinish⟩

theorem returns_process_iff {f : Filter} :
    f.process.Returns r ↔ ∃ outcomes failures converted, f.Converts r outcomes failures converted ∧
      (isSuccess outcomes → (decorate f.settings).Returns converted) := by
  constructor
  · rintro ⟨s, final, h⟩
    obtain ⟨outcomes, failures, converted, hconverts, hfinish⟩ := gives_process_iff.1 h
    refine ⟨outcomes, failures, converted, hconverts, fun hsuccess => ?_⟩
    have hdecorate := (gives_finish_iff.1 hfinish).1
    rw [if_pos hsuccess] at hdecorate
    exact hdecorate.returns
  · rintro ⟨outcomes, failures, converted, hconverts, hdecorate⟩
    have hfinal : ∃ final, if isSuccess outcomes then
        (decorate f.settings).Gives converted () final else converted = final := by
      split
      · next hsuccess =>
        obtain ⟨_, final, h⟩ := hdecorate hsuccess
        exact ⟨final, h⟩
      · exact ⟨converted, rfl⟩
    obtain ⟨final, hfinal⟩ := hfinal
    exact ⟨_, final, gives_process_iff.2
      ⟨outcomes, failures, converted, hconverts, gives_finish_iff.2 ⟨hfinal, rfl⟩⟩⟩

/-- A rule is reached that captures a field under this name. -/
def Captures (f : Filter) (r : Record) (name : Text) : Prop :=
  ∃ source pattern r',
    Reaches (fun rule => applyRule f.settings.failureTags rule.1 rule.2) f.rules.entries
      r (source, pattern) r' ∧
    ∃ o, pattern.dissectField r' source = .ok o ∧ name ∈ o.values.keys

/-- A record is decorated with a field under this name. -/
def Adds (f : Filter) (r : Record) (name : Text) : Prop :=
  ∃ outcomes failures converted entries entry r', f.Converts r outcomes failures converted ∧
    isSuccess outcomes ∧ f.settings.addedFields.entries = .ok entries ∧
    Reaches addField entries converted entry r' ∧ yield r' entry.1 = .ok name

/-- What is among the values of an outcome was captured. -/
theorem captures_of_mem_outcomes {f : Filter} {outcomes : List (Value × Outcome)}
    (h : (applyRules f.settings.failureTags f.rules.entries).Gives r outcomes r')
    {entry : Value × Outcome} (he : entry ∈ outcomes) {name : Text}
    (hname : name ∈ entry.2.values.keys) : f.Captures r name := by
  obtain ⟨pattern, r₁, hreach, ho⟩ := reaches_of_mem_outcomes h he
  exact ⟨entry.1, pattern, r₁, hreach, entry.2, ho, hname⟩

end Filter

end Dissection
