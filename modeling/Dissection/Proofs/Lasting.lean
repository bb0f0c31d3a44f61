import Dissection.Proofs.Processing

/-!
# Properties of records that last

Processing a record writes fields and appends tags, and does nothing else to it.  What is
written to a field is a text, or what its value is converted to; what is appended is a text or
one of the failure tags.  So a property of records lasts through a whole run if it lasts through
such a write and through such a tag.  The stages are gone through once for any property of that
kind, and for any choice of what may be written where.

## Main definitions

* `Record.Writable` — what can be written to a field of a record.
* `Filter.IsTag` — what can be appended to its tags.
* `Record.Lasting` — a property that some writes and appending tags keep.

## Main statements

* `Record.Lasting.applyRules`, `Record.Lasting.convertAll`, `Record.Lasting.finish` — what
  lasts through each stage.
* `Record.Lasting.process` — what lasts through a whole run.
-/

namespace Dissection

open Dissection.Action Dissection.Record

variable {r r' final : Record} {f : Filter} {s : Filter.Summary} {failureTags source : Value}
  {pattern : Pattern} {o : Outcome} {rules : List (Value × Pattern)}

/-! ## Writes and tags -/

/-- What can be written to a field of a record: a text, or what its value is converted to. -/
inductive Record.Writable (r : Record) (name : Value) : Value → Prop
  | text (t : Text) : Writable r name (.text t)
  | converted {datatype v : Value} :
      Conversion.judge datatype (r.value name) = .ok (.inl v) → Writable r name v

/-- What can be appended to the tags of a record: a text, or a failure tag. -/
inductive Filter.IsTag (failureTags : Value) : Value → Prop
  | text (t : Text) : IsTag failureTags (.text t)
  | failure {tags : List Value} {tag : Value} :
      failureTags.items = .ok tags → tag ∈ tags → IsTag failureTags tag

/-- The tags that an outcome brings are failure tags. -/
theorem Outcome.isTag_of_mem_tags {tags : List Value} {tag : Value}
    (h : o.tags failureTags = .ok tags) (ht : tag ∈ tags) : Filter.IsTag failureTags tag := by
  cases o with
  | patternNotFound => exact .failure h ht
  | matched | keyNotFound =>
    cases h
    cases ht

namespace Record

/-- A property of records that lasts while what may be written to a field is written there, and
while tags are appended. -/
structure Lasting (failureTags : Value) (writes : Record → Value → Value → Prop)
    (Inv : Record → Prop) : Prop where
  put : ∀ {r : Record} {name v : Value}, writes r name v → Inv r → Inv (Table.put r name v)
  appendTag : ∀ {r r' : Record} {tag : Value}, Filter.IsTag failureTags tag → Inv r →
    Record.appendTag r tag = .ok r' → Inv r'

namespace Lasting

variable {writes : Record → Value → Value → Prop} {Inv : Record → Prop}

/-! ### Rules -/

theorem setAll (h : Lasting failureTags writes Inv) {entries : List (Text × Text)} (hr : Inv r)
    (hset : (setAll entries).Gives r () r')
    (hwrites : ∀ entry ∈ entries, ∀ r, writes r (.text entry.1) (.text entry.2)) : Inv r' :=
  keeps_of_gives_setAll Inv hr hset fun entry he r hr => h.put (hwrites entry he r) hr

theorem appendTags (h : Lasting failureTags writes Inv) {tags : List Value} (hr : Inv r)
    (happend : (appendTags tags).Gives r () r')
    (htags : ∀ tag ∈ tags, Filter.IsTag failureTags tag) : Inv r' := by
  induction tags generalizing r with
  | nil =>
    obtain rfl := gives_appendTags_nil_iff.1 happend
    exact hr
  | cons tag rest ih =>
    obtain ⟨htag, hlater⟩ := List.forall_mem_cons.1 htags
    obtain ⟨r₁, hfirst, hrest⟩ := gives_appendTags_cons_iff.1 happend
    exact ih (h.appendTag htag hr hfirst) hrest hlater

/-- What lasts while captures are written lasts through a rule. -/
theorem applyRule (h : Lasting failureTags writes Inv) (hr : Inv r)
    (hrule : (Filter.applyRule failureTags source pattern).Gives r o r')
    (hwrites : ∀ entry ∈ o.values.entries, ∀ r, writes r (.text entry.1) (.text entry.2)) :
    Inv r' := by
  obtain ⟨-, merged, tags, hset, htags, happend⟩ := Filter.gives_applyRule_iff.1 hrule
  refine h.appendTags (h.setAll hr hset hwrites) happend fun tag ht => ?_
  exact Outcome.isTag_of_mem_tags htags ht

theorem applyRules (h : Lasting failureTags writes Inv) {outcomes : List (Value × Outcome)}
    (hr : Inv r) (hrules : (Filter.applyRules failureTags rules).Gives r outcomes r')
    (hwrites : ∀ outcome ∈ outcomes, ∀ entry ∈ outcome.2.values.entries, ∀ r,
      writes r (.text entry.1) (.text entry.2)) : Inv r' := by
  induction rules generalizing r outcomes with
  | nil =>
    obtain ⟨-, rfl⟩ := Filter.gives_applyRules_nil_iff.1 hrules
    exact hr
  | cons rule rest ih =>
    obtain ⟨o, r₁, others, hrule, hothers, rfl⟩ := Filter.gives_applyRules_cons_iff.1 hrules
    obtain ⟨hfirst, hlater⟩ := List.forall_mem_cons.1 hwrites
    exact ih (h.applyRule hr hrule hfirst) hothers hlater

/-! ### Conversions -/

theorem convertField (h : Lasting failureTags writes Inv) {field datatype : Value}
    {failure : Option Conversion.Failure} (hr : Inv r)
    (hconvert : (Conversion.convertField field datatype).Gives r failure r')
    (hwrites : ∀ r v, Conversion.judge datatype (Record.value r field) = .ok (.inl v) →
      writes r field v) : Inv r' := by
  rcases Conversion.gives_convertField_iff.1 hconvert with
    ⟨v, hv, -, rfl⟩ | ⟨_, _, _, _, _, _, happend⟩
  · exact h.put (hwrites r v hv) hr
  · exact h.appendTag (.text _) hr happend

/-- What lasts while the fields are written that are to be converted lasts through the
conversion. -/
theorem convertAll (h : Lasting failureTags writes Inv) {entries : List (Value × Value)}
    {failures : List Conversion.Failure} (hr : Inv r)
    (hconvert : (Conversion.convertAll entries).Gives r failures r')
    (hwrites : ∀ entry ∈ entries, ∀ r v,
      Conversion.judge entry.2 (Record.value r entry.1) = .ok (.inl v) → writes r entry.1 v) :
    Inv r' := by
  induction entries generalizing r failures with
  | nil =>
    obtain ⟨-, rfl⟩ := Conversion.gives_convertAll_nil_iff.1 hconvert
    exact hr
  | cons entry rest ih =>
    obtain ⟨failure, r₁, others, hfirst, hothers, -⟩ :=
      Conversion.gives_convertAll_cons_iff.1 hconvert
    rw [List.forall_mem_cons] at hwrites
    exact ih (h.convertField hr hfirst hwrites.1) hothers hwrites.2

/-! ### Additions -/

theorem addFields (h : Lasting failureTags writes Inv) {entries : List (Value × Value)}
    (hr : Inv r) (hadd : (Filter.addFields entries).Gives r () r')
    (hwrites : ∀ entry r₁ name, Reaches Filter.addField entries r entry r₁ →
      Filter.yield r₁ entry.1 = .ok name → ∀ t, writes r₁ (.text name) (.text t)) : Inv r' := by
  induction entries generalizing r with
  | nil =>
    obtain rfl := Filter.gives_addFields_nil_iff.1 hadd
    exact hr
  | cons entry rest ih =>
    obtain ⟨r₁, hfirst, hrest⟩ := Filter.gives_addFields_cons_iff.1 hadd
    obtain ⟨name, text, hname, -, rfl⟩ := Filter.gives_addField_iff.1 hfirst
    have h₁ := h.put (hwrites entry r name .here hname text) hr
    refine ih h₁ hrest fun other r₂ name' hreach => ?_
    exact hwrites other r₂ name' (.later hfirst hreach)

theorem addTags (h : Lasting failureTags writes Inv) {templates : List Value} (hr : Inv r)
    (hadd : (Filter.addTags templates).Gives r () r') : Inv r' := by
  induction templates generalizing r with
  | nil =>
    obtain rfl := Filter.gives_addTags_nil_iff.1 hadd
    exact hr
  | cons template rest ih =>
    obtain ⟨r₁, hfirst, hrest⟩ := Filter.gives_addTags_cons_iff.1 hadd
    obtain ⟨tag, -, happend⟩ := Filter.gives_addTag_iff.1 hfirst
    exact ih (h.appendTag (.text tag) hr happend) hrest

/-- What lasts while fields are added lasts through the decoration. -/
theorem decorate (h : Lasting failureTags writes Inv) {settings : Settings} (hr : Inv r)
    (hdecorate : (Filter.decorate settings).Gives r () r')
    (hwrites : ∀ entries entry r₁ name, settings.addedFields.entries = .ok entries →
      Reaches Filter.addField entries r entry r₁ → Filter.yield r₁ entry.1 = .ok name →
        ∀ t, writes r₁ (.text name) (.text t)) : Inv r' := by
  obtain ⟨fields, r₁, templates, hfields, hadd, -, htags⟩ := Filter.gives_decorate_iff.1 hdecorate
  exact h.addTags (h.addFields hr hadd fun entry r₂ name => hwrites fields entry r₂ name hfields)
    htags

/-- What lasts from the conversion on. -/
theorem finish (h : Lasting failureTags writes Inv) {outcomes : List (Value × Outcome)}
    {failures : List Conversion.Failure} {start : Record} (hr : Inv r)
    (hconverts : f.Converts start outcomes failures r)
    (hfinish : (f.finish outcomes failures).Gives r s r')
    (hwrites : ∀ name, f.Adds start name → ∀ r t, writes r (.text name) (.text t)) : Inv r' := by
  obtain ⟨hdecorate, -⟩ := Filter.gives_finish_iff.1 hfinish
  split at hdecorate
  · next hsuccess =>
    refine h.decorate hr hdecorate fun entries entry r₁ name hentries hreach hyield => ?_
    exact hwrites name ⟨outcomes, failures, r, entries, entry, r₁, hconverts, hsuccess, hentries,
      hreach, hyield⟩ r₁
  · exact hdecorate ▸ hr

/-- What lasts through a whole run. -/
theorem process (hlasting : Lasting f.settings.failureTags writes Inv) (hr : Inv r)
    (h : f.process.Gives r s final)
    (hcaptured : ∀ outcome ∈ s.outcomes.entries, ∀ entry ∈ outcome.2.values.entries, ∀ r,
      writes r (.text entry.1) (.text entry.2))
    (hconverted : ∀ entry ∈ f.conversions.entries, ∀ r v,
      Conversion.judge entry.2 (Record.value r entry.1) = .ok (.inl v) → writes r entry.1 v)
    (hadded : ∀ name, f.Adds r name → ∀ r t, writes r (.text name) (.text t)) : Inv final := by
  obtain ⟨failures, converted, hconverts, hfinish⟩ := Filter.entries_outcomes_of_gives_process h
  obtain ⟨r₁, hrules, hconvert⟩ := id hconverts
  have h₁ := hlasting.applyRules hr hrules hcaptured
  have h₂ := hlasting.convertAll h₁ hconvert hconverted
  exact hlasting.finish h₂ hconverts hfinish hadded

end Lasting

end Record

end Dissection
