import Dissection.Proofs.Reconversion
import Dissection.Proofs.Returning
import Dissection.Proofs.RuleOrder

/-!
# Processing a record a second time

A processed record holds everything that a second run is to find, if nothing that the first run
wrote is a source: every rule meets the value that it met before, and so it captures the same
texts and has the same outcome.  The captures are written over the converted values, and are
converted to them again.  Fields that are converted without being captured were converted before
and stay as they are.  So the second run leaves every field as it found it, and all that it does
is to append tags: the same ones for the rules and the conversions that fail, and the added ones,
which are filled in anew.

## Main definitions

* `Record.overwritten` — what a field holds after others are written.
* `Filter.captured` — what rules have captured.
* `Conversion.Became` — a record in which fields had been written before it was converted.
* `Filter.Undisturbed` — a filter whose sources are not among the fields that are written.

## Main statements

* `Record.withFields_eq_mapEntries` — fields that are all there are written in their places.
* `Filter.gives_applyRules_again` — rules that are applied a second time.
* `Filter.converts_again` — rules and conversions.
* `Filter.gives_process_again`, `Filter.process_again` — processing a record a second time.
-/

namespace Dissection

open Dissection.Action Dissection.Record

/-! ## Fields that are written again -/

namespace Record

variable {r s : Record} {tags : Option (List Value)} {added others : List Value}
  {fields more : List (Text × Text)} {name : Text}

/-- What a field that held a value holds after fields are written one after another. -/
def overwritten (fields : List (Text × Text)) (key v : Value) : Value :=
  fields.foldl (fun v field => if key = .text field.1 then .text field.2 else v) v

theorem overwritten_cons (field : Text × Text) (rest : List (Text × Text)) (key v : Value) :
    overwritten (field :: rest) key v =
      overwritten rest key (if key = .text field.1 then .text field.2 else v) := rfl

theorem overwritten_append (fields more : List (Text × Text)) (key v : Value) :
    overwritten (fields ++ more) key v = overwritten more key (overwritten fields key v) :=
  List.foldl_append

theorem overwritten_of_ne {key : Value} (h : ∀ name ∈ fields.map Prod.fst, key ≠ .text name)
    (v : Value) : overwritten fields key v = v := by
  induction fields generalizing v with
  | nil => rfl
  | cons field rest ih =>
    rw [List.map_cons, List.forall_mem_cons] at h
    rw [overwritten_cons, if_neg h.1, ih h.2]

theorem overwritten_of_notMem (h : name ∉ fields.map Prod.fst) (v : Value) :
    overwritten fields (.text name) v = v := by
  refine overwritten_of_ne ?_ v
  intro other ho heq
  exact h (Value.text.inj heq ▸ ho)

/-- A field that is written does not depend on what it held. -/
theorem overwritten_of_mem (h : name ∈ fields.map Prod.fst) (v w : Value) :
    overwritten fields (.text name) v = overwritten fields (.text name) w := by
  induction fields generalizing v w with
  | nil => cases h
  | cons field rest ih =>
    rw [overwritten_cons, overwritten_cons]
    by_cases hrest : name ∈ rest.map Prod.fst
    · exact ih hrest _ _
    · have hname : name = field.1 := by simpa [hrest] using h
      rw [if_pos (congrArg _ hname), if_pos (congrArg _ hname)]

theorem get?_withFields_congr {key : Value} (h : r.get? key = s.get? key)
    (fields : List (Text × Text)) :
    (r.withFields fields).get? key = (s.withFields fields).get? key := by
  induction fields generalizing r s with
  | nil => exact h
  | cons field rest ih =>
    rw [withFields_cons, withFields_cons]
    refine ih ?_
    rw [Table.get?_put_under_text, Table.get?_put_under_text, h]

theorem withFields_append (r : Record) (fields more : List (Text × Text)) :
    r.withFields (fields ++ more) = (r.withFields fields).withFields more :=
  List.foldl_append

/-- What is found in a field that is written. -/
theorem get?_withFields_of_mem (h : name ∈ fields.map Prod.fst) (r : Record) (v : Value) :
    (r.withFields fields).get? (.text name) = some (overwritten fields (.text name) v) := by
  induction fields generalizing r v with
  | nil => cases h
  | cons field rest ih =>
    rw [withFields_cons, overwritten_cons]
    by_cases hrest : name ∈ rest.map Prod.fst
    · exact ih hrest _ _
    · have hname : name = field.1 := by simpa [hrest] using h
      have hlater : ∀ other ∈ rest.map Prod.fst, Value.text name ≠ .text other := by
        intro other ho heq
        exact hrest (Value.text.inj heq ▸ ho)
      rw [get?_withFields hlater, overwritten_of_ne hlater, Table.get?_put_under_text,
        if_pos (congrArg _ hname), if_pos (congrArg _ hname)]

/-- Fields that are all there are written in their places. -/
theorem withFields_eq_mapEntries
    (h : ∀ name ∈ fields.map Prod.fst, ∃ v, r.get? (.text name) = some v) :
    r.withFields fields = r.mapEntries (overwritten fields) := by
  induction fields generalizing r with
  | nil => exact (Table.mapEntries_eq_self fun _ _ => rfl).symm
  | cons field rest ih =>
    rw [List.map_cons, List.forall_mem_cons] at h
    obtain ⟨⟨old, hold⟩, hrest⟩ := h
    rw [withFields_cons, Table.put_text_eq_mapEntries hold, ih, Table.mapEntries_mapEntries]
    · rfl
    · intro name hname
      obtain ⟨v, hv⟩ := hrest name hname
      rw [Table.get?_mapEntries_text, hv]
      exact ⟨_, rfl⟩

theorem mapEntries_overwritten_append (r : Record) (fields more : List (Text × Text)) :
    (r.mapEntries (overwritten fields)).mapEntries (overwritten more) =
      r.mapEntries (overwritten (fields ++ more)) := by
  rw [Table.mapEntries_mapEntries]
  exact Table.mapEntries_congr fun _ _ => (overwritten_append _ _ _ _).symm

/-- A rule that captures fields which are all there writes them in their places. -/
theorem afterRule_eq_mapEntries {o : Outcome}
    (h : ∀ name ∈ o.values.keys, ∃ v, r.get? (.text name) = some v) (tags : List Value) :
    r.afterRule o tags = addTags (r.mapEntries (overwritten o.values.entries)) tags := by
  rw [afterRule, withFields_eq_mapEntries h]

/-- What is found in a field after a rule depends on what was found there before it. -/
theorem get?_afterRule_congr {key : Value} (h : r.get? key = s.get? key)
    (hkey : key ≠ .text tagsField) (o : Outcome) (tags : List Value) :
    (r.afterRule o tags).get? key = (s.afterRule o tags).get? key := by
  rw [afterRule, afterRule, get?_addTags_of_ne hkey, get?_addTags_of_ne hkey]
  exact get?_withFields_congr h _

/-! ## Tags that are appended -/

theorem getD_moreTags (tags : Option (List Value)) (added : List Value) :
    (moreTags tags added).getD [] = tags.getD [] ++ added := by
  rw [moreTags]
  split
  · next h => rw [h, List.append_nil]
  · rfl

end Record

namespace Filter

variable {f : Filter} {r r' s converted final : Record} {tags : Option (List Value)}
  {failureTags : Value} {rules : List (Value × Pattern)} {outcomes : List (Value × Outcome)}
  {failures : List Conversion.Failure} {templates : List Value}

/-- The added tags are appended to a record and nothing else is done to it. -/
theorem eq_addTags_of_gives_addTags (hr : r.HasTags tags)
    (h : (addTags templates).Gives r () final) :
    ∃ added, Filled final tags templates added ∧ final = Record.addTags r added := by
  obtain ⟨-, added, hfilled, hfinal⟩ := filled_of_gives_addTags hr h
  have happended : ∃ others, final = Record.addTags r others := by
    clear hfilled hfinal
    induction templates generalizing r tags with
    | nil => exact ⟨[], (gives_addTags_nil_iff.1 h).symm⟩
    | cons template rest ih =>
      obtain ⟨r₁, hfirst, hrest⟩ := gives_addTags_cons_iff.1 h
      obtain ⟨tag, -, happend⟩ := gives_addTag_iff.1 hfirst
      obtain ⟨others, rfl⟩ := ih (hr.of_appendTag happend) hrest
      exact ⟨.text tag :: others, by rw [hr.eq_addTags happend, addTags_addTags]; rfl⟩
  obtain ⟨others, rfl⟩ := happended
  have hsame : tags.getD [] ++ added = tags.getD [] ++ others := by
    rw [← getD_moreTags, ← getD_moreTags, ← hfinal.tagList?, (hr.addTags others).tagList?]
  obtain rfl := List.append_cancel_left hsame
  exact ⟨added, hfilled, rfl⟩

/-! ## Rules that are applied again -/

/-- What rules have captured, in order. -/
def captured (outcomes : List (Value × Outcome)) : List (Text × Text) :=
  outcomes.flatMap (·.2.values.entries)

theorem captured_cons (entry : Value × Outcome) (rest : List (Value × Outcome)) :
    captured (entry :: rest) = entry.2.values.entries ++ captured rest := rfl

theorem afterRule_of_gives_applyRule {source : Value} {pattern : Pattern} {o : Outcome}
    (hr : r.Taggable) (h : (applyRule failureTags source pattern).Gives r o r')
    (ho : tagsField ∉ o.values.keys) :
    pattern.dissectField r source = .ok o ∧
      ∃ tags, o.tags failureTags = .ok tags ∧ r.afterRule o tags = r' := by
  have hfound := (gives_applyRule_iff.1 h).1
  refine (gives_applyRule_iff_afterRule hr fun o' ho' => ?_).1 h
  rwa [Except.ok.inj (ho'.symm.trans hfound)]

/-- Rules leave what they have captured, and do not touch other fields but the tags. -/
theorem get?_of_gives_applyRules_captured (hr : r.Taggable)
    (h : (applyRules failureTags rules).Gives r outcomes r')
    (hcaptured : tagsField ∉ (captured outcomes).map Prod.fst) {key : Value}
    (hkey : key ≠ .text tagsField) : r'.get? key = (r.withFields (captured outcomes)).get? key := by
  induction rules generalizing r outcomes with
  | nil =>
    obtain ⟨rfl, rfl⟩ := gives_applyRules_nil_iff.1 h
    rfl
  | cons rule rest ih =>
    obtain ⟨o, r₁, others, hfirst, hrest, rfl⟩ := gives_applyRules_cons_iff.1 h
    rw [captured_cons, List.map_append, List.mem_append, not_or] at hcaptured
    obtain ⟨ho, hothers⟩ := hcaptured
    obtain ⟨-, tags, -, rfl⟩ := afterRule_of_gives_applyRule hr hfirst ho
    rw [ih (hr.afterRule ho tags) hrest hothers, captured_cons, withFields_append]
    exact get?_withFields_congr (get?_addTags_of_ne hkey _ _) _

/-- Rules that are applied again, to a record with the same sources in which every field that
they have captured is there, have the same outcomes and write the captures in their places. -/
theorem gives_applyRules_again (hr : r.Taggable) (hs : s.Taggable)
    (h : (applyRules failureTags rules).Gives r outcomes r')
    (htags : ∀ rule ∈ rules, rule.1 ≠ .text tagsField)
    (hcaptured : tagsField ∉ (captured outcomes).map Prod.fst)
    (hfound : ∀ rule ∈ rules, s.get? rule.1 = r.get? rule.1)
    (hpresent : ∀ name ∈ (captured outcomes).map Prod.fst, ∃ v, s.get? (.text name) = some v) :
    ∃ failed, outcomes.mapM (·.2.tags failureTags) = .ok failed ∧
      (applyRules failureTags rules).Gives s outcomes
        (Record.addTags (s.mapEntries (overwritten (captured outcomes))) failed.flatten) := by
  induction rules generalizing r s outcomes with
  | nil =>
    obtain ⟨rfl, rfl⟩ := gives_applyRules_nil_iff.1 h
    refine ⟨[], rfl, gives_applyRules_nil_iff.2 ⟨rfl, ?_⟩⟩
    exact (Table.mapEntries_eq_self fun _ _ => rfl).symm
  | cons rule rest ih =>
    obtain ⟨o, r₁, others, hfirst, hrest, rfl⟩ := gives_applyRules_cons_iff.1 h
    rw [captured_cons, List.map_append] at hcaptured hpresent
    obtain ⟨ho, hothers⟩ := not_or.1 (List.mem_append.not.1 hcaptured)
    obtain ⟨hnow, hlater⟩ := List.forall_mem_append.1 hpresent
    obtain ⟨hrule, hrules⟩ := List.forall_mem_cons.1 hfound
    obtain ⟨-, htags⟩ := List.forall_mem_cons.1 htags
    obtain ⟨hdissect, tags, hfailed, rfl⟩ := afterRule_of_gives_applyRule hr hfirst ho
    have hdissect : rule.2.dissectField s rule.1 = .ok o :=
      (dissectField_congr hrule).trans hdissect
    have hmissing : ∀ o', rule.2.dissectField s rule.1 = .ok o' → tagsField ∉ o'.values.keys :=
      fun o' ho' => Except.ok.inj (hdissect.symm.trans ho') ▸ ho
    have hagain : (applyRule failureTags rule.1 rule.2).Gives s o (s.afterRule o tags) :=
      (gives_applyRule_iff_afterRule hs hmissing).2 ⟨hdissect, tags, hfailed, rfl⟩
    -- the other rules still find their sources, and their fields are still there
    have hsources : ∀ other ∈ rest,
        (s.afterRule o tags).get? other.1 = (r.afterRule o tags).get? other.1 :=
      fun other hother => get?_afterRule_congr (hrules other hother) (htags other hother) o tags
    have hfields : ∀ name ∈ (captured others).map Prod.fst,
        ∃ v, (s.afterRule o tags).get? (.text name) = some v := by
      intro name hname
      have hne : Value.text name ≠ .text tagsField := by
        intro heq
        exact hothers (Value.text.inj heq ▸ hname)
      obtain ⟨v, hv⟩ := hlater name hname
      rw [afterRule_eq_mapEntries hnow, get?_addTags_of_ne hne, Table.get?_mapEntries_text, hv]
      exact ⟨_, rfl⟩
    obtain ⟨failed, hmore, hgives⟩ := ih (hr.afterRule ho tags) (hs.afterRule ho tags) hrest htags
      hothers hsources hfields
    refine ⟨tags :: failed, ?_, gives_applyRules_cons_iff.2 ⟨o, _, others, hagain, ?_, rfl⟩⟩
    · rw [List.mapM_cons, hfailed, hmore]
      rfl
    · rw [afterRule_eq_mapEntries hnow] at hgives ⊢
      rwa [mapEntries_addTags (overwritten_of_notMem hothers), addTags_addTags,
        mapEntries_overwritten_append] at hgives

end Filter

/-! ## Fields that are converted again -/

namespace Conversion

variable {r s : Record} {entries fields : List (Text × Text)}

/-- A record holds what another one became when it was converted, and in that one these fields
were written before. -/
structure Became (entries fields : List (Text × Text)) (r s : Record) : Prop where
  written : ∀ name ∈ fields.map Prod.fst, ∀ v,
    r.get? (.text name) = some (overwritten fields (.text name) v)
  converted : ∀ name, name ≠ tagsField →
    s.get? (.text name) = (r.get? (.text name)).map (replaced entries (.text name))
  tagsUnwritten : tagsField ∉ fields.map Prod.fst
  tagsUnconverted : tagsField ∉ entries.map Prod.fst

namespace Became

variable {name : Text}

theorem ne_tags (h : Became entries fields r s) (hname : name ∈ fields.map Prod.fst) :
    name ≠ tagsField := by
  rintro rfl
  exact h.tagsUnwritten hname

/-- The fields that were written are still there. -/
theorem present (h : Became entries fields r s) (hname : name ∈ fields.map Prod.fst) :
    ∃ v, s.get? (.text name) = some v := by
  rw [h.converted name (h.ne_tags hname), h.written name hname .null]
  exact ⟨_, rfl⟩

theorem hasTags_overwritten (h : Became entries fields r s) {tags : Option (List Value)}
    (hs : s.HasTags tags) : HasTags (s.mapEntries (overwritten fields)) tags := by
  rw [HasTags, Table.get?_mapEntries_text, hs]
  cases tags with
  | none => rfl
  | some items => exact congrArg some (overwritten_of_notMem h.tagsUnwritten _)

/-- When the fields are written again, each field holds again what it held before it was
converted, or what it became. -/
theorem holdsAgain (h : Became entries fields r s) (hdistinct : (entries.map Prod.fst).Nodup)
    (added : List Value) {entry : Text × Text} (he : entry ∈ entries) :
    HoldsAgain r (Record.addTags (s.mapEntries (overwritten fields)) added) entry := by
  have hne : entry.1 ≠ tagsField := by
    intro heq
    exact h.tagsUnconverted (heq ▸ List.mem_map_of_mem he)
  have hfound : (Record.addTags (s.mapEntries (overwritten fields)) added).get? (.text entry.1) =
      (s.get? (.text entry.1)).map (overwritten fields (.text entry.1)) := by
    rw [get?_addTags_of_ne (by simpa using hne), Table.get?_mapEntries_text]
  rw [HoldsAgain, Record.value, Record.value, hfound, h.converted _ hne]
  by_cases hwritten : entry.1 ∈ fields.map Prod.fst
  · left
    rw [h.written _ hwritten .null, Option.map_some, Option.map_some,
      overwritten_of_mem hwritten _ .null]
  · right
    rw [← replaced_of_mem hdistinct he]
    cases r.get? (.text entry.1) with
    | none => exact (replaced_null _ _).symm
    | some v => exact overwritten_of_notMem hwritten _

/-- When the fields are written and converted again, every field is what it was. -/
theorem mapEntries_eq_self (h : Became entries fields r s) :
    (s.mapEntries (overwritten fields)).mapEntries (replaced entries) = s := by
  rw [Table.mapEntries_mapEntries]
  refine Table.mapEntries_eq_self fun field hfield => ?_
  by_cases htext : ∃ name, field.1 = .text name
  · obtain ⟨name, hname⟩ := htext
    obtain ⟨key, v⟩ := field
    obtain rfl : key = .text name := hname
    by_cases htags : name = tagsField
    · subst htags
      rw [overwritten_of_notMem h.tagsUnwritten, replaced_tags h.tagsUnconverted]
    · obtain ⟨old, hold, rfl⟩ := Option.map_eq_some_iff.1
        ((h.converted name htags).symm.trans (Table.get?_of_mem_entries hfield))
      by_cases hwritten : name ∈ fields.map Prod.fst
      · have hheld := Option.some.inj (hold.symm.trans (h.written name hwritten old))
        rw [overwritten_of_mem hwritten _ old, ← hheld]
      · rw [overwritten_of_notMem hwritten, replaced_again]
  · have hne : ∀ name, field.1 ≠ .text name := not_exists.1 htext
    rw [overwritten_of_ne fun name _ => hne name, replaced_of_ne fun entry _ => hne entry.1]

end Became

end Conversion

namespace Filter

variable {f : Filter} {r r' s converted final : Record} {tags tags' : Option (List Value)}
  {outcomes : List (Value × Outcome)} {failures : List Conversion.Failure}
  {types : Table Text Text} {names : List Text} {templates : List Value}

/-! ## Rules and conversions -/

/-- No source of a filter is among the fields that it writes, namely those under these names and
those that it converts, and it adds no others.  The field of the tags is no source, and is
neither written nor converted. -/
structure Undisturbed (f : Filter) (types : Table Text Text) (names : List Text) : Prop where
  conversions : f.conversions = Config.valueTable types
  noFields : f.settings.addedFields.entries = .ok []
  uncaptured : ∀ rule ∈ f.rules.entries, ∀ name ∈ names, rule.1 ≠ .text name
  unconverted : ∀ rule ∈ f.rules.entries, ∀ name ∈ types.keys, rule.1 ≠ .text name
  noTagsSource : ∀ rule ∈ f.rules.entries, rule.1 ≠ .text tagsField
  tagsUncaptured : tagsField ∉ names
  tagsUnconverted : tagsField ∉ types.keys

theorem Undisturbed.uncaptured_tags (h : f.Undisturbed types ((captured outcomes).map Prod.fst)) :
    ∀ entry ∈ outcomes, tagsField ∉ entry.2.values.keys := by
  intro entry he hmem
  obtain ⟨field, hfield, hname⟩ := List.mem_map.1 hmem
  exact h.tagsUncaptured (List.mem_map.2 ⟨field, List.mem_flatMap.2 ⟨entry, he, hfield⟩, hname⟩)

/-- Fewer names disturb no more. -/
theorem Undisturbed.mono {others : List Text} (h : f.Undisturbed types names)
    (hsub : others ⊆ names) : f.Undisturbed types others where
  conversions := h.conversions
  noFields := h.noFields
  uncaptured rule hr name hname := h.uncaptured rule hr name (hsub hname)
  unconverted := h.unconverted
  noTagsSource := h.noTagsSource
  tagsUncaptured hmem := h.tagsUncaptured (hsub hmem)
  tagsUnconverted := h.tagsUnconverted

/-- A record becomes what the rules and the conversions make of it. -/
theorem became_of_gives (hf : f.Undisturbed types ((captured outcomes).map Prod.fst))
    (hr : r.HasTags tags) (hr' : r'.HasTags tags')
    (hrules : (applyRules f.settings.failureTags f.rules.entries).Gives r outcomes r')
    (hconvert : (Conversion.convertAll (types.entries.map Conversion.pair)).Gives r' failures
      converted)
    (hfinal : ∀ key, key ≠ .text tagsField → final.get? key = converted.get? key) :
    Conversion.Became types.entries (captured outcomes) r' final where
  written name hname v := by
    have hne : Value.text name ≠ .text tagsField := by
      intro heq
      exact hf.tagsUncaptured (Value.text.inj heq ▸ hname)
    rw [get?_of_gives_applyRules_captured ⟨tags, hr⟩ hrules hf.tagsUncaptured hne]
    exact get?_withFields_of_mem hname r v
  converted name hname := by
    obtain ⟨-, rfl⟩ := Conversion.gives_convertAll_atOnce (Conversion.nodup_names types)
      hf.tagsUnconverted hr' hconvert
    rw [hfinal _ (by simpa using hname), Conversion.get?_atOnce hname]
  tagsUnwritten := hf.tagsUncaptured
  tagsUnconverted := hf.tagsUnconverted

/-- A rule finds its source as it was before the rules and the conversions. -/
theorem get?_source_of_gives (hf : f.Undisturbed types ((captured outcomes).map Prod.fst))
    (hr : r.Taggable)
    (hrules : (applyRules f.settings.failureTags f.rules.entries).Gives r outcomes r')
    (hconvert : (Conversion.convertAll (types.entries.map Conversion.pair)).Gives r' failures
      converted) {rule : Value × Pattern} (hrule : rule ∈ f.rules.entries) :
    converted.get? rule.1 = r.get? rule.1 := by
  have htags := hf.noTagsSource rule hrule
  have hunconverted : ∀ entry ∈ types.entries, rule.1 ≠ .text entry.1 :=
    fun entry he => hf.unconverted rule hrule entry.1 (List.mem_map_of_mem he)
  calc converted.get? rule.1
    _ = r'.get? rule.1 := Conversion.get?_of_gives_convertAll hconvert hunconverted htags
    _ = (r.withFields (captured outcomes)).get? rule.1 :=
        get?_of_gives_applyRules_captured hr hrules hf.tagsUncaptured htags
    _ = r.get? rule.1 := get?_withFields (hf.uncaptured rule hrule)

/-- Where the rules were applied and the fields converted, and only tags were added, all of this
can be done again and brings nothing but tags. -/
theorem converts_again (hf : f.Undisturbed types ((captured outcomes).map Prod.fst))
    (hr : r.HasTags tags) (h : f.Converts r outcomes failures converted)
    (hfinal : ∀ key, key ≠ .text tagsField → final.get? key = converted.get? key)
    (htags : final.HasTags tags') :
    ∃ failed, outcomes.mapM (·.2.tags f.settings.failureTags) = .ok failed ∧
      f.Converts final outcomes failures
        (Record.addTags final (failed.flatten ++ failures.map (.text ·.tag))) := by
  obtain ⟨r₁, hrules, hconvert⟩ := h
  rw [hf.conversions, Conversion.entries_valueTable] at hconvert
  obtain ⟨_, -, hr₁⟩ := hasTags_of_gives_applyRules hr hrules hf.uncaptured_tags
  have hbecame := became_of_gives hf hr hr₁ hrules hconvert hfinal
  have hfound : ∀ rule ∈ f.rules.entries, final.get? rule.1 = r.get? rule.1 := by
    intro rule hrule
    rw [hfinal _ (hf.noTagsSource rule hrule)]
    exact get?_source_of_gives hf ⟨tags, hr⟩ hrules hconvert hrule
  obtain ⟨failed, hfailed, hagain⟩ := gives_applyRules_again ⟨tags, hr⟩ ⟨tags', htags⟩ hrules
    hf.noTagsSource hf.tagsUncaptured hfound fun name => hbecame.present
  have hdistinct := Conversion.nodup_names types
  have htagsAgain := (hbecame.hasTags_overwritten htags).addTags failed.flatten
  have hconverted := Conversion.gives_convertAll_again hdistinct hf.tagsUnconverted hr₁ htagsAgain
    hconvert fun entry he => hbecame.holdsAgain hdistinct failed.flatten he
  rw [mapEntries_addTags (Conversion.replaced_tags hf.tagsUnconverted),
    hbecame.mapEntries_eq_self, addTags_addTags] at hconverted
  refine ⟨failed, hfailed, _, hagain, ?_⟩
  rwa [hf.conversions, Conversion.entries_valueTable]

/-! ## A whole run -/

/-- A record to which the same templates can be filled in as to another one: it differs at most
in its tags, and they can be shown if those of the other one can. -/
structure ShowsAs (r s : Record) : Prop where
  same : ∀ name, name ≠ tagsField → s.get? (.text name) = r.get? (.text name)
  tags : ∃ tags tags', r.HasTags tags ∧ s.HasTags tags' ∧
    (Value.areShown (tags.getD []) = true → Value.areShown (tags'.getD []) = true)

namespace ShowsAs

theorem substitute (h : ShowsAs r s) {name text : Text}
    (hr : Template.substitute r name = .ok text) :
    ∃ text', Template.substitute s name = .ok text' := by
  by_cases hname : name = tagsField
  · subst hname
    obtain ⟨tags, tags', htags, htags', hshown⟩ := h.tags
    cases tags' with
    | none => exact ⟨_, Template.substitute_of_null (by rw [Record.value, htags']; rfl)⟩
    | some items' =>
      rw [Template.substitute_of_value htags' (by simp)]
      refine ⟨_, Value.shown_eq_ok_iff.2 ⟨hshown ?_, rfl⟩⟩
      cases tags with
      | none => rfl
      | some items =>
        rw [Template.substitute_of_value htags (by simp)] at hr
        exact (Value.shown_eq_ok_iff.1 hr).1
  · exact ⟨text, by rw [← hr, Template.substitute, Template.substitute, h.same name hname]⟩

theorem exists_yield (h : ShowsAs r s) {template : Value} {text : Text}
    (hr : yield r template = .ok text) : ∃ text', yield s template = .ok text' := by
  obtain ⟨wording, hwording, hr⟩ := Traversal.bind_eq_ok_iff.1 hr
  obtain ⟨text', hs⟩ := Template.exists_interpolate_of (fun name _ => h.substitute) hr
  exact ⟨text', Traversal.bind_eq_ok_iff.2 ⟨wording, hwording, hs⟩⟩

/-- A text is appended to the tags of both. -/
theorem appendTag (h : ShowsAs r s) {tag tag' : Text}
    (hr : Record.appendTag r (.text tag) = .ok r') (hs : Record.appendTag s (.text tag') = .ok s') :
    ShowsAs r' s' where
  same name hname := by
    rw [get?_of_appendTag hs hname, get?_of_appendTag hr hname, h.same name hname]
  tags := by
    obtain ⟨tags, tags', htags, htags', hshown⟩ := h.tags
    refine ⟨_, _, htags.of_appendTag hr, htags'.of_appendTag hs, ?_⟩
    simpa [getD_moreTags, Value.areShown, Value.isShown] using hshown

/-- Texts that are appended to the tags can be shown with them. -/
theorem addTags (hr : r.HasTags tags) (texts : List Text) :
    ShowsAs r (Record.addTags r (texts.map .text)) where
  same name hname := get?_addTags_of_ne (by simpa using hname) _ _
  tags := by
    refine ⟨tags, _, hr, hr.addTags (texts.map .text), fun h => ?_⟩
    rw [getD_moreTags, Value.areShown_append, h, Value.areShown_texts]
    rfl

end ShowsAs

/-- Tags that were added to one record can be added to the other. -/
theorem returns_addTags_again (h : ShowsAs r s) (hr : (addTags templates).Returns r) :
    (addTags templates).Returns s := by
  induction templates generalizing r s with
  | nil => exact ⟨(), s, gives_addTags_nil_iff.2 rfl⟩
  | cons template rest ih =>
    obtain ⟨_, r', hr⟩ := hr
    obtain ⟨r₁, hfirst, hrest⟩ := gives_addTags_cons_iff.1 hr
    obtain ⟨tag, hyield, happend⟩ := gives_addTag_iff.1 hfirst
    obtain ⟨tag', hyield'⟩ := h.exists_yield hyield
    obtain ⟨_, tags', -, htags', -⟩ := h.tags
    have happend' := htags'.appendTag (.text tag')
    obtain ⟨_, s', hs⟩ := ih (h.appendTag happend happend') hrest.returns
    exact ⟨(), s', gives_addTags_cons_iff.2 ⟨_, gives_addTag_iff.2 ⟨tag', hyield', happend'⟩, hs⟩⟩

/-- Where no fields are to be added, tags are appended on success, and nothing else is done. -/
theorem gives_decorate_iff_addTags {settings : Settings}
    (hnone : settings.addedFields.entries = .ok []) :
    (decorate settings).Gives r () final ↔
      ∃ templates, settings.addedTags.items = .ok templates ∧
        (addTags templates).Gives r () final := by
  rw [gives_decorate_iff]
  constructor
  · rintro ⟨fields, r₁, templates, hfields, hadd, htemplates, htags⟩
    obtain rfl := Except.ok.inj (hnone.symm.trans hfields)
    obtain rfl := gives_addFields_nil_iff.1 hadd
    exact ⟨templates, htemplates, htags⟩
  · rintro ⟨templates, htemplates, htags⟩
    exact ⟨[], r, templates, hnone, gives_addFields_nil_iff.2 rfl, htemplates, htags⟩

/-- Where no fields are to be added, a record is finished by the tags that are filled in. -/
theorem additions_of_gives_finish (hnone : f.settings.addedFields.entries = .ok [])
    (hr : r.HasTags tags) {s : Summary} (h : (f.finish outcomes failures).Gives r s final) :
    ∃ added, final = Record.addTags r added ∧
      if isSuccess outcomes then ∃ templates, f.settings.addedTags.items = .ok templates ∧
        Filled final tags templates added else added = [] := by
  obtain ⟨hdecorate, -⟩ := gives_finish_iff.1 h
  split at hdecorate
  · next hsuccess =>
    obtain ⟨templates, htemplates, htags⟩ := (gives_decorate_iff_addTags hnone).1 hdecorate
    obtain ⟨added, hfilled, rfl⟩ := eq_addTags_of_gives_addTags hr htags
    exact ⟨added, rfl, by rw [if_pos hsuccess]; exact ⟨templates, htemplates, hfilled⟩⟩
  · next hsuccess =>
    exact ⟨[], by rw [hdecorate, Record.addTags, if_pos rfl], by rw [if_neg hsuccess]⟩

/-- Added tags are texts. -/
theorem Filled.exists_texts {added : List Value} (h : Filled r tags templates added) :
    ∃ texts : List Text, added = texts.map .text := by
  induction h with
  | nil => exact ⟨[], rfl⟩
  | @cons _ _ tag _ _ _ _ ih =>
    obtain ⟨texts, rfl⟩ := ih
    exact ⟨tag :: texts, rfl⟩

/-- Where every rule matched, none of them brings a tag. -/
theorem flatten_eq_nil_of_isSuccess {failed : List (List Value)}
    (hsuccess : isSuccess outcomes = true)
    (h : outcomes.mapM (·.2.tags failureTags) = .ok failed) : failed.flatten = [] := by
  rw [isSuccess, Bool.and_eq_true, List.all_eq_true] at hsuccess
  have hmatched := hsuccess.2
  clear hsuccess
  have hall := Traversal.mapM_eq_ok_iff.1 h
  clear h
  induction hall with
  | nil => rfl
  | @cons entry brought _ _ hfirst _ ih =>
    obtain ⟨hentry, hrest⟩ := List.forall_mem_cons.1 hmatched
    obtain rfl : [] = brought := by
      cases ho : entry.2 with
      | matched =>
        rw [ho] at hfirst
        exact Except.ok.inj hfirst
      | patternNotFound | keyNotFound =>
        rw [ho] at hentry
        cases hentry
    exact ih hrest

/-- A record can be finished if another one was to which the same templates can be filled in. -/
theorem returns_finish_again (hnone : f.settings.addedFields.entries = .ok [])
    (hs : isSuccess outcomes = true → ShowsAs r s) (h : (f.finish outcomes failures).Returns r) :
    (f.finish outcomes failures).Returns s := by
  obtain ⟨_, final, h⟩ := h
  obtain ⟨hdecorate, -⟩ := gives_finish_iff.1 h
  by_cases hsuccess : isSuccess outcomes = true
  · rw [if_pos hsuccess, gives_decorate_iff_addTags hnone] at hdecorate
    obtain ⟨templates, htemplates, htags⟩ := hdecorate
    obtain ⟨_, final', hagain⟩ := returns_addTags_again (hs hsuccess) htags.returns
    refine ⟨_, final', gives_finish_iff.2 ⟨?_, rfl⟩⟩
    rw [if_pos hsuccess, gives_decorate_iff_addTags hnone]
    exact ⟨templates, htemplates, hagain⟩
  · exact ⟨_, s, gives_finish_iff.2 ⟨by rw [if_neg hsuccess], rfl⟩⟩

/-- No failure is one of the tags, so the summary has the failures as they occurred. -/
theorem summary_of_gives_finish (htypes : tagsField ∉ types.keys)
    (hconversions : f.conversions = Config.valueTable types) (hr : r.HasTags tags)
    (hcaptured : ∀ entry ∈ outcomes, tagsField ∉ entry.2.values.keys)
    (h : f.Converts r outcomes failures converted) {s : Summary} {r' : Record}
    (hfinish : (f.finish outcomes failures).Gives r' s final) :
    s = ⟨Table.ofList outcomes, failures⟩ := by
  obtain ⟨r₁, hrules, hconvert⟩ := h
  rw [hconversions, Conversion.entries_valueTable] at hconvert
  obtain ⟨_, -, hr₁⟩ := hasTags_of_gives_applyRules hr hrules hcaptured
  obtain ⟨-, rfl⟩ := gives_finish_iff.1 hfinish
  rw [Conversion.map_seenWith_eq_self htypes hr₁ hconvert]

/-- A second run on a processed record gives the same summary and only appends tags, if nothing
that the first run has written is a source of any rule. -/
theorem gives_process_again {s : Summary}
    (hf : f.Undisturbed types ((captured s.outcomes.entries).map Prod.fst)) (hr : r.HasTags tags)
    (h : f.process.Gives r s final) :
    ∃ failed unconverted added, f.Ledger s final tags failed unconverted added ∧
      final.HasTags (moreTags tags (failed.flatten ++ unconverted ++ added)) ∧
      ∃ final' added', f.process.Gives final s final' ∧
        f.Ledger s final' (moreTags tags (failed.flatten ++ unconverted ++ added)) failed
          unconverted added' ∧
        final' = Record.addTags final (failed.flatten ++ unconverted ++ added') := by
  obtain ⟨failures, converted, hconverts, hfinish⟩ := entries_outcomes_of_gives_process h
  have huncaptured := hf.uncaptured_tags
  obtain ⟨-, failed, hfailed, hconverted⟩ := hasTags_of_converts hr hconverts huncaptured
  obtain ⟨added, rfl, hadded⟩ := additions_of_gives_finish hf.noFields hconverted hfinish
  have hfinal := hconverted.addTags added
  rw [moreTags_append] at hfinal
  -- the second run
  obtain ⟨failed', hfailed', hagain⟩ := converts_again hf hr hconverts
    (fun key hkey => get?_addTags_of_ne hkey _ _) hfinal
  obtain rfl := Except.ok.inj (hfailed.symm.trans hfailed')
  have hconverted' := hfinal.addTags (failed.flatten ++ failures.map (.text ·.tag))
  have hshows : isSuccess s.outcomes.entries = true → ShowsAs converted
      (Record.addTags (Record.addTags converted added)
        (failed.flatten ++ failures.map (.text ·.tag))) := by
    intro hsuccess
    rw [if_pos hsuccess] at hadded
    obtain ⟨templates, -, hfilled⟩ := hadded
    obtain ⟨texts, rfl⟩ := hfilled.exists_texts
    have htexts : texts.map Value.text ++ failures.map (.text ·.tag) =
        (texts ++ failures.map (·.tag)).map .text := by
      rw [List.map_append, List.map_map]
      rfl
    rw [flatten_eq_nil_of_isSuccess hsuccess hfailed, List.nil_append, addTags_addTags, htexts]
    exact ShowsAs.addTags hconverted _
  obtain ⟨s', final', hfinish'⟩ := returns_finish_again hf.noFields hshows hfinish.returns
  obtain ⟨added', rfl, hadded'⟩ := additions_of_gives_finish hf.noFields hconverted' hfinish'
  have hsummary := summary_of_gives_finish hf.tagsUnconverted hf.conversions hr huncaptured
    hconverts hfinish
  have hsummary' := summary_of_gives_finish hf.tagsUnconverted hf.conversions hr huncaptured
    hconverts hfinish'
  have hfailures : s.failures = failures := congrArg Summary.failures hsummary
  obtain rfl : s' = s := hsummary'.trans hsummary.symm
  have hsuccess : isSuccess s'.outcomes.entries = s'.success := rfl
  rw [hsuccess] at hadded hadded'
  refine ⟨failed, failures.map (.text ·.tag), added, ⟨hfailed, by rw [hfailures], hadded⟩, hfinal,
    _, added', gives_process_iff.2 ⟨_, _, _, hagain, hfinish'⟩,
    ⟨hfailed, by rw [hfailures], hadded'⟩, ?_⟩
  rw [addTags_addTags]

/-- Every field that rules capture is one that their patterns name, if they have no indirect
tokens. -/
theorem captured_subset_fieldNames {s : Summary}
    (hdirect : ∀ rule ∈ f.rules.entries, ∀ token ∈ rule.2.tokens,
      token.placeholder.modifier.isIndirect = false)
    (h : f.process.Gives r s final) :
    (captured s.outcomes.entries).map Prod.fst ⊆ f.rules.entries.flatMap (·.2.fieldNames) := by
  obtain ⟨failures, converted, ⟨r₁, hrules, -⟩, -⟩ := entries_outcomes_of_gives_process h
  intro name hname
  obtain ⟨field, hfield, rfl⟩ := List.mem_map.1 hname
  obtain ⟨entry, he, hmem⟩ := List.mem_flatMap.1 hfield
  obtain ⟨pattern, r₂, hreach, ho⟩ := reaches_of_mem_outcomes hrules he
  have hnamed : field.1 ∈ entry.2.values.keys := List.mem_map_of_mem hmem
  have hrule := hreach.mem
  exact List.mem_flatMap.2 ⟨_, hrule, mem_fieldNames_of_dissectField (hdirect _ hrule) ho hnamed⟩

/-- A filter whose patterns name all of their fields themselves processes a record a second time
as it did the first time, if none of the fields that it writes is a source, it adds none and the
tags are left alone.  The second run has the same outcomes and failures, and changes no field but
the tags: behind them it appends the same tags of failure again, and then those that are added on
success, filled in from the record as it is by then. -/
theorem process_again {s : Summary}
    (hdirect : ∀ rule ∈ f.rules.entries, ∀ token ∈ rule.2.tokens,
      token.placeholder.modifier.isIndirect = false)
    (hf : f.Undisturbed types (f.rules.entries.flatMap (·.2.fieldNames))) (hr : r.HasTags tags)
    (h : f.process.Gives r s final) :
    ∃ failed unconverted added, f.Ledger s final tags failed unconverted added ∧
      final.HasTags (moreTags tags (failed.flatten ++ unconverted ++ added)) ∧
      ∃ final' added', f.process.Gives final s final' ∧
        f.Ledger s final' (moreTags tags (failed.flatten ++ unconverted ++ added)) failed
          unconverted added' ∧
        final' = Record.addTags final (failed.flatten ++ unconverted ++ added') ∧
        ∀ key, key ≠ .text tagsField → final'.get? key = final.get? key := by
  have hcaptured := captured_subset_fieldNames hdirect h
  obtain ⟨failed, unconverted, added, hledger, hfinal, final', added', hagain, hledger', hadded⟩ :=
    gives_process_again (hf.mono hcaptured) hr h
  refine ⟨failed, unconverted, added, hledger, hfinal, final', added', hagain, hledger', hadded, ?_⟩
  intro key hkey
  rw [hadded, get?_addTags_of_ne hkey]

/-- Datatypes for both parts of a message, for a field that is not captured and for one that is
not there. -/
def partTypes : Table Text Text :=
  .ofList [("a", "int"), ("b", "int"), ("n", "float"), ("gone", "int")]

/-- A filter that cuts a message in two, converts fields and adds a tag with the first part. -/
def taggedParts : Filter where
  settings := Config.settings { addedTags := ["part %\x7ba\x7d"] }
  conversions := Config.valueTable partTypes
  rules := .ofList [(.text "message",
    { leading := [], tokens := [⟨⟨"a", .normal, "a"⟩, " "⟩, ⟨⟨"b", .normal, "b"⟩, []⟩] })]
  registered := true

/-- The first part is captured as a text and converted again, and two fields fail again. -/
theorem process_again_taggedParts :
    let r : Record := .ofList [(.text "message", .text "07 x"), (.text "n", .text "nan"),
      (.text tagsField, .list [.text "old"])]
    let s : Summary :=
      { outcomes := .ofList [(.text "message", .matched (.ofList [("a", "07"), ("b", "x")]) [])]
        failures := [⟨.text "b", .text "int", .uncoercible (.text "x")⟩,
          ⟨.text "gone", .text "int", .nullValue⟩] }
    let final : Record := .ofList [(.text "message", .text "07 x"), (.text "n", .float .nan),
      (.text tagsField, .list [.text "old", .text "_dataconversionuncoercible_b_int",
        .text "_dataconversionnullvalue_gone_int", .text "part 7"]),
      (.text "a", .int 7), (.text "b", .text "x")]
    (∀ rule ∈ taggedParts.rules.entries, ∀ token ∈ rule.2.tokens,
        token.placeholder.modifier.isIndirect = false) ∧
      taggedParts.Undisturbed partTypes (taggedParts.rules.entries.flatMap (·.2.fieldNames)) ∧
      r.HasTags (some [.text "old"]) ∧ taggedParts.process.Gives r s final ∧
      ∃ final' added', taggedParts.process.Gives final s final' ∧ s.success = true ∧
        final' = Record.addTags final ([.text "_dataconversionuncoercible_b_int",
          .text "_dataconversionnullvalue_gone_int"] ++ added') := by
  intro r s final
  have hdirect : ∀ rule ∈ taggedParts.rules.entries, ∀ token ∈ rule.2.tokens,
      token.placeholder.modifier.isIndirect = false := by decide +kernel
  have hf : taggedParts.Undisturbed partTypes
      (taggedParts.rules.entries.flatMap (·.2.fieldNames)) := by
    constructor
    · rfl
    · rfl
    all_goals decide +kernel
  have hr : r.HasTags (some [.text "old"]) := by decide +kernel
  have hprocess : taggedParts.process.Gives r s final := by decide +kernel
  obtain ⟨failed, unconverted, added, hledger, -, final', added', hagain, -, hadded, -⟩ :=
    process_again hdirect hf hr hprocess
  obtain rfl : [[]] = failed := Except.ok.inj hledger.ofRules
  obtain rfl := hledger.ofConversions
  exact ⟨hdirect, hf, hr, hprocess, final', added', hagain, by decide +kernel, hadded⟩

end Filter

end Dissection
