import Dissection.Proofs.Fields
import Dissection.Proofs.FieldOrder
import Dissection.Proofs.Registration
import Dissection.Proofs.Tags
import Mathlib.Data.List.Perm.Basic

/-!
# Rules in another order

Every rule finds the record as the rules before it left it.  If no rule writes what another
one writes or what any of them is to dissect, it still finds its source as it was to begin
with, and the fields that it writes are its own.  All rules write to one field, that of the
tags, and there they write copies of one list.  So two rules that stand next to each other can
change places, and with that any rules can stand in any order.

What then differs is the order in which new fields come to stand in the record, and nothing
that is done to the record afterwards depends on that.

## Main definitions

* `Record.withFields`, `Record.afterRule` — a record after fields are written, and after a rule.
* `Filter.Independent` — rules that do not get in each other's way.
* `Filter.remapped` — a filter with another mapping.

## Main statements

* `Record.same_afterRule_afterRule` — the records that two rules leave in either order.
* `Filter.gives_applyRules_swap` — two rules change places.
* `Filter.gives_applyRules_of_perm` — rules in any order.
* `Filter.gives_process_remapped` — a filter with its mapping in any order.
-/

namespace Dissection

open Dissection.Action Dissection.Record

variable {r r' final : Record} {tags tags' : List Value} {entries others : List (Text × Text)}

/-! ## Fields written one after another -/

namespace Record

/-- A record with fields written one after another. -/
def withFields (r : Record) (entries : List (Text × Text)) : Record :=
  entries.foldl (fun r entry => Table.put r (.text entry.1) (.text entry.2)) r

theorem withFields_cons (r : Record) (entry : Text × Text) (rest : List (Text × Text)) :
    r.withFields (entry :: rest) =
      withFields (Table.put r (.text entry.1) (.text entry.2)) rest := rfl

theorem get?_withFields {key : Value} (h : ∀ name ∈ entries.map Prod.fst, key ≠ .text name) :
    (r.withFields entries).get? key = r.get? key := by
  induction entries generalizing r with
  | nil => rfl
  | cons entry rest ih =>
    rw [List.map_cons, List.forall_mem_cons] at h
    rw [withFields_cons, ih h.2, Table.get?_put_under_text, if_neg h.1]

theorem same_withFields (h : r.Same r') (entries : List (Text × Text)) :
    (r.withFields entries).Same (r'.withFields entries) := by
  induction entries generalizing r r' with
  | nil => exact h
  | cons entry rest ih => exact ih (h.put entry.1 (.text entry.2))

/-- Another field can be written before or afterwards. -/
theorem same_withFields_put {name : Text} (hname : name ∉ entries.map Prod.fst) (r : Record)
    (v : Value) :
    (withFields (Table.put r (.text name) v) entries).Same
      (Table.put (r.withFields entries) (.text name) v) := by
  induction entries generalizing r with
  | nil => exact .refl _
  | cons entry rest ih =>
    rw [List.map_cons, List.mem_cons, not_or] at hname
    have hfirst := Table.same_put_put r hname.1 v (.text entry.2)
    exact (same_withFields hfirst rest).trans (ih hname.2 _)

/-- Fields under different names can be written in either order. -/
theorem same_withFields_withFields
    (hnames : ∀ name ∈ entries.map Prod.fst, name ∉ others.map Prod.fst) (r : Record) :
    ((r.withFields entries).withFields others).Same
      ((r.withFields others).withFields entries) := by
  induction entries generalizing r with
  | nil => exact .refl _
  | cons entry rest ih =>
    rw [List.map_cons, List.forall_mem_cons] at hnames
    have hfirst := same_withFields_put hnames.1 r (.text entry.2)
    exact (ih hnames.2 _).trans (same_withFields hfirst rest)

/-! ## Tags among fields -/

theorem same_addTags (h : r.Same r') (tags : List Value) :
    (addTags r tags).Same (addTags r' tags) := by
  rw [addTags, addTags, tagList?_of_same h]
  split
  · exact h
  · exact h.put _ _

/-- Tags can be appended before other fields are written or afterwards. -/
theorem same_withFields_addTags (htags : tagsField ∉ entries.map Prod.fst) (r : Record)
    (tags : List Value) :
    (withFields (addTags r tags) entries).Same (addTags (r.withFields entries) tags) := by
  have hfound : Record.tagList? (r.withFields entries) = Record.tagList? r := by
    have hkeys : ∀ name ∈ entries.map Prod.fst, Value.text tagsField ≠ .text name := by
      intro name hname hkey
      rw [Value.text.injEq] at hkey
      exact htags (hkey ▸ hname)
    rw [Record.tagList?, Record.tagList?, get?_withFields hkeys]
  rw [addTags, addTags, hfound]
  split
  · exact .refl _
  · exact same_withFields_put htags r _

theorem Taggable.addTags (hr : r.Taggable) (added : List Value) : (addTags r added).Taggable := by
  obtain ⟨old, hold⟩ := hr
  exact ⟨_, hold.addTags added⟩

/-- Tags are appended all at once. -/
theorem gives_appendTags_iff (hr : r.Taggable) {x : Unit} :
    (appendTags tags).Gives r x r' ↔ addTags r tags = r' := by
  induction tags generalizing r with
  | nil => simp [addTags]
  | cons tag rest ih =>
    obtain ⟨old, hold⟩ := id hr
    have hfirst : Record.appendTag r tag = .ok (addTags r [tag]) := by
      rw [addTags, if_neg (List.cons_ne_nil _ _), hold.tagList?]
      exact hold.appendTag tag
    have hrest : (appendTags rest).Gives (addTags r [tag]) x r' ↔
        addTags (addTags r [tag]) rest = r' := ih (hr.addTags [tag])
    rw [gives_appendTags_cons_iff, hfirst]
    rw [addTags_addTags] at hrest
    simpa using hrest

/-! ## The record after a rule -/

/-- A record after a rule with an outcome that brings tags. -/
def afterRule (r : Record) (o : Outcome) (tags : List Value) : Record :=
  addTags (r.withFields o.values.entries) tags

theorem Taggable.afterRule (hr : r.Taggable) {o : Outcome} (ho : tagsField ∉ o.values.keys)
    (tags : List Value) : (r.afterRule o tags).Taggable := by
  have hfound : (r.withFields o.values.entries).get? (.text tagsField) =
      r.get? (.text tagsField) := by
    apply get?_withFields
    intro name hname hkey
    rw [Value.text.injEq] at hkey
    exact ho (hkey ▸ hname)
  obtain ⟨old, hold⟩ := hr
  exact Taggable.addTags ⟨old, hfound.trans hold⟩ tags

/-- Other fields are left as they were. -/
theorem get?_afterRule {key : Value} {o : Outcome} (hkey : ∀ name ∈ o.values.keys, key ≠ .text name)
    (htags : key ≠ .text tagsField) : (r.afterRule o tags).get? key = r.get? key := by
  rw [afterRule, get?_addTags_of_ne htags, get?_withFields hkey]

/-- Two rules leave the same record in either order, if their fields are different ones and
their tags read the same in either order. -/
theorem same_afterRule_afterRule {o o' : Outcome}
    (hnames : ∀ name ∈ o.values.keys, name ∉ o'.values.keys) (ho : tagsField ∉ o.values.keys)
    (ho' : tagsField ∉ o'.values.keys) (htags : tags ++ tags' = tags' ++ tags) (r : Record) :
    ((r.afterRule o tags).afterRule o' tags').Same ((r.afterRule o' tags').afterRule o tags) := by
  let fields := o.values.entries
  let fields' := o'.values.entries
  have hcollect : ∀ {fields fields' : List (Text × Text)} {tags tags' : List Value},
      tagsField ∉ fields'.map Prod.fst →
      (addTags (withFields (addTags (r.withFields fields) tags) fields') tags').Same
        (addTags ((r.withFields fields).withFields fields') (tags ++ tags')) := by
    intro fields fields' tags tags' h
    rw [← addTags_addTags]
    exact same_addTags (same_withFields_addTags h _ _) _
  calc (addTags (withFields (addTags (r.withFields fields) tags) fields') tags').Same
        (addTags ((r.withFields fields).withFields fields') (tags ++ tags')) := hcollect ho'
    Table.Same _ (addTags ((r.withFields fields').withFields fields) (tags ++ tags')) :=
        same_addTags (same_withFields_withFields hnames r) _
    Table.Same _ (addTags ((r.withFields fields').withFields fields) (tags' ++ tags)) :=
        .of_eq (by rw [htags])
    Table.Same _ (addTags (withFields (addTags (r.withFields fields') tags') fields) tags) :=
        (hcollect ho).symm

end Record

/-! ## Rules -/

/-- All outcomes bring copies of the same tags. -/
theorem Outcome.tags_append_comm {failureTags : Value} {o o' : Outcome}
    (h : o.tags failureTags = .ok tags) (h' : o'.tags failureTags = .ok tags') :
    tags ++ tags' = tags' ++ tags := by
  have hall : ∀ {o : Outcome} {tags : List Value}, o.tags failureTags = .ok tags →
      tags = [] ∨ failureTags.items = .ok tags := by
    intro o tags h
    cases o with
    | patternNotFound values token delimiter => exact .inr h
    | matched values orphans => exact .inl (Except.ok.inj h).symm
    | keyNotFound => exact .inl (Except.ok.inj h).symm
  rcases hall h with rfl | hitems
  · simp
  · rcases hall h' with rfl | hitems'
    · simp
    · rw [Except.ok.inj (hitems.symm.trans hitems')]

namespace Filter

variable {f g : Filter} {failureTags source : Value} {pattern : Pattern} {o : Outcome}
  {rule other : Value × Pattern} {rules rules' : List (Value × Pattern)}
  {outcomes : List (Value × Outcome)} {m m' : Table Text Text}

/-- Rules that do not get in each other's way.  They name all of their fields themselves, no
two of them the same field, none of them a source of any, and the field of the tags is neither
a source nor written. -/
structure Independent (rules : List (Value × Pattern)) : Prop where
  direct : ∀ rule ∈ rules, ∀ token ∈ rule.2.tokens, token.placeholder.modifier.isIndirect = false
  disjoint : rules.Pairwise fun rule other =>
    ∀ name ∈ rule.2.fieldNames, name ∉ other.2.fieldNames
  apart : ∀ rule ∈ rules, ∀ other ∈ rules, ∀ name ∈ other.2.fieldNames, rule.1 ≠ .text name
  untagged : ∀ rule ∈ rules, tagsField ∉ rule.2.fieldNames
  noTagsSource : ∀ rule ∈ rules, rule.1 ≠ .text tagsField

theorem Independent.of_perm (h : Independent rules) (hperm : rules.Perm rules') :
    Independent rules' where
  direct rule hr := h.direct rule (hperm.mem_iff.2 hr)
  disjoint := by
    refine (hperm.pairwise_iff ?_).1 h.disjoint
    intro rule other hdisjoint name hname hname'
    exact hdisjoint name hname' hname
  apart rule hr other ho := h.apart rule (hperm.mem_iff.2 hr) other (hperm.mem_iff.2 ho)
  untagged rule hr := h.untagged rule (hperm.mem_iff.2 hr)
  noTagsSource rule hr := h.noTagsSource rule (hperm.mem_iff.2 hr)

theorem Independent.tail (h : Independent (rule :: rules)) : Independent rules where
  direct := (List.forall_mem_cons.1 h.direct).2
  disjoint := (List.pairwise_cons.1 h.disjoint).2
  apart rule hr other ho :=
    h.apart rule (List.mem_cons_of_mem _ hr) other (List.mem_cons_of_mem _ ho)
  untagged := (List.forall_mem_cons.1 h.untagged).2
  noTagsSource := (List.forall_mem_cons.1 h.noTagsSource).2

/-- What a pattern without indirect tokens captures from a field are fields that it names. -/
theorem mem_fieldNames_of_dissectField {name : Text}
    (hp : ∀ token ∈ pattern.tokens, token.placeholder.modifier.isIndirect = false)
    (ho : pattern.dissectField r source = .ok o) (h : name ∈ o.values.keys) :
    name ∈ pattern.fieldNames := by
  obtain rfl | ⟨text, rfl⟩ := Pattern.eq_of_dissectField ho
  · cases h
  · exact Pattern.mem_fieldNames_of_mem_values hp h

/-- No rule captures a field under the name of the tags. -/
theorem Independent.uncaptured (h : Independent rules) (hr : rule ∈ rules) (o : Outcome)
    (ho : rule.2.dissectField r rule.1 = .ok o) : tagsField ∉ o.values.keys := fun hmem =>
  h.untagged rule hr (mem_fieldNames_of_dissectField (h.direct rule hr) ho hmem)

/-- Applying a rule where tags can be appended. -/
theorem gives_applyRule_iff_afterRule (hr : r.Taggable)
    (ho : ∀ o, pattern.dissectField r source = .ok o → tagsField ∉ o.values.keys) :
    (applyRule failureTags source pattern).Gives r o r' ↔
      pattern.dissectField r source = .ok o ∧ ∃ tags, o.tags failureTags = .ok tags ∧
        r.afterRule o tags = r' := by
  have hset : ∀ {entries : List (Text × Text)} {r merged : Record},
      (setAll entries).Gives r () merged ↔ r.withFields entries = merged := by
    intro entries
    induction entries with
    | nil => intro r merged; simp [withFields]
    | cons entry rest ih =>
      intro r merged
      rw [gives_setAll_cons_iff, ih, withFields_cons]
  rw [gives_applyRule_iff]
  refine and_congr_right fun hfound => ?_
  have hmerged : (r.withFields o.values.entries).Taggable := hr.afterRule (ho o hfound) []
  simp only [hset, exists_eq_left', exists_and_left, gives_appendTags_iff hmerged]
  rfl

theorem dissectField_congr (h : r'.get? source = r.get? source) :
    pattern.dissectField r' source = pattern.dissectField r source := by
  rw [Pattern.dissectField, Pattern.dissectField, h]

/-- A rule finds its source as it was before another rule. -/
theorem Independent.dissectField_afterRule (h : Independent rules) (hrule : rule ∈ rules)
    (hother : other ∈ rules) (ho : other.2.dissectField r other.1 = .ok o) (tags : List Value) :
    rule.2.dissectField (r.afterRule o tags) rule.1 = rule.2.dissectField r rule.1 := by
  have hfound : (r.afterRule o tags).get? rule.1 = r.get? rule.1 := by
    apply get?_afterRule
    · intro name hname
      exact h.apart rule hrule other hother name
        (mem_fieldNames_of_dissectField (h.direct other hother) ho hname)
    · exact h.noTagsSource rule hrule
  exact dissectField_congr hfound

/-- Two rules that follow each other can change places. -/
theorem gives_applyRules_swap (h : Independent (rule :: other :: rules)) (hr : r.Taggable)
    (hgives : (applyRules failureTags (rule :: other :: rules)).Gives r outcomes r') :
    ∃ outcomes' r'', (applyRules failureTags (other :: rule :: rules)).Gives r outcomes' r'' ∧
      outcomes.Perm outcomes' ∧ r'.Same r'' := by
  have hrule : rule ∈ rule :: other :: rules := by simp
  have hother : other ∈ rule :: other :: rules := by simp
  obtain ⟨o, r₁, _, hfirst, hlater, rfl⟩ := gives_applyRules_cons_iff.1 hgives
  obtain ⟨o', r₂, rest, hsecond, hrest, rfl⟩ := gives_applyRules_cons_iff.1 hlater
  obtain ⟨hfound, tags, htags, rfl⟩ :=
    (gives_applyRule_iff_afterRule hr (h.uncaptured hrule)).1 hfirst
  have ho := h.uncaptured hrule o hfound
  obtain ⟨hfound', tags', htags', rfl⟩ :=
    (gives_applyRule_iff_afterRule (hr.afterRule ho tags) (h.uncaptured hother)).1 hsecond
  rw [h.dissectField_afterRule hother hrule hfound] at hfound'
  have ho' := h.uncaptured hother o' hfound'
  -- the two rules in the other order, from the same record
  have hfirst' : (applyRule failureTags other.1 other.2).Gives r o' (r.afterRule o' tags') :=
    (gives_applyRule_iff_afterRule hr (h.uncaptured hother)).2 ⟨hfound', tags', htags', rfl⟩
  have hsecond' : (applyRule failureTags rule.1 rule.2).Gives (r.afterRule o' tags') o _ :=
    (gives_applyRule_iff_afterRule (hr.afterRule ho' tags') (h.uncaptured hrule)).2
      ⟨(h.dissectField_afterRule hrule hother hfound' tags').trans hfound, tags, htags, rfl⟩
  have hnames : ∀ name ∈ o.values.keys, name ∉ o'.values.keys := by
    intro name hname hname'
    exact (List.pairwise_cons.1 h.disjoint).1 other (by simp) name
      (mem_fieldNames_of_dissectField (h.direct rule hrule) hfound hname)
      (mem_fieldNames_of_dissectField (h.direct other hother) hfound' hname')
  have hsame := same_afterRule_afterRule hnames ho ho' (Outcome.tags_append_comm htags htags') r
  obtain ⟨r'', hrest', hfinal⟩ := ignoresOrder_applyRules failureTags rules hsame hrest
  exact ⟨_, r'', gives_applyRules_cons_iff.2 ⟨_, _, _, hfirst',
    gives_applyRules_cons_iff.2 ⟨_, _, _, hsecond', hrest', rfl⟩, rfl⟩, .swap _ _ _, hfinal⟩

/-- Independent rules can be applied in any order. -/
theorem gives_applyRules_of_perm (hperm : rules.Perm rules') (h : Independent rules)
    (hr : r.Taggable) (hgives : (applyRules failureTags rules).Gives r outcomes r') :
    ∃ outcomes' r'', (applyRules failureTags rules').Gives r outcomes' r'' ∧
      outcomes.Perm outcomes' ∧ r'.Same r'' := by
  induction hperm generalizing r r' outcomes with
  | nil => exact ⟨outcomes, r', hgives, .refl _, .refl _⟩
  | cons rule _ ih =>
    obtain ⟨o, r₁, rest, hfirst, hrest, rfl⟩ := gives_applyRules_cons_iff.1 hgives
    have huncaptured := h.uncaptured (r := r) List.mem_cons_self
    obtain ⟨hfound, tags, -, rfl⟩ := (gives_applyRule_iff_afterRule hr huncaptured).1 hfirst
    have htaggable := hr.afterRule (huncaptured o hfound) tags
    obtain ⟨rest', r'', hrest', houtcomes, hsame⟩ := ih h.tail htaggable hrest
    exact ⟨_, r'', gives_applyRules_cons_iff.2 ⟨_, _, _, hfirst, hrest', rfl⟩, houtcomes.cons _,
      hsame⟩
  | swap rule other rest => exact gives_applyRules_swap h hr hgives
  | trans hperm _ ih ih' =>
    obtain ⟨outcomes₁, r₁, hgives₁, houtcomes₁, hsame₁⟩ := ih h hr hgives
    obtain ⟨outcomes₂, r₂, hgives₂, houtcomes₂, hsame₂⟩ := ih' (h.of_perm hperm) hr hgives₁
    exact ⟨outcomes₂, r₂, hgives₂, houtcomes₁.trans houtcomes₂, hsame₁.trans hsame₂⟩

/-! ## A mapping in another order -/

/-- A filter that is registered with another mapping in the place of its own. -/
def remapped (f : Filter) (m : Table Text Text) : Except RuleError Filter :=
  register { f with settings := f.settings.set .mapping (Config.tableValue m) }

theorem Compiles.texts {rules : Table Value Pattern} (h : Compiles m rules) :
    ∀ key ∈ rules.keys, ∃ name, key = .text name := by
  intro key hkey
  rw [Table.keys, map_fst_of_compiled h] at hkey
  obtain ⟨name, -, rfl⟩ := List.mem_map.1 hkey
  exact ⟨name, rfl⟩

/-- The rules of a mapping in another order are its rules in another order. -/
theorem exists_compiles_of_perm {rules : Table Value Pattern} (h : Compiles m rules)
    (hperm : m.entries.Perm m'.entries) :
    ∃ rules', Compiles m' rules' ∧ rules.entries.Perm rules'.entries := by
  obtain ⟨entries, hcompiled, hentries⟩ := List.perm_comp_forall₂ hperm.symm h
  have hofList := entries_ofList_of_compiled hcompiled
  refine ⟨Table.ofList entries, ?_, ?_⟩
  · rwa [Compiles, hofList]
  · rw [hofList]
    exact hentries.symm

theorem isSuccess_of_perm {outcomes' : List (Value × Outcome)} (h : outcomes.Perm outcomes') :
    isSuccess outcomes' = isSuccess outcomes := by
  rw [isSuccess, isSuccess, h.all_eq, h.isEmpty_eq]

/-- Filters with the same rules in different orders convert a record alike. -/
theorem converts_of_perm {types : Table Text Text} {failures : List Conversion.Failure}
    (hrules : f.rules.entries.Perm g.rules.entries) (h : Independent f.rules.entries)
    (hfailureTags : g.settings.failureTags = f.settings.failureTags)
    (htypes : f.conversions = Config.valueTable types)
    (hconversions : g.conversions = f.conversions) (hr : r.Taggable) (hconverts : f.Converts r outcomes failures r') :
    ∃ outcomes' r'', g.Converts r outcomes' failures r'' ∧ outcomes.Perm outcomes' ∧
      r'.Same r'' := by
  obtain ⟨r₁, happlied, hconverted⟩ := hconverts
  obtain ⟨outcomes', r₁', happlied', houtcomes, hsame⟩ :=
    gives_applyRules_of_perm hrules h hr happlied
  rw [htypes, Conversion.entries_valueTable] at hconverted
  obtain ⟨r'', hconverted', hsame'⟩ := Conversion.ignoresOrder_convertAll _ hsame hconverted
  refine ⟨outcomes', r'', ⟨r₁', hfailureTags ▸ happlied', ?_⟩, houtcomes, hsame'⟩
  rwa [hconversions, htypes, Conversion.entries_valueTable]

/-- A record is finished alike after outcomes in different orders. -/
theorem finish_of_perm {outcomes' : List (Value × Outcome)} {failures : List Conversion.Failure}
    {s : Summary} (houtcomes : outcomes.Perm outcomes') (hsame : r.Same r')
    (h : (f.finish outcomes failures).Gives r s final) :
    ∃ final', (f.finish outcomes' failures).Gives r' ⟨.ofList outcomes', s.failures⟩ final' ∧
      final.Same final' := by
  obtain ⟨final', h', hfinal⟩ := f.ignoresOrder_finish outcomes failures hsame h
  obtain ⟨hdecorate, rfl⟩ := gives_finish_iff.1 h'
  refine ⟨final', gives_finish_iff.2 ⟨?_, rfl⟩, hfinal⟩
  rwa [isSuccess_of_perm houtcomes]

/-- The outcomes of rules under distinct sources are a table as they are. -/
theorem entries_ofList_of_converts {failures : List Conversion.Failure}
    (h : f.Converts r outcomes failures r') : (Table.ofList outcomes).entries = outcomes :=
  Table.entries_foldl_put ∅ ((keys_of_converts h).symm ▸ f.rules.distinct)

/-- Filters with the same rules in different orders make the same of a record. -/
theorem gives_process_of_perm {types : Table Text Text} {s : Summary}
    (htexts : ∀ key ∈ f.rules.keys, ∃ name, key = .text name)
    (hrules : f.rules.entries.Perm g.rules.entries) (h : Independent f.rules.entries)
    (hfailureTags : g.settings.failureTags = f.settings.failureTags)
    (htypes : f.conversions = Config.valueTable types)
    (hconversions : g.conversions = f.conversions) (hfinish : g.finish = f.finish) (hr : r.Taggable) (hgives : f.process.Gives r s final) :
    ∃ s' final', g.process.Gives r s' final' ∧ s.outcomes.Same s'.outcomes ∧
      s'.success = s.success ∧ s'.failures = s.failures ∧ final.Same final' := by
  obtain ⟨outcomes, failures, converted, hconverts, hfinished⟩ := gives_process_iff.1 hgives
  obtain ⟨outcomes', converted', hconverts', houtcomes, hsame⟩ :=
    converts_of_perm hrules h hfailureTags htypes hconversions hr hconverts
  obtain ⟨final', hfinished', hfinal⟩ := finish_of_perm houtcomes hsame hfinished
  obtain ⟨-, rfl⟩ := gives_finish_iff.1 hfinished
  have hentries := entries_ofList_of_converts hconverts
  have hentries' := entries_ofList_of_converts hconverts'
  have hkeys : (Table.ofList outcomes).keys = f.rules.keys := by
    rw [Table.keys, hentries, keys_of_converts hconverts]
  have hgives' : g.process.Gives r _ final' :=
    gives_process_iff.2 ⟨outcomes', failures, converted', hconverts', hfinish ▸ hfinished'⟩
  refine ⟨_, final', hgives', ?_, ?_, rfl, hfinal⟩
  · apply Table.Same.of_perm
    · intro key hkey
      exact htexts key (hkeys ▸ hkey)
    · rwa [hentries, hentries']
  · rw [Summary.success, Summary.success, hentries, hentries', isSuccess_of_perm houtcomes]

/-- A mapping in another order makes the same of every record.  Each source has the same outcome,
the same fields fail to be converted, and the fields and tags that are left are the same. -/
theorem gives_process_remapped {types : Table Text Text} (hf : Compiles m f.rules)
    (htypes : f.conversions = Config.valueTable types) (hi : Independent f.rules.entries)
    (hperm : m.entries.Perm m'.entries) :
    ∃ g, f.remapped m' = .ok g ∧ ∀ r : Record, r.Taggable →
      (g.process.Returns r ↔ f.process.Returns r) ∧
      ∀ s final, f.process.Gives r s final → ∃ s' final', g.process.Gives r s' final' ∧
        s.outcomes.Same s'.outcomes ∧ s'.success = s.success ∧ s'.failures = s.failures ∧
        final.Same final' ∧ ∀ tags, final.HasTags tags → final'.HasTags tags := by
  obtain ⟨rules', hcompiles, hrules⟩ := exists_compiles_of_perm hf hperm
  let g : Filter := { f with
    settings := f.settings.set .mapping (Config.tableValue m')
    rules := rules'
    registered := true }
  have hg : f.remapped m' = .ok g := (register_eq_ok_iff rfl).2 ⟨rules', hcompiles, rfl⟩
  have hforth : ∀ {r s final}, r.Taggable → f.process.Gives r s final →
      ∃ s' final', g.process.Gives r s' final' ∧ s.outcomes.Same s'.outcomes ∧
        s'.success = s.success ∧ s'.failures = s.failures ∧ final.Same final' :=
    gives_process_of_perm hf.texts hrules hi rfl htypes rfl rfl
  have hback : ∀ {r s final}, r.Taggable → g.process.Gives r s final →
      ∃ s' final', f.process.Gives r s' final' ∧ s.outcomes.Same s'.outcomes ∧
        s'.success = s.success ∧ s'.failures = s.failures ∧ final.Same final' :=
    gives_process_of_perm hcompiles.texts hrules.symm (hi.of_perm hrules) rfl htypes rfl rfl
  refine ⟨g, hg, fun r hr => ⟨⟨?_, ?_⟩, ?_⟩⟩
  · rintro ⟨s, final, h⟩
    obtain ⟨s', final', h', -⟩ := hback hr h
    exact ⟨s', final', h'⟩
  · rintro ⟨s, final, h⟩
    obtain ⟨s', final', h', -⟩ := hforth hr h
    exact ⟨s', final', h'⟩
  · intro s final h
    obtain ⟨s', final', h', houtcomes, hsuccess, hfailures, hfinal⟩ := hforth hr h
    refine ⟨s', final', h', houtcomes, hsuccess, hfailures, hfinal, fun tags htags => ?_⟩
    exact (hfinal.found _).symm.trans htags

/-- Patterns for two sources. -/
def twoSources : Table Text Text :=
  .ofList [("message", "%\x7ba\x7d %\x7bb\x7d"), ("path", "%\x7bdir\x7d/%\x7bfile\x7d?%\x7bquery\x7d")]

/-- A filter with two rules that converts two of the fields that they capture. -/
def twoRules : Filter where
  settings := Config.settings { mapping := twoSources }
  conversions := Config.valueTable (.ofList [("b", "int"), ("a", "int")])
  rules := .ofList
    [(.text "message",
      { leading := [], tokens := [⟨⟨"a", .normal, "a"⟩, " "⟩, ⟨⟨"b", .normal, "b"⟩, []⟩] }),
    (.text "path",
      { leading := []
        tokens := [⟨⟨"dir", .normal, "dir"⟩, "/"⟩, ⟨⟨"file", .normal, "file"⟩, "?"⟩,
          ⟨⟨"query", .normal, "query"⟩, []⟩] })]
  registered := true

/-- The second rule does not fit and a field is not converted, whichever rule is the first. -/
theorem gives_process_remapped_twoRules :
    let m' : Table Text Text :=
      .ofList [("path", "%\x7bdir\x7d/%\x7bfile\x7d?%\x7bquery\x7d"), ("message", "%\x7ba\x7d %\x7bb\x7d")]
    let r : Record := .ofList [(.text "message", .text "7 x"), (.text "path", .text "tmp/x"),
      (.text tagsField, .list [.text "old"])]
    let s : Summary :=
      { outcomes := .ofList
          [(.text "message", .matched (.ofList [("a", "7"), ("b", "x")]) []),
            (.text "path", .patternNotFound (.ofList [("dir", "tmp")]) (some 1) "?")]
        failures := [⟨.text "b", .text "int", .uncoercible (.text "x")⟩] }
    let tags : List Value :=
      [.text "old", .text "_dissectfailure", .text "_dataconversionuncoercible_b_int"]
    Compiles twoSources twoRules.rules ∧
      twoRules.conversions = Config.valueTable (.ofList [("b", "int"), ("a", "int")]) ∧
      Independent twoRules.rules.entries ∧ twoSources.entries.Perm m'.entries ∧ r.Taggable ∧
      ∃ g, twoRules.remapped m' = .ok g ∧ ∃ s' final, g.process.Gives r s' final ∧
        s.outcomes.Same s'.outcomes ∧ s'.failures = s.failures ∧ final.HasTags (some tags) := by
  intro m' r s tags
  have hcompiles : Compiles twoSources twoRules.rules :=
    compileRules_eq_ok_iff.1 (by decide +kernel)
  have hindependent : Independent twoRules.rules.entries := by
    constructor
    all_goals decide +kernel
  have hperm : twoSources.entries.Perm m'.entries := .swap _ _ _
  have hr : r.Taggable := ⟨some [.text "old"], by decide +kernel⟩
  have hgives : ∃ final, twoRules.process.Gives r s final ∧ final.HasTags (some tags) :=
    ⟨(twoRules.process.run r).record, by decide +kernel⟩
  obtain ⟨g, hg, hall⟩ := gives_process_remapped hcompiles rfl hindependent hperm
  obtain ⟨final, hfinal, htags⟩ := hgives
  obtain ⟨s', final', hgives', houtcomes, -, hfailures, -, htags'⟩ :=
    (hall r hr).2 s final hfinal
  exact ⟨hcompiles, rfl, hindependent, hperm, hr, g, hg, s', final', hgives', houtcomes,
    hfailures, htags' _ htags⟩

end Filter

end Dissection
