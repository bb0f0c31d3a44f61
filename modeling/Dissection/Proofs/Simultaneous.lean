import Dissection.Proofs.Conversion

/-!
# Converting all fields at once

The fields of a record are converted one after another, and a failure adds a tag to the very
record that the next field is read from.  As long as the tags themselves are not to be
converted, none of this can be told from the result: it is as if every field had been looked at
in the record as it was to begin with.  So the order of the datatypes decides about the order of
the failures and of their tags, and about nothing else.

## Main definitions

* `Conversion.failure?` — the failure of a field, from what a record holds.
* `Conversion.replaced` — what a field holds when every field is converted by itself.
* `Conversion.atOnce` — a record with all fields converted at once.

## Main statements

* `Conversion.convert_eq_atOnce` — converting one after another is converting at once.
-/

namespace Dissection

open Dissection.Action Dissection.Record

/-! ## Entries one by one -/

namespace Table

variable {κ α β γ : Type} [BEq κ]

/-- The same keys with a function of the keys and of their values. -/
def mapEntries (f : κ → α → β) (t : Table κ α) : Table κ β where
  entries := t.entries.map fun (key, value) => (key, f key value)
  distinct := by
    have : (t.entries.map fun (key, value) => (key, f key value)).map Prod.fst =
        t.entries.map Prod.fst := by simp [Function.comp_def]
    rw [this]
    exact t.distinct

theorem mapEntries_mapEntries (f : κ → α → β) (g : κ → β → γ) (t : Table κ α) :
    (t.mapEntries f).mapEntries g = t.mapEntries fun key v => g key (f key v) := by
  apply Table.ext
  simp [mapEntries, Function.comp_def]

theorem mapEntries_congr {f g : κ → α → β} {t : Table κ α}
    (h : ∀ entry ∈ t.entries, f entry.1 entry.2 = g entry.1 entry.2) :
    t.mapEntries f = t.mapEntries g := by
  apply Table.ext
  exact List.map_congr_left fun entry he => Prod.ext rfl (h entry he)

theorem mapEntries_eq_self {f : κ → α → α} {t : Table κ α}
    (h : ∀ entry ∈ t.entries, f entry.1 entry.2 = entry.2) : t.mapEntries f = t := by
  apply Table.ext
  calc (t.mapEntries f).entries = t.entries.map id :=
        List.map_congr_left fun entry he => Prod.ext rfl (h entry he)
    _ = t.entries := List.map_id _

theorem get?_mapEntries_text (f : Value → α → β) (t : Table Value α) (name : Text) :
    (t.mapEntries f).get? (.text name) = (t.get? (.text name)).map (f (.text name)) := by
  simp only [get?, mapEntries]
  induction t.entries with
  | nil => rfl
  | cons entry rest ih =>
    by_cases hname : entry.1 = .text name
    · simp [Value.beq_text, hname]
    · simpa [Value.beq_text, hname] using ih

/-- Writing under a text that is present changes the entry under that text and no other. -/
theorem put_text_eq_mapEntries {t : Table Value α} {name : Text} {old : α}
    (h : t.get? (.text name) = some old) (value : α) :
    t.put (.text name) value = t.mapEntries fun key v => if key = .text name then value else v :=
  Table.ext (entries_put_text t h value)

/-- An entry that stays the same can as well be written afterwards. -/
theorem mapEntries_put_text {f : Value → α → α} {name : Text} {value : α}
    (hf : ∀ v, f (.text name) v = v) (t : Table Value α) :
    (t.put (.text name) value).mapEntries f = (t.mapEntries f).put (.text name) value := by
  apply Table.ext
  simp only [put, mapEntries]
  induction t.entries with
  | nil => simp [putEntry, hf]
  | cons entry rest ih =>
    by_cases hfirst : entry.1 = .text name
    · simp [putEntry, Value.beq_text, hfirst, hf]
    · simpa [putEntry, Value.beq_text, hfirst] using ih

end Table

/-! ## More tags -/

namespace Record

variable {r r' : Record} {tags : Option (List Value)}

/-- A record with tags behind the ones that it has. -/
def addTags (r : Record) (added : List Value) : Record :=
  if added = [] then r
  else Table.put r (.text tagsField) (.list ((tagList? r).getD [] ++ added))

theorem HasTags.tagList? (h : r.HasTags tags) : tagList? r = tags := by
  rw [Record.tagList?, h]
  cases tags <;> rfl

theorem get?_addTags_of_ne {key : Value} (hkey : key ≠ .text tagsField) (r : Record)
    (added : List Value) : (addTags r added).get? key = r.get? key := by
  rw [addTags]
  split
  · rfl
  · rw [Table.get?_put_under_text, if_neg hkey]

theorem addTags_addTags (r : Record) (added others : List Value) :
    addTags (addTags r added) others = addTags r (added ++ others) := by
  by_cases ha : added = []
  · simp [addTags, ha]
  · by_cases ho : others = []
    · simp [addTags, ho]
    · simp [addTags, ha, ho, (hasTags_put _ _).tagList?, Table.put_put_text]

theorem HasTags.eq_addTags (h : r.HasTags tags) {tag : Value}
    (happend : Record.appendTag r tag = .ok r') : r' = addTags r [tag] := by
  rw [h.appendTag] at happend
  obtain rfl := Except.ok.inj happend
  rw [addTags, if_neg (List.cons_ne_nil _ _), h.tagList?]

theorem HasTags.addTags (h : r.HasTags tags) (added : List Value) :
    (addTags r added).HasTags (moreTags tags added) := by
  rw [Record.addTags, moreTags, h.tagList?]
  split
  · exact h
  · exact hasTags_put r _

theorem mapEntries_addTags {f : Value → Value → Value}
    (hf : ∀ v, f (.text tagsField) v = v) (r : Record) (added : List Value) :
    (addTags r added).mapEntries f = addTags (r.mapEntries f) added := by
  have htags : Record.tagList? (r.mapEntries f) = Record.tagList? r := by
    rw [Record.tagList?, Record.tagList?, Table.get?_mapEntries_text]
    cases r.get? (.text tagsField) with
    | none => rfl
    | some v => rw [Option.map_some, hf]
  by_cases ha : added = []
  · simp [addTags, ha]
  · rw [addTags, addTags, if_neg ha, if_neg ha, htags, Table.mapEntries_put_text hf]

end Record

namespace Conversion

variable {r r' : Record} {tags : Option (List Value)} {failure : Option Failure}
  {failures : List Failure} {entries others : List (Text × Text)} {datatype : Text}

/-! ## All fields at once -/

/-- The failure of a field, from what a record holds. -/
def failure? (r : Record) (entry : Text × Text) : Option Failure :=
  (cause? entry.2 (r.value (.text entry.1))).map (⟨.text entry.1, .text entry.2, ·⟩)

/-- What a field with a value holds when every field is converted by itself. -/
def replaced (entries : List (Text × Text)) (key v : Value) : Value :=
  ((entries.find? fun entry => key = .text entry.1).bind fun entry => converted? entry.2 v).getD v

/-- A record with all fields converted at once: each by itself and in its place, and with the
tags of the fields that are left behind the tags that there are. -/
def atOnce (entries : List (Text × Text)) (r : Record) : Record :=
  addTags (r.mapEntries (replaced entries))
    ((entries.filterMap (failure? r)).map fun failure => .text failure.tag)

theorem replaced_cons (entry : Text × Text) (rest : List (Text × Text)) (key v : Value) :
    replaced (entry :: rest) key v =
      if key = .text entry.1 then (converted? entry.2 v).getD v else replaced rest key v := by
  by_cases hkey : key = .text entry.1 <;> simp [replaced, hkey]

theorem replaced_nil (key v : Value) : replaced [] key v = v := rfl

theorem replaced_of_ne {key : Value} (h : ∀ entry ∈ entries, key ≠ .text entry.1) (v : Value) :
    replaced entries key v = v := by
  have hnone : entries.find? (fun entry => key = .text entry.1) = none :=
    List.find?_eq_none.2 fun entry he => by simpa using h entry he
  rw [replaced, hnone]
  rfl

theorem replaced_tags (htags : tagsField ∉ entries.map Prod.fst) (v : Value) :
    replaced entries (.text tagsField) v = v := by
  refine replaced_of_ne ?_ v
  intro entry he heq
  exact htags (Value.text.inj heq ▸ List.mem_map_of_mem he)

theorem replaced_singleton (entry : Text × Text) (key v : Value) :
    replaced [entry] key v =
      if key = .text entry.1 then (converted? entry.2 v).getD v else v := by
  rw [replaced_cons, replaced_nil]

/-- Fields are converted one after another if no two of them are the same. -/
theorem replaced_replaced {entry : Text × Text} (hnew : entry.1 ∉ entries.map Prod.fst)
    (key v : Value) :
    replaced entries key (replaced [entry] key v) = replaced (entry :: entries) key v := by
  rw [replaced_singleton, replaced_cons]
  split
  · next hkey =>
    subst hkey
    refine replaced_of_ne (fun other ho => ?_) _
    simpa using fun heq : entry.1 = other.1 => hnew (heq ▸ List.mem_map_of_mem ho)
  · rfl

theorem replaced_singleton_of_mem (entry : Text × Text) {field : Value × Value}
    (hfield : field ∈ r.entries) :
    replaced [entry] field.1 field.2 =
      if field.1 = .text entry.1 then
        (converted? entry.2 (r.value (.text entry.1))).getD field.2
      else field.2 := by
  rw [replaced_singleton]
  split
  · next hkey =>
    have hheld := Table.get?_of_mem_entries (hkey ▸ hfield : (.text entry.1, field.2) ∈ r.entries)
    rw [Record.value, hheld, Option.getD_some]
  · rfl

/-- What a field holds does not depend on the order of the datatypes. -/
theorem replaced_of_perm (hperm : entries.Perm others) (hdistinct : (entries.map Prod.fst).Nodup) :
    replaced entries = replaced others := by
  funext key v
  induction hperm with
  | nil => rfl
  | cons entry _ ih =>
    rw [replaced_cons, replaced_cons, ih (List.nodup_cons.1 hdistinct).2]
  | swap entry other rest =>
    have hne : other.1 ≠ entry.1 := by
      simp only [List.map_cons, List.nodup_cons, List.mem_cons, not_or] at hdistinct
      exact hdistinct.1.1
    simp only [replaced_cons]
    by_cases hentry : key = .text entry.1
    · subst hentry
      simp [hne.symm]
    · simp [hentry]
  | trans hfirst _ ih ih' =>
    rw [ih hdistinct, ih' ((hfirst.map Prod.fst).nodup_iff.1 hdistinct)]

/-- What is converted has no cause to be left, and the other way round. -/
theorem cause?_of_converted {v w : Value} (h : converted? datatype v = some w) :
    cause? datatype v = none :=
  (manageable_of_converted h).inRange.exists_converted_iff.1 ⟨w, h⟩

theorem converted?_of_cause {v : Value} {cause : Cause} (h : cause? datatype v = some cause) :
    converted? datatype v = none := by
  refine Option.eq_none_iff_forall_ne_some.2 fun w hw => ?_
  rw [cause?_of_converted hw] at h
  cases h

theorem converted?_null (datatype : Text) : converted? datatype .null = none := by
  rw [converted?]
  cases Datatype.ofName? datatype with
  | none => rfl
  | some target => rw [Option.bind_some, coerce_null]; rfl

/-- Converting one field is converting the fields at once when there is only one. -/
theorem gives_convertField_atOnce {entry : Text × Text} (hr : r.HasTags tags)
    (h : (convertField (.text entry.1) (.text entry.2)).Gives r failure r') :
    failure = failure? r entry ∧
      r' = addTags (r.mapEntries (replaced [entry])) (failure.toList.map (.text ·.tag)) := by
  rcases gives_convertField_text_iff.1 h with ⟨w, hw, rfl, rfl⟩ | ⟨cause, hcause, _, rfl, happend⟩
  · refine ⟨by rw [failure?, cause?_of_converted hw]; rfl, ?_⟩
    obtain ⟨v, hv⟩ : ∃ v, r.get? (.text entry.1) = some v := by
      cases hget : r.get? (.text entry.1) with
      | none => simp [Record.value, hget, converted?_null] at hw
      | some v => exact ⟨v, rfl⟩
    rw [Option.toList_none, List.map_nil, addTags, if_pos rfl, Table.put_text_eq_mapEntries hv]
    refine Table.mapEntries_congr fun field hfield => ?_
    rw [replaced_singleton_of_mem entry hfield, hw, Option.getD_some]
  · refine ⟨by rw [failure?, hcause]; rfl, ?_⟩
    rw [Table.mapEntries_eq_self fun field hfield => ?_]
    · exact hr.eq_addTags happend
    · rw [replaced_singleton_of_mem entry hfield, converted?_of_cause hcause, Option.getD_none,
        ite_self]

/-- Converting one field after another is converting all of them at once. -/
theorem gives_convertAll_atOnce (hdistinct : (entries.map Prod.fst).Nodup)
    (htags : tagsField ∉ entries.map Prod.fst) (hr : r.HasTags tags)
    (h : (convertAll (entries.map pair)).Gives r failures r') :
    failures = entries.filterMap (failure? r) ∧ r' = atOnce entries r := by
  induction entries generalizing r tags failures with
  | nil =>
    obtain ⟨rfl, rfl⟩ := gives_convertAll_nil_iff.1 h
    exact ⟨rfl, (Table.mapEntries_eq_self fun _ _ => replaced_nil _ _).symm⟩
  | cons entry rest ih =>
    obtain ⟨hnew, hrest⟩ := List.nodup_cons.1 hdistinct
    rw [List.map_cons, List.mem_cons, not_or] at htags
    obtain ⟨failure, r₁, later, hfirst, hlater, rfl⟩ := gives_convertAll_cons_iff.1 h
    obtain ⟨rfl, hr₁⟩ := gives_convertField_atOnce hr hfirst
    obtain ⟨rfl, rfl⟩ := ih hrest htags.2 (hasTags_of_gives_convertField hr hfirst).2 hlater
    -- what the first field left is what the others would have found before it
    have hsame : rest.filterMap (failure? r₁) = rest.filterMap (failure? r) := by
      refine List.filterMap_congr fun other ho => ?_
      have hname : other.1 ∈ rest.map Prod.fst := List.mem_map_of_mem ho
      rw [failure?, failure?, Record.value, Record.value, get?_of_gives_convertField hfirst]
      · simpa using fun heq : other.1 = entry.1 => hnew (heq ▸ hname)
      · simpa using fun heq : other.1 = tagsField => htags.2 (heq ▸ hname)
    rw [List.filterMap_cons, atOnce, atOnce, hsame, hr₁, mapEntries_addTags (replaced_tags htags.2),
      addTags_addTags, Table.mapEntries_mapEntries]
    simp only [replaced_replaced hnew]
    cases hfailure : failure? r entry <;> simp [hfailure]

/-- No failure is one of the tags if they are not to be converted, so none is seen otherwise
later. -/
theorem map_seenWith_eq_self (htags : tagsField ∉ entries.map Prod.fst) (hr : r.HasTags tags)
    (h : (convertAll (entries.map pair)).Gives r failures r') (seen : Option (List Value)) :
    failures.map (.seenWith seen) = failures := by
  have hfields := (hasTags_of_gives_convertAll hr h).1
  refine (List.map_congr_left fun failure hfailure => ?_).trans (List.map_id _)
  refine seenWith_eq_self ?_ seen
  obtain ⟨entry, he, hentry⟩ := List.mem_map.1 (hfields.subset (List.mem_map_of_mem hfailure))
  obtain ⟨hname, -⟩ := Prod.ext_iff.1 hentry
  intro hfield
  have hname : entry.1 = tagsField := Value.text.inj (hname.trans hfield)
  exact htags (hname ▸ List.mem_map_of_mem he)

theorem gives_convert_iff_convertAll {types : Table Text Text} (htypes : tagsField ∉ types.keys)
    (hr : r.HasTags tags) :
    (convert (Config.valueTable types)).Gives r failures r' ↔
      (convertAll (types.entries.map pair)).Gives r failures r' := by
  rw [gives_convert_iff, entries_valueTable]
  constructor
  · rintro ⟨found, hfound, rfl⟩
    rwa [map_seenWith_eq_self htypes hr hfound]
  · intro h
    exact ⟨failures, h, (map_seenWith_eq_self htypes hr h _).symm⟩

theorem gives_convert_atOnce {types : Table Text Text} (htypes : tagsField ∉ types.keys)
    (hr : r.HasTags tags) (h : (convert (Config.valueTable types)).Gives r failures r') :
    failures = types.entries.filterMap (failure? r) ∧ r' = atOnce types.entries r :=
  gives_convertAll_atOnce (nodup_names types) htypes hr
    ((gives_convert_iff_convertAll htypes hr).1 h)

/-- Whether fields are converted to the end does not depend on the order of the datatypes. -/
theorem returns_convert_of_perm {types types' : Table Text Text}
    (hperm : types'.entries.Perm types.entries) (hr : r.HasTags tags)
    (h : (convert (Config.valueTable types)).Returns r) :
    (convert (Config.valueTable types')).Returns r := by
  rw [returns_convert_iff_convertAll, entries_valueTable,
    returns_convertAll_text_iff (nodup_names _) hr] at h ⊢
  exact fun entry he => h entry (hperm.mem_iff.1 he)

/-- Converting fields one after another is converting all of them at once, unless the tags are
among them.  In any other order of the datatypes the fields are converted to the end as well,
with the same failures and fields up to the order of the failures and of their tags. -/
theorem convert_eq_atOnce {types : Table Text Text} (htypes : tagsField ∉ types.keys)
    (hr : r.HasTags tags) (h : (convert (Config.valueTable types)).Gives r failures r') :
    failures = types.entries.filterMap (failure? r) ∧ r' = atOnce types.entries r ∧
      ∀ types' : Table Text Text, types'.entries.Perm types.entries →
        ∃ failures' r'', (convert (Config.valueTable types')).Gives r failures' r'' ∧
          failures'.Perm failures ∧
          r'' = addTags (r.mapEntries (replaced types.entries))
            (failures'.map fun failure => .text failure.tag) := by
  obtain ⟨rfl, rfl⟩ := gives_convert_atOnce htypes hr h
  refine ⟨rfl, rfl, fun types' hperm => ?_⟩
  obtain ⟨failures', r'', h'⟩ := returns_convert_of_perm hperm hr h.returns
  have htypes' : tagsField ∉ types'.keys := fun hmem =>
    htypes ((hperm.map Prod.fst).mem_iff.1 hmem)
  obtain ⟨rfl, rfl⟩ := gives_convert_atOnce htypes' hr h'
  refine ⟨_, _, h', hperm.filterMap _, ?_⟩
  rw [atOnce, replaced_of_perm hperm (nodup_names types')]

/-- Datatypes for two fields that can be converted, for one that is not there, and for one that
holds no number. -/
def fourTypes : Table Text Text :=
  .ofList [("gone", "int"), ("n", "int"), ("text", "float"), ("m", "int")]

/-- The failures come in the order of the datatypes, and in the reverse order for the same
datatypes the other way round. -/
theorem convert_eq_atOnce_fourTypes :
    let r : Record := .ofList [(.text "m", .text "007"), (.text tagsField, .list [.text "old"]),
      (.text "text", .text "x"), (.text "n", .float (.finite false ⟨0, by decide⟩))]
    let failures : List Failure := [⟨.text "gone", .text "int", .nullValue⟩,
      ⟨.text "text", .text "float", .uncoercible (.text "x")⟩]
    let r' : Record := .ofList [(.text "m", .int 7), (.text tagsField, .list [.text "old",
        .text "_dataconversionnullvalue_gone_int", .text "_dataconversionuncoercible_text_float"]),
      (.text "text", .text "x"), (.text "n", .int 0)]
    tagsField ∉ fourTypes.keys ∧ r.HasTags (some [.text "old"]) ∧
      (convert (Config.valueTable fourTypes)).Gives r failures r' ∧
      failures = fourTypes.entries.filterMap (failure? r) ∧ r' = atOnce fourTypes.entries r ∧
      ∃ failures' r'', (convert (Config.valueTable (.ofList fourTypes.entries.reverse))).Gives r
          failures' r'' ∧ failures'.Perm failures ∧
        r'' = addTags (r.mapEntries (replaced fourTypes.entries))
          (failures'.map fun failure => .text failure.tag) := by
  intro r failures r'
  have htypes : tagsField ∉ fourTypes.keys := by decide
  have hr : r.HasTags (some [.text "old"]) := by decide +kernel
  have hconvert : (convert (Config.valueTable fourTypes)).Gives r failures r' := by decide +kernel
  obtain ⟨hfailures, hatOnce, hperm⟩ := convert_eq_atOnce htypes hr hconvert
  refine ⟨htypes, hr, hconvert, hfailures, hatOnce, hperm _ ?_⟩
  rw [Table.entries_ofList (by decide)]
  exact List.reverse_perm _

end Conversion

end Dissection
