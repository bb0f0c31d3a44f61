import Dissection.Proofs.Simultaneous

/-!
# Converting a second time

What a value is converted to is converted to itself, so a field that was converted once stays as
it is from then on.  A field that was left holds what it held, and is left again for the same
cause.  A second conversion therefore finds the same failures, and all that it does to a record
is to append their tags once more.

The same holds of a record in which some fields were converted before and others hold again what
they held to begin with.

## Main definition

* `Conversion.HoldsAgain` — a field that holds what it held, or what that was converted to.

## Main statements

* `Conversion.coerce_again` — what is converted is converted to itself.
* `Conversion.replaced_again` — converted fields stay as they are.
* `Conversion.gives_convertAll_again` — fields of which some were converted before.
* `Conversion.convert_again` — converting a record a second time.
-/

namespace Dissection

open Dissection.Action Dissection.Record

namespace Conversion

variable {r r' s : Record} {tags tags' : Option (List Value)} {failures : List Failure}
  {entries : List (Text × Text)} {datatype : Text} {v w : Value}

/-! ## Values -/

/-- What is converted is of its datatype, and converted to itself. -/
theorem coerce_again {target : Datatype} (h : coerce target v = .ok w) :
    coerce target w = .ok w := by
  cases target with
  | int =>
    obtain ⟨n, -, rfl⟩ := Traversal.map_eq_ok_iff.1 h
    rfl
  | float =>
    obtain ⟨x, -, rfl⟩ := Traversal.map_eq_ok_iff.1 h
    rfl

theorem converted?_of_converted (h : converted? datatype v = some w) :
    converted? datatype w = some w := by
  obtain ⟨target, htarget, hcoerce⟩ := Option.bind_eq_some_iff.1 h
  have hcoerce : coerce target v = .ok w := by
    cases hv : coerce target v with
    | ok found =>
      rw [hv] at hcoerce
      rw [Option.some.inj hcoerce]
    | error o =>
      rw [hv] at hcoerce
      cases hcoerce
  rw [converted?, htarget, Option.bind_some, coerce_again hcoerce]
  rfl

/-- What a value has become is converted as the value was, or left as it was. -/
theorem converted?_again (datatype : Text) (v : Value) :
    converted? datatype ((converted? datatype v).getD v) = converted? datatype v := by
  cases h : converted? datatype v with
  | none => rw [Option.getD_none, h]
  | some w => rw [Option.getD_some, converted?_of_converted h]

/-- What a value has become is left for the cause for which the value was. -/
theorem cause?_again (datatype : Text) (v : Value) :
    cause? datatype ((converted? datatype v).getD v) = cause? datatype v := by
  cases h : converted? datatype v with
  | none => rw [Option.getD_none]
  | some w =>
    rw [Option.getD_some, cause?_of_converted (converted?_of_converted h),
      cause?_of_converted h]

/-- What a value has become can be dealt with if the value could. -/
theorem Manageable.again (h : Manageable datatype v) :
    Manageable datatype ((converted? datatype v).getD v) := by
  cases hv : converted? datatype v with
  | none => rwa [Option.getD_none]
  | some w =>
    rw [Option.getD_some]
    exact manageable_of_converted (converted?_of_converted hv)

/-! ## Fields -/

theorem replaced_of_mem (hdistinct : (entries.map Prod.fst).Nodup) {entry : Text × Text}
    (he : entry ∈ entries) (v : Value) :
    replaced entries (.text entry.1) v = (converted? entry.2 v).getD v := by
  induction entries with
  | nil => cases he
  | cons first rest ih =>
    obtain ⟨hnew, hrest⟩ := List.nodup_cons.1 hdistinct
    rw [replaced_cons]
    rcases List.mem_cons.1 he with rfl | he
    · rw [if_pos rfl]
    · have hne : Value.text entry.1 ≠ .text first.1 := by
        intro heq
        rw [Value.text.injEq] at heq
        exact hnew (heq ▸ List.mem_map_of_mem he)
      rw [if_neg hne, ih hrest he]

theorem replaced_null (entries : List (Text × Text)) (key : Value) :
    replaced entries key .null = .null := by
  induction entries with
  | nil => rfl
  | cons entry rest ih => rw [replaced_cons, ih, converted?_null, Option.getD_none, ite_self]

/-- A field that is converted stays as it is. -/
theorem replaced_again (entries : List (Text × Text)) (key v : Value) :
    replaced entries key (replaced entries key v) = replaced entries key v := by
  induction entries with
  | nil => rfl
  | cons entry rest ih =>
    simp only [replaced_cons]
    split
    · rw [converted?_again]
      cases converted? entry.2 v <;> rfl
    · exact ih

/-- What a field holds when all fields are converted, where it does not hold the tags. -/
theorem get?_atOnce {name : Text} (hname : name ≠ tagsField) (entries : List (Text × Text))
    (r : Record) :
    (atOnce entries r).get? (.text name) =
      (r.get? (.text name)).map (replaced entries (.text name)) := by
  rw [atOnce, get?_addTags_of_ne (by simpa using hname), Table.get?_mapEntries_text]

theorem value_atOnce_of_mem (hdistinct : (entries.map Prod.fst).Nodup)
    (htags : tagsField ∉ entries.map Prod.fst) {entry : Text × Text} (he : entry ∈ entries)
    (r : Record) :
    (atOnce entries r).value (.text entry.1) =
      (converted? entry.2 (r.value (.text entry.1))).getD (r.value (.text entry.1)) := by
  have hname : entry.1 ≠ tagsField := by
    intro heq
    exact htags (heq ▸ List.mem_map_of_mem he)
  rw [← replaced_of_mem hdistinct he, Record.value, Record.value, get?_atOnce hname]
  cases r.get? (.text entry.1) with
  | none => rw [Option.map_none, Option.getD_none, replaced_null]
  | some v => rfl

/-- When all fields are converted, there is nothing left to convert. -/
theorem mapEntries_replaced_atOnce (htags : tagsField ∉ entries.map Prod.fst) (r : Record) :
    (atOnce entries r).mapEntries (replaced entries) = atOnce entries r := by
  rw [atOnce, mapEntries_addTags (replaced_tags htags), Table.mapEntries_mapEntries]
  simp only [replaced_again]

/-- A record holds in a field what another one holds, or what that becomes when it is
converted. -/
def HoldsAgain (r s : Record) (entry : Text × Text) : Prop :=
  s.value (.text entry.1) = r.value (.text entry.1) ∨
    s.value (.text entry.1) =
      (converted? entry.2 (r.value (.text entry.1))).getD (r.value (.text entry.1))

theorem HoldsAgain.manageable {entry : Text × Text} (h : HoldsAgain r s entry)
    (hr : Manageable entry.2 (r.value (.text entry.1))) :
    Manageable entry.2 (s.value (.text entry.1)) := by
  rcases h with h | h
  · rwa [h]
  · rw [h]
    exact hr.again

theorem HoldsAgain.failure? {entry : Text × Text} (h : HoldsAgain r s entry) :
    Conversion.failure? s entry = Conversion.failure? r entry := by
  rw [Conversion.failure?, Conversion.failure?]
  rcases h with h | h
  · rw [h]
  · rw [h, cause?_again]

/-- Where some fields were converted before and the others hold what they held, the same fields
fail, and the others are what they became. -/
theorem gives_convertAll_again (hdistinct : (entries.map Prod.fst).Nodup)
    (htags : tagsField ∉ entries.map Prod.fst) (hr : r.HasTags tags) (hs : s.HasTags tags')
    (h : (convertAll (entries.map pair)).Gives r failures r')
    (hagain : ∀ entry ∈ entries, HoldsAgain r s entry) :
    (convertAll (entries.map pair)).Gives s failures
      (addTags (s.mapEntries (replaced entries)) (failures.map (.text ·.tag))) := by
  have hmanageable := (returns_convertAll_text_iff hdistinct hr).1 h.returns
  obtain ⟨failures', s', h'⟩ := (returns_convertAll_text_iff hdistinct hs).2
    fun entry he => (hagain entry he).manageable (hmanageable entry he)
  obtain ⟨rfl, -⟩ := gives_convertAll_atOnce hdistinct htags hr h
  obtain ⟨rfl, rfl⟩ := gives_convertAll_atOnce hdistinct htags hs h'
  have hfailures : entries.filterMap (failure? s) = entries.filterMap (failure? r) :=
    List.filterMap_congr fun entry he => (hagain entry he).failure?
  rw [atOnce, hfailures] at h'
  exact h'

/-- Converting a record a second time finds the same failures, since what was converted is
converted to itself and what was left is left again.  It appends the same tags once more, and
changes no other field. -/
theorem convert_again {types : Table Text Text} (htypes : tagsField ∉ types.keys)
    (hr : r.HasTags tags) (h : (convert (Config.valueTable types)).Gives r failures r') :
    (∃ r'', (convert (Config.valueTable types)).Gives r' failures r'' ∧
      r'' = addTags r' (failures.map (.text ·.tag)) ∧
      (∀ key, key ≠ .text tagsField → r''.get? key = r'.get? key) ∧
      r'.HasTags (moreTags tags (failures.map (.text ·.tag))) ∧
      r''.HasTags (moreTags tags (failures.map (.text ·.tag) ++ failures.map (.text ·.tag)))) ∧
    ∀ target v w, coerce target v = .ok w → coerce target w = .ok w := by
  refine ⟨?_, fun target v w => coerce_again⟩
  rw [gives_convert_iff_convertAll htypes hr] at h
  obtain ⟨-, rfl⟩ := gives_convertAll_atOnce (nodup_names types) htypes hr h
  have hr' := (hasTags_of_gives_convertAll hr h).2
  have hagain := gives_convertAll_again (nodup_names types) htypes hr hr' h
    fun entry he => .inr (value_atOnce_of_mem (nodup_names types) htypes he r)
  rw [mapEntries_replaced_atOnce htypes] at hagain
  refine ⟨_, (gives_convert_iff_convertAll htypes hr').2 hagain, rfl, ?_, hr', ?_⟩
  · intro key hkey
    exact get?_addTags_of_ne hkey _ _
  · rw [← moreTags_append]
    exact hr'.addTags _

/-- Datatypes for fields that can be converted, and for three that fail in different ways. -/
def sixTypes : Table Text Text :=
  .ofList [("n", "int"), ("x", "float"), ("gone", "int"), ("y", "float"), ("day", "date"),
    ("t", "float")]

/-- Neither an infinity nor what is no number is converted to anything else. -/
theorem convert_again_sixTypes :
    let r : Record := .ofList [(.text "n", .text "007"), (.text "x", .text "nan"),
      (.text "y", .text "-inf"), (.text "day", .text "today"), (.text "t", .text "x")]
    let failures : List Failure := [⟨.text "gone", .text "int", .nullValue⟩,
      ⟨.text "day", .text "date", .unsupportedType⟩,
      ⟨.text "t", .text "float", .uncoercible (.text "x")⟩]
    let r' : Record := .ofList [(.text "n", .int 7), (.text "x", .float .nan),
      (.text "y", .float (.infinite true)), (.text "day", .text "today"), (.text "t", .text "x"),
      (.text tagsField, .list [.text "_dataconversionnullvalue_gone_int",
        .text "_dataconversionmissing_day_date", .text "_dataconversionuncoercible_t_float"])]
    tagsField ∉ sixTypes.keys ∧ r.HasTags none ∧
      (convert (Config.valueTable sixTypes)).Gives r failures r' ∧
      ∃ r'', (convert (Config.valueTable sixTypes)).Gives r' failures r'' ∧
        r'' = addTags r' (failures.map (.text ·.tag)) := by
  intro r failures r'
  have htypes : tagsField ∉ sixTypes.keys := by decide
  have hr : r.HasTags none := by decide +kernel
  have hconvert : (convert (Config.valueTable sixTypes)).Gives r failures r' := by decide +kernel
  obtain ⟨⟨r'', hagain, hadded, -⟩, -⟩ := convert_again htypes hr hconvert
  exact ⟨htypes, hr, hconvert, r'', hagain, hadded⟩

end Conversion

end Dissection
