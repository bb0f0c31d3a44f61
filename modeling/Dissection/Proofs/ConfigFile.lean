import Dissection.Config.File
import Dissection.Proofs.ReadBack
import Dissection.Proofs.Utf8

/-!
# Configurations in files

A configuration that is written to a file is loaded from it again.  It is written as JSON, which
holds its texts with all of their characters and its tables in their order, and what is written
holds no line end that could be changed.

## Main statements

* `Config.legible_toValue` — a configuration is a value that is read as it was written.
* `Config.ofValue_toValue` — and that value is read as the configuration.
* `Config.load_rendered` — a configuration is loaded as it was written.
-/

namespace Dissection.Config

/-! ## Configurations as values -/

theorem legible_tableValue (t : Table Text Text) : (tableValue t).Legible := by
  refine .map (valueTable t).distinct ?_ ?_
  all_goals
    intro entry he
    simp only [Table.map, Table.mapKeys, valueTable, List.mem_map] at he
    obtain ⟨_, ⟨pair, -, rfl⟩, rfl⟩ := he
  · exact ⟨pair.1, rfl⟩
  · exact .text pair.2

theorem legible_textsValue (texts : List Text) : (textsValue texts).Legible := by
  refine .list ?_
  intro v hv
  obtain ⟨text, -, rfl⟩ := List.mem_map.1 hv
  exact .text text

/-- A configuration is a value that is read as it was written. -/
theorem legible_toValue (c : Config) : c.toValue.Legible := by
  have hlabels : (Key.all.map fun key => Value.text key.label).Pairwise
      fun a b => (a == b) = false := by decide +kernel
  refine .map hlabels ?_ ?_
  · simp
  · simp [legible_tableValue, legible_textsValue]

theorem tableOf_tableValue (key : Key) (t : Table Text Text) :
    tableOf key (tableValue t) = .ok t := by
  have hentries : entriesOf key (valueTable t).entries = .ok t.entries := by
    simp only [valueTable, Table.map, Table.mapKeys]
    induction t.entries with
    | nil => rfl
    | cons entry rest ih => simp only [List.map_cons, entriesOf, ih]; rfl
  rw [tableValue, tableOf, hentries]
  exact congrArg Except.ok (Table.ofList_entries t)

theorem tagsOf_textsValue (key : Key) (texts : List Text) :
    tagsOf key (textsValue texts) = .ok texts := by
  have htexts : textsOf (texts.map .text) = some texts := by
    rw [textsOf]
    induction texts with
    | nil => rfl
    | cons text rest ih => simp [List.mapM_cons, ih, Value.text?]
  rw [textsValue, tagsOf, htexts]

/-- A configuration is written as a map with all settings and no other key. -/
theorem exists_toValue_eq (c : Config) :
    ∃ entries, c.toValue = .map entries ∧ (entries.map Prod.fst).filter (!isKnown ·) = [] ∧
      setting? entries .mapping = some (tableValue c.mapping) ∧
      setting? entries .conversions = some (tableValue c.conversions) ∧
      setting? entries .failureTags = some (textsValue c.failureTags) ∧
      setting? entries .addedFields = some (tableValue c.addedFields) ∧
      setting? entries .addedTags = some (textsValue c.addedTags) := by
  have hknown : (Key.all.map fun key => Value.text key.label).filter (!isKnown ·) = [] := by decide
  exact ⟨_, rfl, hknown, rfl, rfl, rfl, rfl, rfl⟩

/-- The value that a configuration is written as is read as the configuration. -/
theorem ofValue_toValue (c : Config) : ofValue c.toValue = .ok c := by
  obtain ⟨entries, hentries, hknown, hmapping, hconversions, hfailureTags, haddedFields,
    haddedTags⟩ := exists_toValue_eq c
  rw [hentries, ofValue, hknown]
  simp only [settingOr, hmapping, hconversions, hfailureTags, haddedFields, haddedTags,
    tableOf_tableValue, tagsOf_textsValue]
  rfl

/-! ## Files -/

/-- A configuration is loaded as it was written. -/
theorem load_rendered (c : Config) :
    ∃ text, c.toValue.rendered = .ok text ∧ load (.content (Utf8.encode text)) = .ok c := by
  obtain ⟨text, hrendered, hunbroken, hread⟩ := c.legible_toValue.exists_rendered rfl
  refine ⟨text, hrendered, ?_⟩
  simp only [load, Utf8.decode_eq_ok_iff.2 rfl, Lines.unify_of_unbroken hunbroken, hread,
    ofValue_toValue]

end Dissection.Config
