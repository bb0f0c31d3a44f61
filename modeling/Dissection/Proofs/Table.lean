import Dissection.Table

/-!
# Reading tables

A table is known by its keys, in order, and by the value under each of them.  What
an operation does to a table is said of both.

## Main statements

* `Table.keys_put`, `Table.get?_put` — writing under a key.
* `Table.keys_erase`, `Table.get?_erase` — erasing a key.
* `Table.keys_map`, `Table.get?_map`, `Table.put_map` — applying a function to the values.
* `Table.get?_mapKeys`, `Table.put_mapKeys` — applying one to the keys.
* `Table.entries_ofList` — writing entries under distinct keys.
-/

namespace Dissection.Table

variable {κ ι α β : Type}

section

variable [BEq κ]

@[simp] theorem get?_empty (key : κ) : (∅ : Table κ α).get? key = none := rfl

@[simp] theorem keys_map (f : α → β) (t : Table κ α) : (t.map f).keys = t.keys := by
  simp [keys, map, Function.comp_def]

theorem entries_map (f : α → β) (t : Table κ α) :
    (t.map f).entries = t.entries.map fun (key, value) => (key, f value) := rfl

@[simp] theorem get?_map (f : α → β) (t : Table κ α) (key : κ) :
    (t.map f).get? key = (t.get? key).map f := by
  simp [get?, map, List.find?_map, Function.comp_def]

@[simp] theorem contains_map (f : α → β) (t : Table κ α) (key : κ) :
    (t.map f).contains key = t.contains key := by
  simp [contains, map, Function.comp_def]

end

/-! ## Functions of values and of keys -/

section

variable [BEq κ] [BEq ι]

theorem put_map (f : α → β) (t : Table κ α) (key : κ) (value : α) :
    (t.map f).put key (f value) = (t.put key value).map f := by
  apply Table.ext
  simp only [put, map]
  induction t.entries with
  | nil => rfl
  | cons entry rest ih =>
    cases h : entry.1 == key with
    | true => simp [putEntry, h]
    | false => simpa [putEntry, h] using ih

theorem erase_map (f : α → β) (t : Table κ α) (key : κ) :
    (t.map f).erase key = (t.erase key).map f := by
  apply Table.ext
  simp [erase, map, List.filter_map, Function.comp_def]

variable {f : κ → ι} (hf : ∀ a b, (f a == f b) = (a == b))

theorem get?_mapKeys (t : Table κ α) (key : κ) : (t.mapKeys f hf).get? (f key) = t.get? key := by
  simp only [get?, mapKeys, List.find?_map, Function.comp_def, hf]
  cases t.entries.find? (·.1 == key) <;> rfl

theorem put_mapKeys (t : Table κ α) (key : κ) (value : α) :
    (t.mapKeys f hf).put (f key) value = (t.put key value).mapKeys f hf := by
  apply Table.ext
  simp only [put, mapKeys]
  induction t.entries with
  | nil => rfl
  | cons entry rest ih =>
    cases h : entry.1 == key with
    | true => simp [putEntry, hf, h]
    | false => simpa [putEntry, hf, h] using ih

theorem erase_mapKeys (t : Table κ α) (key : κ) :
    (t.mapKeys f hf).erase (f key) = (t.erase key).mapKeys f hf := by
  apply Table.ext
  simp [erase, mapKeys, List.filter_map, Function.comp_def, hf]

end

/-! ## Writing and erasing -/

/-- What is written is what is found under the key, besides what was there. -/
theorem mem_put [BEq κ] {t : Table κ α} {key : κ} {value : α} {entry : κ × α}
    (h : entry ∈ (t.put key value).entries) :
    (entry.1 = key ∨ entry.1 == key) ∧ entry.2 = value ∨ entry ∈ t.entries := by
  simp only [put] at h
  generalize t.entries = entries at h ⊢
  induction entries with
  | nil =>
    obtain rfl := List.mem_singleton.1 h
    exact .inl ⟨.inl rfl, rfl⟩
  | cons first rest ih =>
    rw [putEntry] at h
    split at h
    · next hfirst =>
      rcases List.mem_cons.1 h with rfl | h
      · exact .inl ⟨.inr hfirst, rfl⟩
      · exact .inr (List.mem_cons_of_mem _ h)
    · rcases List.mem_cons.1 h with rfl | h
      · exact .inr List.mem_cons_self
      · exact (ih h).imp_right (List.mem_cons_of_mem _)

theorem eq_or_mem_of_mem_put [BEq κ] {t : Table κ α} {key : κ} {value : α} {entry : κ × α}
    (h : entry ∈ (t.put key value).entries) : entry.2 = value ∨ entry ∈ t.entries :=
  (mem_put h).imp_left And.right

/-- What holds of every key and of every value that is written holds of every entry. -/
theorem forall_mem_put [BEq κ] {P : κ → Prop} {Q : α → Prop} {t : Table κ α} {key : κ} {value : α}
    (h : ∀ entry ∈ t.entries, P entry.1 ∧ Q entry.2) (hkey : P key) (hvalue : Q value) :
    ∀ entry ∈ (t.put key value).entries, P entry.1 ∧ Q entry.2 := by
  simp only [put]
  generalize t.entries = entries at h ⊢
  induction entries with
  | nil => simp [putEntry, hkey, hvalue]
  | cons first rest ih =>
    obtain ⟨hfirst, hrest⟩ := List.forall_mem_cons.1 h
    rw [putEntry]
    split
    · exact List.forall_mem_cons.2 ⟨⟨hfirst.1, hvalue⟩, hrest⟩
    · exact List.forall_mem_cons.2 ⟨hfirst, ih hrest⟩

theorem forall_mem_ofList [BEq κ] {P : κ → Prop} {Q : α → Prop} {entries : List (κ × α)}
    (h : ∀ entry ∈ entries, P entry.1 ∧ Q entry.2) :
    ∀ entry ∈ (ofList entries).entries, P entry.1 ∧ Q entry.2 := by
  have hfold : ∀ t : Table κ α, (∀ entry ∈ t.entries, P entry.1 ∧ Q entry.2) →
      ∀ entry ∈ (entries.foldl (fun t entry => t.put entry.1 entry.2) t).entries,
        P entry.1 ∧ Q entry.2 := by
    induction entries with
    | nil => exact fun _ ht => ht
    | cons entry rest ih =>
      obtain ⟨hentry, hrest⟩ := List.forall_mem_cons.1 h
      exact fun t ht => ih hrest _ (forall_mem_put ht hentry.1 hentry.2)
  exact hfold empty (by simp [empty])

/-- Writing under a key changes what is found under it and nothing else. -/
theorem get?_put [BEq κ] [PartialEquivBEq κ] (t : Table κ α) (key other : κ) (value : α) :
    (t.put key value).get? other = if key == other then some value else t.get? other := by
  simp only [get?, put]
  induction t.entries with
  | nil =>
    cases h : key == other <;> simp [putEntry, h]
  | cons entry rest ih =>
    obtain ⟨first, old⟩ := entry
    cases hfirst : first == key with
    | true =>
      have hsame : (first == other) = (key == other) := BEq.congr_left hfirst
      cases hother : key == other <;> simp [putEntry, hfirst, hsame, hother]
    | false =>
      cases hother : first == other with
      | true =>
        have hkey : (key == other) = false := by
          rw [← BEq.congr_right hother, BEq.comm]
          exact hfirst
        simp [putEntry, hfirst, hother, hkey]
      | false => simpa [putEntry, hfirst, hother] using ih

/-- Erasing a key leaves the other keys in their order. -/
theorem keys_erase [BEq κ] (t : Table κ α) (key : κ) :
    (t.erase key).keys = t.keys.filter (!· == key) := by
  rw [keys, keys, List.filter_map]
  rfl

/-- Erasing a key changes what is found under it and nothing else. -/
theorem get?_erase [BEq κ] [PartialEquivBEq κ] (t : Table κ α) (key other : κ) :
    (t.erase key).get? other = if key == other then none else t.get? other := by
  simp only [get?, erase]
  induction t.entries with
  | nil => simp
  | cons entry rest ih =>
    cases hfirst : entry.1 == key with
    | true =>
      have hsame : (entry.1 == other) = (key == other) := BEq.congr_left hfirst
      cases hother : key == other <;> simpa [hfirst, hsame, hother] using ih
    | false =>
      cases hother : entry.1 == other with
      | true =>
        have hkey : (key == other) = false := by
          rw [← BEq.congr_right hother, BEq.comm]
          exact hfirst
        simp [hfirst, hother, hkey]
      | false => simpa [hfirst, hother] using ih

section

variable [BEq κ] [LawfulBEq κ]

theorem contains_iff {t : Table κ α} {key : κ} : t.contains key = true ↔ key ∈ t.keys := by
  simp [contains, keys]

/-- A new key goes to the end; a key that is present keeps its place. -/
theorem keys_put (t : Table κ α) (key : κ) (value : α) :
    (t.put key value).keys = if key ∈ t.keys then t.keys else t.keys ++ [key] := by
  have h : (t.put key value).keys = if t.contains key then t.keys else t.keys ++ [key] :=
    keys_putEntry key value t.entries
  by_cases hmem : key ∈ t.keys
  · rw [h, if_pos (contains_iff.2 hmem), if_pos hmem]
  · rw [h, if_neg (mt contains_iff.1 hmem), if_neg hmem]

theorem get?_eq_none_iff {t : Table κ α} {key : κ} : t.get? key = none ↔ key ∉ t.keys := by
  simp only [get?, keys, Option.map_eq_none_iff, List.find?_eq_none, beq_iff_eq, List.mem_map,
    not_exists, not_and]

/-- A table with one key has one entry. -/
theorem entries_eq_singleton {t : Table κ α} {key : κ} {value : α} (hkeys : t.keys = [key])
    (hget : t.get? key = some value) : t.entries = [(key, value)] := by
  obtain ⟨⟨_, held⟩, hentries, rfl⟩ := List.map_eq_singleton_iff.1 hkeys
  rw [get?, hentries] at hget
  obtain rfl : held = value := by simpa using hget
  exact hentries

/-- Entries under distinct keys are a table as they are. -/
theorem entries_ofList {entries : List (κ × α)} (h : (entries.map Prod.fst).Nodup) :
    (ofList entries).entries = entries :=
  entries_foldl_put empty (h.imp fun hne => beq_eq_false_iff_ne.2 hne)

end

end Dissection.Table
