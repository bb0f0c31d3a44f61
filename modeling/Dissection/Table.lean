/-!
# Tables

A table holds at most one value under each key and keeps its keys in the order in
which they were first written.  Writing under a key that is present keeps the key and
its place; erasing a key and writing it again moves it to the end.  Keys are told apart
by `==`, which need not be equality: of two keys that it takes for one, the first stays.

## Main definitions

* `Table κ α` — keys with values, in order, no key twice.
* `Table.get?`, `Table.put`, `Table.erase` — reading, writing and erasing.
* `Table.ofList` — the table that a sequence of writes leaves.
-/

namespace Dissection

/-- Keys with their values, in the order in which the keys were first written. -/
@[ext] structure Table (κ α : Type) [BEq κ] where
  entries : List (κ × α)
  distinct : (entries.map Prod.fst).Pairwise (fun a b => (a == b) = false) := by simp
  deriving DecidableEq, Repr

namespace Table

variable {κ ι α β : Type} [BEq κ] [BEq ι]

/-- The table without keys. -/
def empty : Table κ α := ⟨[], by simp⟩

instance : EmptyCollection (Table κ α) := ⟨empty⟩

instance : Inhabited (Table κ α) := ⟨empty⟩

/-- The keys, in order. -/
def keys (t : Table κ α) : List κ := t.entries.map Prod.fst

/-- The number of keys. -/
def size (t : Table κ α) : Nat := t.entries.length

/-- The value under a key. -/
def get? (t : Table κ α) (key : κ) : Option α := (t.entries.find? (·.1 == key)).map Prod.snd

/-- Whether a key is present. -/
def contains (t : Table κ α) (key : κ) : Bool := t.entries.any (·.1 == key)

/-! ## Writing -/

/-- Entries after a value was written under a key. -/
def putEntry (key : κ) (value : α) : List (κ × α) → List (κ × α)
  | [] => [(key, value)]
  | (other, old) :: rest =>
    if other == key then (other, value) :: rest else (other, old) :: putEntry key value rest

theorem keys_putEntry (key : κ) (value : α) (entries : List (κ × α)) :
    (putEntry key value entries).map Prod.fst =
      if entries.any (·.1 == key) then entries.map Prod.fst
      else entries.map Prod.fst ++ [key] := by
  induction entries with
  | nil => simp [putEntry]
  | cons entry rest ih =>
    obtain ⟨other, old⟩ := entry
    by_cases h : (other == key) = true
    · simp [putEntry, h]
    · rw [Bool.not_eq_true] at h
      by_cases hn : rest.any (·.1 == key) = true
      · rw [if_pos hn] at ih
        simp [putEntry, h, hn, ih]
      · rw [if_neg hn] at ih
        rw [Bool.not_eq_true] at hn
        simp [putEntry, h, hn, ih]

/-- Writes a value under a key, in the key's place if it has one and at the end
otherwise. -/
def put (t : Table κ α) (key : κ) (value : α) : Table κ α where
  entries := putEntry key value t.entries
  distinct := by
    rw [keys_putEntry]
    split
    · exact t.distinct
    · next h =>
      refine List.pairwise_append.2 ⟨t.distinct, by simp, ?_⟩
      intro a ha b hb
      obtain rfl : b = key := by simpa using hb
      obtain ⟨entry, he, rfl⟩ := List.mem_map.1 ha
      rw [Bool.not_eq_true, List.any_eq_false] at h
      exact Bool.not_eq_true _ ▸ h entry he

/-- Erases a key with its value. -/
def erase (t : Table κ α) (key : κ) : Table κ α where
  entries := t.entries.filter fun entry => !(entry.1 == key)
  distinct := t.distinct.sublist (List.filter_sublist.map _)

/-- The table that a sequence of writes leaves. -/
def ofList (entries : List (κ × α)) : Table κ α :=
  entries.foldl (fun t entry => t.put entry.1 entry.2) empty

theorem putEntry_of_new {key : κ} {value : α} {entries : List (κ × α)}
    (h : ∀ entry ∈ entries, (entry.1 == key) = false) :
    putEntry key value entries = entries ++ [(key, value)] := by
  induction entries with
  | nil => rfl
  | cons entry rest ih =>
    obtain ⟨hfirst, hrest⟩ := List.forall_mem_cons.1 h
    simp [putEntry, hfirst, ih hrest]

theorem entries_foldl_put (t : Table κ α) {entries : List (κ × α)}
    (h : ((t.entries ++ entries).map Prod.fst).Pairwise (fun a b => (a == b) = false)) :
    (entries.foldl (fun t entry => t.put entry.1 entry.2) t).entries = t.entries ++ entries := by
  induction entries generalizing t with
  | nil => simp
  | cons entry rest ih =>
    have hput : (t.put entry.1 entry.2).entries = t.entries ++ [entry] := by
      refine putEntry_of_new fun other ho => ?_
      rw [List.map_append, List.pairwise_append] at h
      exact h.2.2 _ (List.mem_map_of_mem ho) _ (by simp)
    rw [List.foldl_cons, ih _ (by simpa [hput] using h), hput, List.append_assoc]
    rfl

/-- Writing the entries of a table one after another yields the table. -/
theorem ofList_entries (t : Table κ α) : ofList t.entries = t :=
  Table.ext (entries_foldl_put empty t.distinct)

/-- The table with another table's entries written into it. -/
def merge (t other : Table κ α) : Table κ α :=
  other.entries.foldl (fun t entry => t.put entry.1 entry.2) t

/-- The same keys with a function of their values. -/
def map (f : α → β) (t : Table κ α) : Table κ β where
  entries := t.entries.map fun (key, value) => (key, f value)
  distinct := by
    have : (t.entries.map fun (key, value) => (key, f value)).map Prod.fst =
        t.entries.map Prod.fst := by simp [Function.comp_def]
    rw [this]
    exact t.distinct

/-- The same values under a function of their keys that tells apart what the keys tell
apart. -/
def mapKeys (f : κ → ι) (hf : ∀ a b, (f a == f b) = (a == b)) (t : Table κ α) : Table ι α where
  entries := t.entries.map fun (key, value) => (f key, value)
  distinct := by
    have : (t.entries.map fun (key, value) => (f key, value)).map Prod.fst =
        (t.entries.map Prod.fst).map f := by simp [Function.comp_def]
    rw [this, List.pairwise_map]
    exact t.distinct.imp fun {a b} h => (hf a b).trans h

end Table

end Dissection
