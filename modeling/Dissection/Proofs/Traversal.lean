import Mathlib.Data.List.Forall2

/-!
# Functions that may fail, along a list

A function that may fail is applied to the items of a list in their order.  It succeeds
on the list exactly if it does on every item, and otherwise the list fails as its
first failing item does.

## Main statements

* `Traversal.map_eq_ok_iff`, `Traversal.bind_eq_ok_iff` — success of one step after another.
* `Traversal.map_eq_error_iff`, `Traversal.bind_eq_error_iff` — failure of one of them.
* `Traversal.mapM_eq_some_iff`, `Traversal.mapM_eq_ok_iff` — success on a list.
* `Traversal.mapM_eq_error_iff` — failure on a list.
* `Traversal.exists_forall₂` — something for every item of a list.
* `Traversal.forall_mem_of_forall₂`, `Traversal.exists_mem_of_forall₂` — what follows for it.
-/

namespace Dissection.Traversal

variable {α β ε : Type}

theorem map_eq_ok_iff {e : Except ε α} {f : α → β} {y : β} :
    e.map f = .ok y ↔ ∃ x, e = .ok x ∧ f x = y := by
  cases e <;> simp [Except.map]

theorem bind_eq_ok_iff {e : Except ε α} {f : α → Except ε β} {y : β} :
    e >>= f = .ok y ↔ ∃ x, e = .ok x ∧ f x = .ok y := by
  cases e <;> simp [bind, Except.bind]

theorem mapError_eq_ok_iff {δ : Type} {e : Except ε α} {f : ε → δ} {x : α} :
    e.mapError f = .ok x ↔ e = .ok x := by
  cases e <;> simp [Except.mapError]

theorem map_eq_error_iff {e : Except ε α} {f : α → β} {x : ε} :
    e.map f = .error x ↔ e = .error x := by
  cases e <;> simp [Except.map]

theorem bind_eq_error_iff {e : Except ε α} {f : α → Except ε β} {x : ε} :
    e >>= f = .error x ↔ e = .error x ∨ ∃ y, e = .ok y ∧ f y = .error x := by
  cases e <;> simp [bind, Except.bind]

theorem mapM_eq_some_iff {f : α → Option β} {items : List α} {results : List β} :
    items.mapM f = some results ↔
      List.Forall₂ (fun item result => f item = some result) items results := by
  induction items generalizing results with
  | nil => cases results <;> simp
  | cons item items ih =>
    rw [List.mapM_cons]
    cases hf : f item with
    | none => cases results <;> simp [hf]
    | some first =>
      cases hm : items.mapM f with
      | none => cases results <;> simp [← ih, hm, hf]
      | some rest => cases results <;> simp [← ih, hm, hf]

theorem mapM_eq_ok_iff {f : α → Except ε β} {items : List α} {results : List β} :
    items.mapM f = .ok results ↔
      List.Forall₂ (fun item result => f item = .ok result) items results := by
  induction items generalizing results with
  | nil => cases results <;> simp [pure, Except.pure]
  | cons item items ih =>
    rw [List.mapM_cons]
    cases hf : f item with
    | error e => cases results <;> simp [bind, Except.bind, hf]
    | ok first =>
      cases hm : items.mapM f with
      | error e => cases results <;> simp [bind, Except.bind, ← ih, hm, hf]
      | ok rest => cases results <;> simp [bind, Except.bind, pure, Except.pure, ← ih, hm, hf]

/-- What each item has the list has for its items one by one. -/
theorem exists_forall₂ {R : α → β → Prop} {items : List α} (h : ∀ item ∈ items, ∃ y, R item y) :
    ∃ results, List.Forall₂ R items results := by
  induction items with
  | nil => exact ⟨[], .nil⟩
  | cons item rest ih =>
    obtain ⟨⟨first, hfirst⟩, hrest⟩ := List.forall_mem_cons.1 h
    obtain ⟨results, hresults⟩ := ih hrest
    exact ⟨first :: results, .cons hfirst hresults⟩

/-- What follows for every result from what it comes of holds of all results. -/
theorem forall_mem_of_forall₂ {R : α → β → Prop} {P : β → Prop} {items : List α}
    {results : List β} (h : List.Forall₂ R items results)
    (hresult : ∀ item result, R item result → P result) : ∀ result ∈ results, P result := by
  induction h with
  | nil => simp
  | cons hfirst _ ih => exact List.forall_mem_cons.2 ⟨hresult _ _ hfirst, ih⟩

/-- Every item has a result. -/
theorem exists_mem_of_forall₂ {R : α → β → Prop} {items : List α} {results : List β}
    (h : List.Forall₂ R items results) {item : α} (hitem : item ∈ items) :
    ∃ result ∈ results, R item result := by
  induction h with
  | nil => cases hitem
  | cons hfirst _ ih =>
    rcases List.mem_cons.1 hitem with rfl | hitem
    · exact ⟨_, List.mem_cons_self, hfirst⟩
    · obtain ⟨result, hmem, hresult⟩ := ih hitem
      exact ⟨result, List.mem_cons_of_mem _ hmem, hresult⟩

/-- A list fails as its first failing item does. -/
theorem mapM_eq_error_iff {f : α → Except ε β} {items : List α} {e : ε} :
    items.mapM f = .error e ↔
      ∃ before item after, items = before ++ item :: after ∧
        (∀ other ∈ before, ∃ result, f other = .ok result) ∧ f item = .error e := by
  induction items with
  | nil => simp [pure, Except.pure]
  | cons first items ih =>
    rw [List.mapM_cons]
    cases hf : f first with
    | error found =>
      constructor
      · intro h
        cases h
        exact ⟨[], first, items, rfl, by simp, hf⟩
      · rintro ⟨before, item, after, heq, hbefore, hitem⟩
        cases before with
        | nil =>
          obtain ⟨rfl, -⟩ := List.cons.inj heq
          rw [hf] at hitem
          cases hitem
          rfl
        | cons b before =>
          obtain ⟨rfl, -⟩ := List.cons.inj heq
          obtain ⟨result, hr⟩ := hbefore first (by simp)
          rw [hf] at hr
          cases hr
    | ok result =>
      have hstep : (Except.ok result >>= fun b => items.mapM f >>= fun bs => pure (b :: bs)) =
          (.error e : Except ε (List β)) ↔ items.mapM f = .error e := by
        cases hm : items.mapM f <;> simp [bind, Except.bind, pure, Except.pure]
      rw [hstep, ih]
      constructor
      · rintro ⟨before, item, after, rfl, hbefore, hitem⟩
        refine ⟨first :: before, item, after, rfl, ?_, hitem⟩
        exact List.forall_mem_cons.2 ⟨⟨result, hf⟩, hbefore⟩
      · rintro ⟨before, item, after, heq, hbefore, hitem⟩
        cases before with
        | nil =>
          obtain ⟨rfl, -⟩ := List.cons.inj heq
          rw [hf] at hitem
          cases hitem
        | cons b before =>
          obtain ⟨rfl, rfl⟩ := List.cons.inj heq
          exact ⟨before, item, after, rfl, (List.forall_mem_cons.1 hbefore).2, hitem⟩

end Dissection.Traversal
