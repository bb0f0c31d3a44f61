import Dissection.Action

/-!
# What actions give

An action that comes to its end gives a result and leaves a record, and one that stops
with a fault gives nothing.  What an action gives is said of its parts: actions
one after another give what the last of them gives, from the record that the ones before
it left.

A loop works through items by one action for each.  It comes to its end exactly if the
action for every item does, at the record with which the item is reached.

## Main definitions

* `Action.Gives` — the result of an action, and the record that it leaves.
* `Action.Returns` — whether an action comes to its end.
* `Action.Reaches` — an item of a loop, and the record with which it is reached.

## Main statements

* `Action.gives_bind_iff` — actions one after another.
* `Action.returns_iff_of_loop` — when a loop comes to its end.
-/

namespace Dissection.Action

variable {α β γ ι : Type} {r r' r'' : Record}

/-! ## Results -/

/-- An action comes to its end: it gives a result and leaves a record. -/
def Gives (a : Action α) (r : Record) (x : α) (r' : Record) : Prop :=
  (a.run r).result = .ok x ∧ (a.run r).record = r'

instance [DecidableEq α] {a : Action α} {x : α} : Decidable (a.Gives r x r') :=
  inferInstanceAs (Decidable ((a.run r).result = .ok x ∧ (a.run r).record = r'))

/-- An action comes to its end. -/
def Returns (a : Action α) (r : Record) : Prop := ∃ x r', a.Gives r x r'

theorem Gives.returns {a : Action α} {x : α} (h : a.Gives r x r') : a.Returns r := ⟨x, r', h⟩

theorem Gives.unique {a : Action α} {x y : α} (h : a.Gives r x r') (h' : a.Gives r y r'') :
    x = y ∧ r' = r'' :=
  ⟨Except.ok.inj (h.1.symm.trans h'.1), h.2.symm.trans h'.2⟩

theorem returns_iff_result {a : Action α} : a.Returns r ↔ ∃ x, (a.run r).result = .ok x :=
  ⟨fun ⟨x, _, h⟩ => ⟨x, h.1⟩, fun ⟨x, h⟩ => ⟨x, _, h, rfl⟩⟩

instance {a : Action α} : Decidable (a.Returns r) :=
  decidable_of_iff ((a.run r).result.isOk = true) <| by
    rw [returns_iff_result]
    cases (a.run r).result <;> simp [Except.isOk, Except.toBool]

/-! ## Combined actions -/

@[simp] theorem gives_pure_iff {x y : α} : (pure x).Gives r y r' ↔ x = y ∧ r = r' := by
  simp [Gives]

@[simp] theorem gives_bind_iff {a : Action α} {f : α → Action β} {y : β} :
    (a >>= f).Gives r y r'' ↔ ∃ x r', a.Gives r x r' ∧ (f x).Gives r' y r'' := by
  rw [Gives, run_bind]
  cases h : (a.run r).result with
  | error fault => simp [Gives, h]
  | ok x =>
    constructor
    · intro hf
      exact ⟨x, _, ⟨h, rfl⟩, hf⟩
    · rintro ⟨y, r', ⟨hy, rfl⟩, hf⟩
      obtain rfl : x = y := Except.ok.inj (h.symm.trans hy)
      exact hf

/-- An action without a result in front of another. -/
@[simp 1100] theorem gives_seq_iff {a : Action Unit} {f : Unit → Action β} {y : β} :
    (a >>= f).Gives r y r'' ↔ ∃ r', a.Gives r () r' ∧ (f ()).Gives r' y r'' := by
  rw [gives_bind_iff]
  exact ⟨fun ⟨_, h⟩ => h, fun h => ⟨(), h⟩⟩

/-- What follows an action matters only for the result and the record that the action gives. -/
theorem run_bind_congr {a : Action α} {f g : α → Action β} {x : α} (h : a.Gives r x r')
    (hrest : (f x).run r' = (g x).run r') : (a >>= f).run r = (a >>= g).run r := by
  obtain ⟨hresult, rfl⟩ := h
  simp only [run_bind, hresult, hrest]

/-! ## Basic actions -/

@[simp] theorem gives_get_iff {x : Record} : get.Gives r x r' ↔ r = x ∧ r = r' := by
  simp [Gives, get]

@[simp] theorem gives_get_bind_iff {f : Record → Action β} {y : β} :
    (get >>= f).Gives r y r' ↔ (f r).Gives r y r' := by
  simp [and_assoc]

@[simp] theorem gives_set_iff {name v : Value} {x : Unit} :
    (set name v).Gives r x r' ↔ Table.put r name v = r' := by
  simp [Gives, set]

@[simp] theorem gives_log_iff {lines : List Log.Line} {x : Unit} :
    (log lines).Gives r x r' ↔ r = r' := by
  simp [Gives, log]

@[simp] theorem not_gives_stop {fault : Fault} {x : α} : ¬ (stop fault).Gives r x r' := by
  simp [Gives, stop]

@[simp] theorem gives_use_iff {e : Except Value.Misfit α} {x : α} :
    (use e).Gives r x r' ↔ e = .ok x ∧ r = r' := by
  cases e <;> simp [use]

@[simp] theorem gives_appendTag_iff {tag : Value} {x : Unit} :
    (appendTag tag).Gives r x r' ↔ Record.appendTag r tag = .ok r' := by
  simp only [Gives, appendTag]
  cases Record.appendTag r tag <;> simp

/-! ## Loops -/

/-- While a loop works through items from a record, it reaches an item with a record. -/
inductive Reaches (step : ι → Action α) : List ι → Record → ι → Record → Prop
  | here {item : ι} {rest : List ι} {r : Record} : Reaches step (item :: rest) r item r
  | later {first item : ι} {rest : List ι} {r r' r'' : Record} {x : α} :
      (step first).Gives r x r' → Reaches step rest r' item r'' →
        Reaches step (first :: rest) r item r''

theorem Reaches.mem {step : ι → Action α} {items : List ι} {item : ι}
    (h : Reaches step items r item r') : item ∈ items := by
  induction h with
  | here => exact List.mem_cons_self
  | later _ _ ih => exact List.mem_cons_of_mem _ ih

/-- A loop comes to its end exactly if the action for every item does that it reaches. -/
theorem returns_iff_of_loop {step : ι → Action α} {loop : List ι → Action γ}
    (hnil : ∀ r, (loop []).Returns r)
    (hcons : ∀ item rest r, (loop (item :: rest)).Returns r ↔
      ∃ x r', (step item).Gives r x r' ∧ (loop rest).Returns r')
    {items : List ι} :
    (loop items).Returns r ↔ ∀ item r', Reaches step items r item r' → (step item).Returns r' := by
  induction items generalizing r with
  | nil =>
    refine ⟨fun _ item r' h => ?_, fun _ => hnil r⟩
    cases h
  | cons first rest ih =>
    rw [hcons]
    constructor
    · rintro ⟨x, r₁, hfirst, hrest⟩ item r' h
      cases h with
      | here => exact hfirst.returns
      | later hfirst' hlater =>
        obtain ⟨-, rfl⟩ := hfirst.unique hfirst'
        exact ih.1 hrest item r' hlater
    · intro h
      obtain ⟨x, r₁, hfirst⟩ := h first r .here
      exact ⟨x, r₁, hfirst, ih.2 fun item r' hr => h item r' (.later hfirst hr)⟩

/-- What every step keeps holds whenever an item is reached. -/
theorem Reaches.keeps {step : ι → Action α} {items : List ι} {item : ι} {Inv : Record → Prop}
    (h : Reaches step items r item r') (hr : Inv r)
    (hstep : ∀ other r₁ x r₂, Reaches step items r other r₁ → Inv r₁ →
      (step other).Gives r₁ x r₂ → Inv r₂) : Inv r' := by
  induction h with
  | here => exact hr
  | later hfirst _ ih =>
    refine ih (hstep _ _ _ _ .here hr hfirst) fun other r₁ x r₂ hreach => ?_
    exact hstep other r₁ x r₂ (.later hfirst hreach)

end Dissection.Action
