import Dissection.Proofs.Fields
import Mathlib.Data.List.Range

/-!
# Names and values that meet under a tag

The name of an indirect field and its value are captured apart.  What an extraction holds
after any operations is said here by the positions of the operations alone.  A value goes
to the field with the latest name under its tag, if there is one before it.  Otherwise it
waits, and only the last value that waits is written, as soon as the tag gets its first
name; values that were captured before it reach no field, and neither does a value whose
tag never gets a name.

The invariant ties the three tables of an extraction to the history: the names and the
waiting values are last operations on a tag, and the fields are those that the writes of
the history leave when they are carried out one after another.

## Main definitions

* `Extraction.Operation`, `Extraction.run` — what can be done to an extraction, and what
  operations leave.
* `Extraction.Pairs` — which value reaches which field, and when.
* `Extraction.Writes` — what is written at a position.
* `Extraction.Recorded` — the invariant.

## Main statements

* `Extraction.Recorded.perform` — an operation keeps the invariant.
* `run_pairs` — what waits, which values are paired, and what the fields are.
-/

namespace Dissection.Extraction

/-! ## Operations -/

/-- What can be done to an extraction. -/
inductive Operation where
  | set (name value : Text)
  | append (name value : Text) (slot : Option Int)
  | key (tag name : Text)
  | value (tag value : Text)
  deriving DecidableEq, Repr

namespace Operation

/-- Whether an operation names the field that it writes to. -/
def IsDirect : Operation → Prop
  | set .. | append .. => True
  | key .. | value .. => False

/-- The field that an operation names. -/
def field? : Operation → Option Text
  | set name _ | append name .. => some name
  | key .. | value .. => none

/-- The name that an operation gives to a tag. -/
def keyUnder? (tag : Text) : Operation → Option Text
  | key other name => if other = tag then some name else none
  | _ => none

/-- The value that an operation captures under a tag. -/
def valueUnder? (tag : Text) : Operation → Option Text
  | value other v => if other = tag then some v else none
  | _ => none

@[simp] theorem keyUnder?_key (tag other name : Text) :
    (key other name).keyUnder? tag = if other = tag then some name else none := rfl

@[simp] theorem keyUnder?_value (tag other v : Text) : (value other v).keyUnder? tag = none := rfl

@[simp] theorem valueUnder?_value (tag other v : Text) :
    (value other v).valueUnder? tag = if other = tag then some v else none := rfl

@[simp] theorem valueUnder?_key (tag other name : Text) :
    (key other name).valueUnder? tag = none := rfl

theorem keyUnder?_of_isDirect {op : Operation} (h : op.IsDirect) (tag : Text) :
    op.keyUnder? tag = none := by
  cases op with
  | set | append => rfl
  | key | value => exact h.elim

theorem valueUnder?_of_isDirect {op : Operation} (h : op.IsDirect) (tag : Text) :
    op.valueUnder? tag = none := by
  cases op with
  | set | append => rfl
  | key | value => exact h.elim

theorem keyUnder?_eq_some_iff {tag name : Text} {op : Operation} :
    op.keyUnder? tag = some name ↔ op = key tag name := by
  cases op <;> simp [keyUnder?]

theorem valueUnder?_eq_some_iff {tag v : Text} {op : Operation} :
    op.valueUnder? tag = some v ↔ op = value tag v := by
  cases op <;> simp [valueUnder?]

end Operation

/-- Carries out an operation. -/
def perform (e : Extraction) : Operation → Extraction
  | .set name value => e.set name value
  | .append name value slot => e.append name value slot
  | .key tag name => e.setKey tag name
  | .value tag value => e.setValue tag value

/-- What operations leave, carried out one after another. -/
def run (ops : List Operation) : Extraction := ops.foldl perform .empty

theorem run_concat (ops : List Operation) (op : Operation) :
    run (ops ++ [op]) = (run ops).perform op := by
  rw [run, List.foldl_append]
  rfl

/-- What is written directly depends on the fields alone. -/
theorem fields_perform_congr {e e' : Extraction} {op : Operation} (hd : op.IsDirect)
    (h : e.fields = e'.fields) : (e.perform op).fields = (e'.perform op).fields := by
  cases op with
  | set name value => simp [perform, Extraction.set, h]
  | append name value slot => simp [perform, Extraction.append, h]
  | key | value => exact hd.elim

/-- Direct writes leave their fields in the order in which they were first written. -/
theorem keys_run_of_isDirect {ops : List Operation} (hd : ∀ op ∈ ops, op.IsDirect) :
    (run ops).fields.keys = (ops.filterMap Operation.field?).eraseDups := by
  induction ops using List.reverseRecOn with
  | nil => rfl
  | append_singleton ops op ih =>
    have hkeys := ih fun other ho => hd other (List.mem_append_left _ ho)
    have hwrite : ∀ name content,
        ((run ops).fields.put name content).keys =
          (ops.filterMap Operation.field? ++ [name]).eraseDups := by
      intro name content
      rw [Table.keys_put, hkeys, eraseDups_concat]
      simp only [List.mem_eraseDups]
    rw [run_concat, List.filterMap_append]
    cases op with
    | set name value => exact hwrite name _
    | append name value slot => exact hwrite name _
    | key tag name => exact (hd (.key tag name) (by simp)).elim
    | value tag value => exact (hd (.value tag value) (by simp)).elim

/-! ## Which value reaches which field -/

variable {ops : List Operation}

/-- The value that is captured at the first position is written at the second one, to the
field of the given name. -/
inductive Pairs (ops : List Operation) : Nat → Nat → Text → Text → Prop
  /-- The tag has a name already, and the latest one counts. -/
  | known {i j : Nat} {tag name value : Text} :
      ops[i]? = some (.key tag name) → ops[j]? = some (.value tag value) → i < j →
      (∀ m other, i < m → m < j → ops[m]? ≠ some (.key tag other)) →
        Pairs ops j j name value
  /-- The tag gets its first name later, and until then no other value. -/
  | awaited {j p : Nat} {tag name value : Text} :
      ops[j]? = some (.value tag value) → ops[p]? = some (.key tag name) → j < p →
      (∀ m other, m < p → ops[m]? ≠ some (.key tag other)) →
      (∀ m other, j < m → m < p → ops[m]? ≠ some (.value tag other)) →
        Pairs ops j p name value

/-- What is written at a position: what the operation there writes itself, or a value that
finds its field there. -/
inductive Writes (ops : List Operation) : Nat → Operation → Prop
  | direct {p : Nat} {op : Operation} : ops[p]? = some op → op.IsDirect → Writes ops p op
  | paired {j p : Nat} {name value : Text} :
      Pairs ops j p name value → Writes ops p (.set name value)

/-- A value reaches at most one field. -/
theorem Pairs.unique {j p p' : Nat} {name name' value value' : Text}
    (h : Pairs ops j p name value) (h' : Pairs ops j p' name' value') :
    p = p' ∧ name = name' ∧ value = value' := by
  cases h with
  | @known i _ tag _ _ hi hj hlt hbetween =>
    cases h' with
    | @known i' _ _ _ _ hi' hj' hlt' hbetween' =>
      rw [hj] at hj'
      cases hj'
      -- both names are the latest one before the value
      have hle : ¬ i < i' := fun h => hbetween i' _ h hlt' hi'
      have hle' : ¬ i' < i := fun h => hbetween' i _ h hlt hi
      obtain rfl : i = i' := by omega
      rw [hi] at hi'
      cases hi'
      exact ⟨rfl, rfl, rfl⟩
    | awaited hj' _ hlt' hnone _ =>
      rw [hj] at hj'
      cases hj'
      exact absurd hi (hnone i _ (by omega))
  | @awaited _ p tag _ _ hj hp hlt hnone _ =>
    cases h' with
    | @known i' _ _ _ _ hi' hj' hlt' _ =>
      rw [hj] at hj'
      cases hj'
      exact absurd hi' (hnone i' _ (by omega))
    | awaited hj' hp' _ hnone' _ =>
      rw [hj] at hj'
      cases hj'
      -- both names are the first one under the tag
      have hle : ¬ p < p' := fun h => hnone' p _ h hp
      have hle' : ¬ p' < p := fun h => hnone p' _ h hp'
      obtain rfl : p = p' := by omega
      rw [hp] at hp'
      cases hp'
      exact ⟨rfl, rfl, rfl⟩

/-- Where a tag has exactly one name, a value under it is paired with that name, whichever of
the two comes first, unless another value takes its place while it waits. -/
theorem pairs_iff_of_single {i j : Nat} {tag name value : Text}
    (hi : ops[i]? = some (.key tag name))
    (honly : ∀ m other, ops[m]? = some (.key tag other) → m = i)
    (hj : ops[j]? = some (.value tag value)) :
    Pairs ops j (max i j) name value ↔
      (j < i → ∀ m other, j < m → m < i → ops[m]? ≠ some (.value tag other)) := by
  have hne : i ≠ j := by
    rintro rfl
    rw [hi] at hj
    cases hj
  by_cases hlt : j < i
  · rw [max_eq_left hlt.le]
    constructor
    · intro h _
      cases h with
      | known _ _ hlt' _ => omega
      | awaited hj' _ _ _ hlast =>
        rw [hj] at hj'
        cases hj'
        exact hlast
    · intro h
      refine .awaited hj hi hlt (fun m other hm hk => ?_) (h hlt)
      have := honly m other hk
      omega
  · rw [max_eq_right (by omega)]
    refine ⟨fun _ h => absurd h hlt, fun _ => .known hi hj (by omega) ?_⟩
    intro m other hm _ hk
    have := honly m other hk
    omega

/-! ## The last operation of a kind -/

/-- What the last operation that yields something yields. -/
def lastOf (f : Operation → Option Text) (ops : List Operation) : Option Text :=
  (ops.filterMap f).getLast?

theorem lastOf_concat (f : Operation → Option Text) (ops : List Operation) (op : Operation) :
    lastOf f (ops ++ [op]) = (f op).or (lastOf f ops) := by
  cases h : f op <;> simp [lastOf, h]

theorem lastOf_eq_none_iff {f : Operation → Option Text} :
    lastOf f ops = none ↔ ∀ i : Nat, ops[i]?.bind f = none := by
  rw [lastOf, List.getLast?_eq_none_iff, List.filterMap_eq_nil_iff]
  constructor
  · intro h i
    cases hi : ops[i]? with
    | none => rfl
    | some op => exact h op (List.mem_of_getElem? hi)
  · intro h op ho
    obtain ⟨i, hi⟩ := List.mem_iff_getElem?.1 ho
    simpa [hi] using h i

theorem lastOf_eq_some_iff {f : Operation → Option Text} {x : Text} :
    lastOf f ops = some x ↔
      ∃ i : Nat, ops[i]?.bind f = some x ∧ ∀ m, i < m → ops[m]?.bind f = none := by
  induction ops using List.reverseRecOn with
  | nil => simp [lastOf]
  | append_singleton ops op ih =>
    have hnew : (ops ++ [op])[ops.length]? = some op := by simp
    rw [lastOf_concat]
    cases hop : f op with
    | some y =>
      rw [Option.some_or]
      constructor
      · rintro ⟨⟩
        refine ⟨ops.length, by rw [hnew]; exact hop, fun m hm => ?_⟩
        rw [List.getElem?_eq_none (by rw [List.length_append]; exact hm), Option.bind_none]
      · rintro ⟨i, hi, hlater⟩
        have hlt : i < (ops ++ [op]).length := by
          by_contra hge
          rw [List.getElem?_eq_none (by omega)] at hi
          cases hi
        have hlast : ¬ i < ops.length := by
          intro hlt
          have := hlater ops.length hlt
          rw [hnew, Option.bind_some, hop] at this
          cases this
        obtain rfl : i = ops.length := by
          simp at hlt
          omega
        rw [hnew, Option.bind_some, hop] at hi
        exact hi
    | none =>
      rw [Option.none_or, ih]
      -- the new operation yields nothing, so it changes no position that counts
      have hsame : ∀ i : Nat, (ops ++ [op])[i]?.bind f = ops[i]?.bind f := by
        intro i
        rw [List.getElem?_append]
        split
        · rfl
        · next hge =>
          rw [List.getElem?_eq_none (by omega : ops.length ≤ i)]
          cases hd : i - ops.length <;> simp [hop]
      simp only [hsame]

/-! ## Writes, from the history -/

/-- What an operation writes after others. -/
def effect (before : List Operation) : Operation → Option Operation
  | .key tag name =>
    match lastOf (Operation.keyUnder? tag) before with
    | some _ => none
    | none => (lastOf (Operation.valueUnder? tag) before).map (.set name ·)
  | .value tag value => (lastOf (Operation.keyUnder? tag) before).map (.set · value)
  | op => some op

theorem isDirect_of_effect {before : List Operation} {op write : Operation}
    (h : effect before op = some write) : write.IsDirect := by
  cases op with
  | set | append =>
    cases h
    trivial
  | key tag name =>
    rw [effect] at h
    split at h
    · cases h
    · obtain ⟨v, -, rfl⟩ := Option.map_eq_some_iff.1 h
      trivial
  | value tag value =>
    obtain ⟨name, -, rfl⟩ := Option.map_eq_some_iff.1 h
    trivial

/-- The writes of operations with their positions, in order. -/
def history (ops : List Operation) : List (Nat × Operation) :=
  (List.range ops.length).filterMap fun p =>
    ops[p]?.bind fun op => (effect (ops.take p) op).map (p, ·)

theorem history_concat (ops : List Operation) (op : Operation) :
    history (ops ++ [op]) = history ops ++ ((effect ops op).map (ops.length, ·)).toList := by
  have hold : ∀ p ∈ List.range ops.length,
      ((ops ++ [op])[p]?.bind fun other => (effect ((ops ++ [op]).take p) other).map (p, ·)) =
        ops[p]?.bind fun other => (effect (ops.take p) other).map (p, ·) := by
    intro p hp
    have hlt : p < ops.length := List.mem_range.1 hp
    rw [List.getElem?_append_left hlt, List.take_append_of_le_length hlt.le]
  have hnew : ((ops ++ [op])[ops.length]?.bind fun other =>
      (effect ((ops ++ [op]).take ops.length) other).map (ops.length, ·)) =
        (effect ops op).map (ops.length, ·) := by
    simp
  rw [history, List.length_append, List.length_singleton, List.range_succ, List.filterMap_append,
    List.filterMap_congr hold, history]
  congr 1
  rw [List.filterMap_cons, hnew]
  cases effect ops op <;> rfl

theorem pairwise_history (ops : List Operation) :
    (history ops).Pairwise fun a b => a.1 < b.1 := by
  refine List.Pairwise.filterMap _ ?_ List.pairwise_lt_range
  intro p p' hlt write hw write' hw'
  obtain ⟨op, -, hop⟩ := Option.bind_eq_some_iff.1 hw
  obtain ⟨op', -, hop'⟩ := Option.bind_eq_some_iff.1 hw'
  obtain ⟨_, -, rfl⟩ := Option.map_eq_some_iff.1 hop
  obtain ⟨_, -, rfl⟩ := Option.map_eq_some_iff.1 hop'
  exact hlt

theorem mem_history_iff {p : Nat} {write : Operation} :
    (p, write) ∈ history ops ↔
      ∃ op, ops[p]? = some op ∧ effect (ops.take p) op = some write := by
  simp only [history, List.mem_filterMap, List.mem_range, Option.bind_eq_some_iff,
    Option.map_eq_some_iff, Prod.mk.injEq]
  constructor
  · rintro ⟨_, -, op, hop, _, he, rfl, rfl⟩
    exact ⟨op, hop, he⟩
  · rintro ⟨op, hop, he⟩
    exact ⟨p, (List.getElem?_eq_some_iff.1 hop).1, op, hop, write, he, rfl, rfl⟩

theorem isDirect_of_mem_history {write : Operation} (h : write ∈ (history ops).map Prod.snd) :
    write.IsDirect := by
  obtain ⟨⟨p, _⟩, hp, rfl⟩ := List.mem_map.1 h
  obtain ⟨op, -, he⟩ := mem_history_iff.1 hp
  exact isDirect_of_effect he

theorem bind_keyUnder?_eq_some_iff {i : Nat} {tag name : Text} :
    ops[i]?.bind (Operation.keyUnder? tag) = some name ↔ ops[i]? = some (.key tag name) := by
  simp [Option.bind_eq_some_iff, Operation.keyUnder?_eq_some_iff]

theorem bind_valueUnder?_eq_some_iff {i : Nat} {tag value : Text} :
    ops[i]?.bind (Operation.valueUnder? tag) = some value ↔ ops[i]? = some (.value tag value) := by
  simp [Option.bind_eq_some_iff, Operation.valueUnder?_eq_some_iff]

/-- Whether the history before a position holds an operation of a kind. -/
theorem lastOf_take_eq_none_iff {f : Operation → Option Text} {p : Nat} :
    lastOf f (ops.take p) = none ↔ ∀ i < p, ∀ x, ops[i]?.bind f ≠ some x := by
  rw [lastOf_eq_none_iff]
  refine forall_congr' fun i => ?_
  rw [← Option.eq_none_iff_forall_ne_some, List.getElem?_take]
  by_cases h : i < p <;> simp [h]

/-- The last operation of a kind in the history before a position. -/
theorem lastOf_take_eq_some_iff {f : Operation → Option Text} {p : Nat} {x : Text} :
    lastOf f (ops.take p) = some x ↔
      ∃ i < p, ops[i]?.bind f = some x ∧
        ∀ m y, i < m → m < p → ops[m]?.bind f ≠ some y := by
  rw [lastOf_eq_some_iff]
  refine exists_congr fun i => ?_
  rw [List.getElem?_take]
  by_cases h : i < p
  · rw [if_pos h]
    refine ⟨fun ⟨hi, hlater⟩ => ⟨h, hi, fun m y him hm => ?_⟩, fun ⟨_, hi, hlater⟩ =>
      ⟨hi, fun m him => ?_⟩⟩
    · have := hlater m him
      rw [List.getElem?_take, if_pos hm] at this
      simp [this]
    · rw [List.getElem?_take, Option.eq_none_iff_forall_ne_some]
      intro y
      split
      · exact hlater m y him ‹_›
      · simp
  · simp [h]

theorem effect_key_eq_some_iff {before : List Operation} {tag name : Text} {write : Operation} :
    effect before (.key tag name) = some write ↔
      lastOf (Operation.keyUnder? tag) before = none ∧
        ∃ v, lastOf (Operation.valueUnder? tag) before = some v ∧ .set name v = write := by
  rw [effect]
  cases lastOf (Operation.keyUnder? tag) before <;> simp [Option.map_eq_some_iff]

theorem effect_of_isDirect {before : List Operation} {op : Operation} (h : op.IsDirect) :
    effect before op = some op := by
  cases op with
  | set | append => rfl
  | key | value => exact h.elim

/-- The writes of the history are those that the positions of the operations say. -/
theorem mem_history_iff_writes {p : Nat} {write : Operation} :
    (p, write) ∈ history ops ↔ Writes ops p write := by
  rw [mem_history_iff]
  constructor
  · rintro ⟨op, hop, he⟩
    cases op with
    | set | append =>
      cases he
      exact .direct hop trivial
    | key tag name =>
      obtain ⟨hnone, v, hv, rfl⟩ := effect_key_eq_some_iff.1 he
      obtain ⟨j, hjp, hj, hlast⟩ := lastOf_take_eq_some_iff.1 hv
      rw [lastOf_take_eq_none_iff] at hnone
      simp only [bind_keyUnder?_eq_some_iff, bind_valueUnder?_eq_some_iff, ne_eq] at hnone hj hlast
      exact .paired (.awaited hj hop hjp (fun m other hm => hnone m hm other) hlast)
    | value tag v =>
      obtain ⟨name, hname, rfl⟩ := Option.map_eq_some_iff.1 he
      obtain ⟨i, hip, hi, hlast⟩ := lastOf_take_eq_some_iff.1 hname
      simp only [bind_keyUnder?_eq_some_iff, ne_eq] at hi hlast
      exact .paired (.known hi hop hip hlast)
  · intro h
    cases h with
    | direct hop hd => exact ⟨write, hop, effect_of_isDirect hd⟩
    | @paired j _ name v h =>
      cases h with
      | @known i _ tag _ _ hi hp hip hlast =>
        refine ⟨_, hp, Option.map_eq_some_iff.2 ⟨name, lastOf_take_eq_some_iff.2 ?_, rfl⟩⟩
        refine ⟨i, hip, bind_keyUnder?_eq_some_iff.2 hi, fun m other him hm => ?_⟩
        exact mt bind_keyUnder?_eq_some_iff.1 (hlast m other him hm)
      | awaited hj hp hjp hnone hlast =>
        refine ⟨_, hp, effect_key_eq_some_iff.2 ⟨lastOf_take_eq_none_iff.2 ?_, v,
          lastOf_take_eq_some_iff.2 ⟨j, hjp, bind_valueUnder?_eq_some_iff.2 hj, ?_⟩, rfl⟩⟩
        · exact fun m hm other => mt bind_keyUnder?_eq_some_iff.1 (hnone m other hm)
        · exact fun m other hjm hm => mt bind_valueUnder?_eq_some_iff.1 (hlast m other hjm hm)

/-! ## The invariant -/

/-- What an extraction holds after operations. -/
structure Recorded (ops : List Operation) (e : Extraction) : Prop where
  /-- A tag has the name that it got last. -/
  keys : ∀ tag, e.keys.get? tag = lastOf (Operation.keyUnder? tag) ops
  /-- Under a tag without a name its last value waits. -/
  pending : ∀ tag, e.pending.get? tag =
    if lastOf (Operation.keyUnder? tag) ops = none then lastOf (Operation.valueUnder? tag) ops
    else none
  /-- The fields are those that the writes leave. -/
  fields : e.fields = (run ((history ops).map Prod.snd)).fields

/-- What waits under a tag, by positions. -/
theorem Recorded.pending_eq_some_iff {e : Extraction} (h : Recorded ops e) {tag value : Text} :
    e.pending.get? tag = some value ↔
      (∀ (i : Nat) name, ops[i]? ≠ some (.key tag name)) ∧
        ∃ j : Nat, ops[j]? = some (.value tag value) ∧
          ∀ m other, j < m → ops[m]? ≠ some (.value tag other) := by
  rw [h.pending, Option.ite_none_right_eq_some, lastOf_eq_none_iff, lastOf_eq_some_iff]
  simp only [Option.eq_none_iff_forall_ne_some, ne_eq, bind_keyUnder?_eq_some_iff,
    bind_valueUnder?_eq_some_iff]
  grind

theorem Recorded.empty : Recorded [] .empty where
  keys _ := rfl
  pending _ := rfl
  fields := rfl

/-- What is written changes the fields, and nothing else does. -/
theorem Recorded.fields_concat {e e' : Extraction} (h : Recorded ops e) {op : Operation}
    (he : e'.fields = ((effect ops op).elim e e.perform).fields) :
    e'.fields = (run ((history (ops ++ [op])).map Prod.snd)).fields := by
  rw [he, history_concat, List.map_append]
  cases hw : effect ops op with
  | none => simpa using h.fields
  | some write =>
    rw [Option.map_some, Option.toList_some, List.map_singleton, run_concat]
    exact fields_perform_congr (isDirect_of_effect hw) h.fields

/-- An operation on no tag keeps names and waiting values. -/
theorem Recorded.perform_direct {e : Extraction} (h : Recorded ops e) {op : Operation}
    (hd : op.IsDirect) : Recorded (ops ++ [op]) (e.perform op) := by
  have hkeys : (e.perform op).keys = e.keys ∧ (e.perform op).pending = e.pending := by
    cases op with
    | set | append => exact ⟨rfl, rfl⟩
    | key | value => exact hd.elim
  constructor
  · intro tag
    rw [hkeys.1, h.keys, lastOf_concat, Operation.keyUnder?_of_isDirect hd, Option.none_or]
  · intro tag
    rw [hkeys.2, h.pending, lastOf_concat, lastOf_concat, Operation.keyUnder?_of_isDirect hd,
      Operation.valueUnder?_of_isDirect hd, Option.none_or, Option.none_or]
  · refine h.fields_concat ?_
    rw [effect_of_isDirect hd]
    rfl

/-- A name under a tag makes the value that waits under it a field. -/
theorem Recorded.perform_key {e : Extraction} (h : Recorded ops e) (tag name : Text) :
    Recorded (ops ++ [.key tag name]) (e.setKey tag name) := by
  have hwaiting := h.pending tag
  constructor
  · intro other
    have hkeys : (e.setKey tag name).keys = e.keys.put tag name := by
      rw [setKey]
      split <;> rfl
    rw [hkeys, Table.get?_put, h.keys, lastOf_concat, Operation.keyUnder?_key]
    by_cases ht : tag = other <;> simp [ht]
  · intro other
    have hpending : (e.setKey tag name).pending.get? other =
        if tag = other then none else e.pending.get? other := by
      rw [setKey]
      split
      · next hnone =>
        split
        · next ht => exact ht ▸ hnone
        · rfl
      · simp [Extraction.set, Table.get?_erase]
    rw [hpending, h.pending, lastOf_concat, lastOf_concat, Operation.keyUnder?_key,
      Operation.valueUnder?_key, Option.none_or]
    by_cases ht : tag = other <;> simp [ht]
  · refine h.fields_concat ?_
    rw [setKey, effect]
    cases hk : lastOf (Operation.keyUnder? tag) ops with
    | some known =>
      rw [hk] at hwaiting
      simp [hwaiting]
    | none =>
      rw [hk] at hwaiting
      cases hv : lastOf (Operation.valueUnder? tag) ops <;>
        simp [hwaiting, hv, Extraction.perform, Extraction.set]

/-- A value under a tag goes to the field with its name, or waits. -/
theorem Recorded.perform_value {e : Extraction} (h : Recorded ops e) (tag value : Text) :
    Recorded (ops ++ [.value tag value]) (e.setValue tag value) := by
  have hname := h.keys tag
  constructor
  · intro other
    have hkeys : (e.setValue tag value).keys = e.keys := by
      rw [setValue]
      split <;> rfl
    rw [hkeys, h.keys, lastOf_concat, Operation.keyUnder?_value, Option.none_or]
  · intro other
    rw [lastOf_concat, lastOf_concat, Operation.keyUnder?_value, Operation.valueUnder?_value,
      Option.none_or, setValue]
    split
    · next hnone =>
      rw [Table.get?_put, h.pending]
      by_cases ht : tag = other
      · subst ht
        simp [← hname, hnone]
      · simp [ht]
    · next name hsome =>
      rw [Extraction.set, h.pending]
      by_cases ht : tag = other
      · subst ht
        simp [← hname, hsome]
      · simp [ht]
  · refine h.fields_concat ?_
    rw [setValue, effect, hname]
    cases lastOf (Operation.keyUnder? tag) ops <;> rfl

/-- An operation keeps the invariant. -/
theorem Recorded.perform {e : Extraction} (h : Recorded ops e) (op : Operation) :
    Recorded (ops ++ [op]) (e.perform op) := by
  cases op with
  | set | append => exact h.perform_direct trivial
  | key tag name => exact h.perform_key tag name
  | value tag value => exact h.perform_value tag value

theorem recorded_run (ops : List Operation) : Recorded ops (run ops) := by
  induction ops using List.reverseRecOn with
  | nil => exact .empty
  | append_singleton ops op ih =>
    rw [run_concat]
    exact ih.perform op

/-! ## Runs -/

/-- What an extraction holds after any operations.  Under exactly the tags that have a value
and no name the last value waits.  A value reaches at most one field.  The fields are those
that the writes leave, carried out in the order of their positions and listed in the order
of their first writes: the direct ones, and the values at the positions where they find
their fields.  In particular, where a tag has
one name, a value under it reaches that field before or after the name, unless another value
takes its place while it waits. -/
theorem run_pairs (ops : List Operation) :
    (∀ tag value, (run ops).unpaired.get? tag = some value ↔
        (∀ (i : Nat) name, ops[i]? ≠ some (.key tag name)) ∧
          ∃ j : Nat, ops[j]? = some (.value tag value) ∧
            ∀ m other, j < m → ops[m]? ≠ some (.value tag other)) ∧
      (∀ j p p' name name' value value', Pairs ops j p name value →
        Pairs ops j p' name' value' → p = p' ∧ name = name' ∧ value = value') ∧
      (∃ writes : List (Nat × Operation), writes.Pairwise (fun a b => a.1 < b.1) ∧
        (∀ p write, (p, write) ∈ writes ↔ Writes ops p write) ∧
          (run ops).finalize = (run (writes.map Prod.snd)).finalize ∧
            (run ops).finalize.keys = (writes.filterMap (·.2.field?)).eraseDups) ∧
      ∀ (i j : Nat) tag name value, ops[i]? = some (.key tag name) →
        (∀ m other, ops[m]? = some (.key tag other) → m = i) →
          ops[j]? = some (.value tag value) →
            (Pairs ops j (max i j) name value ↔
              (j < i → ∀ m other, j < m → m < i → ops[m]? ≠ some (.value tag other))) := by
  have h := recorded_run ops
  refine ⟨?_, ?_, ?_, ?_⟩
  · intro tag value
    exact h.pending_eq_some_iff
  · intro j p p' name name' value value' hp hp'
    exact hp.unique hp'
  · have hfields : (run ops).finalize = (run ((history ops).map Prod.snd)).finalize := by
      rw [finalize, finalize, h.fields]
    refine ⟨history ops, pairwise_history ops, fun p write => mem_history_iff_writes, hfields, ?_⟩
    rw [hfields, finalize, Table.keys_map, keys_run_of_isDirect fun _ => isDirect_of_mem_history,
      List.filterMap_map]
    rfl
  · intro i j tag name value hi honly hj
    exact pairs_iff_of_single hi honly hj

end Dissection.Extraction
