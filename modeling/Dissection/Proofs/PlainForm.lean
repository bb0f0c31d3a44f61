import Dissection.Proofs.Record
import Dissection.Proofs.Rendering
import Dissection.Value.Plain
import Mathlib.Logic.Relation

/-!
# Plain values

A plain value is one that JSON has a notation for as it is.  Making a value plain yields one
unless a member of an enumeration shows up on the way: the value that it stands for is put in
its place unchanged, of whatever kind it is.  Plain values are exactly those that being made
plain leaves alone, so a second time changes nothing where the first has come to its end.

What a value is made of is reached through items and through the values of entries.  Of the
entries whose keys have one plain form only the last is kept, and the others are gone with
everything that stands in them.

## Main definitions

* `Value.IsPlain` — a plain value.
* `Value.Within`, `Value.Shows` — what stands in a value, and what of it is left.
* `Value.MembersPlain` — the members of enumerations that are left stand for plain values.

## Main statements

* `Value.plain_eq_self_iff` — plain values are left alone.
* `Value.isPlain_plain_iff` — when a value made plain is plain.
* `Value.hasPlainKeys_iff` — when a value can be made plain.
-/

namespace Dissection

open Relation (ReflTransGen)

namespace Value

variable {v : Value} {items : List Value} {entries : List (Value × Value)}

/-! ## Plain values -/

/-- A value of null, truth values, integers, finite numbers, texts, lists of such values and
maps of such values under distinct texts. -/
inductive IsPlain : Value → Prop
  | null : IsPlain .null
  | bool (b : Bool) : IsPlain (.bool b)
  | int (n : Int) : IsPlain (.int n)
  | float {x : Binary64} : x.isFinite = true → IsPlain (.float x)
  | text (t : Text) : IsPlain (.text t)
  | list {items : List Value} : (∀ v ∈ items, IsPlain v) → IsPlain (.list items)
  | map {entries : List (Value × Value)} :
      (entries.map Prod.fst).Pairwise (fun a b => (a == b) = false) →
      (∀ entry ∈ entries, ∃ name, entry.1 = .text name) →
      (∀ entry ∈ entries, IsPlain entry.2) → IsPlain (.map entries)

theorem isPlain_list_iff : (list items).IsPlain ↔ ∀ v ∈ items, v.IsPlain :=
  ⟨fun | .list h => h, .list⟩

/-- What writes under texts leave is plain if the values are. -/
theorem isPlain_ofEntries_iff (h : ∀ entry ∈ entries, ∃ name, entry.1 = .text name) :
    (ofEntries entries).IsPlain ↔ ∀ entry ∈ (Table.ofList entries).entries, entry.2.IsPlain := by
  exact ⟨fun | .map _ _ hvalues => hvalues,
    .map (Table.ofList entries).distinct (Table.exists_text_of_mem_ofList h)⟩

theorem isPlain_ofPlaceholder (p : Placeholder) : (ofPlaceholder p).IsPlain := by
  refine .map (by simp [beq_text]) (by simp) ?_
  simp only [List.forall_mem_cons, List.not_mem_nil, false_imp_iff, implies_true, and_true]
  refine ⟨.text _, .text _, ?_, .text _⟩
  cases p.modifier.slot? with
  | none => exact .null
  | some slot => exact .int slot

/-! ## What stands in a value -/

/-- An item, or a value under a key. -/
@[mk_iff] inductive Part : Value → Value → Prop
  | list {v : Value} {items : List Value} : v ∈ items → Part v (.list items)
  | tuple {v : Value} {items : List Value} : v ∈ items → Part v (.tuple items)
  | set {v : Value} {items : List Value} : v ∈ items → Part v (.set items)
  | map {key v : Value} {entries : List (Value × Value)} :
      (key, v) ∈ entries → Part v (.map entries)

/-- An item, or the value of the last entry whose key has its plain form. -/
@[mk_iff] inductive KeptPart : Value → Value → Prop
  | list {v : Value} {items : List Value} : v ∈ items → KeptPart v (.list items)
  | tuple {v : Value} {items : List Value} : v ∈ items → KeptPart v (.tuple items)
  | set {v : Value} {items : List Value} : v ∈ items → KeptPart v (.set items)
  | map {key v : Value} {before later : List (Value × Value)} :
      (∀ entry ∈ later, entry.1.plainKey ≠ key.plainKey) →
      KeptPart v (.map (before ++ (key, v) :: later))

/-- A value stands somewhere in another, or is it. -/
def Within : Value → Value → Prop := ReflTransGen Part

/-- A value stands somewhere in another, or is it, and is not lost to a later entry. -/
def Shows : Value → Value → Prop := ReflTransGen KeptPart

/-- The members of enumerations that are left stand for plain values. -/
def MembersPlain (v : Value) : Prop := ∀ inner, Shows (.member inner) v → inner.IsPlain

theorem Part.sizeOf_lt {part v : Value} (h : Part part v) : sizeOf part < sizeOf v := by
  cases h with
  | list h | tuple h | set h =>
    have := List.sizeOf_lt_of_mem h
    simp only [list.sizeOf_spec, tuple.sizeOf_spec, set.sizeOf_spec]
    omega
  | map h =>
    have := List.sizeOf_lt_of_mem h
    simp only [Prod.mk.sizeOf_spec] at this
    simp only [map.sizeOf_spec]
    omega

theorem KeptPart.part {part v : Value} (h : KeptPart part v) : Part part v := by
  cases h with
  | list h => exact .list h
  | tuple h => exact .tuple h
  | set h => exact .set h
  | map _ => exact .map (List.mem_append_right _ List.mem_cons_self)

/-- What holds of a value if it holds of its parts holds of every value. -/
theorem part_induction {P : Value → Prop} (h : ∀ v, (∀ part, Part part v → P part) → P v)
    (v : Value) : P v :=
  (Subrelation.wf Part.sizeOf_lt (measure (sizeOf : Value → Nat)).wf).induction v h

/-- What stands in a value is the value or stands in one of its parts. -/
theorem forall_reflTransGen_iff {ι : Type} {R : Value → Value → Prop} {f : ι → Value}
    {P : ι → Prop} :
    (∀ i, ReflTransGen R (f i) v → P i) ↔
      (∀ i, v = f i → P i) ∧ ∀ part, R part v → ∀ i, ReflTransGen R (f i) part → P i := by
  constructor
  · intro h
    exact ⟨fun i hi => h i (hi ▸ .refl), fun part hpart i hi => h i (hi.tail hpart)⟩
  · rintro ⟨hself, hparts⟩ i hi
    obtain hself' | ⟨part, hi, hpart⟩ := hi.cases_tail
    · exact hself i hself'
    · exact hparts part hpart i hi

/-! ## Making plain -/

/-- The entries of a map made plain are those whose keys no later one has. -/
theorem mem_entries_plainEntries_iff {name : Text} {w : Value} :
    (.text name, w) ∈ (Table.ofList (plainEntries entries)).entries ↔
      ∃ before key value later, entries = before ++ (key, value) :: later ∧
        (∀ entry ∈ later, entry.1.plainKey ≠ key.plainKey) ∧
        key.plainKey = name ∧ value.plain = w := by
  rw [Table.mem_entries_ofList_text_iff, plainEntries_eq_map]
  constructor
  · rintro ⟨before, later, heq, hlater⟩
    obtain ⟨front, rest, rfl, rfl, hrest⟩ := List.map_eq_append_iff.1 heq
    obtain ⟨⟨key, value⟩, later, rfl, hentry, rfl⟩ := List.map_eq_cons_iff.1 hrest
    obtain ⟨hkey, rfl⟩ := Prod.ext_iff.1 hentry
    obtain rfl : key.plainKey = name := text.inj hkey
    refine ⟨front, key, value, later, rfl, fun entry he heq => ?_, rfl, rfl⟩
    exact hlater _ (List.mem_map_of_mem he) (congrArg text heq)
  · rintro ⟨before, key, value, later, rfl, hlater, rfl, rfl⟩
    refine ⟨_, _, List.map_append, fun entry he => ?_⟩
    obtain ⟨other, ho, rfl⟩ := List.mem_map.1 he
    exact fun heq => hlater other ho (text.inj heq)

theorem isPlain_plainItems_iff :
    (list (plainItems items)).IsPlain ↔ ∀ v ∈ items, v.plain.IsPlain := by
  rw [plainItems_eq_map, isPlain_list_iff, List.forall_mem_map]

theorem exists_text_of_mem_plainEntries :
    ∀ entry ∈ plainEntries entries, ∃ name, entry.1 = .text name := by
  rw [plainEntries_eq_map, List.forall_mem_map]
  exact fun entry _ => ⟨_, rfl⟩

/-- A map made plain holds the plain forms of the parts that are left of it. -/
theorem isPlain_plain_map_iff :
    (map entries).plain.IsPlain ↔ ∀ part, KeptPart part (.map entries) → part.plain.IsPlain := by
  rw [plain, isPlain_ofEntries_iff exists_text_of_mem_plainEntries]
  constructor
  · intro h part hpart
    generalize hv : map entries = v at hpart
    cases hpart with
    | list | tuple | set => cases hv
    | map hlater =>
      obtain rfl := map.inj hv
      exact h (_, _) (mem_entries_plainEntries_iff.2 ⟨_, _, _, _, rfl, hlater, rfl, rfl⟩)
  · rintro h ⟨key, w⟩ he
    obtain ⟨name, rfl⟩ := Table.exists_text_of_mem_ofList exists_text_of_mem_plainEntries _ he
    obtain ⟨before, key, value, later, rfl, hlater, -, rfl⟩ := mem_entries_plainEntries_iff.1 he
    exact h value (.map hlater)

theorem isPlain_plain_float (x : Binary64) : (float x).plain.IsPlain := by
  rw [plain]
  split
  · next h => exact .float h
  · exact .null

/-- A value made plain is plain exactly if the members of enumerations that are left stand
for plain values. -/
theorem isPlain_plain_iff : v.plain.IsPlain ↔ v.MembersPlain := by
  induction v using part_induction with
  | h v ih =>
    have hparts : (∀ part, KeptPart part v → ∀ inner, Shows (.member inner) part → inner.IsPlain) ↔
        ∀ part, KeptPart part v → part.plain.IsPlain :=
      forall₂_congr fun part hpart => (ih part hpart.part).symm
    rw [MembersPlain, Shows, forall_reflTransGen_iff, ← Shows, hparts]
    cases v with
    | member inner => simp [plain, keptPart_iff]
    -- items are made plain one by one, whatever holds them
    | list items => simp [plain, isPlain_plainItems_iff, keptPart_iff]
    | tuple items => simp [plain, isPlain_plainItems_iff, keptPart_iff]
    | set items => simp [plain, isPlain_plainItems_iff, keptPart_iff]
    | map entries => simp only [isPlain_plain_map_iff, reduceCtorEq, false_imp_iff, implies_true,
        true_and]
    | null => simp [plain, IsPlain.null, keptPart_iff]
    | bool b => simp [plain, IsPlain.bool, keptPart_iff]
    | int n => simp [plain, IsPlain.int, keptPart_iff]
    | float x => simp [isPlain_plain_float, keptPart_iff]
    | text _ | bytes _ | moment _ => simp [plain, IsPlain.text, keptPart_iff]
    | placeholder p => simp [plain, isPlain_ofPlaceholder, keptPart_iff]

/-! ## Plain values are left alone -/

theorem IsPlain.plain_eq (h : v.IsPlain) : v.plain = v := by
  induction h with
  | null | bool | int | text => rfl
  | float hx => exact if_pos hx
  | list _ ih => rw [plain, plainItems_eq_map, List.map_congr_left ih, List.map_id']
  | @map entries hdistinct hkeys _ ih =>
    have hentries : plainEntries entries = entries := by
      rw [plainEntries_eq_map]
      refine (List.map_congr_left fun entry he => ?_).trans entries.map_id'
      obtain ⟨name, hname⟩ := hkeys entry he
      exact Prod.ext (by rw [hname, plainKey]) (ih entry he)
    rw [plain, hentries]
    exact congrArg (Value.map ·.entries) (Table.ofList_entries ⟨entries, hdistinct⟩)

/-- Plain values are exactly those that being made plain leaves alone. -/
theorem plain_eq_self_iff : v.plain = v ↔ v.IsPlain := by
  refine ⟨fun h => ?_, IsPlain.plain_eq⟩
  induction v using part_induction with
  | h v ih =>
    cases v with
    | null => exact .null
    | bool b => exact .bool b
    | int n => exact .int n
    | float x =>
      rw [← h]
      exact isPlain_plain_float x
    | text t => exact .text t
    | list items =>
      rw [plain, plainItems_eq_map, list.injEq] at h
      have hitems := List.map_inj_left.1 (h.trans items.map_id'.symm)
      exact .list fun item hi => ih item (.list hi) (hitems item hi)
    | map entries =>
      have hleft : (Table.ofList (plainEntries entries)).entries = entries := map.inj h
      have hkeys := Table.exists_text_of_mem_ofList
        (exists_text_of_mem_plainEntries : ∀ entry ∈ plainEntries entries, _)
      have hdistinct := (Table.ofList (plainEntries entries)).distinct
      rw [hleft] at hkeys hdistinct
      -- the keys are texts that no two entries share, so that no entry was lost
      have hsame : (plainEntries entries).map Prod.fst = entries.map Prod.fst := by
        rw [plainEntries_eq_map, List.map_map]
        refine List.map_congr_left fun entry he => ?_
        obtain ⟨name, hname⟩ := hkeys entry he
        simp [hname, plainKey]
      have hkept : (Table.ofList (plainEntries entries)).entries = plainEntries entries :=
        Table.entries_foldl_put Table.empty (hsame ▸ hdistinct)
      have hvalues : plainEntries entries = entries := hkept.symm.trans hleft
      rw [plainEntries_eq_map] at hvalues
      have hvalues := List.map_inj_left.1 (hvalues.trans entries.map_id'.symm)
      exact .map hdistinct hkeys fun entry he =>
        ih entry.2 (.map he) (congrArg Prod.snd (hvalues entry he))
    | member inner =>
      have := congrArg sizeOf h
      simp [plain] at this
    | bytes | moment | placeholder | tuple | set => simp [plain, ofPlaceholder] at h

/-! ## Keys -/

/-- A value has plain keys if every map that stands in it has. -/
theorem hasPlainKeys_iff :
    v.hasPlainKeys = true ↔
      ∀ entries, Within (.map entries) v → ∀ entry ∈ entries, entry.1.isPlainKey = true := by
  induction v using part_induction with
  | h v ih =>
    rw [Within, forall_reflTransGen_iff, ← Within, ← forall₂_congr ih]
    cases v with
    | list items => simp [hasPlainKeys, havePlainKeys_iff, part_iff]
    | tuple items => simp [hasPlainKeys, havePlainKeys_iff, part_iff]
    | set items => simp [hasPlainKeys, havePlainKeys_iff, part_iff]
    | map entries =>
      rw [hasPlainKeys, entriesHavePlainKeys_iff]
      simp only [part_iff, map.injEq, reduceCtorEq, and_false, exists_false, false_or]
      refine ⟨fun h => ⟨?_, ?_⟩, fun h entry he => ⟨?_, ?_⟩⟩
      · rintro _ rfl entry he
        exact (h entry he).1
      · rintro value ⟨key, _, he, rfl⟩
        exact (h (key, value) he).2
      · exact h.1 entries rfl entry he
      · exact h.2 entry.2 ⟨entry.1, entries, he, rfl⟩
    | _ => simp [hasPlainKeys, part_iff]

theorem IsPlain.hasPlainKeys (h : v.IsPlain) : v.hasPlainKeys = true := by
  induction h with
  | list _ ih => exact havePlainKeys_iff.2 ih
  | map _ hkeys _ ih =>
    refine entriesHavePlainKeys_iff.2 fun entry he => ⟨?_, ih entry he⟩
    obtain ⟨name, hname⟩ := hkeys entry he
    rw [hname]
    rfl
  | _ => rfl

/-! ## Values made plain -/

theorem plain?_eq_some_iff {w : Value} :
    v.plain? = some w ↔ v.hasPlainKeys = true ∧ v.plain = w := by
  simp [plain?]

/-- A value can be made plain exactly if every key in it has a plain form.  What it becomes
is plain exactly if the members of enumerations that are left of it stand for plain values,
and that is when a second time changes nothing. -/
theorem plain?_isPlain_iff (v : Value) :
    (v.plain?.isSome = true ↔
      ∀ entries, Within (.map entries) v → ∀ entry ∈ entries, entry.1.isPlainKey = true) ∧
    ∀ w, v.plain? = some w →
      (w.IsPlain ↔ v.MembersPlain) ∧ (w.plain? = some w ↔ w.IsPlain) := by
  constructor
  · simp only [← hasPlainKeys_iff, Option.isSome_iff_exists, plain?_eq_some_iff, exists_and_left,
      exists_eq', and_true]
  · intro w hw
    obtain ⟨-, rfl⟩ := plain?_eq_some_iff.1 hw
    rw [plain?_eq_some_iff, plain_eq_self_iff]
    exact ⟨isPlain_plain_iff, fun h => h.2, fun h => ⟨h.hasPlainKeys, h⟩⟩

/-- A member of an enumeration that stands for a tuple becomes that tuple, which is no plain
value and becomes a list the second time. -/
theorem not_isPlain_plain?_member :
    (member (.tuple [.int 1, .int 2])).plain? = some (.tuple [.int 1, .int 2]) ∧
      ¬ (tuple [.int 1, .int 2]).IsPlain ∧
      (tuple [.int 1, .int 2]).plain? = some (.list [.int 1, .int 2]) :=
  ⟨rfl, by rintro ⟨⟩, rfl⟩

end Value

end Dissection
