import Dissection.Proofs.Lasting
import Dissection.Proofs.Numeral
import Dissection.Proofs.Traversal

/-!
# Values that can be shown

What a filter puts on a record are texts, lists of texts, integers and binary64 numbers.  All of
them have a text.  An integer with too many digits has none, but none is made: numerals are read
up to the same number of digits, and no binary64 number has as many.  So on a record that holds
nothing else, no rule and no template is stopped by a value that cannot be shown.

## Main definitions

* `Value.Printable` — a value that a filter puts on a record.
* `Record.Shown` — a record of such values.

## Main statements

* `Numeral.isShown_of_read?`, `Binary64.isShown_of_toInt?` — an integer that is made is shown.
* `Record.lasting_shown` — every write and every tag leaves a record of such values.
* `Record.Shown.exists_dissectField`, `Record.Shown.exists_yield` — its fields are dissected and
  templates are filled in.
-/

namespace Dissection

open Text Traversal Dissection.Action Dissection.Record

/-! ## Integers that can be shown -/

namespace Numeral

variable {text : Text} {n : Nat}

/-- A number with few enough digits is shown. -/
theorem isShown_of_lt {count : Nat} (hn : n < Nat.pow 10 count) (hcount : count ≤ limit) :
    isShown n = true := by
  by_cases hzero : count = 0
  · subst hzero
    obtain rfl : n = 0 := Nat.lt_one_iff.1 hn
    decide
  · have hlength := (Nat.length_toDigits_le_iff (by decide) (Nat.pos_of_ne_zero hzero)).2 hn
    rw [isShown, decide_eq_true_iff]
    exact Nat.le_trans hlength hcount

/-- A number with more digits is not. -/
theorem isShown_eq_false_of_le {count : Nat} (hn : Nat.pow 10 count ≤ n) (hcount : limit ≤ count) :
    isShown n = false := by
  rw [isShown, decide_eq_false_iff_not]
  intro hlength
  have hpos : 0 < count := Nat.lt_of_lt_of_le (by decide) hcount
  have hlt := (Nat.length_toDigits_le_iff (by decide) hpos).1 (Nat.le_trans hlength hcount)
  exact Nat.not_lt_of_le hn hlt

theorem lt_of_value? {c : Char} {d : Nat} (h : Digit.value? c = some d) : d < 10 := by
  obtain ⟨first, hfirst, rfl⟩ := Option.map_eq_some_iff.1 h
  have hrange := List.find?_some hfirst
  simp only [Bool.and_eq_true, decide_eq_true_eq] at hrange
  omega

theorem lt_of_mem_moreDigits {d : Nat} (h : d ∈ (moreDigits text).1) : d < 10 := by
  fun_induction moreDigits text with
  | case1 | case3 | case5 | case6 => cases h
  | case2 c rest first hfirst found after hrest ih =>
    rcases List.mem_cons.1 h with rfl | h
    · exact lt_of_value? hfirst
    · exact ih (by rwa [hrest])
  | case4 c rest first hfirst found after hrest hnone ih =>
    rcases List.mem_cons.1 h with rfl | h
    · exact lt_of_value? hfirst
    · exact ih (by rwa [hrest])

theorem lt_of_mem_digits {d : Nat} (h : d ∈ (digits text).1) : d < 10 := by
  unfold digits at h
  split at h
  · cases h
  · split at h
    · next hfirst =>
      rcases List.mem_cons.1 h with rfl | h
      · exact lt_of_value? hfirst
      · exact lt_of_mem_moreDigits h
    · cases h

theorem ofDigits_lt {found : List Nat} (h : ∀ d ∈ found, d < 10) :
    ofDigits found < Nat.pow 10 found.length := by
  induction found using List.reverseRecOn with
  | nil => exact Nat.one_pos
  | append_singleton found d ih =>
    rw [List.forall_mem_append, List.forall_mem_singleton] at h
    obtain ⟨hfound, hd⟩ := h
    have hfront := ih hfound
    have hpow : Nat.pow 10 (found.length + 1) = Nat.pow 10 found.length * 10 := rfl
    rw [ofDigits_concat, List.length_append, List.length_singleton, hpow]
    omega

/-- A numeral has no more digits than can be shown. -/
theorem isShown_of_read? {n : Int} (h : read? text = some n) : isShown n.natAbs = true := by
  have hsigned : ∀ negative magnitude, (signed negative magnitude).natAbs = magnitude := by
    intro negative magnitude
    cases negative <;> simp [signed]
  unfold read? at h
  split at h
  next negative rest _ =>
  split at h
  · cases h
  · cases h
  · next found hfound =>
    rw [Option.ite_none_right_eq_some] at h
    obtain ⟨hlength, h⟩ := h
    obtain rfl := Option.some.inj h
    rw [hsigned]
    refine isShown_of_lt (ofDigits_lt fun d hd => ?_) hlength
    exact lt_of_mem_digits (by rwa [hfound])

end Numeral

namespace Binary64

theorem unitsOfRank_lt (rank : Nat) :
    unitsOfRank rank < Nat.pow 2 (53 + rank / Nat.pow 2 52) := by
  have hrank := Nat.div_add_mod rank (Nat.pow 2 52)
  have hfraction : rank % Nat.pow 2 52 < Nat.pow 2 52 := Nat.mod_lt _ (by decide)
  have hsum : ∀ e, Nat.pow 2 (53 + e) = Nat.pow 2 53 * Nat.pow 2 e := Nat.pow_add 2 53
  have hdouble : Nat.pow 2 53 = Nat.pow 2 52 * 2 := rfl
  rw [hsum, unitsOfRank]
  split
  · next hzero =>
    have hone : Nat.pow 2 0 = 1 := rfl
    rw [hzero, Nat.mul_zero, Nat.zero_add] at hrank
    rw [hzero, hone]
    omega
  · have hpower := Nat.pow_le_pow_right (by decide : 0 < 2) (Nat.sub_le (rank / Nat.pow 2 52) 1)
    refine Nat.mul_lt_mul_of_lt_of_le ?_ hpower (Nat.pow_pos (by decide))
    omega

/-- The magnitude of a number is that of a rank. -/
theorem natAbs_of_units? {x : Binary64} {units : Int} (h : x.units? = some units) :
    ∃ rank < 2047 * Nat.pow 2 52, units.natAbs = unitsOfRank rank := by
  cases x with
  | finite negative rank =>
    obtain rfl := Option.some.inj h
    refine ⟨rank.val, rank.isLt, ?_⟩
    cases negative <;> simp
  | infinite | nan => cases h

/-- A binary64 number has fewer digits than can be shown. -/
theorem isShown_of_toInt? {x : Binary64} {n : Int} (h : x.toInt? = some n) :
    Numeral.isShown n.natAbs = true := by
  obtain ⟨units, hunits, hn⟩ := Option.bind_eq_some_iff.1 h
  rw [Option.ite_none_right_eq_some] at hn
  obtain rfl := Option.some.inj hn.2
  obtain ⟨rank, hrank, habs⟩ := natAbs_of_units? hunits
  have hunits := unitsOfRank_lt rank
  have hbinade : 53 + rank / Nat.pow 2 52 ≤ 2100 := by
    have := Nat.div_lt_of_lt_mul (Nat.mul_comm _ _ ▸ hrank)
    omega
  generalize 53 + rank / Nat.pow 2 52 = digits at hunits hbinade
  -- a digit for every binary one would be more than enough
  refine Numeral.isShown_of_lt ?_ (Nat.le_trans hbinade (by decide))
  calc (units / (Nat.pow 2 1074 : Nat)).natAbs
      ≤ units.natAbs := Int.natAbs_ediv_le_natAbs _ _
    _ < Nat.pow 2 digits := habs ▸ hunits
    _ ≤ Nat.pow 10 digits := Nat.pow_le_pow_left (by decide) _

end Binary64

/-! ## Values -/

namespace Value

/-- A value that a filter puts on the record of a line. -/
inductive Printable : Value → Prop
  | text (t : Text) : Printable (.text t)
  | texts (texts : List Text) : Printable (.list (texts.map .text))
  | int {n : Int} : Numeral.isShown n.natAbs = true → Printable (.int n)
  | float (x : Binary64) : Printable (.float x)

variable {v w datatype : Value}

@[simp] theorem areShown_append (items others : List Value) :
    areShown (items ++ others) = (areShown items && areShown others) := by
  induction items with
  | nil => rfl
  | cons item rest ih => simp [areShown, ih, Bool.and_assoc]

@[simp] theorem areShown_texts (texts : List Text) : areShown (texts.map .text) = true := by
  induction texts with
  | nil => rfl
  | cons t rest ih => exact ih

theorem Printable.hasText (h : v.Printable) : v.hasText = true := by
  cases h with
  | text | float => rfl
  | int hn => exact hn
  | texts texts => exact areShown_texts texts

theorem Printable.of_coerce {target : Conversion.Datatype} (hv : v.Printable)
    (h : Conversion.coerce target v = .ok w) : w.Printable := by
  cases target with
  | float =>
    obtain ⟨x, -, rfl⟩ := map_eq_ok_iff.1 h
    exact .float x
  | int =>
    obtain ⟨n, hn, rfl⟩ := map_eq_ok_iff.1 h
    refine .int ?_
    cases hv with
    | text t =>
      rw [Conversion.toInt] at hn
      split at hn
      · next hread =>
        cases hn
        exact Numeral.isShown_of_read? hread
      · cases hn
    | texts texts => cases hn
    | int hshown =>
      cases hn
      exact hshown
    | float x =>
      rw [Conversion.toInt] at hn
      split at hn
      · next hread =>
        cases hn
        exact Binary64.isShown_of_toInt? hread
      · cases hn

/-- A value that can be printed is converted to one. -/
theorem Printable.of_judge (hv : v = .null ∨ v.Printable)
    (h : Conversion.judge datatype v = .ok (.inl w)) : w.Printable := by
  obtain ⟨target, -, hcoerce⟩ := Conversion.coerce_of_judge h
  rcases hv with rfl | hv
  · cases target <;> cases hcoerce
  · exact hv.of_coerce hcoerce

end Value

/-! ## Records -/

namespace Record

variable {r : Record} {failureTags : Value}

/-- A record of values that a filter puts on it. -/
def Shown (r : Record) : Prop := ∀ entry ∈ r.entries, entry.2.Printable

theorem Shown.of_get? (hr : r.Shown) {name v : Value} (h : r.get? name = some v) :
    v.Printable := by
  obtain ⟨entry, hfound, rfl⟩ := Option.map_eq_some_iff.1 h
  exact hr entry (List.mem_of_find?_eq_some hfound)

theorem Shown.value (hr : r.Shown) (name : Value) :
    r.value name = .null ∨ (r.value name).Printable := by
  rw [Record.value]
  cases h : r.get? name with
  | none => exact .inl rfl
  | some v => exact .inr (hr.of_get? h)

theorem Shown.put (hr : r.Shown) {v : Value} (hv : v.Printable) (name : Value) :
    Shown (Table.put r name v) := by
  intro entry he
  rcases Table.eq_or_mem_of_mem_put he with rfl | he
  · exact hv
  · exact hr entry he

theorem Shown.of_appendTag (hr : r.Shown) {r' : Record} {tag : Text}
    (h : Record.appendTag r (.text tag) = .ok r') : r'.Shown := by
  obtain ⟨found, hfound⟩ := exists_appendTag_iff.1 ⟨r', h⟩
  rw [hfound.appendTag] at h
  obtain rfl := Except.ok.inj h
  refine hr.put ?_ _
  cases found with
  | none => exact .texts [tag]
  | some items =>
    cases hr.of_get? hfound with
    | texts texts => simpa using Value.Printable.texts (texts ++ [tag])

/-- Every write and every tag leaves a record of values that can be shown, if the failure tags
are texts. -/
theorem lasting_shown {tags : List Text} (htags : failureTags.items = .ok (tags.map .text)) :
    Lasting failureTags Writable Shown where
  put := by
    intro r name v hv hr
    refine hr.put ?_ name
    cases hv with
    | text t => exact .text t
    | converted h => exact .of_judge (hr.value _) h
  appendTag := by
    intro r r' tag htag hr happend
    cases htag with
    | text t => exact hr.of_appendTag happend
    | failure hitems hmem =>
      obtain rfl := Except.ok.inj (htags.symm.trans hitems)
      obtain ⟨t, -, rfl⟩ := List.mem_map.1 hmem
      exact hr.of_appendTag happend

/-- A field of a record of values that can be shown is dissected, if it is there. -/
theorem Shown.exists_dissectField (hr : r.Shown) (p : Pattern) (source : Value) :
    ∃ o, p.dissectField r source = .ok o := by
  rw [Pattern.dissectField]
  split
  · exact ⟨_, rfl⟩
  · exact ⟨_, rfl⟩
  · next v _ hv =>
    rw [Value.shown, if_pos (hr.of_get? hv).hasText]
    exact ⟨_, rfl⟩

/-- A template that is a text is filled in from a record of values that can be shown. -/
theorem Shown.exists_yield (hr : r.Shown) {template : Value} {text : Text}
    (h : template.wording = .ok text) : ∃ filled, Filter.yield r template = .ok filled := by
  rw [Filter.yield, h]
  exact Template.exists_interpolate (fun _ _ hv => (hr.of_get? hv).hasText) text

end Record

end Dissection
