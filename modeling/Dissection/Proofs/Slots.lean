import Dissection.Pieces
import Mathlib.Data.Nat.Nth
import Mathlib.Data.Set.Finite.Basic

/-!
# The slots of pieces

A piece that asks for a slot gets it, whoever else asks for it.  The loose pieces, which ask
for none, get the numbers that no piece asks for, in ascending order; a number is no longer
free if only a later piece asks for it.  The pieces are shown in the order of their slots, and
those in one slot in the order of capture.

So a loose piece has its slot for itself, and how the loose pieces are mixed with the others
makes no difference.  Of the others only the sequence in each slot counts: sorting is stable,
so it forgets everything else.

## Main definitions

* `Pieces.Free` — a number that is not asked for.
* `Pieces.loose`, `Pieces.bySlot` — the pieces that ask for no slot, and the others sorted.
* `Pieces.slotOf` — the slot that a piece gets among others.

## Main statements

* `Pieces.nextFree_eq` — the search for a free slot counts through the free numbers.
* `Pieces.seated_eq` — the seats that are given are the slots of the pieces.
* `Pieces.render_congr` — what the text of a field depends on.
* `Pieces.render_slots` — the text of a field by the slots of its pieces.
-/

namespace Dissection

/-! ## Stable sorting -/

section

variable {α : Type} {key : α → Int} {l l' : List α}

theorem le_key_trans (key : α → Int) (a b c : α) (hab : decide (key a ≤ key b) = true)
    (hbc : decide (key b ≤ key c) = true) : decide (key a ≤ key c) = true := by
  rw [decide_eq_true_eq] at hab hbc ⊢
  exact hab.trans hbc

theorem le_key_total (key : α → Int) (a b : α) :
    (decide (key a ≤ key b) || decide (key b ≤ key a)) = true := by
  rw [Bool.or_eq_true, decide_eq_true_eq, decide_eq_true_eq]
  exact Int.le_total (key a) (key b)

theorem pairwise_mergeSort_key (key : α → Int) (l : List α) :
    (l.mergeSort fun a b => key a ≤ key b).Pairwise fun a b => key a ≤ key b := by
  simpa only [decide_eq_true_eq] using
    List.pairwise_mergeSort (le_key_trans key) (le_key_total key) l

/-- Sorting keeps the sequence of the items under one key. -/
theorem filter_mergeSort (key : α → Int) (l : List α) (k : Int) :
    (l.mergeSort fun a b => key a ≤ key b).filter (key · = k) = l.filter (key · = k) := by
  have hsame : (l.filter (key · = k)).Pairwise fun a b => decide (key a ≤ key b) = true := by
    refine List.pairwise_of_forall_mem_list fun a ha b hb => ?_
    simp only [List.mem_filter, decide_eq_true_eq] at ha hb ⊢
    exact (ha.2.trans hb.2.symm).le
  have hsub : (l.filter (key · = k)).Sublist (l.mergeSort fun a b => key a ≤ key b) :=
    List.sublist_mergeSort (le_key_trans key) (le_key_total key) hsame List.filter_sublist
  have hfilter := hsub.filter (key · = k)
  rw [List.filter_filter] at hfilter
  simp only [Bool.and_self] at hfilter
  refine (hfilter.eq_of_length ?_).symm
  exact ((List.mergeSort_perm l _).filter _).length_eq.symm

/-- Sorting keeps the order of items that have the same key. -/
theorem pairwise_mergeSort_stable {R : α → α → Prop} (hR : l.Pairwise R) :
    (l.mergeSort fun a b => key a ≤ key b).Pairwise fun a b =>
      key a < key b ∨ (key a = key b ∧ R a b) := by
  rw [List.pairwise_iff_forall_sublist]
  intro a b hsub
  have hle : key a ≤ key b :=
    List.pairwise_iff_forall_sublist.1 (pairwise_mergeSort_key key l) hsub
  rcases Int.lt_or_eq_of_le hle with hlt | heq
  · exact .inl hlt
  · have hfilter := hsub.filter (key · = key a)
    rw [filter_mergeSort, List.filter_eq_self.2 (by simp [heq])] at hfilter
    exact .inr ⟨heq, List.pairwise_iff_forall_sublist.1 hR (hfilter.trans List.filter_sublist)⟩

theorem mem_iff_of_filter_eq (h : ∀ k, l.filter (key · = k) = l'.filter (key · = k)) (a : α) :
    a ∈ l ↔ a ∈ l' := by
  have ha : a ∈ l.filter (key · = key a) ↔ a ∈ l'.filter (key · = key a) := by rw [h]
  simpa using ha

/-- A sorted list is known by the sequences of its items under each key. -/
theorem eq_of_filter_eq (hl : l.Pairwise fun a b => key a ≤ key b)
    (hl' : l'.Pairwise fun a b => key a ≤ key b)
    (h : ∀ k, l.filter (key · = k) = l'.filter (key · = k)) : l = l' := by
  have hmem := mem_iff_of_filter_eq h
  induction l generalizing l' with
  | nil =>
    refine (List.eq_nil_iff_forall_not_mem.2 fun a ha => ?_).symm
    exact List.not_mem_nil ((hmem a).2 ha)
  | cons a l ih =>
    cases l' with
    | nil => exact absurd ((hmem a).1 List.mem_cons_self) List.not_mem_nil
    | cons b l' =>
      obtain ⟨ha, htail⟩ := List.pairwise_cons.1 hl
      obtain ⟨hb, htail'⟩ := List.pairwise_cons.1 hl'
      -- the first items have the least key in both lists, so they are the same item
      have hab : key a ≤ key b := by
        rcases List.mem_cons.1 ((hmem b).2 List.mem_cons_self) with rfl | hin
        · exact Int.le_refl _
        · exact ha b hin
      have hba : key b ≤ key a := by
        rcases List.mem_cons.1 ((hmem a).1 List.mem_cons_self) with rfl | hin
        · exact Int.le_refl _
        · exact hb a hin
      have hkey : key b = key a := Int.le_antisymm hba hab
      have hfirst := h (key a)
      rw [List.filter_cons_of_pos (by simp), List.filter_cons_of_pos (by simp [hkey])] at hfirst
      obtain rfl : a = b := (List.cons.inj hfirst).1
      have hrest : ∀ k, l.filter (key · = k) = l'.filter (key · = k) := by
        intro k
        have hk := h k
        by_cases hak : key a = k
        · simpa [hak] using hk
        · simpa [hak] using hk
      rw [ih htail htail' hrest (mem_iff_of_filter_eq hrest)]

/-- Sorting depends on the sequences of the items under each key alone. -/
theorem mergeSort_congr (h : ∀ k, l.filter (key · = k) = l'.filter (key · = k)) :
    (l.mergeSort fun a b => key a ≤ key b) = l'.mergeSort fun a b => key a ≤ key b := by
  refine eq_of_filter_eq (pairwise_mergeSort_key key l) (pairwise_mergeSort_key key l')
    fun k => ?_
  rw [filter_mergeSort, filter_mergeSort, h]

end

namespace Pieces

variable {slots slots' : List Int} {pieces others : List Piece}

/-! ## Free slots -/

/-- A number that is not among the slots asked for. -/
def Free (slots : List Int) (n : Nat) : Prop := (n : Int) ∉ slots

instance (slots : List Int) : DecidablePred (Free slots) :=
  fun n => inferInstanceAs (Decidable ((n : Int) ∉ slots))

/-- Only finitely many slots are asked for. -/
theorem infinite_free (slots : List Int) : (Set.ofPred (Free slots)).Infinite := by
  have hfinite : (Set.ofPred fun n : Nat => (n : Int) ∈ slots).Finite :=
    (List.finite_toSet slots).preimage fun _ _ _ _ h => Int.ofNat_inj.1 h
  exact hfinite.infinite_compl

/-- The search for a free slot finds the one that comes next among the free numbers. -/
theorem nextFree_eq (slots : List Int) (n : Nat) :
    nextFree slots n = Nat.nth (Free slots) (Nat.count (Free slots) n) := by
  fun_induction nextFree slots n with
  | case1 n hn ih =>
    have htaken : ¬ Free slots n := not_not_intro hn
    rw [ih, Nat.count_succ, if_neg htaken, Nat.add_zero]
  | case2 n hn => exact (Nat.nth_count (p := Free slots) hn).symm

theorem free_nextFree (slots : List Int) (n : Nat) : Free slots (nextFree slots n) := by
  rw [nextFree_eq]
  exact Nat.nth_mem_of_infinite (infinite_free slots) _

/-- The free slots depend on which slots are asked for, not on how often or in which order. -/
theorem nextFree_congr (h : ∀ slot, slot ∈ slots ↔ slot ∈ slots') (n : Nat) :
    nextFree slots n = nextFree slots' n := by
  fun_induction nextFree slots n with
  | case1 n hn ih => rw [ih, nextFree.eq_def slots' n, if_pos ((h n).1 hn)]
  | case2 n hn => rw [nextFree, if_neg (mt (h n).2 hn)]

/-! ## The seats of pieces -/

/-- The pieces that ask for no slot. -/
def loose (pieces : List Piece) : List Piece := pieces.filter (·.slot.isNone)

/-- The pieces that ask for a slot. -/
def asking (pieces : List Piece) : List Piece := pieces.filter (·.slot.isSome)

/-- The slot of a piece among others, given with its position: the one that it asks for, or
for a loose piece the free number that comes after those of the loose pieces in front of it. -/
noncomputable def slotOf (pieces : List Piece) (place : Piece × Nat) : Int :=
  place.1.slot.getD (Nat.nth (Free (taken pieces)) (loose (pieces.take place.2)).length : Nat)

/-- The seats of the pieces behind others: the free slots below `free` are those that the
loose pieces among the others got. -/
theorem seatFrom_eq {before rest : List Piece} {free : Nat} (hsplit : pieces = before ++ rest)
    (hfree : Nat.count (Free (taken pieces)) free = (loose before).length) :
    seatFrom (taken pieces) free rest =
      (rest.zipIdx before.length).map fun place => (slotOf pieces place, place.1.text) := by
  induction rest generalizing before free with
  | nil => rfl
  | cons piece rest ih =>
    have hnext : pieces = (before ++ [piece]) ++ rest := by simp [hsplit]
    have htake : pieces.take before.length = before := by rw [hsplit, List.take_left]
    obtain ⟨slot, text⟩ := piece
    cases slot with
    | some slot =>
      have hloose : loose (before ++ [⟨some slot, text⟩]) = loose before := by simp [loose]
      rw [seatFrom, ih hnext (by rw [hfree, hloose])]
      simp [slotOf]
    | none =>
      have hloose : (loose (before ++ [⟨none, text⟩])).length = (loose before).length + 1 := by
        simp [loose]
      have hslot : nextFree (taken pieces) free =
          Nat.nth (Free (taken pieces)) (loose before).length := by
        rw [nextFree_eq, hfree]
      have hcount : Nat.count (Free (taken pieces)) (nextFree (taken pieces) free + 1) =
          (loose (before ++ [⟨none, text⟩])).length := by
        rw [Nat.count_succ, if_pos (free_nextFree _ _), hslot,
          Nat.count_nth_of_infinite (infinite_free _), hloose]
      rw [seatFrom, ih hnext hcount]
      simp [slotOf, htake, hslot]

/-- The seats that are given are the slots of the pieces. -/
theorem seated_eq (pieces : List Piece) :
    seated pieces = pieces.zipIdx.map fun place => (slotOf pieces place, place.1.text) := by
  have hsplit : pieces = [] ++ pieces := rfl
  exact seatFrom_eq hsplit rfl

/-- Loose pieces fill the gaps between the slots that are asked for. -/
example : (seated [⟨none, "c"⟩, ⟨some 3, "e"⟩, ⟨some 0, "b"⟩, ⟨none, "d"⟩, ⟨some 3, "f"⟩,
    ⟨some (-2), "a"⟩]).map Prod.fst = [1, 3, 0, 2, 3, -2] := by
  decide +kernel

/-! ## Loose pieces -/

/-- A loose piece gets a number that is not asked for. -/
theorem slotOf_loose {place : Piece × Nat} (h : place.1.slot = none) :
    slotOf pieces place =
      (Nat.nth (Free (taken pieces)) (loose (pieces.take place.2)).length : Nat) := by
  rw [slotOf, h, Option.getD_none]

theorem slotOf_asking {place : Piece × Nat} {slot : Int} (h : place.1.slot = some slot) :
    slotOf pieces place = slot := by
  rw [slotOf, h, Option.getD_some]

/-- In front of what comes behind a loose piece there is one loose piece more. -/
theorem length_loose_take_lt {a : Piece × Nat} {n : Nat} (ha : a ∈ pieces.zipIdx)
    (hloose : a.1.slot = none) (hlt : a.2 < n) :
    (loose (pieces.take a.2)).length < (loose (pieces.take n)).length := by
  have hnext : loose (pieces.take (a.2 + 1)) = loose (pieces.take a.2) ++ [a.1] := by
    rw [List.take_add_one, List.mem_zipIdx_iff_getElem?.1 ha]
    simp [loose, hloose]
  have hprefix : (loose (pieces.take (a.2 + 1))).Sublist (loose (pieces.take n)) :=
    (List.take_sublist_take_left hlt).filter _
  have hlength := hprefix.length_le
  rw [hnext, List.length_append] at hlength
  simpa using hlength

/-- A loose piece comes in front of the loose pieces that are captured later. -/
theorem slotOf_lt {a b : Piece × Nat} (ha : a ∈ pieces.zipIdx) (hloose : a.1.slot = none)
    (hloose' : b.1.slot = none) (hlt : a.2 < b.2) : slotOf pieces a < slotOf pieces b := by
  rw [slotOf_loose hloose, slotOf_loose hloose', Int.ofNat_lt]
  exact Nat.nth_strictMono (infinite_free _) (length_loose_take_lt ha hloose hlt)

/-- A loose piece has its slot for itself. -/
theorem eq_of_slotOf_eq {a b : Piece × Nat} (ha : a ∈ pieces.zipIdx) (hb : b ∈ pieces.zipIdx)
    (hloose : a.1.slot = none) (hslot : slotOf pieces a = slotOf pieces b) : a = b := by
  cases hasks : b.1.slot with
  | some slot =>
    -- the slot of the other piece is asked for, so it is not free
    rw [slotOf_loose hloose, slotOf_asking hasks] at hslot
    have hfree := Nat.nth_mem_of_infinite (infinite_free (taken pieces))
      (loose (pieces.take a.2)).length
    have hb : b.1 ∈ pieces := List.fst_mem_of_mem_zipIdx hb
    have htaken : slot ∈ taken pieces := List.mem_filterMap.2 ⟨b.1, hb, hasks⟩
    rw [Free, hslot] at hfree
    exact absurd htaken hfree
  | none =>
    have hle : ¬ a.2 < b.2 := fun hlt => (slotOf_lt ha hloose hasks hlt).ne hslot
    have hge : ¬ b.2 < a.2 := fun hlt => (slotOf_lt hb hasks hloose hlt).ne hslot.symm
    have hposition : a.2 = b.2 := by omega
    rw [List.mem_zipIdx_iff_getElem?] at ha hb
    rw [hposition, hb] at ha
    exact Prod.ext (Option.some.inj ha).symm hposition

/-! ## The order of the pieces -/

/-- Whether a piece is shown before another: by their slots, and in one slot by the order of
capture. -/
def Ahead (pieces : List Piece) (a b : Piece × Nat) : Prop :=
  slotOf pieces a < slotOf pieces b ∨ (slotOf pieces a = slotOf pieces b ∧ a.2 < b.2)

theorem pairwise_zipIdx (pieces : List Piece) :
    pieces.zipIdx.Pairwise fun a b => a.2 < b.2 := by
  rw [← List.pairwise_map (f := Prod.snd), List.zipIdx_map_snd]
  exact List.pairwise_lt_range'

/-- The pieces are shown in the order of their slots, each once. -/
theorem exists_places (pieces : List Piece) :
    ∃ places : List (Piece × Nat), places.Perm pieces.zipIdx ∧ places.Pairwise (Ahead pieces) ∧
      ordered pieces = places.map (·.1.text) := by
  refine ⟨pieces.zipIdx.mergeSort fun a b => slotOf pieces a ≤ slotOf pieces b,
    List.mergeSort_perm _ _, pairwise_mergeSort_stable (pairwise_zipIdx pieces), ?_⟩
  have hmap := List.map_mergeSort (r := fun a b => decide (slotOf pieces a ≤ slotOf pieces b))
    (s := fun a b => decide (a.1 ≤ b.1))
    (f := fun place : Piece × Nat => (slotOf pieces place, place.1.text)) (l := pieces.zipIdx)
    (fun _ _ _ _ => rfl)
  rw [ordered, seated_eq, ← hmap, List.map_map]
  rfl

/-- Of two loose pieces the one that is shown first was captured first. -/
theorem Ahead.position_lt {a b : Piece × Nat} (h : Ahead pieces a b) (ha : a ∈ pieces.zipIdx)
    (hb : b ∈ pieces.zipIdx) (hloose : a.1.slot = none) (hloose' : b.1.slot = none) :
    a.2 < b.2 := by
  rcases h with hlt | ⟨-, hlt⟩
  · rcases Nat.lt_trichotomy a.2 b.2 with hbefore | hsame | hbehind
    · exact hbefore
    · rw [List.mem_zipIdx_iff_getElem?] at ha hb
      rw [hsame, hb] at ha
      have heq : b = a := Prod.ext (Option.some.inj ha) hsame.symm
      rw [heq] at hlt
      exact absurd hlt (lt_irrefl _)
    · exact absurd (slotOf_lt hb hloose' hloose hbehind) hlt.asymm
  · exact hlt

/-- The loose pieces are shown in the order of capture. -/
theorem loose_map_fst {places : List (Piece × Nat)} (hperm : places.Perm pieces.zipIdx)
    (hahead : places.Pairwise (Ahead pieces)) : loose (places.map Prod.fst) = loose pieces := by
  have hplaces : (places.filter (·.1.slot.isNone)).Pairwise fun a b => a.2 < b.2 := by
    refine (hahead.filter _).imp_of_mem fun {a b} ha hb h => ?_
    simp only [List.mem_filter, Option.isNone_iff_eq_none] at ha hb
    exact h.position_lt (hperm.mem_iff.1 ha.1) (hperm.mem_iff.1 hb.1) ha.2 hb.2
  have hpieces : (pieces.zipIdx.filter (·.1.slot.isNone)).Pairwise fun a b => a.2 < b.2 :=
    (pairwise_zipIdx pieces).filter _
  have heq : places.filter (·.1.slot.isNone) = pieces.zipIdx.filter (·.1.slot.isNone) :=
    List.Perm.eq_of_pairwise (fun a b _ _ hab hba => absurd hba hab.asymm) hplaces hpieces
      (hperm.filter _)
  have hfst : pieces.zipIdx.map Prod.fst = pieces := List.zipIdx_map_fst 0 pieces
  have hloose : loose (pieces.zipIdx.map Prod.fst) =
      (pieces.zipIdx.filter (·.1.slot.isNone)).map Prod.fst := by
    rw [loose, List.filter_map]
    rfl
  rw [← heq, hfst] at hloose
  rw [hloose, loose, List.filter_map]
  rfl

/-- Pieces that are all loose are shown in the order of capture. -/
theorem ordered_of_loose (h : ∀ piece ∈ pieces, piece.slot = none) :
    ordered pieces = pieces.map (·.text) := by
  obtain ⟨places, hperm, hahead, hordered⟩ := exists_places pieces
  have hmem : ∀ piece ∈ places.map Prod.fst, piece ∈ pieces := by
    intro piece hp
    have hzip := (hperm.map Prod.fst).mem_iff.1 hp
    rwa [List.zipIdx_map_fst] at hzip
  have hsame : places.map Prod.fst = pieces := by
    have hloose := loose_map_fst hperm hahead
    rwa [loose, loose, List.filter_eq_self.2 fun piece hp => by simp [h piece (hmem piece hp)],
      List.filter_eq_self.2 fun piece hp => by simp [h piece hp]] at hloose
  rw [hordered, ← hsame, List.map_map]
  rfl

/-! ## What the text depends on -/

/-- The pieces that ask for a slot, sorted by it; those that ask for the same one stay in
their order. -/
def bySlot (pieces : List Piece) : List Piece :=
  (asking pieces).mergeSort fun a b => a.slot.getD 0 ≤ b.slot.getD 0

/-- The seats that are asked for. -/
def askedSeats (pieces : List Piece) : List (Int × Text) :=
  (asking pieces).map fun piece => (piece.slot.getD 0, piece.text)

theorem filter_seatFrom_loose (slots : List Int) (free : Nat) (pieces : List Piece) {slot : Int}
    (h : slot ∈ slots) : (seatFrom slots free (loose pieces)).filter (·.1 = slot) = [] := by
  induction pieces generalizing free with
  | nil => rfl
  | cons piece pieces ih =>
    obtain ⟨slot', text⟩ := piece
    cases slot' with
    | some slot' => exact ih free
    | none =>
      have hfree := free_nextFree slots free
      have hne : (nextFree slots free : Int) ≠ slot := fun he => hfree (he ▸ h)
      have hrest := ih (nextFree slots free + 1)
      rw [loose, List.filter_cons_of_pos rfl, ← loose, seatFrom, List.filter_cons_of_neg (by simpa)]
      exact hrest

/-- In each slot there are the seats that are asked for, or the one that a loose piece gets
whatever pieces stand between the loose ones. -/
theorem filter_seatFrom {slots : List Int} (free : Nat) (h : ∀ slot ∈ taken pieces, slot ∈ slots)
    (slot : Int) :
    (seatFrom slots free pieces).filter (·.1 = slot) =
      (seatFrom slots free (loose pieces) ++ askedSeats pieces).filter (·.1 = slot) := by
  induction pieces generalizing free with
  | nil => rfl
  | cons piece rest ih =>
    obtain ⟨asked, text⟩ := piece
    cases asked with
    | none =>
      have hseats : askedSeats (⟨none, text⟩ :: rest) = askedSeats rest := rfl
      have hloose : loose (⟨none, text⟩ :: rest) = ⟨none, text⟩ :: loose rest := rfl
      rw [hseats, hloose, seatFrom, seatFrom, List.cons_append, List.filter_cons,
        List.filter_cons, ih (nextFree slots free + 1) h]
    | some asked =>
      have hrest := ih free fun slot hs => h slot (List.mem_cons_of_mem _ hs)
      have hseats : askedSeats (⟨some asked, text⟩ :: rest) =
          (asked, text) :: askedSeats rest := rfl
      have hloose : loose (⟨some asked, text⟩ :: rest) = loose rest := rfl
      rw [seatFrom, hseats, hloose, List.filter_append]
      rw [List.filter_append] at hrest
      by_cases hs : asked = slot
      · have hnone := filter_seatFrom_loose slots free rest (h slot (by simp [taken, hs]))
        rw [hnone, List.nil_append] at hrest ⊢
        rw [List.filter_cons_of_pos (by simpa), List.filter_cons_of_pos (by simpa), hrest]
      · rw [List.filter_cons_of_neg (by simpa), List.filter_cons_of_neg (by simpa), hrest]

theorem seatFrom_congr (h : ∀ slot, slot ∈ slots ↔ slot ∈ slots') (free : Nat)
    (pieces : List Piece) : seatFrom slots free pieces = seatFrom slots' free pieces := by
  induction pieces generalizing free with
  | nil => rfl
  | cons piece rest ih =>
    obtain ⟨asked, text⟩ := piece
    cases asked with
    | none => rw [seatFrom, seatFrom, nextFree_congr h, ih]
    | some asked => rw [seatFrom, seatFrom, ih]

theorem mem_bySlot {piece : Piece} : piece ∈ bySlot pieces ↔ piece ∈ asking pieces :=
  List.mem_mergeSort

theorem mem_taken_iff {slot : Int} :
    slot ∈ taken pieces ↔ ∃ piece ∈ bySlot pieces, piece.slot = some slot := by
  simp only [taken, mem_bySlot, asking, List.mem_filterMap, List.mem_filter]
  constructor
  · rintro ⟨piece, hp, hs⟩
    exact ⟨piece, ⟨hp, by rw [hs]; rfl⟩, hs⟩
  · rintro ⟨piece, ⟨hp, -⟩, hs⟩
    exact ⟨piece, hp, hs⟩

theorem filter_askedSeats (pieces : List Piece) (slot : Int) :
    (askedSeats pieces).filter (·.1 = slot) =
      ((bySlot pieces).filter (·.slot.getD 0 = slot)).map fun piece =>
        (piece.slot.getD 0, piece.text) := by
  rw [bySlot, filter_mergeSort, askedSeats, List.filter_map]
  rfl

/-- The text of a field depends on the sequence of its loose pieces and on the other pieces,
sorted. -/
theorem render_congr (hloose : loose others = loose pieces)
    (hslots : bySlot others = bySlot pieces) : render others = render pieces := by
  have htaken : ∀ slot, slot ∈ taken others ↔ slot ∈ taken pieces := by
    intro slot
    rw [mem_taken_iff, mem_taken_iff, hslots]
  have hseated : ∀ slot, (seated others).filter (·.1 = slot) =
      (seated pieces).filter (·.1 = slot) := by
    intro slot
    rw [seated, seated, filter_seatFrom 0 fun _ => id, filter_seatFrom 0 fun _ => id,
      List.filter_append, List.filter_append, filter_askedSeats, filter_askedSeats, hslots, hloose,
      seatFrom_congr htaken]
  rw [render, render, ordered, ordered, mergeSort_congr hseated]

/-- Sorting pieces with distinct slots forgets their order. -/
theorem bySlot_of_perm (hperm : (asking others).Perm (asking pieces))
    (hdistinct : ((asking pieces).map (·.slot)).Nodup) : bySlot others = bySlot pieces := by
  refine List.Perm.eq_of_pairwise ?_ (pairwise_mergeSort_key _ _) (pairwise_mergeSort_key _ _)
    ((List.mergeSort_perm _ _).trans (hperm.trans (List.mergeSort_perm _ _).symm))
  intro a b ha hb hab hba
  rw [mem_bySlot] at ha hb
  have ha' := hperm.mem_iff.1 ha
  obtain ⟨slot, hslot⟩ := Option.isSome_iff_exists.1 (List.mem_filter.1 ha).2
  obtain ⟨slot', hslot'⟩ := Option.isSome_iff_exists.1 (List.mem_filter.1 hb).2
  refine List.inj_on_of_nodup_map hdistinct ha' hb ?_
  rw [hslot, hslot', Option.getD_some, Option.getD_some] at hab hba
  rw [hslot, hslot', Int.le_antisymm hab hba]

/-! ## The text of a field -/

/-- The text of a field is that of all its pieces, each once, with a blank between neighbours.
They stand in ascending order of their slots, those in one slot in the order of capture, where
a piece has the slot that it asks for and the loose pieces have the numbers that no piece asks
for, one after another.  So the loose pieces keep their order and have their slots for
themselves.  The text is the same for all pieces with the same loose ones in a row and the same
others after sorting: however the two kinds are mixed, and however the others are arranged if
they ask for distinct slots. -/
theorem render_slots (pieces : List Piece) :
    (∃ places : List (Piece × Nat), places.Perm pieces.zipIdx ∧ places.Pairwise (Ahead pieces) ∧
        render pieces = [' '].intercalate (places.map (·.1.text)) ∧
        loose (places.map Prod.fst) = loose pieces) ∧
      (∀ a ∈ pieces.zipIdx, ∀ b ∈ pieces.zipIdx, a.1.slot = none →
        slotOf pieces a = slotOf pieces b → a = b) ∧
      ∀ others, loose others = loose pieces →
        (bySlot others = bySlot pieces → render others = render pieces) ∧
        (asking others = asking pieces → render others = render pieces) ∧
        ((asking others).Perm (asking pieces) → ((asking pieces).map (·.slot)).Nodup →
          render others = render pieces) := by
  refine ⟨?_, ?_, ?_⟩
  · obtain ⟨places, hperm, hahead, hordered⟩ := exists_places pieces
    refine ⟨places, hperm, hahead, ?_, loose_map_fst hperm hahead⟩
    rw [render, hordered]
  · intro a ha b hb hloose hslot
    exact eq_of_slotOf_eq ha hb hloose hslot
  · intro others hloose
    refine ⟨render_congr hloose, fun hasking => ?_, fun hperm hdistinct => ?_⟩
    · refine render_congr hloose ?_
      rw [bySlot, bySlot, hasking]
    · exact render_congr hloose (bySlot_of_perm hperm hdistinct)

end Pieces

end Dissection
