import Dissection.Proofs.Chain

/-!
# The leftmost choice is complete

Dissecting takes each literal where it first stands and never goes back.  Some other
choice of places for the literals could still fit where the leftmost one does not, but
only by way of the repeats: a literal that stands twice in a row is taken once and its
copy is passed over, although the next token may need it.  On a text in which no literal
stands twice in a row nothing is lost.

The argument is an exchange.  Whatever place is chosen for a literal, what is left of the
text behind it is an end of what the leftmost place leaves, and literals that stand in
an end of a text stand in the text.

## Main definitions

* `Text.Follow literals text` — the literals stand in the text one behind another.
* `Pattern.PlacedIn p text` — the text has places for the literals of the pattern.

## Main statements

* `Text.follow_cons_iff_of_cut?` — the first literal may be taken where it first stands.
* `isMatched_dissect_iff_placedIn` — a text is matched exactly if it has places for the
  literals.
-/

namespace Dissection

namespace Text

variable {literal text longer before after gap rest : Text} {literals : List Text}

/-! ## Literals one behind another -/

/-- The literals stand in the text one behind another, with anything in front of each of
them and behind the last. -/
inductive Follow : List Text → Text → Prop
  | done (text : Text) : Follow [] text
  | next {literal gap rest : Text} {literals : List Text} :
      Follow literals rest → Follow (literal :: literals) (gap ++ literal ++ rest)

/-- Literals that stand in an end of a text stand in the text. -/
theorem Follow.of_suffix (h : Follow literals text) (hs : text <:+ longer) :
    Follow literals longer := by
  obtain ⟨front, rfl⟩ := hs
  cases h with
  | done => exact .done _
  | next h =>
    rw [List.append_assoc, ← List.append_assoc front, ← List.append_assoc]
    exact .next h

/-- The empty literal stands everywhere. -/
theorem follow_nil_cons_iff : Follow ([] :: literals) text ↔ Follow literals text := by
  constructor
  · intro h
    cases h with
    | next h => exact h.of_suffix (List.suffix_append _ _)
  · intro h
    have hnext : Follow ([] :: literals) ([] ++ [] ++ text) := .next h
    exact hnext

/-- Behind any place of a literal stands an end of what its leftmost place leaves. -/
theorem suffix_of_cut? (hc : cut? literal text = some (before, after))
    (ht : text = gap ++ literal ++ rest) : rest <:+ after := by
  obtain ⟨hcut, hleft⟩ := cut?_eq_some_iff.1 hc
  have hle : before.length ≤ gap.length := by
    refine Nat.le_of_not_lt fun hlt => hleft gap.length hlt ?_
    rw [ht, List.append_assoc, List.drop_left]
    exact List.prefix_append _ _
  have hrest : rest <:+ text := ht ▸ List.suffix_append _ _
  have hafter : after <:+ text := hcut ▸ List.suffix_append _ _
  refine List.suffix_of_suffix_length_le hrest hafter ?_
  have hlength := congrArg List.length (ht.symm.trans hcut)
  simp only [List.length_append] at hlength
  omega

/-- The first literal may be taken where it first stands. -/
theorem follow_cons_iff_of_cut? (hc : cut? literal text = some (before, after)) :
    Follow (literal :: literals) text ↔ Follow literals after := by
  constructor
  · intro h
    generalize htext : text = whole at h
    cases h with
    | next h => exact h.of_suffix (suffix_of_cut? hc htext)
  · intro h
    rw [eq_of_cut? hc]
    exact .next h

theorem Follow.infix_of_cons (h : Follow (literal :: literals) text) : literal <:+: text := by
  cases h with
  | next => exact ⟨_, _, rfl⟩

theorem follow_iff :
    Follow literals text ↔
      ∃ gaps rest, gaps.length = literals.length ∧
        text = (List.zipWith (· ++ ·) gaps literals).flatten ++ rest := by
  constructor
  · intro h
    induction h with
    | done text => exact ⟨[], text, rfl, rfl⟩
    | @next literal gap _ _ _ ih =>
      obtain ⟨gaps, rest, hl, rfl⟩ := ih
      exact ⟨gap :: gaps, rest, by simp [hl], by simp⟩
  · rintro ⟨gaps, rest, hl, rfl⟩
    induction literals generalizing gaps with
    | nil => exact .done _
    | cons literal literals ih =>
      obtain ⟨gap, gaps, rfl⟩ := List.exists_cons_of_length_eq_add_one hl
      simp only [List.zipWith_cons_cons, List.flatten_cons]
      rw [List.append_assoc]
      exact .next (ih gaps (by simpa using hl))

/-! ## Literals without repeats -/

/-- A literal that stands nowhere twice in a row. -/
def Single (literal text : Text) : Prop := literal ≠ [] → ¬ literal ++ literal <:+: text

theorem Single.of_suffix (h : Single literal longer) (hs : text <:+ longer) :
    Single literal text :=
  fun hne hin => h hne (hin.trans hs.isInfix)

/-- Where no literal stands twice in a row a division is a cut. -/
theorem Divides.cut?_of_single (hd : Divides literal text before after) (hne : literal ≠ [])
    (hs : Single literal text) : cut? literal text = some (before, after) := by
  obtain ⟨found, hc, rfl⟩ := (divides_iff hne).1 hd
  have hstop : ¬ literal <+: found := by
    rintro ⟨rest, rfl⟩
    refine hs hne ⟨before, rest, ?_⟩
    rw [eq_of_cut? hc]
    simp
  rw [hc, dropRepeats_eq_self hstop]

end Text

open Text

/-! ## The split of a text -/

namespace Split

@[simp] theorem missing_cons (capture : Text) (s : Split) :
    (cons capture s).missing = s.missing := rfl

/-- The split finds every literal exactly if they stand in the text one behind another. -/
theorem missing_ofTokens_eq_none_iff {tokens : List Token} {text : Text}
    (h : ∀ token ∈ tokens, Single token.delimiter text) :
    (ofTokens tokens text).missing = none ↔ Follow (tokens.map (·.delimiter)) text := by
  induction tokens generalizing text with
  | nil => exact ⟨fun _ => .done _, fun _ => rfl⟩
  | cons token tokens ih =>
    obtain ⟨hfirst, hothers⟩ := List.forall_mem_cons.1 h
    rw [List.map_cons]
    by_cases hfound : token.delimiter ≠ [] → token.delimiter <:+: text
    · obtain ⟨capture, after, ht⟩ := exists_takes token tokens text hfound
      rw [ofTokens_of_takes ht, missing_cons]
      cases ht with
      | literal hd hdiv =>
        have hc := hdiv.cut?_of_single hd hfirst
        have hafter : after <:+ text := by
          rw [eq_of_cut? hc]
          exact List.suffix_append _ _
        rw [follow_cons_iff_of_cut? hc]
        exact ih fun other ho => (hothers other ho).of_suffix hafter
      | nothing hd _ =>
        rw [hd, follow_nil_cons_iff]
        exact ih hothers
      | remainder hd =>
        rw [hd, follow_nil_cons_iff]
        exact ⟨fun _ => .done _, fun _ => rfl⟩
    · obtain ⟨hd, hm⟩ := Classical.not_imp.1 hfound
      rw [ofTokens_of_missing hd hm]
      simpa using mt Follow.infix_of_cons hm

end Split

/-! ## The literals of a pattern -/

namespace Pattern

/-- A text is matched exactly if its leading literal is found and no other is missing. -/
theorem isMatched_dissect_iff (p : Pattern) (text : Text) :
    (p.dissect text).isMatched = true ↔
      ∃ start, p.afterLeading? text = some start ∧
        (Split.ofTokens p.tokens start).missing = none := by
  rw [dissect_eq]
  cases p.afterLeading? text with
  | none => simp [Outcome.isMatched]
  | some start =>
    cases hm : (Split.ofTokens p.tokens start).missing <;> simp [hm, Outcome.isMatched]

/-- A text has places for the literals of a pattern: they stand in it in their order, with
anything in front, between them and behind. -/
def PlacedIn (p : Pattern) (text : Text) : Prop :=
  ∃ front gaps rest, gaps.length = p.tokens.length ∧
    text = front ++ p.leading ++
      (List.zipWith (fun gap token => gap ++ token.delimiter) gaps p.tokens).flatten ++ rest

theorem placedIn_iff_follow {p : Pattern} {text : Text} :
    p.PlacedIn text ↔ Follow (p.leading :: p.tokens.map (·.delimiter)) text := by
  constructor
  · rintro ⟨front, gaps, rest, hl, rfl⟩
    rw [List.append_assoc]
    refine .next (follow_iff.2 ⟨gaps, rest, by simpa using hl, ?_⟩)
    rw [List.zipWith_map_right]
  · intro h
    cases h with
    | @next _ front _ _ h =>
      obtain ⟨gaps, rest, hl, rfl⟩ := follow_iff.1 h
      refine ⟨front, gaps, rest, by simpa using hl, ?_⟩
      rw [List.zipWith_map_right]
      simp only [List.append_assoc]

/-- Where no literal of a pattern stands twice in a row, a text is matched exactly if it has
places for the literals at all. -/
theorem isMatched_dissect_iff_placedIn (p : Pattern) (text : Text)
    (h : ∀ literal ∈ p.leading :: p.tokens.map (·.delimiter),
      literal ≠ [] → ¬ literal ++ literal <:+: text) :
    (p.dissect text).isMatched = true ↔ p.PlacedIn text := by
  obtain ⟨hleading, hdelimiters⟩ := List.forall_mem_cons.1 h
  have hsingle : ∀ token ∈ p.tokens, Single token.delimiter text :=
    fun token ht => hdelimiters _ (List.mem_map_of_mem ht)
  rw [isMatched_dissect_iff, placedIn_iff_follow]
  by_cases hne : p.leading = []
  · rw [hne, follow_nil_cons_iff, ← Split.missing_ofTokens_eq_none_iff hsingle]
    simp [afterLeading?, hne]
  · cases hstart : p.afterLeading? text with
    | none =>
      have hm := (afterLeading?_eq_none_iff.1 hstart).2
      simpa using mt Follow.infix_of_cons hm
    | some start =>
      obtain ⟨before, hd⟩ := (afterLeading?_eq_some_iff.1 hstart).2 hne
      have hc := hd.cut?_of_single hne hleading
      have hsuffix : start <:+ text := by
        rw [eq_of_cut? hc]
        exact List.suffix_append _ _
      rw [follow_cons_iff_of_cut? hc,
        ← Split.missing_ofTokens_eq_none_iff fun token ht => (hsingle token ht).of_suffix hsuffix]
      simp

/-- A pattern with literals that overlap and tokens without a literal. -/
def overlappingLiterals : Pattern where
  leading := "aba"
  tokens := [⟨⟨"x", .normal, "x"⟩, "b"⟩, ⟨⟨"y", .normal, "y"⟩, []⟩, ⟨⟨"z", .append, "+z"⟩, "xa"⟩,
    ⟨⟨[], .skip, []⟩, []⟩]

/-- The places that show the text to be matched are not the leftmost ones. -/
theorem isMatched_dissect_iff_placedIn_overlappingLiterals :
    (∀ literal ∈ overlappingLiterals.leading :: overlappingLiterals.tokens.map (·.delimiter),
      literal ≠ [] → ¬ literal ++ literal <:+: "xababxbxab".toList) ∧
      overlappingLiterals.PlacedIn "xababxbxab" ∧
      (overlappingLiterals.dissect "xababxbxab").isMatched = true := by
  have h : ∀ literal ∈
      overlappingLiterals.leading :: overlappingLiterals.tokens.map (·.delimiter),
      literal ≠ [] → ¬ literal ++ literal <:+: "xababxbxab".toList := by
    decide +kernel
  have hplaced : overlappingLiterals.PlacedIn "xababxbxab" :=
    ⟨['x'], [['b', 'x'], [], [], []], ['b'], rfl, rfl⟩
  exact ⟨h, hplaced, (isMatched_dissect_iff_placedIn _ _ h).2 hplaced⟩

end Pattern

end Dissection
