import Dissection.Proofs.Chain

/-!
# Padding with copies of a literal

A run of copies of a literal counts as one literal, so writing more copies into the run of a
token, or taking all but one of them away, does not change what becomes of a text.  What the
tokens in front of it decide must not depend on the copies.  Finding a literal depends on what
stands in front of it and on the literal itself, but that its run has ended is known only from
as many characters behind the run as the literal has.  If no earlier literal is longer than
the one that is repeated, those characters all lie in front of the copies that are added.

## Main statements

* `Text.Divides.of_tail` — a division depends on no more than the literal's length behind it.
* `Split.exists_chain_repeats` — the captures of the first tokens with copies added.
* `dissect_repeats` — copies added to the run of a token change nothing.
-/

namespace Dissection

open Text

/-! ## Divisions -/

namespace Text

variable {literal front kept before rest : Text}

/-- What follows the first copy of a run decides nothing about the positions in front of the
run. -/
theorem prefix_drop_run_iff {i more : Nat} (hi : i < before.length) (rest : Text) :
    literal <+: (before ++ (List.replicate (more + 1) literal).flatten ++ rest).drop i ↔
      literal <+: (before ++ literal).drop i := by
  have hrun : before ++ (List.replicate (more + 1) literal).flatten ++ rest =
      before ++ literal ++ ((List.replicate more literal).flatten ++ rest) := by
    simp [List.replicate_succ]
  rw [hrun, prefix_drop_append_iff (Nat.le_of_lt hi)]

/-- What stands further behind a division than the literal is long may be replaced. -/
theorem Divides.of_tail (hd : Divides literal (front ++ (kept ++ rest)) before (kept ++ rest))
    (hl : literal.length ≤ kept.length) (other : Text) :
    Divides literal (front ++ (kept ++ other)) before (kept ++ other) := by
  obtain ⟨more, hm⟩ := hd.copies
  obtain rfl := List.append_cancel_right hm
  refine ⟨⟨more, rfl⟩, fun i hi hp => ?_, fun hp => ?_⟩
  · rw [prefix_drop_run_iff hi] at hp
    exact hd.leftmost i hi ((prefix_drop_run_iff hi _).2 hp)
  · have hk : literal <+: kept :=
      List.prefix_of_prefix_length_le hp (List.prefix_append _ _) hl
    exact hd.stops (hk.trans (List.prefix_append _ _))

/-- Copies of the literal may be added where its run ends. -/
theorem Divides.add_copies (hd : Divides literal (front ++ rest) before rest) (copies : Nat) :
    Divides literal (front ++ ((List.replicate copies literal).flatten ++ rest)) before rest := by
  obtain ⟨more, hm⟩ := hd.copies
  obtain rfl := List.append_cancel_right hm
  refine ⟨⟨more + copies, ?_⟩, fun i hi hp => ?_, hd.stops⟩
  · rw [Nat.add_right_comm, ← List.replicate_append_replicate (n := more + 1),
      List.flatten_append]
    simp only [List.append_assoc]
  · rw [prefix_drop_run_iff hi] at hp
    exact hd.leftmost i hi ((prefix_drop_run_iff hi _).2 hp)

/-- A run holds at least one copy. -/
theorem Divides.length_le (hd : Divides literal (front ++ rest) before rest) :
    literal.length ≤ front.length := by
  obtain ⟨more, hm⟩ := hd.copies
  obtain rfl := List.append_cancel_right hm
  simp [List.replicate_succ]
  omega

end Text

/-! ## Chains -/

namespace Split

variable {tokens : List Token} {token : Token} {text rest capture : Text} {captures : List Text}

/-- A chain has its beginnings. -/
theorem Chain.take (h : Chain tokens text captures rest) (count : Nat) :
    ∃ after, Chain tokens text (captures.take count) after := by
  induction h generalizing count with
  | done tokens text => exact ⟨text, by simpa using Chain.done tokens text⟩
  | next ht _ ih =>
    cases count with
    | zero => exact ⟨_, .done _ _⟩
    | succ count =>
      obtain ⟨after, hc⟩ := ih count
      exact ⟨after, .next ht hc⟩

/-- Copies may be added to the run of the last token of a chain, if no token before it has a
longer literal.  The chain takes at least one copy from the text. -/
theorem exists_chain_repeats (h : Chain tokens text (captures ++ [capture]) rest)
    (ht : tokens[captures.length]? = some token) (hd : token.delimiter ≠ [])
    (hbefore : ∀ other ∈ tokens.take captures.length,
      other.delimiter.length ≤ token.delimiter.length) :
    ∃ front, text = front ++ rest ∧ token.delimiter.length ≤ front.length ∧
      ∀ copies, Chain tokens
        (front ++ ((List.replicate copies token.delimiter).flatten ++ rest))
        (captures ++ [capture]) rest := by
  induction captures generalizing tokens text with
  | nil =>
    cases h with
    | next htake hrest =>
      cases hrest
      obtain rfl := Option.some.inj ht
      cases htake with
      | nothing hnil _ => contradiction
      | remainder hnil => contradiction
      | literal _ hdiv =>
        obtain ⟨more, rfl⟩ := hdiv.copies
        exact ⟨_, rfl, hdiv.length_le, fun copies =>
          .next (.literal hd (hdiv.add_copies copies)) (.done _ _)⟩
  | cons first captures ih =>
    cases h with
    | next htake hrest =>
      simp only [List.length_cons, List.getElem?_cons_succ] at ht
      simp only [List.length_cons, List.take_succ_cons, List.forall_mem_cons] at hbefore
      obtain ⟨kept, hafter, hlong, hcopies⟩ := ih hrest ht hbefore.2
      cases htake with
      | literal hfirst hdiv =>
        subst hafter
        obtain ⟨more, rfl⟩ := hdiv.copies
        refine ⟨_, (List.append_assoc _ kept rest).symm, ?_, fun copies => ?_⟩
        · rw [List.length_append]
          omega
        · rw [List.append_assoc]
          exact .next (.literal hfirst (hdiv.of_tail (Nat.le_trans hbefore.1 hlong) _)) (hcopies copies)
      | nothing hfirst hne =>
        exact ⟨kept, hafter, hlong, fun copies => .next (.nothing hfirst hne) (hcopies copies)⟩
      | remainder hfirst => simp at ht

end Split

/-! ## Patterns -/

namespace Pattern

open Split

variable {p : Pattern} {token : Token} {text rest : Text} {captures : List Text}

/-- What becomes of a text depends on what the first tokens take and on what they leave. -/
theorem dissect_congr_of_splitsInto {other : Text} (h : p.SplitsInto text captures rest)
    (h' : p.SplitsInto other captures rest) : p.dissect text = p.dissect other := by
  obtain ⟨start, hs, hc⟩ := h
  obtain ⟨start', hs', hc'⟩ := h'
  rw [dissect_eq, dissect_eq, afterLeading?_eq_some_iff.2 hs, afterLeading?_eq_some_iff.2 hs']
  simp only [ofTokens_of_chain hc, ofTokens_of_chain hc']

/-- Copies may be added to the run of a token, if neither the leading literal nor that of a
token before it is longer. -/
theorem exists_splitsInto_repeats {capture : Text}
    (h : p.SplitsInto text (captures ++ [capture]) rest)
    (ht : p.tokens[captures.length]? = some token) (hd : token.delimiter ≠ [])
    (hleading : p.leading.length ≤ token.delimiter.length)
    (hbefore : ∀ other ∈ p.tokens.take captures.length,
      other.delimiter.length ≤ token.delimiter.length) :
    ∃ front, text = front ++ rest ∧ ∀ copies,
      p.SplitsInto (front ++ ((List.replicate copies token.delimiter).flatten ++ rest))
        (captures ++ [capture]) rest := by
  obtain ⟨start, ⟨hnone, hsome⟩, hc⟩ := h
  obtain ⟨kept, rfl, hlong, hcopies⟩ := exists_chain_repeats hc ht hd hbefore
  by_cases hl : p.leading = []
  · obtain rfl := hnone hl
    exact ⟨kept, rfl, fun copies => ⟨_, ⟨fun _ => rfl, absurd hl⟩, hcopies copies⟩⟩
  · obtain ⟨before, hdiv⟩ := hsome hl
    obtain ⟨more, rfl⟩ := hdiv.copies
    refine ⟨_, (List.append_assoc _ kept rest).symm, fun copies => ?_⟩
    rw [List.append_assoc]
    exact ⟨_, ⟨fun hn => absurd hn hl, fun _ =>
      ⟨before, hdiv.of_tail (Nat.le_trans hleading hlong) _⟩⟩, hcopies copies⟩

/-- The tokens up to one that is found take their captures. -/
theorem exists_splitsInto_of_found {i : Nat} (hi : i < p.tokens.length)
    (hfound : (p.dissect text).isMatched = true ∨
      ∃ k, (p.dissect text).failedToken = some k ∧ i < k) :
    ∃ captures rest, captures.length = i + 1 ∧ p.SplitsInto text captures rest := by
  have hlong : ∃ captures rest, i < captures.length ∧ p.SplitsInto text captures rest := by
    generalize ho : p.dissect text = outcome at hfound
    cases (ho ▸ dissects_dissect p text : p.Dissects text outcome) with
    | all h hl => exact ⟨_, _, hl ▸ hi, h⟩
    | noLeading => simp [Outcome.isMatched, Outcome.failedToken] at hfound
    | noDelimiter h =>
      refine ⟨_, _, ?_, h⟩
      simpa [Outcome.isMatched, Outcome.failedToken] using hfound
  obtain ⟨captures, rest, hlt, start, hs, hc⟩ := hlong
  obtain ⟨after, hc⟩ := hc.take (i + 1)
  exact ⟨_, after, List.length_take_of_le hlt, start, hs, hc⟩

/-- Where the literal of a token is found, what the tokens up to it leave is an end of the
text, and any number of copies of the literal may be written in front of that end, as long as
neither the leading literal nor that of a token before it is longer. -/
theorem dissect_repeats {i : Nat} (ht : p.tokens[i]? = some token) (hd : token.delimiter ≠ [])
    (hfound : (p.dissect text).isMatched = true ∨
      ∃ k, (p.dissect text).failedToken = some k ∧ i < k)
    (hleading : p.leading.length ≤ token.delimiter.length)
    (hbefore : ∀ other ∈ p.tokens.take i, other.delimiter.length ≤ token.delimiter.length) :
    (∃ captures rest, captures.length = i + 1 ∧ p.SplitsInto text captures rest) ∧
      ∀ captures rest, captures.length = i + 1 → p.SplitsInto text captures rest →
        ∃ front, text = front ++ rest ∧ ∀ copies,
          p.dissect (front ++ (List.replicate copies token.delimiter).flatten ++ rest) =
            p.dissect text := by
  obtain ⟨hi, -⟩ := List.getElem?_eq_some_iff.1 ht
  refine ⟨exists_splitsInto_of_found hi hfound, fun captures rest hl h => ?_⟩
  rcases captures.eq_nil_or_concat with rfl | ⟨captures, capture, rfl⟩
  · cases hl
  rw [List.concat_eq_append] at h hl
  obtain rfl : captures.length = i := by simpa using hl
  obtain ⟨front, rfl, hcopies⟩ := exists_splitsInto_repeats h ht hd hleading hbefore
  refine ⟨front, rfl, fun copies => ?_⟩
  rw [List.append_assoc]
  exact dissect_congr_of_splitsInto (hcopies copies) h

/-- A pattern whose literals overlap: the first one is half of the second one. -/
def overlapping : Pattern where
  leading := []
  tokens := [⟨⟨"key", .normal, "key"⟩, "="⟩, ⟨⟨"kind", .normal, "kind"⟩, "=="⟩,
    ⟨⟨"value", .normal, "value"⟩, "="⟩]

/-- Copies of the second literal may be added, though the third one is missing. -/
theorem dissect_repeats_overlapping :
    let literal : Text := "=="
    overlapping.tokens[1]? = some ⟨⟨"kind", .normal, "kind"⟩, literal⟩ ∧ literal ≠ [] ∧
      ((overlapping.dissect "a=b==c").isMatched = true ∨
        ∃ k, (overlapping.dissect "a=b==c").failedToken = some k ∧ 1 < k) ∧
      overlapping.leading.length ≤ literal.length ∧
      (∀ other ∈ overlapping.tokens.take 1, other.delimiter.length ≤ literal.length) ∧
      overlapping.SplitsInto "a=b==c" ["a", "b"] "c" ∧
      ∃ front, "a=b==c".toList = front ++ ['c'] ∧ ∀ copies,
        overlapping.dissect (front ++ (List.replicate copies literal).flatten ++ ['c']) =
          overlapping.dissect "a=b==c" := by
  intro literal
  have hfound : (overlapping.dissect "a=b==c").isMatched = true ∨
      ∃ k, (overlapping.dissect "a=b==c").failedToken = some k ∧ 1 < k :=
    .inr ⟨2, by decide +kernel, by decide⟩
  have hleading : overlapping.leading.length ≤ literal.length := by decide
  have hbefore : ∀ other ∈ overlapping.tokens.take 1, other.delimiter.length ≤ literal.length := by
    decide
  have hkey : Divides "=" "a=b==c" "a" "b==c" :=
    (divides_iff (by decide)).2 ⟨"b==c", by decide +kernel, by decide +kernel⟩
  have hkind : Divides "==" "b==c" "b" "c" :=
    (divides_iff (by decide)).2 ⟨"c", by decide +kernel, by decide +kernel⟩
  have hsplit : overlapping.SplitsInto "a=b==c" ["a", "b"] "c" :=
    ⟨_, ⟨fun _ => rfl, absurd rfl⟩,
      .next (.literal (by decide) hkey) (.next (.literal (by decide) hkind) (.done _ _))⟩
  have htoken : overlapping.tokens[1]? = some ⟨⟨"kind", .normal, "kind"⟩, literal⟩ := rfl
  have hrepeats := (dissect_repeats htoken (by decide) hfound hleading hbefore).2
  exact ⟨htoken, by decide, hfound, hleading, hbefore, hsplit, hrepeats _ _ rfl hsplit⟩

end Pattern

end Dissection
