import Dissection.Outcome
import Dissection.Proofs.Division

/-!
# The split of a text at the tokens of a pattern

A pattern splits a text into a chain of captures.  The text is divided at the leading
literal, and what is left is divided at each token's literal in turn, so that every
token takes its capture from what the token before it left.  A token without a
literal takes nothing, unless it is the last one: then it takes all that is left.

The chain is a relation that names the parts and leaves open how they are found.  It
determines the parts, and dissecting a text is exactly following it to its end or to
the first literal that is missing.

## Main definitions

* `Split.Takes` — what the first of some tokens takes from a text.
* `Split.Chain` — what the first tokens take one after another.
* `Pattern.SplitsInto` — the captures of a pattern's first tokens, and the text behind.
* `Pattern.Dissects` — what becomes of a text according to its chains.

## Main statements

* `Split.Chain.unique` — a chain is determined by its length.
* `dissect_iff_dissects` — dissecting yields what the chains of the text say.
-/

namespace Dissection

open Text

namespace Split

variable {tokens : List Token} {text capture after rest : Text} {captures : List Text}

/-! ## One token -/

/-- What the first of some tokens takes from the front of a text, and what it leaves. -/
inductive Takes : List Token → Text → Text → Text → Prop
  /-- A literal ends the capture, and its repeats are passed over with it. -/
  | literal {token : Token} {tokens : List Token} {text capture after : Text} :
      token.delimiter ≠ [] → Divides token.delimiter text capture after →
        Takes (token :: tokens) text capture after
  /-- Without a literal nothing is taken, if other tokens follow. -/
  | nothing {token : Token} {tokens : List Token} {text : Text} :
      token.delimiter = [] → tokens ≠ [] → Takes (token :: tokens) text [] text
  /-- Without a literal the last token takes the rest. -/
  | remainder {token : Token} {text : Text} :
      token.delimiter = [] → Takes [token] text text []

/-- The split follows what its first token takes. -/
theorem ofTokens_of_takes {token : Token} (h : Takes (token :: tokens) text capture after) :
    ofTokens (token :: tokens) text = cons capture (ofTokens tokens after) := by
  cases h with
  | literal hd hdiv =>
    obtain ⟨found, hc, rfl⟩ := (divides_iff hd).1 hdiv
    rw [ofTokens, if_neg hd, hc]
  | nothing hd ht => rw [ofTokens, if_pos hd, if_neg ht]
  | remainder hd => simp [ofTokens, cons, hd]

/-- The split ends at a token whose literal is missing. -/
theorem ofTokens_of_missing {token : Token} (hd : token.delimiter ≠ [])
    (hm : ¬ token.delimiter <:+: text) :
    ofTokens (token :: tokens) text = ⟨[], some token.delimiter⟩ := by
  rw [ofTokens, if_neg hd, cut?_eq_none_iff.2 hm]

/-- A token takes something unless its literal is missing. -/
theorem exists_takes (token : Token) (tokens : List Token) (text : Text)
    (h : token.delimiter ≠ [] → token.delimiter <:+: text) :
    ∃ capture after, Takes (token :: tokens) text capture after := by
  by_cases hd : token.delimiter = []
  · by_cases ht : tokens = []
    · exact ⟨text, [], ht ▸ .remainder hd⟩
    · exact ⟨[], text, .nothing hd ht⟩
  · have hc : cut? token.delimiter text ≠ none := fun hn => cut?_eq_none_iff.1 hn (h hd)
    obtain ⟨⟨capture, found⟩, hc⟩ := Option.ne_none_iff_exists'.1 hc
    exact ⟨capture, _, .literal hd ((divides_iff hd).2 ⟨found, hc, rfl⟩)⟩

theorem Takes.unique {capture' after' : Text} (h : Takes tokens text capture after)
    (h' : Takes tokens text capture' after') : capture = capture' ∧ after = after' := by
  cases h with
  | literal hd hdiv =>
    cases h' with
    | literal _ hdiv' => exact hdiv.unique hd hdiv'
    | nothing hd' _ => contradiction
    | remainder hd' => contradiction
  | nothing hd ht =>
    cases h' with
    | literal hd' _ => contradiction
    | nothing _ _ => exact ⟨rfl, rfl⟩
    | remainder _ => contradiction
  | remainder hd =>
    cases h' with
    | literal hd' _ => contradiction
    | nothing _ ht => contradiction
    | remainder _ => exact ⟨rfl, rfl⟩

/-! ## Several tokens -/

/-- What the first tokens take from the front of a text, one after another, and what
they leave. -/
inductive Chain : List Token → Text → List Text → Text → Prop
  | done (tokens : List Token) (text : Text) : Chain tokens text [] text
  | next {token : Token} {tokens : List Token} {text capture after rest : Text}
      {captures : List Text} :
      Takes (token :: tokens) text capture after → Chain tokens after captures rest →
        Chain (token :: tokens) text (capture :: captures) rest

/-- A chain is determined by its length. -/
theorem Chain.unique {captures' : List Text} {rest' : Text}
    (h : Chain tokens text captures rest) (h' : Chain tokens text captures' rest')
    (hl : captures.length = captures'.length) : captures = captures' ∧ rest = rest' := by
  induction h generalizing captures' with
  | done =>
    cases h' with
    | done => exact ⟨rfl, rfl⟩
    | next => simp at hl
  | next ht _ ih =>
    cases h' with
    | done => simp at hl
    | next ht' hc' =>
      obtain ⟨rfl, rfl⟩ := ht.unique ht'
      obtain ⟨rfl, rfl⟩ := ih hc' (by simpa using hl)
      exact ⟨rfl, rfl⟩

/-- The split runs along every chain of the text and goes on behind it. -/
theorem ofTokens_of_chain (h : Chain tokens text captures rest) :
    ofTokens tokens text =
      { ofTokens (tokens.drop captures.length) rest with
        captures := captures ++ (ofTokens (tokens.drop captures.length) rest).captures } := by
  induction h with
  | done => rfl
  | next ht _ ih =>
    rw [ofTokens_of_takes ht, ih]
    rfl

/-- A chain through all tokens is the split. -/
theorem ofTokens_of_chain_all (h : Chain tokens text captures rest)
    (hl : captures.length = tokens.length) : ofTokens tokens text = ⟨captures, none⟩ := by
  rw [ofTokens_of_chain h, hl, List.drop_length, ofTokens, List.append_nil]

/-- A chain up to a token whose literal is missing is the split. -/
theorem ofTokens_of_chain_missing {token : Token} (h : Chain tokens text captures rest)
    (ht : tokens[captures.length]? = some token) (hd : token.delimiter ≠ [])
    (hm : ¬ token.delimiter <:+: rest) :
    ofTokens tokens text = ⟨captures, some token.delimiter⟩ := by
  obtain ⟨hlt, rfl⟩ := List.getElem?_eq_some_iff.1 ht
  rw [ofTokens_of_chain h, List.drop_eq_getElem_cons hlt, ofTokens_of_missing hd hm,
    List.append_nil]

/-- The captures of the split are a chain that ends with the tokens or in front of a
literal that is missing. -/
theorem exists_chain_ofTokens (tokens : List Token) (text : Text) :
    ∃ rest, Chain tokens text (ofTokens tokens text).captures rest ∧
      (((ofTokens tokens text).missing = none ∧
          (ofTokens tokens text).captures.length = tokens.length) ∨
        ∃ token, (ofTokens tokens text).missing = some token.delimiter ∧
          tokens[(ofTokens tokens text).captures.length]? = some token ∧
          token.delimiter ≠ [] ∧ ¬ token.delimiter <:+: rest) := by
  induction tokens generalizing text with
  | nil => exact ⟨text, .done _ _, .inl ⟨rfl, rfl⟩⟩
  | cons token tokens ih =>
    by_cases h : token.delimiter ≠ [] → token.delimiter <:+: text
    · obtain ⟨capture, after, ht⟩ := exists_takes token tokens text h
      obtain ⟨rest, hc, hend⟩ := ih after
      rw [ofTokens_of_takes ht]
      refine ⟨rest, .next ht hc, ?_⟩
      rcases hend with ⟨hn, hl⟩ | ⟨last, hmissing, hlast, hd, hm⟩
      · exact .inl ⟨hn, congrArg (· + 1) hl⟩
      · exact .inr ⟨last, hmissing, hlast, hd, hm⟩
    · obtain ⟨hd, hm⟩ := Classical.not_imp.1 h
      rw [ofTokens_of_missing hd hm]
      exact ⟨text, .done _ _, .inr ⟨token, rfl, rfl, hd, hm⟩⟩

end Split

namespace Pattern

open Split

/-! ## The leading literal -/

/-- Where the tokens of a pattern start in a text: behind the leading literal, if there
is one. -/
def Starts (p : Pattern) (text start : Text) : Prop :=
  (p.leading = [] → start = text) ∧
    (p.leading ≠ [] → ∃ before, Divides p.leading text before start)

theorem afterLeading?_eq_some_iff {p : Pattern} {text start : Text} :
    p.afterLeading? text = some start ↔ p.Starts text start := by
  rw [afterLeading?, Starts]
  by_cases h : p.leading = []
  · simp [h, eq_comm]
  · rw [if_neg h, Option.map_eq_some_iff]
    constructor
    · rintro ⟨⟨before, found⟩, hc, rfl⟩
      exact ⟨fun hn => absurd hn h, fun _ => ⟨before, (divides_iff h).2 ⟨found, hc, rfl⟩⟩⟩
    · rintro ⟨-, hs⟩
      obtain ⟨before, hd⟩ := hs h
      obtain ⟨found, hc, rfl⟩ := (divides_iff h).1 hd
      exact ⟨(before, found), hc, rfl⟩

theorem afterLeading?_eq_none_iff {p : Pattern} {text : Text} :
    p.afterLeading? text = none ↔ p.leading ≠ [] ∧ ¬ p.leading <:+: text := by
  rw [afterLeading?]
  by_cases h : p.leading = []
  · simp [h]
  · rw [if_neg h, Option.map_eq_none_iff, cut?_eq_none_iff]
    simp [h]

theorem Starts.unique {p : Pattern} {text start start' : Text} (h : p.Starts text start)
    (h' : p.Starts text start') : start = start' := by
  rw [← afterLeading?_eq_some_iff] at h h'
  exact Option.some.inj (h.symm.trans h')

/-! ## Patterns -/

/-- The captures that a pattern's first tokens take from a text, and what they leave. -/
def SplitsInto (p : Pattern) (text : Text) (captures : List Text) (rest : Text) : Prop :=
  ∃ start, p.Starts text start ∧ Chain p.tokens start captures rest

theorem SplitsInto.unique {p : Pattern} {text rest rest' : Text} {captures captures' : List Text}
    (h : p.SplitsInto text captures rest) (h' : p.SplitsInto text captures' rest')
    (hl : captures.length = captures'.length) : captures = captures' ∧ rest = rest' := by
  obtain ⟨start, hs, hc⟩ := h
  obtain ⟨start', hs', hc'⟩ := h'
  obtain rfl := hs.unique hs'
  exact hc.unique hc' hl

/-- What becomes of a text, said of its chains: the chain goes through all tokens, or
the leading literal is missing, or the chain goes up to a token whose literal is missing
in what is left.  The captures on the chain are written in their order. -/
inductive Dissects (p : Pattern) (text : Text) : Outcome → Prop
  | all {captures : List Text} {rest : Text} :
      p.SplitsInto text captures rest → captures.length = p.tokens.length →
        Dissects p text
          (.matched (p.extract captures).finalize (p.extract captures).unpaired.keys)
  | noLeading :
      p.leading ≠ [] → ¬ p.leading <:+: text →
        Dissects p text (.patternNotFound {} none p.leading)
  | noDelimiter {captures : List Text} {rest : Text} {token : Token} :
      p.SplitsInto text captures rest → p.tokens[captures.length]? = some token →
        token.delimiter ≠ [] → ¬ token.delimiter <:+: rest →
        Dissects p text
          (.patternNotFound (p.extract captures).finalize (some captures.length) token.delimiter)

theorem dissects_dissect (p : Pattern) (text : Text) : p.Dissects text (p.dissect text) := by
  rw [dissect_eq]
  cases hs : p.afterLeading? text with
  | none =>
    obtain ⟨hne, hm⟩ := afterLeading?_eq_none_iff.1 hs
    exact .noLeading hne hm
  | some start =>
    have hstart := afterLeading?_eq_some_iff.1 hs
    obtain ⟨rest, hc, ⟨hn, hl⟩ | ⟨token, hmissing, ht, hd, hm⟩⟩ :=
      exists_chain_ofTokens p.tokens start
    · simp only [hn]
      exact .all ⟨start, hstart, hc⟩ hl
    · simp only [hmissing]
      exact .noDelimiter ⟨start, hstart, hc⟩ ht hd hm

theorem dissect_of_dissects {p : Pattern} {text : Text} {outcome : Outcome}
    (h : p.Dissects text outcome) : p.dissect text = outcome := by
  rw [dissect_eq]
  cases h with
  | all h hl =>
    obtain ⟨start, hs, hc⟩ := h
    rw [afterLeading?_eq_some_iff.2 hs]
    simp only [ofTokens_of_chain_all hc hl]
  | noLeading hne hm => rw [afterLeading?_eq_none_iff.2 ⟨hne, hm⟩]
  | noDelimiter h ht hd hm =>
    obtain ⟨start, hs, hc⟩ := h
    rw [afterLeading?_eq_some_iff.2 hs]
    simp only [ofTokens_of_chain_missing hc ht hd hm]

/-- Dissecting yields what the chains of the text say, and those are determined by their
lengths. -/
theorem dissect_iff_dissects (p : Pattern) (text : Text) :
    (∀ outcome, p.dissect text = outcome ↔ p.Dissects text outcome) ∧
      ∀ captures captures' rest rest', p.SplitsInto text captures rest →
        p.SplitsInto text captures' rest' → captures.length = captures'.length →
          captures = captures' ∧ rest = rest' := by
  constructor
  · intro outcome
    constructor
    · rintro rfl
      exact dissects_dissect p text
    · exact dissect_of_dissects
  · intro captures captures' rest rest' h h' hl
    exact h.unique h' hl

end Pattern

end Dissection
