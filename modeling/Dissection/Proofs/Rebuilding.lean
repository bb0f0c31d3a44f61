import Dissection.Proofs.Captures
import Dissection.Proofs.Grammar
import Dissection.Proofs.Slots

/-!
# Rebuilding a text from its pieces

A pattern that takes the words of a text one after another, all into one field, puts the text
together again: each blank of the pattern takes a whole run of blanks, and between two pieces
there is one blank.  So the text comes back with its first runs of blanks squeezed, and the
last piece brings the rest along.  If the text has too few runs, the word behind the last one
is not captured.

## Main definitions

* `Text.Spaced` — a text taken apart at its runs of blanks.
* `Text.squeeze` — the first runs of a text, each replaced by one blank.
* `Text.cuts` — the words in front of the first runs, and the rest.
* `Rebuilding.written`, `Rebuilding.pattern` — the pattern that puts a number of pieces together.

## Main statements

* `Text.Spaced.unique`, `Text.exists_spaced` — each text is taken apart in one way.
* `Text.intercalate_cuts` — the cuts put together are the text with its first runs squeezed.
* `Rebuilding.chain_row`, `Rebuilding.exists_chain_row` — the pattern makes the cuts.
* `Rebuilding.dissect_written` — what becomes of a text.
-/

namespace Dissection

namespace Text

/-! ## Runs of blanks -/

/-- A run of blanks with the word behind it. -/
structure Gap where
  /-- The blanks of the run besides the first. -/
  extra : Nat
  word : Text
  deriving DecidableEq, Repr

/-- A run and its word, written out. -/
def Gap.text (gap : Gap) : Text := List.replicate (gap.extra + 1) ' ' ++ gap.word

/-- A word with runs and words behind it, written out. -/
def spread (first : Text) (gaps : List Gap) : Text := first ++ gaps.flatMap Gap.text

/-- A text taken apart at its runs of blanks.  The words hold no blank and two runs do not
touch, so the runs are as long as they can be. -/
structure Spaced (text first : Text) (gaps : List Gap) : Prop where
  eq_spread : text = spread first gaps
  first_free : ' ' ∉ first
  word_free : ∀ gap ∈ gaps, ' ' ∉ gap.word
  /-- Only behind the last run there may be nothing. -/
  apart : ∀ gap ∈ gaps.dropLast, gap.word ≠ []

/-- The first runs replaced by one blank each. -/
def squeeze : Nat → List Gap → List Gap
  | 0, gaps => gaps
  | _ + 1, [] => []
  | runs + 1, gap :: gaps => ⟨0, gap.word⟩ :: squeeze runs gaps

variable {text first first' : Text} {gap : Gap} {gaps gaps' : List Gap}

@[simp] theorem spread_nil (first : Text) : spread first [] = first := by simp [spread]

theorem spread_cons (first : Text) (gap : Gap) (gaps : List Gap) :
    spread first (gap :: gaps) =
      first ++ List.replicate (gap.extra + 1) ' ' ++ spread gap.word gaps := by
  simp [spread, Gap.text]

theorem apart_cons_iff : (∀ other ∈ (gap :: gaps).dropLast, other.word ≠ []) ↔
    (gaps ≠ [] → gap.word ≠ []) ∧ ∀ other ∈ gaps.dropLast, other.word ≠ [] := by
  cases gaps with
  | nil => simp
  | cons second gaps => simp [List.dropLast_cons_cons]

/-- Behind the first run a text is taken apart as before. -/
theorem Spaced.tail (h : Spaced text first (gap :: gaps)) :
    Spaced (spread gap.word gaps) gap.word gaps := by
  obtain ⟨hword, hwords⟩ := List.forall_mem_cons.1 h.word_free
  exact ⟨rfl, hword, hwords, (apart_cons_iff.1 h.apart).2⟩

/-- Behind a run there is no blank. -/
theorem Spaced.not_prefix (h : Spaced text first (gap :: gaps)) :
    ¬ [' '] <+: spread gap.word gaps := by
  cases hword : gap.word with
  | cons c word =>
    have hc : ' ' ≠ c := by
      rintro rfl
      exact h.word_free gap List.mem_cons_self (hword ▸ List.mem_cons_self)
    simp [spread, List.cons_prefix_cons, hc]
  | nil =>
    cases gaps with
    | nil => simp
    | cons second gaps =>
      exact absurd hword ((apart_cons_iff.1 h.apart).1 (List.cons_ne_nil _ _))

/-- The first run divides the text. -/
theorem Spaced.divides (h : Spaced text first (gap :: gaps)) :
    Divides [' '] text first (spread gap.word gaps) where
  copies := ⟨gap.extra, by rw [h.eq_spread, spread_cons, List.flatten_replicate_singleton]⟩
  leftmost := by
    intro i hi hp
    rw [h.eq_spread, spread_cons, List.append_assoc, List.drop_append_of_le_length hi.le,
      List.drop_eq_getElem_cons hi, List.cons_append, List.cons_prefix_cons] at hp
    exact h.first_free (hp.1 ▸ List.getElem_mem hi)
  stops := h.not_prefix

theorem Spaced.blank_mem_iff (h : Spaced text first gaps) : ' ' ∈ text ↔ gaps ≠ [] := by
  rw [h.eq_spread]
  cases gaps with
  | nil => simp [h.first_free]
  | cons gap gaps => simp [spread_cons]

/-- A text is taken apart in one way. -/
theorem Spaced.unique (h : Spaced text first gaps) (h' : Spaced text first' gaps') :
    first = first' ∧ gaps = gaps' := by
  induction gaps generalizing text first first' gaps' with
  | nil =>
    obtain rfl : gaps' = [] := by
      by_contra hne
      exact h.blank_mem_iff.1 (h'.blank_mem_iff.2 hne) rfl
    have hfirst := h.eq_spread.symm.trans h'.eq_spread
    rw [spread_nil, spread_nil] at hfirst
    exact ⟨hfirst, rfl⟩
  | cons gap gaps ih =>
    cases gaps' with
    | nil => exact absurd rfl (h'.blank_mem_iff.1 (h.blank_mem_iff.2 (List.cons_ne_nil _ _)))
    | cons gap' gaps' =>
      obtain ⟨rfl, hrest⟩ := h.divides.unique (List.cons_ne_nil _ _) h'.divides
      obtain ⟨hword, rfl⟩ := ih h.tail (hrest ▸ h'.tail)
      have hextra : gap.extra = gap'.extra := by
        have hlength := congrArg List.length (h.eq_spread.symm.trans h'.eq_spread)
        rw [spread_cons, spread_cons, hrest] at hlength
        simpa using hlength
      obtain ⟨extra, word⟩ := gap
      obtain rfl : extra = gap'.extra := hextra
      obtain rfl : word = gap'.word := hword
      exact ⟨rfl, rfl⟩

/-- Every text can be taken apart. -/
theorem exists_spaced (text : Text) : ∃ first gaps, Spaced text first gaps := by
  induction text with
  | nil => exact ⟨[], [], by simp, by simp, by simp, by simp⟩
  | cons c text ih =>
    obtain ⟨first, gaps, h⟩ := ih
    by_cases hc : c = ' '
    · subst hc
      by_cases hone : first = [] ∧ gaps ≠ []
      · -- the blank makes the run longer that the text starts with
        obtain ⟨rfl, hne⟩ := hone
        obtain ⟨⟨extra, word⟩, gaps, rfl⟩ := List.exists_cons_of_ne_nil hne
        refine ⟨[], ⟨extra + 1, word⟩ :: gaps, ?_, by simp, ?_, ?_⟩
        · rw [h.eq_spread, spread_cons, spread_cons]
          rfl
        · exact List.forall_mem_cons.2 (List.forall_mem_cons.1 h.word_free)
        · have hapart := apart_cons_iff.1 h.apart
          exact apart_cons_iff.2 hapart
      · -- the blank is a run of its own
        refine ⟨[], ⟨0, first⟩ :: gaps, ?_, by simp, ?_, ?_⟩
        · rw [h.eq_spread, spread_cons]
          rfl
        · exact List.forall_mem_cons.2 ⟨h.first_free, h.word_free⟩
        · exact apart_cons_iff.2 ⟨fun hne hfirst => hone ⟨hfirst, hne⟩, h.apart⟩
    · refine ⟨c :: first, gaps, ?_, ?_, h.word_free, h.apart⟩
      · rw [h.eq_spread]
        rfl
      · simp [Ne.symm hc, h.first_free]

/-! ## Cuts at the first runs -/

/-- The words in front of the first runs, and behind as many runs as are asked for all that is
left.  The word behind the last run is missing if more are asked for. -/
def cuts : Nat → Text → List Gap → List Text
  | 0, first, gaps => [spread first gaps]
  | _ + 1, _, [] => []
  | runs + 1, first, gap :: gaps => first :: cuts runs gap.word gaps

theorem length_cuts {runs : Nat} (h : runs ≤ gaps.length) :
    (cuts runs first gaps).length = runs + 1 := by
  induction runs generalizing first gaps with
  | zero => rfl
  | succ runs ih =>
    cases gaps with
    | nil => simp at h
    | cons gap gaps => exact congrArg (· + 1) (ih (by simpa using h))

theorem length_cuts_of_lt {runs : Nat} (h : gaps.length < runs) :
    (cuts runs first gaps).length = gaps.length := by
  induction runs generalizing first gaps with
  | zero => simp at h
  | succ runs ih =>
    cases gaps with
    | nil => rfl
    | cons gap gaps => exact congrArg (· + 1) (ih (by simpa using h))

/-- With a blank between neighbours the cuts are the text with its first runs squeezed. -/
theorem intercalate_cuts {runs : Nat} (h : runs ≤ gaps.length) :
    [' '].intercalate (cuts runs first gaps) = spread first (squeeze runs gaps) := by
  induction runs generalizing first gaps with
  | zero => simp [cuts, squeeze]
  | succ runs ih =>
    cases gaps with
    | nil => simp at h
    | cons gap gaps =>
      have hle : runs ≤ gaps.length := by simpa using h
      have hrest : [' '].intercalate (cuts runs gap.word gaps) =
          spread gap.word (squeeze runs gaps) := ih hle
      have hne : cuts runs gap.word gaps ≠ [] := by
        rw [← List.length_pos_iff, length_cuts hle]
        omega
      rw [cuts, squeeze, List.intercalate_cons_of_ne_nil hne, hrest, spread_cons]
      rfl

/-- A run in front of the first word is cut as any other, and one behind the last word may be
part of the rest. -/
example : [' '].intercalate (cuts 2 "" [⟨1, "a"⟩, ⟨0, "b"⟩, ⟨2, ""⟩]) = " a b   ".toList := by
  decide

/-- Without enough runs the cuts are those of the text in front of the last run. -/
theorem cuts_of_lt {runs : Nat} (h : gaps.length < runs) (hne : gaps ≠ []) :
    cuts runs first gaps = cuts (gaps.length - 1) first gaps.dropLast := by
  induction gaps generalizing runs first with
  | nil => contradiction
  | cons gap gaps ih =>
    obtain ⟨runs, rfl⟩ := Nat.exists_eq_succ_of_ne_zero (Nat.ne_zero_of_lt h)
    have hlt : gaps.length < runs := by simpa using h
    cases gaps with
    | nil =>
      obtain ⟨runs, rfl⟩ := Nat.exists_eq_succ_of_ne_zero (Nat.ne_zero_of_lt hlt)
      exact congrArg (fun word => [word]) (spread_nil first).symm
    | cons second gaps => exact congrArg (first :: ·) (ih hlt (List.cons_ne_nil _ _))

end Text

namespace Pattern

/-! ## One field -/

/-- Where all captures are saved under one name, there is one field. -/
theorem eraseDups_savedNames {pairs : List (Token × Text)} {name : Text} (hne : pairs ≠ [])
    (hname : underName name pairs = pairs) : (savedNames pairs).eraseDups = [name] := by
  have hall : ∀ other ∈ savedNames pairs, other = name := by
    intro other hother
    obtain ⟨pair, hpair, rfl⟩ := List.mem_map.1 hother
    have hunder := List.filter_eq_self.1 hname pair (List.mem_filter.1 hpair).1
    simp only [Bool.and_eq_true, decide_eq_true_eq] at hunder
    exact hunder.2
  have hsome : savedNames pairs ≠ [] := List.ne_nil_of_mem (mem_savedNames.2 (hname ▸ hne))
  obtain ⟨first, others, hnames⟩ := List.exists_cons_of_ne_nil hsome
  rw [hnames] at hall ⊢
  obtain ⟨rfl, hothers⟩ := List.forall_mem_cons.1 hall
  rw [List.eraseDups_cons, List.filter_eq_nil_iff.2 fun other h => by simp [hothers other h]]
  rfl

/-- Captures under one name that ask for no slot make a field with a blank between neighbours,
if the field is put together from pieces or there is only one. -/
theorem render_held {appendNames : List Text} {pairs : List (Token × Text)} {name : Text}
    (hne : pairs ≠ []) (hname : underName name pairs = pairs)
    (hloose : ∀ pair ∈ pairs, pair.1.placeholder.modifier.slot? = none)
    (happend : name ∈ appendNames ∨ pairs.length = 1) :
    (held appendNames pairs name).map Capture.render =
      some ([' '].intercalate (pairs.map Prod.snd)) := by
  rw [held, hname]
  by_cases hmem : name ∈ appendNames
  · have hslots : ∀ piece ∈ piecesUnder name pairs, piece.slot = none := by
      rw [piecesUnder, hname]
      refine List.forall_mem_map.2 fun pair hpair => ?_
      simp [hloose pair hpair]
    rw [if_pos hmem, if_neg hne, Option.map_some, Capture.render, Pieces.render,
      Pieces.ordered_of_loose hslots, text_piecesUnder, hname]
  · obtain ⟨pair, rfl⟩ := List.length_eq_one_iff.1 (happend.resolve_left hmem)
    rw [if_neg hmem]
    simp [Capture.render]

end Pattern

namespace Rebuilding

open Pattern Split Text

variable {text first : Text} {gaps : List Gap} {target : Placeholder} {token : Token} {more : Nat}

/-! ## The pattern -/

/-- The placeholders for later words, a blank in front of each. -/
def pieces (more : Nat) : Text := (List.replicate more " %\x7b+all\x7d".toList).flatten

/-- The text of a pattern that takes a word, and a number of words more, into one field. -/
def written (more : Nat) : Text := "%\x7ball\x7d".toList ++ pieces more

/-- The placeholder for the first word. -/
def whole : Placeholder := ⟨"all", .normal, "all"⟩

/-- The placeholder for a later word. -/
def piece : Placeholder := ⟨"all", .append, "+all"⟩

/-- The tokens for a word and a number of words more, a blank between neighbours. -/
def row : Placeholder → Nat → List Token
  | target, 0 => [⟨target, []⟩]
  | target, more + 1 => ⟨target, [' ']⟩ :: row piece more

/-- The pattern of the tokens for words. -/
def pattern (more : Nat) : Pattern := ⟨[], row whole more⟩

@[simp] theorem length_row (target : Placeholder) (more : Nat) :
    (row target more).length = more + 1 := by
  induction more generalizing target with
  | zero => rfl
  | succ more ih => exact congrArg (· + 1) (ih piece)

theorem of_mem_row (h : token ∈ row target more) :
    (token.placeholder = target ∨ token.placeholder = piece) ∧
      (token.delimiter = [] ∨ token.delimiter = [' ']) := by
  induction more generalizing target with
  | zero =>
    obtain rfl := List.mem_singleton.1 h
    exact ⟨.inl rfl, .inl rfl⟩
  | succ more ih =>
    rcases List.mem_cons.1 h with rfl | h
    · exact ⟨.inl rfl, .inr rfl⟩
    · exact ⟨.inr (or_self_iff.1 (ih h).1), (ih h).2⟩

theorem exists_mem_row (target : Placeholder) (more : Nat) :
    ∃ token ∈ row target more, token.placeholder = target := by
  cases more with
  | zero => exact ⟨_, List.mem_cons_self, rfl⟩
  | succ more => exact ⟨_, List.mem_cons_self, rfl⟩

theorem gluedParts_row (target : Placeholder) (more : Nat) :
    gluedParts ((row target more).map partOf) =
      opening ++ target.raw ++ closing ++ pieces more := by
  induction more generalizing target with
  | zero => simp [row, partOf, gluedParts, pieces]
  | succ more ih =>
    rw [row, List.map_cons, partOf, gluedParts_cons, ih, pieces, pieces, List.replicate_succ,
      List.flatten_cons]
    simp [opening, closing, piece]

/-- The text is that of the pattern. -/
theorem compile_written (more : Nat) : compile (written more) = .ok (pattern more) := by
  rw [compile_eq_ok_iff]
  have hraw : (¬ closing <:+: whole.raw) ∧ ¬ closing <:+: piece.raw := by decide
  have hdelimiter : (¬ opening <:+: ([] : Text)) ∧ ¬ opening <:+: [' '] := by decide
  have hparse : Placeholder.parse whole.raw = .ok whole ∧
      Placeholder.parse piece.raw = .ok piece := by decide
  refine ⟨⟨?_, hdelimiter.1, ?_, ?_⟩, ?_⟩
  · rw [glued, pattern, gluedParts_row]
    rfl
  · refine List.forall_mem_map.2 fun token h => ?_
    rw [partOf]
    rcases (of_mem_row h).1 with h | h <;> rw [h]
    exacts [hraw.1, hraw.2]
  · refine List.forall_mem_map.2 fun token h => ?_
    rw [partOf]
    rcases (of_mem_row h).2 with h | h <;> rw [h]
    exacts [hdelimiter.1, hdelimiter.2]
  · intro token h
    rcases (of_mem_row h).1 with h | h <;> rw [h]
    exacts [hparse.1, hparse.2]

/-! ## The split of a text -/

/-- The pattern cuts a text with enough runs at the first of them. -/
theorem chain_row (h : Spaced text first gaps) (hle : more ≤ gaps.length) :
    Chain (row target more) text (cuts more first gaps) [] := by
  induction more generalizing target text first gaps with
  | zero =>
    rw [h.eq_spread]
    exact .next (.remainder rfl) (.done [] [])
  | succ more ih =>
    cases gaps with
    | nil => simp at hle
    | cons gap gaps =>
      exact .next (.literal (List.cons_ne_nil _ _) h.divides) (ih h.tail (by simpa using hle))

/-- Otherwise it cuts the text at all runs and looks for one more in the last word. -/
theorem exists_chain_row (target : Placeholder) (h : Spaced text first gaps)
    (hlt : gaps.length < more) :
    ∃ rest, Chain (row target more) text (cuts more first gaps) rest ∧ ' ' ∉ rest := by
  induction more generalizing target text first gaps with
  | zero => simp at hlt
  | succ more ih =>
    cases gaps with
    | nil => exact ⟨text, .done _ _, fun hmem => h.blank_mem_iff.1 hmem rfl⟩
    | cons gap gaps =>
      obtain ⟨rest, hchain, hfree⟩ := ih piece h.tail (by simpa using hlt)
      exact ⟨rest, .next (.literal (List.cons_ne_nil _ _) h.divides) hchain, hfree⟩

/-- All tokens but the last are ended by a blank. -/
theorem exists_getElem?_row {m : Nat} (target : Placeholder) (h : m < more) :
    ∃ token, (row target more)[m]? = some token ∧ token.delimiter = [' '] := by
  induction more generalizing target m with
  | zero => simp at h
  | succ more ih =>
    cases m with
    | zero => exact ⟨_, rfl, rfl⟩
    | succ m => exact ih piece (by simpa using h)

/-! ## The field -/

theorem mem_appendNames_pattern : piece.name ∈ (pattern more).appendNames ↔ more ≠ 0 := by
  cases more with
  | zero => decide
  | succ more =>
    obtain ⟨token, htoken, hpiece⟩ := exists_mem_row piece more
    have happend : token.placeholder.modifier.isAppend = true := by rw [hpiece]; rfl
    have hmem : token ∈ (pattern (more + 1)).tokens := List.mem_cons_of_mem _ htoken
    refine iff_of_true ?_ (Nat.succ_ne_zero more)
    exact List.mem_map.2 ⟨token, List.mem_filter.2 ⟨hmem, happend⟩, by rw [hpiece]⟩

/-- The captures of words are one field, with a blank between neighbours. -/
theorem entries_extract_pattern {captures : List Text} (hne : captures ≠ [])
    (hle : captures.length ≤ more + 1) :
    ((pattern more).extract captures).finalize.entries =
      [(piece.name, [' '].intercalate captures)] := by
  have hkind : ∀ token ∈ (pattern more).tokens, token.placeholder.name = piece.name ∧
      token.placeholder.modifier.isSaved = true ∧
      token.placeholder.modifier.isIndirect = false ∧
      token.placeholder.modifier.slot? = none := by
    intro token htoken
    rcases (of_mem_row htoken).1 with h | h <;> rw [h] <;> decide
  have hgathered := gathered_extract (pattern more) captures fun token h => (hkind token h).2.2.1
  have hsnd : ((pattern more).tokens.zip captures).map Prod.snd = captures :=
    List.map_snd_zip (by simpa [pattern] using hle)
  have hpairs : (pattern more).tokens.zip captures ≠ [] := by
    intro hnil
    rw [hnil] at hsnd
    exact hne hsnd.symm
  have hname : underName piece.name ((pattern more).tokens.zip captures) =
      (pattern more).tokens.zip captures := by
    refine List.filter_eq_self.2 fun pair hpair => ?_
    obtain ⟨hname, hsaved, -⟩ := hkind pair.1 (List.of_mem_zip hpair).1
    simp [hname, hsaved]
  refine Table.entries_eq_singleton ?_ ?_
  · rw [Extraction.finalize, Table.keys_map, hgathered.keys, eraseDups_savedNames hpairs hname]
  · rw [Extraction.finalize, Table.get?_map, hgathered.held, render_held hpairs hname, hsnd]
    · intro pair hpair
      exact (hkind pair.1 (List.of_mem_zip hpair).1).2.2.2
    · rw [mem_appendNames_pattern]
      refine or_iff_not_imp_left.2 fun hmore => ?_
      have hpos := List.length_pos_iff.2 hne
      rw [← List.length_map Prod.snd, hsnd]
      omega

/-! ## What becomes of a text -/

theorem unpairedTags_pattern (more : Nat) : (pattern more).unpairedTags = [] := by
  have htags : (pattern more).tagsOf .value = [] := by
    refine List.filterMap_eq_nil_iff.2 fun token htoken => ?_
    rcases (of_mem_row htoken).1 with h | h <;> rw [h] <;> rfl
  rw [unpairedTags, htags]
  rfl

theorem starts_pattern (more : Nat) (text : Text) : (pattern more).Starts text text :=
  ⟨fun _ => rfl, fun h => absurd rfl h⟩

/-- A text with enough runs is put together again with the first of them squeezed. -/
theorem dissect_pattern (h : Spaced text first gaps) (hle : more ≤ gaps.length) :
    ∃ values, (pattern more).dissect text = .matched values [] ∧
      values.entries = [("all".toList, spread first (squeeze more gaps))] := by
  have hlength : (cuts more first gaps).length = more + 1 := length_cuts hle
  have hne : cuts more first gaps ≠ [] := List.length_pos_iff.1 (by omega)
  have hsplit : (pattern more).SplitsInto text (cuts more first gaps) [] :=
    ⟨text, starts_pattern more text, chain_row h hle⟩
  have hdissect := dissect_of_dissects (.all hsplit (hlength.trans (length_row whole more).symm))
  have hmatched : ((pattern more).dissect text).isMatched = true := by rw [hdissect]; rfl
  have horphans := orphans_of_dissect hmatched
  rw [hdissect, unpairedTags_pattern] at horphans
  refine ⟨_, hdissect.trans (congrArg _ horphans), ?_⟩
  rw [← intercalate_cuts hle]
  exact entries_extract_pattern hne hlength.le

/-- A text without enough runs is put together up to the last of them. -/
theorem dissect_pattern_of_lt (h : Spaced text first gaps) (hlt : gaps.length < more) :
    ∃ values, (pattern more).dissect text = .patternNotFound values (some gaps.length) [' '] ∧
      (gaps = [] → values.entries = []) ∧
      (gaps ≠ [] →
        values.entries =
          [("all".toList, spread first (squeeze (gaps.length - 1) gaps.dropLast))]) := by
  have hlength : (cuts more first gaps).length = gaps.length := length_cuts_of_lt hlt
  obtain ⟨rest, hchain, hfree⟩ := exists_chain_row whole h hlt
  obtain ⟨token, htoken, hdelimiter⟩ := exists_getElem?_row whole hlt
  have hmissing : ¬ token.delimiter <:+: rest := by
    rw [hdelimiter, List.singleton_infix_iff]
    exact hfree
  have hsplit : (pattern more).SplitsInto text (cuts more first gaps) rest :=
    ⟨text, starts_pattern more text, hchain⟩
  have hdissect := dissect_of_dissects
    (.noDelimiter hsplit (hlength ▸ htoken) (by simp [hdelimiter]) hmissing)
  rw [hlength, hdelimiter] at hdissect
  refine ⟨_, hdissect, ?_, ?_⟩
  · rintro rfl
    rw [List.eq_nil_of_length_eq_zero hlength, extract, extractWith, List.zip_nil_right]
    rfl
  · intro hne
    have hcuts : cuts more first gaps ≠ [] := by
      rw [← List.length_pos_iff, hlength]
      exact List.length_pos_iff.2 hne
    have hdropLast : gaps.length - 1 ≤ gaps.dropLast.length := by simp
    rw [← intercalate_cuts hdropLast, ← cuts_of_lt hlt hne]
    exact entries_extract_pattern hcuts (by omega)

/-- A text is taken apart at its runs of blanks in one way.  The pattern that puts `more + 1`
pieces together is compiled.  A text with `more` runs or more it matches, and the only field is
the text with a blank for each of its first `more` runs.  Otherwise the token is reported whose
position is the number of runs, and there is no field if there is no run; else the only field
is the text in front of the last run with a blank for each run before. -/
theorem dissect_written (more : Nat) :
    (∀ text, ∃ first gaps, Spaced text first gaps ∧
        ∀ first' gaps', Spaced text first' gaps' → first' = first ∧ gaps' = gaps) ∧
      ∃ p, compile (written more) = .ok p ∧
        ∀ text first gaps, Spaced text first gaps →
          (more ≤ gaps.length → ∃ values, p.dissect text = .matched values [] ∧
            values.entries = [("all".toList, spread first (squeeze more gaps))]) ∧
          (gaps.length < more →
            ∃ values, p.dissect text = .patternNotFound values (some gaps.length) [' '] ∧
              (gaps = [] → values.entries = []) ∧
              (gaps ≠ [] → values.entries =
                [("all".toList, spread first (squeeze (gaps.length - 1) gaps.dropLast))])) := by
  refine ⟨fun text => ?_, pattern more, compile_written more, fun text first gaps h => ?_⟩
  · obtain ⟨first, gaps, h⟩ := exists_spaced text
    exact ⟨first, gaps, h, fun first' gaps' h' => h'.unique h⟩
  · exact ⟨dissect_pattern h, dissect_pattern_of_lt h⟩

end Rebuilding

end Dissection
