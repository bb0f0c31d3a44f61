import Dissection.Proofs.Chain
import Dissection.Proofs.Table
import Mathlib.Data.List.Induction

/-!
# The fields that captures yield

A pattern without indirect tokens names its fields itself, so what is captured for a
field can be read off the tokens.  A field that some append token of the pattern
names is put together from all captures under its name, those of plain tokens
included; the append token counts wherever it stands, even behind the token at which
the split ended.  Any other field is the last capture under its name.

The invariant says what has been gathered from the tokens so far.  Each capture keeps it,
and after the last capture it says what the fields are.

## Main definitions

* `Pattern.captures`, `Pattern.taken` — the captures of a pattern's tokens from a text.
* `Pattern.underName` — the captures under a name, with their tokens.
* `Pattern.Gathered` — what has been gathered from captures.

## Main statements

* `Pattern.Gathered.assign` — a capture is gathered with those before it.
* `values_of_direct` — the values of a pattern without indirect tokens.
-/

namespace Dissection

open Text

/-! ## First occurrences -/

theorem eraseDups_concat (names : List Text) (name : Text) :
    (names ++ [name]).eraseDups =
      if name ∈ names then names.eraseDups else names.eraseDups ++ [name] := by
  rw [List.eraseDups_append]
  by_cases h : name ∈ names
  · simp [h, List.removeAll]
  · simp [h, List.removeAll, List.eraseDups_cons]

/-! ## Pieces -/

namespace Pieces

theorem snd_seatFrom (slots : List Int) (free : Nat) (pieces : List Piece) :
    (seatFrom slots free pieces).map Prod.snd = pieces.map (·.text) := by
  induction pieces generalizing free with
  | nil => rfl
  | cons piece pieces ih =>
    obtain ⟨slot, text⟩ := piece
    cases slot with
    | none => exact congrArg (text :: ·) (ih _)
    | some slot => exact congrArg (text :: ·) (ih _)

/-- A field shows each of its pieces once. -/
theorem perm_ordered (pieces : List Piece) :
    (ordered pieces).Perm (pieces.map (·.text)) := by
  rw [← snd_seatFrom (taken pieces) 0]
  exact (List.mergeSort_perm _ _).map Prod.snd

end Pieces

namespace Pattern

/-! ## Names -/

/-- The names that a pattern has for its fields are the first occurrences among the names
of its direct tokens. -/
theorem fieldNames_eq (p : Pattern) :
    p.fieldNames = ((p.tokens.filter fun token => token.placeholder.modifier.isSaved &&
      !token.placeholder.modifier.isIndirect).map (·.placeholder.name)).eraseDups := by
  rw [fieldNames]
  generalize (p.tokens.filter _).map _ = names
  induction names using List.reverseRecOn with
  | nil => rfl
  | append_singleton names name ih =>
    rw [List.foldl_append, ih, eraseDups_concat]
    simp only [List.foldl_cons, List.foldl_nil, List.mem_eraseDups]

/-! ## Captures and their tokens -/

/-- The captures of a pattern's first tokens from a text: of all tokens, or of those
before the one whose literal is missing. -/
def captures (p : Pattern) (text : Text) : List Text :=
  match p.afterLeading? text with
  | none => []
  | some start => (Split.ofTokens p.tokens start).captures

/-- The tokens that captured something from a text, with their captures. -/
def taken (p : Pattern) (text : Text) : List (Token × Text) := p.tokens.zip (p.captures text)

/-- The names under which captures are saved. -/
def savedNames (pairs : List (Token × Text)) : List Text :=
  (pairs.filter (·.1.placeholder.modifier.isSaved)).map (·.1.placeholder.name)

/-- The captures under a name, with their tokens. -/
def underName (name : Text) (pairs : List (Token × Text)) : List (Token × Text) :=
  pairs.filter fun pair =>
    pair.1.placeholder.modifier.isSaved && pair.1.placeholder.name = name

/-- The captures under a name as pieces, each at the slot that its token asks for. -/
def piecesUnder (name : Text) (pairs : List (Token × Text)) : List Piece :=
  (underName name pairs).map fun pair =>
    ⟨pair.1.placeholder.modifier.slot?.map fun slot => (slot : Int), pair.2⟩

theorem mem_savedNames {name : Text} {pairs : List (Token × Text)} :
    name ∈ savedNames pairs ↔ underName name pairs ≠ [] := by
  simp only [savedNames, underName, List.mem_map, List.mem_filter, ne_eq, List.filter_eq_nil_iff,
    Bool.and_eq_true, decide_eq_true_eq, not_forall, not_not]
  constructor
  · rintro ⟨pair, ⟨hp, hs⟩, hn⟩
    exact ⟨pair, hp, hs, hn⟩
  · rintro ⟨pair, hp, hs, hn⟩
    exact ⟨pair, ⟨hp, hs⟩, hn⟩

theorem underName_concat_self {pair : Token × Text} (pairs : List (Token × Text))
    (hs : pair.1.placeholder.modifier.isSaved = true) :
    underName pair.1.placeholder.name (pairs ++ [pair]) =
      underName pair.1.placeholder.name pairs ++ [pair] := by
  simp [underName, hs]

theorem underName_concat_other {name : Text} {pair : Token × Text} (pairs : List (Token × Text))
    (h : pair.1.placeholder.modifier.isSaved = true → pair.1.placeholder.name ≠ name) :
    underName name (pairs ++ [pair]) = underName name pairs := by
  rw [underName, List.filter_append, List.filter_cons_of_neg, List.filter_nil, List.append_nil,
    underName]
  simpa using h

theorem text_piecesUnder (name : Text) (pairs : List (Token × Text)) :
    (piecesUnder name pairs).map (·.text) = (underName name pairs).map Prod.snd := by
  simp [piecesUnder, Function.comp_def]

/-! ## Gathering captures -/

/-- What is held under a name after captures of direct tokens. -/
def held (appendNames : List Text) (pairs : List (Token × Text)) (name : Text) :
    Option Capture :=
  if name ∈ appendNames then
    if underName name pairs = [] then none else some (.parts (piecesUnder name pairs))
  else (underName name pairs).getLast?.map fun pair => .whole pair.2

/-- What has been gathered from captures of direct tokens. -/
structure Gathered (appendNames : List Text) (e : Extraction) (pairs : List (Token × Text)) :
    Prop where
  keys : e.fields.keys = (savedNames pairs).eraseDups
  held : ∀ name, e.fields.get? name = held appendNames pairs name

theorem Gathered.empty (appendNames : List Text) : Gathered appendNames .empty [] where
  keys := rfl
  held name := by simp [Pattern.held, underName, Extraction.empty]

/-- Writing a capture of a direct token: a piece of a field that append tokens name, the
value of any other field. -/
theorem assign_eq {appendNames : List Text} {target : Placeholder} (e : Extraction)
    (capture : Text) (hd : target.modifier.isIndirect = false)
    (ha : target.modifier.isAppend = true → target.name ∈ appendNames) :
    assign appendNames e target capture =
      if target.modifier = .skip then e
      else if target.name ∈ appendNames then
        e.append target.name capture (target.modifier.slot?.map fun slot => (slot : Int))
      else e.set target.name capture := by
  obtain ⟨name, modifier, raw⟩ := target
  cases modifier <;> simp_all [assign, Modifier.isIndirect, Modifier.isAppend, Modifier.slot?]

/-- What is held under a name depends on the captures under it alone. -/
theorem held_congr (appendNames : List Text) {pairs pairs' : List (Token × Text)} {name : Text}
    (h : underName name pairs = underName name pairs') :
    held appendNames pairs name = held appendNames pairs' name := by
  simp [held, piecesUnder, h]

/-- Writing what is to be held under the name of a saved capture gathers the capture. -/
theorem Gathered.put {appendNames : List Text} {e : Extraction} {pairs : List (Token × Text)}
    {pair : Token × Text} {content : Capture} (h : Gathered appendNames e pairs)
    (hs : pair.1.placeholder.modifier.isSaved = true)
    (hc : Pattern.held appendNames (pairs ++ [pair]) pair.1.placeholder.name = some content) :
    Gathered appendNames { e with fields := e.fields.put pair.1.placeholder.name content }
      (pairs ++ [pair]) where
  keys := by
    have hnames : savedNames (pairs ++ [pair]) = savedNames pairs ++ [pair.1.placeholder.name] := by
      simp [savedNames, hs]
    rw [hnames, eraseDups_concat, Table.keys_put, h.keys]
    simp only [List.mem_eraseDups]
  held := by
    intro name
    rw [Table.get?_put, h.held]
    by_cases hn : pair.1.placeholder.name = name
    · rw [← hn, hc]
      simp
    · rw [held_congr appendNames (underName_concat_other pairs fun _ => hn)]
      simp [hn]

/-- The pieces that are there before a capture is added. -/
theorem Gathered.pieces {appendNames : List Text} {e : Extraction} {pairs : List (Token × Text)}
    {name : Text} (h : Gathered appendNames e pairs) (hn : name ∈ appendNames) :
    ((e.fields.get? name).map Capture.toPieces).getD [] = piecesUnder name pairs := by
  rw [h.held, Pattern.held, if_pos hn]
  by_cases hu : underName name pairs = []
  · simp [hu, piecesUnder]
  · simp [hu, Capture.toPieces]

/-- A capture is gathered with those before it. -/
theorem Gathered.assign {appendNames : List Text} {e : Extraction} {pairs : List (Token × Text)}
    (h : Gathered appendNames e pairs) (pair : Token × Text)
    (hd : pair.1.placeholder.modifier.isIndirect = false)
    (ha : pair.1.placeholder.modifier.isAppend = true → pair.1.placeholder.name ∈ appendNames) :
    Gathered appendNames (assign appendNames e pair.1.placeholder pair.2) (pairs ++ [pair]) := by
  rw [assign_eq e pair.2 hd ha]
  by_cases hskip : pair.1.placeholder.modifier = .skip
  · rw [if_pos hskip]
    have hs : pair.1.placeholder.modifier.isSaved = false := by rw [hskip]; rfl
    constructor
    · rw [h.keys]
      simp [savedNames, hs]
    · intro name
      rw [h.held, held_congr appendNames (underName_concat_other pairs (by simp [hs]))]
  · have hs : pair.1.placeholder.modifier.isSaved = true := by simp [Modifier.isSaved, hskip]
    rw [if_neg hskip]
    by_cases hn : pair.1.placeholder.name ∈ appendNames
    · rw [if_pos hn, Extraction.append, h.pieces hn]
      refine h.put hs ?_
      rw [Pattern.held, if_pos hn, piecesUnder, piecesUnder, underName_concat_self pairs hs]
      simp
    · rw [if_neg hn, Extraction.set]
      refine h.put hs ?_
      rw [Pattern.held, if_neg hn, underName_concat_self pairs hs]
      simp

/-- After the last capture everything is gathered. -/
theorem gathered_foldl {appendNames : List Text} (pairs : List (Token × Text))
    (hd : ∀ pair ∈ pairs, pair.1.placeholder.modifier.isIndirect = false)
    (ha : ∀ pair ∈ pairs, pair.1.placeholder.modifier.isAppend = true →
      pair.1.placeholder.name ∈ appendNames) :
    Gathered appendNames
      (pairs.foldl (fun e (token, capture) => assign appendNames e token.placeholder capture)
        .empty) pairs := by
  induction pairs using List.reverseRecOn with
  | nil => exact .empty appendNames
  | append_singleton pairs pair ih =>
    rw [List.foldl_append]
    refine (ih ?_ ?_).assign pair (hd pair (by simp)) (ha pair (by simp))
    · intro other ho
      exact hd other (by simp [ho])
    · intro other ho
      exact ha other (by simp [ho])

theorem gathered_extract (p : Pattern) (captures : List Text)
    (hp : ∀ token ∈ p.tokens, token.placeholder.modifier.isIndirect = false) :
    Gathered p.appendNames (p.extract captures) (p.tokens.zip captures) := by
  refine gathered_foldl _ (fun pair h => hp pair.1 (List.of_mem_zip h).1) fun pair h ha => ?_
  exact List.mem_map_of_mem (List.mem_filter.2 ⟨(List.of_mem_zip h).1, ha⟩)

/-! ## Values -/

/-- Whatever becomes of a text, the values are what its captures yield. -/
theorem values_dissect (p : Pattern) (text : Text) :
    (p.dissect text).values = (p.extract (p.captures text)).finalize := by
  rw [dissect_eq, captures]
  cases p.afterLeading? text with
  | none => simp [extract, extractWith]; rfl
  | some start => cases h : (Split.ofTokens p.tokens start).missing <;> simp [h, Outcome.values]

/-- There is a capture for each token on a match, for each token before the one whose
literal is missing otherwise, and for none if the leading literal is missing. -/
theorem length_captures (p : Pattern) (text : Text) :
    (p.captures text).length =
      match p.dissect text with
      | .matched .. => p.tokens.length
      | .patternNotFound _ token _ => token.getD 0
      | .keyNotFound => 0 := by
  rw [dissect_eq, captures]
  cases p.afterLeading? text with
  | none => rfl
  | some start =>
    obtain ⟨rest, -, ⟨hn, hl⟩ | ⟨token, hmissing, -⟩⟩ :=
      Split.exists_chain_ofTokens p.tokens start
    · simp [hn, hl]
    · simp [hmissing]

/-- On a match every token has a capture. -/
theorem length_captures_of_isMatched {p : Pattern} {text : Text}
    (h : (p.dissect text).isMatched = true) : (p.captures text).length = p.tokens.length := by
  rw [length_captures]
  cases hd : p.dissect text with
  | matched => rfl
  | patternNotFound => simp [hd, Outcome.isMatched] at h
  | keyNotFound => simp [hd, Outcome.isMatched] at h

/-- On a match the names saved are the pattern's own. -/
theorem fieldNames_of_isMatched {p : Pattern} {text : Text}
    (hp : ∀ token ∈ p.tokens, token.placeholder.modifier.isIndirect = false)
    (h : (p.dissect text).isMatched = true) :
    p.fieldNames = (savedNames (p.taken text)).eraseDups := by
  have hfst : (p.taken text).map Prod.fst = p.tokens :=
    List.map_fst_zip (Nat.le_of_eq (length_captures_of_isMatched h).symm)
  have hsaved : savedNames (p.taken text) =
      (p.tokens.filter (·.placeholder.modifier.isSaved)).map (·.placeholder.name) := by
    rw [← hfst, List.filter_map, List.map_map]
    rfl
  rw [fieldNames_eq, hsaved]
  congr 2
  refine List.filter_congr fun token ht => ?_
  rw [hp token ht, Bool.not_false, Bool.and_true]

/-- Only fields that the pattern names itself are captured, if it has no indirect tokens. -/
theorem mem_fieldNames_of_mem_values {p : Pattern} {text name : Text}
    (hp : ∀ token ∈ p.tokens, token.placeholder.modifier.isIndirect = false)
    (h : name ∈ (p.dissect text).values.keys) : name ∈ p.fieldNames := by
  rw [values_dissect, Extraction.finalize, Table.keys_map, (gathered_extract p _ hp).keys,
    List.mem_eraseDups] at h
  obtain ⟨pair, hpair, rfl⟩ := List.mem_map.1 h
  obtain ⟨htaken, hsaved⟩ := List.mem_filter.1 hpair
  have htoken : pair.1 ∈ p.tokens := (List.of_mem_zip htaken).1
  rw [fieldNames_eq, List.mem_eraseDups]
  apply List.mem_map_of_mem
  simp [htoken, hsaved, hp]

/-- The values of a pattern without indirect tokens.  Their names are the first
occurrences of the saved names of the tokens that captured something, which are the
pattern's own names on a match.  A field that an append token of the pattern names is the
rendering of all captures under its name, none lost and none twice; any other field is
the last capture under its name. -/
theorem values_of_direct (p : Pattern) (text : Text)
    (hp : ∀ token ∈ p.tokens, token.placeholder.modifier.isIndirect = false) :
    ((p.captures text).length =
        match p.dissect text with
        | .matched .. => p.tokens.length
        | .patternNotFound _ token _ => token.getD 0
        | .keyNotFound => 0) ∧
      (p.dissect text).values.keys = (savedNames (p.taken text)).eraseDups ∧
      ((p.dissect text).isMatched = true → (p.dissect text).values.keys = p.fieldNames) ∧
      ∀ name ∈ (p.dissect text).values.keys,
        (name ∈ p.appendNames →
          (p.dissect text).values.get? name =
              some (Pieces.render (piecesUnder name (p.taken text))) ∧
            (Pieces.ordered (piecesUnder name (p.taken text))).Perm
              ((underName name (p.taken text)).map Prod.snd)) ∧
        (name ∉ p.appendNames →
          (p.dissect text).values.get? name =
            (underName name (p.taken text)).getLast?.map Prod.snd) := by
  have hg : Gathered p.appendNames (p.extract (p.captures text)) (p.taken text) :=
    gathered_extract p (p.captures text) hp
  have hkeys : (p.dissect text).values.keys = (savedNames (p.taken text)).eraseDups := by
    rw [values_dissect, Extraction.finalize, Table.keys_map, hg.keys]
  have hget : ∀ name, (p.dissect text).values.get? name =
      (held p.appendNames (p.taken text) name).map Capture.render := by
    intro name
    rw [values_dissect, Extraction.finalize, Table.get?_map, hg.held]
  refine ⟨length_captures p text, hkeys, ?_, ?_⟩
  · intro hm
    rw [hkeys, fieldNames_of_isMatched hp hm]
  · intro name hname
    have hsome : underName name (p.taken text) ≠ [] := by
      rw [hkeys, List.mem_eraseDups] at hname
      exact mem_savedNames.1 hname
    constructor
    · intro ha
      refine ⟨?_, ?_⟩
      · rw [hget, held, if_pos ha, if_neg hsome]
        rfl
      · rw [← text_piecesUnder]
        exact Pieces.perm_ordered _
    · intro ha
      rw [hget, held, if_neg ha, Option.map_map]
      rfl

/-- A pattern whose tokens share names in several ways. -/
def sharedNames : Pattern where
  leading := "<"
  tokens :=
    [⟨⟨"a", .normal, "a"⟩, " "⟩, ⟨⟨"a", .appendAt 0, "+a/0"⟩, " "⟩, ⟨⟨"", .skip, ""⟩, ","⟩,
      ⟨⟨"b", .normal, "b"⟩, ";"⟩, ⟨⟨"c", .normal, "c"⟩, ";"⟩, ⟨⟨"b", .normal, "b"⟩, " "⟩,
      ⟨⟨"c", .append, "+c"⟩, "|"⟩]

theorem values_of_direct_sharedNames :
    (∀ token ∈ sharedNames.tokens, token.placeholder.modifier.isIndirect = false) ∧
      (sharedNames.dissect "<x y  z,1;3;2 4").values.keys = ["a".toList, "b", "c"] ∧
      (sharedNames.dissect "<x y  z,1;3;2 4").values.get? "a" = some "y x".toList ∧
      (sharedNames.dissect "<x y  z,1;3;2 4").values.get? "b" = some "2".toList := by
  have hp : ∀ token ∈ sharedNames.tokens, token.placeholder.modifier.isIndirect = false := by
    decide
  have htaken : sharedNames.taken "<x y  z,1;3;2 4" =
      sharedNames.tokens.zip [['x'], ['y'], ['z'], ['1'], ['3'], ['2']] := by decide +kernel
  obtain ⟨-, hkeys, -, hvalues⟩ := values_of_direct sharedNames "<x y  z,1;3;2 4" hp
  rw [htaken] at hkeys hvalues
  have hnames : (sharedNames.dissect "<x y  z,1;3;2 4").values.keys = ["a".toList, "b", "c"] := by
    rw [hkeys]
    decide
  rw [hnames] at hvalues ⊢
  refine ⟨hp, rfl, ?_, ?_⟩
  · have hpieces : piecesUnder "a" (sharedNames.tokens.zip [['x'], ['y'], ['z'], ['1'], ['3'],
        ['2']]) = [⟨none, ['x']⟩, ⟨some 0, ['y']⟩] := by
      decide
    have hseated : Pieces.seated [⟨none, ['x']⟩, ⟨some 0, ['y']⟩] = [(1, ['x']), (0, ['y'])] := by
      decide +kernel
    obtain ⟨ha, -⟩ := (hvalues "a" (by decide)).1 (by decide)
    rw [ha, hpieces, Pieces.render, Pieces.ordered, hseated]
    simp [List.mergeSort]
  · exact ((hvalues "b" (by decide)).2 (by decide)).trans (by decide)

end Pattern

end Dissection
