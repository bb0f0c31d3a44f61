import Dissection.Outcome
import Dissection.Proofs.Division
import Dissection.Proofs.Table
import Mathlib.Data.List.Basic
import Mathlib.Logic.Equiv.Basic

/-!
# Texts in other letters

No letter means anything to a split.  If every letter of a text and of the literals of a
pattern is exchanged for another, and no two letters for the same, then the text is split at
the same places, and all that was captured is there in the other letters.  That goes for names
as well, those in the pattern and those that a text brings along: two names are one after
the exchange if they were one before it.

One letter is written by the pattern itself, the blank between the pieces of a field, so the
values are exchanged with the rest only if the blank stays what it is.

## Main definitions

* `Respelling` — an exchange of letters.
* `Respelling.pattern`, `Respelling.split`, `Respelling.outcome` — what it makes of a pattern,
  of a split and of an outcome.

## Main statements

* `Respelling.cut?_text`, `Respelling.ofTokens_tokens` — literals are found at the same places.
* `Respelling.extraction_assign` — one capture in other letters.
* `Respelling.dissect_respelled` — a whole text in other letters.
-/

namespace Dissection

open Text

/-- An exchange of letters, no two of them for the same. -/
structure Respelling where
  letter : Char → Char
  injective : Function.Injective letter

namespace Respelling

variable (s : Respelling)

/-! ## Texts -/

/-- A text in the other letters. -/
def text (t : Text) : Text := t.map s.letter

@[simp] theorem text_nil : s.text [] = [] := rfl

@[simp] theorem text_cons (c : Char) (t : Text) : s.text (c :: t) = s.letter c :: s.text t := rfl

@[simp] theorem text_append (t u : Text) : s.text (t ++ u) = s.text t ++ s.text u :=
  List.map_append

theorem text_injective : Function.Injective s.text :=
  List.map_injective_iff.2 s.injective

@[simp] theorem text_inj {t u : Text} : s.text t = s.text u ↔ t = u :=
  s.text_injective.eq_iff

@[simp] theorem text_eq_nil_iff {t : Text} : s.text t = [] ↔ t = [] :=
  List.map_eq_nil_iff

/-- Names are told apart as before. -/
theorem text_beq (t u : Text) : (s.text t == s.text u) = (t == u) := by
  rw [Bool.eq_iff_iff, beq_iff_eq, beq_iff_eq, text_inj]

theorem text_mem_map_iff {t : Text} {texts : List Text} :
    s.text t ∈ texts.map s.text ↔ t ∈ texts :=
  List.mem_map_of_injective s.text_injective

/-! ## Literals -/

theorem strip?_text (literal t : Text) :
    strip? (s.text literal) (s.text t) = (strip? literal t).map s.text := by
  fun_induction strip? literal t with
  | case1 t => rfl
  | case2 l literal => rfl
  | case3 l literal t ih => simpa [strip?] using ih
  | case4 l literal c t h =>
    have hne : s.letter l ≠ s.letter c := fun heq => h (s.injective heq)
    simp [strip?, hne]

/-- A literal is found where it was. -/
theorem cut?_text (literal t : Text) :
    cut? (s.text literal) (s.text t) = (cut? literal t).map (Prod.map s.text s.text) := by
  induction t with
  | nil =>
    have h := s.strip?_text literal []
    rw [text_nil] at h
    rw [text_nil, cut?, cut?, h]
    cases strip? literal [] <;> rfl
  | cons c t ih =>
    have h := s.strip?_text literal (c :: t)
    rw [text_cons] at h
    rw [text_cons, cut?, cut?, h]
    cases strip? literal (c :: t) with
    | some after => rfl
    | none =>
      simp only [Option.map_none, ih]
      cases cut? literal t <;> rfl

theorem dropRepeats_text (literal t : Text) :
    dropRepeats (s.text literal) (s.text t) = s.text (dropRepeats literal t) := by
  fun_induction dropRepeats literal t with
  | case1 t hnil => rw [hnil, text_nil, dropRepeats, if_pos rfl]
  | case2 t hne hs =>
    apply dropRepeats_eq_self
    rw [← strip?_eq_none_iff, strip?_text, hs]
    rfl
  | case3 t hne rest hs ih =>
    obtain rfl := strip?_eq_some_iff.1 hs
    rw [text_append, dropRepeats_append (mt s.text_eq_nil_iff.1 hne), ih]

/-! ## Splits -/

/-- A placeholder in the other letters. -/
def placeholder (target : Placeholder) : Placeholder :=
  { target with name := s.text target.name, raw := s.text target.raw }

/-- A token in the other letters. -/
def token (t : Token) : Token := ⟨s.placeholder t.placeholder, s.text t.delimiter⟩

/-- A pattern in the other letters: its literals, and the names of its fields and pairs. -/
def pattern (p : Pattern) : Pattern := ⟨s.text p.leading, p.tokens.map s.token⟩

/-- A split in the other letters. -/
def split (found : Split) : Split := ⟨found.captures.map s.text, found.missing.map s.text⟩

theorem split_cons (capture : Text) (found : Split) :
    s.split (Split.cons capture found) = Split.cons (s.text capture) (s.split found) := rfl

theorem afterLeading?_pattern (p : Pattern) (t : Text) :
    (s.pattern p).afterLeading? (s.text t) = (p.afterLeading? t).map s.text := by
  simp only [Pattern.afterLeading?, pattern, text_eq_nil_iff]
  by_cases h : p.leading = []
  · simp [h]
  · rw [if_neg h, if_neg h, cut?_text]
    cases cut? p.leading t with
    | none => rfl
    | some parts => simp [dropRepeats_text]

/-- A text is split at the same places. -/
theorem ofTokens_tokens (tokens : List Token) (t : Text) :
    Split.ofTokens (tokens.map s.token) (s.text t) = s.split (Split.ofTokens tokens t) := by
  induction tokens generalizing t with
  | nil => rfl
  | cons first rest ih =>
    simp only [List.map_cons, Split.ofTokens, token, text_eq_nil_iff, List.map_eq_nil_iff]
    by_cases hd : first.delimiter = []
    · by_cases hr : rest = []
      · simp [hd, hr, split]
      · simp [hd, hr, ih, split_cons]
    · rw [if_neg hd, if_neg hd, cut?_text]
      cases cut? first.delimiter t with
      | none => rfl
      | some parts => simp [dropRepeats_text, ih, split_cons]

theorem split?_pattern (p : Pattern) (t : Text) :
    (s.pattern p).split? (s.text t) = (p.split? t).map s.split := by
  rw [Pattern.split?, Pattern.split?, afterLeading?_pattern]
  cases p.afterLeading? t with
  | none => rfl
  | some rest => exact congrArg some (s.ofTokens_tokens p.tokens rest)

/-! ## Pieces -/

/-- A piece in the other letters, at the slot that it asked for. -/
def piece (p : Piece) : Piece := ⟨p.slot, s.text p.text⟩

theorem taken_pieces (pieces : List Piece) :
    Pieces.taken (pieces.map s.piece) = Pieces.taken pieces := by
  simp [Pieces.taken, List.filterMap_map, Function.comp_def, piece]

theorem seatFrom_pieces (slots : List Int) (free : Nat) (pieces : List Piece) :
    Pieces.seatFrom slots free (pieces.map s.piece) =
      (Pieces.seatFrom slots free pieces).map (Prod.map id s.text) := by
  induction pieces generalizing free with
  | nil => rfl
  | cons first rest ih =>
    obtain ⟨slot, t⟩ := first
    cases slot <;> simp [Pieces.seatFrom, piece, ih]

/-- The pieces of a field stand in the same order. -/
theorem ordered_pieces (pieces : List Piece) :
    Pieces.ordered (pieces.map s.piece) = (Pieces.ordered pieces).map s.text := by
  have hsort : ((Pieces.seated pieces).mergeSort fun a b => a.1 ≤ b.1).map (Prod.map id s.text) =
      ((Pieces.seated pieces).map (Prod.map id s.text)).mergeSort fun a b => a.1 ≤ b.1 :=
    List.map_mergeSort fun a _ b _ => rfl
  rw [Pieces.ordered, Pieces.seated, taken_pieces, seatFrom_pieces, ← Pieces.seated, ← hsort,
    Pieces.ordered]
  simp [Function.comp_def]

/-- The text of a field, if the blank between its pieces stays what it is. -/
theorem render_pieces (hblank : s.letter ' ' = ' ') (pieces : List Piece) :
    Pieces.render (pieces.map s.piece) = s.text (Pieces.render pieces) := by
  rw [Pieces.render, Pieces.render, ordered_pieces]
  generalize Pieces.ordered pieces = texts
  induction texts with
  | nil => rfl
  | cons first rest ih =>
    cases rest with
    | nil => simp [List.intercalate]
    | cons next rest => simpa [List.intercalate, hblank] using ih

/-! ## Extractions -/

/-- A table under names in the other letters, with a function of its values. -/
def table {α β : Type} (f : α → β) (t : Table Text α) : Table Text β :=
  (t.mapKeys s.text s.text_beq).map f

section

variable {α β : Type} (f : α → β) (t : Table Text α) (name : Text) (value : α)

@[simp] theorem table_empty : s.table f ({} : Table Text α) = {} := rfl

theorem get?_table : (s.table f t).get? (s.text name) = (t.get? name).map f := by
  rw [table, Table.get?_map, Table.get?_mapKeys]

theorem put_table : (s.table f t).put (s.text name) (f value) = s.table f (t.put name value) := by
  rw [table, Table.put_map, Table.put_mapKeys, table]

theorem erase_table : (s.table f t).erase (s.text name) = s.table f (t.erase name) := by
  rw [table, Table.erase_map, Table.erase_mapKeys, table]

theorem keys_table : (s.table f t).keys = t.keys.map s.text := by
  simp [table, Table.keys, Table.map, Table.mapKeys, Function.comp_def]

end

/-- What is held under a name, in the other letters. -/
def capture : Capture → Capture
  | .whole t => .whole (s.text t)
  | .parts pieces => .parts (pieces.map s.piece)

theorem toPieces_capture (c : Capture) : (s.capture c).toPieces = c.toPieces.map s.piece := by
  cases c <;> rfl

theorem render_capture (hblank : s.letter ' ' = ' ') (c : Capture) :
    (s.capture c).render = s.text c.render := by
  cases c with
  | whole t => rfl
  | parts pieces => exact s.render_pieces hblank pieces

/-- What has been gathered, in the other letters. -/
def extraction (e : Extraction) : Extraction where
  fields := s.table s.capture e.fields
  keys := s.table s.text e.keys
  pending := s.table s.text e.pending

theorem extraction_set (e : Extraction) (name value : Text) :
    (s.extraction e).set (s.text name) (s.text value) = s.extraction (e.set name value) := by
  have h := s.put_table s.capture e.fields name (.whole value)
  simp only [Extraction.set, extraction, capture] at h ⊢
  rw [h]

theorem extraction_append (e : Extraction) (name value : Text) (slot : Option Int) :
    (s.extraction e).append (s.text name) (s.text value) slot =
      s.extraction (e.append name value slot) := by
  have hbefore : (((s.extraction e).fields.get? (s.text name)).map Capture.toPieces).getD [] =
      (((e.fields.get? name).map Capture.toPieces).getD []).map s.piece := by
    rw [extraction, get?_table]
    cases e.fields.get? name with
    | none => rfl
    | some c => exact s.toPieces_capture c
  have h := s.put_table s.capture e.fields name
    (.parts (((e.fields.get? name).map Capture.toPieces).getD [] ++ [⟨slot, value⟩]))
  simp only [Extraction.append, hbefore]
  simp only [extraction, capture, List.map_append, List.map_cons, List.map_nil, piece] at h ⊢
  rw [h]

/-- A name is learned, and the value that waits for it is written under it. -/
theorem extraction_setKey (e : Extraction) (tag key : Text) :
    (s.extraction e).setKey (s.text tag) (s.text key) = s.extraction (e.setKey tag key) := by
  have hkeys := s.put_table s.text e.keys tag key
  have hpending := s.get?_table s.text e.pending tag
  simp only [Extraction.setKey, extraction] at hpending ⊢
  rw [hkeys, hpending]
  cases e.pending.get? tag with
  | none => rfl
  | some value =>
    simp only [Option.map_some, erase_table]
    exact s.extraction_set
      { e with keys := e.keys.put tag key, pending := e.pending.erase tag } key value

/-- A value is written under the name that is known, or waits for it. -/
theorem extraction_setValue (e : Extraction) (tag value : Text) :
    (s.extraction e).setValue (s.text tag) (s.text value) =
      s.extraction (e.setValue tag value) := by
  have hkeys := s.get?_table s.text e.keys tag
  simp only [Extraction.setValue]
  rw [show (s.extraction e).keys = s.table s.text e.keys from rfl, hkeys]
  cases e.keys.get? tag with
  | none => simp only [Option.map_none, extraction, put_table]
  | some key => exact s.extraction_set e key value

/-- A capture goes where it went. -/
theorem extraction_assign (appendNames : List Text) (e : Extraction) (target : Placeholder)
    (capture : Text) :
    Pattern.assign (appendNames.map s.text) (s.extraction e) (s.placeholder target)
        (s.text capture) =
      s.extraction (Pattern.assign appendNames e target capture) := by
  obtain ⟨name, modifier, raw⟩ := target
  cases modifier with
  | skip => rfl
  | normal =>
    simp only [Pattern.assign, placeholder, text_mem_map_iff]
    by_cases h : name ∈ appendNames
    · rw [if_pos h, if_pos h, extraction_append]
    · rw [if_neg h, if_neg h, extraction_set]
  | append => exact s.extraction_append e name capture none
  | appendAt slot => exact s.extraction_append e name capture (some slot)
  | key => exact s.extraction_setKey e name capture
  | value => exact s.extraction_setValue e name capture

/-- All captures go where they went. -/
theorem extraction_extractWith (appendNames : List Text) (p : Pattern) (captures : List Text) :
    (s.pattern p).extractWith (appendNames.map s.text) (captures.map s.text) =
      s.extraction (p.extractWith appendNames captures) := by
  have hfold : ∀ (pairs : List (Token × Text)) (e : Extraction),
      (pairs.map (Prod.map s.token s.text)).foldl (fun e pair =>
          Pattern.assign (appendNames.map s.text) e pair.1.placeholder pair.2) (s.extraction e) =
        s.extraction (pairs.foldl (fun e pair =>
          Pattern.assign appendNames e pair.1.placeholder pair.2) e) := by
    intro pairs
    induction pairs with
    | nil => intro e; rfl
    | cons pair rest ih =>
      intro e
      have hstep := s.extraction_assign appendNames e pair.1.placeholder pair.2
      rw [List.map_cons, List.foldl_cons, List.foldl_cons, ← ih]
      simp only [Prod.map, token, hstep]
  rw [Pattern.extractWith, pattern, List.zip_map]
  exact hfold (p.tokens.zip captures) .empty

theorem finalize_extraction (hblank : s.letter ' ' = ' ') (e : Extraction) :
    (s.extraction e).finalize = s.table s.text e.finalize := by
  apply Table.ext
  simp [Extraction.finalize, extraction, table, Table.map, Table.mapKeys, Function.comp_def,
    s.render_capture hblank]

/-! ## Outcomes -/

/-- An outcome in the other letters: the names and values, the tags and the literal that was
not found. -/
def outcome : Outcome → Outcome
  | .matched values orphans => .matched (s.table s.text values) (orphans.map s.text)
  | .patternNotFound values token delimiter =>
    .patternNotFound (s.table s.text values) token (s.text delimiter)
  | .keyNotFound => .keyNotFound

theorem dissectWith_pattern (hblank : s.letter ' ' = ' ') (appendNames : List Text) (p : Pattern)
    (t : Text) :
    (s.pattern p).dissectWith (appendNames.map s.text) (s.text t) =
      s.outcome (p.dissectWith appendNames t) := by
  rw [Pattern.dissectWith, Pattern.dissectWith, split?_pattern]
  cases p.split? t with
  | none => rfl
  | some found =>
    obtain ⟨captures, missing⟩ := found
    simp only [Option.map_some, split, extraction_extractWith, finalize_extraction s hblank]
    cases missing with
    | none => simp [outcome, Extraction.unpaired, extraction, keys_table]
    | some delimiter => simp [outcome]

theorem appendNames_pattern (p : Pattern) :
    (s.pattern p).appendNames = p.appendNames.map s.text := by
  simp [Pattern.appendNames, pattern, List.filter_map, Function.comp_def, token, placeholder]

/-- In other letters a text is split at the same places.  If the blank stays what it is, the
outcome is the same in the other letters, whichever fields are put together from pieces, and
so it is for those that the pattern puts together. -/
theorem dissect_respelled (p : Pattern) (t : Text) :
    (s.pattern p).split? (s.text t) = (p.split? t).map s.split ∧
      (s.letter ' ' = ' ' →
        (∀ appendNames, (s.pattern p).dissectWith (appendNames.map s.text) (s.text t) =
          s.outcome (p.dissectWith appendNames t)) ∧
        (s.pattern p).dissect (s.text t) = s.outcome (p.dissect t)) := by
  refine ⟨s.split?_pattern p t, fun hblank => ⟨fun names => ?_, ?_⟩⟩
  · exact s.dissectWith_pattern hblank names p t
  · rw [Pattern.dissect, Pattern.dissect, appendNames_pattern, s.dissectWith_pattern hblank]

/-- Commas and their wide forms for each other. -/
def wideCommas : Respelling := ⟨Equiv.swap ',' '，', Equiv.injective _⟩

/-- A pattern with commas, in which a field is put together and another is named by the text. -/
def withCommas : Pattern where
  leading := []
  tokens := [⟨⟨"to", .normal, "to"⟩, ","⟩, ⟨⟨"to", .append, "+to"⟩, ","⟩,
    ⟨⟨"k", .key, "?k"⟩, ":"⟩, ⟨⟨"k", .value, "&k"⟩, []⟩]

/-- A wide comma in a value becomes a comma where commas become wide, and the text still names
a field. -/
theorem dissect_respelled_wideCommas :
    let line : Text := "x，y,z,who:me"
    let found : Outcome := (wideCommas.pattern withCommas).dissect (wideCommas.text line)
    wideCommas.letter ' ' = ' ' ∧ wideCommas.text line = "x,y，z，who:me" ∧
      (wideCommas.pattern withCommas).split? (wideCommas.text line) =
        some ⟨["x,y", "z", "who", "me"], none⟩ ∧
      (wideCommas.pattern withCommas).dissectWith [] (wideCommas.text line) =
        wideCommas.outcome (withCommas.dissectWith [] line) ∧
      found = wideCommas.outcome (withCommas.dissect line) ∧ found.isMatched = true ∧
      found.values.keys = ["to".toList, "who"] ∧ found.values.get? "who" = some "me".toList := by
  intro line found
  have hblank : wideCommas.letter ' ' = ' ' := by decide
  obtain ⟨hsplit, houtcome⟩ := wideCommas.dissect_respelled withCommas line
  obtain ⟨hwith, hdissect⟩ := houtcome hblank
  refine ⟨hblank, by decide, ?_, hwith [], hdissect, ?_, ?_, ?_⟩
  · rw [hsplit]
    decide +kernel
  · decide +kernel
  · decide +kernel
  · decide +kernel

end Respelling

end Dissection
