import Dissection.Filter
import Dissection.Proofs.Division
import Dissection.Proofs.Placeholder

/-!
# The grammar of patterns

A text describes a pattern if it is a leading literal followed by placeholders in braces,
each with a literal behind it, where no literal holds an opening and no placeholder's
text holds a closing brace.  A text has at most one such decomposition, and scanning
finds it.

Compiling accepts exactly the texts whose decomposition has nothing but readable
placeholders, and the pattern's parts glued together are the text again.  A text
without a decomposition is refused as unterminated, whatever its placeholders are; of
the others the leftmost placeholder that cannot be read is reported.

## Main definitions

* `Pattern.glued` — the text of a leading literal and placeholders with literals.
* `Pattern.Decomposes` — the decomposition of a text.

## Main statements

* `Pattern.scan_eq_ok_iff` — scanning finds the decomposition.
* `Pattern.compile_eq_ok_iff` — compiling finds the decomposition and reads its parts.
* `compile_grammar` — what is accepted, and how the rest is refused.
-/

namespace Dissection

open Text

namespace Pattern

/-! ## Decompositions -/

/-- The text of placeholders with the literals behind them. -/
def gluedParts (parts : List (Text × Text)) : Text :=
  parts.flatMap fun part => opening ++ part.1 ++ closing ++ part.2

/-- The text of a leading literal and of placeholders with the literals behind them. -/
def glued (leading : Text) (parts : List (Text × Text)) : Text := leading ++ gluedParts parts

/-- A text taken apart: the literals hold no opening, the placeholders' texts no closing
brace. -/
structure Decomposes (text leading : Text) (parts : List (Text × Text)) : Prop where
  glued : text = glued leading parts
  leading_free : ¬ opening <:+: leading
  raw_free : ∀ part ∈ parts, ¬ closing <:+: part.1
  delimiter_free : ∀ part ∈ parts, ¬ opening <:+: part.2

theorem gluedParts_cons (raw delimiter : Text) (more : List (Text × Text)) :
    gluedParts ((raw, delimiter) :: more) =
      opening ++ (raw ++ closing ++ (delimiter ++ gluedParts more)) := by
  simp [gluedParts]

/-- Placeholders start with an opening. -/
theorem gluedParts_cons_eq (part : Text × Text) (more : List (Text × Text)) :
    ∃ next, gluedParts (part :: more) = opening ++ next :=
  ⟨_, gluedParts_cons part.1 part.2 more⟩

theorem unbordered_opening : Unbordered opening := by
  intro i hi hpos
  obtain rfl : i = 1 := by simp [opening] at hi; omega
  decide

theorem unbordered_closing : Unbordered closing := by
  intro i hi hpos
  simp [closing] at hi
  omega

/-! ## Scanning -/

section

variable {position : Nat} {text raw after delimiter next : Text}

theorem scanFrom_last (hc : cut? closing text = some (raw, after))
    (ho : cut? opening after = none) : scanFrom position text = .ok [(raw, after)] := by
  rw [scanFrom]
  split
  · next h => rw [hc] at h; cases h
  · next h =>
    rw [hc] at h
    cases h
    split
    · rfl
    · next h => rw [ho] at h; cases h

theorem scanFrom_more (hc : cut? closing text = some (raw, after))
    (ho : cut? opening after = some (delimiter, next)) :
    scanFrom position text =
      (scanFrom (position + opening.length + raw.length + closing.length + delimiter.length)
        next).map ((raw, delimiter) :: ·) := by
  rw [scanFrom]
  split
  · next h => rw [hc] at h; cases h
  · next h =>
    rw [hc] at h
    cases h
    split
    · next h => rw [ho] at h; cases h
    · next h =>
      rw [ho] at h
      cases h
      rfl

end

/-- What is scanned behind an opening is a decomposition that starts with the opening. -/
theorem decomposes_of_scanFrom {position : Nat} {text : Text} {parts : List (Text × Text)}
    (h : scanFrom position text = .ok parts) : Decomposes (opening ++ text) [] parts := by
  fun_induction scanFrom position text generalizing parts with
  | case1 => cases h
  | case2 position text raw after hc ho =>
    cases h
    obtain rfl := eq_of_cut? hc
    refine ⟨?_, by simp [opening], ?_, ?_⟩
    · simp [glued, gluedParts]
    · simpa using not_infix_of_cut? (by simp [closing]) hc
    · simpa using cut?_eq_none_iff.1 ho
  | case3 position text raw after hc delimiter next ho ih =>
    obtain rfl := eq_of_cut? hc
    obtain rfl := eq_of_cut? ho
    cases hs : scanFrom (position + opening.length + raw.length + closing.length +
        delimiter.length) next with
    | error u => rw [hs] at h; cases h
    | ok more =>
      rw [hs] at h
      cases h
      have hmore := ih hs
      refine ⟨?_, by simp [opening], ?_, ?_⟩
      · have hnext : opening ++ next = gluedParts more := hmore.glued
        simp [glued, gluedParts_cons, ← hnext]
      · exact List.forall_mem_cons.2
          ⟨not_infix_of_cut? (by simp [closing]) hc, hmore.raw_free⟩
      · exact List.forall_mem_cons.2
          ⟨not_infix_of_cut? (by simp [opening]) ho, hmore.delimiter_free⟩

/-- A decomposition that starts with an opening is what is scanned behind the opening. -/
theorem scanFrom_of_decomposes {position : Nat} {text : Text} {part : Text × Text}
    {more : List (Text × Text)} (h : Decomposes (opening ++ text) [] (part :: more)) :
    scanFrom position text = .ok (part :: more) := by
  obtain ⟨raw, delimiter⟩ := part
  induction more generalizing position text raw delimiter with
  | nil =>
    obtain ⟨hraw, -⟩ := List.forall_mem_cons.1 h.raw_free
    obtain ⟨hdelimiter, -⟩ := List.forall_mem_cons.1 h.delimiter_free
    have htext : text = raw ++ closing ++ delimiter := by
      simpa [glued, gluedParts] using h.glued
    rw [htext]
    exact scanFrom_last (cut?_append unbordered_closing hraw delimiter)
      (cut?_eq_none_iff.2 hdelimiter)
  | cons second more ih =>
    obtain ⟨hraw, hraws⟩ := List.forall_mem_cons.1 h.raw_free
    obtain ⟨hdelimiter, hdelimiters⟩ := List.forall_mem_cons.1 h.delimiter_free
    obtain ⟨next, hnext⟩ := gluedParts_cons_eq second more
    have htext : text = raw ++ closing ++ (delimiter ++ opening ++ next) := by
      have hglued := h.glued
      rw [glued, gluedParts_cons, hnext] at hglued
      simpa using hglued
    have hmore : Decomposes (opening ++ next) [] (second :: more) :=
      ⟨hnext.symm, by simp [opening], hraws, hdelimiters⟩
    rw [htext, scanFrom_more (cut?_append unbordered_closing hraw _)
      (cut?_append unbordered_opening hdelimiter next), ih second.1 second.2 hmore]
    rfl

/-- Scanning finds the decomposition of a text. -/
theorem scan_eq_ok_iff {text leading : Text} {parts : List (Text × Text)} :
    scan text = .ok (leading, parts) ↔ Decomposes text leading parts := by
  constructor
  · intro h
    rw [scan] at h
    split at h
    · next hc =>
      cases h
      exact ⟨by simp [glued, gluedParts], cut?_eq_none_iff.1 hc, by simp, by simp⟩
    · next found next hc =>
      cases hs : scanFrom found.length next with
      | error u => rw [hs] at h; cases h
      | ok parts =>
        rw [hs] at h
        cases h
        have hparts := decomposes_of_scanFrom hs
        have hnext : opening ++ next = gluedParts parts := hparts.glued
        refine ⟨?_, not_infix_of_cut? (by simp [opening]) hc, hparts.raw_free,
          hparts.delimiter_free⟩
        rw [eq_of_cut? hc, glued, ← hnext, List.append_assoc]
  · intro h
    cases parts with
    | nil =>
      have htext : text = leading := by simpa [glued, gluedParts] using h.glued
      rw [htext, scan, cut?_eq_none_iff.2 h.leading_free]
    | cons part more =>
      obtain ⟨next, hnext⟩ := gluedParts_cons_eq part more
      have htext : text = leading ++ opening ++ next := by
        rw [h.glued, glued, hnext, List.append_assoc]
      have hparts : Decomposes (opening ++ next) [] (part :: more) :=
        ⟨hnext.symm, by simp [opening], h.raw_free, h.delimiter_free⟩
      rw [htext, scan, cut?_append unbordered_opening h.leading_free next]
      simp only [scanFrom_of_decomposes hparts]
      rfl

/-- A text has at most one decomposition. -/
theorem Decomposes.unique {text leading leading' : Text} {parts parts' : List (Text × Text)}
    (h : Decomposes text leading parts) (h' : Decomposes text leading' parts') :
    leading = leading' ∧ parts = parts' := by
  have hs := scan_eq_ok_iff.2 h
  rw [scan_eq_ok_iff.2 h'] at hs
  cases hs
  exact ⟨rfl, rfl⟩

/-- Scanning fails exactly where there is no decomposition. -/
theorem exists_scan_eq_error_iff {text : Text} :
    (∃ u, scan text = .error u) ↔ ¬ ∃ leading parts, Decomposes text leading parts := by
  cases hs : scan text with
  | error u =>
    simp only [Except.error.injEq, exists_eq', true_iff]
    rintro ⟨leading, parts, h⟩
    rw [scan_eq_ok_iff.2 h] at hs
    cases hs
  | ok found =>
    obtain ⟨leading, parts⟩ := found
    have h := scan_eq_ok_iff.1 hs
    simp only [reduceCtorEq, exists_false, false_iff, not_not]
    exact ⟨leading, parts, h⟩

/-! ## Compiling -/

theorem tokenOf_eq_ok_iff {part : Text × Text} {token : Token} :
    tokenOf part = .ok token ↔
      Placeholder.parse part.1 = .ok token.placeholder ∧ part.2 = token.delimiter := by
  rw [tokenOf]
  split
  · next placeholder hp =>
    obtain ⟨found, delimiter⟩ := token
    rw [hp]
    simp
  · next e hp =>
    rw [hp]
    simp

theorem tokenOf_eq_error_iff {part : Text × Text} {e : Error} :
    tokenOf part = .error e ↔ ∃ q, Placeholder.parse part.1 = .error q ∧ e = .placeholder q := by
  rw [tokenOf]
  split
  · next placeholder hp =>
    rw [hp]
    simp
  · next q hp =>
    rw [hp]
    simp [eq_comm]

theorem exists_tokenOf_iff {part : Text × Text} :
    (∃ token, tokenOf part = .ok token) ↔
      ∃ placeholder, Placeholder.parse part.1 = .ok placeholder := by
  constructor
  · rintro ⟨token, ht⟩
    exact ⟨token.placeholder, (tokenOf_eq_ok_iff.1 ht).1⟩
  · rintro ⟨placeholder, hp⟩
    exact ⟨⟨placeholder, part.2⟩, tokenOf_eq_ok_iff.2 ⟨hp, rfl⟩⟩

/-- The text of a token's placeholder and the literal behind it. -/
def partOf (token : Token) : Text × Text := (token.placeholder.raw, token.delimiter)

/-- A pattern's text is its parts glued together. -/
theorem written_eq (p : Pattern) : p.written = glued p.leading (p.tokens.map partOf) := by
  rw [written, glued, gluedParts, List.flatMap_map]
  rfl

/-- Tokens are made of parts exactly if the parts are theirs and their placeholders are
what is read from their texts. -/
theorem mapM_tokenOf_eq_ok_iff {parts : List (Text × Text)} {tokens : List Token} :
    parts.mapM tokenOf = .ok tokens ↔
      parts = tokens.map partOf ∧
        ∀ token ∈ tokens, Placeholder.parse token.placeholder.raw = .ok token.placeholder := by
  rw [Traversal.mapM_eq_ok_iff]
  constructor
  · intro h
    induction h with
    | nil => simp
    | @cons part token parts tokens hfirst _ ih =>
      obtain ⟨hparse, hdelimiter⟩ := tokenOf_eq_ok_iff.1 hfirst
      have hraw : token.placeholder.raw = part.1 := Placeholder.raw_of_parse hparse
      obtain ⟨rfl, hall⟩ := ih
      refine ⟨?_, List.forall_mem_cons.2 ⟨by rw [hraw]; exact hparse, hall⟩⟩
      rw [List.map_cons, partOf, hraw, ← hdelimiter]
  · rintro ⟨rfl, h⟩
    rw [List.forall₂_map_left_iff, List.forall₂_same]
    intro token ht
    exact tokenOf_eq_ok_iff.2 ⟨h token ht, rfl⟩

/-- What keeps tokens from being made of parts is the leftmost placeholder that cannot be
read. -/
theorem mapM_tokenOf_eq_error_iff {parts : List (Text × Text)} {e : Error} :
    parts.mapM tokenOf = .error e ↔
      ∃ before part after q, parts = before ++ part :: after ∧
        (∀ other ∈ before, ∃ placeholder, Placeholder.parse other.1 = .ok placeholder) ∧
          Placeholder.parse part.1 = .error q ∧ e = .placeholder q := by
  rw [Traversal.mapM_eq_error_iff]
  simp only [exists_tokenOf_iff]
  constructor
  · rintro ⟨before, part, after, hparts, hbefore, hpart⟩
    obtain ⟨q, hq, he⟩ := tokenOf_eq_error_iff.1 hpart
    exact ⟨before, part, after, q, hparts, hbefore, hq, he⟩
  · rintro ⟨before, part, after, q, hparts, hbefore, hq, he⟩
    exact ⟨before, part, after, hparts, hbefore, tokenOf_eq_error_iff.2 ⟨q, hq, he⟩⟩

/-- Compiling finds the decomposition of a text and reads its placeholders. -/
theorem compile_eq_ok_iff {text : Text} {p : Pattern} :
    compile text = .ok p ↔
      Decomposes text p.leading (p.tokens.map partOf) ∧
        ∀ token ∈ p.tokens, Placeholder.parse token.placeholder.raw = .ok token.placeholder := by
  obtain ⟨first, tokens⟩ := p
  rw [← scan_eq_ok_iff, compile]
  cases hs : scan text with
  | error u => simp
  | ok found =>
    obtain ⟨leading, parts⟩ := found
    have hmap : (parts.mapM tokenOf).map (fun tokens => (⟨leading, tokens⟩ : Pattern)) =
        .ok ⟨first, tokens⟩ ↔ leading = first ∧ parts.mapM tokenOf = .ok tokens := by
      cases parts.mapM tokenOf <;> simp [Except.map]
    simp only [hmap, mapM_tokenOf_eq_ok_iff, Except.ok.injEq, Prod.mk.injEq, and_assoc]

/-- A text without a decomposition is refused as unterminated. -/
theorem exists_compile_eq_unterminated {text : Text}
    (h : ¬ ∃ leading parts, Decomposes text leading parts) :
    ∃ u, compile text = .error (.unterminated u) := by
  obtain ⟨u, hu⟩ := exists_scan_eq_error_iff.2 h
  refine ⟨u, ?_⟩
  rw [compile, hu]

/-- A text with a decomposition is refused as its parts are. -/
theorem compile_eq_error_iff {text leading : Text} {parts : List (Text × Text)} {e : Error}
    (h : Decomposes text leading parts) :
    compile text = .error e ↔ parts.mapM tokenOf = .error e := by
  rw [compile, scan_eq_ok_iff.2 h]
  cases hm : parts.mapM tokenOf <;> simp [hm, Except.map]

/-- An unterminated placeholder is reported exactly where there is no decomposition. -/
theorem compile_eq_unterminated_iff {text : Text} :
    (∃ u, compile text = .error (.unterminated u)) ↔
      ¬ ∃ leading parts, Decomposes text leading parts := by
  constructor
  · rintro ⟨u, hu⟩ ⟨leading, parts, hd⟩
    have hm : parts.mapM tokenOf = .error (.unterminated u) := (compile_eq_error_iff hd).1 hu
    obtain ⟨before, part, after, q, -, -, -, he⟩ := mapM_tokenOf_eq_error_iff.1 hm
    cases he
  · exact exists_compile_eq_unterminated

/-- Of the placeholders of a decomposition the leftmost that cannot be read is reported. -/
theorem compile_eq_placeholder_iff {text : Text} {q : Placeholder.Error} :
    compile text = .error (.placeholder q) ↔
      ∃ leading before part after, Decomposes text leading (before ++ part :: after) ∧
        (∀ other ∈ before, ∃ placeholder, Placeholder.parse other.1 = .ok placeholder) ∧
          Placeholder.parse part.1 = .error q := by
  constructor
  · intro h
    by_cases hd : ∃ leading parts, Decomposes text leading parts
    · obtain ⟨leading, parts, hd⟩ := hd
      have hm : parts.mapM tokenOf = .error (.placeholder q) := (compile_eq_error_iff hd).1 h
      obtain ⟨before, part, after, found, rfl, hbefore, hq, he⟩ := mapM_tokenOf_eq_error_iff.1 hm
      cases he
      exact ⟨leading, before, part, after, hd, hbefore, hq⟩
    · obtain ⟨u, hu⟩ := exists_compile_eq_unterminated hd
      rw [hu] at h
      cases h
  · rintro ⟨leading, before, part, after, hd, hbefore, hq⟩
    rw [compile_eq_error_iff hd, mapM_tokenOf_eq_error_iff]
    exact ⟨before, part, after, q, rfl, hbefore, hq, rfl⟩

/-- A text is compiled exactly if it has a decomposition whose placeholders can all be
read. -/
theorem exists_compile_eq_ok_iff {text : Text} :
    (∃ p, compile text = .ok p) ↔
      ∃ leading parts, Decomposes text leading parts ∧
        ∀ part ∈ parts, ∃ placeholder, Placeholder.parse part.1 = .ok placeholder := by
  constructor
  · rintro ⟨p, hp⟩
    obtain ⟨hd, hread⟩ := compile_eq_ok_iff.1 hp
    refine ⟨p.leading, p.tokens.map partOf, hd, ?_⟩
    intro part hpart
    obtain ⟨token, ht, rfl⟩ := List.mem_map.1 hpart
    exact ⟨token.placeholder, hread token ht⟩
  · rintro ⟨leading, parts, hd, hread⟩
    cases hc : compile text with
    | ok p => exact ⟨p, rfl⟩
    | error e =>
      cases e with
      | unterminated u => exact absurd ⟨leading, parts, hd⟩ (compile_eq_unterminated_iff.1 ⟨u, hc⟩)
      | placeholder q =>
        obtain ⟨leading', before, part, after, hd', -, hq⟩ := compile_eq_placeholder_iff.1 hc
        obtain ⟨-, rfl⟩ := hd.unique hd'
        obtain ⟨placeholder, hp⟩ := hread part (by simp)
        rw [hq] at hp
        cases hp

/-! ## Reports -/

/-- The report of a placeholder in a pattern is the report of the placeholder alone, with the
pattern added. -/
theorem report?_placeholder (q : Placeholder.Error) (text : Text) :
    (Error.placeholder q).report? (some text) .null =
      ((Error.placeholder q).report? none .null).map fun r =>
        { r with context := { r.context with pattern := some text } } := by
  cases q <;> rfl

/-- An error that is no slot with too many digits has a report with the pattern and its
source. -/
theorem exists_report? {e : Error} (h : ∀ digits, e ≠ .placeholder (.slotTooLong digits))
    (text : Text) (source : Value) :
    ∃ report, e.report? (some text) source = some report ∧ report.kind = .field ∧
      report.context.pattern = some text ∧ report.context.sourceField = source ∧
      (report.code = .unterminatedPlaceholder ↔ ∃ u, e = .unterminated u) := by
  cases e with
  | unterminated u => exact ⟨_, rfl, rfl, rfl, rfl, by simp [Report.ofField]⟩
  | placeholder q =>
    cases q with
    | appendWithIndirect marks raw => exact ⟨_, rfl, rfl, rfl, rfl, by simp [Report.ofField]⟩
    | severalMarks marks raw => exact ⟨_, rfl, rfl, rfl, rfl, by simp [Report.ofField]⟩
    | badSlot raw => exact ⟨_, rfl, rfl, rfl, rfl, by simp [Report.ofField]⟩
    | slotTooLong digits => exact absurd rfl (h digits)

/-- Compiling accepts exactly the grammar and loses nothing.  A text has at most one
decomposition; it is compiled if its placeholders can be read, and then the pattern is
made of its parts and is written as the text.  Otherwise a text without a decomposition is
refused as unterminated, and one with a decomposition for its leftmost placeholder that
cannot be read.  If no slot is too long, the refusal is reported with the pattern, and as
unterminated only where there is no decomposition; for a placeholder the report is the
placeholder's own. -/
theorem compile_grammar (text : Text) :
    (∀ leading leading' parts parts', Decomposes text leading parts →
        Decomposes text leading' parts' → leading = leading' ∧ parts = parts') ∧
      ((∃ p, compile text = .ok p) ↔
        ∃ leading parts, Decomposes text leading parts ∧
          ∀ part ∈ parts, ∃ placeholder, Placeholder.parse part.1 = .ok placeholder) ∧
      (∀ p, compile text = .ok p →
        Decomposes text p.leading (p.tokens.map partOf) ∧ p.written = text ∧
          ∀ token ∈ p.tokens, Placeholder.parse token.placeholder.raw = .ok token.placeholder) ∧
      ((∃ u, compile text = .error (.unterminated u)) ↔
        ¬ ∃ leading parts, Decomposes text leading parts) ∧
      (∀ q, compile text = .error (.placeholder q) ↔
        ∃ leading before part after, Decomposes text leading (before ++ part :: after) ∧
          (∀ other ∈ before, ∃ placeholder, Placeholder.parse other.1 = .ok placeholder) ∧
            Placeholder.parse part.1 = .error q) ∧
      ∀ e, compile text = .error e →
        (∀ leading parts, Decomposes text leading parts →
          ∀ part ∈ parts, Placeholder.HasShortSlot part.1) →
        ∃ report, e.report? (some text) .null = some report ∧ report.kind = .field ∧
          report.context.pattern = some text ∧
          (report.code = .unterminatedPlaceholder ↔
            ¬ ∃ leading parts, Decomposes text leading parts) ∧
          ∀ q, e = .placeholder q →
            ∃ own, (Error.placeholder q).report? none .null = some own ∧
              report = { own with context := { own.context with pattern := some text } } := by
  refine ⟨fun _ _ _ _ h h' => h.unique h', exists_compile_eq_ok_iff, ?_,
    compile_eq_unterminated_iff, fun q => compile_eq_placeholder_iff, ?_⟩
  · intro p hp
    obtain ⟨hd, hread⟩ := compile_eq_ok_iff.1 hp
    exact ⟨hd, by rw [written_eq, ← hd.glued], hread⟩
  · intro e he hshort
    have hslot : ∀ digits, e ≠ .placeholder (.slotTooLong digits) := by
      rintro digits rfl
      obtain ⟨leading, before, part, after, hd, -, hq⟩ := compile_eq_placeholder_iff.1 he
      exact Placeholder.parse_ne_slotTooLong (hshort leading _ hd part (by simp)) digits hq
    obtain ⟨report, hr, hkind, hpattern, -, hcode⟩ := exists_report? hslot text .null
    refine ⟨report, hr, hkind, hpattern, ?_, ?_⟩
    · rw [hcode, ← compile_eq_unterminated_iff, he]
      simp
    · rintro q rfl
      rw [report?_placeholder] at hr
      obtain ⟨own, ho, rfl⟩ := Option.map_eq_some_iff.1 hr
      exact ⟨own, ho, rfl⟩

end Pattern

end Dissection
