import Dissection.Text

/-!
# The grammar of JSON

Which texts are JSON is said by a grammar: values are words, numbers, strings, arrays and
objects, and blanks may stand on either side of a mark.  The grammar has no name for an
infinity or for what is no number.

What is written outside of the strings of a text is found without the grammar, by following the
quotation marks and the backslashes.  In a text of the grammar no such name is found there.

## Main definitions

* `Json.Derives` — the texts of the grammar, for each of its parts.
* `Json.IsNumber`, `Json.IsString` — the texts of numbers and strings.
* `Json.outside` — what is written outside of the strings of a text.
* `Json.NamesNonFinite` — an infinity or NaN is named there.

## Main statements

* `Json.Derives.not_namesNonFinite` — in a text of the grammar none is.
-/

namespace Dissection.Json

variable {text other : Text} {c : Char}

/-! ## The grammar -/

/-- A text of digits, of which there is at least one. -/
def IsDigits (text : Text) : Prop := text ≠ [] ∧ ∀ c ∈ text, c.isDigit = true

/-- The digits before the point of a number.  None of several is a leading zero. -/
inductive IsWhole : Text → Prop
  | zero : IsWhole ['0']
  | leading {first : Char} {rest : Text} : first.isDigit = true → first ≠ '0' →
      (∀ c ∈ rest, c.isDigit = true) → IsWhole (first :: rest)

/-- The fraction of a number, if it has one. -/
inductive IsFraction : Text → Prop
  | absent : IsFraction []
  | digits {digits : Text} : IsDigits digits → IsFraction ('.' :: digits)

/-- The exponent of a number, if it has one. -/
inductive IsExponent : Text → Prop
  | absent : IsExponent []
  | digits {letter : Char} {sign digits : Text} : letter = 'e' ∨ letter = 'E' →
      sign = [] ∨ sign = ['+'] ∨ sign = ['-'] → IsDigits digits →
        IsExponent (letter :: sign ++ digits)

/-- A number. -/
inductive IsNumber : Text → Prop
  | parts {sign whole fraction exponent : Text} : sign = [] ∨ sign = ['-'] → IsWhole whole →
      IsFraction fraction → IsExponent exponent →
        IsNumber (sign ++ whole ++ fraction ++ exponent)

/-- A hexadecimal digit. -/
def IsHexDigit (c : Char) : Prop :=
  c.isDigit = true ∨ ('a' ≤ c ∧ c ≤ 'f') ∨ ('A' ≤ c ∧ c ≤ 'F')

instance : DecidablePred IsHexDigit := fun c =>
  inferInstanceAs (Decidable (c.isDigit = true ∨ ('a' ≤ c ∧ c ≤ 'f') ∨ ('A' ≤ c ∧ c ≤ 'F')))

/-- A character of a string, by itself or by an escape. -/
inductive IsCharacter : Text → Prop
  | itself {c : Char} : 0x20 ≤ c.toNat → c ≠ '\x22' → c ≠ '\\' → IsCharacter [c]
  | escape {c : Char} : c ∈ ['\x22', '\\', '/', 'b', 'f', 'n', 'r', 't'] → IsCharacter ['\\', c]
  | code {digits : Text} : digits.length = 4 → (∀ c ∈ digits, IsHexDigit c) →
      IsCharacter ('\\' :: 'u' :: digits)

/-- A string. -/
inductive IsString : Text → Prop
  | characters {parts : List Text} : (∀ part ∈ parts, IsCharacter part) →
      IsString ('\x22' :: parts.flatten ++ ['\x22'])

/-- A text of blanks. -/
def IsBlank (text : Text) : Prop := ∀ c ∈ text, c = ' ' ∨ c = '\t' ∨ c = '\n' ∨ c = '\r'

/-- A mark with blanks around it. -/
inductive IsMark (mark : Char) : Text → Prop
  | blanks {before after : Text} : IsBlank before → IsBlank after →
      IsMark mark (before ++ mark :: after)

/-- The parts of the grammar that are made of one another. -/
inductive Part where
  | value
  | array
  | object
  /-- The values in an array. -/
  | elements
  | member
  /-- The members of an object. -/
  | members

/-- The texts of the grammar. -/
inductive Derives : Part → Text → Prop
  | null : Derives .value "null"
  | true : Derives .value "true"
  | false : Derives .value "false"
  | number {text : Text} : IsNumber text → Derives .value text
  | string {text : Text} : IsString text → Derives .value text
  | ofArray {text : Text} : Derives .array text → Derives .value text
  | ofObject {text : Text} : Derives .object text → Derives .value text
  | emptyArray {opening closing : Text} : IsMark '[' opening → IsMark ']' closing →
      Derives .array (opening ++ closing)
  | array {opening elements closing : Text} : IsMark '[' opening → Derives .elements elements →
      IsMark ']' closing → Derives .array (opening ++ elements ++ closing)
  | element {text : Text} : Derives .value text → Derives .elements text
  | elements {first comma rest : Text} : Derives .value first → IsMark ',' comma →
      Derives .elements rest → Derives .elements (first ++ comma ++ rest)
  | emptyObject {opening closing : Text} : IsMark '\x7b' opening → IsMark '\x7d' closing →
      Derives .object (opening ++ closing)
  | object {opening members closing : Text} : IsMark '\x7b' opening → Derives .members members →
      IsMark '\x7d' closing → Derives .object (opening ++ members ++ closing)
  | member {name colon value : Text} : IsString name → IsMark ':' colon → Derives .value value →
      Derives .member (name ++ colon ++ value)
  | lastMember {text : Text} : Derives .member text → Derives .members text
  | members {first comma rest : Text} : Derives .member first → IsMark ',' comma →
      Derives .members rest → Derives .members (first ++ comma ++ rest)

/-! ## Outside of strings -/

/-- A place in a text. -/
inductive Place where
  | outside
  | inside
  /-- In a string, behind a backslash. -/
  | escaped
  deriving DecidableEq, Repr

/-- The place behind a character. -/
def Place.behind : Place → Char → Place
  | .outside, c => if c = '\x22' then .inside else .outside
  | .inside, c => if c = '\x22' then .outside else if c = '\\' then .escaped else .inside
  | .escaped, _ => .inside

/-- The place behind a text. -/
def Place.behindAll (place : Place) (text : Text) : Place := text.foldl Place.behind place

/-- What is written outside of strings from a place on, with a quotation mark for every string
that starts there. -/
def outsideFrom (place : Place) : Text → Text
  | [] => []
  | c :: rest =>
    let shown := outsideFrom (place.behind c) rest
    if place = .outside then c :: shown else shown

/-- What is written outside of the strings of a text. -/
def outside (text : Text) : Text := outsideFrom .outside text

theorem behindAll_append (place : Place) (text other : Text) :
    place.behindAll (text ++ other) = (place.behindAll text).behindAll other :=
  List.foldl_append

/-- Every string that starts in a text ends in it. -/
def IsClosed (text : Text) : Prop := Place.outside.behindAll text = .outside

theorem outsideFrom_append (place : Place) (text other : Text) :
    outsideFrom place (text ++ other) =
      outsideFrom place text ++ outsideFrom (place.behindAll text) other := by
  induction text generalizing place with
  | nil => rfl
  | cons c rest ih =>
    rw [List.cons_append, outsideFrom, outsideFrom, ih (place.behind c)]
    split <;> rfl

theorem IsClosed.outside_append (h : IsClosed text) (other : Text) :
    outside (text ++ other) = outside text ++ outside other := by
  rw [outside, outsideFrom_append, h]
  rfl

theorem IsClosed.append (h : IsClosed text) (h' : IsClosed other) : IsClosed (text ++ other) := by
  rw [IsClosed, behindAll_append, h]
  exact h'

theorem isClosed_cons (hc : c ≠ '\x22') (h : IsClosed text) : IsClosed (c :: text) := by
  have hbehind : Place.outside.behind c = .outside := if_neg hc
  rwa [IsClosed, Place.behindAll, List.foldl_cons, hbehind]

theorem outside_cons (hc : c ≠ '\x22') (text : Text) : outside (c :: text) = c :: outside text := by
  have hbehind : Place.outside.behind c = .outside := if_neg hc
  rw [outside, outsideFrom, hbehind, if_pos rfl, ← outside]

/-- A text without quotation marks is outside of strings. -/
theorem isClosed_of_not_mem (h : '\x22' ∉ text) : IsClosed text ∧ outside text = text := by
  induction text with
  | nil => exact ⟨rfl, rfl⟩
  | cons c rest ih =>
    rw [List.mem_cons, not_or] at h
    obtain ⟨hclosed, houtside⟩ := ih h.2
    exact ⟨isClosed_cons (Ne.symm h.1) hclosed, by rw [outside_cons (Ne.symm h.1), houtside]⟩

/-! ### Strings -/

/-- A text that is inside of a string wherever it starts there. -/
def StaysInside (text : Text) : Prop :=
  Place.inside.behindAll text = .inside ∧ outsideFrom .inside text = []

theorem StaysInside.append (h : StaysInside text) (h' : StaysInside other) :
    StaysInside (text ++ other) := by
  rw [StaysInside, behindAll_append, outsideFrom_append, h.1, h.2]
  exact h'

theorem staysInside_of_forall_ne (h : ∀ c ∈ text, c ≠ '\x22' ∧ c ≠ '\\') : StaysInside text := by
  induction text with
  | nil => exact ⟨rfl, rfl⟩
  | cons c rest ih =>
    rw [List.forall_mem_cons] at h
    have hbehind : Place.inside.behind c = .inside := by
      rw [Place.behind, if_neg h.1.1, if_neg h.1.2]
    rw [StaysInside, Place.behindAll, List.foldl_cons, outsideFrom, hbehind]
    exact ih h.2

theorem IsHexDigit.ne (h : IsHexDigit c) : c ≠ '\x22' ∧ c ≠ '\\' := by
  constructor
  · rintro rfl
    exact absurd h (by decide)
  · rintro rfl
    exact absurd h (by decide)

/-- No character of a string ends it. -/
theorem IsCharacter.staysInside (h : IsCharacter text) : StaysInside text := by
  cases h with
  | itself _ hquotation hbackslash =>
    exact staysInside_of_forall_ne (List.forall_mem_singleton.2 ⟨hquotation, hbackslash⟩)
  | escape _ => exact ⟨rfl, rfl⟩
  | @code digits _ hdigits =>
    have hinside : StaysInside digits := staysInside_of_forall_ne fun c hc => (hdigits c hc).ne
    exact hinside

/-- Nothing of a string but its opening mark is outside of it. -/
theorem IsString.isClosed (h : IsString text) : IsClosed text ∧ outside text = ['\x22'] := by
  obtain @⟨parts, hparts⟩ := h
  have hinside : StaysInside parts.flatten := by
    induction parts with
    | nil => exact ⟨rfl, rfl⟩
    | cons part rest ih =>
      rw [List.forall_mem_cons] at hparts
      exact hparts.1.staysInside.append (ih hparts.2)
  have hopening : Place.outside.behind '\x22' = .inside := rfl
  constructor
  · rw [IsClosed, List.cons_append, Place.behindAll, List.foldl_cons, hopening, ← Place.behindAll,
      behindAll_append, hinside.1]
    rfl
  · rw [outside, List.cons_append, outsideFrom, hopening, outsideFrom_append, hinside.1, hinside.2]
    rfl

/-! ### Names for what is not finite -/

/-- The names of the infinities and of NaN. -/
def nonFiniteNames : List Text := ["NaN", "Infinity", "-Infinity"]

/-- Outside of the strings of a text stands a name of an infinity or of NaN. -/
def NamesNonFinite (text : Text) : Prop := ∃ name ∈ nonFiniteNames, name <:+: outside text

/-- What follows a closed text is outside of it. -/
theorem NamesNonFinite.append_left (h : IsClosed text) (hother : NamesNonFinite other) :
    NamesNonFinite (text ++ other) := by
  obtain ⟨name, hname, hoccurs⟩ := hother
  refine ⟨name, hname, ?_⟩
  rw [h.outside_append]
  exact hoccurs.trans (List.suffix_append _ _).isInfix

theorem NamesNonFinite.append_right (h : NamesNonFinite text) (other : Text) :
    NamesNonFinite (text ++ other) := by
  obtain ⟨name, hname, hoccurs⟩ := h
  refine ⟨name, hname, ?_⟩
  rw [outside, outsideFrom_append]
  exact hoccurs.trans (List.prefix_append _ _).isInfix

/-- Closed, and free of the letters that these names start with outside of strings. -/
structure IsNameless (text : Text) : Prop where
  closed : IsClosed text
  free : 'N' ∉ outside text ∧ 'I' ∉ outside text

theorem IsNameless.not_namesNonFinite (h : IsNameless text) : ¬ NamesNonFinite text := by
  rintro ⟨name, hname, hoccurs⟩
  have hletters : ∀ name ∈ nonFiniteNames, 'N' ∈ name ∨ 'I' ∈ name := by decide
  rcases hletters name hname with hmem | hmem
  · exact h.free.1 (hoccurs.subset hmem)
  · exact h.free.2 (hoccurs.subset hmem)

theorem IsNameless.append (h : IsNameless text) (h' : IsNameless other) :
    IsNameless (text ++ other) where
  closed := h.closed.append h'.closed
  free := by
    rw [h.closed.outside_append, List.mem_append, List.mem_append, not_or, not_or]
    exact ⟨⟨h.free.1, h'.free.1⟩, h.free.2, h'.free.2⟩

/-- A text in which neither a string nor one of these names starts. -/
def IsPlain (text : Text) : Prop := '\x22' ∉ text ∧ 'N' ∉ text ∧ 'I' ∉ text

instance : DecidablePred IsPlain := fun text =>
  inferInstanceAs (Decidable ('\x22' ∉ text ∧ 'N' ∉ text ∧ 'I' ∉ text))

theorem IsPlain.isNameless (h : IsPlain text) : IsNameless text := by
  obtain ⟨hclosed, houtside⟩ := isClosed_of_not_mem h.1
  refine ⟨hclosed, ?_⟩
  rw [houtside]
  exact h.2

theorem IsPlain.append (h : IsPlain text) (h' : IsPlain other) : IsPlain (text ++ other) := by
  simp only [IsPlain, List.mem_append, not_or]
  exact ⟨⟨h.1, h'.1⟩, ⟨h.2.1, h'.2.1⟩, h.2.2, h'.2.2⟩

/-- A text of characters that are no such marks is plain. -/
theorem isPlain_of_forall {P : Char → Prop} (h : ∀ c ∈ text, P c) (hquotation : ¬ P '\x22')
    (hn : ¬ P 'N') (hi : ¬ P 'I') : IsPlain text :=
  ⟨fun hc => hquotation (h _ hc), fun hc => hn (h _ hc), fun hc => hi (h _ hc)⟩

theorem isPlain_of_isDigit (h : ∀ c ∈ text, c.isDigit = true) : IsPlain text :=
  isPlain_of_forall h (by decide) (by decide) (by decide)

theorem IsBlank.isPlain (h : IsBlank text) : IsPlain text :=
  isPlain_of_forall h (by decide) (by decide) (by decide)

theorem IsString.isNameless (h : IsString text) : IsNameless text := by
  obtain ⟨hclosed, houtside⟩ := h.isClosed
  refine ⟨hclosed, ?_⟩
  rw [houtside]
  decide

theorem IsMark.isNameless {mark : Char} (hmark : IsPlain [mark]) (h : IsMark mark text) :
    IsNameless text := by
  obtain ⟨hbefore, hafter⟩ := h
  exact (hbefore.isPlain.append (hmark.append hafter.isPlain)).isNameless

theorem IsWhole.isPlain (h : IsWhole text) : IsPlain text := by
  cases h with
  | zero => decide
  | leading hfirst _ hrest => exact isPlain_of_isDigit (List.forall_mem_cons.2 ⟨hfirst, hrest⟩)

theorem IsFraction.isPlain (h : IsFraction text) : IsPlain text := by
  cases h with
  | absent => decide
  | @digits digits hdigits =>
    have hpoint : IsPlain ['.'] := by decide
    exact hpoint.append (isPlain_of_isDigit hdigits.2)

theorem IsExponent.isPlain (h : IsExponent text) : IsPlain text := by
  cases h with
  | absent => decide
  | @digits letter sign digits hletter hsign hdigits =>
    have hfront : IsPlain (letter :: sign) := by
      rcases hletter with rfl | rfl <;> rcases hsign with rfl | rfl | rfl <;> decide
    exact hfront.append (isPlain_of_isDigit hdigits.2)

theorem IsNumber.isNameless (h : IsNumber text) : IsNameless text := by
  obtain ⟨hsign, hwhole, hfraction, hexponent⟩ := h
  have hfront : IsPlain [] ∧ IsPlain ['-'] := by decide
  rcases hsign with rfl | rfl
  · exact (((hfront.1.append hwhole.isPlain).append hfraction.isPlain).append
      hexponent.isPlain).isNameless
  · exact (((hfront.2.append hwhole.isPlain).append hfraction.isPlain).append
      hexponent.isPlain).isNameless

/-- A text of the grammar is closed, and nothing outside of its strings starts such a name. -/
theorem Derives.isNameless {part : Part} (h : Derives part text) : IsNameless text := by
  have hmark : ∀ {mark : Char} {text : Text}, mark ∈ ['[', ']', '\x7b', '\x7d', ',', ':'] →
      IsMark mark text → IsNameless text := by
    intro mark text hmem h
    refine h.isNameless ?_
    simp only [List.mem_cons, List.not_mem_nil, or_false] at hmem
    rcases hmem with rfl | rfl | rfl | rfl | rfl | rfl <;> decide
  induction h with
  | null | true | false => exact IsPlain.isNameless (by decide)
  | number h => exact h.isNameless
  | string h => exact h.isNameless
  | ofArray _ ih | ofObject _ ih | element _ ih | lastMember _ ih => exact ih
  | emptyArray hopening hclosing | emptyObject hopening hclosing =>
    exact (hmark (by decide) hopening).append (hmark (by decide) hclosing)
  | array hopening _ hclosing ih | object hopening _ hclosing ih =>
    exact ((hmark (by decide) hopening).append ih).append (hmark (by decide) hclosing)
  | elements _ hcomma _ hfirst hrest | members _ hcomma _ hfirst hrest =>
    exact (hfirst.append (hmark (by decide) hcomma)).append hrest
  | member hname hcolon _ ih =>
    exact (hname.isNameless.append (hmark (by decide) hcolon)).append ih

/-- In a text of the grammar no infinity and no NaN is named outside of strings. -/
theorem Derives.not_namesNonFinite {part : Part} (h : Derives part text) :
    ¬ NamesNonFinite text := h.isNameless.not_namesNonFinite

end Dissection.Json
