/-!
# Texts and the literals searched for in them

A text is the list of its characters, so every search and every cut falls
between two characters, however many bytes a character takes when written.
The searches know no special characters: a literal is found where it stands
in the text, letter by letter.

A character is a Unicode scalar value.  A half of a surrogate pair is none, so no
text holds one: what can only be read with such a half is left open where it is
read, and nothing is said of it.

## Main definitions

* `Text.strip? literal text` — what follows `literal` at the front of `text`.
* `Text.cut? literal text` — what stands before and after the leftmost
  occurrence of `literal`.
* `Text.dropRepeats literal text` — `text` without the copies of `literal` at
  its front.
* `Text.cutLast? mark text` — what stands before and after the last `mark`.
-/

namespace Dissection

/-- A text, as the list of its characters. -/
abbrev Text := List Char

instance : Coe String Text := ⟨String.toList⟩

instance : LawfulBEq Text := inferInstance

namespace Text

/-! ## A literal at the front -/

/-- What follows `literal` at the front of a text, if it stands there. -/
def strip? : (literal text : Text) → Option Text
  | [], text => some text
  | _ :: _, [] => none
  | l :: literal, c :: text => if l = c then strip? literal text else none

theorem strip?_eq_some_iff {literal text rest : Text} :
    strip? literal text = some rest ↔ text = literal ++ rest := by
  fun_induction strip? literal text with
  | case1 => simp [eq_comm]
  | case2 => simp
  | case3 l literal text ih => simp [ih]
  | case4 l literal c text h => simp [Ne.symm h]

theorem length_of_strip? {literal text rest : Text} (h : strip? literal text = some rest) :
    text.length = literal.length + rest.length := by
  simp [strip?_eq_some_iff.1 h]

/-! ## The leftmost occurrence -/

/-- What stands before and after the leftmost occurrence of `literal`. -/
def cut? (literal : Text) : Text → Option (Text × Text)
  | [] => (strip? literal []).map fun after => ([], after)
  | c :: text =>
    match strip? literal (c :: text) with
    | some after => some ([], after)
    | none => (cut? literal text).map fun (before, after) => (c :: before, after)

/-- The two parts and the literal between them are the whole text. -/
theorem eq_of_cut? {literal text before after : Text}
    (h : cut? literal text = some (before, after)) : text = before ++ literal ++ after := by
  induction text generalizing before after with
  | nil =>
    obtain ⟨rest, hr, he⟩ := Option.map_eq_some_iff.1 h
    cases he
    simpa using strip?_eq_some_iff.1 hr
  | cons c text ih =>
    rw [cut?] at h
    split at h
    · next rest hr =>
      cases h
      simpa using strip?_eq_some_iff.1 hr
    · obtain ⟨⟨b, a⟩, hc, he⟩ := Option.map_eq_some_iff.1 h
      cases he
      simp [ih hc]

theorem length_of_cut? {literal text before after : Text}
    (h : cut? literal text = some (before, after)) :
    text.length = before.length + literal.length + after.length := by
  simp [eq_of_cut? h, Nat.add_assoc]

/-! ## Repeats of a literal -/

/-- The text without the copies of `literal` that stand one after another at
its front.  The empty literal stands nowhere. -/
def dropRepeats (literal text : Text) : Text :=
  if literal = [] then text
  else
    match _h : strip? literal text with
    | none => text
    | some rest => dropRepeats literal rest
termination_by text.length
decreasing_by
  have := length_of_strip? _h
  have := List.length_pos_iff.2 ‹literal ≠ []›
  omega

/-! ## The last mark -/

/-- What stands before and after the last occurrence of the character `mark`. -/
def cutLast? (mark : Char) : Text → Option (Text × Text)
  | [] => none
  | c :: text =>
    match cutLast? mark text with
    | some (before, after) => some (c :: before, after)
    | none => if c = mark then some ([], text) else none

/-! ## Padding -/

/-- The text filled up with blanks on its right to `width` characters. -/
def padRight (width : Nat) (text : Text) : Text :=
  text ++ List.replicate (width - text.length) ' '

/-- The text filled up with blanks on its left to `width` characters. -/
def padLeft (width : Nat) (text : Text) : Text :=
  List.replicate (width - text.length) ' ' ++ text

end Text

end Dissection
