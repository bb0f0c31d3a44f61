import Dissection.Proofs.Grammar
import Dissection.Proofs.Record

/-!
# References and placeholders

A template is read on its own, reference by reference, and never refused.  It still sees
the same placeholders as a pattern of the same text: where the text has a decomposition, each
placeholder's text is replaced and the literals stay, and where scanning stops at a placeholder
that is not closed, the same is done in front of it and the rest stays as it is.

Which texts are references is decided by the template alone, so what is put in for one of them
is not read again.

## Main definitions

* `Pattern.Unclosed` — a text that starts with an opening and is not closed.
* `Template.filled` — the parts of a decomposition with its placeholders replaced.

## Main statements

* `Pattern.exists_of_scan_eq_error` — what stands in front of where scanning fails.
* `Template.interpolate_of_decomposes` — a template is replaced along its decomposition.
* `Template.interpolate_of_scan` — a template is replaced along what is scanned.
-/

namespace Dissection

open Text

namespace Pattern

/-! ## Where scanning fails -/

/-- A text that starts with an opening and is not closed behind it. -/
def Unclosed (text : Text) : Prop := ∃ body, text = opening ++ body ∧ ¬ closing <:+: body

/-- Behind an opening scanning fails where a placeholder is not closed, and what stands
before it has a decomposition. -/
theorem exists_of_scanFrom_eq_error {position : Nat} {text : Text} {u : Unterminated}
    (h : scanFrom position text = .error u) :
    ∃ parts, Decomposes (gluedParts parts) [] parts ∧
      opening ++ text = gluedParts parts ++ u.rest ∧
      u.position = position + (gluedParts parts).length ∧ Unclosed u.rest := by
  fun_induction scanFrom position text with
  | case1 position text hc =>
    cases h
    exact ⟨[], ⟨rfl, by simp [opening], by simp, by simp⟩, rfl, rfl, text, rfl,
      cut?_eq_none_iff.1 hc⟩
  | case2 => cases h
  | case3 position text raw after hc delimiter next ho ih =>
    cases hs : scanFrom (position + opening.length + raw.length + closing.length +
        delimiter.length) next with
    | ok more => rw [hs] at h; cases h
    | error found =>
      rw [hs] at h
      cases h
      obtain ⟨parts, hparts, hnext, hposition, hunclosed⟩ := ih hs
      refine ⟨(raw, delimiter) :: parts, ⟨rfl, hparts.leading_free, ?_, ?_⟩, ?_, ?_, hunclosed⟩
      · exact List.forall_mem_cons.2
          ⟨not_infix_of_cut? (by simp [closing]) hc, hparts.raw_free⟩
      · exact List.forall_mem_cons.2
          ⟨not_infix_of_cut? (by simp [opening]) ho, hparts.delimiter_free⟩
      · rw [gluedParts_cons, eq_of_cut? hc, eq_of_cut? ho, List.append_assoc delimiter, hnext]
        simp only [List.append_assoc]
      · rw [hposition, gluedParts_cons]
        simp only [List.length_append]
        omega

/-- Scanning fails at an opening that is not closed, and what stands before it has a
decomposition. -/
theorem exists_of_scan_eq_error {text : Text} {u : Unterminated} (h : scan text = .error u) :
    ∃ leading parts, Decomposes (text.take u.position) leading parts ∧
      text.drop u.position = u.rest ∧ Unclosed u.rest := by
  rw [scan] at h
  split at h
  · cases h
  · next leading next hc =>
    cases hs : scanFrom leading.length next with
    | ok parts => rw [hs] at h; cases h
    | error found =>
      rw [hs] at h
      cases h
      obtain ⟨parts, hparts, hnext, hposition, hunclosed⟩ := exists_of_scanFrom_eq_error hs
      have htext : text = glued leading parts ++ u.rest := by
        rw [eq_of_cut? hc, List.append_assoc, hnext, glued, List.append_assoc]
      have hlength : u.position = (glued leading parts).length := by
        rw [hposition, glued, List.length_append]
      refine ⟨leading, parts, ?_, ?_, hunclosed⟩
      · rw [htext, hlength, List.take_left]
        exact ⟨rfl, not_infix_of_cut? (by simp [opening]) hc, hparts.raw_free,
          hparts.delimiter_free⟩
      · rw [htext, hlength, List.drop_left]

end Pattern

namespace Template

open Pattern

/-! ## Templates with a decomposition -/

variable {r : Record} {text leading tail : Text} {parts : List (Text × Text)}

/-- The parts of a decomposition with its placeholders replaced. -/
def filled (r : Record) (leading : Text) (parts : List (Text × Text)) :
    Except Value.Misfit Text := do
  let texts ← parts.mapM fun part => (substitute r part.1).map (· ++ part.2)
  return leading ++ texts.flatten

theorem filled_nil (r : Record) (leading : Text) : filled r leading [] = .ok leading := by
  simp [filled, pure, Except.pure, bind, Except.bind]

theorem filled_cons (r : Record) (leading raw delimiter : Text) (more : List (Text × Text)) :
    filled r leading ((raw, delimiter) :: more) = do
      let substituted ← substitute r raw
      let rest ← filled r delimiter more
      return leading ++ substituted ++ rest := by
  rw [filled, filled, List.mapM_cons]
  cases substitute r raw with
  | error m => rfl
  | ok substituted =>
    cases more.mapM fun part => (substitute r part.1).map (· ++ part.2) with
    | error m => rfl
    | ok texts => simp [bind, Except.bind, pure, Except.pure, Except.map]

/-- Where something stands for every placeholder, that is put in its place. -/
theorem filled_of_substitute (standing : Text → Text)
    (h : ∀ part ∈ parts, substitute r part.1 = .ok (standing part.1)) :
    filled r leading parts =
      .ok (leading ++ parts.flatMap fun part => standing part.1 ++ part.2) := by
  induction parts generalizing leading with
  | nil => simp [filled_nil]
  | cons part more ih =>
    obtain ⟨raw, delimiter⟩ := part
    obtain ⟨hraw, hmore⟩ := List.forall_mem_cons.1 h
    rw [filled_cons, hraw, ih hmore]
    simp [bind, Except.bind, pure, Except.pure]

/-- Without a value for any placeholder the parts stay as they are. -/
theorem filled_of_null (h : ∀ part ∈ parts, r.value (.text part.1) = .null) :
    filled r leading parts = .ok (glued leading parts) := by
  have hsubstitute : ∀ part ∈ parts,
      substitute r part.1 = .ok (opening ++ part.1 ++ closing) := fun part hp =>
    substitute_of_null (h part hp)
  rw [filled_of_substitute (fun raw => opening ++ raw ++ closing) hsubstitute]
  rfl

/-- A template is replaced along its decomposition; behind that, a reference that is not closed
stays. -/
theorem interpolate_of_decomposes (h : Decomposes text leading parts)
    (htail : tail = [] ∨ Unclosed tail) :
    interpolate r (text ++ tail) = (filled r leading parts).map (· ++ tail) := by
  induction parts generalizing text leading with
  | nil =>
    have htext : text = leading := by simpa [glued, gluedParts] using h.glued
    rw [htext, filled_nil]
    rcases htail with rfl | ⟨body, rfl, hbody⟩
    · rw [List.append_nil, interpolate_of_unopened (cut?_eq_none_iff.2 h.leading_free)]
      simp [Except.map]
    · rw [← List.append_assoc, interpolate_of_unclosed
        (cut?_append unbordered_opening h.leading_free body) (cut?_eq_none_iff.2 hbody)]
      simp [Except.map]
  | cons part more ih =>
    obtain ⟨raw, delimiter⟩ := part
    obtain ⟨hraw, hraws⟩ := List.forall_mem_cons.1 h.raw_free
    obtain ⟨hdelimiter, hdelimiters⟩ := List.forall_mem_cons.1 h.delimiter_free
    have hmore : Decomposes (glued delimiter more) delimiter more :=
      ⟨rfl, hdelimiter, hraws, hdelimiters⟩
    have htext : text ++ tail =
        leading ++ opening ++ (raw ++ closing ++ (glued delimiter more ++ tail)) := by
      rw [h.glued]
      simp [glued, gluedParts_cons]
    rw [htext, interpolate_of_reference (cut?_append unbordered_opening h.leading_free _)
      (cut?_append unbordered_closing hraw _), ih hmore, filled_cons]
    cases substitute r raw with
    | error m => rfl
    | ok substituted =>
      cases filled r delimiter more with
      | error m => rfl
      | ok rest => simp [bind, Except.bind, pure, Except.pure, Except.map]

/-- A template that is one reference becomes what stands for it. -/
theorem interpolate_reference {name : Text} (h : ¬ closing <:+: name) :
    interpolate r (opening ++ name ++ closing) = substitute r name := by
  have hdecomposes : Decomposes (opening ++ name ++ closing) [] [(name, [])] :=
    ⟨by simp [glued, gluedParts], by simp [opening], by simpa using h, by simp [opening]⟩
  have hfilled := interpolate_of_decomposes (r := r) hdecomposes (.inl rfl)
  rw [List.append_nil, filled_cons, filled_nil] at hfilled
  rw [hfilled]
  cases substitute r name <;> simp [bind, Except.bind, pure, Except.pure, Except.map]

/-- A template is replaced along what is scanned.  Where scanning succeeds, the literals stay
and each placeholder's text is replaced; where it fails at a placeholder that is not closed, the
same happens to what stands before it, and it stays with all that follows.  A reference becomes
the text of the field's value, or stays as it is written if the field is absent or null; so
without a value for any placeholder the whole template stays.  Only a value that has no text
keeps a template from being filled in. -/
theorem interpolate_of_scan (r : Record) (template : Text) :
    (∀ leading parts, scan template = .ok (leading, parts) →
        interpolate r template = filled r leading parts ∧
          (∀ standing : Text → Text,
            (∀ part ∈ parts, substitute r part.1 = .ok (standing part.1)) →
            interpolate r template =
              .ok (leading ++ parts.flatMap fun part => standing part.1 ++ part.2)) ∧
          ((∀ part ∈ parts, r.value (.text part.1) = .null) →
            interpolate r template = .ok template)) ∧
      (∀ u, scan template = .error u →
        ∃ leading parts, scan (template.take u.position) = .ok (leading, parts) ∧
          template.drop u.position = u.rest ∧ Unclosed u.rest ∧
          interpolate r template =
            (filled r leading parts).map (· ++ template.drop u.position) ∧
          (∀ standing : Text → Text,
            (∀ part ∈ parts, substitute r part.1 = .ok (standing part.1)) →
            interpolate r template =
              .ok (leading ++ parts.flatMap (fun part => standing part.1 ++ part.2) ++
                template.drop u.position)) ∧
          ((∀ part ∈ parts, r.value (.text part.1) = .null) →
            interpolate r template = .ok template)) ∧
      ∀ name,
        (r.value (.text name) = .null → substitute r name = .ok (opening ++ name ++ closing)) ∧
        ∀ v, r.get? (.text name) = some v → v ≠ .null →
          substitute r name = if v.hasText then .ok v.display else .error .notShown := by
  refine ⟨?_, ?_, fun name => ⟨substitute_of_null, fun v => substitute_of_value⟩⟩
  · intro leading parts hs
    have hd := scan_eq_ok_iff.1 hs
    have hfilled : interpolate r template = filled r leading parts := by
      have h := interpolate_of_decomposes (r := r) hd (.inl rfl)
      rw [List.append_nil] at h
      rw [h]
      cases filled r leading parts <;> simp [Except.map]
    refine ⟨hfilled, fun standing h => ?_, fun hnull => ?_⟩
    · rw [hfilled, filled_of_substitute standing h]
    · rw [hfilled, filled_of_null hnull, ← hd.glued]
  · intro u hs
    obtain ⟨leading, parts, hd, hdrop, hunclosed⟩ := exists_of_scan_eq_error hs
    have hfilled : interpolate r template =
        (filled r leading parts).map (· ++ template.drop u.position) := by
      have h := interpolate_of_decomposes (r := r) hd (.inr hunclosed)
      rwa [← hdrop, List.take_append_drop] at h
    refine ⟨leading, parts, scan_eq_ok_iff.2 hd, hdrop, hunclosed, hfilled,
      fun standing h => ?_, fun hnull => ?_⟩
    · rw [hfilled, filled_of_substitute standing h]
      rfl
    · rw [hfilled, filled_of_null hnull, ← hd.glued, Except.map, List.take_append_drop]

/-- What is put in is not read again. -/
example : interpolate (Table.ofList [(.text "a", .text "%\x7bb\x7d"), (.text "b", .text "1")])
    "<%\x7ba\x7d>%\x7bc\x7d%\x7bb" = .ok "<%\x7bb\x7d>%\x7bc\x7d%\x7bb".toList := by
  decide +kernel

end Template

end Dissection
