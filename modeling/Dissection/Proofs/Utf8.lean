import Dissection.Text.Utf8
import Mathlib.Tactic.SplitIfs

/-!
# Texts and their bytes

Every text has its bytes and no byte sequence has two texts, so decoding is the inverse of
encoding: a byte sequence is decoded exactly if it is what some text is encoded as.

A character beyond ASCII is a leading byte with trailing bytes, and the ranges that these bytes
may be from are just those that make its code point one that is neither a surrogate nor
encoded in fewer bytes.

## Main definitions

* `Utf8.Sequence` — a leading byte with all of the trailing bytes that it asks for.

## Main statements

* `Utf8.utf8EncodeChar_characterOf`, `Utf8.exists_sequence` — sequences are the characters
  beyond ASCII.
* `Utf8.decodeFrom_encode_append` — the bytes of a text are decoded, whatever follows.
* `Utf8.decode_eq_ok_iff` — decoding is the inverse of encoding.
-/

namespace Dissection.Utf8

variable {b low high t u w : UInt8} {tail bytes rest : List UInt8} {owed position : Nat} {c : Char}
  {text : Text}

/-! ## The bytes of a character -/

theorem toNat_ofNat (code : Nat) (h : code < 0xD800 ∨ 0xDFFF < code ∧ code < 0x110000) :
    (Char.ofNat code).toNat = code := by
  have hvalid : code.isValidChar := h
  rw [Char.ofNat, dif_pos hvalid]
  rfl

theorem toNat_lt (c : Char) : c.toNat < 0xD800 ∨ 0xDFFF < c.toNat ∧ c.toNat < 0x110000 := c.valid

theorem utf8EncodeChar_of_one (h : c.toNat < 0x80) :
    String.utf8EncodeChar c = [.ofNat c.toNat] := by
  rw [String.utf8EncodeChar]
  exact if_pos (Nat.le_of_lt_succ h)

theorem utf8EncodeChar_of_ascii (h : b < 0x80) :
    String.utf8EncodeChar (.ofNat b.toNat) = [b] := by
  have hb : b.toNat < 0x80 := UInt8.lt_iff_toNat_lt.1 h
  have hcode := toNat_ofNat b.toNat (.inl (Nat.lt_trans hb (by decide)))
  rw [utf8EncodeChar_of_one (by rwa [hcode]), hcode, UInt8.ofNat_toNat]

theorem utf8EncodeChar_of_two (h : 0x80 ≤ c.toNat) (h' : c.toNat < 0x800) :
    String.utf8EncodeChar c = [.ofNat (0xC0 + c.toNat / 64), .ofNat (0x80 + c.toNat % 64)] := by
  have hlead : c.toNat / 64 % 0x20 + 0xC0 = 0xC0 + c.toNat / 64 := by omega
  rw [← hlead, Nat.add_comm 0x80, String.utf8EncodeChar]
  exact (if_neg (Nat.not_le.2 h)).trans (if_pos (Nat.le_of_lt_succ h'))

theorem utf8EncodeChar_of_three (h : 0x800 ≤ c.toNat) (h' : c.toNat < 0x10000) :
    String.utf8EncodeChar c =
      [.ofNat (0xE0 + c.toNat / 4096), .ofNat (0x80 + c.toNat / 64 % 64),
        .ofNat (0x80 + c.toNat % 64)] := by
  have hlead : c.toNat / 4096 % 0x10 + 0xE0 = 0xE0 + c.toNat / 4096 := by omega
  have htwo : ¬ c.val.toNat ≤ 0x7F := Nat.not_le.2 (Nat.lt_of_lt_of_le (by omega) h)
  rw [← hlead, Nat.add_comm 0x80, Nat.add_comm 0x80, String.utf8EncodeChar]
  exact (if_neg htwo).trans ((if_neg (Nat.not_le.2 h)).trans (if_pos (Nat.le_of_lt_succ h')))

theorem utf8EncodeChar_of_four (h : 0x10000 ≤ c.toNat) :
    String.utf8EncodeChar c =
      [.ofNat (0xF0 + c.toNat / 262144), .ofNat (0x80 + c.toNat / 4096 % 64),
        .ofNat (0x80 + c.toNat / 64 % 64), .ofNat (0x80 + c.toNat % 64)] := by
  have hlead : c.toNat / 262144 % 0x08 + 0xF0 = 0xF0 + c.toNat / 262144 := by
    have hc := toNat_lt c
    omega
  have htwo : ¬ c.val.toNat ≤ 0x7F := Nat.not_le.2 (Nat.lt_of_lt_of_le (by omega) h)
  have hthree : ¬ c.val.toNat ≤ 0x7FF := Nat.not_le.2 (Nat.lt_of_lt_of_le (by omega) h)
  rw [← hlead, Nat.add_comm 0x80, Nat.add_comm 0x80, Nat.add_comm 0x80, String.utf8EncodeChar]
  exact (if_neg htwo).trans ((if_neg hthree).trans (if_neg (Nat.not_le.2 h)))

/-! ## Sequences -/

/-- A leading byte with all of the trailing bytes that it asks for. -/
def Sequence (b : UInt8) (tail : List UInt8) : Prop :=
  match lead? b with
  | none => False
  | some (owed, low, high) => tail.length = owed ∧ trailing low high owed tail = tail

theorem Sequence.lead (h : Sequence b tail) :
    ∃ low high, lead? b = some (tail.length, low, high) ∧
      trailing low high tail.length tail = tail := by
  unfold Sequence at h
  split at h
  · cases h
  · next owed low high hlead =>
    obtain ⟨rfl, htail⟩ := h
    exact ⟨low, high, hlead, htail⟩

theorem sequence_two_iff :
    Sequence b [t] ↔ (0xC2 ≤ b.toNat ∧ b.toNat < 0xE0) ∧ 0x80 ≤ t.toNat ∧ t.toNat ≤ 0xBF := by
  simp only [Sequence, lead?, UInt8.lt_iff_toNat_lt, ← UInt8.toNat_inj, UInt8.reduceToNat]
  split_ifs <;> simp [trailing, UInt8.le_iff_toNat_le] <;> omega

/-- No three bytes are a character that two bytes are, or a surrogate. -/
theorem sequence_three_iff :
    Sequence b [t, u] ↔ (0xE0 ≤ b.toNat ∧ b.toNat < 0xF0) ∧
      (0x80 ≤ t.toNat ∧ t.toNat ≤ 0xBF ∧ (b.toNat = 0xE0 → 0xA0 ≤ t.toNat) ∧
        (b.toNat = 0xED → t.toNat ≤ 0x9F)) ∧ 0x80 ≤ u.toNat ∧ u.toNat ≤ 0xBF := by
  simp only [Sequence, lead?, UInt8.lt_iff_toNat_lt, ← UInt8.toNat_inj, UInt8.reduceToNat]
  split_ifs <;> simp [trailing, UInt8.le_iff_toNat_le] <;> grind

/-- No four bytes are a character that three bytes are, or beyond the last code point. -/
theorem sequence_four_iff :
    Sequence b [t, u, w] ↔ (0xF0 ≤ b.toNat ∧ b.toNat ≤ 0xF4) ∧
      (0x80 ≤ t.toNat ∧ t.toNat ≤ 0xBF ∧ (b.toNat = 0xF0 → 0x90 ≤ t.toNat) ∧
        (b.toNat = 0xF4 → t.toNat ≤ 0x8F)) ∧ (0x80 ≤ u.toNat ∧ u.toNat ≤ 0xBF) ∧
      0x80 ≤ w.toNat ∧ w.toNat ≤ 0xBF := by
  simp only [Sequence, lead?, UInt8.lt_iff_toNat_lt, ← UInt8.toNat_inj, UInt8.reduceToNat]
  split_ifs <;> simp [trailing, UInt8.le_iff_toNat_le] <;> grind

theorem Sequence.length (h : Sequence b tail) :
    tail.length = 1 ∨ tail.length = 2 ∨ tail.length = 3 := by
  obtain ⟨low, high, hlead, -⟩ := h.lead
  unfold lead? at hlead
  split_ifs at hlead
  all_goals simp only [Option.some.injEq, Prod.mk.injEq] at hlead; omega

theorem Sequence.not_ascii (h : Sequence b tail) : ¬ b < 0x80 := by
  obtain ⟨low, high, hlead, -⟩ := h.lead
  intro hb
  have hnone : b < 0xC2 := UInt8.lt_trans hb (by decide)
  rw [lead?, if_pos hnone] at hlead
  cases hlead

/-- A sequence is the bytes of its character. -/
theorem utf8EncodeChar_characterOf (h : Sequence b tail) :
    String.utf8EncodeChar (characterOf b tail) = b :: tail := by
  match tail, h with
  | [], h | _ :: _ :: _ :: _ :: _, h =>
    have hlength := h.length
    simp at hlength
  | [t], h =>
    obtain ⟨hb, ht⟩ := sequence_two_iff.1 h
    have hcode := toNat_ofNat (b.toNat % 32 * 64 + t.toNat % 64) (by omega)
    change (characterOf b [t]).toNat = _ at hcode
    rw [utf8EncodeChar_of_two (by omega) (by omega), hcode]
    simp only [List.cons.injEq, ← UInt8.toNat_inj, UInt8.toNat_ofNat', and_true]
    omega
  | [t, u], h =>
    obtain ⟨hb, ht, hu⟩ := sequence_three_iff.1 h
    have hcode := toNat_ofNat
      ((b.toNat % 16 * 64 + t.toNat % 64) * 64 + u.toNat % 64) (by omega)
    change (characterOf b [t, u]).toNat = _ at hcode
    rw [utf8EncodeChar_of_three (by omega) (by omega), hcode]
    simp only [List.cons.injEq, ← UInt8.toNat_inj, UInt8.toNat_ofNat', and_true]
    omega
  | [t, u, w], h =>
    obtain ⟨hb, ht, hu, hw⟩ := sequence_four_iff.1 h
    have hcode := toNat_ofNat
      (((b.toNat % 8 * 64 + t.toNat % 64) * 64 + u.toNat % 64) * 64 + w.toNat % 64) (by omega)
    change (characterOf b [t, u, w]).toNat = _ at hcode
    rw [utf8EncodeChar_of_four (by omega), hcode]
    simp only [List.cons.injEq, ← UInt8.toNat_inj, UInt8.toNat_ofNat', and_true]
    omega

/-- The bytes of a character beyond ASCII are a sequence. -/
theorem exists_sequence (h : 0x80 ≤ c.toNat) :
    ∃ b tail, String.utf8EncodeChar c = b :: tail ∧ Sequence b tail := by
  have hc := toNat_lt c
  by_cases htwo : c.toNat < 0x800
  · refine ⟨_, _, utf8EncodeChar_of_two h htwo, sequence_two_iff.2 ?_⟩
    simp only [UInt8.toNat_ofNat']
    omega
  by_cases hthree : c.toNat < 0x10000
  · refine ⟨_, _, utf8EncodeChar_of_three (by omega) hthree, sequence_three_iff.2 ?_⟩
    simp only [UInt8.toNat_ofNat']
    omega
  · refine ⟨_, _, utf8EncodeChar_of_four (by omega), sequence_four_iff.2 ?_⟩
    simp only [UInt8.toNat_ofNat']
    omega

theorem utf8EncodeChar_injective : Function.Injective String.utf8EncodeChar := by
  intro c d h
  have hc := ByteArray.utf8DecodeChar?_utf8EncodeChar_append (b := .empty) (c := c)
  rw [h, ByteArray.utf8DecodeChar?_utf8EncodeChar_append] at hc
  exact (Option.some.inj hc).symm

/-! ## Decoding -/

theorem trailing_append (h : trailing low high tail.length tail = tail) (rest : List UInt8) :
    trailing low high tail.length (tail ++ rest) = tail := by
  induction tail generalizing low high with
  | nil => rfl
  | cons t tail ih =>
    simp only [List.length_cons, trailing, List.cons_append] at h ⊢
    split at h
    · next ht => rw [if_pos ht, ih (List.cons.inj h).2]
    · cases h

theorem trailing_append_drop (h : (trailing low high owed rest).length = owed) :
    trailing low high owed rest ++ rest.drop owed = rest := by
  induction owed generalizing low high rest with
  | zero => rfl
  | succ owed ih =>
    cases rest with
    | nil => cases h
    | cons t rest =>
      rw [trailing] at h ⊢
      split at h
      · next ht =>
        rw [if_pos ht, List.drop_succ_cons, List.cons_append, ih (Nat.succ.inj h)]
      · cases h

theorem trailing_trailing :
    trailing low high owed (trailing low high owed rest) = trailing low high owed rest := by
  induction owed generalizing low high rest with
  | zero => rfl
  | succ owed ih =>
    cases rest with
    | nil => rfl
    | cons t rest =>
      simp only [trailing]
      split
      · next ht => rw [trailing, if_pos ht, ih]
      · rfl

/-- What is found behind a leading byte, as many bytes as it asks for, makes it a sequence. -/
theorem sequence_of_lead (hlead : lead? b = some (owed, low, high))
    (h : (trailing low high owed rest).length = owed) :
    Sequence b (trailing low high owed rest) := by
  unfold Sequence
  rw [hlead]
  exact ⟨h, trailing_trailing⟩

theorem decodeFrom_ascii (hb : b < 0x80) :
    decodeFrom position (b :: rest) =
      (Char.ofNat b.toNat :: (decodeFrom (position + 1) rest).1,
        (decodeFrom (position + 1) rest).2) := by
  rw [decodeFrom, if_pos hb]

theorem decodeFrom_sequence (h : Sequence b tail) :
    decodeFrom position (b :: (tail ++ rest)) =
      (characterOf b tail :: (decodeFrom (position + 1 + tail.length) rest).1,
        (decodeFrom (position + 1 + tail.length) rest).2) := by
  obtain ⟨low, high, hlead, htail⟩ := h.lead
  rw [decodeFrom, if_neg h.not_ascii, hlead]
  simp only [trailing_append htail, if_true, List.drop_left]

/-- The bytes of a character are decoded, whatever follows. -/
theorem decodeFrom_utf8EncodeChar_append (position : Nat) (c : Char) (rest : List UInt8) :
    ∃ next, decodeFrom position (String.utf8EncodeChar c ++ rest) =
      (c :: (decodeFrom next rest).1, (decodeFrom next rest).2) := by
  by_cases hc : c.toNat < 0x80
  · have hb : UInt8.ofNat c.toNat < 0x80 := by
      simp only [UInt8.lt_iff_toNat_lt, UInt8.toNat_ofNat', UInt8.reduceToNat]
      omega
    have htoNat : (UInt8.ofNat c.toNat).toNat = c.toNat := by
      rw [UInt8.toNat_ofNat']
      omega
    refine ⟨position + 1, ?_⟩
    rw [utf8EncodeChar_of_one hc, List.singleton_append, decodeFrom_ascii hb, htoNat,
      Char.ofNat_toNat]
  · obtain ⟨b, tail, hbytes, hsequence⟩ := exists_sequence (Nat.not_lt.1 hc)
    have hchar : characterOf b tail = c :=
      utf8EncodeChar_injective ((utf8EncodeChar_characterOf hsequence).trans hbytes.symm)
    refine ⟨position + 1 + tail.length, ?_⟩
    rw [hbytes, List.cons_append, decodeFrom_sequence hsequence, hchar]

/-- The bytes of a text are decoded, whatever follows. -/
theorem decodeFrom_encode_append (position : Nat) (text : Text) (rest : List UInt8) :
    ∃ next, decodeFrom position (encode text ++ rest) =
      (text ++ (decodeFrom next rest).1, (decodeFrom next rest).2) := by
  induction text generalizing position with
  | nil => exact ⟨position, rfl⟩
  | cons c text ih =>
    obtain ⟨next, hfirst⟩ :=
      decodeFrom_utf8EncodeChar_append position c (encode text ++ rest)
    obtain ⟨last, hrest⟩ := ih next
    refine ⟨last, ?_⟩
    rw [encode, List.flatMap_cons, List.append_assoc, ← encode, hfirst, hrest]
    rfl

/-- What is decoded to the end is the bytes of the text that it is decoded as. -/
theorem eq_encode_of_decodeFrom (h : decodeFrom position bytes = (text, .complete)) :
    bytes = encode text := by
  fun_induction decodeFrom position bytes generalizing text with
  | case1 =>
    cases h
    rfl
  | case2 position b rest hb found ending hrest ih =>
    cases h
    rw [encode, List.flatMap_cons, utf8EncodeChar_of_ascii hb, ih hrest]
    rfl
  | case4 position b rest hb owed low high hlead tail hlength found ending hrest =>
    rename_i ih
    cases h
    rw [encode, List.flatMap_cons, utf8EncodeChar_characterOf (sequence_of_lead hlead hlength),
      ← encode, ← ih hrest, List.cons_append, trailing_append_drop hlength]
  | case3 | case5 => cases h
  | case6 | case7 => split at h <;> cases h

/-- Decoding is the inverse of encoding. -/
theorem decode_eq_ok_iff : decode bytes = .ok text ↔ bytes = encode text := by
  have hdecode : decode bytes = .ok text ↔ decodeFrom 0 bytes = (text, .complete) := by
    unfold decode
    split
    · next found hfound => simp [hfound]
    · next found rest hfound => simp [hfound]
    · next found e hfound => simp [hfound]
  rw [hdecode]
  constructor
  · exact eq_encode_of_decodeFrom
  · rintro rfl
    obtain ⟨next, hnext⟩ := decodeFrom_encode_append 0 text []
    rw [List.append_nil] at hnext
    simp [hnext, decodeFrom]

end Dissection.Utf8
