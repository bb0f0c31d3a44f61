import Dissection.Proofs.Numeral
import Dissection.Proofs.OneLine
import Dissection.Proofs.PlainForm

/-!
# Reading what was written

A value of null, truth values, integers, texts, lists and maps under texts is read from JSON as
it was written.  It ends where it was written to end, as long as a value is followed by a mark
that goes on after it or by nothing.

A string is read character by character, and every character is spelled by itself or by an
escape.  Every value and every item takes one unit of fuel and at least one character, so there
is fuel enough if there is as much of it as there are characters.

## Main definitions

* `Value.Legible` — a value that is read as it was written.
* `Json.Ends` — what can follow a value.
* `Json.ReadsBack` — reading a value as it was written, whatever follows.

## Main statements

* `Json.string_quoted`, `Json.numberFrom_ofInt` — strings and integers.
* `Json.readsBack` — any value, whatever follows.
* `Json.read_write` — a whole text.
* `Value.Legible.exists_rendered` — what is shown of a value.
-/

namespace Dissection

open Text

/-! ## Values that are read as they were written -/

namespace Value

/-- A value of null, truth values, integers that can be shown, texts, lists, and maps under
distinct texts. -/
inductive Legible : Value → Prop
  | null : Legible .null
  | bool (b : Bool) : Legible (.bool b)
  | int {n : Int} : Numeral.isShown n.natAbs = true → Legible (.int n)
  | text (t : Text) : Legible (.text t)
  | list {items : List Value} : (∀ v ∈ items, Legible v) → Legible (.list items)
  | map {entries : List (Value × Value)} :
      (entries.map Prod.fst).Pairwise (fun a b => (a == b) = false) →
      (∀ entry ∈ entries, ∃ name, entry.1 = .text name) →
      (∀ entry ∈ entries, Legible entry.2) → Legible (.map entries)

end Value

namespace Json

variable {rest after text name : Text} {fallback : Fallback} {v : Value} {opened fuel : Nat}

/-! ## Strings -/

theorem hexValue?_hexDigit : ∀ {d : Nat}, d < 16 → hexValue? (Quoted.hexDigit d) = some d := by
  decide

/-- Four digits are read as the number that they were written for. -/
theorem fourDigits?_hex {n : Nat} (hn : n < 65536) (c : Char) (rest : Text) :
    fourDigits? (Quoted.hex 4 n ++ c :: rest) = some (n, c :: rest) := by
  have hdigit : ∀ m, hexValue? (Quoted.hexDigit (m % 16)) = some (m % 16) := by
    intro m
    exact hexValue?_hexDigit (Nat.mod_lt m (by decide))
  have hspelled : ((n / 16 / 16 / 16 % 16 * 16 + n / 16 / 16 % 16) * 16 + n / 16 % 16) * 16 +
      n % 16 = n := by omega
  simp [Quoted.hex, fourDigits?, codePoint?, hdigit, hspelled]

/-- An escape is read as the character that it stands for. -/
theorem stringFrom_escaped {escape : Text} {c : Char} (hrest : rest ≠ [])
    (hescape : escaped (escape ++ rest) = .ok (c, rest))
    (h : stringFrom opened fuel rest = .ok (text, after)) :
    stringFrom opened (fuel + 1) ('\\' :: escape ++ rest) = .ok (c :: text, after) := by
  have hne : escape ++ rest ≠ [] := by simp [hrest]
  simp [stringFrom, hne, hescape, h, bind, Except.bind, pure, Except.pure]

theorem escaped_control {c : Char} (hc : c.toNat < 0x20) (hrest : rest ≠ []) :
    escaped ('u' :: Quoted.hex 4 c.toNat ++ rest) = .ok (c, rest) := by
  cases rest with
  | nil => exact absurd rfl hrest
  | cons next rest =>
    have hdigits := fourDigits?_hex (by omega : c.toNat < 65536) next rest
    have hhigh : ¬ (0xD800 ≤ c.toNat ∧ c.toNat < 0xDC00) := by omega
    have hcharacter : characterOf c.toNat = c := by
      rw [characterOf, if_neg (by omega), Char.ofNat_toNat]
    simp only [escaped, List.cons_append, if_true, hdigits, hhigh, if_false, hcharacter]

/-- A character is read as it was written, by itself or by its escape. -/
theorem stringFrom_character (c : Char) (hrest : rest ≠ [])
    (h : stringFrom opened fuel rest = .ok (text, after)) :
    stringFrom opened (fuel + 1) (character c ++ rest) = .ok (c :: text, after) := by
  unfold character
  split_ifs with hquotation hbackslash hfeed hreturn htab hback hform hcontrol
  · exact stringFrom_escaped hrest (by simp [escaped, hquotation]) h
  · exact stringFrom_escaped hrest (by simp [escaped, hbackslash]) h
  · exact stringFrom_escaped hrest (by simp [escaped, hfeed]) h
  · exact stringFrom_escaped hrest (by simp [escaped, hreturn]) h
  · exact stringFrom_escaped hrest (by simp [escaped, htab]) h
  · exact stringFrom_escaped hrest (by simp [escaped, hback]) h
  · exact stringFrom_escaped hrest (by simp [escaped, hform]) h
  · exact stringFrom_escaped hrest (escaped_control hcontrol hrest) h
  · simp [stringFrom, hquotation, hbackslash, hcontrol, h, bind, Except.bind, pure, Except.pure]

/-- A string is read up to its closing mark. -/
theorem stringFrom_flatMap_character (opened : Nat) (text rest : Text) (h : text.length < fuel) :
    stringFrom opened fuel (text.flatMap character ++ '\x22' :: rest) = .ok (text, rest) := by
  induction text generalizing fuel with
  | nil =>
    obtain ⟨fuel, rfl⟩ := Nat.exists_eq_add_one.2 h
    simp [stringFrom]
  | cons c text ih =>
    obtain ⟨fuel, rfl⟩ := Nat.exists_eq_add_one.2 (Nat.zero_lt_of_lt h)
    have hlength : text.length < fuel := by simpa using h
    rw [List.flatMap_cons, List.append_assoc]
    exact stringFrom_character c (by simp) (ih hlength)

theorem length_le_flatMap_character (text : Text) :
    text.length ≤ (text.flatMap character).length := by
  induction text with
  | nil => simp
  | cons c text ih =>
    have hc : 0 < (character c).length := by
      unfold character
      split_ifs <;> simp
    simp only [List.flatMap_cons, List.length_append, List.length_cons]
    omega

/-- A string is read as the text that it was written for. -/
theorem string_quoted (text rest : Text) :
    string (text.flatMap character ++ '\x22' :: rest) = .ok (text, rest) := by
  have hlength := length_le_flatMap_character text
  refine stringFrom_flatMap_character _ text rest ?_
  simp only [List.length_append, List.length_cons]
  omega

/-! ## Integers -/

/-- What can follow a value: a mark that goes on after it, or nothing. -/
def Ends (rest : Text) : Prop := ∀ c ∈ rest.head?, c = ',' ∨ c = ']' ∨ c = '\x7d'

theorem Ends.not_digit (h : Ends rest) : ∀ c ∈ rest.head?, Digit.ascii? c = none := by
  intro c hc
  rcases h c hc with rfl | rfl | rfl <;> rfl

theorem Ends.fractionPart (h : Ends rest) : fractionPart rest = none := by
  cases rest with
  | nil => rfl
  | cons c rest => rcases h c rfl with rfl | rfl | rfl <;> rfl

theorem Ends.exponentPart (h : Ends rest) : exponentPart rest = none := by
  cases rest with
  | nil => rfl
  | cons c rest => rcases h c rfl with rfl | rfl | rfl <;> rfl

/-- An integer is read as it was written. -/
theorem numberFrom_ofInt {n : Int} (hn : Numeral.isShown n.natAbs = true) (hrest : Ends rest) :
    numberFrom (Numeral.ofInt n ++ rest) = .ok (.int n, rest) := by
  have hwhole := wholePart_ofNat_append n.natAbs hrest.not_digit
  have hlength : (Numeral.digitsOf n.natAbs).length ≤ Numeral.limit := by
    simpa [Numeral.isShown] using hn
  have hspelled := Numeral.ofDigits_digitsOf n.natAbs
  obtain ⟨d, more, hdigits⟩ := Numeral.digitsOf_eq_cons n.natAbs
  rw [hdigits] at hwhole hlength hspelled
  cases n with
  | ofNat n =>
    -- what starts with a digit does not start with a minus
    obtain ⟨c, front, hfirst, hc⟩ := Numeral.ofNat_eq_cons n
    have hminus : c ≠ '-' := by
      intro h
      rw [h] at hc
      exact absurd hc (by decide)
    simp only [Int.ofNat_eq_natCast, Int.natAbs_natCast, hfirst, List.cons_append] at hwhole hspelled
    rw [Numeral.ofInt, hfirst, List.cons_append]
    unfold numberFrom
    split
    next negative unsigned heq =>
      have hunsigned : negative = false ∧ unsigned = c :: (front ++ rest) := by
        split at heq
        · next hfront => exact absurd (List.cons.inj hfront).1 hminus
        · cases heq
          exact ⟨rfl, rfl⟩
      obtain ⟨rfl, rfl⟩ := hunsigned
      simp only [hwhole, hrest.fractionPart, Option.elim, hrest.exponentPart, if_pos hlength,
        hspelled]
      rfl
  | negSucc n =>
    simp only [Int.natAbs_negSucc] at hwhole hspelled
    simp only [Numeral.ofInt, numberFrom, List.cons_append, hwhole, hrest.fractionPart, Option.elim,
      hrest.exponentPart, if_pos hlength, hspelled]
    rfl

/-- A digit is no other mark. -/
theorem ne_of_isSome_ascii? {c mark : Char} (hc : (Digit.ascii? c).isSome = true)
    (hmark : Digit.ascii? mark = none) : mark ≠ c := by
  intro h
  rw [← h, hmark] at hc
  cases hc

theorem word?_digit {c : Char} (hc : (Digit.ascii? c).isSome = true) (front : Text) :
    word? (c :: front) = none ∧ word? ('-' :: c :: front) = none := by
  have hne : ∀ mark, Digit.ascii? mark = none → mark ≠ c := fun _ => ne_of_isSome_ascii? hc
  simp [word?, words, strip?, hne 'n' rfl, hne 't' rfl, hne 'f' rfl, hne 'N' rfl, hne 'I' rfl,
    hne '-' rfl]

/-- What starts as an integer does is read as a number. -/
theorem value_digit {c : Char} (hc : (Digit.ascii? c).isSome = true) (fuel : Nat) (front : Text) :
    value (fuel + 1) (c :: front) = numberFrom (c :: front) ∧
      value (fuel + 1) ('-' :: c :: front) = numberFrom ('-' :: c :: front) := by
  have hwords := word?_digit hc front
  constructor
  · unfold value
    split
    · next heq => exact absurd (List.cons.inj heq).1.symm (ne_of_isSome_ascii? hc rfl)
    · next heq => exact absurd (List.cons.inj heq).1.symm (ne_of_isSome_ascii? hc rfl)
    · next heq => exact absurd (List.cons.inj heq).1.symm (ne_of_isSome_ascii? hc rfl)
    · rw [hwords.1]
  · simp [value, hwords.2]

theorem value_ofInt {n : Int} (hn : Numeral.isShown n.natAbs = true) (hrest : Ends rest) :
    value (fuel + 1) (Numeral.ofInt n ++ rest) = .ok (.int n, rest) := by
  rw [← numberFrom_ofInt hn hrest]
  cases n with
  | ofNat n =>
    obtain ⟨c, front, hfirst, hc⟩ := Numeral.ofNat_eq_cons n
    rw [Numeral.ofInt, hfirst]
    exact (value_digit hc fuel (front ++ rest)).1
  | negSucc n =>
    obtain ⟨c, front, hfirst, hc⟩ := Numeral.ofNat_eq_cons (n + 1)
    rw [Numeral.ofInt, hfirst]
    exact (value_digit hc fuel (front ++ rest)).2

/-! ## Lists and maps -/

/-- A value is read as it was written, if there is fuel enough and it ends where it should. -/
def ReadsBack (fallback : Fallback) (v : Value) : Prop :=
  ∀ {text rest : Text} {fuel : Nat}, write fallback v = .ok text → Ends rest →
    text.length ≤ fuel → value fuel (text ++ rest) = .ok (v, rest)

/-- A text starts with neither white space nor a closing bracket nor a byte order mark. -/
def Starts (text : Text) : Prop :=
  ∃ c front, text = c :: front ∧ isSpace c = false ∧ c ≠ ']' ∧ c ≠ '\uFEFF'

theorem Starts.append (h : Starts text) (rest : Text) : Starts (text ++ rest) := by
  obtain ⟨c, front, rfl, hc⟩ := h
  exact ⟨c, front ++ rest, rfl, hc⟩

theorem Starts.skipSpace (h : Starts text) : skipSpace text = text := by
  obtain ⟨c, front, rfl, hc, -⟩ := h
  simp [Json.skipSpace, hc]

theorem starts_ofInt (n : Int) : Starts (Numeral.ofInt n) := by
  have hdigits : ∀ n, Starts (Numeral.ofNat n) := by
    intro n
    obtain ⟨c, front, hfirst, hc⟩ := Numeral.ofNat_eq_cons n
    have hspace : isSpace c = false := by
      simp [isSpace, (ne_of_isSome_ascii? hc (rfl : Digit.ascii? ' ' = none)).symm,
        (ne_of_isSome_ascii? hc (rfl : Digit.ascii? '\t' = none)).symm,
        (ne_of_isSome_ascii? hc (rfl : Digit.ascii? '\n' = none)).symm,
        (ne_of_isSome_ascii? hc (rfl : Digit.ascii? '\r' = none)).symm]
    exact ⟨c, front, hfirst, hspace, (ne_of_isSome_ascii? hc rfl).symm,
      (ne_of_isSome_ascii? hc rfl).symm⟩
  cases n with
  | ofNat n => exact hdigits n
  | negSucc n => exact ⟨'-', _, rfl, by decide⟩

theorem starts_of_write (hv : v.Legible) (hw : write fallback v = .ok text) : Starts text := by
  cases hv with
  | null =>
    cases hw
    exact ⟨'n', _, rfl, by decide⟩
  | bool b =>
    cases hw
    cases b
    · exact ⟨'f', _, rfl, by decide⟩
    · exact ⟨'t', _, rfl, by decide⟩
  | @int n hn =>
    rw [write, integer, if_pos hn] at hw
    cases hw
    exact starts_ofInt n
  | text t =>
    cases hw
    exact ⟨'\x22', _, rfl, by decide⟩
  | list _ =>
    obtain ⟨texts, -, rfl⟩ := write_list_eq_ok_iff.1 hw
    exact ⟨'[', _, rfl, by decide⟩
  | map _ _ _ =>
    obtain ⟨texts, -, rfl⟩ := write_map_eq_ok_iff.1 hw
    exact ⟨'\x7b', _, rfl, by decide⟩

theorem ends_cons {mark : Char} (h : mark = ',' ∨ mark = ']' ∨ mark = '\x7d') (rest : Text) :
    Ends (mark :: rest) := by
  intro c hc
  cases hc
  exact h

theorem commaSeparated_cons (first : Text) (rest : List Text) :
    ∃ behind, commaSeparated (first :: rest) = first ++ behind := by
  cases rest with
  | nil => exact ⟨[], by simp⟩
  | cons second rest => exact ⟨_, commaSeparated_cons_cons first second rest⟩

theorem starts_commaSeparated {first : Text} (h : Starts first) (rest : List Text) :
    Starts (commaSeparated (first :: rest)) := by
  obtain ⟨behind, hbehind⟩ := commaSeparated_cons first rest
  rw [hbehind]
  exact h.append behind

theorem skipSpace_mark {c : Char} (hc : isSpace c = false) (rest : Text) :
    skipSpace (c :: rest) = c :: rest := by
  simp [skipSpace, hc]

theorem Starts.skipSpace_blank (h : Starts text) : Json.skipSpace (' ' :: text) = text := by
  have hblank : Json.skipSpace (' ' :: text) = Json.skipSpace text := by
    simp [Json.skipSpace, isSpace]
  rw [hblank, h.skipSpace]

section

variable {next : Text} {items : List Value} {entries : List (Value × Value)}

theorem value_list (hstarts : Starts text) (h : elements fuel text = .ok (items, rest)) :
    value (fuel + 1) ('[' :: text) = .ok (.list items, rest) := by
  have hskip := hstarts.skipSpace
  obtain ⟨c, front, rfl, -, hc, -⟩ := hstarts
  simp only [value, hskip]
  split
  · next heq => exact absurd (List.cons.inj heq).1 hc
  · rw [h]
    rfl

theorem value_map (hdistinct : (entries.map Prod.fst).Pairwise fun a b => (a == b) = false)
    (h : members fuel (quoted name ++ text) = .ok (entries, rest)) :
    value (fuel + 1) ('\x7b' :: (quoted name ++ text)) = .ok (.map entries, rest) := by
  have hentries : Value.ofEntries entries = .map entries := by
    rw [Value.ofEntries, Table.ofList, Table.entries_foldl_put Table.empty hdistinct]
    rfl
  have hskip := skipSpace_mark (by decide : isSpace '\x22' = false)
  simp only [value, quoted, List.cons_append] at h ⊢
  rw [hskip]
  split
  · next heq => exact absurd (List.cons.inj heq).1 (by decide)
  · rw [h, ← hentries]
    rfl

theorem elements_last (h : value fuel text = .ok (v, ']' :: rest)) :
    elements (fuel + 1) text = .ok ([v], rest) := by
  have hmark := skipSpace_mark (by decide : isSpace ']' = false) rest
  simp only [elements, h, bind, Except.bind, hmark]
  rfl

theorem elements_more (h : value fuel text = .ok (v, ',' :: ' ' :: next)) (hnext : Starts next)
    (hrest : elements fuel next = .ok (items, rest)) :
    elements (fuel + 1) text = .ok (v :: items, rest) := by
  have hmark := skipSpace_mark (by decide : isSpace ',' = false) (' ' :: next)
  simp only [elements, h, bind, Except.bind, hmark, hnext.skipSpace_blank, hrest]
  rfl

/-- The name of an entry is read, and what is behind its colon. -/
theorem members_last (hstarts : Starts text)
    (h : value fuel text = .ok (v, '\x7d' :: rest)) :
    members (fuel + 1) (quoted name ++ ':' :: ' ' :: text) = .ok ([(.text name, v)], rest) := by
  have hname := string_quoted name (':' :: ' ' :: text)
  have hcolon := skipSpace_mark (by decide : isSpace ':' = false) (' ' :: text)
  have hmark := skipSpace_mark (by decide : isSpace '\x7d' = false) rest
  simp only [members, quoted, List.cons_append, List.append_assoc, List.nil_append, hname, bind,
    Except.bind, hcolon, hstarts.skipSpace_blank, h, hmark]
  rfl

theorem members_more (hstarts : Starts text)
    (h : value fuel text = .ok (v, ',' :: ' ' :: next)) (hnext : Starts next)
    (hrest : members fuel next = .ok (entries, rest)) :
    members (fuel + 1) (quoted name ++ ':' :: ' ' :: text) =
      .ok ((.text name, v) :: entries, rest) := by
  have hname := string_quoted name (':' :: ' ' :: text)
  have hcolon := skipSpace_mark (by decide : isSpace ':' = false) (' ' :: text)
  have hmark := skipSpace_mark (by decide : isSpace ',' = false) (' ' :: next)
  simp only [members, quoted, List.cons_append, List.append_assoc, List.nil_append, hname, bind,
    Except.bind, hcolon, hstarts.skipSpace_blank, h, hmark, hnext.skipSpace_blank, hrest]
  rfl

end

theorem starts_quoted_append (name rest : Text) : Starts (quoted name ++ rest) :=
  ⟨'\x22', _, rfl, by decide⟩

/-- Items are read up to the bracket that closes them. -/
theorem elements_commaSeparated {items : List Value} {texts : List Text} (hne : items ≠ [])
    (hitems : ∀ v ∈ items, v.Legible ∧ ReadsBack fallback v)
    (hw : writeItems fallback items = .ok texts) (hfuel : (commaSeparated texts).length < fuel) :
    elements fuel (commaSeparated texts ++ ']' :: rest) = .ok (items, rest) := by
  induction items generalizing texts fuel with
  | nil => exact absurd rfl hne
  | cons v items ih =>
    obtain ⟨fuel, rfl⟩ := Nat.exists_eq_add_one.2 (Nat.zero_lt_of_lt hfuel)
    obtain ⟨first, others, hfirst, hothers, rfl⟩ := writeItems_cons_eq_ok_iff.1 hw
    rw [List.forall_mem_cons] at hitems
    cases items with
    | nil =>
      obtain rfl := Except.ok.inj hothers
      rw [commaSeparated_singleton] at hfuel ⊢
      exact elements_last
        (hitems.1.2 hfirst (ends_cons (.inr (.inl rfl)) rest) (Nat.le_of_lt_succ hfuel))
    | cons next items =>
      obtain ⟨second, more, hsecond, -, rfl⟩ := writeItems_cons_eq_ok_iff.1 hothers
      rw [commaSeparated_cons_cons] at hfuel ⊢
      simp only [List.length_append, List.length_cons] at hfuel
      have hstarts := starts_of_write (hitems.2 next List.mem_cons_self).1 hsecond
      have hrest : elements fuel (commaSeparated (second :: more) ++ ']' :: rest) =
          .ok (next :: items, rest) :=
        ih (List.cons_ne_nil _ _) hitems.2 hothers (by omega)
      rw [List.append_assoc, List.cons_append, List.cons_append]
      exact elements_more (hitems.1.2 hfirst (ends_cons (.inl rfl) _) (by omega))
        ((starts_commaSeparated hstarts more).append _) hrest

/-- Entries are read up to the brace that closes them. -/
theorem members_commaSeparated {entries : List (Value × Value)} {texts : List Text}
    (hne : entries ≠ []) (hnames : ∀ entry ∈ entries, ∃ name, entry.1 = .text name)
    (hentries : ∀ entry ∈ entries, entry.2.Legible ∧ ReadsBack fallback entry.2)
    (hw : writeEntries fallback entries = .ok texts)
    (hfuel : (commaSeparated texts).length < fuel) :
    members fuel (commaSeparated texts ++ '\x7d' :: rest) = .ok (entries, rest) := by
  induction entries generalizing texts fuel with
  | nil => exact absurd rfl hne
  | cons entry entries ih =>
    obtain ⟨fuel, rfl⟩ := Nat.exists_eq_add_one.2 (Nat.zero_lt_of_lt hfuel)
    obtain ⟨name, first, others, hname, hfirst, hothers, rfl⟩ := writeEntries_cons_eq_ok_iff.1 hw
    rw [List.forall_mem_cons] at hnames hentries
    obtain ⟨name', hname'⟩ := hnames.1
    obtain rfl : name' = name := by
      rw [hname'] at hname
      exact Except.ok.inj hname
    obtain ⟨key, v⟩ := entry
    obtain rfl := hname'
    have hstarts := starts_of_write hentries.1.1 hfirst
    cases entries with
    | nil =>
      obtain rfl := Except.ok.inj hothers
      rw [commaSeparated_singleton] at hfuel ⊢
      simp only [List.length_append, List.length_cons] at hfuel
      rw [List.append_assoc]
      exact members_last (hstarts.append _)
        (hentries.1.2 hfirst (ends_cons (.inr (.inr rfl)) rest) (by omega))
    | cons next entries =>
      obtain ⟨_, second, more, -, hsecond, -, rfl⟩ := writeEntries_cons_eq_ok_iff.1 hothers
      rw [commaSeparated_cons_cons] at hfuel ⊢
      simp only [List.length_append, List.length_cons] at hfuel
      have hrest : members fuel (commaSeparated ((quoted _ ++ ':' :: ' ' :: second) :: more) ++
          '\x7d' :: rest) = .ok (next :: entries, rest) :=
        ih (List.cons_ne_nil _ _) hnames.2 hentries.2 hothers (by omega)
      rw [List.append_assoc, List.append_assoc]
      exact members_more (hstarts.append _) (hentries.1.2 hfirst (ends_cons (.inl rfl) _) (by omega))
        ((starts_commaSeparated (starts_quoted_append _ _) more).append _) hrest

/-- Every legible value is read as it was written. -/
theorem readsBack (h : v.Legible) : ReadsBack fallback v := by
  induction h with
  | null =>
    intro text rest fuel hw _ hfuel
    cases hw
    obtain ⟨fuel, rfl⟩ := Nat.exists_eq_add_one.2 (Nat.zero_lt_of_lt hfuel)
    rfl
  | bool b =>
    intro text rest fuel hw _ hfuel
    cases hw
    cases b
    all_goals
      obtain ⟨fuel, rfl⟩ := Nat.exists_eq_add_one.2 (Nat.zero_lt_of_lt hfuel)
      rfl
  | @int n hn =>
    intro text rest fuel hw hends hfuel
    rw [write, integer, if_pos hn] at hw
    cases hw
    obtain ⟨c, front, hfirst, -⟩ := starts_ofInt n
    rw [hfirst] at hfuel
    obtain ⟨fuel, rfl⟩ := Nat.exists_eq_add_one.2 (Nat.zero_lt_of_lt hfuel)
    exact value_ofInt hn hends
  | text t =>
    intro text rest fuel hw _ hfuel
    cases hw
    obtain ⟨fuel, rfl⟩ := Nat.exists_eq_add_one.2 (Nat.zero_lt_of_lt hfuel)
    have hstring := string_quoted t rest
    simp [value, quoted, hstring, Except.map]
  | @list items hitems ih =>
    intro text rest fuel hw _ hfuel
    obtain ⟨texts, htexts, rfl⟩ := write_list_eq_ok_iff.1 hw
    obtain ⟨fuel, rfl⟩ := Nat.exists_eq_add_one.2 (Nat.zero_lt_of_lt hfuel)
    cases items with
    | nil =>
      obtain rfl := Except.ok.inj htexts
      rfl
    | cons v items =>
      obtain ⟨first, more, hfirst, -, rfl⟩ := writeItems_cons_eq_ok_iff.1 htexts
      have hstarts := starts_of_write (hitems v List.mem_cons_self) hfirst
      simp only [List.length_append, List.length_cons] at hfuel
      rw [List.append_assoc]
      refine value_list ((starts_commaSeparated hstarts more).append _) ?_
      exact elements_commaSeparated (List.cons_ne_nil _ _)
        (fun v hv => ⟨hitems v hv, ih v hv⟩) htexts (by omega)
  | @map entries hdistinct hnames hentries ih =>
    intro text rest fuel hw _ hfuel
    obtain ⟨texts, htexts, rfl⟩ := write_map_eq_ok_iff.1 hw
    obtain ⟨fuel, rfl⟩ := Nat.exists_eq_add_one.2 (Nat.zero_lt_of_lt hfuel)
    cases entries with
    | nil =>
      obtain rfl := Except.ok.inj htexts
      rfl
    | cons entry entries =>
      obtain ⟨name, first, more, -, -, -, rfl⟩ := writeEntries_cons_eq_ok_iff.1 htexts
      simp only [List.length_append, List.length_cons] at hfuel
      have hmembers : members fuel (commaSeparated ((quoted name ++ ':' :: ' ' :: first) :: more) ++
          '\x7d' :: rest) = .ok (entry :: entries, rest) :=
        members_commaSeparated (List.cons_ne_nil _ _) hnames
          (fun entry he => ⟨hentries entry he, ih entry he⟩) htexts (by omega)
      obtain ⟨behind, hbehind⟩ := commaSeparated_cons (quoted name ++ ':' :: ' ' :: first) more
      rw [hbehind, List.append_assoc, List.append_assoc] at hmembers
      rw [hbehind, List.append_assoc, List.cons_append, List.append_assoc, List.append_assoc]
      exact value_map hdistinct hmembers

/-- A legible value is read from the text that it was written as. -/
theorem read_write (h : v.Legible) (hw : write fallback v = .ok text) : read text = .ok v := by
  have hends : Ends [] := by simp [Ends]
  have hfuel : text.length ≤ 2 * text.length + 2 := by omega
  have hvalue : value (2 * text.length + 2) text = .ok (v, []) := by
    have hback := readsBack h hw hends hfuel
    rwa [List.append_nil] at hback
  have hstarts := starts_of_write h hw
  have hskip := hstarts.skipSpace
  obtain ⟨c, front, rfl, -, -, hmark⟩ := hstarts
  have hmark' : (c :: front).head? ≠ some '\uFEFF' := by simpa using hmark
  have hdocument : document (c :: front) = .ok v := by
    rw [document, if_neg hmark', hskip]
    simp only [hvalue, bind, Except.bind]
    rfl
  rw [read, hdocument]

end Json

/-! ## Plain forms -/

namespace Value

variable {v : Value} {text : Text}

theorem Legible.notated (h : v.Legible) : v.Notated := by
  induction h with
  | null => exact .null
  | bool b => exact .bool b
  | int hn => exact .int hn
  | text t => exact .text t
  | list _ ih => exact .list ih
  | map _ hnames _ ih =>
    refine .map ?_ ih
    intro entry he
    obtain ⟨name, hname⟩ := hnames entry he
    rw [hname]
    rfl

/-- A legible value is its own plain form. -/
theorem Legible.isPlain (h : v.Legible) : v.IsPlain := by
  induction h with
  | null => exact .null
  | bool b => exact .bool b
  | int _ => exact .int _
  | text t => exact .text t
  | list _ ih => exact .list ih
  | map hdistinct hnames _ ih => exact .map hdistinct hnames ih

/-- What is shown of a legible value that is no text is read as it. -/
theorem Legible.exists_rendered (h : v.Legible) (hv : v.text? = none) :
    ∃ text, v.rendered = .ok text ∧ text.Unbroken ∧ Json.read text = .ok v := by
  obtain ⟨text, htext⟩ := exists_rendered_iff.2 h.notated.showable
  have hkeys : v.hasPlainKeys = true := h.notated.showable.1
  have hrendered : v.rendered = Json.write Json.strict v := by
    cases v with
    | text t => cases hv
    | _ => simp only [Value.rendered, hkeys, if_true, h.isPlain.plain_eq]
  rw [hrendered] at htext
  exact ⟨text, hrendered.trans htext, Json.unbroken_of_write v htext, Json.read_write h htext⟩

end Value

end Dissection
