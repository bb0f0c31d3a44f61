import Dissection.Proofs.JsonNumbers
import Dissection.Proofs.Rendering
import Mathlib.Tactic.SplitIfs

/-!
# What is written is standard JSON

A value is written as a text of the grammar of JSON exactly if all numbers in it are finite.  An
infinity or NaN is written as its name, and since every string that is written is closed, that
name stands outside of the strings, where no text of the grammar has it.  A number in a key does
no harm, since keys are written as strings.

## Main definitions

* `Value.HasNonFinite` — a value holds an infinity or NaN, other than in a key.
* `Json.Judged` — what is written of a value that holds none, and of one that does.

## Main statements

* `Json.isString_quoted` — texts are written as strings of the grammar.
* `Json.judged_writeCases` — every value is judged by what it holds.
* `Json.Judged.derives_iff`, `Json.Judged.namesNonFinite_iff` — when a text of the grammar is
  written, and when an infinity or NaN is named.
-/

namespace Dissection

open Text

namespace Value

/-- A value holds an infinity or NaN, other than in a key. -/
inductive HasNonFinite : Value → Prop
  | float {x : Binary64} : x.isFinite = false → HasNonFinite (.float x)
  | list {items : List Value} {v : Value} : v ∈ items → v.HasNonFinite →
      HasNonFinite (.list items)
  | tuple {items : List Value} {v : Value} : v ∈ items → v.HasNonFinite →
      HasNonFinite (.tuple items)
  | map {entries : List (Value × Value)} {entry : Value × Value} : entry ∈ entries →
      entry.2.HasNonFinite → HasNonFinite (.map entries)

variable {items : List Value}

theorem hasNonFinite_float_iff {x : Binary64} :
    (float x).HasNonFinite ↔ x.isFinite = false :=
  ⟨fun | .float hx => hx, .float⟩

theorem hasNonFinite_list_iff : (list items).HasNonFinite ↔ ∃ v ∈ items, v.HasNonFinite :=
  ⟨fun | .list hmem hv => ⟨_, hmem, hv⟩, fun ⟨_, hmem, hv⟩ => .list hmem hv⟩

theorem hasNonFinite_tuple_iff : (tuple items).HasNonFinite ↔ ∃ v ∈ items, v.HasNonFinite :=
  ⟨fun | .tuple hmem hv => ⟨_, hmem, hv⟩, fun ⟨_, hmem, hv⟩ => .tuple hmem hv⟩

theorem hasNonFinite_map_iff {entries : List (Value × Value)} :
    (map entries).HasNonFinite ↔ ∃ entry ∈ entries, entry.2.HasNonFinite :=
  ⟨fun | .map hmem hv => ⟨_, hmem, hv⟩, fun ⟨_, hmem, hv⟩ => .map hmem hv⟩

end Value

namespace Json

open Traversal

variable {fallback : Fallback} {v : Value} {text : Text} {texts : List Text}

/-! ## Strings -/

theorem isHexDigit_of_mem_hex {width n : Nat} {c : Char} (h : c ∈ Text.Quoted.hex width n) :
    IsHexDigit c := by
  have hdigit : ∀ d, d < 16 → IsHexDigit (Text.Quoted.hexDigit d) := by decide
  induction width generalizing n with
  | zero => cases h
  | succ width ih =>
    rcases List.mem_append.1 h with h | h
    · exact ih h
    · obtain rfl := List.mem_singleton.1 h
      exact hdigit _ (Nat.mod_lt n (by decide))

/-- A character is written by itself or by an escape of the grammar. -/
theorem isCharacter_character (c : Char) : IsCharacter (character c) := by
  unfold character
  split_ifs with hquotation hbackslash hfeed hreturn htab hback hform hcontrol
  any_goals exact .escape (by decide)
  · exact .code (by simp [Text.Quoted.hex]) fun d hd => isHexDigit_of_mem_hex hd
  · exact .itself (Nat.le_of_not_lt hcontrol) hquotation hbackslash

/-- A text is written as a string of the grammar. -/
theorem isString_quoted (text : Text) : IsString (quoted text) := by
  have hparts : ∀ part ∈ text.map character, IsCharacter part :=
    List.forall_mem_map.2 fun c _ => isCharacter_character c
  exact .characters hparts

/-! ## Lists and maps -/

theorem isMark_singleton (mark : Char) : IsMark mark [mark] := by
  have hnone : IsBlank [] := by simp [IsBlank]
  exact .blanks hnone hnone

theorem isMark_spaced (mark : Char) : IsMark mark [mark, ' '] := by
  have hnone : IsBlank [] := by simp [IsBlank]
  have hblank : IsBlank [' '] := by simp [IsBlank]
  exact .blanks hnone hblank

/-- Texts of one part make up a text of another part that is one of them or several with commas
between them. -/
theorem derives_commaSeparated {single several : Part}
    (hone : ∀ {text}, Derives single text → Derives several text)
    (hmore : ∀ {first comma rest}, Derives single first → IsMark ',' comma →
      Derives several rest → Derives several (first ++ comma ++ rest))
    (hne : texts ≠ []) (h : ∀ text ∈ texts, Derives single text) :
    Derives several (commaSeparated texts) := by
  induction texts with
  | nil => exact absurd rfl hne
  | cons first rest ih =>
    rw [List.forall_mem_cons] at h
    cases rest with
    | nil => simpa using hone h.1
    | cons second rest =>
      have hrest := ih (by simp) h.2
      simpa [commaSeparated_cons_cons] using hmore h.1 (isMark_spaced ',') hrest

/-- Values between brackets are an array. -/
theorem derives_array (h : ∀ text ∈ texts, Derives .value text) :
    Derives .array ('[' :: commaSeparated texts ++ [']']) := by
  by_cases hne : texts = []
  · subst hne
    exact .emptyArray (isMark_singleton '[') (isMark_singleton ']')
  · have helements := derives_commaSeparated .element .elements hne h
    exact .array (isMark_singleton '[') helements (isMark_singleton ']')

/-- Members between braces are an object. -/
theorem derives_object (h : ∀ text ∈ texts, Derives .member text) :
    Derives .object ('\x7b' :: commaSeparated texts ++ ['\x7d']) := by
  by_cases hne : texts = []
  · subst hne
    exact .emptyObject (isMark_singleton '\x7b') (isMark_singleton '\x7d')
  · have hmembers := derives_commaSeparated .lastMember .members hne h
    exact .object (isMark_singleton '\x7b') hmembers (isMark_singleton '\x7d')

theorem derives_member (name : Text) (h : Derives .value text) :
    Derives .member (quoted name ++ ':' :: ' ' :: text) := by
  simpa using Derives.member (isString_quoted name) (isMark_spaced ':') h

/-! ## Strings that are closed -/

theorem isClosed_commaSeparated (h : ∀ text ∈ texts, IsClosed text) :
    IsClosed (commaSeparated texts) := by
  induction texts with
  | nil => rfl
  | cons first rest ih =>
    rw [List.forall_mem_cons] at h
    cases rest with
    | nil => simpa using h.1
    | cons second rest =>
      rw [commaSeparated_cons_cons]
      exact h.1.append (isClosed_cons (by decide) (isClosed_cons (by decide) (ih h.2)))

theorem namesNonFinite_commaSeparated (h : ∀ text ∈ texts, IsClosed text)
    (hnames : ∃ text ∈ texts, NamesNonFinite text) : NamesNonFinite (commaSeparated texts) := by
  obtain ⟨text, hmem, hnames⟩ := hnames
  induction texts with
  | nil => cases hmem
  | cons first rest ih =>
    rw [List.forall_mem_cons] at h
    cases rest with
    | nil =>
      obtain rfl := List.mem_singleton.1 hmem
      simpa using hnames
    | cons second rest =>
      rw [commaSeparated_cons_cons]
      rcases List.mem_cons.1 hmem with rfl | hmem
      · exact hnames.append_right _
      · have hseparator : IsClosed (first ++ [',', ' ']) :=
          h.1.append (isClosed_of_not_mem (by decide)).1
        simpa using NamesNonFinite.append_left hseparator (ih h.2 hmem)

variable {opening closing : Char}

theorem isClosed_between (h : ∀ text ∈ texts, IsClosed text) (hopening : opening ≠ '\x22')
    (hclosing : closing ≠ '\x22') : IsClosed (opening :: commaSeparated texts ++ [closing]) :=
  isClosed_cons hopening ((isClosed_commaSeparated h).append (isClosed_cons hclosing rfl))

theorem namesNonFinite_between (h : ∀ text ∈ texts, IsClosed text) (hopening : opening ≠ '\x22')
    (hnames : ∃ text ∈ texts, NamesNonFinite text) (closing : Char) :
    NamesNonFinite (opening :: commaSeparated texts ++ [closing]) := by
  have hfront : IsClosed [opening] := isClosed_cons hopening rfl
  exact (NamesNonFinite.append_left hfront (namesNonFinite_commaSeparated h hnames)).append_right _

/-! ## Values -/

/-- What is written of a value: the strings in it are closed, and it is a text of the grammar
unless a number in the value is not finite; then that number is named outside of the strings. -/
structure Judged (part : Part) (v : Value) (text : Text) : Prop where
  closed : IsClosed text
  derives : ¬ v.HasNonFinite → Derives part text
  names : v.HasNonFinite → NamesNonFinite text

variable {part whole : Part}

/-- A text of the grammar that stands for a value in which all numbers are finite. -/
theorem Judged.of_derives (h : Derives part text) (hv : ¬ v.HasNonFinite) : Judged part v text where
  closed := h.isNameless.closed
  derives _ := h
  names h := absurd h hv

/-- What is a text of one part may be one of another part as well. -/
theorem Judged.imp (h : Judged part v text) (hpart : Derives part text → Derives whole text) :
    Judged whole v text where
  closed := h.closed
  derives hv := hpart (h.derives hv)
  names := h.names

theorem judged_number (x : Binary64) : Judged .value (.float x) (number x) := by
  cases hx : x.isFinite with
  | true =>
    refine .of_derives (.number (isNumber_number hx)) fun hv => ?_
    exact absurd (Value.hasNonFinite_float_iff.1 hv) (by simp [hx])
  | false =>
    have hname := number_mem_nonFiniteNames hx
    have hquotation : ∀ name ∈ nonFiniteNames, '\x22' ∉ name := by decide
    obtain ⟨hclosed, houtside⟩ := isClosed_of_not_mem (hquotation _ hname)
    refine ⟨hclosed, fun hv => absurd (.float hx) hv, fun _ => ⟨number x, hname, ?_⟩⟩
    simp only [houtside, List.infix_rfl]

theorem Judged.member (name : Text) (h : Judged .value v text) :
    Judged .member v (quoted name ++ ':' :: ' ' :: text) := by
  have hname : IsClosed (quoted name ++ [':', ' ']) :=
    (isString_quoted name).isClosed.1.append (isClosed_of_not_mem (by decide)).1
  have hsplit : quoted name ++ ':' :: ' ' :: text = (quoted name ++ [':', ' ']) ++ text := by simp
  refine ⟨?_, fun hfinite => derives_member name (h.derives hfinite), fun hnon => ?_⟩
  · rw [hsplit]
    exact hname.append h.closed
  · rw [hsplit]
    exact .append_left hname (h.names hnon)

/-- Arrays and objects are judged by what is between their marks. -/
theorem judged_between {items : List Value} (h : List.Forall₂ (Judged part) items texts)
    (hv : v.HasNonFinite ↔ ∃ item ∈ items, item.HasNonFinite) (hopening : opening ≠ '\x22')
    (hclosing : closing ≠ '\x22')
    (hderives : (∀ text ∈ texts, Derives part text) →
      Derives whole (opening :: commaSeparated texts ++ [closing])) :
    Judged whole v (opening :: commaSeparated texts ++ [closing]) := by
  have hclosed := forall_mem_of_forall₂ h fun _ _ hitem => hitem.closed
  refine ⟨isClosed_between hclosed hopening hclosing, fun hfinite => ?_, fun hnon => ?_⟩
  · have hitems : ∀ item ∈ items, ¬ item.HasNonFinite :=
      fun item hmem hitem => hfinite (hv.2 ⟨item, hmem, hitem⟩)
    have hboth := (List.forall₂_and_left _ _).2 ⟨hitems, h⟩
    exact hderives (forall_mem_of_forall₂ hboth fun _ _ hitem => hitem.2.derives hitem.1)
  · obtain ⟨item, hmem, hitem⟩ := hv.1 hnon
    obtain ⟨text, htext, hjudged⟩ := exists_mem_of_forall₂ h hmem
    exact namesNonFinite_between hclosed hopening ⟨text, htext, hjudged.names hitem⟩ closing

theorem judged_array {items : List Value} (h : List.Forall₂ (Judged .value) items texts)
    (hv : v.HasNonFinite ↔ ∃ item ∈ items, item.HasNonFinite) :
    Judged .value v ('[' :: commaSeparated texts ++ [']']) :=
  (judged_between h hv (by decide) (by decide) derives_array).imp .ofArray

theorem judged_object {entries : List (Value × Value)} (h : List.Forall₂ (fun entry text =>
      ∃ name value, Judged .value entry.2 value ∧ quoted name ++ ':' :: ' ' :: value = text)
      entries texts) :
    Judged .object (.map entries) ('\x7b' :: commaSeparated texts ++ ['\x7d']) := by
  have hmembers : List.Forall₂ (Judged .member) (entries.map Prod.snd) texts := by
    rw [List.forall₂_map_left_iff]
    refine h.imp ?_
    rintro entry _ ⟨name, value, hvalue, rfl⟩
    exact hvalue.member name
  refine judged_between hmembers ?_ (by decide) (by decide) derives_object
  simp only [Value.hasNonFinite_map_iff, List.mem_map, exists_exists_and_eq_and]

/-- Every value is judged like that. -/
theorem judged_writeCases (fallback : Fallback) : WriteCases fallback (Judged .value) where
  null := .of_derives .null nofun
  bool b := .of_derives (by cases b; exacts [.false, .true]) nofun
  int h := .of_derives (.number (isNumber_of_integer h)) nofun
  float := judged_number
  text t := .of_derives (.string (isString_quoted t)) nofun
  foreign shown hv := .of_derives (.string (isString_quoted shown)) fun h => by cases h <;> cases hv
  list h := judged_array h Value.hasNonFinite_list_iff
  tuple h := judged_array h Value.hasNonFinite_tuple_iff
  map h := (judged_object h).imp .ofObject

/-- A map is judged as an object. -/
theorem judged_of_write_map {entries : List (Value × Value)}
    (h : write fallback (.map entries) = .ok text) : Judged .object (.map entries) text := by
  obtain ⟨texts, htexts, rfl⟩ := write_map_eq_ok_iff.1 h
  exact judged_object ((judged_writeCases fallback).of_writeEntries entries htexts)

/-- Exactly where all numbers are finite, a text of the grammar is written. -/
theorem Judged.derives_iff (h : Judged part v text) : Derives part text ↔ ¬ v.HasNonFinite :=
  ⟨fun hderives hv => hderives.not_namesNonFinite (h.names hv), h.derives⟩

/-- Exactly where a number is not finite, one is named outside of the strings. -/
theorem Judged.namesNonFinite_iff (h : Judged part v text) :
    NamesNonFinite text ↔ v.HasNonFinite := by
  refine ⟨fun hnames => ?_, h.names⟩
  by_contra hv
  exact (h.derives hv).not_namesNonFinite hnames

end Json

end Dissection
