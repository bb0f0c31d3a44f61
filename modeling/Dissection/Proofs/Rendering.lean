import Dissection.Conversion
import Dissection.Proofs.Table
import Dissection.Proofs.Traversal

/-!
# Values that can be shown

A value is shown in a log line as plain JSON, and there are two things that JSON cannot take.
An integer with too many digits is not shown, in a key or elsewhere, and a member of an
enumeration is replaced by the value that it stands for as it is, which may be of a kind that
JSON has no notation for.  Whatever holds neither can be shown.

## Main definitions

* `Value.Showable` — a value that can be shown.
* `Value.Notated` — a value that holds nothing without a notation.
* `Json.WriteCases` — what holds in each case in which a value is written.

## Main statements

* `Json.WriteCases.of_write` — it holds of everything that is written.
* `Value.exists_rendered_iff` — being shown in a log line.
* `Value.showable_list_iff` — a list can be shown exactly if its items can.
* `Value.Notated.showable` — what holds nothing without a notation can be shown.
-/

namespace Dissection

/-! ## Writing -/

/-- Whether JSON has no notation for a value's kind. -/
def Value.isForeign : Value → Bool
  | .bytes _ | .moment _ | .member _ | .placeholder _ | .set _ => true
  | _ => false

namespace Json

open Traversal

variable {fallback : Fallback} {v : Value} {items : List Value} {entries : List (Value × Value)}
  {text : Text} {texts : List Text}

theorem commaSeparated_cons_cons (first second : Text) (rest : List Text) :
    commaSeparated (first :: second :: rest) =
      first ++ ',' :: ' ' :: commaSeparated (second :: rest) := by
  simp [commaSeparated, List.intercalate_cons_cons]

@[simp] theorem commaSeparated_singleton (first : Text) : commaSeparated [first] = first :=
  List.intercalate_singleton

theorem writeItems_cons_eq_ok_iff :
    writeItems fallback (v :: items) = .ok texts ↔
      ∃ first rest, write fallback v = .ok first ∧ writeItems fallback items = .ok rest ∧
        first :: rest = texts := by
  simp [writeItems, bind_eq_ok_iff, pure, Except.pure]

theorem writeEntries_cons_eq_ok_iff {k : Value} :
    writeEntries fallback ((k, v) :: entries) = .ok texts ↔
      ∃ name first rest, key k = .ok name ∧ write fallback v = .ok first ∧
        writeEntries fallback entries = .ok rest ∧
        (quoted name ++ ':' :: ' ' :: first) :: rest = texts := by
  simp [writeEntries, bind_eq_ok_iff, pure, Except.pure]

theorem write_list_eq_ok_iff :
    write fallback (.list items) = .ok text ↔
      ∃ texts, writeItems fallback items = .ok texts ∧
        '[' :: commaSeparated texts ++ [']'] = text := by
  simp [write, map_eq_ok_iff]

theorem write_map_eq_ok_iff :
    write fallback (.map entries) = .ok text ↔
      ∃ texts, writeEntries fallback entries = .ok texts ∧
        '\x7b' :: commaSeparated texts ++ ['\x7d'] = text := by
  simp [write, map_eq_ok_iff]

/-- Items can be written if each of them can. -/
theorem exists_writeItems_iff :
    (∃ texts, writeItems fallback items = .ok texts) ↔
      ∀ v ∈ items, ∃ text, write fallback v = .ok text := by
  induction items with
  | nil => simp [writeItems]
  | cons v rest ih =>
    rw [List.forall_mem_cons, ← ih, writeItems]
    cases write fallback v with
    | error u => simp [bind, Except.bind]
    | ok text =>
      cases writeItems fallback rest <;> simp [bind, Except.bind, pure, Except.pure]

theorem exists_write_list_iff :
    (∃ text, write fallback (.list items) = .ok text) ↔
      ∀ v ∈ items, ∃ text, write fallback v = .ok text := by
  rw [← exists_writeItems_iff, write]
  cases writeItems fallback items <;> simp [Except.map]

/-- Entries can be written if their keys have texts and their values can be written. -/
theorem exists_writeEntries (h : ∀ entry ∈ entries,
      (∃ name, key entry.1 = .ok name) ∧ ∃ text, write fallback entry.2 = .ok text) :
    ∃ texts, writeEntries fallback entries = .ok texts := by
  induction entries with
  | nil => exact ⟨[], rfl⟩
  | cons entry rest ih =>
    obtain ⟨⟨⟨name, hname⟩, text, htext⟩, hrest⟩ := List.forall_mem_cons.1 h
    obtain ⟨texts, htexts⟩ := ih hrest
    refine ⟨(quoted name ++ ':' :: ' ' :: text) :: texts, ?_⟩
    rw [writeEntries, hname, htext, htexts]
    rfl

theorem exists_write_map (h : ∀ entry ∈ entries,
      (∃ name, key entry.1 = .ok name) ∧ ∃ text, write fallback entry.2 = .ok text) :
    ∃ text, write fallback (.map entries) = .ok text := by
  obtain ⟨texts, htexts⟩ := exists_writeEntries h
  exact ⟨_, by rw [write, htexts]; rfl⟩

/-- A relation between values and texts that holds in each of the cases in which a value is
written. -/
structure WriteCases (fallback : Fallback) (P : Value → Text → Prop) : Prop where
  null : P .null "null"
  bool : ∀ b, P (.bool b) (truth b)
  int : ∀ {n text}, integer n = .ok text → P (.int n) text
  float : ∀ x, P (.float x) (number x)
  text : ∀ t, P (.text t) (quoted t)
  /-- A value of any other kind is written as the text that stands for it. -/
  foreign : ∀ {v} shown, v.isForeign = true → P v (quoted shown)
  list : ∀ {items texts}, List.Forall₂ P items texts →
    P (.list items) ('[' :: commaSeparated texts ++ [']'])
  tuple : ∀ {items texts}, List.Forall₂ P items texts →
    P (.tuple items) ('[' :: commaSeparated texts ++ [']'])
  map : ∀ {entries texts}, List.Forall₂ (fun (entry : Value × Value) text =>
      ∃ name value, P entry.2 value ∧ quoted name ++ ':' :: ' ' :: value = text) entries texts →
    P (.map entries) ('\x7b' :: commaSeparated texts ++ ['\x7d'])

namespace WriteCases

variable {P : Value → Text → Prop}

mutual

/-- What holds in each case holds of everything that is written. -/
theorem of_write (h : WriteCases fallback P) : (v : Value) → {text : Text} →
    write fallback v = .ok text → P v text
  | .null, text, hw => by
    cases hw
    exact h.null
  | .bool b, text, hw => by
    cases hw
    exact h.bool b
  | .int n, text, hw => h.int hw
  | .float x, text, hw => by
    cases hw
    exact h.float x
  | .text t, text, hw => by
    cases hw
    exact h.text t
  | .list items, text, hw => by
    obtain ⟨texts, htexts, rfl⟩ := map_eq_ok_iff.1 hw
    exact h.list (h.of_writeItems items htexts)
  | .tuple items, text, hw => by
    obtain ⟨texts, htexts, rfl⟩ := map_eq_ok_iff.1 hw
    exact h.tuple (h.of_writeItems items htexts)
  | .map entries, text, hw => by
    obtain ⟨texts, htexts, rfl⟩ := map_eq_ok_iff.1 hw
    exact h.map (h.of_writeEntries entries htexts)
  | .bytes _, text, hw | .moment _, text, hw | .member _, text, hw | .placeholder _, text, hw
  | .set _, text, hw => by
    obtain ⟨shown, -, rfl⟩ := map_eq_ok_iff.1 hw
    exact h.foreign shown rfl

theorem of_writeItems (h : WriteCases fallback P) : (items : List Value) → {texts : List Text} →
    writeItems fallback items = .ok texts → List.Forall₂ P items texts
  | [], texts, hw => by
    cases hw
    exact .nil
  | v :: rest, texts, hw => by
    obtain ⟨first, others, hfirst, hothers, rfl⟩ := writeItems_cons_eq_ok_iff.1 hw
    exact .cons (h.of_write v hfirst) (h.of_writeItems rest hothers)

theorem of_writeEntries (h : WriteCases fallback P) : (entries : List (Value × Value)) →
    {texts : List Text} → writeEntries fallback entries = .ok texts →
      List.Forall₂ (fun (entry : Value × Value) text =>
        ∃ name value, P entry.2 value ∧ quoted name ++ ':' :: ' ' :: value = text) entries texts
  | [], texts, hw => by
    cases hw
    exact .nil
  | (k, v) :: rest, texts, hw => by
    obtain ⟨name, first, others, -, hfirst, hothers, rfl⟩ := writeEntries_cons_eq_ok_iff.1 hw
    exact .cons ⟨name, first, h.of_write v hfirst, rfl⟩ (h.of_writeEntries rest hothers)

end

end WriteCases

end Json

/-! ## Showing -/

namespace Value

variable {v : Value} {items : List Value}

/-- A value can be shown: its keys have plain forms, and its own can be written. -/
def Showable (v : Value) : Prop :=
  v.hasPlainKeys = true ∧ ∃ text, Json.write Json.strict v.plain = .ok text

/-- A log line shows the values that can be shown. -/
theorem exists_rendered_iff : (∃ shown, v.rendered = .ok shown) ↔ v.Showable := by
  cases v with
  | text t => exact iff_of_true ⟨t, rfl⟩ ⟨rfl, _, rfl⟩
  | _ =>
    simp only [rendered, Showable]
    split <;> simp [*]

theorem showable_text (t : Text) : (text t).Showable := ⟨rfl, _, rfl⟩

theorem havePlainKeys_iff : havePlainKeys items = true ↔ ∀ v ∈ items, v.hasPlainKeys = true := by
  induction items with
  | nil => simp [havePlainKeys]
  | cons v rest ih => simp [havePlainKeys, ih]

theorem entriesHavePlainKeys_iff {entries : List (Value × Value)} :
    entriesHavePlainKeys entries = true ↔
      ∀ entry ∈ entries, isPlainKey entry.1 = true ∧ entry.2.hasPlainKeys = true := by
  induction entries with
  | nil => simp [entriesHavePlainKeys]
  | cons entry rest ih => simp [entriesHavePlainKeys, ih]

theorem plainItems_eq_map (items : List Value) : plainItems items = items.map plain := by
  induction items with
  | nil => rfl
  | cons v rest ih => rw [plainItems, ih, List.map_cons]

theorem plainEntries_eq_map (entries : List (Value × Value)) :
    plainEntries entries = entries.map fun entry => (.text entry.1.plainKey, entry.2.plain) := by
  induction entries with
  | nil => rfl
  | cons entry rest ih => rw [plainEntries, ih, List.map_cons]

/-- A list can be shown exactly if its items can. -/
theorem showable_list_iff : (list items).Showable ↔ ∀ v ∈ items, v.Showable := by
  simp only [Showable, hasPlainKeys, plain, havePlainKeys_iff, Json.exists_write_list_iff,
    plainItems_eq_map, List.forall_mem_map]
  constructor
  · intro h v hv
    exact ⟨h.1 v hv, h.2 v hv⟩
  · intro h
    exact ⟨fun v hv => (h v hv).1, fun v hv => (h v hv).2⟩

/-! ## Values without what has no notation -/

/-- Everything in a value has a notation: no integer has too many digits, and members of
enumerations stand for what JSON has a notation for. -/
inductive Notated : Value → Prop
  | null : Notated .null
  | bool (b : Bool) : Notated (.bool b)
  | int {n : Int} : Numeral.isShown n.natAbs = true → Notated (.int n)
  | float (x : Binary64) : Notated (.float x)
  | text (t : Text) : Notated (.text t)
  | bytes (bytes : List UInt8) : Notated (.bytes bytes)
  | moment (m : Moment) : Notated (.moment m)
  | member {v : Value} :
      (∃ text, Json.write Json.strict v = .ok text) → Notated (.member v)
  | placeholder {p : Placeholder} :
      p.modifier.slot?.all Numeral.isShown = true → Notated (.placeholder p)
  | list {items : List Value} : (∀ v ∈ items, Notated v) → Notated (.list items)
  | tuple {items : List Value} : (∀ v ∈ items, Notated v) → Notated (.tuple items)
  | set {items : List Value} : (∀ v ∈ items, Notated v) → Notated (.set items)
  | map {entries : List (Value × Value)} : (∀ entry ∈ entries, isPlainKey entry.1 = true) →
      (∀ entry ∈ entries, Notated entry.2) → Notated (.map entries)

theorem exists_write_ofPlaceholder {p : Placeholder}
    (h : p.modifier.slot?.all Numeral.isShown = true) :
    ∃ text, Json.write Json.strict (ofPlaceholder p) = .ok text := by
  refine Json.exists_write_map fun entry he => ?_
  simp only [List.mem_cons, List.not_mem_nil, or_false] at he
  rcases he with rfl | rfl | rfl | rfl
  · exact ⟨⟨_, rfl⟩, _, rfl⟩
  · exact ⟨⟨_, rfl⟩, _, rfl⟩
  · refine ⟨⟨_, rfl⟩, ?_⟩
    cases hslot : p.modifier.slot? with
    | none => exact ⟨_, rfl⟩
    | some slot =>
      rw [hslot] at h
      exact ⟨_, if_pos h⟩
  · exact ⟨⟨_, rfl⟩, _, rfl⟩

/-- Plain entries can be written if their values can: their keys are texts, and when entries
fall under one key, the value of one of them is left. -/
theorem exists_write_ofEntries {entries : List (Value × Value)}
    (h : ∀ entry ∈ entries, (∃ t, entry.1 = .text t) ∧
      ∃ text, Json.write Json.strict entry.2 = .ok text) :
    ∃ text, Json.write Json.strict (ofEntries entries) = .ok text := by
  refine Json.exists_write_map fun entry he => ?_
  obtain ⟨⟨t, ht⟩, hwrite⟩ := Table.forall_mem_ofList
    (P := fun key : Value => ∃ t, key = .text t)
    (Q := fun v => ∃ text, Json.write Json.strict v = .ok text) h entry he
  exact ⟨⟨t, by rw [ht]; rfl⟩, hwrite⟩

/-- What holds nothing without a notation can be shown. -/
theorem Notated.showable (h : v.Notated) : v.Showable := by
  induction h with
  | null | bool | text | bytes | moment => exact ⟨rfl, _, rfl⟩
  | int hn => exact ⟨rfl, _, if_pos hn⟩
  | float x =>
    refine ⟨rfl, ?_⟩
    rw [plain]
    split
    · exact ⟨_, rfl⟩
    · exact ⟨_, rfl⟩
  | member hv => exact ⟨rfl, hv⟩
  | placeholder hp => exact ⟨rfl, exists_write_ofPlaceholder hp⟩
  | list _ ih => exact showable_list_iff.2 ih
  -- tuples and sets are shown as lists
  | tuple _ ih => exact showable_list_iff.2 ih
  | set _ ih => exact showable_list_iff.2 ih
  | @map entries hkeys _ ih =>
    refine ⟨entriesHavePlainKeys_iff.2 fun entry he => ⟨hkeys entry he, (ih entry he).1⟩, ?_⟩
    rw [plain, plainEntries_eq_map]
    refine exists_write_ofEntries fun plainEntry hp => ?_
    obtain ⟨entry, he, rfl⟩ := List.mem_map.1 hp
    exact ⟨⟨_, rfl⟩, (ih entry he).2⟩

end Value

end Dissection
