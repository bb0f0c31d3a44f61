import Dissection.Proofs.Fields
import Dissection.Proofs.Grammar
import Mathlib.Data.List.Infix

/-!
# Lines written by a layout

A layout is a leading literal and a row of cells, each with the name of a field, its
value and the literal behind it.  It writes a pattern, with the names in braces, and a
line, with the values in the places of the names.

The pattern splits the line where the layout joined it, provided that each literal is
found first where it was written and is not met again right behind.  A literal may
overlap itself or other literals, and it may share characters with the values.

## Main definitions

* `Layout` — a leading literal and cells; `Layout.pattern` and `Layout.line` — the texts
  that it writes.
* `Layout.Unambiguous` — a layout whose literals are found where they were written.

## Main statements

* `Layout.chain_row` — the values are the chain of the line.
* `dissect_line` — dissecting the line with the pattern yields the values.
-/

namespace Dissection

open Text

/-- A field of a layout: its name, its value, and the literal behind it. -/
structure Layout.Cell where
  name : Text
  value : Text
  delimiter : Text

/-- A leading literal and the fields behind it. -/
structure Layout where
  leading : Text
  cells : List Layout.Cell

namespace Layout

/-! ## What a layout writes -/

/-- The text that describes the pattern of a layout. -/
def pattern (l : Layout) : Text :=
  Pattern.glued l.leading (l.cells.map fun cell => (cell.name, cell.delimiter))

/-- The values of cells with the literals behind them. -/
def row (cells : List Cell) : Text := cells.flatMap fun cell => cell.value ++ cell.delimiter

/-- The line of a layout. -/
def line (l : Layout) : Text := l.leading ++ row l.cells

/-- A layout with distinct plain names, whose literals hold no opening and are found in the
line where they were written.  Only the last cell may have no literal. -/
structure Unambiguous (l : Layout) : Prop where
  distinct : (l.cells.map (·.name)).Nodup
  named : ∀ cell ∈ l.cells, cell.name ≠ [] ∧ '}' ∉ cell.name ∧
    ∀ c ∈ cell.name.head?, c ≠ '+' ∧ c ≠ '?' ∧ c ≠ '&'
  leading_free : ¬ Pattern.opening <:+: l.leading
  delimiter_free : ∀ cell ∈ l.cells, ¬ Pattern.opening <:+: cell.delimiter
  delimited : ∀ cell ∈ l.cells.dropLast, cell.delimiter ≠ []
  /-- The leading literal is not met again right behind. -/
  leading_once : l.leading ≠ [] → ¬ l.leading <+: row l.cells
  /-- A cell's literal is found first behind its value and is not met again right behind. -/
  first : ∀ cell after, cell :: after <:+ l.cells → cell.delimiter ≠ [] →
    (∀ i < cell.value.length, ¬ cell.delimiter <+: (cell.value ++ cell.delimiter).drop i) ∧
      ¬ cell.delimiter <+: row after

/-! ## The pattern of a layout -/

/-- The token of a cell. -/
def Cell.token (cell : Cell) : Token := ⟨⟨cell.name, .normal, cell.name⟩, cell.delimiter⟩

/-- The pattern that a layout describes. -/
def compiled (l : Layout) : Pattern := ⟨l.leading, l.cells.map Cell.token⟩

theorem compile_pattern {l : Layout} (h : l.Unambiguous) :
    Pattern.compile l.pattern = .ok l.compiled := by
  rw [Pattern.compile_eq_ok_iff]
  constructor
  · have hparts : l.compiled.tokens.map Pattern.partOf =
        l.cells.map fun cell => (cell.name, cell.delimiter) := by
      simp [compiled, Pattern.partOf, Cell.token]
    rw [hparts]
    refine ⟨rfl, h.leading_free, ?_, ?_⟩
    · intro part hp
      obtain ⟨cell, hc, rfl⟩ := List.mem_map.1 hp
      rw [Pattern.closing, List.singleton_infix_iff]
      exact (h.named cell hc).2.1
    · intro part hp
      obtain ⟨cell, hc, rfl⟩ := List.mem_map.1 hp
      exact h.delimiter_free cell hc
  · intro token ht
    obtain ⟨cell, hc, rfl⟩ := List.mem_map.1 ht
    obtain ⟨hne, -, hmark⟩ := h.named cell hc
    refine Placeholder.parse_plain hne fun c hhead => ?_
    obtain ⟨hplus, hkey, hvalue⟩ := hmark c hhead
    simp [Placeholder.isMark, hplus, hkey, hvalue]

/-! ## The line of a layout -/

/-- A literal that is found first behind a value divides the line there. -/
theorem divides_of_first {value delimiter after : Text}
    (hleft : ∀ i < value.length, ¬ delimiter <+: (value ++ delimiter).drop i)
    (hstop : ¬ delimiter <+: after) :
    Divides delimiter (value ++ delimiter ++ after) value after where
  copies := ⟨0, by simp⟩
  leftmost := by
    intro i hi
    rw [prefix_drop_append_iff (by omega)]
    exact hleft i hi
  stops := hstop

/-- The values of cells are the chain of their row. -/
theorem chain_row {cells : List Cell} (hdelimited : ∀ cell ∈ cells.dropLast, cell.delimiter ≠ [])
    (hfirst : ∀ cell after, cell :: after <:+ cells → cell.delimiter ≠ [] →
      (∀ i < cell.value.length, ¬ cell.delimiter <+: (cell.value ++ cell.delimiter).drop i) ∧
        ¬ cell.delimiter <+: row after) :
    ∃ rest, Split.Chain (cells.map Cell.token) (row cells) (cells.map (·.value)) rest := by
  induction cells with
  | nil => exact ⟨[], .done _ _⟩
  | cons cell cells ih =>
    have hrow : row (cell :: cells) = cell.value ++ cell.delimiter ++ row cells := rfl
    rw [hrow]
    by_cases hd : cell.delimiter = []
    · -- only the last cell has no literal
      cases cells with
      | nil =>
        refine ⟨[], .next ?_ (.done _ _)⟩
        rw [hd, row, List.flatMap_nil, List.append_nil, List.append_nil]
        exact .remainder hd
      | cons second cells => exact absurd hd (hdelimited cell (by simp))
    · obtain ⟨hleft, hstop⟩ := hfirst cell cells List.suffix_rfl hd
      have htail : ∀ other ∈ cells.dropLast, other.delimiter ≠ [] := by
        intro other ho
        refine hdelimited other ?_
        cases cells with
        | nil => simp at ho
        | cons second cells => exact List.mem_cons_of_mem cell ho
      obtain ⟨rest, hc⟩ := ih htail fun other after hs =>
        hfirst other after (hs.trans (List.suffix_cons cell cells))
      exact ⟨rest, .next (.literal hd (divides_of_first hleft hstop)) hc⟩

theorem starts_line {l : Layout} (h : l.Unambiguous) : l.compiled.Starts l.line (row l.cells) := by
  constructor
  · intro hl
    have hnone : l.leading = [] := hl
    rw [line, hnone, List.nil_append]
  · intro hl
    have hd : Divides l.leading ([] ++ l.leading ++ row l.cells) [] (row l.cells) :=
      divides_of_first (by simp) (h.leading_once hl)
    exact ⟨[], hd⟩

/-! ## The values of a layout -/

/-- Plain captures under names that no append token uses are written one after another. -/
theorem foldl_assign_plain (e : Extraction) (cells : List Cell) :
    ((cells.map Cell.token).zip (cells.map (·.value))).foldl
        (fun e (token, capture) => Pattern.assign [] e token.placeholder capture) e =
      ⟨(cells.map fun cell => (cell.name, Capture.whole cell.value)).foldl
          (fun t entry => t.put entry.1 entry.2) e.fields, e.keys, e.pending⟩ := by
  induction cells generalizing e with
  | nil => rfl
  | cons cell cells ih =>
    simp only [List.map_cons, List.zip_cons_cons, List.foldl_cons]
    rw [ih]
    simp [Pattern.assign, Cell.token, Extraction.set]

theorem extract_compiled (l : Layout) :
    l.compiled.extract (l.cells.map (·.value)) =
      ⟨Table.ofList (l.cells.map fun cell => (cell.name, Capture.whole cell.value)), {}, {}⟩ := by
  have happend : l.compiled.appendNames = [] := by
    simp [Pattern.appendNames, compiled, Cell.token, Modifier.isAppend]
  rw [Pattern.extract, Pattern.extractWith, happend]
  exact foldl_assign_plain .empty l.cells

/-- Names that are distinct stay with their values. -/
theorem entries_finalize {l : Layout} (h : (l.cells.map (·.name)).Nodup) :
    (l.compiled.extract (l.cells.map (·.value))).finalize.entries =
      l.cells.map fun cell => (cell.name, cell.value) := by
  have hentries :
      (Table.ofList (l.cells.map fun cell => (cell.name, Capture.whole cell.value))).entries =
        l.cells.map fun cell => (cell.name, Capture.whole cell.value) :=
    Table.entries_ofList (by simpa [Function.comp_def] using h)
  rw [extract_compiled, Extraction.finalize, Table.entries_map, hentries]
  simp [Capture.render]

/-- Dissecting the line of an unambiguous layout with its pattern matches and yields exactly
its names with their values, in their order. -/
theorem dissect_line (l : Layout) (h : l.Unambiguous) :
    ∃ p values, Pattern.compile l.pattern = .ok p ∧ p.dissect l.line = .matched values [] ∧
      values.entries = l.cells.map fun cell => (cell.name, cell.value) := by
  obtain ⟨rest, hc⟩ := chain_row h.delimited h.first
  have hsplit : l.compiled.SplitsInto l.line (l.cells.map (·.value)) rest :=
    ⟨row l.cells, starts_line h, hc⟩
  have hmatch := Pattern.dissect_of_dissects (.all hsplit (by simp [compiled]))
  refine ⟨l.compiled, _, compile_pattern h, ?_, entries_finalize h.distinct⟩
  rw [hmatch, extract_compiled]
  rfl

/-- A layout whose literals overlap themselves and the values. -/
def overlapping : Layout where
  leading := "--"
  cells := [⟨"a", "x-", "-->"⟩, ⟨"b+", "", "::"⟩, ⟨"%\x7bc", ":y", ""⟩]

theorem dissect_line_overlapping :
    overlapping.Unambiguous ∧
      overlapping.pattern = "--%\x7ba\x7d-->%\x7bb+\x7d::%\x7b%\x7bc\x7d".toList ∧
      overlapping.line = "--x--->:::y".toList ∧
      ∃ p values, Pattern.compile overlapping.pattern = .ok p ∧
        p.dissect overlapping.line = .matched values [] ∧
          values.entries = [(↑"a", ↑"x-"), (↑"b+", ↑""), (↑"%\x7bc", ↑":y")] := by
  have h : overlapping.Unambiguous := by
    refine ⟨by decide, ?_, by decide, by decide, by decide, by decide, ?_⟩
    · intro cell hc
      simp only [overlapping, List.mem_cons, List.not_mem_nil, or_false] at hc
      rcases hc with rfl | rfl | rfl <;> simp
    · intro cell after hs
      simp only [overlapping, List.suffix_cons_iff, List.cons.injEq, List.suffix_nil, reduceCtorEq,
        or_false] at hs
      rcases hs with ⟨rfl, rfl⟩ | ⟨rfl, rfl⟩ | ⟨rfl, rfl⟩ <;> decide
  exact ⟨h, rfl, rfl, dissect_line overlapping h⟩

end Layout

end Dissection
