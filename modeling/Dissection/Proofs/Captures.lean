import Dissection.Proofs.Pairing

/-!
# What captures do

Each capture is one operation on what has been gathered, or none if its placeholder drops it.
So what a text yields is what a run of operations leaves, and what is said of runs by the
positions of operations can be said of a text by its captures.

Which tags have a value and no name depends on the pattern alone if the text matches, since then
every placeholder has a capture.

## Main definitions

* `Extraction.namedTags`, `Extraction.valuedTags` — the tags of operations.
* `Pattern.operations` — what the captures of a pattern's first tokens do.
* `Pattern.unpairedTags` — the tags under which a pattern captures a value and no name.

## Main statements

* `Extraction.keys_pending_run` — the tags under which values wait, in order.
* `Pattern.extract_eq_run` — what captures yield is what their operations leave.
* `Pattern.orphans_of_dissect` — the tags without a name are those of the pattern.
-/

namespace Dissection

/-! ## Tags without a name -/

namespace Extraction

/-- The tags that operations give a name to. -/
def namedTags (ops : List Operation) : List Text :=
  ops.filterMap fun
    | .key tag _ => some tag
    | _ => none

/-- The tags that operations capture a value under. -/
def valuedTags (ops : List Operation) : List Text :=
  ops.filterMap fun
    | .value tag _ => some tag
    | _ => none

theorem namedTags_concat_of_ne {ops : List Operation} {op : Operation}
    (h : ∀ tag name, op ≠ .key tag name) : namedTags (ops ++ [op]) = namedTags ops := by
  cases op with
  | key tag name => exact absurd rfl (h tag name)
  | set | append | value => simp [namedTags]

theorem valuedTags_concat_of_ne {ops : List Operation} {op : Operation}
    (h : ∀ tag value, op ≠ .value tag value) : valuedTags (ops ++ [op]) = valuedTags ops := by
  cases op with
  | value tag v => exact absurd rfl (h tag v)
  | set | append | key => simp [valuedTags]

theorem namedTags_concat_key (ops : List Operation) (tag name : Text) :
    namedTags (ops ++ [.key tag name]) = namedTags ops ++ [tag] := by
  simp [namedTags]

theorem valuedTags_concat_value (ops : List Operation) (tag value : Text) :
    valuedTags (ops ++ [.value tag value]) = valuedTags ops ++ [tag] := by
  simp [valuedTags]

/-- The tags under which a value and no name is captured. -/
def unpairedTags (ops : List Operation) : List Text :=
  (valuedTags ops).eraseDups.filter (· ∉ namedTags ops)

theorem mem_namedTags {ops : List Operation} {tag : Text} :
    tag ∈ namedTags ops ↔ ∃ name, .key tag name ∈ ops := by
  rw [namedTags, List.mem_filterMap]
  constructor
  · rintro ⟨op, hop, htag⟩
    cases op with
    | key other name =>
      obtain rfl := Option.some.inj htag
      exact ⟨name, hop⟩
    | set | append | value => cases htag
  · rintro ⟨name, hop⟩
    exact ⟨_, hop, rfl⟩

/-- A tag has no name if it got none. -/
theorem get?_keys_run_eq_none_iff {ops : List Operation} {tag : Text} :
    (run ops).keys.get? tag = none ↔ tag ∉ namedTags ops := by
  rw [(recorded_run ops).keys, lastOf, List.getLast?_eq_none_iff, List.filterMap_eq_nil_iff,
    mem_namedTags]
  simp only [Option.eq_none_iff_forall_ne_some, ne_eq, Operation.keyUnder?_eq_some_iff]
  constructor
  · rintro h ⟨name, hop⟩
    exact h _ hop name rfl
  · rintro h op hop name rfl
    exact h ⟨name, hop⟩

/-- With a name a tag has no value that waits. -/
theorem keys_pending_setKey (e : Extraction) (tag name : Text) :
    (e.setKey tag name).pending.keys = e.pending.keys.filter (!· == tag) := by
  rw [setKey]
  split
  · next hnone =>
    refine (List.filter_eq_self.2 fun other hother => ?_).symm
    rw [Bool.not_eq_true', beq_eq_false_iff_ne]
    rintro rfl
    exact Table.get?_eq_none_iff.1 hnone hother
  · exact Table.keys_erase e.pending tag

/-- Values wait under the tags without a name, in the order in which the first of them were
captured. -/
theorem keys_pending_run (ops : List Operation) :
    (run ops).pending.keys = unpairedTags ops := by
  induction ops using List.reverseRecOn with
  | nil => rfl
  | append_singleton ops op ih =>
    rw [run_concat, unpairedTags]
    cases op with
    | set name value =>
      rw [namedTags_concat_of_ne (by simp), valuedTags_concat_of_ne (by simp)]
      exact ih
    | append name value slot =>
      rw [namedTags_concat_of_ne (by simp), valuedTags_concat_of_ne (by simp)]
      exact ih
    | key tag name =>
      rw [namedTags_concat_key, valuedTags_concat_of_ne (by simp)]
      refine (keys_pending_setKey _ tag name).trans ?_
      rw [ih, unpairedTags, List.filter_filter]
      refine List.filter_congr fun other _ => ?_
      rw [Bool.eq_iff_iff]
      simp [and_comm]
    | value tag value =>
      rw [namedTags_concat_of_ne (by simp), valuedTags_concat_value, eraseDups_concat]
      simp only [perform, setValue]
      split
      · next hnone =>
        -- a tag without a name lets its value wait, behind the others if it is the first
        have htag := get?_keys_run_eq_none_iff.1 hnone
        rw [Table.keys_put, ih, unpairedTags]
        by_cases hmem : tag ∈ valuedTags ops <;> simp [hmem, htag]
      · next name hsome =>
        have htag : tag ∈ namedTags ops := by
          by_contra hnone
          rw [get?_keys_run_eq_none_iff.2 hnone] at hsome
          cases hsome
        refine ih.trans ?_
        rw [unpairedTags]
        by_cases hmem : tag ∈ valuedTags ops <;> simp [hmem, htag]

end Extraction

/-! ### Captures as operations -/

namespace Pattern

open Extraction

/-- What a capture does, if it does anything. -/
def operation? (appendNames : List Text) (target : Placeholder) (capture : Text) :
    Option Operation :=
  match target.modifier with
  | .skip => none
  | .normal =>
    some (if target.name ∈ appendNames then .append target.name capture none
      else .set target.name capture)
  | .append => some (.append target.name capture none)
  | .appendAt slot => some (.append target.name capture (some slot))
  | .key => some (.key target.name capture)
  | .value => some (.value target.name capture)

theorem assign_eq_perform (appendNames : List Text) (e : Extraction) (target : Placeholder)
    (capture : Text) :
    assign appendNames e target capture =
      (operation? appendNames target capture).elim e e.perform := by
  rw [assign, operation?]
  cases target.modifier with
  | normal =>
    by_cases hname : target.name ∈ appendNames
    · simp [hname, perform]
    · simp [hname, perform]
  | skip | append | appendAt | key | value => rfl

/-- What the captures of a pattern's first tokens do. -/
def operations (p : Pattern) (captures : List Text) : List Operation :=
  (p.tokens.zip captures).filterMap fun (token, capture) =>
    operation? p.appendNames token.placeholder capture

theorem extract_eq_run (p : Pattern) (captures : List Text) :
    p.extract captures = Extraction.run (p.operations captures) := by
  rw [Extraction.run, operations, List.foldl_filterMap, extract, extractWith]
  congr 1
  funext e pair
  obtain ⟨token, capture⟩ := pair
  simp only [assign_eq_perform]
  cases operation? p.appendNames token.placeholder capture <;> rfl

/-- The tags of the placeholders of a kind, in order. -/
def tagsOf (p : Pattern) (modifier : Modifier) : List Text :=
  p.tokens.filterMap fun token =>
    if token.placeholder.modifier = modifier then some token.placeholder.name else none

/-- The tags under which the pattern captures a value and no name, each at its first value. -/
def unpairedTags (p : Pattern) : List Text :=
  (p.tagsOf .value).eraseDups.filter (· ∉ p.tagsOf .key)

theorem fst_zip_eq_take (tokens : List Token) (captures : List Text) :
    (tokens.zip captures).map Prod.fst = tokens.take captures.length := by
  induction tokens generalizing captures with
  | nil => simp
  | cons token tokens ih =>
    cases captures with
    | nil => rfl
    | cons capture captures => exact congrArg (token :: ·) (ih captures)

/-- What the operations of one kind of placeholder yield. -/
theorem filterMap_operations {p : Pattern} {modifier : Modifier} {tag? : Operation → Option Text}
    (htag : ∀ target capture, (operation? p.appendNames target capture).bind tag? =
      if target.modifier = modifier then some target.name else none) (captures : List Text) :
    (p.operations captures).filterMap tag? =
      (p.tokens.take captures.length).filterMap fun token =>
        if token.placeholder.modifier = modifier then some token.placeholder.name else none := by
  rw [operations, List.filterMap_filterMap, ← fst_zip_eq_take, List.filterMap_map]
  exact List.filterMap_congr fun pair _ => htag pair.1.placeholder pair.2

/-- The tags that captures give a name to are those of the first tokens. -/
theorem namedTags_operations (p : Pattern) (captures : List Text) :
    namedTags (p.operations captures) =
      ({ p with tokens := p.tokens.take captures.length } : Pattern).tagsOf .key := by
  refine filterMap_operations (fun target capture => ?_) captures
  rw [operation?]
  cases target.modifier with
  | normal => by_cases hname : target.name ∈ p.appendNames <;> simp [hname]
  | skip | append | appendAt | key | value => simp

theorem valuedTags_operations (p : Pattern) (captures : List Text) :
    valuedTags (p.operations captures) =
      ({ p with tokens := p.tokens.take captures.length } : Pattern).tagsOf .value := by
  refine filterMap_operations (fun target capture => ?_) captures
  rw [operation?]
  cases target.modifier with
  | normal => by_cases hname : target.name ∈ p.appendNames <;> simp [hname]
  | skip | append | appendAt | key | value => simp

/-- On a match the tags without a name are those of the pattern. -/
theorem orphans_of_dissect {p : Pattern} {text : Text} (h : (p.dissect text).isMatched = true) :
    (p.dissect text).orphans = p.unpairedTags := by
  have hlength := length_captures_of_isMatched h
  have horphans : (p.dissect text).orphans = (p.extract (p.captures text)).pending.keys := by
    rw [dissect_eq, captures] at *
    cases hstart : p.afterLeading? text with
    | none => simp [hstart, Outcome.isMatched] at h
    | some start =>
      cases hmissing : (Split.ofTokens p.tokens start).missing with
      | none => simp [hmissing, Outcome.orphans, Extraction.unpaired]
      | some delimiter => simp [hstart, hmissing, Outcome.isMatched] at h
  rw [horphans, extract_eq_run, keys_pending_run, Extraction.unpairedTags, namedTags_operations,
    valuedTags_operations, hlength, List.take_length, unpairedTags]

end Pattern

end Dissection
