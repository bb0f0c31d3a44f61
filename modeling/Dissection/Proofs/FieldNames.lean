import Dissection.Proofs.Captures

/-!
# Where the names of fields come from

A name among the values of a text is either one that the pattern itself has for a field, or a
text captured as the name under a tag that has a captured value too.  On a match every name of
the pattern is there.  A captured name is there if its tag has a value and the pattern captures
no other name under it, for then the value is written to it on whichever side it stands.

What dropped captures hold makes no difference, and neither do the texts of their placeholders
or the tags of pairs: these are no names of fields unless they are so for another reason.

## Main definitions

* `Token.IsDirect` — the name of a token is the name of a field.
* `Pattern.CapturesUnder` — a token of a kind and with a name captures something from a text.
* `Pattern.NamesField` — a text can name a field.
* `Pattern.extractFrom`, `Pattern.saved` — what captures yield, and those that are not dropped.

## Main statements

* `Extraction.mem_keys_run_iff` — the fields of a run are those that its writes name.
* `Pattern.values_of_saved` — dropped captures make no difference.
* `Pattern.names_of_dissect` — which names are among the values.
-/

namespace Dissection

namespace Extraction

variable {ops : List Operation} {tag name other value : Text}

/-! ## The fields of a run -/

/-- The fields of a run are those that its writes name. -/
theorem mem_keys_run_iff :
    name ∈ (run ops).fields.keys ↔ ∃ p write, Writes ops p write ∧ write.field? = some name := by
  rw [(recorded_run ops).fields, keys_run_of_isDirect fun _ => isDirect_of_mem_history,
    List.mem_eraseDups, List.mem_filterMap]
  simp only [List.mem_map, Prod.exists, ← mem_history_iff_writes]
  constructor
  · rintro ⟨write, ⟨p, _, hp, rfl⟩, hfield⟩
    exact ⟨p, _, hp, hfield⟩
  · rintro ⟨p, write, hp, hfield⟩
    exact ⟨write, ⟨p, write, hp, rfl⟩, hfield⟩

/-- A field of a run is named by an operation, or by a tag that has a value. -/
theorem named_of_mem_keys_run (h : name ∈ (run ops).fields.keys) :
    (∃ op ∈ ops, op.field? = some name) ∨
      ∃ tag value, .key tag name ∈ ops ∧ .value tag value ∈ ops := by
  obtain ⟨p, write, hwrite, hfield⟩ := mem_keys_run_iff.1 h
  cases hwrite with
  | direct hop _ => exact .inl ⟨write, List.mem_of_getElem? hop, hfield⟩
  | paired hpairs =>
    cases hfield
    cases hpairs with
    | known hi hj _ _ => exact .inr ⟨_, _, List.mem_of_getElem? hi, List.mem_of_getElem? hj⟩
    | awaited hj hp _ _ _ => exact .inr ⟨_, _, List.mem_of_getElem? hp, List.mem_of_getElem? hj⟩

/-- What an operation names is a field of the run. -/
theorem mem_keys_run_of_field {op : Operation} (hop : op ∈ ops) (hfield : op.field? = some name) :
    name ∈ (run ops).fields.keys := by
  obtain ⟨p, hp⟩ := List.mem_iff_getElem?.1 hop
  have hdirect : op.IsDirect := by
    cases op with
    | set | append => trivial
    | key | value => cases hfield
  exact mem_keys_run_iff.2 ⟨p, op, .direct hp hdirect, hfield⟩

/-- A tag that gets no more than one name gets it from one operation. -/
theorem eq_of_count_namedTags {i m : Nat} (h : (namedTags ops).count tag ≤ 1)
    (hi : ops[i]? = some (.key tag name)) (hm : ops[m]? = some (.key tag other)) : m = i := by
  have hapart : ops.Pairwise fun a b => ∀ x y, a = .key tag x → b ≠ .key tag y := by
    rw [List.pairwise_iff_forall_sublist]
    rintro a b hsub x y rfl rfl
    have htwice : (namedTags [.key tag x, .key tag y]).Sublist (namedTags ops) :=
      hsub.filterMap _
    have hcount := htwice.count_le tag
    have htags : namedTags [.key tag x, .key tag y] = [tag, tag] := rfl
    rw [htags, List.count_cons_self, List.count_singleton_self] at hcount
    omega
  rw [List.pairwise_iff_getElem] at hapart
  obtain ⟨hilt, hi⟩ := List.getElem?_eq_some_iff.1 hi
  obtain ⟨hmlt, hm⟩ := List.getElem?_eq_some_iff.1 hm
  rcases Nat.lt_trichotomy m i with hlt | heq | hlt
  · exact absurd hi (hapart m i hmlt hilt hlt other name hm)
  · exact heq
  · exact absurd hm (hapart i m hilt hmlt hlt name other hi)

/-- The only name under a tag with a value is a field of the run. -/
theorem mem_keys_run_of_count (h : (namedTags ops).count tag ≤ 1) (hkey : .key tag name ∈ ops)
    (hvalue : .value tag value ∈ ops) : name ∈ (run ops).fields.keys := by
  obtain ⟨i, hi⟩ := List.mem_iff_getElem?.1 hkey
  obtain ⟨j, hj⟩ := List.mem_iff_getElem?.1 hvalue
  have honly : ∀ m other, ops[m]? = some (.key tag other) → m = i :=
    fun m other hm => eq_of_count_namedTags h hi hm
  rcases Nat.lt_trichotomy i j with hlt | rfl | hlt
  · -- the value finds the name
    have hpairs : Pairs ops j j name value :=
      .known hi hj hlt fun m other him _ hm => him.ne' (honly m other hm)
    exact mem_keys_run_iff.2 ⟨j, _, .paired hpairs, rfl⟩
  · rw [hi] at hj
    cases hj
  · -- the name finds the last value in front of it
    have hnone : lastOf (Operation.keyUnder? tag) (ops.take i) = none := by
      refine lastOf_take_eq_none_iff.2 fun m hm x hx => ?_
      exact hm.ne (honly m x (bind_keyUnder?_eq_some_iff.1 hx))
    have hsome : lastOf (Operation.valueUnder? tag) (ops.take i) ≠ none := by
      intro hnone
      exact lastOf_take_eq_none_iff.1 hnone j hlt value (bind_valueUnder?_eq_some_iff.2 hj)
    obtain ⟨v, hv⟩ := Option.ne_none_iff_exists'.1 hsome
    have heffect : effect (ops.take i) (.key tag name) = some (.set name v) :=
      effect_key_eq_some_iff.2 ⟨hnone, v, hv, rfl⟩
    have hwrite := mem_history_iff_writes.1 (mem_history_iff.2 ⟨_, hi, heffect⟩)
    exact mem_keys_run_iff.2 ⟨i, _, hwrite, rfl⟩

end Extraction

/-- Whether the name of a token is the name of a field. -/
def Token.IsDirect (token : Token) : Prop :=
  token.placeholder.modifier.isSaved = true ∧ token.placeholder.modifier.isIndirect = false

namespace Pattern

open Extraction

variable {p : Pattern} {text tag name capture : Text}

/-! ## Captures by their tokens -/

/-- A token of a kind and with a name captures something from a text. -/
def CapturesUnder (p : Pattern) (text : Text) (modifier : Modifier) (name capture : Text) : Prop :=
  ∃ token, (token, capture) ∈ p.taken text ∧ token.placeholder.modifier = modifier ∧
    token.placeholder.name = name

theorem mem_operations_iff {op : Operation} :
    op ∈ p.operations (p.captures text) ↔ ∃ token capture, (token, capture) ∈ p.taken text ∧
      operation? p.appendNames token.placeholder capture = some op := by
  simp only [operations, taken, List.mem_filterMap, Prod.exists]

/-- Where one kind of token does one kind of operation, the operations tell its captures. -/
theorem mem_operations_iff_capturesUnder {modifier : Modifier} {op : Operation}
    (hop : ∀ target taken, operation? p.appendNames target taken = some op ↔
      target.modifier = modifier ∧ target.name = name ∧ taken = capture) :
    op ∈ p.operations (p.captures text) ↔ p.CapturesUnder text modifier name capture := by
  simp only [mem_operations_iff, hop, CapturesUnder]
  constructor
  · rintro ⟨token, _, htaken, hkind, hname, rfl⟩
    exact ⟨token, htaken, hkind, hname⟩
  · rintro ⟨token, htaken, hkind, hname⟩
    exact ⟨token, capture, htaken, hkind, hname, rfl⟩

theorem key_mem_operations_iff :
    .key tag name ∈ p.operations (p.captures text) ↔ p.CapturesUnder text .key tag name := by
  refine mem_operations_iff_capturesUnder fun target taken => ?_
  rw [operation?]
  cases target.modifier with
  | normal => by_cases hname : target.name ∈ p.appendNames <;> simp [hname]
  | skip | append | appendAt | key | value => simp

theorem value_mem_operations_iff :
    .value tag capture ∈ p.operations (p.captures text) ↔
      p.CapturesUnder text .value tag capture := by
  refine mem_operations_iff_capturesUnder fun target taken => ?_
  rw [operation?]
  cases target.modifier with
  | normal => by_cases hname : target.name ∈ p.appendNames <;> simp [hname]
  | skip | append | appendAt | key | value => simp

/-! ## Names of fields -/

theorem mem_fieldNames_iff :
    name ∈ p.fieldNames ↔ ∃ token ∈ p.tokens, token.IsDirect ∧ token.placeholder.name = name := by
  rw [fieldNames_eq, List.mem_eraseDups]
  simp only [List.mem_map, List.mem_filter, Bool.and_eq_true, Bool.not_eq_true', Token.IsDirect,
    and_assoc]

/-- A capture names the field that it is written to exactly if its token is direct. -/
theorem exists_field?_iff {names : List Text} {token : Token} :
    (∃ op, operation? names token.placeholder capture = some op ∧ op.field? = some name) ↔
      token.IsDirect ∧ token.placeholder.name = name := by
  rw [operation?, Token.IsDirect]
  cases token.placeholder.modifier with
  | normal =>
    by_cases hname : token.placeholder.name ∈ names <;>
      simp [hname, Operation.field?, Modifier.isSaved, Modifier.isIndirect]
  | skip | append | appendAt | key | value =>
    simp [Operation.field?, Modifier.isSaved, Modifier.isIndirect]

theorem keys_values_dissect (p : Pattern) (text : Text) :
    (p.dissect text).values.keys = (run (p.operations (p.captures text))).fields.keys := by
  rw [values_dissect, Extraction.finalize, Table.keys_map, extract_eq_run]

/-- A text that can name a field: the pattern's own name for one, or a text captured as the
name under a tag that has a captured value. -/
def NamesField (p : Pattern) (text name : Text) : Prop :=
  name ∈ p.fieldNames ∨
    ∃ tag value, p.CapturesUnder text .key tag name ∧ p.CapturesUnder text .value tag value

theorem namesField_of_mem_values (h : name ∈ (p.dissect text).values.keys) :
    p.NamesField text name := by
  rw [keys_values_dissect] at h
  rcases named_of_mem_keys_run h with ⟨op, hop, hfield⟩ | ⟨tag, value, hkey, hvalue⟩
  · obtain ⟨token, capture, htaken, hoperation⟩ := mem_operations_iff.1 hop
    have htoken : token ∈ p.tokens := (List.of_mem_zip htaken).1
    exact .inl (mem_fieldNames_iff.2 ⟨token, htoken, exists_field?_iff.1 ⟨op, hoperation, hfield⟩⟩)
  · exact .inr ⟨tag, value, key_mem_operations_iff.1 hkey, value_mem_operations_iff.1 hvalue⟩

/-- A direct token that captures something has its field among the values. -/
theorem mem_values_of_taken {token : Token} (htaken : (token, capture) ∈ p.taken text)
    (hdirect : token.IsDirect) : token.placeholder.name ∈ (p.dissect text).values.keys := by
  have hwrites : ∃ op, operation? p.appendNames token.placeholder capture = some op ∧
      op.field? = some token.placeholder.name :=
    exists_field?_iff.2 ⟨hdirect, rfl⟩
  obtain ⟨op, hop, hfield⟩ := hwrites
  rw [keys_values_dissect]
  exact mem_keys_run_of_field (mem_operations_iff.2 ⟨token, capture, htaken, hop⟩) hfield

theorem exists_capture_of_isMatched {token : Token} (h : (p.dissect text).isMatched = true)
    (htoken : token ∈ p.tokens) : ∃ capture, (token, capture) ∈ p.taken text := by
  have hfst : (p.taken text).map Prod.fst = p.tokens :=
    List.map_fst_zip (length_captures_of_isMatched h).ge
  rw [← hfst] at htoken
  obtain ⟨⟨_, capture⟩, htaken, rfl⟩ := List.mem_map.1 htoken
  exact ⟨capture, htaken⟩

/-- The only name that a pattern captures under a tag is a field if the tag has a value. -/
theorem mem_values_of_count {value : Text} (hkey : p.CapturesUnder text .key tag name)
    (hvalue : p.CapturesUnder text .value tag value) (honce : (p.tagsOf .key).count tag = 1) :
    name ∈ (p.dissect text).values.keys := by
  have htokens : (p.tokens.take (p.captures text).length).Sublist p.tokens :=
    List.take_sublist _ _
  have hcount : (namedTags (p.operations (p.captures text))).count tag ≤ 1 := by
    rw [namedTags_operations, ← honce]
    exact (htokens.filterMap _).count_le tag
  rw [keys_values_dissect]
  exact mem_keys_run_of_count hcount (key_mem_operations_iff.2 hkey)
    (value_mem_operations_iff.2 hvalue)

/-! ## Dropped captures -/

/-- What captures yield, each given with its token. -/
def extractFrom (appendNames : List Text) (pairs : List (Token × Text)) : Extraction :=
  pairs.foldl (fun e pair => assign appendNames e pair.1.placeholder pair.2) .empty

/-- The captures that are not dropped, with their tokens. -/
def saved (pairs : List (Token × Text)) : List (Token × Text) :=
  pairs.filter fun pair => pair.1.placeholder.modifier.isSaved

/-- What dropped captures hold makes no difference: the values are those of the others. -/
theorem values_of_saved (p : Pattern) (text : Text) :
    (p.dissect text).values = (extractFrom p.appendNames (saved (p.taken text))).finalize := by
  rw [values_dissect, extract, extractWith, extractFrom, saved, List.foldl_filter]
  congr 2
  funext e pair
  cases hmodifier : pair.1.placeholder.modifier with
  | skip => simp [assign, hmodifier, Modifier.isSaved]
  | normal | append | appendAt | key | value => simp [Modifier.isSaved]

/-! ## The names of the values -/

/-- Every name among the values is the pattern's own name for a field, or was captured as the
name under a tag that has a captured value.  On a match all names of the pattern are there.  A
captured name whose tag has a captured value is there if the pattern has one placeholder for a
name under the tag, on a match or not.  The values are those of the captures that are not
dropped, and neither the tag of a pair nor the text of a dropped placeholder is a name unless
it is one of those named before. -/
theorem names_of_dissect (p : Pattern) (text : Text) :
    (∀ name ∈ (p.dissect text).values.keys, p.NamesField text name) ∧
      ((p.dissect text).isMatched = true →
        ∀ name ∈ p.fieldNames, name ∈ (p.dissect text).values.keys) ∧
      (∀ tag name value, p.CapturesUnder text .key tag name →
        p.CapturesUnder text .value tag value → (p.tagsOf .key).count tag = 1 →
          name ∈ (p.dissect text).values.keys) ∧
      (p.dissect text).values = (extractFrom p.appendNames (saved (p.taken text))).finalize ∧
      ∀ token ∈ p.tokens, ¬ token.IsDirect →
        ∀ shown, shown = token.placeholder.name ∨ shown = token.placeholder.raw →
          ¬ p.NamesField text shown → shown ∉ (p.dissect text).values.keys := by
  refine ⟨fun name => namesField_of_mem_values, ?_, ?_, values_of_saved p text, ?_⟩
  · intro hmatched name hname
    obtain ⟨token, htoken, hdirect, rfl⟩ := mem_fieldNames_iff.1 hname
    obtain ⟨capture, htaken⟩ := exists_capture_of_isMatched hmatched htoken
    exact mem_values_of_taken htaken hdirect
  · intro tag name value hkey hvalue honce
    exact mem_values_of_count hkey hvalue honce
  · intro token _ _ shown _ hnone hshown
    exact hnone (namesField_of_mem_values hshown)

end Pattern

end Dissection
