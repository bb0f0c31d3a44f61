import Dissection.Proofs.Simultaneous

/-!
# Records whose fields stand in another order

Nothing that a filter does to a record depends on the order in which the fields of the record
stand: fields are read by their names, templates are filled in from what is found under names,
and tags are appended to the one field that holds them.  So an action that is done to two
records with the same fields gives the same result and leaves the same fields in both.

The order does not go away, since a field that is new goes behind those that are there.  What
is the same is the entries, each with its value, and what is found under every name.

## Main definitions

* `Table.Same` — tables with the same entries, in whatever order.
* `Action.IgnoresOrder` — an action to which the order of the fields means nothing.

## Main statements

* `Table.Same.of_perm`, `Table.Same.put`, `Table.same_put_put` — tables under texts.
* `Action.IgnoresOrder.bind`, `Action.IgnoresOrder.get_bind` — actions one after another.
* `Filter.ignoresOrder_applyRules`, `Conversion.ignoresOrder_convertAll`,
  `Filter.ignoresOrder_finish` — the stages of processing.
-/

namespace Dissection

open Dissection.Action Dissection.Record

/-! ## Tables -/

namespace Table

variable {α : Type} {t t' t'' : Table Value α}

/-- Tables with the same entries, in whatever order, so that the same is found under every
key. -/
structure Same (t t' : Table Value α) : Prop where
  entries : t.entries.Perm t'.entries
  found : ∀ key, t.get? key = t'.get? key

theorem Same.refl (t : Table Value α) : t.Same t := ⟨.refl _, fun _ => rfl⟩

theorem Same.of_eq (h : t = t') : t.Same t' := h ▸ .refl t

theorem Same.symm (h : t.Same t') : t'.Same t := ⟨h.entries.symm, fun key => (h.found key).symm⟩

theorem Same.trans (h : t.Same t') (h' : t'.Same t'') : t.Same t'' :=
  ⟨h.entries.trans h'.entries, fun key => (h.found key).trans (h'.found key)⟩

instance : Trans (Same (α := α)) Same Same := ⟨Same.trans⟩

/-- Under texts the entries decide what is found. -/
theorem get?_text_of_perm (h : t.entries.Perm t'.entries) (name : Text) :
    t.get? (.text name) = t'.get? (.text name) := by
  cases hget : t.get? (.text name) with
  | some value => exact (get?_of_mem_entries (h.mem_iff.1 (mem_entries_of_get? hget))).symm
  | none =>
    cases hget' : t'.get? (.text name) with
    | none => rfl
    | some value =>
      rw [get?_of_mem_entries (h.mem_iff.2 (mem_entries_of_get? hget'))] at hget
      cases hget

/-- Under other keys than texts nothing is found where all keys are texts. -/
theorem get?_of_texts (ht : ∀ key ∈ t.keys, ∃ name, key = .text name) {key : Value}
    (hkey : ∀ name, key ≠ .text name) : t.get? key = none := by
  have hnone : t.entries.find? (·.1 == key) = none := by
    rw [List.find?_eq_none]
    intro entry he hbeq
    obtain ⟨name, hname⟩ := ht entry.1 (List.mem_map_of_mem he)
    rw [hname, Value.text_beq_iff] at hbeq
    exact hkey name hbeq
  simp [get?, hnone]

/-- Entries under texts decide what is found under every key. -/
theorem Same.of_perm (ht : ∀ key ∈ t.keys, ∃ name, key = .text name)
    (h : t.entries.Perm t'.entries) : t.Same t' where
  entries := h
  found := by
    have ht' : ∀ key ∈ t'.keys, ∃ name, key = .text name := by
      intro key hkey
      exact ht key ((h.map Prod.fst).mem_iff.2 hkey)
    intro key
    by_cases hkey : ∃ name, key = .text name
    · obtain ⟨name, rfl⟩ := hkey
      exact get?_text_of_perm h name
    · rw [not_exists] at hkey
      rw [get?_of_texts ht hkey, get?_of_texts ht' hkey]

/-- A field that is not there goes behind those that are. -/
theorem entries_put_of_get?_none {name : Text} (h : t.get? (.text name) = none) (value : α) :
    (t.put (.text name) value).entries = t.entries ++ [(.text name, value)] := by
  refine putEntry_of_new fun entry he => ?_
  rw [Value.beq_text, decide_eq_false_iff_not]
  intro hkey
  have hmem : (Value.text name, entry.2) ∈ t.entries := hkey ▸ he
  rw [get?_of_mem_entries hmem] at h
  cases h

/-- Writing a field under a text leaves the same entries. -/
theorem Same.put (h : t.Same t') (name : Text) (value : α) :
    (t.put (.text name) value).Same (t'.put (.text name) value) where
  entries := by
    have hfound := h.found (.text name)
    cases hget : t.get? (.text name) with
    | none =>
      rw [hget] at hfound
      rw [entries_put_of_get?_none hget, entries_put_of_get?_none hfound.symm]
      exact h.entries.append_right _
    | some old =>
      rw [hget] at hfound
      rw [put_text_eq_mapEntries hget, put_text_eq_mapEntries hfound.symm]
      exact h.entries.map _
  found := by
    intro key
    rw [get?_put_under_text, get?_put_under_text, h.found]

/-- Two fields can be written in either order. -/
theorem same_put_put (t : Table Value α) {name other : Text} (hne : name ≠ other)
    (value later : α) :
    ((t.put (.text name) value).put (.text other) later).Same
      ((t.put (.text other) later).put (.text name) value) where
  entries := by
    simp only [Table.put]
    induction t.entries with
    | nil => simpa [putEntry, Value.beq_text, hne, hne.symm] using .swap _ _ _
    | cons entry rest ih =>
      by_cases hname : entry.1 = .text name
      · have hother : entry.1 ≠ .text other := by simp [hname, hne]
        simp [putEntry, Value.beq_text, hname, hne]
      · by_cases hother : entry.1 = .text other
        · simp [putEntry, Value.beq_text, hother, hne.symm]
        · simpa [putEntry, Value.beq_text, hname, hother] using ih
  found := by
    intro key
    simp only [get?_put_under_text]
    by_cases hname : key = .text name
    · simp [hname, hne]
    · simp [hname]

end Table

theorem Record.tagList?_of_same {r r' : Record} (h : r.Same r') :
    Record.tagList? r = Record.tagList? r' := by
  rw [Record.tagList?, Record.tagList?, h.found]

/-! ## Actions -/

namespace Action

variable {α β : Type} {a : Action α}

/-- An action to which the order of a record's fields means nothing. -/
def IgnoresOrder (a : Action α) : Prop :=
  ∀ ⦃r r' r₁ : Record⦄ ⦃x : α⦄, r.Same r' → a.Gives r x r₁ →
    ∃ r₁', a.Gives r' x r₁' ∧ r₁.Same r₁'

theorem ignoresOrder_pure (x : α) : (Pure.pure x : Action α).IgnoresOrder := by
  intro r r' r₁ y hsame h
  obtain ⟨rfl, rfl⟩ := gives_pure_iff.1 h
  exact ⟨r', gives_pure_iff.2 ⟨rfl, rfl⟩, hsame⟩

theorem ignoresOrder_log (lines : List Log.Line) : (log lines).IgnoresOrder := by
  intro r r' r₁ x hsame h
  obtain rfl := gives_log_iff.1 h
  exact ⟨r', gives_log_iff.2 rfl, hsame⟩

theorem ignoresOrder_stop (fault : Fault) : (stop fault : Action α).IgnoresOrder := by
  intro r r' r₁ x hsame h
  exact absurd h not_gives_stop

theorem ignoresOrder_use (e : Except Value.Misfit α) : (use e).IgnoresOrder := by
  cases e with
  | error m => exact ignoresOrder_stop _
  | ok x => exact ignoresOrder_pure x

theorem ignoresOrder_set (name : Text) (v : Value) : (set (.text name) v).IgnoresOrder := by
  intro r r' r₁ x hsame h
  obtain rfl := gives_set_iff.1 h
  exact ⟨_, gives_set_iff.2 rfl, hsame.put name v⟩

theorem ignoresOrder_appendTag (tag : Value) : (appendTag tag).IgnoresOrder := by
  intro r r' r₁ x hsame h
  rw [gives_appendTag_iff] at h
  obtain ⟨tags, htags⟩ := exists_appendTag_iff.1 ⟨r₁, h⟩
  have htags' : r'.HasTags tags := (hsame.found _).symm.trans htags
  rw [htags.appendTag] at h
  obtain rfl := Except.ok.inj h
  exact ⟨_, gives_appendTag_iff.2 (htags'.appendTag tag), hsame.put _ _⟩

theorem IgnoresOrder.bind {f : α → Action β} (ha : a.IgnoresOrder)
    (hf : ∀ x, (f x).IgnoresOrder) : (a >>= f).IgnoresOrder := by
  intro r r' r₂ y hsame h
  obtain ⟨x, r₁, hfirst, hsecond⟩ := gives_bind_iff.1 h
  obtain ⟨r₁', hfirst', hsame₁⟩ := ha hsame hfirst
  obtain ⟨r₂', hsecond', hsame₂⟩ := hf x hsame₁ hsecond
  exact ⟨r₂', gives_bind_iff.2 ⟨x, r₁', hfirst', hsecond'⟩, hsame₂⟩

/-- An action that goes on from the record as it is, if it goes on alike from records with the
same fields. -/
theorem IgnoresOrder.get_bind {f : Record → Action β}
    (halike : ∀ {r r' : Record}, r.Same r' → f r = f r') (hf : ∀ r, (f r).IgnoresOrder) :
    (get >>= f).IgnoresOrder := by
  intro r r' r₁ y hsame h
  rw [gives_get_bind_iff] at h
  obtain ⟨r₁', h', hsame₁⟩ := hf r hsame h
  exact ⟨r₁', gives_get_bind_iff.2 (halike hsame ▸ h'), hsame₁⟩

theorem ignoresOrder_setAll (entries : List (Text × Text)) : (setAll entries).IgnoresOrder := by
  induction entries with
  | nil => exact ignoresOrder_pure ()
  | cons entry rest ih => exact (ignoresOrder_set entry.1 _).bind fun _ => ih

theorem ignoresOrder_appendTags (tags : List Value) : (appendTags tags).IgnoresOrder := by
  induction tags with
  | nil => exact ignoresOrder_pure ()
  | cons tag rest ih => exact (ignoresOrder_appendTag tag).bind fun _ => ih

end Action

/-! ## The stages of processing -/

namespace Conversion

theorem ignoresOrder_report (failure : Failure) : (report failure).IgnoresOrder := by
  rw [report]
  cases failure.warning with
  | error u => exact ignoresOrder_stop _
  | ok message =>
    apply (ignoresOrder_log _).bind
    intro _
    exact (ignoresOrder_use _).bind fun tag => ignoresOrder_appendTag (.text tag)

theorem ignoresOrder_convertField (name : Text) (datatype : Value) :
    (convertField (.text name) datatype).IgnoresOrder := by
  apply IgnoresOrder.get_bind
  · intro r r' hsame
    simp only [Record.value, hsame.found]
  · intro r
    cases judge datatype (Record.value r (.text name)) with
    | error fault => exact ignoresOrder_stop fault
    | ok verdict =>
      cases verdict with
      | inl v => exact (ignoresOrder_set name v).bind fun _ => ignoresOrder_pure none
      | inr cause => exact (ignoresOrder_report _).bind fun _ => ignoresOrder_pure _

theorem ignoresOrder_convertAll (entries : List (Text × Text)) :
    (convertAll (entries.map pair)).IgnoresOrder := by
  induction entries with
  | nil => exact ignoresOrder_pure []
  | cons entry rest ih =>
    apply (ignoresOrder_convertField entry.1 (.text entry.2)).bind
    intro failure
    exact ih.bind fun failures => ignoresOrder_pure _

end Conversion

namespace Filter

theorem ignoresOrder_applyRule (failureTags source : Value) (pattern : Pattern) :
    (applyRule failureTags source pattern).IgnoresOrder := by
  apply IgnoresOrder.get_bind
  · intro r r' hsame
    simp only [Pattern.dissectField, hsame.found]
  · intro r
    apply (ignoresOrder_use _).bind
    intro outcome
    apply (ignoresOrder_log _).bind
    intro _
    apply (ignoresOrder_setAll _).bind
    intro _
    cases outcome with
    | matched values orphans => exact ignoresOrder_pure _
    | keyNotFound => exact (ignoresOrder_log _).bind fun _ => ignoresOrder_pure _
    | patternNotFound values token delimiter =>
      apply (ignoresOrder_log _).bind
      intro _
      apply (ignoresOrder_use _).bind
      intro tags
      exact (ignoresOrder_appendTags tags).bind fun _ => ignoresOrder_pure _

theorem ignoresOrder_applyRules (failureTags : Value) (rules : List (Value × Pattern)) :
    (applyRules failureTags rules).IgnoresOrder := by
  induction rules with
  | nil => exact ignoresOrder_pure []
  | cons rule rest ih =>
    apply (ignoresOrder_applyRule failureTags rule.1 rule.2).bind
    intro outcome
    exact ih.bind fun outcomes => ignoresOrder_pure _

theorem ignoresOrder_filledIn (template : Value) : (filledIn template).IgnoresOrder := by
  apply IgnoresOrder.get_bind
  · intro r r' hsame
    rw [yield_congr (fun name => hsame.found (.text name)) template]
  · intro r
    exact ignoresOrder_use _

theorem ignoresOrder_addField (entry : Value × Value) : (addField entry).IgnoresOrder := by
  apply (ignoresOrder_filledIn entry.1).bind
  intro name
  apply (ignoresOrder_filledIn entry.2).bind
  intro text
  exact ignoresOrder_set name (.text text)

theorem ignoresOrder_addFields (entries : List (Value × Value)) :
    (addFields entries).IgnoresOrder := by
  induction entries with
  | nil => exact ignoresOrder_pure ()
  | cons entry rest ih => exact (ignoresOrder_addField entry).bind fun _ => ih

theorem ignoresOrder_addTag (template : Value) : (addTag template).IgnoresOrder := by
  apply (ignoresOrder_filledIn template).bind
  intro tag
  exact ignoresOrder_appendTag (.text tag)

theorem ignoresOrder_addTags (templates : List Value) : (addTags templates).IgnoresOrder := by
  induction templates with
  | nil => exact ignoresOrder_pure ()
  | cons template rest ih => exact (ignoresOrder_addTag template).bind fun _ => ih

theorem ignoresOrder_decorate (s : Settings) : (decorate s).IgnoresOrder := by
  apply (ignoresOrder_use _).bind
  intro fields
  apply (ignoresOrder_addFields fields).bind
  intro _
  apply (ignoresOrder_use _).bind
  intro tags
  exact ignoresOrder_addTags tags

/-- A record is finished alike: it is decorated alike, and its tags are found alike. -/
theorem ignoresOrder_finish (f : Filter) (outcomes : List (Value × Outcome))
    (failures : List Conversion.Failure) : (f.finish outcomes failures).IgnoresOrder := by
  intro r r' final s hsame h
  obtain ⟨hdecorate, rfl⟩ := gives_finish_iff.1 h
  have hfinal : ∃ final', (if isSuccess outcomes then (decorate f.settings).Gives r' () final'
      else r' = final') ∧ final.Same final' := by
    split
    · next hsuccess =>
      rw [if_pos hsuccess] at hdecorate
      exact ignoresOrder_decorate f.settings hsame hdecorate
    · next hsuccess =>
      rw [if_neg hsuccess] at hdecorate
      exact ⟨r', rfl, hdecorate ▸ hsame⟩
  obtain ⟨final', hdecorate', hsame'⟩ := hfinal
  refine ⟨final', gives_finish_iff.2 ⟨hdecorate', ?_⟩, hsame'⟩
  rw [Record.tagList?_of_same hsame, Record.tagList?_of_same hsame']

end Filter

end Dissection
