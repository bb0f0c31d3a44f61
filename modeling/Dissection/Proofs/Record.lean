import Dissection.Proofs.Table
import Dissection.Proofs.Traversal
import Dissection.Record
import Dissection.Template
import Dissection.Value.Identity
import Mathlib.Data.List.Basic
import Mathlib.Data.List.Induction

/-!
# Reading records

The fields of a record are values under values, and equal values of different kinds are
one name.  A text is equal to no other value, so what is found under a text is what was
written under that very text.

The tags of a record are a list under one such name, or absent.  Appending a tag to them
is the only thing that adds to them, and it needs the list or its absence.

## Main definitions

* `Record.HasTags`, `Record.Taggable` — the tags that a record has, and whether it has any
  or none.
* `Record.moreTags` — tags with others behind them.
* `Record.withTags` — a record with other tags.

## Main statements

* `Table.get?_put_text`, `Table.get?_erase_text` — what is found under a text.
* `Table.get?_ofList_text_iff` — of the values written under a text the last is found.
* `Record.HasTags.appendTag` — a tag goes to the end of the tags.
* `Template.interpolate_congr` — a template depends on what is found under texts.
-/

namespace Dissection

/-! ## Fields under texts -/

namespace Value

/-- A text is equal to no other value. -/
theorem text_beq_iff {t : Text} {v : Value} : (text t == v) = true ↔ v = text t := by
  cases v with
  | text u => rw [text_beq_text, beq_iff_eq, text.injEq, eq_comm]
  | _ => simp [beq_eq_alike, alike, sameNumber]

theorem beq_text (v : Value) (t : Text) : (v == text t) = decide (v = text t) := by
  rw [Bool.eq_iff_iff, beq_text_iff, decide_eq_true_iff]

theorem text_beq (t : Text) (v : Value) : (text t == v) = decide (v = text t) := by
  rw [Bool.eq_iff_iff, text_beq_iff, decide_eq_true_iff]

end Value

namespace Table

variable {α : Type}

/-- Writing a field changes what is found under its own name. -/
theorem get?_put_text (t : Table Value α) (key : Value) (name : Text) (value : α) :
    (t.put key value).get? (.text name) =
      if key = .text name then some value else t.get? (.text name) := by
  simp only [get?, put]
  induction t.entries with
  | nil => by_cases h : key = .text name <;> simp [putEntry, Value.beq_text, h]
  | cons entry rest ih =>
    obtain ⟨first, old⟩ := entry
    by_cases hname : first = .text name
    · subst hname
      by_cases h : key = .text name <;> simp [putEntry, Value.text_beq, Value.beq_text, h]
    · cases hkey : first == key with
      | false => simpa [putEntry, hkey, Value.beq_text, hname] using ih
      | true =>
        -- the entry that is overwritten is not the one that is looked for
        have h : key ≠ .text name := by
          rintro rfl
          exact hname (Value.beq_text_iff.1 hkey)
        simp [putEntry, hkey, Value.beq_text, hname, h]

/-- Writing under a text changes what is found under that text. -/
theorem get?_put_under_text (t : Table Value α) (name : Text) (key : Value) (value : α) :
    (t.put (.text name) value).get? key =
      if key = .text name then some value else t.get? key := by
  by_cases hkey : key = .text name
  · subst hkey
    rw [get?_put_text]
  · rw [if_neg hkey]
    have hmiss : (Value.text name == key) = false := by rw [Value.text_beq, decide_eq_false hkey]
    simp only [get?, put]
    induction t.entries with
    | nil => simp [putEntry, hmiss]
    | cons entry rest ih =>
      by_cases hfirst : entry.1 = .text name
      · simp [putEntry, Value.beq_text, hfirst, hmiss]
      · cases hentry : entry.1 == key with
        | true => simp [putEntry, Value.beq_text, hfirst, hentry]
        | false => simpa [putEntry, Value.beq_text, hfirst, hentry] using ih

/-- The last value written under a text is the one that counts. -/
theorem put_put_text (t : Table Value α) (name : Text) (value later : α) :
    (t.put (.text name) value).put (.text name) later = t.put (.text name) later := by
  apply Table.ext
  simp only [put]
  induction t.entries with
  | nil => simp [putEntry, Value.beq_text]
  | cons entry rest ih =>
    by_cases hfirst : entry.1 = .text name
    · simp [putEntry, Value.beq_text, hfirst]
    · simpa [putEntry, Value.beq_text, hfirst] using ih

/-- Erasing a field changes what is found under its own name. -/
theorem get?_text_erase (t : Table Value α) (key : Value) (name : Text) :
    (t.erase key).get? (.text name) = if key = .text name then none else t.get? (.text name) := by
  simp only [get?, erase, List.find?_filter]
  by_cases hkey : key = .text name
  · simp [hkey]
  · have hname : ∀ entry : Value × α,
        (!(entry.1 == key) && entry.1 == .text name) = (entry.1 == .text name) := by
      intro entry
      by_cases hentry : entry.1 = .text name
      · simp [hentry, Value.text_beq, hkey]
      · simp [Value.beq_text, hentry]
    simp [hname, hkey]

/-- Erasing a field under a text changes what is found under that text. -/
theorem get?_erase_text (t : Table Value α) (name other : Text) :
    (t.erase (.text name)).get? (.text other) =
      if name = other then none else t.get? (.text other) := by
  simp only [get?_text_erase, Value.text.injEq]

theorem mem_entries_of_get? {t : Table Value α} {name : Text} {value : α}
    (h : t.get? (.text name) = some value) : (.text name, value) ∈ t.entries := by
  obtain ⟨⟨key, _⟩, hfind, rfl⟩ := Option.map_eq_some_iff.1 h
  have hkey := List.find?_some hfind
  rw [Value.beq_text_iff] at hkey
  subst hkey
  exact List.mem_of_find?_eq_some hfind

theorem get?_of_mem_entries {t : Table Value α} {name : Text} {value : α}
    (h : (.text name, value) ∈ t.entries) : t.get? (.text name) = some value := by
  obtain ⟨before, after, hentries⟩ := List.append_of_mem h
  have hdistinct := t.distinct
  rw [hentries, List.map_append, List.pairwise_append] at hdistinct
  have hbefore : before.find? (·.1 == .text name) = none := by
    refine List.find?_eq_none.2 fun entry he => ?_
    simpa using hdistinct.2.2 entry.1 (List.mem_map_of_mem he) (.text name) (by simp)
  rw [get?, hentries, List.find?_append, hbefore]
  simp [Value.beq_text]

/-- Writing under a text that is present changes one value. -/
theorem entries_put_text (t : Table Value α) {name : Text} {old : α}
    (h : t.get? (.text name) = some old) (value : α) :
    (t.put (.text name) value).entries =
      t.entries.map fun entry => (entry.1, if entry.1 = .text name then value else entry.2) := by
  have hmem := mem_entries_of_get? h
  have hdistinct := t.distinct
  simp only [put]
  generalize t.entries = entries at hmem hdistinct
  induction entries with
  | nil => cases hmem
  | cons first rest ih =>
    rw [List.map_cons, List.pairwise_cons] at hdistinct
    by_cases hfirst : first.1 = .text name
    · -- no other entry has the name
      have hrest : ∀ entry ∈ rest, entry.1 ≠ .text name := by
        intro entry he
        have := hdistinct.1 _ (List.mem_map_of_mem he)
        rw [hfirst, Value.text_beq] at this
        simpa using this
      have hsame : (rest.map fun entry =>
          (entry.1, if entry.1 = .text name then value else entry.2)) = rest :=
        (List.map_congr_left fun entry he => by rw [if_neg (hrest entry he)]).trans rest.map_id'
      simp [putEntry, hfirst, Value.beq_text, hsame]
    · have hmem : (Value.text name, old) ∈ rest := by
        refine (List.mem_cons.1 hmem).resolve_left ?_
        rintro rfl
        exact hfirst rfl
      simp [putEntry, Value.beq_text, hfirst, ih hmem hdistinct.2]

/-- What is under a text after it was written is what was written. -/
theorem eq_or_mem_of_mem_put_text {t : Table Value α} {name : Text} {value : α}
    {entry : Value × α} (h : entry ∈ (t.put (.text name) value).entries) :
    entry = (.text name, value) ∨ entry ∈ t.entries := by
  refine (mem_put h).imp_left fun ⟨hname, hvalue⟩ => Prod.ext ?_ hvalue
  exact hname.elim id fun hname => by simpa [Value.beq_text] using hname

/-- The last item with a property, when one more item comes to the end. -/
theorem exists_last_append_singleton_iff {P : α → Prop} {rest : List α} {last x : α} :
    (∃ before later, rest ++ [last] = before ++ x :: later ∧ ∀ y ∈ later, P y) ↔
      last = x ∨ P last ∧ ∃ before later, rest = before ++ x :: later ∧ ∀ y ∈ later, P y := by
  constructor
  · rintro ⟨before, later, heq, hlater⟩
    rcases List.eq_nil_or_concat' later with rfl | ⟨later, other, rfl⟩
    · exact .inl (List.append_singleton_inj.1 heq).2
    · rw [← List.cons_append, ← List.append_assoc] at heq
      obtain ⟨rfl, rfl⟩ := List.append_singleton_inj.1 heq
      rw [List.forall_mem_append] at hlater
      exact .inr ⟨hlater.2 _ (by simp), before, later, rfl, hlater.1⟩
  · rintro (rfl | ⟨hlast, before, later, rfl, hlater⟩)
    · exact ⟨rest, [], rfl, by simp⟩
    · exact ⟨before, later ++ [last], by simp,
        List.forall_mem_append.2 ⟨hlater, by simpa using hlast⟩⟩

/-- Of the values written under a text the last is found. -/
theorem get?_ofList_text_iff {entries : List (Value × α)} {name : Text} {value : α} :
    (ofList entries).get? (.text name) = some value ↔
      ∃ before later, entries = before ++ (.text name, value) :: later ∧
        ∀ entry ∈ later, entry.1 ≠ .text name := by
  induction entries using List.reverseRecOn with
  | nil => simp [ofList, get?, empty]
  | append_singleton rest last ih =>
    have hlast : ofList (rest ++ [last]) = (ofList rest).put last.1 last.2 := by simp [ofList]
    rw [hlast, get?_put_text, exists_last_append_singleton_iff, ← ih, Prod.ext_iff]
    by_cases hkey : last.1 = .text name <;> simp [hkey]

/-- Under texts a table holds what was last written under each of them. -/
theorem mem_entries_ofList_text_iff {entries : List (Value × α)} {name : Text} {value : α} :
    (.text name, value) ∈ (ofList entries).entries ↔
      ∃ before later, entries = before ++ (.text name, value) :: later ∧
        ∀ entry ∈ later, entry.1 ≠ .text name :=
  ⟨fun h => get?_ofList_text_iff.1 (get?_of_mem_entries h),
    fun h => mem_entries_of_get? (get?_ofList_text_iff.2 h)⟩

/-- Writes under texts leave entries under texts. -/
theorem exists_text_of_mem_ofList {entries : List (Value × α)}
    (h : ∀ entry ∈ entries, ∃ name, entry.1 = .text name) :
    ∀ entry ∈ (ofList entries).entries, ∃ name, entry.1 = .text name :=
  fun entry he => (forall_mem_ofList (P := fun key : Value => ∃ name, key = .text name)
    (Q := fun _ => True) (fun entry he => ⟨h entry he, trivial⟩) entry he).1

end Table

/-! ## Tags -/

namespace Record

variable {r : Record} {tags : Option (List Value)}

/-- The record has these tags, or no field for tags. -/
def HasTags (r : Record) (tags : Option (List Value)) : Prop :=
  r.get? (.text tagsField) = tags.map .list

/-- The tags are a list or absent. -/
def Taggable (r : Record) : Prop := ∃ tags, r.HasTags tags

instance : Decidable (r.HasTags tags) := inferInstanceAs (Decidable (_ = _))

/-- Tags with others behind them.  Where there is nothing to add, none stay none. -/
def moreTags (tags : Option (List Value)) (added : List Value) : Option (List Value) :=
  if added = [] then tags else some (tags.getD [] ++ added)

@[simp] theorem moreTags_nil (tags : Option (List Value)) : moreTags tags [] = tags := rfl

theorem moreTags_append (tags : Option (List Value)) (added others : List Value) :
    moreTags (moreTags tags added) others = moreTags tags (added ++ others) := by
  by_cases ha : added = []
  · simp [ha]
  · by_cases ho : others = []
    · simp [ho]
    · simp [moreTags, ha, ho]

/-- Another field does not change the tags. -/
theorem HasTags.put (h : r.HasTags tags) {name : Value} (hname : name ≠ .text tagsField)
    (v : Value) : HasTags (Table.put r name v) tags := by
  rw [HasTags, Table.get?_put_text, if_neg hname]
  exact h

/-- A tag goes to the end of the tags. -/
theorem HasTags.appendTag (h : r.HasTags tags) (tag : Value) :
    Record.appendTag r tag =
      .ok (Table.put r (.text tagsField) (.list (tags.getD [] ++ [tag]))) := by
  rw [Record.appendTag, h]
  cases tags <;> rfl

theorem hasTags_put (r : Record) (tags : List Value) :
    HasTags (Table.put r (.text tagsField) (.list tags)) (some tags) := by
  rw [HasTags, Table.get?_put_text, if_pos rfl]
  rfl

/-- A tag can be appended exactly where the tags are a list or absent. -/
theorem exists_appendTag_iff {tag : Value} :
    (∃ r', Record.appendTag r tag = .ok r') ↔ r.Taggable := by
  constructor
  · rintro ⟨r', h⟩
    rw [Record.appendTag] at h
    split at h
    · next hnone => exact ⟨none, hnone⟩
    · next tags hsome => exact ⟨some tags, hsome⟩
    · cases h
  · rintro ⟨tags, h⟩
    exact ⟨_, h.appendTag tag⟩

theorem HasTags.of_appendTag (h : r.HasTags tags) {tag : Value} {r' : Record}
    (happend : Record.appendTag r tag = .ok r') : HasTags r' (moreTags tags [tag]) := by
  rw [h.appendTag] at happend
  obtain rfl := Except.ok.inj happend
  exact hasTags_put r _

/-- Appending a tag changes no other field. -/
theorem get?_of_appendTag_of_ne {tag : Value} {r' : Record}
    (happend : Record.appendTag r tag = .ok r') {key : Value} (hkey : key ≠ .text tagsField) :
    r'.get? key = r.get? key := by
  obtain ⟨tags, h⟩ := exists_appendTag_iff.1 ⟨r', happend⟩
  rw [h.appendTag] at happend
  obtain rfl := Except.ok.inj happend
  rw [Table.get?_put_under_text, if_neg hkey]

theorem get?_of_appendTag {tag : Value} {r' : Record} (happend : Record.appendTag r tag = .ok r')
    {name : Text} (hname : name ≠ tagsField) : r'.get? (.text name) = r.get? (.text name) :=
  get?_of_appendTag_of_ne happend (by simpa using hname)

/-- A record with other tags. -/
def withTags (r : Record) : Option (List Value) → Record
  | none => Table.erase r (.text tagsField)
  | some tags => Table.put r (.text tagsField) (.list tags)

theorem get?_withTags (r : Record) (tags : Option (List Value)) (name : Text) :
    Table.get? (withTags r tags) (.text name) =
      if name = tagsField then tags.map .list else r.get? (.text name) := by
  cases tags with
  | none =>
    rw [withTags, Table.get?_erase_text]
    simp [eq_comm]
  | some tags =>
    rw [withTags, Table.get?_put_text]
    simp [eq_comm]

end Record

/-! ## Templates -/

namespace Template

open Text Pattern

variable {r : Record} {template before rest name after : Text}

/-- Without an opening a template is plain text. -/
theorem interpolate_of_unopened (ho : cut? opening template = none) :
    interpolate r template = .ok template := by
  rw [interpolate]
  split
  · rfl
  · next h =>
    rw [ho] at h
    cases h

/-- A reference without an end is plain text. -/
theorem interpolate_of_unclosed (ho : cut? opening template = some (before, rest))
    (hc : cut? closing rest = none) : interpolate r template = .ok template := by
  rw [interpolate]
  split
  · rfl
  · next h =>
    rw [ho] at h
    cases h
    split
    · rfl
    · next h =>
      rw [hc] at h
      cases h

/-- A reference is replaced, and the template goes on behind it. -/
theorem interpolate_of_reference (ho : cut? opening template = some (before, rest))
    (hc : cut? closing rest = some (name, after)) :
    interpolate r template = do
      let substituted ← substitute r name
      let filled ← interpolate r after
      return before ++ substituted ++ filled := by
  rw [interpolate]
  split
  · next h =>
    rw [ho] at h
    cases h
  · next h =>
    rw [ho] at h
    cases h
    split
    · next h =>
      rw [hc] at h
      cases h
    · next h =>
      rw [hc] at h
      cases h
      rfl

/-- A template depends on what is found under texts. -/
theorem interpolate_congr {r r' : Record}
    (h : ∀ name : Text, r.get? (.text name) = r'.get? (.text name)) (template : Text) :
    interpolate r template = interpolate r' template := by
  have hsub : ∀ name, substitute r name = substitute r' name := by
    intro name
    rw [substitute, substitute, h]
  fun_induction interpolate r template with
  | case1 template ho => rw [interpolate_of_unopened ho]
  | case2 template before rest ho hc => rw [interpolate_of_unclosed ho hc]
  | case3 template before rest ho name after hc ih =>
    rw [interpolate_of_reference ho hc, hsub, ih]

/-- A reference to a field that is absent or null stays as it is written. -/
theorem substitute_of_null (h : r.value (.text name) = .null) :
    substitute r name = .ok (opening ++ name ++ closing) := by
  rw [Record.value] at h
  rw [substitute]
  split
  · rfl
  · rfl
  · next v hnull hv =>
    rw [hv] at h
    exact absurd h hnull

/-- A reference to any other field becomes the text of its value, if that has one. -/
theorem substitute_of_value {v : Value} (h : r.get? (.text name) = some v) (hv : v ≠ .null) :
    substitute r name = v.shown := by
  rw [substitute, h]
  cases v with
  | null => exact absurd rfl hv
  | _ => rfl

/-- A template is filled in if every value of a field has a text. -/
theorem exists_interpolate {r : Record}
    (h : ∀ name v, r.get? (.text name) = some v → v.hasText = true) (template : Text) :
    ∃ text, interpolate r template = .ok text := by
  have hsub : ∀ name, ∃ text, substitute r name = .ok text := by
    intro name
    rw [substitute]
    split
    · exact ⟨_, rfl⟩
    · exact ⟨_, rfl⟩
    · next v _ hv => exact ⟨_, Value.shown_eq_ok_iff.2 ⟨h name v hv, rfl⟩⟩
  fun_induction interpolate r template with
  | case1 template ho => exact ⟨_, rfl⟩
  | case2 template before rest ho hc => exact ⟨_, rfl⟩
  | case3 template before rest ho name after hc ih =>
    obtain ⟨substituted, hname⟩ := hsub name
    obtain ⟨filled, hafter⟩ := ih
    rw [hname, hafter]
    exact ⟨_, rfl⟩

/-- A template is filled in from a record if it is from another one and its references become
something there wherever they do in the other one. -/
theorem exists_interpolate_of {r s : Record} {text : Text}
    (h : ∀ name t, substitute r name = .ok t → ∃ t', substitute s name = .ok t')
    (hr : interpolate r template = .ok text) : ∃ text', interpolate s template = .ok text' := by
  fun_induction interpolate s template generalizing text with
  | case1 template ho => exact ⟨_, rfl⟩
  | case2 template before rest ho hc => exact ⟨_, rfl⟩
  | case3 template before rest ho name after hc ih =>
    rw [interpolate_of_reference ho hc] at hr
    obtain ⟨_, hname, hr⟩ := Traversal.bind_eq_ok_iff.1 hr
    obtain ⟨_, hafter, -⟩ := Traversal.bind_eq_ok_iff.1 hr
    obtain ⟨substituted, hname'⟩ := h name _ hname
    obtain ⟨filled, hafter'⟩ := ih hafter
    rw [hname', hafter']
    exact ⟨_, rfl⟩

end Template

end Dissection
