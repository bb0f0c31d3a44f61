import Dissection.Proofs.ConfigFile
import Dissection.Proofs.Printing
import Mathlib.Data.Set.List

/-!
# Validating configurations

A map under texts is a configuration if all of its keys are those of settings and each setting
that is present has its shape: a map of texts under texts, or a text or list of texts.  Otherwise
it is refused for the keys that belong to no setting, in their order, and only then for the first
setting that has not its shape, and in a map of the wrong shape for its first entry that is no
text under a text.

A configuration is written with all settings, each as it was read or with its usual value, and a
single tag as the list of it.  What is written is read as the same configuration, so reading and
writing once more changes nothing.

A refusal is reported, except where the entry to be named has a key with too long an integer:
then there is no text for it.

## Main definitions

* `Config.keyed` — values under texts as a map.
* `Config.Fits`, `Config.Faulty` — a setting has its shape, and what is wrong if it has not.
* `Config.Refused` — what a map under texts is refused for.
* `Config.Key.normal` — a setting as it is written.

## Main statements

* `Config.exists_ofValue_keyed_iff` — which maps are configurations.
* `Config.ofValue_keyed_eq_error_iff` — what others are refused for.
* `Config.written_of_ofValue` — how a configuration is written.
-/

namespace Dissection

namespace Config

variable {key : Key} {v : Value} {entries : List (Value × Value)} {e : Error}
  {t : Table Text Value} {c : Config}

/-! ## Shapes -/

/-- Values under texts as a map. -/
def keyed (t : Table Text Value) : Value := .map (t.mapKeys .text Value.text_beq_text).entries

/-- Whether a setting is a map; the others are lists. -/
def Key.isTable : Key → Bool
  | .mapping | .conversions | .addedFields => true
  | .failureTags | .addedTags => false

/-- A text under a text. -/
def textEntry (pair : Text × Text) : Value × Value := (.text pair.1, .text pair.2)

/-- An entry is a text under a text. -/
def IsTextEntry (entry : Value × Value) : Prop := ∃ pair, entry = textEntry pair

/-- A value has the shape of a setting. -/
def Fits (key : Key) (v : Value) : Prop :=
  if key.isTable then ∃ entries, v = .map entries ∧ ∀ entry ∈ entries, IsTextEntry entry
  else (∃ tag, v = .text tag) ∨ ∃ items, v = .list items ∧ ∀ item ∈ items, ∃ tag, item = .text tag

/-- What is wrong with a value that has not the shape of a setting. -/
inductive Faulty : Key → Value → Error → Prop
  | notATable {key : Key} {v : Value} : key.isTable = true → (∀ entries, v ≠ .map entries) →
      Faulty key v (.notATable key)
  /-- The first entry that is no text under a text is named by its key. -/
  | badEntry {key : Key} {before later : List (Value × Value)} {name v : Value} :
      key.isTable = true → (∀ entry ∈ before, IsTextEntry entry) → ¬ IsTextEntry (name, v) →
      name.isShown = true →
      Faulty key (.map (before ++ (name, v) :: later)) (.badEntry key name.literal)
  /-- A key with too long an integer has no text to name its entry by. -/
  | unshownEntry {key : Key} {before later : List (Value × Value)} {name v : Value} :
      key.isTable = true → (∀ entry ∈ before, IsTextEntry entry) → ¬ IsTextEntry (name, v) →
      name.isShown = false →
      Faulty key (.map (before ++ (name, v) :: later)) (.unshownEntry key)
  | notTexts {key : Key} {v : Value} : key.isTable = false → ¬ Fits key v →
      Faulty key v (.notTexts key)

/-- What a map under texts is refused for: the keys that belong to no setting, or, if there are
none, the first setting that has not its shape. -/
inductive Refused (t : Table Text Value) : Error → Prop
  | unknownKeys {names : List Text} : names ≠ [] → names.Pairwise (· < ·) →
      (∀ name, name ∈ names ↔ name ∈ t.keys ∧ ∀ key : Key, key.label ≠ name) →
      Refused t (.unknownKeys names)
  | setting {before later : List Key} {key : Key} {v : Value} {e : Error} :
      (∀ name ∈ t.keys, ∃ key : Key, key.label = name) → Key.all = before ++ key :: later →
      (∀ earlier ∈ before, ∀ v, t.get? earlier.label = some v → Fits earlier v) →
      t.get? key.label = some v → Faulty key v e → Refused t e

/-! ## Maps and lists of texts -/

/-- The first item with one property behind items with another, when an item comes to the
front. -/
theorem exists_first_cons_iff {α : Type} {P Q : α → Prop} {first : α} {rest : List α} :
    (∃ before x later, first :: rest = before ++ x :: later ∧ (∀ y ∈ before, P y) ∧ Q x) ↔
      Q first ∨ P first ∧
        ∃ before x later, rest = before ++ x :: later ∧ (∀ y ∈ before, P y) ∧ Q x := by
  constructor
  · rintro ⟨before, x, later, heq, hbefore, hx⟩
    cases before with
    | nil =>
      obtain ⟨rfl, -⟩ := List.cons.inj heq
      exact .inl hx
    | cons y before =>
      obtain ⟨rfl, rfl⟩ := List.cons.inj heq
      obtain ⟨hy, hbefore⟩ := List.forall_mem_cons.1 hbefore
      exact .inr ⟨hy, before, x, later, rfl, hbefore, hx⟩
  · rintro (hfirst | ⟨hfirst, before, x, later, rfl, hbefore, hx⟩)
    · exact ⟨[], first, rest, rfl, by simp, hfirst⟩
    · exact ⟨first :: before, x, later, rfl, List.forall_mem_cons.2 ⟨hfirst, hbefore⟩, hx⟩

theorem forall_mem_exists_iff {α β : Type} {f : α → β} {l : List β} :
    (∀ y ∈ l, ∃ x, y = f x) ↔ ∃ xs : List α, l = xs.map f := by
  have h : (∃ xs, List.map f xs = l) ↔ ∀ y ∈ l, ∃ x, f x = y :=
    Set.ext_iff.1 (Set.range_list_map f) l
  simpa only [eq_comm] using h.symm

/-- A map is read if its entries are texts under texts. -/
theorem entriesOf_eq_ok_iff {found : List (Text × Text)} :
    entriesOf key entries = .ok found ↔ entries = found.map textEntry := by
  fun_induction entriesOf key entries generalizing found with
  | case1 => cases found <;> simp
  | case2 name text rest ih =>
    cases found with
    | nil => simp [Traversal.map_eq_ok_iff]
    | cons first found => simp [Traversal.map_eq_ok_iff, ih, Prod.ext_iff, and_comm, textEntry]
  | case3 name v rest h =>
    refine iff_of_false (by simp) fun heq => ?_
    obtain ⟨first, found, -, hfirst, -⟩ := List.map_eq_cons_iff.1 heq.symm
    exact h _ _ (congrArg Prod.fst hfirst).symm (congrArg Prod.snd hfirst).symm

/-- Otherwise its first entry that is none is named. -/
theorem entriesOf_eq_error_iff :
    entriesOf key entries = .error e ↔
      ∃ before entry later, entries = before ++ entry :: later ∧
        (∀ entry ∈ before, IsTextEntry entry) ∧ ¬ IsTextEntry entry ∧
        e = if entry.1.isShown then .badEntry key entry.1.literal else .unshownEntry key := by
  fun_induction entriesOf key entries with
  | case1 => simp
  | case2 name text rest ih =>
    have hentry : IsTextEntry (.text name, .text text) := ⟨(name, text), rfl⟩
    rw [Traversal.map_eq_error_iff, ih, exists_first_cons_iff]
    simp only [hentry, not_true, false_and, true_and, false_or]
  | case3 name v rest h =>
    have hentry : ¬ IsTextEntry (name, v) := by
      rintro ⟨⟨k, text⟩, heq⟩
      exact h k text (congrArg Prod.fst heq) (congrArg Prod.snd heq)
    rw [exists_first_cons_iff]
    simp only [hentry, not_false_eq_true, true_and, false_and, or_false, Except.error.injEq]
    exact eq_comm

/-- Texts are taken from a list of nothing but texts. -/
theorem textsOf_eq_some_iff {items : List Value} {texts : List Text} :
    textsOf items = some texts ↔ items = texts.map .text := by
  have htext : ∀ {v : Value} {t : Text}, v.text? = some t ↔ v = .text t := by
    intro v t
    cases v <;> simp [Value.text?]
  rw [textsOf, Traversal.mapM_eq_some_iff]
  simp only [htext]
  rw [← List.forall₂_map_right_iff (R := (· = ·)), List.forall₂_eq_eq_eq]

/-! ## Settings -/

theorem tableOf_eq_ok_iff {table : Table Text Text} :
    tableOf key v = .ok table ↔
      ∃ found : List (Text × Text), v = .map (found.map textEntry) ∧
        Table.ofList found = table := by
  cases v <;> simp [tableOf, Traversal.map_eq_ok_iff, entriesOf_eq_ok_iff]

theorem exists_tableOf_iff (hkey : key.isTable = true) :
    (∃ table, tableOf key v = .ok table) ↔ Fits key v := by
  simp only [Fits, hkey, if_true, tableOf_eq_ok_iff, IsTextEntry, forall_mem_exists_iff]
  constructor
  · rintro ⟨_, found, rfl, -⟩
    exact ⟨_, rfl, found, rfl⟩
  · rintro ⟨_, rfl, found, rfl⟩
    exact ⟨_, found, rfl, rfl⟩

theorem tableOf_eq_error_iff (hkey : key.isTable = true) :
    tableOf key v = .error e ↔ Faulty key v e := by
  constructor
  · intro h
    unfold tableOf at h
    split at h
    · next entries =>
      rw [Traversal.map_eq_error_iff, entriesOf_eq_error_iff] at h
      obtain ⟨before, ⟨name, w⟩, later, rfl, hbefore, hentry, rfl⟩ := h
      split
      · next hshown => exact .badEntry hkey hbefore hentry hshown
      · next hshown => exact .unshownEntry hkey hbefore hentry (by simpa using hshown)
    · next hmap =>
      obtain rfl := Except.error.inj h
      exact .notATable hkey hmap
  · intro h
    cases h with
    | notATable _ hmap =>
      cases v with
      | map entries => exact absurd rfl (hmap entries)
      | _ => rfl
    | @badEntry before later name w _ hbefore hentry hshown =>
      rw [tableOf, Traversal.map_eq_error_iff, entriesOf_eq_error_iff]
      exact ⟨before, _, later, rfl, hbefore, hentry, (if_pos hshown).symm⟩
    | @unshownEntry before later name w _ hbefore hentry hshown =>
      rw [tableOf, Traversal.map_eq_error_iff, entriesOf_eq_error_iff]
      exact ⟨before, _, later, rfl, hbefore, hentry, by simp [hshown]⟩
    | notTexts hlist =>
      rw [hkey] at hlist
      cases hlist

theorem tagsOf_eq_ok_iff {tags : List Text} :
    tagsOf key v = .ok tags ↔
      (∃ tag, v = .text tag ∧ [tag] = tags) ∨ v = .list (tags.map .text) := by
  cases v with
  | text tag => simp [tagsOf]
  | list items =>
    have h : textsOf items = some tags ↔ items = tags.map .text := textsOf_eq_some_iff
    cases htexts : textsOf items <;> simp_all [tagsOf]
  | _ => simp [tagsOf]

theorem exists_tagsOf_iff (hkey : key.isTable = false) :
    (∃ tags, tagsOf key v = .ok tags) ↔ Fits key v := by
  simp only [Fits, hkey, Bool.false_eq_true, if_false, tagsOf_eq_ok_iff, exists_or,
    forall_mem_exists_iff]
  constructor
  · rintro (⟨_, tag, rfl, -⟩ | ⟨tags, rfl⟩)
    · exact .inl ⟨tag, rfl⟩
    · exact .inr ⟨_, rfl, tags, rfl⟩
  · rintro (⟨tag, rfl⟩ | ⟨_, rfl, tags, rfl⟩)
    · exact .inl ⟨_, tag, rfl, rfl⟩
    · exact .inr ⟨tags, rfl⟩

theorem tagsOf_eq_error_iff (hkey : key.isTable = false) :
    tagsOf key v = .error e ↔ Faulty key v e := by
  have hfault : ∀ e, tagsOf key v = .error e → e = .notTexts key := by
    intro e h
    unfold tagsOf at h
    split at h
    · cases h
    · split at h <;> cases h
      rfl
    · cases h
      rfl
  constructor
  · intro h
    obtain rfl := hfault e h
    refine .notTexts hkey fun hfits => ?_
    obtain ⟨tags, htags⟩ := (exists_tagsOf_iff hkey).2 hfits
    rw [h] at htags
    cases htags
  · rintro (htable | htable | htable | ⟨-, hfits⟩)
    · rw [hkey] at htable
      cases htable
    · rw [hkey] at htable
      cases htable
    · rw [hkey] at htable
      cases htable
    · cases htags : tagsOf key v with
      | ok tags => exact absurd ((exists_tagsOf_iff hkey).1 ⟨tags, htags⟩) hfits
      | error e => rw [hfault e htags]

/-- A setting that is left out is always read; one that is present is read as its value is. -/
theorem settingOr_eq_error_iff {α : Type} {read : Key → Value → Except Error α} {usual : α} :
    settingOr entries key read usual = .error e ↔
      ∃ v, setting? entries key = some v ∧ read key v = .error e := by
  rw [settingOr]
  cases setting? entries key <;> simp

theorem exists_settingOr_iff {α : Type} {read : Key → Value → Except Error α} {usual : α} :
    (∃ x, settingOr entries key read usual = .ok x) ↔
      ∀ v, setting? entries key = some v → ∃ x, read key v = .ok x := by
  rw [settingOr]
  cases setting? entries key <;> simp

/-! ## Keys -/

/-- The value of a setting is found under its key. -/
theorem setting?_keyed (t : Table Text Value) (key : Key) :
    setting? (t.mapKeys .text Value.text_beq_text).entries key = t.get? key.label := by
  have hkey : ∀ entry : Text × Value,
      decide ((Value.text entry.1).text? = some key.label) = (entry.1 == key.label) := by
    intro entry
    rw [Bool.eq_iff_iff, decide_eq_true_iff, beq_iff_eq, Value.text?, Option.some.injEq]
  simp only [setting?, Table.get?, Table.mapKeys, List.find?_map, Function.comp_def, hkey,
    Option.map_map]

theorem Key.mem_all (key : Key) : key ∈ Key.all := by cases key <;> decide

theorem ofLabel?_eq_none_iff {name : Text} :
    Key.ofLabel? name = none ↔ ∀ key : Key, key.label ≠ name := by
  simp [Key.ofLabel?, List.find?_eq_none, Key.mem_all]

/-- The keys that belong to no setting. -/
def unknownNames (t : Table Text Value) : List Text :=
  t.keys.filter fun name => (Key.ofLabel? name).isNone

theorem mem_unknownNames_iff {name : Text} :
    name ∈ unknownNames t ↔ name ∈ t.keys ∧ ∀ key : Key, key.label ≠ name := by
  rw [unknownNames, List.mem_filter, Option.isNone_iff_eq_none, ofLabel?_eq_none_iff]

theorem nodup_unknownNames (t : Table Text Value) : (unknownNames t).Nodup :=
  (t.distinct.imp fun h => beq_eq_false_iff_ne.1 h).filter _

theorem unknownNames_eq_nil_iff :
    unknownNames t = [] ↔ ∀ name ∈ t.keys, ∃ key : Key, key.label = name := by
  simp only [List.eq_nil_iff_forall_not_mem, mem_unknownNames_iff, not_and, not_forall, not_not]

theorem filter_isKnown_keyed (t : Table Text Value) :
    ((t.mapKeys .text Value.text_beq_text).entries.map Prod.fst).filter (!isKnown ·) =
      (unknownNames t).map .text := by
  have hkeys : (t.mapKeys .text Value.text_beq_text).entries.map Prod.fst =
      t.keys.map Value.text := by
    simp [Table.mapKeys, Table.keys, Function.comp_def]
  rw [hkeys, List.filter_map, unknownNames]
  congr 1
  exact List.filter_congr fun name _ => by simp [isKnown]

/-- Names that are sorted are in strict order where none is there twice. -/
theorem pairwise_lt_mergeSort {names : List Text} (h : names.Nodup) :
    (names.mergeSort fun a b => ¬ b < a).Pairwise (· < ·) := by
  have hle : (names.mergeSort fun a b => ¬ b < a).Pairwise fun a b => ¬ b < a := by
    have hsorted := @List.pairwise_mergeSort _ (fun a b : Text => decide (¬ b < a)) ?_ ?_ names
    · simpa using hsorted
    · intro a b c hab hbc
      rw [decide_eq_true_iff] at hab hbc ⊢
      exact List.le_trans hab hbc
    · intro a b
      rw [Bool.or_eq_true, decide_eq_true_iff, decide_eq_true_iff]
      exact List.le_total a b
  have hne := (List.mergeSort_perm names fun a b => ¬ b < a).nodup_iff.2 h
  refine (hle.and hne).imp fun ⟨hle, hne⟩ => ?_
  by_contra hlt
  exact hne (List.le_antisymm hle hlt)

/-- Names in strict order are known by what is among them. -/
theorem eq_of_pairwise_lt {names others : List Text} (h : names.Pairwise (· < ·))
    (ho : others.Pairwise (· < ·)) (hmem : ∀ name, name ∈ names ↔ name ∈ others) :
    names = others := by
  have hnodup : ∀ {l : List Text}, l.Pairwise (· < ·) → l.Nodup := by
    intro l hl
    refine hl.imp fun {a b} hlt heq => ?_
    exact List.lt_irrefl b (heq ▸ hlt)
  refine List.Perm.eq_of_pairwise (fun a b _ _ hab hba => absurd hba (List.lt_asymm hab)) h ho ?_
  exact (List.perm_ext_iff_of_nodup (hnodup h) (hnodup ho)).2 hmem

/-- Keys that belong to no setting are listed in their order. -/
theorem unknownError_eq_iff :
    unknownError ((unknownNames t).map .text) = e ↔
      ∃ names : List Text, names.Pairwise (· < ·) ∧
        (∀ name, name ∈ names ↔ name ∈ t.keys ∧ ∀ key : Key, key.label ≠ name) ∧
        e = .unknownKeys names := by
  have hmem : ∀ name, name ∈ (unknownNames t).mergeSort (fun a b => ¬ b < a) ↔
      name ∈ t.keys ∧ ∀ key : Key, key.label ≠ name := fun name =>
    (List.mergeSort_perm _ _).mem_iff.trans mem_unknownNames_iff
  have hsorted := pairwise_lt_mergeSort (nodup_unknownNames t)
  rw [unknownError, textsOf_eq_some_iff.2 rfl]
  constructor
  · rintro rfl
    exact ⟨_, hsorted, hmem, rfl⟩
  · rintro ⟨names, hnames, hmem', rfl⟩
    exact congrArg _ (eq_of_pairwise_lt hsorted hnames fun name =>
      (hmem name).trans (hmem' name).symm)

/-! ## Configurations -/

/-- Settings are read if each of them that is present has its shape, and otherwise what is wrong
with the first that has not is reported. -/
structure Reads {α : Type} (t : Table Text Value) (keys : List Key) (x : Except Error α) :
    Prop where
  ok_iff : (∃ y, x = .ok y) ↔ ∀ key ∈ keys, ∀ v, t.get? key.label = some v → Fits key v
  error_iff : ∀ e, x = .error e ↔ ∃ before key later, keys = before ++ key :: later ∧
    (∀ earlier ∈ before, ∀ v, t.get? earlier.label = some v → Fits earlier v) ∧
    ∃ v, t.get? key.label = some v ∧ Faulty key v e

namespace Reads

variable {α β : Type} {keys : List Key}

theorem nil (y : α) : Reads t [] (.ok y : Except Error α) := ⟨by simp, by simp⟩

/-- One setting after another. -/
theorem bind {x : Except Error α} {f : α → Except Error β} (hx : Reads t [key] x)
    (hf : ∀ y, Reads t keys (f y)) : Reads t (key :: keys) (x >>= f) where
  ok_iff := by
    have hfirst := hx.ok_iff
    simp only [List.forall_mem_singleton] at hfirst
    rw [List.forall_mem_cons, ← hfirst]
    constructor
    · rintro ⟨z, h⟩
      obtain ⟨y, hy, hz⟩ := Traversal.bind_eq_ok_iff.1 h
      exact ⟨⟨y, hy⟩, (hf y).ok_iff.1 ⟨z, hz⟩⟩
    · rintro ⟨⟨y, hy⟩, hrest⟩
      obtain ⟨z, hz⟩ := (hf y).ok_iff.2 hrest
      exact ⟨z, Traversal.bind_eq_ok_iff.2 ⟨y, hy, hz⟩⟩
  error_iff e := by
    have hfirst := hx.error_iff e
    have hok := hx.ok_iff
    rw [exists_first_cons_iff] at hfirst
    simp only [List.forall_mem_singleton] at hok
    rw [Traversal.bind_eq_error_iff, exists_first_cons_iff, ← hok, hfirst]
    simp only [(hf _).error_iff, exists_and_right]
    simp

/-- A map, or nothing if it is left out. -/
theorem table (hkey : key.isTable = true) (usual : Table Text Text) :
    Reads t [key] (settingOr (t.mapKeys .text Value.text_beq_text).entries key tableOf usual) where
  ok_iff := by
    simp only [exists_settingOr_iff, setting?_keyed, exists_tableOf_iff hkey,
      List.forall_mem_singleton]
  error_iff e := by
    rw [exists_first_cons_iff]
    simp [settingOr_eq_error_iff, setting?_keyed, tableOf_eq_error_iff hkey]

/-- A list of tags, or the usual one if it is left out. -/
theorem tags (hkey : key.isTable = false) (usual : List Text) :
    Reads t [key] (settingOr (t.mapKeys .text Value.text_beq_text).entries key tagsOf usual) where
  ok_iff := by
    simp only [exists_settingOr_iff, setting?_keyed, exists_tagsOf_iff hkey,
      List.forall_mem_singleton]
  error_iff e := by
    rw [exists_first_cons_iff]
    simp [settingOr_eq_error_iff, setting?_keyed, tagsOf_eq_error_iff hkey]

end Reads

/-- Where every key belongs to a setting the settings are read one after another. -/
theorem ofValue_keyed_of_known (h : unknownNames t = []) :
    ofValue (keyed t) = (do
      let usual : Config := {}
      let entries := (t.mapKeys .text Value.text_beq_text).entries
      let mapping ← settingOr entries .mapping tableOf usual.mapping
      let conversions ← settingOr entries .conversions tableOf usual.conversions
      let failureTags ← settingOr entries .failureTags tagsOf usual.failureTags
      let addedFields ← settingOr entries .addedFields tableOf usual.addedFields
      let addedTags ← settingOr entries .addedTags tagsOf usual.addedTags
      return { mapping, conversions, failureTags, addedFields, addedTags }) := by
  rw [keyed, ofValue, filter_isKnown_keyed, h]
  rfl

/-- Where some keys belong to no setting they are reported and nothing else. -/
theorem ofValue_keyed_of_unknown (h : unknownNames t ≠ []) :
    ofValue (keyed t) = .error (unknownError ((unknownNames t).map .text)) := by
  rw [keyed, ofValue, filter_isKnown_keyed]
  split
  · next hnil => exact absurd (List.map_eq_nil_iff.1 hnil) h
  · rfl

/-- The settings are read in their order. -/
theorem reads_ofValue_keyed (h : unknownNames t = []) : Reads t Key.all (ofValue (keyed t)) := by
  rw [ofValue_keyed_of_known h]
  exact .bind (.table rfl _) fun _ => .bind (.table rfl _) fun _ => .bind (.tags rfl _) fun _ =>
    .bind (.table rfl _) fun _ => .bind (.tags rfl _) fun _ => .nil _

/-- A map is a configuration if its keys are those of settings and each setting has its shape. -/
theorem exists_ofValue_keyed_iff :
    (∃ c, ofValue (keyed t) = .ok c) ↔
      (∀ name ∈ t.keys, ∃ key : Key, key.label = name) ∧
        ∀ (key : Key) v, t.get? key.label = some v → Fits key v := by
  rw [← unknownNames_eq_nil_iff]
  by_cases h : unknownNames t = []
  · simp only [(reads_ofValue_keyed h).ok_iff, h, Key.mem_all, true_imp_iff, true_and]
  · simp [ofValue_keyed_of_unknown h, h]

/-- Otherwise it is refused for what is wrong first. -/
theorem ofValue_keyed_eq_error_iff : ofValue (keyed t) = .error e ↔ Refused t e := by
  by_cases h : unknownNames t = []
  · rw [(reads_ofValue_keyed h).error_iff]
    constructor
    · rintro ⟨before, key, later, hall, hbefore, v, hv, hfaulty⟩
      exact .setting (unknownNames_eq_nil_iff.1 h) hall hbefore hv hfaulty
    · intro hrefused
      cases hrefused with
      | @unknownKeys names hne _ hmem =>
        obtain ⟨name, hname⟩ := List.exists_mem_of_ne_nil names hne
        rw [hmem, ← mem_unknownNames_iff, h] at hname
        cases hname
      | setting _ hall hbefore hv hfaulty => exact ⟨_, _, _, hall, hbefore, _, hv, hfaulty⟩
  · rw [ofValue_keyed_of_unknown h, Except.error.injEq, unknownError_eq_iff]
    constructor
    · rintro ⟨names, hsorted, hmem, rfl⟩
      refine .unknownKeys ?_ hsorted hmem
      obtain ⟨name, hname⟩ := List.exists_mem_of_ne_nil _ h
      exact List.ne_nil_of_mem ((hmem name).2 (mem_unknownNames_iff.1 hname))
    · intro hrefused
      cases hrefused with
      | unknownKeys _ hsorted hmem => exact ⟨_, hsorted, hmem, rfl⟩
      | setting hknown => exact absurd (unknownNames_eq_nil_iff.2 hknown) h

/-! ## Reports -/

/-- Whatever is refused is reported as a configuration that is not valid, unless it would name
an entry by a key that is not shown. -/
theorem report?_of_refused (h : Refused t e) :
    (∃ report, e.report? = some report ∧ report.kind = .configuration ∧
        report.code = .configValidation ∧ report.message = e.message) ∨
      e.report? = none ∧ ∃ key, e = .unshownEntry key := by
  cases h with
  | unknownKeys => exact .inl ⟨_, rfl, rfl, rfl, rfl⟩
  | setting _ _ _ _ hfaulty =>
    cases hfaulty with
    | unshownEntry => exact .inr ⟨rfl, _, rfl⟩
    | _ => exact .inl ⟨_, rfl, rfl, rfl, rfl⟩

/-! ## Writing -/

/-- The usual value of a setting as it is written. -/
def Key.usual : Key → Value
  | .failureTags => .list [.text "_dissectfailure"]
  | .addedTags => .list []
  | .mapping | .conversions | .addedFields => .map []

/-- A setting as it is written: as it was read, or with its usual value, and a single tag as the
list of it. -/
def Key.normal (key : Key) : Option Value → Value
  | none => key.usual
  | some (.text tag) => .list [.text tag]
  | some (.map entries) => Value.ofEntries entries
  | some v => v

/-- A map is left as it is. -/
theorem Key.normal_map (h : (entries.map Prod.fst).Pairwise fun a b => (a == b) = false) :
    key.normal (some (.map entries)) = .map entries :=
  congrArg (fun t : Table Value Value => Value.map t.entries) (Table.ofList_entries ⟨entries, h⟩)

/-- A setting of a configuration as it is written. -/
def written (c : Config) : Key → Value
  | .mapping => tableValue c.mapping
  | .conversions => tableValue c.conversions
  | .failureTags => textsValue c.failureTags
  | .addedFields => tableValue c.addedFields
  | .addedTags => textsValue c.addedTags

theorem toValue_eq_map_written (c : Config) :
    c.toValue = .map (Key.all.map fun key => (.text key.label, c.written key)) := rfl

/-- A table of texts is written as its entries are written one after another. -/
theorem tableValue_ofList (found : List (Text × Text)) :
    tableValue (Table.ofList found) = Value.ofEntries (found.map textEntry) := by
  have hput : ∀ (t : Table Text Text) (pair : Text × Text),
      valueTable (t.put pair.1 pair.2) = (valueTable t).put (.text pair.1) (.text pair.2) := by
    intro t pair
    rw [valueTable, valueTable, Table.put_map, Table.put_mapKeys]
  have hfold : ∀ t : Table Text Text,
      valueTable (found.foldl (fun t pair => t.put pair.1 pair.2) t) =
        (found.map textEntry).foldl (fun t entry => t.put entry.1 entry.2) (valueTable t) := by
    induction found with
    | nil => exact fun _ => rfl
    | cons pair rest ih =>
      intro t
      rw [List.foldl_cons, ih, hput]
      rfl
  exact congrArg (fun t : Table Value Value => Value.map t.entries) (hfold Table.empty)

/-- A map is written as what its entries leave. -/
theorem tableValue_of_settingOr {x usual : Table Text Text} (husual : tableValue usual = key.usual)
    (h : settingOr entries key tableOf usual = .ok x) :
    tableValue x = key.normal (setting? entries key) := by
  rw [settingOr] at h
  split at h
  · next v hv =>
    obtain ⟨found, rfl, rfl⟩ := tableOf_eq_ok_iff.1 h
    rw [hv, tableValue_ofList]
    rfl
  · next hv =>
    obtain rfl := Except.ok.inj h
    rw [hv, husual]
    rfl

/-- A list of tags is written as it is, and a single tag as a list. -/
theorem textsValue_of_settingOr {x usual : List Text} (husual : textsValue usual = key.usual)
    (h : settingOr entries key tagsOf usual = .ok x) :
    textsValue x = key.normal (setting? entries key) := by
  rw [settingOr] at h
  split at h
  · next v hv =>
    rw [hv]
    obtain ⟨tag, rfl, rfl⟩ | rfl := tagsOf_eq_ok_iff.1 h <;> rfl
  · next hv =>
    obtain rfl := Except.ok.inj h
    rw [hv, husual]
    rfl

/-- Each setting is written as it was read. -/
theorem written_of_ofValue (h : ofValue (keyed t) = .ok c) (key : Key) :
    c.written key = key.normal (t.get? key.label) := by
  have hknown : unknownNames t = [] :=
    unknownNames_eq_nil_iff.2 (exists_ofValue_keyed_iff.1 ⟨c, h⟩).1
  rw [ofValue_keyed_of_known hknown] at h
  simp only [Traversal.bind_eq_ok_iff] at h
  obtain ⟨mapping, hmapping, conversions, hconversions, failureTags, hfailureTags, addedFields,
    haddedFields, addedTags, haddedTags, hc⟩ := h
  obtain rfl := Except.ok.inj hc
  rw [← setting?_keyed]
  cases key with
  | mapping => exact tableValue_of_settingOr rfl hmapping
  | conversions => exact tableValue_of_settingOr rfl hconversions
  | failureTags => exact textsValue_of_settingOr rfl hfailureTags
  | addedFields => exact tableValue_of_settingOr rfl haddedFields
  | addedTags => exact textsValue_of_settingOr rfl haddedTags

/-- Which maps under texts are configurations, what others are refused for and how that is
reported, and how a configuration is written: with every setting, as it was read or with its usual
value, and so that it is read as the same configuration. -/
theorem refused_or_normal (t : Table Text Value) :
    ((∃ c, ofValue (keyed t) = .ok c) ↔
      (∀ name ∈ t.keys, ∃ key : Key, key.label = name) ∧
        ∀ (key : Key) v, t.get? key.label = some v → Fits key v) ∧
    (∀ e, ofValue (keyed t) = .error e ↔ Refused t e) ∧
    (∀ e, ofValue (keyed t) = .error e →
      (∃ report, e.report? = some report ∧ report.kind = .configuration ∧
        report.code = .configValidation ∧ report.message = e.message) ∨
      e.report? = none ∧ ∃ key, e = .unshownEntry key) ∧
    ∀ c, ofValue (keyed t) = .ok c →
      c.toValue = .map (Key.all.map fun key =>
        (.text key.label, key.normal (t.get? key.label))) ∧
      (∀ key entries, (entries.map Prod.fst).Pairwise (fun a b => (a == b) = false) →
        Key.normal key (some (.map entries)) = .map entries) ∧
      ofValue c.toValue = .ok c := by
  refine ⟨exists_ofValue_keyed_iff, fun e => ofValue_keyed_eq_error_iff, fun e h => ?_, fun c h => ?_⟩
  · exact report?_of_refused (ofValue_keyed_eq_error_iff.1 h)
  · refine ⟨?_, fun key entries => Key.normal_map, ofValue_toValue c⟩
    simp only [toValue_eq_map_written, written_of_ofValue h]

/-- An entry whose key is an integer with one digit too many has no report. -/
theorem not_reported_longKey :
    ofValue (keyed (.ofList [("mapping",
        .map [(.int (Nat.pow 10 Numeral.limit : Nat), .text "x")])])) =
      .error (.unshownEntry .mapping) ∧ (Error.unshownEntry .mapping).report? = none := by
  have hshown : (Value.int (Nat.pow 10 Numeral.limit : Nat)).isShown = false := by
    rw [Value.isShown, Int.natAbs_natCast]
    exact Numeral.isShown_eq_false_of_le (Nat.le_refl _) (Nat.le_refl _)
  have hentry : ¬ IsTextEntry (.int (Nat.pow 10 Numeral.limit : Nat), .text "x") := by
    rintro ⟨pair, heq⟩
    cases congrArg Prod.fst heq
  refine ⟨ofValue_keyed_eq_error_iff.2 ?_, rfl⟩
  have hfaulty : Faulty .mapping (.map ([] ++ [_])) _ :=
    .unshownEntry rfl nofun hentry hshown
  have hknown : ∀ name ∈ [("mapping" : Text)], ∃ key : Key, key.label = name := by
    simpa using ⟨.mapping, rfl⟩
  exact .setting hknown (List.nil_append _).symm nofun rfl hfaulty

end Config

end Dissection
