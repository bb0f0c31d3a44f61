import Dissection.Proofs.Registration
import Dissection.Proofs.Showing

/-!
# When a record is processed to its end

The settings of a configuration can all be used as they are meant to be, and a record of
texts holds nothing that cannot be shown or is too large for a number.  What is left to stop
a filter that was registered with them is a tag that cannot be appended: the tags are a
field like any other, and once a text is written to it, there is no list to append to.

So such a filter processes a record to its end exactly if the tags are a list or absent
whenever a tag is to be appended.  They are, as long as no rule captures a field under their
name and none is added.

## Main definitions

* `Record.Textual` — a record of texts and lists of texts.
* `Filter.AppendsTo` — a record to which a tag is to be appended.
* `Filter.Meets` — a request that is met.

## Main statements

* `Filter.returns_applyRules_iff`, `Conversion.returns_convertAll_iff`,
  `Filter.returns_decorate_iff` — when a stage comes to its end.
* `Filter.meets_iff_of_textual` — when a request is met.
-/

namespace Dissection

open Dissection.Action Dissection.Record

variable {r r' r'' : Record}

/-! ## Texts and lists of texts -/

/-- A text or a list of texts. -/
inductive Value.Textual : Value → Prop
  | text (t : Text) : Textual (.text t)
  | list (texts : List Text) : Textual (.list (texts.map .text))

namespace Record

/-- A record of texts and lists of texts. -/
def Textual (r : Record) : Prop := ∀ entry ∈ r.entries, entry.2.Textual

/-- What can be read from a record of texts. -/
def Readable (v : Value) : Prop := v = .null ∨ v.Textual

theorem Textual.put (hr : r.Textual) {v : Value} (hv : v.Textual) (name : Value) :
    Textual (Table.put r name v) := by
  intro entry he
  rcases Table.eq_or_mem_of_mem_put he with rfl | he
  · exact hv
  · exact hr entry he

theorem Textual.shown (hr : r.Textual) : r.Shown := by
  intro entry he
  have hv := hr entry he
  generalize entry.2 = v at hv ⊢
  cases hv with
  | text t => exact .text t
  | list texts => exact .texts texts

theorem Textual.readable (hr : r.Textual) (name : Text) : Readable (r.value (.text name)) := by
  rw [Record.value]
  cases h : r.get? (.text name) with
  | none => exact .inl rfl
  | some v => exact .inr (hr _ (Table.mem_entries_of_get? h))

/-- Tags that are texts are still texts with a text behind them. -/
theorem HasTags.textual_append {tags : Option (List Value)} (hr : r.HasTags tags)
    (h : Readable (r.value (.text tagsField))) (tag : Text) :
    (Value.list (tags.getD [] ++ [.text tag])).Textual := by
  rw [Record.value, hr] at h
  cases tags with
  | none => exact .list [tag]
  | some items =>
    rcases h with h | h
    · cases h
    · cases h with
      | list texts => simpa using Value.Textual.list (texts ++ [tag])

theorem Textual.of_appendTag (hr : r.Textual) {tag : Text}
    (h : Record.appendTag r (.text tag) = .ok r') : r'.Textual := by
  obtain ⟨tags, htags⟩ := exists_appendTag_iff.1 ⟨r', h⟩
  rw [htags.appendTag] at h
  obtain rfl := Except.ok.inj h
  exact hr.put (htags.textual_append (hr.readable tagsField) tag) _

/-- What could be read before a tag was appended can be read afterwards. -/
theorem Readable.of_appendTag {name tag : Text} (hr : Readable (r.value (.text name)))
    (h : Record.appendTag r (.text tag) = .ok r') : Readable (r'.value (.text name)) := by
  by_cases hname : name = tagsField
  · subst hname
    obtain ⟨tags, htags⟩ := exists_appendTag_iff.1 ⟨r', h⟩
    rw [htags.appendTag] at h
    obtain rfl := Except.ok.inj h
    rw [Record.value, Table.get?_put_text, if_pos rfl]
    exact .inr (htags.textual_append hr tag)
  · rw [Record.value, get?_of_appendTag h hname]
    exact hr

end Record

/-! ## Settings -/

/-- The settings for tags and added fields can be used as they are meant to be. -/
structure Settings.Usable (s : Settings) : Prop where
  failureTags : ∃ tags : List Text, s.failureTags.items = .ok (tags.map .text)
  addedFields : ∃ fields, s.addedFields.entries = .ok fields ∧ ∀ entry ∈ fields,
    (∃ name, entry.1.wording = .ok name) ∧ ∃ text, entry.2.wording = .ok text
  addedTags : ∃ templates, s.addedTags.items = .ok templates ∧ ∀ template ∈ templates,
    ∃ text, template.wording = .ok text

/-- The entries of a table of texts are texts under texts. -/
theorem Config.mem_valueTable {t : Table Text Text} {entry : Value × Value}
    (h : entry ∈ (valueTable t).entries) :
    ∃ name text, entry = (.text name, .text text) := by
  rw [Conversion.entries_valueTable] at h
  obtain ⟨⟨name, text⟩, -, rfl⟩ := List.mem_map.1 h
  exact ⟨name, text, rfl⟩

/-- The settings of a configuration can be used as they are meant to be. -/
theorem Config.usable_settings (c : Config) : c.settings.Usable where
  failureTags := ⟨_, rfl⟩
  addedFields := by
    refine ⟨_, rfl, fun entry he => ?_⟩
    obtain ⟨name, text, rfl⟩ := mem_valueTable he
    exact ⟨⟨name, rfl⟩, text, rfl⟩
  addedTags := by
    refine ⟨_, rfl, fun template ht => ?_⟩
    obtain ⟨text, -, rfl⟩ := List.mem_map.1 ht
    exact ⟨text, rfl⟩

/-! ## Appending tags -/

namespace Action

theorem returns_appendTags {tags : Option (List Value)} (hr : r.HasTags tags)
    (added : List Value) : (appendTags added).Returns r := by
  induction added generalizing r tags with
  | nil => exact ⟨(), r, gives_appendTags_nil_iff.2 rfl⟩
  | cons tag rest ih =>
    have happend := hr.appendTag tag
    obtain ⟨x, r', h⟩ := ih (hr.of_appendTag happend)
    exact ⟨x, r', gives_appendTags_cons_iff.2 ⟨_, happend, h⟩⟩

/-- Tags can be appended if there are none, and else to a list or its absence. -/
theorem returns_appendTags_iff {added : List Value} :
    (appendTags added).Returns r ↔ (added ≠ [] → r.Taggable) := by
  cases added with
  | nil => exact iff_of_true ⟨(), r, gives_appendTags_nil_iff.2 rfl⟩ (absurd rfl)
  | cons tag rest =>
    constructor
    · rintro ⟨_, _, h⟩ -
      obtain ⟨r₁, happend, -⟩ := gives_appendTags_cons_iff.1 h
      exact exists_appendTag_iff.1 ⟨r₁, happend⟩
    · intro h
      obtain ⟨tags, hr⟩ := h (List.cons_ne_nil _ _)
      exact returns_appendTags hr _

theorem textual_of_gives_setAll {entries : List (Text × Text)} (hr : r.Textual)
    (h : (setAll entries).Gives r () r') : r'.Textual :=
  keeps_of_gives_setAll Record.Textual hr h fun _ _ _ hr => hr.put (.text _) _

theorem textual_of_gives_appendTags {tags : List Text} (hr : r.Textual)
    (h : (appendTags (tags.map .text)).Gives r () r') : r'.Textual := by
  induction tags generalizing r with
  | nil =>
    obtain rfl := gives_appendTags_nil_iff.1 h
    exact hr
  | cons tag rest ih =>
    obtain ⟨r₁, happend, hrest⟩ := gives_appendTags_cons_iff.1 h
    exact ih (hr.of_appendTag happend) hrest

end Action

/-! ## Rules -/

namespace Filter

/-- A rule is applied to the end if its tags can be appended behind its captures. -/
theorem returns_applyRule_iff {failureTags source : Value} {pattern : Pattern} {o : Outcome}
    {tags : List Value} (ho : pattern.dissectField r source = .ok o)
    (htags : o.tags failureTags = .ok tags) :
    (applyRule failureTags source pattern).Returns r ↔
      ∀ merged, (setAll o.values.entries).Gives r () merged → tags ≠ [] → merged.Taggable := by
  constructor
  · rintro ⟨o', r', h⟩ merged hset
    obtain ⟨ho', merged', tags', hset', htags', happend⟩ := gives_applyRule_iff.1 h
    obtain rfl := Except.ok.inj (ho.symm.trans ho')
    obtain ⟨-, rfl⟩ := hset.unique hset'
    obtain rfl := Except.ok.inj (htags.symm.trans htags')
    exact returns_appendTags_iff.1 ⟨_, _, happend⟩
  · intro h
    obtain ⟨_, merged, hset⟩ := returns_setAll o.values.entries r
    obtain ⟨_, r', happend⟩ := returns_appendTags_iff.2 (h merged hset)
    exact ⟨_, r', gives_applyRule_iff.2 ⟨ho, merged, tags, hset, htags, happend⟩⟩

/-- Rules are applied to the end if every rule is that is reached. -/
theorem returns_applyRules_iff {failureTags : Value} {rules : List (Value × Pattern)} :
    (applyRules failureTags rules).Returns r ↔
      ∀ rule r', Reaches (fun rule => applyRule failureTags rule.1 rule.2) rules r rule r' →
        (applyRule failureTags rule.1 rule.2).Returns r' := by
  refine returns_iff_of_loop (fun r => ⟨[], r, gives_applyRules_nil_iff.2 ⟨rfl, rfl⟩⟩)
    fun rule rest r => ⟨?_, ?_⟩
  · rintro ⟨_, _, h⟩
    obtain ⟨o, r₁, others, hfirst, hrest, -⟩ := gives_applyRules_cons_iff.1 h
    exact ⟨o, r₁, hfirst, others, _, hrest⟩
  · rintro ⟨o, r₁, hfirst, others, r', hrest⟩
    exact ⟨_, r', gives_applyRules_cons_iff.2 ⟨o, r₁, others, hfirst, hrest, rfl⟩⟩

/-- An outcome brings failure tags or none. -/
theorem exists_tags {failureTags : Value} {tags : List Text}
    (h : failureTags.items = .ok (tags.map .text)) (o : Outcome) :
    ∃ texts : List Text, o.tags failureTags = .ok (texts.map .text) := by
  cases o with
  | patternNotFound => exact ⟨tags, h⟩
  | matched => exact ⟨[], rfl⟩
  | keyNotFound => exact ⟨[], rfl⟩

/-- A record of texts is still one when rules were applied to it. -/
theorem textual_of_gives_applyRules {failureTags : Value} {tags : List Text}
    (htags : failureTags.items = .ok (tags.map .text)) {rules : List (Value × Pattern)}
    {outcomes : List (Value × Outcome)} (hr : r.Textual)
    (h : (applyRules failureTags rules).Gives r outcomes r') : r'.Textual := by
  induction rules generalizing r outcomes with
  | nil =>
    obtain ⟨-, rfl⟩ := gives_applyRules_nil_iff.1 h
    exact hr
  | cons rule rest ih =>
    obtain ⟨o, r₁, others, hrule, hrest, -⟩ := gives_applyRules_cons_iff.1 h
    obtain ⟨-, merged, added, hset, hadded, happend⟩ := gives_applyRule_iff.1 hrule
    obtain ⟨texts, htexts⟩ := exists_tags htags o
    obtain rfl := Except.ok.inj (htexts.symm.trans hadded)
    exact ih (textual_of_gives_appendTags (textual_of_gives_setAll hr hset) happend) hrest

end Filter

/-! ## Conversions -/

namespace Conversion

/-- Texts and lists of texts can be shown. -/
theorem exists_rendered {v : Value} (hv : v.Textual) : ∃ shown, v.rendered = .ok shown := by
  rw [Value.exists_rendered_iff]
  cases hv with
  | text t => exact Value.showable_text t
  | list texts =>
    refine Value.showable_list_iff.2 fun v hv => ?_
    obtain ⟨t, -, rfl⟩ := List.mem_map.1 hv
    exact Value.showable_text t

/-- Texts and lists of texts are converted, or stand in the way themselves. -/
theorem coerce_of_textual {v : Value} (hv : v.Textual) (target : Datatype) :
    (∃ converted, coerce target v = .ok converted) ∨
      coerce target v = .error (.uncoercible v) := by
  cases hcoerce : coerce target v with
  | ok converted => exact .inl ⟨converted, rfl⟩
  | error o =>
    rcases coerce_eq_error hcoerce with rfl | ⟨-, -, n, -, rfl, -⟩
    · exact .inr rfl
    · cases hv

/-- What can be read from a record of texts is converted, or left for a cause whose message
can be shown. -/
theorem judge_of_readable {v : Value} (hv : Readable v) (field name : Text) :
    (∃ converted, judge (.text name) v = .ok (.inl converted)) ∨
      ∃ cause message, judge (.text name) v = .ok (.inr cause) ∧
        Failure.message ⟨.text field, .text name, cause⟩ = .ok message := by
  have hname : Datatype.ofValue (.text name) = .ok (Datatype.ofName? name) := rfl
  unfold judge
  rw [hname]
  cases Datatype.ofName? name with
  | none => exact .inr ⟨.unsupportedType, _, rfl, rfl⟩
  | some target =>
    rcases hv with rfl | hv
    · exact .inr ⟨.nullValue, _, rfl, rfl⟩
    · obtain ⟨shown, hshown⟩ := exists_rendered hv
      have hmessage : Failure.message ⟨.text field, .text name, .uncoercible v⟩ =
          .ok (Failure.valueMessage (.text field) shown) :=
        congrArg (Except.bind · fun shown => .ok (Failure.valueMessage (.text field) shown)) hshown
      rcases coerce_of_textual hv target with ⟨converted, hcoerce⟩ | hcoerce
      · exact .inl ⟨converted, by cases hv <;> simp only [hcoerce]⟩
      · exact .inr ⟨.uncoercible v, _, by cases hv <;> simp only [hcoerce], hmessage⟩

/-- A readable field is converted to the end if a tag can be appended where it cannot be
converted. -/
theorem returns_convertField_iff {field name : Text} (hr : Readable (r.value (.text field))) :
    (convertField (.text field) (.text name)).Returns r ↔
      ∀ cause, judge (.text name) (r.value (.text field)) = .ok (.inr cause) →
        r.Taggable := by
  constructor
  · rintro ⟨failure, r', h⟩ cause hcause
    -- a field that is left is left with a tag
    rcases gives_convertField_iff.1 h with ⟨v, hv, -⟩ | ⟨_, _, _, _, _, _, happend⟩
    · rw [hcause] at hv
      cases hv
    · exact exists_appendTag_iff.1 ⟨r', happend⟩
  · intro h
    rcases judge_of_readable hr field name with ⟨v, hv⟩ | ⟨cause, message, hcause, hmessage⟩
    · exact ⟨none, _, gives_convertField_iff.2 (.inl ⟨v, hv, rfl, rfl⟩)⟩
    · obtain ⟨r', happend⟩ := exists_appendTag_iff.2 (h cause hcause)
      exact ⟨_, r', gives_convertField_iff.2
        (.inr ⟨cause, message, hcause, rfl, hmessage, rfl, happend⟩)⟩

/-- Fields are converted to the end if every field is that is reached. -/
theorem returns_convertAll_iff {entries : List (Value × Value)} :
    (convertAll entries).Returns r ↔
      ∀ entry r', Reaches (fun entry => convertField entry.1 entry.2) entries r entry r' →
        (convertField entry.1 entry.2).Returns r' := by
  refine returns_iff_of_loop (fun r => ⟨[], r, gives_convertAll_nil_iff.2 ⟨rfl, rfl⟩⟩)
    fun entry rest r => ⟨?_, ?_⟩
  · rintro ⟨_, _, h⟩
    obtain ⟨failure, r₁, others, hfirst, hrest, -⟩ := gives_convertAll_cons_iff.1 h
    exact ⟨failure, r₁, hfirst, others, _, hrest⟩
  · rintro ⟨failure, r₁, hfirst, others, r', hrest⟩
    exact ⟨_, r', gives_convertAll_cons_iff.2 ⟨failure, r₁, others, hfirst, hrest, rfl⟩⟩

/-- Converting another field leaves a field readable. -/
theorem readable_of_gives_convertField {field datatype : Value} {failure : Option Failure}
    {name : Text} (hr : Readable (r.value (.text name)))
    (h : (convertField field datatype).Gives r failure r') (hfield : field ≠ .text name) :
    Readable (r'.value (.text name)) := by
  rcases gives_convertField_iff.1 h with ⟨v, -, -, rfl⟩ | ⟨_, _, _, _, _, _, happend⟩
  · rw [Record.value, Table.get?_put_text, if_neg hfield]
    exact hr
  · exact hr.of_appendTag happend

/-- A field is readable when it is reached, for no field is converted twice. -/
theorem readable_of_reaches {entries : List (Value × Value)} {entry : Value × Value}
    (hdistinct : (entries.map Prod.fst).Nodup)
    (hr : ∀ other ∈ entries, ∃ name, other.1 = .text name ∧ Readable (r.value (.text name)))
    (h : Reaches (fun entry => convertField entry.1 entry.2) entries r entry r') :
    Readable (r'.value entry.1) := by
  induction h with
  | here =>
    obtain ⟨name, hname, hread⟩ := hr _ List.mem_cons_self
    rwa [hname]
  | later hfirst _ ih =>
    -- the fields behind the first one are others, so converting it leaves them readable
    obtain ⟨hnew, hrest⟩ := List.nodup_cons.1 hdistinct
    refine ih hrest fun other ho => ?_
    obtain ⟨name, hname, hread⟩ := hr other (List.mem_cons_of_mem _ ho)
    refine ⟨name, hname, readable_of_gives_convertField hread hfirst fun heq => hnew ?_⟩
    exact List.mem_map.2 ⟨other, ho, hname.trans heq.symm⟩

end Conversion

/-! ## Additions -/

namespace Filter

/-- Fields are added to the end if their names and values are texts. -/
theorem returns_addFields {entries : List (Value × Value)}
    (hentries : ∀ entry ∈ entries, (∃ name, entry.1.wording = .ok name) ∧
      ∃ text, entry.2.wording = .ok text) (hr : r.Shown) : (addFields entries).Returns r := by
  induction entries generalizing r with
  | nil => exact ⟨(), r, gives_addFields_nil_iff.2 rfl⟩
  | cons entry rest ih =>
    obtain ⟨⟨⟨_, hname⟩, _, htext⟩, hrest⟩ := List.forall_mem_cons.1 hentries
    obtain ⟨name, hname⟩ := hr.exists_yield hname
    obtain ⟨text, htext⟩ := hr.exists_yield htext
    obtain ⟨x, r', h⟩ := ih hrest (hr.put (.text text) (.text name))
    exact ⟨x, r', gives_addFields_cons_iff.2
      ⟨_, gives_addField_iff.2 ⟨name, text, hname, htext, rfl⟩, h⟩⟩

theorem returns_addTags {templates : List Value}
    (htemplates : ∀ template ∈ templates, ∃ text, template.wording = .ok text)
    (hshown : r.Shown) (hr : r.Taggable) : (addTags templates).Returns r := by
  induction templates generalizing r with
  | nil => exact ⟨(), r, gives_addTags_nil_iff.2 rfl⟩
  | cons template rest ih =>
    obtain ⟨⟨_, hfirst⟩, hrest⟩ := List.forall_mem_cons.1 htemplates
    obtain ⟨tag, htag⟩ := hshown.exists_yield hfirst
    obtain ⟨tags, htags⟩ := hr
    have happend := htags.appendTag (.text tag)
    obtain ⟨x, r', h⟩ := ih hrest (hshown.of_appendTag happend) ⟨_, htags.of_appendTag happend⟩
    exact ⟨x, r', gives_addTags_cons_iff.2 ⟨_, gives_addTag_iff.2 ⟨tag, htag, happend⟩, h⟩⟩

/-- Tags that are texts are added to the end if there are none, and else to a list or its
absence. -/
theorem returns_addTags_iff {templates : List Value}
    (htemplates : ∀ template ∈ templates, ∃ text, template.wording = .ok text)
    (hshown : r.Shown) : (addTags templates).Returns r ↔ (templates ≠ [] → r.Taggable) := by
  cases templates with
  | nil => exact iff_of_true ⟨(), r, gives_addTags_nil_iff.2 rfl⟩ (absurd rfl)
  | cons template rest =>
    constructor
    · rintro ⟨_, _, h⟩ -
      obtain ⟨r₁, hfirst, -⟩ := gives_addTags_cons_iff.1 h
      obtain ⟨tag, -, happend⟩ := gives_addTag_iff.1 hfirst
      exact exists_appendTag_iff.1 ⟨r₁, happend⟩
    · intro h
      exact returns_addTags htemplates hshown (h (List.cons_ne_nil _ _))

/-- A record is decorated to the end if tags can be added behind the fields. -/
theorem returns_decorate_iff {s : Settings} (hs : s.Usable) (hr : r.Shown) :
    (decorate s).Returns r ↔
      ∀ fields templates r', s.addedFields.entries = .ok fields →
        (addFields fields).Gives r () r' → s.addedTags.items = .ok templates →
        templates ≠ [] → r'.Taggable := by
  obtain ⟨⟨failureTags, hfailureTags⟩, ⟨fields, hfields, hwordings⟩, templates, htemplates,
    hwording⟩ := hs
  have hshown : ∀ {r'}, (addFields fields).Gives r () r' → r'.Shown := fun hadd =>
    (lasting_shown hfailureTags).addFields hr hadd fun _ _ _ _ _ t => .text t
  constructor
  · rintro ⟨_, r'', h⟩ fields' templates' r' hfields' hadd htemplates'
    obtain ⟨_, r₁, _, hfields₁, hadd₁, htemplates₁, htags⟩ := gives_decorate_iff.1 h
    obtain rfl := Except.ok.inj (hfields'.symm.trans hfields₁)
    obtain rfl := Except.ok.inj (htemplates'.symm.trans htemplates₁)
    obtain rfl := Except.ok.inj (htemplates.symm.trans htemplates')
    obtain rfl := Except.ok.inj (hfields.symm.trans hfields')
    obtain ⟨-, rfl⟩ := hadd.unique hadd₁
    exact (returns_addTags_iff hwording (hshown hadd)).1 htags.returns
  · intro h
    obtain ⟨_, r', hadd⟩ := returns_addFields hwordings hr
    obtain ⟨_, r'', htags⟩ := (returns_addTags_iff hwording (hshown hadd)).2
      (h fields templates r' hfields hadd htemplates)
    exact ⟨(), r'', gives_decorate_iff.2 ⟨fields, r', templates, hfields, hadd, htemplates, htags⟩⟩

/-! ## Records to which tags are to be appended -/

/-- While a record is processed, a tag is to be appended to this one: behind the captures of
a rule whose outcome brings tags, where a field is not converted, or behind the added
fields. -/
inductive AppendsTo (f : Filter) (r : Record) : Record → Prop
  | outcome {source : Value} {pattern : Pattern} {r₁ merged : Record} {o : Outcome}
      {tag : Value} {tags : List Value} :
      Reaches (fun rule => applyRule f.settings.failureTags rule.1 rule.2) f.rules.entries
        r (source, pattern) r₁ →
      pattern.dissectField r₁ source = .ok o →
      (setAll o.values.entries).Gives r₁ () merged →
      o.tags f.settings.failureTags = .ok (tag :: tags) →
      AppendsTo f r merged
  | failure {outcomes : List (Value × Outcome)} {r₁ r₂ : Record} {field datatype : Value}
      {cause : Conversion.Cause} :
      (applyRules f.settings.failureTags f.rules.entries).Gives r outcomes r₁ →
      Reaches (fun entry => Conversion.convertField entry.1 entry.2) f.conversions.entries
        r₁ (field, datatype) r₂ →
      Conversion.judge datatype (r₂.value field) = .ok (.inr cause) →
      AppendsTo f r r₂
  | addition {outcomes : List (Value × Outcome)} {failures : List Conversion.Failure}
      {converted r₁ : Record} {entries : List (Value × Value)} {template : Value}
      {templates : List Value} :
      f.Converts r outcomes failures converted → isSuccess outcomes →
      f.settings.addedFields.entries = .ok entries → (addFields entries).Gives converted () r₁ →
      f.settings.addedTags.items = .ok (template :: templates) →
      AppendsTo f r r₁

/-! ## Processing a record of texts -/

/-- The settings can be used as they are meant to be, and the datatypes are texts under
texts. -/
structure Usable (f : Filter) : Prop where
  settings : f.settings.Usable
  conversions : ∀ entry ∈ f.conversions.entries, ∃ field datatype,
    entry = (.text field, .text datatype)

/-- A field of a record of texts is readable when it is to be converted. -/
theorem Usable.readable_of_reaches {f : Filter} (hf : f.Usable) (hr : r.Textual)
    {outcomes : List (Value × Outcome)} {entry : Value × Value}
    (hrules : (applyRules f.settings.failureTags f.rules.entries).Gives r outcomes r')
    (h : Reaches (fun entry => Conversion.convertField entry.1 entry.2) f.conversions.entries
      r' entry r'') : Readable (r''.value entry.1) := by
  have hdistinct : (f.conversions.entries.map Prod.fst).Nodup := by
    refine f.conversions.distinct.imp_of_mem fun {a b} ha _ hbeq => ?_
    obtain ⟨entry, he, rfl⟩ := List.mem_map.1 ha
    obtain ⟨field, datatype, rfl⟩ := hf.conversions entry he
    rintro rfl
    rw [Value.text_beq_text, beq_self_eq_true] at hbeq
    cases hbeq
  obtain ⟨failureTags, hfailureTags⟩ := hf.settings.failureTags
  refine Conversion.readable_of_reaches hdistinct (fun other ho => ?_) h
  obtain ⟨field, datatype, rfl⟩ := hf.conversions other ho
  exact ⟨field, rfl, (textual_of_gives_applyRules hfailureTags hr hrules).readable field⟩

/-- A record of texts holds only values that can be shown when its fields are converted. -/
theorem Usable.shown_of_converts {f : Filter} (hf : f.Usable) (hr : r.Textual)
    {outcomes : List (Value × Outcome)} {failures : List Conversion.Failure}
    (h : f.Converts r outcomes failures r') : r'.Shown := by
  obtain ⟨failureTags, hfailureTags⟩ := hf.settings.failureTags
  have hlasting := lasting_shown hfailureTags
  obtain ⟨r₁, hrules, hconvert⟩ := h
  exact hlasting.convertAll (hlasting.applyRules hr.shown hrules fun _ _ _ _ _ => .text _) hconvert
    fun _ _ _ _ hv => .converted hv

/-- Where a record is processed to the end, every tag that is to be appended can be. -/
theorem AppendsTo.taggable_of_returns {f : Filter} (hf : f.Usable) (hr : r.Textual)
    (hreturns : f.process.Returns r) (h : f.AppendsTo r r') : r'.Taggable := by
  obtain ⟨outcomes, failures, converted, hconverts, hdecorate⟩ := returns_process_iff.1 hreturns
  obtain ⟨r₁, hrules, hconvert⟩ := hconverts
  cases h with
  | outcome hreach ho hset htags =>
    have hrule := returns_applyRules_iff.1 hrules.returns _ _ hreach
    exact (returns_applyRule_iff ho htags).1 hrule _ hset (List.cons_ne_nil _ _)
  | failure hrules' hreach hcause =>
    obtain ⟨rfl, rfl⟩ := hrules.unique hrules'
    have hread := hf.readable_of_reaches hr hrules hreach
    obtain ⟨field, datatype, ⟨⟩⟩ := hf.conversions _ hreach.mem
    have hfield := Conversion.returns_convertAll_iff.1 hconvert.returns _ _ hreach
    exact (Conversion.returns_convertField_iff hread).1 hfield _ hcause
  | addition hconverts' hsuccess hfields hadd htags =>
    obtain ⟨rfl, rfl, rfl⟩ := Converts.unique ⟨r₁, hrules, hconvert⟩ hconverts'
    have hshown := hf.shown_of_converts hr hconverts'
    exact (returns_decorate_iff hf.settings hshown).1 (hdecorate hsuccess) _ _ _ hfields hadd
      htags (List.cons_ne_nil _ _)

/-- Where every tag can be appended that is to be, a record is processed to the end: the
stages come to their ends one after another. -/
theorem returns_process_of_taggable {f : Filter} (hf : f.Usable) (hr : r.Textual)
    (h : ∀ r', f.AppendsTo r r' → r'.Taggable) : f.process.Returns r := by
  have hrules : (applyRules f.settings.failureTags f.rules.entries).Returns r := by
    obtain ⟨failureTags, hfailureTags⟩ := hf.settings.failureTags
    refine returns_applyRules_iff.2 fun rule r₁ hreach => ?_
    have hshown : r₁.Shown := hreach.keeps hr.shown fun other r₂ o r₃ _ h₂ hrule =>
      (lasting_shown hfailureTags).applyRule h₂ hrule fun _ _ _ => .text _
    obtain ⟨o, ho⟩ := hshown.exists_dissectField rule.2 rule.1
    obtain ⟨tags, htags⟩ := exists_tags hfailureTags o
    refine (returns_applyRule_iff ho htags).2 fun merged hset hne => ?_
    obtain ⟨tag, rest, hcons⟩ := List.exists_cons_of_ne_nil hne
    exact h merged (.outcome hreach ho hset (hcons ▸ htags))
  obtain ⟨outcomes, r₁, hrules⟩ := hrules
  have hconvert : (Conversion.convertAll f.conversions.entries).Returns r₁ := by
    refine Conversion.returns_convertAll_iff.2 fun entry r₂ hreach => ?_
    have hread := hf.readable_of_reaches hr hrules hreach
    obtain ⟨field, datatype, rfl⟩ := hf.conversions _ hreach.mem
    refine (Conversion.returns_convertField_iff hread).2 fun cause hcause => ?_
    exact h r₂ (.failure hrules hreach hcause)
  obtain ⟨failures, converted, hconvert⟩ := hconvert
  refine returns_process_iff.2
    ⟨outcomes, failures, converted, ⟨r₁, hrules, hconvert⟩, fun hsuccess => ?_⟩
  have hconverts : f.Converts r outcomes failures converted := ⟨r₁, hrules, hconvert⟩
  refine (returns_decorate_iff hf.settings (hf.shown_of_converts hr hconverts)).2
    fun fields templates r' hfields hadd htags hne => ?_
  obtain ⟨template, rest, rfl⟩ := List.exists_cons_of_ne_nil hne
  exact h r' (.addition hconverts hsuccess hfields hadd htags)

/-! ## Fields that leave the tags alone -/

/-- Where no rule captures a field under the name of the tags, a tag can be appended
whenever a rule is reached, and behind its captures. -/
theorem taggable_of_reaches_rule {f : Filter} {rule : Value × Pattern} (hr : r.Taggable)
    (hcaptured : ¬ f.Captures r tagsField)
    (h : Reaches (fun rule => applyRule f.settings.failureTags rule.1 rule.2) f.rules.entries
      r rule r') :
    r'.Taggable ∧ ∀ o, rule.2.dissectField r' rule.1 = .ok o → tagsField ∉ o.values.keys := by
  refine ⟨h.keeps hr ?_, fun o ho hname => hcaptured ⟨rule.1, rule.2, r', h, o, ho, hname⟩⟩
  rintro other r₁ o r₂ hother ⟨tags, h₁⟩ hstep
  -- what was captured before this rule was not under that name either
  have ho := (gives_applyRule_iff.1 hstep).1
  have hmissing : tagsField ∉ o.values.keys :=
    fun hname => hcaptured ⟨other.1, other.2, r₁, hother, o, ho, hname⟩
  obtain ⟨added, -, h₂⟩ := hasTags_of_gives_applyRule h₁ hstep hmissing
  exact ⟨_, h₂⟩

theorem taggable_of_reaches_field {entries : List (Value × Value)} {entry : Value × Value}
    (hr : r.Taggable)
    (h : Reaches (fun entry => Conversion.convertField entry.1 entry.2) entries r entry r') :
    r'.Taggable := by
  refine h.keeps hr ?_
  rintro other r₁ failure r₂ - ⟨tags, h₁⟩ hstep
  exact ⟨_, (Conversion.hasTags_of_gives_convertField h₁ hstep).2⟩

/-- Where no rule captures a field under the name of the tags and none is added, a tag can
be appended whenever one is to be. -/
theorem AppendsTo.taggable {f : Filter} (h : f.AppendsTo r r') (hr : r.Taggable)
    (hcaptured : ¬ f.Captures r tagsField) (hadded : ¬ f.Adds r tagsField) :
    r'.Taggable := by
  cases h with
  | outcome hreach ho hset _ =>
    obtain ⟨⟨tags, h₁⟩, hmissing⟩ := taggable_of_reaches_rule hr hcaptured hreach
    exact ⟨tags, hasTags_of_gives_setAll h₁ hset (hmissing _ ho)⟩
  | failure hrules hreach _ =>
    obtain ⟨tags, htags⟩ := hr
    obtain ⟨failed, -, h₁⟩ := hasTags_of_gives_applyRules htags hrules fun entry he hname =>
      hcaptured (captures_of_mem_outcomes hrules he hname)
    exact taggable_of_reaches_field ⟨_, h₁⟩ hreach
  | addition hconverts hsuccess hfields hadd _ =>
    obtain ⟨tags, htags⟩ := hr
    have ⟨r₁, hrules, _⟩ := hconverts
    obtain ⟨-, failed, -, h₁⟩ := hasTags_of_converts htags hconverts fun entry he hname =>
      hcaptured (captures_of_mem_outcomes hrules he hname)
    refine ⟨_, hasTags_of_gives_addFields h₁ hadd fun entry r₂ hreach hname => hadded ?_⟩
    exact ⟨_, _, _, _, entry, r₂, hconverts, hsuccess, hfields, hreach, hname⟩

/-! ## Requests -/

/-- The filter meets a request: it gives a reply. -/
def Meets (f : Filter) (request : Request) : Prop :=
  ∃ reply, (f.handle request).2.reply = .ok reply

theorem handle_of_record? {f : Filter} {request : Request} (hf : f.registered = true)
    (h : request.record? = some r) : f.handle request = (f, f.respond (some r)) := by
  have hrecord : f.handleRecord (some r) = (f, f.respond (some r)) := by
    rw [handleRecord, ready_of_registered hf]
  cases request with
  | process record =>
    obtain rfl : record = some r := h
    rw [handle, hrecord]
  | dissectLine line source =>
    rw [Request.record?] at h
    rw [handle]
    cases hkey : source.key with
    | ok name =>
      rw [hkey] at h
      obtain rfl := Option.some.inj h
      exact hrecord
    | error m =>
      rw [hkey] at h
      cases h
  | _ => cases h

/-- A registered filter meets a request about a record exactly if it processes the record to
the end. -/
theorem meets_iff_returns {f : Filter} {request : Request} (hf : f.registered = true)
    (h : request.record? = some r) : f.Meets request ↔ f.process.Returns r := by
  rw [Meets, handle_of_record? hf h, returns_iff_result]
  simp only [respond, replyOf]
  cases (f.process.run r).result with
  | ok s => simp
  | error fault => simp

theorem register_ofConfig {c : Config} {rules : List (Value × Pattern)}
    (h : compileRules (Config.valueTable c.mapping).entries = .ok rules) :
    (ofConfig c).register =
      .ok { ofConfig c with rules := Table.ofList rules, registered := true } := by
  rw [register_eq rfl, h]
  rfl

/-- A filter that was registered with the settings of a configuration can use them. -/
theorem usable_of_register {c : Config} {f : Filter} (h : (ofConfig c).register = .ok f) :
    f.Usable ∧ f.registered = true := by
  obtain ⟨rules, -, rfl⟩ := (register_eq_ok_iff rfl).1 h
  exact ⟨⟨c.usable_settings, fun entry he => Config.mem_valueTable he⟩, rfl⟩

/-- A filter that was registered with a configuration meets a request about a record of texts
exactly if the tags are a list or absent whenever a tag is to be appended.  They are if they
are to begin with, no rule captures a field under their name and none is added. -/
theorem meets_iff_of_textual {c : Config} {f : Filter} {request : Request}
    (hf : (ofConfig c).register = .ok f) (hrequest : request.record? = some r)
    (hr : r.Textual) :
    (f.Meets request ↔ ∀ r', f.AppendsTo r r' → r'.Taggable) ∧
      (r.Taggable → ¬ f.Captures r tagsField → ¬ f.Adds r tagsField →
        f.Meets request) := by
  obtain ⟨husable, hregistered⟩ := usable_of_register hf
  have hiff : f.Meets request ↔ ∀ r', f.AppendsTo r r' → r'.Taggable := by
    rw [meets_iff_returns hregistered hrequest]
    exact ⟨fun hreturns r' h => h.taggable_of_returns husable hr hreturns,
      returns_process_of_taggable husable hr⟩
  exact ⟨hiff, fun htags hcaptured hadded =>
    hiff.2 fun r' happends => happends.taggable htags hcaptured hadded⟩

/-- Settings with a pattern that takes the name of a field from the line. -/
def namedByLine : Config where
  mapping := Table.ofList [("message", "%\x7b?k\x7d=%\x7b&k\x7d")]
  addedTags := ["dissected"]

/-- Its only pattern. -/
def nameAndValue : Pattern where
  leading := []
  tokens := [⟨⟨"k", .key, "?k"⟩, "="⟩, ⟨⟨"k", .value, "&k"⟩, []⟩]

/-- The filter that is registered with these settings. -/
def nameFilter : Filter :=
  { ofConfig namedByLine with
    rules := Table.ofList [(.text "message", nameAndValue)]
    registered := true }

theorem register_namedByLine : (ofConfig namedByLine).register = .ok nameFilter :=
  register_ofConfig (by decide +kernel)

/-- A line that names another field is dissected. -/
theorem meets_iff_of_textual_nameFilter :
    let request : Request := .dissectLine (.text "user=x") (.text "message")
    let r := lineRecord (.text "user=x") (.text "message")
    (ofConfig namedByLine).register = .ok nameFilter ∧ request.record? = some r ∧ r.Textual ∧
      r.Taggable ∧ ¬ nameFilter.Captures r tagsField ∧ ¬ nameFilter.Adds r tagsField ∧
      nameFilter.Meets request := by
  intro request r
  have hrequest : request.record? = some r := rfl
  have hr : r.Textual := by
    intro entry he
    obtain rfl := List.mem_singleton.1 he
    exact .text _
  have htags : r.Taggable := ⟨none, by decide +kernel⟩
  have hcaptured : ¬ nameFilter.Captures r tagsField := by
    rintro ⟨source, pattern, r', hreach, o, ho, hname⟩
    have hrules : nameFilter.rules.entries = [(.text "message", nameAndValue)] := rfl
    rw [hrules] at hreach
    cases hreach with
    | here =>
      have huser : nameAndValue.dissectField r (.text "message") =
          .ok (.matched (Table.ofList [("user", "x")]) []) := by decide +kernel
      obtain rfl := Except.ok.inj (huser.symm.trans ho)
      exact absurd hname (by decide +kernel)
    | later _ hlater => cases hlater
  have hadded : ¬ nameFilter.Adds r tagsField := by
    rintro ⟨_, _, _, _, _, _, _, _, hentries, hreach, -⟩
    obtain rfl := Except.ok.inj hentries
    cases hreach
  have hmeets := (meets_iff_of_textual register_namedByLine hrequest hr).2 htags hcaptured hadded
  exact ⟨register_namedByLine, hrequest, hr, htags, hcaptured, hadded, hmeets⟩

/-- A line that names the field of the tags stops the filter, though it is the only field of
a record without tags. -/
theorem not_meets_nameFilter :
    let r := lineRecord (.text "tags=x") (.text "message")
    (ofConfig namedByLine).register = .ok nameFilter ∧ r.Textual ∧ r.HasTags none ∧
      ¬ nameFilter.Meets (.process (some r)) ∧
      ¬ nameFilter.Meets (.dissectLine (.text "tags=x") (.text "message")) := by
  intro r
  have hr : r.Textual := by
    intro entry he
    obtain rfl := List.mem_singleton.1 he
    exact .text _
  have hstop : (nameFilter.process.run r).result =
      .error (.misfit (.lacks "str" .append)) := by decide +kernel
  have hreturns : ¬ nameFilter.process.Returns r := by
    rw [returns_iff_result, hstop]
    rintro ⟨_, ⟨⟩⟩
  refine ⟨register_namedByLine, hr, by decide +kernel, ?_, ?_⟩
  · exact mt (meets_iff_returns rfl rfl).1 hreturns
  · exact mt (meets_iff_returns rfl rfl).1 hreturns

end Filter

end Dissection
