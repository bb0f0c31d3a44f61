import Dissection.Config
import Dissection.Proofs.Rendering
import Dissection.Proofs.Tags
import Mathlib.Data.List.Forall2
import Mathlib.Data.List.ReduceOption

/-!
# When the fields of a record are converted to the end

Datatypes are given as texts under texts.  A field is converted, or it is left for one of three
causes: its datatype is not supported, it has no value, or its value has no counterpart in the
datatype.  The cause is written into a log line and into a tag, and the next field is
converted in any case.

Two things are no cause and stop the conversion midway.  An integer beyond the range of
binary64 cannot be converted to a number of that format, and a value without a counterpart
cannot always be shown in the log line.  Which values do so can be told before anything is
converted, because what is done to one field does not change what another one holds.

## Main definitions

* `Conversion.cause?`, `Conversion.converted?` — the cause for leaving a value, and the value
  that it is converted to.
* `Conversion.Manageable` — a value that is converted or left for a cause.
* `Conversion.Settled` — what became of a field.

## Main statements

* `Conversion.gives_convertField_text_iff` — converting one field.
* `Conversion.returns_convertAll_text_iff`, `Conversion.settled_of_gives_convertAll` — converting
  all fields.
* `Conversion.returns_convert_iff` — when the fields of a record are converted to the end.
-/

namespace Dissection

open Dissection.Action Dissection.Record

namespace Conversion

variable {r r' r'' : Record} {tags : Option (List Value)} {name datatype : Text} {v w : Value}
  {cause : Cause} {failure : Option Failure} {failures : List Failure}

/-! ## One value -/

/-- The cause for leaving a value that is to become of a datatype. -/
def cause? (datatype : Text) (v : Value) : Option Cause :=
  match Datatype.ofName? datatype with
  | none => some .unsupportedType
  | some target =>
    if v = .null then some .nullValue
    else
      match coerce target v with
      | .ok _ => none
      | .error _ => some (.uncoercible v)

/-- The value of a datatype that a value is converted to. -/
def converted? (datatype : Text) (v : Value) : Option Value :=
  (Datatype.ofName? datatype).bind fun target => (coerce target v).toOption

/-- What is to become of a datatype is not beyond its range. -/
def InRange (datatype : Text) (v : Value) : Prop :=
  ∀ target, Datatype.ofName? datatype = some target → coerce target v ≠ .error .beyondRange

/-- What is to become of a datatype is converted or left for a cause: it is not beyond the
range, and it can be shown if it has no counterpart. -/
structure Manageable (datatype : Text) (v : Value) : Prop where
  inRange : InRange datatype v
  showable : ∀ w, cause? datatype v = some (.uncoercible w) → w.Showable

theorem toInt_eq_error {o : Obstacle} (h : toInt v = .error o) : o = .uncoercible v := by
  cases v with
  | int n => cases h
  | float x =>
    rw [toInt] at h
    cases hx : x.toInt? with
    | none =>
      rw [hx] at h
      exact (Except.error.inj h).symm
    | some n =>
      rw [hx] at h
      cases h
  | text t =>
    rw [toInt] at h
    cases ht : Numeral.read? t with
    | none =>
      rw [ht] at h
      exact (Except.error.inj h).symm
    | some n =>
      rw [ht] at h
      cases h
  | _ => exact (Except.error.inj h).symm

theorem rounded_eq_error {x : Binary64} {o : Obstacle} (h : rounded x = .error o) :
    o = .beyondRange ∧ ∃ negative, x = .infinite negative := by
  cases x with
  | infinite negative => exact ⟨(Except.error.inj h).symm, negative, rfl⟩
  | finite negative rank => cases h
  | nan => cases h

theorem toFloat_text (t : Text) :
    toFloat (.text t) = match Binary64.read? t with
      | some x => .ok x
      | none => .error (.uncoercible (.text t)) := rfl

theorem toFloat_eq_error {o : Obstacle} (h : toFloat v = .error o) :
    o = .uncoercible v ∨
      o = .beyondRange ∧ ∃ n negative, v = .int n ∧ Binary64.ofInt n = .infinite negative := by
  cases v with
  | int n =>
    obtain ⟨rfl, negative, hn⟩ := rounded_eq_error h
    exact .inr ⟨rfl, n, negative, rfl, hn⟩
  | float x => cases h
  | text t =>
    rw [toFloat_text] at h
    cases ht : Binary64.read? t with
    | none =>
      rw [ht] at h
      exact .inl (Except.error.inj h).symm
    | some x =>
      rw [ht] at h
      cases h
  | _ => exact .inl (Except.error.inj h).symm

/-- A value stands in its own way, or it is an integer beyond the range of binary64. -/
theorem coerce_eq_error {target : Datatype} {o : Obstacle} (h : coerce target v = .error o) :
    o = .uncoercible v ∨
      o = .beyondRange ∧ target = .float ∧
        ∃ n negative, v = .int n ∧ Binary64.ofInt n = .infinite negative := by
  cases target with
  | int =>
    cases hv : toInt v with
    | ok n => simp [coerce, hv, Except.map] at h
    | error found =>
      rw [coerce, hv] at h
      obtain rfl := Except.error.inj h
      exact .inl (toInt_eq_error hv)
  | float =>
    cases hv : toFloat v with
    | ok n => simp [coerce, hv, Except.map] at h
    | error found =>
      rw [coerce, hv] at h
      obtain rfl := Except.error.inj h
      exact (toFloat_eq_error hv).imp_right fun ⟨ho, hn⟩ => ⟨ho, rfl, hn⟩

theorem ofValue_text (datatype : Text) :
    Datatype.ofValue (.text datatype) = .ok (Datatype.ofName? datatype) := rfl

theorem coerce_null (target : Datatype) : coerce target .null = .error (.uncoercible .null) := by
  cases target <;> rfl

/-- A value is converted, or left for a cause, or beyond the range of its datatype. -/
theorem judge_text (datatype : Text) (v : Value) :
    (∃ w, judge (.text datatype) v = .ok (.inl w) ∧ converted? datatype v = some w ∧
      cause? datatype v = none ∧ InRange datatype v) ∨
    (∃ cause, judge (.text datatype) v = .ok (.inr cause) ∧ converted? datatype v = none ∧
      cause? datatype v = some cause ∧ InRange datatype v) ∨
    (judge (.text datatype) v = .error .beyondRange ∧ converted? datatype v = none ∧
      ¬ InRange datatype v) := by
  simp only [judge, ofValue_text, converted?, cause?, InRange]
  cases Datatype.ofName? datatype with
  | none => exact .inr (.inl ⟨_, rfl, rfl, rfl, by simp⟩)
  | some target =>
    by_cases hv : v = .null
    · subst hv
      simp [coerce_null, Except.toOption]
    · simp only [if_neg hv, Option.bind_some, Option.some.injEq, forall_eq']
      cases hcoerce : coerce target v with
      | ok w => exact .inl ⟨w, rfl, rfl, rfl, by simp⟩
      | error o =>
        rcases coerce_eq_error hcoerce with rfl | ⟨rfl, -⟩
        · exact .inr (.inl ⟨_, rfl, rfl, rfl, by simp⟩)
        · exact .inr (.inr ⟨rfl, rfl, by simp⟩)

theorem judge_eq_inl_iff :
    judge (.text datatype) v = .ok (.inl w) ↔ converted? datatype v = some w := by
  rcases judge_text datatype v with ⟨w', h, hw, -⟩ | ⟨_, h, hw, -⟩ | ⟨h, hw, -⟩ <;> simp [h, hw]

theorem judge_eq_inr_iff :
    judge (.text datatype) v = .ok (.inr cause) ↔
      cause? datatype v = some cause ∧ InRange datatype v := by
  rcases judge_text datatype v with ⟨_, h, -, hc, hr⟩ | ⟨_, h, -, hc, hr⟩ | ⟨h, -, hr⟩
  · simp [h, hc]
  · simp [h, hc, hr]
  · simp [h, hr]

/-- What is in range is converted exactly if there is no cause for leaving it. -/
theorem InRange.exists_converted_iff (h : InRange datatype v) :
    (∃ w, converted? datatype v = some w) ↔ cause? datatype v = none := by
  rcases judge_text datatype v with ⟨_, -, hw, hc, -⟩ | ⟨_, -, hw, hc, -⟩ | ⟨-, -, hr⟩
  · simp [hw, hc]
  · simp [hw, hc]
  · exact absurd h hr

/-- What is converted can be dealt with. -/
theorem manageable_of_converted (h : converted? datatype v = some w) : Manageable datatype v := by
  rcases judge_text datatype v with ⟨_, -, -, hc, hr⟩ | ⟨_, -, hn, -⟩ | ⟨-, hn, -⟩
  · exact ⟨hr, by simp [hc]⟩
  · rw [hn] at h
    cases h
  · rw [hn] at h
    cases h

theorem cause?_eq_uncoercible (h : cause? datatype v = some (.uncoercible w)) : w = v := by
  unfold cause? at h
  repeat' split at h
  all_goals simp_all

/-- A failure of texts is reported if what cannot be converted can be shown. -/
theorem exists_message_iff {field named : Text} :
    (∃ message, Failure.message ⟨.text field, .text named, cause⟩ = .ok message) ↔
      ∀ w, cause = .uncoercible w → w.Showable := by
  simp only [← Failure.warning_eq_message]
  cases cause with
  | unsupportedType => simp [Failure.warning]
  | nullValue => simp [Failure.warning]
  | uncoercible v =>
    simp only [Cause.uncoercible.injEq, forall_eq', ← Value.exists_rendered_iff, Failure.warning]
    cases v.rendered <;> simp [Except.bind]

/-! ## One field -/

/-- A field under a text is converted, or is left for a cause with the tag of its failure. -/
theorem gives_convertField_text_iff :
    (convertField (.text name) (.text datatype)).Gives r failure r' ↔
      (∃ w, converted? datatype (r.value (.text name)) = some w ∧ failure = none ∧
        Table.put r (.text name) w = r') ∨
      ∃ cause, cause? datatype (r.value (.text name)) = some cause ∧
        Manageable datatype (r.value (.text name)) ∧
        failure = some ⟨.text name, .text datatype, cause⟩ ∧
        Record.appendTag r
          (.text (Failure.tag ⟨.text name, .text datatype, cause⟩)) = .ok r' := by
  rw [gives_convertField_iff]
  simp only [judge_eq_inl_iff, judge_eq_inr_iff]
  refine or_congr Iff.rfl ⟨?_, ?_⟩
  · rintro ⟨cause, message, ⟨hcause, hrange⟩, hfailure, hmessage, -, happend⟩
    have hshow := exists_message_iff.1 ⟨message, hmessage⟩
    refine ⟨cause, hcause, ⟨hrange, fun w hw => ?_⟩, hfailure, happend⟩
    exact hshow w (Option.some.inj (hcause.symm.trans hw))
  · rintro ⟨cause, hcause, hv, hfailure, happend⟩
    obtain ⟨message, hmessage⟩ := exists_message_iff.2 fun w hw => hv.showable w (hw ▸ hcause)
    exact ⟨cause, message, ⟨hcause, hv.inRange⟩, hfailure, hmessage, rfl, happend⟩

/-- Where a tag can be appended, a field is converted to the end exactly if its value can be
dealt with. -/
theorem returns_convertField_text_iff (hr : r.Taggable) :
    (convertField (.text name) (.text datatype)).Returns r ↔
      Manageable datatype (r.value (.text name)) := by
  constructor
  · rintro ⟨failure, r', h⟩
    rcases gives_convertField_text_iff.1 h with ⟨w, hw, -⟩ | ⟨_, _, hv, _⟩
    · exact manageable_of_converted hw
    · exact hv
  · intro hv
    cases hcause : cause? datatype (r.value (.text name)) with
    | none =>
      obtain ⟨w, hw⟩ := hv.inRange.exists_converted_iff.2 hcause
      exact ⟨none, _, gives_convertField_text_iff.2 (.inl ⟨w, hw, rfl, rfl⟩)⟩
    | some cause =>
      obtain ⟨r', happend⟩ := exists_appendTag_iff.2 hr
      exact ⟨_, r', gives_convertField_text_iff.2 (.inr ⟨cause, hcause, hv, rfl, happend⟩)⟩

/-- Converting a field changes no other field but the tags. -/
theorem get?_of_gives_convertField {key : Value}
    (h : (convertField (.text name) (.text datatype)).Gives r failure r')
    (hkey : key ≠ .text name) (htags : key ≠ .text tagsField) : r'.get? key = r.get? key := by
  rcases gives_convertField_text_iff.1 h with ⟨w, -, -, rfl⟩ | ⟨_, _, _, _, happend⟩
  · rw [Table.get?_put_under_text, if_neg hkey]
  · exact get?_of_appendTag_of_ne happend htags

/-- Tags can be dealt with if every tag can be shown, or if their datatype is not supported. -/
theorem manageable_tags_iff (hr : r.HasTags tags) :
    Manageable datatype (r.value (.text tagsField)) ↔
      (Datatype.ofName? datatype ≠ none → ∀ tag ∈ tags.getD [], tag.Showable) := by
  have hvalue : r.value (.text tagsField) = (tags.map .list).getD .null := congrArg (·.getD .null) hr
  have hrange : InRange datatype (r.value (.text tagsField)) := by
    intro target _
    rw [hvalue]
    cases tags with
    | none => simp [coerce_null]
    | some items => simp [coerce_list]
  rw [hvalue] at hrange ⊢
  constructor
  · rintro ⟨-, hshow⟩ hsupported
    obtain ⟨target, htarget⟩ := Option.ne_none_iff_exists'.1 hsupported
    cases tags with
    | none => simp
    | some items =>
      refine Value.showable_list_iff.1 (hshow _ ?_)
      simp [cause?, htarget, coerce_list]
  · intro hshow
    refine ⟨hrange, fun w hw => ?_⟩
    obtain rfl := cause?_eq_uncoercible hw
    have hsupported : Datatype.ofName? datatype ≠ none := by
      intro hnone
      simp [cause?, hnone] at hw
    cases tags with
    | none => exact ⟨rfl, _, rfl⟩
    | some items => exact Value.showable_list_iff.2 (hshow hsupported)

/-- Converting a field does not change whether another one can be dealt with: other fields stay
as they are, and the tag of a failure can be shown. -/
theorem manageable_of_gives_convertField {other : Text} {datatype' : Text} (hr : r.HasTags tags)
    (h : (convertField (.text name) (.text datatype)).Gives r failure r') (hother : other ≠ name) :
    Manageable datatype' (r'.value (.text other)) ↔ Manageable datatype' (r.value (.text other)) := by
  by_cases htags : other = tagsField
  · subst htags
    have hr' := (hasTags_of_gives_convertField hr h).2
    rw [manageable_tags_iff hr, manageable_tags_iff hr']
    cases failure with
    | none => simp
    | some failure =>
      simp [moreTags, Value.showable_text, or_imp, forall_and]
  · rw [Record.value, Record.value,
      get?_of_gives_convertField h (by simpa using hother) (by simpa using htags)]

/-! ## All fields -/

/-- A datatype under the name of a field, as values. -/
def pair (entry : Text × Text) : Value × Value := (.text entry.1, .text entry.2)

theorem entries_valueTable (types : Table Text Text) :
    (Config.valueTable types).entries = types.entries.map pair := by
  simp [Config.valueTable, Table.map, Table.mapKeys, pair]

theorem nodup_names (types : Table Text Text) : (types.entries.map Prod.fst).Nodup :=
  types.distinct.imp fun h => by simpa using h

/-- Fields are converted to the end exactly if what they hold to begin with can be dealt
with. -/
theorem returns_convertAll_text_iff {entries : List (Text × Text)}
    (hdistinct : (entries.map Prod.fst).Nodup) (hr : r.HasTags tags) :
    (convertAll (entries.map pair)).Returns r ↔
      ∀ entry ∈ entries, Manageable entry.2 (r.value (.text entry.1)) := by
  induction entries generalizing r tags with
  | nil => exact iff_of_true ⟨[], r, gives_convertAll_nil_iff.2 ⟨rfl, rfl⟩⟩ (by simp)
  | cons entry rest ih =>
    obtain ⟨hnew, hrest⟩ := List.nodup_cons.1 hdistinct
    have hlater : ∀ {failure r₁},
        (convertField (.text entry.1) (.text entry.2)).Gives r failure r₁ →
          ((convertAll (rest.map pair)).Returns r₁ ↔
            ∀ other ∈ rest, Manageable other.2 (r.value (.text other.1))) := by
      intro failure r₁ hfirst
      rw [ih hrest (hasTags_of_gives_convertField hr hfirst).2]
      refine forall₂_congr fun other ho => manageable_of_gives_convertField hr hfirst ?_
      rintro heq
      exact hnew (heq ▸ List.mem_map_of_mem ho)
    rw [List.forall_mem_cons, List.map_cons, ← returns_convertField_text_iff ⟨tags, hr⟩]
    constructor
    · rintro ⟨_, _, h⟩
      obtain ⟨failure, r₁, others, hfirst, hothers, -⟩ := gives_convertAll_cons_iff.1 h
      exact ⟨hfirst.returns, (hlater hfirst).1 hothers.returns⟩
    · rintro ⟨⟨failure, r₁, hfirst⟩, hothers⟩
      obtain ⟨failures, r', h⟩ := (hlater hfirst).2 hothers
      exact ⟨_, r', gives_convertAll_cons_iff.2 ⟨failure, r₁, failures, hfirst, h, rfl⟩⟩

/-- Converting fields changes no other field but the tags. -/
theorem get?_of_gives_convertAll {entries : List (Text × Text)} {key : Value}
    (h : (convertAll (entries.map pair)).Gives r failures r')
    (hkey : ∀ entry ∈ entries, key ≠ .text entry.1) (htags : key ≠ .text tagsField) :
    r'.get? key = r.get? key := by
  induction entries generalizing r failures with
  | nil =>
    obtain ⟨-, rfl⟩ := gives_convertAll_nil_iff.1 h
    rfl
  | cons entry rest ih =>
    obtain ⟨hfirst, hrest⟩ := List.forall_mem_cons.1 hkey
    obtain ⟨failure, r₁, others, hfield, hothers, -⟩ := gives_convertAll_cons_iff.1 h
    rw [ih hothers hrest, get?_of_gives_convertField hfield hfirst htags]

/-- What became of a field: it holds the converted value, or there is a failure and it holds
what it held.  Only the tags may have become others before it was their turn. -/
inductive Settled (r r' : Record) (entry : Text × Text) : Option Failure → Prop
  | converted {w : Value} :
      converted? entry.2 (r.value (.text entry.1)) = some w →
      r'.get? (.text entry.1) = some w → Settled r r' entry none
  | failed {v : Value} {cause : Cause} :
      (entry.1 ≠ tagsField →
        v = r.value (.text entry.1) ∧ r'.get? (.text entry.1) = r.get? (.text entry.1)) →
      cause? entry.2 v = some cause →
      Settled r r' entry (some ⟨.text entry.1, .text entry.2, cause⟩)

theorem settled_of_gives_convertField {entry : Text × Text}
    (h : (convertField (.text entry.1) (.text entry.2)).Gives r failure r') :
    Settled r r' entry failure := by
  rcases gives_convertField_text_iff.1 h with ⟨w, hw, rfl, rfl⟩ | ⟨cause, hcause, _, rfl, happend⟩
  · exact .converted hw (by rw [Table.get?_put_text, if_pos rfl])
  · exact .failed (fun hne => ⟨rfl, get?_of_appendTag happend hne⟩) hcause

theorem converted?_tags (hr : r.HasTags tags) (datatype : Text) :
    converted? datatype (r.value (.text tagsField)) = none := by
  refine Option.eq_none_iff_forall_ne_some.2 fun w hw => ?_
  exact judge_ne_inl_of_hasTags hr (.text datatype) w (judge_eq_inl_iff.2 hw)

/-- A field is still settled when other fields have changed behind it. -/
theorem Settled.later {entry : Text × Text} (h : Settled r r' entry failure) (hr : r.HasTags tags)
    (hkeep : entry.1 ≠ tagsField → r''.get? (.text entry.1) = r'.get? (.text entry.1)) :
    Settled r r'' entry failure := by
  cases h with
  | converted hw hput =>
    have hne : entry.1 ≠ tagsField := by
      intro heq
      rw [heq, converted?_tags hr] at hw
      cases hw
    exact .converted hw ((hkeep hne).trans hput)
  | failed hkept hcause =>
    exact .failed (fun hne => ⟨(hkept hne).1, (hkeep hne).trans (hkept hne).2⟩) hcause

/-- A field is settled all the same when other fields had changed in front of it. -/
theorem Settled.earlier {entry : Text × Text} (h : Settled r' r'' entry failure)
    (hr' : r'.HasTags tags)
    (hkeep : entry.1 ≠ tagsField → r'.get? (.text entry.1) = r.get? (.text entry.1)) :
    Settled r r'' entry failure := by
  have hvalue : entry.1 ≠ tagsField → r'.value (.text entry.1) = r.value (.text entry.1) :=
    fun hne => congrArg (·.getD .null) (hkeep hne)
  cases h with
  | converted hw hput =>
    have hne : entry.1 ≠ tagsField := by
      intro heq
      rw [heq, converted?_tags hr'] at hw
      cases hw
    exact .converted (hvalue hne ▸ hw) hput
  | failed hkept hcause =>
    refine .failed (fun hne => ?_) hcause
    obtain ⟨rfl, hget⟩ := hkept hne
    exact ⟨hvalue hne, hget.trans (hkeep hne)⟩

/-- Every field is settled, whatever became of the ones before it. -/
theorem settled_of_gives_convertAll {entries : List (Text × Text)}
    (hdistinct : (entries.map Prod.fst).Nodup) (hr : r.HasTags tags)
    (h : (convertAll (entries.map pair)).Gives r failures r') :
    ∃ results, List.Forall₂ (Settled r r') entries results ∧ failures = results.reduceOption := by
  induction entries generalizing r tags failures with
  | nil =>
    obtain ⟨rfl, -⟩ := gives_convertAll_nil_iff.1 h
    exact ⟨[], .nil, rfl⟩
  | cons entry rest ih =>
    obtain ⟨hnew, hrest⟩ := List.nodup_cons.1 hdistinct
    obtain ⟨failure, r₁, others, hfirst, hothers, rfl⟩ := gives_convertAll_cons_iff.1 h
    have hr₁ := (hasTags_of_gives_convertField hr hfirst).2
    obtain ⟨results, hresults, rfl⟩ := ih hrest hr₁ hothers
    have hne : ∀ other ∈ rest, other.1 ≠ entry.1 := fun other ho heq =>
      hnew (heq ▸ List.mem_map_of_mem ho)
    refine ⟨failure :: results, .cons ?_ ?_, ?_⟩
    · refine (settled_of_gives_convertField hfirst).later hr fun htags => ?_
      refine get?_of_gives_convertAll hothers (fun other ho => ?_) (by simpa using htags)
      simpa using (hne other ho).symm
    · refine ((List.forall₂_and_left rest results).2 ⟨hne, hresults⟩).imp ?_
      rintro other result ⟨hother, h⟩
      refine h.earlier hr₁ fun htags => ?_
      exact get?_of_gives_convertField hfirst (by simpa using hother) (by simpa using htags)
    · cases failure <;> rfl

/-! ## Failures that are seen later -/

theorem gives_convert_iff {types : Table Value Value} :
    (convert types).Gives r failures r' ↔
      ∃ found, (convertAll types.entries).Gives r found r' ∧
        failures = found.map (.seenWith (Record.tagList? r')) := by
  simp only [convert, gives_bind_iff, gives_get_iff, monad_pure_eq, gives_pure_iff]
  constructor
  · rintro ⟨found, _, h, _, _, ⟨rfl, rfl⟩, rfl, rfl⟩
    exact ⟨found, h, rfl⟩
  · rintro ⟨found, h, rfl⟩
    exact ⟨found, r', h, r', r', ⟨rfl, rfl⟩, rfl, rfl⟩

theorem returns_convert_iff_convertAll {types : Table Value Value} :
    (convert types).Returns r ↔ (convertAll types.entries).Returns r := by
  constructor
  · rintro ⟨_, r', h⟩
    obtain ⟨found, h, -⟩ := gives_convert_iff.1 h
    exact h.returns
  · rintro ⟨found, r', h⟩
    exact ⟨_, r', gives_convert_iff.2 ⟨found, h, rfl⟩⟩

/-- Only a failure of the tags is seen otherwise later. -/
theorem seenWith_eq_self {x : Failure} (h : x.field ≠ .text tagsField)
    (seen : Option (List Value)) : x.seenWith seen = x := by
  unfold Failure.seenWith
  split
  · refine if_neg fun htext => h ?_
    generalize x.field = field at htext
    cases field with
    | text t => simpa [Value.text?] using htext
    | _ => cases htext
  · rfl

/-- A list that is left is left for itself, and so is any other list in its place. -/
theorem cause?_list_of_uncoercible {items : List Value}
    (h : cause? datatype v = some (.uncoercible (.list items))) (others : List Value) :
    cause? datatype (.list others) = some (.uncoercible (.list others)) := by
  obtain rfl := cause?_eq_uncoercible h
  cases hname : Datatype.ofName? datatype with
  | none => simp [cause?, hname] at h
  | some target => simp [cause?, hname, coerce_list]

/-- A field is still settled if the tags are seen later. -/
theorem Settled.seenWith {entry : Text × Text} (h : Settled r r' entry failure)
    (seen : Option (List Value)) : Settled r r' entry (failure.map (.seenWith seen)) := by
  cases h with
  | converted hw hput => exact .converted hw hput
  | failed hkept hcause =>
    by_cases htags : entry.1 = tagsField
    · rw [Option.map_some]
      unfold Failure.seenWith
      split
      · next _ _ items later hlist =>
        obtain rfl := hlist
        split
        · exact .failed (absurd htags) (cause?_list_of_uncoercible hcause later)
        · exact .failed hkept hcause
      · exact .failed hkept hcause
    · rw [Option.map_some, seenWith_eq_self (by simpa using htags)]
      exact .failed hkept hcause

/-! ## The fields of a record -/

theorem ofName?_eq_float (h : Datatype.ofName? datatype = some .float) : datatype = "float" := by
  unfold Datatype.ofName? at h
  split at h
  · cases h
  · split at h
    · assumption
    · cases h

theorem ofInt_ne_nan (n : Int) : Binary64.ofInt n ≠ .nan := by
  rw [Binary64.ofInt]
  unfold Binary64.ofRatio
  generalize Binary64.rankOfRatio n.natAbs 1 = rank
  intro h
  dsimp only at h
  split at h
  · cases h
  · cases h

/-- Only an integer is out of range, namely one beyond the range of binary64 that is to be a
number of that format. -/
theorem inRange_iff :
    InRange datatype v ↔
      ∀ n, v = .int n → datatype = "float" → (Binary64.ofInt n).isFinite = true := by
  constructor
  · rintro h n rfl rfl
    have hcoerce : (rounded (Binary64.ofInt n)).map Value.float ≠ .error .beyondRange :=
      h .float (by decide)
    have hnan := ofInt_ne_nan n
    generalize Binary64.ofInt n = x at hcoerce hnan
    cases x with
    | finite negative rank => rfl
    | infinite negative => exact absurd rfl hcoerce
    | nan => exact absurd rfl hnan
  · intro h target htarget hbeyond
    rcases coerce_eq_error hbeyond with hself | ⟨-, rfl, n, negative, rfl, hn⟩
    · cases hself
    · have hfinite := h n rfl (ofName?_eq_float htarget)
      rw [hn] at hfinite
      cases hfinite

/-- An integer in the range of a datatype is converted to it. -/
theorem manageable_int {n : Int} (hrange : InRange datatype (.int n)) :
    Manageable datatype (.int n) := by
  cases hname : Datatype.ofName? datatype with
  | none => exact ⟨hrange, by simp [cause?, hname]⟩
  | some target =>
    cases target with
    | int => exact manageable_of_converted (w := .int n) (by rw [converted?, hname]; rfl)
    | float =>
      have hfinite := inRange_iff.1 hrange n rfl (ofName?_eq_float hname)
      have hround : rounded (Binary64.ofInt n) = .ok (Binary64.ofInt n) := by
        generalize Binary64.ofInt n = x at hfinite
        cases x with
        | finite negative rank => rfl
        | infinite negative => cases hfinite
        | nan => cases hfinite
      refine manageable_of_converted (w := .float (Binary64.ofInt n)) ?_
      rw [converted?, hname, Option.bind_some, coerce, toFloat, hround]
      rfl

/-- What is in range and holds nothing without a notation can be dealt with.  An integer by
itself need not be shown. -/
theorem manageable_of_notated (hrange : InRange datatype v)
    (hnotated : (∀ n, v ≠ .int n) → v.Notated) : Manageable datatype v := by
  by_cases hint : ∃ n, v = .int n
  · obtain ⟨n, rfl⟩ := hint
    exact manageable_int hrange
  · refine ⟨hrange, fun w hw => ?_⟩
    rw [cause?_eq_uncoercible hw]
    exact (hnotated (not_exists.1 hint)).showable

/-- Fields are converted to the end exactly if every field can be dealt with, as it is to begin
with: an integer that is to be a number of binary64 is in its range, and what cannot be
converted can be shown.  Then every field is settled, with one failure or none, whatever became
of the ones before it.  What is in range can be dealt with unless it holds an integer with too
many digits or a member of an enumeration that stands for what JSON has no notation for. -/
theorem returns_convert_iff (types : Table Text Text) (hr : r.HasTags tags) :
    ((convert (Config.valueTable types)).Returns r ↔
        ∀ entry ∈ types.entries, Manageable entry.2 (r.value (.text entry.1))) ∧
      (∀ failures r', (convert (Config.valueTable types)).Gives r failures r' →
        ∃ results, List.Forall₂ (Settled r r') types.entries results ∧
          failures = results.reduceOption) ∧
      ∀ datatype v,
        (InRange datatype v ↔
          ∀ n, v = .int n → datatype = "float".toList → (Binary64.ofInt n).isFinite = true) ∧
        (InRange datatype v → ((∀ n, v ≠ .int n) → v.Notated) → Manageable datatype v) := by
  refine ⟨?_, fun failures r' h => ?_, fun _ _ => ⟨inRange_iff, manageable_of_notated⟩⟩
  · rw [returns_convert_iff_convertAll, entries_valueTable]
    exact returns_convertAll_text_iff (nodup_names types) hr
  · obtain ⟨found, hfound, rfl⟩ := gives_convert_iff.1 h
    rw [entries_valueTable] at hfound
    obtain ⟨results, hresults, rfl⟩ := settled_of_gives_convertAll (nodup_names types) hr hfound
    refine ⟨results.map (Option.map (.seenWith (Record.tagList? r'))), ?_, ?_⟩
    · rw [List.forall₂_map_right_iff]
      exact hresults.imp fun _ _ h => h.seenWith _
    · rw [List.reduceOption_map]

/-- Datatypes for a field, for the tags, and for a field that is not there. -/
def mixedTypes : Table Text Text :=
  .ofList [("n", "float"), ("tags", "int"), ("day", "date"), ("m", "int")]

/-- A field that can be converted and one that cannot, with a tag. -/
def mixedRecord : Record :=
  .ofList [(.text "m", .text "007"), (.text "n", .list [.null, .text "x"]),
    (.text "tags", .list [.text "old"])]

theorem returns_convert_iff_mixed :
    mixedRecord.HasTags (some [.text "old"]) ∧
      (convert (Config.valueTable mixedTypes)).Returns mixedRecord ∧
      ∀ failures r', (convert (Config.valueTable mixedTypes)).Gives mixedRecord failures r' →
        ∃ results, List.Forall₂ (Settled mixedRecord r') mixedTypes.entries results ∧
          failures = results.reduceOption := by
  have htags : mixedRecord.HasTags (some [.text "old"]) := by decide +kernel
  obtain ⟨hreturns, hsettled, hvalue⟩ := returns_convert_iff mixedTypes htags
  have hmanageable := fun datatype v h => (hvalue datatype v).2 ((hvalue datatype v).1.2 h)
  have hn : mixedRecord.value (.text "n") = .list [.null, .text "x"] := by decide +kernel
  have htagList : mixedRecord.value (.text "tags") = .list [.text "old"] := by decide +kernel
  have hday : mixedRecord.value (.text "day") = .null := by decide +kernel
  have hm : mixedRecord.value (.text "m") = .text "007" := by decide +kernel
  refine ⟨htags, hreturns.2 fun entry he => ?_, hsettled⟩
  have hentries : mixedTypes.entries = [(("n" : Text), ("float" : Text)), ("tags", "int"),
      ("day", "date"), ("m", "int")] := by decide
  rw [hentries] at he
  simp only [List.mem_cons, List.not_mem_nil, or_false] at he
  rcases he with rfl | rfl | rfl | rfl
  · rw [hn]
    refine hmanageable _ _ (by simp) fun _ => .list ?_
    simpa using ⟨.null, .text _⟩
  · rw [htagList]
    refine hmanageable _ _ (by simp) fun _ => .list ?_
    simpa using .text _
  · rw [hday]
    exact hmanageable _ _ (by simp) fun _ => .null
  · rw [hm]
    exact hmanageable _ _ (by simp) fun _ => .text _

/-- An integer beyond the range of binary64 stops the conversion midway: the field after it is
not converted, though it could be. -/
theorem not_returns_convert_beyondRange :
    let types : Table Text Text := .ofList [("n", "float"), ("m", "int")]
    let r : Record := .ofList [(.text "n", .int (Nat.pow 10 309)), (.text "m", .text "7")]
    r.HasTags none ∧ ¬ (convert (Config.valueTable types)).Returns r ∧
      ((convert (Config.valueTable types)).run r).record.value (.text "m") = .text "7" := by
  intro types r
  have hstop : ((convert (Config.valueTable types)).run r).result = .error .beyondRange := by
    decide +kernel
  refine ⟨by decide +kernel, ?_, by decide +kernel⟩
  rw [returns_iff_result, hstop]
  rintro ⟨_, ⟨⟩⟩

end Conversion

end Dissection
