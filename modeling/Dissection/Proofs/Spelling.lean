import Dissection.Proofs.Conversion
import Dissection.Proofs.Lasting

/-!
# Where numbers that are not finite come from

A record holds an infinity or NaN after it was processed only if it held it before, or if the
field is converted to a binary64 number and its text spells one.  That text was on the record
from the start or was captured by a rule: an integer beyond the range of binary64 is refused
when it is converted, and fields that are added hold texts.

## Main definitions

* `Filter.Holds` — a text that a field may have held when it was converted.
* `Filter.Spells` — a number that a field is converted to.

## Main statements

* `Conversion.eq_of_toFloat` — what is converted to an infinity or NaN.
* `Filter.spells_of_gives_process` — where one comes from that is left on a record.
-/

namespace Dissection

open Traversal Dissection.Action Dissection.Record

variable {r final : Record} {f : Filter} {s : Filter.Summary} {failureTags v w datatype : Value}
  {name t : Text} {x : Binary64}

/-! ## Conversions -/

namespace Conversion

/-- Only an infinity or NaN itself, or a text that spells it, is converted to it. -/
theorem eq_of_toFloat (h : toFloat v = .ok x) (hx : x.isFinite = false) :
    v = .float x ∨ ∃ t, v = .text t ∧ Binary64.read? t = some x := by
  cases v with
  | int n =>
    cases hn : Binary64.ofInt n with
    | finite =>
      rw [toFloat, hn] at h
      cases h
      cases hx
    | infinite =>
      rw [toFloat, hn] at h
      cases h
    | nan => exact absurd hn (ofInt_ne_nan n)
  | float y =>
    cases h
    exact .inl rfl
  | text t =>
    rw [toFloat] at h
    split at h
    · next hread =>
      cases h
      exact .inr ⟨t, rfl, hread⟩
    · cases h
  | _ => cases h

theorem eq_of_ofValue_float (h : Datatype.ofValue datatype = .ok (some .float)) :
    datatype = .text "float" := by
  unfold Datatype.ofValue at h
  split at h
  · rw [ofName?_eq_float (Except.ok.inj h)]
  · cases h
  · obtain ⟨_, _, hnone⟩ := map_eq_ok_iff.1 h
    cases hnone

theorem toFloat_of_judge (h : judge datatype v = .ok (.inl (.float x))) :
    datatype = .text "float" ∧ toFloat v = .ok x := by
  obtain ⟨target, htarget, hcoerce⟩ := coerce_of_judge h
  cases target with
  | int =>
    obtain ⟨_, _, hint⟩ := map_eq_ok_iff.1 hcoerce
    cases hint
  | float =>
    obtain ⟨y, hy, hfloat⟩ := map_eq_ok_iff.1 hcoerce
    cases hfloat
    exact ⟨eq_of_ofValue_float htarget, hy⟩

/-- No value is converted to a text. -/
theorem judge_ne_text : judge datatype v ≠ .ok (.inl (.text t)) := by
  intro h
  obtain ⟨target, -, hcoerce⟩ := coerce_of_judge h
  cases target <;> obtain ⟨_, _, htext⟩ := map_eq_ok_iff.1 hcoerce <;> cases htext

end Conversion

/-! ## Fields -/

namespace Record

/-- What holds of every field lasts if it holds of what is written, and of tags. -/
theorem lasting_fields {writes : Record → Value → Value → Prop} {P : Text → Value → Prop}
    (hput : ∀ r name v, writes r (.text name) v →
      (∀ name v, r.get? (.text name) = some v → P name v) → P name v)
    (htags : ∀ tags, P tagsField (.list tags)) :
    Lasting failureTags writes fun r => ∀ name v, r.get? (.text name) = some v → P name v where
  put {r key v} hwrites hr name w hw := by
    rw [Table.get?_put_text] at hw
    split at hw
    · next hkey =>
      subst hkey
      cases hw
      exact hput r name v hwrites hr
    · exact hr name w hw
  appendTag {r r' tag} _ hr happend name w hw := by
    obtain ⟨tags, hfound⟩ := exists_appendTag_iff.1 ⟨r', happend⟩
    by_cases hname : name = tagsField
    · subst hname
      rw [hfound.of_appendTag happend] at hw
      cases hw
      exact htags _
    · exact hr name w (get?_of_appendTag happend hname ▸ hw)

end Record

namespace Filter

/-- A text that a field may have held when it was converted: it did so from the start, or a rule
captured it. -/
def Holds (r : Record) (s : Summary) (name t : Text) : Prop :=
  r.get? (.text name) = some (.text t) ∨
    ∃ outcome ∈ s.outcomes.entries, (name, t) ∈ outcome.2.values.entries

/-- A field is converted to a binary64 number, and a text that it may have held spells it. -/
structure Spells (f : Filter) (r : Record) (s : Summary) (name : Text) (x : Binary64) : Prop where
  converted : (.text name, .text "float") ∈ f.conversions.entries
  spelled : ∃ t, Holds r s name t ∧ Binary64.read? t = some x

/-- Where the value of a field may come from. -/
structure Sourced (f : Filter) (r : Record) (s : Summary) (name : Text) (v : Value) : Prop where
  text : ∀ t, v = .text t → Holds r s name t
  number : ∀ x, v = .float x → x.isFinite = false →
    r.get? (.text name) = some (.float x) ∨ f.Spells r s name x

theorem sourced_of_get? (h : r.get? (.text name) = some v) : f.Sourced r s name v where
  text _ hv := .inl (hv ▸ h)
  number _ hv _ := .inl (hv ▸ h)

/-- What a field is converted to comes from what it held. -/
theorem Sourced.judge {r₁ : Record} (hr : ∀ name v, r₁.get? (.text name) = some v →
      f.Sourced r s name v) (hmem : (.text name, datatype) ∈ f.conversions.entries)
    (h : Conversion.judge datatype (r₁.value (.text name)) = .ok (.inl v)) :
    f.Sourced r s name v where
  text t hv := by
    subst hv
    exact absurd h Conversion.judge_ne_text
  number x hv hx := by
    subst hv
    obtain ⟨rfl, hfloat⟩ := Conversion.toFloat_of_judge h
    have hget : ∀ {w}, w ≠ .null → r₁.value (.text name) = w → r₁.get? (.text name) = some w := by
      intro w hw hvalue
      rw [Record.value] at hvalue
      cases hfound : r₁.get? (.text name) with
      | none =>
        rw [hfound] at hvalue
        exact absurd hvalue.symm hw
      | some found =>
        rw [hfound] at hvalue
        exact congrArg some hvalue
    rcases Conversion.eq_of_toFloat hfloat hx with hvalue | ⟨t, hvalue, hread⟩
    · exact (hr name _ (hget (by simp) hvalue)).number x rfl hx
    · exact .inr ⟨hmem, t, (hr name _ (hget (by simp) hvalue)).text t rfl, hread⟩

/-- An infinity or NaN that is on a record after it was processed was there before, or the field
is converted and a text that it held spells it. -/
theorem spells_of_gives_process (h : f.process.Gives r s final)
    (hfinal : final.get? (.text name) = some (.float x)) (hx : x.isFinite = false) :
    r.get? (.text name) = some (.float x) ∨ f.Spells r s name x := by
  obtain ⟨failures, converted, hconverts, hfinish⟩ := entries_outcomes_of_gives_process h
  obtain ⟨r₁, hrules, hconvert⟩ := id hconverts
  -- up to the conversion every value of a field has a source
  have hsourced : Lasting f.settings.failureTags
      (fun r' key v => (∃ name t, key = .text name ∧ v = .text t ∧ Holds r s name t) ∨
        ∃ datatype, (key, datatype) ∈ f.conversions.entries ∧
          Conversion.judge datatype (r'.value key) = .ok (.inl v))
      fun r' => ∀ name v, r'.get? (.text name) = some v → f.Sourced r s name v := by
    refine lasting_fields ?_ fun tags => ⟨nofun, nofun⟩
    rintro r' name v (⟨_, t, ⟨rfl⟩, rfl, hheld⟩ | ⟨datatype, hmem, hjudge⟩) hr'
    · exact ⟨fun _ heq => Value.text.inj heq ▸ hheld, nofun⟩
    · exact .judge hr' hmem hjudge
  have hstart : ∀ name v, r.get? (.text name) = some v → f.Sourced r s name v :=
    fun _ _ => sourced_of_get?
  have hruled := hsourced.applyRules hstart hrules fun outcome ho entry he _ =>
    .inl ⟨entry.1, entry.2, rfl, rfl, .inr ⟨outcome, ho, he⟩⟩
  have hconverted := hsourced.convertAll hruled hconvert fun entry he _ _ hjudge =>
    .inr ⟨entry.2, he, hjudge⟩
  -- from then on only texts are written
  have hnumbers : Lasting f.settings.failureTags (fun _ _ v => ∃ t, v = .text t)
      fun r' => ∀ name v, r'.get? (.text name) = some v → ∀ x, v = .float x →
        x.isFinite = false → r.get? (.text name) = some (.float x) ∨ f.Spells r s name x :=
    lasting_fields (fun _ _ _ ⟨_, hv⟩ _ _ hx => nomatch hv ▸ hx) fun _ => nofun
  exact hnumbers.finish (fun name v hv => (hconverted name v hv).number) hconverts hfinish
    (fun _ _ _ t => ⟨t, rfl⟩) name _ hfinal x rfl hx

end Filter

end Dissection
