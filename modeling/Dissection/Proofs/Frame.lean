import Dissection.Proofs.Lasting

/-!
# What processing leaves as it was

Processing a record writes three kinds of fields: those that the rules capture, those that are
converted, and those that are added; besides, it appends tags.  Their names are made on the way,
from the line and from the record as it is at that moment.  Three properties of records last
while no other names are written: where the fields stand, what another field holds, and what
the last rule to capture a field has left in it.

## Main definitions

* `Value.Apart` — names that no name is equal to both of.
* `Filter.Spares` — a field that no stage of a run writes.

## Main statements

* `Record.lasting_keys`, `Record.lasting_get?`, `Record.lasting_text` — what is left alone.
* `Filter.get?_captured_of_gives_process` — what the last rule to capture a field leaves.
* `Filter.frame_of_gives_process` — what processing a record leaves as it was.
-/

namespace Dissection

open Dissection.Action Dissection.Record

variable {r r' final : Record} {f : Filter} {s : Filter.Summary} {failureTags source : Value}
  {pattern : Pattern} {o : Outcome} {rules : List (Value × Pattern)} {name text : Text}

/-! ## Names -/

namespace Value

/-- No name is equal to both of two.  If one of them is a text, they only have to differ. -/
structure Apart (key other : Value) : Prop where
  differ : (key == other) = false
  common : ∀ name, (name == key) = true → (name == other) = false

theorem Apart.text_right {key : Value} (h : key ≠ .text name) :
    Apart key (.text name) where
  differ := by rw [beq_text, decide_eq_false h]
  common other hother := by
    rw [beq_text, decide_eq_false_iff_not]
    rintro rfl
    exact h (text_beq_iff.1 hother)

theorem Apart.text_left {key : Value} (h : key ≠ .text name) :
    Apart (.text name) key where
  differ := by rw [text_beq, decide_eq_false h]
  common other hother := by
    obtain rfl := beq_text_iff.1 hother
    rw [text_beq, decide_eq_false h]

end Value

namespace Table

variable {α κ : Type}

/-- Writing under another name leaves what is found under a name. -/
theorem get?_put_of_apart {t : Table Value α} {key other : Value} (h : key.Apart other)
    (value : α) : (t.put key value).get? other = t.get? other := by
  simp only [get?, put]
  induction t.entries with
  | nil => simp [putEntry, h.differ]
  | cons entry rest ih =>
    cases hkey : entry.1 == key with
    | true => simp [putEntry, hkey, h.common entry.1 hkey]
    | false =>
      cases hother : entry.1 == other with
      | true => simp [putEntry, hkey, hother]
      | false => simpa [putEntry, hkey, hother] using ih

/-- Keys stay where they are when something is written. -/
theorem keys_prefix_put [BEq κ] (t : Table κ α) (key : κ) (value : α) :
    t.keys <+: (t.put key value).keys := by
  have hkeys : (t.put key value).keys = _ := keys_putEntry key value t.entries
  rw [hkeys]
  split
  · exact List.prefix_rfl
  · exact List.prefix_append _ _

end Table

/-! ## Properties that last -/

namespace Record

/-- Fields stay where they are, and new ones come behind them. -/
theorem lasting_keys (failureTags : Value) (r : Record) :
    Lasting failureTags (fun _ _ _ => True) fun r' => r.keys <+: r'.keys where
  put _ hr := hr.trans (Table.keys_prefix_put _ _ _)
  appendTag _ hr happend := by
    obtain ⟨tags, htags⟩ := exists_appendTag_iff.1 ⟨_, happend⟩
    rw [htags.appendTag] at happend
    obtain rfl := Except.ok.inj happend
    exact hr.trans (Table.keys_prefix_put _ _ _)

/-- A field holds what it held, if it is not the one that holds the tags. -/
theorem lasting_get? (failureTags : Value) {key : Value} (hkey : key ≠ .text tagsField)
    (r : Record) : Lasting failureTags (fun _ name _ => name.Apart key)
      fun r' => r'.get? key = r.get? key where
  put hname hr := (Table.get?_put_of_apart hname _).trans hr
  appendTag _ hr happend := (get?_of_appendTag_of_ne happend hkey).trans hr

/-- A field holds the text that was written to it.  If it is the one that holds the tags, no tag
is appended any more. -/
theorem lasting_text (failureTags : Value) (name text : Text) :
    Lasting failureTags (fun _ other _ => other ≠ .text name) fun r =>
      r.get? (.text name) = some (.text text) where
  put hname hr := (Table.get?_put_of_apart (.text_right hname) _).trans hr
  appendTag {r r' tag} _ hr happend := by
    obtain ⟨tags, htags⟩ := exists_appendTag_iff.1 ⟨r', happend⟩
    by_cases hname : name = tagsField
    · subst hname
      rw [HasTags, hr] at htags
      cases tags <;> cases htags
    · rw [get?_of_appendTag happend hname, hr]

end Record

/-! ## What the last rule leaves -/

/-- Of fields that are written one after another each holds the text that was written last. -/
theorem Action.get?_of_gives_setAll {entries : List (Text × Text)}
    (hdistinct : (entries.map Prod.fst).Nodup) (hmem : (name, text) ∈ entries)
    (h : (setAll entries).Gives r () r') : r'.get? (.text name) = some (.text text) := by
  induction entries generalizing r with
  | nil => cases hmem
  | cons entry rest ih =>
    obtain ⟨hnew, hrest⟩ := List.nodup_cons.1 hdistinct
    have hset := gives_setAll_cons_iff.1 h
    rcases List.mem_cons.1 hmem with rfl | hmem
    · refine (lasting_text .null name text).setAll ?_ hset fun other hother => ?_
      · rw [Table.get?_put_text, if_pos rfl]
      · intro _ heq
        rw [Value.text.injEq] at heq
        exact hnew (List.mem_map.2 ⟨other, hother, heq⟩)
    · exact ih hrest hmem hset

namespace Filter

/-- A rule leaves a text in every field that it captures. -/
theorem get?_of_gives_applyRule (h : (applyRule failureTags source pattern).Gives r o r')
    (hvalue : o.values.get? name = some text) : r'.get? (.text name) = some (.text text) := by
  obtain ⟨-, merged, tags, hset, htags, happend⟩ := gives_applyRule_iff.1 h
  have hdistinct : (o.values.entries.map Prod.fst).Nodup := o.values.distinct.imp fun h => by
    simpa using h
  have hmem : (name, text) ∈ o.values.entries := by
    obtain ⟨⟨key, _⟩, hfind, rfl⟩ := Option.map_eq_some_iff.1 hvalue
    obtain rfl : key = name := by simpa using List.find?_some hfind
    exact List.mem_of_find?_eq_some hfind
  refine (lasting_text failureTags name text).appendTags
    (get?_of_gives_setAll hdistinct hmem hset) happend fun tag ht => ?_
  exact Outcome.isTag_of_mem_tags htags ht

/-- The last rule that captures a field leaves a text in it. -/
theorem get?_of_gives_applyRules {before later : List (Value × Outcome)}
    (h : (applyRules failureTags rules).Gives r (before ++ (source, o) :: later) r')
    (hvalue : o.values.get? name = some text)
    (hlast : ∀ entry ∈ later, name ∉ entry.2.values.keys) :
    r'.get? (.text name) = some (.text text) := by
  induction before generalizing r rules with
  | nil =>
    cases rules with
    | nil =>
      obtain ⟨hnone, -⟩ := gives_applyRules_nil_iff.1 h
      cases hnone
    | cons rule rest =>
      obtain ⟨_, r₁, _, hrule, hothers, ⟨⟩⟩ := gives_applyRules_cons_iff.1 h
      refine (lasting_text failureTags name text).applyRules
        (get?_of_gives_applyRule hrule hvalue) hothers ?_
      intro entry he other hother _ heq
      rw [Value.text.injEq] at heq
      exact hlast entry he (List.mem_map.2 ⟨other, hother, heq⟩)
  | cons first before ih =>
    cases rules with
    | nil =>
      obtain ⟨hnone, -⟩ := gives_applyRules_nil_iff.1 h
      cases hnone
    | cons rule rest =>
      obtain ⟨_, r₁, _, -, hothers, ⟨⟩⟩ := gives_applyRules_cons_iff.1 h
      exact ih hothers

/-! ## A whole run -/

/-- No stage of a run writes a field under this name: no rule has captured it, it is not to be
converted, it is not added, and it does not hold the tags. -/
structure Spares (f : Filter) (r : Record) (s : Summary) (key : Value) : Prop where
  uncaptured : ∀ entry ∈ s.outcomes.entries, ∀ name ∈ entry.2.values.keys, key ≠ .text name
  unconverted : ∀ field ∈ f.conversions.keys, field.Apart key
  unadded : ∀ name, f.Adds r name → key ≠ .text name
  untagged : key ≠ .text tagsField

/-- A captured field that is neither converted nor added holds what the last rule to capture it
has captured. -/
theorem get?_captured_of_gives_process (h : f.process.Gives r s final)
    {before later : List (Value × Outcome)}
    (houtcomes : s.outcomes.entries = before ++ (source, o) :: later)
    (hvalue : o.values.get? name = some text)
    (hlast : ∀ entry ∈ later, name ∉ entry.2.values.keys)
    (hconverted : .text name ∉ f.conversions.keys) (hadded : ¬ f.Adds r name) :
    final.get? (.text name) = some (.text text) := by
  obtain ⟨failures, converted, hconverts, hfinish⟩ := entries_outcomes_of_gives_process h
  obtain ⟨r₁, hrules, hconvert⟩ := id hconverts
  have h₁ : r₁.get? (.text name) = some (.text text) := by
    rw [houtcomes] at hrules
    exact get?_of_gives_applyRules hrules hvalue hlast
  have hlasting := lasting_text f.settings.failureTags name text
  have h₂ := hlasting.convertAll h₁ hconvert fun entry he _ _ _ heq =>
    hconverted (List.mem_map.2 ⟨entry, he, heq⟩)
  refine hlasting.finish h₂ hconverts hfinish fun other hother _ _ heq => hadded ?_
  rw [Value.text.injEq] at heq
  exact heq ▸ hother

/-- A filter with other fields to add. -/
def adding (f : Filter) (fields : Value) : Filter :=
  { f with settings := { f.settings with addedFields := fields } }

/-- Without success it does not matter which fields are to be added. -/
theorem run_process_adding (h : f.process.Gives r s final) (hsuccess : s.success = false)
    (fields : Value) : (f.adding fields).process.run r = f.process.run r := by
  obtain ⟨failures, converted, ⟨r₁, hrules, hconvert⟩, -⟩ := entries_outcomes_of_gives_process h
  have hbefore : (Action.log [Filter.before]).Gives r () r := gives_log_iff.2 rfl
  rw [process, process]
  refine run_bind_congr hbefore (run_bind_congr hrules (run_bind_congr hconvert ?_))
  rw [Summary.success] at hsuccess
  simp only [finish, hsuccess, Bool.false_eq_true, if_false]

/-- Processing a record keeps the fields that are there where they are, and new ones come behind
them.  A field that no stage writes holds what it held, or is absent as it was.  A captured
field that is neither converted nor added holds what the last rule to capture it has captured.
And unless every rule matched, it does not matter which fields are to be added. -/
theorem frame_of_gives_process (h : f.process.Gives r s final) :
    r.keys <+: final.keys ∧
    (∀ key, f.Spares r s key → final.get? key = r.get? key) ∧
    s.outcomes.keys = f.rules.keys ∧
    (∀ before source o later name text,
      s.outcomes.entries = before ++ (source, o) :: later → o.values.get? name = some text →
        (∀ entry ∈ later, name ∉ entry.2.values.keys) → .text name ∉ f.conversions.keys →
          ¬ f.Adds r name → final.get? (.text name) = some (.text text)) ∧
    (s.success = false →
      ∀ fields, (f.adding fields).process.run r = f.process.run r) := by
  refine ⟨?_, fun key hkey => ?_, ?_, ?_, fun hsuccess => run_process_adding h hsuccess⟩
  · exact (lasting_keys _ r).process List.prefix_rfl h (fun _ _ _ _ _ => trivial)
      (fun _ _ _ _ _ => trivial) fun _ _ _ _ => trivial
  · refine (lasting_get? _ hkey.untagged r).process rfl h ?_ ?_ ?_
    · intro outcome ho entry he _
      exact .text_left (hkey.uncaptured outcome ho entry.1 (List.mem_map_of_mem he))
    · exact fun entry he _ _ _ => hkey.unconverted entry.1 (List.mem_map_of_mem he)
    · exact fun name hname _ _ => .text_left (hkey.unadded name hname)
  · obtain ⟨failures, converted, hconverts, -⟩ := entries_outcomes_of_gives_process h
    exact keys_of_converts hconverts
  · exact fun before source o later name text => get?_captured_of_gives_process h

/-- A filter with a rule for each of two fields, which both capture a third one, and with a field
to add. -/
def sharedCapture : Filter where
  settings := Config.settings
    { failureTags := ["failed"], addedFields := Table.ofList [("host", "%\x7ba\x7d")] }
  conversions := Table.ofList [(.text "b", .text "int")]
  rules := Table.ofList [
    (.text "first",
      { leading := [], tokens := [⟨⟨"a", .normal, "a"⟩, " "⟩, ⟨⟨"b", .normal, "b"⟩, []⟩] }),
    (.text "second",
      { leading := [], tokens := [⟨⟨"a", .normal, "a"⟩, ";"⟩, ⟨⟨"c", .normal, "c"⟩, "!"⟩] })]
  registered := true

/-- The second rule does not fit and still leaves its first capture. -/
theorem frame_of_gives_process_sharedCapture :
    let r : Record := Table.ofList [(.int 7, .null), (.text "a", .text "old"),
      (.text "first", .text "x 1"), (.text "second", .text "y;z")]
    let s : Summary :=
      { outcomes := Table.ofList [
          (.text "first", .matched (Table.ofList [("a", "x"), ("b", "1")]) []),
          (.text "second", .patternNotFound (Table.ofList [("a", "y")]) (some 1) "!")]
        failures := [] }
    let final : Record := Table.ofList [(.int 7, .null), (.text "a", .text "y"),
      (.text "first", .text "x 1"), (.text "second", .text "y;z"), (.text "b", .int 1),
      (.text tagsField, .list [.text "failed"])]
    sharedCapture.process.Gives r s final ∧ r.keys <+: final.keys ∧
      sharedCapture.Spares r s (.int 7) ∧ final.get? (.int 7) = r.get? (.int 7) ∧
      final.get? (.text "a") = some (.text "y") ∧
      ∀ fields, (sharedCapture.adding fields).process.run r = sharedCapture.process.run r := by
  intro r s final
  have h : sharedCapture.process.Gives r s final := by decide +kernel
  obtain ⟨hkeys, hspared, -, hcaptured, hfields⟩ := frame_of_gives_process h
  have hadded : ∀ name, ¬ sharedCapture.Adds r name := by
    rintro name ⟨outcomes, failures, converted, _, _, _, hconverts, hsuccess, -⟩
    obtain ⟨_, _, hconverts', -⟩ := entries_outcomes_of_gives_process h
    obtain ⟨rfl, -⟩ := hconverts.unique hconverts'
    exact absurd hsuccess (by decide +kernel)
  have hconversions : sharedCapture.conversions.keys = [.text "b"] := by decide +kernel
  have hspares : sharedCapture.Spares r s (.int 7) := by
    refine ⟨by simp, fun field hfield => ?_, fun name hname => absurd hname (hadded name), by simp⟩
    rw [hconversions, List.mem_singleton] at hfield
    subst hfield
    exact .text_left (by simp)
  refine ⟨h, hkeys, hspares, hspared _ hspares, ?_, hfields (by decide +kernel)⟩
  refine hcaptured [(.text "first", .matched (Table.ofList [("a", "x"), ("b", "1")]) [])]
    (.text "second") (.patternNotFound (Table.ofList [("a", "y")]) (some 1) "!") [] "a" "y"
    ?_ ?_ ?_ ?_ (hadded _)
  · decide +kernel
  · decide +kernel
  · simp
  · simp [hconversions]

end Filter

end Dissection
