import Dissection.Proofs.Processing

/-!
# The tags of a processed record

The tags of a record tell what became of it.  Three producers append to them while a
record is processed: the rules that it does not fit, the fields that cannot be converted,
and, where every rule matched, the additions.  As long as no field that is written is the
one that holds the tags, each of them adds to the end of what is there, and nothing is
lost, reordered or left out on the way.

An added tag is a template and is filled in from the record as it is at that moment: the
fields are final by then, and the tags are those that come before it.

## Main definitions

* `Filter.Filled` — the tags that templates yield one after another.
* `Filter.Ledger` — the tags that processing a record brings, by where they come from.

## Main statements

* `Filter.hasTags_of_gives_applyRules`, `Conversion.hasTags_of_gives_convertAll`,
  `Filter.filled_of_gives_addTags` — the tags after each stage.
* `Filter.exists_ledger_of_gives_process` — the tags of a processed record.
-/

namespace Dissection

open Dissection.Action Dissection.Record

variable {r r' r'' final : Record} {tags : Option (List Value)}

/-! ## Writing fields and tags -/

namespace Action

/-- Other fields do not change the tags. -/
theorem hasTags_of_gives_setAll {entries : List (Text × Text)} (hr : r.HasTags tags)
    (h : (setAll entries).Gives r () r') (hnames : tagsField ∉ entries.map Prod.fst) :
    r'.HasTags tags := by
  refine keeps_of_gives_setAll (HasTags · tags) hr h fun entry he r hr => hr.put ?_ _
  simp only [ne_eq, Value.text.injEq]
  intro hname
  exact hnames (hname ▸ List.mem_map_of_mem he)

/-- Tags go to the end of the tags, in order. -/
theorem hasTags_of_gives_appendTags {added : List Value} (hr : r.HasTags tags)
    (h : (appendTags added).Gives r () r') : r'.HasTags (moreTags tags added) := by
  induction added generalizing r tags with
  | nil =>
    obtain rfl := gives_appendTags_nil_iff.1 h
    exact hr
  | cons tag rest ih =>
    obtain ⟨r₁, happend, hrest⟩ := gives_appendTags_cons_iff.1 h
    have h₁ := ih (hr.of_appendTag happend) hrest
    rwa [moreTags_append] at h₁

end Action

/-! ## Rules and conversions -/

/-- A rule adds the tags of its outcome. -/
theorem Filter.hasTags_of_gives_applyRule {failureTags source : Value} {pattern : Pattern}
    {o : Outcome} (hr : r.HasTags tags)
    (h : (Filter.applyRule failureTags source pattern).Gives r o r')
    (hcaptured : tagsField ∉ o.values.keys) :
    ∃ added, o.tags failureTags = .ok added ∧ r'.HasTags (moreTags tags added) := by
  obtain ⟨-, merged, added, hset, hadded, happend⟩ := Filter.gives_applyRule_iff.1 h
  have hmerged := hasTags_of_gives_setAll hr hset hcaptured
  exact ⟨added, hadded, hasTags_of_gives_appendTags hmerged happend⟩

/-- Rules add the tags of their outcomes, one rule after another. -/
theorem Filter.hasTags_of_gives_applyRules {failureTags : Value}
    {rules : List (Value × Pattern)} {outcomes : List (Value × Outcome)} (hr : r.HasTags tags)
    (h : (Filter.applyRules failureTags rules).Gives r outcomes r')
    (hcaptured : ∀ entry ∈ outcomes, tagsField ∉ entry.2.values.keys) :
    ∃ failed, outcomes.mapM (·.2.tags failureTags) = .ok failed ∧
      r'.HasTags (moreTags tags failed.flatten) := by
  induction rules generalizing r tags outcomes with
  | nil =>
    obtain ⟨rfl, rfl⟩ := Filter.gives_applyRules_nil_iff.1 h
    exact ⟨[], rfl, hr⟩
  | cons rule rest ih =>
    obtain ⟨o, r₁, others, hrule, hrest, rfl⟩ := Filter.gives_applyRules_cons_iff.1 h
    obtain ⟨hfirst, hothers⟩ := List.forall_mem_cons.1 hcaptured
    obtain ⟨added, hadded, h₁⟩ := Filter.hasTags_of_gives_applyRule hr hrule hfirst
    obtain ⟨failed, hfailed, h₂⟩ := ih h₁ hrest hothers
    refine ⟨added :: failed, ?_, ?_⟩
    · rw [List.mapM_cons, hadded, hfailed]
      rfl
    · rwa [moreTags_append] at h₂

namespace Conversion

/-- A list is not converted to anything. -/
theorem coerce_list (target : Datatype) (items : List Value) :
    coerce target (.list items) = .error (.uncoercible (.list items)) := by
  cases target <;> rfl

/-- Tags are never converted: they are a list or absent. -/
theorem judge_ne_inl_of_hasTags (hr : r.HasTags tags) (datatype v : Value) :
    judge datatype (Record.value r (.text tagsField)) ≠ .ok (.inl v) := by
  have htags : Record.value r (.text tagsField) = (tags.map .list).getD .null :=
    congrArg (·.getD .null) hr
  rw [htags]
  unfold judge
  cases tags <;> rcases Datatype.ofValue datatype with _ | _ | target <;> simp [coerce_list]

/-- Converting a field adds the tag of its failure. -/
theorem hasTags_of_gives_convertField {field datatype : Value} {failure : Option Failure}
    (hr : r.HasTags tags) (h : (convertField field datatype).Gives r failure r') :
    (∀ x ∈ failure, x.field = field ∧ x.datatype = datatype) ∧
      r'.HasTags (moreTags tags (failure.toList.map (.text ·.tag))) := by
  rcases gives_convertField_iff.1 h with ⟨v, hv, rfl, rfl⟩ | ⟨cause, _, _, rfl, _, _, happend⟩
  · have hfield : field ≠ .text tagsField := by
      rintro rfl
      exact judge_ne_inl_of_hasTags hr datatype v hv
    exact ⟨by simp, hr.put hfield v⟩
  · refine ⟨?_, hr.of_appendTag happend⟩
    rintro x ⟨⟩
    exact ⟨rfl, rfl⟩

/-- Conversions add the tags of their failures, in the order of the fields. -/
theorem hasTags_of_gives_convertAll {entries : List (Value × Value)} {failures : List Failure}
    (hr : r.HasTags tags) (h : (convertAll entries).Gives r failures r') :
    (failures.map fun x => (x.field, x.datatype)).Sublist entries ∧
      r'.HasTags (moreTags tags (failures.map (.text ·.tag))) := by
  induction entries generalizing r tags failures with
  | nil =>
    obtain ⟨rfl, rfl⟩ := gives_convertAll_nil_iff.1 h
    exact ⟨List.Sublist.refl _, hr⟩
  | cons entry rest ih =>
    obtain ⟨failure, r₁, others, hfirst, hrest, rfl⟩ := gives_convertAll_cons_iff.1 h
    obtain ⟨hfailure, h₁⟩ := hasTags_of_gives_convertField hr hfirst
    obtain ⟨hothers, h₂⟩ := ih h₁ hrest
    rw [moreTags_append, ← List.map_append] at h₂
    refine ⟨?_, h₂⟩
    cases failure with
    | none => exact hothers.cons entry
    | some x =>
      obtain ⟨hfield, hdatatype⟩ := hfailure x rfl
      have hentry : (x.field, x.datatype) = entry := Prod.ext hfield hdatatype
      simpa [hentry] using hothers.cons_cons entry

/-- Seen later, a failure is of the same field and datatype and has the same tag. -/
theorem seenWith_same (seen : Option (List Value)) (x : Failure) :
    ((x.seenWith seen).field, (x.seenWith seen).datatype) = (x.field, x.datatype) ∧
      (x.seenWith seen).tag = x.tag := by
  obtain ⟨field, datatype, cause⟩ := x
  unfold Failure.seenWith
  split
  · split
    · next hcause _ =>
      obtain rfl : cause = _ := hcause
      exact ⟨rfl, rfl⟩
    · exact ⟨rfl, rfl⟩
  · exact ⟨rfl, rfl⟩

theorem map_tag_seenWith (seen : Option (List Value)) (failures : List Failure) :
    (failures.map (Failure.seenWith seen)).map (fun x => Value.text x.tag) =
      failures.map (fun x => Value.text x.tag) := by
  simp only [List.map_map, Function.comp_def, seenWith_same]

theorem map_field_seenWith (seen : Option (List Value)) (failures : List Failure) :
    (failures.map (Failure.seenWith seen)).map (fun x => (x.field, x.datatype)) =
      failures.map (fun x => (x.field, x.datatype)) := by
  simp only [List.map_map, Function.comp_def, seenWith_same]

end Conversion

/-! ## Additions -/

namespace Filter

/-- Added fields do not change the tags, if none of them is the one that holds the tags. -/
theorem hasTags_of_gives_addFields {entries : List (Value × Value)} (hr : r.HasTags tags)
    (h : (addFields entries).Gives r () r')
    (hadded : ∀ entry r₁, Reaches addField entries r entry r₁ →
      yield r₁ entry.1 ≠ .ok tagsField) : r'.HasTags tags := by
  induction entries generalizing r with
  | nil =>
    obtain rfl := gives_addFields_nil_iff.1 h
    exact hr
  | cons entry rest ih =>
    obtain ⟨r₁, hfirst, hrest⟩ := gives_addFields_cons_iff.1 h
    obtain ⟨name, text, hname, -, rfl⟩ := gives_addField_iff.1 hfirst
    have hne : name ≠ tagsField := by
      rintro rfl
      exact hadded entry r .here hname
    refine ih (hr.put (by simpa using hne) _) hrest fun other r₂ hreach => ?_
    exact hadded other r₂ (.later hfirst hreach)

/-- The tags that templates yield one after another for a record that had other tags to
begin with: each is filled in from the record with the tags that come before it. -/
inductive Filled (r : Record) : Option (List Value) → List Value → List Value → Prop
  | nil {tags : Option (List Value)} : Filled r tags [] []
  | cons {tags : Option (List Value)} {template : Value} {tag : Text}
      {templates others : List Value} :
      yield (r.withTags tags) template = .ok tag →
      Filled r (moreTags tags [.text tag]) templates others →
      Filled r tags (template :: templates) (.text tag :: others)

/-- Added tags are filled in one after another, and other fields stay as they are. -/
theorem filled_of_gives_addTags {templates : List Value} (hr : r.HasTags tags)
    (h : (addTags templates).Gives r () final) :
    (∀ name, name ≠ tagsField → final.get? (.text name) = r.get? (.text name)) ∧
    ∃ added, Filled final tags templates added ∧ final.HasTags (moreTags tags added) := by
  induction templates generalizing r tags with
  | nil =>
    obtain rfl := gives_addTags_nil_iff.1 h
    exact ⟨fun _ _ => rfl, [], .nil, hr⟩
  | cons template rest ih =>
    obtain ⟨r₁, hfirst, hrest⟩ := gives_addTags_cons_iff.1 h
    obtain ⟨tag, hyield, happend⟩ := gives_addTag_iff.1 hfirst
    obtain ⟨hframe, added, hfilled, htags⟩ := ih (hr.of_appendTag happend) hrest
    rw [moreTags_append] at htags
    -- the tag is filled in before it is appended, and later tags change no other field
    have hsame : ∀ name, name ≠ tagsField → final.get? (.text name) = r.get? (.text name) := by
      intro name hname
      rw [hframe name hname, get?_of_appendTag happend hname]
    have hmoment : yield (final.withTags tags) template = .ok tag := by
      rw [← hyield]
      refine yield_congr (fun name => ?_) template
      rw [get?_withTags]
      split
      · next heq =>
        rw [heq]
        exact hr.symm
      · next hne => exact hsame name hne
    exact ⟨hsame, .text tag :: added, .cons hmoment hfilled, htags⟩

/-! ## The tags of a processed record -/

/-- The tags that processing a record brings: those of the rules that it does not fit, those
of the fields that were not converted, and those that are added where every rule matched. -/
structure Ledger (f : Filter) (s : Summary) (final : Record) (tags : Option (List Value))
    (failed : List (List Value)) (unconverted added : List Value) : Prop where
  ofRules : s.outcomes.entries.mapM (·.2.tags f.settings.failureTags) = .ok failed
  ofConversions : unconverted = s.failures.map (.text ·.tag)
  ofAdditions : if s.success then ∃ templates, f.settings.addedTags.items = .ok templates ∧
      Filled final (moreTags tags (failed.flatten ++ unconverted)) templates added
    else added = []

/-- When its rules are applied and its fields are converted, a record has the tags of both
stages. -/
theorem hasTags_of_converts {f : Filter} {outcomes : List (Value × Outcome)}
    {failures : List Conversion.Failure} (hr : r.HasTags tags)
    (h : f.Converts r outcomes failures r')
    (hcaptured : ∀ entry ∈ outcomes, tagsField ∉ entry.2.values.keys) :
    (failures.map fun x => (x.field, x.datatype)).Sublist f.conversions.entries ∧
    ∃ failed, outcomes.mapM (·.2.tags f.settings.failureTags) = .ok failed ∧
      r'.HasTags (moreTags tags (failed.flatten ++ failures.map (.text ·.tag))) := by
  obtain ⟨r₁, hrules, hconvert⟩ := h
  obtain ⟨failed, hfailed, h₁⟩ := hasTags_of_gives_applyRules hr hrules hcaptured
  obtain ⟨hfields, h₂⟩ := Conversion.hasTags_of_gives_convertAll h₁ hconvert
  rw [moreTags_append] at h₂
  exact ⟨hfields, failed, hfailed, h₂⟩

/-- Decorating a record adds the tags that are filled in, if no field that it adds is the one
that holds the tags. -/
theorem filled_of_gives_decorate {settings : Settings} (hr : r.HasTags tags)
    (h : (decorate settings).Gives r () final)
    (hadded : ∀ entries entry r₁, settings.addedFields.entries = .ok entries →
      Reaches addField entries r entry r₁ → yield r₁ entry.1 ≠ .ok tagsField) :
    ∃ templates added, settings.addedTags.items = .ok templates ∧
      Filled final tags templates added ∧ final.HasTags (moreTags tags added) := by
  obtain ⟨entries, r₁, templates, hentries, hfields, htemplates, htags⟩ := gives_decorate_iff.1 h
  have h₁ := hasTags_of_gives_addFields hr hfields (hadded entries · · hentries)
  obtain ⟨-, added, hfilled, hfinal⟩ := filled_of_gives_addTags h₁ htags
  exact ⟨templates, added, htemplates, hfilled, hfinal⟩

/-- A processed record has the tags that it had before and behind them the failure tags of
every rule that it does not fit, the tag of every field that was not converted, and every
added tag if there are rules and all of them matched, as long as no captured and no added
field is the one that holds the tags. -/
theorem exists_ledger_of_gives_process {f : Filter} {s : Summary} (hr : r.HasTags tags)
    (h : f.process.Gives r s final)
    (hcaptured : ∀ entry ∈ s.outcomes.entries, tagsField ∉ entry.2.values.keys)
    (hadded : ¬ f.Adds r tagsField) :
    s.outcomes.keys = f.rules.keys ∧
    (s.failures.map fun x => (x.field, x.datatype)).Sublist f.conversions.entries ∧
    ∃ failed unconverted added, f.Ledger s final tags failed unconverted added ∧
      final.HasTags (moreTags tags (failed.flatten ++ unconverted ++ added)) := by
  obtain ⟨outcomes, failures, converted, hconverts, hfinish⟩ := gives_process_iff.1 h
  obtain ⟨hdecorate, rfl⟩ := gives_finish_iff.1 hfinish
  have hkeys : outcomes.map Prod.fst = f.rules.keys := keys_of_converts hconverts
  have houtcomes : (Table.ofList outcomes).entries = outcomes :=
    Table.entries_foldl_put ∅ (hkeys.symm ▸ f.rules.distinct)
  rw [houtcomes] at hcaptured
  obtain ⟨hfields, failed, hfailed, h₁⟩ := hasTags_of_converts hr hconverts hcaptured
  have htags := Conversion.map_tag_seenWith
    ((Record.tagList? final).or (Record.tagList? converted)) failures
  refine ⟨by rw [Table.keys, houtcomes, hkeys], ?_, failed, failures.map (.text ·.tag), ?_⟩
  · rw [Conversion.map_field_seenWith]
    exact hfields
  cases hsuccess : isSuccess outcomes with
  | false =>
    rw [hsuccess, if_neg Bool.false_ne_true] at hdecorate
    obtain rfl := hdecorate
    refine ⟨[], ⟨by rwa [houtcomes], htags.symm, ?_⟩, by rwa [List.append_nil]⟩
    simp [Summary.success, houtcomes, hsuccess]
  | true =>
    rw [hsuccess, if_pos rfl] at hdecorate
    obtain ⟨templates, added, htemplates, hfilled, hfinal⟩ :=
      filled_of_gives_decorate h₁ hdecorate fun entries entry r₁ hentries hreach hyield =>
        hadded ⟨outcomes, failures, converted, entries, entry, r₁, hconverts, hsuccess, hentries,
          hreach, hyield⟩
    rw [moreTags_append] at hfinal
    refine ⟨added, ⟨by rwa [houtcomes], htags.symm, ?_⟩, hfinal⟩
    rw [Summary.success, houtcomes, hsuccess, if_pos rfl]
    exact ⟨templates, htemplates, hfilled⟩

/-- A filter that cuts a message in two, takes both parts for integers, and adds a field and
two tags. -/
def twoParts : Filter where
  settings := Config.settings
    { addedFields := Table.ofList [("host", "%\x7ba\x7d")]
      addedTags := ["seen", "%\x7bhost\x7d"] }
  conversions := Table.ofList [(.text "a", .text "int"), (.text "b", .text "int")]
  rules := Table.ofList [(.text "message",
    { leading := [], tokens := [⟨⟨"a", .normal, "a"⟩, " "⟩, ⟨⟨"b", .normal, "b"⟩, []⟩] })]
  registered := true

/-- The second part is no integer, and the first is put into an added tag. -/
theorem exists_ledger_of_gives_process_twoParts :
    let r : Record := Table.ofList
      [(.text "message", .text "7 x"), (.text tagsField, .list [.text "old"])]
    let s : Summary :=
      { outcomes := Table.ofList
          [(.text "message", .matched (Table.ofList [("a", "7"), ("b", "x")]) [])]
        failures := [⟨.text "b", .text "int", .uncoercible (.text "x")⟩] }
    let final : Record := Table.ofList
      [(.text "message", .text "7 x"),
        (.text tagsField, .list [.text "old", .text "_dataconversionuncoercible_b_int",
          .text "seen", .text "7"]),
        (.text "a", .int 7), (.text "b", .text "x"), (.text "host", .text "7")]
    r.HasTags (some [.text "old"]) ∧ twoParts.process.Gives r s final ∧
      (∀ entry ∈ s.outcomes.entries, tagsField ∉ entry.2.values.keys) ∧
      ¬ twoParts.Adds r tagsField ∧
      ∃ failed unconverted added,
        twoParts.Ledger s final (some [.text "old"]) failed unconverted added ∧
        final.HasTags (moreTags (some [.text "old"]) (failed.flatten ++ unconverted ++ added)) := by
  intro r s final
  have hr : r.HasTags (some [.text "old"]) := by decide +kernel
  have hprocess : twoParts.process.Gives r s final := by decide +kernel
  have hcaptured : ∀ entry ∈ s.outcomes.entries, tagsField ∉ entry.2.values.keys := by
    decide +kernel
  have hadded : ¬ twoParts.Adds r tagsField := by
    rintro ⟨_, _, converted, _, _, _, _, _, hentries, hreach, hyield⟩
    have hhost : twoParts.settings.addedFields.entries =
        .ok [(.text "host", .text "%\x7ba\x7d")] := by decide +kernel
    obtain rfl := Except.ok.inj (hhost.symm.trans hentries)
    cases hreach with
    | here =>
      have hname := Template.interpolate_of_unopened (r := converted)
        (by decide : Text.cut? Pattern.opening "host" = none)
      rw [yield_text, hname] at hyield
      exact absurd (Except.ok.inj hyield) (by decide)
    | later _ hlater => cases hlater
  obtain ⟨-, -, hledger⟩ := exists_ledger_of_gives_process hr hprocess hcaptured hadded
  exact ⟨hr, hprocess, hcaptured, hadded, hledger⟩

end Filter

end Dissection
