import Dissection.Filter.Request
import Dissection.Proofs.Conversion
import Dissection.Proofs.Grammar
import Mathlib.Data.List.Induction

/-!
# What a filter works by after any requests

A filter takes its settings from three moments.  The datatypes are those that it was made
with.  The patterns are those of the mapping as it stood when the filter was last registered,
all of them, and a registration that fails leaves the ones that were there.  The tags and the
added fields are those of the settings as they are now.

When a filter is registered can be told from the requests alone.  A request to register does
it whenever all patterns can be compiled, and so does a request to process something, unless
one before it could have done it.

## Main definitions

* `Filter.Compiles`, `Filter.FirstBad` — the rules of a mapping, or the first of its patterns
  that cannot be compiled.
* `Filter.Registers` — a request, after others, that a filter is registered by.
* `Filter.Stands` — what requests have made of a filter.
* `Filter.Answers` — what a filter does on a request.

## Main statements

* `Filter.register_eq_ok_iff`, `Filter.register_eq_error_iff` — registering.
* `Filter.Stands.handle` — one request.
* `Filter.handleAll_ofConfig` — any requests, and one more.
-/

namespace Dissection

/-! ## Settings of a configuration -/

namespace Config

/-- The values that a setting may have: tables of texts, and texts. -/
def Key.Fits : Key → Value → Prop
  | .mapping, v | .conversions, v | .addedFields, v => ∃ t : Table Text Text, v = tableValue t
  | .failureTags, v | .addedTags, v => ∃ texts, v = textsValue texts

theorem exists_settings_eq_set (live : Config) {key : Key} {v : Value} (h : key.Fits v) :
    ∃ live' : Config, live'.settings = live.settings.set key v := by
  cases key with
  | mapping =>
    obtain ⟨t, rfl⟩ := h
    exact ⟨{ live with mapping := t }, rfl⟩
  | conversions =>
    obtain ⟨t, rfl⟩ := h
    exact ⟨{ live with conversions := t }, rfl⟩
  | failureTags =>
    obtain ⟨texts, rfl⟩ := h
    exact ⟨{ live with failureTags := texts }, rfl⟩
  | addedFields =>
    obtain ⟨t, rfl⟩ := h
    exact ⟨{ live with addedFields := t }, rfl⟩
  | addedTags =>
    obtain ⟨texts, rfl⟩ := h
    exact ⟨{ live with addedTags := texts }, rfl⟩

end Config

namespace Filter

variable {c live : Config} {f g : Filter} {request : Request} {requests before : List Request}
  {m : Table Text Text} {rules : Table Value Pattern}

/-! ## Compiling a mapping -/

/-- The rules of a mapping: all of its patterns, compiled, under their sources and in the
order of the mapping. -/
def Compiles (m : Table Text Text) (rules : Table Value Pattern) : Prop :=
  List.Forall₂ (fun entry rule => rule.1 = .text entry.1 ∧ Pattern.compile entry.2 = .ok rule.2)
    m.entries rules.entries

/-- The first pattern of a mapping that cannot be compiled, with its source. -/
def FirstBad (m : Table Text Text) (source text : Text) (e : Pattern.Error) : Prop :=
  ∃ passed rest, m.entries = passed ++ (source, text) :: rest ∧
    (∀ entry ∈ passed, ∃ pattern, Pattern.compile entry.2 = .ok pattern) ∧
    Pattern.compile text = .error e

/-- The rule of a text under a text. -/
def ruleOf (entry : Text × Text) : Except RuleError (Value × Pattern) :=
  match Pattern.compile entry.2 with
  | .error e => .error (.badPattern (.text entry.1) entry.2 e)
  | .ok pattern => .ok (.text entry.1, pattern)

theorem ruleOf_eq_ok_iff {entry : Text × Text} {rule : Value × Pattern} :
    ruleOf entry = .ok rule ↔
      rule.1 = .text entry.1 ∧ Pattern.compile entry.2 = .ok rule.2 := by
  obtain ⟨source, pattern⟩ := rule
  rw [ruleOf]
  cases Pattern.compile entry.2 <;> simp [eq_comm]

theorem ruleOf_eq_error_iff {entry : Text × Text} {e : RuleError} :
    ruleOf entry = .error e ↔
      ∃ found, Pattern.compile entry.2 = .error found ∧
        e = .badPattern (.text entry.1) entry.2 found := by
  rw [ruleOf]
  cases Pattern.compile entry.2 <;> simp [eq_comm]

theorem exists_ruleOf_iff {entry : Text × Text} :
    (∃ rule, ruleOf entry = .ok rule) ↔ ∃ pattern, Pattern.compile entry.2 = .ok pattern := by
  simp [ruleOf_eq_ok_iff]

theorem compileRules_valueTable (m : Table Text Text) :
    compileRules (Config.valueTable m).entries = m.entries.mapM ruleOf := by
  rw [Conversion.entries_valueTable]
  induction m.entries with
  | nil => rfl
  | cons entry rest ih =>
    rw [List.map_cons, List.mapM_cons, ← ih, ruleOf, Conversion.pair, compileRules, compileRule]
    simp only [Value.wording]
    cases Pattern.compile entry.2 with
    | error e => rfl
    | ok pattern => cases compileRules (rest.map Conversion.pair) <;> rfl

theorem compileRules_eq_ok_iff {rules : List (Value × Pattern)} :
    compileRules (Config.valueTable m).entries = .ok rules ↔
      List.Forall₂
        (fun entry rule => rule.1 = .text entry.1 ∧ Pattern.compile entry.2 = .ok rule.2)
        m.entries rules := by
  simp only [compileRules_valueTable, Traversal.mapM_eq_ok_iff, ruleOf_eq_ok_iff]

theorem map_fst_of_compiled {rules : List (Value × Pattern)}
    (h : List.Forall₂ (fun entry rule => rule.1 = .text entry.1 ∧
      Pattern.compile entry.2 = .ok rule.2) m.entries rules) :
    rules.map Prod.fst = m.keys.map .text := by
  rw [Table.keys]
  generalize m.entries = entries at h
  induction h with
  | nil => rfl
  | cons hrule _ ih => simp [hrule.1, ih]

/-- The rules of a mapping are under distinct sources. -/
theorem entries_ofList_of_compiled {rules : List (Value × Pattern)}
    (h : List.Forall₂ (fun entry rule => rule.1 = .text entry.1 ∧
      Pattern.compile entry.2 = .ok rule.2) m.entries rules) :
    (Table.ofList rules).entries = rules := by
  have hkeys : (Config.valueTable m).entries.map Prod.fst = m.keys.map .text := by
    simp [Conversion.entries_valueTable, Table.keys, Conversion.pair]
  refine Table.entries_foldl_put Table.empty ?_
  rw [Table.empty, List.nil_append, map_fst_of_compiled h, ← hkeys]
  exact (Config.valueTable m).distinct

theorem register_eq (hm : f.settings.mapping = Config.tableValue m) :
    f.register = (compileRules (Config.valueTable m).entries).map fun rules =>
      { f with rules := Table.ofList rules, registered := true } := by
  have hentries : f.settings.mapping.entries = .ok (Config.valueTable m).entries := by
    rw [hm]
    rfl
  rw [register, hentries]

/-- Registering succeeds exactly if all patterns can be compiled, and then it replaces the
rules by them and nothing else. -/
theorem register_eq_ok_iff (hm : f.settings.mapping = Config.tableValue m) :
    f.register = .ok g ↔ ∃ rules, Compiles m rules ∧ g = { f with rules, registered := true } := by
  rw [register_eq hm]
  constructor
  · intro h
    cases hrules : compileRules (Config.valueTable m).entries with
    | error e =>
      rw [hrules] at h
      cases h
    | ok rules =>
      rw [hrules] at h
      have hcompiled := compileRules_eq_ok_iff.1 hrules
      refine ⟨Table.ofList rules, ?_, (Except.ok.inj h).symm⟩
      rwa [Compiles, entries_ofList_of_compiled hcompiled]
  · rintro ⟨rules, hrules, rfl⟩
    simp only [compileRules_eq_ok_iff.2 hrules, Except.map, Table.ofList_entries]

/-- Registering fails for the first pattern that cannot be compiled. -/
theorem register_eq_error_iff (hm : f.settings.mapping = Config.tableValue m) {e : RuleError} :
    f.register = .error e ↔
      ∃ source text found, FirstBad m source text found ∧
        e = .badPattern (.text source) text found := by
  have hregister : f.register = .error e ↔ m.entries.mapM ruleOf = .error e := by
    rw [register_eq hm, compileRules_valueTable]
    cases m.entries.mapM ruleOf <;> simp [Except.map]
  simp only [hregister, Traversal.mapM_eq_error_iff, exists_ruleOf_iff, ruleOf_eq_error_iff,
    FirstBad]
  constructor
  · rintro ⟨passed, ⟨source, text⟩, rest, hsplit, hpassed, found, hbad, rfl⟩
    exact ⟨source, text, found, ⟨passed, rest, hsplit, hpassed, hbad⟩, rfl⟩
  · rintro ⟨source, text, found, ⟨passed, rest, hsplit, hpassed, hbad⟩, rfl⟩
    exact ⟨passed, (source, text), rest, hsplit, hpassed, found, hbad, rfl⟩

/-- A mapping has rules, or a first pattern that cannot be compiled. -/
theorem exists_compiles_or_firstBad (m : Table Text Text) :
    (∃ rules, Compiles m rules) ∨ ∃ source text e, FirstBad m source text e := by
  have hm : (ofConfig { mapping := m }).settings.mapping = Config.tableValue m := rfl
  cases h : (ofConfig { mapping := m }).register with
  | ok g =>
    obtain ⟨rules, hrules, -⟩ := (register_eq_ok_iff hm).1 h
    exact .inl ⟨rules, hrules⟩
  | error e =>
    obtain ⟨source, text, found, hbad, -⟩ := (register_eq_error_iff hm).1 h
    exact .inr ⟨source, text, found, hbad⟩

/-! ## One request -/

/-- A request to process something, for which a filter must be registered. -/
def Request.Processes : Request → Prop
  | .process _ => True
  | .processAll rs => rs ≠ []
  | .dissectLine _ source => ∃ name, source.key = .ok name
  | .register | .assign .. | .describe => False

/-- The record that a request is about: the one to be processed, or the one that holds a
line. -/
def Request.record? : Request → Option Record
  | .process r => r
  | .dissectLine line source => source.key.toOption.map (lineRecord line)
  | .register | .processAll _ | .assign .. | .describe => none

/-- Settings as they are changed by a request. -/
def Request.change (s : Settings) : Request → Settings
  | .assign name v => s.assign name v
  | _ => s

/-- A request on which a filter registers. -/
def Asks (f : Filter) (request : Request) : Prop :=
  request = .register ∨ request.Processes ∧ f.registered = false

theorem Request.change_of_processes (h : request.Processes) (s : Settings) :
    request.change s = s := by
  cases request with
  | assign => cases h
  | _ => rfl

theorem Asks.change (h : f.Asks request) (s : Settings) : request.change s = s := by
  rcases h with rfl | ⟨h, -⟩
  · rfl
  · exact Request.change_of_processes h s

theorem ready_of_registered (hf : f.registered = true) : f.ready = .ok f := by
  rw [ready, hf, if_pos rfl]

theorem ready_of_unregistered (hf : f.registered = false) : f.ready = f.register := by
  rw [ready, hf]
  rfl

theorem registered_of_register (h : f.register = .ok g) : g.registered = true := by
  unfold register at h
  split at h
  · cases h
  · next entries _ =>
    cases hrules : compileRules entries with
    | error e =>
      rw [hrules] at h
      cases h
    | ok rules =>
      rw [hrules] at h
      rw [← Except.ok.inj h]

theorem registered_of_ready (h : f.ready = .ok g) : g.registered = true := by
  cases hf : f.registered with
  | true =>
    rw [ready_of_registered hf] at h
    obtain rfl := Except.ok.inj h
    exact hf
  | false => exact registered_of_register ((ready_of_unregistered hf).symm.trans h)

/-- A filter that is registered first answers as a registered one. -/
theorem handle_of_ready (hp : request.Processes) (h : f.ready = .ok g) :
    f.handle request = (g, (g.handle request).2) := by
  have hready := ready_of_registered (registered_of_ready h)
  cases request with
  | process r => simp only [handle, handleRecord, h, hready]
  | processAll rs =>
    cases rs with
    | nil => exact absurd rfl hp
    | cons r rest => simp only [handle, h, hready]
  | dissectLine line source =>
    obtain ⟨name, hname⟩ := hp
    simp only [handle, handleRecord, hname, h, hready]
  | register | assign | describe => cases hp

/-- A filter that cannot be registered leaves the record alone and stays as it was. -/
theorem handle_of_refused {e : RuleError} (hask : f.Asks request) (h : f.register = .error e) :
    f.handle request = (f, .refused (.rule e) request.record?) := by
  rcases hask with rfl | ⟨hp, hf⟩
  · simp only [handle, h]
    rfl
  have hready : f.ready = .error e := (ready_of_unregistered hf).trans h
  cases request with
  | process r => simp only [handle, handleRecord, hready, Request.record?]
  | processAll rs =>
    cases rs with
    | nil => exact absurd rfl hp
    | cons r rest => simp only [handle, hready, Request.record?]
  | dissectLine line source =>
    obtain ⟨name, hname⟩ := hp
    simp only [handle, handleRecord, hname, hready, Request.record?]
    rfl
  | register | assign | describe => cases hp

theorem fst_handle_of_registers (hask : f.Asks request) (h : f.register = .ok g) :
    (f.handle request).1 = g := by
  rcases hask with rfl | ⟨hp, hf⟩
  · simp only [handle, h]
  · rw [handle_of_ready hp ((ready_of_unregistered hf).trans h)]

/-- Processing leaves a registered filter as it is. -/
theorem fst_handle_of_registered (hp : request.Processes) (hf : f.registered = true) :
    (f.handle request).1 = f := by
  rw [handle_of_ready hp (ready_of_registered hf)]

/-- Where a filter does not register, a request changes its settings at most. -/
theorem fst_handle_of_not_asks (h : ¬ f.Asks request) :
    (f.handle request).1 = { f with settings := request.change f.settings } := by
  by_cases hp : request.Processes
  · have hf : f.registered = true := by simpa using fun hf => h (.inr ⟨hp, hf⟩)
    rw [fst_handle_of_registered hp hf, Request.change_of_processes hp]
  cases request with
  | register => exact absurd (.inl rfl) h
  | process r => exact absurd trivial hp
  | processAll rs =>
    cases rs with
    | nil => rfl
    | cons r rest => exact absurd (List.cons_ne_nil r rest) hp
  | dissectLine line source =>
    cases hkey : source.key with
    | error e =>
      simp only [handle, hkey]
      rfl
    | ok name => exact absurd ⟨name, hkey⟩ hp
  | assign name v => rfl
  | describe =>
    simp only [handle]
    cases f.settings.toValue <;> rfl

/-! ## Requests so far -/

/-- A filter after requests one after another. -/
def handleAll (f : Filter) (requests : List Request) : Filter :=
  requests.foldl (fun f request => (f.handle request).1) f

/-- The settings that a configuration has become by requests. -/
def liveSettings (c : Config) (requests : List Request) : Settings :=
  requests.foldl Request.change c.settings

/-- The values that a request assigns to settings are such as the settings may have. -/
def Request.WellTyped : Request → Prop
  | .assign name v => ∀ key, Config.Key.ofLabel? name = some key → key.Fits v
  | _ => True

/-- A request, after others, on which a filter could be registered: all patterns that the
mapping has by then can be compiled. -/
structure CanRegister (c : Config) (before : List Request) (request : Request) : Prop where
  asks : request = .register ∨ request.Processes
  compiles : ∃ m rules, (liveSettings c before).mapping = Config.tableValue m ∧ Compiles m rules

/-- A request, after others, that a filter is registered by: one to register, or the first on
which the filter can be registered. -/
structure Registers (c : Config) (before : List Request) (request : Request) : Prop
    extends CanRegister c before request where
  due : request = .register ∨
    ∀ earlier other, earlier ++ [other] <+: before → ¬ CanRegister c earlier other

/-- These of some requests stand before the last one that a filter is registered by. -/
structure LastRegistered (c : Config) (requests before : List Request) : Prop where
  registers : ∃ request, before ++ [request] <+: requests ∧ Registers c before request
  last : ∀ later request, later ++ [request] <+: requests → Registers c later request →
    later <+: before

/-- What requests have made of a filter.  Its settings are those that the requests have left
and its datatypes those that it was made with.  It is registered if a request did it, and its
rules are those of the mapping as it stood at the last one that did. -/
structure Stands (c : Config) (requests : List Request) (f : Filter) : Prop where
  settings : f.settings = liveSettings c requests
  conversions : f.conversions = Config.valueTable c.conversions
  rules : (f.registered = false ∧ f.rules = {} ∧
      ∀ before request, before ++ [request] <+: requests → ¬ CanRegister c before request) ∨
    (f.registered = true ∧ ∃ before m, LastRegistered c requests before ∧
      (liveSettings c before).mapping = Config.tableValue m ∧ Compiles m f.rules)

theorem liveSettings_concat (c : Config) (requests : List Request) (request : Request) :
    liveSettings c (requests ++ [request]) = request.change (liveSettings c requests) := by
  simp [liveSettings]

theorem handleAll_concat (f : Filter) (requests : List Request) (request : Request) :
    f.handleAll (requests ++ [request]) = ((f.handleAll requests).handle request).1 := by
  simp [handleAll]

/-- Assignments of such values as settings may have leave the settings of a configuration. -/
theorem exists_settings_eq_liveSettings (c : Config)
    (h : ∀ request ∈ requests, request.WellTyped) :
    ∃ live : Config, live.settings = liveSettings c requests := by
  induction requests using List.reverseRecOn with
  | nil => exact ⟨c, rfl⟩
  | append_singleton requests request ih =>
    rw [List.forall_mem_append, List.forall_mem_singleton] at h
    obtain ⟨live, hlive⟩ := ih h.1
    rw [liveSettings_concat, ← hlive]
    cases request with
    | assign name v =>
      rw [Request.change, Settings.assign]
      cases hkey : Config.Key.ofLabel? name with
      | none => exact ⟨live, rfl⟩
      | some key => exact Config.exists_settings_eq_set live (h.2 key hkey)
    | _ => exact ⟨live, rfl⟩

/-- Requests in front of the last one of some requests. -/
theorem concat_prefix_concat_iff {earlier : List Request} {other : Request} :
    earlier ++ [other] <+: requests ++ [request] ↔
      (earlier = requests ∧ other = request) ∨ earlier ++ [other] <+: requests := by
  rw [List.prefix_concat_iff]
  simp

/-- A filter that can be registered was registered before, or is by this request. -/
theorem Stands.canRegister_of_registered (h : Stands c requests f) (hf : f.registered = true) :
    ∃ before request, before ++ [request] <+: requests ∧ CanRegister c before request := by
  rcases h.rules with ⟨hno, -⟩ | ⟨-, before, -, ⟨⟨request, hprefix, hregisters⟩, -⟩, -⟩
  · rw [hf] at hno
    cases hno
  · exact ⟨before, request, hprefix, hregisters.toCanRegister⟩

/-- A request that does not register the filter leaves it registered as it was. -/
theorem Stands.keep (h : Stands c requests f) (hregisters : ¬ Registers c requests request) :
    Stands c (requests ++ [request]) { f with settings := request.change f.settings } where
  settings := by rw [liveSettings_concat, h.settings]
  conversions := h.conversions
  rules := by
    rcases h.rules with ⟨hf, hrules, hno⟩ | ⟨hf, before, m, ⟨⟨last, hprefix, hlast⟩, hlater⟩, hm⟩
    · refine .inl ⟨hf, hrules, fun before other hprefix => ?_⟩
      rcases concat_prefix_concat_iff.1 hprefix with ⟨rfl, rfl⟩ | hprefix
      · exact fun hcan => hregisters ⟨hcan, .inr hno⟩
      · exact hno before other hprefix
    · refine .inr ⟨hf, before, m, ⟨⟨last, ?_, hlast⟩, fun later other hprefix hother => ?_⟩, hm⟩
      · exact hprefix.trans (List.prefix_append _ _)
      · rcases concat_prefix_concat_iff.1 hprefix with ⟨rfl, rfl⟩ | hprefix
        · exact absurd hother hregisters
        · exact hlater later other hprefix hother

/-- A request that registers the filter replaces its rules by those of the mapping. -/
theorem Stands.replace (h : Stands c requests f) (hregisters : Registers c requests request)
    (hchange : request.change f.settings = f.settings)
    (hm : f.settings.mapping = Config.tableValue m) (hrules : Compiles m rules) :
    Stands c (requests ++ [request]) { f with rules, registered := true } where
  settings := by rw [liveSettings_concat, ← h.settings, hchange]
  conversions := h.conversions
  rules := by
    refine .inr ⟨rfl, requests, m, ⟨⟨request, List.prefix_rfl, hregisters⟩, ?_⟩, ?_, hrules⟩
    · intro later other hprefix _
      rcases concat_prefix_concat_iff.1 hprefix with ⟨rfl, -⟩ | hprefix
      · exact List.prefix_rfl
      · exact (List.prefix_append _ _).trans hprefix
    · rw [← h.settings, hm]

/-- A filter is registered by a request exactly if it registers on it and can be. -/
theorem Stands.registers_iff (h : Stands c requests f) :
    Registers c requests request ↔
      f.Asks request ∧ ∃ m rules, f.settings.mapping = Config.tableValue m ∧ Compiles m rules := by
  constructor
  · rintro ⟨⟨hasks, hcompiles⟩, hdue⟩
    rw [← h.settings] at hcompiles
    refine ⟨?_, hcompiles⟩
    rcases hdue with hregister | hfirst
    · exact .inl hregister
    refine hasks.imp_right fun hp => ⟨hp, ?_⟩
    -- if it were registered, an earlier request could have done it
    by_contra hf
    obtain ⟨before, other, hprefix, hcan⟩ := h.canRegister_of_registered (by simpa using hf)
    exact hfirst before other hprefix hcan
  · rintro ⟨hask, hcompiles⟩
    rw [h.settings] at hcompiles
    refine ⟨⟨hask.imp_right And.left, hcompiles⟩, hask.imp_right ?_⟩
    rintro ⟨-, hf⟩
    rcases h.rules with ⟨-, -, hno⟩ | ⟨hyes, -⟩
    · exact hno
    · rw [hf] at hyes
      cases hyes

theorem Stands.mapping (h : Stands c requests f)
    (hlive : live.settings = liveSettings c requests) :
    f.settings.mapping = Config.tableValue live.mapping := by
  rw [h.settings, ← hlive]
  rfl

/-- What requests have made of a filter, one more request goes on with. -/
theorem Stands.handle (h : Stands c requests f) (hlive : live.settings = liveSettings c requests)
    (request : Request) : Stands c (requests ++ [request]) (f.handle request).1 := by
  have hm := h.mapping hlive
  by_cases hask : f.Asks request
  -- the filter registers: its rules are replaced all together or not at all
  · rcases exists_compiles_or_firstBad live.mapping with ⟨rules, hrules⟩ | ⟨source, text, e, hbad⟩
    · have hregister := (register_eq_ok_iff hm).2 ⟨rules, hrules, rfl⟩
      rw [fst_handle_of_registers hask hregister]
      exact h.replace (h.registers_iff.2 ⟨hask, _, rules, hm, hrules⟩) (hask.change _) hm hrules
    · have hregister := (register_eq_error_iff hm).2 ⟨source, text, e, hbad, rfl⟩
      rw [handle_of_refused hask hregister]
      have hno : ¬ Registers c requests request := by
        rw [h.registers_iff]
        rintro ⟨-, m, rules, hm', hrules⟩
        rw [(register_eq_ok_iff hm').2 ⟨rules, hrules, rfl⟩] at hregister
        cases hregister
      have hkeep := h.keep hno
      rwa [hask.change] at hkeep
  · rw [fst_handle_of_not_asks hask]
    exact h.keep fun hregisters => hask (h.registers_iff.1 hregisters).1

theorem stands_handleAll (c : Config) (h : ∀ request ∈ requests, request.WellTyped) :
    Stands c requests ((ofConfig c).handleAll requests) := by
  induction requests using List.reverseRecOn with
  | nil => exact ⟨rfl, rfl, .inl ⟨rfl, rfl, by simp⟩⟩
  | append_singleton requests request ih =>
    rw [List.forall_mem_append] at h
    obtain ⟨live, hlive⟩ := exists_settings_eq_liveSettings c h.1
    rw [handleAll_concat]
    exact (ih h.1).handle hlive request

/-! ## What a filter works by -/

/-- Filters that differ at most in settings that processing does not look at. -/
structure WorksAs (f g : Filter) : Prop where
  rules : f.rules = g.rules
  conversions : f.conversions = g.conversions
  failureTags : f.settings.failureTags = g.settings.failureTags
  addedFields : f.settings.addedFields = g.settings.addedFields
  addedTags : f.settings.addedTags = g.settings.addedTags

namespace WorksAs

theorem process (h : f.WorksAs g) : f.process = g.process := by
  have hdecorate : decorate f.settings = decorate g.settings := by
    rw [decorate, decorate, h.addedFields, h.addedTags]
  simp only [Filter.process, finish, h.rules, h.conversions, h.failureTags, hdecorate]

theorem processAll (h : f.WorksAs g) (rs : List Record) : f.processAll rs = g.processAll rs := by
  induction rs with
  | nil => rfl
  | cons r rest ih => rw [Filter.processAll, Filter.processAll, h.process, ih]

theorem respond (h : f.WorksAs g) (r : Option Record) : f.respond r = g.respond r := by
  cases r with
  | none => simp only [Filter.respond, processNothing, h.rules, h.conversions]
  | some r => simp only [Filter.respond, h.process]

/-- Registered filters that work alike answer alike. -/
theorem snd_handle (h : f.WorksAs g) (hp : request.Processes) (hf : f.registered = true)
    (hg : g.registered = true) : (f.handle request).2 = (g.handle request).2 := by
  have hf := ready_of_registered hf
  have hg := ready_of_registered hg
  cases request with
  | process r => simp only [handle, handleRecord, hf, hg, h.respond]
  | processAll rs =>
    cases rs with
    | nil => rfl
    | cons r rest => simp only [handle, hf, hg, h.processAll]
  | dissectLine line source =>
    obtain ⟨name, hname⟩ := hp
    simp only [handle, handleRecord, hname, hf, hg, h.respond]
  | register | assign | describe => cases hp

end WorksAs

/-- The configuration that a filter works by: a mapping that it was registered with, the
datatypes that it was made with, and the rest as it is now. -/
def effective (c live : Config) (m : Table Text Text) : Config :=
  { live with mapping := m, conversions := c.conversions }

/-- What a filter does on a request, if it was made with one configuration and has the
settings of another by then. -/
structure Answers (c live : Config) (f : Filter) (request : Request) : Prop where
  /-- A registration that fails is refused for the first pattern that cannot be compiled, and
  reported with its source.  The filter stays as it was, nothing is logged, and a record that
  was to be processed is left alone. -/
  refused : f.Asks request → (¬ ∃ rules, Compiles live.mapping rules) →
    ∃ source text e, FirstBad live.mapping source text e ∧
      f.handle request = (f, .refused (.rule (.badPattern (.text source) text e)) request.record?) ∧
      ((∀ digits, e ≠ .placeholder (.slotTooLong digits)) → ∃ report,
        (RuleError.badPattern (.text source) text e).report? = some report ∧
        report.context.sourceField = .text source)
  /-- A registration that succeeds replaces the rules and nothing else. -/
  registers : f.Asks request → ∀ rules, Compiles live.mapping rules →
    (f.handle request).1 = { f with rules, registered := true }
  /-- Without a registration, a request changes the settings at most, and only to assign one
  of them. -/
  stays : ¬ f.Asks request →
    (f.handle request).1 = { f with settings := request.change f.settings }
  /-- Records are processed as by a filter that is made and registered with the configuration
  that this one works by. -/
  processes : request.Processes → (f.handle request).1.registered = true →
    ∀ m, Compiles m (f.handle request).1.rules →
      ∃ fresh, (ofConfig (effective c live m)).register = .ok fresh ∧
        (f.handle request).2 = (fresh.handle request).2

/-- A filter that has processed something has registered for it if it had not before. -/
theorem ready_eq_ok_of_processes (hp : request.Processes)
    (h : (f.handle request).1.registered = true) : f.ready = .ok (f.handle request).1 := by
  cases hready : f.ready with
  | ok g => rw [handle_of_ready hp hready]
  | error e =>
    cases hf : f.registered with
    | true =>
      rw [ready_of_registered hf] at hready
      cases hready
    | false =>
      rw [handle_of_refused (.inr ⟨hp, hf⟩) ((ready_of_unregistered hf).symm.trans hready)] at h
      exact absurd (hf.symm.trans h) Bool.false_ne_true

/-- A filter that is registered with a mapping works as a fresh one. -/
theorem exists_fresh (hsettings : f.settings = live.settings)
    (hconversions : f.conversions = Config.valueTable c.conversions) (hm : Compiles m f.rules) :
    ∃ fresh, (ofConfig (effective c live m)).register = .ok fresh ∧ f.WorksAs fresh := by
  refine ⟨_, (register_eq_ok_iff rfl).2 ⟨f.rules, hm, rfl⟩, rfl, hconversions, ?_, ?_, ?_⟩
  all_goals rw [hsettings]; rfl

theorem Stands.answers (h : Stands c requests f) (hlive : live.settings = liveSettings c requests)
    (request : Request) : Answers c live f request where
  refused := by
    intro hask hnone
    obtain hrules | ⟨source, text, e, hbad⟩ := exists_compiles_or_firstBad live.mapping
    · exact absurd hrules hnone
    have hregister := (register_eq_error_iff (h.mapping hlive)).2 ⟨source, text, e, hbad, rfl⟩
    refine ⟨source, text, e, hbad, handle_of_refused hask hregister, fun hshort => ?_⟩
    obtain ⟨report, hreport, -, -, hsource, -⟩ :=
      Pattern.exists_report? hshort text (.text source)
    exact ⟨report, hreport, hsource⟩
  registers := by
    intro hask rules hrules
    have hregister := (register_eq_ok_iff (h.mapping hlive)).2 ⟨rules, hrules, rfl⟩
    exact fst_handle_of_registers hask hregister
  stays := fst_handle_of_not_asks
  processes := by
    intro hp hregistered m hm
    have hnext := h.handle hlive request
    have hsettings : (f.handle request).1.settings = live.settings := by
      rw [hnext.settings, liveSettings_concat, Request.change_of_processes hp, hlive]
    obtain ⟨fresh, hfresh, hworks⟩ := exists_fresh hsettings hnext.conversions hm
    refine ⟨fresh, hfresh, ?_⟩
    rw [handle_of_ready hp (ready_eq_ok_of_processes hp hregistered)]
    exact hworks.snd_handle hp hregistered (registered_of_register hfresh)

/-- After any requests a filter has the settings that they have left, the datatypes that it was
made with and the rules of the last registration that succeeded, and so it answers the next
request. -/
theorem handleAll_ofConfig (c : Config) (h : ∀ request ∈ requests, request.WellTyped) :
    ∃ live : Config, live.settings = liveSettings c requests ∧
      Stands c requests ((ofConfig c).handleAll requests) ∧
      ∀ request, Answers c live ((ofConfig c).handleAll requests) request := by
  obtain ⟨live, hlive⟩ := exists_settings_eq_liveSettings c h
  have hstands := stands_handleAll c h
  exact ⟨live, hlive, hstands, hstands.answers hlive⟩

/-- A configuration with one pattern. -/
def onePattern : Config where
  mapping := .ofList [("message", "%\x7ba\x7d %\x7bb\x7d")]
  conversions := .ofList [("a", "int")]

/-- Requests to register, to replace the mapping by one with a pattern that has no end, to
register again, and to replace the tags of failure. -/
def brokenLater : List Request :=
  [.register,
    .assign "mapping" (Config.tableValue (.ofList [("x", "%\x7by\x7d"), ("message", "%\x7ba")])),
    .register,
    .assign "tag_on_failure" (Config.textsValue ["missed"])]

/-- The first mapping stays in force when the second cannot be compiled. -/
theorem handleAll_ofConfig_brokenLater :
    (∀ request ∈ brokenLater, request.WellTyped) ∧
      ((ofConfig onePattern).handleAll brokenLater).rules.keys = [.text "message"] ∧
      ∃ live : Config, live.settings = liveSettings onePattern brokenLater ∧
        Stands onePattern brokenLater ((ofConfig onePattern).handleAll brokenLater) ∧
        ∀ request, Answers onePattern live ((ofConfig onePattern).handleAll brokenLater) request := by
  have hmapping : Config.Key.ofLabel? "mapping" = some .mapping := by decide
  have htags : Config.Key.ofLabel? "tag_on_failure" = some .failureTags := by decide
  have htyped : ∀ request ∈ brokenLater, request.WellTyped := by
    simp only [brokenLater, List.forall_mem_cons]
    refine ⟨trivial, fun key hkey => ?_, trivial, fun key hkey => ?_, by simp⟩
    · obtain rfl := Option.some.inj (hmapping.symm.trans hkey)
      exact ⟨_, rfl⟩
    · obtain rfl := Option.some.inj (htags.symm.trans hkey)
      exact ⟨_, rfl⟩
  exact ⟨htyped, by decide +kernel, handleAll_ofConfig onePattern htyped⟩

end Filter

end Dissection
