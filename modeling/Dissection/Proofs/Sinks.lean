import Dissection.Log
import Mathlib.Data.List.Induction

/-!
# Configuring the log again

A call that asks for a level that exists replaces the sink of the log, and one that asks for a
level that does not exist fails.  What has become of the log is known from the names of the levels
that were asked for, whatever library keeps the sinks, as long as it is lawful.

The first call takes away whatever the library started out with, even if it fails.  As long as no
level was asked for that exists, that is all the harm a failing call can do.  Afterwards it takes
the sink away and leaves the log with the number of a sink that is gone.  From then on every call
that would configure the log fails, and no message is written.

## Main definitions

* `Log.Call` — the log is configured, or a message is written.
* `Log.Orderly` — after a level that exists, only such levels were asked for.
* `Log.Holds` — the invariant.
* `Log.Harmless` — a call after which the log is as good as before.

## Main statements

* `Log.Library.lawful_numbered` — a library that keeps its sinks in a list is lawful.
* `Log.Holds.call` — a call keeps the invariant.
* `Log.Holds.configure_known`, `Log.Holds.configure_unknown`, `Log.Holds.configure_lost` — what
  configuring the log does.
* `Log.sinks_after` — the sinks after any calls, and which failing calls are harmless.
-/

namespace Dissection.Log

/-- A library that keeps its sinks in a list is lawful, whatever it starts out with. -/
theorem Library.lawful_numbered (start : Register) : (Library.numbered start).Lawful where
  removeAll _ := rfl
  remove s id hid := ⟨{ s with sinks := s.sinks.filter (·.id ≠ id) }, if_pos hid, rfl⟩
  remove_unknown s id hid := if_neg hid
  add s format name least hname := by
    have hadd : s.add format name =
        (⟨s.sinks ++ [⟨s.next, least, format⟩], s.next + 1⟩, .ok s.next) := by
      simp only [Register.add, show Register.severity? name = some least from hname]
    exact ⟨_, _, hadd, rfl⟩
  add_unknown s format name hname := by
    have hadd : s.add format name =
        ({ s with next := s.next + 1 }, .error (.unknownLevel name)) := by
      simp only [Register.add, show Register.severity? name = none from hname]
    exact ⟨_, hadd, rfl⟩
  log s line severity hlevel := by
    have hlog : s.log line = .ok ((s.sinks.filter (·.least ≤ severity)).map (·.format line)) := by
      simp only [Register.log, show Register.severity? line.level = some severity from hlevel]
    exact hlog
  log_unknown s line hlevel := by
    have hlog : s.log line =
        if s.sinks.isEmpty then .ok [] else .error (.unknownLevel line.level) := by
      simp only [Register.log, show Register.severity? line.level = none from hlevel]
    exact hlog

/-! ## Calls -/

/-- The log is configured, or a message is logged. -/
inductive Call where
  | configure (env : Environment) (level : Option Text)
  | write (time : Text) (line : Line)

/-- The name of the level that a call asks the log to have. -/
def Call.asked? : Call → Option Text
  | configure env level => some (resolve env level)
  | write .. => none

/-- What a call leaves, and what the sinks write or why the call fails. -/
def State.call {lib : Library} (s : State lib) : Call → State lib × Except Error (List Text)
  | .configure env level =>
    let (left, result) := s.configure env level
    (left, result.map fun _ => [])
  | .write time line => (s, s.write time line)

/-- What the sinks write on each of several calls. -/
def State.written {lib : Library} (s : State lib) : List Call → List (List Text)
  | [] => []
  | c :: rest => (s.call c).2.toOption.getD [] :: (s.call c).1.written rest

section

variable {lib : Library} {calls rest : List Call} {c : Call} {s t : State lib}
  {env : Environment} {level : Option Text} {name : Text} {found : Nat}

/-- The log after calls. -/
def after (lib : Library) (calls : List Call) : State lib :=
  calls.foldl (fun s c => (s.call c).1) (.initial lib)

theorem after_concat (calls : List Call) (c : Call) :
    after lib (calls ++ [c]) = ((after lib calls).call c).1 := by
  rw [after, List.foldl_append]
  rfl

/-! ## What was asked for -/

/-- The names of the levels that calls ask the log to have, in order. -/
def askedNames (calls : List Call) : List Text := calls.filterMap Call.asked?

theorem askedNames_append (calls rest : List Call) :
    askedNames (calls ++ rest) = askedNames calls ++ askedNames rest :=
  List.filterMap_append

theorem askedNames_concat (hc : c.asked? = some name) :
    askedNames (calls ++ [c]) = askedNames calls ++ [name] := by
  rw [askedNames_append]
  simp [askedNames, hc]

/-- The severity of the level that was asked for last, if it exists. -/
def lastLevel? (lib : Library) (calls : List Call) : Option Nat :=
  (askedNames calls).getLast?.bind lib.severity?

/-- After a level that exists, only such levels were asked for. -/
def Orderly (lib : Library) (calls : List Call) : Prop :=
  (askedNames calls).Pairwise fun name later =>
    (lib.severity? name).isSome → (lib.severity? later).isSome

instance : Decidable (Orderly lib calls) := inferInstanceAs (Decidable (List.Pairwise _ _))

/-- No level that was asked for exists. -/
def Unheard (lib : Library) (calls : List Call) : Prop :=
  ∀ name ∈ askedNames calls, lib.severity? name = none

theorem Unheard.orderly (h : Unheard lib calls) : Orderly lib calls :=
  List.pairwise_of_forall_mem_list fun name hname _ _ hsome => by simp [h name hname] at hsome

theorem Unheard.lastLevel? (h : Unheard lib calls) : Log.lastLevel? lib calls = none := by
  rw [Log.lastLevel?, Option.bind_eq_none_iff]
  intro name hlast
  exact h name (List.mem_of_getLast? hlast)

/-- In orderly calls the last level exists if any does. -/
theorem unheard_of_lastLevel? (ho : Orderly lib calls) (h : lastLevel? lib calls = none) :
    Unheard lib calls := by
  intro name hname
  rw [lastLevel?] at h
  rcases List.eq_nil_or_concat (askedNames calls) with hnil | ⟨before, last, hlast⟩
  · simp [hnil] at hname
  · rw [hlast, List.concat_eq_append, List.getLast?_append] at h
    rw [Orderly, hlast, List.concat_eq_append, List.pairwise_append] at ho
    rw [hlast, List.concat_eq_append, List.mem_append, List.mem_singleton] at hname
    have hnone : lib.severity? last = none := h
    rcases hname with hbefore | rfl
    · by_contra hsome
      have hknown := ho.2.2 name hbefore last (List.mem_singleton_self last)
        (Option.isSome_iff_ne_none.2 hsome)
      simp [hnone] at hknown
    · exact hnone

theorem lastLevel?_concat (hc : c.asked? = some name) :
    lastLevel? lib (calls ++ [c]) = lib.severity? name := by
  rw [lastLevel?, askedNames_concat hc, List.getLast?_append]
  rfl

/-- Whether a further call keeps the calls orderly depends on the level that it asks for. -/
theorem orderly_concat_iff (hc : c.asked? = some name) :
    Orderly lib (calls ++ [c]) ↔
      Orderly lib calls ∧ ((lib.severity? name).isSome ∨ Unheard lib calls) := by
  rw [Orderly, askedNames_concat hc, List.pairwise_append]
  simp only [List.pairwise_singleton, List.mem_singleton, true_and, forall_eq]
  refine and_congr_right fun _ => ?_
  cases hname : lib.severity? name <;> simp [Unheard]

/-- Levels that do not exist count for nothing in front of others. -/
theorem Unheard.orderly_append_iff (h : Unheard lib calls) :
    Orderly lib (calls ++ rest) ↔ Orderly lib rest := by
  rw [Orderly, askedNames_append, List.pairwise_append]
  refine ⟨fun hall => hall.2.1, fun hrest => ⟨h.orderly, hrest, ?_⟩⟩
  intro name hname _ _ hsome
  simp [h name hname] at hsome

theorem Unheard.lastLevel?_append (h : Unheard lib calls) :
    Log.lastLevel? lib (calls ++ rest) = Log.lastLevel? lib rest := by
  rw [Log.lastLevel?, askedNames_append, List.getLast?_append, Log.lastLevel?]
  cases hrest : (askedNames rest).getLast? with
  | some last => rfl
  | none => simpa [Log.lastLevel?] using h.lastLevel?

/-! ## The invariant -/

/-- What has become of the log after calls. -/
structure Holds (lib : Library) (calls : List Call) (s : State lib) : Prop where
  /-- Before the log is configured it is as it was. -/
  untouched : askedNames calls = [] → s = .initial lib
  /-- After orderly calls there is a sink of the last level, if that exists. -/
  manner : askedNames calls ≠ [] → Orderly lib calls →
    s.sinks.map Sink.manner = (lastLevel? lib calls).toList.map (·, Line.written)
  /-- After orderly calls that sink is remembered. -/
  remembered : askedNames calls ≠ [] → Orderly lib calls →
    s.remembered = (s.sinks.map (·.id)).head?
  /-- After others there is no sink, and one is remembered all the same. -/
  lost : ¬ Orderly lib calls → s.sinks = [] ∧ ∃ id, s.remembered = some id

/-- After orderly calls the log can be cleared of its sinks. -/
theorem Holds.cleared (hlib : lib.Lawful) (h : Holds lib calls s) (ho : Orderly lib calls) :
    ∃ kept, s.cleared = .ok kept ∧ lib.sinks kept = [] := by
  by_cases hasked : askedNames calls = []
  · rw [h.untouched hasked]
    exact ⟨_, rfl, hlib.removeAll _⟩
  · have hmanner := h.manner hasked ho
    have hremembered := h.remembered hasked ho
    rw [State.cleared]
    cases hlast : lastLevel? lib calls with
    | none =>
      have hnone : s.sinks = [] := by simpa [hlast] using hmanner
      rw [hremembered, hnone]
      exact ⟨_, rfl, hlib.removeAll _⟩
    | some found =>
      obtain ⟨sink, hsink, -⟩ := List.map_eq_singleton_iff.1 (hlast ▸ hmanner)
      rw [hremembered, hsink]
      obtain ⟨kept, hkept, hleft⟩ := hlib.remove s.kept sink.id (by
        rw [show lib.sinks s.kept = [sink] from hsink]
        simp)
      refine ⟨kept, hkept, ?_⟩
      rw [hleft, show lib.sinks s.kept = [sink] from hsink]
      simp

/-- After orderly calls a sink is installed for a level that exists, in the place of all
others. -/
theorem Holds.configure_known (hlib : lib.Lawful) (h : Holds lib calls s)
    (ho : Orderly lib calls) (hname : lib.severity? (resolve env level) = some found) :
    ∃ kept id, s.configure env level = (⟨kept, some id⟩, .ok id) ∧
      lib.sinks kept = [⟨id, found, Line.written⟩] := by
  obtain ⟨cleared, hcleared, hnone⟩ := h.cleared hlib ho
  obtain ⟨kept, id, hadd, hsinks⟩ := hlib.add cleared Line.written _ _ hname
  refine ⟨kept, id, ?_, by rw [hsinks, hnone, List.nil_append]⟩
  simp only [State.configure, hcleared, hadd]

/-- After orderly calls no sink is left by a call for a level that does not exist. -/
theorem Holds.configure_unknown (hlib : lib.Lawful) (h : Holds lib calls s)
    (ho : Orderly lib calls) (hname : lib.severity? (resolve env level) = none) :
    ∃ kept, s.configure env level =
        ({ s with kept }, .error (.unknownLevel (resolve env level))) ∧
      lib.sinks kept = [] := by
  obtain ⟨cleared, hcleared, hnone⟩ := h.cleared hlib ho
  obtain ⟨kept, hadd, hsinks⟩ := hlib.add_unknown cleared Line.written _ hname
  refine ⟨kept, ?_, by rw [hsinks, hnone]⟩
  simp only [State.configure, hcleared, hadd]

/-- Configuring the log after other calls fails and changes nothing. -/
theorem Holds.configure_lost (hlib : lib.Lawful) (h : Holds lib calls s)
    (ho : ¬ Orderly lib calls) (env : Environment) (level : Option Text) :
    ∃ id, s.configure env level = (s, .error (.unknownSink id)) := by
  obtain ⟨hsinks, id, hid⟩ := h.lost ho
  have hgone := hlib.remove_unknown s.kept id (by
    rw [show lib.sinks s.kept = [] from hsinks]
    simp)
  refine ⟨id, ?_⟩
  simp only [State.configure, State.cleared, hid, hgone]

/-- As long as no level was asked for that exists, no sink was installed to be remembered. -/
theorem Holds.remembered_of_unheard (h : Holds lib calls s) (hunheard : Unheard lib calls) :
    s.remembered = none := by
  by_cases hasked : askedNames calls = []
  · rw [h.untouched hasked]
    rfl
  · have hnone : s.sinks = [] := by
      simpa [hunheard.lastLevel?] using h.manner hasked hunheard.orderly
    simpa [hnone] using h.remembered hasked hunheard.orderly

/-- Once a level was asked for that exists, a sink is remembered. -/
theorem Holds.exists_remembered (h : Holds lib calls s) (ho : Orderly lib calls)
    (hheard : ¬ Unheard lib calls) : ∃ id, s.remembered = some id := by
  have hasked : askedNames calls ≠ [] := fun hasked => hheard (by simp [Unheard, hasked])
  cases hlast : lastLevel? lib calls with
  | none => exact absurd (unheard_of_lastLevel? ho hlast) hheard
  | some found =>
    obtain ⟨sink, hsink, -⟩ := List.map_eq_singleton_iff.1 (hlast ▸ h.manner hasked ho)
    exact ⟨sink.id, by simp [h.remembered hasked ho, hsink]⟩

theorem Holds.configure (hlib : lib.Lawful) (h : Holds lib calls s) (env : Environment)
    (level : Option Text) :
    Holds lib (calls ++ [.configure env level]) (s.configure env level).1 := by
  have hasked : (Call.configure env level).asked? = some (resolve env level) := rfl
  have hsome : askedNames (calls ++ [.configure env level]) ≠ [] := by
    simp [askedNames_concat hasked]
  have hlast : lastLevel? lib (calls ++ [.configure env level]) =
      lib.severity? (resolve env level) := lastLevel?_concat hasked
  by_cases ho : Orderly lib calls
  · cases hname : lib.severity? (resolve env level) with
    | some found =>
      obtain ⟨kept, id, hconfigure, hsinks⟩ := h.configure_known hlib ho hname
      have hsinks : State.sinks ⟨kept, some id⟩ = [⟨id, found, Line.written⟩] := hsinks
      have hnow : Orderly lib (calls ++ [.configure env level]) :=
        (orderly_concat_iff hasked).2 ⟨ho, .inl (by simp [hname])⟩
      rw [hconfigure]
      refine ⟨fun hnone => absurd hnone hsome, fun _ _ => ?_, fun _ _ => ?_,
        fun hnot => absurd hnow hnot⟩
      · rw [hsinks, hlast, hname]
        rfl
      · rw [hsinks]
        rfl
    | none =>
      obtain ⟨kept, hconfigure, hsinks⟩ := h.configure_unknown hlib ho hname
      have hsinks : State.sinks { s with kept } = [] := hsinks
      rw [hconfigure]
      refine ⟨fun hnone => absurd hnone hsome, fun _ _ => ?_, fun _ hnow => ?_,
        fun hnot => ⟨hsinks, ?_⟩⟩
      · rw [hsinks, hlast, hname]
        rfl
      · have hunheard : Unheard lib calls := by
          simpa [hname] using ((orderly_concat_iff hasked).1 hnow).2
        rw [hsinks]
        exact h.remembered_of_unheard hunheard
      · exact h.exists_remembered ho fun hunheard =>
          hnot ((orderly_concat_iff hasked).2 ⟨ho, .inr hunheard⟩)
  · obtain ⟨id, hid⟩ := h.configure_lost hlib ho env level
    have hnot : ¬ Orderly lib (calls ++ [.configure env level]) :=
      fun hnow => ho ((orderly_concat_iff hasked).1 hnow).1
    rw [hid]
    exact ⟨fun hnone => absurd hnone hsome, fun _ hnow => absurd hnow hnot,
      fun _ hnow => absurd hnow hnot, fun _ => h.lost ho⟩

/-- A call keeps the invariant. -/
theorem Holds.call (hlib : lib.Lawful) (h : Holds lib calls s) (c : Call) :
    Holds lib (calls ++ [c]) (s.call c).1 := by
  cases c with
  | configure env level => exact h.configure hlib env level
  | write time line =>
    have hnames : askedNames (calls ++ [.write time line]) = askedNames calls := by
      rw [askedNames_append]
      exact List.append_nil _
    constructor
    · rw [hnames]
      exact h.untouched
    · rw [Orderly, lastLevel?, hnames]
      exact h.manner
    · rw [Orderly, hnames]
      exact h.remembered
    · rw [Orderly, hnames]
      exact h.lost

theorem holds_after (hlib : lib.Lawful) (calls : List Call) :
    Holds lib calls (after lib calls) := by
  induction calls using List.reverseRecOn with
  | nil =>
    exact ⟨fun _ => rfl, fun hsome => absurd rfl hsome, fun hsome => absurd rfl hsome,
      fun hnot => absurd List.Pairwise.nil hnot⟩
  | append_singleton calls c ih =>
    rw [after_concat]
    exact ih.call hlib c

/-! ## Harm -/

/-- What the sinks after calls take, and what they write of it. -/
def manners (lib : Library) (calls : List Call) : List (Nat × Format) :=
  if askedNames calls = [] then (lib.sinks lib.start).map Sink.manner
  else if Orderly lib calls then (lastLevel? lib calls).toList.map (·, Line.written)
  else []

theorem map_manner_sinks (hlib : lib.Lawful) (calls : List Call) :
    (after lib calls).sinks.map Sink.manner = manners lib calls := by
  rw [manners]
  split
  · next hasked =>
    rw [(holds_after hlib calls).untouched hasked]
    rfl
  · next hasked =>
    split
    · next ho => exact (holds_after hlib calls).manner hasked ho
    · next ho => rw [((holds_after hlib calls).lost ho).1, List.map_nil]

/-- Behind levels that do not exist, what is asked for counts as if they had not been. -/
theorem Unheard.manners_append (h : Unheard lib calls) (hrest : askedNames rest ≠ []) :
    manners lib (calls ++ rest) = manners lib rest := by
  have hboth : askedNames (calls ++ rest) ≠ [] := by simp [askedNames_append, hrest]
  rw [manners, manners, if_neg hboth, if_neg hrest, h.lastLevel?_append]
  simp only [h.orderly_append_iff]

/-- Calls for levels that do not exist leave no sink. -/
theorem Unheard.sinks_eq_nil (hlib : lib.Lawful) (h : Unheard lib calls)
    (hcalls : askedNames calls ≠ []) : (after lib calls).sinks = [] := by
  rw [← List.map_eq_nil_iff (f := Sink.manner), map_manner_sinks hlib, manners, if_neg hcalls,
    if_pos h.orderly, h.lastLevel?]
  rfl

/-- What the sinks write of a message at a time. -/
def State.echo (s : State lib) (time : Text) (line : Line) : List Text :=
  (s.write time line).toOption.getD []

theorem State.echo_eq (hlib : lib.Lawful) (s : State lib) (time : Text) (line : Line) :
    s.echo time line = (lib.severity? line.level).elim [] fun severity =>
      ((s.sinks.map Sink.manner).filter (·.1 ≤ severity)).map (·.2 line time) := by
  rw [State.echo, State.write]
  cases hlevel : lib.severity? line.level with
  | none =>
    rw [hlib.log_unknown s.kept line hlevel]
    split <;> rfl
  | some severity =>
    rw [hlib.log s.kept line severity hlevel, Option.elim_some, List.filter_map, List.map_map]
    change ((s.sinks.filter (·.least ≤ severity)).map (·.format line)).map (· time) = _
    rw [List.map_map]
    rfl

/-- What is written depends on what the sinks take and write. -/
theorem State.echo_congr (hlib : lib.Lawful)
    (h : s.sinks.map Sink.manner = t.sinks.map Sink.manner) : s.echo = t.echo := by
  funext time line
  rw [State.echo_eq hlib, State.echo_eq hlib, h]

theorem State.echo_of_sinks_eq_nil (hlib : lib.Lawful) (h : s.sinks = []) (time : Text)
    (line : Line) : s.echo time line = [] := by
  rw [State.echo_eq hlib, h]
  cases lib.severity? line.level <;> rfl

/-- Nothing is written when the log is configured. -/
theorem State.toOption_call_configure (s : State lib) (env : Environment)
    (level : Option Text) : (s.call (.configure env level)).2.toOption.getD [] = [] := by
  simp only [State.call]
  cases (s.configure env level).2 <;> rfl

/-- Where two logs write the same of every message as long as calls go on, they write the same on
these calls. -/
theorem written_congr {before before' : List Call}
    (h : ∀ n, (after lib (before ++ rest.take n)).echo =
      (after lib (before' ++ rest.take n)).echo) :
    (after lib before).written rest = (after lib before').written rest := by
  induction rest generalizing before before' with
  | nil => rfl
  | cons c rest ih =>
    have hnow : (after lib before).echo = (after lib before').echo := by simpa using h 0
    have hlater : ∀ n, (after lib (before ++ [c] ++ rest.take n)).echo =
        (after lib (before' ++ [c] ++ rest.take n)).echo := by
      intro n
      simpa using h (n + 1)
    have hfirst : ((after lib before).call c).2.toOption.getD [] =
        ((after lib before').call c).2.toOption.getD [] := by
      cases c with
      | configure env level => rw [State.toOption_call_configure, State.toOption_call_configure]
      | write time line => exact congrFun (congrFun hnow time) line
    rw [State.written, State.written, ← after_concat, ← after_concat, ih hlater, hfirst]

/-- A call after others leaves the log as good as before. -/
structure Harmless (lib : Library) (calls : List Call) (c : Call) : Prop where
  /-- What follows is written as if the call had not been made. -/
  unnoticed : ∀ rest, (after lib (calls ++ [c])).written rest = (after lib calls).written rest
  /-- As long as only levels are asked for that exist, each is that of the one sink. -/
  mended : ∀ rest, (∀ name ∈ askedNames rest, (lib.severity? name).isSome) →
    ∀ env level found, lib.severity? (resolve env level) = some found →
      ∃ id, ((after lib (calls ++ c :: rest)).configure env level).2 = .ok id ∧
        ((after lib (calls ++ c :: rest)).configure env level).1.sinks =
          [⟨id, found, Line.written⟩]

/-- Where no level was asked for that exists, a call for one that does not is harmless, if no sink
was there that wrote anything. -/
theorem Unheard.harmless (hlib : lib.Lawful) (h : Unheard lib (calls ++ [.configure env level]))
    (hsilent : askedNames calls = [] → ∀ time line, (State.initial lib).echo time line = []) :
    Harmless lib calls (.configure env level) where
  unnoticed rest := by
    have hcalls : Unheard lib calls :=
      fun name hname => h name (by simp [askedNames_append, hname])
    refine written_congr fun n => ?_
    by_cases hrest : askedNames (rest.take n) = []
    · -- neither log has come by a sink, and what the first had to start with writes nothing
      have hnone : Unheard lib (calls ++ [.configure env level] ++ rest.take n) := by
        intro name hname
        refine h name ?_
        rwa [askedNames_append, hrest, List.append_nil] at hname
      have hleft : (after lib (calls ++ [.configure env level] ++ rest.take n)).sinks = [] :=
        hnone.sinks_eq_nil hlib (by simp [askedNames, Call.asked?])
      funext time line
      rw [State.echo_of_sinks_eq_nil hlib hleft]
      by_cases hbefore : askedNames calls = []
      · have hsame : after lib (calls ++ rest.take n) = .initial lib :=
          (holds_after hlib _).untouched (by rw [askedNames_append, hbefore, hrest]; rfl)
        rw [hsame, hsilent hbefore]
      · have hright : (after lib (calls ++ rest.take n)).sinks = [] := by
          have hboth : Unheard lib (calls ++ rest.take n) := by
            intro name hname
            rw [askedNames_append, hrest, List.append_nil] at hname
            exact hcalls name hname
          exact hboth.sinks_eq_nil hlib (by simp [askedNames_append, hbefore])
        rw [State.echo_of_sinks_eq_nil hlib hright]
    · refine State.echo_congr hlib ?_
      rw [map_manner_sinks hlib, map_manner_sinks hlib, h.manners_append hrest,
        hcalls.manners_append hrest]
  mended rest hrest env' level' found hfound := by
    have ho : Orderly lib (calls ++ .configure env level :: rest) := by
      rw [List.append_cons, h.orderly_append_iff]
      exact List.pairwise_of_forall_mem_list fun _ _ later hlater _ => hrest later hlater
    obtain ⟨kept, id, hconfigure, hsinks⟩ := (holds_after hlib _).configure_known hlib ho hfound
    rw [hconfigure]
    exact ⟨id, rfl, hsinks⟩

/-- What is asked for is asked for by a call. -/
theorem exists_of_mem_askedNames (h : name ∈ askedNames calls) :
    ∃ env level, resolve env level = name := by
  obtain ⟨c, -, hc⟩ := List.mem_filterMap.1 h
  cases c with
  | configure env level => exact ⟨env, level, Option.some.inj hc⟩
  | write => cases hc

/-- After calls that are not orderly no level can be asked for any more. -/
theorem Harmless.orderly (hlib : lib.Lawful) (h : Harmless lib calls c) :
    Orderly lib (calls ++ [c]) := by
  by_contra ho
  -- a level that exists was asked for, and asking for it again should succeed
  have hheard : ¬ Unheard lib (calls ++ [c]) := fun hnone => ho hnone.orderly
  simp only [Unheard, not_forall] at hheard
  obtain ⟨name, hname, hknown⟩ := hheard
  obtain ⟨env, level, rfl⟩ := exists_of_mem_askedNames hname
  obtain ⟨found, hfound⟩ := Option.ne_none_iff_exists'.1 hknown
  obtain ⟨_, hok, -⟩ := h.mended [] (by simp [askedNames]) env level found hfound
  obtain ⟨id, hid⟩ := (holds_after hlib _).configure_lost hlib ho env level
  rw [hid] at hok
  cases hok

/-- A failing call is harmless exactly if no level was asked for before that exists, and no sink
was there that wrote anything. -/
theorem harmless_iff (hlib : lib.Lawful)
    (hfail : ∀ id, ((after lib calls).configure env level).2 ≠ .ok id) :
    Harmless lib calls (.configure env level) ↔
      Unheard lib calls ∧
        (askedNames calls = [] → ∀ time line, (State.initial lib).echo time line = []) := by
  have hasked : (Call.configure env level).asked? = some (resolve env level) := rfl
  have hholds := holds_after hlib calls
  have hunknown : Orderly lib calls → lib.severity? (resolve env level) = none := by
    intro ho
    cases hname : lib.severity? (resolve env level) with
    | none => rfl
    | some found =>
      obtain ⟨kept, id, hconfigure, -⟩ := hholds.configure_known hlib ho hname
      exact absurd (by rw [hconfigure]) (hfail id)
  constructor
  · intro hharmless
    obtain ⟨ho, hlast⟩ := (orderly_concat_iff hasked).1 (hharmless.orderly hlib)
    have hcalls : Unheard lib calls := by simpa [hunknown ho] using hlast
    refine ⟨hcalls, fun hbefore time line => ?_⟩
    have hnow : Unheard lib (calls ++ [.configure env level]) := by
      intro name hname
      rw [askedNames_concat hasked, hbefore, List.nil_append, List.mem_singleton] at hname
      rw [hname, hunknown ho]
    have hgone : (after lib (calls ++ [.configure env level])).sinks = [] :=
      hnow.sinks_eq_nil hlib (by simp [askedNames, Call.asked?])
    have hsame := hharmless.unnoticed [.write time line]
    rw [hholds.untouched hbefore] at hsame
    have hecho : (after lib (calls ++ [.configure env level])).echo time line =
        (State.initial lib).echo time line := (List.cons.inj hsame).1
    rw [← hecho, State.echo_of_sinks_eq_nil hlib hgone]
  · rintro ⟨hcalls, hsilent⟩
    refine Unheard.harmless hlib (fun name hname => ?_) hsilent
    rw [askedNames_concat hasked, List.mem_append, List.mem_singleton] at hname
    rcases hname with hname | rfl
    · exact hcalls name hname
    · exact hunknown hcalls.orderly

/-! ## Any calls -/

/-- Once the log was configured, a message is written once if there is a sink for it, and not at
all otherwise. -/
theorem write_after (hlib : lib.Lawful) (hcalls : askedNames calls ≠ []) {line : Line}
    {severity : Nat} (hlevel : lib.severity? line.level = some severity) (time : Text) :
    (after lib calls).write time line =
      .ok (if ∃ sink ∈ (after lib calls).sinks, sink.least ≤ severity then [line.written time]
        else []) := by
  have hmanner := map_manner_sinks hlib calls
  have hlast : manners lib calls = [] ∨ ∃ least, manners lib calls = [(least, Line.written)] := by
    rw [manners, if_neg hcalls]
    split
    · cases lastLevel? lib calls with
      | none => exact .inl rfl
      | some least => exact .inr ⟨least, rfl⟩
    · exact .inl rfl
  have hwrite : (after lib calls).write time line =
      .ok (((after lib calls).sinks.filter (·.least ≤ severity)).map (·.format line time)) := by
    rw [State.write, hlib.log _ _ _ hlevel]
    change Except.ok (List.map _ (List.map _ _)) = _
    rw [List.map_map]
    rfl
  rw [hwrite]
  rcases hlast with hlast | ⟨least, hlast⟩
  · rw [hlast, List.map_eq_nil_iff] at hmanner
    simp [hmanner]
  · rw [hlast, List.map_eq_singleton_iff] at hmanner
    obtain ⟨sink, hsink, hformat⟩ := hmanner
    obtain ⟨-, hformat⟩ := Prod.mk.inj hformat
    by_cases hweight : sink.least ≤ severity
    · simp [hsink, hweight, hformat]
    · simp [hsink, hweight]

/-- The sink that is remembered is the one that is installed exactly after orderly calls. -/
theorem orderly_iff_remembered (hlib : lib.Lawful) (hcalls : askedNames calls ≠ []) :
    Orderly lib calls ↔
      (after lib calls).remembered = ((after lib calls).sinks.map (·.id)).head? := by
  refine ⟨(holds_after hlib calls).remembered hcalls, fun hsame => ?_⟩
  by_contra ho
  obtain ⟨hsinks, id, hid⟩ := (holds_after hlib calls).lost ho
  simp [hsinks, hid] at hsame

/-- The sinks after any calls, whatever the library started out with.  Until the log is configured
nothing has changed.  After orderly calls there is one sink, of the level that was asked for last,
unless that level does not exist; a call for a level that exists installs its sink in the place of
this one, and a call for another fails and takes this one away.  After calls that are not orderly
a sink is remembered though there is none, and configuring the log fails whatever the level.  A
message is written once or not at all.  A failing call is harmless only as long as no level was
asked for that exists, and the first call only if no sink was there that wrote anything. -/
theorem sinks_after (hlib : lib.Lawful) (calls : List Call) :
    (askedNames calls = [] → after lib calls = .initial lib) ∧
      (askedNames calls ≠ [] →
        (after lib calls).sinks.map Sink.manner =
            (if Orderly lib calls then (lastLevel? lib calls).toList.map (·, Line.written)
              else []) ∧
          (Orderly lib calls ↔
            (after lib calls).remembered = ((after lib calls).sinks.map (·.id)).head?) ∧
          ∀ time line severity, lib.severity? line.level = some severity →
            (after lib calls).write time line =
              .ok (if ∃ sink ∈ (after lib calls).sinks, sink.least ≤ severity then
                [line.written time] else [])) ∧
      (∀ env level,
        (Orderly lib calls →
          (∀ found, lib.severity? (resolve env level) = some found →
            ∃ id, ((after lib calls).configure env level).2 = .ok id ∧
              ((after lib calls).configure env level).1.remembered = some id ∧
              ((after lib calls).configure env level).1.sinks = [⟨id, found, Line.written⟩]) ∧
          (lib.severity? (resolve env level) = none →
            ((after lib calls).configure env level).2 =
                .error (.unknownLevel (resolve env level)) ∧
              ((after lib calls).configure env level).1.sinks = [])) ∧
        (¬ Orderly lib calls →
          ∃ id, (after lib calls).configure env level =
            (after lib calls, .error (.unknownSink id)))) ∧
      ∀ env level, (∀ id, ((after lib calls).configure env level).2 ≠ .ok id) →
        (Harmless lib calls (.configure env level) ↔
          (∀ name ∈ askedNames calls, lib.severity? name = none) ∧
            (askedNames calls = [] → ∀ time line, (State.initial lib).echo time line = [])) := by
  have hholds := holds_after hlib calls
  refine ⟨hholds.untouched, fun hcalls => ⟨?_, orderly_iff_remembered hlib hcalls, ?_⟩, ?_,
    fun env level => harmless_iff hlib⟩
  · rw [map_manner_sinks hlib, manners, if_neg hcalls]
  · intro time line severity hlevel
    exact write_after hlib hcalls hlevel time
  · intro env level
    refine ⟨fun ho => ⟨fun found hname => ?_, fun hname => ?_⟩, fun ho =>
      hholds.configure_lost hlib ho env level⟩
    · obtain ⟨kept, id, hconfigure, hsinks⟩ := hholds.configure_known hlib ho hname
      rw [hconfigure]
      exact ⟨id, rfl, rfl, hsinks⟩
    · obtain ⟨kept, hconfigure, hsinks⟩ := hholds.configure_unknown hlib ho hname
      rw [hconfigure]
      exact ⟨rfl, hsinks⟩

end

/-! ### A library with a sink of its own -/

/-- How a sink writes that the log did not install: it says where a message comes from and knows of
no source. -/
def usualFormat : Format := fun line time =>
  time ++ " | " ++ line.level.padRight 8 ++ " | __main__:<module>:1 - " ++ line.message ++ "\n"

/-- A library that starts out with a sink for all but the least messages. -/
def usualLibrary : Library := .numbered { sinks := [⟨0, 10, usualFormat⟩] }

/-- The sink that was there has made room for one of the level that was asked for, and this one
for the next. -/
theorem sinks_after_usualLibrary :
    let calls : List Call := [.configure {} (some "info")]
    usualLibrary.Lawful ∧ Orderly usualLibrary calls ∧
      (after usualLibrary calls).write "now" ⟨"INFO", "still here", none⟩ =
        .ok ["now | INFO     | - | still here\n".toList] ∧
      ∃ id, ((after usualLibrary calls).configure {} (some "error")).1.sinks =
        [⟨id, 40, Line.written⟩] := by
  intro calls
  have hlib : usualLibrary.Lawful := Library.lawful_numbered _
  have ho : Orderly usualLibrary calls := List.pairwise_singleton _ _
  have hasked : askedNames calls ≠ [] := by decide +kernel
  have hinfo : usualLibrary.severity? "INFO" = some 20 := by decide +kernel
  have herror : usualLibrary.severity? (resolve {} (some "error")) = some 40 := by decide +kernel
  have hlast : lastLevel? usualLibrary calls = some 20 := by decide +kernel
  obtain ⟨-, hafter, hconfigure, -⟩ := sinks_after hlib calls
  obtain ⟨hmanner, -, hwrite⟩ := hafter hasked
  obtain ⟨id, -, -, hsinks⟩ := ((hconfigure {} (some "error")).1 ho).1 40 herror
  rw [if_pos ho, hlast] at hmanner
  obtain ⟨sink, hsink, hmanner⟩ := List.map_eq_singleton_iff.1 hmanner
  obtain ⟨hleast, -⟩ := Prod.mk.inj hmanner
  refine ⟨hlib, ho, ?_, id, hsinks⟩
  rw [hwrite "now" ⟨"INFO", "still here", none⟩ 20 hinfo, hsink,
    if_pos ⟨sink, List.mem_singleton_self sink, Nat.le_of_eq hleast⟩]
  decide +kernel

/-- After a call for a level that exists, one for a level that does not takes the sink away: what
follows is not written, and the log can no longer be configured.  And even the first call takes a
sink away, the one that the library started out with. -/
theorem not_harmless_bogusLevel :
    let calls : List Call := [.configure {} (some "info")]
    let bogus : Call := .configure {} (some "bogus")
    let message : Call := .write "now" ⟨"INFO", "still here", none⟩
    ((after usualLibrary calls).call bogus).2 = .error (.unknownLevel "BOGUS") ∧
      (after usualLibrary calls).written [message] =
        [["now | INFO     | - | still here\n".toList]] ∧
      (after usualLibrary (calls ++ [bogus])).written [message] = [[]] ∧
      ((after usualLibrary (calls ++ [bogus])).call (.configure {} (some "info"))).2 =
        .error (.unknownSink 1) ∧
      ¬ Harmless usualLibrary calls bogus ∧
      (after usualLibrary []).written [message] =
        [["now | INFO     | __main__:<module>:1 - still here\n".toList]] ∧
      (after usualLibrary [bogus]).written [message] = [[]] ∧
      ¬ Harmless usualLibrary [] bogus := by
  intro calls bogus message
  have hbefore : (after usualLibrary calls).written [message] =
      [["now | INFO     | - | still here\n".toList]] := by decide +kernel
  have hafter : (after usualLibrary (calls ++ [bogus])).written [message] = [[]] := by
    decide +kernel
  have hstart : (after usualLibrary []).written [message] =
      [["now | INFO     | __main__:<module>:1 - still here\n".toList]] := by decide +kernel
  have hfirst : (after usualLibrary [bogus]).written [message] = [[]] := by decide +kernel
  refine ⟨by decide +kernel, hbefore, hafter, by decide +kernel, fun hharmless => ?_, hstart,
    hfirst, fun hharmless => ?_⟩
  · have hunnoticed := hharmless.unnoticed [message]
    rw [hbefore, hafter] at hunnoticed
    simp at hunnoticed
  · have hunnoticed := hharmless.unnoticed [message]
    rw [hstart, List.nil_append, hfirst] at hunnoticed
    simp at hunnoticed

end Dissection.Log
