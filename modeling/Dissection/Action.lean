import Dissection.Json.Writer
import Dissection.Log
import Dissection.Record

/-!
# Actions on a record

An action may change a record, write log lines, and stop with a fault.  What it
has changed and written before it stops stays, and nothing after it is done.

## Main definitions

* `Fault` — why an action stops.
* `Run` — the record after an action, its log lines and its result.
* `Action` — an action, and `Action.pure` and `Action.bind` to combine actions.
-/

namespace Dissection

/-- Why an action stops. -/
inductive Fault where
  /-- A value cannot be used as it is meant to be. -/
  | misfit (m : Value.Misfit)
  /-- A value is to be shown that has no notation. -/
  | unwritable (u : Json.Unwritable)
  /-- An integer is beyond the range of binary64. -/
  | beyondRange
  deriving DecidableEq, Repr

/-- What is said of a fault. -/
def Fault.message : Fault → Text
  | .misfit m => m.message
  | .unwritable u => u.message
  | .beyondRange => "int too large to convert to float"

/-- Whether two results are the same is decidable. -/
instance decidableEqResult {ε α : Type} [DecidableEq ε] [DecidableEq α] :
    DecidableEq (Except ε α)
  | .ok _, .ok _ => decidable_of_iff _ (Except.ok.injEq ..).to_iff.symm
  | .error _, .error _ => decidable_of_iff _ (Except.error.injEq ..).to_iff.symm
  | .ok _, .error _ | .error _, .ok _ => isFalse nofun

/-- The record after an action, its log lines, and its result. -/
structure Run (α : Type) where
  record : Record
  log : List Log.Line
  result : Except Fault α

/-- An action on a record. -/
structure Action (α : Type) where
  run : Record → Run α

namespace Action

variable {α β : Type}

@[ext] theorem ext {a b : Action α} (h : a.run = b.run) : a = b := by
  cases a; cases b
  congr

/-! ## Combining actions -/

/-- Does nothing and gives a result. -/
def pure (x : α) : Action α := ⟨fun r => ⟨r, [], .ok x⟩⟩

/-- One action and then another, unless the first one stops. -/
def bind (a : Action α) (f : α → Action β) : Action β :=
  ⟨fun r =>
    let first := a.run r
    match first.result with
    | .error fault => ⟨first.record, first.log, .error fault⟩
    | .ok x =>
      let second := (f x).run first.record
      { second with log := first.log ++ second.log }⟩

instance : Monad Action where
  pure := pure
  bind := bind

@[simp] theorem monad_pure_eq (x : α) : (Pure.pure x : Action α) = pure x := rfl

@[simp] theorem run_pure (x : α) (r : Record) : (pure x).run r = ⟨r, [], .ok x⟩ := rfl

@[simp] theorem run_bind (a : Action α) (f : α → Action β) (r : Record) :
    (a >>= f).run r =
      match (a.run r).result with
      | .error fault => ⟨(a.run r).record, (a.run r).log, .error fault⟩
      | .ok x => { (f x).run (a.run r).record with
          log := (a.run r).log ++ ((f x).run (a.run r).record).log } := rfl

/-! ## Basic actions -/

/-- The record as it is. -/
def get : Action Record := ⟨fun r => ⟨r, [], .ok r⟩⟩

/-- Writes a field. -/
def set (name v : Value) : Action Unit := ⟨fun r => ⟨r.put name v, [], .ok ()⟩⟩

/-- Writes log lines. -/
def log (lines : List Log.Line) : Action Unit := ⟨fun r => ⟨r, lines, .ok ()⟩⟩

/-- Stops with a fault. -/
def stop (fault : Fault) : Action α := ⟨fun r => ⟨r, [], .error fault⟩⟩

/-- Gives what a value is used as, or stops if it is a misfit. -/
def use (x : Except Value.Misfit α) : Action α :=
  match x with
  | .ok x => pure x
  | .error m => stop (.misfit m)

theorem use_ok_bind (x : α) (f : α → Action β) : use (.ok x) >>= f = f x := rfl

/-- Appends a tag. -/
def appendTag (tag : Value) : Action Unit :=
  ⟨fun r =>
    match Record.appendTag r tag with
    | .ok tagged => ⟨tagged, [], .ok ()⟩
    | .error m => ⟨r, [], .error (.misfit m)⟩⟩

/-- Appends tags, one after another. -/
def appendTags : List Value → Action Unit
  | [] => Pure.pure ()
  | tag :: tags => do
    appendTag tag
    appendTags tags

/-- Writes fields, one after another. -/
def setAll : List (Text × Text) → Action Unit
  | [] => Pure.pure ()
  | (name, value) :: rest => do
    set (.text name) (.text value)
    setAll rest

end Action

end Dissection
