import Dissection.Text.Quoted
import Dissection.Text.Similarity

/-!
# Arguments

The arguments of a command are options and operands.  An option has a long name, and may
have a letter; options that are letters may share an argument.  An option that takes a
value takes what is left of its own argument, or else the next argument whatever that
is.  Two dashes alone end the options.

## Main definitions

* `Declared` — an option as a command declares it.
* `Given` — the options and operands that are given to a command.
* `Given.ofArguments` — reads arguments.
* `Misuse` — why arguments cannot be read.
-/

namespace Dissection.CommandLine

/-- An option as a command declares it. -/
structure Declared (α : Type) where
  /-- What the option stands for. -/
  option : α
  /-- The long name, with its dashes. -/
  long : Text
  /-- The letter of the short name. -/
  letter : Option Char := none
  takesValue : Bool := false

/-- Why arguments cannot be read. -/
inductive Misuse where
  /-- There is no such option, but there are some with names like it. -/
  | unknown (name : Text) (similar : List Text)
  | lacksValue (name : Text)
  | takesNoValue (name : Text)
  deriving DecidableEq, Repr

/-- The question whether one of some names was meant. -/
def suggestion (similar : List Text) : Text :=
  match similar with
  | [] => []
  | [name] => " Did you mean " ++ name.quoted ++ "?"
  | names =>
    " (Did you mean one of: " ++
      (", " : Text).intercalate ((names.mergeSort fun a b => ¬ b < a).map Text.quoted) ++ "?)"

/-- What is said of a misuse. -/
def Misuse.message : Misuse → Text
  | .unknown name similar => "No such option " ++ name.quoted ++ "." ++ suggestion similar
  | .lacksValue name => "Option " ++ name.quoted ++ " requires an argument."
  | .takesNoValue name => "Option " ++ name.quoted ++ " does not take a value."

/-! ## One argument -/

/-- What an argument with options says: the options it gives with their values, and the
option that it leaves without its value, under the name it is given by. -/
structure Reading (α : Type) where
  options : List (α × Text) := []
  open? : Option (α × Text) := none

variable {α : Type}

/-- Reads letters as options, up to one that takes a value. -/
def readLetters (declared : List (Declared α)) : Text → Except Misuse (Reading α)
  | [] => .ok {}
  | c :: rest =>
    match declared.find? (·.letter = some c) with
    | none => .error (.unknown ['-', c] [])
    | some d =>
      if d.takesValue then
        .ok (if rest = [] then { open? := some (d.option, ['-', c]) }
          else { options := [(d.option, rest)] })
      else
        (readLetters declared rest).map fun reading =>
          { reading with options := (d.option, []) :: reading.options }

/-- The name in an argument and the value that an equals sign attaches to it. -/
def splitAttached (argument : Text) : Text × Option Text :=
  match Text.cut? ['='] argument with
  | some (name, value) => (name, some value)
  | none => (argument, none)

/-- Reads an argument with options.  It is a long name if it can be; letters follow a
single dash only. -/
def readOptions (declared : List (Declared α)) (argument : Text) : Except Misuse (Reading α) :=
  let (name, attached) := splitAttached argument
  match declared.find? (·.long = name), attached with
  | some d, some value =>
    if d.takesValue then .ok { options := [(d.option, value)] } else .error (.takesNoValue name)
  | some d, none =>
    .ok (if d.takesValue then { open? := some (d.option, name) }
      else { options := [(d.option, [])] })
  | none, _ =>
    match argument with
    | '-' :: '-' :: _ =>
      .error (.unknown name (Text.nearest name (declared.map (·.long))))
    | _ => readLetters declared (argument.drop 1)

/-- Whether an argument gives options.  A dash alone is an operand. -/
def isOption (argument : Text) : Bool := argument.head? = some '-' && 1 < argument.length

/-! ## All arguments -/

/-- The options and operands that are given to a command. -/
structure Given (α : Type) where
  /-- The options in their order, with their values; an option that takes none has an
  empty one. -/
  options : List (α × Text)
  operands : List Text

namespace Given

/-- More options in front. -/
def withOptions (given : Given α) (options : List (α × Text)) : Given α :=
  { given with options := options ++ given.options }

/-- Another operand in front. -/
def withOperand (given : Given α) (operand : Text) : Given α :=
  { given with operands := operand :: given.operands }

/-- Reads arguments.  If operands and options may not be mixed, what follows the first
operand is an operand, whatever it looks like. -/
def ofArguments (declared : List (Declared α)) (mixed : Bool) :
    List Text → Except Misuse (Given α)
  | [] => .ok ⟨[], []⟩
  | argument :: rest =>
    if argument = ['-', '-'] then .ok ⟨[], rest⟩
    else if isOption argument then
      match readOptions declared argument with
      | .error misuse => .error misuse
      | .ok ⟨options, none⟩ => (ofArguments declared mixed rest).map (·.withOptions options)
      | .ok ⟨options, some (option, name)⟩ =>
        match rest with
        | [] => .error (.lacksValue name)
        | value :: rest =>
          (ofArguments declared mixed rest).map (·.withOptions (options ++ [(option, value)]))
    else if mixed then (ofArguments declared mixed rest).map (·.withOperand argument)
    else .ok ⟨[], argument :: rest⟩

variable [DecidableEq α]

/-- Every value that is given for an option. -/
def values (given : Given α) (option : α) : List Text :=
  (given.options.filter (·.1 = option)).map (·.2)

/-- The value that is given for an option; the last one counts. -/
def value? (given : Given α) (option : α) : Option Text := (given.values option).getLast?

/-- Whether an option is given. -/
def has (given : Given α) (option : α) : Bool := given.options.any (·.1 = option)

end Given

end Dissection.CommandLine
