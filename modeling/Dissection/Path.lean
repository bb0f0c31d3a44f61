import Dissection.Text

/-!
# Paths

The parts of a path are separated by slashes.  Empty parts and single dots lead
nowhere, so a path has a plain form without them.  Two dots are kept, since the part
before them may be a link to somewhere else.

## Main definitions

* `Path.parts` — the parts of a path.
* `Path.plain` — the plain form of a path.
-/

namespace Dissection.Path

/-- The parts of a path, empty ones among them. -/
def parts : Text → List Text
  | [] => [[]]
  | c :: rest =>
    if c = '/' then [] :: parts rest
    else
      match parts rest with
      | [] => [[c]]
      | part :: more => (c :: part) :: more

/-- What a path from the root starts with.  Exactly two slashes are not the same as one. -/
def root (path : Text) : Text :=
  match path.takeWhile (· = '/') with
  | [] => []
  | ['/', '/'] => ['/', '/']
  | _ => ['/']

/-- The plain form of a path. -/
def plain (path : Text) : Text :=
  let kept := (parts path).filter fun part => part ≠ [] ∧ part ≠ ['.']
  match root path ++ ['/'].intercalate kept with
  | [] => ['.']
  | plain => plain

end Dissection.Path
