/-!
# The names of a program

Variables and labels live in separate spaces. A variable comes into being where it is first
assigned or read in. A label is set once. A jump may come before its label, so jumps are kept
until the program has been read, each label with the offset of the first jump to it.

All three lists are in order of first occurrence.
-/

set_option autoImplicit false

namespace TeenyTiny

/-- The names met so far. -/
structure Names where
  vars : List String := []
  labels : List String := []
  /-- Each label that is jumped to, with the offset of the first jump to it. -/
  jumps : List (String × Nat) := []
  deriving DecidableEq

namespace Names

/-- Whether a variable has been met. -/
def hasVariable (names : Names) (name : String) : Bool :=
  names.vars.contains name

/-- Whether a label has been set. -/
def hasLabel (names : Names) (name : String) : Bool :=
  names.labels.contains name

/-- Whether a label has been jumped to. -/
def hasJump (names : Names) (name : String) : Bool :=
  names.jumps.any (·.1 == name)

/-- Takes in a variable, and says whether it is new. -/
def declareVariable (names : Names) (name : String) : Bool × Names :=
  if names.hasVariable name then (false, names)
  else (true, { names with vars := names.vars ++ [name] })

/-- Takes in a label, and says whether it is new. -/
def declareLabel (names : Names) (name : String) : Bool × Names :=
  if names.hasLabel name then (false, names)
  else (true, { names with labels := names.labels ++ [name] })

/-- Takes in a jump. Only the first jump to a label is kept. -/
def jumpTo (names : Names) (name : String) (loc : Nat) : Names :=
  if names.hasJump name then names else { names with jumps := names.jumps ++ [(name, loc)] }

/-- The jump with the least offset, the earlier entry if two share it. -/
def earliest? : List (String × Nat) → Option (String × Nat)
  | [] => none
  | jump :: jumps =>
      match earliest? jumps with
      | none => some jump
      | some other => if jump.2 ≤ other.2 then some jump else some other

/-- The earliest jump whose label has not been set. -/
def missing? (names : Names) : Option (String × Nat) :=
  earliest? (names.jumps.filter fun jump => !names.hasLabel jump.1)

end Names

end TeenyTiny
