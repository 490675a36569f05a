import TeenyTiny.Fault
import TeenyTiny.Position

/-!
# Diagnostics

A diagnostic is what the user is told: the phase that found the fault, the line and column it
points at, and one line of text.
-/

set_option autoImplicit false

namespace TeenyTiny

/-- A finding about a text, placed by line and column. -/
structure Diagnostic where
  phase : Phase
  position : Position
  message : String
  deriving DecidableEq

namespace Diagnostic

/-- A message about a byte offset of a text. -/
def ofOffset (text : List Char) (phase : Phase) (loc : Nat) (message : String) : Diagnostic :=
  ⟨phase, Position.ofOffset text loc, message⟩

/-- The line shown to the user. -/
def render (diagnostic : Diagnostic) : String :=
  diagnostic.phase.title ++ " error at " ++ diagnostic.position.render ++ ": " ++
    diagnostic.message

end Diagnostic

/-- A fault as the user sees it, given the text that its offset counts in. -/
def Fault.diagnose (fault : Fault) (text : List Char) : Diagnostic :=
  Diagnostic.ofOffset text fault.cause.phase fault.loc fault.cause.message

end TeenyTiny
