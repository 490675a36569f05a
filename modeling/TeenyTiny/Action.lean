import TeenyTiny.Fault
import TeenyTiny.Names
import TeenyTiny.Output
import TeenyTiny.Record

/-!
# Actions

Reading a program calls for actions: writing C, keeping the log, and taking note of names. An
action that breaks a rule about names is not done (`Action.fault?`). Actions are performed in order
up to the first that breaks a rule (`Draft.performAll`).

No action looks at what has been written or logged: the rules are about names alone.
-/

set_option autoImplicit false

namespace TeenyTiny

/-- One thing to do while a program is read. -/
inductive Action where
  /-- Adds a record to the log. -/
  | note (record : Record)
  /-- Adds a line to the header. -/
  | head (line : String)
  /-- Adds text to the body. -/
  | write (text : String)
  /-- Takes in a variable; a new one is logged and declared in the header. -/
  | declare (name : String)
  /-- Takes in the label at an offset, and logs it. It has to be new. -/
  | label (name : String) (loc : Nat)
  /-- Takes in the jump to a label at an offset. -/
  | jump (name : String) (loc : Nat)
  /-- Checks that the variable read at an offset has a value. -/
  | use (name : String) (loc : Nat)
  /-- Checks that every jump has its label. -/
  | settle
  deriving DecidableEq

/-- The rule about names that an action breaks, if it breaks one: a label is set once, a variable
has a value before it is read, and every jump has its label in the end. -/
def Action.fault? (names : Names) : Action → Option Fault
  | .label name loc => if names.hasLabel name then some ⟨.labelTaken name, loc⟩ else none
  | .use name loc => if names.hasVariable name then none else some ⟨.unassigned name, loc⟩
  | .settle => names.missing?.map fun jump => ⟨.labelMissing jump.1, jump.2⟩
  | _ => none

/-- The C program, the names and the log, as far as they have come. -/
structure Draft where
  names : Names := {}
  output : Output := {}
  log : Array Record := #[]

namespace Draft

/-- Adds a record to the log. -/
def note (draft : Draft) (record : Record) : Draft :=
  { draft with log := draft.log.push record }

/-- Adds a line to the header. -/
def head (draft : Draft) (line : String) : Draft :=
  { draft with output := draft.output.headLine line }

/-- Adds text to the body. -/
def write (draft : Draft) (text : String) : Draft :=
  { draft with output := draft.output.write text }

/-- Takes in a variable; a new one is logged and declared in the header. -/
def declare (draft : Draft) (name : String) : Draft :=
  match draft.names.declareVariable name with
  | (true, names) =>
      { draft.note (.newVariable name) with names }.head ("float " ++ targetName name ++ ";")
  | (false, _) => draft

/-- Takes in a label, and logs it. -/
def label (draft : Draft) (name : String) : Draft :=
  { draft.note (.newLabel name) with names := (draft.names.declareLabel name).2 }

/-- Performs an action that breaks no rule. -/
def perform (draft : Draft) : Action → Draft
  | .note record => draft.note record
  | .head line => draft.head line
  | .write text => draft.write text
  | .declare name => draft.declare name
  | .label name _ => draft.label name
  | .jump name loc => { draft with names := draft.names.jumpTo name loc }
  | .use _ _ | .settle => draft

/-- Performs actions in order, up to the first that breaks a rule. -/
def performAll (draft : Draft) : List Action → Draft × Option Fault
  | [] => (draft, none)
  | action :: actions =>
      match action.fault? draft.names with
      | none => (draft.perform action).performAll actions
      | some fault => (draft, some fault)

end Draft

end TeenyTiny
