import TeenyTiny.Kind

/-!
# Log records

While it works, the compiler keeps a log. A record has a level; a run with a given verbosity
shows the records whose level it admits (`Level.admits`).

A line of the log shows more than the record (`Entry`): it is stamped with the place in the compiler
and the time at which it was written. Records are what two runs have in common, stamps are not.
-/

set_option autoImplicit false

namespace TeenyTiny

/-- How much a record matters, the weightiest first. -/
inductive Level where
  | error
  | warn
  | info
  | debug
  | trace
  deriving DecidableEq

namespace Level

/-- The display name of a level. -/
def name : Level → String
  | error => "ERROR"
  | warn => "WARN"
  | info => "INFO"
  | debug => "DEBUG"
  | trace => "TRACE"

/-- The verbosity that first shows records of a level. -/
def rank : Level → Nat
  | error => 0
  | warn => 1
  | info => 2
  | debug => 3
  | trace => 4

/-- Whether a log kept at one level shows records of another. -/
def admits (shown level : Level) : Bool :=
  level.rank ≤ shown.rank

/-- The level that a verbosity asks for; there is none past the most detailed. -/
def ofVerbosity? : Nat → Option Level
  | 0 => some error
  | 1 => some warn
  | 2 => some info
  | 3 => some debug
  | 4 => some trace
  | _ => none

/-- What is said of a verbosity that asks for no level. -/
def excessMessage (verbosity : Nat) : String :=
  "verbosity " ++ toString verbosity ++ " is above the maximum of 4"

end Level

/-- One entry of the log. -/
inductive Record where
  /-- The log starts, at a level. -/
  | logging (level : Level)
  /-- A file is about to be compiled. -/
  | compiling (path : String)
  /-- A file has been compiled. -/
  | wrote (path : String)
  /-- The program is entered. -/
  | program
  /-- A statement is entered at a token, with another after it. -/
  | statement (first second : Kind)
  | comparison
  | expression
  | term
  | unary
  /-- A primary is entered at a token with this description. -/
  | primary (description : String)
  /-- A variable is met for the first time. -/
  | newVariable (name : String)
  /-- A label is set. -/
  | newLabel (name : String)
  deriving DecidableEq

namespace Record

/-- The level of a record. -/
def level : Record → Level
  | compiling _ | wrote _ => .info
  | newVariable _ | newLabel _ => .debug
  | _ => .trace

/-- The text of a record. -/
def message : Record → String
  | logging level => "logger verbosity " ++ level.name
  | compiling path => "compiling " ++ path
  | wrote path => "compilation completed, wrote " ++ path
  | program => "program"
  | statement first second => "statement " ++ first.name ++ " (next " ++ second.name ++ ")"
  | comparison => "comparison"
  | expression => "expression"
  | term => "term"
  | unary => "unary"
  | primary description => "primary (" ++ description ++ ")"
  | newVariable name => "declared variable " ++ name
  | newLabel name => "declared label " ++ name

/-- A record without a stamp: its level, then its text. -/
def render (record : Record) : String :=
  record.level.name ++ " " ++ record.message

end Record

/-- Where and when a record was written. -/
structure Stamp where
  /-- The file of the compiler that wrote it, if this is known. -/
  file? : Option String := none
  /-- The line of that file, if this is known. -/
  line? : Option Nat := none
  /-- The time, as the clock words it. -/
  time : String := ""

/-- A stamp as text. -/
def Stamp.render (stamp : Stamp) : String :=
  stamp.file?.getD "unknown" ++ ":" ++ toString (stamp.line?.getD 0) ++ " " ++ stamp.time

/-- A record with its stamp. -/
structure Entry where
  stamp : Stamp
  record : Record

/-- A line of the log: level and stamp in brackets, then the text. -/
def Entry.render (entry : Entry) : String :=
  "[" ++ entry.record.level.name ++ " " ++ entry.stamp.render ++ "] " ++ entry.record.message

end TeenyTiny
