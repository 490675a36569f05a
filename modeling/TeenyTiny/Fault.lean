import TeenyTiny.Kind

/-!
# Faults

A program is refused for one of a fixed list of causes. Each cause belongs to a phase: reading
the text into tokens, fitting the tokens to the grammar, or checking what the names mean. A fault
is a cause together with the byte offset it points at.
-/

set_option autoImplicit false

namespace TeenyTiny

/-- The part of the work that found a fault. -/
inductive Phase where
  | lexing
  | grammar
  | meaning
  deriving DecidableEq

namespace Phase

/-- The name of a phase at the front of a diagnostic. -/
def title : Phase → String
  | lexing => "lexing"
  | grammar => "syntax"
  | meaning => "semantic"

end Phase

/-- Why a program is refused. -/
inductive Cause where
  /-- An exclamation mark without the equals sign it needs; with the character in its place,
  unless the line or the text ends there. -/
  | loneBang (next : Option Char)
  /-- A character that may not stand in a string. -/
  | badStringChar
  /-- A decimal point without a digit after it. -/
  | badNumberChar
  /-- A character that starts no token. -/
  | unknownChar (c : Char)
  /-- A token of one kind was needed and another stood there. -/
  | expected (wanted found : Kind)
  /-- A token that starts no statement. -/
  | badStatement (description : String) (kind : Kind)
  /-- A guard without a comparison. -/
  | noComparison (description : String)
  /-- A token that is no operand. -/
  | badOperand (description : String)
  /-- A variable that has no value yet. -/
  | unassigned (name : String)
  /-- A label that was set before. -/
  | labelTaken (name : String)
  /-- A jump to a label that is set nowhere. -/
  | labelMissing (name : String)
  deriving DecidableEq

namespace Cause

/-- The phase that finds a cause. -/
def phase : Cause → Phase
  | loneBang _ | badStringChar | badNumberChar | unknownChar _ => .lexing
  | expected _ _ | badStatement _ _ | noComparison _ | badOperand _ => .grammar
  | unassigned _ | labelTaken _ | labelMissing _ => .meaning

/-- What a diagnostic says of a cause. -/
def message : Cause → String
  | loneBang next => "expected !=, got !" ++ (next.elim "" Char.toString)
  | badStringChar => "illegal character in string"
  | badNumberChar => "illegal character in number"
  | unknownChar c => "unknown token: '" ++ c.toString ++ "'"
  | expected wanted found => "expected " ++ wanted.name ++ ", got " ++ found.name
  | badStatement description kind =>
      "invalid statement at " ++ description ++ " (" ++ kind.name ++ ")"
  | noComparison description => "expected comparison operator at: " ++ description
  | badOperand description => "unexpected token at " ++ description
  | unassigned name => "referencing variable before assignment: " ++ name
  | labelTaken name => "label already exists: " ++ name
  | labelMissing name => "attempting to GOTO undeclared label: " ++ name

end Cause

/-- A cause and the byte offset it points at. -/
structure Fault where
  cause : Cause
  loc : Nat
  deriving DecidableEq

end TeenyTiny
