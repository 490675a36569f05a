import TeenyTiny.Block

/-!
# Syntax trees

A program as a tree. The tree carries no layout: programs that differ only in blank lines, blanks
and comments have one tree.
-/

set_option autoImplicit false

namespace TeenyTiny.Tree

/-- A sign before an operand, or between two terms. -/
inductive Sign where
  | plus
  | minus

/-- A sign between two factors. -/
inductive FactorSign where
  | times
  | divide

/-- A sign between two expressions that are compared. -/
inductive ComparisonSign where
  | equal
  | unequal
  | less
  | atMost
  | greater
  | atLeast

/-- One part, and then any number of parts, each with a sign before it. -/
structure Chain (Sign Part : Type) where
  first : Part
  others : List (Sign × Part)

/-- A number or a variable. -/
inductive Primary where
  | number (text : String)
  | ident (name : String)

/-- A primary, with or without a sign. -/
structure Unary where
  sign? : Option Sign
  primary : Primary

/-- Unaries that are multiplied and divided. -/
abbrev Term := Chain FactorSign Unary

/-- Terms that are added and subtracted. -/
abbrev Expression := Chain Sign Term

/-- An expression, and then one or more others, each with a sign of comparison before it. -/
structure Comparison where
  first : Expression
  sign : ComparisonSign
  others : Chain ComparisonSign Expression

mutual

/-- A statement. -/
inductive Statement where
  | printText (text : String)
  | print (expression : Expression)
  | block (block : Block) (guard : Comparison) (body : Statements)
  | label (name : String)
  | goto (name : String)
  | assign (name : String) (expression : Expression)
  | input (name : String)

/-- Statements in order. -/
inductive Statements where
  | nil
  | cons (first : Statement) (others : Statements)

end

end TeenyTiny.Tree
