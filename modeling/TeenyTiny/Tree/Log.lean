import TeenyTiny.Record
import TeenyTiny.Tree.Listing
import TeenyTiny.Tree.Naming

/-!
# The log of a tree

The records that reading a program leaves are the nodes of its tree, each before its parts. A
variable that is set for the first time and a label are recorded directly after the statement
that sets them.
-/

set_option autoImplicit false

namespace TeenyTiny.Tree

/-- The records of the parts of a chain in order. -/
def Chain.records {Sign Part : Type} (part : Part → List Record) (chain : Chain Sign Part) :
    List Record :=
  part chain.first ++ chain.others.flatMap fun other => part other.2

/-- The records of a unary. -/
def Unary.records (unary : Unary) : List Record :=
  [.unary, .primary unary.primary.lexeme.2]

/-- The records of a term. -/
def Term.records (term : Term) : List Record :=
  .term :: Chain.records Unary.records term

/-- The records of an expression. -/
def Expression.records (expression : Expression) : List Record :=
  .expression :: Chain.records Term.records expression

/-- The records of a comparison. -/
def Comparison.records (comparison : Comparison) : List Record :=
  .comparison :: comparison.first.records ++ comparison.others.records Expression.records

/-- The record of a statement, from its tokens: the kinds of the first two. -/
def entry : List Lexeme → List Record
  | first :: second :: _ => [.statement first.1 second.1]
  | _ => []

/-- The record of a variable that is set, if it is new. -/
def novelty (known : List String) (name : String) : List Record :=
  if name ∈ known then [] else [.newVariable name]

mutual

/-- The records of a statement, given the variables that were set before it. -/
def Statement.records (known : List String) : Statement → List Record
  | .printText text => entry (Statement.printText text).lexemes
  | .print expression => entry (Statement.print expression).lexemes ++ expression.records
  | .block block guard body =>
      entry (Statement.block block guard body).lexemes ++ guard.records ++ body.records known
  | .label name => entry (Statement.label name).lexemes ++ [.newLabel name]
  | .goto name => entry (Statement.goto name).lexemes
  | .assign name expression =>
      entry (Statement.assign name expression).lexemes ++ novelty known name ++
        expression.records
  | .input name => entry (Statement.input name).lexemes ++ novelty known name

/-- The records of statements in order, given the variables that were set before them. -/
def Statements.records (known : List String) : Statements → List Record
  | .nil => []
  | .cons first others => first.records known ++ others.records (known ++ first.targets)

end

/-- The log of a program. -/
def Statements.log (program : Statements) : List Record :=
  .program :: program.records []

end TeenyTiny.Tree
