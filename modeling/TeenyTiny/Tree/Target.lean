import TeenyTiny.Output
import TeenyTiny.Tree.Listing
import TeenyTiny.Tree.Naming

/-!
# The C text of a tree

What a tree means in C, by recursion on the tree: each statement by itself, and a program as its
opening, one declaration for each variable in order of first occurrence, its statements and its
end.
-/

set_option autoImplicit false

namespace TeenyTiny.Tree

/-! ## Expressions -/

/-- Writes a chain, with a blank on either side of each sign. -/
def Chain.toC {Sign Part : Type} (sign : Sign → Lexeme) (part : Part → String)
    (chain : Chain Sign Part) : String :=
  part chain.first ++
    String.join (chain.others.map fun other => " " ++ (sign other.1).2 ++ " " ++ part other.2)

/-- The C text of a primary. -/
def Primary.toC : Primary → String
  | number text => targetNumber text
  | ident name => targetName name

/-- The C text of a unary: its sign stands directly before it. -/
def Unary.toC (unary : Unary) : String :=
  (unary.sign?.elim "" fun sign => sign.lexeme.2) ++ unary.primary.toC

/-- The C text of a term. -/
def Term.toC (term : Term) : String :=
  Chain.toC FactorSign.lexeme Unary.toC term

/-- The C text of an expression. -/
def Expression.toC (expression : Expression) : String :=
  Chain.toC Sign.lexeme Term.toC expression

/-- The C text of a comparison. -/
def Comparison.toC (comparison : Comparison) : String :=
  comparison.first.toC ++ " " ++ comparison.sign.lexeme.2 ++ " " ++
    comparison.others.toC ComparisonSign.lexeme Expression.toC

/-! ## Statements -/

mutual

/-- The C text of a statement. -/
def Statement.toC : Statement → String
  | .printText text => "printf(\"" ++ text ++ "\\n\");\n"
  | .print expression => "printf(\"%.2f\\n\", (float)(" ++ expression.toC ++ "));\n"
  | .block .branch guard body => "if(" ++ guard.toC ++ ")\x7b\n" ++ body.toC ++ "\x7d\n"
  | .block .loop guard body => "while(" ++ guard.toC ++ ")\x7b\n" ++ body.toC ++ "\x7d\n"
  | .label name => targetName name ++ ":;\n"
  | .goto name => "goto " ++ targetName name ++ ";\n"
  | .assign name expression => targetName name ++ " = " ++ expression.toC ++ ";\n"
  | .input name =>
      "if(scanf(\"%f\", &" ++ targetName name ++ ") != 1) \x7b\n" ++ targetName name ++
        " = 0;\nscanf(\"%*[^\\n]\");\n\x7d\n"

/-- The C text of statements in order. -/
def Statements.toC : Statements → String
  | .nil => ""
  | .cons first others => first.toC ++ others.toC

end

/-! ## Programs -/

/-- The declaration of a variable in C. -/
def declaration (name : String) : String :=
  "float " ++ targetName name ++ ";\n"

/-- The header of the C program for a program. -/
def Statements.header (program : Statements) : String :=
  "#include <stdio.h>\nint main(void)\x7b\n" ++
    String.join ((firstOccurrences [] program.targets).map declaration)

/-- The body of the C program for a program. -/
def Statements.body (program : Statements) : String :=
  program.toC ++ "return 0;\n\x7d\n"

end TeenyTiny.Tree
