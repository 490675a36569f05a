import TeenyTiny.Token
import TeenyTiny.Tree.Basic

/-!
# The tokens that spell a tree

Each line of a tree is listed with one end of line after it. A program has this tree if its tokens,
blank lines apart (`withoutBlankLines`), are the listing.
-/

set_option autoImplicit false

namespace TeenyTiny.Tree

/-! ## Signs -/

/-- The token of a sign. -/
def Sign.lexeme : Sign → Lexeme
  | plus => (.plus, "+")
  | minus => (.minus, "-")

/-- The token of a sign between factors. -/
def FactorSign.lexeme : FactorSign → Lexeme
  | times => (.times, "*")
  | divide => (.divide, "/")

/-- The token of a sign of comparison. -/
def ComparisonSign.lexeme : ComparisonSign → Lexeme
  | equal => (.equal, "==")
  | unequal => (.unequal, "!=")
  | less => (.less, "<")
  | atMost => (.atMost, "<=")
  | greater => (.greater, ">")
  | atLeast => (.atLeast, ">=")

/-! ## Expressions -/

/-- Lists a chain, given how signs and parts are listed. -/
def Chain.lexemes {Sign Part : Type} (sign : Sign → Lexeme) (part : Part → List Lexeme)
    (chain : Chain Sign Part) : List Lexeme :=
  part chain.first ++ chain.others.flatMap fun other => sign other.1 :: part other.2

/-- The token of a primary. -/
def Primary.lexeme : Primary → Lexeme
  | number text => (.number, text)
  | ident name => (.ident, name)

/-- The tokens of a unary. -/
def Unary.lexemes (unary : Unary) : List Lexeme :=
  (unary.sign?.map Sign.lexeme).toList ++ [unary.primary.lexeme]

/-- The tokens of a term. -/
def Term.lexemes (term : Term) : List Lexeme :=
  Chain.lexemes FactorSign.lexeme Unary.lexemes term

/-- The tokens of an expression. -/
def Expression.lexemes (expression : Expression) : List Lexeme :=
  Chain.lexemes Sign.lexeme Term.lexemes expression

/-- The tokens of a comparison. -/
def Comparison.lexemes (comparison : Comparison) : List Lexeme :=
  comparison.first.lexemes ++
    comparison.sign.lexeme ::
      comparison.others.lexemes ComparisonSign.lexeme Expression.lexemes

/-! ## Statements -/

/-- A keyword as a token. -/
def keyword (kind : Kind) : Lexeme :=
  (kind, kind.name)

/-- The end of a line as a token. -/
def newline : Lexeme :=
  (.newline, "\n")

mutual

/-- The tokens of a statement. -/
def Statement.lexemes : Statement → List Lexeme
  | .printText text => [keyword .printWord, (.quoted, text), newline]
  | .print expression => keyword .printWord :: expression.lexemes ++ [newline]
  | .block .branch guard body =>
      keyword .ifWord :: guard.lexemes ++ [keyword .thenWord, newline] ++ body.lexemes ++
        [keyword .endifWord, newline]
  | .block .loop guard body =>
      keyword .whileWord :: guard.lexemes ++ [keyword .repeatWord, newline] ++ body.lexemes ++
        [keyword .endwhileWord, newline]
  | .label name => [keyword .labelWord, (.ident, name), newline]
  | .goto name => [keyword .gotoWord, (.ident, name), newline]
  | .assign name expression =>
      [keyword .letWord, (.ident, name), (.assign, "=")] ++ expression.lexemes ++ [newline]
  | .input name => [keyword .inputWord, (.ident, name), newline]

/-- The tokens of statements in order. -/
def Statements.lexemes : Statements → List Lexeme
  | .nil => []
  | .cons first others => first.lexemes ++ others.lexemes

end

/-- The tokens of a block, with the block's own keywords. -/
@[simp] theorem Statement.lexemes_block (block : Block) (guard : Comparison) (body : Statements) :
    (Statement.block block guard body).lexemes =
      keyword block.opener :: guard.lexemes ++ [keyword block.lead, newline] ++ body.lexemes ++
        [keyword block.closer, newline] := by
  cases block <;> rfl

/-! ## Blank lines -/

/-- Drops every end of line that ends a blank line, given whether a line has just ended. -/
def dropBlankLines (ended : Bool) : List Lexeme → List Lexeme
  | [] => []
  | lexeme :: lexemes =>
      if lexeme.1 = .newline then
        if ended then dropBlankLines true lexemes else lexeme :: dropBlankLines true lexemes
      else lexeme :: dropBlankLines false lexemes

/-- The lexemes of a program without its blank lines, those at the start included. -/
def withoutBlankLines (lexemes : List Lexeme) : List Lexeme :=
  dropBlankLines true lexemes

end TeenyTiny.Tree
