import TeenyTiny.Compilation

/-!
# Reading a program rule by rule

The grammar has a rule for every sort of phrase. Here every rule reads its own phrase and calls
other rules for the parts of it (`Descent`), where the walk along tokens goes from place to place.
A rule looks at the current token and at the one after it. To pass the current token, one more has
to be read ahead (`Descent.pass`).

A rule that repeats or comes back to itself is entered again only where there is less to read
(`Parser.size`). Where there is not, nothing would keep it from being entered for ever, and it has
no result (`Descent.within`). Nothing in these definitions says that this does not happen.

    program    = end-of-line* statement* end
    statement  = PRINT (string | expression) nl
               | IF comparison THEN nl statement* ENDIF nl
               | WHILE comparison REPEAT nl statement* ENDWHILE nl
               | LABEL ident nl
               | GOTO ident nl
               | LET ident = expression nl
               | INPUT ident nl
    comparison = expression (comparison-sign expression)+
    expression = term ((+ | -) term)*
    term       = unary ((* | /) unary)*
    unary      = [+ | -] primary
    primary    = number | ident
    nl         = end-of-line+
-/

set_option autoImplicit false

namespace TeenyTiny

/-- What the rules see of a program, and what they have done so far. -/
structure Parser where
  current : Token
  /-- The token after the current one. -/
  ahead : Token
  /-- Behind the token after the current one. -/
  cursor : Cursor
  /-- How often a token has been read. -/
  calls : Nat
  draft : Draft
  /-- The tokens that were to be passed, whether or not the next one could be read. -/
  tried : List Token := []
  /-- The tokens that have been passed. -/
  passed : List Token := []

namespace Parser

/-- The first two tokens are read before any rule. -/
def ofCursor (cursor : Cursor) (output : Output) : Except Fault Parser := do
  let current ← cursor.next.1
  let ahead ← cursor.next.2.next.1
  return { current, ahead, cursor := cursor.next.2.next.2, calls := 2, draft := { output } }

/-- How much there is to read: of the two tokens that are seen, those that are not the end of the
text, and the bytes behind them. -/
def size (parser : Parser) : Nat :=
  [parser.current, parser.ahead].countP (·.kind != .eof) + byteLength parser.cursor.rest

end Parser

/-- What a rule does: it has a result, which may be a fault, and leaves a parser, or it does not
end. -/
abbrev Descent := ExceptT Fault (StateT Parser Option)

namespace Descent

/-! ## Single steps -/

/-- Performs actions in order, up to the first that breaks a rule. -/
def act (actions : List Action) : Descent Unit := fun parser =>
  match parser.draft.performAll actions with
  | (draft, none) => some (.ok (), { parser with draft })
  | (draft, some fault) => some (.error fault, { parser with draft })

/-- The current token. -/
def current : Descent Token :=
  return (← get).current

/-- Refuses the current token. -/
def refuse {α : Type} (cause : Cause) : Descent α := do
  throw ⟨cause, (← current).loc⟩

/-- Passes the current token and reads one more ahead. -/
def pass : Descent Token := fun parser =>
  let tried : Parser := { parser with
    cursor := parser.cursor.next.2
    calls := parser.calls + 1
    tried := parser.tried ++ [parser.current] }
  match parser.cursor.next.1 with
  | .error fault => some (.error fault, tried)
  | .ok token =>
      some (.ok parser.current, { tried with
        current := parser.ahead
        ahead := token
        passed := parser.passed ++ [parser.current] })

/-- Passes a token of one kind only. -/
def expect (wanted : Kind) : Descent Token := do
  let token ← current
  if token.kind = wanted then pass else refuse (.expected wanted token.kind)

/-- A rule that is entered again, given how much there was to read when it was entered before. If
there is no less to read, it has no result. -/
def within (size : Nat)
    (rule : (parser : Parser) → parser.size < size → Option (Except Fault Unit × Parser)) :
    Descent Unit := fun parser =>
  if fewer : parser.size < size then rule parser fewer else none

/-- Does something over and over, as long as the current token is of certain kinds. -/
def repeatWhile (goes : Kind → Bool) (body : Descent Unit) : Descent Unit := fun parser =>
  (if goes parser.current.kind then do
      body
      within parser.size fun after _ => repeatWhile goes body after
    else return () : Descent Unit) parser
termination_by parser => parser.size

/-! ## Ends of lines -/

/-- Blank lines, if there are any. -/
def blanks : Descent Unit :=
  repeatWhile (· == .newline) do
    let _ ← pass
    return ()

/-- The end of a line, and blank lines. -/
def lineEnds : Descent Unit := do
  let _ ← expect .newline
  blanks

/-! ## Expressions -/

/-- A number, or a variable that has a value. -/
def primary : Descent Unit := do
  let token ← current
  act [.note (.primary token.describe)]
  match token.kind with
  | .number =>
      let number ← pass
      act [.write (targetNumber number.text)]
  | .ident =>
      act [.use token.text token.loc]
      let ident ← pass
      act [.write (targetName ident.text)]
  | _ => refuse (.badOperand token.describe)

/-- A sign, if there is one. -/
def sign : Descent Unit := do
  let token ← current
  if token.kind.isSign then
    let sign ← pass
    act [.write sign.text]

/-- An operand of a term, with or without a sign. -/
def unary : Descent Unit := do
  act [.note .unary]
  sign
  primary

/-- An operator, and what follows it. -/
def behind (part : Descent Unit) : Descent Unit := do
  let operator ← pass
  act [.write (" " ++ operator.text ++ " ")]
  part

/-- More parts, each behind an operator. -/
def joined (joins : Kind → Bool) (part : Descent Unit) : Descent Unit :=
  repeatWhile joins (behind part)

/-- Operands that are multiplied and divided. -/
def term : Descent Unit := do
  act [.note .term]
  unary
  joined Kind.isFactorSign unary

/-- Terms that are added and subtracted. -/
def expression : Descent Unit := do
  act [.note .expression]
  term
  joined Kind.isSign term

/-- More sides of a comparison, at least one. -/
def sides : Descent Unit := do
  let token ← current
  if token.kind.isComparison then joined Kind.isComparison expression
  else refuse (.noComparison token.describe)

/-- Two expressions or more, compared. -/
def comparison : Descent Unit := do
  act [.note .comparison]
  expression
  sides

/-! ## Statements -/

/-- What is printed: a string, or the value of an expression. -/
def printed : Descent Unit := do
  let token ← current
  if token.kind = .quoted then
    let text ← pass
    act [.write ("printf(\"" ++ text.text ++ "\\n\");\n")]
  else
    act [.write "printf(\"%.2f\\n\", (float)("]
    expression
    act [.write "));\n"]

/-- A name that is taken in, and what is written for it. -/
def named (taken : Token → Action) (written : String → String) : Descent Unit := do
  let token ← expect .ident
  act [taken token]
  act [.write (written token.text)]

/-- The name of a label that is set. -/
def labelled : Descent Unit :=
  named (fun token => .label token.text token.loc) (targetName · ++ ":;\n")

/-- The name of a label that is jumped to. -/
def jumped : Descent Unit :=
  named (fun token => .jump token.text token.loc) ("goto " ++ targetName · ++ ";\n")

/-- The name of a variable that is read in. -/
def entered : Descent Unit :=
  named (fun token => .declare token.text) (Place.inputLines <| targetName ·)

/-- The name of a variable, and the expression that it is set to. -/
def assigned : Descent Unit := do
  let target ← expect .ident
  act [.declare target.text]
  let _ ← expect .assign
  act [.write (targetName target.text ++ " = ")]
  expression
  act [.write ";\n"]

/-- What comes before the lines of a block. -/
def heading (kind : Block) : Descent Unit := do
  act [.write kind.opening]
  comparison
  let _ ← expect kind.lead
  lineEnds
  act [.write ")\x7b\n"]

section Statements

/-! Statements are read by what reads the lines of a block, since a statement may have blocks in it
and a block has statements in it. -/

variable (lines : Block → Descent Unit)

/-- A block behind the keyword that opens it. -/
def enclosed (kind : Block) : Descent Unit := do
  heading kind
  lines kind
  act [.write "\x7d\n"]

/-- A statement without the end of its line, by its keyword. -/
def clause (keyword : Token) : Descent Unit :=
  match keyword.kind with
  | .printWord => do
      let _ ← pass
      printed
  | .ifWord => do
      let _ ← pass
      enclosed lines .branch
  | .whileWord => do
      let _ ← pass
      enclosed lines .loop
  | .labelWord => do
      let _ ← pass
      labelled
  | .gotoWord => do
      let _ ← pass
      jumped
  | .letWord => do
      let _ ← pass
      assigned
  | .inputWord => do
      let _ ← pass
      entered
  | kind => refuse (.badStatement keyword.describe kind)

/-- A statement, with the end of its line. -/
def statementBy : Descent Unit := do
  let parser ← get
  act [.note (.statement parser.current.kind parser.ahead.kind)]
  clause lines parser.current
  lineEnds

end Statements

/-- The statements of a block, up to and including the keyword that closes it. -/
def block (kind : Block) : Descent Unit := fun parser =>
  (if parser.current.kind = kind.closer then do
      let _ ← expect kind.closer
      return ()
    else if parser.current.kind = .eof then refuse (.expected kind.closer .eof)
    else do
      statementBy fun inner => within parser.size fun after _ => block inner after
      within parser.size fun after _ => block kind after : Descent Unit) parser
termination_by parser => parser.size

/-- A statement, with the blocks in it. -/
def statement : Descent Unit :=
  statementBy block

/-- A whole program. -/
def program : Descent Unit := do
  act prologue
  blanks
  repeatWhile (· != .eof) statement
  act [.write "return 0;\n"]
  act [.write "\x7d\n"]
  act [.settle]

end Descent

/-- The rules of the grammar. -/
inductive Rule where
  | program
  | statement
  /-- The statements of a block, up to the keyword that closes it. -/
  | block (kind : Block)
  | lineEnds
  | comparison
  | expression
  | term
  | unary
  | primary

/-- What a rule does. -/
def Rule.run : Rule → Descent Unit
  | program => Descent.program
  | statement => Descent.statement
  | block kind => Descent.block kind
  | lineEnds => Descent.lineEnds
  | comparison => Descent.comparison
  | expression => Descent.expression
  | term => Descent.term
  | unary => Descent.unary
  | primary => Descent.primary

/-- What compiling comes to where it is left to a rule. -/
def Descent.compiles (rule : Descent Unit) (parser : Parser) : Option Compilation :=
  match rule parser with
  | none => none
  | some (.ok (), after) => some ⟨after.draft, none⟩
  | some (.error fault, after) => some ⟨after.draft, some fault⟩

/-- Compiles the rest of a text rule by rule, adding to what has been written. -/
def Cursor.descend (cursor : Cursor) (output : Output) : Option Compilation :=
  match Parser.ofCursor cursor output with
  | .error fault => some ⟨{ output }, some fault⟩
  | .ok parser => Descent.compiles Descent.program parser

end TeenyTiny
