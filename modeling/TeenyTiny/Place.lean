import TeenyTiny.Action
import TeenyTiny.Block
import TeenyTiny.Token

/-!
# Places in a program

A program is read from left to right and never backwards. What may come next is fixed by the
place reached within the current line and by the blocks that are open around it. At each place a
token either fits, and leads to the next place, or is refused (`Place.move`).

The lines of a program are these, with an end of line after each. Blank lines may stand anywhere
between two of them.

    PRINT (string | expression)
    IF comparison THEN … ENDIF
    WHILE comparison REPEAT … ENDWHILE
    LABEL ident
    GOTO ident
    LET ident = expression
    INPUT ident

    comparison = expression (comparison-sign expression)+
    expression = term ((+ | -) term)*
    term       = unary ((* | /) unary)*
    unary      = [+ | -] primary
    primary    = number | ident

Every move says what to do at once and what is owed for the token once it has been passed. The
two are kept apart because passing a token means reading one token further ahead, which may fail;
what is owed is then never done.
-/

set_option autoImplicit false

namespace TeenyTiny

/-- What an expression is for, which fixes what may follow it. -/
inductive Purpose where
  /-- It is printed. -/
  | printed
  /-- It is assigned to a variable. -/
  | assigned
  /-- It is the first side of the guard of a block. -/
  | guard (block : Block)
  /-- It is a later side of the guard of a block. -/
  | compared (block : Block)
  deriving DecidableEq

/-- A place within a program, the open blocks aside. -/
inductive Place where
  /-- The start of a line. -/
  | line
  /-- After PRINT. -/
  | printItem
  /-- Where an operand starts, with or without a sign. -/
  | operand (purpose : Purpose)
  /-- After a sign. -/
  | primary (purpose : Purpose)
  /-- After an operand. -/
  | operator (purpose : Purpose)
  | labelName
  | gotoName
  | letName
  | inputName
  /-- After LET and the name of a variable. -/
  | letSign (name : String)
  /-- Where the line has to end. -/
  | lineEnd
  /-- Where the first line of a block has to end. -/
  | leadEnd (block : Block)
  /-- After the first line of a block, where blank lines may follow. -/
  | bodyStart (block : Block)
  deriving DecidableEq

/-- What a token leads to. -/
inductive Step where
  /-- The token is passed: the place and the open blocks after it, and what is owed for it. -/
  | pass (place : Place) (blocks : List Block) (owed : List Action)
  /-- The token does not fit. -/
  | refuse (cause : Cause)
  /-- The program is complete. -/
  | finish
  deriving DecidableEq

/-- What to do at a token, and what it leads to. -/
structure Move where
  now : List Action
  step : Step
  deriving DecidableEq

namespace Move

/-- A move that does nothing at once. -/
def pass (place : Place) (blocks : List Block) (owed : List Action) : Move :=
  ⟨[], .pass place blocks owed⟩

/-- A refusal that does nothing at once. -/
def refuse (cause : Cause) : Move :=
  ⟨[], .refuse cause⟩

/-- The same move, with something done before. -/
def after (first : List Action) (move : Move) : Move :=
  ⟨first ++ move.now, move.step⟩

end Move

namespace Place

/-! ## One kind of token only -/

/-- Only a token of one kind fits. -/
def expect (wanted : Kind) (token : Token) (place : Place) (blocks : List Block)
    (owed : List Action) : Move :=
  if token.kind = wanted then .pass place blocks owed else .refuse (.expected wanted token.kind)

/-- Only the end of the line fits. -/
def endLine (blocks : List Block) (token : Token) : Move :=
  expect .newline token .line blocks []

/-! ## Expressions -/

/-- The records of an expression that starts. -/
def enterExpression : List Action :=
  [.note .expression, .note .term, .note .unary]

/-- A number, or a variable that has a value. -/
def atPrimary (purpose : Purpose) (blocks : List Block) (token : Token) : Move :=
  .after [.note (.primary token.describe)] <|
    match token.kind with
    | .number => .pass (.operator purpose) blocks [.write (targetNumber token.text)]
    | .ident =>
        .after [.use token.text token.loc]
          (.pass (.operator purpose) blocks [.write (targetName token.text)])
    | _ => .refuse (.badOperand token.describe)

/-- A sign, or a primary without one. -/
def atOperand (purpose : Purpose) (blocks : List Block) (token : Token) : Move :=
  if token.kind.isSign then .pass (.primary purpose) blocks [.write token.text]
  else atPrimary purpose blocks token

/-- An operator, after which an operand has to follow. -/
def join (purpose : Purpose) (blocks : List Block) (token : Token) (records : List Action) :
    Move :=
  .pass (.operand purpose) blocks (.write (" " ++ token.text ++ " ") :: records)

/-- What follows an expression that does not go on. -/
def closeExpression (blocks : List Block) (token : Token) : Purpose → Move
  | .printed => .after [.write "));\n"] (endLine blocks token)
  | .assigned => .after [.write ";\n"] (endLine blocks token)
  | .guard block =>
      if token.kind.isComparison then join (.compared block) blocks token enterExpression
      else .refuse (.noComparison token.describe)
  | .compared block =>
      if token.kind.isComparison then join (.compared block) blocks token enterExpression
      else expect block.lead token (.leadEnd block) blocks []

/-- An operator that goes on with the expression, or what follows it. -/
def atOperator (purpose : Purpose) (blocks : List Block) (token : Token) : Move :=
  match token.kind with
  | .times | .divide => join purpose blocks token [.note .unary]
  | .plus | .minus => join purpose blocks token [.note .term, .note .unary]
  | _ => closeExpression blocks token purpose

/-! ## Lines -/

/-- A string to print, or an expression. -/
def atPrintItem (blocks : List Block) (token : Token) : Move :=
  match token.kind with
  | .quoted => .pass .lineEnd blocks [.write ("printf(\"" ++ token.text ++ "\\n\");\n")]
  | _ =>
      .after (.write "printf(\"%.2f\\n\", (float)(" :: enterExpression)
        (atOperand .printed blocks token)

/-- The C lines that read a number into a variable; what is no number is dropped up to the end of
its line and counts as zero. -/
def inputLines (name : String) : String :=
  "if(scanf(\"%f\", &" ++ name ++ ") != 1) \x7b\n" ++ (name ++ " = 0;\n") ++
    "scanf(\"%*[^\\n]\");\n" ++ "\x7d\n"

/-- The first line of a block. -/
def openBlock (block : Block) (blocks : List Block) : Move :=
  .pass (.operand (.guard block)) blocks
    (.write block.opening :: .note .comparison :: enterExpression)

/-- The keyword of a statement. -/
def atStatement (blocks : List Block) (token : Token) (next : Kind) : Move :=
  .after [.note (.statement token.kind next)] <|
    match token.kind with
    | .printWord => .pass .printItem blocks []
    | .ifWord => openBlock .branch blocks
    | .whileWord => openBlock .loop blocks
    | .labelWord => .pass .labelName blocks []
    | .gotoWord => .pass .gotoName blocks []
    | .letWord => .pass .letName blocks []
    | .inputWord => .pass .inputName blocks []
    | kind => .refuse (.badStatement token.describe kind)

/-- A blank line, the end of what is open, or a statement. -/
def atLine (blocks : List Block) (token : Token) (next : Kind) : Move :=
  if token.kind = .newline then .pass .line blocks []
  else
    match blocks with
    | [] =>
        if token.kind = .eof then ⟨[.write "return 0;\n", .write "\x7d\n", .settle], .finish⟩
        else atStatement [] token next
    | block :: outer =>
        if token.kind = block.closer then .pass .lineEnd outer [.write "\x7d\n"]
        else if token.kind = .eof then .refuse (.expected block.closer .eof)
        else atStatement (block :: outer) token next

/-- A blank line, or the first line inside a block. -/
def atBodyStart (block : Block) (blocks : List Block) (token : Token) (next : Kind) : Move :=
  if token.kind = .newline then .pass (.bodyStart block) blocks []
  else .after [.write ")\x7b\n"] (atLine (block :: blocks) token next)

/-- What a token leads to at a place, given the open blocks, the innermost first, and the kind of
the token after it. -/
def move (place : Place) (blocks : List Block) (token : Token) (next : Kind) : Move :=
  match place with
  | .line => atLine blocks token next
  | .printItem => atPrintItem blocks token
  | .operand purpose => atOperand purpose blocks token
  | .primary purpose => atPrimary purpose blocks token
  | .operator purpose => atOperator purpose blocks token
  | .labelName =>
      expect .ident token .lineEnd blocks
        [.label token.text token.loc, .write (targetName token.text ++ ":;\n")]
  | .gotoName =>
      expect .ident token .lineEnd blocks
        [.jump token.text token.loc, .write ("goto " ++ targetName token.text ++ ";\n")]
  | .letName => expect .ident token (.letSign token.text) blocks [.declare token.text]
  | .letSign name =>
      expect .assign token (.operand .assigned) blocks
        (.write (targetName name ++ " = ") :: enterExpression)
  | .inputName =>
      expect .ident token .lineEnd blocks
        [.declare token.text, .write (inputLines (targetName token.text))]
  | .lineEnd => endLine blocks token
  | .leadEnd block => expect .newline token (.bodyStart block) blocks []
  | .bodyStart block => atBodyStart block blocks token next

end Place

end TeenyTiny
