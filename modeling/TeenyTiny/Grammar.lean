import TeenyTiny.Kind

/-!
# The grammar

Which sequences of token kinds are programs, said without reference to how a program is read. The
rules are

    program    = end-of-line* statement* end
    statement  = PRINT (string | expression) nl
               | IF comparison THEN nl statement* ENDIF nl
               | WHILE comparison REPEAT nl statement* ENDWHILE nl
               | LABEL ident nl
               | GOTO ident nl
               | LET ident = expression nl
               | INPUT ident nl
    comparison = expression (comparison-sign expression)+
    expression = term ((+ | -) term)*
    term       = unary ((* | /) unary)*
    unary      = [+ | -] primary
    primary    = number | ident
    nl         = end-of-line+
-/

set_option autoImplicit false

namespace TeenyTiny.Grammar

/-- Parts with separators between them. -/
inductive Chain (Part : List Kind → Prop) (separates : Kind → Bool) : List Kind → Prop where
  | single {part : List Kind} : Part part → Chain Part separates part
  | joined {parts part : List Kind} {separator : Kind} :
      Chain Part separates parts → separates separator = true → Part part →
        Chain Part separates (parts ++ separator :: part)

/-- Whether a kind is `+` or `-`. -/
def adds (kind : Kind) : Bool :=
  kind ∈ [.plus, .minus]

/-- Whether a kind is `*` or `/`. -/
def multiplies (kind : Kind) : Bool :=
  kind ∈ [.times, .divide]

/-- Whether a kind is `==`, `!=`, `<`, `<=`, `>` or `>=`. -/
def compares (kind : Kind) : Bool :=
  kind ∈ [.equal, .unequal, .less, .atMost, .greater, .atLeast]

/-- A number or a variable. -/
inductive Primary : List Kind → Prop where
  | number : Primary [.number]
  | ident : Primary [.ident]

/-- A primary, with or without a sign before it. -/
inductive Unary : List Kind → Prop where
  | plain {kinds : List Kind} : Primary kinds → Unary kinds
  | signed {sign : Kind} {kinds : List Kind} :
      adds sign = true → Primary kinds → Unary (sign :: kinds)

/-- Unaries that are multiplied and divided. -/
abbrev Term : List Kind → Prop := Chain Unary multiplies

/-- Terms that are added and subtracted. -/
abbrev Expression : List Kind → Prop := Chain Term adds

/-- Two expressions or more, compared. -/
inductive Comparison : List Kind → Prop where
  | compared {sides side : List Kind} {sign : Kind} :
      Chain Expression compares sides → compares sign = true → Expression side →
        Comparison (sides ++ sign :: side)

/-- The end of a line, with blank lines after it. -/
def lineEnds (blank : Nat) : List Kind :=
  List.replicate (blank + 1) .newline

mutual

/-- One statement, with the end of its last line and the blank lines after it. -/
inductive Statement : List Kind → Prop where
  | printText (blank : Nat) : Statement ([.printWord, .quoted] ++ lineEnds blank)
  | print (blank : Nat) {expression : List Kind} :
      Expression expression → Statement (.printWord :: expression ++ lineEnds blank)
  | branch (blank blank' : Nat) {guard body : List Kind} :
      Comparison guard → Statements body →
        Statement (.ifWord :: guard ++ .thenWord :: lineEnds blank ++ body ++
          .endifWord :: lineEnds blank')
  | loop (blank blank' : Nat) {guard body : List Kind} :
      Comparison guard → Statements body →
        Statement (.whileWord :: guard ++ .repeatWord :: lineEnds blank ++ body ++
          .endwhileWord :: lineEnds blank')
  | label (blank : Nat) : Statement ([.labelWord, .ident] ++ lineEnds blank)
  | goto (blank : Nat) : Statement ([.gotoWord, .ident] ++ lineEnds blank)
  | assign (blank : Nat) {expression : List Kind} :
      Expression expression →
        Statement ([.letWord, .ident, .assign] ++ expression ++ lineEnds blank)
  | input (blank : Nat) : Statement ([.inputWord, .ident] ++ lineEnds blank)

/-- Any number of statements, one after the other. -/
inductive Statements : List Kind → Prop where
  | nil : Statements []
  | cons {first others : List Kind} :
      Statement first → Statements others → Statements (first ++ others)

end

/-- A whole program, the end of the text included. -/
inductive Program : List Kind → Prop where
  | program (blank : Nat) {statements : List Kind} :
      Statements statements → Program (List.replicate blank .newline ++ statements ++ [.eof])

end TeenyTiny.Grammar
