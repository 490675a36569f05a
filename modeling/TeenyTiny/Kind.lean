/-!
# Kinds of token

Every token of the language is of one of finitely many kinds. A kind has a display name, which
diagnostics and log records show. The eleven keywords are the kinds whose display name is also
their spelling in a program (`keyword?`), so one table serves both.
-/

set_option autoImplicit false

namespace TeenyTiny

/-- What sort of token stands at a place of a program. -/
inductive Kind where
  /-- The end of the text. -/
  | eof
  /-- The end of a line. -/
  | newline
  | number
  | ident
  /-- A string between double quotes. -/
  | quoted
  | labelWord
  | gotoWord
  | printWord
  | inputWord
  | letWord
  | ifWord
  | thenWord
  | endifWord
  | whileWord
  | repeatWord
  | endwhileWord
  /-- The sign of an assignment. -/
  | assign
  | plus
  | minus
  | times
  | divide
  | equal
  | unequal
  | less
  | atMost
  | greater
  | atLeast
  deriving DecidableEq

namespace Kind

/-- The display name of a kind. -/
def name : Kind → String
  | eof => "EOF"
  | newline => "NEWLINE"
  | number => "NUMBER"
  | ident => "IDENT"
  | quoted => "STRING"
  | labelWord => "LABEL"
  | gotoWord => "GOTO"
  | printWord => "PRINT"
  | inputWord => "INPUT"
  | letWord => "LET"
  | ifWord => "IF"
  | thenWord => "THEN"
  | endifWord => "ENDIF"
  | whileWord => "WHILE"
  | repeatWord => "REPEAT"
  | endwhileWord => "ENDWHILE"
  | assign => "EQ"
  | plus => "PLUS"
  | minus => "MINUS"
  | times => "ASTERISK"
  | divide => "SLASH"
  | equal => "EQEQ"
  | unequal => "NOTEQ"
  | less => "LT"
  | atMost => "LTEQ"
  | greater => "GT"
  | atLeast => "GTEQ"

/-- The kinds that are spelled by a reserved word. -/
def keywords : List Kind :=
  [labelWord, gotoWord, printWord, inputWord, letWord, ifWord, thenWord, endifWord, whileWord,
    repeatWord, endwhileWord]

/-- The keyword that a word spells, if it spells one. Case counts. -/
def keyword? (word : String) : Option Kind :=
  keywords.find? (·.name == word)

/-- Every kind, once. -/
def all : List Kind :=
  [eof, newline, number, ident, quoted] ++ keywords ++
    [assign, plus, minus, times, divide, equal, unequal, less, atMost, greater, atLeast]

/-- The kind that a display name stands for. -/
def ofName? (display : String) : Option Kind :=
  all.find? (·.name == display)

/-- Whether a token of this kind compares two expressions. -/
def isComparison : Kind → Bool
  | equal | unequal | less | atMost | greater | atLeast => true
  | _ => false

/-- Whether a token of this kind is a sign: it stands before an operand or joins two terms. -/
def isSign : Kind → Bool
  | plus | minus => true
  | _ => false

/-- Whether a token of this kind joins two factors. -/
def isFactorSign : Kind → Bool
  | times | divide => true
  | _ => false

end Kind

end TeenyTiny
