/-!
# The C program being written

A C program is written in two parts. The header takes the opening lines and the declarations, the
body takes the statements in source order. The parts are joined at the very end, so a declaration
that is found late still stands above every statement.

Names and numbers of the source are respelled for C: a name that C or its standard input and
output already use takes the mark `v_` in front, which no source name can have, and every number
is made a floating constant.
-/

set_option autoImplicit false

namespace TeenyTiny

/-- The names that a C program cannot use for its own variables and labels: the keywords, and the
names of standard input and output. -/
def reservedNames : List String :=
  ["alignas", "alignof", "asm", "auto", "bool", "break", "case", "char", "const", "constexpr",
    "continue", "default", "do", "double", "else", "enum", "extern", "false", "float", "for",
    "goto", "if", "inline", "int", "long", "main", "nullptr", "register", "restrict", "return",
    "short", "signed", "sizeof", "static", "struct", "switch", "true", "typedef", "typeof",
    "union", "unsigned", "void", "volatile", "while", "printf", "scanf", "stdin", "stdout",
    "stderr", "EOF", "NULL", "BUFSIZ"]

/-- The C spelling of a source name. -/
def targetName (name : String) : String :=
  if name ∈ reservedNames then "v_" ++ name else name

/-- The C spelling of a source number. -/
def targetNumber (text : String) : String :=
  if '.' ∈ text.toList then text else text ++ ".0"

/-- A C program in the making. -/
structure Output where
  header : String := ""
  body : String := ""
  deriving DecidableEq

namespace Output

/-- Adds text to the body. -/
def write (output : Output) (text : String) : Output :=
  { output with body := output.body ++ text }

/-- Adds a line to the body. -/
def writeLine (output : Output) (line : String) : Output :=
  output.write (line ++ "\n")

/-- Adds a line to the header. -/
def headLine (output : Output) (line : String) : Output :=
  { output with header := output.header ++ (line ++ "\n") }

/-- The whole program: the header, then the body. -/
def render (output : Output) : String :=
  output.header ++ output.body

end Output

end TeenyTiny
