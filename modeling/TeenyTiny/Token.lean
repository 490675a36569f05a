import TeenyTiny.Kind

/-!
# Tokens

A token is a kind, the text it stands for and the byte offset at which it starts. The text of a
string token is what stands between its quotes; the text of every other token is what was written.
-/

set_option autoImplicit false

namespace TeenyTiny

/-- A token without its place: its kind and its text. -/
abbrev Lexeme := Kind × String

/-- One token of a program. -/
structure Token where
  kind : Kind
  text : String
  /-- Offset in bytes of the first character; for a string, of its opening quote. -/
  loc : Nat
  deriving DecidableEq

namespace Token

/-- A token without its place. -/
def lexeme (token : Token) : Lexeme :=
  (token.kind, token.text)

/-- How a diagnostic speaks of a token: by its text, except where that would be invisible. -/
def describe (token : Token) : String :=
  match token.kind with
  | .eof => "EOF"
  | .newline => "end of line"
  | _ => token.text

end Token

end TeenyTiny
