/-!
# Positions in a text

An offset into a text counts bytes of its UTF-8 form. A position counts lines and, within a line,
characters, both from one. The position of an offset is that of the longest front of the text
that fits into so many bytes (`within`): an offset inside a character falls back to the start of
that character, and one past the end falls back to the end.
-/

set_option autoImplicit false

namespace TeenyTiny

/-- The number of bytes that characters take in UTF-8. -/
def byteLength : List Char → Nat
  | [] => 0
  | c :: text => c.utf8Size + byteLength text

/-- The longest front of a text that takes at most so many bytes. -/
def within : Nat → List Char → List Char
  | _, [] => []
  | bytes, c :: text => if c.utf8Size ≤ bytes then c :: within (bytes - c.utf8Size) text else []

/-- A line and a column, both counted from one. -/
structure Position where
  line : Nat
  column : Nat
  deriving DecidableEq

namespace Position

/-- Where a text starts. -/
def start : Position := ⟨1, 1⟩

/-- The position after one more character. -/
def advance (position : Position) (c : Char) : Position :=
  if c = '\n' then ⟨position.line + 1, 1⟩ else ⟨position.line, position.column + 1⟩

/-- The position of a byte offset in a text. -/
def ofOffset (text : List Char) (offset : Nat) : Position :=
  (within offset text).foldl advance start

/-- How a position is written in a diagnostic. -/
def render (position : Position) : String :=
  toString position.line ++ ":" ++ toString position.column

end Position

end TeenyTiny
