import TeenyTiny.Diagnostic
import TeenyTiny.Lexeme
import TeenyTiny.Token

/-!
# Reading a text token by token

A cursor is a place in a text: the number of bytes behind it and the characters ahead of it. From
a cursor one token can be read (`next`), which moves the cursor past the token. At the end of the
text the end is read over and over. At an offence the cursor stops in front of the offending
character, past whatever was in order before it, and reading can go on from there as if a token
started at that character.

`supply` is everything a reader gets: the tokens up to the end of the text or the first offence.
-/

set_option autoImplicit false

namespace TeenyTiny

/-- The text that is read for a source: one line end is added, so that the last line ends. -/
def sourceText (source : String) : List Char :=
  source.toList ++ ['\n']

/-- A place in a text. -/
structure Cursor where
  /-- The bytes behind the cursor. -/
  offset : Nat
  /-- The characters ahead of it. -/
  rest : List Char
  deriving DecidableEq

/-- The tokens of a text up to its end or its first offence. -/
structure Supply where
  tokens : List Token
  /-- The token of the end, or the offence that comes instead of a token. -/
  ending : Except Fault Token

namespace Cursor

/-- The cursor at the start of a source. -/
def ofSource (source : String) : Cursor :=
  ⟨0, sourceText source⟩

/-- The cursor after some characters, with others ahead. -/
def past (cursor : Cursor) (passed rest : List Char) : Cursor :=
  ⟨cursor.offset + byteLength passed, rest⟩

/-- The cursor past the gap in front of it. -/
def pastGap (cursor : Cursor) : Cursor :=
  cursor.past (Lexeme.splitGap cursor.rest).1 (Lexeme.splitGap cursor.rest).2

/-- Reads one token at a cursor with no gap in front of it. -/
def read (start : Cursor) : Except Fault Token × Cursor :=
  match Lexeme.read start.rest with
  | .token kind text rest =>
      (.ok ⟨kind, String.ofList text, start.offset⟩, start.past (Lexeme.written kind text) rest)
  | .refused passed cause rest =>
      (.error ⟨cause, (start.past passed rest).offset⟩, start.past passed rest)

/-- Reads one token, and says where the cursor stands afterwards. -/
def next (cursor : Cursor) : Except Fault Token × Cursor :=
  cursor.pastGap.read

/-- A gap is part of what is ahead. -/
theorem length_pastGap_le (cursor : Cursor) :
    cursor.pastGap.rest.length ≤ cursor.rest.length := by
  have whole := congrArg List.length (Lexeme.splitGap_append cursor.rest)
  rw [List.length_append] at whole
  simp only [pastGap, past]
  omega

/-- A token other than the end leaves less to read. -/
theorem length_next_lt {cursor after : Cursor} {token : Token}
    (found : cursor.next = (.ok token, after)) (more : token.kind ≠ .eof) :
    after.rest.length < cursor.rest.length := by
  unfold next read at found
  split at found
  · next kind text rest lexeme =>
      simp only [Prod.mk.injEq, Except.ok.injEq] at found
      obtain ⟨rfl, rfl⟩ := found
      exact Nat.lt_of_lt_of_le (Lexeme.length_lt_of_read lexeme more) cursor.length_pastGap_le
  · simp at found

/-- Reads so many tokens one after the other, offences and ends included. -/
def take : Nat → Cursor → List (Except Fault Token) × Cursor
  | 0, cursor => ([], cursor)
  | count + 1, cursor =>
      let later := take count cursor.next.2
      (cursor.next.1 :: later.1, later.2)

/-- Everything that can be read from a cursor. -/
def supply (cursor : Cursor) : Supply :=
  match found : cursor.next with
  | (.error fault, _) => ⟨[], .error fault⟩
  | (.ok token, after) =>
      if more : token.kind = .eof then ⟨[], .ok token⟩
      else
        have := length_next_lt found more
        let others := after.supply
        ⟨token :: others.tokens, others.ending⟩
termination_by cursor.rest.length

end Cursor

namespace Supply

/-- The offence that ends the supply, if one does. -/
def fault? (supply : Supply) : Option Fault :=
  match supply.ending with
  | .ok _ => none
  | .error fault => some fault

/-- The readings up to and including the last. -/
def readings (supply : Supply) : List (Except Fault Token) :=
  supply.tokens.map .ok ++ [supply.ending]

/-- The tokens that a reader sees who always looks one token ahead: the end comes twice, since
reading on at the end gives the end again. -/
def lookahead (supply : Supply) : List Token :=
  match supply.ending with
  | .ok last => supply.tokens ++ [last, last]
  | .error _ => supply.tokens

end Supply

end TeenyTiny
