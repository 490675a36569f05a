import TeenyTiny.Fault

/-!
# Lexemes

Between two tokens lies a gap: a run of blanks and then, possibly, a comment (`splitGap`). After
the gap, the front of the text either is a lexeme or breaks a rule (`read`). A lexeme is always as
long as it can be: `<=` is one lexeme, and a word takes every letter and digit that follows.

Nothing is lost on the way. A gap and what follows it are the text (`splitGap_append`). What a
lexeme was written as and what follows it are the text, and so are the characters passed before an
offence and those from the offence on (`span_read`). A lexeme other than the end of the text takes
at least one character (`length_lt_of_read`), which is why reading a text token by token ends.
-/

set_option autoImplicit false

namespace TeenyTiny.Lexeme

/-! ## Gaps -/

/-- The blanks that may stand between two tokens of a line. -/
def isBlank (c : Char) : Bool :=
  c == ' ' || c == '\t' || c == '\r'

/-- The characters over which a comment runs on: all but the end of the line and NUL. -/
def inComment (c : Char) : Bool :=
  c != '\n' && c != '\x00'

/-- The gap at the front of a text, and the text after it: a run of blanks and then, if it starts
with a number sign, a comment. -/
def splitGap (text : List Char) : List Char × List Char :=
  match text.dropWhile isBlank with
  | '#' :: rest =>
      (text.takeWhile isBlank ++ '#' :: rest.takeWhile inComment, rest.dropWhile inComment)
  | rest => (text.takeWhile isBlank, rest)

theorem splitGap_append (text : List Char) : (splitGap text).1 ++ (splitGap text).2 = text := by
  have blanks := List.takeWhile_append_dropWhile (p := isBlank) (l := text)
  unfold splitGap
  split
  · next rest shape =>
      rw [shape] at blanks
      simp [List.takeWhile_append_dropWhile, blanks]
  · exact blanks

/-! ## What stands after a gap -/

/-- What the front of a text turns out to be. -/
inductive Reading where
  /-- A lexeme of some kind, the text it stands for, and what follows it. -/
  | token (kind : Kind) (text rest : List Char)
  /-- An offence, with the characters passed before it and those from it on. -/
  | refused (passed : List Char) (cause : Cause) (rest : List Char)

/-- What is written for a lexeme: its text, within quotes if it is a string. -/
def written (kind : Kind) (text : List Char) : List Char :=
  match kind with
  | .quoted => '"' :: (text ++ ['"'])
  | _ => text

/-- The characters that may stand in a string. -/
def inString (c : Char) : Bool :=
  c != '"' && c != '\r' && c != '\n' && c != '\t' && c != '\\' && c != '%'

/-- Reads a string, from after its opening quote. It runs to the next quote; a character that may
not stand in it is an offence, and so is the end of the text. -/
def readString (text : List Char) : Reading :=
  match text.dropWhile inString with
  | '"' :: rest => .token .quoted (text.takeWhile inString) rest
  | rest => .refused ('"' :: text.takeWhile inString) .badStringChar rest

/-- Reads a number: digits and then, possibly, a point with digits after it. A point without a
digit after it is an offence. -/
def readNumber (text : List Char) : Reading :=
  match text.dropWhile Char.isDigit with
  | '.' :: rest =>
      if rest.head?.any Char.isDigit then
        .token .number
          (text.takeWhile Char.isDigit ++ '.' :: rest.takeWhile Char.isDigit)
          (rest.dropWhile Char.isDigit)
      else .refused (text.takeWhile Char.isDigit) .badNumberChar ('.' :: rest)
  | rest => .token .number (text.takeWhile Char.isDigit) rest

/-- The kind of a word: a keyword if it spells one, else an identifier. -/
def wordKind (word : List Char) : Kind :=
  (Kind.keyword? (String.ofList word)).getD .ident

/-- Reads a word: every letter and digit from here on. -/
def readWord (text : List Char) : Reading :=
  let word := text.takeWhile Char.isAlphanum
  .token (wordKind word) word (text.dropWhile Char.isAlphanum)

/-- Reads an operator that an equals sign after it makes another. -/
def readComparison (c : Char) (short long : Kind) (rest : List Char) : Reading :=
  match rest with
  | '=' :: rest => .token long [c, '='] rest
  | rest => .token short [c] rest

/-- Reads the sign of inequality, from after its exclamation mark. -/
def readBang (rest : List Char) : Reading :=
  match rest with
  | '=' :: rest => .token .unequal ['!', '='] rest
  | rest => .refused [] (.loneBang (rest.head?.filter (· != '\n'))) ('!' :: rest)

/-- Reads what stands at the front of a text that starts with no gap. -/
def read : List Char → Reading
  | [] => .token .eof [] []
  | c :: rest =>
      match c with
      | '\n' => .token .newline [c] rest
      | '+' => .token .plus [c] rest
      | '-' => .token .minus [c] rest
      | '*' => .token .times [c] rest
      | '/' => .token .divide [c] rest
      | '=' => readComparison c .assign .equal rest
      | '<' => readComparison c .less .atMost rest
      | '>' => readComparison c .greater .atLeast rest
      | '!' => readBang rest
      | '"' => readString rest
      | _ =>
          if c.isDigit then readNumber (c :: rest)
          else if c.isAlpha then readWord (c :: rest)
          else .refused [] (.unknownChar c) (c :: rest)

/-! ## Nothing is lost -/

/-- What a reading accounts for: the characters it took, and those it left. -/
def Reading.span : Reading → List Char × List Char
  | .token kind text rest => (written kind text, rest)
  | .refused passed _ rest => (passed, rest)

theorem wordKind_mem (word : List Char) : wordKind word ∈ Kind.ident :: Kind.keywords := by
  unfold wordKind
  cases found : Kind.keyword? (String.ofList word) with
  | none => exact List.mem_cons_self
  | some kind => exact List.mem_cons_of_mem _ (List.mem_of_find?_eq_some found)

theorem wordKind_ne {kind : Kind} (other : kind ∉ Kind.ident :: Kind.keywords) (word : List Char) :
    wordKind word ≠ kind := by
  intro same
  apply other
  rw [← same]
  exact wordKind_mem word

theorem wordKind_ne_quoted (word : List Char) : wordKind word ≠ .quoted :=
  wordKind_ne (by decide) word

theorem written_of_ne_quoted {kind : Kind} (plain : kind ≠ .quoted) (text : List Char) :
    written kind text = text := by
  unfold written
  split
  · contradiction
  · rfl

theorem span_readString (text : List Char) :
    (readString text).span.1 ++ (readString text).span.2 = '"' :: text := by
  have whole := List.takeWhile_append_dropWhile (p := inString) (l := text)
  unfold readString
  split
  · next rest shape =>
      rw [shape] at whole
      simp [Reading.span, written, whole]
  · simp [Reading.span, whole]

theorem span_readNumber (text : List Char) :
    (readNumber text).span.1 ++ (readNumber text).span.2 = text := by
  have whole := List.takeWhile_append_dropWhile (p := Char.isDigit) (l := text)
  unfold readNumber
  split
  · next rest shape =>
      rw [shape] at whole
      split <;> simp [Reading.span, written, whole, List.takeWhile_append_dropWhile]
  · simp [Reading.span, written, whole]

theorem span_readWord (text : List Char) :
    (readWord text).span.1 ++ (readWord text).span.2 = text := by
  simp [readWord, Reading.span, written_of_ne_quoted (wordKind_ne_quoted _),
    List.takeWhile_append_dropWhile]

theorem span_readComparison (c : Char) {short long : Kind} (rest : List Char)
    (plain : short ≠ .quoted) (plain' : long ≠ .quoted) :
    (readComparison c short long rest).span.1 ++ (readComparison c short long rest).span.2 =
      c :: rest := by
  unfold readComparison
  split <;> simp [Reading.span, written_of_ne_quoted, plain, plain']

theorem span_readBang (rest : List Char) :
    (readBang rest).span.1 ++ (readBang rest).span.2 = '!' :: rest := by
  unfold readBang
  split <;> simp [Reading.span, written]

/-- What a reading took and what it left are the text. -/
theorem span_read (text : List Char) : (read text).span.1 ++ (read text).span.2 = text := by
  unfold read
  split
  · rfl
  · split
    case h_6 | h_7 | h_8 => exact span_readComparison _ _ (by decide) (by decide)
    case h_9 => exact span_readBang _
    case h_10 => exact span_readString _
    case h_11 =>
      split
      · exact span_readNumber _
      · split
        · exact span_readWord _
        · rfl
    all_goals rfl

/-! ## A lexeme takes something -/

/-- Whether a reading is the end of the text, an offence, or a lexeme that takes a character. -/
def Reading.Takes : Reading → Prop
  | .token kind text _ => kind = .eof ∨ written kind text ≠ []
  | .refused _ _ _ => True

theorem takes_readString (text : List Char) : (readString text).Takes := by
  unfold readString
  split
  · exact .inr (by simp [written])
  · trivial

theorem takes_readNumber {c : Char} (rest : List Char) (digit : c.isDigit) :
    (readNumber (c :: rest)).Takes := by
  unfold readNumber
  split
  · split
    · exact .inr (by simp [written])
    · trivial
  · exact .inr (by simp [written, digit])

theorem takes_readWord {c : Char} (rest : List Char) (letter : c.isAlpha) :
    (readWord (c :: rest)).Takes := by
  refine .inr ?_
  rw [written_of_ne_quoted (wordKind_ne_quoted _)]
  simp [Char.isAlphanum, letter]

theorem takes_readComparison (c : Char) (short long : Kind) (rest : List Char) :
    (readComparison c short long rest).Takes := by
  unfold readComparison
  split
  · exact .inr (by cases long <;> simp [written])
  · exact .inr (by cases short <;> simp [written])

theorem takes_readBang (rest : List Char) : (readBang rest).Takes := by
  unfold readBang
  split
  · exact .inr (by simp [written])
  · trivial

theorem takes_read (text : List Char) : (read text).Takes := by
  unfold read
  split
  · exact .inl rfl
  · split
    case h_6 | h_7 | h_8 => exact takes_readComparison _ _ _ _
    case h_9 => exact takes_readBang _
    case h_10 => exact takes_readString _
    case h_11 =>
      split
      · exact takes_readNumber _ (by assumption)
      · split
        · exact takes_readWord _ (by assumption)
        · trivial
    all_goals exact .inr (by simp [written])

/-- A lexeme other than the end leaves less than there was. -/
theorem length_lt_of_read {text taken rest : List Char} {kind : Kind}
    (found : read text = .token kind taken rest) (more : kind ≠ .eof) :
    rest.length < text.length := by
  have whole := span_read text
  have takes := takes_read text
  rw [found] at whole takes
  have nonempty : written kind taken ≠ [] := takes.resolve_left more
  have := congrArg List.length whole
  have := List.length_pos_iff.mpr nonempty
  simp only [Reading.span, List.length_append] at *
  omega

end TeenyTiny.Lexeme
