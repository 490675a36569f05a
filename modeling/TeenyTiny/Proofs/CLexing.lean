import TeenyTiny.Output
import TeenyTiny.Proofs.CText

/-!
# The tokens of C text

C text is cut into lexemes by longest match: a lexeme takes in the next character as long as the
result still starts a lexeme of C (`goesOn`). Two signs that stand side by side are therefore one
lexeme where C has a mark for them, and a word ends only where no word character follows. Blanks
are cut off as well and then dropped, and what remains are the tokens of the text (`scan`).

Cutting a text in two and scanning the parts gives the tokens of the whole exactly where the last
lexeme of the first part does not go on with the second (`scan_append`). That is so after a text
that ends with a blank or a closing mark (`scan_sealed`), and between a name or a number and
whatever cannot be in it. A part of a line that ends with a name or a number has its tokens wherever
such a text follows (`Reads`).
-/

set_option autoImplicit false

namespace TeenyTiny.C

theorem Mode.after_append (mode : Mode) (first second : List Char) :
    mode.after (first ++ second) = (mode.after first).after second :=
  List.foldl_append

/-! ## Lexemes -/

/-- The marks of C with more than one character, and the two that start a comment. -/
def longMarks : List (List Char) :=
  ["->", "++", "--", "<<", ">>", "<=", ">=", "==", "!=", "&&", "||", "::", "*=", "/=", "%=", "+=",
    "-=", "&=", "^=", "|=", "<<=", ">>=", "##", "<:", ":>", "<%", "%>", "%:", "//", "/*"].map
    String.toList

/-- Whether a lexeme takes in the character after it. The front of a lexeme is again a lexeme, or a
literal that is still open, so that taking in one character after another finds the longest. -/
def goesOn (lexeme : List Char) (c : Char) : Bool :=
  match lexeme with
  | [] => false
  | first :: others =>
      if first = '"' then Mode.literal.after others != .code
      else if first.isDigit then
        -- a sign belongs to a number where it is the sign of an exponent
        isWordChar c || c == '.' ||
          ((c == '+' || c == '-') && lexeme.getLast?.any (['e', 'E', 'p', 'P'].contains ·))
      else if isWordChar first then isWordChar c
      else longMarks.contains (lexeme ++ [c])

/-- The lexemes of a text, given the front of the first of them. -/
def cut (lexeme : List Char) : List Char → List (List Char)
  | [] => [lexeme]
  | c :: text => if goesOn lexeme c then cut (lexeme ++ [c]) text else lexeme :: cut [c] text

/-- The lexemes of a text, blanks included. -/
def lexemes : List Char → List (List Char)
  | [] => []
  | c :: text => cut [c] text

theorem cut_ne_nil (lexeme text : List Char) : cut lexeme text ≠ [] := by
  induction text generalizing lexeme with
  | nil => exact List.cons_ne_nil _ _
  | cons c text ih =>
      rw [cut]
      split
      · exact ih _
      · exact List.cons_ne_nil _ _

/-- A text whose last lexeme does not go on with a character is cut before that character. -/
theorem cut_append {lexeme text : List Char} {c : Char}
    (stops : ∀ last ∈ (cut lexeme text).getLast?, goesOn last c = false) (rest : List Char) :
    cut lexeme (text ++ c :: rest) = cut lexeme text ++ cut [c] rest := by
  induction text generalizing lexeme with
  | nil =>
      have here : goesOn lexeme c = false := stops lexeme (by simp [cut])
      simp [cut, here]
  | cons first text ih =>
      rw [List.cons_append, cut, cut]
      rw [cut] at stops
      split
      · next goes =>
          rw [if_pos goes] at stops
          exact ih stops
      · next ends =>
          rw [if_neg ends, List.getLast?_cons_of_ne_nil (cut_ne_nil _ _)] at stops
          rw [ih stops, List.cons_append]

/-- A text all of whose characters go on with what is before them is one lexeme. -/
theorem cut_whole {lexeme text : List Char}
    (goes : ∀ front c rest, text = front ++ c :: rest → goesOn (lexeme ++ front) c = true) :
    cut lexeme text = [lexeme ++ text] := by
  induction text generalizing lexeme with
  | nil => simp [cut]
  | cons c text ih =>
      have here : goesOn lexeme c = true := by simpa using goes [] c text rfl
      rw [cut, if_pos here, ih, List.append_assoc, List.singleton_append]
      intro front c' rest split
      have later := goes (c :: front) c' rest (by rw [split, List.cons_append])
      rwa [List.append_assoc, List.singleton_append]

/-! ## Tokens -/

/-- A token of C. -/
inductive Token where
  /-- A word that C leaves free. -/
  | name (text : String)
  /-- A word that C or its standard input and output use. -/
  | reserved (text : String)
  | number (text : String)
  /-- A literal, with the quotes around it. -/
  | literal (text : String)
  | mark (text : String)
  deriving DecidableEq

/-- The token that a lexeme is, if it is not blank. -/
def Token.ofLexeme? : List Char → Option Token
  | [] => none
  | first :: others =>
      let text := String.ofList (first :: others)
      if first = ' ' ∨ first = '\n' then none
      else if first = '"' then some (.literal text)
      else if first.isDigit then some (.number text)
      else if isWordChar first then
        if text ∈ reservedNames then some (.reserved text) else some (.name text)
      else some (.mark text)

/-- The tokens of a text. -/
def scan (text : String) : List Token :=
  (lexemes text.toList).filterMap Token.ofLexeme?

/-- The tokens of a text are those of its parts, if the last lexeme of the first part does not go on
with the second. -/
theorem scan_append {first second : String}
    (stops : ∀ last ∈ (lexemes first.toList).getLast?, ∀ c ∈ second.toList.head?,
      goesOn last c = false) : scan (first ++ second) = scan first ++ scan second := by
  rw [scan, scan, scan, String.toList_append, ← List.filterMap_append]
  congr 1
  cases front : first.toList with
  | nil => rfl
  | cons c text =>
      cases behind : second.toList with
      | nil => simp [lexemes]
      | cons c' rest =>
          rw [front, behind] at stops
          exact cut_append (fun last member => stops last member c' rfl) rest

/-- Whether no lexeme goes on after a mark. -/
def seals (c : Char) : Bool :=
  !isWordChar c && c != '"' && longMarks.all (·.head? != some c)

theorem goesOn_of_seals {c : Char} (sealing : seals c = true) (next : Char) :
    goesOn [c] next = false := by
  simp only [seals, Bool.and_eq_true, Bool.not_eq_true', bne_iff_ne, List.all_eq_true] at sealing
  obtain ⟨⟨mark, quote⟩, starts⟩ := sealing
  have digit : ¬ c.isDigit = true := fun digit => by
    simp [isWordChar, Char.isAlphanum, digit] at mark
  have short : [c, next] ∉ longMarks := fun member => starts _ member rfl
  simp [goesOn, quote, digit, mark, short]

/-- A text that ends with a mark after which no lexeme goes on. -/
def Sealed (text : String) : Prop :=
  ∀ last ∈ (lexemes text.toList).getLast?, last.length = 1 ∧ ∀ c ∈ last, seals c = true

instance (text : String) : Decidable (Sealed text) :=
  inferInstanceAs (Decidable (∀ _ ∈ _, _))

/-- After a text that ends with such a mark, scanning starts anew. -/
theorem scan_sealed (text : String) (closed : Sealed text) (rest : String) :
    scan (text ++ rest) = scan text ++ scan rest := by
  refine scan_append fun last member c _ => ?_
  obtain ⟨single, sealing⟩ := closed last member
  obtain ⟨mark, rfl⟩ := List.length_eq_one_iff.mp single
  exact goesOn_of_seals (sealing mark List.mem_cons_self) c

/-- A text that is one lexeme is one token, where what follows it cannot be taken in. -/
theorem scan_lexeme {text : String} {token : Token} (whole : lexemes text.toList = [text.toList])
    (read : Token.ofLexeme? text.toList = some token) {rest : String}
    (stops : ∀ c ∈ rest.toList.head?, goesOn text.toList c = false) :
    scan (text ++ rest) = token :: scan rest := by
  have alone : scan text = [token] := by simp [scan, whole, read]
  rw [scan_append, alone, List.singleton_append]
  intro last member
  rw [whole] at member
  obtain rfl : text.toList = last := by simpa using member
  exact stops

/-- A literal is one token, whatever stands in it, as long as nothing closes it early. -/
theorem scan_literal {inner : String}
    (inside : ∀ front c rest, inner.toList = front ++ c :: rest → Mode.literal.after front ≠ .code)
    (last : Mode.literal.after inner.toList = .literal) (rest : String) :
    scan ("\"" ++ inner ++ "\"" ++ rest) = .literal ("\"" ++ inner ++ "\"") :: scan rest := by
  have spelled : ("\"" ++ inner ++ "\"").toList = '"' :: (inner.toList ++ ['"']) := by simp
  have goes (front : List Char) (c : Char) :
      goesOn ('"' :: front) c = (Mode.literal.after front != .code) := by simp [goesOn]
  refine scan_lexeme ?_ ?_ fun c _ => ?_
  · rw [spelled, lexemes, cut_whole, List.singleton_append]
    intro front c rest split
    rw [List.singleton_append, goes, bne_iff_ne]
    -- the character is the closing quote, or it stands before it
    rcases List.eq_nil_or_concat rest with rfl | ⟨rest, final, rfl⟩
    · obtain ⟨rfl, -⟩ := List.append_inj' split rfl
      simp [last]
    · rw [List.concat_eq_append, ← List.cons_append, ← List.append_assoc] at split
      exact inside front c rest (List.append_inj' split rfl).1
  · have text : String.ofList ('"' :: (inner.toList ++ ['"'])) = "\"" ++ inner ++ "\"" := by
      rw [← spelled, String.ofList_toList]
    simp [spelled, Token.ofLexeme?, text]
  · have closed : Mode.literal.after (inner.toList ++ ['"']) = .code := by
      rw [Mode.after_append, last]
      rfl
    simp [spelled, goes, closed]

/-! ## Parts of a line -/

/-- A text that starts with nothing that a name or a number could take in. -/
def Breaks (text : String) : Prop :=
  ∀ c ∈ text.toList.head?, isWordChar c = false ∧ c ∉ ['.', '+', '-']

instance (text : String) : Decidable (Breaks text) :=
  inferInstanceAs (Decidable (∀ _ ∈ _, _))

theorem Breaks.append {text : String} (starts : Breaks text) (nonempty : text.toList ≠ [])
    (rest : String) : Breaks (text ++ rest) := by
  obtain ⟨c, others, spelled⟩ := List.exists_cons_of_ne_nil nonempty
  rw [Breaks, spelled] at starts
  rw [Breaks, String.toList_append, spelled]
  exact starts

/-- A part of a line that has these tokens, wherever what follows cannot be taken in. -/
def Reads (text : String) (tokens : List Token) : Prop :=
  ∀ rest, Breaks rest → scan (text ++ rest) = tokens ++ scan rest

namespace Reads

/-- A free name is one token. -/
theorem name {name : String} (isName : IsName name) (free : name ∉ reservedNames) :
    Reads name [.name name] := by
  intro rest starts
  obtain ⟨first, others, spelled, letter, word⟩ := isName
  have digit : ¬ first.isDigit = true := by simp [Lexeme.isDigit_of_isAlpha letter]
  have here : isWordChar first = true := by simp [isWordChar, Char.isAlphanum, letter]
  have marks : first ≠ '"' ∧ first ≠ ' ' ∧ first ≠ '\n' := by
    refine ⟨?_, ?_, ?_⟩ <;> rintro rfl <;> simp at letter
  have goes (front : List Char) (c : Char) : goesOn (first :: front) c = isWordChar c := by
    simp [goesOn, marks, digit, here]
  refine scan_lexeme ?_ ?_ fun c member => ?_
  · rw [spelled, lexemes, cut_whole, List.singleton_append]
    rintro front c rest rfl
    rw [List.singleton_append, goes]
    exact word c (by simp)
  · have text : String.ofList (first :: others) = name := by rw [← spelled, String.ofList_toList]
    simp [spelled, Token.ofLexeme?, marks, digit, here, text, free]
  · rw [spelled, goes]
    exact (starts c member).1

/-- Digits with a point between them are one token. -/
theorem constant {text : String} {whole fraction : List Char}
    (whole_digits : Lexeme.Digits whole) (fraction_digits : Lexeme.Digits fraction)
    (spelled : text.toList = whole ++ '.' :: fraction) : Reads text [.number text] := by
  intro rest starts
  obtain ⟨nonempty, digits⟩ := whole_digits
  obtain ⟨first, others, rfl⟩ := List.exists_cons_of_ne_nil nonempty
  have digit : first.isDigit = true := digits first List.mem_cons_self
  have marks : first ≠ '"' ∧ first ≠ ' ' ∧ first ≠ '\n' := by
    refine ⟨?_, ?_, ?_⟩ <;> rintro rfl <;> simp at digit
  have goes (front : List Char) {c : Char} (inside : isWordChar c = true ∨ c = '.') :
      goesOn (first :: front) c = true := by
    rw [goesOn, if_neg marks.1, if_pos digit]
    rcases inside with word | rfl
    · simp [word]
    · simp
  have each : ∀ c ∈ others ++ '.' :: fraction, isWordChar c = true ∨ c = '.' := by
    intro c member
    rcases List.mem_append.mp member with member | member
    · exact .inl (by simp [isWordChar, Char.isAlphanum, digits c (List.mem_cons_of_mem _ member)])
    · rcases List.mem_cons.mp member with rfl | member
      · exact .inr rfl
      · exact .inl (by simp [isWordChar, Char.isAlphanum, fraction_digits.2 c member])
  refine scan_lexeme ?_ ?_ fun c member => ?_
  · rw [spelled, List.cons_append, lexemes, cut_whole, List.singleton_append]
    intro front c rest split
    exact goes front (each c (by rw [split]; simp))
  · have text : String.ofList (first :: (others ++ '.' :: fraction)) = text := by
      rw [← List.cons_append, ← spelled, String.ofList_toList]
    simp [spelled, Token.ofLexeme?, marks, digit, text]
  · obtain ⟨word, others⟩ := starts c member
    simp only [List.mem_cons, not_or] at others
    simp [spelled, goesOn, marks, digit, word, others]

variable {text text' : String} {tokens tokens' : List Token}

/-- The mark before an operand stays a token of its own: no mark of C goes on with a letter or a
digit. -/
theorem signed {sign : String} (isSign : sign ∈ ["+", "-", "&"]) (reads : Reads text tokens)
    (starts : ∃ c ∈ text.toList.head?, isWordChar c = true) :
    Reads (sign ++ text) (.mark sign :: tokens) := by
  intro rest breaks
  have marks : ∀ mark ∈ longMarks, ∀ c ∈ mark.tail.head?, isWordChar c = false := by decide
  obtain ⟨first, member, word⟩ := starts
  have short (sign : Char) : [sign, first] ∉ longMarks := fun inside => by
    simpa [word] using marks _ inside first rfl
  have next : (text ++ rest).toList.head? = some first := by
    rw [String.toList_append, List.head?_append, member]
    rfl
  rw [String.append_assoc, scan_lexeme, reads rest breaks, List.cons_append]
  · revert sign
    decide
  · revert sign
    decide
  · intro c here
    obtain rfl : first = c := Option.some.inj (next ▸ here)
    simp only [List.mem_cons, List.not_mem_nil, or_false] at isSign
    rcases isSign with rfl | rfl | rfl <;> simp [goesOn, isWordChar, short]

/-- A sign between two parts, with blanks around it. -/
theorem joined {sign : String} (reads : Reads text tokens)
    (isSign : Sealed (" " ++ sign ++ " ") ∧ scan (" " ++ sign ++ " ") = [.mark sign])
    (reads' : Reads text' tokens') :
    Reads (text ++ (" " ++ sign ++ " " ++ text')) (tokens ++ .mark sign :: tokens') := by
  intro rest breaks
  have gap : Breaks (" " ++ (sign ++ (" " ++ (text' ++ rest)))) :=
    Breaks.append (by decide) (by decide) _
  rw [String.append_assoc, String.append_assoc, String.append_assoc, String.append_assoc,
    reads _ gap, ← String.append_assoc, ← String.append_assoc, scan_sealed _ isSign.1, isSign.2,
    reads' rest breaks]
  simp

/-- The tokens of a line, or of several, around a part. -/
theorem around (opening closing : String) (opens : Sealed opening) (reads : Reads text tokens)
    (closes : Breaks closing ∧ closing.toList ≠ [] ∧ Sealed closing) (rest : String) :
    scan (opening ++ text ++ closing ++ rest) =
      scan opening ++ tokens ++ scan closing ++ scan rest := by
  obtain ⟨breaks, nonempty, closed⟩ := closes
  rw [String.append_assoc, String.append_assoc, scan_sealed opening opens,
    reads _ (breaks.append nonempty rest), scan_sealed closing closed]
  simp

/-- The tokens of a part that stands alone. -/
theorem scan_eq (reads : Reads text tokens) : scan text = tokens := by
  have whole := reads "" (by decide)
  simpa [scan, lexemes] using whole

end Reads

end TeenyTiny.C
