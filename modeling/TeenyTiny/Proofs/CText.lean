import TeenyTiny.Proofs.Shape

/-!
# Reading C text

C text is read here without regard to how it was written. A text is a list of lines (`lines`). What
stands between double quotes does not count (`Mode.outside`); the rest of a line is words and marks
(`pieces`). From these are read the label that a line sets (`label?`), the label that it jumps to
(`jump?`), and the variables that it mentions (`mentioned`): every word that is not a number, is not
called, is not the type of a cast and is not the keyword of a jump.

A word stops where a mark starts, so that the pieces of a text are those of its parts wherever a
mark stands between them (`tokens_append_left`, `tokens_append_right`).
-/

set_option autoImplicit false

namespace TeenyTiny.C

/-! ## Lines -/

/-- The lines of a text, each without its end. -/
def splitLines : List Char → List (List Char)
  | [] => []
  | c :: text =>
      if c = '\n' then [] :: splitLines text
      else
        match splitLines text with
        | [] => [[c]]
        | line :: others => (c :: line) :: others

/-- The lines of a text. -/
def lines (text : String) : List String :=
  (splitLines text.toList).map String.ofList

theorem splitLines_append_newline {line : List Char} (inside : '\n' ∉ line) (rest : List Char) :
    splitLines (line ++ '\n' :: rest) = line :: splitLines rest := by
  induction line with
  | nil => simp [splitLines]
  | cons c line ih =>
      obtain ⟨here, inside⟩ := not_or.mp (mt List.mem_cons.mpr inside)
      rw [List.cons_append, splitLines, if_neg (Ne.symm here), ih inside]

/-! ## Literals -/

/-- Where a reader of C stands. -/
inductive Mode where
  | code
  | literal
  /-- After a backslash in a literal. -/
  | escape
  deriving DecidableEq

namespace Mode

/-- Where a reader stands after a character. -/
def step : Mode → Char → Mode
  | code, c => if c = '"' then literal else code
  | literal, c => if c = '"' then code else if c = '\\' then escape else literal
  | escape, _ => literal

/-- Where a reader stands after a text. -/
def after (mode : Mode) (text : List Char) : Mode :=
  text.foldl step mode

/-- The characters of a text that stand outside of its literals, with the quotes around them. -/
def outside (mode : Mode) : List Char → List Char
  | [] => []
  | c :: text =>
      if mode = code ∨ mode.step c = code then c :: (mode.step c).outside text
      else (mode.step c).outside text

theorem outside_append (mode : Mode) (first second : List Char) :
    mode.outside (first ++ second) = mode.outside first ++ (mode.after first).outside second := by
  induction first generalizing mode with
  | nil => rfl
  | cons c first ih =>
      simp only [List.cons_append, outside, ih]
      split <;> rfl

/-- A text without quotes is code. -/
theorem outside_of_plain {text : List Char} (plain : '"' ∉ text) :
    code.outside text = text ∧ code.after text = code := by
  induction text with
  | nil => exact ⟨rfl, rfl⟩
  | cons c text ih =>
      obtain ⟨here, plain⟩ := not_or.mp (mt List.mem_cons.mpr plain)
      have stays : code.step c = code := if_neg (Ne.symm here)
      constructor
      · rw [outside, if_pos (.inl rfl), stays, (ih plain).1]
      · rw [after, List.foldl_cons, stays]
        exact (ih plain).2

/-- A text without quotes and backslashes stays in a literal. -/
theorem outside_literal {text : List Char} (plain : ∀ c ∈ text, c ≠ '"' ∧ c ≠ '\\') :
    literal.outside text = [] ∧ literal.after text = literal := by
  induction text with
  | nil => exact ⟨rfl, rfl⟩
  | cons c text ih =>
      obtain ⟨⟨quote, backslash⟩, plain⟩ := List.forall_mem_cons.mp plain
      have stays : literal.step c = literal := by rw [step, if_neg quote, if_neg backslash]
      constructor
      · rw [outside, if_neg (by simp [stays]), stays, (ih plain).1]
      · rw [after, List.foldl_cons, stays]
        exact (ih plain).2

end Mode

/-! ## Words and marks -/

/-- A piece of C: a word, which may be a number, or one other character. -/
inductive Piece where
  | word (text : List Char)
  | mark (c : Char)
  deriving DecidableEq

/-- Whether a character can stand in a word. -/
def isWordChar (c : Char) : Bool :=
  c.isAlphanum || c == '_'

/-- Puts a character in front of what starts with a word, or makes a word of it. -/
def extend (c : Char) : List Piece → List Piece
  | .word text :: pieces => .word (c :: text) :: pieces
  | pieces => .word [c] :: pieces

/-- The words and marks of a text, blanks included. -/
def pieces : List Char → List Piece
  | [] => []
  | c :: text => if isWordChar c then extend c (pieces text) else .mark c :: pieces text

/-- The words and marks of a text. -/
def tokens (text : List Char) : List Piece :=
  (pieces text).filter (· ≠ .mark ' ')

/-- The words and marks of a line outside of its literals. -/
def read (line : String) : List Piece :=
  tokens (Mode.code.outside line.toList)

theorem pieces_append_mark (text : List Char) {c : Char} (mark : isWordChar c = false)
    (rest : List Char) : pieces (text ++ c :: rest) = pieces text ++ .mark c :: pieces rest := by
  have extend_append (first : Char) (front : List Piece) :
      extend first (front ++ .mark c :: pieces rest) =
        extend first front ++ .mark c :: pieces rest := by
    rcases front with _ | ⟨_ | _, front⟩ <;> rfl
  induction text with
  | nil => simp [pieces, mark]
  | cons first text ih =>
      rw [List.cons_append, pieces, pieces, ih]
      split
      · exact extend_append first (pieces text)
      · rfl

/-- The pieces of a text are those of its parts, if the second does not start with a word. -/
theorem tokens_append_right (first : List Char) {second : List Char}
    (starts : second.head?.all (!isWordChar ·) = true) :
    tokens (first ++ second) = tokens first ++ tokens second := by
  cases second with
  | nil => simp [tokens, pieces]
  | cons c rest =>
      have mark : isWordChar c = false := by simpa using starts
      rw [tokens, pieces_append_mark first mark rest, List.filter_append]
      simp [tokens, pieces, mark]

/-- The pieces of a text are those of its parts, if the first does not end with a word. -/
theorem tokens_append_left {first : List Char}
    (ends : first.getLast?.all (!isWordChar ·) = true) (second : List Char) :
    tokens (first ++ second) = tokens first ++ tokens second := by
  rcases List.eq_nil_or_concat first with rfl | ⟨front, c, rfl⟩
  · rfl
  · have mark : isWordChar c = false := by simpa using ends
    have single (rest : List Char) : tokens (c :: rest) = tokens [c] ++ tokens rest := by
      have split : pieces (c :: rest) = pieces [c] ++ pieces rest := by simp [pieces, mark]
      rw [tokens, split, List.filter_append]
      rfl
    have parted (rest : List Char) :
        tokens (front ++ c :: rest) = tokens front ++ (tokens [c] ++ tokens rest) := by
      rw [tokens_append_right front (by simp [mark]), single]
    rw [List.concat_eq_append, List.append_assoc, List.singleton_append, parted, parted,
      List.append_assoc, List.append_assoc]
    rfl

theorem pieces_word {text : List Char} (first : text ≠ [])
    (word : ∀ c ∈ text, isWordChar c = true) : pieces text = [.word text] := by
  induction text with
  | nil => exact absurd rfl first
  | cons c text ih =>
      obtain ⟨here, word⟩ := List.forall_mem_cons.mp word
      rw [pieces, if_pos here]
      cases text with
      | nil => rfl
      | cons c' text => rw [ih (List.cons_ne_nil _ _) word, extend]

theorem tokens_word {text : List Char} (first : text ≠ [])
    (word : ∀ c ∈ text, isWordChar c = true) : tokens text = [.word text] := by
  rw [tokens, pieces_word first word]
  rfl

/-! ## What a line is about -/

/-- The label that a line jumps to. -/
def jump? (line : String) : Option String :=
  match read line with
  | [.word keyword, .word label, .mark ';'] =>
      if keyword = "goto".toList then some (String.ofList label) else none
  | _ => none

/-- The label that a line sets. -/
def label? (line : String) : Option String :=
  match read line with
  | [.word label, .mark ':', .mark ';'] => some (String.ofList label)
  | _ => none

/-- The words that are not numbers, are not called and are not the type of a cast. -/
def named : List Piece → List String
  | .word _ :: .mark '(' :: rest => named rest
  | .mark '(' :: .word _ :: .mark ')' :: .mark '(' :: rest => named rest
  | .word text :: rest =>
      if text.head?.any Char.isDigit then named rest else String.ofList text :: named rest
  | .mark _ :: rest => named rest
  | [] => []

/-- The variables that a line mentions. The keyword in front of what is returned is none of them. -/
def mentioned (line : String) : List String :=
  if (jump? line).isSome || (label? line).isSome then []
  else
    match read line with
    | [.word keyword, .word value, .mark ';'] =>
        if keyword = "return".toList then named [.word value, .mark ';']
        else named [.word keyword, .word value, .mark ';']
    | pieces => named pieces

/-- Whether a text can be a name: a letter, and then letters, digits and underscores. -/
def IsName (text : String) : Prop :=
  ∃ first others, text.toList = first :: others ∧ first.isAlpha = true ∧
    ∀ c ∈ others, isWordChar c = true

theorem IsName.tokens {name : String} (isName : IsName name) :
    tokens name.toList = [.word name.toList] := by
  obtain ⟨first, others, spelled, letter, word⟩ := isName
  rw [spelled]
  refine tokens_word (List.cons_ne_nil _ _) (List.forall_mem_cons.mpr ⟨?_, word⟩)
  simp [isWordChar, Char.isAlphanum, letter]

/-! ## Variables of a part of a line -/

/-- Pieces that do not start with an opening parenthesis. -/
def Closed (pieces : List Piece) : Prop :=
  pieces.head? ≠ some (.mark '(')

theorem named_word {text : List Char} {pieces : List Piece} (closed : Closed pieces) :
    named (.word text :: pieces) =
      if text.head?.any Char.isDigit then named pieces
      else String.ofList text :: named pieces := by
  rw [named]
  rintro rest rfl
  exact closed rfl

theorem named_mark {c : Char} (other : c ≠ '(') (pieces : List Piece) :
    named (.mark c :: pieces) = named pieces := by
  rw [named]
  exact fun _ _ _ here => other here

/-- A part of a line: it has no quotes and does not end the line, and where no parenthesis opens
after it, it mentions these variables. -/
structure Mentions (text : String) (names : List String) : Prop where
  plain : ∀ c ∈ text.toList, c ≠ '"' ∧ c ≠ '\n'
  reads : ∀ rest, Closed rest → named (tokens text.toList ++ rest) = names ++ named rest

/-- Whether a character can stand in a sign: a mark that opens no parenthesis. -/
def isSignChar (c : Char) : Bool :=
  !isWordChar c && c != ' ' && c != '(' && c != '"' && c != '\n'

/-- Whether a text is a sign. -/
def IsSign (text : String) : Prop :=
  text.toList ≠ [] ∧ text.toList.all isSignChar = true

instance (text : String) : Decidable (IsSign text) :=
  inferInstanceAs (Decidable (_ ∧ _))

theorem IsSign.marks {sign : String} (isSign : IsSign sign) : ∀ c ∈ sign.toList,
    isWordChar c = false ∧ c ≠ ' ' ∧ c ≠ '(' ∧ c ≠ '"' ∧ c ≠ '\n' := by
  intro c member
  have here := List.all_eq_true.mp isSign.2 c member
  simpa [isSignChar, and_assoc] using here

section

variable {sign : String} (isSign : IsSign sign)

include isSign

theorem tokens_sign (rest : List Char) :
    tokens (sign.toList ++ rest) = sign.toList.map .mark ++ tokens rest := by
  have marks := isSign.marks
  generalize sign.toList = signs at marks ⊢
  induction signs with
  | nil => rfl
  | cons c signs ih =>
      obtain ⟨⟨mark, other, -⟩, marks⟩ := List.forall_mem_cons.mp marks
      have here : tokens [c] = [.mark c] := by simp [tokens, pieces, mark, other]
      rw [List.cons_append, ← List.singleton_append, tokens_append_left (by simp [mark]), here,
        ih marks]
      rfl

theorem named_sign (pieces : List Piece) :
    named (sign.toList.map .mark ++ pieces) = named pieces := by
  have marks := isSign.marks
  generalize sign.toList = signs at marks ⊢
  induction signs with
  | nil => rfl
  | cons c signs ih =>
      obtain ⟨⟨-, -, other, -⟩, marks⟩ := List.forall_mem_cons.mp marks
      rw [List.map_cons, List.cons_append, named_mark other, ih marks]

theorem closed_sign (pieces : List Piece) : Closed (sign.toList.map .mark ++ pieces) := by
  have marks := isSign.marks
  cases spelled : sign.toList with
  | nil => exact absurd spelled isSign.1
  | cons c signs =>
      rw [spelled] at marks
      simpa [Closed] using (marks c List.mem_cons_self).2.2.1

end

namespace Mentions

theorem name {name : String} (isName : IsName name) : Mentions name [name] where
  plain := by
    obtain ⟨first, others, spelled, letter, word⟩ := isName
    rw [spelled]
    refine List.forall_mem_cons.mpr ⟨?_, fun c member => ?_⟩
    · constructor <;> rintro rfl <;> simp at letter
    · have here := word c member
      constructor <;> rintro rfl <;> simp [isWordChar] at here
  reads rest closed := by
    have other : name.toList.head?.any Char.isDigit = false := by
      obtain ⟨first, others, spelled, letter, -⟩ := isName
      rw [spelled]
      exact Lexeme.isDigit_of_isAlpha letter
    rw [isName.tokens, List.singleton_append, named_word closed, other]
    simp

/-- A number mentions nothing. -/
theorem number {text : String} {whole fraction : List Char} (whole_digits : Lexeme.Digits whole)
    (fraction_digits : Lexeme.Digits fraction) (spelled : text.toList = whole ++ '.' :: fraction) :
    Mentions text [] where
  plain c member := by
    have plain_of_digit {c : Char} (digit : c.isDigit = true) : c ≠ '"' ∧ c ≠ '\n' := by
      constructor <;> rintro rfl <;> simp at digit
    rw [spelled, List.mem_append, List.mem_cons] at member
    rcases member with member | rfl | member
    · exact plain_of_digit (whole_digits.2 c member)
    · decide
    · exact plain_of_digit (fraction_digits.2 c member)
  reads rest closed := by
    have tokens_digits {text : List Char} (digits : Lexeme.Digits text) :
        tokens text = [.word text] :=
      tokens_word digits.1 fun c member => by simp [isWordChar, Char.isAlphanum, digits.2 c member]
    have starts {text : List Char} (digits : Lexeme.Digits text) :
        text.head?.any Char.isDigit = true := by
      cases text with
      | nil => exact absurd rfl digits.1
      | cons c text => exact digits.2 c List.mem_cons_self
    have point : tokens ('.' :: fraction) = [.mark '.', .word fraction] := by
      rw [← List.singleton_append, tokens_append_left (by decide), tokens_digits fraction_digits]
      rfl
    rw [spelled, tokens_append_right whole (by rfl), tokens_digits whole_digits, point,
      List.append_assoc, List.singleton_append, List.cons_append, List.singleton_append,
      named_word (by simp [Closed]), if_pos (starts whole_digits), named_mark (by decide),
      named_word closed, if_pos (starts fraction_digits), List.nil_append]

variable {text text' sign : String} {names names' : List String}

/-- A sign in front adds nothing. -/
theorem signed (isSign : IsSign sign) (mentions : Mentions text names) :
    Mentions (sign ++ text) names where
  plain c member := by
    rw [String.toList_append, List.mem_append] at member
    rcases member with member | member
    · exact (isSign.marks c member).2.2.2
    · exact mentions.plain c member
  reads rest closed := by
    rw [String.toList_append, tokens_sign isSign, List.append_assoc, named_sign isSign,
      mentions.reads rest closed]

/-- Two parts with a sign between them mention what either of them mentions. -/
theorem joined (mentions : Mentions text names) (isSign : IsSign sign)
    (mentions' : Mentions text' names') :
    Mentions (text ++ (" " ++ sign ++ " " ++ text')) (names ++ names') where
  plain c member := by
    simp only [String.toList_append, List.mem_append] at member
    rcases member with member | ((member | member) | member) | member
    · exact mentions.plain c member
    · simp at member
      simp [member]
    · exact (isSign.marks c member).2.2.2
    · simp at member
      simp [member]
    · exact mentions'.plain c member
  reads rest closed := by
    have spelled : (text ++ (" " ++ sign ++ " " ++ text')).toList =
        text.toList ++ ([' '] ++ (sign.toList ++ ([' '] ++ text'.toList))) := by simp
    have blank (rest : List Char) : tokens ([' '] ++ rest) = tokens rest :=
      tokens_append_left (by decide) rest
    rw [spelled, tokens_append_right _ (by rfl), blank, tokens_sign isSign, blank,
      List.append_assoc, List.append_assoc, mentions.reads _ (closed_sign isSign _),
      named_sign isSign, mentions'.reads rest closed, List.append_assoc]

end Mentions

/-! ## Lines around a part -/

/-- The pieces of a line are those of its parts, if the part in the middle has no quotes and neither
neighbour ends or starts with a word. -/
theorem read_around {opening text closing : String} (plain : '"' ∉ text.toList)
    (code : Mode.code.after opening.toList = .code)
    (ends : (Mode.code.outside opening.toList).getLast?.all (!isWordChar ·) = true)
    (starts : (Mode.code.outside closing.toList).head?.all (!isWordChar ·) = true) :
    read (opening ++ text ++ closing) = tokens (Mode.code.outside opening.toList) ++
      (tokens text.toList ++ tokens (Mode.code.outside closing.toList)) := by
  obtain ⟨same, stays⟩ := Mode.outside_of_plain plain
  rw [read, String.toList_append, String.toList_append, List.append_assoc, Mode.outside_append,
    code, Mode.outside_append, same, stays, tokens_append_left ends, tokens_append_right _ starts]

theorem lines_append_newline {line : String} (inside : '\n' ∉ line.toList) (rest : String) :
    lines (line ++ "\n" ++ rest) = line :: lines rest := by
  have spelled : (line ++ "\n" ++ rest).toList = line.toList ++ '\n' :: rest.toList := by simp
  rw [lines, spelled, splitLines_append_newline inside, List.map_cons, String.ofList_toList]
  rfl

/-- A text of whole lines, which mention variables of a list, and jump to labels and set labels in
order. -/
def Mirrors (text : String) (vars jumps labels : List String) : Prop :=
  ∃ own, (∀ rest, lines (text ++ rest) = own ++ lines rest) ∧
    (∀ line ∈ own, ∀ name ∈ mentioned line, name ∈ vars) ∧
      own.filterMap jump? = jumps ∧ own.filterMap label? = labels

namespace Mirrors

variable {text text' : String} {vars vars' jumps jumps' labels labels' : List String}

theorem empty : Mirrors "" vars [] [] :=
  ⟨[], fun rest => by rw [String.empty_append, List.nil_append], by simp, rfl, rfl⟩

/-- One line, with its end. -/
theorem line (line : String) (ended : line ++ "\n" = text) (inside : '\n' ∉ line.toList)
    (jump : (jump? line).toList = jumps) (label : (label? line).toList = labels)
    (known : ∀ name ∈ mentioned line, name ∈ vars) : Mirrors text vars jumps labels := by
  subst ended jump label
  refine ⟨[line], lines_append_newline inside, ?_, ?_, ?_⟩
  · simpa using known
  · cases jumps : jump? line <;> simp [jumps]
  · cases labels : label? line <;> simp [labels]

/-- A line that starts with a word and a mark other than a colon neither jumps nor sets a label. -/
theorem code (line : String) {word : List Char} {c : Char} {rest : List Piece}
    (ended : line ++ "\n" = text) (inside : '\n' ∉ line.toList)
    (starts : read line = .word word :: .mark c :: rest) (other : c ≠ ':')
    (known : ∀ name ∈ named (.word word :: .mark c :: rest), name ∈ vars) :
    Mirrors text vars [] [] := by
  have jump : jump? line = none := by simp [jump?, starts]
  have label : label? line = none := by simp [label?, starts, other]
  refine .line line ended inside (by rw [jump]; rfl) (by rw [label]; rfl) ?_
  simpa [mentioned, jump, label, starts] using known

theorem append (first : Mirrors text vars jumps labels)
    (second : Mirrors text' vars jumps' labels') :
    Mirrors (text ++ text') vars (jumps ++ jumps') (labels ++ labels') := by
  obtain ⟨own, whole, known, rfl, rfl⟩ := first
  obtain ⟨own', whole', known', rfl, rfl⟩ := second
  refine ⟨own ++ own', fun rest => ?_, fun line member => ?_, by simp, by simp⟩
  · rw [String.append_assoc, whole, whole', List.append_assoc]
  · rcases List.mem_append.mp member with member | member
    · exact known line member
    · exact known' line member

theorem mono (mirrors : Mirrors text vars jumps labels) (subset : vars ⊆ vars') :
    Mirrors text vars' jumps labels := by
  obtain ⟨own, whole, known, jumps, labels⟩ := mirrors
  exact ⟨own, whole, fun line member name mention => subset (known line member name mention),
    jumps, labels⟩

/-- What a text of whole lines says of its lines. -/
theorem of_lines (mirrors : Mirrors text vars jumps labels) :
    (∀ line ∈ lines text, ∀ name ∈ mentioned line, name ∈ vars) ∧
      (lines text).filterMap jump? = jumps ∧ (lines text).filterMap label? = labels := by
  obtain ⟨own, whole, known, jumps, labels⟩ := mirrors
  have all : lines text = own := by simpa [lines, splitLines] using whole ""
  rw [all]
  exact ⟨known, jumps, labels⟩

end Mirrors

end TeenyTiny.C
