import TeenyTiny.Proofs.Rendering

/-!
# What one reading gives

Reading one token is described without regard to how it is done. First a gap is skipped: blanks, and
then a comment if one starts there (`Lexeme.Skips`). What is left then either starts with a lexeme
(`Lexeme.Readable`) or breaks one of four rules (`Lexeme.Offence`), and in a text whose last line
ends it never does both or neither. A token is read in the first case, and it is the longest lexeme
that stands there, of whatever kind (`Lexeme.isPrefix_of_read`). In the second case the fault points
at the character that breaks the rule (`next_longest_match`).

A comment runs on to the end of its line, with one exception. It stops at the character NUL, which
is then read as the start of a token and refused (`next_comment`, `next_comment_with_null`).
-/

set_option autoImplicit false

namespace TeenyTiny

namespace Lexeme

/-! ## Gaps -/

/-- What is skipped in front of a text: blanks, and after them a comment if one starts there. The
comment stops before the end of the line, before NUL or at the end of the text. -/
inductive Skips : List Char → List Char → Prop where
  | blanks {blanks text : List Char} : (∀ c ∈ blanks, isBlank c = true) →
      (∀ c ∈ text.head?, startsGap c = false) → Skips blanks text
  | comment {blanks remark text : List Char} : (∀ c ∈ blanks, isBlank c = true) →
      (∀ c ∈ remark, c ≠ '\n' ∧ c ≠ '\x00') → (∀ c ∈ text.head?, c = '\n' ∨ c = '\x00') →
      Skips (blanks ++ '#' :: remark) text

theorem inComment_iff {c : Char} : inComment c = true ↔ c ≠ '\n' ∧ c ≠ '\x00' := by
  simp [inComment]

theorem inComment_eq_false {c : Char} : inComment c = false ↔ c = '\n' ∨ c = '\x00' := by
  rw [← Bool.not_eq_true, inComment_iff, Classical.not_and_iff_not_or_not, Classical.not_not,
    Classical.not_not]

/-- The gap in front of a text is what is skipped. -/
theorem skips_splitGap (text : List Char) : Skips (splitGap text).1 (splitGap text).2 := by
  have blanks := all_takeWhile (p := isBlank) text
  have stop := head_dropWhile isBlank text
  unfold splitGap
  split
  · next rest _ =>
      refine .comment blanks ?_ ?_
      · intro c member
        exact inComment_iff.mp (all_takeWhile rest c member)
      · intro c next
        exact inComment_eq_false.mp (head_dropWhile inComment rest c next)
  · next rest other =>
      refine .blanks blanks ?_
      intro c next
      have sign : c ≠ '#' := by
        rintro rfl
        obtain ⟨rest, shape⟩ := List.head?_eq_some_iff.mp next
        exact other rest shape
      simp [startsGap, stop c next, sign]

/-- Nothing else is skipped. -/
theorem splitGap_of_skips {gap text : List Char} (skips : Skips gap text) :
    splitGap (gap ++ text) = (gap, text) := by
  cases skips with
  | blanks blanks stop => exact splitGap_of_blanks blanks stop
  | @comment blanks remark text all inside stop =>
      have sign : ∀ c ∈ ('#' :: (remark ++ text)).head?, isBlank c = false := by
        rintro _ ⟨⟩
        rfl
      obtain ⟨front, back⟩ := span_append all sign
      obtain ⟨front', back'⟩ := span_append
        (fun c member => inComment_iff.mpr (inside c member))
        (fun c next => inComment_eq_false.mpr (stop c next))
      rw [List.append_assoc, List.cons_append, splitGap, front, back]
      simp only [front', back']

/-! ## Texts that start with a lexeme -/

/-- The characters that are a lexeme by themselves or with an equals sign after them. -/
def signs : List Char :=
  ['\n', '+', '-', '*', '/', '=', '<', '>']

/-- The characters that break off a string. -/
def breaksString : List Char :=
  ['\r', '\n', '\t', '\\', '%']

/-- The texts that are at their end or start with a lexeme. A point after the digits of a number has
to have a digit after it. -/
inductive Readable : List Char → Prop where
  | nothing : Readable []
  | sign {c : Char} {rest : List Char} : c ∈ signs → Readable (c :: rest)
  | unequal {rest : List Char} : Readable ('!' :: '=' :: rest)
  | word {c : Char} {rest : List Char} : c.isAlpha = true → Readable (c :: rest)
  | string {text rest : List Char} : (∀ c ∈ text, c ≠ '"' ∧ c ∉ breaksString) →
      Readable ('"' :: (text ++ '"' :: rest))
  | number {whole rest : List Char} : Digits whole → (∀ c ∈ rest.head?, c.isDigit = false) →
      (∀ fraction, rest = '.' :: fraction → ∃ c ∈ fraction.head?, c.isDigit = true) →
      Readable (whole ++ rest)

/-- The rules that a text can break, with the characters that are in order before the offence and
those from the offending character on. -/
inductive Offence : List Char → Cause → List Char → Prop where
  /-- The first character that breaks off a string comes before its closing quote. -/
  | string {text rest : List Char} {c : Char} : (∀ c ∈ text, c ≠ '"' ∧ c ∉ breaksString) →
      c ∈ breaksString → Offence ('"' :: text) .badStringChar (c :: rest)
  /-- A point after digits has no digit after it. -/
  | number {whole rest : List Char} : Digits whole → (∀ c ∈ rest.head?, c.isDigit = false) →
      Offence whole .badNumberChar ('.' :: rest)
  /-- An exclamation mark has no equals sign after it. -/
  | bang {rest : List Char} : (∀ c ∈ rest.head?, c ≠ '=') →
      Offence [] (.loneBang (rest.head?.filter (· != '\n'))) ('!' :: rest)
  /-- A character starts no lexeme. -/
  | unknown {c : Char} {rest : List Char} : c ∉ marks → c.isAlphanum = false →
      Offence [] (.unknownChar c) (c :: rest)

theorem inString_iff {c : Char} : inString c = true ↔ c ≠ '"' ∧ c ∉ breaksString := by
  simp [inString, breaksString, and_assoc]

theorem inString_of_break {c : Char} (breaks : c ∈ breaksString) : inString c = false := by
  have all : ∀ c ∈ breaksString, inString c = false := by decide
  exact all c breaks

theorem exists_token_of_comparison (c : Char) (short long : Kind) (rest : List Char) :
    ∃ kind taken after, readComparison c short long rest = .token kind taken after := by
  unfold readComparison
  split
  · exact ⟨_, _, _, rfl⟩
  · exact ⟨_, _, _, rfl⟩

theorem exists_token_of_number {whole rest : List Char} (digits : Digits whole)
    (stop : ∀ c ∈ rest.head?, c.isDigit = false)
    (point : ∀ fraction, rest = '.' :: fraction → ∃ c ∈ fraction.head?, c.isDigit = true) :
    ∃ kind taken after, read (whole ++ rest) = .token kind taken after := by
  obtain ⟨front, back⟩ := span_append digits.2 stop
  rw [read_of_digits digits, readNumber, front, back]
  split
  · next fraction =>
      obtain ⟨c, next, digit⟩ := point fraction rfl
      have first : fraction.head? = some c := next
      simp only [first, Option.any_some, digit, if_true]
      exact ⟨_, _, _, rfl⟩
  · exact ⟨_, _, _, rfl⟩

/-- From a text that starts with a lexeme, a token is read. -/
theorem Readable.exists_token {text : List Char} (readable : Readable text) :
    ∃ kind taken rest, read text = .token kind taken rest := by
  cases readable with
  | nothing => exact ⟨_, _, _, rfl⟩
  | @sign c rest member =>
      simp only [signs, List.mem_cons, List.not_mem_nil, or_false] at member
      rcases member with rfl | rfl | rfl | rfl | rfl | longer
      iterate 5 exact ⟨_, _, _, rfl⟩
      rcases longer with rfl | rfl | rfl
      all_goals exact exists_token_of_comparison _ _ _ rest
  | unequal => exact ⟨_, _, _, rfl⟩
  | @word c rest letter =>
      have here : c.isAlphanum = true := by simp [Char.isAlphanum, letter]
      rw [read_of_not_mem_marks (not_mem_marks here), isDigit_of_isAlpha letter, letter]
      exact ⟨_, _, _, rfl⟩
  | @string inner rest inside =>
      have found := read_string (fun c member => inString_iff.mpr (inside c member)) rest
      have shape : written .quoted inner ++ rest = '"' :: (inner ++ '"' :: rest) := by
        simp [written]
      rw [shape] at found
      exact ⟨_, _, _, found⟩
  | number digits stop point => exact exists_token_of_number digits stop point

/-- A text that breaks a rule is refused for it at the offending character. -/
theorem Offence.read_eq {passed rest : List Char} {cause : Cause}
    (offence : Offence passed cause rest) :
    read (passed ++ rest) = .refused passed cause rest := by
  cases offence with
  | @string text rest c inside breaks =>
      have stop : ∀ d ∈ (c :: rest).head?, inString d = false := by
        rintro _ ⟨⟩
        exact inString_of_break breaks
      have all (d : Char) (member : d ∈ text) : inString d = true :=
        inString_iff.mpr (inside d member)
      obtain ⟨front, back⟩ := span_append all stop
      rw [List.cons_append, read]
      simp only [readString, front, back]
      split
      · next quote => exact absurd ((List.cons.inj quote).1 ▸ breaks) (by decide)
      · rfl
  | @number whole rest digits stop =>
      obtain ⟨front, back⟩ := span_digits digits rest
      rw [read_of_digits digits, readNumber, front, back]
      have none : rest.head?.any Char.isDigit = false := by
        cases rest with
        | nil => rfl
        | cons c rest => simpa using stop c rfl
      simp [none]
  | @bang rest stop =>
      rw [List.nil_append, read, readBang]
      rintro after rfl
      exact stop '=' rfl rfl
  | @unknown c rest other plain =>
      obtain ⟨letter, digit⟩ := Bool.or_eq_false_iff.mp plain
      rw [List.nil_append, read_of_not_mem_marks other, letter, digit]
      rfl

/-- A string of a text whose last line ends is closed or broken off. -/
theorem readable_or_offence_of_string {text : List Char} (lined : Lined ('"' :: text)) :
    Readable ('"' :: text) ∨
      ∃ passed cause rest, '"' :: text = passed ++ rest ∧ Offence passed cause rest := by
  have inside (c : Char) (member : c ∈ text.takeWhile inString) : c ≠ '"' ∧ c ∉ breaksString :=
    inString_iff.mp (all_takeWhile text c member)
  have stop := head_dropWhile inString text
  have whole := List.takeWhile_append_dropWhile (p := inString) (l := text)
  cases shape : text.dropWhile inString with
  | nil =>
      -- The text would end within the string, in which no line ends.
      rw [shape, List.append_nil] at whole
      rcases List.mem_cons.mp (lined.newline_mem (List.cons_ne_nil _ _)) with same | member
      · cases same
      · rw [← whole] at member
        exact absurd (inside '\n' member).2 (by decide)
  | cons c rest =>
      rw [shape] at whole stop
      by_cases quote : c = '"'
      · subst quote
        rw [← whole]
        exact .inl (.string inside)
      · have breaks : c ∈ breaksString := by
          have outside : ¬ (c ≠ '"' ∧ c ∉ breaksString) := by
            rw [← inString_iff, stop c rfl]
            exact Bool.false_ne_true
          exact Classical.not_not.mp fun other => outside ⟨quote, other⟩
        refine .inr ⟨'"' :: text.takeWhile inString, .badStringChar, c :: rest, ?_,
          .string inside breaks⟩
        rw [List.cons_append, whole]

/-- A text that starts with a digit is a number, or its point has no digit after it. -/
theorem readable_or_offence_of_digit {c : Char} {text : List Char} (digit : c.isDigit = true) :
    Readable (c :: text) ∨
      ∃ passed cause rest, c :: text = passed ++ rest ∧ Offence passed cause rest := by
  have digits : Digits ((c :: text).takeWhile Char.isDigit) :=
    digits_takeWhile (by simpa using digit)
  have stop := head_dropWhile Char.isDigit (c :: text)
  have whole := List.takeWhile_append_dropWhile (p := Char.isDigit) (l := c :: text)
  by_cases bad : ∃ fraction, (c :: text).dropWhile Char.isDigit = '.' :: fraction ∧
      ∀ d ∈ fraction.head?, d.isDigit = false
  · obtain ⟨fraction, shape, none⟩ := bad
    rw [shape] at whole
    exact .inr ⟨_, _, _, whole.symm, .number digits none⟩
  · refine .inl (whole ▸ .number digits stop ?_)
    intro fraction shape
    refine Classical.byContradiction fun none => bad ⟨fraction, shape, ?_⟩
    intro d next
    exact Bool.eq_false_iff.mpr fun digit => none ⟨d, next, digit⟩

/-- A text whose last line ends starts with a lexeme or breaks a rule. -/
theorem readable_or_offence {text : List Char} (lined : Lined text) :
    Readable text ∨ ∃ passed cause rest, text = passed ++ rest ∧ Offence passed cause rest := by
  cases text with
  | nil => exact .inl .nothing
  | cons c rest =>
      by_cases sign : c ∈ signs
      · exact .inl (.sign sign)
      by_cases bang : c = '!'
      · subst bang
        by_cases equals : ∃ after, rest = '=' :: after
        · obtain ⟨after, rfl⟩ := equals
          exact .inl .unequal
        · refine .inr ⟨[], _, _, rfl, .bang ?_⟩
          rintro d next rfl
          exact equals (List.head?_eq_some_iff.mp next)
      by_cases quote : c = '"'
      · subst quote
        exact readable_or_offence_of_string lined
      by_cases digit : c.isDigit = true
      · exact readable_or_offence_of_digit digit
      by_cases letter : c.isAlpha = true
      · exact .inl (.word letter)
      · have other : c ∉ marks := by
          have both : marks = signs ++ ['!', '"'] := by decide
          simp [both, sign, bang, quote]
        have plain : c.isAlphanum = false := by simp [Char.isAlphanum, digit, letter]
        exact .inr ⟨[], _, _, rfl, .unknown other plain⟩

/-! ## The longest lexeme -/

section Longest

variable {text taken rest : List Char} {kind : Kind}

theorem isPrefix_of_readWord {word : List Char} (all : Word word)
    (found : read (word ++ text) = .token kind taken rest) : word <+: written kind taken := by
  obtain ⟨first, others, rfl, letter, inside⟩ := all
  have here : first.isAlphanum = true := by simp [Char.isAlphanum, letter]
  have longer : (first :: others ++ text).takeWhile Char.isAlphanum =
      first :: others ++ text.takeWhile Char.isAlphanum :=
    List.takeWhile_append_of_pos (List.forall_mem_cons.mpr ⟨here, inside⟩)
  rw [List.cons_append] at found longer
  rw [read_of_not_mem_marks (not_mem_marks here), isDigit_of_isAlpha letter, letter] at found
  simp only [Bool.false_eq_true, if_false, if_true, readWord] at found
  cases found
  rw [written_of_ne_quoted (wordKind_ne_quoted _), longer]
  exact List.prefix_append _ _

theorem isPrefix_of_readNumeral {numeral : List Char} (all : Numeral numeral)
    (found : read (numeral ++ text) = .token kind taken rest) : numeral <+: written kind taken := by
  have longer {front : List Char} (digits : Digits front) :
      (front ++ text).takeWhile Char.isDigit = front ++ text.takeWhile Char.isDigit :=
    List.takeWhile_append_of_pos digits.2
  rcases all with digits | ⟨whole, fraction, digits, digits', rfl⟩
  · rw [read_of_digits digits, readNumber] at found
    split at found
    · split at found
      · cases found
        rw [written_of_ne_quoted (by decide), longer digits, List.append_assoc]
        exact List.prefix_append _ _
      · cases found
    · cases found
      rw [written_of_ne_quoted (by decide), longer digits]
      exact List.prefix_append _ _
  · obtain ⟨front, back⟩ := span_digits digits (fraction ++ text)
    obtain ⟨first, others, rfl⟩ := List.exists_cons_of_ne_nil digits'.1
    have digit := digits'.2 first List.mem_cons_self
    rw [List.append_assoc, List.cons_append, read_of_digits digits, readNumber, front, back]
      at found
    simp only [List.cons_append, List.head?_cons, Option.any_some, digit, if_true] at found
    cases found
    rw [written_of_ne_quoted (by decide), ← List.cons_append, longer digits', ← List.cons_append,
      ← List.append_assoc]
    exact List.prefix_append _ _

theorem isPrefix_of_readComparison {c : Char} {short long : Kind} (plain : short ≠ .quoted)
    (plain' : long ≠ .quoted) (found : readComparison c short long text = .token kind taken rest) :
    [c] <+: written kind taken := by
  unfold readComparison at found
  split at found
  · cases found
    rw [written_of_ne_quoted plain']
    exact List.prefix_append [c] ['=']
  · have same : written short [c] = [c] := written_of_ne_quoted plain [c]
    cases found
    exact ⟨[], (List.append_nil [c]).trans same.symm⟩

/-- Of all lexemes that a text starts with, the longest is read. -/
theorem isPrefix_of_read (found : read text = .token kind taken rest) {other : Lexeme}
    (shaped : Shaped other) (stands : written other.1 other.2.toList <+: text) :
    written other.1 other.2.toList <+: written kind taken := by
  obtain ⟨kind', spelling⟩ := other
  obtain ⟨after, rfl⟩ := stands
  have keyword (member : kind' ∈ Kind.keywords)
      (found : read (spelling.toList ++ after) = .token kind taken rest)
      (same : kind'.spelling? = some spelling) : spelling.toList <+: written kind taken := by
    have words : ∀ kind ∈ Kind.keywords, Word kind.name.toList := by decide
    rw [(spelling_of_mem_keywords member).1] at same
    cases same
    exact isPrefix_of_readWord (words kind' member) found
  cases kind'
  case ident => exact isPrefix_of_readWord shaped.1 found
  case number => exact isPrefix_of_readNumeral shaped found
  case quoted =>
    cases (read_string shaped after).symm.trans found
    exact List.prefix_refl _
  case assign | less | greater =>
    obtain rfl := shaped.text_eq rfl
    exact isPrefix_of_readComparison (by decide) (by decide) found
  case eof =>
    obtain rfl := shaped.text_eq rfl
    exact List.nil_prefix
  case newline | plus | minus | times | divide | equal | unequal | atMost | atLeast =>
    obtain rfl := shaped.text_eq rfl
    cases found
    exact List.prefix_refl _
  all_goals exact keyword (by decide) found shaped

end Longest

/-- What stands there says whether a lexeme is a keyword: it is one if it spells one, and in a string
the quotes count. -/
theorem mem_keywords_iff {kind : Kind} {text : List Char}
    (shaped : Shaped (kind, String.ofList text)) :
    kind ∈ Kind.keywords ↔ String.ofList (written kind text) ∈ Kind.keywords.map Kind.name := by
  constructor
  · intro member
    obtain ⟨spelled, -, -, plain⟩ := spelling_of_mem_keywords member
    rw [written_of_ne_quoted plain, shaped.text_eq spelled]
    exact List.mem_map_of_mem member
  · intro member
    obtain ⟨other, keyword, same⟩ := List.mem_map.mp member
    have spelled : other.name.toList = written kind text := by rw [same, String.toList_ofList]
    have more : kind ≠ .eof := by
      rintro rfl
      have named : ∀ keyword ∈ Kind.keywords, keyword.name ≠ "" := by decide
      exact named other keyword (same.trans (shaped.text_eq rfl))
    -- Read at the end of a text, it is both the keyword and the lexeme.
    have stop : ∀ c ∈ ([] : List Char).head?, c.isAlphanum = false := nofun
    have ends : Ends kind text [] := nofun
    have found := read_keyword keyword stop
    rw [spelled, read_written shaped more ends] at found
    injection found with kinds
    rwa [kinds]

end Lexeme

/-! ## Cursors that can be reached -/

namespace Cursor

/-- Reading takes characters from the front of what is ahead. -/
theorem exists_front_of_next (cursor : Cursor) :
    ∃ front, cursor.rest = front ++ cursor.next.2.rest := by
  have gap := Lexeme.splitGap_append cursor.rest
  have whole := Lexeme.span_read cursor.pastGap.rest
  refine ⟨(Lexeme.splitGap cursor.rest).1 ++ (Lexeme.read cursor.pastGap.rest).span.1, ?_⟩
  have left : cursor.next.2.rest = (Lexeme.read cursor.pastGap.rest).span.2 := by
    rw [next, read]
    split
    · next found => rw [found]; rfl
    · next found => rw [found]; rfl
  rw [left, List.append_assoc, whole]
  exact gap.symm

theorem lined_next {cursor : Cursor} (lined : Lexeme.Lined cursor.rest) :
    Lexeme.Lined cursor.next.2.rest := by
  obtain ⟨front, whole⟩ := cursor.exists_front_of_next
  rw [whole] at lined
  exact lined.of_append

/-- Wherever reading gets to in a text whose last line ends, the last line still ends. -/
theorem lined_take {cursor : Cursor} (lined : Lexeme.Lined cursor.rest) (calls : Nat) :
    Lexeme.Lined (cursor.take calls).2.rest := by
  induction calls generalizing cursor with
  | zero => exact lined
  | succ calls ih => exact ih (lined_next lined)

/-- Behind what is skipped, a token is read at once. -/
theorem next_of_skips {gap text : List Char} (skips : Lexeme.Skips gap text) (offset : Nat) :
    next ⟨offset, gap ++ text⟩ = read ⟨offset + byteLength gap, text⟩ := by
  rw [next, pastGap, Lexeme.splitGap_of_skips skips]
  rfl

end Cursor

/-! ## Comments -/

/-- A comment runs on to the end of its line, which is the next token, whatever it contains but for
NUL. A comment with NUL in it is refused at the first of them. -/
theorem next_comment {source : String} {front blanks rest : List Char}
    (whole : sourceText source = front ++ (blanks ++ '#' :: rest))
    (blank : ∀ c ∈ blanks, Lexeme.isBlank c = true) :
    ∃ remark after, rest = remark ++ '\n' :: after ∧ '\n' ∉ remark ∧
      ('\x00' ∉ remark →
        let stop := byteLength (front ++ (blanks ++ '#' :: remark))
        Cursor.next ⟨byteLength front, blanks ++ '#' :: rest⟩ =
          (.ok ⟨.newline, "\n", stop⟩, ⟨stop + 1, after⟩)) ∧
      ∀ early late, remark = early ++ '\x00' :: late → '\x00' ∉ early →
        let stop := byteLength (front ++ (blanks ++ '#' :: early))
        Cursor.next ⟨byteLength front, blanks ++ '#' :: rest⟩ =
          (.error ⟨.unknownChar '\x00', stop⟩, ⟨stop, '\x00' :: late ++ '\n' :: after⟩) := by
  have lined : Lexeme.Lined (sourceText source) := Lexeme.lined_concat source.toList
  rw [whole] at lined
  have ends : '\n' ∈ rest := by
    rcases List.mem_cons.mp (lined.of_append.of_append.newline_mem (List.cons_ne_nil _ _)) with
      same | member
    · cases same
    · exact member
  obtain ⟨remark, after, rfl, inside⟩ := List.eq_append_cons_of_mem ends
  have skipped {early text : List Char} (newline : '\n' ∉ early) (null : '\x00' ∉ early)
      (stop : ∀ c ∈ text.head?, c = '\n' ∨ c = '\x00') :
      Cursor.next ⟨byteLength front, blanks ++ '#' :: (early ++ text)⟩ =
        Cursor.read ⟨byteLength (front ++ (blanks ++ '#' :: early)), text⟩ := by
    have skips : Lexeme.Skips (blanks ++ '#' :: early) text := by
      refine .comment blank ?_ stop
      intro c member
      exact ⟨fun same => newline (same ▸ member), fun same => null (same ▸ member)⟩
    have found := Cursor.next_of_skips skips (byteLength front)
    rwa [List.append_assoc, List.cons_append, ← byteLength_append] at found
  refine ⟨remark, after, rfl, inside, ?_, ?_⟩
  · intro null
    rw [skipped inside null (by rintro _ ⟨⟩; exact .inl rfl)]
    rfl
  · intro early late same null
    have newline : '\n' ∉ early := by
      intro member
      exact inside (same ▸ List.mem_append_left _ member)
    rw [same, List.append_assoc, skipped newline null (by rintro _ ⟨⟩; exact .inr rfl)]
    rfl

/-- A comment with a quote, a percent sign and a character of three bytes in it. -/
theorem next_comment_unclosed :
    let text := "PRINT 1 \t# \"%€"
    let rest := [' ', '"', '%', '€', '\n']
    sourceText text = "PRINT 1".toList ++ ([' ', '\t'] ++ '#' :: rest) ∧
      Cursor.next ⟨7, [' ', '\t'] ++ '#' :: rest⟩ =
        (.ok ⟨.newline, "\n", 16⟩, ⟨17, []⟩) := by
  intro text rest
  have whole : sourceText text = "PRINT 1".toList ++ ([' ', '\t'] ++ '#' :: rest) := by decide
  refine ⟨whole, ?_⟩
  obtain ⟨remark, after, split, newline, found, -⟩ := next_comment whole (by decide)
  obtain ⟨before, behind⟩ : rest.takeWhile (· != '\n') = remark ∧
      rest.dropWhile (· != '\n') = '\n' :: after := by
    rw [split]
    refine Lexeme.span_append ?_ (by rintro _ ⟨⟩; rfl)
    rintro c member
    exact bne_iff_ne.mpr fun same => newline (same ▸ member)
  obtain rfl : [' ', '"', '%', '€'] = remark := before
  obtain rfl : [] = after := (List.cons.inj behind).2
  exact found (by decide)

/-- A comment with NUL in it does not run on to the end of its line. -/
theorem next_comment_with_null :
    (Cursor.ofSource "#\x00").next =
      (.error ⟨.unknownChar '\x00', 1⟩, ⟨1, ['\x00', '\n']⟩) := by
  rfl

/-! ## Longest match -/

namespace Cursor

/-- A token that is read at an offset where a text starts with no gap, and the cursor behind it. -/
structure LongestAt (start : Nat) (text : List Char) (token : Token) (after : Cursor) : Prop where
  /-- The token stands there. -/
  loc : token.loc = start
  /-- It is a lexeme of its kind. -/
  shaped : Lexeme.Shaped token.lexeme
  /-- The text is what is written for it and what is left. -/
  whole : text = token.written ++ after.rest
  /-- The cursor has passed it. -/
  passed : after.offset = start + byteLength token.written
  /-- Every lexeme that the text starts with is the front of it. -/
  longest : ∀ other, Lexeme.Shaped other → Lexeme.written other.1 other.2.toList <+: text →
    Lexeme.written other.1 other.2.toList <+: token.written
  /-- What comes next does not go on with it. -/
  ends : Lexeme.Ends token.kind token.text.toList after.rest
  /-- Something comes next, unless it is the end of the text or of a line. -/
  followed : after.rest = [] → token.kind = .eof ∨ token.kind = .newline
  /-- It is the end of the text if nothing is ahead. -/
  ended : token.kind = .eof ↔ text = []
  /-- It is a keyword if what stands there spells one. -/
  keyword : token.kind ∈ Kind.keywords ↔
    String.ofList token.written ∈ Kind.keywords.map Kind.name

/-- A fault for what stands at an offset where a text starts with no gap, and the cursor in front of
the offending character. -/
structure OffenceAt (start : Nat) (text : List Char) (fault : Fault) (after : Cursor) : Prop where
  /-- A rule is broken, behind what is in order and in front of what is left. -/
  broken : ∃ passed, text = passed ++ after.rest ∧ Lexeme.Offence passed fault.cause after.rest ∧
    fault.loc = start + byteLength passed
  /-- The cursor stands where the fault points. -/
  stopped : after.offset = fault.loc
  /-- It is a fault of reading. -/
  phase : fault.cause.phase = .lexing

/-- Where a text starts with no gap, a token is read if the text starts with a lexeme, and it is the
longest; otherwise the fault is exact. -/
theorem read_cases (start : Nat) {text : List Char} (lined : Lexeme.Lined text) :
    (Lexeme.Readable text ∧ ∃ token after, read ⟨start, text⟩ = (.ok token, after) ∧
      LongestAt start text token after) ∨
    (¬ Lexeme.Readable text ∧ ∃ fault after, read ⟨start, text⟩ = (.error fault, after) ∧
      OffenceAt start text fault after) := by
  rcases Lexeme.readable_or_offence lined with readable | ⟨passed, cause, rest, rfl, offence⟩
  · obtain ⟨kind, taken, rest, found⟩ := readable.exists_token
    refine .inl ⟨readable, ⟨kind, String.ofList taken, start⟩,
      ⟨start + byteLength (Lexeme.written kind taken), rest⟩, ?_, ?_⟩
    · rw [read, found]
      rfl
    · have whole := Lexeme.span_read text
      have takes := Lexeme.takes_read text
      have sound := Lexeme.sound_read text
      rw [found] at whole takes sound
      have written : Token.written ⟨kind, String.ofList taken, start⟩ =
          Lexeme.written kind taken := by
        rw [Token.written, String.toList_ofList]
      constructor
      case loc => rfl
      case shaped => exact sound
      case whole => rw [written]; exact whole.symm
      case passed => rw [written]
      case longest =>
        intro other shaped stands
        rw [written]
        exact Lexeme.isPrefix_of_read found shaped stands
      case ends =>
        rw [String.toList_ofList]
        exact Lexeme.ends_of_read found
      case followed =>
        intro none
        by_cases last : kind = .eof
        · exact .inl last
        · obtain rfl : rest = [] := none
          rw [← whole] at lined
          simp only [Lexeme.Reading.span, List.append_nil] at lined
          have newline := lined.newline_mem (takes.resolve_left last)
          rw [← String.toList_ofList (l := taken)] at newline
          exact .inr (Lexeme.newline_of_mem_written sound newline)
      case ended =>
        constructor
        · rintro rfl
          exact Lexeme.eq_nil_of_read found
        · rintro rfl
          cases found
          rfl
      case keyword => rw [written]; exact Lexeme.mem_keywords_iff sound
  · have found := offence.read_eq
    refine .inr ⟨?_, ⟨cause, start + byteLength passed⟩, ⟨start + byteLength passed, rest⟩, ?_, ?_⟩
    · intro readable
      obtain ⟨kind, taken, after, found'⟩ := readable.exists_token
      cases found.symm.trans found'
    · rw [read, found]
      rfl
    · have sound := Lexeme.sound_read (passed ++ rest)
      rw [found] at sound
      exact ⟨⟨passed, rfl, offence, rfl⟩, rfl, sound⟩

end Cursor

/-- One reading is the longest match, and its faults are exact. Wherever reading has got to in a
source, offences on the way included, a gap is skipped. A token is read if and only if what is left
starts with a lexeme. It is then the longest lexeme that stands there, and otherwise the fault is
one of reading that points at the offending character. In either case the cursor stands behind what
was in order. -/
theorem next_longest_match (source : String) (calls : Nat) :
    let cursor : Cursor := ((Cursor.ofSource source).take calls).2
    ∃ gap text, cursor.rest = gap ++ text ∧ Lexeme.Skips gap text ∧
      ((∃ token, cursor.next.1 = .ok token) ↔ Lexeme.Readable text) ∧
      (∀ token, cursor.next.1 = .ok token →
        Cursor.LongestAt (cursor.offset + byteLength gap) text token cursor.next.2) ∧
      ∀ fault, cursor.next.1 = .error fault →
        Cursor.OffenceAt (cursor.offset + byteLength gap) text fault cursor.next.2 := by
  intro cursor
  have lined : Lexeme.Lined cursor.rest :=
    Cursor.lined_take (Lexeme.lined_concat source.toList) calls
  have whole := Lexeme.splitGap_append cursor.rest
  rw [← whole] at lined
  refine ⟨_, _, whole.symm, Lexeme.skips_splitGap cursor.rest, ?_⟩
  rcases Cursor.read_cases _ lined.of_append with
    ⟨readable, token, after, found, longest⟩ | ⟨unreadable, fault, after, found, offence⟩
  · have next : cursor.next = (.ok token, after) := found
    rw [next]
    refine ⟨⟨fun _ => readable, fun _ => ⟨token, rfl⟩⟩, ?_, ?_⟩
    · rintro _ ⟨⟩
      exact longest
    · intro fault impossible
      cases impossible
  · have next : cursor.next = (.error fault, after) := found
    rw [next]
    refine ⟨⟨?_, fun readable => absurd readable unreadable⟩, ?_, ?_⟩
    · rintro ⟨token, impossible⟩
      cases impossible
    · intro token impossible
      cases impossible
    · rintro _ ⟨⟩
      exact offence

end TeenyTiny
