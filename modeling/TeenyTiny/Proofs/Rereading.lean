import TeenyTiny.Proofs.Shape

/-!
# Reading a text again

What stands after a lexeme matters to it by the first character alone, and only if that character
goes on with the lexeme (`Lexeme.joins`). A lexeme of a shape that can be written is read as itself
in front of any other character (`Lexeme.read_written`), and whatever is read stands in front of
such a character (`Lexeme.ends_of_read`).

So a text can be cut after any of its tokens. The tokens before the cut are read again, at the same
offsets, and after them the end of a line and the end of the text (`Cursor.exists_lexes`): for every
source there is one without faults that starts with the same tokens
(`Cursor.exists_lexes_ofSource`).
-/

set_option autoImplicit false

namespace TeenyTiny

namespace Lexeme

/-- Whether a character right after a lexeme would be read together with it. -/
def joins (kind : Kind) (text : List Char) (c : Char) : Bool :=
  match kind with
  | .number => c.isDigit || (c == '.' && !text.contains '.')
  | .assign | .less | .greater => c == '='
  | .eof | .newline | .quoted | .plus | .minus | .times | .divide | .equal | .unequal | .atMost
  | .atLeast => false
  | _ => c.isAlphanum

/-- A lexeme ends in front of a text: what comes next does not go on with it. -/
def Ends (kind : Kind) (text rest : List Char) : Prop :=
  ∀ c ∈ rest.head?, joins kind text c = false

/-! ## What is written is read -/

/-- The characters that start a lexeme other than a word or a number. -/
def marks : List Char :=
  ['\n', '+', '-', '*', '/', '=', '<', '>', '!', '"']

theorem read_of_not_mem_marks {c : Char} (plain : c ∉ marks) (rest : List Char) :
    read (c :: rest) =
      if c.isDigit then readNumber (c :: rest)
      else if c.isAlpha then readWord (c :: rest)
      else .refused [] (.unknownChar c) (c :: rest) := by
  rw [read]
  all_goals
    rintro rfl
    simp [marks] at plain

theorem not_mem_marks {c : Char} (alphanumeric : c.isAlphanum = true) : c ∉ marks := by
  intro member
  have all : ∀ c ∈ marks, c.isAlphanum = false := by decide
  rw [all c member] at alphanumeric
  cases alphanumeric

theorem word_cons {first : Char} {others : List Char} :
    Word (first :: others) ↔ first.isAlpha = true ∧ ∀ c ∈ others, c.isAlphanum = true := by
  constructor
  · rintro ⟨_, _, ⟨⟩, word⟩
    exact word
  · exact fun word => ⟨first, others, rfl, word⟩

instance (text : List Char) : Decidable (Word text) :=
  match text with
  | [] => .isFalse (by rintro ⟨_, _, ⟨⟩, -⟩)
  | _ :: _ => decidable_of_iff _ word_cons.symm

theorem read_word {text rest : List Char} (word : Word text)
    (stop : ∀ c ∈ rest.head?, c.isAlphanum = false) :
    read (text ++ rest) = .token (wordKind text) text rest := by
  obtain ⟨first, others, rfl, letter, word⟩ := word
  have here : first.isAlphanum = true := by simp [Char.isAlphanum, letter]
  obtain ⟨front, back⟩ := span_append (List.forall_mem_cons.mpr ⟨here, word⟩) stop
  rw [List.cons_append] at front back ⊢
  rw [read_of_not_mem_marks (not_mem_marks here), isDigit_of_isAlpha letter, letter]
  simp only [Bool.false_eq_true, if_false, if_true, readWord, front, back]

theorem read_keyword {kind : Kind} (member : kind ∈ Kind.keywords) {rest : List Char}
    (stop : ∀ c ∈ rest.head?, c.isAlphanum = false) :
    read (kind.name.toList ++ rest) = .token kind kind.name.toList rest := by
  have words : ∀ kind ∈ Kind.keywords,
      Word kind.name.toList ∧ wordKind kind.name.toList = kind := by decide
  obtain ⟨word, same⟩ := words kind member
  rw [read_word word stop, same]

theorem read_of_digits {text : List Char} (digits : Digits text) (rest : List Char) :
    read (text ++ rest) = readNumber (text ++ rest) := by
  obtain ⟨nonempty, digits⟩ := digits
  obtain ⟨first, others, rfl⟩ := List.exists_cons_of_ne_nil nonempty
  have digit := digits first List.mem_cons_self
  have here : first.isAlphanum = true := by simp [Char.isAlphanum, digit]
  rw [List.cons_append, read_of_not_mem_marks (not_mem_marks here), digit]
  rfl

theorem point_not_mem {text : List Char} (digits : ∀ c ∈ text, c.isDigit = true) :
    '.' ∉ text := by
  intro member
  cases digits '.' member

theorem read_numeral {text rest : List Char} (numeral : Numeral text)
    (ends : Ends .number text rest) : read (text ++ rest) = .token .number text rest := by
  rcases numeral with digits | ⟨whole, fraction, digits, digits', rfl⟩
  · have stop : ∀ c ∈ rest.head?, c.isDigit = false ∧ c ≠ '.' := by
      intro c next
      simpa [joins, point_not_mem digits.2] using ends c next
    obtain ⟨front, back⟩ := span_append digits.2 fun c next => (stop c next).1
    rw [read_of_digits digits, readNumber, front, back]
    split
    · next rest' => exact absurd rfl (stop '.' rfl).2
    · rfl
  · have stop : ∀ c ∈ rest.head?, c.isDigit = false := by
      intro c next
      simpa [joins] using ends c next
    obtain ⟨front, back⟩ := span_digits digits (fraction ++ rest)
    obtain ⟨front', back'⟩ := span_append digits'.2 stop
    obtain ⟨first, others, rfl⟩ := List.exists_cons_of_ne_nil digits'.1
    have digit := digits'.2 first List.mem_cons_self
    rw [List.append_assoc, List.cons_append, read_of_digits digits, readNumber, front, back]
    simp only [List.cons_append, List.head?_cons, Option.any_some, digit, if_true]
    rw [← List.cons_append, front', back']

theorem read_string {text : List Char} (inside : ∀ c ∈ text, inString c = true)
    (rest : List Char) :
    read (written .quoted text ++ rest) = .token .quoted text rest := by
  have quote : ∀ c ∈ ('"' :: rest).head?, inString c = false := by
    rintro _ ⟨⟩
    rfl
  obtain ⟨front, back⟩ := span_append inside quote
  have shape : written .quoted text ++ rest = '"' :: (text ++ '"' :: rest) := by simp [written]
  rw [shape, read]
  simp only [readString, front, back]

theorem readComparison_short {c : Char} {short long : Kind} {rest : List Char}
    (stop : ∀ d ∈ rest.head?, d ≠ '=') :
    readComparison c short long rest = .token short [c] rest := by
  unfold readComparison
  split
  · exact absurd rfl (stop '=' rfl)
  · rfl

/-- A lexeme that can be written is read as itself where it ends. -/
theorem read_written {kind : Kind} {text rest : List Char}
    (shaped : Shaped (kind, String.ofList text)) (more : kind ≠ .eof) (ends : Ends kind text rest) :
    read (written kind text ++ rest) = .token kind text rest := by
  have spelled {spelling : String} (same : some spelling = some (String.ofList text)) :
      text = spelling.toList := by
    rw [Option.some.inj same, String.toList_ofList]
  have keyword (member : kind ∈ Kind.keywords)
      (same : kind.spelling? = some (String.ofList text))
      (stop : ∀ c ∈ rest.head?, c.isAlphanum = false) :
      read (text ++ rest) = .token kind text rest := by
    rw [(spelling_of_mem_keywords member).1] at same
    obtain rfl := spelled same
    exact read_keyword member stop
  cases kind
  case eof => exact absurd rfl more
  case ident =>
    obtain ⟨word, free⟩ := shaped
    rw [String.toList_ofList] at word
    have kind : wordKind text = .ident := by rw [wordKind, free, Option.getD_none]
    rw [written_of_ne_quoted (by decide), read_word word ends, kind]
  case number =>
    have numeral : Numeral text := by simpa [Shaped] using shaped
    exact read_numeral numeral ends
  case quoted =>
    have inside : ∀ c ∈ text, inString c = true := by simpa [Shaped] using shaped
    exact read_string inside rest
  case assign | less | greater =>
    obtain rfl := spelled shaped
    exact readComparison_short fun d next => by simpa [joins] using ends d next
  case newline | plus | minus | times | divide | equal | unequal | atMost | atLeast =>
    obtain rfl := spelled shaped
    rfl
  all_goals exact keyword (by decide) shaped ends

/-! ## What is read ends -/

/-- Whether a reading stops where its lexeme ends, if it is a lexeme. -/
def Reading.Parted : Reading → Prop
  | .token kind text rest => Ends kind text rest
  | .refused _ _ _ => True

theorem head_dropWhile (p : Char → Bool) (text : List Char) :
    ∀ c ∈ (text.dropWhile p).head?, p c = false := by
  intro c next
  have stop := List.head?_dropWhile_not p text
  rw [next] at stop
  exact stop

theorem joins_wordKind (word text : List Char) (c : Char) :
    joins (wordKind word) text c = c.isAlphanum := by
  have all : ∀ kind ∈ Kind.ident :: Kind.keywords, joins kind text c = c.isAlphanum := by
    simp [Kind.keywords, joins]
  exact all _ (wordKind_mem word)

theorem parted_readString (text : List Char) : (readString text).Parted := by
  unfold readString
  split
  · exact fun _ _ => rfl
  · trivial

theorem parted_readNumber (text : List Char) : (readNumber text).Parted := by
  have stop := head_dropWhile Char.isDigit text
  unfold readNumber
  split
  · next rest _ =>
      split
      · intro c next
        simp [joins, head_dropWhile Char.isDigit rest c next]
      · trivial
  · next rest other =>
      intro c next
      have point : c ≠ '.' := by
        rintro rfl
        obtain ⟨rest, shape⟩ := List.head?_eq_some_iff.mp next
        exact other rest shape
      simp [joins, stop c next, point]

theorem parted_readWord (text : List Char) : (readWord text).Parted := by
  intro c next
  rw [joins_wordKind]
  exact head_dropWhile Char.isAlphanum text c next

theorem parted_readComparison (c : Char) {short long : Kind} (rest : List Char)
    (both : ∀ text d, joins short text d = (d == '=') ∧ joins long text d = false) :
    (readComparison c short long rest).Parted := by
  unfold readComparison
  split
  · exact fun d _ => (both _ d).2
  · next rest other =>
      intro d next
      rw [(both _ d).1, beq_eq_false_iff_ne]
      rintro rfl
      obtain ⟨rest, rfl⟩ := List.head?_eq_some_iff.mp next
      exact other rest rfl

theorem parted_readBang (rest : List Char) : (readBang rest).Parted := by
  unfold readBang
  split
  · exact fun _ _ => rfl
  · trivial

theorem parted_read (text : List Char) : (read text).Parted := by
  unfold read
  split
  · exact fun _ _ => rfl
  · split
    case h_6 | h_7 | h_8 => exact parted_readComparison _ _ fun _ _ => ⟨rfl, rfl⟩
    case h_9 => exact parted_readBang _
    case h_10 => exact parted_readString _
    case h_11 =>
      split
      · exact parted_readNumber _
      · split
        · exact parted_readWord _
        · trivial
    all_goals exact fun _ _ => rfl

/-- A lexeme that is read ends where the reading stops. -/
theorem ends_of_read {text taken rest : List Char} {kind : Kind}
    (found : read text = .token kind taken rest) : Ends kind taken rest := by
  have parted := parted_read text
  rw [found] at parted
  exact parted

/-! ## What follows is looked at by its first character -/

/-- No lexeme goes on with the end of a line. -/
theorem joins_newline (kind : Kind) (text : List Char) : joins kind text '\n' = false := by
  cases kind <;> rfl

/-- A text that may stand in the place of another after a lexeme: it starts with the same character,
or with the end of a line. -/
def Follows (rest rest' : List Char) : Prop :=
  rest'.head? = rest.head? ∨ rest'.head? = some '\n'

theorem Ends.follows {kind : Kind} {text rest rest' : List Char} (ends : Ends kind text rest)
    (follows : Follows rest rest') : Ends kind text rest' := by
  intro c next
  rcases follows with same | newline
  · exact ends c (same ▸ next)
  · obtain rfl : '\n' = c := Option.some.inj (newline.symm.trans next)
    exact joins_newline kind text

/-- A lexeme is read again in front of another text. -/
theorem read_of_follows {text taken rest rest' : List Char} {kind : Kind}
    (found : read text = .token kind taken rest) (more : kind ≠ .eof)
    (follows : Follows rest rest') :
    read (written kind taken ++ rest') = .token kind taken rest' := by
  have sound := sound_read text
  rw [found] at sound
  exact read_written sound more ((ends_of_read found).follows follows)

/-- A gap is a gap in front of every text that starts with the same character. -/
theorem splitGap_of_head {text rest' : List Char} (same : rest'.head? = (splitGap text).2.head?) :
    splitGap ((splitGap text).1 ++ rest') = ((splitGap text).1, rest') := by
  have blanks := all_takeWhile (p := isBlank) text
  have stop := head_dropWhile isBlank text
  revert same
  unfold splitGap
  split
  · next rest shape =>
      intro same
      have sign : ∀ c ∈ ('#' :: (rest.takeWhile inComment ++ rest')).head?, isBlank c = false := by
        rintro _ ⟨⟩
        rfl
      obtain ⟨front, back⟩ := span_append blanks sign
      have stop : ∀ c ∈ rest'.head?, inComment c = false := fun c next =>
        head_dropWhile inComment rest c (same ▸ next)
      obtain ⟨front', back'⟩ := span_append (all_takeWhile (p := inComment) rest) stop
      simp only [List.append_assoc, List.cons_append, front, back, front', back']
  · next rest other =>
      intro same
      have stop : ∀ c ∈ rest'.head?, isBlank c = false := fun c next => stop c (same ▸ next)
      obtain ⟨front, back⟩ := span_append blanks stop
      simp only [front, back]
      split
      · next rest'' =>
          obtain ⟨rest, shape⟩ := List.head?_eq_some_iff.mp same.symm
          exact absurd shape (other rest)
      · rfl

end Lexeme

namespace Cursor

open Lexeme (Follows)

/-- A token is read again from the characters it was read from, in front of another text. -/
theorem next_of_follows {cursor after : Cursor} {token : Token}
    (found : cursor.next = (.ok token, after)) (more : token.kind ≠ .eof) :
    ∃ front, cursor.rest = front ++ after.rest ∧ ∀ rest', Follows after.rest rest' →
      next ⟨cursor.offset, front ++ rest'⟩ = (.ok token, ⟨after.offset, rest'⟩) := by
  unfold next read at found
  split at found
  · next kind text rest lexeme =>
      simp only [Prod.mk.injEq, Except.ok.injEq] at found
      obtain ⟨rfl, rfl⟩ := found
      have whole : (Lexeme.read cursor.pastGap.rest).span.1 ++
          (Lexeme.read cursor.pastGap.rest).span.2 = (Lexeme.splitGap cursor.rest).2 :=
        Lexeme.span_read cursor.pastGap.rest
      have takes := Lexeme.takes_read cursor.pastGap.rest
      rw [lexeme] at whole takes
      have nonempty : Lexeme.written kind text ≠ [] := takes.resolve_left more
      refine ⟨(Lexeme.splitGap cursor.rest).1 ++ Lexeme.written kind text, ?_, ?_⟩
      · rw [List.append_assoc]
        exact ((congrArg _ whole).trans (Lexeme.splitGap_append cursor.rest)).symm
      · intro rest' follows
        have same : (Lexeme.written kind text ++ rest').head? =
            (Lexeme.splitGap cursor.rest).2.head? := by
          obtain ⟨first, others, shape⟩ := List.exists_cons_of_ne_nil nonempty
          rw [← whole]
          simp only [Lexeme.Reading.span, shape, List.cons_append, List.head?_cons]
        rw [next, pastGap, List.append_assoc, Lexeme.splitGap_of_head same, read]
        simp only [past, Lexeme.read_of_follows lexeme more follows]
        rfl
  · simp at found

/-- A text can be cut after any of its tokens: the tokens before the cut are read again, and the
end of the text can be reached. -/
theorem exists_lexes (cursor : Cursor) :
    ∃ front rest others, cursor.rest = front ++ rest ∧
      Lexes ⟨cursor.offset, front ++ ['\n']⟩ (cursor.supply.tokens ++ others) := by
  have stop (offset : Nat) : ∃ others, Lexes ⟨offset, ['\n']⟩ others :=
    ⟨_, .read rfl (by simp) (.finish rfl rfl)⟩
  induction cursor using supply.induct with
  | case1 cursor fault after found =>
      obtain ⟨others, lexes⟩ := stop cursor.offset
      rw [supply_of_fault found]
      exact ⟨[], cursor.rest, others, rfl, lexes⟩
  | case2 cursor token after found ended =>
      obtain ⟨others, lexes⟩ := stop cursor.offset
      rw [supply_of_end found ended]
      exact ⟨[], cursor.rest, others, rfl, lexes⟩
  | case3 cursor token after found more _ ih =>
      obtain ⟨front, rest, others, whole, lexes⟩ := ih
      obtain ⟨front', whole', again⟩ := next_of_follows found more
      have follows : Follows after.rest (front ++ ['\n']) := by
        cases front with
        | nil => exact .inr rfl
        | cons c front => exact .inl (by rw [whole]; rfl)
      rw [supply_of_token found more]
      refine ⟨front' ++ front, rest, others, by rw [whole', whole, List.append_assoc], ?_⟩
      rw [List.append_assoc]
      exact .read (again _ follows) more lexes

/-- For every source there is one without faults that starts with the same tokens. -/
theorem exists_lexes_ofSource (source : String) :
    ∃ clean others, (ofSource clean).Lexes ((ofSource source).supply.tokens ++ others) := by
  obtain ⟨front, rest, others, -, lexes⟩ := (ofSource source).exists_lexes
  refine ⟨String.ofList front, others, ?_⟩
  rw [ofSource, sourceText, String.toList_ofList]
  exact lexes

end Cursor

end TeenyTiny
