import TeenyTiny.Cursor

/-!
# The shape of tokens

What reading can give. Keywords, operators and the ends of lines and of the text have one spelling
each (`Kind.spelling?`). Names are words that spell no keyword, numbers are digits with or without
a fraction, and strings hold none of the characters that may not stand in them
(`Lexeme.Shaped`). Every token that can be read is of that shape (`Cursor.shaped_of_next`), and what
cannot be read is a fault of reading (`Cursor.phase_of_next`).

The tokens of a text without faults are `Cursor.Lexes`: reading token after token gives them, and
the end of the text comes last. They are what the reader of a program is given
(`Cursor.lexes_iff_supply`).
-/

set_option autoImplicit false

namespace TeenyTiny

/-- The one spelling of the tokens of a kind, for the kinds that have one. -/
def Kind.spelling? : Kind → Option String
  | number | ident | quoted => none
  | eof => some ""
  | newline => some "\n"
  | assign => some "="
  | plus => some "+"
  | minus => some "-"
  | times => some "*"
  | divide => some "/"
  | equal => some "=="
  | unequal => some "!="
  | less => some "<"
  | atMost => some "<="
  | greater => some ">"
  | atLeast => some ">="
  | keyword => some keyword.name

namespace Lexeme

/-! ## Shapes -/

-- There are far more characters than any text has, so what holds of all characters of a text is
-- decided along the text and not along the characters.

instance (priority := 2000) decidableForallMem (p : Char → Prop) [DecidablePred p]
    (text : List Char) : Decidable (∀ c ∈ text, p c) :=
  List.decidableBAll p text

instance (priority := 2000) decidableForallMemOption (p : Char → Prop) [DecidablePred p]
    (next : Option Char) : Decidable (∀ c ∈ next, p c) :=
  Option.decidableForallMem next

/-- A letter, and then letters and digits. -/
def Word (text : List Char) : Prop :=
  ∃ first others, text = first :: others ∧ first.isAlpha = true ∧
    ∀ c ∈ others, c.isAlphanum = true

theorem isDigit_of_isAlpha {c : Char} (letter : c.isAlpha = true) : c.isDigit = false := by
  have bounds : (65 ≤ c.toNat ∧ c.toNat ≤ 90) ∨ (97 ≤ c.toNat ∧ c.toNat ≤ 122) := by
    delta Char.isAlpha Char.isUpper Char.isLower at letter
    simpa [UInt32.le_iff_toNat_le] using letter
  simp only [Char.isDigit, Bool.and_eq_false_iff, decide_eq_false_iff_not, UInt32.le_iff_toNat_le,
    ge_iff_le]
  right
  show ¬ c.toNat ≤ 57
  omega

/-- One digit or more. -/
def Digits (text : List Char) : Prop :=
  text ≠ [] ∧ ∀ c ∈ text, c.isDigit = true

/-- Digits, with or without a point and digits after it. -/
def Numeral (text : List Char) : Prop :=
  Digits text ∨ ∃ whole fraction, Digits whole ∧ Digits fraction ∧
    text = whole ++ '.' :: fraction

/-- Whether a lexeme is of a shape that can be written. -/
def Shaped (lexeme : Lexeme) : Prop :=
  match lexeme.1 with
  | .ident => Word lexeme.2.toList ∧ Kind.keyword? lexeme.2 = none
  | .number => Numeral lexeme.2.toList
  | .quoted => ∀ c ∈ lexeme.2.toList, inString c = true
  | kind => kind.spelling? = some lexeme.2

/-- Whether a reading is of a shape that can be written if it is a token, and a fault of reading if
it is none. -/
def Reading.Sound : Reading → Prop
  | .token kind text _ => Shaped (kind, String.ofList text)
  | .refused _ cause _ => cause.phase = .lexing

theorem all_takeWhile {p : Char → Bool} (text : List Char) :
    ∀ c ∈ text.takeWhile p, p c = true := by
  have all := List.all_takeWhile (p := p) (l := text)
  exact List.all_eq_true.mp all

/-- Characters of one class are parted from what follows by the first character outside it. -/
theorem span_append {p : Char → Bool} {front rest : List Char} (inside : ∀ c ∈ front, p c = true)
    (stop : ∀ c ∈ rest.head?, p c = false) :
    (front ++ rest).takeWhile p = front ∧ (front ++ rest).dropWhile p = rest := by
  rw [List.takeWhile_append_of_pos inside, List.dropWhile_append_of_pos inside]
  cases rest with
  | nil => simp
  | cons c rest => simp [stop c rfl]

/-- The digits before a point, and what comes after them. -/
theorem span_digits {whole : List Char} (digits : Digits whole) (fraction : List Char) :
    (whole ++ '.' :: fraction).takeWhile Char.isDigit = whole ∧
      (whole ++ '.' :: fraction).dropWhile Char.isDigit = '.' :: fraction := by
  refine span_append digits.2 ?_
  rintro _ ⟨⟩
  rfl

theorem sound_readString (text : List Char) : (readString text).Sound := by
  unfold readString
  split
  · simp only [Reading.Sound, Shaped, String.toList_ofList]
    exact all_takeWhile text
  · rfl

theorem digits_takeWhile {text : List Char} (digit : text.head?.any Char.isDigit = true) :
    Digits (text.takeWhile Char.isDigit) := by
  refine ⟨?_, all_takeWhile text⟩
  cases text with
  | nil => simp at digit
  | cons c rest =>
      have here : c.isDigit = true := by simpa using digit
      simp [here]

theorem sound_readNumber {text : List Char} (digit : text.head?.any Char.isDigit = true) :
    (readNumber text).Sound := by
  unfold readNumber
  split
  · next rest _ =>
      split
      · next fraction =>
          simp only [Reading.Sound, Shaped, String.toList_ofList]
          exact .inr ⟨_, _, digits_takeWhile digit, digits_takeWhile fraction, rfl⟩
      · rfl
  · simp only [Reading.Sound, Shaped, String.toList_ofList]
    exact .inl (digits_takeWhile digit)

/-- A keyword is spelled by its name. -/
theorem spelling_of_mem_keywords {kind : Kind} (member : kind ∈ Kind.keywords) :
    kind.spelling? = some kind.name ∧ kind ≠ .ident ∧ kind ≠ .number ∧ kind ≠ .quoted := by
  simp only [Kind.keywords, List.mem_cons, List.not_mem_nil, or_false] at member
  rcases member with rfl | rfl | rfl | rfl | rfl | rfl | rfl | rfl | rfl | rfl | rfl <;>
    exact ⟨rfl, by decide, by decide, by decide⟩

/-- A lexeme of a kind with one spelling is of the right shape if it is spelled so. -/
theorem shaped_of_spelling {kind : Kind} {text : String} (spelled : kind.spelling? = some text) :
    Shaped (kind, text) := by
  cases kind <;> first | exact spelled | simp [Kind.spelling?] at spelled

/-- A lexeme whose kind has one spelling has that spelling. -/
theorem Shaped.text_eq {kind : Kind} {written text : String} (shaped : Shaped (kind, written))
    (spelling : kind.spelling? = some text) : written = text := by
  have fixed : kind.spelling? = some written := by
    cases kind <;>
      first
        | exact shaped
        | cases spelling
  exact Option.some.inj (fixed.symm.trans spelling)

theorem sound_of_spelling {kind : Kind} {text rest : List Char}
    (spelled : kind.spelling? = some (String.ofList text)) :
    (Reading.token kind text rest).Sound :=
  shaped_of_spelling spelled

theorem sound_readWord {c : Char} (rest : List Char) (letter : c.isAlpha = true) :
    (readWord (c :: rest)).Sound := by
  have first : c.isAlphanum = true := by simp [Char.isAlphanum, letter]
  simp only [readWord, Reading.Sound, wordKind]
  cases found : Kind.keyword? (String.ofList ((c :: rest).takeWhile Char.isAlphanum)) with
  | none =>
      simp only [Option.getD_none, Shaped, String.toList_ofList]
      refine ⟨⟨c, rest.takeWhile Char.isAlphanum, ?_, letter, all_takeWhile rest⟩, found⟩
      simp [first]
  | some kind =>
      have spelled : kind.name = String.ofList ((c :: rest).takeWhile Char.isAlphanum) := by
        simpa using List.find?_some found
      have keyword := spelling_of_mem_keywords (List.mem_of_find?_eq_some found)
      simp only [Option.getD_some]
      exact shaped_of_spelling (by rw [keyword.1, spelled])

theorem sound_readComparison (c : Char) {short long : Kind} (rest : List Char)
    (spelled : short.spelling? = some (String.ofList [c]))
    (spelled' : long.spelling? = some (String.ofList [c, '='])) :
    (readComparison c short long rest).Sound := by
  unfold readComparison
  split
  · exact sound_of_spelling spelled'
  · exact sound_of_spelling spelled

theorem sound_readBang (rest : List Char) : (readBang rest).Sound := by
  unfold readBang
  split
  · exact sound_of_spelling (by decide)
  · rfl

/-- Everything that is read is a lexeme of a shape that can be written, or a fault of reading. -/
theorem sound_read (text : List Char) : (read text).Sound := by
  unfold read
  split
  · exact sound_of_spelling (by decide)
  · split
    case h_6 | h_7 | h_8 => exact sound_readComparison _ _ (by decide) (by decide)
    case h_9 => exact sound_readBang _
    case h_10 => exact sound_readString _
    case h_11 =>
      split
      · next digit => exact sound_readNumber (by simpa using digit)
      · split
        · next letter => exact sound_readWord _ letter
        · rfl
    all_goals exact sound_of_spelling (by decide)

end Lexeme

namespace Cursor

/-- Every token that can be read is of a shape that can be written. -/
theorem shaped_of_next {cursor after : Cursor} {token : Token}
    (found : cursor.next = (.ok token, after)) : Lexeme.Shaped token.lexeme := by
  have sound := Lexeme.sound_read cursor.pastGap.rest
  unfold next read at found
  split at found
  · next kind text rest lexeme =>
      simp only [Prod.mk.injEq, Except.ok.injEq] at found
      obtain ⟨rfl, -⟩ := found
      rw [lexeme] at sound
      exact sound
  · simp at found

/-- What cannot be read is a fault of reading. -/
theorem phase_of_next {cursor after : Cursor} {fault : Fault}
    (found : cursor.next = (.error fault, after)) : fault.cause.phase = .lexing := by
  have sound := Lexeme.sound_read cursor.pastGap.rest
  unfold next read at found
  split at found
  · simp at found
  · next passed cause rest lexeme =>
      simp only [Prod.mk.injEq, Except.error.injEq] at found
      obtain ⟨rfl, -⟩ := found
      rw [lexeme] at sound
      exact sound

/-! ## The tokens of a text without faults -/

/-- Reading token after token from a cursor gives these tokens without a fault. The last of them,
and no other, is the end of the text. -/
inductive Lexes : Cursor → List Token → Prop where
  | finish {cursor after : Cursor} {last : Token} :
      cursor.next = (.ok last, after) → last.kind = .eof → Lexes cursor [last]
  | read {cursor after : Cursor} {token : Token} {tokens : List Token} :
      cursor.next = (.ok token, after) → token.kind ≠ .eof → Lexes after tokens →
        Lexes cursor (token :: tokens)

theorem supply_of_fault {cursor after : Cursor} {fault : Fault}
    (found : cursor.next = (.error fault, after)) : cursor.supply = ⟨[], .error fault⟩ := by
  rw [supply]
  split
  · next same =>
      rw [found] at same
      cases same
      rfl
  · next same => simp [found] at same

theorem supply_of_end {cursor after : Cursor} {last : Token}
    (found : cursor.next = (.ok last, after)) (ended : last.kind = .eof) :
    cursor.supply = ⟨[], .ok last⟩ := by
  rw [supply]
  split
  · next same => simp [found] at same
  · next same =>
      rw [found] at same
      cases same
      simp [ended]

theorem supply_of_token {cursor after : Cursor} {token : Token}
    (found : cursor.next = (.ok token, after)) (more : token.kind ≠ .eof) :
    cursor.supply = ⟨token :: after.supply.tokens, after.supply.ending⟩ := by
  rw [supply]
  split
  · next same => simp [found] at same
  · next same =>
      rw [found] at same
      cases same
      simp [more]

/-- Reading one token after another gives what can be read, if nothing before the last reading is
the end of the text. -/
theorem supply_of_take {cursor : Cursor} {tokens : List Token} {ending : Except Fault Token}
    (taken : (cursor.take (tokens.length + 1)).1 = tokens.map .ok ++ [ending])
    (more : ∀ token ∈ tokens, token.kind ≠ .eof)
    (ended : ∀ last, ending = .ok last → last.kind = .eof) :
    cursor.supply = ⟨tokens, ending⟩ := by
  induction tokens generalizing cursor with
  | nil =>
      have found : cursor.next.1 = ending := (List.cons.inj taken).1
      cases ending with
      | error fault => exact supply_of_fault (Prod.ext found rfl)
      | ok last => exact supply_of_end (Prod.ext found rfl) (ended last rfl)
  | cons token tokens ih =>
      obtain ⟨found, later⟩ := List.cons.inj taken
      obtain ⟨here, more⟩ := List.forall_mem_cons.mp more
      have found : cursor.next = (.ok token, cursor.next.2) := Prod.ext found rfl
      rw [supply_of_token found here, ih later more]

/-- The tokens of a text without faults are those that the reader of a program is given. -/
theorem lexes_iff_supply {cursor : Cursor} {tokens : List Token} :
    cursor.Lexes tokens ↔
      ∃ last, cursor.supply.ending = .ok last ∧ tokens = cursor.supply.tokens ++ [last] := by
  constructor
  · intro lexes
    induction lexes with
    | finish found ended => exact ⟨_, by rw [supply_of_end found ended], by
        rw [supply_of_end found ended]; rfl⟩
    | read found more _ ih =>
        obtain ⟨last, ending, rfl⟩ := ih
        rw [supply_of_token found more]
        exact ⟨last, ending, rfl⟩
  · induction cursor using supply.induct generalizing tokens with
    | case1 cursor fault after found =>
        rintro ⟨last, ending, -⟩
        rw [supply_of_fault found] at ending
        cases ending
    | case2 cursor token after found ended =>
        rintro ⟨last, ending, rfl⟩
        rw [supply_of_end found ended] at ending ⊢
        cases ending
        exact .finish found ended
    | case3 cursor token after found more _ ih =>
        rintro ⟨last, ending, rfl⟩
        rw [supply_of_token found more] at ending ⊢
        exact .read found more (ih ⟨last, ending, rfl⟩)

namespace Lexes

/-- What the reader of a program is given of a text without faults. -/
theorem supply_eq {cursor : Cursor} {body : List Token} {last : Token}
    (lexes : cursor.Lexes (body ++ [last])) : cursor.supply = ⟨body, .ok last⟩ := by
  obtain ⟨final, ending, same⟩ := lexes_iff_supply.mp lexes
  obtain ⟨rfl, final⟩ := List.append_inj' same rfl
  cases final
  rw [← ending]

/-- The end of the text is the last token and no other. -/
theorem split {cursor : Cursor} {tokens : List Token} (lexes : cursor.Lexes tokens) :
    ∃ body last, tokens = body ++ [last] ∧ last.kind = .eof ∧
      ∀ token ∈ body, token.kind ≠ .eof := by
  induction lexes with
  | @finish _ _ last _ ended => exact ⟨[], last, rfl, ended, by simp⟩
  | @read _ _ token _ _ more _ ih =>
      obtain ⟨body, last, rfl, ended, inside⟩ := ih
      refine ⟨token :: body, last, rfl, ended, ?_⟩
      intro other member
      rcases List.mem_cons.mp member with rfl | member
      · exact more
      · exact inside other member

theorem ends {cursor : Cursor} {body : List Token} {last : Token}
    (lexes : cursor.Lexes (body ++ [last])) :
    last.kind = .eof ∧ ∀ token ∈ body, token.kind ≠ .eof := by
  obtain ⟨body', last', same, ended, inside⟩ := lexes.split
  obtain ⟨rfl, final⟩ := List.append_inj' same rfl
  cases final
  exact ⟨ended, inside⟩

/-- Every token of a text without faults is of a shape that can be written. -/
theorem shaped {cursor : Cursor} {tokens : List Token} (lexes : cursor.Lexes tokens) :
    ∀ token ∈ tokens, Lexeme.Shaped token.lexeme := by
  induction lexes with
  | finish found _ =>
      intro token member
      rw [List.mem_singleton.mp member]
      exact shaped_of_next found
  | read found _ _ ih =>
      intro token member
      rcases List.mem_cons.mp member with rfl | member
      · exact shaped_of_next found
      · exact ih token member

end Lexes

/-- No token before the end of what can be read is the end. -/
theorem more_of_mem_supply (cursor : Cursor) :
    ∀ token ∈ cursor.supply.tokens, token.kind ≠ .eof := by
  induction cursor using supply.induct with
  | case1 cursor fault after found =>
      rw [supply_of_fault found]
      simp
  | case2 cursor token after found ended =>
      rw [supply_of_end found ended]
      simp
  | case3 cursor token after found more _ ih =>
      rw [supply_of_token found more]
      intro other member
      rcases List.mem_cons.mp member with rfl | member
      · exact more
      · exact ih other member

/-- What ends the reading before the end of the text is a fault of reading. -/
theorem phase_of_ending {cursor : Cursor} {fault : Fault}
    (ending : cursor.supply.ending = .error fault) : fault.cause.phase = .lexing := by
  induction cursor using supply.induct with
  | case1 cursor fault' after found =>
      rw [supply_of_fault found] at ending
      cases ending
      exact phase_of_next found
  | case2 cursor token after found ended =>
      rw [supply_of_end found ended] at ending
      cases ending
  | case3 cursor token after found more _ ih =>
      rw [supply_of_token found more] at ending
      exact ih ending

end Cursor

end TeenyTiny
