import TeenyTiny.Proofs.Tiling

/-!
# Texts that go on

No lexeme and no gap goes on behind the end of its line. So within a line the same is read whatever
lines come after it (`Lexeme.read_more`, `Lexeme.splitGap_more`), offences included, and a text
whose last line ends can be read before anything is known of what follows it: all that follows can
do is to come in place of the end of the text (`Cursor.supply_extend`).

A fault within the text is reported alike then, since its line and column are counted from the start
(`Fault.diagnose_append`).
-/

set_option autoImplicit false

namespace TeenyTiny

/-! ## Reading within a line -/

namespace Lexeme

/-- The same reading in a text that goes on. -/
def Reading.extend (more : List Char) : Reading → Reading
  | .token kind text rest => .token kind text (rest ++ more)
  | .refused passed cause rest => .refused passed cause (rest ++ more)

section Lines

variable {text : List Char} (ends : '\n' ∈ text) (more : List Char)
include ends

theorem head_more : (text ++ more).head? = text.head? := by
  obtain ⟨c, rest, rfl⟩ := List.exists_cons_of_ne_nil (List.ne_nil_of_mem ends)
  rfl

/-- A run of characters in which no line ends is over when the line is. -/
theorem span_more {p : Char → Bool} (stop : p '\n' = false) :
    (text ++ more).takeWhile p = text.takeWhile p ∧
      (text ++ more).dropWhile p = text.dropWhile p ++ more ∧ '\n' ∈ text.dropWhile p := by
  induction text with
  | nil => cases ends
  | cons c text ih =>
      by_cases goes : p c = true
      · have later : '\n' ∈ text := by
          apply (List.mem_cons.mp ends).resolve_left
          rintro rfl
          rw [stop] at goes
          cases goes
        obtain ⟨front, back, inside⟩ := ih later
        simp only [List.cons_append, List.takeWhile_cons_of_pos goes,
          List.dropWhile_cons_of_pos goes, front, back, inside, and_self]
      · simp only [List.cons_append, List.takeWhile_cons_of_neg goes,
          List.dropWhile_cons_of_neg goes, ends, and_self]

theorem readString_more : readString (text ++ more) = (readString text).extend more := by
  obtain ⟨front, back, inside⟩ := span_more ends more (p := inString) (by decide)
  unfold readString
  rw [front, back]
  obtain ⟨c, rest, shape⟩ := List.exists_cons_of_ne_nil (List.ne_nil_of_mem inside)
  rw [shape, List.cons_append]
  by_cases quote : c = '"'
  · subst quote
    rfl
  · simp [quote, Reading.extend]

theorem readNumber_more : readNumber (text ++ more) = (readNumber text).extend more := by
  obtain ⟨front, back, inside⟩ := span_more ends more (p := Char.isDigit) (by decide)
  unfold readNumber
  rw [front, back]
  obtain ⟨c, rest, shape⟩ := List.exists_cons_of_ne_nil (List.ne_nil_of_mem inside)
  rw [shape, List.cons_append]
  rw [shape] at inside
  by_cases point : c = '.'
  · subst point
    have later : '\n' ∈ rest := (List.mem_cons.mp inside).resolve_left (by decide)
    obtain ⟨front', back', -⟩ := span_more later more (p := Char.isDigit) (by decide)
    simp only [head_more later more, front', back']
    split
    · rfl
    · rfl
  · simp [point, Reading.extend]

theorem readWord_more : readWord (text ++ more) = (readWord text).extend more := by
  obtain ⟨front, back, -⟩ := span_more ends more (p := Char.isAlphanum) (by decide)
  unfold readWord
  rw [front, back]
  rfl

theorem readComparison_more (c : Char) (short long : Kind) :
    readComparison c short long (text ++ more) =
      (readComparison c short long text).extend more := by
  obtain ⟨d, rest, rfl⟩ := List.exists_cons_of_ne_nil (List.ne_nil_of_mem ends)
  by_cases equals : d = '='
  · subst equals
    rfl
  · simp [readComparison, equals, Reading.extend]

theorem readBang_more : readBang (text ++ more) = (readBang text).extend more := by
  obtain ⟨d, rest, rfl⟩ := List.exists_cons_of_ne_nil (List.ne_nil_of_mem ends)
  by_cases equals : d = '='
  · subst equals
    rfl
  · simp [readBang, equals, Reading.extend]

/-- What is read within a line does not depend on the lines after it. -/
theorem read_more : read (text ++ more) = (read text).extend more := by
  obtain ⟨c, rest, rfl⟩ := List.exists_cons_of_ne_nil (List.ne_nil_of_mem ends)
  by_cases newline : c = '\n'
  · subst newline
    rfl
  · have later : '\n' ∈ rest := (List.mem_cons.mp ends).resolve_left (Ne.symm newline)
    by_cases plain : c ∈ marks
    · unfold read
      simp only [List.cons_append]
      split
      case h_6 | h_7 | h_8 => exact readComparison_more later more _ _ _
      case h_9 => exact readBang_more later more
      case h_10 => exact readString_more later more
      case h_11 => simp_all [marks]
      all_goals rfl
    · rw [List.cons_append, read_of_not_mem_marks plain, read_of_not_mem_marks plain]
      split
      · exact readNumber_more ends more
      · split
        · exact readWord_more ends more
        · rfl

/-- Neither does the gap in front of it. -/
theorem splitGap_more :
    splitGap (text ++ more) = ((splitGap text).1, (splitGap text).2 ++ more) ∧
      '\n' ∈ (splitGap text).2 := by
  obtain ⟨front, back, inside⟩ := span_more ends more (p := isBlank) (by decide)
  unfold splitGap
  rw [front, back]
  obtain ⟨c, rest, shape⟩ := List.exists_cons_of_ne_nil (List.ne_nil_of_mem inside)
  rw [shape, List.cons_append]
  rw [shape] at inside
  by_cases comment : c = '#'
  · subst comment
    have later : '\n' ∈ rest := (List.mem_cons.mp inside).resolve_left (by decide)
    obtain ⟨front', back', inside'⟩ := span_more later more (p := inComment) (by decide)
    simp only [front', back']
    exact ⟨trivial, inside'⟩
  · simpa [comment] using inside

end Lines

end Lexeme

/-! ## Reading line after line -/

theorem Supply.lookahead_cons (token : Token) (supply : Supply) :
    lookahead ⟨token :: supply.tokens, supply.ending⟩ = token :: supply.lookahead := by
  obtain ⟨tokens, ending⟩ := supply
  cases ending with
  | ok last => rfl
  | error fault => rfl

theorem Supply.ending_of_fault {supply : Supply} {fault : Fault}
    (found : supply.fault? = some fault) : supply.ending = .error fault := by
  obtain ⟨tokens, ending⟩ := supply
  cases ending with
  | ok last => cases found
  | error other =>
      cases found
      rfl

namespace Cursor

/-- The same cursor in a text that goes on. -/
def extend (cursor : Cursor) (more : List Char) : Cursor :=
  ⟨cursor.offset, cursor.rest ++ more⟩

/-- Before the last line end of a text, the same is read if the text goes on. -/
theorem next_extend {cursor : Cursor} (ends : '\n' ∈ cursor.rest) (more : List Char) :
    (cursor.extend more).next = (cursor.next.1, cursor.next.2.extend more) := by
  obtain ⟨gap, inside⟩ := Lexeme.splitGap_more ends more
  have start : (cursor.extend more).pastGap = cursor.pastGap.extend more := by
    simp only [pastGap, extend, past, gap]
  have reading : Lexeme.read (cursor.pastGap.extend more).rest =
      (Lexeme.read cursor.pastGap.rest).extend more := Lexeme.read_more inside more
  rw [next, next, start, read, read, reading]
  cases Lexeme.read cursor.pastGap.rest with
  | token _ _ _ => rfl
  | refused _ _ _ => rfl

/-- Reading one token moves the cursor and leaves the text as long as it is. A token starts before
the cursor then, and a fault points where it stands. -/
theorem next_total (cursor : Cursor) :
    cursor.next.2.offset + byteLength cursor.next.2.rest =
        cursor.offset + byteLength cursor.rest ∧
      (∀ token, cursor.next.1 = .ok token → token.loc ≤ cursor.next.2.offset) ∧
      ∀ fault, cursor.next.1 = .error fault → fault.loc = cursor.next.2.offset := by
  have gap := congrArg byteLength (Lexeme.splitGap_append cursor.rest)
  have whole := congrArg byteLength (Lexeme.span_read cursor.pastGap.rest)
  rw [byteLength_append] at gap whole
  revert whole
  unfold next read
  cases Lexeme.read cursor.pastGap.rest with
  | token kind text rest =>
      intro whole
      simp only [Lexeme.Reading.span, pastGap, past] at whole ⊢
      refine ⟨by omega, ?_, ?_⟩
      · intro other same
        cases same
        exact Nat.le_add_right _ _
      · intro fault impossible
        cases impossible
  | refused passed cause rest =>
      intro whole
      simp only [Lexeme.Reading.span, pastGap, past] at whole ⊢
      refine ⟨by omega, ?_, ?_⟩
      · intro token impossible
        cases impossible
      · intro fault same
        cases same
        rfl

/-- What is read lies within the text. -/
theorem loc_le_of_supply (cursor : Cursor) :
    (∀ token ∈ cursor.supply.lookahead, token.loc ≤ cursor.offset + byteLength cursor.rest) ∧
      ∀ fault, cursor.supply.ending = .error fault →
        fault.loc ≤ cursor.offset + byteLength cursor.rest := by
  induction cursor using supply.induct with
  | case1 cursor fault after found =>
      obtain ⟨total, -, loc⟩ := cursor.next_total
      rw [found] at total loc
      rw [supply_of_fault found]
      have here := loc fault rfl
      refine ⟨?_, ?_⟩
      · intro token impossible
        cases impossible
      · intro other same
        cases same
        omega
  | case2 cursor token after found ended =>
      obtain ⟨total, loc, -⟩ := cursor.next_total
      rw [found] at total loc
      have here := loc token rfl
      rw [supply_of_end found ended]
      refine ⟨?_, ?_⟩
      · intro other member
        obtain rfl : other = token := by simpa [Supply.lookahead] using member
        omega
      · intro fault impossible
        cases impossible
  | case3 cursor token after found more _ ih =>
      obtain ⟨total, loc, -⟩ := cursor.next_total
      rw [found] at total loc
      have here := loc token rfl
      rw [supply_of_token found more, Supply.lookahead_cons]
      rw [total] at ih
      exact ⟨List.forall_mem_cons.mpr ⟨by omega, ih.1⟩, ih.2⟩

end Cursor

/-- Everything that is read of a text that goes on: if it can be read to its end, what follows comes
in place of the end. -/
def Supply.followed (supply later : Supply) : Supply :=
  match supply.ending with
  | .ok _ => ⟨supply.tokens ++ later.tokens, later.ending⟩
  | .error _ => supply

theorem Supply.followed_cons (token : Token) (supply later : Supply) :
    followed ⟨token :: supply.tokens, supply.ending⟩ later =
      ⟨token :: (supply.followed later).tokens, (supply.followed later).ending⟩ := by
  obtain ⟨tokens, ending⟩ := supply
  cases ending with
  | ok last => rfl
  | error fault => rfl

/-- A text whose last line ends can be read line by line. -/
theorem Cursor.supply_extend {cursor : Cursor} (lined : Lexeme.Lined cursor.rest)
    (more : List Char) :
    (cursor.extend more).supply =
      cursor.supply.followed (mk (cursor.offset + byteLength cursor.rest) more).supply := by
  induction cursor using supply.induct with
  | case1 cursor fault after found =>
      have ends : '\n' ∈ cursor.rest := by
        apply lined.newline_mem
        intro none
        rw [next_of_rest none] at found
        cases found
      have extended := next_extend ends more
      rw [found] at extended
      rw [supply_of_fault found, supply_of_fault extended]
      rfl
  | case2 cursor last after found ended =>
      have none := rest_eq_nil_of_end lined found ended
      rw [supply_of_end found ended]
      obtain ⟨offset, rest⟩ := cursor
      subst none
      rfl
  | case3 cursor token after found going _ ih =>
      have ends : '\n' ∈ cursor.rest := by
        apply lined.newline_mem
        intro none
        rw [next_of_rest none] at found
        cases found
        exact going rfl
      have extended := next_extend ends more
      obtain ⟨gap, -, whole, -⟩ := exists_gap_of_next lined found
      have total := cursor.next_total.1
      rw [found] at extended total
      rw [whole] at lined
      rw [supply_of_token found going, supply_of_token extended going, ih lined.of_append, total]
      exact (Supply.followed_cons token _ _).symm

/-! ## Positions -/

/-- The front of a text that takes at most so many bytes is the same if the text goes on behind
them. -/
theorem within_append {bytes : Nat} {text : List Char} (inside : bytes ≤ byteLength text)
    (more : List Char) : within bytes (text ++ more) = within bytes text := by
  induction text generalizing bytes with
  | nil =>
      obtain rfl : bytes = 0 := Nat.le_zero.mp inside
      cases more with
      | nil => rfl
      | cons c more =>
          have := c.utf8Size_pos
          exact if_neg (by omega)
  | cons c text ih =>
      rw [List.cons_append, within, within]
      split
      · rw [byteLength_cons] at inside
        rw [ih (by omega)]
      · rfl

/-- A fault within a text is reported alike if the text goes on. -/
theorem Fault.diagnose_append {fault : Fault} {text : List Char}
    (inside : fault.loc ≤ byteLength text) (more : List Char) :
    fault.diagnose (text ++ more) = fault.diagnose text := by
  rw [diagnose, diagnose, Diagnostic.ofOffset, Diagnostic.ofOffset, Position.ofOffset,
    Position.ofOffset, within_append inside]

/-! ## Sources -/

theorem sourceText_append (source more : String) :
    sourceText (source ++ "\n" ++ more) = sourceText source ++ sourceText more := by
  simp [sourceText]

/-- The cursor at the start of the lines that follow a source. -/
def Cursor.behind (source more : String) : Cursor :=
  ⟨byteLength (sourceText source), sourceText more⟩

/-- What is read of a source and of the lines that follow it. -/
theorem Cursor.supply_append (source more : String) :
    (ofSource (source ++ "\n" ++ more)).supply =
      (ofSource source).supply.followed (behind source more).supply := by
  have extended : ofSource (source ++ "\n" ++ more) =
      (ofSource source).extend (sourceText more) := by
    rw [ofSource, sourceText_append]
    rfl
  rw [extended, supply_extend (Lexeme.lined_concat source.toList), ofSource, Nat.zero_add]
  rfl

end TeenyTiny
