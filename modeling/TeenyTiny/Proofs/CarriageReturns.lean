import TeenyTiny.Proofs.Continuation
import TeenyTiny.Proofs.Relocation

/-!
# Carriage returns

A text may be given a carriage return in front of every line end but the last (`withReturns`).

A carriage return is a blank, so it goes to the gap in front of the line end
(`Lexeme.splitGap_withReturns`), and behind a gap the same is read as without it
(`Lexeme.beside_read`). Only an offence can meet the carriage return: a string that is not closed is
refused there as it was at the line end, and a lone exclamation mark is refused in other words.

So the tokens are the same and have moved on by the carriage returns up to them (`moved`), which
keeps their order (`keepsOrder_moved`, `Cursor.supply_betweenReturns`). Whole lines lead to the same
position as before (`foldl_frontWithReturns`).
-/

set_option autoImplicit false

namespace TeenyTiny

/-! ## Texts -/

/-- The carriage return that is put in front of a text: one if the text starts with the end of a
line and goes on behind it. -/
def returnBefore : List Char → List Char
  | '\n' :: _ :: _ => ['\r']
  | _ => []

/-- A text with a carriage return in front of every line end but one at the end of the text. -/
def withReturns : List Char → List Char
  | [] => []
  | c :: text => returnBefore (c :: text) ++ c :: withReturns text

/-- The same from behind the carriage return that the text itself is given. -/
def afterReturn : List Char → List Char
  | [] => []
  | c :: text => c :: withReturns text

/-- A front of a text with its carriage returns, where the rest follows. -/
def frontWithReturns (front rest : List Char) : List Char :=
  match front with
  | [] => []
  | c :: front => returnBefore (c :: front ++ rest) ++ c :: frontWithReturns front rest

theorem returnBefore_of_ne {c : Char} (other : c ≠ '\n') (text : List Char) :
    returnBefore (c :: text) = [] := by
  unfold returnBefore
  split
  · next same =>
      cases same
      exact absurd rfl other
  · rfl

/-- A carriage return is put only in front of the end of a line that is not the last. -/
theorem returnBefore_cases (text : List Char) :
    returnBefore text = [] ∨
      returnBefore text = ['\r'] ∧ ∃ c others, text = '\n' :: c :: others := by
  unfold returnBefore
  split
  · exact .inr ⟨rfl, _, _, rfl⟩
  · exact .inl rfl

theorem withReturns_of_ne {c : Char} (other : c ≠ '\n') (text : List Char) :
    withReturns (c :: text) = c :: withReturns text := by
  rw [withReturns, returnBefore_of_ne other]
  rfl

theorem withReturns_eq (text : List Char) :
    withReturns text = returnBefore text ++ afterReturn text := by
  cases text with
  | nil => rfl
  | cons c text => rfl

theorem withReturns_append (front rest : List Char) :
    withReturns (front ++ rest) = frontWithReturns front rest ++ withReturns rest := by
  induction front with
  | nil => rfl
  | cons c front ih =>
      rw [List.cons_append, withReturns, frontWithReturns, ih]
      simp only [List.cons_append, List.append_assoc]

theorem frontWithReturns_append (front middle rest : List Char) :
    frontWithReturns (front ++ middle) rest =
      frontWithReturns front (middle ++ rest) ++ frontWithReturns middle rest := by
  induction front with
  | nil => rfl
  | cons c front ih =>
      rw [List.cons_append, frontWithReturns, frontWithReturns, ih]
      simp only [List.cons_append, List.append_assoc]

/-- Where no line ends, no carriage return is put. -/
theorem frontWithReturns_of_not_mem {front : List Char} (unbroken : '\n' ∉ front)
    (rest : List Char) : frontWithReturns front rest = front := by
  induction front with
  | nil => rfl
  | cons c front ih =>
      have other : '\n' ≠ c := List.ne_of_not_mem_cons unbroken
      have later : '\n' ∉ front := List.not_mem_of_not_mem_cons unbroken
      rw [frontWithReturns, List.cons_append, returnBefore_of_ne other.symm, ih later]
      rfl

/-- Whole lines lead to the same position with carriage returns. -/
theorem foldl_frontWithReturns (front rest : List Char) (position : Position) :
    (frontWithReturns front rest).foldl Position.advance position =
      front.foldl Position.advance position := by
  induction front generalizing position with
  | nil => rfl
  | cons c front ih =>
      rw [frontWithReturns, List.foldl_append, List.foldl_cons, List.foldl_cons, ih]
      rcases returnBefore_cases (c :: front ++ rest) with none | ⟨one, d, others, same⟩
      · rw [none]
        rfl
      · obtain ⟨rfl, -⟩ := List.cons.inj same
        rw [one]
        rfl

/-! ## Offsets -/

/-- The bytes of the carriage returns that are put up to an offset. -/
def returnsUpTo : List Char → Nat → Nat
  | [], _ => 0
  | c :: text, loc =>
      byteLength (returnBefore (c :: text)) +
        if c.utf8Size ≤ loc then returnsUpTo text (loc - c.utf8Size) else 0

/-- Where the character at an offset stands in the text with carriage returns. -/
def moved (text : List Char) (loc : Nat) : Nat :=
  loc + returnsUpTo text loc

theorem returnsUpTo_mono (text : List Char) {first second : Nat} (before : first ≤ second) :
    returnsUpTo text first ≤ returnsUpTo text second := by
  induction text generalizing first second with
  | nil => exact Nat.le_refl 0
  | cons c text ih =>
      rw [returnsUpTo, returnsUpTo]
      have later :
          returnsUpTo text (first - c.utf8Size) ≤ returnsUpTo text (second - c.utf8Size) := by
        apply ih
        omega
      split <;> split <;> omega

/-- Carriage returns change the order of no two offsets. -/
theorem keepsOrder_moved (text : List Char) : KeepsOrder (moved text) := by
  intro first second
  unfold moved
  rcases Nat.lt_or_ge second first with after | before
  · have := returnsUpTo_mono text (Nat.le_of_lt after)
    omega
  · have := returnsUpTo_mono text before
    omega

/-- What follows a front of a text has moved behind the carriage returns of that front and its
own. -/
theorem moved_front (front rest : List Char) :
    moved (front ++ rest) (byteLength front) =
      byteLength (frontWithReturns front rest ++ returnBefore rest) := by
  unfold moved
  induction front with
  | nil =>
      cases rest with
      | nil => rfl
      | cons c rest =>
          have := c.utf8Size_pos
          rw [List.nil_append, returnsUpTo, byteLength_nil, if_neg (by omega)]
          simp [frontWithReturns]
  | cons c front ih =>
      rw [List.cons_append, returnsUpTo, byteLength_cons, if_pos (Nat.le_add_right _ _),
        Nat.add_sub_cancel_left, frontWithReturns]
      simp only [byteLength_append, byteLength_cons, List.cons_append] at ih ⊢
      omega

/-! ## Lexemes -/

namespace Lexeme

theorem newline_not_mem_takeWhile {p : Char → Bool} (newline : p '\n' = false)
    (text : List Char) : '\n' ∉ text.takeWhile p := by
  intro member
  cases newline.symm.trans (all_takeWhile text '\n' member)

/-- A run of characters within a line is the same up to the end of the line, where a carriage return
may come. -/
theorem span_withReturns {p : Char → Bool} (newline : p '\n' = false) (text : List Char) :
    (withReturns text).takeWhile p =
        text.takeWhile p ++ (withReturns (text.dropWhile p)).takeWhile p ∧
      (withReturns text).dropWhile p = (withReturns (text.dropWhile p)).dropWhile p := by
  have inside := all_takeWhile (p := p) text
  have unbroken := newline_not_mem_takeWhile newline text
  have whole : withReturns text = text.takeWhile p ++ withReturns (text.dropWhile p) := by
    rw [← frontWithReturns_of_not_mem unbroken (text.dropWhile p), ← withReturns_append,
      List.takeWhile_append_dropWhile]
  rw [whole, List.takeWhile_append_of_pos inside, List.dropWhile_append_of_pos inside]
  exact ⟨rfl, rfl⟩

/-- A run of characters that stops at a carriage return as at a line end is the same. -/
theorem span_withReturns_of_stop {p : Char → Bool} (carriage : p '\r' = false)
    (newline : p '\n' = false) (text : List Char) :
    (withReturns text).takeWhile p = text.takeWhile p ∧
      (withReturns text).dropWhile p = withReturns (text.dropWhile p) := by
  obtain ⟨front, back⟩ := span_withReturns newline text
  have stop := head_dropWhile p text
  rw [front, back]
  revert stop
  cases text.dropWhile p with
  | nil => simp [withReturns]
  | cons c rest =>
      intro stop
      have stop : p c = false := stop c rfl
      rw [withReturns]
      rcases returnBefore_cases (c :: rest) with none | ⟨one, -⟩
      · simp [none, stop]
      · simp [one, carriage]

/-- A run of characters that goes on over a carriage return takes in the one at the line end. -/
theorem span_withReturns_of_blank {p : Char → Bool} (carriage : p '\r' = true)
    (newline : p '\n' = false) (text : List Char) :
    (withReturns text).takeWhile p = text.takeWhile p ++ returnBefore (text.dropWhile p) ∧
      (withReturns text).dropWhile p = afterReturn (text.dropWhile p) := by
  obtain ⟨front, back⟩ := span_withReturns newline text
  have stop := head_dropWhile p text
  rw [front, back]
  revert stop
  cases text.dropWhile p with
  | nil => simp [withReturns, returnBefore, afterReturn]
  | cons c rest =>
      intro stop
      have stop : p c = false := stop c rfl
      rw [withReturns, afterReturn]
      rcases returnBefore_cases (c :: rest) with none | ⟨one, -⟩
      · simp [none, stop]
      · simp [one, carriage, stop]

/-- The carriage return in front of a line end goes to the gap. -/
theorem splitGap_withReturns (text : List Char) :
    splitGap (withReturns text) =
      ((splitGap text).1 ++ returnBefore (splitGap text).2, afterReturn (splitGap text).2) := by
  obtain ⟨front, back⟩ := span_withReturns_of_blank (p := isBlank) (by decide) (by decide) text
  unfold splitGap
  rw [front, back]
  cases text.dropWhile isBlank with
  | nil => rfl
  | cons c rest =>
      by_cases comment : c = '#'
      · subst comment
        obtain ⟨front', back'⟩ :=
          span_withReturns_of_blank (p := inComment) (by decide) (by decide) rest
        simp [afterReturn, front', back', returnBefore_of_ne]
      · simp [afterReturn, comment]

/-- Two readings of the same, the second in the text with carriage returns. What is offensive may be
put in other words. -/
inductive Reading.Beside : Reading → Reading → Prop where
  | token (kind : Kind) (text rest : List Char) :
      Beside (.token kind text rest) (.token kind text (withReturns rest))
  | refused (passed : List Char) (cause cause' : Cause) (rest : List Char) :
      Beside (.refused passed cause rest) (.refused passed cause' (withReturns rest))

theorem Reading.Beside.eq_token {kind : Kind} {text rest : List Char} {reading : Reading}
    (beside : (Reading.token kind text rest).Beside reading) :
    reading = .token kind text (withReturns rest) := by
  cases beside
  rfl

theorem Reading.Beside.eq_refused {passed rest : List Char} {cause : Cause} {reading : Reading}
    (beside : (Reading.refused passed cause rest).Beside reading) :
    ∃ cause', reading = .refused passed cause' (withReturns rest) := by
  cases beside
  exact ⟨_, rfl⟩

/-- A text that starts with another character than this one still does. -/
theorem exists_withReturns_cons {c mark : Char} (other : c ≠ mark) (visible : mark ≠ '\r')
    (rest : List Char) : ∃ d rest', withReturns (c :: rest) = d :: rest' ∧ d ≠ mark := by
  rw [withReturns]
  rcases returnBefore_cases (c :: rest) with none | ⟨one, -⟩
  · exact ⟨c, withReturns rest, by rw [none]; rfl, other⟩
  · exact ⟨'\r', c :: withReturns rest, by rw [one]; rfl, visible.symm⟩

theorem beside_readString (text : List Char) :
    (readString text).Beside (readString (withReturns text)) := by
  obtain ⟨front, back⟩ := span_withReturns_of_stop (p := inString) (by decide) (by decide) text
  unfold readString
  rw [front, back]
  cases text.dropWhile inString with
  | nil => exact .refused _ _ _ _
  | cons c rest =>
      by_cases quote : c = '"'
      · subst quote
        exact .token _ _ _
      · obtain ⟨d, rest', same, quote'⟩ := exists_withReturns_cons quote (by decide) rest
        rw [same]
        simp only [List.cons.injEq, quote, quote', false_and, imp_self, implies_true]
        rw [← same]
        exact .refused _ _ _ _

theorem beside_readNumber (text : List Char) :
    (readNumber text).Beside (readNumber (withReturns text)) := by
  obtain ⟨front, back⟩ := span_withReturns_of_stop (p := Char.isDigit) (by decide) (by decide) text
  unfold readNumber
  rw [front, back]
  cases text.dropWhile Char.isDigit with
  | nil => exact .token _ _ _
  | cons c rest =>
      by_cases point : c = '.'
      · subst point
        obtain ⟨front', back'⟩ :=
          span_withReturns_of_stop (p := Char.isDigit) (by decide) (by decide) rest
        have digit : (withReturns rest).head?.any Char.isDigit = rest.head?.any Char.isDigit := by
          rw [withReturns_eq]
          rcases returnBefore_cases rest with none | ⟨one, d, others, rfl⟩
          · rw [none]
            cases rest <;> rfl
          · rfl
        rw [withReturns_of_ne (by decide)]
        simp only [front', back', digit]
        split
        · exact .token _ _ _
        · exact .refused _ _ _ ('.' :: rest)
      · obtain ⟨d, rest', same, point'⟩ := exists_withReturns_cons point (by decide) rest
        rw [same]
        simp only [List.cons.injEq, point, point', false_and, imp_self, implies_true]
        rw [← same]
        exact .token _ _ _

theorem beside_readWord (text : List Char) :
    (readWord text).Beside (readWord (withReturns text)) := by
  obtain ⟨front, back⟩ :=
    span_withReturns_of_stop (p := Char.isAlphanum) (by decide) (by decide) text
  unfold readWord
  rw [front, back]
  exact .token _ _ _

theorem beside_readComparison (c : Char) (short long : Kind) (rest : List Char) :
    (readComparison c short long rest).Beside (readComparison c short long (withReturns rest)) := by
  cases rest with
  | nil => exact .token _ _ _
  | cons d rest =>
      by_cases equals : d = '='
      · subst equals
        exact .token _ _ _
      · obtain ⟨e, rest', same, equals'⟩ := exists_withReturns_cons equals (by decide) rest
        rw [same]
        simp only [readComparison, List.cons.injEq, equals, equals', false_and, imp_self,
          implies_true]
        rw [← same]
        exact .token _ _ _

theorem beside_readBang (rest : List Char) :
    (readBang rest).Beside (readBang (withReturns rest)) := by
  cases rest with
  | nil => exact .refused _ _ _ ['!']
  | cons d rest =>
      by_cases equals : d = '='
      · subst equals
        exact .token _ _ _
      · obtain ⟨e, rest', same, equals'⟩ := exists_withReturns_cons equals (by decide) rest
        rw [same]
        simp only [readBang, List.cons.injEq, equals, equals', false_and, imp_self, implies_true]
        rw [← same]
        exact .refused _ _ _ ('!' :: d :: rest)

/-- Behind the gap in front of it, the same is read in the text with carriage returns. -/
theorem beside_read (text : List Char) : (read text).Beside (read (afterReturn text)) := by
  cases text with
  | nil => exact .token _ _ _
  | cons c rest =>
      rw [afterReturn]
      by_cases plain : c ∈ marks
      · unfold read
        dsimp only
        split
        case h_6 | h_7 | h_8 => exact beside_readComparison _ _ _ _
        case h_9 => exact beside_readBang _
        case h_10 => exact beside_readString _
        case h_11 => simp_all [marks]
        all_goals exact .token _ _ _
      · have other : c ≠ '\n' := by
          rintro rfl
          exact plain (by decide)
        rw [read_of_not_mem_marks plain, read_of_not_mem_marks plain, ← withReturns_of_ne other]
        split
        · exact beside_readNumber (c :: rest)
        · split
          · exact beside_readWord (c :: rest)
          · exact .refused _ _ _ (c :: rest)

/-- A lexeme with its carriage return, which is in front of it if it has one. -/
theorem frontWithReturns_written {text taken rest : List Char} {kind : Kind}
    (found : read text = .token kind taken rest) :
    frontWithReturns (written kind taken) rest = returnBefore text ++ written kind taken := by
  have whole := span_read text
  have sound := sound_read text
  rw [found] at whole sound
  by_cases member : '\n' ∈ written kind taken
  · have newline : kind = .newline :=
      newline_of_mem_written sound (by rwa [String.toList_ofList])
    subst newline
    have shaped : Shaped (.newline, String.ofList taken) := sound
    have line : String.ofList taken = "\n" := shaped.text_eq rfl
    obtain rfl : taken = ['\n'] := by simpa using congrArg String.toList line
    rw [← whole]
    rfl
  · rw [frontWithReturns_of_not_mem member]
    have nothing : returnBefore text = [] := by
      rcases returnBefore_cases text with none | ⟨-, c, others, rfl⟩
      · exact none
      · cases found
        exact absurd List.mem_cons_self member
    rw [nothing]
    rfl

/-- No carriage return stands in front of an identifier. -/
theorem returnBefore_of_ident {text taken rest : List Char}
    (found : read text = .token .ident taken rest) : returnBefore text = [] := by
  rcases returnBefore_cases text with none | ⟨-, c, others, rfl⟩
  · exact none
  · cases found

/-- No line ends in what is passed before an offence. -/
theorem newline_not_mem_passed {text passed rest : List Char} {cause : Cause}
    (found : read text = .refused passed cause rest) : '\n' ∉ passed := by
  revert found
  unfold read
  split
  · exact nofun
  · split
    case h_6 | h_7 | h_8 =>
      unfold readComparison
      split <;> exact nofun
    case h_9 =>
      unfold readBang
      split
      · exact nofun
      · rintro ⟨⟩
        exact List.not_mem_nil
    case h_10 =>
      unfold readString
      split
      · exact nofun
      · rintro ⟨⟩
        apply List.not_mem_cons_of_ne_of_not_mem (by decide)
        exact newline_not_mem_takeWhile (by decide) _
    case h_11 =>
      split
      · unfold readNumber
        split
        · split
          · exact nofun
          · rintro ⟨⟩
            exact newline_not_mem_takeWhile (by decide) _
        · exact nofun
      · split
        · exact nofun
        · rintro ⟨⟩
          exact List.not_mem_nil
    all_goals exact nofun

/-- No carriage return stands in front of an offence, or within what was passed before it. -/
theorem frontWithReturns_passed {text passed rest : List Char} {cause : Cause}
    (found : read text = .refused passed cause rest) :
    returnBefore text = [] ∧ frontWithReturns passed rest = passed := by
  refine ⟨?_, frontWithReturns_of_not_mem ?_ rest⟩
  · rcases returnBefore_cases text with none | ⟨-, c, others, rfl⟩
    · exact none
    · cases found
  · exact newline_not_mem_passed found

theorem newline_not_mem_splitGap (text : List Char) : '\n' ∉ (splitGap text).1 := by
  have blanks : '\n' ∉ text.takeWhile isBlank := newline_not_mem_takeWhile (by decide) text
  unfold splitGap
  split
  · next rest _ =>
      intro member
      rcases List.mem_append.mp member with member | member
      · exact blanks member
      · rcases List.mem_cons.mp member with same | member
        · cases same
        · exact newline_not_mem_takeWhile (by decide) rest member
  · exact blanks

end Lexeme

/-! ## Tokens -/

/-- A token starts somewhere in a text. No carriage return is put in front of an identifier. -/
def Token.StartsIn (text : List Char) (token : Token) : Prop :=
  ∃ front rest, text = front ++ rest ∧ token.loc = byteLength front ∧
    (token.kind = .ident → returnBefore rest = [])

namespace Cursor

/-- The cursor between a front of a text and the rest. -/
def between (front rest : List Char) : Cursor :=
  ⟨byteLength front, rest⟩

/-- The cursor at the same place of the text with carriage returns. -/
def betweenReturns (front rest : List Char) : Cursor :=
  between (frontWithReturns front rest) (withReturns rest)

theorem past_between (front rest passed rest' : List Char) :
    (between front rest).past passed rest' = between (front ++ passed) rest' := by
  rw [past, between, between, byteLength_append]

/-- What is read between a front of a text and the rest. -/
theorem next_between (front rest : List Char) :
    (between front rest).next =
      match Lexeme.read (Lexeme.splitGap rest).2 with
      | .token kind taken rest' =>
          (.ok ⟨kind, String.ofList taken, byteLength (front ++ (Lexeme.splitGap rest).1)⟩,
            between (front ++ (Lexeme.splitGap rest).1 ++ Lexeme.written kind taken) rest')
      | .refused passed cause rest' =>
          (.error ⟨cause, byteLength (front ++ (Lexeme.splitGap rest).1 ++ passed)⟩,
            between (front ++ (Lexeme.splitGap rest).1 ++ passed) rest') := by
  have start : (between front rest).pastGap =
      between (front ++ (Lexeme.splitGap rest).1) (Lexeme.splitGap rest).2 :=
    past_between front rest _ _
  rw [next, start, read]
  simp only [past_between]
  rfl

/-- A gap is passed alike: the carriage returns stand before it. -/
theorem frontWithReturns_gap (front rest : List Char) :
    frontWithReturns (front ++ (Lexeme.splitGap rest).1) (Lexeme.splitGap rest).2 =
      frontWithReturns front rest ++ (Lexeme.splitGap rest).1 := by
  rw [frontWithReturns_append, Lexeme.splitGap_append,
    frontWithReturns_of_not_mem (Lexeme.newline_not_mem_splitGap rest)]

section Next

variable {front rest : List Char} {after : Cursor}

/-- The same token is read in the text with carriage returns, behind the one in front of it. -/
theorem next_betweenReturns_of_token {token : Token}
    (found : (between front rest).next = (.ok token, after)) :
    token.StartsIn (front ++ rest) ∧ ∃ front' rest', front ++ rest = front' ++ rest' ∧
      after = between front' rest' ∧
      (betweenReturns front rest).next =
        (.ok (token.relocated (moved (front ++ rest))), betweenReturns front' rest') := by
  rw [next_between] at found
  cases lexeme : Lexeme.read (Lexeme.splitGap rest).2 with
  | refused passed cause rest' =>
      rw [lexeme] at found
      cases found
  | token kind taken rest' =>
      have whole := Lexeme.span_read (Lexeme.splitGap rest).2
      have beside := Lexeme.beside_read (Lexeme.splitGap rest).2
      rw [lexeme] at found whole beside
      cases found
      have inside : Lexeme.written kind taken ++ rest' = (Lexeme.splitGap rest).2 := whole
      have text : front ++ rest =
          front ++ (Lexeme.splitGap rest).1 ++ (Lexeme.splitGap rest).2 := by
        rw [List.append_assoc, Lexeme.splitGap_append]
      refine ⟨⟨_, _, text, rfl, ?_⟩, _, rest', ?_, rfl, ?_⟩
      · rintro rfl
        exact Lexeme.returnBefore_of_ident lexeme
      · rw [text, ← inside, ← List.append_assoc]
      · have behind : frontWithReturns
              (front ++ (Lexeme.splitGap rest).1 ++ Lexeme.written kind taken) rest' =
            frontWithReturns front rest ++
              ((Lexeme.splitGap rest).1 ++ returnBefore (Lexeme.splitGap rest).2) ++
                Lexeme.written kind taken := by
          rw [frontWithReturns_append, inside, frontWithReturns_gap,
            Lexeme.frontWithReturns_written lexeme]
          simp only [List.append_assoc]
        rw [Token.relocated, text, moved_front, frontWithReturns_gap, betweenReturns,
          betweenReturns, next_between, Lexeme.splitGap_withReturns, behind, beside.eq_token]
        simp only [List.append_assoc]

/-- At an offence, the text with carriage returns is refused after the same characters. -/
theorem next_betweenReturns_of_fault {fault : Fault}
    (found : (between front rest).next = (.error fault, after)) :
    ∃ front' rest' cause' after', front ++ rest = front' ++ rest' ∧
      fault.loc = byteLength front' ∧ (betweenReturns front rest).next =
        (.error ⟨cause', byteLength (frontWithReturns front' rest')⟩, after') := by
  rw [next_between] at found
  cases lexeme : Lexeme.read (Lexeme.splitGap rest).2 with
  | token kind taken rest' =>
      rw [lexeme] at found
      cases found
  | refused passed cause rest' =>
      have whole := Lexeme.span_read (Lexeme.splitGap rest).2
      have beside := Lexeme.beside_read (Lexeme.splitGap rest).2
      rw [lexeme] at found whole beside
      cases found
      have inside : passed ++ rest' = (Lexeme.splitGap rest).2 := whole
      obtain ⟨cause', refused⟩ := beside.eq_refused
      obtain ⟨none, same⟩ := Lexeme.frontWithReturns_passed lexeme
      refine ⟨front ++ (Lexeme.splitGap rest).1 ++ passed, rest', cause',
        betweenReturns (front ++ (Lexeme.splitGap rest).1 ++ passed) rest', ?_, rfl, ?_⟩
      · rw [List.append_assoc, inside, List.append_assoc, Lexeme.splitGap_append]
      · rw [betweenReturns, betweenReturns, next_between, Lexeme.splitGap_withReturns, refused,
          frontWithReturns_append, inside, frontWithReturns_gap, none, same, List.append_nil]

end Next

end Cursor

/-- How the readings of a text and of the text with carriage returns end: both at the end of the
text, or both at an offence at the same place. -/
inductive EndsBeside (text : List Char) : Except Fault Token → Except Fault Token → Prop where
  | ended (last : Token) : EndsBeside text (.ok last) (.ok (last.relocated (moved text)))
  | offence {front rest : List Char} (fault : Fault) (cause : Cause) : text = front ++ rest →
      fault.loc = byteLength front →
      EndsBeside text (.error fault) (.error ⟨cause, byteLength (frontWithReturns front rest)⟩)

/-- What is read of a text and of the text with carriage returns: the same tokens, moved on by the
carriage returns up to them. -/
structure Supply.Beside (text : List Char) (supply supply' : Supply) : Prop where
  tokens : supply'.tokens = supply.tokens.map (.relocated (moved text))
  ending : EndsBeside text supply.ending supply'.ending
  starts : ∀ token ∈ supply.lookahead, token.StartsIn text

theorem Cursor.supply_betweenReturns (front rest : List Char) :
    (between front rest).supply.Beside (front ++ rest) (betweenReturns front rest).supply := by
  generalize start : between front rest = cursor
  induction cursor using supply.induct generalizing front rest with
  | case1 cursor fault after found =>
      subst start
      obtain ⟨front', rest', cause, after', text, loc, found'⟩ := next_betweenReturns_of_fault found
      rw [supply_of_fault found, supply_of_fault found']
      refine ⟨rfl, .offence fault cause text loc, ?_⟩
      intro token impossible
      exact absurd impossible List.not_mem_nil
  | case2 cursor last after found ended =>
      subst start
      obtain ⟨starts, front', rest', -, -, found'⟩ := next_betweenReturns_of_token found
      rw [supply_of_end found ended, supply_of_end found' ended]
      refine ⟨rfl, .ended last, ?_⟩
      intro token member
      have same : token = last := by simpa [Supply.lookahead] using member
      rw [same]
      exact starts
  | case3 cursor token after found more _ ih =>
      subst start
      obtain ⟨starts, front', rest', text, rfl, found'⟩ := next_betweenReturns_of_token found
      obtain ⟨tokens, ending, later⟩ := ih front' rest' rfl
      rw [← text] at tokens ending later
      rw [supply_of_token found more, supply_of_token found' more]
      refine ⟨?_, ending, ?_⟩
      · simp only [List.map_cons, tokens]
      · rw [Supply.lookahead_cons]
        intro other member
        rcases List.mem_cons.mp member with rfl | member
        · exact starts
        · exact later other member

namespace Supply.Beside

variable {text : List Char} {supply supply' : Supply} (beside : supply.Beside text supply')
include beside

theorem lookahead_eq : supply'.lookahead = supply.lookahead.map (.relocated (moved text)) := by
  obtain ⟨read, ending⟩ := supply
  obtain ⟨read', ending'⟩ := supply'
  obtain ⟨tokens, ends, -⟩ := beside
  have same : read' = read.map (.relocated (moved text)) := tokens
  cases ends with
  | ended last => simp only [lookahead, same, List.map_append, List.map_cons, List.map_nil]
  | offence => exact tokens

/-- A reader who is stopped by the tokens is stopped by them where they have moved. -/
theorem walk_eq :
    TeenyTiny.walk none .line [] prologue supply'.lookahead =
      (TeenyTiny.walk none .line [] prologue supply.lookahead).relocated (moved text) := by
  rw [beside.lookahead_eq]
  exact walk_relocated (moved text) none .line [] prologue supply.lookahead

/-- A text that is read to its end is read to its end with carriage returns. -/
theorem fault_eq_none (read : supply.fault? = none) : supply'.fault? = none := by
  obtain ⟨_, ending⟩ := supply
  obtain ⟨_, ending'⟩ := supply'
  cases beside.ending with
  | ended last => rfl
  | offence => cases read

/-- An offence is at the same place in the text with carriage returns. -/
theorem exists_offence {fault : Fault} (offence : supply.fault? = some fault) :
    ∃ fault' front rest, supply'.fault? = some fault' ∧ text = front ++ rest ∧
      fault.loc = byteLength front ∧ fault'.loc = byteLength (frontWithReturns front rest) := by
  obtain ⟨_, ending⟩ := supply
  obtain ⟨_, ending'⟩ := supply'
  cases beside.ending with
  | ended last => cases offence
  | offence _ cause whole loc =>
      cases offence
      exact ⟨_, _, _, rfl, whole, loc, rfl⟩

end Supply.Beside

/-- A fault that ends what can be read is a fault of reading. -/
theorem Cursor.phase_of_supply {cursor : Cursor} {fault : Fault}
    (found : cursor.supply.fault? = some fault) : fault.cause.phase = .lexing :=
  phase_of_ending (Supply.ending_of_fault found)

end TeenyTiny
