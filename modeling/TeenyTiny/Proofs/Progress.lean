import TeenyTiny.Proofs.Continuation
import TeenyTiny.Proofs.LongestMatch

/-!
# Reading gets on or is stuck

Reading may be gone on with for ever, behind offences and behind the end of the text. The cursor
then moves along the text (`Cursor.StandsIn.take`) and never back. A reading that does not move it
leaves everything as it was, so that every later one is the same (`Cursor.take_of_stuck`); this can
only be the end of the text or an offence (`Cursor.stuck_cases`).

A text is no longer than the bytes it has. So after as many readings as it has bytes the cursor has
either come to its end or is stuck before (`Cursor.far_or_stuck`), and the readings that follow are
all the same (`reading_settles`).
-/

set_option autoImplicit false

namespace TeenyTiny

namespace Cursor

/-! ## Readings one after the other -/

/-- Some readings and then others. -/
theorem take_add (cursor : Cursor) (first later : Nat) :
    cursor.take (first + later) =
      ((cursor.take first).1 ++ ((cursor.take first).2.take later).1,
        ((cursor.take first).2.take later).2) := by
  induction first generalizing cursor with
  | zero =>
      rw [Nat.zero_add]
      rfl
  | succ first ih =>
      rw [Nat.add_right_comm, take, ih]
      rfl

/-- Where the cursor stands after so many readings of a source. -/
def reached (source : String) (calls : Nat) : Cursor :=
  ((ofSource source).take calls).2

theorem reached_succ (source : String) (calls : Nat) :
    reached source (calls + 1) = (reached source calls).next.2 := by
  rw [reached, take_add]
  rfl

theorem lined_reached (source : String) (calls : Nat) :
    Lexeme.Lined (reached source calls).rest :=
  lined_take (Lexeme.lined_concat source.toList) calls

/-! ## Moving along a text -/

/-- A reading passes characters, and the cursor counts their bytes. -/
theorem exists_passed (cursor : Cursor) :
    ∃ passed, cursor.rest = passed ++ cursor.next.2.rest ∧
      cursor.next.2.offset = cursor.offset + byteLength passed := by
  obtain ⟨passed, whole⟩ := cursor.exists_front_of_next
  have total := cursor.next_total.1
  have count := congrArg byteLength whole
  rw [byteLength_append] at count
  exact ⟨passed, whole, by omega⟩

/-- A cursor stands in a text: the text is some characters behind it, whose bytes it counts, and
those ahead of it. -/
def StandsIn (text : List Char) (cursor : Cursor) : Prop :=
  ∃ front, text = front ++ cursor.rest ∧ cursor.offset = byteLength front

namespace StandsIn

variable {text : List Char} {cursor : Cursor}

theorem start (source : String) : StandsIn (sourceText source) (ofSource source) :=
  ⟨[], rfl, rfl⟩

theorem next (stands : StandsIn text cursor) : StandsIn text cursor.next.2 := by
  obtain ⟨front, whole, behind⟩ := stands
  obtain ⟨passed, ahead, moved⟩ := cursor.exists_passed
  refine ⟨front ++ passed, ?_, ?_⟩
  · rw [whole, ahead, List.append_assoc]
  · rw [moved, behind, byteLength_append]

/-- However often a token is read, the cursor stands in the text. -/
theorem take (stands : StandsIn text cursor) (calls : Nat) :
    StandsIn text (cursor.take calls).2 := by
  induction calls generalizing cursor with
  | zero => exact stands
  | succ calls ih => exact ih stands.next

theorem offset_add (stands : StandsIn text cursor) :
    cursor.offset + byteLength cursor.rest = byteLength text := by
  obtain ⟨front, whole, behind⟩ := stands
  rw [whole, behind, byteLength_append]

end StandsIn

theorem standsIn_reached (source : String) (calls : Nat) :
    StandsIn (sourceText source) (reached source calls) :=
  (StandsIn.start source).take calls

/-! ## Cursors that are stuck -/

/-- A reading moves the cursor on or leaves it where it stands. -/
theorem advances_or_stuck (cursor : Cursor) :
    cursor.offset < cursor.next.2.offset ∨ cursor.next.2 = cursor := by
  obtain ⟨passed, ahead, moved⟩ := cursor.exists_passed
  by_cases nothing : passed = []
  · right
    rw [nothing, List.nil_append] at ahead
    rw [nothing, byteLength_nil, Nat.add_zero] at moved
    calc
      cursor.next.2 = ⟨cursor.next.2.offset, cursor.next.2.rest⟩ := rfl
      _ = ⟨cursor.offset, cursor.rest⟩ := by rw [moved, ahead]
  · left
    have := byteLength_pos nothing
    omega

theorem offset_le_next (cursor : Cursor) : cursor.offset ≤ cursor.next.2.offset := by
  obtain ⟨passed, -, moved⟩ := cursor.exists_passed
  omega

/-- From a cursor that is not moved on, the same is read over and over. -/
theorem take_of_stuck {cursor : Cursor} (stuck : cursor.next.2 = cursor) (calls : Nat) :
    cursor.take calls = (List.replicate calls cursor.next.1, cursor) := by
  induction calls with
  | zero => rfl
  | succ calls ih =>
      rw [take, stuck, ih]
      rfl

/-- A cursor of a text whose last line ends is stuck at the end of the text or at an offence. -/
theorem stuck_cases {cursor : Cursor} (lined : Lexeme.Lined cursor.rest)
    (stuck : cursor.next.2 = cursor) :
    (cursor.rest = [] ∧ cursor.next.1 = .ok ⟨.eof, "", cursor.offset⟩) ∨
      ∃ fault, cursor.next.1 = .error fault ∧ fault.cause.phase = .lexing := by
  cases reading : cursor.next.1 with
  | error fault => exact .inr ⟨fault, rfl, phase_of_next (Prod.ext reading rfl)⟩
  | ok token =>
      have found : cursor.next = (.ok token, cursor) := Prod.ext reading stuck
      -- Any other token would have been passed.
      have ended : token.kind = .eof := by
        refine Classical.byContradiction fun more => ?_
        exact Nat.lt_irrefl _ (length_next_lt found more)
      have nothing := rest_eq_nil_of_end lined found ended
      rw [next_of_rest nothing] at reading
      exact .inl ⟨nothing, reading.symm⟩

/-- After so many readings the cursor is at least so many bytes further, or it is stuck. -/
theorem far_or_stuck (cursor : Cursor) (calls : Nat) :
    cursor.offset + calls ≤ (cursor.take calls).2.offset ∨
      (cursor.take calls).2.next.2 = (cursor.take calls).2 := by
  induction calls with
  | zero => exact .inl (Nat.le_refl _)
  | succ calls ih =>
      have last : (cursor.take (calls + 1)).2 = (cursor.take calls).2.next.2 := by
        rw [take_add]
        rfl
      rw [last]
      rcases (cursor.take calls).2.advances_or_stuck with further | stuck
      · refine ih.imp (fun far => by omega) fun stuck => ?_
        rw [stuck, stuck]
      · exact .inr (by rw [stuck, stuck])

/-- After as many readings as a text has bytes, the cursor is stuck. -/
theorem stuck_of_size {text : List Char} {cursor : Cursor} (stands : StandsIn text cursor)
    {calls : Nat} (many : byteLength text ≤ calls) :
    (cursor.take calls).2.next.2 = (cursor.take calls).2 := by
  rcases cursor.far_or_stuck calls with far | stuck
  · have total := (stands.take calls).offset_add
    have nothing : (cursor.take calls).2.rest = [] := by
      refine Classical.byContradiction fun more => ?_
      have := byteLength_pos more
      omega
    rw [next_of_rest nothing]
  · exact stuck

end Cursor

/-! ## Where tokens stand -/

/-- The bytes that a token takes: the offset where it starts and the one where it stops, within
which a string has its quotes. -/
def Token.span (token : Token) : Nat × Nat :=
  (token.loc, token.loc + byteLength token.written)

/-- A token stands in a text: what is written for it takes the bytes of its span there. -/
def Token.StandsIn (text : List Char) (token : Token) : Prop :=
  ∃ front back, text = front ++ token.written ++ back ∧ token.loc = byteLength front

/-- The token of a reading, unless it is an offence or the end of the text. -/
def tokenBefore? : Except Fault Token → Option Token
  | .ok token => if token.kind = .eof then none else some token
  | .error _ => none

theorem tokenBefore_eq_some {reading : Except Fault Token} {token : Token}
    (found : tokenBefore? reading = some token) : reading = .ok token ∧ token.kind ≠ .eof := by
  cases reading with
  | error fault => cases found
  | ok other =>
      by_cases ended : other.kind = .eof
      · simp [tokenBefore?, ended] at found
      · simp only [tokenBefore?, if_neg ended, Option.some.injEq] at found
        rw [← found]
        exact ⟨rfl, ended⟩

namespace Cursor

variable {text : List Char} {cursor : Cursor}

/-- A token that is read stands in the text, between where the cursor was and where it is then. -/
theorem span_of_next (stands : StandsIn text cursor) (lined : Lexeme.Lined cursor.rest)
    {token : Token} (found : tokenBefore? cursor.next.1 = some token) :
    token.StandsIn text ∧ cursor.offset ≤ token.span.1 ∧ token.span.1 < token.span.2 ∧
      token.span.2 = cursor.next.2.offset := by
  obtain ⟨reading, more⟩ := tokenBefore_eq_some found
  obtain ⟨gap, -, whole, loc, stop, takes⟩ := exists_gap_of_next lined (Prod.ext reading rfl)
  obtain ⟨front, text, behind⟩ := stands
  have longer := byteLength_pos (takes.resolve_left more)
  refine ⟨⟨front ++ gap, cursor.next.2.rest, ?_, ?_⟩, ?_, ?_, stop.symm⟩
  · rw [text, whole]
    simp only [List.append_assoc]
  · rw [loc, behind, byteLength_append]
  · simp only [Token.span]
    omega
  · simp only [Token.span]
    omega

/-- The tokens that are read one after the other stand in the text, each behind those before it. -/
theorem spans_of_take (stands : StandsIn text cursor) (lined : Lexeme.Lined cursor.rest)
    (calls : Nat) :
    (∀ token ∈ (cursor.take calls).1.filterMap tokenBefore?, token.StandsIn text ∧
      cursor.offset ≤ token.span.1 ∧ token.span.1 < token.span.2) ∧
    ((cursor.take calls).1.filterMap tokenBefore?).Pairwise
      fun first second => first.span.2 ≤ second.span.1 := by
  induction calls generalizing cursor with
  | zero => exact ⟨fun token impossible => absurd impossible List.not_mem_nil, .nil⟩
  | succ calls ih =>
      obtain ⟨later, ordered⟩ := ih stands.next (lined_next lined)
      have forward := cursor.offset_le_next
      have behind : ∀ token ∈ (cursor.next.2.take calls).1.filterMap tokenBefore?,
          token.StandsIn text ∧ cursor.offset ≤ token.span.1 ∧ token.span.1 < token.span.2 := by
        intro token member
        obtain ⟨there, start, longer⟩ := later token member
        exact ⟨there, Nat.le_trans forward start, longer⟩
      rw [take]
      cases found : tokenBefore? cursor.next.1 with
      | none =>
          rw [List.filterMap_cons_none found]
          exact ⟨behind, ordered⟩
      | some token =>
          obtain ⟨there, start, longer, stop⟩ := span_of_next stands lined found
          rw [List.filterMap_cons_some found]
          refine ⟨List.forall_mem_cons.mpr ⟨⟨there, start, longer⟩, behind⟩,
            List.pairwise_cons.mpr ⟨?_, ordered⟩⟩
          intro other member
          rw [stop]
          exact (later other member).2.1

end Cursor

/-- Reading gets on or is stuck for good. However often a token of a source is read, offences and
ends included, the cursor never moves back and never leaves the text. The tokens that are read stand
in the text; none is empty, and each starts where those before it have stopped. Every reading moves
the cursor on, or else all that follow are the same and leave it where it is. So from as many
readings on as the text has bytes, one and the same is read: the end of the text, or one offence. -/
theorem reading_settles (source : String) :
    (∀ calls, (Cursor.reached source calls).offset ≤ (Cursor.reached source (calls + 1)).offset ∧
      (Cursor.reached source calls).offset ≤ source.utf8ByteSize + 1) ∧
    (∀ calls, let tokens := ((Cursor.ofSource source).take calls).1.filterMap tokenBefore?
      (∀ token ∈ tokens, token.StandsIn (sourceText source) ∧ token.span.1 < token.span.2) ∧
        tokens.Pairwise fun first second => first.span.2 ≤ second.span.1) ∧
    (∀ calls, (Cursor.reached source calls).offset < (Cursor.reached source (calls + 1)).offset ∨
      ∀ more, (Cursor.reached source calls).take more =
        (List.replicate more (Cursor.reached source calls).next.1, Cursor.reached source calls)) ∧
    ∃ last : Except Fault Token,
      (∀ more, ((Cursor.ofSource source).take (source.utf8ByteSize + 1 + more)).1 =
        ((Cursor.ofSource source).take (source.utf8ByteSize + 1)).1 ++ List.replicate more last) ∧
      (last = .ok ⟨.eof, "", source.utf8ByteSize + 1⟩ ∨
        ∃ fault, last = .error fault ∧ fault.cause.phase = .lexing) := by
  have size : byteLength (sourceText source) = source.utf8ByteSize + 1 := by
    rw [sourceText, byteLength_append, byteLength_toList, byteLength_newline]
  have lined := Lexeme.lined_concat source.toList
  refine ⟨?_, ?_, ?_, ?_⟩
  · intro calls
    have total := (Cursor.standsIn_reached source calls).offset_add
    refine ⟨?_, by omega⟩
    rw [Cursor.reached_succ]
    exact Cursor.offset_le_next _
  · intro calls tokens
    obtain ⟨stand, ordered⟩ := Cursor.spans_of_take (Cursor.StandsIn.start source) lined calls
    refine ⟨?_, ordered⟩
    intro token member
    obtain ⟨there, -, longer⟩ := stand token member
    exact ⟨there, longer⟩
  · intro calls
    rw [Cursor.reached_succ]
    exact (Cursor.advances_or_stuck _).imp_right Cursor.take_of_stuck
  · have stuck := Cursor.stuck_of_size (Cursor.StandsIn.start source) (Nat.le_of_eq size)
    have total := (Cursor.standsIn_reached source (source.utf8ByteSize + 1)).offset_add
    refine ⟨(Cursor.reached source (source.utf8ByteSize + 1)).next.1, ?_, ?_⟩
    · intro more
      rw [Cursor.take_add, Cursor.take_of_stuck stuck]
      rfl
    · rcases Cursor.stuck_cases (Cursor.lined_reached source _) stuck with ⟨nothing, last⟩ | offence
      · left
        rw [nothing, byteLength_nil, Nat.add_zero, size] at total
        rw [last, total]
      · exact .inr offence

end TeenyTiny
