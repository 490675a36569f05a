import TeenyTiny.Proofs.CarriageReturns
import TeenyTiny.Proofs.FaultTokens
import TeenyTiny.Proofs.Positions

/-!
# Line ends

On some systems a line ends with a carriage return and a line feed. A source whose line feeds are
given carriage returns is compiled to the same program, and if it is refused, then in the same phase
and at the same position, but for one exception: a fault of grammar at the end of a line is found
one column later, behind the carriage return (`compile_withLineReturns`).

The line feed that is added to every source is given no carriage return: it ends the text.
-/

set_option autoImplicit false

namespace TeenyTiny

/-! ## Sources -/

/-- A source with a carriage return in front of every line feed. -/
def withLineReturns (source : String) : String :=
  String.ofList (source.toList.flatMap fun c => if c = '\n' then ['\r', '\n'] else [c])

theorem sourceText_withLineReturns (source : String) :
    sourceText (withLineReturns source) = withReturns (sourceText source) := by
  have lines (text : List Char) :
      (text.flatMap fun c => if c = '\n' then ['\r', '\n'] else [c]) ++ ['\n'] =
        withReturns (text ++ ['\n']) := by
    induction text with
    | nil => rfl
    | cons c text ih =>
        rw [List.flatMap_cons, List.append_assoc, ih]
        by_cases newline : c = '\n'
        · subst newline
          obtain ⟨d, others, same⟩ := List.exists_cons_of_ne_nil (List.concat_ne_nil '\n' text)
          rw [List.cons_append, same]
          rfl
        · rw [if_neg newline, List.cons_append, List.cons_append, withReturns_of_ne newline]
          rfl
  rw [sourceText, withLineReturns, String.toList_ofList, lines]
  rfl

theorem supply_withLineReturns (source : String) :
    (Cursor.ofSource source).supply.Beside (sourceText source)
      (Cursor.ofSource (withLineReturns source)).supply := by
  have beside := Cursor.supply_betweenReturns [] (sourceText source)
  have start : Cursor.ofSource (withLineReturns source) =
      Cursor.betweenReturns [] (sourceText source) := by
    rw [Cursor.ofSource, sourceText_withLineReturns]
    rfl
  rw [start]
  exact beside

namespace Compilation

variable {source : String} {output : Output}

/-- A source that is compiled gives the same with carriage returns. -/
theorem ofSource_withLineReturns (quiet : (ofSource source output).fault? = none) :
    ofSource (withLineReturns source) output =
      (ofSource source output).relocated (moved (sourceText source)) := by
  have beside := supply_withLineReturns source
  rw [fault_eq_or] at quiet
  have read : (Cursor.ofSource source).supply.fault? = none := (Option.or_eq_none_iff.mp quiet).2
  rw [ofSource_eq, ofSource_eq, Supply.walk, Supply.walk, read, beside.fault_eq_none read,
    beside.walk_eq, Walk.compile_relocated (keepsOrder_moved _)]

/-- A source that is refused is refused with carriage returns, in the same phase and at the same
place. A fault of grammar is behind the carriage return that is put there, and every other fault in
front of it. -/
theorem exists_fault_withLineReturns {fault : Fault}
    (found : (ofSource source output).fault? = some fault) :
    ∃ fault' front rest, (ofSource (withLineReturns source) output).fault? = some fault' ∧
      fault'.cause.phase = fault.cause.phase ∧ sourceText source = front ++ rest ∧
      fault.loc = byteLength front ∧
      fault'.loc = byteLength (frontWithReturns front rest ++
        if fault.cause.phase = .grammar then returnBefore rest else []) := by
  have beside := supply_withLineReturns source
  rw [fault_eq_or] at found ⊢
  rw [beside.walk_eq, Walk.compile_relocated (keepsOrder_moved _)]
  rcases Option.or_eq_some_iff.mp found with stopped | ⟨going, unread⟩
  · have stopped' : (((TeenyTiny.walk none .line [] prologue
          (Cursor.ofSource source).supply.lookahead).compile output).relocated
            (moved (sourceText source))).fault? =
        some (fault.relocated (moved (sourceText source))) := by
      rw [relocated, stopped]
      rfl
    obtain ⟨token, member, loc, phases⟩ := Walk.exists_token_of_fault stopped
    obtain ⟨front, rest, whole, start, plain⟩ := beside.starts token member
    refine ⟨_, front, rest, Option.or_eq_some_iff.mpr (.inl stopped'), rfl, whole,
      loc.symm.trans start, ?_⟩
    rw [Fault.relocated, ← loc, start, whole, moved_front]
    rcases phases with phase | ⟨phase, ident⟩
    · rw [if_pos phase]
    · rw [phase, plain ident, if_neg (by decide)]
  · obtain ⟨fault', front, rest, unread', whole, loc, loc'⟩ := beside.exists_offence unread
    have phase := Cursor.phase_of_supply unread
    have phase' := Cursor.phase_of_supply unread'
    refine ⟨fault', front, rest, Option.or_eq_some_iff.mpr (.inr ⟨?_, unread'⟩), ?_, whole, loc, ?_⟩
    · rw [relocated, going]
      rfl
    · rw [phase, phase']
    · rw [phase, if_neg (by decide), List.append_nil, loc']

end Compilation

/-- A line of a source ends at a position. -/
def LineEndsAt (source : String) (position : Position) : Prop :=
  ∃ front rest, source.toList = front ++ '\n' :: rest ∧
    front.foldl Position.advance .start = position

/-- A line of a source ends where a carriage return is put. -/
theorem lineEndsAt_iff {source : String} {front rest : List Char}
    (whole : sourceText source = front ++ rest) :
    LineEndsAt source (front.foldl Position.advance .start) ↔ returnBefore rest = ['\r'] := by
  constructor
  · rintro ⟨front', rest', split, same⟩
    have whole' : front' ++ '\n' :: (rest' ++ ['\n']) = front ++ rest := by
      rw [← whole, sourceText, split, List.append_assoc]
      rfl
    obtain rfl := Position.front_eq whole' same
    rw [← List.append_cancel_left whole']
    cases rest' with
    | nil => rfl
    | cons c rest' => rfl
  · intro one
    rcases returnBefore_cases rest with none | ⟨-, c, others, rfl⟩
    · cases none.symm.trans one
    · have more := List.cons_ne_nil c others
      have split : source.toList ++ ['\n'] =
          (front ++ '\n' :: (c :: others).dropLast) ++ [(c :: others).getLast more] := by
        rw [List.append_assoc, List.cons_append, List.dropLast_concat_getLast more]
        exact whole
      exact ⟨front, _, List.append_inj_left' split rfl, rfl⟩

/-- The position of a place in the text with carriage returns, in front of the one that is put there
or behind it. -/
theorem position_withReturns (front rest : List Char) :
    Position.ofOffset (withReturns (front ++ rest)) (byteLength (frontWithReturns front rest)) =
        front.foldl Position.advance .start ∧
      Position.ofOffset (withReturns (front ++ rest))
          (byteLength (frontWithReturns front rest ++ returnBefore rest)) =
        (returnBefore rest).foldl Position.advance (front.foldl Position.advance .start) := by
  rw [withReturns_append]
  constructor
  · rw [Position.ofOffset_front, foldl_frontWithReturns]
  · rw [withReturns_eq rest, ← List.append_assoc, Position.ofOffset_front, List.foldl_append,
      foldl_frontWithReturns]

/-- A source that is compiled is compiled to the same program with carriage returns. -/
theorem compile_withLineReturns_of_ok {source program : String}
    (compiled : compile source = .ok program) :
    compile (withLineReturns source) = .ok program := by
  obtain ⟨quiet, rfl⟩ := compile_eq_ok_iff.mp compiled
  have same := Compilation.ofSource_withLineReturns quiet
  refine compile_eq_ok_iff.mpr ⟨?_, ?_⟩
  · rw [same, Compilation.relocated, quiet]
    rfl
  · rw [same]
    rfl

/-- A source that is refused is refused with carriage returns, at the same position or behind the
carriage return that is put there. -/
theorem compile_withLineReturns_of_error {source : String} {diagnostic : Diagnostic}
    (failed : compile source = .error diagnostic) :
    ∃ diagnostic', compile (withLineReturns source) = .error diagnostic' ∧
      diagnostic'.phase = diagnostic.phase ∧
      (diagnostic.phase = .grammar ∧ LineEndsAt source diagnostic.position →
        diagnostic'.position = diagnostic.position.advance '\r') ∧
      (¬ (diagnostic.phase = .grammar ∧ LineEndsAt source diagnostic.position) →
        diagnostic'.position = diagnostic.position) := by
  obtain ⟨fault, found, rfl⟩ := compile_eq_error_iff.mp failed
  obtain ⟨fault', front, rest, found', phase, whole, loc, loc'⟩ :=
    Compilation.exists_fault_withLineReturns found
  obtain ⟨before, behind⟩ := position_withReturns front rest
  have position : (fault.diagnose (sourceText source)).position =
      front.foldl Position.advance .start := by
    rw [Fault.diagnose, Diagnostic.ofOffset, whole, loc, Position.ofOffset_front]
  have position' : (fault'.diagnose (sourceText (withLineReturns source))).position =
      Position.ofOffset (withReturns (front ++ rest)) fault'.loc := by
    rw [Fault.diagnose, Diagnostic.ofOffset, sourceText_withLineReturns, whole]
  have sort : (fault.diagnose (sourceText source)).phase = fault.cause.phase := rfl
  refine ⟨_, compile_eq_error_iff.mpr ⟨fault', found', rfl⟩, phase, ?_, ?_⟩
  · rw [position, position', sort, lineEndsAt_iff whole]
    rintro ⟨grammar, one⟩
    rw [loc', if_pos grammar, behind, one]
    rfl
  · rw [position, position', sort, lineEndsAt_iff whole]
    intro other
    have none : (if fault.cause.phase = .grammar then returnBefore rest else []) = [] := by
      split
      · next grammar =>
          rcases returnBefore_cases rest with none | ⟨one, -⟩
          · exact none
          · exact absurd ⟨grammar, one⟩ other
      · rfl
    rw [loc', none, List.append_nil, before]

/-- A source with a carriage return in front of every line feed is compiled to the same program. If
it is refused, it is refused in the same phase, on the same line and in the same column; only a
fault of grammar at the end of a line is one column later, since the carriage return comes before
it. -/
theorem compile_withLineReturns (source : String) :
    (∀ program, compile (withLineReturns source) = .ok program ↔ compile source = .ok program) ∧
    ∀ diagnostic, compile source = .error diagnostic →
      ∃ diagnostic', compile (withLineReturns source) = .error diagnostic' ∧
        diagnostic'.phase = diagnostic.phase ∧
        diagnostic'.position.line = diagnostic.position.line ∧
        (diagnostic.phase = .grammar ∧ LineEndsAt source diagnostic.position →
          diagnostic'.position.column = diagnostic.position.column + 1) ∧
        (¬ (diagnostic.phase = .grammar ∧ LineEndsAt source diagnostic.position) →
          diagnostic'.position.column = diagnostic.position.column) := by
  constructor
  · intro program
    refine ⟨?_, compile_withLineReturns_of_ok⟩
    intro compiled
    cases result : compile source with
    | ok program' => rw [← compile_withLineReturns_of_ok result, compiled]
    | error diagnostic =>
        obtain ⟨diagnostic', failed, -⟩ := compile_withLineReturns_of_error result
        cases failed.symm.trans compiled
  · intro diagnostic failed
    obtain ⟨diagnostic', failed', phase, later, same⟩ := compile_withLineReturns_of_error failed
    refine ⟨diagnostic', failed', phase, ?_, ?_, ?_⟩
    · by_cases ends : diagnostic.phase = .grammar ∧ LineEndsAt source diagnostic.position
      · rw [later ends]
        rfl
      · rw [same ends]
    · intro ends
      rw [later ends]
      rfl
    · intro other
      rw [same other]

/-- A statement ends too early on a line that is not the last, and the fault is at the line end. -/
theorem compile_withLineReturns_early :
    compile "PRINT\nPRINT 1" =
        .error ⟨.grammar, ⟨1, 6⟩, "unexpected token at end of line"⟩ ∧
      ∃ message, compile "PRINT\r\nPRINT 1" = .error ⟨.grammar, ⟨1, 7⟩, message⟩ := by
  have supply : (Cursor.ofSource "PRINT\nPRINT 1").supply =
      ⟨[⟨.printWord, "PRINT", 0⟩, ⟨.newline, "\n", 5⟩, ⟨.printWord, "PRINT", 6⟩,
        ⟨.number, "1", 12⟩, ⟨.newline, "\n", 13⟩], .ok ⟨.eof, "", 14⟩⟩ :=
    Cursor.supply_of_take (by rfl) (by decide) (by intro last same; cases same; rfl)
  have failed : compile "PRINT\nPRINT 1" =
      .error ⟨.grammar, ⟨1, 6⟩, "unexpected token at end of line"⟩ := by
    rw [compile, Compilation.ofSource, Cursor.compile, supply]
    rfl
  refine ⟨failed, ?_⟩
  obtain ⟨⟨phase, ⟨line, column⟩, message⟩, failed', same, sameLine, later, -⟩ :=
    (compile_withLineReturns "PRINT\nPRINT 1").2 _ failed
  have column := later ⟨rfl, "PRINT".toList, "PRINT 1".toList, rfl, rfl⟩
  cases same
  cases sameLine
  cases column
  exact ⟨message, failed'⟩

end TeenyTiny
