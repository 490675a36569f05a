import TeenyTiny.Proofs.Relocation
import TeenyTiny.Proofs.Tiling
import TeenyTiny.Proofs.WellNamed

/-!
# Layout does not matter

Blanks, comments and blank lines change where the tokens of a program stand and nothing else. So
take away every offset: of tokens, of what they call for, of faults and of the jumps that are kept.
That is to move them all to one place, and so a walk without offsets is the walk of the tokens
without theirs (`walk_unplaced`).

One decision is made by offsets: of the jumps without a label, the earliest is reported. Jumps are
kept in the order in which they stand in the text (`Course.inOrder`), so that the earliest is the
first that was kept (`Names.missing_of_ordered`), which can be told without offsets. Hence offsets
can be taken away before or after compiling (`Walk.compile_unplaced`), and two texts with the same
lexemes are compiled alike (`compile_layout`).
-/

set_option autoImplicit false

namespace TeenyTiny

/-! ## Walks without offsets -/

/-- A token without its offset. -/
def Token.unplaced (token : Token) : Token :=
  { token with loc := 0 }

/-- A fault without the offset that it points at. -/
def Fault.unplaced (fault : Fault) : Fault :=
  { fault with loc := 0 }

/-- A walk without offsets. -/
def Walk.unplaced (walk : Walk) : Walk :=
  ⟨walk.actions.map .unplaced, walk.fault?.map .unplaced⟩

/-- Tokens that have the same lexemes are the same without their offsets. -/
theorem map_unplaced_of_lexemes {tokens tokens' : List Token}
    (same : tokens.map Token.lexeme = tokens'.map Token.lexeme) :
    tokens.map Token.unplaced = tokens'.map Token.unplaced := by
  have through (tokens : List Token) : tokens.map Token.unplaced =
      (tokens.map Token.lexeme).map fun lexeme => ⟨lexeme.1, lexeme.2, 0⟩ := by
    rw [List.map_map]
    rfl
  rw [through, through, same]

theorem Walk.relocated_zero (walk : Walk) : walk.relocated (fun _ => 0) = walk.unplaced := by
  rw [relocated, Action.relocated_zero]
  rfl

theorem Walk.unplaced_after (first : List Action) (walk : Walk) :
    (walk.after first).unplaced = walk.unplaced.after (first.map .unplaced) := by
  simp only [unplaced, after, List.map_append]

/-- What tokens call for, offsets apart, they call for without their offsets. -/
theorem walk_unplaced (ending : Option Fault) (place : Place) (blocks : List Block)
    (owed : List Action) (tokens : List Token) :
    (walk ending place blocks owed tokens).unplaced =
      walk (ending.map .unplaced) place blocks (owed.map .unplaced)
        (tokens.map Token.unplaced) := by
  rw [← Walk.relocated_zero, ← walk_relocated, Action.relocated_zero]
  rfl

/-! ## Jumps in order -/

namespace Names

/-- Of jumps in order the earliest is the first. -/
theorem earliest_of_ordered {jumps : List (String × Nat)}
    (ordered : jumps.Pairwise (·.2 ≤ ·.2)) : earliest? jumps = jumps.head? := by
  induction jumps with
  | nil => rfl
  | cons jump jumps ih =>
      obtain ⟨before, later⟩ := List.pairwise_cons.mp ordered
      rw [earliest?, ih later]
      cases jumps with
      | nil => rfl
      | cons other jumps => exact if_pos (before other List.mem_cons_self)

/-- If jumps are kept in order, the first without a label is missing. -/
theorem missing_of_ordered {names : Names} (ordered : names.jumps.Pairwise (·.2 ≤ ·.2)) :
    names.missing? = names.jumps.find? fun jump => !names.hasLabel jump.1 := by
  rw [missing?, earliest_of_ordered (ordered.filter _), List.head?_filter]

/-- If jumps are kept in order, which one lacks its label does not depend on the offsets. -/
theorem missing_unplaced {names : Names} (ordered : names.jumps.Pairwise (·.2 ≤ ·.2)) :
    names.unplaced.missing? = names.missing?.map fun jump => (jump.1, 0) := by
  have level : names.unplaced.jumps.Pairwise (·.2 ≤ ·.2) := by
    rw [unplaced, List.pairwise_map]
    exact ordered.imp fun _ => Nat.le_refl 0
  rw [missing_of_ordered level, missing_of_ordered ordered, unplaced, List.find?_map]
  rfl

end Names

/-- The offset of a jump. -/
def Action.jumpLoc? : Action → Option Nat
  | .jump _ loc => some loc
  | _ => none

/-- The jumps that are kept, and after them those that actions call for, are in order. -/
def Names.InOrder (names : Names) (actions : List Action) : Prop :=
  (names.jumps.map Prod.snd ++ actions.filterMap Action.jumpLoc?).Pairwise (· ≤ ·)

namespace Names.InOrder

variable {names : Names} {action : Action} {actions : List Action}

theorem jumps (ordered : names.InOrder actions) : names.jumps.Pairwise (·.2 ≤ ·.2) :=
  List.pairwise_map.mp (List.pairwise_append.mp ordered).1

theorem after (ordered : names.InOrder (action :: actions)) :
    (names.after action).InOrder actions := by
  cases action with
  | jump name loc =>
      simp only [InOrder, Names.after, jumpTo]
      split
      · exact List.Pairwise.sublist ((List.sublist_cons_self loc _).append_left _) ordered
      · rw [List.map_append, List.append_assoc]
        exact ordered
  | declare name =>
      simp only [InOrder, Names.after, jumps_declareVariable]
      exact ordered
  | label name loc =>
      simp only [InOrder, Names.after, jumps_declareLabel]
      exact ordered
  | note _ | head _ | write _ | use _ _ | settle => exact ordered

end Names.InOrder

/-! ## Performing actions without offsets -/

namespace Draft

/-- A draft without the offsets of jumps. -/
def unplaced (draft : Draft) : Draft :=
  { draft with names := draft.names.unplaced }

/-- Performing actions that jump in order, and then leaving out offsets, is performing them without
offsets. -/
theorem performAll_unplaced {draft : Draft} {actions : List Action}
    (ordered : draft.names.InOrder actions) :
    draft.unplaced.performAll (actions.map .unplaced) =
      ((draft.performAll actions).1.unplaced, (draft.performAll actions).2.map .unplaced) := by
  rw [← Action.relocated_zero]
  refine performAll_relocated_of (fun _ => 0) Names.InOrder ?_ ?_ draft actions ordered
  · intro names action actions ordered
    exact ordered.after
  · intro names actions ordered
    exact Names.missing_unplaced ordered.jumps

end Draft

/-! ## Compiling without offsets -/

namespace Compilation

/-- A compilation without offsets. -/
def unplaced (compilation : Compilation) : Compilation :=
  ⟨compilation.draft.unplaced, compilation.fault?.map .unplaced⟩

end Compilation

theorem Walk.compile_unplaced {walk : Walk} (ordered : Names.InOrder {} walk.actions)
    (output : Output) : walk.unplaced.compile output = (walk.compile output).unplaced := by
  have performed : Draft.performAll { output } (walk.actions.map .unplaced) =
      ((Draft.performAll { output } walk.actions).1.unplaced,
        (Draft.performAll { output } walk.actions).2.map .unplaced) := by
    have start : ({ output } : Draft).names.InOrder walk.actions := ordered
    exact Draft.performAll_unplaced start
  simp only [compile, Walk.unplaced, Compilation.unplaced, performed, Option.map_or]

/-! ## Jumps along a text -/

/-- The offsets of jumps are among those of the tokens that call for them. -/
theorem Occurrence.jumpLocs_sublist (occurrences : List Occurrence) :
    ((occurrences.flatMap deeds).filterMap Action.jumpLoc?).Sublist
      (occurrences.map (·.token.loc)) := by
  induction occurrences with
  | nil => exact List.Sublist.refl _
  | cons occurrence occurrences ih =>
      rw [List.flatMap_cons, List.filterMap_append, List.map_cons]
      rcases occurrence with ⟨token, _ | _ | _ | _ | _⟩
      case some.jump => exact ih.cons_cons _
      all_goals exact ih.cons _

/-- Jumps are actions about names. -/
theorem jumpLocs_filter (actions : List Action) :
    (actions.filter Action.naming).filterMap Action.jumpLoc? =
      actions.filterMap Action.jumpLoc? := by
  rw [List.filterMap_filter]
  congr
  funext action
  cases action <;> rfl

/-- Along tokens in order, jumps are in order. -/
theorem Course.inOrder {language : List Grammar.Symbol → Prop} {tokens : List Token} {walk : Walk}
    (course : Course language tokens walk) (sorted : tokens.Pairwise (·.loc < ·.loc)) :
    Names.InOrder {} walk.actions := by
  have locs {occurrences : List Occurrence} {others : List Token}
      (split : tokens = occurrences.map Occurrence.token ++ others) :
      ((occurrences.flatMap Occurrence.deeds).filterMap Action.jumpLoc?).Pairwise (· ≤ ·) := by
    rw [split] at sorted
    have passed := (List.pairwise_append.mp sorted).1
    rw [List.pairwise_map] at passed
    apply List.Pairwise.sublist (Occurrence.jumpLocs_sublist occurrences)
    rw [List.pairwise_map]
    exact passed.imp Nat.le_of_lt
  rw [Names.InOrder, ← jumpLocs_filter]
  cases course with
  | @finished occurrences split _ actions _ =>
      have whole : tokens = occurrences.map Occurrence.token ++ [] := by
        rw [split, List.append_nil]
      have settled : [Action.settle].filterMap Action.jumpLoc? = [] := rfl
      rw [actions, List.filterMap_append, settled, List.append_nil]
      exact locs whole
  | refused split _ _ _ actions _ _ =>
      rw [actions]
      exact locs split

namespace Compilation

/-- Offsets apart, what comes of a text without faults is decided by its lexemes without blank
lines. -/
theorem unplaced_ofSource {source : String} {body : List Token} {last : Token}
    (lexes : (Cursor.ofSource source).Lexes (body ++ [last])) (output : Output) :
    (ofSource source output).unplaced =
      ((walk none .line [] [] ((dropBlank true body ++ [last, last]).map Token.unplaced)).after
        prologue).compile output := by
  have ordered : Names.InOrder {} (Cursor.ofSource source).supply.walk.actions := by
    obtain ⟨walk, same, course⟩ := lexes.exists_course
    rw [same]
    exact course.inOrder (lexes.pairwise_loc (Lexeme.lined_concat source.toList))
  have walked := lexes.walk_eq
  rw [walk_dropBlank] at walked
  rw [ofSource_eq, ← Walk.compile_unplaced ordered, walked, Walk.unplaced_after, walk_unplaced]
  rfl

/-- Texts without faults that have the same lexemes but for blank lines are compiled alike. -/
theorem unplaced_eq {source source' : String} {tokens tokens' : List Token}
    (lexes : (Cursor.ofSource source).Lexes tokens)
    (lexes' : (Cursor.ofSource source').Lexes tokens')
    (same : Tree.withoutBlankLines (tokens.map Token.lexeme) =
      Tree.withoutBlankLines (tokens'.map Token.lexeme)) (output : Output) :
    (ofSource source output).unplaced = (ofSource source' output).unplaced := by
  have split {tokens body : List Token} {last : Token} (shape : tokens = body ++ [last])
      (ended : last.kind = .eof) :
      Tree.withoutBlankLines (tokens.map Token.lexeme) =
        (dropBlank true body).map Token.lexeme ++ [last.lexeme] := by
    have other : last.lexeme.1 ≠ .newline := by simp [Token.lexeme, ended]
    rw [shape, List.map_append, Tree.withoutBlankLines, map_lexeme_dropBlank]
    exact Tree.dropBlankLines_append other true _
  obtain ⟨body, last, shape, ended, -⟩ := lexes.split
  obtain ⟨body', last', shape', ended', -⟩ := lexes'.split
  rw [split shape ended, split shape' ended'] at same
  obtain ⟨first, second⟩ := List.append_inj' same rfl
  have lexemes : (dropBlank true body ++ [last, last]).map Token.lexeme =
      (dropBlank true body' ++ [last', last']).map Token.lexeme := by
    simp only [List.map_append, List.map_cons, first, (List.cons.inj second).1]
  subst shape shape'
  rw [unplaced_ofSource lexes, unplaced_ofSource lexes', map_unplaced_of_lexemes lexemes]

end Compilation

/-- Layout does not matter. Two sources without faults of reading that have the same lexemes, but
for blank lines, are compiled to the same program or fail in the same phase with the same message,
and the same log is kept for both. -/
theorem compile_layout {source source' : String} {tokens tokens' : List Token}
    (lexes : (Cursor.ofSource source).Lexes tokens)
    (lexes' : (Cursor.ofSource source').Lexes tokens')
    (same : Tree.withoutBlankLines (tokens.map Token.lexeme) =
      Tree.withoutBlankLines (tokens'.map Token.lexeme)) :
    ((∃ program, compile source = .ok program ∧ compile source' = .ok program) ∨
      ∃ diagnostic diagnostic', compile source = .error diagnostic ∧
        compile source' = .error diagnostic' ∧ diagnostic.phase = diagnostic'.phase ∧
        diagnostic.message = diagnostic'.message) ∧
    ∀ output, (Compilation.ofSource source output).log =
      (Compilation.ofSource source' output).log := by
  have alike (output : Output) := Compilation.unplaced_eq lexes lexes' same output
  refine ⟨?_, ?_⟩
  · have output : (Compilation.ofSource source {}).draft.output =
        (Compilation.ofSource source' {}).draft.output :=
      congrArg (·.draft.output) (alike {})
    have fault : (Compilation.ofSource source {}).fault?.map Fault.unplaced =
        (Compilation.ofSource source' {}).fault?.map Fault.unplaced :=
      congrArg (·.fault?) (alike {})
    cases found : (Compilation.ofSource source {}).fault? with
    | none =>
        rw [found, Option.map_none, eq_comm, Option.map_eq_none_iff] at fault
        exact .inl ⟨_, compile_eq_ok_iff.mpr ⟨found, rfl⟩,
          compile_eq_ok_iff.mpr ⟨fault, by rw [output]⟩⟩
    | some first =>
        rw [found, Option.map_some, eq_comm, Option.map_eq_some_iff] at fault
        obtain ⟨second, found', cause⟩ := fault
        have cause : second.unplaced.cause = first.unplaced.cause := congrArg Fault.cause cause
        refine .inr ⟨_, _, compile_eq_error_iff.mpr ⟨first, found, rfl⟩,
          compile_eq_error_iff.mpr ⟨second, found', rfl⟩, ?_, ?_⟩
        · exact congrArg Cause.phase cause.symm
        · exact congrArg Cause.message cause.symm
  · intro output
    exact congrArg (·.draft.log.toList) (alike output)

/-- Which of two jumps is found to lack its label stays the same when both move. -/
theorem compile_layout_jumps :
    let tokens : List Token := [⟨.gotoWord, "GOTO", 0⟩, ⟨.ident, "b", 5⟩, ⟨.newline, "\n", 6⟩,
      ⟨.gotoWord, "GOTO", 7⟩, ⟨.ident, "a", 12⟩, ⟨.newline, "\n", 13⟩, ⟨.eof, "", 14⟩]
    let tokens' : List Token := [⟨.newline, "\n", 0⟩, ⟨.gotoWord, "GOTO", 2⟩, ⟨.ident, "b", 7⟩,
      ⟨.newline, "\n", 13⟩, ⟨.newline, "\n", 14⟩, ⟨.gotoWord, "GOTO", 15⟩, ⟨.ident, "a", 20⟩,
      ⟨.newline, "\n", 21⟩, ⟨.eof, "", 22⟩]
    (Cursor.ofSource "GOTO b\nGOTO a").Lexes tokens ∧
      (Cursor.ofSource "\n\tGOTO b # a\r\n\nGOTO a").Lexes tokens' ∧
      Tree.withoutBlankLines (tokens.map Token.lexeme) =
        Tree.withoutBlankLines (tokens'.map Token.lexeme) ∧
      compile "GOTO b\nGOTO a" =
        .error ⟨.meaning, ⟨1, 6⟩, "attempting to GOTO undeclared label: b"⟩ ∧
      ∃ position, compile "\n\tGOTO b # a\r\n\nGOTO a" =
        .error ⟨.meaning, position, "attempting to GOTO undeclared label: b"⟩ := by
  intro tokens tokens'
  have lexes : (Cursor.ofSource "GOTO b\nGOTO a").Lexes tokens :=
    .read (by rfl) (by decide) (.read (by rfl) (by decide) (.read (by rfl) (by decide)
      (.read (by rfl) (by decide) (.read (by rfl) (by decide) (.read (by rfl) (by decide)
        (.finish (by rfl) rfl))))))
  have lexes' : (Cursor.ofSource "\n\tGOTO b # a\r\n\nGOTO a").Lexes tokens' :=
    .read (by rfl) (by decide) (.read (by rfl) (by decide) (.read (by rfl) (by decide)
      (.read (by rfl) (by decide) (.read (by rfl) (by decide) (.read (by rfl) (by decide)
        (.read (by rfl) (by decide) (.read (by rfl) (by decide) (.finish (by rfl) rfl))))))))
  have same : Tree.withoutBlankLines (tokens.map Token.lexeme) =
      Tree.withoutBlankLines (tokens'.map Token.lexeme) := by decide
  have failed : compile "GOTO b\nGOTO a" =
      .error ⟨.meaning, ⟨1, 6⟩, "attempting to GOTO undeclared label: b"⟩ := by
    have supply : (Cursor.ofSource "GOTO b\nGOTO a").supply =
        ⟨tokens.dropLast, .ok ⟨.eof, "", 14⟩⟩ := Cursor.Lexes.supply_eq lexes
    rw [compile, Compilation.ofSource, Cursor.compile, supply]
    rfl
  refine ⟨lexes, lexes', same, failed, ?_⟩
  rcases (compile_layout lexes lexes' same).1 with ⟨program, compiled, -⟩ |
    ⟨diagnostic, diagnostic', reported, reported', phase, message⟩
  · cases failed.symm.trans compiled
  · cases failed.symm.trans reported
    obtain ⟨_, position, _⟩ := diagnostic'
    cases phase
    cases message
    exact ⟨position, reported'⟩

end TeenyTiny
