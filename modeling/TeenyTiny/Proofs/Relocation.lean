import TeenyTiny.Proofs.ReadingAhead

/-!
# Moving tokens

A text may be changed so that its tokens stay the same and stand elsewhere. Let a function say where
each offset comes to lie. Tokens that have moved call for what they called for, at the offsets where
they are now (`walk_relocated`), whatever the function is, and the same is written, logged and known
(`Draft.perform_relocated`).

One decision is made by offsets: of the jumps without a label, the earliest is reported. So if the
function keeps the order of offsets, compiling has the same outcome, with its fault moved
(`Walk.compile_relocated`).

The simplest way to move a text is to put it behind another one (`Cursor.supply_forward`).
-/

set_option autoImplicit false

namespace TeenyTiny

/-! ## Walks along tokens that moved -/

/-- A token that has moved. -/
def Token.relocated (shift : Nat → Nat) (token : Token) : Token :=
  { token with loc := shift token.loc }

/-- A fault that points where its offset has moved. -/
def Fault.relocated (shift : Nat → Nat) (fault : Fault) : Fault :=
  { fault with loc := shift fault.loc }

/-- An action that points where its offset has moved. -/
def Action.relocated (shift : Nat → Nat) : Action → Action
  | .label name loc => .label name (shift loc)
  | .jump name loc => .jump name (shift loc)
  | .use name loc => .use name (shift loc)
  | action => action

/-- A step with everything that it owes moved. -/
def Step.relocated (shift : Nat → Nat) : Step → Step
  | .pass place blocks owed => .pass place blocks (owed.map (.relocated shift))
  | step => step

/-- A move with everything that it calls for moved. -/
def Move.relocated (shift : Nat → Nat) (move : Move) : Move :=
  ⟨move.now.map (.relocated shift), move.step.relocated shift⟩

/-- A walk with its actions and its fault moved. -/
def Walk.relocated (shift : Nat → Nat) (walk : Walk) : Walk :=
  ⟨walk.actions.map (.relocated shift), walk.fault?.map (.relocated shift)⟩

section Walks

variable (shift : Nat → Nat)

theorem Action.relocated_placed (loc : Nat) (action : Action) :
    (action.placed loc).relocated shift = action.placed (shift loc) := by
  cases action <;> rfl

/-- What points at one offset points where that offset has moved. -/
theorem Move.relocated_placed (loc : Nat) (move : Move) :
    (move.placed loc).relocated shift = move.placed (shift loc) := by
  have actions (actions : List Action) :
      (actions.map (Action.placed loc)).map (Action.relocated shift) =
        actions.map (Action.placed (shift loc)) := by
    rw [List.map_map]
    exact List.map_congr_left fun action _ => action.relocated_placed shift loc
  obtain ⟨now, step⟩ := move
  cases step with
  | pass place blocks owed => simp only [placed, relocated, Step.placed, Step.relocated, actions]
  | refuse cause => simp only [placed, relocated, Step.placed, Step.relocated, actions]
  | finish => simp only [placed, relocated, Step.placed, Step.relocated, actions]

/-- A token that has moved leads where it led before. -/
theorem Place.move_relocated (place : Place) (blocks : List Block) (token : Token) (next : Kind) :
    place.move blocks (token.relocated shift) next =
      (place.move blocks token next).relocated shift := by
  obtain ⟨kind, text, loc⟩ := token
  rw [move_placed kind text loc, Move.relocated_placed, ← move_placed]
  rfl

theorem Walk.relocated_after (first : List Action) (walk : Walk) :
    (walk.after first).relocated shift =
      (walk.relocated shift).after (first.map (.relocated shift)) := by
  simp only [relocated, after, List.map_append]

/-- Tokens that have moved call for what they called for, where they are now. -/
theorem walk_relocated (ending : Option Fault) (place : Place) (blocks : List Block)
    (owed : List Action) (tokens : List Token) :
    walk (ending.map (.relocated shift)) place blocks (owed.map (.relocated shift))
        (tokens.map (.relocated shift)) =
      (walk ending place blocks owed tokens).relocated shift := by
  induction tokens generalizing place blocks owed with
  | nil => rfl
  | cons current tokens ih =>
      cases tokens with
      | nil => rfl
      | cons ahead tokens =>
          have move := place.move_relocated shift blocks current (ahead.relocated shift).kind
          have kind : (ahead.relocated shift).kind = ahead.kind := rfl
          rw [kind] at move
          simp only [List.map_cons, walk, kind, move, Move.relocated]
          cases step : (place.move blocks current ahead.kind).step with
          | pass place' blocks' owed' =>
              have later := ih place' blocks' owed'
              rw [List.map_cons] at later
              simp only [Step.relocated, Walk.relocated_after, List.map_append, later]
          | refuse cause =>
              simp only [Step.relocated, Walk.relocated, List.map_append]
              rfl
          | finish =>
              simp only [Step.relocated, Walk.relocated, List.map_append]
              rfl

end Walks

/-! ## Names -/

namespace Names

variable (shift : Nat → Nat)

/-- The same names, with the jumps moved. -/
def relocated (names : Names) : Names :=
  { names with jumps := names.jumps.map fun jump => (jump.1, shift jump.2) }

theorem hasJump_relocated (names : Names) (name : String) :
    (names.relocated shift).hasJump name = names.hasJump name := by
  simp [hasJump, relocated, Function.comp_def]

theorem after_relocated (names : Names) (action : Action) :
    (names.relocated shift).after (action.relocated shift) =
      (names.after action).relocated shift := by
  cases action with
  | declare name =>
      have same : (names.relocated shift).hasVariable name = names.hasVariable name := rfl
      simp only [after, Action.relocated, declareVariable, same]
      split <;> rfl
  | label name loc =>
      have same : (names.relocated shift).hasLabel name = names.hasLabel name := rfl
      simp only [after, Action.relocated, declareLabel, same]
      split <;> rfl
  | jump name loc =>
      simp only [after, Action.relocated, jumpTo, hasJump_relocated]
      split
      · rfl
      · simp only [relocated, List.map_append, List.map_cons, List.map_nil]
  | note _ | head _ | write _ | use _ _ | settle => rfl

/-- If it does not matter to the jumps whether they are moved, it matters to no action. -/
theorem action_fault_of_missing {names : Names} {shift : Nat → Nat}
    (same : (names.relocated shift).missing? =
      names.missing?.map fun jump => (jump.1, shift jump.2)) (action : Action) :
    (action.relocated shift).fault? (names.relocated shift) =
      (action.fault? names).map (.relocated shift) := by
  cases action with
  | label name loc =>
      have known : (names.relocated shift).hasLabel name = names.hasLabel name := rfl
      simp only [Action.relocated, Action.fault?, known]
      split <;> rfl
  | use name loc =>
      have known : (names.relocated shift).hasVariable name = names.hasVariable name := rfl
      simp only [Action.relocated, Action.fault?, known]
      split <;> rfl
  | settle =>
      simp only [Action.relocated, Action.fault?, same, Option.map_map]
      rfl
  | note _ | head _ | write _ | declare _ | jump _ _ => rfl

end Names

/-- Offsets are moved without a change of their order. -/
def KeepsOrder (shift : Nat → Nat) : Prop :=
  ∀ first second, shift first ≤ shift second ↔ first ≤ second

namespace Names

variable {shift : Nat → Nat} (kept : KeepsOrder shift)
include kept

theorem earliest_relocated (jumps : List (String × Nat)) :
    earliest? (jumps.map fun jump => (jump.1, shift jump.2)) =
      (earliest? jumps).map fun jump => (jump.1, shift jump.2) := by
  induction jumps with
  | nil => rfl
  | cons jump jumps ih =>
      rw [List.map_cons, earliest?, earliest?, ih]
      cases earliest? jumps with
      | none => rfl
      | some other =>
          simp only [Option.map_some, kept jump.2 other.2]
          split <;> rfl

/-- The earliest jump without a label is the same wherever the jumps are moved. -/
theorem missing_relocated (names : Names) :
    (names.relocated shift).missing? =
      names.missing?.map fun jump => (jump.1, shift jump.2) := by
  rw [missing?, missing?, ← earliest_relocated kept, relocated, List.filter_map]
  rfl

end Names

/-! ## Drafts -/

namespace Draft

variable {shift : Nat → Nat}

/-- The same draft, with the jumps moved. -/
def relocated (shift : Nat → Nat) (draft : Draft) : Draft :=
  { draft with names := draft.names.relocated shift }

theorem perform_relocated (draft : Draft) (action : Action) :
    (draft.relocated shift).perform (action.relocated shift) =
      (draft.perform action).relocated shift := by
  have names := draft.names.after_relocated shift action
  cases action with
  | declare name =>
      show (draft.relocated shift).declare name = (draft.declare name).relocated shift
      cases known : draft.names.hasVariable name with
      | true =>
          have known' : (draft.relocated shift).names.hasVariable name = true := known
          rw [declare_of_known known, declare_of_known known']
      | false =>
          have new : (draft.relocated shift).names.hasVariable name = false := known
          have names : ((draft.names.relocated shift).declareVariable name).2 =
              (draft.names.declareVariable name).2.relocated shift := names
          rw [declare_of_new known, declare_of_new new]
          simp only [relocated, names]
  | label name loc =>
      have names : ((draft.names.relocated shift).declareLabel name).2 =
          (draft.names.declareLabel name).2.relocated shift := names
      simp only [perform, label, note, relocated, Action.relocated, names]
  | jump name loc =>
      have names : (draft.names.relocated shift).jumpTo name (shift loc) =
          (draft.names.jumpTo name loc).relocated shift := names
      simp only [perform, relocated, Action.relocated, names]
  | note _ | head _ | write _ | use _ _ | settle => rfl

/-- Actions that are moved leave the same draft and break the same rule, as long as it does not
matter to the jumps that are kept. -/
theorem performAll_relocated_of (shift : Nat → Nat) (holds : Names → List Action → Prop)
    (later : ∀ names action actions, holds names (action :: actions) →
      holds (names.after action) actions)
    (missing : ∀ names actions, holds names actions → (names.relocated shift).missing? =
      names.missing?.map fun jump => (jump.1, shift jump.2))
    (draft : Draft) (actions : List Action) (start : holds draft.names actions) :
    (draft.relocated shift).performAll (actions.map (.relocated shift)) =
      ((draft.performAll actions).1.relocated shift,
        (draft.performAll actions).2.map (.relocated shift)) := by
  induction actions generalizing draft with
  | nil => rfl
  | cons action actions ih =>
      have same : (action.relocated shift).fault? (draft.relocated shift).names =
          (action.fault? draft.names).map (.relocated shift) :=
        Names.action_fault_of_missing (missing _ _ start) action
      rw [List.map_cons, performAll, performAll, same]
      cases action.fault? draft.names with
      | some fault => rfl
      | none =>
          have next : holds (draft.perform action).names actions := by
            rw [perform_names]
            exact later _ _ _ start
          simp only [Option.map_none]
          rw [perform_relocated, ih _ next]

end Draft

/-! ## Compilations -/

/-- What comes of performing what a walk calls for. -/
def Walk.compile (walk : Walk) (output : Output) : Compilation :=
  ⟨(Draft.performAll { output } walk.actions).1,
    (Draft.performAll { output } walk.actions).2.or walk.fault?⟩

/-- The same compilation, with its jumps and its fault moved. -/
def Compilation.relocated (shift : Nat → Nat) (compilation : Compilation) : Compilation :=
  ⟨compilation.draft.relocated shift, compilation.fault?.map (.relocated shift)⟩

theorem Compilation.ofSource_eq (source : String) (output : Output) :
    ofSource source output = (Cursor.ofSource source).supply.walk.compile output := rfl

/-- What comes of a walk whose tokens have moved. -/
theorem Walk.compile_relocated {shift : Nat → Nat} (kept : KeepsOrder shift) (walk : Walk)
    (output : Output) :
    (walk.relocated shift).compile output = (walk.compile output).relocated shift := by
  have performed : Draft.performAll { output } (walk.actions.map (.relocated shift)) =
      ((Draft.performAll { output } walk.actions).1.relocated shift,
        (Draft.performAll { output } walk.actions).2.map (.relocated shift)) := by
    refine Draft.performAll_relocated_of shift (fun _ _ => True) ?_ ?_ { output } walk.actions
      trivial
    · intro names action actions _
      trivial
    · intro names actions _
      exact names.missing_relocated kept
  simp only [compile, relocated, Compilation.relocated, performed, Option.map_or]

/-! ## Texts that are read further on -/

/-- Everything that can be read, moved. -/
def Supply.relocated (shift : Nat → Nat) (supply : Supply) : Supply :=
  ⟨supply.tokens.map (.relocated shift),
    match supply.ending with
    | .ok last => .ok (last.relocated shift)
    | .error fault => .error (fault.relocated shift)⟩

namespace Cursor

/-- The same text ahead, with so many more bytes behind. -/
def forward (cursor : Cursor) (bytes : Nat) : Cursor :=
  ⟨cursor.offset + bytes, cursor.rest⟩

theorem past_forward (cursor : Cursor) (bytes : Nat) (passed rest : List Char) :
    (cursor.forward bytes).past passed rest = (cursor.past passed rest).forward bytes := by
  simp only [past, forward, Nat.add_right_comm]

/-- One token is read alike further on. -/
theorem next_forward (cursor : Cursor) (bytes : Nat) :
    (cursor.forward bytes).next =
      (match cursor.next.1 with
        | .ok token => .ok (token.relocated (· + bytes))
        | .error fault => .error (fault.relocated (· + bytes)), cursor.next.2.forward bytes) := by
  have start : (cursor.forward bytes).pastGap = cursor.pastGap.forward bytes :=
    cursor.past_forward bytes _ _
  rw [next, next, start, read, read]
  have same : (cursor.pastGap.forward bytes).rest = cursor.pastGap.rest := rfl
  rw [same]
  cases Lexeme.read cursor.pastGap.rest with
  | token kind text rest =>
      simp only [past_forward]
      rfl
  | refused passed cause rest =>
      simp only [past_forward]
      rfl

/-- A text is read alike further on. -/
theorem supply_forward (cursor : Cursor) (bytes : Nat) :
    (cursor.forward bytes).supply = cursor.supply.relocated (· + bytes) := by
  induction cursor using supply.induct with
  | case1 cursor fault after found =>
      have moved := cursor.next_forward bytes
      rw [found] at moved
      rw [supply_of_fault found, supply_of_fault moved]
      rfl
  | case2 cursor last after found ended =>
      have moved := cursor.next_forward bytes
      rw [found] at moved
      rw [supply_of_end found ended, supply_of_end moved ended]
      rfl
  | case3 cursor token after found more _ ih =>
      have moved := cursor.next_forward bytes
      rw [found] at moved
      rw [supply_of_token found more, supply_of_token moved more, ih]
      rfl

end Cursor

end TeenyTiny
