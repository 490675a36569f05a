import TeenyTiny.Proofs.MissingLabels

/-!
# Names and what was done to them

Names are asked and told things one after the other (`Names.Operation`), starting from none. What
they answer is fixed by what was done before: whether a variable or a label was declared, and where
each label was first jumped to (`Names.firstJump?`). Two histories that agree in this give the same
answers from there on (`Names.mayAnswer_congr`), so variables and labels do not disturb each other,
and operations may change places unless they are two jumps to one label.

Jumps are kept in order here, and of two at one offset the earlier is answered. Nothing else depends
on the order. Statements are about every answer that some order of the jumps gives
(`Names.MayAnswer`). Where no two jumps are tied there is only one.
-/

set_option autoImplicit false

namespace TeenyTiny

namespace Names

/-! ## Operations and answers -/

/-- One thing to tell names, or to ask them. -/
inductive Operation where
  /-- Takes in a variable, and asks whether it is new. -/
  | declareVariable (name : String)
  /-- Asks whether a variable has been met. -/
  | hasVariable (name : String)
  /-- Takes in a label, and asks whether it is new. -/
  | declareLabel (name : String)
  /-- Takes in the jump to a label at an offset. -/
  | jumpTo (name : String) (loc : Nat)
  /-- Asks for the earliest jump whose label has not been set. -/
  | missing
  deriving DecidableEq

namespace Operation

/-- The answers to an operation. -/
@[reducible] def Answer : Operation → Type
  | .declareVariable _ | .hasVariable _ | .declareLabel _ => Bool
  | .jumpTo _ _ => Unit
  | .missing => Option (String × Nat)

/-- Whether an operation is about variables. The others are about labels. -/
def ofVariable : Operation → Bool
  | .declareVariable _ | .hasVariable _ => true
  | _ => false

/-- Two jumps to one label at different offsets. -/
def Clash (first second : Operation) : Prop :=
  ∃ name loc loc', first = .jumpTo name loc ∧ second = .jumpTo name loc' ∧ loc ≠ loc'

end Operation

/-- What names answer. -/
def answer (names : Names) : (operation : Operation) → operation.Answer
  | .declareVariable name => (names.declareVariable name).1
  | .hasVariable name => names.hasVariable name
  | .declareLabel name => (names.declareLabel name).1
  | .jumpTo _ _ => ()
  | .missing => names.missing?

/-- The names after an operation. -/
def next (names : Names) : Operation → Names
  | .declareVariable name => (names.declareVariable name).2
  | .declareLabel name => (names.declareLabel name).2
  | .jumpTo name loc => names.jumpTo name loc
  | .hasVariable _ | .missing => names

/-- The names after operations, from none. -/
def replay (history : List Operation) : Names :=
  history.foldl next {}

/-- An answer that is given if the jumps are kept in some order. -/
def MayAnswer (names : Names) (operation : Operation) (answer : operation.Answer) : Prop :=
  ∃ order, order.Perm names.jumps ∧ { names with jumps := order }.answer operation = answer

/-! ## What a history holds -/

/-- The offset of the first jump to a label. -/
def firstJump? (history : List Operation) (name : String) : Option Nat :=
  history.findSome? fun
    | .jumpTo label loc => if label = name then some loc else none
    | _ => none

/-- A label that was jumped to and not set, with the offset of the first jump to it. -/
def IsMissing (history : List Operation) (name : String) (loc : Nat) : Prop :=
  firstJump? history name = some loc ∧ .declareLabel name ∉ history

/-- No two missing labels were first jumped to at one offset. -/
def Untied (history : List Operation) : Prop :=
  ∀ name other loc, IsMissing history name loc → IsMissing history other loc → name = other

theorem firstJump_append (first second : List Operation) (name : String) :
    firstJump? (first ++ second) name = (firstJump? first name).or (firstJump? second name) :=
  List.findSome?_append

theorem firstJump_cons (operation : Operation) (later : List Operation) (name : String) :
    firstJump? (operation :: later) name =
      (firstJump? [operation] name).or (firstJump? later name) :=
  firstJump_append [operation] later name

/-- An operation that jumps to a label jumps there at its own offset. -/
theorem firstJump_single_eq_some {operation : Operation} {name : String} {loc : Nat} :
    firstJump? [operation] name = some loc ↔ operation = .jumpTo name loc := by
  cases operation with
  | jumpTo label loc' => simp [firstJump?, and_comm]
  | _ => simp [firstJump?]

/-- A label that was jumped to was first jumped to somewhere. -/
theorem exists_firstJump {history : List Operation} {name : String} :
    (∃ loc, firstJump? history name = some loc) ↔ ∃ loc, .jumpTo name loc ∈ history := by
  induction history with
  | nil => simp [firstJump?]
  | cons operation later ih =>
      rw [firstJump_cons]
      cases found : firstJump? [operation] name with
      | some loc =>
          rw [firstJump_single_eq_some] at found
          simp [found]
      | none =>
          have other (loc : Nat) : Operation.jumpTo name loc ≠ operation := by
            intro same
            rw [firstJump_single_eq_some.mpr same.symm] at found
            cases found
          simp [ih, other]

/-- Jumps to a label are all about labels. -/
theorem firstJump_filter (history : List Operation) (name : String) :
    firstJump? (history.filter fun operation => operation.ofVariable == false) name =
      firstJump? history name := by
  induction history with
  | nil => rfl
  | cons operation later ih =>
      rw [firstJump_cons operation later, ← ih]
      cases operation with
      | declareVariable _ | hasVariable _ => rfl
      | declareLabel _ | jumpTo _ _ | missing => exact firstJump_cons _ _ name

/-- Two operations that do not clash may change places. -/
theorem firstJump_swap {first second : Operation} (apart : ¬ first.Clash second)
    (earlier later : List Operation) (name : String) :
    firstJump? (earlier ++ first :: second :: later) name =
      firstJump? (earlier ++ second :: first :: later) name := by
  have pair : firstJump? [first, second] name = firstJump? [second, first] name := by
    rw [firstJump_cons first [second], firstJump_cons second [first]]
    cases one : firstJump? [first] name with
    | none => rw [Option.none_or, Option.or_none]
    | some loc =>
        cases other : firstJump? [second] name with
        | none => rfl
        | some loc' =>
            rw [firstJump_single_eq_some] at one other
            have same : loc = loc' := Classical.byContradiction fun different =>
              apart ⟨name, loc, loc', one, other, different⟩
            rw [same]
  calc
    firstJump? (earlier ++ ([first, second] ++ later)) name =
        (firstJump? earlier name).or
          ((firstJump? [first, second] name).or (firstJump? later name)) := by
      rw [firstJump_append, firstJump_append]
    _ = firstJump? (earlier ++ ([second, first] ++ later)) name := by
      rw [pair, firstJump_append earlier, firstJump_append]

/-! ## What names hold after a history -/

/-- What one operation alone makes known is known after operations if it was before or if they
include that one. -/
theorem foldl_next_iff (known : Names → Bool) {cause : Operation}
    (step : ∀ names operation, known (names.next operation) = true ↔
      known names = true ∨ operation = cause)
    (names : Names) (history : List Operation) :
    known (history.foldl next names) = true ↔ known names = true ∨ cause ∈ history := by
  induction history generalizing names with
  | nil => simp
  | cons operation later ih =>
      rw [List.foldl_cons, ih, step, or_assoc, List.mem_cons, eq_comm (a := operation)]

/-- The variables that have been met are those that were declared. -/
theorem hasVariable_replay (history : List Operation) (name : String) :
    (replay history).hasVariable name = true ↔ .declareVariable name ∈ history := by
  have step (names : Names) (operation : Operation) :
      (names.next operation).hasVariable name = true ↔
        names.hasVariable name = true ∨ operation = .declareVariable name := by
    cases operation with
    | declareVariable other =>
        simpa [next, hasVariable] using contains_ite_append name names.vars other
    | _ => simp [next, hasVariable]
  exact (foldl_next_iff (·.hasVariable name) step {} history).trans (by simp [hasVariable])

/-- The labels that have been set are those that were declared. -/
theorem hasLabel_replay (history : List Operation) (name : String) :
    (replay history).hasLabel name = true ↔ .declareLabel name ∈ history := by
  have step (names : Names) (operation : Operation) :
      (names.next operation).hasLabel name = true ↔
        names.hasLabel name = true ∨ operation = .declareLabel name := by
    cases operation with
    | declareLabel other =>
        simpa [next, hasLabel] using contains_ite_append name names.labels other
    | _ => simp [next, hasLabel]
  exact (foldl_next_iff (·.hasLabel name) step {} history).trans (by simp [hasLabel])

theorem hasJump_next (names : Names) (operation : Operation) (name : String) :
    (names.next operation).hasJump name = true ↔
      names.hasJump name = true ∨ ∃ loc, operation = .jumpTo name loc := by
  cases operation with
  | jumpTo other loc => simp [next, hasJump_jumpTo]
  | _ => simp [next, hasJump]

/-- A jump is kept if there was none to its label before. -/
theorem mem_jumps_next (names : Names) (operation : Operation) (name : String) (loc : Nat) :
    (name, loc) ∈ (names.next operation).jumps ↔
      (name, loc) ∈ names.jumps ∨
        ¬ names.hasJump name = true ∧ operation = .jumpTo name loc := by
  cases operation with
  | jumpTo other loc' =>
      rw [next, jumpTo]
      split
      · next known =>
          simp only [Operation.jumpTo.injEq, iff_self_or, and_imp]
          rintro new rfl -
          exact absurd known new
      · next new =>
          simp only [List.mem_append, List.mem_singleton, Prod.mk.injEq, Operation.jumpTo.injEq]
          refine or_congr_right ⟨?_, ?_⟩
          · rintro ⟨rfl, rfl⟩
            exact ⟨new, rfl, rfl⟩
          · rintro ⟨-, rfl, rfl⟩
            exact ⟨rfl, rfl⟩
  | _ => simp [next]

/-- The jumps that are kept are the first ones to their labels. -/
theorem mem_jumps_foldl (names : Names) (history : List Operation) (name : String) (loc : Nat) :
    (name, loc) ∈ (history.foldl next names).jumps ↔
      (name, loc) ∈ names.jumps ∨
        ¬ names.hasJump name = true ∧ firstJump? history name = some loc := by
  induction history generalizing names with
  | nil => simp [firstJump?]
  | cons operation later ih =>
      rw [List.foldl_cons, ih, mem_jumps_next, firstJump_cons, hasJump_next, not_or,
        or_assoc, and_assoc, ← and_or_left]
      refine or_congr_right (and_congr_right fun _ => ?_)
      cases found : firstJump? [operation] name with
      | none =>
          have other (loc : Nat) : operation ≠ .jumpTo name loc := by
            intro same
            rw [firstJump_single_eq_some.mpr same] at found
            cases found
          simp [other]
      | some loc' =>
          rw [firstJump_single_eq_some] at found
          simp [found]

theorem mem_jumps_replay (history : List Operation) (name : String) (loc : Nat) :
    (name, loc) ∈ (replay history).jumps ↔ firstJump? history name = some loc := by
  rw [replay, mem_jumps_foldl]
  simp [hasJump]

/-! ## What may be answered -/

theorem isNew_declareVariable (names : Names) (name : String) :
    (names.declareVariable name).1 = !names.hasVariable name := by
  rw [declareVariable]
  cases names.hasVariable name <;> rfl

theorem isNew_declareLabel (names : Names) (name : String) :
    (names.declareLabel name).1 = !names.hasLabel name := by
  rw [declareLabel]
  cases names.hasLabel name <;> rfl

/-- The order of the jumps matters to one question only. -/
theorem mayAnswer_of_ne {operation : Operation} (other : operation ≠ .missing) (names : Names)
    (answer : operation.Answer) :
    names.MayAnswer operation answer ↔ names.answer operation = answer := by
  have same (order : List (String × Nat)) :
      { names with jumps := order }.answer operation = names.answer operation := by
    cases operation with
    | declareVariable _ => simp [Names.answer, isNew_declareVariable, hasVariable]
    | declareLabel _ => simp [Names.answer, isNew_declareLabel, hasLabel]
    | hasVariable _ | jumpTo _ _ => rfl
    | missing => exact absurd rfl other
  constructor
  · rintro ⟨order, -, rfl⟩
    exact (same order).symm
  · intro given
    exact ⟨names.jumps, .refl _, given⟩

variable {history : List Operation}

theorem mayAnswer_declareVariable (name : String) (value : Bool) :
    (replay history).MayAnswer (.declareVariable name) value ↔
      (value = true ↔ .declareVariable name ∉ history) := by
  rw [mayAnswer_of_ne (by simp), ← hasVariable_replay, Names.answer, isNew_declareVariable]
  cases (replay history).hasVariable name <;> cases value <;> simp

theorem mayAnswer_hasVariable (name : String) (value : Bool) :
    (replay history).MayAnswer (.hasVariable name) value ↔
      (value = true ↔ .declareVariable name ∈ history) := by
  rw [mayAnswer_of_ne (by simp), ← hasVariable_replay, Names.answer]
  cases (replay history).hasVariable name <;> cases value <;> simp

theorem mayAnswer_declareLabel (name : String) (value : Bool) :
    (replay history).MayAnswer (.declareLabel name) value ↔
      (value = true ↔ .declareLabel name ∉ history) := by
  rw [mayAnswer_of_ne (by simp), ← hasLabel_replay, Names.answer, isNew_declareLabel]
  cases (replay history).hasLabel name <;> cases value <;> simp

/-- The first of some jumps is the earliest if none comes before it. -/
theorem earliest_cons_of_le {jump : String × Nat} {others : List (String × Nat)}
    (least : ∀ other ∈ others, jump.2 ≤ other.2) : earliest? (jump :: others) = some jump := by
  rw [earliest?]
  cases found : earliest? others with
  | none => rfl
  | some other => exact if_pos (least other (mem_of_earliest found))

/-- The jumps without a label are gone through in some order. -/
theorem mayAnswer_missing (names : Names) (answer : Option (String × Nat)) :
    names.MayAnswer .missing answer ↔ ∃ order : List (String × Nat), order.Perm names.jumps ∧
      earliest? (order.filter fun jump => !names.hasLabel jump.1) = answer :=
  Iff.rfl

/-- In whatever order the jumps are, those without a label are the ones that are missing. -/
theorem mem_filter_replay {order : List (String × Nat)} (perm : order.Perm (replay history).jumps)
    (jump : String × Nat) :
    jump ∈ order.filter (fun jump => !(replay history).hasLabel jump.1) ↔
      IsMissing history jump.1 jump.2 := by
  rw [List.mem_filter, perm.mem_iff, mem_jumps_replay, IsMissing, ← hasLabel_replay,
    Bool.not_eq_true', Bool.not_eq_true]

/-- No label is missing if all that were jumped to were set. -/
theorem forall_not_isMissing :
    (∀ name loc, ¬ IsMissing history name loc) ↔
      ∀ name loc, .jumpTo name loc ∈ history → .declareLabel name ∈ history := by
  constructor
  · intro settled name loc jumps
    obtain ⟨first, found⟩ := exists_firstJump.mpr ⟨loc, jumps⟩
    exact Classical.byContradiction fun unset => settled name first ⟨found, unset⟩
  · rintro declared name loc ⟨found, unset⟩
    obtain ⟨loc', jumps⟩ := exists_firstJump.mp ⟨loc, found⟩
    exact unset (declared name loc' jumps)

theorem mayAnswer_none :
    (replay history).MayAnswer .missing none ↔ ∀ name loc, ¬ IsMissing history name loc := by
  rw [mayAnswer_missing]
  constructor
  · rintro ⟨order, perm, given⟩ name loc missing
    have inside := (mem_filter_replay perm (name, loc)).mpr missing
    rw [earliest_eq_none.mp given] at inside
    cases inside
  · intro settled
    refine ⟨_, .refl _, earliest_eq_none.mpr (List.eq_nil_iff_forall_not_mem.mpr ?_)⟩
    intro jump inside
    exact settled jump.1 jump.2 ((mem_filter_replay (.refl _) jump).mp inside)

/-- Any of the missing labels to which no other has an earlier first jump may be answered. -/
theorem mayAnswer_some (jump : String × Nat) :
    (replay history).MayAnswer .missing (some jump) ↔
      IsMissing history jump.1 jump.2 ∧
        ∀ name loc, IsMissing history name loc → jump.2 ≤ loc := by
  rw [mayAnswer_missing]
  constructor
  · rintro ⟨order, perm, given⟩
    refine ⟨(mem_filter_replay perm jump).mp (mem_of_earliest given), ?_⟩
    intro name loc missing
    exact le_of_earliest given _ ((mem_filter_replay perm (name, loc)).mpr missing)
  · rintro ⟨missing, least⟩
    -- The jump may be kept in front of all others.
    have kept : jump ∈ (replay history).jumps := (mem_jumps_replay history _ _).mpr missing.1
    have perm := (List.perm_cons_erase kept).symm
    have unset : (!(replay history).hasLabel jump.1) = true :=
      (List.mem_filter.mp ((mem_filter_replay perm jump).mpr missing)).2
    have split := List.filter_cons_of_pos (p := fun jump => !(replay history).hasLabel jump.1)
      (l := (replay history).jumps.erase jump) unset
    refine ⟨_, perm, ?_⟩
    rw [split]
    refine earliest_cons_of_le fun other member => ?_
    refine least other.1 other.2 ((mem_filter_replay perm other).mp ?_)
    rw [split]
    exact List.mem_cons_of_mem _ member

/-- What names answer is one of the answers that may be given. -/
theorem mayAnswer_answer (names : Names) (operation : Operation) :
    names.MayAnswer operation (names.answer operation) :=
  ⟨names.jumps, .refl _, rfl⟩

/-- If no two missing labels are tied, there is one answer. -/
theorem mayAnswer_unique (untied : Untied history) (operation : Operation)
    (answer : operation.Answer) :
    (replay history).MayAnswer operation answer ↔ (replay history).answer operation = answer := by
  by_cases asked : operation = .missing
  · subst asked
    have own := (replay history).mayAnswer_answer .missing
    constructor
    · intro given
      generalize (replay history).answer .missing = answer' at own
      cases answer' with
      | none =>
          cases answer with
          | none => rfl
          | some jump => exact absurd ((mayAnswer_some jump).mp given).1 (mayAnswer_none.mp own _ _)
      | some jump' =>
          cases answer with
          | none => exact absurd ((mayAnswer_some jump').mp own).1 (mayAnswer_none.mp given _ _)
          | some jump =>
              obtain ⟨missing, least⟩ := (mayAnswer_some jump).mp given
              obtain ⟨missing', least'⟩ := (mayAnswer_some jump').mp own
              have loc : jump'.2 = jump.2 :=
                Nat.le_antisymm (least' _ _ missing) (least _ _ missing')
              rw [loc] at missing'
              exact congrArg some (Prod.ext (untied _ _ _ missing' missing) loc)
    · rintro rfl
      exact own
  · exact mayAnswer_of_ne asked _ _

/-! ## Histories that come to the same -/

/-- Names answer alike after histories that hold the same for what an operation asks. -/
theorem mayAnswer_congr {history' : List Operation} {operation : Operation}
    (declared : operation.ofVariable = true → ∀ name,
      .declareVariable name ∈ history ↔ .declareVariable name ∈ history')
    (labelled : operation.ofVariable = false → ∀ name,
      (.declareLabel name ∈ history ↔ .declareLabel name ∈ history') ∧
        firstJump? history name = firstJump? history' name) (answer : operation.Answer) :
    (replay history).MayAnswer operation answer ↔
      (replay history').MayAnswer operation answer := by
  cases operation with
  | declareVariable name =>
      rw [mayAnswer_declareVariable, mayAnswer_declareVariable, declared rfl]
  | hasVariable name => rw [mayAnswer_hasVariable, mayAnswer_hasVariable, declared rfl]
  | declareLabel name =>
      rw [mayAnswer_declareLabel, mayAnswer_declareLabel, (labelled rfl name).1]
  | jumpTo name loc => rw [mayAnswer_of_ne (by simp), mayAnswer_of_ne (by simp)]
  | missing =>
      have same (name : String) (loc : Nat) :
          IsMissing history name loc ↔ IsMissing history' name loc := by
        rw [IsMissing, IsMissing, (labelled rfl name).1, (labelled rfl name).2]
      cases answer with
      | none => simp only [mayAnswer_none, same]
      | some jump => simp only [mayAnswer_some, same]

end Names

open Names

/-- The operations of its own sort are enough for an answer. -/
theorem Names.mayAnswer_filter (history : List Operation) (operation : Operation)
    (answer : operation.Answer) :
    (replay history).MayAnswer operation answer ↔
      (replay (history.filter fun other => other.ofVariable == operation.ofVariable)).MayAnswer
        operation answer := by
  refine mayAnswer_congr ?_ ?_ answer
  · intro sort name
    rw [sort]
    simp [List.mem_filter, Operation.ofVariable]
  · intro sort name
    rw [sort, firstJump_filter]
    simp [List.mem_filter, Operation.ofVariable]

/-- Two operations that do not clash may change places. -/
theorem Names.mayAnswer_swap {first second : Operation} (apart : ¬ first.Clash second)
    (earlier later : List Operation) (operation : Operation) (answer : operation.Answer) :
    (replay (earlier ++ first :: second :: later)).MayAnswer operation answer ↔
      (replay (earlier ++ second :: first :: later)).MayAnswer operation answer := by
  have perm := (List.Perm.swap second first later).append_left earlier
  refine mayAnswer_congr ?_ ?_ answer
  · intro _ name
    exact perm.mem_iff
  · intro _ name
    exact ⟨perm.mem_iff, firstJump_swap apart earlier later name⟩

/-- Names answer by their history. After any operations, in whatever order the jumps are kept: a
variable is new if it was not declared before, and so is a label; a variable has been met if it was
declared before. No jump is missing a label if every label that was jumped to was declared, and else
one is answered whose label was not, with the offset of the first jump to it, and no other such
label has an earlier first jump. This leaves one answer, which is the one that is given, unless two
such labels are tied. Answers about variables depend on operations about variables alone, and
answers about labels on operations about labels. Two operations may change places without any later
answer noticing, unless they are jumps to one label at different offsets. -/
theorem names_recall_history (history : List Operation) :
    let names : Names := replay history
    (∀ name value, names.MayAnswer (.declareVariable name) value ↔
      (value = true ↔ .declareVariable name ∉ history)) ∧
    (∀ name value, names.MayAnswer (.declareLabel name) value ↔
      (value = true ↔ .declareLabel name ∉ history)) ∧
    (∀ name value, names.MayAnswer (.hasVariable name) value ↔
      (value = true ↔ .declareVariable name ∈ history)) ∧
    (names.MayAnswer .missing none ↔
      ∀ name loc, .jumpTo name loc ∈ history → .declareLabel name ∈ history) ∧
    (∀ name loc, names.MayAnswer .missing (some (name, loc)) ↔
      IsMissing history name loc ∧
        ∀ other loc', IsMissing history other loc' → loc ≤ loc') ∧
    (∀ operation, names.MayAnswer operation (names.answer operation)) ∧
    (Untied history → ∀ operation answer,
      names.MayAnswer operation answer ↔ names.answer operation = answer) ∧
    (∀ operation answer, names.MayAnswer operation answer ↔
      (replay (history.filter fun other => other.ofVariable == operation.ofVariable)).MayAnswer
        operation answer) ∧
    ∀ first second later, ¬ first.Clash second → ∀ operation,
      (∀ answer, (replay (history ++ first :: second :: later)).MayAnswer operation answer ↔
        (replay (history ++ second :: first :: later)).MayAnswer operation answer) ∧
      (Untied (history ++ first :: second :: later) →
        (replay (history ++ first :: second :: later)).answer operation =
          (replay (history ++ second :: first :: later)).answer operation) := by
  refine ⟨mayAnswer_declareVariable, mayAnswer_declareLabel, mayAnswer_hasVariable,
    mayAnswer_none.trans forall_not_isMissing, ?_, mayAnswer_answer _, mayAnswer_unique,
    mayAnswer_filter history, ?_⟩
  · intro name loc
    exact mayAnswer_some (name, loc)
  · intro first second later apart operation
    refine ⟨mayAnswer_swap apart history later operation, ?_⟩
    intro untied
    rw [← mayAnswer_unique untied, mayAnswer_swap apart]
    exact mayAnswer_answer _ operation

/-- A jump to a label that has been jumped to before does not count, wherever it stands, and jumps
to different labels may change places. -/
theorem names_recall_first_jumps :
    let earlier : List Operation := [.jumpTo "far" 9, .jumpTo "near" 4, .declareLabel "near"]
    Untied (earlier ++ [.jumpTo "far" 2]) ∧
    (∀ answer, (replay (earlier ++ [.jumpTo "far" 2])).MayAnswer .missing answer ↔
      some ("far", 9) = answer) ∧
    ¬ (Operation.jumpTo "far" 9).Clash (.jumpTo "near" 4) ∧
    (replay (earlier ++ [.jumpTo "far" 2])).answer .missing =
      (replay [.jumpTo "near" 4, .jumpTo "far" 9, .declareLabel "near", .jumpTo "far" 2]).answer
        .missing := by
  intro earlier
  have missing : ∀ name loc, IsMissing (earlier ++ [.jumpTo "far" 2]) name loc → name = "far" := by
    rintro name loc ⟨found, unset⟩
    obtain ⟨loc', jumps⟩ := exists_firstJump.mp ⟨loc, found⟩
    simp only [earlier, List.cons_append, List.nil_append, List.mem_cons, Operation.jumpTo.injEq,
      reduceCtorEq, List.not_mem_nil, or_false, false_or] at jumps
    rcases jumps with ⟨rfl, -⟩ | ⟨rfl, -⟩ | ⟨rfl, -⟩
    · rfl
    · exact absurd (by simp [earlier]) unset
    · rfl
  have untied : Untied (earlier ++ [.jumpTo "far" 2]) := by
    intro name other loc here there
    rw [missing name loc here, missing other loc there]
  have apart : ¬ (Operation.jumpTo "far" 9).Clash (.jumpTo "near" 4) := by
    rintro ⟨name, loc, loc', first, second, -⟩
    have same : "far" = "near" :=
      (Operation.jumpTo.inj first).1.trans (Operation.jumpTo.inj second).1.symm
    exact absurd same (by decide)
  obtain ⟨-, -, -, -, -, -, one, -, -⟩ := names_recall_history (earlier ++ [.jumpTo "far" 2])
  obtain ⟨-, -, -, -, -, -, -, -, swap⟩ := names_recall_history []
  exact ⟨untied, one untied .missing, apart,
    (swap _ _ [.declareLabel "near", .jumpTo "far" 2] apart .missing).2 untied⟩

end TeenyTiny
