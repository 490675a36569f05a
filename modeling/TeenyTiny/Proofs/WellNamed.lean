import TeenyTiny.Proofs.Relocation
import TeenyTiny.Proofs.Translation

/-!
# Compiled programs are well named

A source that has a tree is compiled if and only if its tree is well named
(`Compilation.fault_eq_none_iff_wellNamed`).

The rules about names are checked on the actions of a walk, in order. Offsets do not matter to them
(`Names.fault_unplaced`), so that the actions of the tree can be checked instead. While they are
performed the names that are known are those that the tree has set so far (`Names.Knows`); with
that, no rule is broken by a statement if and only if it is scoped and its labels are new
(`Tree.Statement.quiet_iff`).
-/

set_option autoImplicit false

namespace TeenyTiny

/-! ## Offsets do not matter -/

/-- To leave out offsets is to move them all to one place. -/
theorem Action.relocated_zero : Action.relocated (fun _ => 0) = Action.unplaced := by
  funext action
  cases action <;> rfl

namespace Names

/-- Names without the offsets of jumps. -/
def unplaced (names : Names) : Names :=
  { names with jumps := names.jumps.map fun jump => (jump.1, 0) }

theorem hasJump_unplaced (names : Names) (name : String) :
    names.unplaced.hasJump name = names.hasJump name :=
  names.hasJump_relocated (fun _ => 0) name

theorem after_unplaced (names : Names) (action : Action) :
    names.unplaced.after action.unplaced = (names.after action).unplaced := by
  rw [← Action.relocated_zero]
  exact names.after_relocated (fun _ => 0) action

/-- Whether an action breaks a rule does not depend on offsets. -/
theorem action_fault_unplaced (names : Names) (action : Action) :
    action.unplaced.fault? names.unplaced = none ↔ action.fault? names = none := by
  cases action with
  | label name loc => simp [Action.unplaced, Action.fault?, hasLabel, unplaced]
  | use name loc => simp [Action.unplaced, Action.fault?, hasVariable, unplaced]
  | settle =>
      simp only [Action.unplaced, Action.fault?, Option.map_eq_none_iff, missing_eq_none,
        hasJump_unplaced]
      rfl
  | _ => rfl

theorem fault_unplaced (names : Names) (actions : List Action) :
    names.unplaced.fault? (actions.map Action.unplaced) = none ↔ names.fault? actions = none := by
  induction actions generalizing names with
  | nil => rfl
  | cons action actions ih =>
      rw [List.map_cons, fault?, fault?, Option.or_eq_none_iff, Option.or_eq_none_iff,
        action_fault_unplaced, after_unplaced, ih]

/-! ## The names that are known -/

@[simp] theorem afterAll_nil (names : Names) : names.afterAll [] = names := rfl

@[simp] theorem afterAll_cons (names : Names) (action : Action) (actions : List Action) :
    names.afterAll (action :: actions) = (names.after action).afterAll actions := rfl

/-- The variables, labels and jumps that are known are exactly these. -/
structure Knows (names : Names) (vars labels jumps : List String) : Prop where
  vars : ∀ name, names.hasVariable name = true ↔ name ∈ vars
  labels : ∀ name, names.hasLabel name = true ↔ name ∈ labels
  jumps : ∀ name, names.hasJump name = true ↔ name ∈ jumps

namespace Knows

variable {names : Names} {vars labels jumps : List String}

theorem start : Knows {} [] [] [] := by
  constructor <;> simp [hasVariable, hasLabel, hasJump]

theorem declare (knows : names.Knows vars labels jumps) (name : String) :
    (names.after (.declare name)).Knows (vars ++ [name]) labels jumps where
  vars other := by
    rw [List.mem_append, List.mem_singleton, ← knows.vars other, eq_comm (a := other)]
    simp only [hasVariable, after, vars_declareVariable, contains_ite_append]
  labels other := by
    rw [← knows.labels other]
    simp only [hasLabel, after, labels_declareVariable]
  jumps other := by
    rw [← knows.jumps other]
    simp only [hasJump, after, jumps_declareVariable]

theorem label (knows : names.Knows vars labels jumps) (name : String) (loc : Nat) :
    (names.after (.label name loc)).Knows vars (labels ++ [name]) jumps where
  vars other := by
    rw [← knows.vars other]
    simp only [hasVariable, after, vars_declareLabel]
  labels other := by
    rw [List.mem_append, List.mem_singleton, ← knows.labels other, eq_comm (a := other)]
    simp only [hasLabel, after, labels_declareLabel, contains_ite_append]
  jumps other := by
    rw [← knows.jumps other]
    simp only [hasJump, after, jumps_declareLabel]

theorem jump (knows : names.Knows vars labels jumps) (name : String) (loc : Nat) :
    (names.after (.jump name loc)).Knows vars labels (jumps ++ [name]) where
  vars other := by
    rw [← knows.vars other]
    simp only [hasVariable, after, vars_jumpTo]
  labels other := by
    rw [← knows.labels other]
    simp only [hasLabel, after, labels_jumpTo]
  jumps other := by
    rw [List.mem_append, List.mem_singleton, ← knows.jumps other, eq_comm (a := other)]
    exact hasJump_jumpTo names other name loc

end Knows

/-- Reads break no rule if and only if what they read is known. -/
theorem fault_reads_eq_none (names : Names) (reads : List String) :
    names.fault? (reads.map (.use · 0)) = none ↔
      ∀ name ∈ reads, names.hasVariable name = true := by
  induction reads with
  | nil => simp [fault?]
  | cons name reads ih =>
      rw [List.map_cons, fault?, Option.or_eq_none_iff, List.forall_mem_cons, ← ih]
      simp [Action.fault?, after]

/-- Reads add no names. -/
theorem afterAll_reads (names : Names) (reads : List String) :
    names.afterAll (reads.map (.use · 0)) = names := by
  induction reads with
  | nil => rfl
  | cons name reads ih => exact ih

end Names

/-! ## What a tree does to names -/

namespace Tree

/-- A chain reads what its parts read. -/
theorem Chain.naming_actions {Sign Part : Type} {sign : Sign → Lexeme} {enter : List Action}
    {part : Part → List Action} {uses : Part → List String}
    (quiet : enter.filter Action.naming = [])
    (parts : ∀ tree, (part tree).filter Action.naming = (uses tree).map (.use · 0))
    (chain : Chain Sign Part) :
    (chain.actions sign enter part).filter Action.naming = (chain.uses uses).map (.use · 0) := by
  rcases chain with ⟨first, others⟩
  simp only [Chain.actions, Chain.uses, List.filter_append, List.map_append, parts]
  congr 1
  induction others with
  | nil => rfl
  | cons other others ih =>
      rw [List.flatMap_cons, List.flatMap_cons, List.filter_append, List.map_append, ih,
        List.cons_append, List.filter_cons_of_neg (by simp [Action.naming]), List.filter_append,
        quiet, parts, List.nil_append]

@[simp] theorem Expression.naming_actions (expression : Expression) :
    expression.actions.filter Action.naming = expression.uses.map (.use · 0) := by
  refine Chain.naming_actions rfl (Chain.naming_actions rfl fun unary => ?_) expression
  rcases unary with ⟨_ | _, _ | _⟩ <;> rfl

@[simp] theorem Comparison.naming_actions (comparison : Comparison) :
    comparison.actions.filter Action.naming = comparison.uses.map (.use · 0) := by
  have others : (comparison.others.actions ComparisonSign.lexeme Place.enterExpression
      Expression.actions).filter Action.naming =
        (comparison.others.uses Expression.uses).map (.use · 0) :=
    Chain.naming_actions rfl Expression.naming_actions comparison.others
  have enters : Place.enterExpression.filter Action.naming = [] := rfl
  simp only [Comparison.actions, Comparison.uses, List.cons_append, List.filter_append,
    List.filter_cons_of_neg (show ¬ (Action.write _).naming = true by simp [Action.naming]),
    Expression.naming_actions, enters, others, List.nil_append, List.map_append]

/-- What a statement does to names. -/
def Statement.deeds (statement : Statement) : List Action :=
  statement.actions.filter Action.naming

/-- What statements do to names, in order. -/
def Statements.deeds (statements : Statements) : List Action :=
  statements.actions.filter Action.naming

@[simp] theorem naming_enter (lexemes : List Lexeme) :
    (enter lexemes).filter Action.naming = [] := by
  simp [enter, Action.naming]

@[simp] theorem naming_enterExpression : Place.enterExpression.filter Action.naming = [] := rfl

section

variable (name text : String) (expression : Expression)

@[simp] theorem Statement.deeds_printText : (Statement.printText text).deeds = [] := by
  simp [deeds, actions, Action.naming]

@[simp] theorem Statement.deeds_print :
    (Statement.print expression).deeds = expression.uses.map (.use · 0) := by
  simp [deeds, actions, Action.naming]

@[simp] theorem Statement.deeds_block (block : Block) (guard : Comparison) (body : Statements) :
    (Statement.block block guard body).deeds = guard.uses.map (.use · 0) ++ body.deeds := by
  simp [deeds, Statements.deeds, actions, Action.naming]

@[simp] theorem Statement.deeds_label : (Statement.label name).deeds = [.label name 0] := by
  simp [deeds, actions, List.filter_cons, Action.naming]

@[simp] theorem Statement.deeds_goto : (Statement.goto name).deeds = [.jump name 0] := by
  simp [deeds, actions, List.filter_cons, Action.naming]

@[simp] theorem Statement.deeds_assign :
    (Statement.assign name expression).deeds =
      .declare name :: expression.uses.map (.use · 0) := by
  simp [deeds, actions, List.filter_cons, Action.naming]

@[simp] theorem Statement.deeds_input : (Statement.input name).deeds = [.declare name] := by
  simp [deeds, actions, List.filter_cons, Action.naming]

@[simp] theorem Statements.deeds_nil : Statements.nil.deeds = [] := rfl

@[simp] theorem Statements.deeds_cons (first : Statement) (others : Statements) :
    (Statements.cons first others).deeds = first.deeds ++ others.deeds := by
  simp [deeds, Statement.deeds, actions]

end

/-! ## Names along a tree -/

mutual

/-- After a statement the names are known that were known before and that it sets. -/
theorem Statement.knows {names : Names} {vars labels jumps : List String}
    (knows : names.Knows vars labels jumps) : ∀ statement : Statement,
    (names.afterAll statement.deeds).Knows (vars ++ statement.targets)
      (labels ++ statement.labels) (jumps ++ statement.jumps)
  | .printText text => by
      simpa [Statement.targets, Statement.labels, Statement.jumps] using knows
  | .print expression => by
      simpa [Statement.targets, Statement.labels, Statement.jumps, Names.afterAll_reads] using knows
  | .block block guard body => by
      rw [Statement.deeds_block, Names.afterAll_append, Names.afterAll_reads]
      exact body.knows knows
  | .label name => by
      simpa [Statement.targets, Statement.labels, Statement.jumps] using knows.label name 0
  | .goto name => by
      simpa [Statement.targets, Statement.labels, Statement.jumps] using knows.jump name 0
  | .assign name expression => by
      rw [Statement.deeds_assign, Names.afterAll_cons, Names.afterAll_reads]
      simpa [Statement.targets, Statement.labels, Statement.jumps] using knows.declare name
  | .input name => by
      simpa [Statement.targets, Statement.labels, Statement.jumps] using knows.declare name

theorem Statements.knows {names : Names} {vars labels jumps : List String}
    (knows : names.Knows vars labels jumps) : ∀ statements : Statements,
    (names.afterAll statements.deeds).Knows (vars ++ statements.targets)
      (labels ++ statements.labels) (jumps ++ statements.jumps)
  | .nil => by simpa [Statements.targets, Statements.labels, Statements.jumps] using knows
  | .cons first others => by
      rw [Statements.deeds_cons, Names.afterAll_append]
      simpa [Statements.targets, Statements.labels, Statements.jumps] using
        others.knows (first.knows knows)

end

/-- Labels are new if they are distinct and none of them is set. -/
def Fresh (labels new : List String) : Prop :=
  new.Nodup ∧ ∀ name ∈ new, name ∉ labels

theorem fresh_append {labels first second : List String} :
    Fresh labels (first ++ second) ↔ Fresh labels first ∧ Fresh (labels ++ first) second := by
  simp only [Fresh, List.nodup_append, List.mem_append, not_or]
  constructor
  · rintro ⟨⟨distinct, distinct', apart⟩, new⟩
    exact ⟨⟨distinct, fun name member => new name (.inl member)⟩, distinct',
      fun name member => ⟨new name (.inr member), fun early => apart name early name member rfl⟩⟩
  · rintro ⟨⟨distinct, new⟩, distinct', new'⟩
    refine ⟨⟨distinct, distinct', ?_⟩, ?_⟩
    · rintro name early _ member rfl
      exact (new' name member).2 early
    · rintro name (member | member)
      · exact new name member
      · exact (new' name member).1

mutual

/-- A statement breaks no rule if and only if it is scoped and its labels are new. -/
theorem Statement.quiet_iff {names : Names} {vars labels jumps : List String}
    (knows : names.Knows vars labels jumps) : ∀ statement : Statement,
    names.fault? statement.deeds = none ↔
      statement.Scoped vars ∧ Fresh labels statement.labels
  | .printText text => by
      simp [Names.fault?, Statement.Scoped, Statement.labels, Fresh]
  | .print expression => by
      simp [Names.fault_reads_eq_none, Statement.Scoped, Statement.labels, Fresh, knows.vars]
  | .block block guard body => by
      rw [Statement.deeds_block, Names.fault_append, Option.or_eq_none_iff, Names.afterAll_reads,
        Names.fault_reads_eq_none, body.quiet_iff knows, Statement.Scoped, Statement.labels]
      simp only [knows.vars, and_assoc]
  | .label name => by
      simp [Names.fault?, Action.fault?, Statement.Scoped, Statement.labels, Fresh,
        ← knows.labels]
  | .goto name => by
      simp [Names.fault?, Action.fault?, Statement.Scoped, Statement.labels, Fresh]
  | .assign name expression => by
      have known := (knows.declare name).vars
      simp [Names.fault?, Action.fault?, Names.fault_reads_eq_none, Statement.Scoped,
        Statement.labels, Fresh, known]
  | .input name => by
      simp [Names.fault?, Action.fault?, Statement.Scoped, Statement.labels, Fresh]

theorem Statements.quiet_iff {names : Names} {vars labels jumps : List String}
    (knows : names.Knows vars labels jumps) : ∀ statements : Statements,
    names.fault? statements.deeds = none ↔
      statements.Scoped vars ∧ Fresh labels statements.labels
  | .nil => by simp [Names.fault?, Statements.Scoped, Statements.labels, Fresh]
  | .cons first others => by
      rw [Statements.deeds_cons, Names.fault_append, Option.or_eq_none_iff,
        first.quiet_iff knows, others.quiet_iff (first.knows knows), Statements.Scoped,
        Statements.labels, fresh_append, and_and_and_comm]

end

/-- A program breaks no rule, its jumps included, if and only if it is well named. -/
theorem Statements.fault_settle_eq_none (program : Statements) :
    Names.fault? {} (program.deeds ++ [.settle]) = none ↔ program.WellNamed := by
  have knows := program.knows Names.Knows.start
  simp only [List.nil_append] at knows
  have settled : (Names.afterAll {} program.deeds).fault? [.settle] = none ↔
      ∀ name ∈ program.jumps, name ∈ program.labels := by
    simp [Names.fault?, Action.fault?, Names.missing_eq_none, knows.labels, knows.jumps]
  rw [Names.fault_append, Option.or_eq_none_iff, program.quiet_iff Names.Knows.start, settled]
  constructor
  · rintro ⟨⟨known, distinct, -⟩, labelled⟩
    exact ⟨known, distinct, labelled⟩
  · rintro ⟨known, distinct, labelled⟩
    exact ⟨⟨known, distinct, by simp⟩, labelled⟩

end Tree

/-- A source with a tree is compiled if and only if its tree is well named. -/
theorem Compilation.fault_eq_none_iff_wellNamed {source : String} {tree : Tree.Statements}
    (has : HasTree source tree) : (ofSource source {}).fault? = none ↔ tree.WellNamed := by
  obtain ⟨done, same, walked⟩ := has.exists_walk
  have deeds : ((prologue ++ (done ++ epilogue) ++ [Action.settle]).map Action.unplaced).filter
      Action.naming = tree.deeds ++ [.settle] := by
    simp only [List.map_append, List.filter_append, same]
    exact congrArg (· ++ [Action.settle]) (List.append_nil tree.deeds)
  rw [fault_ofSource, walked, Option.or_none, ← Names.fault_unplaced, ← Names.fault_filter, deeds]
  exact tree.fault_settle_eq_none

end TeenyTiny
