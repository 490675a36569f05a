import TeenyTiny.Tree.Basic

/-!
# The names in a tree

Which variables a tree sets and reads, and which labels it sets and jumps to, each in order. A
program is well named (`Statements.WellNamed`) if every variable is set before it is read, no
label is set twice, and every jump goes to a label that is set somewhere.
-/

set_option autoImplicit false

namespace TeenyTiny.Tree

/-! ## Variables that are read -/

/-- The variable that a primary reads. -/
def Primary.uses : Primary → List String
  | number _ => []
  | ident name => [name]

/-- What the parts of a chain read, in order. -/
def Chain.uses {Sign Part : Type} (part : Part → List String) (chain : Chain Sign Part) :
    List String :=
  part chain.first ++ chain.others.flatMap fun other => part other.2

/-- The variables that a term reads, in order. -/
def Term.uses (term : Term) : List String :=
  Chain.uses (fun unary => unary.primary.uses) term

/-- The variables that an expression reads, in order. -/
def Expression.uses (expression : Expression) : List String :=
  Chain.uses Term.uses expression

/-- The variables that a comparison reads, in order. -/
def Comparison.uses (comparison : Comparison) : List String :=
  comparison.first.uses ++ comparison.others.uses Expression.uses

/-! ## Names of statements -/

mutual

/-- The variables that a statement sets, in order. -/
def Statement.targets : Statement → List String
  | .assign name _ | .input name => [name]
  | .block _ _ body => body.targets
  | _ => []

/-- The variables that statements set, in order. -/
def Statements.targets : Statements → List String
  | .nil => []
  | .cons first others => first.targets ++ others.targets

end

mutual

/-- The labels that a statement sets, in order. -/
def Statement.labels : Statement → List String
  | .label name => [name]
  | .block _ _ body => body.labels
  | _ => []

/-- The labels that statements set, in order. -/
def Statements.labels : Statements → List String
  | .nil => []
  | .cons first others => first.labels ++ others.labels

end

mutual

/-- The labels that a statement jumps to, in order. -/
def Statement.jumps : Statement → List String
  | .goto name => [name]
  | .block _ _ body => body.jumps
  | _ => []

/-- The labels that statements jump to, in order. -/
def Statements.jumps : Statements → List String
  | .nil => []
  | .cons first others => first.jumps ++ others.jumps

end

/-- The names of a list at their first occurrence, given those that occurred before. -/
def firstOccurrences (known : List String) : List String → List String
  | [] => []
  | name :: names =>
      if name ∈ known then firstOccurrences known names
      else name :: firstOccurrences (known ++ [name]) names

/-! ## Well-named programs -/

mutual

/-- Every variable that a statement reads is known before, or set by the statement itself. An
assignment sets its variable before its expression is read. -/
def Statement.Scoped (known : List String) : Statement → Prop
  | .print expression => ∀ name ∈ expression.uses, name ∈ known
  | .block _ guard body => (∀ name ∈ guard.uses, name ∈ known) ∧ body.Scoped known
  | .assign target expression => ∀ name ∈ expression.uses, name ∈ known ++ [target]
  | _ => True

/-- Every variable that statements read is known before, or set by then. -/
def Statements.Scoped (known : List String) : Statements → Prop
  | .nil => True
  | .cons first others => first.Scoped known ∧ others.Scoped (known ++ first.targets)

end

/-- The rules that the names of a program obey. -/
structure Statements.WellNamed (program : Statements) : Prop where
  /-- Every variable is set before it is read. -/
  set_before_read : program.Scoped []
  /-- No label is set twice. -/
  labels_nodup : program.labels.Nodup
  /-- Every jump goes to a label that is set. -/
  jumps_subset : ∀ name ∈ program.jumps, name ∈ program.labels

end TeenyTiny.Tree
