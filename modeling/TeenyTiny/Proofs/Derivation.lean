import TeenyTiny.Block
import TeenyTiny.Grammar

/-!
# Derivations that say what names are for

The grammar speaks of kinds alone. In a derivation every identifier stands in one of five places:
as the target of a LET or an INPUT, as the name of a LABEL or a GOTO, or as a primary.
`Derivation.Program` is the grammar again, with each identifier marked by the role it has.
Forgetting the roles gives the grammar, and every program has such a derivation
(`program_iff_exists_derivation`).

Two facts about expressions prepare reading them from left to right. A chain is its first part and
a tail of parts, each after its separator (`chain_iff_tail`). An expression, which groups factors
into terms, is as a sequence nothing but a chain of unaries with operators of either sort between
them (`expression_iff_operands`).
-/

set_option autoImplicit false

namespace TeenyTiny.Grammar

/-! ## Signs -/

theorem adds_eq (kind : Kind) : adds kind = kind.isSign := by
  cases kind <;> rfl

theorem multiplies_eq (kind : Kind) : multiplies kind = kind.isFactorSign := by
  cases kind <;> rfl

theorem compares_eq (kind : Kind) : compares kind = kind.isComparison := by
  cases kind <;> rfl

/-! ## Chains from left to right -/

/-- Parts, each with a separator before it. -/
inductive Tail (Part : List Kind → Prop) (separates : Kind → Bool) : List Kind → Prop where
  | nil : Tail Part separates []
  | cons {separator : Kind} {part tail : List Kind} :
      separates separator = true → Part part → Tail Part separates tail →
        Tail Part separates (separator :: part ++ tail)

variable {Part : List Kind → Prop} {separates : Kind → Bool}

theorem Tail.append {tail more : List Kind} (first : Tail Part separates tail)
    (second : Tail Part separates more) : Tail Part separates (tail ++ more) := by
  induction first with
  | nil => exact second
  | cons separator part _ ih =>
      rw [List.append_assoc]
      exact .cons separator part ih

theorem Tail.single {separator : Kind} {part : List Kind} (separated : separates separator = true)
    (here : Part part) : Tail Part separates (separator :: part) := by
  have one : Tail Part separates (separator :: part ++ []) := .cons separated here .nil
  rwa [List.append_nil] at one

/-- A chain goes on with a tail. -/
theorem Chain.append_tail {parts tail : List Kind} (chain : Chain Part separates parts)
    (more : Tail Part separates tail) : Chain Part separates (parts ++ tail) := by
  induction more generalizing parts with
  | nil => rwa [List.append_nil]
  | @cons separator part tail separated here _ ih =>
      have longer := ih (.joined chain separated here)
      rwa [List.append_assoc] at longer

/-- A chain is its first part and a tail. -/
theorem chain_iff_tail {kinds : List Kind} :
    Chain Part separates kinds ↔
      ∃ part tail, Part part ∧ Tail Part separates tail ∧ kinds = part ++ tail := by
  constructor
  · intro chain
    induction chain with
    | @single part here => exact ⟨part, [], here, .nil, (List.append_nil part).symm⟩
    | joined _ separated here ih =>
        obtain ⟨first, tail, start, more, rfl⟩ := ih
        refine ⟨first, _, start, more.append (.single separated here), ?_⟩
        rw [List.append_assoc]
  · rintro ⟨part, tail, here, more, rfl⟩
    exact Chain.append_tail (.single here) more

/-- A comparison goes on with a tail. -/
theorem Comparison.append_tail {kinds tail : List Kind} (comparison : Comparison kinds)
    (more : Tail Expression compares tail) : Comparison (kinds ++ tail) := by
  induction more generalizing kinds with
  | nil => rwa [List.append_nil]
  | @cons sign side tail compares here _ ih =>
      obtain ⟨chain, compares', side'⟩ := comparison
      have longer := ih (.compared (.joined chain compares' side') compares here)
      rwa [List.append_assoc] at longer

/-- A comparison is two expressions with a sign between them, and a tail. -/
theorem comparison_iff_tail {kinds : List Kind} :
    Comparison kinds ↔
      ∃ side sign side' tail, Expression side ∧ compares sign = true ∧ Expression side' ∧
        Tail Expression compares tail ∧ kinds = side ++ sign :: side' ++ tail := by
  constructor
  · rintro ⟨chain, compares, last⟩
    obtain ⟨first, tail, start, more, rfl⟩ := chain_iff_tail.mp chain
    cases more with
    | nil =>
        refine ⟨first, _, _, [], start, compares, last, .nil, ?_⟩
        rw [List.append_nil, List.append_nil]
    | cons compares' second more =>
        refine ⟨first, _, _, _, start, compares', second, more.append (.single compares last), ?_⟩
        simp
  · rintro ⟨side, sign, side', tail, start, compares, second, more, rfl⟩
    exact (Comparison.compared (.single start) compares second).append_tail more

/-! ## Expressions as sequences of operands -/

/-- Whether a token of this kind stands between two operands of an expression. -/
def isOperator (kind : Kind) : Bool :=
  adds kind || multiplies kind

/-- An expression goes on with an operator and an operand, whichever the operator is. -/
theorem Expression.snoc {kinds unary : List Kind} {operator : Kind} (expression : Expression kinds)
    (joins : isOperator operator = true) (operand : Unary unary) :
    Expression (kinds ++ operator :: unary) := by
  rcases Bool.or_eq_true_iff.mp joins with sign | factorSign
  · exact .joined expression sign (.single operand)
  · cases expression with
    | single term => exact .single (.joined term factorSign operand)
    | joined terms separated term =>
        rw [List.append_assoc]
        exact .joined terms separated (.joined term factorSign operand)

theorem Tail.operators {tail : List Kind} (more : Tail Unary multiplies tail) :
    Tail Unary isOperator tail := by
  induction more with
  | nil => exact .nil
  | cons separated part _ ih => exact .cons (by simp [isOperator, separated]) part ih

/-- An expression is, as a sequence, a chain of operands. -/
theorem expression_iff_operands {kinds : List Kind} :
    Expression kinds ↔ Chain Unary isOperator kinds := by
  constructor
  · intro expression
    induction expression with
    | single term =>
        obtain ⟨first, tail, start, more, rfl⟩ := chain_iff_tail.mp term
        exact chain_iff_tail.mpr ⟨first, tail, start, more.operators, rfl⟩
    | joined _ sign term ih =>
        obtain ⟨first, tail, start, more, rfl⟩ := chain_iff_tail.mp term
        have joins : isOperator _ = true := Bool.or_eq_true_iff.mpr (.inl sign)
        have joined := Chain.joined ih joins start
        have longer := joined.append_tail more.operators
        rwa [List.append_assoc, List.cons_append] at longer
  · intro chain
    induction chain with
    | single operand => exact .single (.single operand)
    | joined _ joins operand ih => exact Expression.snoc ih joins operand

/-- An expression is its first operand and a tail of operands. -/
theorem expression_iff_tail {kinds : List Kind} :
    Expression kinds ↔
      ∃ unary tail, Unary unary ∧ Tail Unary isOperator tail ∧ kinds = unary ++ tail :=
  expression_iff_operands.trans chain_iff_tail

/-! ## Roles -/

/-- What an identifier of a program is there for. -/
inductive Role where
  /-- A LET or an INPUT sets it. -/
  | target
  /-- It is read: it is derived as a primary. -/
  | read
  /-- A LABEL sets it. -/
  | label
  /-- A GOTO jumps to it. -/
  | jump
  deriving DecidableEq

/-- A kind, and the role of an identifier. -/
structure Symbol where
  kind : Kind
  role? : Option Role
  deriving DecidableEq

/-- A symbol without a role. -/
def mark (kind : Kind) : Symbol :=
  ⟨kind, none⟩

/-- An identifier in a role. -/
def name (role : Role) : Symbol :=
  ⟨.ident, some role⟩

/-- A symbol of an expression, where every identifier is derived as a primary. -/
def operand (kind : Kind) : Symbol :=
  ⟨kind, if kind = .ident then some .read else none⟩

/-- The ends of a line, with blank lines after it. -/
def endings (blank : Nat) : List Symbol :=
  (lineEnds blank).map mark

namespace Derivation

mutual

/-- One statement, with the end of its last line and the blank lines after it. -/
inductive Statement : List Symbol → Prop where
  | printText (blank : Nat) : Statement (mark .printWord :: mark .quoted :: endings blank)
  | print (blank : Nat) {expression : List Kind} :
      Expression expression →
        Statement (mark .printWord :: expression.map operand ++ endings blank)
  | branch (blank blank' : Nat) {guard : List Kind} {body : List Symbol} :
      Comparison guard → Statements body →
        Statement (mark .ifWord :: guard.map operand ++ mark .thenWord :: endings blank ++
          body ++ mark .endifWord :: endings blank')
  | loop (blank blank' : Nat) {guard : List Kind} {body : List Symbol} :
      Comparison guard → Statements body →
        Statement (mark .whileWord :: guard.map operand ++ mark .repeatWord :: endings blank ++
          body ++ mark .endwhileWord :: endings blank')
  | label (blank : Nat) : Statement (mark .labelWord :: name .label :: endings blank)
  | goto (blank : Nat) : Statement (mark .gotoWord :: name .jump :: endings blank)
  | assign (blank : Nat) {expression : List Kind} :
      Expression expression →
        Statement (mark .letWord :: name .target :: mark .assign :: expression.map operand ++
          endings blank)
  | input (blank : Nat) : Statement (mark .inputWord :: name .target :: endings blank)

/-- Any number of statements, one after the other. -/
inductive Statements : List Symbol → Prop where
  | nil : Statements []
  | cons {first others : List Symbol} :
      Statement first → Statements others → Statements (first ++ others)

end

/-- The statement of a block has the block's own keywords. -/
theorem Statement.block (block : Block) (blank blank' : Nat) {guard : List Kind}
    {body : List Symbol} (compared : Comparison guard) (lines : Statements body) :
    Statement (mark block.opener :: guard.map operand ++ mark block.lead :: endings blank ++
      body ++ mark block.closer :: endings blank') := by
  cases block with
  | branch => exact .branch blank blank' compared lines
  | loop => exact .loop blank blank' compared lines

/-- A whole program, the end of the text included. -/
inductive Program : List Symbol → Prop where
  | program (blank : Nat) {statements : List Symbol} :
      Statements statements →
        Program (List.replicate blank (mark .newline) ++ statements ++ [mark .eof])

end Derivation

/-- In a derivation of a program of these kinds, the identifier at an index has a role. -/
def Derives (kinds : List Kind) (index : Nat) (role : Role) : Prop :=
  ∃ symbols symbol, Derivation.Program symbols ∧ symbols.map Symbol.kind = kinds ∧
    symbols[index]? = some symbol ∧ symbol.role? = some role

/-- In a derivation of some program that starts with these kinds up to an index, the identifier at
the index has a role. -/
def MayDerive (kinds : List Kind) (index : Nat) (role : Role) : Prop :=
  ∃ rest, Derives (kinds.take (index + 1) ++ rest) index role

/-- Whether kinds are the front of a program. -/
def Viable (kinds : List Kind) : Prop :=
  ∃ rest, Program (kinds ++ rest)

/-! ## Forgetting and finding roles -/

@[simp] theorem mark_kind (kind : Kind) : (mark kind).kind = kind := rfl

@[simp] theorem name_kind (role : Role) : (name role).kind = .ident := rfl

@[simp] theorem kind_comp_operand : Symbol.kind ∘ operand = id := rfl

@[simp] theorem map_kind_endings (blank : Nat) :
    (endings blank).map Symbol.kind = lineEnds blank := by
  rw [endings, List.map_map]
  exact List.map_id _

mutual

theorem statement_of_derivation : ∀ {symbols : List Symbol}, Derivation.Statement symbols →
    Statement (symbols.map Symbol.kind)
  | _, .printText blank => by simpa using Statement.printText blank
  | _, .print blank expression => by simpa using Statement.print blank expression
  | _, .branch blank blank' guard body => by
      simpa using Statement.branch blank blank' guard (statements_of_derivation body)
  | _, .loop blank blank' guard body => by
      simpa using Statement.loop blank blank' guard (statements_of_derivation body)
  | _, .label blank => by simpa using Statement.label blank
  | _, .goto blank => by simpa using Statement.goto blank
  | _, .assign blank expression => by simpa using Statement.assign blank expression
  | _, .input blank => by simpa using Statement.input blank

theorem statements_of_derivation : ∀ {symbols : List Symbol}, Derivation.Statements symbols →
    Statements (symbols.map Symbol.kind)
  | _, .nil => .nil
  | _, .cons first others => by
      rw [List.map_append]
      exact .cons (statement_of_derivation first) (statements_of_derivation others)

end

mutual

theorem exists_derivation_of_statement : ∀ {kinds : List Kind}, Statement kinds →
    ∃ symbols, Derivation.Statement symbols ∧ symbols.map Symbol.kind = kinds
  | _, .printText blank => ⟨_, .printText blank, by simp⟩
  | _, .print blank expression => ⟨_, .print blank expression, by simp⟩
  | _, .branch blank blank' guard body => by
      obtain ⟨symbols, derived, rfl⟩ := exists_derivation_of_statements body
      exact ⟨_, .branch blank blank' guard derived, by simp⟩
  | _, .loop blank blank' guard body => by
      obtain ⟨symbols, derived, rfl⟩ := exists_derivation_of_statements body
      exact ⟨_, .loop blank blank' guard derived, by simp⟩
  | _, .label blank => ⟨_, .label blank, by simp⟩
  | _, .goto blank => ⟨_, .goto blank, by simp⟩
  | _, .assign blank expression => ⟨_, .assign blank expression, by simp⟩
  | _, .input blank => ⟨_, .input blank, by simp⟩

theorem exists_derivation_of_statements : ∀ {kinds : List Kind}, Statements kinds →
    ∃ symbols, Derivation.Statements symbols ∧ symbols.map Symbol.kind = kinds
  | _, .nil => ⟨[], .nil, rfl⟩
  | _, .cons first others => by
      obtain ⟨symbols, derived, rfl⟩ := exists_derivation_of_statement first
      obtain ⟨symbols', derived', rfl⟩ := exists_derivation_of_statements others
      exact ⟨_, .cons derived derived', List.map_append⟩

end

/-- The programs of the grammar are the derivations with the roles forgotten. -/
theorem program_iff_exists_derivation {kinds : List Kind} :
    Program kinds ↔ ∃ symbols, Derivation.Program symbols ∧ symbols.map Symbol.kind = kinds := by
  constructor
  · rintro ⟨blank, statements⟩
    obtain ⟨symbols, derived, rfl⟩ := exists_derivation_of_statements statements
    refine ⟨_, .program blank derived, ?_⟩
    simp
  · rintro ⟨symbols, ⟨blank, derived⟩, rfl⟩
    have program := Program.program blank (statements_of_derivation derived)
    simpa using program

theorem MayDerive.viable {kinds : List Kind} {index : Nat} {role : Role}
    (derives : MayDerive kinds index role) : Viable (kinds.take (index + 1)) := by
  obtain ⟨rest, symbols, symbol, program, same, -⟩ := derives
  exact ⟨rest, program_iff_exists_derivation.mpr ⟨symbols, program, same⟩⟩

theorem Derives.mayDerive {kinds : List Kind} {index : Nat} {role : Role}
    (derives : Derives kinds index role) : MayDerive kinds index role :=
  ⟨kinds.drop (index + 1), by rwa [List.take_append_drop]⟩

end TeenyTiny.Grammar
