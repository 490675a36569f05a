import TeenyTiny.Grammar
import TeenyTiny.Proofs.Shape
import TeenyTiny.Tree.Listing

/-!
# Every program has a tree

Lexemes that can be written and whose kinds are a program are, blank lines apart, the listing of a
tree (`Grammar.Program.exists_tree`). The kinds decide the shape of the tree, and the shape of the
lexemes fixes the spelling of everything that is not a name, a number or a string.
-/

set_option autoImplicit false

namespace TeenyTiny

open Lexeme

/-! ## Lexemes of given kinds -/

/-- Lexemes that can be written, of the given kinds. -/
structure Spells (lexemes : List Lexeme) (kinds : List Kind) : Prop where
  shaped : ∀ lexeme ∈ lexemes, Shaped lexeme
  same : lexemes.map Prod.fst = kinds

namespace Spells

variable {lexemes : List Lexeme} {kind : Kind} {kinds kinds' : List Kind}

theorem eq_nil (spells : Spells lexemes []) : lexemes = [] :=
  List.map_eq_nil_iff.mp spells.same

theorem split_append (spells : Spells lexemes (kinds ++ kinds')) :
    ∃ first second, lexemes = first ++ second ∧ Spells first kinds ∧ Spells second kinds' := by
  obtain ⟨first, second, rfl, same, same'⟩ := List.map_eq_append_iff.mp spells.same
  obtain ⟨shaped, shaped'⟩ := List.forall_mem_append.mp spells.shaped
  exact ⟨first, second, rfl, ⟨shaped, same⟩, ⟨shaped', same'⟩⟩

theorem split_cons (spells : Spells lexemes (kind :: kinds)) :
    ∃ text others, lexemes = (kind, text) :: others ∧ Shaped (kind, text) ∧
      Spells others kinds := by
  obtain ⟨⟨_, text⟩, others, rfl, rfl, same⟩ := List.map_eq_cons_iff.mp spells.same
  obtain ⟨shaped, shaped'⟩ := List.forall_mem_cons.mp spells.shaped
  exact ⟨text, others, rfl, shaped, ⟨shaped', same⟩⟩

/-- A lexeme of a kind with one spelling comes first. -/
theorem split_fixed {text : String} (spells : Spells lexemes (kind :: kinds))
    (spelling : kind.spelling? = some text) :
    ∃ others, lexemes = (kind, text) :: others ∧ Spells others kinds := by
  obtain ⟨written, others, rfl, shaped, later⟩ := spells.split_cons
  exact ⟨others, by rw [shaped.text_eq spelling], later⟩

end Spells

namespace Tree

/-! ## Signs -/

theorem exists_sign {kind : Kind} {text : String} (shaped : Shaped (kind, text))
    (sign : Grammar.adds kind = true) : ∃ sign : Sign, sign.lexeme = (kind, text) := by
  cases kind <;> simp [Grammar.adds] at sign
  · exact ⟨.plus, by rw [shaped.text_eq rfl]; rfl⟩
  · exact ⟨.minus, by rw [shaped.text_eq rfl]; rfl⟩

theorem exists_factorSign {kind : Kind} {text : String} (shaped : Shaped (kind, text))
    (sign : Grammar.multiplies kind = true) : ∃ sign : FactorSign, sign.lexeme = (kind, text) := by
  cases kind <;> simp [Grammar.multiplies] at sign
  · exact ⟨.times, by rw [shaped.text_eq rfl]; rfl⟩
  · exact ⟨.divide, by rw [shaped.text_eq rfl]; rfl⟩

theorem exists_comparisonSign {kind : Kind} {text : String} (shaped : Shaped (kind, text))
    (sign : Grammar.compares kind = true) :
    ∃ sign : ComparisonSign, sign.lexeme = (kind, text) := by
  cases kind <;> simp [Grammar.compares] at sign
  · exact ⟨.equal, by rw [shaped.text_eq rfl]; rfl⟩
  · exact ⟨.unequal, by rw [shaped.text_eq rfl]; rfl⟩
  · exact ⟨.less, by rw [shaped.text_eq rfl]; rfl⟩
  · exact ⟨.atMost, by rw [shaped.text_eq rfl]; rfl⟩
  · exact ⟨.greater, by rw [shaped.text_eq rfl]; rfl⟩
  · exact ⟨.atLeast, by rw [shaped.text_eq rfl]; rfl⟩

/-! ## Expressions -/

variable {lexemes : List Lexeme} {kinds : List Kind}

theorem exists_primary (primary : Grammar.Primary kinds) (spells : Spells lexemes kinds) :
    ∃ primary : Primary, [primary.lexeme] = lexemes := by
  cases primary with
  | number =>
      obtain ⟨text, others, rfl, -, rest⟩ := spells.split_cons
      exact ⟨.number text, by rw [rest.eq_nil]; rfl⟩
  | ident =>
      obtain ⟨name, others, rfl, -, rest⟩ := spells.split_cons
      exact ⟨.ident name, by rw [rest.eq_nil]; rfl⟩

theorem exists_unary (unary : Grammar.Unary kinds) (spells : Spells lexemes kinds) :
    ∃ unary : Unary, unary.lexemes = lexemes := by
  cases unary with
  | plain primary =>
      obtain ⟨primary, rfl⟩ := exists_primary primary spells
      exact ⟨⟨none, primary⟩, rfl⟩
  | signed signs primary =>
      obtain ⟨text, others, rfl, shaped, rest⟩ := spells.split_cons
      obtain ⟨sign, same⟩ := exists_sign shaped signs
      obtain ⟨primary, rfl⟩ := exists_primary primary rest
      exact ⟨⟨some sign, primary⟩, by rw [← same]; rfl⟩

/-- A chain of parts and signs that have trees has one. -/
theorem exists_chain {Sign Part : Type} {part : List Kind → Prop} {separates : Kind → Bool}
    {sign : Sign → Lexeme} {listing : Part → List Lexeme}
    (signs : ∀ {kind : Kind} {text : String}, Shaped (kind, text) → separates kind = true →
      ∃ between, sign between = (kind, text))
    (parts : ∀ {lexemes : List Lexeme} {kinds : List Kind}, part kinds → Spells lexemes kinds →
      ∃ tree, listing tree = lexemes)
    (chain : Grammar.Chain part separates kinds) (spells : Spells lexemes kinds) :
    ∃ chain : Chain Sign Part, chain.lexemes sign listing = lexemes := by
  induction chain generalizing lexemes with
  | single single =>
      obtain ⟨first, rfl⟩ := parts single spells
      exact ⟨⟨first, []⟩, by simp [Chain.lexemes]⟩
  | joined _ separator last ih =>
      obtain ⟨before, after, rfl, front, back⟩ := spells.split_append
      obtain ⟨text, after, rfl, shaped, back⟩ := back.split_cons
      obtain ⟨between, same⟩ := signs shaped separator
      obtain ⟨tree, rfl⟩ := parts last back
      obtain ⟨⟨first, others⟩, rfl⟩ := ih front
      exact ⟨⟨first, others ++ [(between, tree)]⟩, by simp [Chain.lexemes, same]⟩

theorem exists_expression (expression : Grammar.Expression kinds) (spells : Spells lexemes kinds) :
    ∃ expression : Expression, expression.lexemes = lexemes :=
  exists_chain exists_sign (exists_chain exists_factorSign exists_unary) expression spells

theorem exists_comparison (comparison : Grammar.Comparison kinds) (spells : Spells lexemes kinds) :
    ∃ comparison : Comparison, comparison.lexemes = lexemes := by
  obtain ⟨sides, compares, side⟩ := comparison
  obtain ⟨before, after, rfl, front, back⟩ := spells.split_append
  obtain ⟨text, after, rfl, shaped, back⟩ := back.split_cons
  obtain ⟨sign, same⟩ := exists_comparisonSign shaped compares
  obtain ⟨side, rfl⟩ := exists_expression side back
  obtain ⟨⟨first, others⟩, rfl⟩ := exists_chain exists_comparisonSign exists_expression sides front
  -- the first sign of a guard stands apart from the others
  rcases others with _ | ⟨⟨between, second⟩, others⟩
  · exact ⟨⟨first, sign, ⟨side, []⟩⟩, by simp [Comparison.lexemes, Chain.lexemes, same]⟩
  · exact ⟨⟨first, between, ⟨second, others ++ [(sign, side)]⟩⟩,
      by simp [Comparison.lexemes, Chain.lexemes, same]⟩

/-! ## Lines -/

/-- Lexemes without the end of a line. -/
def Plain (lexemes : List Lexeme) : Prop :=
  ∀ lexeme ∈ lexemes, lexeme.1 ≠ .newline

theorem Chain.plain {Sign Part : Type} {sign : Sign → Lexeme} {listing : Part → List Lexeme}
    (signs : ∀ between, (sign between).1 ≠ .newline) (parts : ∀ part, Plain (listing part))
    (chain : Chain Sign Part) : Plain (chain.lexemes sign listing) := by
  intro lexeme member
  rcases List.mem_append.mp member with here | later
  · exact parts chain.first lexeme here
  · obtain ⟨other, -, here⟩ := List.mem_flatMap.mp later
    rcases List.mem_cons.mp here with rfl | inside
    · exact signs other.1
    · exact parts other.2 lexeme inside

theorem Unary.plain (unary : Unary) : Plain unary.lexemes := by
  rcases unary with ⟨_ | _ | _, _ | _⟩ <;> simp [Plain, Unary.lexemes, Primary.lexeme, Sign.lexeme]

theorem Expression.plain (expression : Expression) : Plain expression.lexemes :=
  Chain.plain (fun sign => by cases sign <;> simp [Sign.lexeme])
    (Chain.plain (fun sign => by cases sign <;> simp [FactorSign.lexeme]) Unary.plain) expression

theorem Comparison.plain (comparison : Comparison) : Plain comparison.lexemes := by
  have signs (sign : ComparisonSign) : sign.lexeme.1 ≠ .newline := by
    cases sign <;> simp [ComparisonSign.lexeme]
  refine List.forall_mem_append.mpr ⟨comparison.first.plain, List.forall_mem_cons.mpr ⟨?_, ?_⟩⟩
  · exact signs comparison.sign
  · exact Chain.plain signs Expression.plain comparison.others

/-- Within a line nothing is dropped. -/
theorem dropBlankLines_plain {inline : List Lexeme} (plain : Plain inline) (rest : List Lexeme) :
    dropBlankLines false (inline ++ rest) = inline ++ dropBlankLines false rest := by
  induction inline with
  | nil => rfl
  | cons lexeme inline ih =>
      obtain ⟨text, plain⟩ := List.forall_mem_cons.mp plain
      rw [List.cons_append, dropBlankLines, if_neg text, ih plain]
      rfl

/-- Blank lines are dropped. -/
theorem dropBlankLines_blank {blank : Nat} (spells : Spells lexemes (List.replicate blank .newline))
    (rest : List Lexeme) :
    dropBlankLines true (lexemes ++ rest) = dropBlankLines true rest := by
  induction blank generalizing lexemes with
  | zero => rw [spells.eq_nil, List.nil_append]
  | succ blank ih =>
      obtain ⟨text, others, rfl, -, later⟩ := spells.split_cons
      rw [List.cons_append, dropBlankLines, if_pos rfl, if_pos rfl]
      exact ih later

/-- What ends a line is dropped but for one end of line. -/
theorem dropBlankLines_lineEnds {blank : Nat} (spells : Spells lexemes (Grammar.lineEnds blank))
    (rest : List Lexeme) :
    dropBlankLines false (lexemes ++ rest) = newline :: dropBlankLines true rest := by
  obtain ⟨others, rfl, later⟩ := spells.split_fixed rfl
  rw [List.cons_append, dropBlankLines, if_pos rfl, dropBlankLines_blank later]
  rfl

/-- A line, from its first lexeme to its end. -/
theorem dropBlankLines_line (first : Lexeme) {inline ends : List Lexeme} {blank : Nat}
    (text : first.1 ≠ .newline) (plain : Plain inline)
    (spells : Spells ends (Grammar.lineEnds blank)) (rest : List Lexeme) :
    dropBlankLines true (first :: inline ++ ends ++ rest) =
      first :: inline ++ newline :: dropBlankLines true rest := by
  rw [List.append_assoc, List.cons_append, dropBlankLines, if_neg text, dropBlankLines_plain plain,
    dropBlankLines_lineEnds spells]
  rfl

/-- A line of a keyword and one lexeme after it. -/
theorem exists_shortLine {word kind : Kind} {blank : Nat}
    (spelled : word.spelling? = some word.name) (first : word ≠ .newline)
    (second : kind ≠ .newline)
    (spells : Spells lexemes ([word, kind] ++ Grammar.lineEnds blank)) :
    ∃ text, ∀ rest, dropBlankLines true (lexemes ++ rest) =
      [keyword word, (kind, text), newline] ++ dropBlankLines true rest := by
  obtain ⟨others, rfl, later⟩ := spells.split_fixed spelled
  obtain ⟨text, ends, rfl, -, final⟩ := later.split_cons
  refine ⟨text, fun rest => ?_⟩
  exact dropBlankLines_line (keyword word) first (List.forall_mem_singleton.mpr second) final rest

/-! ## Statements -/

/-- A block has a tree if its lines have one. -/
theorem exists_block (block : Block) {blank blank' : Nat} {guard body : List Kind}
    (compared : Grammar.Comparison guard)
    (inner : ∀ {lexemes : List Lexeme}, Spells lexemes body → ∃ tree : Statements, ∀ rest,
      dropBlankLines true (lexemes ++ rest) = tree.lexemes ++ dropBlankLines true rest)
    (spells : Spells lexemes (block.opener :: guard ++ block.lead :: Grammar.lineEnds blank ++
      body ++ block.closer :: Grammar.lineEnds blank')) :
    ∃ tree : Statement, ∀ rest,
      dropBlankLines true (lexemes ++ rest) = tree.lexemes ++ dropBlankLines true rest := by
  have spelled : block.opener.spelling? = some block.opener.name ∧
      block.lead.spelling? = some block.lead.name ∧
      block.closer.spelling? = some block.closer.name := by
    cases block <;> exact ⟨rfl, rfl, rfl⟩
  have inside : block.opener ≠ .newline ∧ block.lead ≠ .newline ∧ block.closer ≠ .newline := by
    cases block <;> decide
  obtain ⟨front, close, rfl, front', close'⟩ := spells.split_append
  obtain ⟨front, lines, rfl, front', lines'⟩ := front'.split_append
  obtain ⟨front, lead, rfl, front', lead'⟩ := front'.split_append
  obtain ⟨_, rfl, guard'⟩ := front'.split_fixed spelled.1
  obtain ⟨blanks, rfl, ends⟩ := lead'.split_fixed spelled.2.1
  obtain ⟨blanks', rfl, ends'⟩ := close'.split_fixed spelled.2.2
  obtain ⟨guard, rfl⟩ := exists_comparison compared guard'
  obtain ⟨body, inner⟩ := inner lines'
  have plain : Plain (guard.lexemes ++ [keyword block.lead]) :=
    List.forall_mem_append.mpr ⟨guard.plain, List.forall_mem_singleton.mpr inside.2.1⟩
  have none : Plain [] := by simp [Plain]
  refine ⟨.block block guard body, fun rest => ?_⟩
  have last := dropBlankLines_line (keyword block.closer) inside.2.2 none ends' rest
  have first := dropBlankLines_line (keyword block.opener) inside.1 plain ends
    (lines ++ ([keyword block.closer] ++ blanks' ++ rest))
  rw [inner, last] at first
  simpa [keyword] using first

mutual

/-- A statement has a tree. -/
theorem exists_statement {lexemes : List Lexeme} {kinds : List Kind} :
    Grammar.Statement kinds → Spells lexemes kinds → ∃ tree : Statement, ∀ rest,
      dropBlankLines true (lexemes ++ rest) = tree.lexemes ++ dropBlankLines true rest
  | .printText blank, spells => by
      obtain ⟨text, line⟩ := exists_shortLine rfl (by decide) (by decide) spells
      exact ⟨.printText text, line⟩
  | .print blank expression, spells => by
      obtain ⟨front, ends, rfl, front', final⟩ := spells.split_append
      obtain ⟨_, rfl, item⟩ := front'.split_fixed rfl
      obtain ⟨expression, rfl⟩ := exists_expression expression item
      refine ⟨.print expression, fun rest => ?_⟩
      rw [dropBlankLines_line _ (by decide) expression.plain final, Statement.lexemes]
      simp [keyword]
  | .branch _ _ guard body, spells =>
      exists_block .branch guard (fun spells => exists_statements body spells) spells
  | .loop _ _ guard body, spells =>
      exists_block .loop guard (fun spells => exists_statements body spells) spells
  | .label blank, spells => by
      obtain ⟨name, line⟩ := exists_shortLine rfl (by decide) (by decide) spells
      exact ⟨.label name, line⟩
  | .goto blank, spells => by
      obtain ⟨name, line⟩ := exists_shortLine rfl (by decide) (by decide) spells
      exact ⟨.goto name, line⟩
  | .assign blank expression, spells => by
      obtain ⟨front, ends, rfl, front', final⟩ := spells.split_append
      obtain ⟨_, rfl, named⟩ := front'.split_fixed rfl
      obtain ⟨name, _, rfl, -, signed⟩ := named.split_cons
      obtain ⟨_, rfl, right⟩ := signed.split_fixed rfl
      obtain ⟨expression, rfl⟩ := exists_expression expression right
      have plain : Plain ((.ident, name) :: (.assign, "=") :: expression.lexemes) := by
        simpa [Plain] using expression.plain
      refine ⟨.assign name expression, fun rest => ?_⟩
      rw [dropBlankLines_line _ (by decide) plain final, Statement.lexemes]
      simp [keyword]
  | .input blank, spells => by
      obtain ⟨name, line⟩ := exists_shortLine rfl (by decide) (by decide) spells
      exact ⟨.input name, line⟩

/-- Statements have a tree. -/
theorem exists_statements {lexemes : List Lexeme} {kinds : List Kind} :
    Grammar.Statements kinds → Spells lexemes kinds → ∃ tree : Statements, ∀ rest,
      dropBlankLines true (lexemes ++ rest) = tree.lexemes ++ dropBlankLines true rest
  | .nil, spells => ⟨.nil, fun rest => by rw [spells.eq_nil]; rfl⟩
  | .cons first others, spells => by
      obtain ⟨front, back, rfl, front', back'⟩ := spells.split_append
      obtain ⟨first, here⟩ := exists_statement first front'
      obtain ⟨others, there⟩ := exists_statements others back'
      refine ⟨.cons first others, fun rest => ?_⟩
      rw [List.append_assoc, here, there, ← List.append_assoc]
      rfl

end

end Tree

/-- A program has a tree. -/
theorem Grammar.Program.exists_tree {body : List Lexeme} {last : Lexeme}
    (program : Grammar.Program ((body ++ [last]).map Prod.fst))
    (shaped : ∀ lexeme ∈ body, Shaped lexeme) :
    ∃ tree : Tree.Statements, Tree.withoutBlankLines body = tree.lexemes := by
  generalize whole : (body ++ [last]).map Prod.fst = kinds at program
  obtain ⟨blank, statements⟩ := program
  rw [List.map_append] at whole
  obtain ⟨same, -⟩ := List.append_inj' whole rfl
  have spells : Spells body _ := ⟨shaped, same⟩
  obtain ⟨blanks, rest, rfl, blanks', rest'⟩ := spells.split_append
  obtain ⟨tree, listed⟩ := Tree.exists_statements statements rest'
  refine ⟨tree, ?_⟩
  have lines := listed []
  rw [List.append_nil] at lines
  rw [Tree.withoutBlankLines, Tree.dropBlankLines_blank blanks', lines]
  simp [Tree.dropBlankLines]

end TeenyTiny
