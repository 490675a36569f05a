import TeenyTiny.Kind

/-!
# Blocks

Two statements enclose others. Each has three keywords: one opens it, one leads from its guard to
its lines, and one closes it.
-/

set_option autoImplicit false

namespace TeenyTiny

/-- The two statements that enclose others. -/
inductive Block where
  | branch
  | loop
  deriving DecidableEq

namespace Block

/-- The keyword that opens a block. -/
def opener : Block → Kind
  | branch => .ifWord
  | loop => .whileWord

/-- The keyword between the guard of a block and its lines. -/
def lead : Block → Kind
  | branch => .thenWord
  | loop => .repeatWord

/-- The keyword that closes a block. -/
def closer : Block → Kind
  | branch => .endifWord
  | loop => .endwhileWord

/-- How a block starts in C, up to its guard. -/
def opening : Block → String
  | branch => "if("
  | loop => "while("

end Block

end TeenyTiny
