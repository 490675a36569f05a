import TeenyTiny.Place
import TeenyTiny.Proofs.Naming

/-!
# What may follow a place

For every place of a program and every list of open blocks, `Place.Remainder` is the language of
what may still come: the derivations with the front removed that led there. It is said by the
rules of the grammar and not by the moves.

Each of these languages is then told apart by its first symbol (`closing_cons_iff`,
`operands_cons_iff`, `moreOperands_cons_iff` and the like): what that symbol may be, and which of
the languages the rest is in.
-/

set_option autoImplicit false

namespace TeenyTiny

namespace Grammar

/-! ## After whole lines -/

/-- What is left of a program after whole lines, with blocks open around the place, the innermost
first. -/
inductive Closing : List Block → List Symbol → Prop where
  | eof : Closing [] [mark .eof]
  | closer (block : Block) (blank : Nat) {blocks : List Block} {rest : List Symbol} :
      Closing blocks rest → Closing (block :: blocks) (mark block.closer :: endings blank ++ rest)
  | statement {blocks : List Block} {first rest : List Symbol} :
      Derivation.Statement first → Closing blocks rest → Closing blocks (first ++ rest)

/-- Blank lines, and then what is left after whole lines. -/
def Lines (blocks : List Block) (symbols : List Symbol) : Prop :=
  ∃ blank rest, Closing blocks rest ∧ symbols = List.replicate blank (mark .newline) ++ rest

/-- The end of a line, and then what is left after whole lines. -/
def LineEnd (blocks : List Block) (symbols : List Symbol) : Prop :=
  ∃ rest, Lines blocks rest ∧ symbols = mark .newline :: rest

theorem endings_eq (blank : Nat) :
    endings blank = mark .newline :: List.replicate blank (mark .newline) := by
  simp [endings, lineEnds, List.replicate_succ]

theorem lineEnd_endings {blocks : List Block} (blank : Nat) {rest : List Symbol}
    (closing : Closing blocks rest) : LineEnd blocks (endings blank ++ rest) :=
  ⟨_, ⟨blank, rest, closing, rfl⟩, by rw [endings_eq, List.cons_append]⟩

theorem exists_endings_of_lineEnd {blocks : List Block} {symbols : List Symbol}
    (lineEnd : LineEnd blocks symbols) :
    ∃ blank rest, Closing blocks rest ∧ symbols = endings blank ++ rest := by
  obtain ⟨_, ⟨blank, rest, closing, rfl⟩, rfl⟩ := lineEnd
  exact ⟨blank, rest, closing, by rw [endings_eq, List.cons_append]⟩

/-- Statements may come before what is left after whole lines. -/
theorem Closing.statements {blocks : List Block} {rest : List Symbol} :
    ∀ {body : List Symbol}, Derivation.Statements body → Closing blocks rest →
      Closing blocks (body ++ rest)
  | _, .nil, closing => closing
  | _, .cons first others, closing => by
      rw [List.append_assoc]
      exact .statement first (closing.statements others)

/-- What is left inside a block: statements, the end of the block, and what is left outside. -/
theorem closing_block_iff {block : Block} {blocks : List Block} {symbols : List Symbol} :
    Closing (block :: blocks) symbols ↔
      ∃ body blank rest, Derivation.Statements body ∧ Closing blocks rest ∧
        symbols = body ++ (mark block.closer :: endings blank ++ rest) := by
  constructor
  · intro closing
    generalize opened : block :: blocks = inner at closing
    induction closing with
    | eof => cases opened
    | closer _ blank closing _ =>
        cases opened
        exact ⟨[], blank, _, .nil, closing, rfl⟩
    | statement first _ ih =>
        obtain ⟨body, blank, rest, statements, closing, rfl⟩ := ih opened
        exact ⟨_, blank, rest, .cons first statements, closing, (List.append_assoc ..).symm⟩
  · rintro ⟨body, blank, rest, statements, closing, rfl⟩
    exact (Closing.closer block blank closing).statements statements

/-- What is left outside every block: statements, and the end of the text. -/
theorem closing_nil_iff {symbols : List Symbol} :
    Closing [] symbols ↔ ∃ body, Derivation.Statements body ∧ symbols = body ++ [mark .eof] := by
  constructor
  · intro closing
    generalize outermost : [] = outer at closing
    induction closing with
    | eof => exact ⟨[], .nil, rfl⟩
    | closer _ _ _ _ => cases outermost
    | statement first _ ih =>
        obtain ⟨body, statements, rfl⟩ := ih outermost
        exact ⟨_, .cons first statements, (List.append_assoc ..).symm⟩
  · rintro ⟨body, statements, rfl⟩
    exact Closing.eof.statements statements

/-- A derivation of a program is what may stand at the start of a text. -/
theorem program_iff_lines {symbols : List Symbol} :
    Derivation.Program symbols ↔ Lines [] symbols := by
  constructor
  · rintro ⟨blank, statements⟩
    exact ⟨blank, _, closing_nil_iff.mpr ⟨_, statements, rfl⟩, List.append_assoc ..⟩
  · rintro ⟨blank, rest, closing, rfl⟩
    obtain ⟨body, statements, rfl⟩ := closing_nil_iff.mp closing
    rw [← List.append_assoc]
    exact .program blank statements

/-! ## After an expression -/

theorem operand_of_ne {kind : Kind} (plain : kind ≠ .ident) : operand kind = mark kind := by
  simp [operand, mark, plain]

theorem ne_ident_of_isOperator {kind : Kind} (joins : isOperator kind = true) :
    kind ≠ .ident := by
  rintro rfl
  cases joins

theorem ne_ident_of_compares {kind : Kind} (sign : compares kind = true) : kind ≠ .ident := by
  rintro rfl
  cases sign

/-- The keyword that ends the guard of a block, and then the lines of the block. -/
def Lead (block : Block) (blocks : List Block) (symbols : List Symbol) : Prop :=
  ∃ rest, LineEnd (block :: blocks) rest ∧ symbols = mark block.lead :: rest

/-- What may follow a later side of a guard: more sides, and then the lines of the block. -/
def MoreSides (block : Block) (blocks : List Block) (symbols : List Symbol) : Prop :=
  ∃ tail rest, Tail Expression compares tail ∧ Lead block blocks rest ∧
    symbols = tail.map operand ++ rest

/-- What may follow an expression that does not go on, by what it is for. -/
def After (blocks : List Block) (symbols : List Symbol) : Purpose → Prop
  | .printed | .assigned => LineEnd blocks symbols
  | .guard block =>
      ∃ sign side rest, compares sign = true ∧ Expression side ∧
        MoreSides block blocks rest ∧ symbols = mark sign :: side.map operand ++ rest
  | .compared block => MoreSides block blocks symbols

/-- An expression, and what may follow it. -/
def Operands (purpose : Purpose) (blocks : List Block) (symbols : List Symbol) : Prop :=
  ∃ expression rest, Expression expression ∧ After blocks rest purpose ∧
    symbols = expression.map operand ++ rest

/-- What may follow an operand: more of the expression, and what follows it. -/
def MoreOperands (purpose : Purpose) (blocks : List Block) (symbols : List Symbol) : Prop :=
  ∃ tail rest, Tail Unary isOperator tail ∧ After blocks rest purpose ∧
    symbols = tail.map operand ++ rest

/-- The sign of an assignment, and then its expression. -/
def Assigned (blocks : List Block) (symbols : List Symbol) : Prop :=
  ∃ rest, Operands .assigned blocks rest ∧ symbols = mark .assign :: rest

end Grammar

open Grammar

/-- What may come at a place with blocks open around it, the innermost first. -/
def Place.Remainder (blocks : List Block) (symbols : List Symbol) : Place → Prop
  | .line => Lines blocks symbols
  | .printItem =>
      (∃ rest, LineEnd blocks rest ∧ symbols = mark .quoted :: rest) ∨
        Operands .printed blocks symbols
  | .operand purpose => Operands purpose blocks symbols
  | .primary purpose =>
      ∃ kinds rest, Primary kinds ∧ MoreOperands purpose blocks rest ∧
        symbols = kinds.map Grammar.operand ++ rest
  | .operator purpose => MoreOperands purpose blocks symbols
  | .labelName => ∃ rest, LineEnd blocks rest ∧ symbols = name .label :: rest
  | .gotoName => ∃ rest, LineEnd blocks rest ∧ symbols = name .jump :: rest
  | .letName => ∃ rest, Assigned blocks rest ∧ symbols = name .target :: rest
  | .letSign _ => Assigned blocks symbols
  | .inputName => ∃ rest, LineEnd blocks rest ∧ symbols = name .target :: rest
  | .lineEnd => LineEnd blocks symbols
  | .leadEnd block => LineEnd (block :: blocks) symbols
  | .bodyStart block => Lines (block :: blocks) symbols

namespace Grammar

/-! ## Statements by their keyword -/

/-- The place after the keyword that opens a statement. -/
def opened? : Kind → Option Place
  | .printWord => some .printItem
  | .ifWord => some (.operand (.guard .branch))
  | .whileWord => some (.operand (.guard .loop))
  | .labelWord => some .labelName
  | .gotoWord => some .gotoName
  | .letWord => some .letName
  | .inputWord => some .inputName
  | _ => none

theorem opened_opener (block : Block) : opened? block.opener = some (.operand (.guard block)) := by
  cases block <;> rfl

/-- After the keyword that opens a block come its guard and its lines. -/
theorem operands_of_block (block : Block) (blank blank' : Nat) {blocks : List Block}
    {guard : List Kind} {body rest : List Symbol} (compared : Comparison guard)
    (lines : Derivation.Statements body) (closing : Closing blocks rest) :
    Operands (.guard block) blocks (guard.map operand ++ mark block.lead :: endings blank ++ body ++
      mark block.closer :: endings blank' ++ rest) := by
  obtain ⟨side, sign, side', tail, start, compares, second, more, rfl⟩ :=
    comparison_iff_tail.mp compared
  have inside := (Closing.closer block blank' closing).statements lines
  refine ⟨side, _, start, ⟨sign, side', _, compares, second,
    ⟨tail, _, more, ⟨_, lineEnd_endings blank inside, rfl⟩, rfl⟩, rfl⟩, ?_⟩
  simp [operand_of_ne (ne_ident_of_compares compares)]

/-- The front of a statement is its keyword, and what follows the keyword may stand there. -/
theorem exists_opened_of_statement {blocks : List Block} {first rest : List Symbol}
    (statement : Derivation.Statement first) (closing : Closing blocks rest) :
    ∃ kind place others, first ++ rest = mark kind :: others ∧ opened? kind = some place ∧
      place.Remainder blocks others := by
  cases statement with
  | printText blank =>
      exact ⟨_, _, _, rfl, rfl, .inl ⟨_, lineEnd_endings blank closing, rfl⟩⟩
  | print blank expression =>
      refine ⟨_, _, _, rfl, rfl, .inr ⟨_, _, expression, lineEnd_endings blank closing, ?_⟩⟩
      exact List.append_assoc ..
  | branch blank blank' guard body =>
      exact ⟨_, _, _, rfl, rfl, operands_of_block .branch blank blank' guard body closing⟩
  | loop blank blank' guard body =>
      exact ⟨_, _, _, rfl, rfl, operands_of_block .loop blank blank' guard body closing⟩
  | label blank => exact ⟨_, _, _, rfl, rfl, _, lineEnd_endings blank closing, rfl⟩
  | goto blank => exact ⟨_, _, _, rfl, rfl, _, lineEnd_endings blank closing, rfl⟩
  | assign blank expression =>
      refine ⟨_, _, _, rfl, rfl, _,
        ⟨_, ⟨_, _, expression, lineEnd_endings blank closing, rfl⟩, rfl⟩, ?_⟩
      simp
  | input blank => exact ⟨_, _, _, rfl, rfl, _, lineEnd_endings blank closing, rfl⟩

/-- A keyword that opens a statement, and what may follow it, are left after whole lines. -/
theorem closing_of_opened {blocks : List Block} {kind : Kind} {place : Place}
    {others : List Symbol} (found : opened? kind = some place)
    (remainder : place.Remainder blocks others) : Closing blocks (mark kind :: others) := by
  have block (block : Block) (same : kind = block.opener)
      (operands : Operands (.guard block) blocks others) :
      Closing blocks (mark kind :: others) := by
    subst same
    obtain ⟨side, _, start, ⟨sign, side', _, compares, second,
      ⟨tail, _, more, ⟨_, lineEnd, rfl⟩, rfl⟩, rfl⟩, rfl⟩ := operands
    obtain ⟨blank, _, inside, rfl⟩ := exists_endings_of_lineEnd lineEnd
    obtain ⟨body, blank', rest, statements, closing, rfl⟩ := closing_block_iff.mp inside
    have guard := comparison_iff_tail.mpr
      ⟨side, sign, side', tail, start, compares, second, more, rfl⟩
    simpa [operand_of_ne (ne_ident_of_compares compares)] using
      Closing.statement (.block block blank blank' guard statements) closing
  cases kind with
  | printWord =>
      cases found
      rcases remainder with ⟨_, lineEnd, rfl⟩ | ⟨expression, _, derived, lineEnd, rfl⟩
      · obtain ⟨blank, rest, closing, rfl⟩ := exists_endings_of_lineEnd lineEnd
        exact .statement (.printText blank) closing
      · obtain ⟨blank, rest, closing, rfl⟩ := exists_endings_of_lineEnd lineEnd
        simpa using Closing.statement (.print blank derived) closing
  | ifWord =>
      cases found
      exact block .branch rfl remainder
  | whileWord =>
      cases found
      exact block .loop rfl remainder
  | labelWord =>
      cases found
      obtain ⟨_, lineEnd, rfl⟩ := remainder
      obtain ⟨blank, rest, closing, rfl⟩ := exists_endings_of_lineEnd lineEnd
      exact .statement (.label blank) closing
  | gotoWord =>
      cases found
      obtain ⟨_, lineEnd, rfl⟩ := remainder
      obtain ⟨blank, rest, closing, rfl⟩ := exists_endings_of_lineEnd lineEnd
      exact .statement (.goto blank) closing
  | letWord =>
      cases found
      obtain ⟨_, ⟨_, ⟨expression, _, derived, lineEnd, rfl⟩, rfl⟩, rfl⟩ := remainder
      obtain ⟨blank, rest, closing, rfl⟩ := exists_endings_of_lineEnd lineEnd
      simpa using Closing.statement (.assign blank derived) closing
  | inputWord =>
      cases found
      obtain ⟨_, lineEnd, rfl⟩ := remainder
      obtain ⟨blank, rest, closing, rfl⟩ := exists_endings_of_lineEnd lineEnd
      exact .statement (.input blank) closing
  | _ => cases found

/-- What is left after whole lines: the end of the text outside every block, the end of the
innermost block, or a statement. -/
theorem closing_cons_iff {blocks : List Block} {symbol : Symbol} {others : List Symbol} :
    Closing blocks (symbol :: others) ↔
      (blocks = [] ∧ symbol = mark .eof ∧ others = []) ∨
      (∃ block outer, blocks = block :: outer ∧ symbol = mark block.closer ∧
        LineEnd outer others) ∨
      ∃ kind place, symbol = mark kind ∧ opened? kind = some place ∧
        place.Remainder blocks others := by
  constructor
  · intro closing
    generalize whole : symbol :: others = symbols at closing
    cases closing with
    | eof =>
        cases whole
        exact .inl ⟨rfl, rfl, rfl⟩
    | closer block blank closing =>
        cases whole
        exact .inr (.inl ⟨block, _, rfl, rfl, lineEnd_endings blank closing⟩)
    | statement first closing =>
        obtain ⟨kind, place, rest, same, found, remainder⟩ :=
          exists_opened_of_statement first closing
        rw [same] at whole
        cases whole
        exact .inr (.inr ⟨kind, place, rfl, found, remainder⟩)
  · rintro (⟨rfl, rfl, rfl⟩ | ⟨block, outer, rfl, rfl, lineEnd⟩ |
      ⟨kind, place, rfl, found, remainder⟩)
    · exact .eof
    · obtain ⟨blank, rest, closing, rfl⟩ := exists_endings_of_lineEnd lineEnd
      exact .closer block blank closing
    · exact closing_of_opened found remainder

/-- A blank line may come before what is left after whole lines. -/
theorem lines_cons_iff {blocks : List Block} {symbol : Symbol} {others : List Symbol} :
    Lines blocks (symbol :: others) ↔
      (symbol = mark .newline ∧ Lines blocks others) ∨ Closing blocks (symbol :: others) := by
  constructor
  · rintro ⟨blank, rest, closing, same⟩
    cases blank with
    | zero => exact .inr (same ▸ closing)
    | succ blank =>
        cases same
        exact .inl ⟨rfl, blank, rest, closing, rfl⟩
  · rintro (⟨rfl, blank, rest, closing, rfl⟩ | closing)
    · exact ⟨blank + 1, rest, closing, rfl⟩
    · exact ⟨0, _, closing, rfl⟩

theorem lineEnd_cons_iff {blocks : List Block} {symbol : Symbol} {others : List Symbol} :
    LineEnd blocks (symbol :: others) ↔ symbol = mark .newline ∧ Lines blocks others := by
  constructor
  · rintro ⟨rest, lines, same⟩
    cases same
    exact ⟨rfl, lines⟩
  · rintro ⟨rfl, lines⟩
    exact ⟨_, lines, rfl⟩

/-! ## Expressions symbol by symbol -/

variable {purpose : Purpose} {block : Block} {blocks : List Block} {symbol : Symbol}
  {others : List Symbol}

theorem primary_cons_iff :
    (Place.primary purpose).Remainder blocks (symbol :: others) ↔
      (symbol = mark .number ∨ symbol = name .read) ∧ MoreOperands purpose blocks others := by
  constructor
  · rintro ⟨kinds, rest, primary, more, same⟩
    cases primary with
    | number =>
        cases same
        exact ⟨.inl rfl, more⟩
    | ident =>
        cases same
        exact ⟨.inr rfl, more⟩
  · rintro ⟨rfl | rfl, more⟩
    · exact ⟨_, _, .number, more, rfl⟩
    · exact ⟨_, _, .ident, more, rfl⟩

/-- An operand starts with its sign, or is a primary. -/
theorem operands_cons_iff :
    Operands purpose blocks (symbol :: others) ↔
      (adds symbol.kind = true ∧ symbol = mark symbol.kind ∧
        (Place.primary purpose).Remainder blocks others) ∨
      (Place.primary purpose).Remainder blocks (symbol :: others) := by
  constructor
  · rintro ⟨expression, rest, derived, after, same⟩
    obtain ⟨unary, tail, start, more, rfl⟩ := expression_iff_tail.mp derived
    rw [List.map_append, List.append_assoc] at same
    cases start with
    | plain primary => exact .inr ⟨_, _, primary, ⟨tail, rest, more, after, rfl⟩, same⟩
    | @signed sign kinds signs primary =>
        cases same
        have plain := operand_of_ne (ne_ident_of_isOperator (Bool.or_eq_true_iff.mpr (.inl signs)))
        exact .inl ⟨signs, plain, _, _, primary, ⟨tail, rest, more, after, rfl⟩, rfl⟩
  · rintro (⟨signs, same, kinds, _, primary, ⟨tail, rest, more, after, rfl⟩, rfl⟩ |
      ⟨kinds, _, primary, ⟨tail, rest, more, after, rfl⟩, same⟩)
    · have derived := expression_iff_tail.mpr ⟨_, tail, .signed signs primary, more, rfl⟩
      refine ⟨_, rest, derived, after, ?_⟩
      have plain := operand_of_ne (ne_ident_of_isOperator (Bool.or_eq_true_iff.mpr (.inl signs)))
      simp [plain, ← same]
    · have derived := expression_iff_tail.mpr ⟨_, tail, .plain primary, more, rfl⟩
      refine ⟨_, rest, derived, after, ?_⟩
      rw [same, List.map_append, List.append_assoc]

/-- After an operand comes an operator and another operand, or what follows the expression. -/
theorem moreOperands_cons_iff :
    MoreOperands purpose blocks (symbol :: others) ↔
      (isOperator symbol.kind = true ∧ symbol = mark symbol.kind ∧
        Operands purpose blocks others) ∨
      After blocks (symbol :: others) purpose := by
  constructor
  · rintro ⟨tail, rest, more, after, same⟩
    cases more with
    | nil => exact .inr (same ▸ after)
    | @cons operator unary tail joins start more =>
        rw [List.map_append, List.append_assoc] at same
        cases same
        have derived := expression_iff_tail.mpr ⟨_, tail, start, more, rfl⟩
        refine .inl ⟨joins, operand_of_ne (ne_ident_of_isOperator joins), _, rest, derived,
          after, ?_⟩
        rw [List.map_append, List.append_assoc]
        rfl
  · rintro (⟨joins, same, _, rest, derived, after, rfl⟩ | after)
    · obtain ⟨unary, tail, start, more, rfl⟩ := expression_iff_tail.mp derived
      refine ⟨_, rest, .cons joins start more, after, ?_⟩
      simp [operand_of_ne (ne_ident_of_isOperator joins), ← same]
    · exact ⟨[], _, .nil, after, rfl⟩

/-- After a later side of a guard comes a sign and another side, or the lines of the block. -/
theorem moreSides_cons_iff :
    MoreSides block blocks (symbol :: others) ↔
      (compares symbol.kind = true ∧ symbol = mark symbol.kind ∧
        Operands (.compared block) blocks others) ∨
      (symbol = mark block.lead ∧ LineEnd (block :: blocks) others) := by
  constructor
  · rintro ⟨tail, rest, more, lead, same⟩
    cases more with
    | nil =>
        obtain ⟨_, lineEnd, rfl⟩ := lead
        cases same
        exact .inr ⟨rfl, lineEnd⟩
    | @cons sign side tail compares derived more =>
        rw [List.map_append, List.append_assoc] at same
        cases same
        exact .inl ⟨compares, operand_of_ne (ne_ident_of_compares compares), side, _, derived,
          ⟨tail, rest, more, lead, rfl⟩, rfl⟩
  · rintro (⟨compares, same, side, _, derived, ⟨tail, rest, more, lead, rfl⟩, rfl⟩ |
      ⟨rfl, lineEnd⟩)
    · refine ⟨_, rest, .cons compares derived more, lead, ?_⟩
      simp [operand_of_ne (ne_ident_of_compares compares), ← same]
    · exact ⟨[], _, .nil, ⟨_, lineEnd, rfl⟩, rfl⟩

/-- After the first side of a guard comes a sign and another side. -/
theorem after_guard_cons_iff :
    After blocks (symbol :: others) (.guard block) ↔
      compares symbol.kind = true ∧ symbol = mark symbol.kind ∧
        Operands (.compared block) blocks others := by
  constructor
  · rintro ⟨sign, side, rest, compares, derived, more, same⟩
    cases same
    exact ⟨compares, rfl, side, rest, derived, more, rfl⟩
  · rintro ⟨compares, same, side, rest, derived, more, rfl⟩
    exact ⟨symbol.kind, side, rest, compares, derived, more, by rw [← same]; rfl⟩

end Grammar

end TeenyTiny
