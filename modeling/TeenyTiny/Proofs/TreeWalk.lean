import TeenyTiny.Proofs.Layout
import TeenyTiny.Tree.Log

/-!
# Walking along a tree

A program without blank lines is the listing of its tree, and a walk along it calls for actions that
can be read off the tree (`Tree.Statements.actions`). Offsets apart, they are the actions of the
nodes in order.

A passage says what a walk calls for along some lexemes, from one place to another, whatever comes
after them (`Passage`). Passages that meet can be joined (`Passage.append`), so that each node of a
tree has a passage made of those of its parts.
-/

set_option autoImplicit false

namespace TeenyTiny

/-- An action without the offset that it points at. -/
def Action.unplaced : Action → Action
  | .label name _ => .label name 0
  | .jump name _ => .jump name 0
  | .use name _ => .use name 0
  | action => action

/-- A place that does something before it reads on as another place does. -/
theorem walk_of_after {ending : Option Fault} {place place' : Place} {blocks blocks' : List Block}
    {token ahead : Token} {tokens : List Token} {first : List Action}
    (same : place.move blocks token ahead.kind =
      (place'.move blocks' token ahead.kind).after first) :
    walk ending place blocks [] (token :: ahead :: tokens) =
      (walk ending place' blocks' [] (token :: ahead :: tokens)).after first := by
  rw [walk, walk, same]
  simp only [Move.step_after]
  split
  · simp [Walk.after, Move.after]
  · simp [Walk.after, Move.after]
  · simp [Walk.after, Move.after]

/-! ## Passages -/

/-- Along tokens with these lexemes a walk leads from one place to another and calls for actions. -/
def Passage (place : Place) (blocks : List Block) (lexemes : List Lexeme) (place' : Place)
    (blocks' : List Block) (actions : List Action) : Prop :=
  ∀ (tokens : List Token) (ending : Option Fault) (next after : Token) (rest : List Token),
    tokens.map Token.lexeme = lexemes →
      ∃ done, done.map Action.unplaced = actions ∧
        walk ending place blocks [] (tokens ++ next :: after :: rest) =
          (walk ending place' blocks' [] (next :: after :: rest)).after done

/-- A token of one lexeme leads from one place to another and calls for actions, given the kind of
the token after it. -/
def Moves (place : Place) (blocks : List Block) (lexeme : Lexeme) (next : Kind) (place' : Place)
    (blocks' : List Block) (actions : List Action) : Prop :=
  ∀ loc, ∃ now owed,
    place.move blocks ⟨lexeme.1, lexeme.2, loc⟩ next = ⟨now, .pass place' blocks' owed⟩ ∧
      (now ++ owed).map Action.unplaced = actions

theorem Moves.walk {place place' : Place} {blocks blocks' : List Block} {token next : Token}
    {actions : List Action}
    (moves : Moves place blocks token.lexeme next.kind place' blocks' actions)
    (ending : Option Fault) (after : Token) (rest : List Token) :
    ∃ done, done.map Action.unplaced = actions ∧
      TeenyTiny.walk ending place blocks [] (token :: next :: after :: rest) =
        (TeenyTiny.walk ending place' blocks' [] (next :: after :: rest)).after done := by
  obtain ⟨now, owed, move, rfl⟩ := moves token.loc
  have here : place.move blocks token next.kind = ⟨now, .pass place' blocks' owed⟩ := move
  refine ⟨now ++ owed, rfl, ?_⟩
  rw [walk_of_pass (by rw [here]), here]

namespace Passage

variable {place place' place'' : Place} {blocks blocks' blocks'' : List Block}
  {lexeme next : Lexeme} {lexemes lexemes' : List Lexeme} {actions actions' : List Action}

theorem nil : Passage place blocks [] place blocks [] := by
  intro tokens ending next after rest same
  obtain rfl := List.map_eq_nil_iff.mp same
  exact ⟨[], rfl, rfl⟩

/-- Passages that meet can be joined. -/
theorem append (first : Passage place blocks lexemes place' blocks' actions)
    (second : Passage place' blocks' lexemes' place'' blocks'' actions') :
    Passage place blocks (lexemes ++ lexemes') place'' blocks'' (actions ++ actions') := by
  intro tokens ending next after rest same
  obtain ⟨tokens, tokens', rfl, same, same'⟩ := List.map_eq_append_iff.mp same
  obtain ⟨done', rfl, walked'⟩ := second tokens' ending next after rest same'
  obtain ⟨current, ahead, others, window⟩ := exists_window tokens' next after rest
  obtain ⟨done, rfl, walked⟩ := first tokens ending current ahead others same
  refine ⟨done ++ done', List.map_append, ?_⟩
  rw [List.append_assoc, window, walked, ← window, walked', Walk.after_after]

/-- A token that moves, given the kind of the token after it, and then a passage. -/
theorem cons (moves : Moves place blocks lexeme next.1 place' blocks' actions)
    (later : Passage place' blocks' (next :: lexemes) place'' blocks'' actions') :
    Passage place blocks (lexeme :: next :: lexemes) place'' blocks'' (actions ++ actions') := by
  intro tokens ending ahead after rest same
  obtain ⟨token, tokens, rfl, rfl, same'⟩ := List.map_eq_cons_iff.mp same
  obtain ⟨second, others, rfl, rfl, -⟩ := List.map_eq_cons_iff.mp same'
  obtain ⟨done', rfl, walked'⟩ := later (second :: others) ending ahead after rest same'
  obtain ⟨third, fourth, tokens, window⟩ := exists_window others ahead after rest
  obtain ⟨done, rfl, walked⟩ := moves.walk ending third (fourth :: tokens)
  refine ⟨done ++ done', List.map_append, ?_⟩
  rw [List.cons_append, window] at walked'
  rw [List.cons_append, List.cons_append, window, walked, walked', Walk.after_after]

/-- A token that moves whatever comes after it is a passage. -/
theorem single (moves : ∀ next, Moves place blocks lexeme next place' blocks' actions) :
    Passage place blocks [lexeme] place' blocks' actions := by
  intro tokens ending next after rest same
  obtain ⟨token, rfl, rfl⟩ := List.map_eq_singleton_iff.mp same
  exact (moves next.kind).walk ending after rest

/-- A place that does something before it reads on as another place does. -/
theorem before {first : List Action}
    (later : Passage place' blocks' (lexeme :: lexemes) place'' blocks'' actions)
    (does : ∀ loc next, place.move blocks ⟨lexeme.1, lexeme.2, loc⟩ next =
      (place'.move blocks' ⟨lexeme.1, lexeme.2, loc⟩ next).after first) :
    Passage place blocks (lexeme :: lexemes) place'' blocks''
      (first.map Action.unplaced ++ actions) := by
  intro tokens ending next after rest same
  obtain ⟨done, rfl, walked⟩ := later tokens ending next after rest same
  obtain ⟨token, tokens, rfl, rfl, -⟩ := List.map_eq_cons_iff.mp same
  refine ⟨first ++ done, List.map_append, ?_⟩
  obtain ⟨ahead, third, others, window⟩ := exists_window tokens next after rest
  have here : place.move blocks token ahead.kind =
      (place'.move blocks' token ahead.kind).after first := does token.loc ahead.kind
  rw [List.cons_append, window] at walked ⊢
  rw [walk_of_after here, walked, Walk.after_after]

end Passage

/-! ## The actions of a tree -/

namespace Tree

/-- What a primary calls for. -/
def Primary.actions : Primary → List Action
  | number text => [.note (.primary text), .write (targetNumber text)]
  | ident name => [.note (.primary name), .use name 0, .write (targetName name)]

/-- What a unary calls for. -/
def Unary.actions (unary : Unary) : List Action :=
  (unary.sign?.map fun sign => Action.write sign.lexeme.2).toList ++ unary.primary.actions

/-- What a chain calls for, given what is noted where a part starts after a sign. -/
def Chain.actions {Sign Part : Type} (sign : Sign → Lexeme) (enter : List Action)
    (part : Part → List Action) (chain : Chain Sign Part) : List Action :=
  part chain.first ++ chain.others.flatMap fun other =>
    .write (" " ++ (sign other.1).2 ++ " ") :: enter ++ part other.2

/-- What a term calls for. -/
def Term.actions (term : Term) : List Action :=
  Chain.actions FactorSign.lexeme [.note .unary] Unary.actions term

/-- What an expression calls for. -/
def Expression.actions (expression : Expression) : List Action :=
  Chain.actions Sign.lexeme [.note .term, .note .unary] Term.actions expression

/-- What a comparison calls for. -/
def Comparison.actions (comparison : Comparison) : List Action :=
  comparison.first.actions ++ (.write (" " ++ comparison.sign.lexeme.2 ++ " ") ::
    Place.enterExpression ++
      comparison.others.actions ComparisonSign.lexeme Place.enterExpression Expression.actions)

/-- The note of a statement, from its tokens. -/
def enter (lexemes : List Lexeme) : List Action :=
  (entry lexemes).map .note

mutual

/-- What a statement calls for. -/
def Statement.actions : Statement → List Action
  | .printText text =>
      enter (Statement.printText text).lexemes ++ [.write ("printf(\"" ++ text ++ "\\n\");\n")]
  | .print expression =>
      enter (Statement.print expression).lexemes ++ (.write "printf(\"%.2f\\n\", (float)(" ::
        Place.enterExpression ++ expression.actions ++ [.write "));\n"])
  | .block block guard body =>
      enter (Statement.block block guard body).lexemes ++ (.write block.opening ::
        .note .comparison :: Place.enterExpression ++ guard.actions ++
          (.write ")\x7b\n" :: body.actions ++ [.write "\x7d\n"]))
  | .label name =>
      enter (Statement.label name).lexemes ++ [.label name 0, .write (targetName name ++ ":;\n")]
  | .goto name =>
      enter (Statement.goto name).lexemes ++
        [.jump name 0, .write ("goto " ++ targetName name ++ ";\n")]
  | .assign name expression =>
      enter (Statement.assign name expression).lexemes ++ (.declare name ::
        .write (targetName name ++ " = ") :: Place.enterExpression ++ expression.actions ++
          [.write ";\n"])
  | .input name =>
      enter (Statement.input name).lexemes ++
        [.declare name, .write (Place.inputLines (targetName name))]

/-- What statements call for, in order. -/
def Statements.actions : Statements → List Action
  | .nil => []
  | .cons first others => first.actions ++ others.actions

end

end Tree

/-! ## Passages along expressions -/

namespace Tree

variable (blocks : List Block) (purpose : Purpose)

/-- Along a unary. -/
theorem Unary.passage (unary : Unary) :
    Passage (.operand purpose) blocks unary.lexemes (.operator purpose) blocks unary.actions := by
  have operand (primary : Primary) : Passage (.operand purpose) blocks [primary.lexeme]
      (.operator purpose) blocks primary.actions := by
    cases primary <;> exact .single fun next loc => ⟨_, _, rfl, rfl⟩
  have plain (primary : Primary) : Passage (.primary purpose) blocks [primary.lexeme]
      (.operator purpose) blocks primary.actions := by
    cases primary <;> exact .single fun next loc => ⟨_, _, rfl, rfl⟩
  have signed (sign : Sign) : Passage (.operand purpose) blocks [sign.lexeme]
      (.primary purpose) blocks [.write sign.lexeme.2] := by
    cases sign <;> exact .single fun next loc => ⟨_, _, rfl, rfl⟩
  rcases unary with ⟨_ | sign, primary⟩
  · exact operand primary
  · exact (signed sign).append (plain primary)

/-- Along a chain, given passages along its parts and its signs. -/
theorem Chain.passage {Sign Part : Type} {sign : Sign → Lexeme} {enter : List Action}
    {lexemes : Part → List Lexeme} {actions : Part → List Action}
    (parts : ∀ part, Passage (.operand purpose) blocks (lexemes part) (.operator purpose) blocks
      (actions part))
    (signs : ∀ between, Passage (.operator purpose) blocks [sign between] (.operand purpose) blocks
      (.write (" " ++ (sign between).2 ++ " ") :: enter))
    (chain : Chain Sign Part) :
    Passage (.operand purpose) blocks (chain.lexemes sign lexemes) (.operator purpose) blocks
      (chain.actions sign enter actions) := by
  rcases chain with ⟨first, others⟩
  refine (parts first).append ?_
  induction others with
  | nil => exact .nil
  | cons other others ih => exact ((signs other.1).append (parts other.2)).append ih

/-- Along a term. -/
theorem Term.passage (term : Term) :
    Passage (.operand purpose) blocks term.lexemes (.operator purpose) blocks term.actions := by
  refine Chain.passage blocks purpose (Unary.passage blocks purpose) (fun sign => ?_) term
  cases sign <;> exact .single fun next loc => ⟨_, _, rfl, rfl⟩

/-- Along an expression. -/
theorem Expression.passage (expression : Expression) :
    Passage (.operand purpose) blocks expression.lexemes (.operator purpose) blocks
      expression.actions := by
  refine Chain.passage blocks purpose (Term.passage blocks purpose) (fun sign => ?_) expression
  cases sign <;> exact .single fun next loc => ⟨_, _, rfl, rfl⟩

/-- Along the guard of a block. -/
theorem Comparison.passage (block : Block) (comparison : Comparison) :
    Passage (.operand (.guard block)) blocks comparison.lexemes (.operator (.compared block)) blocks
      comparison.actions := by
  have signs (sign : ComparisonSign) (purpose : Purpose)
      (guards : purpose = .guard block ∨ purpose = .compared block) :
      Passage (.operator purpose) blocks [sign.lexeme] (.operand (.compared block)) blocks
        (.write (" " ++ sign.lexeme.2 ++ " ") :: Place.enterExpression) := by
    rcases guards with rfl | rfl <;> cases sign <;> exact .single fun next loc => ⟨_, _, rfl, rfl⟩
  have others := comparison.others.passage blocks (.compared block)
    (Expression.passage blocks (.compared block)) fun sign => signs sign _ (.inr rfl)
  exact (comparison.first.passage blocks (.guard block)).append
    ((signs comparison.sign _ (.inl rfl)).append others)

end Tree

/-! ## Passages along statements -/

namespace Tree

variable (blocks : List Block)

/-- Expressions start with a number, a name or a sign. -/
theorem Expression.exists_cons (expression : Expression) :
    ∃ first others, expression.lexemes = first :: others ∧ first.1 ≠ .quoted := by
  obtain ⟨⟨⟨sign?, primary⟩, factors⟩, terms⟩ := expression
  rcases sign? with _ | sign
  · refine ⟨primary.lexeme, _, rfl, ?_⟩
    cases primary <;> simp [Primary.lexeme]
  · refine ⟨sign.lexeme, _, rfl, ?_⟩
    cases sign <;> simp [Sign.lexeme]

/-- Statements and the keyword that closes their block start with no end of line. -/
theorem Statements.exists_cons (block : Block) (statements : Statements) :
    ∃ first others, statements.lexemes ++ [keyword block.closer] = first :: others ∧
      first.1 ≠ .newline := by
  cases statements with
  | nil => exact ⟨_, _, rfl, by cases block <;> simp [keyword, Block.closer]⟩
  | cons first others =>
      cases first with
      | block inner guard body =>
          cases inner <;> exact ⟨_, _, rfl, by simp [keyword]⟩
      | _ => exact ⟨_, _, rfl, by simp [keyword]⟩

/-- A guard is not empty. -/
theorem Comparison.exists_cons (comparison : Comparison) :
    ∃ first others, comparison.lexemes = first :: others := by
  obtain ⟨first, others, same, -⟩ := comparison.first.exists_cons
  exact ⟨first, _, by rw [lexemes, same]; rfl⟩

/-- The end of a line. -/
theorem passage_newline : Passage .lineEnd blocks [newline] .line blocks [] :=
  .single fun _ _ => ⟨_, _, rfl, rfl⟩

/-- A keyword that opens a statement does so at the start of every line. -/
theorem atLine_of_opened {token : Token} {place : Place}
    (found : Grammar.opened? token.kind = some place) (next : Kind) :
    Place.atLine blocks token next = Place.atStatement blocks token next := by
  have text : token.kind ≠ .newline := fun same => by simp [same, Grammar.opened?] at found
  have more : token.kind ≠ .eof := fun same => by simp [same, Grammar.opened?] at found
  have inside (block : Block) : token.kind ≠ block.closer := fun same => by
    cases block <;> simp [same, Block.closer, Grammar.opened?] at found
  cases blocks with
  | nil => simp [Place.atLine, text, more]
  | cons block outer => simp [Place.atLine, text, more, inside]

/-- The keyword of a statement, and what comes after it. -/
theorem passage_keyword (kind : Kind) (owed : List Action) {place : Place} {next : Lexeme}
    {lexemes : List Lexeme} {actions : List Action} (found : Grammar.opened? kind = some place)
    (opens : ∀ loc, Place.atStatement blocks ⟨kind, kind.name, loc⟩ next.1 =
      ⟨[.note (.statement kind next.1)], .pass place blocks owed⟩)
    (unplaced : owed.map Action.unplaced = owed)
    (later : Passage place blocks (next :: lexemes) .line blocks actions) :
    Passage .line blocks (keyword kind :: next :: lexemes) .line blocks
      (enter (keyword kind :: next :: lexemes) ++ (owed ++ actions)) := by
  have moves : Moves .line blocks (keyword kind) next.1 place blocks
      (.note (.statement kind next.1) :: owed) := by
    intro loc
    refine ⟨[.note (.statement kind next.1)], owed, ?_, ?_⟩
    · exact (atLine_of_opened blocks found next.1).trans (opens loc)
    · rw [List.map_append, unplaced]
      rfl
  have whole := Passage.cons moves later
  exact whole

mutual

/-- Along a statement. -/
theorem Statement.passage (blocks : List Block) :
    ∀ statement : Statement, Passage .line blocks statement.lexemes .line blocks statement.actions
  | .printText text => by
      have item : Passage .printItem blocks [(.quoted, text)] .lineEnd blocks
          [.write ("printf(\"" ++ text ++ "\\n\");\n")] := .single fun _ _ => ⟨_, _, rfl, rfl⟩
      exact passage_keyword blocks .printWord [] rfl (fun _ => rfl) rfl
        (item.append (passage_newline blocks))
  | .print expression => by
      obtain ⟨first, others, same, plain⟩ := expression.exists_cons
      have close : Passage (.operator .printed) blocks [newline] .line blocks [.write "));\n"] :=
        .single fun _ _ => ⟨_, _, rfl, rfl⟩
      have inner := (expression.passage blocks .printed).append close
      rw [same, List.cons_append] at inner
      have does (loc : Nat) (next : Kind) :
          Place.printItem.move blocks ⟨first.1, first.2, loc⟩ next =
            ((Place.operand .printed).move blocks ⟨first.1, first.2, loc⟩ next).after
              (.write "printf(\"%.2f\\n\", (float)(" :: Place.enterExpression) := by
        simp [Place.move, Place.atPrintItem]
      have item := inner.before does
      have whole := passage_keyword blocks .printWord [] rfl (fun _ => rfl) rfl item
      rw [Statement.lexemes, Statement.actions, Statement.lexemes, same]
      simpa [Place.enterExpression, Action.unplaced] using whole
  | .block block guard body => by
      have lead : Passage (.operator (.compared block)) blocks [keyword block.lead]
          (.leadEnd block) blocks [] := by
        cases block <;> exact .single fun _ _ => ⟨_, _, rfl, rfl⟩
      have start : Passage (.leadEnd block) blocks [newline] (.bodyStart block) blocks [] :=
        .single fun _ _ => ⟨_, _, rfl, rfl⟩
      have close : Passage .line (block :: blocks) [keyword block.closer] .lineEnd blocks
          [.write "\x7d\n"] := by
        cases block <;> exact .single fun _ _ => ⟨_, _, rfl, rfl⟩
      obtain ⟨first, others, same, text⟩ := body.exists_cons block
      have inner := (body.passage (block :: blocks)).append close
      rw [same] at inner
      have does (loc : Nat) (next : Kind) :
          (Place.bodyStart block).move blocks ⟨first.1, first.2, loc⟩ next =
            (Place.line.move (block :: blocks) ⟨first.1, first.2, loc⟩ next).after
              [.write ")\x7b\n"] := by
        simp [Place.move, Place.atBodyStart, text]
      have lines := inner.before does
      rw [← same] at lines
      have rest := (guard.passage blocks block).append
        (lead.append (start.append (lines.append (passage_newline blocks))))
      obtain ⟨second, later, front⟩ := guard.exists_cons
      rw [front] at rest
      have whole := passage_keyword blocks block.opener
        (.write block.opening :: .note .comparison :: Place.enterExpression)
        (Grammar.opened_opener block) (fun _ => by cases block <;> rfl) rfl rest
      simpa [Statement.actions, front, Action.unplaced] using whole
  | .label name => by
      have named : Passage .labelName blocks [(.ident, name)] .lineEnd blocks
          [.label name 0, .write (targetName name ++ ":;\n")] := .single fun _ _ => ⟨_, _, rfl, rfl⟩
      exact passage_keyword blocks .labelWord [] rfl (fun _ => rfl) rfl
        (named.append (passage_newline blocks))
  | .goto name => by
      have named : Passage .gotoName blocks [(.ident, name)] .lineEnd blocks
          [.jump name 0, .write ("goto " ++ targetName name ++ ";\n")] :=
        .single fun _ _ => ⟨_, _, rfl, rfl⟩
      exact passage_keyword blocks .gotoWord [] rfl (fun _ => rfl) rfl
        (named.append (passage_newline blocks))
  | .assign name expression => by
      have named : Passage .letName blocks [(.ident, name)] (.letSign name) blocks
          [.declare name] := .single fun _ _ => ⟨_, _, rfl, rfl⟩
      have sign : Passage (.letSign name) blocks [(.assign, "=")] (.operand .assigned) blocks
          (.write (targetName name ++ " = ") :: Place.enterExpression) :=
        .single fun _ _ => ⟨_, _, rfl, rfl⟩
      have close : Passage (.operator .assigned) blocks [newline] .line blocks [.write ";\n"] :=
        .single fun _ _ => ⟨_, _, rfl, rfl⟩
      have inner := named.append (sign.append ((expression.passage blocks .assigned).append close))
      have whole := passage_keyword blocks .letWord [] rfl (fun _ => rfl) rfl inner
      simpa [Statement.lexemes, Statement.actions] using whole
  | .input name => by
      have named : Passage .inputName blocks [(.ident, name)] .lineEnd blocks
          [.declare name, .write (Place.inputLines (targetName name))] :=
        .single fun _ _ => ⟨_, _, rfl, rfl⟩
      exact passage_keyword blocks .inputWord [] rfl (fun _ => rfl) rfl
        (named.append (passage_newline blocks))

/-- Along statements. -/
theorem Statements.passage (blocks : List Block) :
    ∀ statements : Statements,
      Passage .line blocks statements.lexemes .line blocks statements.actions
  | .nil => .nil
  | .cons first others => (first.passage blocks).append (others.passage blocks)

end

end Tree

/-- What is done after the last line, before the jumps are settled. -/
def epilogue : List Action :=
  [.write "return 0;\n", .write "\x7d\n"]

/-- A walk along a program calls for what its tree calls for, and then ends the program. -/
theorem walk_of_tree (ending : Option Fault) {body : List Token} {last : Token}
    (ended : last.kind = .eof) {tree : Tree.Statements}
    (listed : Tree.withoutBlankLines (body.map Token.lexeme) = tree.lexemes) :
    ∃ done : List Action, done.map Action.unplaced = tree.actions ∧
      walk ending .line [] [] (body ++ [last, last]) =
        ⟨done ++ epilogue ++ [.settle], none⟩ := by
  have same : (dropBlank true body).map Token.lexeme = tree.lexemes := by
    rw [map_lexeme_dropBlank]
    exact listed
  obtain ⟨done, actions, walked⟩ := tree.passage [] _ ending last last [] same
  have final : Place.line.move [] last last.kind = ⟨epilogue ++ [.settle], .finish⟩ := by
    simp [Place.move, Place.atLine, ended, epilogue]
  have finish : walk ending .line [] [] [last, last] = ⟨epilogue ++ [.settle], none⟩ := by
    rw [walk_of_finish (by rw [final]), final]
  refine ⟨done, actions, ?_⟩
  rw [walk_dropBlank, Place.ended, walked, finish, List.append_assoc]
  rfl

end TeenyTiny
