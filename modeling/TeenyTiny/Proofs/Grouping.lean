import TeenyTiny.Proofs.CArithmetic
import TeenyTiny.Proofs.TreeTokens

/-!
# Arithmetic keeps its grouping

The C text of an expression means to C what the source means. C cuts the text into tokens by longest
match and groups them by its own rules; what comes out is the tree of the source, grouped to the
left, with every name in its C spelling and every number as a constant of the same value
(`expression_grouping`). No parentheses are written, and none are needed, since the ranks of the
operators are those of C.

What a walk reads as an expression is a crossing (`Crossing`): it passes operands, signs and the
four operators, and stands behind an operand at last. The tokens that it passes are the listing of a
tree, and what it writes is the C text of that tree (`Crossing.exists_tree`).
-/

set_option autoImplicit false

namespace TeenyTiny

open Lexeme (Shaped)

/-! ## Grouped trees -/

/-- The value of a number of the source: digits, with or without a point and more digits. -/
def numeralValue (text : String) : Rat :=
  C.decimal (text.toList.takeWhile Char.isDigit) ((text.toList.dropWhile Char.isDigit).drop 1)

namespace Tree

/-- A primary as an operand. -/
def Primary.grouped : Primary → C.Arithmetic
  | number text => .constant (numeralValue text)
  | ident name => .name (targetName name)

/-- A unary, with its sign if it has one. -/
def Unary.grouped (unary : Unary) : C.Arithmetic :=
  match unary.sign? with
  | none => unary.primary.grouped
  | some sign => .signed sign.lexeme.2 unary.primary.grouped

/-- A chain as it groups to the left. -/
def Chain.grouped {Sign Part : Type} (sign : Sign → Lexeme) (part : Part → C.Arithmetic)
    (chain : Chain Sign Part) : C.Arithmetic :=
  chain.others.foldl (fun left other => .binary (sign other.1).2 left (part other.2))
    (part chain.first)

/-- A term as it groups to the left. -/
def Term.grouped (term : Term) : C.Arithmetic :=
  Chain.grouped FactorSign.lexeme Unary.grouped term

/-- An expression as it groups to the left. -/
def Expression.grouped (expression : Expression) : C.Arithmetic :=
  Chain.grouped Sign.lexeme Term.grouped expression

end Tree

/-! ## Parsing the C tokens of a tree -/

/-- The C spelling of a number denotes the number. -/
theorem constant_targetNumber (text : String) (numeral : Lexeme.Numeral text.toList) :
    C.constant? (targetNumber text) = some (numeralValue text) := by
  obtain ⟨whole, fraction, whole_digits, fraction_digits, spelled, same⟩ :=
    exists_digits_targetNumber text numeral
  rw [C.constant_eq_decimal whole_digits fraction_digits spelled, numeralValue]
  rcases same with ⟨plain, rfl⟩ | same
  · obtain ⟨front, back⟩ : (whole ++ []).takeWhile Char.isDigit = whole ∧
        (whole ++ []).dropWhile Char.isDigit = [] := Lexeme.span_append whole_digits.2 (by simp)
    rw [List.append_nil] at front back
    rw [C.decimal_zero, plain, front, back, List.drop_nil]
  · rw [same] at spelled
    obtain ⟨front, back⟩ := Lexeme.span_digits whole_digits fraction
    rw [spelled, front, back, List.drop_succ_cons, List.drop_zero]

namespace Tree

theorem Unary.parses {unary : Unary} (shaped : ∀ lexeme ∈ unary.lexemes, Shaped lexeme) :
    C.unary.Reads [] (unary.lexemes.map .ofSource) unary.grouped := by
  intro rest _
  have primary (tree : Primary) (shaped : Shaped tree.lexeme) :
      C.readUnary (.ofSource tree.lexeme :: rest) = some (tree.grouped, rest) := by
    cases tree with
    | ident name => rfl
    | number text =>
        show (C.constant? (targetNumber text)).map _ = _
        rw [constant_targetNumber text shaped]
        rfl
  have here := primary unary.primary (shaped _ (by simp [Unary.lexemes]))
  show C.readUnary _ = _
  rcases unary with ⟨_ | sign, tree⟩
  · exact here
  · cases sign <;> exact congrArg (Option.map _) here

/-- C groups a chain as it is grouped here, if it does so with its parts. -/
theorem Chain.parses {Sign Part : Type} {sign : Sign → Lexeme} {lexemes : Part → List Lexeme}
    {grouped : Part → C.Arithmetic} {reader : C.Reader} {tighter signs : List String}
    (marks : ∀ other, (sign other).2 ∈ signs ∧ C.Token.ofSource (sign other) = .mark (sign other).2)
    (looser : ∀ sign ∈ signs, sign ∉ tighter)
    (parts : ∀ part, (∀ lexeme ∈ lexemes part, Shaped lexeme) →
      reader.Reads tighter ((lexemes part).map .ofSource) (grouped part))
    {chain : Chain Sign Part} (shaped : ∀ lexeme ∈ chain.lexemes sign lexemes, Shaped lexeme) :
    (reader.leftChain signs).Reads (tighter ++ signs) ((chain.lexemes sign lexemes).map .ofSource)
      (chain.grouped sign grouped) := by
  rcases chain with ⟨first, others⟩
  simp only [Chain.lexemes, List.forall_mem_append] at shaped
  obtain ⟨firstShaped, shaped⟩ := shaped
  let link (other : Sign × Part) : C.Reader.Link :=
    ⟨(sign other.1).2, (lexemes other.2).map .ofSource, grouped other.2⟩
  have known : ∀ other ∈ others.map link,
      other.sign ∈ signs ∧ reader.Reads tighter other.tokens other.tree := by
    intro _ member
    obtain ⟨other, inside, rfl⟩ := List.mem_map.mp member
    refine ⟨(marks other.1).1, parts other.2 fun lexeme here => ?_⟩
    exact shaped lexeme (List.mem_flatMap.mpr ⟨other, inside, List.mem_cons_of_mem _ here⟩)
  have whole := (parts first firstShaped).leftChain known looser
  have tokens : C.Reader.Link.allTokens (others.map link) =
      (others.flatMap fun other => sign other.1 :: lexemes other.2).map .ofSource := by
    simp only [C.Reader.Link.allTokens, List.flatMap_map, List.map_flatMap, List.map_cons,
      (marks _).2, link]
  rwa [tokens, ← List.map_append, List.foldl_map] at whole

theorem Term.parses {term : Term} (shaped : ∀ lexeme ∈ term.lexemes, Shaped lexeme) :
    C.multiplicative.Reads ["*", "/"] (term.lexemes.map .ofSource) term.grouped := by
  refine Chain.parses (fun sign => ?_) (by decide) (fun unary shaped => Unary.parses shaped) shaped
  cases sign <;> decide

/-- C groups the tokens of an expression as the source does. -/
theorem Expression.parse_tokens {expression : Expression}
    (shaped : ∀ lexeme ∈ expression.lexemes, Shaped lexeme) :
    C.parse (expression.lexemes.map .ofSource) = some expression.grouped := by
  have reads : C.additive.Reads (["*", "/"] ++ ["+", "-"]) (expression.lexemes.map .ofSource)
      expression.grouped :=
    Chain.parses (fun sign => by cases sign <;> decide) (by decide)
      (fun term shaped => Term.parses shaped) shaped
  exact C.parse_of_reads reads

end Tree

/-! ## What a walk reads as an expression -/

/-- Whether a token goes on with an expression at a place within it. Behind an operand only the four
operators do. -/
def Place.Within (purpose : Purpose) (token : Token) : Place → Prop
  | .operand other | .primary other => other = purpose
  | .operator other =>
      other = purpose ∧ (token.kind.isSign = true ∨ token.kind.isFactorSign = true)
  | _ => False

/-- A walk along tokens that are an expression or the rest of one, and what it calls for. -/
inductive Crossing (purpose : Purpose) (blocks : List Block) :
    Place → List Token → List Action → Prop where
  | arrived : Crossing purpose blocks (.operator purpose) [] []
  | passed {place place' : Place} {token : Token} {tokens : List Token}
      {now owed actions : List Action} : place.Within purpose token →
      (∀ next, place.move blocks token next = ⟨now, .pass place' blocks owed⟩) →
        Crossing purpose blocks place' tokens actions →
          Crossing purpose blocks place (token :: tokens) (now ++ owed ++ actions)

section

variable {purpose : Purpose} {blocks : List Block} {token : Token} {place place' : Place}
  {now owed : List Action}

/-- An operand that is passed is a number or a variable. -/
theorem exists_primary_of_pass
    (moves : Place.atPrimary purpose blocks token = ⟨now, .pass place' blocks owed⟩) :
    place' = .operator purpose ∧ ∃ primary : Tree.Primary, primary.lexeme = token.lexeme ∧
      (now ++ owed).map Action.unplaced = primary.actions := by
  obtain ⟨kind, text, loc⟩ := token
  cases kind with
  | number =>
      cases moves
      exact ⟨rfl, .number text, rfl, rfl⟩
  | ident =>
      cases moves
      exact ⟨rfl, .ident text, rfl, rfl⟩
  | _ => simp [Place.atPrimary, Move.after, Move.refuse] at moves

/-- An operator that is passed leads to an operand. -/
theorem eq_operand_of_pass {enter : List Action}
    (moves : Place.join purpose blocks token enter = ⟨now, .pass place' blocks owed⟩) :
    place' = .operand purpose ∧ now ++ owed = .write (" " ++ token.text ++ " ") :: enter := by
  cases moves
  exact ⟨rfl, rfl⟩

/-- What a token within an expression can be: a sign before an operand, an operand, or an operator
behind one. -/
theorem Place.Within.step {next : Kind} (within : place.Within purpose token)
    (moves : place.move blocks token next = ⟨now, .pass place' blocks owed⟩)
    (shaped : Shaped token.lexeme) :
    (∃ sign : Tree.Sign, sign.lexeme = token.lexeme ∧ place = .operand purpose ∧
        place' = .primary purpose ∧ now ++ owed = [.write sign.lexeme.2]) ∨
    (∃ primary : Tree.Primary, primary.lexeme = token.lexeme ∧
        (place = .operand purpose ∨ place = .primary purpose) ∧
        place' = .operator purpose ∧ (now ++ owed).map Action.unplaced = primary.actions) ∨
    (∃ sign : Tree.Sign, sign.lexeme = token.lexeme ∧ place = .operator purpose ∧
        place' = .operand purpose ∧
        now ++ owed = [.write (" " ++ sign.lexeme.2 ++ " "), .note .term, .note .unary]) ∨
    (∃ sign : Tree.FactorSign, sign.lexeme = token.lexeme ∧ place = .operator purpose ∧
        place' = .operand purpose ∧
        now ++ owed = [.write (" " ++ sign.lexeme.2 ++ " "), .note .unary]) := by
  cases place with
  | operand other =>
      obtain rfl : other = purpose := within
      by_cases isSign : token.kind.isSign = true
      · obtain ⟨sign, same⟩ := Tree.exists_sign shaped ((Grammar.adds_eq _).trans isSign)
        simp only [move, atOperand, isSign, if_true] at moves
        cases moves
        exact .inl ⟨sign, same, rfl, rfl, by rw [same]; rfl⟩
      · simp only [move, atOperand, isSign] at moves
        obtain ⟨rfl, primary, same, actions⟩ := exists_primary_of_pass moves
        exact .inr (.inl ⟨primary, same, .inl rfl, rfl, actions⟩)
  | primary other =>
      obtain rfl : other = purpose := within
      obtain ⟨rfl, primary, same, actions⟩ := exists_primary_of_pass moves
      exact .inr (.inl ⟨primary, same, .inr rfl, rfl, actions⟩)
  | operator other =>
      obtain ⟨rfl, isSign | isFactorSign⟩ := within
      · obtain ⟨sign, same⟩ := Tree.exists_sign shaped ((Grammar.adds_eq _).trans isSign)
        refine .inr (.inr (.inl ⟨sign, same, rfl, ?_⟩))
        obtain ⟨kind, text, loc⟩ := token
        cases sign <;> cases same <;> exact eq_operand_of_pass moves
      · obtain ⟨sign, same⟩ :=
          Tree.exists_factorSign shaped ((Grammar.multiplies_eq _).trans isFactorSign)
        refine .inr (.inr (.inr ⟨sign, same, rfl, ?_⟩))
        obtain ⟨kind, text, loc⟩ := token
        cases sign <;> cases same <;> exact eq_operand_of_pass moves
  | _ => cases within

end

namespace Crossing

/-- Tokens and actions that complete an expression from a place within it: behind an operand, they
go on with whatever expression ends there. -/
def Completes (lexemes : List Lexeme) (actions : List Action) : Place → Prop
  | .operand _ => ∃ tree : Tree.Expression, tree.lexemes = lexemes ∧ tree.actions = actions
  | .primary _ => ∀ sign : Tree.Sign, ∃ tree : Tree.Expression,
      tree.lexemes = sign.lexeme :: lexemes ∧ tree.actions = .write sign.lexeme.2 :: actions
  | .operator _ => ∃ grow : Tree.Unary → Tree.Expression, ∀ unary,
      (grow unary).lexemes = unary.lexemes ++ lexemes ∧
        (grow unary).actions = unary.actions ++ actions
  | _ => False

variable {purpose : Purpose} {blocks : List Block} {place : Place} {tokens : List Token}
  {actions : List Action}

/-- The tokens of a crossing complete an expression. -/
theorem completes (crossing : Crossing purpose blocks place tokens actions)
    (shaped : ∀ token ∈ tokens, Shaped token.lexeme) :
    Completes (tokens.map Token.lexeme) (actions.map Action.unplaced) place := by
  induction crossing with
  | arrived =>
      refine ⟨fun unary => ⟨⟨unary, []⟩, []⟩, fun unary => ⟨?_, ?_⟩⟩
      · simp [Tree.Expression.lexemes, Tree.Term.lexemes, Tree.Chain.lexemes]
      · simp [Tree.Expression.actions, Tree.Term.actions, Tree.Chain.actions]
  | passed within moves _ ih =>
      obtain ⟨here, shaped⟩ := List.forall_mem_cons.mp shaped
      have later := ih shaped
      rw [List.map_cons, List.map_append]
      rcases within.step (moves .eof) here with
        ⟨sign, same, rfl, rfl, does⟩ | ⟨primary, same, place, rfl, does⟩ |
          ⟨sign, same, rfl, rfl, does⟩ | ⟨sign, same, rfl, rfl, does⟩ <;> rw [← same, does]
      · exact later sign
      · obtain ⟨grow, grown⟩ := later
        rcases place with rfl | rfl
        · exact ⟨grow ⟨none, primary⟩, grown ⟨none, primary⟩⟩
        · exact fun sign => ⟨grow ⟨some sign, primary⟩, grown ⟨some sign, primary⟩⟩
      · obtain ⟨⟨first, terms⟩, lexemes, actions⟩ := later
        refine ⟨fun unary => ⟨⟨unary, []⟩, (sign, first) :: terms⟩, fun unary => ⟨?_, ?_⟩⟩
        · rw [← lexemes]
          simp [Tree.Expression.lexemes, Tree.Term.lexemes, Tree.Chain.lexemes]
        · rw [← actions]
          simp [Tree.Expression.actions, Tree.Term.actions, Tree.Chain.actions, Action.unplaced]
      · obtain ⟨⟨⟨first, factors⟩, terms⟩, lexemes, actions⟩ := later
        refine ⟨fun unary => ⟨⟨unary, (sign, first) :: factors⟩, terms⟩, fun unary => ⟨?_, ?_⟩⟩
        · rw [← lexemes]
          simp [Tree.Expression.lexemes, Tree.Term.lexemes, Tree.Chain.lexemes]
        · rw [← actions]
          simp [Tree.Expression.actions, Tree.Term.actions, Tree.Chain.actions, Action.unplaced]

/-- What is crossed from the start of an expression is the listing of a tree, and what is called for
on the way is what the tree calls for. -/
theorem exists_tree (crossing : Crossing purpose blocks (.operand purpose) tokens actions)
    (shaped : ∀ token ∈ tokens, Shaped token.lexeme) :
    ∃ tree : Tree.Expression, tree.lexemes = tokens.map Token.lexeme ∧
      tree.actions = actions.map Action.unplaced :=
  crossing.completes shaped

/-- A walk crosses an expression, whatever comes behind it. -/
theorem walk_eq (crossing : Crossing purpose blocks place tokens actions) (ending : Option Fault)
    (next after : Token) (rest : List Token) :
    walk ending place blocks [] (tokens ++ next :: after :: rest) =
      (walk ending (.operator purpose) blocks [] (next :: after :: rest)).after actions := by
  induction crossing with
  | arrived => rfl
  | @passed place place' token tokens now owed actions within moves _ ih =>
      obtain ⟨ahead, third, others, window⟩ := exists_window tokens next after rest
      rw [window] at ih
      rw [List.cons_append, window, walk_of_pass (by rw [moves]), ih, moves, Walk.after_after]

end Crossing

/-! ## Grouping -/

/-- Actions that break no rule are performed in order. -/
theorem Draft.performAll_of_quiet {draft : Draft} {actions : List Action}
    (quiet : draft.names.fault? actions = none) :
    draft.performAll actions = (actions.foldl perform draft, none) := by
  induction actions generalizing draft with
  | nil => rfl
  | cons action actions ih =>
      rw [Names.fault?, Option.or_eq_none_iff] at quiet
      rw [performAll, quiet.1, List.foldl_cons]
      exact ih (by rw [perform_names]; exact quiet.2)

namespace Tree

/-- What a chain reads are identifiers of its listing, if that holds of its parts. -/
theorem Chain.ident_mem_lexemes {Sign Part : Type} {sign : Sign → Lexeme}
    {lexemes : Part → List Lexeme} {uses : Part → List String} {name : String}
    (parts : ∀ part, name ∈ uses part → (Kind.ident, name) ∈ lexemes part)
    (chain : Chain Sign Part) (used : name ∈ chain.uses uses) :
    (Kind.ident, name) ∈ chain.lexemes sign lexemes := by
  rcases List.mem_append.mp used with here | later
  · exact List.mem_append_left _ (parts _ here)
  · obtain ⟨other, member, here⟩ := List.mem_flatMap.mp later
    refine List.mem_append_right _ (List.mem_flatMap.mpr ⟨other, member, ?_⟩)
    exact List.mem_cons_of_mem _ (parts _ here)

theorem Expression.ident_mem_lexemes {name : String} (expression : Expression)
    (used : name ∈ expression.uses) : (Kind.ident, name) ∈ expression.lexemes := by
  refine Chain.ident_mem_lexemes (Chain.ident_mem_lexemes fun unary here => ?_) expression used
  obtain ⟨sign?, primary⟩ := unary
  cases primary with
  | number text => cases here
  | ident other =>
      obtain rfl := List.mem_singleton.mp here
      simp [Unary.lexemes, Primary.lexeme]

end Tree

/-- C groups what is written for an expression as the source does. Whatever tokens a walk reads as
an expression, if their variables have values, then a text is added to the body, and C parses it to
the tree of the source grouped to the left. Names have their C spelling, and a number is a constant
of the form digits, point, digits with the same value. -/
theorem expression_grouping {purpose : Purpose} {blocks : List Block} {tokens : List Token}
    {actions : List Action} {draft : Draft}
    (crossing : Crossing purpose blocks (.operand purpose) tokens actions)
    (shaped : ∀ token ∈ tokens, Shaped token.lexeme)
    (declared : ∀ token ∈ tokens, token.kind = .ident → draft.names.hasVariable token.text = true) :
    (∀ ending next after rest,
      walk ending (.operand purpose) blocks [] (tokens ++ next :: after :: rest) =
        (walk ending (.operator purpose) blocks [] (next :: after :: rest)).after actions) ∧
    ∃ draft' text, draft.performAll actions = (draft', none) ∧
      draft'.output.body = draft.output.body ++ text ∧
        (∃ tree : Tree.Expression, tree.lexemes = tokens.map Token.lexeme) ∧
          ∀ tree : Tree.Expression, tree.lexemes = tokens.map Token.lexeme →
            C.parse (C.scan text) = some tree.grouped := by
  obtain ⟨tree, listed, called⟩ := crossing.exists_tree shaped
  have lexemes_shaped : ∀ lexeme ∈ tokens.map Token.lexeme, Shaped lexeme := by
    intro lexeme member
    obtain ⟨token, inside, rfl⟩ := List.mem_map.mp member
    exact shaped token inside
  have known : ∀ name ∈ tree.uses, draft.names.unplaced.hasVariable name = true := by
    intro name used
    have member := tree.ident_mem_lexemes used
    rw [listed] at member
    obtain ⟨token, inside, same⟩ := List.mem_map.mp member
    have kind : token.kind = .ident := congrArg Prod.fst same
    have text : token.text = name := congrArg Prod.snd same
    exact text ▸ declared token inside kind
  have quiet : draft.names.fault? actions = none := by
    rw [← Names.fault_unplaced, ← called, ← Names.fault_filter, tree.naming_actions]
    exact (Names.fault_reads_eq_none _ _).mpr known
  have written : Action.textOf actions = tree.toC := by
    rw [← Action.textOf_unplaced, ← called, tree.textOf_actions]
  refine ⟨crossing.walk_eq, _, tree.toC, Draft.performAll_of_quiet quiet, ?_, ⟨tree, listed⟩, ?_⟩
  · rw [Draft.foldl_body, written]
  · intro other same
    have tokens := (Tree.Expression.reads (listed ▸ lexemes_shaped)).scan_eq
    rw [tokens, listed, ← same]
    exact Tree.Expression.parse_tokens (same ▸ lexemes_shaped)

/-- An expression in which a minus stands before a signed operand. -/
theorem expression_grouping_signs :
    let tokens : List Token := [⟨.number, "1", 0⟩, ⟨.minus, "-", 2⟩, ⟨.minus, "-", 4⟩,
      ⟨.ident, "a", 5⟩, ⟨.times, "*", 7⟩, ⟨.number, "2.5", 9⟩]
    let draft : Draft := { names := { vars := ["a"] } }
    let tree : Tree.Expression := ⟨⟨⟨none, .number "1"⟩, []⟩,
      [(.minus, ⟨⟨some .minus, .ident "a"⟩, [(.times, ⟨none, .number "2.5"⟩)]⟩)]⟩
    ∃ actions, Crossing .assigned [] (.operand .assigned) tokens actions ∧
      (∀ token ∈ tokens, Shaped token.lexeme) ∧
      (∀ token ∈ tokens, token.kind = .ident → draft.names.hasVariable token.text = true) ∧
      ∃ draft' text, draft.performAll actions = (draft', none) ∧
        draft'.output.body = draft.output.body ++ text ∧
          C.parse (C.scan text) = some tree.grouped ∧
            tree.grouped = .binary "-" (.constant 1)
              (.binary "*" (.signed "-" (.name "a")) (.constant (5 / 2))) := by
  intro tokens draft tree
  have crossing : Crossing .assigned [] (.operand .assigned) tokens _ :=
    .passed rfl (fun _ => rfl) (.passed ⟨rfl, .inl rfl⟩ (fun _ => rfl) (.passed rfl (fun _ => rfl)
      (.passed rfl (fun _ => rfl) (.passed ⟨rfl, .inr rfl⟩ (fun _ => rfl)
        (.passed rfl (fun _ => rfl) .arrived)))))
  have shaped : ∀ token ∈ tokens, Shaped token.lexeme := by
    have one : Shaped (.number, "1") := .inl (by simp [Lexeme.Digits])
    have sign : Shaped (.minus, "-") := rfl
    have word : Shaped (.ident, "a") := ⟨⟨'a', [], rfl, rfl, by simp⟩, by decide⟩
    have factor : Shaped (.times, "*") := rfl
    have half : Shaped (.number, "2.5") :=
      .inr ⟨['2'], ['5'], by simp [Lexeme.Digits], by simp [Lexeme.Digits], by decide⟩
    simp [tokens, Token.lexeme, one, sign, word, factor, half]
  have declared : ∀ token ∈ tokens, token.kind = .ident →
      draft.names.hasVariable token.text = true := by decide
  obtain ⟨-, draft', text, performed, body, -, grouped⟩ :=
    expression_grouping crossing shaped declared
  exact ⟨_, crossing, shaped, declared, draft', text, performed, body, grouped tree rfl,
    by decide +kernel⟩

end TeenyTiny
