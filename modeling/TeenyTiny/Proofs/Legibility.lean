import TeenyTiny.Proofs.TreeTokens

/-!
# The source can be read off the C program

Two sources that are compiled to one C program have the same tokens, but for blank lines and for the
spelling of numbers (`compile_injective`). Nothing that a source says is lost, and no string of one
program can pose as a statement of another.

The C tokens of statements are a code in which no statement starts like another one
(`Statement.legible`): given what two statements and their continuations have in common, both
statements are the same, and so are the continuations. An expression ends at the first token that
cannot stand in one (`operands_legible`), and a list of statements at the first token that cannot
start one (`Statements.legible`).
-/

set_option autoImplicit false

namespace TeenyTiny

open Lexeme (Shaped)

/-- A token of the source with numbers spelled as in C. -/
def Lexeme.respelled (lexeme : Lexeme) : Lexeme :=
  if lexeme.1 = .number then (.number, targetNumber lexeme.2) else lexeme

namespace Tree

/-! ## Expressions -/

/-- The kinds of the signs in expressions and comparisons. -/
def signKinds : List Kind :=
  [.plus, .minus, .times, .divide, .equal, .unequal, .less, .atMost, .greater, .atLeast]

/-- An operand or a sign of the source. -/
def Operative (lexeme : Lexeme) : Prop :=
  lexeme.1 = .number ∨ lexeme.1 = .ident ∨ lexeme.1 ∈ signKinds

/-- A property of all signs and of all lexemes of parts is one of all lexemes of a chain. -/
theorem Chain.forall_mem_lexemes {Sign Part : Type} {sign : Sign → Lexeme}
    {lexemes : Part → List Lexeme} {property : Lexeme → Prop}
    (signs : ∀ other, property (sign other))
    (parts : ∀ tree, ∀ lexeme ∈ lexemes tree, property lexeme) (chain : Chain Sign Part) :
    ∀ lexeme ∈ chain.lexemes sign lexemes, property lexeme := by
  intro lexeme member
  rcases List.mem_append.mp member with member | member
  · exact parts _ lexeme member
  · obtain ⟨other, -, member⟩ := List.mem_flatMap.mp member
    rcases List.mem_cons.mp member with rfl | member
    · exact signs other.1
    · exact parts _ lexeme member

theorem Expression.operative (expression : Expression) :
    ∀ lexeme ∈ expression.lexemes, Operative lexeme := by
  refine Chain.forall_mem_lexemes (fun sign => ?_) (fun term => ?_) expression
  · cases sign <;> simp [Operative, Sign.lexeme, signKinds]
  · refine Chain.forall_mem_lexemes (fun sign => ?_) (fun unary => ?_) term
    · cases sign <;> simp [Operative, FactorSign.lexeme, signKinds]
    · rcases unary with ⟨_ | _ | _, _ | _⟩ <;>
        simp [Operative, Unary.lexemes, Sign.lexeme, Primary.lexeme, signKinds]

theorem Comparison.operative (comparison : Comparison) :
    ∀ lexeme ∈ comparison.lexemes, Operative lexeme := by
  have signs (sign : ComparisonSign) : Operative sign.lexeme := by
    cases sign <;> simp [Operative, ComparisonSign.lexeme, signKinds]
  have others := Chain.forall_mem_lexemes signs Expression.operative comparison.others
  rw [Comparison.lexemes, List.forall_mem_append, List.forall_mem_cons]
  exact ⟨comparison.first.operative, signs comparison.sign, others⟩

@[simp] theorem ofSource_ne_reserved (lexeme : Lexeme) (word : String) :
    C.Token.ofSource lexeme ≠ .reserved word := by
  unfold C.Token.ofSource
  split <;> simp

/-- What the C token of an operand or a sign can be. -/
theorem ofSource_cases {lexeme : Lexeme} (operative : Operative lexeme) (shaped : Shaped lexeme) :
    (lexeme.1 = .number ∧ C.Token.ofSource lexeme = .number (targetNumber lexeme.2)) ∨
      (lexeme.1 = .ident ∧ C.Token.ofSource lexeme = .name (targetName lexeme.2)) ∨
        (lexeme.1 ∈ signKinds ∧ lexeme.1.spelling? = some lexeme.2 ∧
          C.Token.ofSource lexeme = .mark lexeme.2) := by
  obtain ⟨kind, text⟩ := lexeme
  rcases operative with number | ident | sign
  · obtain rfl : kind = .number := number
    exact .inl ⟨rfl, rfl⟩
  · obtain rfl : kind = .ident := ident
    exact .inr (.inl ⟨rfl, rfl⟩)
  · refine .inr (.inr ⟨sign, ?_⟩)
    simp only [signKinds, List.mem_cons, List.not_mem_nil, or_false] at sign
    rcases sign with rfl | rfl | rfl | rfl | rfl | rfl | rfl | rfl | rfl | rfl <;>
      exact ⟨shaped, rfl⟩

/-- The C tokens of operands and signs tell them apart, but for the spelling of numbers. -/
theorem respelled_of_ofSource {lexeme lexeme' : Lexeme} (operative : Operative lexeme)
    (operative' : Operative lexeme') (shaped : Shaped lexeme) (shaped' : Shaped lexeme')
    (same : C.Token.ofSource lexeme = .ofSource lexeme') :
    lexeme.respelled = lexeme'.respelled := by
  have kinds : ∀ kind ∈ signKinds, ∀ kind' ∈ signKinds, kind.spelling? = kind'.spelling? →
      kind = kind' := by decide
  rcases ofSource_cases operative shaped with
      ⟨kind, token⟩ | ⟨kind, token⟩ | ⟨sign, text, token⟩ <;>
    rcases ofSource_cases operative' shaped' with
      ⟨kind', token'⟩ | ⟨kind', token'⟩ | ⟨sign', text', token'⟩ <;>
    simp only [token, token', C.Token.number.injEq, C.Token.name.injEq, C.Token.mark.injEq,
      reduceCtorEq] at same
  · rw [Lexeme.respelled, Lexeme.respelled, if_pos kind, if_pos kind', same]
  · have names := targetName_inj (word_of_shaped shaped kind) (word_of_shaped shaped' kind') same
    rw [Prod.ext (kind.trans kind'.symm) names]
  · have spelled : lexeme.1.spelling? = lexeme'.1.spelling? := by rw [text, text', same]
    rw [Prod.ext (kinds _ sign _ sign' spelled) same]

/-- Where operands and signs end with a parenthesis or a semicolon, they can be told from what
follows. -/
theorem operands_legible {lexemes lexemes' : List Lexeme} {close close' : String}
    {rest rest' : List C.Token} (operative : ∀ lexeme ∈ lexemes, Operative lexeme)
    (operative' : ∀ lexeme ∈ lexemes', Operative lexeme)
    (shaped : ∀ lexeme ∈ lexemes, Shaped lexeme) (shaped' : ∀ lexeme ∈ lexemes', Shaped lexeme)
    (closes : close ∈ [")", ";"]) (closes' : close' ∈ [")", ";"])
    (same : lexemes.map C.Token.ofSource ++ .mark close :: rest =
      lexemes'.map C.Token.ofSource ++ .mark close' :: rest') :
    lexemes.map Lexeme.respelled = lexemes'.map Lexeme.respelled ∧ close = close' ∧
      rest = rest' := by
  -- no sign closes an expression
  have other {lexeme : Lexeme} {close : String} (closes : close ∈ [")", ";"])
      (operative : Operative lexeme) (shaped : Shaped lexeme) :
      C.Token.ofSource lexeme ≠ .mark close := by
    have kinds : ∀ kind ∈ signKinds, ∀ close ∈ [")", ";"], kind.spelling? ≠ some close := by decide
    rcases ofSource_cases operative shaped with
        ⟨-, token⟩ | ⟨-, token⟩ | ⟨sign, text, token⟩ <;>
      rw [token]
    · simp
    · simp
    · intro here
      exact kinds _ sign close closes (text.trans (congrArg some (C.Token.mark.inj here)))
  induction lexemes generalizing lexemes' with
  | nil =>
      cases lexemes' with
      | nil => simpa using same
      | cons lexeme' lexemes' =>
          have head := (List.cons.inj same).1
          exact absurd head.symm
            (other closes (operative' _ List.mem_cons_self) (shaped' _ List.mem_cons_self))
  | cons lexeme lexemes ih =>
      obtain ⟨here, operative⟩ := List.forall_mem_cons.mp operative
      obtain ⟨spelled, shaped⟩ := List.forall_mem_cons.mp shaped
      cases lexemes' with
      | nil =>
          have head := (List.cons.inj same).1
          exact absurd head (other closes' here spelled)
      | cons lexeme' lexemes' =>
          obtain ⟨here', operative'⟩ := List.forall_mem_cons.mp operative'
          obtain ⟨spelled', shaped'⟩ := List.forall_mem_cons.mp shaped'
          obtain ⟨head, tail⟩ := List.cons.inj same
          obtain ⟨later, rest⟩ := ih operative operative' shaped shaped' tail
          refine ⟨?_, rest⟩
          rw [List.map_cons, List.map_cons, later,
            respelled_of_ofSource here here' spelled spelled' head]

/-! ## Statements -/

/-- A token that no statement starts with. -/
def Closes (token : C.Token) : Prop :=
  token = .mark "\x7d" ∨ token = .reserved "return"

theorem Statement.tokens_cons (statement : Statement) :
    ∃ first others, statement.tokens = first :: others ∧ ¬ Closes first ∧
      first ≠ .reserved "float" := by
  cases statement with
  | block block guard body =>
      refine ⟨_, _, rfl, ?_, ?_⟩ <;> cases block <;> simp [Closes, blockWord]
  | _ => exact ⟨_, _, rfl, by simp [Closes], by simp⟩

/-- The two statements that C opens with the same word are told apart by what is in the parentheses:
a comparison does not start with a call. -/
theorem guard_ne_call (guard : Comparison) (rest rest' : List C.Token) :
    guard.lexemes.map C.Token.ofSource ++ rest ≠ .reserved "scanf" :: rest' := by
  rcases guard with ⟨⟨⟨⟨_ | _, _⟩, _⟩, _⟩, _, _⟩ <;>
    simp [Comparison.lexemes, Expression.lexemes, Term.lexemes, Chain.lexemes, Unary.lexemes]

mutual

/-- No statement starts like another one: what follows two equal fronts is equal. -/
theorem Statement.legible {rest rest' : List C.Token} : ∀ statement statement' : Statement,
    (∀ lexeme ∈ statement.lexemes, Shaped lexeme) → (∀ lexeme ∈ statement'.lexemes, Shaped lexeme) →
      statement.tokens ++ rest = statement'.tokens ++ rest' →
        statement.lexemes.map Lexeme.respelled = statement'.lexemes.map Lexeme.respelled ∧
          rest = rest'
  | .printText text, statement', shaped, shaped', same => by
      cases statement' with
      | printText text' =>
          simp only [Statement.tokens, List.cons_append, List.nil_append, List.cons.injEq,
            C.Token.literal.injEq, String.append_left_inj, String.append_right_inj,
            true_and] at same
          obtain ⟨rfl, same⟩ := same
          exact ⟨rfl, same⟩
      | block block guard body => cases block <;> simp [Statement.tokens, blockWord] at same
      | _ => simp [Statement.tokens] at same
  | .print expression, statement', shaped, shaped', same => by
      cases statement' with
      | print expression' =>
          simp only [Statement.tokens, List.cons_append, List.append_assoc, List.cons.injEq,
            true_and, List.nil_append] at same
          obtain ⟨inside, -, same⟩ := operands_legible expression.operative expression'.operative
            (Statement.partsShaped shaped) (Statement.partsShaped shaped') (by decide) (by decide)
            same
          simp only [List.cons.injEq, true_and] at same
          exact ⟨by simp [Statement.lexemes, inside], same⟩
      | block block guard body => cases block <;> simp [Statement.tokens, blockWord] at same
      | _ => simp [Statement.tokens] at same
  | .block block guard body, statement', shaped, shaped', same => by
      cases statement' with
      | block block' guard' body' =>
          obtain rfl : block = block' := by
            cases block <;> cases block' <;> simp [Statement.tokens, blockWord] at same ⊢
          obtain ⟨operands, bodyShaped⟩ := Statement.partsShaped shaped
          obtain ⟨operands', bodyShaped'⟩ := Statement.partsShaped shaped'
          simp only [Statement.tokens, List.cons_append, List.append_assoc, List.cons.injEq,
            true_and, List.nil_append] at same
          obtain ⟨inside, -, same⟩ := operands_legible guard.operative guard'.operative
            operands operands' (by decide) (by decide) same
          simp only [List.cons.injEq, true_and] at same
          obtain ⟨later, same⟩ := body.legible (.inl rfl) (.inl rfl) body' bodyShaped
            bodyShaped' same
          simp only [List.cons.injEq, true_and] at same
          exact ⟨by simp [inside, later], same⟩
      | input name =>
          cases block <;> simp [Statement.tokens, blockWord, guard_ne_call] at same
      | _ => cases block <;> simp [Statement.tokens, blockWord] at same
  | .label name, statement', shaped, shaped', same => by
      cases statement' with
      | label name' =>
          have word : Shaped (.ident, name) := Statement.partsShaped shaped
          have word' : Shaped (.ident, name') := Statement.partsShaped shaped'
          simp only [Statement.tokens, List.cons_append, List.nil_append, List.cons.injEq,
            C.Token.name.injEq, true_and] at same
          obtain rfl := targetName_inj word.1 word'.1 same.1
          exact ⟨rfl, same.2⟩
      | _ => simp [Statement.tokens] at same
  | .goto name, statement', shaped, shaped', same => by
      cases statement' with
      | goto name' =>
          have word : Shaped (.ident, name) := Statement.partsShaped shaped
          have word' : Shaped (.ident, name') := Statement.partsShaped shaped'
          simp only [Statement.tokens, List.cons_append, List.nil_append, List.cons.injEq,
            C.Token.name.injEq, true_and] at same
          obtain rfl := targetName_inj word.1 word'.1 same.1
          exact ⟨rfl, same.2⟩
      | block block guard body => cases block <;> simp [Statement.tokens, blockWord] at same
      | _ => simp [Statement.tokens] at same
  | .assign name expression, statement', shaped, shaped', same => by
      cases statement' with
      | assign name' expression' =>
          obtain ⟨word, operands⟩ := Statement.partsShaped shaped
          obtain ⟨word', operands'⟩ := Statement.partsShaped shaped'
          simp only [Statement.tokens, List.cons_append, List.append_assoc, List.cons.injEq,
            true_and, List.nil_append, C.Token.name.injEq] at same
          obtain rfl := targetName_inj word.1 word'.1 same.1
          obtain ⟨inside, -, same⟩ := operands_legible expression.operative expression'.operative
            operands operands' (by decide) (by decide) same.2
          exact ⟨by simp [Statement.lexemes, inside], same⟩
      | _ => simp [Statement.tokens] at same
  | .input name, statement', shaped, shaped', same => by
      cases statement' with
      | input name' =>
          have word : Shaped (.ident, name) := Statement.partsShaped shaped
          have word' : Shaped (.ident, name') := Statement.partsShaped shaped'
          simp only [Statement.tokens, List.cons_append, List.nil_append, List.cons.injEq,
            C.Token.name.injEq, true_and, and_self_left] at same
          obtain rfl := targetName_inj word.1 word'.1 same.1
          exact ⟨rfl, same.2⟩
      | block block guard body =>
          cases block <;> simp [Statement.tokens, blockWord, (guard_ne_call _ _ _).symm] at same
      | _ => simp [Statement.tokens] at same

/-- Statements end with the first token that cannot start one. -/
theorem Statements.legible {token token' : C.Token} {rest rest' : List C.Token}
    (closes : Closes token) (closes' : Closes token') : ∀ statements statements' : Statements,
      (∀ lexeme ∈ statements.lexemes, Shaped lexeme) →
        (∀ lexeme ∈ statements'.lexemes, Shaped lexeme) →
          statements.tokens ++ token :: rest = statements'.tokens ++ token' :: rest' →
            statements.lexemes.map Lexeme.respelled = statements'.lexemes.map Lexeme.respelled ∧
              token :: rest = token' :: rest'
  | .nil, .nil, _, _, same => ⟨rfl, same⟩
  | .nil, .cons first others, _, _, same => by
      obtain ⟨head, tail, spelled, opens, -⟩ := first.tokens_cons
      rw [Statements.tokens, Statements.tokens, spelled] at same
      exact absurd closes ((List.cons.inj same).1 ▸ opens)
  | .cons first others, .nil, _, _, same => by
      obtain ⟨head, tail, spelled, opens, -⟩ := first.tokens_cons
      rw [Statements.tokens, Statements.tokens, spelled] at same
      exact absurd closes' ((List.cons.inj same).1 ▸ opens)
  | .cons first others, .cons first' others', shaped, shaped', same => by
      rw [Statements.lexemes, List.forall_mem_append] at shaped shaped'
      rw [Statements.tokens, Statements.tokens, List.append_assoc, List.append_assoc] at same
      obtain ⟨here, same⟩ := first.legible first' shaped.1 shaped'.1 same
      obtain ⟨later, same⟩ := others.legible closes closes' others' shaped.2 shaped'.2 same
      rw [Statements.lexemes, Statements.lexemes, List.map_append, List.map_append, here, later]
      exact ⟨rfl, same⟩

end

/-! ## Programs -/

/-- The C tokens of a declaration. -/
def declarationTokens (name : String) : List C.Token :=
  [.reserved "float", .name (targetName name), .mark ";"]

theorem scan_declarations {names : List String} (shaped : ∀ name ∈ names, Shaped (.ident, name))
    (rest : String) : C.scan (String.join (names.map declaration) ++ rest) =
      names.flatMap declarationTokens ++ C.scan rest := by
  have opened : C.scan "float " = [.reserved "float"] := by decide
  have closed : C.scan ";\n" = [.mark ";"] := by decide
  induction names with
  | nil => rw [List.map_nil, String.join_nil, String.empty_append]; rfl
  | cons name names ih =>
      obtain ⟨here, shaped⟩ := List.forall_mem_cons.mp shaped
      rw [List.map_cons, String.join_cons, String.append_assoc, declaration,
        (reads_targetName here).around _ _ (by decide) (by decide), ih shaped, opened, closed,
        List.flatMap_cons, List.append_assoc]
      rfl

/-- Declarations end with the first token that cannot start one. -/
theorem declarations_legible {names names' : List String} {first first' : C.Token}
    {tokens tokens' : List C.Token} (other : first ≠ .reserved "float")
    (other' : first' ≠ .reserved "float")
    (same : names.flatMap declarationTokens ++ first :: tokens =
      names'.flatMap declarationTokens ++ first' :: tokens') :
    first :: tokens = first' :: tokens' := by
  induction names generalizing names' with
  | nil =>
      cases names' with
      | nil => exact same
      | cons name' names' => exact absurd (List.cons.inj same).1 other
  | cons name names ih =>
      cases names' with
      | nil => exact absurd (List.cons.inj same).1.symm other'
      | cons name' names' =>
          simp only [List.flatMap_cons, declarationTokens, List.cons_append, List.nil_append,
            List.cons.injEq, true_and] at same
          exact ih same.2

/-- The C tokens of the end of a program. -/
def endTokens : List C.Token :=
  [.reserved "return", .number "0", .mark ";", .mark "\x7d"]

/-- The C tokens of a program: those of its opening, its declarations, its statements and its
end. -/
theorem Statements.scan_program {program : Statements}
    (shaped : ∀ lexeme ∈ program.lexemes, Shaped lexeme) :
    C.scan (program.header ++ program.body) =
      C.scan "#include <stdio.h>\nint main(void)\x7b\n" ++
        ((firstOccurrences [] program.targets).flatMap declarationTokens ++
          (program.tokens ++ endTokens)) := by
  have ending : C.scan "return 0;\n\x7d\n" = endTokens := by decide
  have spelled : program.header ++ program.body =
      "#include <stdio.h>\nint main(void)\x7b\n" ++
        (String.join ((firstOccurrences [] program.targets).map declaration) ++
          (program.toC ++ "return 0;\n\x7d\n")) := String.append_assoc ..
  rw [spelled, C.scan_sealed "#include <stdio.h>\nint main(void)\x7b\n" (by decide),
    scan_declarations (shaped_targets shaped), program.scan_toC shaped, ending]

/-- The first token behind the declarations declares nothing. -/
theorem Statements.exists_first (program : Statements) :
    ∃ first others, program.tokens ++ endTokens = first :: others ∧ first ≠ .reserved "float" := by
  cases program with
  | nil => exact ⟨_, _, rfl, by decide⟩
  | cons statement statements =>
      obtain ⟨first, others, spelled, -, other⟩ := statement.tokens_cons
      rw [Statements.tokens, spelled]
      exact ⟨first, _, rfl, other⟩

/-- Two trees with the same C program are the same, but for the spelling of numbers. -/
theorem Statements.legible_program {program program' : Statements}
    (shaped : ∀ lexeme ∈ program.lexemes, Shaped lexeme)
    (shaped' : ∀ lexeme ∈ program'.lexemes, Shaped lexeme)
    (same : program.header ++ program.body = program'.header ++ program'.body) :
    program.lexemes.map Lexeme.respelled = program'.lexemes.map Lexeme.respelled := by
  have scanned := congrArg C.scan same
  rw [scan_program shaped, scan_program shaped', List.append_cancel_left_eq] at scanned
  obtain ⟨first, others, spelled, other⟩ := program.exists_first
  obtain ⟨first', others', spelled', other'⟩ := program'.exists_first
  rw [spelled, spelled'] at scanned
  have tokens := declarations_legible other other' scanned
  rw [← spelled, ← spelled'] at tokens
  exact (program.legible (.inr rfl) (.inr rfl) program' shaped shaped' tokens).1

end Tree

/-! ## Sources -/

/-- The tokens of a source, blank lines apart, with its numbers spelled as in C. -/
def normalTokens (tokens : List Token) : List Lexeme :=
  (Tree.withoutBlankLines (tokens.map Token.lexeme)).map Lexeme.respelled

/-- The normal tokens of a source that has a tree are the listing of the tree, with the end of the
text behind it. -/
theorem HasTree.exists_tokens {source : String} {tree : Tree.Statements}
    (has : HasTree source tree) :
    ∃ tokens, (Cursor.ofSource source).Lexes tokens ∧
      normalTokens tokens = tree.lexemes.map Lexeme.respelled ++ [(.eof, "")] := by
  obtain ⟨body, last, lexes, listed⟩ := has
  obtain ⟨ended, -⟩ := lexes.ends
  have final : last.lexeme = (.eof, "") := by
    have spelled := lexes.shaped last (by simp)
    rw [Token.lexeme, ended] at spelled ⊢
    rw [Option.some.inj spelled]
  have other : last.lexeme.1 ≠ .newline := by simp [final]
  refine ⟨body ++ [last], lexes, ?_⟩
  rw [normalTokens, List.map_append, List.map_cons, List.map_nil, Tree.withoutBlankLines,
    Tree.dropBlankLines_append other, ← Tree.withoutBlankLines, listed, List.map_append, final]
  rfl

/-- Two sources that are compiled to one C program have the same tokens, but for blank lines and the
spelling of numbers. -/
theorem compile_injective {source source' program : String}
    (compiled : compile source = .ok program) (compiled' : compile source' = .ok program) :
    ∃ tokens tokens', (Cursor.ofSource source).Lexes tokens ∧
      (Cursor.ofSource source').Lexes tokens' ∧ normalTokens tokens = normalTokens tokens' := by
  obtain ⟨tree, has, rfl⟩ := exists_tree_of_compile compiled
  obtain ⟨tree', has', same⟩ := exists_tree_of_compile compiled'
  obtain ⟨tokens, lexes, normal⟩ := has.exists_tokens
  obtain ⟨tokens', lexes', normal'⟩ := has'.exists_tokens
  refine ⟨tokens, tokens', lexes, lexes', ?_⟩
  rw [normal, normal', Tree.Statements.legible_program has.shaped has'.shaped same]

/-- Two sources that differ in blank lines and in the spelling of a number, and that are compiled to
one program. -/
theorem compile_injective_respelled :
    let program := "#include <stdio.h>\nint main(void)\x7b\nfloat a;\n" ++
      "a = 1.0;\nprintf(\");\\n\");\nreturn 0;\n\x7d\n"
    compile "LET a = 1\nPRINT \");\"" = .ok program ∧
      compile "\nLET a = 1.0\n\nPRINT \");\"\n" = .ok program ∧
        ∃ tokens tokens', (Cursor.ofSource "LET a = 1\nPRINT \");\"").Lexes tokens ∧
          (Cursor.ofSource "\nLET a = 1.0\n\nPRINT \");\"\n").Lexes tokens' ∧
            normalTokens tokens = normalTokens tokens' := by
  intro program
  have supply : (Cursor.ofSource "LET a = 1\nPRINT \");\"").supply =
      ⟨[⟨.letWord, "LET", 0⟩, ⟨.ident, "a", 4⟩, ⟨.assign, "=", 6⟩, ⟨.number, "1", 8⟩,
        ⟨.newline, "\n", 9⟩, ⟨.printWord, "PRINT", 10⟩, ⟨.quoted, ");", 16⟩, ⟨.newline, "\n", 20⟩],
        .ok ⟨.eof, "", 21⟩⟩ :=
    Cursor.supply_of_take (by rfl) (by decide) (by rintro _ ⟨⟩; rfl)
  have supply' : (Cursor.ofSource "\nLET a = 1.0\n\nPRINT \");\"\n").supply =
      ⟨[⟨.newline, "\n", 0⟩, ⟨.letWord, "LET", 1⟩, ⟨.ident, "a", 5⟩, ⟨.assign, "=", 7⟩,
        ⟨.number, "1.0", 9⟩, ⟨.newline, "\n", 12⟩, ⟨.newline, "\n", 13⟩,
        ⟨.printWord, "PRINT", 14⟩, ⟨.quoted, ");", 20⟩, ⟨.newline, "\n", 24⟩,
        ⟨.newline, "\n", 25⟩], .ok ⟨.eof, "", 26⟩⟩ :=
    Cursor.supply_of_take (by rfl) (by decide) (by rintro _ ⟨⟩; rfl)
  have compiled : compile "LET a = 1\nPRINT \");\"" = .ok program := by
    rw [compile, Compilation.ofSource, Cursor.compile, supply]
    rfl
  have compiled' : compile "\nLET a = 1.0\n\nPRINT \");\"\n" = .ok program := by
    rw [compile, Compilation.ofSource, Cursor.compile, supply']
    rfl
  exact ⟨compiled, compiled', compile_injective compiled compiled'⟩

end TeenyTiny
