import TeenyTiny.Proofs.CLexing
import TeenyTiny.Proofs.Hygiene

/-!
# The C tokens of a tree

The C text of a tree is read back token by token. An operand or a sign of the source is one token of
C (`C.Token.ofSource`), so that an expression has as many C tokens as source tokens, in the same
order (`Expression.reads`): the sign of an operand never runs into what stands before or after it.
Around expressions stand fixed tokens, and every statement has a list of C tokens that is found
again wherever the statement stands (`Statement.scan_toC`).
-/

set_option autoImplicit false

namespace TeenyTiny

open C (Reads)
open Lexeme (Digits Shaped)

/-! ## Operands and signs -/

/-- The C spelling of a number is digits, a point and digits. It is the number itself, unless that
has no point. -/
theorem exists_digits_targetNumber (text : String) (numeral : Lexeme.Numeral text.toList) :
    ∃ whole fraction, Digits whole ∧ Digits fraction ∧
      (targetNumber text).toList = whole ++ '.' :: fraction ∧
        (text.toList = whole ∧ fraction = ['0'] ∨ targetNumber text = text) := by
  unfold targetNumber
  rcases numeral with digits | ⟨whole, fraction, whole_digits, fraction_digits, spelled⟩
  · have pointless : '.' ∉ text.toList := fun member => by simpa using digits.2 '.' member
    rw [if_neg pointless]
    exact ⟨text.toList, ['0'], digits, ⟨by simp, by simp⟩, by simp, .inl ⟨rfl, rfl⟩⟩
  · rw [if_pos (by simp [spelled])]
    exact ⟨whole, fraction, whole_digits, fraction_digits, spelled, .inr rfl⟩

/-- The C token for an operand or a sign. -/
def C.Token.ofSource (lexeme : Lexeme) : C.Token :=
  match lexeme.1 with
  | .number => .number (targetNumber lexeme.2)
  | .ident => .name (targetName lexeme.2)
  | _ => .mark lexeme.2

namespace Tree

theorem Primary.reads {primary : Primary} (shaped : Shaped primary.lexeme) :
    Reads primary.toC [.ofSource primary.lexeme] := by
  cases primary with
  | ident name => exact .name (isName_targetName shaped.1) (targetName_not_mem_reservedNames name)
  | number text =>
      obtain ⟨whole, fraction, whole_digits, fraction_digits, spelled, -⟩ :=
        exists_digits_targetNumber text shaped
      exact .constant whole_digits fraction_digits spelled

/-- A primary starts with a letter or a digit. -/
theorem Primary.head_toC {primary : Primary} (shaped : Shaped primary.lexeme) :
    ∃ c ∈ primary.toC.toList.head?, C.isWordChar c = true := by
  cases primary with
  | ident name =>
      have word : Lexeme.Word name.toList := shaped.1
      obtain ⟨first, others, spelled, letter, -⟩ := isName_targetName word
      refine ⟨first, ?_, by simp [C.isWordChar, Char.isAlphanum, letter]⟩
      simp [Primary.toC, spelled]
  | number text =>
      obtain ⟨whole, fraction, ⟨nonempty, digits⟩, -, spelled, -⟩ :=
        exists_digits_targetNumber text shaped
      obtain ⟨first, others, rfl⟩ := List.exists_cons_of_ne_nil nonempty
      have digit := digits first List.mem_cons_self
      refine ⟨first, ?_, by simp [C.isWordChar, Char.isAlphanum, digit]⟩
      simp [Primary.toC, spelled]

theorem Unary.reads {unary : Unary} (shaped : ∀ lexeme ∈ unary.lexemes, Shaped lexeme) :
    Reads unary.toC (unary.lexemes.map .ofSource) := by
  have inside := shaped unary.primary.lexeme (by simp [Unary.lexemes])
  have primary := Primary.reads inside
  rcases unary with ⟨_ | sign, _⟩
  · simpa [Unary.toC, Unary.lexemes] using primary
  · have isSign : sign.lexeme.2 ∈ ["+", "-", "&"] := by cases sign <;> decide
    have signed := primary.signed isSign (Primary.head_toC inside)
    cases sign <;> exact signed

/-- A sign between two parts is a token of its own. -/
def SignReads (lexeme : Lexeme) : Prop :=
  C.Sealed (" " ++ lexeme.2 ++ " ") ∧
    C.scan (" " ++ lexeme.2 ++ " ") = [.mark lexeme.2] ∧ C.Token.ofSource lexeme = .mark lexeme.2

instance (lexeme : Lexeme) : Decidable (SignReads lexeme) :=
  inferInstanceAs (Decidable (_ ∧ _))

theorem Sign.reads (sign : Sign) : SignReads sign.lexeme := by
  cases sign <;> decide

theorem FactorSign.reads (sign : FactorSign) : SignReads sign.lexeme := by
  cases sign <;> decide

theorem ComparisonSign.reads (sign : ComparisonSign) : SignReads sign.lexeme := by
  cases sign <;> decide

/-- A chain has the tokens of its parts and of the signs between them. -/
theorem Chain.reads {Sign Part : Type} {sign : Sign → Lexeme} {lexemes : Part → List Lexeme}
    {text : Part → String} (signs : ∀ other, SignReads (sign other))
    (parts : ∀ tree, (∀ lexeme ∈ lexemes tree, Shaped lexeme) →
      Reads (text tree) ((lexemes tree).map .ofSource))
    {chain : Chain Sign Part} (shaped : ∀ lexeme ∈ chain.lexemes sign lexemes, Shaped lexeme) :
    Reads (chain.toC sign text) ((chain.lexemes sign lexemes).map .ofSource) := by
  rcases chain with ⟨first, others⟩
  simp only [Chain.lexemes, List.forall_mem_append] at shaped
  obtain ⟨firstShaped, shaped⟩ := shaped
  have start := parts first firstShaped
  simp only [Chain.toC, Chain.lexemes, List.map_append]
  generalize text first = front at start ⊢
  generalize (lexemes first).map C.Token.ofSource = tokens at start ⊢
  induction others generalizing front tokens with
  | nil => simpa using start
  | cons other others ih =>
      simp only [List.flatMap_cons, List.forall_mem_append, List.forall_mem_cons] at shaped
      obtain ⟨closed, alone, same⟩ := signs other.1
      have next := start.joined ⟨closed, alone⟩ (parts other.2 shaped.1.2)
      rw [List.map_cons, String.join_cons, ← String.append_assoc, List.flatMap_cons,
        List.map_append, List.map_cons, same, ← List.append_assoc]
      exact ih shaped.2 _ _ next

theorem Term.reads {term : Term} (shaped : ∀ lexeme ∈ term.lexemes, Shaped lexeme) :
    Reads term.toC (term.lexemes.map .ofSource) :=
  Chain.reads FactorSign.reads (fun _ shaped => Unary.reads shaped) shaped

theorem Expression.reads {expression : Expression}
    (shaped : ∀ lexeme ∈ expression.lexemes, Shaped lexeme) :
    Reads expression.toC (expression.lexemes.map .ofSource) :=
  Chain.reads Sign.reads (fun _ shaped => Term.reads shaped) shaped

theorem Comparison.reads {comparison : Comparison}
    (shaped : ∀ lexeme ∈ comparison.lexemes, Shaped lexeme) :
    Reads comparison.toC (comparison.lexemes.map .ofSource) := by
  simp only [Comparison.lexemes, List.forall_mem_append, List.forall_mem_cons] at shaped
  obtain ⟨closed, alone, same⟩ := comparison.sign.reads
  have others :=
    Chain.reads ComparisonSign.reads (fun _ shaped => Expression.reads shaped) shaped.2.2
  have whole := (Expression.reads shaped.1).joined ⟨closed, alone⟩ others
  rw [Comparison.lexemes, List.map_append, List.map_cons, same]
  simpa only [Comparison.toC, String.append_assoc] using whole

/-! ## Statements -/

/-- The word that starts a block in C. -/
def blockWord : Block → String
  | .branch => "if"
  | .loop => "while"

mutual

/-- The C tokens of a statement. -/
def Statement.tokens : Statement → List C.Token
  | .printText text =>
      [.reserved "printf", .mark "(", .literal ("\"" ++ (text ++ "\\n") ++ "\""), .mark ")",
        .mark ";"]
  | .print expression =>
      [.reserved "printf", .mark "(", .literal "\"%.2f\\n\"", .mark ",", .mark "(",
          .reserved "float", .mark ")", .mark "("] ++
        expression.lexemes.map .ofSource ++ [.mark ")", .mark ")", .mark ";"]
  | .block block guard body =>
      [.reserved (blockWord block), .mark "("] ++ guard.lexemes.map .ofSource ++
        [.mark ")", .mark "\x7b"] ++ body.tokens ++ [.mark "\x7d"]
  | .label name => [.name (targetName name), .mark ":", .mark ";"]
  | .goto name => [.reserved "goto", .name (targetName name), .mark ";"]
  | .assign name expression =>
      [.name (targetName name), .mark "="] ++ expression.lexemes.map .ofSource ++ [.mark ";"]
  | .input name =>
      [.reserved "if", .mark "(", .reserved "scanf", .mark "(", .literal "\"%f\"", .mark ",",
          .mark "&", .name (targetName name), .mark ")", .mark "!=", .number "1", .mark ")",
          .mark "\x7b", .name (targetName name), .mark "=", .number "0", .mark ";",
          .reserved "scanf", .mark "(", .literal "\"%*[^\\n]\"", .mark ")", .mark ";",
          .mark "\x7d"]

/-- The C tokens of statements in order. -/
def Statements.tokens : Statements → List C.Token
  | .nil => []
  | .cons first others => first.tokens ++ others.tokens

end

/-- What the parts of a statement are like if all that it is written with can be written. -/
def Statement.PartsShaped : Statement → Prop
  | .printText text => Shaped (.quoted, text)
  | .print expression => ∀ lexeme ∈ expression.lexemes, Shaped lexeme
  | .block _ guard body =>
      (∀ lexeme ∈ guard.lexemes, Shaped lexeme) ∧ ∀ lexeme ∈ body.lexemes, Shaped lexeme
  | .label name | .goto name | .input name => Shaped (.ident, name)
  | .assign name expression =>
      Shaped (.ident, name) ∧ ∀ lexeme ∈ expression.lexemes, Shaped lexeme

theorem Statement.partsShaped {statement : Statement}
    (shaped : ∀ lexeme ∈ statement.lexemes, Shaped lexeme) : statement.PartsShaped := by
  cases statement with
  | printText text => exact shaped (.quoted, text) (by simp [Statement.lexemes])
  | label name | goto name | input name =>
      exact shaped (.ident, name) (by simp [Statement.lexemes])
  | print expression =>
      intro lexeme member
      exact shaped lexeme (by simp [Statement.lexemes, member])
  | block block guard body =>
      refine ⟨fun lexeme member => ?_, fun lexeme member => ?_⟩
      · exact shaped lexeme (by simp [member])
      · exact shaped lexeme (by simp [member])
  | assign name expression =>
      refine ⟨shaped (.ident, name) (by simp [Statement.lexemes]), fun lexeme member => ?_⟩
      exact shaped lexeme (by simp [Statement.lexemes, member])

/-- The variables that statements set have names that can be written. -/
theorem Statements.shaped_targets {program : Statements}
    (shaped : ∀ lexeme ∈ program.lexemes, Shaped lexeme) :
    ∀ name ∈ firstOccurrences [] program.targets, Shaped (.ident, name) := by
  intro name member
  exact shaped _ (program.ident_mem_lexemes (.inl (mem_firstOccurrences.mp member).1))

/-- The C name of an identifier, as a part of a line. -/
theorem reads_targetName {name : String} (shaped : Shaped (.ident, name)) :
    Reads (targetName name) [.name (targetName name)] :=
  .name (isName_targetName shaped.1) (targetName_not_mem_reservedNames name)

/-- What is printed for a string is one literal. -/
theorem scan_printText {text : String} (shaped : ∀ c ∈ text.toList, Lexeme.inString c = true)
    (rest : String) : C.scan ("printf(\"" ++ text ++ "\\n\");\n" ++ rest) =
      (Statement.printText text).tokens ++ C.scan rest := by
  have plain : ∀ c ∈ text.toList, c ≠ '"' ∧ c ≠ '\\' := fun c member => by
    constructor <;> rintro rfl <;> simpa [Lexeme.inString] using shaped _ member
  have stays {front : List Char} (inside : ∀ c ∈ front, c ∈ text.toList) :
      C.Mode.literal.after front = .literal :=
    (C.Mode.outside_literal fun c member => plain c (inside c member)).2
  have whole := stays fun _ member => member
  have spelled : "printf(\"" ++ text ++ "\\n\");\n" ++ rest =
      "printf(" ++ ("\"" ++ (text ++ "\\n") ++ "\"" ++ (");\n" ++ rest)) := by
    apply String.toList_inj.mp
    simp
  have opened : C.scan "printf(" = [.reserved "printf", .mark "("] := by decide
  have closed : C.scan ");\n" = [.mark ")", .mark ";"] := by decide
  rw [spelled, C.scan_sealed "printf(" (by decide), C.scan_literal,
    C.scan_sealed ");\n" (by decide), opened, closed, Statement.tokens]
  · rfl
  · intro front c rest split
    rw [String.toList_append] at split
    -- a front ends within the text, or it takes in the backslash behind it
    rcases List.append_eq_append_iff.mp split with ⟨more, rfl, tail⟩ | ⟨more, inner, -⟩
    · rw [C.Mode.after_append, whole]
      rcases more with _ | ⟨_, _ | ⟨_, more⟩⟩ <;> simp at tail
      · decide
      · rw [← tail.1]
        decide
    · rw [stays fun c member => inner ▸ List.mem_append_left _ member]
      decide
  · rw [String.toList_append, C.Mode.after_append, whole]
    decide

/-- The tokens of the lines that read a variable in. -/
theorem scan_inputLines {name : String} (shaped : Shaped (.ident, name)) (rest : String) :
    C.scan (Place.inputLines (targetName name) ++ rest) =
      (Statement.input name).tokens ++ C.scan rest := by
  have reads := reads_targetName shaped
  have letter := Primary.head_toC (show Shaped (Primary.ident name).lexeme from shaped)
  have address := reads.signed (show "&" ∈ ["+", "-", "&"] by decide) letter
  have first := address.around "if(scanf(\"%f\", " ") != 1) \x7b\n" (by decide) (by decide)
  have second := reads.around "" " = 0;\n" (by decide) (by decide)
  have spelled : Place.inputLines (targetName name) ++ rest =
      "if(scanf(\"%f\", " ++ ("&" ++ targetName name) ++ ") != 1) \x7b\n" ++
        ("" ++ targetName name ++ " = 0;\n" ++
          ("scanf(\"%*[^\\n]\");\n" ++ ("\x7d\n" ++ rest))) := by
    have opening : "if(scanf(\"%f\", &" = "if(scanf(\"%f\", " ++ "&" := by decide
    have regroup (a b c d e f n : String) : a ++ b ++ n ++ c ++ (n ++ d) ++ e ++ f ++ rest =
        a ++ (b ++ n) ++ c ++ ("" ++ n ++ d ++ (e ++ (f ++ rest))) := by
      simp only [String.append_assoc, String.empty_append]
    rw [← regroup, ← opening]
    rfl
  have opened : C.scan "if(scanf(\"%f\", " =
      [.reserved "if", .mark "(", .reserved "scanf", .mark "(", .literal "\"%f\"", .mark ","] := by
    decide
  have lead : C.scan ") != 1) \x7b\n" =
      [.mark ")", .mark "!=", .number "1", .mark ")", .mark "\x7b"] := by decide
  have reset : C.scan " = 0;\n" = [.mark "=", .number "0", .mark ";"] := by decide
  have skip : C.scan "scanf(\"%*[^\\n]\");\n" =
      [.reserved "scanf", .mark "(", .literal "\"%*[^\\n]\"", .mark ")", .mark ";"] := by decide
  have closed : C.scan "\x7d\n" = [.mark "\x7d"] := by decide
  rw [spelled, first, second, C.scan_sealed "scanf(\"%*[^\\n]\");\n" (by decide),
    C.scan_sealed "\x7d\n" (by decide), opened, lead, reset, skip, closed, Statement.tokens]
  rfl

mutual

/-- Wherever a statement stands, it has its tokens. -/
theorem Statement.scan_toC : ∀ statement : Statement,
    (∀ lexeme ∈ statement.lexemes, Shaped lexeme) → ∀ rest : String,
      C.scan (statement.toC ++ rest) = statement.tokens ++ C.scan rest
  | .printText text, shaped, rest => by
      have quoted : Shaped (.quoted, text) := Statement.partsShaped shaped
      exact scan_printText quoted rest
  | .print expression, shaped, rest => by
      have inside : ∀ lexeme ∈ expression.lexemes, Shaped lexeme :=
        Statement.partsShaped shaped
      have opened : C.scan "printf(\"%.2f\\n\", (float)(" =
          [.reserved "printf", .mark "(", .literal "\"%.2f\\n\"", .mark ",", .mark "(",
            .reserved "float", .mark ")", .mark "("] := by decide
      have closed : C.scan "));\n" = [.mark ")", .mark ")", .mark ";"] := by decide
      rw [Statement.toC_print, Reads.around _ _ (by decide) (Expression.reads inside) (by decide),
        opened, closed, Statement.tokens]
  | .block block guard body, shaped, rest => by
      obtain ⟨inside, bodyShaped⟩ := Statement.partsShaped shaped
      have opens : C.Sealed block.opening := by cases block <;> decide
      have opened : C.scan block.opening = [.reserved (blockWord block), .mark "("] := by
        cases block <;> decide
      have lead : C.scan ")\x7b\n" = [.mark ")", .mark "\x7b"] := by decide
      have closed : C.scan "\x7d\n" = [.mark "\x7d"] := by decide
      rw [Statement.toC_block, String.append_assoc, String.append_assoc,
        Reads.around _ _ opens (Comparison.reads inside) (by decide), body.scan_toC bodyShaped,
        C.scan_sealed "\x7d\n" (by decide), opened, lead, closed, Statement.tokens]
      simp
  | .label name, shaped, rest => by
      have word : Shaped (.ident, name) := Statement.partsShaped shaped
      have closed : C.scan ":;\n" = [.mark ":", .mark ";"] := by decide
      have line := (reads_targetName word).around "" ":;\n" (by decide) (by decide) rest
      rwa [String.empty_append, closed] at line
  | .goto name, shaped, rest => by
      have word : Shaped (.ident, name) := Statement.partsShaped shaped
      have opened : C.scan "goto " = [.reserved "goto"] := by decide
      have closed : C.scan ";\n" = [.mark ";"] := by decide
      rw [Statement.toC_goto, Reads.around _ _ (by decide) (reads_targetName word) (by decide),
        opened, closed, Statement.tokens]
      rfl
  | .assign name expression, shaped, rest => by
      obtain ⟨word, inside⟩ := Statement.partsShaped shaped
      have closed : C.scan ";\n" = [.mark ";"] := by decide
      have isSign : C.Sealed (" " ++ "=" ++ " ") ∧ C.scan (" " ++ "=" ++ " ") = [.mark "="] := by
        decide
      have joined := (reads_targetName word).joined isSign (Expression.reads inside)
      rw [← String.append_assoc] at joined
      have line := joined.around "" ";\n" (by decide) (by decide) rest
      rwa [String.empty_append, closed] at line
  | .input name, shaped, rest => by
      have word : Shaped (.ident, name) := Statement.partsShaped shaped
      rw [Statement.toC_input, scan_inputLines word]

theorem Statements.scan_toC : ∀ statements : Statements,
    (∀ lexeme ∈ statements.lexemes, Shaped lexeme) → ∀ rest : String,
      C.scan (statements.toC ++ rest) = statements.tokens ++ C.scan rest
  | .nil, _, rest => by
      rw [Statements.toC, String.empty_append]
      rfl
  | .cons first others, shaped, rest => by
      rw [Statements.lexemes, List.forall_mem_append] at shaped
      rw [Statements.toC, String.append_assoc, first.scan_toC shaped.1, others.scan_toC shaped.2,
        Statements.tokens, List.append_assoc]

end

end Tree

/-! ## Compiled programs -/

/-- The tree of a source is spelled with tokens that can be written. -/
theorem HasTree.shaped {source : String} {tree : Tree.Statements} (has : HasTree source tree) :
    ∀ lexeme ∈ tree.lexemes, Shaped lexeme := by
  obtain ⟨body, last, lexes, listed⟩ := has
  intro lexeme member
  rw [← listed] at member
  obtain ⟨token, inside, rfl⟩ := List.mem_map.mp (Tree.mem_of_mem_dropBlankLines member)
  exact lexes.shaped token (List.mem_append_left _ inside)

/-- A source that is compiled has a tree, and the program is what the tree is translated to. -/
theorem exists_tree_of_compile {source program : String} (compiled : compile source = .ok program) :
    ∃ tree, HasTree source tree ∧ program = tree.header ++ tree.body := by
  obtain ⟨quiet, rfl⟩ := compile_eq_ok_iff.mp compiled
  have settled := Compilation.settled_of_fault_none quiet
  obtain ⟨tree, has⟩ := Compilation.exists_tree settled
  refine ⟨tree, has, ?_⟩
  rw [Compilation.output_eq has settled]
  rfl

end TeenyTiny
