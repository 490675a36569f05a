import TeenyTiny.Proofs.CText
import TeenyTiny.Proofs.WellNamed

/-!
# The names of a compiled program

The C program that a source is compiled to is read again, line by line, without regard to how it was
written. Its header declares each variable once, its body mentions no other variables, and every
jump of the body has one label. All its names are names in C that C does not use for itself, and
different names of the source have different names in C (`compile_hygienic`).

The mark in front of a reserved name is what keeps names apart: no name of the source has it, since
no name of the source has an underscore (`targetName_inj`).
-/

set_option autoImplicit false

namespace TeenyTiny

open C (IsName IsSign Mentions Mirrors)
open Lexeme (Word Shaped)

/-! ## The C spelling of names -/

/-- The mark in front of a reserved name. -/
theorem toList_mark (name : String) : ("v_" ++ name).toList = 'v' :: '_' :: name.toList := by
  simp

/-- No reserved name has the mark in front. -/
theorem mark_not_mem_reservedNames {name : String} : "v_" ++ name ∉ reservedNames := by
  have none : ∀ other ∈ reservedNames, other.toList.take 2 ≠ ['v', '_'] := by decide
  intro member
  exact none _ member (by rw [toList_mark]; rfl)

/-- A C name is not reserved. -/
theorem targetName_not_mem_reservedNames (name : String) :
    targetName name ∉ reservedNames := by
  unfold targetName
  split
  · exact mark_not_mem_reservedNames
  · next free => exact free

theorem isWordChar_of_word {text : List Char} (word : Word text) :
    ∀ c ∈ text, C.isWordChar c = true ∧ c ≠ '_' := by
  obtain ⟨first, others, rfl, letter, alphanumeric⟩ := word
  have each : ∀ c ∈ first :: others, c.isAlphanum = true :=
    List.forall_mem_cons.mpr ⟨by simp [Char.isAlphanum, letter], alphanumeric⟩
  intro c member
  have here := each c member
  refine ⟨by simp [C.isWordChar, here], ?_⟩
  rintro rfl
  simp at here

/-- The C name of a word is a name in C. -/
theorem isName_targetName {name : String} (word : Word name.toList) : IsName (targetName name) := by
  have each := fun c member => (isWordChar_of_word word c member).1
  unfold targetName
  split
  · exact ⟨'v', '_' :: name.toList, toList_mark name, by decide,
      List.forall_mem_cons.mpr ⟨by decide, each⟩⟩
  · obtain ⟨first, others, spelled, letter, -⟩ := word
    rw [spelled] at each
    exact ⟨first, others, spelled, letter, (List.forall_mem_cons.mp each).2⟩

/-- Different words have different C names. -/
theorem targetName_inj {name name' : String} (word : Word name.toList) (word' : Word name'.toList)
    (same : targetName name = targetName name') : name = name' := by
  have unmarked {marked plain : String} (word : Word plain.toList) : "v_" ++ marked ≠ plain := by
    rintro rfl
    exact (isWordChar_of_word word '_' (by simp)).2 rfl
  unfold targetName at same
  split at same <;> split at same
  · have spelled := congrArg String.toList same
    rw [toList_mark, toList_mark] at spelled
    simpa [String.ext_iff] using spelled
  · exact absurd same (unmarked word')
  · exact absurd same.symm (unmarked word)
  · exact same

theorem nodup_map_targetName {names : List String} (distinct : names.Nodup)
    (words : ∀ name ∈ names, Word name.toList) : (names.map targetName).Nodup := by
  refine List.pairwise_map.mpr (distinct.imp_of_mem fun here there differ same => ?_)
  exact differ (targetName_inj (words _ here) (words _ there) same)

/-- An identifier is a word. -/
theorem word_of_shaped {lexeme : Lexeme} (shaped : Shaped lexeme) (ident : lexeme.1 = .ident) :
    Word lexeme.2.toList := by
  rw [Shaped, ident] at shaped
  exact shaped.1

/-! ## Expressions -/

namespace Tree

theorem isSign_sign (sign : Sign) : IsSign sign.lexeme.2 := by
  cases sign <;> decide

theorem isSign_factorSign (sign : FactorSign) : IsSign sign.lexeme.2 := by
  cases sign <;> decide

theorem isSign_comparisonSign (sign : ComparisonSign) : IsSign sign.lexeme.2 := by
  cases sign <;> decide

/-- The C text of a primary mentions the C name of what it reads. -/
theorem Primary.mentions {primary : Primary} (shaped : Shaped primary.lexeme) :
    Mentions primary.toC (primary.uses.map targetName) := by
  cases primary with
  | ident name => exact .name (isName_targetName shaped.1)
  | number text =>
      have zero : Lexeme.Digits ['0'] := ⟨by simp, by simp⟩
      have numeral : Lexeme.Numeral text.toList := shaped
      show Mentions (targetNumber text) []
      unfold targetNumber
      rcases numeral with digits | ⟨whole, fraction, whole_digits, fraction_digits, spelled⟩
      · have pointless : '.' ∉ text.toList := fun member => by simpa using digits.2 '.' member
        rw [if_neg pointless]
        exact .number digits zero (by simp)
      · rw [if_pos (by simp [spelled])]
        exact .number whole_digits fraction_digits spelled

/-- A chain mentions the C names of what its parts read. -/
theorem Chain.mentions {Sign Part : Type} {sign : Sign → Lexeme} {lexemes : Part → List Lexeme}
    {text : Part → String} {uses : Part → List String} (signs : ∀ other, IsSign (sign other).2)
    (parts : ∀ tree, (∀ lexeme ∈ lexemes tree, Shaped lexeme) →
      Mentions (text tree) ((uses tree).map targetName))
    {chain : Chain Sign Part} (shaped : ∀ lexeme ∈ chain.lexemes sign lexemes, Shaped lexeme) :
    Mentions (chain.toC sign text) ((chain.uses uses).map targetName) := by
  rcases chain with ⟨first, others⟩
  simp only [Chain.lexemes, List.forall_mem_append] at shaped
  obtain ⟨firstShaped, shaped⟩ := shaped
  have start := parts first firstShaped
  simp only [Chain.toC, Chain.uses, List.map_append]
  generalize text first = front at start ⊢
  generalize (uses first).map targetName = names at start ⊢
  induction others generalizing front names with
  | nil => simpa using start
  | cons other others ih =>
      simp only [List.flatMap_cons, List.forall_mem_append, List.forall_mem_cons] at shaped
      have next := start.joined (signs other.1) (parts other.2 shaped.1.2)
      rw [List.map_cons, String.join_cons, ← String.append_assoc, List.flatMap_cons,
        List.map_append, ← List.append_assoc]
      exact ih shaped.2 _ _ next

theorem Expression.mentions {expression : Expression}
    (shaped : ∀ lexeme ∈ expression.lexemes, Shaped lexeme) :
    Mentions expression.toC (expression.uses.map targetName) := by
  refine Chain.mentions isSign_sign (fun term shaped => ?_) shaped
  refine Chain.mentions isSign_factorSign (fun unary shaped => ?_) shaped
  have primary := Primary.mentions (shaped unary.primary.lexeme (by simp [Unary.lexemes]))
  rcases unary with ⟨_ | sign, _⟩
  · simpa [Unary.toC] using primary
  · exact primary.signed (isSign_sign sign)

theorem Comparison.mentions {comparison : Comparison}
    (shaped : ∀ lexeme ∈ comparison.lexemes, Shaped lexeme) :
    Mentions comparison.toC (comparison.uses.map targetName) := by
  simp only [Comparison.lexemes, List.forall_mem_append, List.forall_mem_cons] at shaped
  have others := Chain.mentions isSign_comparisonSign
    (fun expression shaped => Expression.mentions shaped) shaped.2.2
  have whole := (Expression.mentions shaped.1).joined (isSign_comparisonSign comparison.sign) others
  rw [Comparison.uses, List.map_append]
  simpa only [Comparison.toC, String.append_assoc] using whole

end Tree

/-! ## Lines -/

section

variable {name text : String} {names vars : List String}

theorem not_mem_of_mentions (mentions : Mentions text names) :
    '"' ∉ text.toList ∧ '\n' ∉ text.toList :=
  ⟨fun member => (mentions.plain _ member).1 rfl, fun member => (mentions.plain _ member).2 rfl⟩

/-- A line that sets a label. -/
theorem mirrors_label (isName : IsName name) : Mirrors (name ++ ":;\n") vars [] [name] := by
  obtain ⟨quotes, inside⟩ := not_mem_of_mentions (.name isName)
  have read : C.read (name ++ ":;") = [.word name.toList, .mark ':', .mark ';'] := by
    have around : C.read ("" ++ name ++ ":;") = _ :=
      C.read_around quotes (by decide) (by decide) (by decide)
    rwa [String.empty_append, isName.tokens] at around
  have label : C.label? (name ++ ":;") = some name := by simp [C.label?, read]
  refine .line (name ++ ":;") (String.append_assoc ..) (by simpa using inside)
    (by simp [C.jump?, read]) (by simp [label]) ?_
  simp [C.mentioned, label]

/-- A line that jumps to a label. -/
theorem mirrors_goto (isName : IsName name) :
    Mirrors ("goto " ++ name ++ ";\n") vars [name] [] := by
  obtain ⟨quotes, inside⟩ := not_mem_of_mentions (.name isName)
  have read : C.read ("goto " ++ name ++ ";") =
      [.word "goto".toList, .word name.toList, .mark ';'] := by
    have around : C.read ("goto " ++ name ++ ";") = _ :=
      C.read_around quotes (by decide) (by decide) (by decide)
    rwa [isName.tokens] at around
  have jump : C.jump? ("goto " ++ name ++ ";") = some name := by simp [C.jump?, read]
  refine .line ("goto " ++ name ++ ";") (String.append_assoc ..) (by simpa using inside)
    (by simp [jump]) (by simp [C.label?, read]) ?_
  simp [C.mentioned, jump]

/-- A line that prints a text. -/
theorem mirrors_printText (shaped : ∀ c ∈ text.toList, Lexeme.inString c = true) :
    Mirrors ("printf(\"" ++ text ++ "\\n\");\n") vars [] [] := by
  have inside : '\n' ∉ text.toList := fun member => by simpa [Lexeme.inString] using shaped _ member
  have plain : ∀ c ∈ text.toList, c ≠ '"' ∧ c ≠ '\\' := fun c member => by
    constructor <;> rintro rfl <;> simpa [Lexeme.inString] using shaped _ member
  have read : C.read ("printf(\"" ++ text ++ "\\n\");") =
      [.word "printf".toList, .mark '(', .mark '"', .mark '"', .mark ')', .mark ';'] := by
    obtain ⟨none, stays⟩ := C.Mode.outside_literal plain
    have opened : C.Mode.code.after "printf(\"".toList = .literal := by decide
    rw [C.read, String.toList_append, String.toList_append, List.append_assoc,
      C.Mode.outside_append, opened, C.Mode.outside_append, none, stays, List.nil_append]
    decide
  refine .code ("printf(\"" ++ text ++ "\\n\");") (String.append_assoc ..) (by simpa using inside)
    read (by decide) ?_
  simp [C.named]

/-- A line that calls something, with a part of the line inside. -/
theorem mirrors_call (opening closing : String) {ending : String} {callee : List Char}
    {front back : List C.Piece} (mentions : Mentions text names) (ended : closing ++ "\n" = ending)
    (opens : '\n' ∉ opening.toList ∧ C.Mode.code.after opening.toList = .code ∧
      (C.Mode.code.outside opening.toList).getLast?.all (!C.isWordChar ·) = true)
    (closes : '\n' ∉ closing.toList ∧
      (C.Mode.code.outside closing.toList).head?.all (!C.isWordChar ·) = true)
    (before : C.tokens (C.Mode.code.outside opening.toList) = .word callee :: .mark '(' :: front)
    (after : C.tokens (C.Mode.code.outside closing.toList) = back)
    (passes : ∀ rest, C.named (front ++ rest) = C.named rest)
    (silent : C.Closed back ∧ C.named back = []) (known : ∀ name ∈ names, name ∈ vars) :
    Mirrors (opening ++ text ++ ending) vars [] [] := by
  obtain ⟨quotes, inside⟩ := not_mem_of_mentions mentions
  have read : C.read (opening ++ text ++ closing) =
      .word callee :: .mark '(' :: (front ++ (C.tokens text.toList ++ back)) := by
    rw [C.read_around quotes opens.2.1 opens.2.2 closes.2, before, after]
    rfl
  have whole : opening ++ text ++ closing ++ "\n" = opening ++ text ++ ending := by
    rw [String.append_assoc, ended]
  refine .code (opening ++ text ++ closing) whole ?_ read (by decide) ?_
  · simp [inside, opens.1, closes.1]
  · rw [C.named, passes, mentions.reads back silent.1, silent.2, List.append_nil]
    exact known

/-- A line that prints an expression. -/
theorem mirrors_print (mentions : Mentions text names) (known : ∀ name ∈ names, name ∈ vars) :
    Mirrors ("printf(\"%.2f\\n\", (float)(" ++ text ++ "));\n") vars [] [] := by
  have before : C.tokens (C.Mode.code.outside "printf(\"%.2f\\n\", (float)(".toList) =
      [.word "printf".toList, .mark '(', .mark '"', .mark '"', .mark ',', .mark '(',
        .word "float".toList, .mark ')', .mark '('] := by decide
  have after : C.tokens (C.Mode.code.outside "));".toList) =
      [.mark ')', .mark ')', .mark ';'] := by decide
  exact mirrors_call "printf(\"%.2f\\n\", (float)(" "));" mentions (by decide) (by decide)
    (by decide) before after (fun rest => by simp [C.named]) (by simp [C.Closed, C.named]) known

/-- A line that opens a block. -/
theorem mirrors_guard (block : Block) (mentions : Mentions text names)
    (known : ∀ name ∈ names, name ∈ vars) :
    Mirrors (block.opening ++ text ++ ")\x7b\n") vars [] [] := by
  have after : C.tokens (C.Mode.code.outside ")\x7b".toList) = [.mark ')', .mark '\x7b'] := by
    decide
  have silent : C.Closed [.mark ')', .mark '\x7b'] ∧ C.named [.mark ')', .mark '\x7b'] = [] := by
    simp [C.Closed, C.named]
  cases block with
  | branch =>
      have before : C.tokens (C.Mode.code.outside "if(".toList) =
          [.word "if".toList, .mark '('] := by decide
      exact mirrors_call "if(" ")\x7b" mentions (by decide) (by decide) (by decide) before after
        (fun rest => rfl) silent known
  | loop =>
      have before : C.tokens (C.Mode.code.outside "while(".toList) =
          [.word "while".toList, .mark '('] := by decide
      exact mirrors_call "while(" ")\x7b" mentions (by decide) (by decide) (by decide) before after
        (fun rest => rfl) silent known

/-- A line without names. -/
theorem mirrors_silent (line : String) (ended : line ++ "\n" = text)
    (silent : '\n' ∉ line.toList ∧ C.jump? line = none ∧ C.label? line = none ∧
      C.mentioned line = []) : Mirrors text vars [] [] := by
  obtain ⟨inside, jump, label, empty⟩ := silent
  refine .line line ended inside (by rw [jump]; rfl) (by rw [label]; rfl) ?_
  rw [empty]
  exact fun name member => absurd member List.not_mem_nil

/-- A line that closes a block. -/
theorem mirrors_close : Mirrors "\x7d\n" vars [] [] :=
  mirrors_silent "\x7d" (by decide) (by decide)

/-- A line that assigns. -/
theorem mirrors_assign (isName : IsName name) (mentions : Mentions text names)
    (known : ∀ other ∈ name :: names, other ∈ vars) :
    Mirrors (name ++ " = " ++ text ++ ";\n") vars [] [] := by
  have both : Mentions (name ++ " = " ++ text) (name :: names) := by
    have joined := (Mentions.name isName).joined (show IsSign "=" by decide) mentions
    rwa [← String.append_assoc] at joined
  obtain ⟨quotes, inside⟩ := not_mem_of_mentions both
  have tokens : C.tokens (name ++ " = " ++ text).toList =
      .word name.toList :: .mark '=' :: C.tokens text.toList := by
    have sign : C.tokens " = ".toList = [.mark '='] := by decide
    rw [String.append_assoc, String.toList_append, String.toList_append,
      C.tokens_append_right _ (by rfl), C.tokens_append_left (by decide), isName.tokens, sign]
    rfl
  have read : C.read (name ++ " = " ++ text ++ ";") =
      .word name.toList :: .mark '=' :: (C.tokens text.toList ++ [.mark ';']) := by
    have around : C.read ("" ++ (name ++ " = " ++ text) ++ ";") = _ :=
      C.read_around quotes (by decide) (by decide) (by decide)
    rwa [String.empty_append, tokens] at around
  refine .code (name ++ " = " ++ text ++ ";") (String.append_assoc ..) ?_ read (by decide) ?_
  · rw [String.toList_append, List.mem_append]
    exact fun member => member.elim inside (by decide)
  · have reads := both.reads [.mark ';'] (by simp [C.Closed])
    rw [tokens] at reads
    rw [← List.cons_append, ← List.cons_append, reads]
    simpa [C.named] using known

/-- The lines that read a variable in. -/
theorem mirrors_input (isName : IsName name) (known : name ∈ vars) :
    Mirrors (Place.inputLines name) vars [] [] := by
  have scan : Mirrors ("if(scanf(\"%f\", &" ++ name ++ ") != 1) \x7b\n") vars [] [] := by
    have before : C.tokens (C.Mode.code.outside "if(scanf(\"%f\", &".toList) =
        [.word "if".toList, .mark '(', .word "scanf".toList, .mark '(', .mark '"', .mark '"',
          .mark ',', .mark '&'] := by decide
    have after : C.tokens (C.Mode.code.outside ") != 1) \x7b".toList) =
        [.mark ')', .mark '!', .mark '=', .word ['1'], .mark ')', .mark '\x7b'] := by decide
    exact mirrors_call "if(scanf(\"%f\", &" ") != 1) \x7b" (.name isName) (by decide) (by decide)
      (by decide) before after (fun rest => by simp [C.named]) (by simp [C.Closed, C.named])
      (by simpa using known)
  have zero : Mentions "0" [] := by
    refine ⟨by simp, fun rest closed => ?_⟩
    have digit : C.tokens "0".toList = [.word ['0']] := by decide
    rw [digit, List.singleton_append, C.named_word closed]
    rfl
  have reset : Mirrors (name ++ " = 0;\n") vars [] [] := by
    have assigned := mirrors_assign isName zero (by simpa using known)
    rwa [String.append_assoc, String.append_assoc] at assigned
  have skip : Mirrors "scanf(\"%*[^\\n]\");\n" vars [] [] :=
    mirrors_silent "scanf(\"%*[^\\n]\");" (by decide) (by decide)
  exact ((scan.append reset).append skip).append mirrors_close

end

/-! ## Statements -/

namespace Tree

mutual

/-- The lines of a statement mention the variables that are known before or that it sets, and jump
and set labels as it does, all under their C names. -/
theorem Statement.mirrors {known : List String} : ∀ statement : Statement,
    statement.Scoped known → (∀ lexeme ∈ statement.lexemes, Shaped lexeme) →
      Mirrors statement.toC ((known ++ statement.targets).map targetName)
        (statement.jumps.map targetName) (statement.labels.map targetName)
  | .printText text, _, shaped => by
      have quoted : Shaped (.quoted, text) := shaped _ (by simp [Statement.lexemes])
      exact mirrors_printText quoted
  | .print expression, inScope, shaped => by
      have inside : ∀ lexeme ∈ expression.lexemes, Shaped lexeme := fun lexeme member =>
        shaped lexeme (by simp [Statement.lexemes, member])
      exact mirrors_print (Expression.mentions inside) fun name member => by
        obtain ⟨read, used, rfl⟩ := List.mem_map.mp member
        exact List.mem_map_of_mem (List.mem_append_left _ (inScope read used))
  | .block block guard body, inScope, shaped => by
      have inside : ∀ lexeme ∈ guard.lexemes, Shaped lexeme := fun lexeme member =>
        shaped lexeme (by simp [member])
      have bodyShaped : ∀ lexeme ∈ body.lexemes, Shaped lexeme := fun lexeme member =>
        shaped lexeme (by simp [member])
      have opened := mirrors_guard block (Comparison.mentions inside) fun name member => by
        obtain ⟨read, used, rfl⟩ := List.mem_map.mp member
        exact List.mem_map_of_mem (List.mem_append_left body.targets (inScope.1 read used))
      have lines := (opened.append (body.mirrors inScope.2 bodyShaped)).append mirrors_close
      simpa [Statement.targets, Statement.jumps, Statement.labels] using lines
  | .label name, _, shaped => by
      have word : Shaped (.ident, name) := shaped _ (by simp [Statement.lexemes])
      exact mirrors_label (isName_targetName word.1)
  | .goto name, _, shaped => by
      have word : Shaped (.ident, name) := shaped _ (by simp [Statement.lexemes])
      exact mirrors_goto (isName_targetName word.1)
  | .assign name expression, inScope, shaped => by
      have word : Shaped (.ident, name) := shaped _ (by simp [Statement.lexemes])
      have inside : ∀ lexeme ∈ expression.lexemes, Shaped lexeme := fun lexeme member =>
        shaped lexeme (by simp [Statement.lexemes, member])
      refine mirrors_assign (isName_targetName word.1) (Expression.mentions inside) ?_
      rw [← List.map_cons]
      intro other member
      obtain ⟨read, used, rfl⟩ := List.mem_map.mp member
      refine List.mem_map_of_mem ?_
      rcases List.mem_cons.mp used with rfl | used
      · simp [Statement.targets]
      · exact inScope read used
  | .input name, _, shaped => by
      have word : Shaped (.ident, name) := shaped _ (by simp [Statement.lexemes])
      rw [Statement.toC_input]
      exact mirrors_input (isName_targetName word.1) (by simp [Statement.targets])

theorem Statements.mirrors {known : List String} : ∀ statements : Statements,
    statements.Scoped known → (∀ lexeme ∈ statements.lexemes, Shaped lexeme) →
      Mirrors statements.toC ((known ++ statements.targets).map targetName)
        (statements.jumps.map targetName) (statements.labels.map targetName)
  | .nil, _, _ => .empty
  | .cons first others, inScope, shaped => by
      rw [Statements.lexemes, List.forall_mem_append] at shaped
      have later := others.mirrors inScope.2 shaped.2
      have here := first.mirrors inScope.1 shaped.1
      have more : (known ++ first.targets).map targetName ⊆
          (known ++ first.targets ++ others.targets).map targetName :=
        List.map_subset targetName (List.subset_append_left _ _)
      have lines := (here.mono more).append later
      simpa [Statements.toC, Statements.targets, Statements.jumps, Statements.labels] using lines

end

mutual

/-- The names that a statement sets or jumps to are identifiers of its listing. -/
theorem Statement.ident_mem_lexemes {name : String} : ∀ statement : Statement,
    name ∈ statement.targets ∨ name ∈ statement.jumps ∨ name ∈ statement.labels →
      (Kind.ident, name) ∈ statement.lexemes
  | .printText text, member | .print expression, member => by
      simp [Statement.targets, Statement.jumps, Statement.labels] at member
  | .block block guard body, member => by
      simp [body.ident_mem_lexemes member]
  | .label other, member | .goto other, member | .assign other expression, member
  | .input other, member => by
      have same : name = other := by
        simpa [Statement.targets, Statement.jumps, Statement.labels] using member
      simp [Statement.lexemes, same]

theorem Statements.ident_mem_lexemes {name : String} : ∀ statements : Statements,
    name ∈ statements.targets ∨ name ∈ statements.jumps ∨ name ∈ statements.labels →
      (Kind.ident, name) ∈ statements.lexemes
  | .nil, member => by
      simp [Statements.targets, Statements.jumps, Statements.labels] at member
  | .cons first others, member => by
      simp only [Statements.targets, Statements.jumps, Statements.labels, List.mem_append] at member
      rw [Statements.lexemes, List.mem_append]
      rcases member with (member | member) | (member | member) | (member | member)
      · exact .inl (first.ident_mem_lexemes (.inl member))
      · exact .inr (others.ident_mem_lexemes (.inl member))
      · exact .inl (first.ident_mem_lexemes (.inr (.inl member)))
      · exact .inr (others.ident_mem_lexemes (.inr (.inl member)))
      · exact .inl (first.ident_mem_lexemes (.inr (.inr member)))
      · exact .inr (others.ident_mem_lexemes (.inr (.inr member)))

end

theorem mem_of_mem_dropBlankLines {lexeme : Lexeme} {ended : Bool} {lexemes : List Lexeme}
    (member : lexeme ∈ dropBlankLines ended lexemes) : lexeme ∈ lexemes := by
  induction lexemes generalizing ended with
  | nil => exact member
  | cons other lexemes ih =>
      unfold dropBlankLines at member
      split at member
      · split at member
        · exact List.mem_cons_of_mem _ (ih member)
        · exact List.mem_cons.mpr ((List.mem_cons.mp member).imp_right ih)
      · exact List.mem_cons.mpr ((List.mem_cons.mp member).imp_right ih)

/-! ## Declarations -/

theorem mem_firstOccurrences {name : String} {known names : List String} :
    name ∈ firstOccurrences known names ↔ name ∈ names ∧ name ∉ known := by
  induction names generalizing known with
  | nil => simp [firstOccurrences]
  | cons other names ih =>
      unfold firstOccurrences
      split
      · next seen =>
          rw [ih, List.mem_cons]
          constructor
          · rintro ⟨member, new⟩
            exact ⟨.inr member, new⟩
          · rintro ⟨rfl | member, new⟩
            · exact absurd seen new
            · exact ⟨member, new⟩
      · next unseen =>
          rw [List.mem_cons, ih, List.mem_cons, List.mem_append, List.mem_singleton, not_or]
          constructor
          · rintro (rfl | ⟨member, new, -⟩)
            · exact ⟨.inl rfl, unseen⟩
            · exact ⟨.inr member, new⟩
          · rintro ⟨rfl | member, new⟩
            · exact .inl rfl
            · by_cases same : name = other
              · exact .inl same
              · exact .inr ⟨member, new, same⟩

theorem nodup_firstOccurrences (known names : List String) :
    (firstOccurrences known names).Nodup := by
  induction names generalizing known with
  | nil => exact List.nodup_nil
  | cons name names ih =>
      unfold firstOccurrences
      split
      · exact ih known
      · refine List.nodup_cons.mpr ⟨fun member => ?_, ih _⟩
        exact (mem_firstOccurrences.mp member).2 (by simp)

/-- The lines of declarations. -/
theorem lines_declarations {names : List String}
    (isName : ∀ name ∈ names, IsName (targetName name)) :
    C.lines (String.join (names.map declaration)) =
      names.map fun name => "float " ++ targetName name ++ ";" := by
  induction names with
  | nil => rfl
  | cons name names ih =>
      obtain ⟨here, isName⟩ := List.forall_mem_cons.mp isName
      have inside : '\n' ∉ ("float " ++ targetName name ++ ";").toList := by
        simpa using (not_mem_of_mentions (.name here)).2
      have line : declaration name = "float " ++ targetName name ++ ";" ++ "\n" := by
        rw [String.append_assoc]
        rfl
      rw [List.map_cons, String.join_cons, line, C.lines_append_newline inside, ih isName,
        List.map_cons]

/-- Two lines in front of others. -/
theorem lines_two {first second text : String} (both : first ++ "\n" ++ (second ++ "\n") = text)
    (inside : '\n' ∉ first.toList ∧ '\n' ∉ second.toList) (rest : String) :
    C.lines (text ++ rest) = first :: second :: C.lines rest := by
  subst both
  rw [String.append_assoc, C.lines_append_newline inside.1, C.lines_append_newline inside.2]

/-- The lines of a header. -/
theorem lines_header {program : Statements}
    (isName : ∀ name ∈ program.targets, IsName (targetName name)) :
    C.lines program.header = "#include <stdio.h>" :: "int main(void)\x7b" ::
      (firstOccurrences [] program.targets).map fun name => "float " ++ targetName name ++ ";" := by
  have each : ∀ name ∈ firstOccurrences [] program.targets, IsName (targetName name) :=
    fun name member => isName name (mem_firstOccurrences.mp member).1
  rw [← lines_declarations each]
  exact lines_two (by decide) (by decide) _

/-- The lines of a body. -/
theorem mirrors_body {program : Statements} (inScope : program.Scoped [])
    (shaped : ∀ lexeme ∈ program.lexemes, Shaped lexeme) :
    Mirrors program.body (program.targets.map targetName) (program.jumps.map targetName)
      (program.labels.map targetName) := by
  have ending : Mirrors "return 0;\n" (program.targets.map targetName) [] [] :=
    mirrors_silent "return 0;" (by decide) (by decide)
  have lines := (program.mirrors inScope shaped).append (ending.append mirrors_close)
  have split : "return 0;\n\x7d\n" = "return 0;\n" ++ "\x7d\n" := by decide
  rw [Statements.body, split]
  simpa only [List.append_nil, List.nil_append] using lines

end Tree

/-! ## Compiled programs -/

/-- The names of a C program that was written for a source with these tokens. The header declares
these names. -/
structure Hygienic (tokens : List Token) (output : Output) (declared : List String) : Prop where
  /-- After the two lines of the opening, the header is declarations. -/
  header_lines : C.lines output.header = "#include <stdio.h>" :: "int main(void)\x7b" ::
    declared.map fun name => "float " ++ name ++ ";"
  /-- No variable is declared twice. -/
  distinct : declared.Nodup
  /-- The body mentions no other variables. -/
  known : ∀ line ∈ C.lines output.body, ∀ name ∈ C.mentioned line, name ∈ declared
  /-- Every jump of the body has its label, which is set once. -/
  labelled : ∀ line ∈ C.lines output.body, ∀ name, C.jump? line = some name →
    ((C.lines output.body).filterMap C.label?).count name = 1
  /-- Every name of a variable or label is a name in C that is not reserved, and it is the C name of
  an identifier of the source. -/
  named : ∀ name, (name ∈ declared ∨ ∃ line ∈ C.lines output.body,
      name ∈ C.mentioned line ∨ C.jump? line = some name ∨ C.label? line = some name) →
    IsName name ∧ name ∉ reservedNames ∧
      ∃ token ∈ tokens, token.kind = .ident ∧ targetName token.text = name
  /-- Different identifiers of the source have different C names. -/
  apart : ∀ token ∈ tokens, ∀ other ∈ tokens, token.kind = .ident → other.kind = .ident →
    targetName token.text = targetName other.text → token.text = other.text

/-- What is written for a well-named tree is hygienic, if its listing is among the tokens of the
source. -/
theorem Tree.Statements.WellNamed.hygienic {program : Tree.Statements} {tokens : List Token}
    (named : program.WellNamed) (shaped : ∀ token ∈ tokens, Shaped token.lexeme)
    (listed : ∀ lexeme ∈ program.lexemes, ∃ token ∈ tokens, token.lexeme = lexeme) :
    Hygienic tokens ⟨program.header, program.body⟩
      ((Tree.firstOccurrences [] program.targets).map targetName) := by
  have lexemes_shaped : ∀ lexeme ∈ program.lexemes, Shaped lexeme := fun lexeme member => by
    obtain ⟨token, inside, rfl⟩ := listed lexeme member
    exact shaped token inside
  have word {name : String} (member : name ∈ program.targets ∨ name ∈ program.jumps ∨
      name ∈ program.labels) : Word name.toList :=
    word_of_shaped (lexemes_shaped _ (program.ident_mem_lexemes member)) rfl
  obtain ⟨known, jumps, labels⟩ :=
    (Tree.mirrors_body named.set_before_read lexemes_shaped).of_lines
  have jumped {line name : String} (member : line ∈ C.lines program.body)
      (jump : C.jump? line = some name) : name ∈ program.jumps.map targetName :=
    jumps ▸ List.mem_filterMap.mpr ⟨line, member, jump⟩
  constructor
  case header_lines =>
    rw [List.map_map]
    exact Tree.lines_header fun name member => isName_targetName (word (.inl member))
  case distinct =>
    exact nodup_map_targetName (Tree.nodup_firstOccurrences _ _) fun name member =>
      word (.inl (Tree.mem_firstOccurrences.mp member).1)
  case known =>
    intro line member name mention
    obtain ⟨target, set, rfl⟩ := List.mem_map.mp (known line member name mention)
    exact List.mem_map_of_mem (Tree.mem_firstOccurrences.mpr ⟨set, List.not_mem_nil⟩)
  case labelled =>
    intro line member name jump
    obtain ⟨label, inside, rfl⟩ := List.mem_map.mp (jumped member jump)
    have once := nodup_map_targetName named.labels_nodup fun name set => word (.inr (.inr set))
    rw [labels, once.count, if_pos (List.mem_map_of_mem (named.jumps_subset label inside))]
  case named =>
    intro name emitted
    -- wherever a name stands, it is the C name of one that the tree sets or jumps to
    obtain ⟨source, member, rfl⟩ : ∃ source, (source ∈ program.targets ∨ source ∈ program.jumps ∨
        source ∈ program.labels) ∧ targetName source = name := by
      rcases emitted with declared | ⟨line, member, mention | jump | label⟩
      · obtain ⟨source, set, same⟩ := List.mem_map.mp declared
        exact ⟨source, .inl (Tree.mem_firstOccurrences.mp set).1, same⟩
      · obtain ⟨source, set, same⟩ := List.mem_map.mp (known line member name mention)
        exact ⟨source, .inl set, same⟩
      · obtain ⟨source, inside, same⟩ := List.mem_map.mp (jumped member jump)
        exact ⟨source, .inr (.inl inside), same⟩
      · have set : name ∈ program.labels.map targetName :=
          labels ▸ List.mem_filterMap.mpr ⟨line, member, label⟩
        obtain ⟨source, inside, same⟩ := List.mem_map.mp set
        exact ⟨source, .inr (.inr inside), same⟩
    obtain ⟨token, inside, same⟩ := listed _ (program.ident_mem_lexemes member)
    exact ⟨isName_targetName (word member), targetName_not_mem_reservedNames source, token, inside,
      congrArg Prod.fst same, congrArg (targetName ·.2) same⟩
  case apart =>
    intro token inside other inside' ident ident' same
    exact targetName_inj (word_of_shaped (shaped token inside) ident)
      (word_of_shaped (shaped other inside') ident') same

/-- A compiled program is its header and its body, and their names are in order. The header declares
distinct variables, and the body mentions no others. Every jump has one label. All names are names
in C that are not reserved, and different identifiers of the source have different names. -/
theorem compile_hygienic {source program : String} (compiled : compile source = .ok program) :
    program = (Compilation.ofSource source {}).draft.output.render ∧
      ∃ tokens declared, (Cursor.ofSource source).Lexes tokens ∧
        Hygienic tokens (Compilation.ofSource source {}).draft.output declared := by
  obtain ⟨quiet, rfl⟩ := compile_eq_ok_iff.mp compiled
  have settled := Compilation.settled_of_fault_none quiet
  obtain ⟨tree, has⟩ := Compilation.exists_tree settled
  have named := (Compilation.fault_eq_none_iff_wellNamed has).mp quiet
  have output := Compilation.output_eq has settled
  obtain ⟨body, last, lexes, listed⟩ := has
  refine ⟨rfl, body ++ [last], (Tree.firstOccurrences [] tree.targets).map targetName, lexes, ?_⟩
  rw [output]
  refine named.hygienic lexes.shaped fun lexeme member => ?_
  have inside : lexeme ∈ body.map Token.lexeme := by
    rw [← listed] at member
    exact Tree.mem_of_mem_dropBlankLines member
  obtain ⟨token, here, same⟩ := List.mem_map.mp inside
  exact ⟨token, List.mem_append_left _ here, same⟩

/-- A program with a label and a variable whose names C reserves. -/
theorem compile_hygienic_reserved :
    let program := "#include <stdio.h>\nint main(void)\x7b\nfloat v_int;\n" ++
      "v_if:;\nv_int = 2.0;\ngoto v_if;\nreturn 0;\n\x7d\n"
    compile "LABEL if\nLET int = 2\nGOTO if" = .ok program ∧
      program =
        (Compilation.ofSource "LABEL if\nLET int = 2\nGOTO if" {}).draft.output.render ∧
      ∃ tokens declared, (Cursor.ofSource "LABEL if\nLET int = 2\nGOTO if").Lexes tokens ∧
        Hygienic tokens
          (Compilation.ofSource "LABEL if\nLET int = 2\nGOTO if" {}).draft.output declared := by
  intro program
  have supply : (Cursor.ofSource "LABEL if\nLET int = 2\nGOTO if").supply =
      ⟨[⟨.labelWord, "LABEL", 0⟩, ⟨.ident, "if", 6⟩, ⟨.newline, "\n", 8⟩,
        ⟨.letWord, "LET", 9⟩, ⟨.ident, "int", 13⟩, ⟨.assign, "=", 17⟩, ⟨.number, "2", 19⟩,
        ⟨.newline, "\n", 20⟩, ⟨.gotoWord, "GOTO", 21⟩, ⟨.ident, "if", 26⟩,
        ⟨.newline, "\n", 28⟩], .ok ⟨.eof, "", 29⟩⟩ :=
    Cursor.Lexes.supply_eq (.read (by rfl) (by decide) (.read (by rfl) (by decide)
      (.read (by rfl) (by decide) (.read (by rfl) (by decide) (.read (by rfl) (by decide)
        (.read (by rfl) (by decide) (.read (by rfl) (by decide) (.read (by rfl) (by decide)
          (.read (by rfl) (by decide) (.read (by rfl) (by decide) (.read (by rfl) (by decide)
            (.finish (by rfl) rfl))))))))))))
  have compiled : compile "LABEL if\nLET int = 2\nGOTO if" = .ok program := by
    rw [compile, Compilation.ofSource, Cursor.compile, supply]
    rfl
  exact ⟨compiled, compile_hygienic compiled⟩

end TeenyTiny
