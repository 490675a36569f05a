import TeenyTiny.Proofs.RenamedText
import TeenyTiny.Proofs.Translation

/-!
# Trees under other names

A tree can have its names changed, and is then listed with the identifiers renamed
(`Statements.lexemes_renamed`).

The C text of a tree is cut into segments, each either fixed text or a name of the source
(`Statements.segments`). With the names in their C spelling this is the C text
(`Statements.spell_segments`). The segments of a tree under other names are those of the tree, with
the names changed and nothing else (`Statements.segments_renamed`). The declarations need that
different names stay different, since a name is declared at its first occurrence only
(`firstOccurrences_map`).
-/

set_option autoImplicit false

namespace TeenyTiny

/-! ## Segments -/

/-- A segment of a C text: fixed text, or a name of the source. -/
inductive Segment where
  | fixed (text : String)
  | name (word : String)

namespace Segment

/-- The text of a segment, given how names are spelled. -/
def spelled (spelling : String → String) : Segment → String
  | .fixed text => text
  | .name word => spelling word

/-- A segment under another name. -/
def renamed (rename : String → String) : Segment → Segment
  | .fixed text => .fixed text
  | .name word => .name (rename word)

end Segment

/-- The text of segments, given how names are spelled. -/
def spell (spelling : String → String) (segments : List Segment) : String :=
  String.join (segments.map (Segment.spelled spelling))

section Spell

variable (spelling : String → String)

@[simp] theorem spell_nil : spell spelling [] = "" := rfl

@[simp] theorem spell_cons (segment : Segment) (segments : List Segment) :
    spell spelling (segment :: segments) = segment.spelled spelling ++ spell spelling segments := by
  simp [spell]

@[simp] theorem spell_append (first second : List Segment) :
    spell spelling (first ++ second) = spell spelling first ++ spell spelling second := by
  simp [spell]

/-- Changing names and then spelling them is spelling the changed names. -/
theorem spell_renamed (rename : String → String) (segments : List Segment) :
    spell spelling (segments.map (Segment.renamed rename)) =
      spell (spelling ∘ rename) segments := by
  induction segments with
  | nil => rfl
  | cons segment segments ih =>
      rw [List.map_cons, spell_cons, spell_cons, ih]
      cases segment <;> rfl

end Spell

namespace Tree

/-! ## Other names -/

/-- A primary under another name. -/
def Primary.renamed (rename : String → String) : Primary → Primary
  | number text => number text
  | ident name => ident (rename name)

/-- A unary under another name. -/
def Unary.renamed (rename : String → String) (unary : Unary) : Unary :=
  ⟨unary.sign?, unary.primary.renamed rename⟩

/-- A chain with its parts changed. -/
def Chain.changed {Sign Part : Type} (change : Part → Part) (chain : Chain Sign Part) :
    Chain Sign Part :=
  ⟨change chain.first, chain.others.map fun other => (other.1, change other.2)⟩

/-- A term under other names. -/
def Term.renamed (rename : String → String) (term : Term) : Term :=
  Chain.changed (Unary.renamed rename) term

/-- An expression under other names. -/
def Expression.renamed (rename : String → String) (expression : Expression) : Expression :=
  Chain.changed (Term.renamed rename) expression

/-- A comparison under other names. -/
def Comparison.renamed (rename : String → String) (comparison : Comparison) : Comparison :=
  ⟨comparison.first.renamed rename, comparison.sign,
    comparison.others.changed (Expression.renamed rename)⟩

mutual

/-- A statement under other names. -/
def Statement.renamed (rename : String → String) : Statement → Statement
  | .printText text => .printText text
  | .print expression => .print (expression.renamed rename)
  | .block block guard body => .block block (guard.renamed rename) (body.renamed rename)
  | .label name => .label (rename name)
  | .goto name => .goto (rename name)
  | .assign name expression => .assign (rename name) (expression.renamed rename)
  | .input name => .input (rename name)

/-- Statements under other names. -/
def Statements.renamed (rename : String → String) : Statements → Statements
  | .nil => .nil
  | .cons first others => .cons (first.renamed rename) (others.renamed rename)

end

/-! ## Listings -/

section Listings

variable (rename : String → String)

/-- A chain is listed with its parts renamed, if its parts are and its signs are no names. -/
theorem Chain.lexemes_changed {Sign Part : Type} {sign : Sign → Lexeme}
    {part : Part → List Lexeme} {change : Part → Part} (signs : ∀ s, (sign s).1 ≠ .ident)
    (parts : ∀ tree, part (change tree) = (part tree).map (Lexeme.renamed rename))
    (chain : Chain Sign Part) :
    (chain.changed change).lexemes sign part =
      (chain.lexemes sign part).map (Lexeme.renamed rename) := by
  rcases chain with ⟨first, others⟩
  simp only [Chain.changed, Chain.lexemes, List.map_append, parts, List.map_flatMap,
    List.flatMap_map, List.map_cons, Lexeme.renamed_of_ne (signs _)]

theorem Unary.lexemes_renamed (unary : Unary) :
    (unary.renamed rename).lexemes = unary.lexemes.map (Lexeme.renamed rename) := by
  rcases unary with ⟨_ | _ | _, _ | _⟩ <;> rfl

theorem Term.lexemes_renamed (term : Term) :
    (term.renamed rename).lexemes = term.lexemes.map (Lexeme.renamed rename) :=
  Chain.lexemes_changed rename (fun sign => by cases sign <;> decide)
    (Unary.lexemes_renamed rename) term

theorem Expression.lexemes_renamed (expression : Expression) :
    (expression.renamed rename).lexemes = expression.lexemes.map (Lexeme.renamed rename) :=
  Chain.lexemes_changed rename (fun sign => by cases sign <;> decide)
    (Term.lexemes_renamed rename) expression

theorem Comparison.lexemes_renamed (comparison : Comparison) :
    (comparison.renamed rename).lexemes = comparison.lexemes.map (Lexeme.renamed rename) := by
  have signs (sign : ComparisonSign) : sign.lexeme.1 ≠ .ident := by cases sign <;> decide
  have others := Chain.lexemes_changed rename signs (Expression.lexemes_renamed rename)
    comparison.others
  rw [Comparison.lexemes, Comparison.lexemes, List.map_append, List.map_cons,
    Lexeme.renamed_of_ne (signs _), ← others, ← Expression.lexemes_renamed]
  rfl

mutual

/-- A statement under other names is listed with the identifiers renamed. -/
theorem Statement.lexemes_renamed : ∀ statement : Statement,
    (statement.renamed rename).lexemes = statement.lexemes.map (Lexeme.renamed rename)
  | .printText text => rfl
  | .print expression => by
      simp only [Statement.renamed, Statement.lexemes, expression.lexemes_renamed, List.map_append,
        List.map_cons]
      rfl
  | .block block guard body => by
      simp only [Statement.renamed, Statement.lexemes_block, guard.lexemes_renamed,
        body.lexemes_renamed, List.map_append, List.map_cons]
      cases block <;> rfl
  | .label name => rfl
  | .goto name => rfl
  | .assign name expression => by
      simp only [Statement.renamed, Statement.lexemes, expression.lexemes_renamed, List.map_append,
        List.map_cons]
      rfl
  | .input name => rfl

/-- Statements under other names are listed with the identifiers renamed. -/
theorem Statements.lexemes_renamed : ∀ statements : Statements,
    (statements.renamed rename).lexemes = statements.lexemes.map (Lexeme.renamed rename)
  | .nil => rfl
  | .cons first others => by
      rw [Statements.renamed, Statements.lexemes, Statements.lexemes, List.map_append,
        first.lexemes_renamed, others.lexemes_renamed]

end

end Listings

/-! ## The C text in segments -/

/-- The segments of a chain, given those of its parts. -/
def Chain.segments {Sign Part : Type} (sign : Sign → Lexeme) (part : Part → List Segment)
    (chain : Chain Sign Part) : List Segment :=
  part chain.first ++
    chain.others.flatMap fun other => .fixed (" " ++ (sign other.1).2 ++ " ") :: part other.2

/-- The segment of a primary. -/
def Primary.segment : Primary → Segment
  | .number text => .fixed (targetNumber text)
  | .ident name => .name name

/-- The segments of a unary. -/
def Unary.segments (unary : Unary) : List Segment :=
  [.fixed (unary.sign?.elim "" fun sign => sign.lexeme.2), unary.primary.segment]

/-- The segments of a term. -/
def Term.segments (term : Term) : List Segment :=
  Chain.segments FactorSign.lexeme Unary.segments term

/-- The segments of an expression. -/
def Expression.segments (expression : Expression) : List Segment :=
  Chain.segments Sign.lexeme Term.segments expression

/-- The segments of a comparison. -/
def Comparison.segments (comparison : Comparison) : List Segment :=
  comparison.first.segments ++ .fixed (" " ++ comparison.sign.lexeme.2 ++ " ") ::
    comparison.others.segments ComparisonSign.lexeme Expression.segments

mutual

/-- The segments of a statement. -/
def Statement.segments : Statement → List Segment
  | .printText text => [.fixed ("printf(\"" ++ text ++ "\\n\");\n")]
  | .print expression =>
      .fixed "printf(\"%.2f\\n\", (float)(" :: expression.segments ++ [.fixed "));\n"]
  | .block .branch guard body =>
      .fixed "if(" :: guard.segments ++ .fixed ")\x7b\n" :: body.segments ++ [.fixed "\x7d\n"]
  | .block .loop guard body =>
      .fixed "while(" :: guard.segments ++ .fixed ")\x7b\n" :: body.segments ++ [.fixed "\x7d\n"]
  | .label name => [.name name, .fixed ":;\n"]
  | .goto name => [.fixed "goto ", .name name, .fixed ";\n"]
  | .assign name expression =>
      .name name :: .fixed " = " :: expression.segments ++ [.fixed ";\n"]
  | .input name =>
      [.fixed "if(scanf(\"%f\", &", .name name, .fixed ") != 1) \x7b\n", .name name,
        .fixed " = 0;\nscanf(\"%*[^\\n]\");\n\x7d\n"]

/-- The segments of statements in order. -/
def Statements.segments : Statements → List Segment
  | .nil => []
  | .cons first others => first.segments ++ others.segments

end

/-- The segments of a block, with the block's own opening. -/
theorem Statement.segments_block (block : Block) (guard : Comparison) (body : Statements) :
    (Statement.block block guard body).segments =
      .fixed block.opening :: guard.segments ++ .fixed ")\x7b\n" :: body.segments ++
        [.fixed "\x7d\n"] := by
  cases block <;> rfl

/-- The segments of a declaration. -/
def declarationSegments (name : String) : List Segment :=
  [.fixed "float ", .name name, .fixed ";\n"]

/-- The segments of the C program for a program. -/
def Statements.programSegments (program : Statements) : List Segment :=
  .fixed "#include <stdio.h>\nint main(void)\x7b\n" ::
    (firstOccurrences [] program.targets).flatMap declarationSegments ++ program.segments ++
      [.fixed "return 0;\n\x7d\n"]

/-! ### Names in their C spelling -/

/-- A chain is written as its segments are, if its parts are. -/
theorem Chain.spell_segments {Sign Part : Type} {sign : Sign → Lexeme}
    {part : Part → List Segment} {text : Part → String}
    (parts : ∀ tree, spell targetName (part tree) = text tree) (chain : Chain Sign Part) :
    spell targetName (chain.segments sign part) = chain.toC sign text := by
  rcases chain with ⟨first, others⟩
  rw [Chain.segments, Chain.toC, spell_append, parts]
  congr 1
  induction others with
  | nil => rfl
  | cons other others ih =>
      rw [List.flatMap_cons, spell_append, ih, spell_cons, parts, List.map_cons, String.join_cons]
      rfl

theorem Unary.spell_segments (unary : Unary) : spell targetName unary.segments = unary.toC := by
  rcases unary with ⟨sign?, _ | _⟩ <;>
    simp [Unary.segments, Unary.toC, Primary.segment, Primary.toC, Segment.spelled]

@[simp] theorem Expression.spell_segments (expression : Expression) :
    spell targetName expression.segments = expression.toC :=
  Chain.spell_segments (Chain.spell_segments Unary.spell_segments) expression

@[simp] theorem Comparison.spell_segments (comparison : Comparison) :
    spell targetName comparison.segments = comparison.toC := by
  have others : spell targetName
      (comparison.others.segments ComparisonSign.lexeme Expression.segments) =
        comparison.others.toC ComparisonSign.lexeme Expression.toC :=
    Chain.spell_segments Expression.spell_segments comparison.others
  simp [Comparison.segments, Comparison.toC, others, Segment.spelled, String.append_assoc]

mutual

/-- A statement is written as its segments are. -/
theorem Statement.spell_segments : ∀ statement : Statement,
    spell targetName statement.segments = statement.toC
  | .printText text => by simp [Statement.segments, Segment.spelled]
  | .print expression => by simp [Statement.segments, Segment.spelled, String.append_assoc]
  | .block block guard body => by
      simp [Statement.segments_block, Segment.spelled, body.spell_segments, String.append_assoc]
  | .label name => by simp [Statement.segments, Segment.spelled]
  | .goto name => by simp [Statement.segments, Segment.spelled, String.append_assoc]
  | .assign name expression => by
      simp [Statement.segments, Segment.spelled, String.append_assoc]
  | .input name => by
      have regroup (a b c n : String) :
          a ++ (n ++ (b ++ (n ++ (c ++ "")))) = a ++ n ++ b ++ n ++ c := by
        simp only [String.append_assoc, String.append_empty]
      rw [Statement.segments, spell_cons, spell_cons, spell_cons, spell_cons, spell_cons, spell_nil]
      exact regroup _ _ _ _

/-- Statements are written as their segments are. -/
theorem Statements.spell_segments : ∀ statements : Statements,
    spell targetName statements.segments = statements.toC
  | .nil => rfl
  | .cons first others => by
      rw [Statements.segments, spell_append, first.spell_segments, others.spell_segments]
      rfl

end

/-- The C program for a program is written as its segments are. -/
theorem Statements.spell_programSegments (program : Statements) :
    spell targetName program.programSegments = program.header ++ program.body := by
  have declared (names : List String) : spell targetName (names.flatMap declarationSegments) =
      String.join (names.map declaration) := by
    induction names with
    | nil => rfl
    | cons name names ih =>
        rw [List.flatMap_cons, spell_append, ih, List.map_cons, String.join_cons,
          declarationSegments, declaration]
        simp [Segment.spelled, String.append_assoc]
  rw [programSegments, spell_append, spell_append, spell_cons, declared, program.spell_segments,
    spell_cons, spell_nil, String.append_empty, String.append_assoc]
  rfl

/-! ### Segments under other names -/

section Renamed

variable (rename : String → String)

/-- The segments of a chain change with its parts. -/
theorem Chain.segments_changed {Sign Part : Type} {sign : Sign → Lexeme}
    {part : Part → List Segment} {change : Part → Part}
    (parts : ∀ tree, part (change tree) = (part tree).map (Segment.renamed rename))
    (chain : Chain Sign Part) :
    (chain.changed change).segments sign part =
      (chain.segments sign part).map (Segment.renamed rename) := by
  rcases chain with ⟨first, others⟩
  simp only [Chain.changed, Chain.segments, List.map_append, parts, List.map_flatMap,
    List.flatMap_map, List.map_cons, Segment.renamed]

theorem Unary.segments_renamed (unary : Unary) :
    (unary.renamed rename).segments = unary.segments.map (Segment.renamed rename) := by
  rcases unary with ⟨sign?, _ | _⟩ <;> rfl

theorem Expression.segments_renamed (expression : Expression) :
    (expression.renamed rename).segments = expression.segments.map (Segment.renamed rename) :=
  Chain.segments_changed rename (Chain.segments_changed rename (Unary.segments_renamed rename))
    expression

theorem Comparison.segments_renamed (comparison : Comparison) :
    (comparison.renamed rename).segments = comparison.segments.map (Segment.renamed rename) := by
  have others : (comparison.others.changed (Expression.renamed rename)).segments
      ComparisonSign.lexeme Expression.segments =
        (comparison.others.segments ComparisonSign.lexeme Expression.segments).map
          (Segment.renamed rename) :=
    Chain.segments_changed rename (Expression.segments_renamed rename) comparison.others
  rw [Comparison.segments, Comparison.segments, List.map_append, List.map_cons, ← others,
    ← Expression.segments_renamed]
  rfl

mutual

/-- The names in the segments of a statement change as the statement does. -/
theorem Statement.segments_renamed : ∀ statement : Statement,
    (statement.renamed rename).segments = statement.segments.map (Segment.renamed rename)
  | .printText text => rfl
  | .print expression => by
      simp only [Statement.renamed, Statement.segments, expression.segments_renamed,
        List.map_append, List.map_cons, List.map_nil, Segment.renamed]
  | .block block guard body => by
      simp only [Statement.renamed, Statement.segments_block, guard.segments_renamed,
        body.segments_renamed, List.map_append, List.map_cons, List.map_nil, Segment.renamed]
  | .label name => rfl
  | .goto name => rfl
  | .assign name expression => by
      simp only [Statement.renamed, Statement.segments, expression.segments_renamed,
        List.map_append, List.map_cons, List.map_nil, Segment.renamed]
  | .input name => rfl

/-- The names in the segments of statements change as the statements do. -/
theorem Statements.segments_renamed : ∀ statements : Statements,
    (statements.renamed rename).segments = statements.segments.map (Segment.renamed rename)
  | .nil => rfl
  | .cons first others => by
      rw [Statements.renamed, Statements.segments, Statements.segments, List.map_append,
        first.segments_renamed, others.segments_renamed]

end

mutual

theorem Statement.targets_renamed : ∀ statement : Statement,
    (statement.renamed rename).targets = statement.targets.map rename
  | .printText _ | .print _ | .label _ | .goto _ | .assign _ _ | .input _ => rfl
  | .block _ _ body => by
      rw [Statement.renamed, Statement.targets, Statement.targets, body.targets_renamed]

theorem Statements.targets_renamed : ∀ statements : Statements,
    (statements.renamed rename).targets = statements.targets.map rename
  | .nil => rfl
  | .cons first others => by
      rw [Statements.renamed, Statements.targets, Statements.targets, List.map_append,
        first.targets_renamed, others.targets_renamed]

end

variable {rename}

/-- If different names stay different, first occurrences stay first occurrences. -/
theorem firstOccurrences_map {known names : List String}
    (injective : ∀ name ∈ known ++ names, ∀ other ∈ known ++ names,
      rename name = rename other → name = other) :
    firstOccurrences (known.map rename) (names.map rename) =
      (firstOccurrences known names).map rename := by
  induction names generalizing known with
  | nil => rfl
  | cons name names ih =>
      have member : rename name ∈ known.map rename ↔ name ∈ known := by
        constructor
        · intro inside
          obtain ⟨other, here, same⟩ := List.mem_map.mp inside
          rw [← injective other (List.mem_append_left _ here) name (by simp) same]
          exact here
        · exact List.mem_map_of_mem
      rw [List.map_cons, firstOccurrences, firstOccurrences]
      by_cases here : name ∈ known
      · rw [if_pos here, if_pos (member.mpr here)]
        have fewer : known ++ names ⊆ known ++ name :: names :=
          ((List.sublist_cons_self name names).append_left known).subset
        refine ih ?_
        intro first inside second inside'
        exact injective first (fewer inside) second (fewer inside')
      · rw [if_neg here, if_neg (mt member.mp here), List.map_cons]
        have more := @ih (known ++ [name]) (by simpa using injective)
        rw [List.map_append] at more
        exact congrArg _ more

/-- If different targets stay different, the segments of a program are those under the old names,
with the names changed. -/
theorem Statements.programSegments_renamed {program : Statements}
    (injective : ∀ name ∈ program.targets, ∀ other ∈ program.targets,
      rename name = rename other → name = other) :
    (program.renamed rename).programSegments =
      program.programSegments.map (Segment.renamed rename) := by
  have declared : firstOccurrences [] (program.targets.map rename) =
      (firstOccurrences [] program.targets).map rename :=
    @firstOccurrences_map rename [] program.targets injective
  rw [programSegments, programSegments, program.targets_renamed, declared,
    program.segments_renamed]
  simp only [List.map_append, List.map_cons, List.map_nil, List.map_flatMap, List.flatMap_map]
  rfl

end Renamed

end Tree

end TeenyTiny
