import TeenyTiny.Proofs.Hygiene
import TeenyTiny.Proofs.MissingLabels
import TeenyTiny.Proofs.RenamedTree

/-!
# Spelling does not matter

Whether a source is compiled does not depend on how its names are spelled, only on which of them are
the same (`compile_renamed`). The rules of the grammar are about kinds, which renaming leaves as
they are. The rules about names compare names with names, never with anything else. So a token
offends under other names if and only if it did before (`Renamed.offends_iff`), and a jump goes
astray if and only if it did (`Renamed.astray_iff`).

The C program changes in its names and nowhere else: it is made of segments that are the same for
all spellings.
-/

set_option autoImplicit false

namespace TeenyTiny

open Grammar

/-! ## Identifiers and roles -/

namespace Grammar

/-- Only identifiers have roles. -/
def Symbol.Proper (symbol : Symbol) : Prop :=
  ∀ role, symbol.role? = some role → symbol.kind = .ident

theorem proper_mark (kind : Kind) : (mark kind).Proper := by
  intro role impossible
  cases impossible

theorem proper_name (role : Role) : (name role).Proper := by
  intro _ _
  rfl

theorem proper_operand (kind : Kind) : (operand kind).Proper := by
  intro role has
  by_cases ident : kind = .ident
  · exact ident
  · simp [operand, ident] at has

theorem proper_operands (kinds : List Kind) : ∀ symbol ∈ kinds.map operand, symbol.Proper := by
  intro symbol member
  obtain ⟨kind, -, rfl⟩ := List.mem_map.mp member
  exact proper_operand kind

theorem proper_endings (blank : Nat) : ∀ symbol ∈ endings blank, symbol.Proper := by
  intro symbol member
  obtain ⟨kind, -, rfl⟩ := List.mem_map.mp member
  exact proper_mark kind

mutual

theorem Derivation.Statement.proper : ∀ {symbols : List Symbol}, Derivation.Statement symbols →
    ∀ symbol ∈ symbols, symbol.Proper
  | _, .printText blank => by
      simp only [List.forall_mem_cons]
      exact ⟨proper_mark _, proper_mark _, proper_endings blank⟩
  | _, .print blank _ => by
      simp only [List.cons_append, List.forall_mem_cons, List.forall_mem_append]
      exact ⟨proper_mark _, proper_operands _, proper_endings blank⟩
  | _, .branch blank blank' _ body | _, .loop blank blank' _ body => by
      simp only [List.cons_append, List.append_assoc, List.forall_mem_cons, List.forall_mem_append]
      exact ⟨proper_mark _, proper_operands _, proper_mark _, proper_endings blank, body.proper,
        proper_mark _, proper_endings blank'⟩
  | _, .label blank | _, .goto blank | _, .input blank => by
      simp only [List.forall_mem_cons]
      exact ⟨proper_mark _, proper_name _, proper_endings blank⟩
  | _, .assign blank _ => by
      simp only [List.cons_append, List.forall_mem_cons, List.forall_mem_append]
      exact ⟨proper_mark _, proper_name _, proper_mark _, proper_operands _, proper_endings blank⟩

theorem Derivation.Statements.proper : ∀ {symbols : List Symbol}, Derivation.Statements symbols →
    ∀ symbol ∈ symbols, symbol.Proper
  | _, .nil => by simp
  | _, .cons first others => by
      exact List.forall_mem_append.mpr ⟨first.proper, others.proper⟩

end

theorem Derivation.Program.proper {symbols : List Symbol} (program : Derivation.Program symbols) :
    ∀ symbol ∈ symbols, symbol.Proper := by
  obtain ⟨blank, statements⟩ := program
  simp only [List.forall_mem_append, List.forall_mem_singleton]
  refine ⟨⟨?_, statements.proper⟩, proper_mark _⟩
  intro symbol member
  rw [List.eq_of_mem_replicate member]
  exact proper_mark _

/-- What may have a role in a program is an identifier. -/
theorem MayDerive.ident {kinds : List Kind} {index : Nat} {role : Role}
    (derives : MayDerive kinds index role) {kind : Kind} (here : kinds[index]? = some kind) :
    kind = .ident := by
  obtain ⟨rest, symbols, symbol, program, same, there, has⟩ := derives
  have inside := (List.getElem?_eq_some_iff.mp here).1
  have front : (kinds.take (index + 1) ++ rest)[index]? = some kind := by
    rw [List.getElem?_append_left (by rw [List.length_take]; omega),
      List.getElem?_take_of_lt (Nat.lt_succ_self index), here]
  rw [← same, List.getElem?_map, there] at front
  cases front
  exact program.proper symbol (List.mem_of_getElem? there) role has

end Grammar

/-! ## Tokens under other names -/

theorem ident_of_mayDerive {tokens : List Token} {role : Role} {index : Nat} {token : Token}
    (may : MayDerive (tokens.map Token.kind) index role) (here : tokens[index]? = some token) :
    token.kind = .ident := by
  refine may.ident ?_
  rw [List.getElem?_map, here]
  rfl

/-- Tokens that are others with their identifiers renamed. -/
structure Renamed (rename : String → String) (tokens tokens' : List Token) : Prop where
  renames : Renames rename tokens
  lexemes : tokens'.map Token.lexeme = tokens.map fun token => token.lexeme.renamed rename

namespace Renamed

variable {rename : String → String} {tokens tokens' : List Token}

/-- Renaming leaves the kinds of tokens as they are. -/
theorem kinds (renamed : Renamed rename tokens tokens') :
    tokens'.map Token.kind = tokens.map Token.kind := by
  have same := congrArg (List.map Prod.fst) renamed.lexemes
  rw [List.map_map, List.map_map] at same
  simpa [Function.comp_def, Token.lexeme] using same

theorem length_eq (renamed : Renamed rename tokens tokens') : tokens'.length = tokens.length := by
  simpa using congrArg List.length renamed.lexemes

/-- At every index stands what stood there before, under its new name. -/
theorem lexeme_eq (renamed : Renamed rename tokens tokens') {index : Nat} {token token' : Token}
    (here : tokens[index]? = some token) (here' : tokens'[index]? = some token') :
    token'.lexeme = token.lexeme.renamed rename := by
  have same := congrArg (·[index]?) renamed.lexemes
  simpa [here, here'] using same

theorem exists_token_iff (renamed : Renamed rename tokens tokens') {index : Nat} :
    (∃ token', tokens'[index]? = some token') ↔ ∃ token, tokens[index]? = some token := by
  rw [← Option.isSome_iff_exists, ← Option.isSome_iff_exists, isSome_getElem?, isSome_getElem?,
    renamed.length_eq]

/-- Where a name may have a role, it is renamed. -/
theorem text_eq (renamed : Renamed rename tokens tokens') {role : Role} {index : Nat}
    {token token' : Token} (may : MayDerive (tokens.map Token.kind) index role)
    (here : tokens[index]? = some token) (here' : tokens'[index]? = some token') :
    token'.text = rename token.text := by
  have same : token.lexeme = (.ident, token.text) := Prod.ext (ident_of_mayDerive may here) rfl
  have moved := renamed.lexeme_eq here here'
  rw [same] at moved
  exact congrArg Prod.snd moved

end Renamed

/-! ## Rules about names -/

/-- A name stands at an index that has a role, in whatever sense. -/
def Bears (derives : List Kind → Nat → Role → Prop) (tokens : List Token) (role : Role)
    (index : Nat) (name : String) : Prop :=
  derives (tokens.map Token.kind) index role ∧ ∃ token, tokens[index]? = some token ∧
    token.text = name

section Bears

variable {rename : String → String} {tokens tokens' : List Token}
  {derives : List Kind → Nat → Role → Prop}
  (may : ∀ {kinds index role}, derives kinds index role → MayDerive kinds index role)
include may

theorem Bears.mem_identifiers {role : Role} {index : Nat} {name : String}
    (bears : Bears derives tokens role index name) : name ∈ identifiers tokens := by
  obtain ⟨derived, token, here, rfl⟩ := bears
  exact TeenyTiny.mem_identifiers.mpr
    ⟨token, List.mem_of_getElem? here, ident_of_mayDerive (may derived) here, rfl⟩

/-- A new name stands where the old one stood, and nowhere else. -/
theorem Renamed.bears_iff (renamed : Renamed rename tokens tokens') {role : Role} {index : Nat}
    {name : String} (known : name ∈ identifiers tokens) :
    Bears derives tokens' role index (rename name) ↔ Bears derives tokens role index name := by
  unfold Bears
  rw [renamed.kinds]
  refine and_congr_right fun derived => ?_
  constructor
  · rintro ⟨token', here', same⟩
    obtain ⟨token, here⟩ := renamed.exists_token_iff.mp ⟨token', here'⟩
    have member := Bears.mem_identifiers may ⟨derived, token, here, rfl⟩
    have text := renamed.text_eq (may derived) here here'
    exact ⟨token, here, renamed.renames.injective _ member _ known (text.symm.trans same)⟩
  · rintro ⟨token, here, rfl⟩
    obtain ⟨token', here'⟩ := renamed.exists_token_iff.mpr ⟨token, here⟩
    exact ⟨token', here', renamed.text_eq (may derived) here here'⟩

/-- What stands anywhere after renaming is a new name. -/
theorem Renamed.exists_bears_iff (renamed : Renamed rename tokens tokens') {role : Role}
    {index : Nat} {property : String → Prop} :
    (∃ name, Bears derives tokens' role index name ∧ property name) ↔
      ∃ name, Bears derives tokens role index name ∧ property (rename name) := by
  constructor
  · rintro ⟨_, ⟨derived, token', here', rfl⟩, holds⟩
    rw [renamed.kinds] at derived
    obtain ⟨token, here⟩ := renamed.exists_token_iff.mp ⟨token', here'⟩
    rw [renamed.text_eq (may derived) here here'] at holds
    exact ⟨token.text, ⟨derived, token, here, rfl⟩, holds⟩
  · rintro ⟨name, bears, holds⟩
    exact ⟨rename name, (renamed.bears_iff may (bears.mem_identifiers may)).mpr bears, holds⟩

/-- A rule that compares a name with those that stand elsewhere says the same of the new names. -/
theorem Renamed.compares_iff (renamed : Renamed rename tokens tokens') {role role' : Role}
    {index : Nat} {elsewhere : Nat → Prop} {rule : Prop → Prop} :
    (∃ name, Bears derives tokens' role index name ∧
        rule (∃ other, elsewhere other ∧ Bears derives tokens' role' other name)) ↔
      ∃ name, Bears derives tokens role index name ∧
        rule (∃ other, elsewhere other ∧ Bears derives tokens role' other name) := by
  refine (renamed.exists_bears_iff may).trans (exists_congr fun name => ?_)
  refine and_congr_right fun bears => ?_
  have known := bears.mem_identifiers may
  simp only [renamed.bears_iff may known]

end Bears

namespace Renamed

variable {rename : String → String} {tokens tokens' : List Token}

theorem misplaced_iff (renamed : Renamed rename tokens tokens') {index : Nat} :
    Misplaced tokens' index ↔ Misplaced tokens index := by
  rw [Misplaced, Misplaced, renamed.length_eq, renamed.kinds]

theorem unset_iff (renamed : Renamed rename tokens tokens') {index : Nat} :
    Unset tokens' index ↔ Unset tokens index :=
  @compares_iff rename tokens tokens' MayDerive id renamed .read .target index (· < index) Not

theorem repeated_iff (renamed : Renamed rename tokens tokens') {index : Nat} :
    Repeated tokens' index ↔ Repeated tokens index :=
  @compares_iff rename tokens tokens' MayDerive id renamed .label .label index (· < index) id

/-- A token offends under other names if and only if it did before. -/
theorem offends_iff (renamed : Renamed rename tokens tokens') {index : Nat} :
    Offends tokens' index ↔ Offends tokens index := by
  rw [Offends, Offends, renamed.misplaced_iff, renamed.unset_iff, renamed.repeated_iff]

/-- A jump goes astray under other names if and only if it did before. -/
theorem astray_iff (renamed : Renamed rename tokens tokens') {index : Nat} :
    Astray tokens' index ↔ Astray tokens index := by
  have compares := @compares_iff rename tokens tokens' Derives Derives.mayDerive renamed .jump
    .label index (fun _ => True) Not
  simp only [true_and] at compares
  exact compares

end Renamed

/-! ## Faults -/

/-- Two sources that differ in the spelling of names are both without a fault, or have a fault of
the same phase at the same token. -/
theorem Compilation.fault_renamed {rename : String → String} {source source' : String}
    {tokens tokens' : List Token} (lexes : (Cursor.ofSource source).Lexes tokens)
    (lexes' : (Cursor.ofSource source').Lexes tokens') (renamed : Renamed rename tokens tokens')
    (output : Output) :
    ((ofSource source output).fault? = none ∧ (ofSource source' output).fault? = none) ∨
      ∃ (index : Nat) (token token' : Token) (cause cause' : Cause),
        tokens[index]? = some token ∧ tokens'[index]? = some token' ∧
          (ofSource source output).fault? = some ⟨cause, token.loc⟩ ∧
          (ofSource source' output).fault? = some ⟨cause', token'.loc⟩ ∧
          cause'.phase = cause.phase := by
  by_cases some : ∃ index, Offends tokens index
  · obtain ⟨_, offends⟩ := some
    obtain ⟨index, offends, first⟩ := exists_first offends
    have first' : ∀ earlier < index, ¬ Offends tokens' earlier := by
      intro earlier before bad
      exact first earlier before (renamed.offends_iff.mp bad)
    obtain ⟨token, cause, here, fault, phase⟩ := exists_fault_of_offends lexes output offends first
    obtain ⟨token', cause', here', fault', phase'⟩ :=
      exists_fault_of_offends lexes' output (renamed.offends_iff.mpr offends) first'
    refine .inr ⟨index, token, token', cause, cause', here, here', fault, fault', ?_⟩
    rw [renamed.misplaced_iff, renamed.unset_iff, renamed.repeated_iff] at phase'
    rcases phase with ⟨misplaced, grammar⟩ | ⟨named, meaning⟩
    · rcases phase' with ⟨-, grammar'⟩ | ⟨named, -⟩
      · exact grammar'.trans grammar.symm
      · exact absurd misplaced (not_misplaced_of_named named)
    · rcases phase' with ⟨misplaced, -⟩ | ⟨-, meaning'⟩
      · exact absurd misplaced (not_misplaced_of_named named)
      · exact meaning'.trans meaning.symm
  · have none : ∀ index, ¬ Offends tokens index := not_exists.mp some
    have none' : ∀ index, ¬ Offends tokens' index := by
      intro index bad
      exact none index (renamed.offends_iff.mp bad)
    by_cases lost : ∃ index, Astray tokens index
    · obtain ⟨_, astray⟩ := lost
      obtain ⟨index, astray, first⟩ := exists_first astray
      have first' : ∀ earlier < index, ¬ Astray tokens' earlier := by
        intro earlier before bad
        exact first earlier before (renamed.astray_iff.mp bad)
      obtain ⟨_, ⟨-, token, here, -⟩, -⟩ := id astray
      obtain ⟨token', here'⟩ := renamed.exists_token_iff.mpr ⟨token, here⟩
      exact .inr ⟨index, token, token', _, _, here, here',
        fault_of_astray lexes none output astray first here,
        fault_of_astray lexes' none' output (renamed.astray_iff.mpr astray) first' here', rfl⟩
    · refine .inl ⟨?_, ?_⟩
      · exact (fault_eq_none_iff_not_astray lexes none output).mpr (not_exists.mp lost)
      · refine (fault_eq_none_iff_not_astray lexes' none' output).mpr ?_
        intro index bad
        exact lost ⟨index, renamed.astray_iff.mp bad⟩

/-! ## Programs -/

/-- Renaming leaves blank lines where they are. -/
theorem Tree.dropBlankLines_map (rename : String → String) (ended : Bool)
    (lexemes : List Lexeme) :
    dropBlankLines ended (lexemes.map (Lexeme.renamed rename)) =
      (dropBlankLines ended lexemes).map (Lexeme.renamed rename) := by
  induction lexemes generalizing ended with
  | nil => rfl
  | cons lexeme lexemes ih =>
      rw [List.map_cons, dropBlankLines, dropBlankLines, Lexeme.renamed_kind]
      split
      · split
        · exact ih true
        · rw [ih true, List.map_cons]
      · rw [ih false, List.map_cons]

/-- A source under other names has the tree of the source under these names. -/
theorem Renamed.hasTree {rename : String → String} {source' : String} {body : List Token}
    {last : Token} {tokens' : List Token} {tree : Tree.Statements}
    (renamed : Renamed rename (body ++ [last]) tokens')
    (lexes' : (Cursor.ofSource source').Lexes tokens')
    (listed : Tree.withoutBlankLines (body.map Token.lexeme) = tree.lexemes) :
    HasTree source' (tree.renamed rename) := by
  obtain ⟨body', last', rfl, -⟩ := lexes'.split
  refine ⟨body', last', lexes', ?_⟩
  have same := renamed.lexemes
  rw [List.map_append, List.map_append] at same
  have front := (List.append_inj' same rfl).1
  rw [front, tree.lexemes_renamed, ← listed, Tree.withoutBlankLines, Tree.withoutBlankLines,
    ← Tree.dropBlankLines_map, List.map_map]
  rfl

/-- The variables that a tree sets are identifiers of its tokens. -/
theorem mem_identifiers_of_target {body : List Token} {last : Token} {tree : Tree.Statements}
    (listed : Tree.withoutBlankLines (body.map Token.lexeme) = tree.lexemes) {name : String}
    (target : name ∈ tree.targets) : name ∈ identifiers (body ++ [last]) := by
  have member := tree.ident_mem_lexemes (.inl target)
  rw [← listed] at member
  obtain ⟨token, inside, same⟩ := List.mem_map.mp (Tree.mem_of_mem_dropBlankLines member)
  exact mem_identifiers.mpr ⟨token, List.mem_append_left _ inside, congrArg Prod.fst same,
    congrArg Prod.snd same⟩

/-- A source that is compiled is written in segments that are the same for all spellings. -/
theorem Compilation.exists_segments {source : String} {tokens : List Token}
    (lexes : (Cursor.ofSource source).Lexes tokens) (quiet : (ofSource source {}).fault? = none) :
    ∃ segments, (ofSource source {}).draft.output.render = spell targetName segments ∧
      ∀ rename source' tokens', (Cursor.ofSource source').Lexes tokens' →
        Renamed rename tokens tokens' → (ofSource source' {}).fault? = none →
          (ofSource source' {}).draft.output.render = spell (targetName ∘ rename) segments := by
  have settled := settled_of_fault_none quiet
  obtain ⟨tree, has⟩ := exists_tree settled
  refine ⟨tree.programSegments, ?_, ?_⟩
  · rw [output_eq has settled, tree.spell_programSegments]
    rfl
  · intro rename source' tokens' lexes' renamed quiet'
    obtain ⟨body, last, own, listed⟩ := has
    obtain rfl := lexes.unique own
    have injective : ∀ name ∈ tree.targets, ∀ other ∈ tree.targets,
        rename name = rename other → name = other := by
      intro name target other target'
      exact renamed.renames.injective name (mem_identifiers_of_target listed target) other
        (mem_identifiers_of_target listed target')
    rw [output_eq (renamed.hasTree lexes' listed) (settled_of_fault_none quiet'), ← spell_renamed,
      ← Tree.Statements.programSegments_renamed injective, Tree.Statements.spell_programSegments]
    rfl

/-- Names can be spelled in any way. A source that can be read to its end, and this source with its
identifiers renamed so that different ones stay different, are both compiled or both fail. If they
fail, it is in the same phase and at the same token. If they are compiled, the two programs are made
of the same segments, one with the old names in their C spelling and the other with the new names.
The segments do not depend on the new names, which may be names that C reserves. -/
theorem compile_renamed {source : String} {tokens : List Token}
    (lexes : (Cursor.ofSource source).Lexes tokens) :
    ∃ segments, ∀ rename, Renames rename tokens →
      ∃ tokens', (Cursor.ofSource (renameSource rename source)).Lexes tokens' ∧
        tokens'.map Token.lexeme = (tokens.map fun token => token.lexeme.renamed rename) ∧
        ((compile source = .ok (spell targetName segments) ∧
            compile (renameSource rename source) = .ok (spell (targetName ∘ rename) segments)) ∨
          ∃ (index : Nat) (token token' : Token) (diagnostic diagnostic' : Diagnostic),
            tokens[index]? = some token ∧ tokens'[index]? = some token' ∧
            compile source = .error diagnostic ∧
            compile (renameSource rename source) = .error diagnostic' ∧
            diagnostic'.phase = diagnostic.phase ∧
            diagnostic.position = Position.ofOffset (sourceText source) token.loc ∧
            diagnostic'.position =
              Position.ofOffset (sourceText (renameSource rename source)) token'.loc) := by
  have segments : ∃ segments, (Compilation.ofSource source {}).fault? = none →
      (Compilation.ofSource source {}).draft.output.render = spell targetName segments ∧
      ∀ rename source' tokens', (Cursor.ofSource source').Lexes tokens' →
        Renamed rename tokens tokens' → (Compilation.ofSource source' {}).fault? = none →
          (Compilation.ofSource source' {}).draft.output.render =
            spell (targetName ∘ rename) segments := by
    by_cases quiet : (Compilation.ofSource source {}).fault? = none
    · obtain ⟨segments, written⟩ := Compilation.exists_segments lexes quiet
      exact ⟨segments, fun _ => written⟩
    · exact ⟨[], fun quiet' => absurd quiet' quiet⟩
  obtain ⟨segments, written⟩ := segments
  refine ⟨segments, ?_⟩
  intro rename renames
  obtain ⟨tokens', lexes', same⟩ := renames.exists_lexes lexes
  have renamed : Renamed rename tokens tokens' := ⟨renames, same⟩
  refine ⟨tokens', lexes', same, ?_⟩
  rcases Compilation.fault_renamed lexes lexes' renamed {} with ⟨quiet, quiet'⟩ |
    ⟨index, token, token', cause, cause', here, here', fault, fault', phase⟩
  · obtain ⟨text, text'⟩ := written quiet
    refine .inl ⟨?_, ?_⟩
    · exact compile_eq_ok_iff.mpr ⟨quiet, text.symm⟩
    · exact compile_eq_ok_iff.mpr ⟨quiet', (text' rename _ tokens' lexes' renamed quiet').symm⟩
  · exact .inr ⟨index, token, token', _, _, here, here', compile_eq_error_iff.mpr ⟨_, fault, rfl⟩,
      compile_eq_error_iff.mpr ⟨_, fault', rfl⟩, phase, rfl, rfl⟩

/-- One variable gets a name that C reserves, and the other had one. -/
theorem compile_renamed_reserved :
    let tokens : List Token := [⟨.letWord, "LET", 0⟩, ⟨.ident, "in", 4⟩, ⟨.assign, "=", 6⟩,
      ⟨.number, "1", 7⟩, ⟨.newline, "\n", 8⟩, ⟨.letWord, "LET", 9⟩, ⟨.ident, "int", 13⟩,
      ⟨.assign, "=", 16⟩, ⟨.ident, "in", 17⟩, ⟨.newline, "\n", 19⟩, ⟨.eof, "", 20⟩]
    (Cursor.ofSource "LET in=1\nLET int=in").Lexes tokens ∧ Renames (· ++ "t") tokens ∧
      renameSource (· ++ "t") "LET in=1\nLET int=in" = "LET int=1\nLET intt=int" ∧
      ∃ segments,
        compile "LET in=1\nLET int=in" = .ok (spell targetName segments) ∧
        spell targetName segments = "#include <stdio.h>\nint main(void)\x7b\n" ++
          "float in;\nfloat v_int;\nin = 1.0;\nv_int = in;\nreturn 0;\n\x7d\n" ∧
        compile "LET int=1\nLET intt=int" = .ok (spell (targetName ∘ (· ++ "t")) segments) := by
  intro tokens
  have supply : (Cursor.ofSource "LET in=1\nLET int=in").supply =
      ⟨tokens.dropLast, .ok ⟨.eof, "", 20⟩⟩ :=
    Cursor.supply_of_take (by rfl) (by decide) (by intro last same; cases same; rfl)
  have lexes : (Cursor.ofSource "LET in=1\nLET int=in").Lexes tokens :=
    Cursor.lexes_iff_supply.mpr ⟨_, congrArg Supply.ending supply, by rw [supply]; rfl⟩
  have renames : Renames (· ++ "t") tokens := by
    constructor
    · have known : identifiers tokens = ["in", "int", "in"] := rfl
      rw [known]
      simp only [List.forall_mem_cons]
      have first : Lexeme.Shaped (.ident, "in" ++ "t") := ⟨by decide, by decide⟩
      have second : Lexeme.Shaped (.ident, "int" ++ "t") := ⟨by decide, by decide⟩
      exact ⟨first, second, first, nofun⟩
    · intro name _ other _ same
      exact String.append_left_inj "t" |>.mp same
  have respelled :
      renameSource (· ++ "t") "LET in=1\nLET int=in" = "LET int=1\nLET intt=int" := by
    rw [renameSource, Cursor.renamedRest, supply]
    decide
  have compiled : compile "LET in=1\nLET int=in" =
      .ok ("#include <stdio.h>\nint main(void)\x7b\n" ++
        "float in;\nfloat v_int;\nin = 1.0;\nv_int = in;\nreturn 0;\n\x7d\n") := by
    rw [compile, Compilation.ofSource, Cursor.compile, supply]
    rfl
  obtain ⟨segments, all⟩ := compile_renamed lexes
  obtain ⟨tokens', -, -, both⟩ := all (· ++ "t") renames
  rw [respelled] at both
  rcases both with ⟨before, after⟩ | ⟨_, _, _, _, _, -, -, failed, -⟩
  · exact ⟨lexes, renames, respelled, segments, before,
      Except.ok.inj (before.symm.trans compiled), after⟩
  · cases failed.symm.trans compiled

end TeenyTiny
