import TeenyTiny.Proofs.Continuation
import TeenyTiny.Proofs.Hygiene

/-!
# One program after another

Two programs, one written below the other, are one program whose tree is that of the first with that
of the second behind it (`HasTree.append`). No token reaches over the line break between them, and
the tokens of the second are those that it has by itself, further on in the text.

The names of the second program are checked where those of the first are known. More variables do no
harm (`Tree.Statements.Scoped.mono`), and labels do none as long as no label is in both, so that two
programs that are compiled are also compiled as one. What is written for the second follows what is
written for the first, but for the end of the first and for the declarations that the first has
already made (`compile_concatenation`).
-/

set_option autoImplicit false

namespace TeenyTiny

/-! ## Trees one behind the other -/

namespace Tree

/-- Statements, and then others. -/
def Statements.append : Statements → Statements → Statements
  | .nil, second => second
  | .cons first others, second => .cons first (others.append second)

/-- What is listed statement by statement is listed of one tree and then of the other. -/
theorem Statements.listing_append {α : Type} {listing : Statements → List α}
    {one : Statement → List α} (nil : listing .nil = [])
    (cons : ∀ first others, listing (.cons first others) = one first ++ listing others) :
    ∀ first second : Statements,
      listing (first.append second) = listing first ++ listing second
  | .nil, second => by rw [append, nil, List.nil_append]
  | .cons statement others, second => by
      rw [append, cons, cons, listing_append nil cons others second, List.append_assoc]

theorem Statements.toC_append :
    ∀ first second : Statements, (first.append second).toC = first.toC ++ second.toC
  | .nil, second => String.empty_append.symm
  | .cons statement others, second => by
      rw [append, toC, toC, toC_append others second, String.append_assoc]

section Append

variable (first second : Statements)

theorem Statements.lexemes_append :
    (first.append second).lexemes = first.lexemes ++ second.lexemes :=
  listing_append rfl (fun _ _ => rfl) first second

theorem Statements.targets_append :
    (first.append second).targets = first.targets ++ second.targets :=
  listing_append rfl (fun _ _ => rfl) first second

theorem Statements.labels_append :
    (first.append second).labels = first.labels ++ second.labels :=
  listing_append rfl (fun _ _ => rfl) first second

theorem Statements.jumps_append :
    (first.append second).jumps = first.jumps ++ second.jumps :=
  listing_append rfl (fun _ _ => rfl) first second

end Append

/-- The second of two trees reads its variables where those that the first sets are known. -/
theorem Statements.scoped_append (known : List String) : ∀ first second : Statements,
    (first.append second).Scoped known ↔
      first.Scoped known ∧ second.Scoped (known ++ first.targets)
  | .nil, second => by simp [append, Scoped, targets]
  | .cons statement others, second => by
      rw [append, Scoped, Scoped, scoped_append _ others second, targets, List.append_assoc,
        and_assoc]

mutual

/-- A statement may be read where more variables are known. -/
theorem Statement.Scoped.mono {known more : List String} (sub : ∀ name ∈ known, name ∈ more) :
    ∀ statement : Statement, statement.Scoped known → statement.Scoped more
  | .printText _, fine | .label _, fine | .goto _, fine | .input _, fine => fine
  | .print _, fine => fun name member => sub name (fine name member)
  | .block _ _ body, ⟨guard, inside⟩ =>
      ⟨fun name member => sub name (guard name member), Statements.Scoped.mono sub body inside⟩
  | .assign target _, fine => by
      intro name member
      rcases List.mem_append.mp (fine name member) with before | here
      · exact List.mem_append_left [target] (sub name before)
      · exact List.mem_append_right more here

theorem Statements.Scoped.mono {known more : List String} (sub : ∀ name ∈ known, name ∈ more) :
    ∀ statements : Statements, statements.Scoped known → statements.Scoped more
  | .nil, fine => fine
  | .cons first others, ⟨here, later⟩ => by
      refine ⟨Statement.Scoped.mono sub first here, Statements.Scoped.mono ?_ others later⟩
      intro name member
      rcases List.mem_append.mp member with before | set
      · exact List.mem_append_left _ (sub name before)
      · exact List.mem_append_right _ set

end

/-- Two well-named programs that share no label are one. -/
theorem Statements.WellNamed.append {first second : Statements} (named : first.WellNamed)
    (named' : second.WellNamed) (apart : ∀ name ∈ first.labels, name ∉ second.labels) :
    (first.append second).WellNamed where
  set_before_read := by
    rw [scoped_append]
    refine ⟨named.set_before_read, Scoped.mono ?_ second named'.set_before_read⟩
    intro name impossible
    cases impossible
  labels_nodup := by
    rw [labels_append, List.nodup_append]
    refine ⟨named.labels_nodup, named'.labels_nodup, ?_⟩
    intro name member other member' same
    rw [← same] at member'
    exact apart name member member'
  jumps_subset := by
    intro name member
    rw [jumps_append, List.mem_append] at member
    rw [labels_append, List.mem_append]
    rcases member with member | member
    · exact .inl (named.jumps_subset name member)
    · exact .inr (named'.jumps_subset name member)

/-! ## Declarations -/

/-- The names that occur for the first time are those of all first occurrences that are new. -/
theorem firstOccurrences_eq_filter (known names : List String) :
    firstOccurrences known names = (firstOccurrences [] names).filter (· ∉ known) := by
  induction names generalizing known with
  | nil => rfl
  | cons name names ih =>
      rw [firstOccurrences, firstOccurrences, if_neg List.not_mem_nil, ih, ih ([] ++ [name])]
      by_cases seen : name ∈ known
      · rw [if_pos seen, List.filter_cons_of_neg (by simpa using seen), List.filter_filter]
        apply List.filter_congr
        intro other _
        have here : other ∉ known → other ≠ name := by
          intro new same
          rw [same] at new
          exact new seen
        simpa using here
      · rw [if_neg seen, List.filter_cons_of_pos (by simpa using seen), ih, List.filter_filter]
        congr 1
        apply List.filter_congr
        intro other _
        simp

/-- First occurrences in two lists, one behind the other. -/
theorem firstOccurrences_append (first second : List String) :
    firstOccurrences [] (first ++ second) = firstOccurrences [] first ++
      (firstOccurrences [] second).filter (· ∉ firstOccurrences [] first) := by
  have split (known : List String) : firstOccurrences known (first ++ second) =
      firstOccurrences known first ++ firstOccurrences (known ++ first) second := by
    induction first generalizing known with
    | nil => simp [firstOccurrences]
    | cons name first ih =>
        rw [List.cons_append, firstOccurrences, firstOccurrences]
        by_cases seen : name ∈ known
        · -- The name is known twice over, which makes no difference to what follows.
          rw [if_pos seen, if_pos seen, ih, firstOccurrences_eq_filter (known ++ first),
            firstOccurrences_eq_filter (known ++ name :: first)]
          congr 1
          apply List.filter_congr
          intro other _
          have here : other = name → other ∈ known := by
            intro same
            rw [same]
            exact seen
          simp only [List.mem_append, List.mem_cons, not_or]
          grind
        · rw [if_neg seen, if_neg seen, ih, List.cons_append, List.append_assoc]
          rfl
  rw [split, firstOccurrences_eq_filter ([] ++ first)]
  congr 1
  apply List.filter_congr
  intro name _
  simp [mem_firstOccurrences]

/-- The declarations of variables, in order. -/
def declarations (names : List String) : String :=
  String.join (names.map declaration)

theorem declarations_append (first second : List String) :
    declarations (first ++ second) = declarations first ++ declarations second := by
  rw [declarations, List.map_append, String.join_append]
  rfl

theorem Statements.header_eq (program : Statements) :
    program.header = "#include <stdio.h>\nint main(void)\x7b\n" ++
      declarations (firstOccurrences [] program.targets) := rfl

/-- The header of two programs is that of the first, with what the second declares that the first
does not. -/
theorem Statements.header_append (first second : Statements) :
    (first.append second).header = first.header ++
      declarations ((firstOccurrences [] second.targets).filter
        (· ∉ firstOccurrences [] first.targets)) := by
  rw [header_eq, header_eq, targets_append, firstOccurrences_append, declarations_append,
    String.append_assoc]

end Tree

/-! ## Texts one behind the other -/

/-- Behind the end of a line, blank lines are dropped as at the start of a program. -/
theorem Tree.dropBlankLines_newline {newline : Lexeme} (ends : newline.1 = .newline) (ended : Bool)
    (first second : List Lexeme) :
    dropBlankLines ended (first ++ newline :: second) =
      dropBlankLines ended (first ++ [newline]) ++ dropBlankLines true second := by
  induction first generalizing ended with
  | nil => cases ended <;> simp [dropBlankLines, ends]
  | cons lexeme first ih =>
      rw [List.cons_append, List.cons_append, dropBlankLines, dropBlankLines]
      by_cases here : lexeme.1 = .newline
      · rw [if_pos here, if_pos here, ih]
        cases ended <;> rfl
      · rw [if_neg here, if_neg here, ih]
        rfl

/-- The tokens of two sources, one behind the other, have the lexemes of both. -/
theorem Cursor.Lexes.append {source more : String} {body body' : List Token} {last last' : Token}
    (lexes : (ofSource source).Lexes (body ++ [last]))
    (lexes' : (ofSource more).Lexes (body' ++ [last'])) :
    ∃ later final, later.map Token.lexeme = body'.map Token.lexeme ∧
      (ofSource (source ++ "\n" ++ more)).Lexes (body ++ later ++ [final]) := by
  have further : behind source more = (ofSource more).forward (byteLength (sourceText source)) := by
    rw [behind, forward, ofSource, Nat.zero_add]
  have supply := supply_append source more
  rw [further, supply_forward, lexes.supply_eq, lexes'.supply_eq] at supply
  refine ⟨body'.map (.relocated (· + byteLength (sourceText source))),
    last'.relocated (· + byteLength (sourceText source)), ?_, ?_⟩
  · rw [List.map_map]
    rfl
  · apply lexes_iff_supply.mpr
    rw [supply]
    exact ⟨_, rfl, rfl⟩

/-- Two programs that have a tree, one below the other, have the tree of both. -/
theorem HasTree.append {source more : String} {tree tree' : Tree.Statements}
    (has : HasTree source tree) (has' : HasTree more tree') :
    HasTree (source ++ "\n" ++ more) (tree.append tree') := by
  obtain ⟨body, last, lexes, listed⟩ := has
  obtain ⟨body', last', lexes', listed'⟩ := has'
  obtain ⟨later, final, same, whole⟩ := lexes.append lexes'
  refine ⟨body ++ later, final, whole, ?_⟩
  -- The first program ends with the end of a line, behind which the second one starts anew.
  obtain ⟨front, loc, ending, -⟩ := lexes.exists_ending (Lexeme.lined_concat source.toList)
    (List.concat_ne_nil '\n' source.toList)
  have shape : body = front ++ [⟨.newline, "\n", loc⟩] := by
    have split : body ++ [last] = front ++ [⟨.newline, "\n", loc⟩] ++ [⟨.eof, "", loc + 1⟩] := by
      rw [ending, List.append_assoc]
      rfl
    exact (List.append_inj' split rfl).1
  have ends : (Token.lexeme ⟨.newline, "\n", loc⟩).1 = .newline := rfl
  rw [tree.lexemes_append, ← listed, ← listed', ← same, Tree.withoutBlankLines,
    Tree.withoutBlankLines, Tree.withoutBlankLines, shape]
  simp only [List.map_append, List.map_cons, List.map_nil, List.append_assoc, List.cons_append,
    List.nil_append]
  exact Tree.dropBlankLines_newline ends true _ _

/-! ## What is known in the end -/

/-- The variables that are known after actions are those that were known, and then those that the
actions take in for the first time. -/
theorem Names.vars_afterAll {actions : List Action} {targets : List String}
    (only : Action.headings actions = targets.map .declare) (names : Names) :
    (names.afterAll actions).vars =
      names.vars ++ Tree.firstOccurrences names.vars targets := by
  induction actions generalizing names targets with
  | nil =>
      obtain rfl := List.map_eq_nil_iff.mp only.symm
      exact (List.append_nil names.vars).symm
  | cons action actions ih =>
      rw [afterAll_cons]
      cases action with
      | head line => cases targets <;> simp [Action.heading?] at only
      | declare name =>
          rcases targets with _ | ⟨first, targets⟩
          · simp [Action.heading?] at only
          · obtain ⟨same, later⟩ := List.cons.inj only
            cases same
            rw [ih later, after, vars_declareVariable, Tree.firstOccurrences]
            by_cases known : name ∈ names.vars
            · simp only [List.contains_iff_mem, if_pos known]
            · simp only [List.contains_iff_mem, if_neg known, List.append_assoc,
                List.singleton_append]
      | label name loc =>
          rw [ih only, after, vars_declareLabel]
      | jump name loc =>
          rw [ih only, after, vars_jumpTo]
      | note _ | write _ | use _ _ | settle => exact ih only names

theorem Names.labels_afterAll_unplaced (names : Names) (actions : List Action) :
    (names.unplaced.afterAll (actions.map Action.unplaced)).labels =
      (names.afterAll actions).labels := by
  induction actions generalizing names with
  | nil => rfl
  | cons action actions ih =>
      rw [List.map_cons, afterAll_cons, afterAll_cons, after_unplaced]
      exact ih (names.after action)

theorem Names.afterAll_filter (names : Names) (actions : List Action) :
    names.afterAll (actions.filter Action.naming) = names.afterAll actions := by
  induction actions generalizing names with
  | nil => rfl
  | cons action actions ih =>
      rw [afterAll_cons]
      cases about : action.naming with
      | true => rw [List.filter_cons_of_pos about, afterAll_cons, ih]
      | false =>
          rw [List.filter_cons_of_neg (by simp [about]), (after_of_not_naming names about).1, ih]

theorem Draft.foldl_names (actions : List Action) (draft : Draft) :
    (actions.foldl perform draft).names = draft.names.afterAll actions := by
  induction actions generalizing draft with
  | nil => rfl
  | cons action actions ih => rw [List.foldl_cons, ih, perform_names, Names.afterAll_cons]

/-- The names that a settled source leaves known are those of its tree. -/
theorem Compilation.names_eq {source : String} {tree : Tree.Statements}
    (has : HasTree source tree) (settled : (ofSource source {}).Settled) :
    (ofSource source {}).draft.names.vars = Tree.firstOccurrences [] tree.targets ∧
      ∀ name, name ∈ (ofSource source {}).draft.names.labels ↔ name ∈ tree.labels := by
  obtain ⟨done, same, draft⟩ := exists_draft has settled
  have names : (ofSource source {}).draft.names = Names.afterAll {} (done ++ epilogue) := by
    rw [draft, List.foldl_append, Draft.foldl_names]
    rfl
  refine ⟨?_, ?_⟩
  · have only : Action.headings (done ++ epilogue) = tree.targets.map .declare := by
      rw [Action.headings_append, ← Action.headings_unplaced, same, tree.headings_actions]
      exact List.append_nil _
    rw [names, Names.vars_afterAll only]
    rfl
  · intro name
    have labels : (ofSource source {}).draft.names.labels =
        (Names.afterAll {} tree.deeds).labels := by
      have unplaced : (Names.unplaced {}) = {} := rfl
      rw [names, Names.afterAll_append, Tree.Statements.deeds, ← same, Names.afterAll_filter,
        ← unplaced, Names.labels_afterAll_unplaced]
      rfl
    have knows := (tree.knows Names.Knows.start).labels name
    rw [Names.hasLabel, List.contains_iff_mem, List.nil_append] at knows
    rw [labels]
    exact knows

/-! ## Compiling -/

/-- Two sources that are compiled and that set no common label are compiled as one, one below the
other. The header is that of the first source, and then the declarations that the second makes, in
order, of the variables that the first does not declare. The body is that of the first source
without its end, and then that of the second. -/
theorem compile_concatenation {source more program program' : String}
    (compiled : compile source = .ok program) (compiled' : compile more = .ok program')
    (apart : ∀ name ∈ (Compilation.ofSource source {}).draft.names.labels,
      name ∉ (Compilation.ofSource more {}).draft.names.labels) :
    let opening := "#include <stdio.h>\nint main(void)\x7b\n"
    let first := (Compilation.ofSource source {}).draft
    let second := (Compilation.ofSource more {}).draft
    let whole := (Compilation.ofSource (source ++ "\n" ++ more) {}).draft
    (program = first.output.header ++ first.output.body ∧
      first.output.header = opening ++ Tree.declarations first.names.vars) ∧
    (program' = second.output.header ++ second.output.body ∧
      second.output.header = opening ++ Tree.declarations second.names.vars) ∧
    compile (source ++ "\n" ++ more) = .ok (whole.output.header ++ whole.output.body) ∧
    whole.output.header = first.output.header ++
      Tree.declarations (second.names.vars.filter (· ∉ first.names.vars)) ∧
    ∃ code, first.output.body = code ++ "return 0;\n\x7d\n" ∧
      whole.output.body = code ++ second.output.body := by
  intro opening first second whole
  obtain ⟨quiet, rendered⟩ := compile_eq_ok_iff.mp compiled
  obtain ⟨quiet', rendered'⟩ := compile_eq_ok_iff.mp compiled'
  have settled := Compilation.settled_of_fault_none quiet
  have settled' := Compilation.settled_of_fault_none quiet'
  obtain ⟨tree, has⟩ := Compilation.exists_tree settled
  obtain ⟨tree', has'⟩ := Compilation.exists_tree settled'
  obtain ⟨vars, labels⟩ := Compilation.names_eq has settled
  obtain ⟨vars', labels'⟩ := Compilation.names_eq has' settled'
  have named : (tree.append tree').WellNamed := by
    apply Tree.Statements.WellNamed.append
    · exact (Compilation.fault_eq_none_iff_wellNamed has).mp quiet
    · exact (Compilation.fault_eq_none_iff_wellNamed has').mp quiet'
    · intro name member member'
      exact apart name ((labels name).mpr member) ((labels' name).mpr member')
  have joined := has.append has'
  have silent := (Compilation.fault_eq_none_iff_wellNamed joined).mpr named
  have output := Compilation.output_eq has settled
  have output' := Compilation.output_eq has' settled'
  have together := Compilation.output_eq joined (Compilation.settled_of_fault_none silent)
  have compiled := compile_eq_ok_iff.mpr ⟨silent, rfl⟩
  refine ⟨⟨rendered, ?_⟩, ⟨rendered', ?_⟩, compiled, ?_, tree.toC, ?_, ?_⟩
  · rw [output, vars]
    rfl
  · rw [output', vars']
    rfl
  · rw [together, output, vars, vars']
    exact tree.header_append tree'
  · rw [output]
    rfl
  · rw [together, output', Tree.Statements.body, tree.toC_append, String.append_assoc]
    rfl

/-- The second source sets a variable that the first declares, and one that it does not. -/
theorem compile_concatenation_shared :
    let opening := "#include <stdio.h>\nint main(void)\x7b\n"
    compile "LET if = 1\nLABEL a" =
        .ok (opening ++ "float v_if;\n" ++ "v_if = 1.0;\na:;\nreturn 0;\n\x7d\n") ∧
      compile "LET b = 2\nLET if = b\nLABEL b" =
        .ok (opening ++ "float b;\nfloat v_if;\n" ++
          "b = 2.0;\nv_if = b;\nb:;\nreturn 0;\n\x7d\n") ∧
      compile ("LET if = 1\nLABEL a" ++ "\n" ++ "LET b = 2\nLET if = b\nLABEL b") =
        .ok (opening ++ "float v_if;\nfloat b;\n" ++
          "v_if = 1.0;\na:;\nb = 2.0;\nv_if = b;\nb:;\nreturn 0;\n\x7d\n") := by
  have first : ∃ log, Compilation.ofSource "LET if = 1\nLABEL a" {} =
      ⟨⟨⟨["if"], ["a"], []⟩, ⟨"#include <stdio.h>\nint main(void)\x7b\nfloat v_if;\n",
        "v_if = 1.0;\na:;\nreturn 0;\n\x7d\n"⟩, log⟩, none⟩ := by
    have supply : (Cursor.ofSource "LET if = 1\nLABEL a").supply =
        ⟨[⟨.letWord, "LET", 0⟩, ⟨.ident, "if", 4⟩, ⟨.assign, "=", 7⟩, ⟨.number, "1", 9⟩,
          ⟨.newline, "\n", 10⟩, ⟨.labelWord, "LABEL", 11⟩, ⟨.ident, "a", 17⟩,
          ⟨.newline, "\n", 18⟩], .ok ⟨.eof, "", 19⟩⟩ :=
      Cursor.supply_of_take (by rfl) (by decide) (by intro last same; cases same; rfl)
    rw [Compilation.ofSource, Cursor.compile, supply]
    exact ⟨_, rfl⟩
  have second : ∃ log, Compilation.ofSource "LET b = 2\nLET if = b\nLABEL b" {} =
      ⟨⟨⟨["b", "if"], ["b"], []⟩,
        ⟨"#include <stdio.h>\nint main(void)\x7b\nfloat b;\nfloat v_if;\n",
          "b = 2.0;\nv_if = b;\nb:;\nreturn 0;\n\x7d\n"⟩, log⟩, none⟩ := by
    have supply : (Cursor.ofSource "LET b = 2\nLET if = b\nLABEL b").supply =
        ⟨[⟨.letWord, "LET", 0⟩, ⟨.ident, "b", 4⟩, ⟨.assign, "=", 6⟩, ⟨.number, "2", 8⟩,
          ⟨.newline, "\n", 9⟩, ⟨.letWord, "LET", 10⟩, ⟨.ident, "if", 14⟩, ⟨.assign, "=", 17⟩,
          ⟨.ident, "b", 19⟩, ⟨.newline, "\n", 20⟩, ⟨.labelWord, "LABEL", 21⟩, ⟨.ident, "b", 27⟩,
          ⟨.newline, "\n", 28⟩], .ok ⟨.eof, "", 29⟩⟩ :=
      Cursor.supply_of_take (by rfl) (by decide) (by intro last same; cases same; rfl)
    rw [Compilation.ofSource, Cursor.compile, supply]
    exact ⟨_, rfl⟩
  obtain ⟨log, first⟩ := first
  obtain ⟨log', second⟩ := second
  have compiled := compile_eq_ok_iff.mpr ⟨congrArg Compilation.fault? first, rfl⟩
  have compiled' := compile_eq_ok_iff.mpr ⟨congrArg Compilation.fault? second, rfl⟩
  have apart : ∀ name ∈ ["a"], name ∉ ["b"] := by decide
  have joined := compile_concatenation compiled compiled' (by rw [first, second]; exact apart)
  rw [first] at compiled joined
  rw [second] at compiled' joined
  obtain ⟨-, -, joined, header, code, before, body⟩ := joined
  have code : code = "v_if = 1.0;\na:;\n" := (String.append_left_inj _).mp before.symm
  refine ⟨compiled, compiled', ?_⟩
  rw [joined, header, body, code]
  rfl

end TeenyTiny
