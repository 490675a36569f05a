import TeenyTiny.Proofs.Parsing
import TeenyTiny.Proofs.TreeWalk
import TeenyTiny.Tree.Target

/-!
# Compiling is translating the tree

The header and the body of a C program are written piece by piece while tokens are passed. All in
all they are the translation of the tree of the program (`compile_translates`): the opening lines
and one declaration for each variable, and the C text of the statements with the end of the program
after it. This holds for every source that is compiled, and for one that fails only at a jump
without a label.

What actions write (`Draft.foldl_body`, `Draft.foldl_header`) is compared with the actions of a
tree, node by node.
-/

set_option autoImplicit false

namespace TeenyTiny

/-! ## What actions write -/

namespace Action

/-- The text that an action adds to the body. -/
def written : Action → String
  | .write text => text
  | _ => ""

/-- An action that may add to the header. -/
def heading? : Action → Option Action
  | .head line => some (.head line)
  | .declare name => some (.declare name)
  | _ => none

/-- The text that actions add to the body. -/
def textOf (actions : List Action) : String :=
  String.join (actions.map written)

@[simp] theorem textOf_nil : textOf [] = "" := rfl

@[simp] theorem textOf_cons (action : Action) (actions : List Action) :
    textOf (action :: actions) = action.written ++ textOf actions := by
  simp [textOf]

@[simp] theorem textOf_append (first second : List Action) :
    textOf (first ++ second) = textOf first ++ textOf second := by
  simp [textOf]

@[simp] theorem textOf_enterExpression : textOf Place.enterExpression = "" := rfl

/-- The actions that may add to the header. -/
def headings (actions : List Action) : List Action :=
  actions.flatMap fun action => action.heading?.toList

@[simp] theorem headings_nil : headings [] = [] := rfl

@[simp] theorem headings_cons (action : Action) (actions : List Action) :
    headings (action :: actions) = action.heading?.toList ++ headings actions := rfl

@[simp] theorem headings_append (first second : List Action) :
    headings (first ++ second) = headings first ++ headings second :=
  List.flatMap_append

@[simp] theorem headings_enterExpression : headings Place.enterExpression = [] := rfl

@[simp] theorem written_unplaced (action : Action) : action.unplaced.written = action.written := by
  cases action <;> rfl

@[simp] theorem heading_unplaced (action : Action) :
    action.unplaced.heading? = action.heading? := by
  cases action <;> rfl

theorem textOf_unplaced (actions : List Action) :
    textOf (actions.map unplaced) = textOf actions := by
  simp [textOf, Function.comp_def]

theorem headings_unplaced (actions : List Action) :
    headings (actions.map unplaced) = headings actions := by
  simp [headings, List.flatMap_map]

end Action

namespace Draft

/-- The body takes what actions write, in order. -/
theorem foldl_body (actions : List Action) (draft : Draft) :
    (actions.foldl perform draft).output.body =
      draft.output.body ++ Action.textOf actions := by
  induction actions generalizing draft with
  | nil => simp
  | cons action actions ih =>
      have step : (draft.perform action).output.body = draft.output.body ++ action.written := by
        cases action with
        | write text => rfl
        | declare name =>
            cases known : draft.names.hasVariable name with
            | true => simp [perform, declare_of_known known, Action.written]
            | false => simp [perform, declare_of_new known, Action.written, Output.headLine]
        | _ => simp [perform, Action.written, note, head, label, Output.headLine]
      rw [List.foldl_cons, ih, step, Action.textOf_cons, String.append_assoc]

/-- The header takes a declaration of each variable that is taken in for the first time. -/
theorem foldl_header {actions : List Action} {names : List String}
    (only : Action.headings actions = names.map .declare) (draft : Draft) :
    (actions.foldl perform draft).output.header =
      draft.output.header ++
        String.join ((Tree.firstOccurrences draft.names.vars names).map Tree.declaration) := by
  induction actions generalizing draft names with
  | nil =>
      obtain rfl := List.map_eq_nil_iff.mp only.symm
      simp [Tree.firstOccurrences]
  | cons action actions ih =>
      rw [List.foldl_cons]
      cases action with
      | head line => cases names <;> simp [Action.heading?] at only
      | declare name =>
          rcases names with _ | ⟨first, names⟩
          · simp [Action.heading?] at only
          · obtain ⟨same, later⟩ := List.cons.inj only
            cases same
            rw [ih later, perform, Tree.firstOccurrences]
            by_cases known : name ∈ draft.names.vars
            · rw [if_pos known, declare_of_known (by simp [Names.hasVariable, known])]
            · rw [if_neg known, declare_of_new (by simp [Names.hasVariable, known]), List.map_cons,
                String.join_cons, ← String.append_assoc]
              simp [Names.declareVariable, Names.hasVariable, known, Output.headLine,
                Tree.declaration, String.append_assoc]
      | note _ | write _ | use _ _ | settle => exact ih only _
      | label name loc =>
          rw [ih only]
          simp [perform, label, note]
      | jump name loc =>
          rw [ih only]
          simp [perform]

/-- Up to the last action, if no rule is broken, actions are performed in order, and settling the
jumps at the end leaves the draft as it is. -/
theorem performAll_settle (draft : Draft) {actions : List Action}
    (quiet : draft.names.fault? actions = none) :
    (draft.performAll (actions ++ [.settle])).1 = actions.foldl perform draft := by
  induction actions generalizing draft with
  | nil =>
      simp only [List.nil_append, performAll]
      split
      · rfl
      · rfl
  | cons action actions ih =>
      rw [Names.fault?, Option.or_eq_none_iff] at quiet
      rw [List.cons_append, performAll, quiet.1]
      exact ih _ (by rw [perform_names]; exact quiet.2)

end Draft

/-! ## What a tree writes -/

namespace Tree

/-- What a chain writes, given what its parts write. -/
theorem Chain.textOf_actions {Sign Part : Type} {sign : Sign → Lexeme} {enter : List Action}
    {part : Part → List Action} {text : Part → String} (quiet : Action.textOf enter = "")
    (parts : ∀ tree, Action.textOf (part tree) = text tree) (chain : Chain Sign Part) :
    Action.textOf (chain.actions sign enter part) = chain.toC sign text := by
  rcases chain with ⟨first, others⟩
  simp only [Chain.actions, Chain.toC, Action.textOf_append, parts]
  congr 1
  induction others with
  | nil => rfl
  | cons other others ih =>
      rw [List.flatMap_cons, Action.textOf_append, ih, List.map_cons, String.join_cons,
        Action.textOf_append, Action.textOf_cons, quiet, parts, String.append_empty]
      rfl

theorem Unary.textOf_actions (unary : Unary) : Action.textOf unary.actions = unary.toC := by
  rcases unary with ⟨_ | sign, _ | _⟩ <;>
    simp [Unary.actions, Unary.toC, Primary.actions, Primary.toC, Action.written]

@[simp] theorem Expression.textOf_actions (expression : Expression) :
    Action.textOf expression.actions = expression.toC :=
  Chain.textOf_actions rfl (Chain.textOf_actions rfl Unary.textOf_actions) expression

@[simp] theorem Comparison.textOf_actions (comparison : Comparison) :
    Action.textOf comparison.actions = comparison.toC := by
  have others : Action.textOf (comparison.others.actions ComparisonSign.lexeme Place.enterExpression
      Expression.actions) = comparison.others.toC ComparisonSign.lexeme Expression.toC :=
    Chain.textOf_actions rfl Expression.textOf_actions comparison.others
  simp [Comparison.actions, Comparison.toC, others, Action.written, String.append_assoc]

@[simp] theorem textOf_enter (lexemes : List Lexeme) : Action.textOf (enter lexemes) = "" := by
  rcases lexemes with _ | ⟨first, _ | ⟨second, lexemes⟩⟩ <;> rfl

-- the equations of the C text by computation: those that Lean derives for it look into the literals
section

variable (name text : String) (expression : Expression)

@[simp] theorem Statement.toC_printText :
    (Statement.printText text).toC = "printf(\"" ++ text ++ "\\n\");\n" := rfl

@[simp] theorem Statement.toC_print :
    (Statement.print expression).toC =
      "printf(\"%.2f\\n\", (float)(" ++ expression.toC ++ "));\n" := rfl

@[simp] theorem Statement.toC_block (block : Block) (guard : Comparison) (body : Statements) :
    (Statement.block block guard body).toC =
      block.opening ++ guard.toC ++ ")\x7b\n" ++ body.toC ++ "\x7d\n" := by
  cases block <;> rfl

@[simp] theorem Statement.toC_label :
    (Statement.label name).toC = targetName name ++ ":;\n" := rfl

@[simp] theorem Statement.toC_goto :
    (Statement.goto name).toC = "goto " ++ targetName name ++ ";\n" := rfl

@[simp] theorem Statement.toC_assign :
    (Statement.assign name expression).toC =
      targetName name ++ " = " ++ expression.toC ++ ";\n" := rfl

@[simp] theorem Statement.toC_input :
    (Statement.input name).toC = Place.inputLines (targetName name) := by
  have tail : " = 0;\nscanf(\"%*[^\\n]\");\n\x7d\n" =
      " = 0;\n" ++ "scanf(\"%*[^\\n]\");\n" ++ "\x7d\n" := by decide
  have regroup (a b c d e n : String) :
      a ++ n ++ b ++ n ++ (c ++ d ++ e) = a ++ n ++ b ++ (n ++ c) ++ d ++ e := by
    simp only [String.append_assoc]
  exact (congrArg (_ ++ ·) tail).trans (regroup _ _ _ _ _ _)

end

mutual

theorem Statement.textOf_actions :
    ∀ statement : Statement, Action.textOf statement.actions = statement.toC
  | .printText text => by simp [Statement.actions, Action.written]
  | .print expression => by simp [Statement.actions, Action.written, String.append_assoc]
  | .block block guard body => by
      simp [Statement.actions, Action.written, body.textOf_actions, String.append_assoc]
  | .label name => by simp [Statement.actions, Action.written]
  | .goto name => by simp [Statement.actions, Action.written]
  | .assign name expression => by simp [Statement.actions, Action.written, String.append_assoc]
  | .input name => by simp [Statement.actions, Action.written]

theorem Statements.textOf_actions :
    ∀ statements : Statements, Action.textOf statements.actions = statements.toC
  | .nil => rfl
  | .cons first others => by
      rw [Statements.actions, Action.textOf_append, first.textOf_actions, others.textOf_actions]
      rfl

end

/-! ## What a tree declares -/

/-- A chain declares nothing if its parts declare nothing. -/
theorem Chain.headings_actions {Sign Part : Type} {sign : Sign → Lexeme} {enter : List Action}
    {part : Part → List Action} (quiet : Action.headings enter = [])
    (parts : ∀ tree, Action.headings (part tree) = []) (chain : Chain Sign Part) :
    Action.headings (chain.actions sign enter part) = [] := by
  rcases chain with ⟨first, others⟩
  rw [Chain.actions, Action.headings_append, parts, List.nil_append]
  induction others with
  | nil => rfl
  | cons other others ih =>
      rw [List.flatMap_cons, Action.headings_append, ih, Action.headings_append,
        Action.headings_cons, quiet, parts]
      rfl

@[simp] theorem Expression.headings_actions (expression : Expression) :
    Action.headings expression.actions = [] := by
  refine Chain.headings_actions rfl (Chain.headings_actions rfl fun unary => ?_) expression
  rcases unary with ⟨_ | _, _ | _⟩ <;> rfl

@[simp] theorem Comparison.headings_actions (comparison : Comparison) :
    Action.headings comparison.actions = [] := by
  have others : Action.headings (comparison.others.actions ComparisonSign.lexeme
      Place.enterExpression Expression.actions) = [] :=
    Chain.headings_actions rfl Expression.headings_actions comparison.others
  simp [Comparison.actions, others, Action.heading?]

@[simp] theorem headings_enter (lexemes : List Lexeme) : Action.headings (enter lexemes) = [] := by
  rcases lexemes with _ | ⟨first, _ | ⟨second, lexemes⟩⟩ <;> rfl

mutual

theorem Statement.headings_actions : ∀ statement : Statement,
    Action.headings statement.actions = statement.targets.map .declare
  | .printText text => by simp [Statement.actions, Statement.targets, Action.heading?]
  | .print expression => by simp [Statement.actions, Statement.targets, Action.heading?]
  | .block block guard body => by
      simp [Statement.actions, Statement.targets, Action.heading?, body.headings_actions]
  | .label name => by simp [Statement.actions, Statement.targets, Action.heading?]
  | .goto name => by simp [Statement.actions, Statement.targets, Action.heading?]
  | .assign name expression => by simp [Statement.actions, Statement.targets, Action.heading?]
  | .input name => by simp [Statement.actions, Statement.targets, Action.heading?]

theorem Statements.headings_actions : ∀ statements : Statements,
    Action.headings statements.actions = statements.targets.map .declare
  | .nil => rfl
  | .cons first others => by
      simp [Statements.actions, Statements.targets, first.headings_actions,
        others.headings_actions]

end

end Tree

/-! ## Programs -/

/-- A source has a tree if its tokens, but for blank lines and the end of the text, are the listing
of the tree. -/
def HasTree (source : String) (tree : Tree.Statements) : Prop :=
  ∃ body last, (Cursor.ofSource source).Lexes (body ++ [last]) ∧
    Tree.withoutBlankLines (body.map Token.lexeme) = tree.lexemes

/-- The walk along a source that has a tree calls for what the tree calls for, offsets apart. -/
theorem HasTree.exists_walk {source : String} {tree : Tree.Statements}
    (has : HasTree source tree) :
    ∃ done : List Action, done.map Action.unplaced = tree.actions ∧
      (Cursor.ofSource source).supply.walk =
        ⟨prologue ++ (done ++ epilogue) ++ [.settle], none⟩ := by
  obtain ⟨body, last, lexes, listed⟩ := has
  obtain ⟨ended, -⟩ := lexes.ends
  obtain ⟨done, same, walked⟩ := walk_of_tree none ended listed
  refine ⟨done, same, ?_⟩
  rw [lexes.walk_eq, walked]
  simp [Walk.after]

namespace Compilation

/-- Nothing is wrong but, perhaps, that a jump has no label. -/
def Settled (compilation : Compilation) : Prop :=
  ∀ fault, compilation.fault? = some fault → ∃ name, fault.cause = .labelMissing name

theorem settled_of_fault_none {compilation : Compilation} (quiet : compilation.fault? = none) :
    compilation.Settled := by
  intro fault found
  cases quiet.symm.trans found

/-- What settles nothing, and ends in a fault that is not one of meaning, is not settled. -/
theorem not_settled {compilation : Compilation} {actions : List Action} {fault : Fault}
    (found : compilation.fault? = (Names.fault? {} actions).or (some fault))
    (unsettled : Action.settle ∉ actions) (phase : fault.cause.phase ≠ .meaning) :
    ¬ compilation.Settled := by
  intro settled
  cases names : Names.fault? {} actions with
  | none =>
      obtain ⟨name, cause⟩ := settled fault (by rw [found, names, Option.none_or])
      exact phase (by rw [cause]; rfl)
  | some broken =>
      obtain ⟨name, cause⟩ := settled broken (by rw [found, names, Option.some_or])
      exact Names.cause_ne_labelMissing unsettled names name cause

/-- A source that is settled has a tree. -/
theorem exists_tree {source : String} {output : Output}
    (settled : (ofSource source output).Settled) : ∃ tree, HasTree source tree := by
  rcases (Cursor.ofSource source).lexes_or_fault with ⟨tokens, lexes⟩ | ⟨never, fault, found, phase⟩
  · obtain ⟨walk, course, found⟩ := exists_course lexes
    cases course with
    | @finished occurrences split run _ _ =>
        obtain ⟨body, last, rfl, -⟩ := lexes.split
        have program := run.program
        rw [← split] at program
        have kinds : ((body ++ [last]).map Token.lexeme).map Prod.fst =
            (body ++ [last]).map Token.kind := by
          rw [List.map_map]
          rfl
        rw [← kinds, List.map_append] at program
        obtain ⟨tree, listed⟩ := program.exists_tree fun lexeme member => by
          obtain ⟨token, inside, rfl⟩ := List.mem_map.mp member
          exact lexes.shaped token (List.mem_append_left _ inside)
        exact ⟨tree, body, last, lexes, listed⟩
    | @refused occurrences _ _ _ cause _ _ _ _ actions phase stopped =>
        rw [stopped, actions] at found
        refine absurd settled (not_settled (found output) ?_ (by simp [phase]))
        simp [Occurrence.settle_not_mem_deeds]
  · have found' := fault_ofSource source output
    rw [found] at found'
    exact absurd settled (not_settled found' never phase)

/-- Nothing is settled before the last action of a course that is finished. -/
theorem settle_not_mem_of_course {language : List Grammar.Symbol → Prop} {tokens : List Token}
    {early : List Action} (course : Course language tokens ⟨early ++ [.settle], none⟩) :
    Action.settle ∉ early := by
  cases course with
  | @finished occurrences _ _ actions _ =>
      intro member
      have named : Action.settle ∈ early.filter Action.naming := List.mem_filter.mpr ⟨member, rfl⟩
      have whole : early.filter Action.naming ++ [Action.settle] =
          occurrences.flatMap Occurrence.deeds ++ [.settle] := by
        rw [← actions, List.filter_append]
        rfl
      rw [List.append_cancel_right whole] at named
      simp [Occurrence.settle_not_mem_deeds] at named
  | refused _ _ _ _ _ _ stopped => cases stopped

/-- The draft that a settled source leaves is what its tree calls for, performed in order. -/
theorem exists_draft {source : String} {tree : Tree.Statements} (has : HasTree source tree)
    (settled : (ofSource source {}).Settled) :
    ∃ done : List Action, done.map Action.unplaced = tree.actions ∧
      (ofSource source {}).draft = (prologue ++ (done ++ epilogue)).foldl Draft.perform {} := by
  obtain ⟨done, same, walked⟩ := has.exists_walk
  refine ⟨done, same, ?_⟩
  have unsettled : Action.settle ∉ prologue ++ (done ++ epilogue) := by
    obtain ⟨body, last, lexes, -⟩ := has
    obtain ⟨walk, before, course⟩ := lexes.exists_course
    obtain ⟨actions, fault⟩ :
        walk.actions = done ++ epilogue ++ [.settle] ∧ walk.fault? = none := by
      have both := before.symm.trans walked
      simpa [Walk.after] using both
    have whole : walk = ⟨done ++ epilogue ++ [.settle], none⟩ := by rw [← actions, ← fault]
    rw [whole] at course
    simp [settle_not_mem_of_course course, prologue]
  have quiet : Names.fault? {} (prologue ++ (done ++ epilogue)) = none := by
    cases names : Names.fault? {} (prologue ++ (done ++ epilogue)) with
    | none => rfl
    | some fault =>
        have found : (ofSource source {}).fault? = some fault := by
          rw [fault_ofSource, walked, Names.fault_append, names, Option.some_or, Option.some_or]
        obtain ⟨name, cause⟩ := settled fault found
        exact absurd cause (Names.cause_ne_labelMissing unsettled names name)
  rw [ofSource, Cursor.compile, walked]
  exact Draft.performAll_settle {} quiet

/-- The header as it stands before the first line. -/
theorem header_prologue :
    (prologue.foldl Draft.perform {}).output.header =
      "#include <stdio.h>\nint main(void)\x7b\n" := by
  decide

/-- The buffers that a settled source leaves are the translation of its tree. -/
theorem output_eq {source : String} {tree : Tree.Statements} (has : HasTree source tree)
    (settled : (ofSource source {}).Settled) :
    (ofSource source {}).draft.output = ⟨tree.header, tree.body⟩ := by
  obtain ⟨done, same, draft⟩ := exists_draft has settled
  have only : Action.headings (done ++ epilogue) = tree.targets.map .declare := by
    rw [Action.headings_append, ← Action.headings_unplaced, same, tree.headings_actions]
    exact List.append_nil _
  have text : Action.textOf (done ++ epilogue) = tree.body := by
    rw [Action.textOf_append, ← Action.textOf_unplaced, same, tree.textOf_actions]
    exact congrArg (tree.toC ++ ·) (by decide)
  have header : (ofSource source {}).draft.output.header = tree.header := by
    rw [draft, List.foldl_append, Draft.foldl_header only, header_prologue]
    rfl
  have body : (ofSource source {}).draft.output.body = tree.body := by
    rw [draft, List.foldl_append, Draft.foldl_body, text]
    exact String.empty_append
  rw [← header, ← body]

end Compilation

/-- Writing while reading is translating the tree. A source that is compiled has a tree, and the C
program is the opening lines, a declaration for each variable that the tree sets, in order of first
occurrence, the translation of the statements in order, and the end of the program. The same is left
in the two buffers when a jump without a label is all that is wrong. -/
theorem compile_translates (source : String) :
    (∀ program, compile source = .ok program →
      (∃ tree, HasTree source tree) ∧
        ∀ tree, HasTree source tree → program = tree.header ++ tree.body) ∧
    (∀ name loc, (Compilation.ofSource source {}).fault? = some ⟨.labelMissing name, loc⟩ →
      (∃ tree, HasTree source tree) ∧
        ∀ tree, HasTree source tree →
          (Compilation.ofSource source {}).draft.output = ⟨tree.header, tree.body⟩) := by
  constructor
  · intro program compiled
    obtain ⟨quiet, rfl⟩ := compile_eq_ok_iff.mp compiled
    have settled := Compilation.settled_of_fault_none quiet
    refine ⟨Compilation.exists_tree settled, fun tree has => ?_⟩
    rw [Compilation.output_eq has settled]
    rfl
  · intro name loc found
    have settled : (Compilation.ofSource source {}).Settled := fun fault found' => by
      cases found.symm.trans found'
      exact ⟨name, rfl⟩
    exact ⟨Compilation.exists_tree settled, fun tree has => Compilation.output_eq has settled⟩

/-- A branch that sets a name which C reserves, and a loop that only lacks a label. -/
theorem compile_translates_both_ways :
    let branch := "IF 1 < 2 THEN\nLET if = 1\nENDIF"
    let loop := "WHILE 1 < 2 REPEAT\nGOTO end\nENDWHILE"
    let program := "#include <stdio.h>\nint main(void)\x7b\nfloat v_if;\n" ++
      "if(1.0 < 2.0)\x7b\nv_if = 1.0;\n\x7d\nreturn 0;\n\x7d\n"
    let output : Output := ⟨"#include <stdio.h>\nint main(void)\x7b\n",
      "while(1.0 < 2.0)\x7b\ngoto end;\n\x7d\nreturn 0;\n\x7d\n"⟩
    (compile branch = .ok program ∧ (∃ tree, HasTree branch tree) ∧
      ∀ tree, HasTree branch tree → program = tree.header ++ tree.body) ∧
    ((Compilation.ofSource loop {}).fault? = some ⟨.labelMissing "end", 24⟩ ∧
      (Compilation.ofSource loop {}).draft.output = output ∧
      (∃ tree, HasTree loop tree) ∧ ∀ tree, HasTree loop tree →
        (Compilation.ofSource loop {}).draft.output = ⟨tree.header, tree.body⟩) := by
  intro branch loop program output
  have supply : (Cursor.ofSource "IF 1 < 2 THEN\nLET if = 1\nENDIF").supply =
      ⟨[⟨.ifWord, "IF", 0⟩, ⟨.number, "1", 3⟩, ⟨.less, "<", 5⟩, ⟨.number, "2", 7⟩,
        ⟨.thenWord, "THEN", 9⟩, ⟨.newline, "\n", 13⟩, ⟨.letWord, "LET", 14⟩, ⟨.ident, "if", 18⟩,
        ⟨.assign, "=", 21⟩, ⟨.number, "1", 23⟩, ⟨.newline, "\n", 24⟩, ⟨.endifWord, "ENDIF", 25⟩,
        ⟨.newline, "\n", 30⟩], .ok ⟨.eof, "", 31⟩⟩ :=
    Cursor.supply_of_take (by rfl) (by decide) (by intro last same; cases same; rfl)
  have supply' : (Cursor.ofSource "WHILE 1 < 2 REPEAT\nGOTO end\nENDWHILE").supply =
      ⟨[⟨.whileWord, "WHILE", 0⟩, ⟨.number, "1", 6⟩, ⟨.less, "<", 8⟩, ⟨.number, "2", 10⟩,
        ⟨.repeatWord, "REPEAT", 12⟩, ⟨.newline, "\n", 18⟩, ⟨.gotoWord, "GOTO", 19⟩,
        ⟨.ident, "end", 24⟩, ⟨.newline, "\n", 27⟩, ⟨.endwhileWord, "ENDWHILE", 28⟩,
        ⟨.newline, "\n", 36⟩], .ok ⟨.eof, "", 37⟩⟩ :=
    Cursor.supply_of_take (by rfl) (by decide) (by intro last same; cases same; rfl)
  have compiled : compile branch = .ok program := by
    rw [compile, Compilation.ofSource, Cursor.compile, supply]
    rfl
  have lacking : (Compilation.ofSource loop {}).fault? = some ⟨.labelMissing "end", 24⟩ ∧
      (Compilation.ofSource loop {}).draft.output = output := by
    rw [Compilation.ofSource, Cursor.compile, supply']
    exact ⟨rfl, rfl⟩
  exact ⟨⟨compiled, (compile_translates branch).1 program compiled⟩,
    lacking.1, lacking.2, (compile_translates loop).2 "end" 24 lacking.1⟩

end TeenyTiny
