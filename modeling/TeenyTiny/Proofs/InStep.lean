import TeenyTiny.Proofs.Concatenation
import TeenyTiny.Proofs.LabelLines
import TeenyTiny.Proofs.Reports
import TeenyTiny.Proofs.Trace

/-!
# Header, body, log and names stay in step

Variables and labels are kept in four places: among the names, in the log, in the header and in the
body. They are taken in at different moments, and compiling may stop between any two of them. Still
all four say the same wherever it stops (`declarations_stay_in_step`). The header has one declaration
for each variable that is logged, and the variables are those that the tokens passed by then have
set (`Token.targets`). The body has one line for each label that is logged.

Each of these is an invariant of reading token by token (`Standing.Invariant`).
-/

set_option autoImplicit false

namespace TeenyTiny

/-! ## The log, the header and the names -/

namespace Record

/-- The variable that a record says is new. -/
def newVariable? : Record → Option String
  | newVariable name => some name
  | _ => none

/-- The label that a record says is set. -/
def newLabel? : Record → Option String
  | newLabel name => some name
  | _ => none

end Record

namespace Draft

/-- The variables that are logged, in order. -/
def newVariables (draft : Draft) : List String :=
  draft.log.toList.filterMap Record.newVariable?

/-- The labels that are logged, in order. -/
def newLabels (draft : Draft) : List String :=
  draft.log.toList.filterMap Record.newLabel?

/-- The names that are known are those that are logged, each once, and the header declares the
variables among them. -/
structure InStep (draft : Draft) : Prop where
  vars : draft.newVariables = draft.names.vars
  labels : draft.newLabels = draft.names.labels
  vars_nodup : draft.names.vars.Nodup
  labels_nodup : draft.names.labels.Nodup
  header : draft.output.header =
    "#include <stdio.h>\nint main(void)\x7b\n" ++ Tree.declarations draft.names.vars

end Draft

/-- Whether an action may be called for at a token: it adds no line to the header by itself, and
logs no name by itself. -/
def Action.atToken : Action → Bool
  | .head _ => false
  | .note record => record.level == .trace
  | _ => true

theorem Place.atToken_of_mem {place : Place} {blocks : List Block} {token : Token} {next : Kind}
    {action : Action}
    (member : action ∈ (place.move blocks token next).now ++ (place.move blocks token next).owed) :
    action.atToken = true := by
  have may : action.mayComeNow token.kind = true ∨ action.mayBeOwed token.kind = true :=
    (List.mem_append.mp member).imp mayComeNow_of_mem mayBeOwed_of_mem
  cases action with
  | head _ =>
      rcases may with now | owed
      · cases now
      · cases owed
  | note _ => exact may.elim id id
  | write _ | declare _ | label _ _ | jump _ _ | use _ _ | settle => rfl

namespace Draft

theorem filterMap_push (read : Record → Option String) (log : Array Record) (record : Record) :
    (log.push record).toList.filterMap read =
      log.toList.filterMap read ++ (read record).toList := by
  rw [Array.toList_push, List.filterMap_append]
  cases found : read record with
  | none => simp [found]
  | some name => simp [found]

theorem nodup_append_new {names : List String} {name : String} (distinct : names.Nodup)
    (absent : name ∉ names) : (names ++ [name]).Nodup := by
  refine List.nodup_append.mpr ⟨distinct, List.pairwise_singleton _ name, ?_⟩
  intro other member last here same
  rw [List.mem_singleton.mp here] at same
  rw [same] at member
  exact absent member

/-- A variable that is new is logged, taken in and declared. -/
theorem InStep.declare {draft : Draft} (inStep : draft.InStep) (name : String) :
    (draft.declare name).InStep := by
  cases known : draft.names.hasVariable name with
  | true =>
      rw [declare_of_known known]
      exact inStep
  | false =>
      have absent : name ∉ draft.names.vars := by
        simpa [Names.hasVariable] using known
      have names : (draft.names.declareVariable name).2 =
          { draft.names with vars := draft.names.vars ++ [name] } := by
        rw [Names.declareVariable, known]
        rfl
      rw [declare_of_new known, names]
      refine ⟨?_, ?_, ?_, inStep.labels_nodup, ?_⟩
      · exact (filterMap_push _ _ _).trans (congrArg (· ++ [name]) inStep.vars)
      · exact (filterMap_push _ _ _).trans ((List.append_nil _).trans inStep.labels)
      · exact nodup_append_new inStep.vars_nodup absent
      · rw [Output.headLine, inStep.header, Tree.declarations_append, String.append_assoc]
        simp [Tree.declarations, Tree.declaration, String.append_assoc]

/-- A label that is new is logged and taken in. -/
theorem InStep.label {draft : Draft} (inStep : draft.InStep) {name : String}
    (new : draft.names.hasLabel name = false) : (draft.label name).InStep := by
  have absent : name ∉ draft.names.labels := by
    simpa [Names.hasLabel] using new
  have names : (draft.names.declareLabel name).2 =
      { draft.names with labels := draft.names.labels ++ [name] } := by
    rw [Names.declareLabel, new]
    rfl
  rw [Draft.label, names]
  refine ⟨?_, ?_, inStep.vars_nodup, ?_, inStep.header⟩
  · exact (filterMap_push _ _ _).trans ((List.append_nil _).trans inStep.vars)
  · exact (filterMap_push _ _ _).trans (congrArg (· ++ [name]) inStep.labels)
  · exact nodup_append_new inStep.labels_nodup absent

/-- An action that breaks no rule does what it does in every place. -/
theorem InStep.perform {draft : Draft} {action : Action} (inside : action.atToken = true)
    (obeys : action.fault? draft.names = none) (inStep : draft.InStep) :
    (draft.perform action).InStep := by
  obtain ⟨vars, labels, vars_nodup, labels_nodup, header⟩ := inStep
  cases action with
  | head _ => cases inside
  | note record =>
      have unnamed : record.newVariable? = none ∧ record.newLabel? = none := by
        cases record with
        | newVariable _ | newLabel _ => cases inside
        | _ => exact ⟨rfl, rfl⟩
      refine ⟨?_, ?_, vars_nodup, labels_nodup, header⟩
      · refine (filterMap_push _ _ _).trans ?_
        rw [unnamed.1]
        exact (List.append_nil _).trans vars
      · refine (filterMap_push _ _ _).trans ?_
        rw [unnamed.2]
        exact (List.append_nil _).trans labels
  | declare name => exact .declare ⟨vars, labels, vars_nodup, labels_nodup, header⟩ name
  | label name loc =>
      have new : draft.names.hasLabel name = false := by
        simpa [Action.fault?] using obeys
      exact .label ⟨vars, labels, vars_nodup, labels_nodup, header⟩ new
  | jump name loc =>
      have same : (draft.names.jumpTo name loc).vars = draft.names.vars := Names.vars_jumpTo ..
      have set : (draft.names.jumpTo name loc).labels = draft.names.labels :=
        Names.labels_jumpTo ..
      rw [← same] at vars vars_nodup header
      rw [← set] at labels labels_nodup
      exact ⟨vars, labels, vars_nodup, labels_nodup, header⟩
  | write _ | use _ _ | settle =>
      exact ⟨vars, labels, vars_nodup, labels_nodup, header⟩

end Draft

/-- Everything stays in step along every run. -/
theorem Standing.inStep_invariant : Invariant (fun _ => True)
    (fun _ standing => standing.draft.InStep) (fun _ draft => draft.InStep) := by
  have now {standing : Standing} (token : Token) (next : Kind) (inStep : standing.draft.InStep) :
      (standing.draft.performAll (standing.move token next).now).1.InStep := by
    refine Draft.performAll_preserves ?_ inStep
    intro action member draft
    exact .perform (Place.atToken_of_mem (List.mem_append_left _ member))
  refine ⟨id, ?_, ?_⟩
  · intro _ standing token inStep _ next
    exact now token next inStep
  · intro _ standing token next draft place blocks owed inStep _ kept step
    have before := now token next inStep
    rw [kept] at before
    have owes : (standing.move token next).owed = owed := by rw [Move.owed, step]
    have after : (draft.performAll owed).1.InStep := by
      refine Draft.performAll_preserves ?_ before
      intro action member draft
      rw [← owes] at member
      exact .perform (Place.atToken_of_mem (List.mem_append_right _ member))
    exact ⟨after, fun _ => after⟩

/-! ## The variables that tokens set -/

/-- Whether a keyword is followed by a variable that is set. -/
def Kind.setsVariable : Kind → Bool
  | .letWord | .inputWord => true
  | _ => false

/-- The variables that tokens set: the names that follow such a keyword, in order. -/
def Token.targets : List Token → List String
  | word :: name :: tokens =>
      (if word.kind.setsVariable ∧ name.kind = .ident then [name.text] else []) ++
        Token.targets (name :: tokens)
  | _ => []

theorem Token.targets_concat (tokens : List Token) (token : Token) :
    targets (tokens ++ [token]) = targets tokens ++
      if tokens.getLast?.any (·.kind.setsVariable) ∧ token.kind = .ident then [token.text]
      else [] := by
  induction tokens with
  | nil => rfl
  | cons word tokens ih =>
      cases tokens with
      | nil => exact List.append_nil _
      | cons name tokens =>
          rw [List.cons_append, List.cons_append, targets, targets, ← List.cons_append, ih,
            List.append_assoc, List.getLast?_cons_cons]

/-- Whether a variable that is set has to come next at a place. -/
def Place.awaitsTarget : Place → Bool
  | .letName | .inputName => true
  | _ => false

namespace Place

variable {place place' : Place} {blocks blocks' : List Block} {token : Token} {next : Kind}
  {owed : List Action}

/-- A variable has to come next after the keyword that says so. -/
theorem awaitsTarget_of_pass
    (step : (place.move blocks token next).step = .pass place' blocks' owed) :
    place'.awaitsTarget = token.kind.setsVariable := by
  obtain ⟨kind, text, loc⟩ := token
  cases place with
  | line =>
      rcases blocks with _ | ⟨_ | _, blocks⟩ <;> cases kind <;> cases step <;> rfl
  | bodyStart block => cases block <;> cases kind <;> cases step <;> rfl
  | operator purpose =>
      rcases purpose with _ | _ | ⟨_ | _⟩ | ⟨_ | _⟩ <;> cases kind <;> cases step <;> rfl
  | _ => cases kind <;> cases step <;> rfl

/-- Where a variable has to come next, it is taken in. -/
theorem taking_of_awaitsTarget (awaits : place.awaitsTarget = true) :
    place.taking? token = some (.declare token.text) := by
  cases place with
  | letName | inputName => rfl
  | _ => cases awaits

/-- Elsewhere no variable is taken in. -/
theorem target_of_taking {action : Action} (other : place.awaitsTarget = false)
    (taken : place.taking? token = some action) : action.target? = none := by
  cases place with
  | letName | inputName => cases other
  | labelName | gotoName =>
      cases taken
      rfl
  | _ => cases taken

/-- No variable is taken in before its token has been passed. -/
theorem target_of_mem_now {action : Action}
    (member : action ∈ (place.move blocks token next).now) : action.target? = none := by
  have may := mayComeNow_of_mem member
  cases action with
  | declare name => cases may
  | note _ | head _ | write _ | label _ _ | jump _ _ | use _ _ | settle => rfl

end Place

theorem Action.target_of_plain {action : Action} (plain : action.plain = true) :
    action.target? = none := by
  cases action with
  | declare name => cases plain
  | note _ | head _ | write _ | label _ _ | jump _ _ | use _ _ | settle => rfl

/-- Actions that take in no variable leave the variables as they are. -/
theorem Draft.vars_performAll {actions : List Action}
    (silent : ∀ action ∈ actions, action.target? = none) (draft : Draft) :
    (draft.performAll actions).1.names.vars = draft.names.vars := by
  have kept : ∀ action ∈ actions, ∀ other : Draft, action.fault? other.names = none →
      other.names.vars = draft.names.vars →
        (other.perform action).names.vars = draft.names.vars := by
    intro action member other _ same
    have takes := silent action member
    rw [perform_names, ← same]
    cases action with
    | declare name => cases takes
    | label name loc => exact Names.vars_declareLabel ..
    | jump name loc => exact Names.vars_jumpTo ..
    | note _ | head _ | write _ | use _ _ | settle => rfl
  exact performAll_preserves kept rfl

/-- A name at the end of a list is a first occurrence if it is not in the list. -/
theorem Tree.firstOccurrences_concat (names : List String) (name : String) :
    firstOccurrences [] (names ++ [name]) =
      if (firstOccurrences [] names).contains name then firstOccurrences [] names
      else firstOccurrences [] names ++ [name] := by
  rw [firstOccurrences_append]
  split
  · next seen => simpa [firstOccurrences] using seen
  · next new => simpa [firstOccurrences] using new

namespace Standing

/-- The variables that are known are those that the tokens passed so far have set, and another one
comes next if the last of these tokens says so. -/
structure Sets (passed : List Token) (standing : Standing) : Prop where
  vars : standing.draft.names.vars = Tree.firstOccurrences [] (Token.targets passed)
  place : standing.place.awaitsTarget = passed.getLast?.any (·.kind.setsVariable)

/-- The variables are those that the passed tokens set, along every run. -/
theorem sets_invariant : Invariant (fun _ => True) Sets
    (fun passed draft =>
      draft.names.vars = Tree.firstOccurrences [] (Token.targets passed)) := by
  have now (standing : Standing) (token : Token) (next : Kind) :
      (standing.draft.performAll (standing.move token next).now).1.names.vars =
        standing.draft.names.vars :=
    Draft.vars_performAll (fun _ => Place.target_of_mem_now) _
  refine ⟨Sets.vars, ?_, ?_⟩
  · intro passed standing token sets _ next
    rw [now]
    exact sets.vars
  · intro passed standing token next draft place blocks owed sets _ kept step
    have before := now standing token next
    rw [kept, sets.vars] at before
    have owes : (standing.move token next).owed = owed := by rw [Move.owed, step]
    obtain ⟨others, whole, plain⟩ := Place.exists_owed step
    have silent : ∀ action ∈ others, action.target? = none := by
      intro action member
      exact Action.target_of_plain (List.all_eq_true.mp plain action member)
    have after : (draft.performAll owed).1.names.vars =
        Tree.firstOccurrences [] (Token.targets (passed ++ [token])) := by
      rw [Token.targets_concat, ← sets.place]
      cases awaits : standing.place.awaitsTarget with
      | true =>
          rw [Place.taking_of_awaitsTarget awaits] at whole
          have ident : token.kind = .ident := by
            have member : .declare token.text ∈ (standing.move token next).owed := by
              rw [owes, whole]
              exact List.mem_cons_self
            exact beq_iff_eq.mp (Place.mayBeOwed_of_mem member)
          have taken : draft.performAll owed =
              (draft.perform (.declare token.text)).performAll others := by
            rw [whole]
            rfl
          rw [if_pos ⟨rfl, ident⟩, taken, Draft.vars_performAll silent, Draft.perform_names,
            Names.after, Names.vars_declareVariable, before, Tree.firstOccurrences_concat]
      | false =>
          have untaken : ∀ action ∈ owed, action.target? = none := by
            intro action member
            rw [whole] at member
            rcases List.mem_append.mp member with first | other
            · exact Place.target_of_taking awaits (Option.mem_toList.mp first)
            · exact silent action other
          rw [if_neg (by simp), List.append_nil, Draft.vars_performAll untaken, before]
    refine ⟨after, fun _ => ⟨after, ?_⟩⟩
    rw [List.getLast?_append]
    exact Place.awaitsTarget_of_pass step

end Standing

/-! ## Compiling -/

/-- Everything that a reader looks at is of a shape that can be written. -/
theorem Cursor.shaped_of_mem_lookahead {source : String} {token : Token}
    (member : token ∈ (ofSource source).supply.lookahead) : Lexeme.Shaped token.lexeme := by
  have stands := supply_standsIn (.start source) (Lexeme.lined_concat source.toList)
  unfold Supply.lookahead at member
  split at member
  · next last ending =>
      rcases List.mem_append.mp member with member | ended
      · exact (stands.tokens token member).2
      · obtain rfl : token = last := by simpa using ended
        rw [stands.last token ending]
        exact Lexeme.shaped_of_spelling rfl
  · exact (stands.tokens token member).2

namespace Outcome

theorem inStep_ofSource (source : String) : (ofSource source {}).draft.InStep := by
  apply Standing.inStep_invariant.ofSource
  · exact ⟨rfl, rfl, List.nodup_nil, List.nodup_nil, by decide⟩
  · intro _ _
    trivial

theorem vars_ofSource (source : String) : (ofSource source {}).draft.names.vars =
    Tree.firstOccurrences [] (Token.targets (ofSource source {}).passed) := by
  apply Standing.sets_invariant.ofSource
  · exact ⟨rfl, rfl⟩
  · intro _ _
    trivial

theorem labelled_ofSource (source : String) : (ofSource source {}).draft.Labelled := by
  apply Standing.labels_invariant.ofSource
  · refine ⟨⟨rfl, List.not_mem_nil⟩, fun _ => rfl, ?_⟩
    intro name impossible
    cases impossible
  · intro _ member
    exact Cursor.shaped_of_mem_lookahead member

end Outcome

/-- Header, body, log and names stay in step, wherever compiling stops. If one of the first two
tokens cannot be read, nothing is written or logged. Otherwise a source is compiled token by token.
Then the header is the two opening lines and one declaration for each variable that is logged, in the
same order. The variables that are logged are those that the tokens passed by then have set, each at
its first occurrence. No label is logged twice, and the lines of the body that set labels are those
of the labels that are logged, in the same order. The names that are known are those that are
logged. -/
theorem declarations_stay_in_step (source : String) :
    ((∃ fault, .error fault ∈ ((Cursor.ofSource source).take 2).1) →
      (Compilation.ofSource source {}).draft.output.header = "" ∧
      (Compilation.ofSource source {}).draft.output.body = "" ∧
      (Compilation.ofSource source {}).log = []) ∧
    ((∀ fault, .error fault ∉ ((Cursor.ofSource source).take 2).1) →
      Compilation.ofSource source {} = ⟨(Outcome.ofSource source {}).draft,
        (Outcome.ofSource source {}).fault? (Cursor.ofSource source).supply.fault?⟩ ∧
      (Outcome.ofSource source {}).passed <+: (Cursor.ofSource source).supply.lookahead ∧
      (Compilation.ofSource source {}).draft.output.header =
        "#include <stdio.h>\nint main(void)\x7b\n" ++ String.join
          ((Compilation.ofSource source {}).draft.newVariables.map fun name =>
            "float " ++ targetName name ++ ";\n") ∧
      (Compilation.ofSource source {}).draft.newVariables.Nodup ∧
      (Compilation.ofSource source {}).draft.newVariables =
        Tree.firstOccurrences [] (Token.targets (Outcome.ofSource source {}).passed) ∧
      (Compilation.ofSource source {}).draft.newLabels.Nodup ∧
      (C.lines (Compilation.ofSource source {}).draft.output.body).filter (setsLabel ·.toList) =
        (Compilation.ofSource source {}).draft.newLabels.map (targetName · ++ ":;") ∧
      (Compilation.ofSource source {}).draft.names.vars =
        (Compilation.ofSource source {}).draft.newVariables ∧
      (Compilation.ofSource source {}).draft.names.labels =
        (Compilation.ofSource source {}).draft.newLabels) := by
  have ready := (Cursor.ofSource source).two_le_lookahead_iff
  refine ⟨?_, ?_⟩
  · rintro ⟨fault, unread⟩
    have unready : (Cursor.ofSource source).supply.lookahead.length < 2 :=
      Nat.lt_of_not_le fun two => ready.mp two fault unread
    rw [Compilation.ofSource_of_unready unready]
    exact ⟨rfl, rfl, rfl⟩
  · intro read
    have inStep := Outcome.inStep_ofSource source
    have lines := (Outcome.labelled_ofSource source).filter_lines
    rw [Compilation.ofSource_eq_outcome (ready.mpr read), inStep.vars, inStep.labels]
    refine ⟨rfl, Standing.passed_isPrefix _ _, inStep.header, inStep.vars_nodup,
      Outcome.vars_ofSource source, inStep.labels_nodup, lines, rfl, rfl⟩

/-- A variable that is set twice is declared once, also where the second setting is not complete;
and a first token that cannot be read leaves nothing. -/
theorem declarations_stay_in_step_unassigned :
    (Compilation.ofSource "LABEL int\nINPUT b\nLET b 1" {}).fault? =
        some ⟨.expected .assign .number, 24⟩ ∧
      (Compilation.ofSource "LABEL int\nINPUT b\nLET b 1" {}).draft.output.header =
        "#include <stdio.h>\nint main(void)\x7b\nfloat b;\n" ∧
      (C.lines (Compilation.ofSource "LABEL int\nINPUT b\nLET b 1" {}).draft.output.body).filter
        (setsLabel ·.toList) = ["v_int:;"] ∧
      (Compilation.ofSource "LET &" {}).draft.output.header = "" := by
  have supply : (Cursor.ofSource "LABEL int\nINPUT b\nLET b 1").supply =
      ⟨[⟨.labelWord, "LABEL", 0⟩, ⟨.ident, "int", 6⟩, ⟨.newline, "\n", 9⟩, ⟨.inputWord, "INPUT", 10⟩,
        ⟨.ident, "b", 16⟩, ⟨.newline, "\n", 17⟩, ⟨.letWord, "LET", 18⟩, ⟨.ident, "b", 22⟩,
        ⟨.number, "1", 24⟩, ⟨.newline, "\n", 25⟩], .ok ⟨.eof, "", 26⟩⟩ := by
    apply Cursor.supply_of_take (by rfl) (by decide)
    intro last same
    cases same
    rfl
  have ready : 2 ≤ (Cursor.ofSource "LABEL int\nINPUT b\nLET b 1").supply.lookahead.length := by
    rw [supply]
    decide
  obtain ⟨whole, -, header, -, vars, -, lines, -, labels⟩ :=
    (declarations_stay_in_step "LABEL int\nINPUT b\nLET b 1").2
      ((Cursor.two_le_lookahead_iff _).mp ready)
  have passed : Token.targets (Outcome.ofSource "LABEL int\nINPUT b\nLET b 1" {}).passed =
      ["b", "b"] := by
    rw [Outcome.ofSource, supply]
    rfl
  refine ⟨?_, ?_, ?_, ?_⟩
  · rw [whole, Outcome.ofSource, supply]
    rfl
  · rw [header, vars, passed]
    decide
  · rw [lines, ← labels, whole, Outcome.ofSource, supply]
    decide
  · exact ((declarations_stay_in_step "LET &").1 ⟨_, List.mem_cons_of_mem _ List.mem_cons_self⟩).1

end TeenyTiny
