import TeenyTiny.Proofs.Spacing
import TeenyTiny.Proofs.Stepwise

/-!
# The log is a walk through the tree

A program is logged while it is read, by whatever rule happens to be entered. For a source that is
compiled the records are those of its tree, each node before its parts (`Tree.Statements.log`). A
variable that is set for the first time and a label are recorded directly after the statement.

Where reading stops at a token that breaks a rule, the log is decided by the tokens up to that one
and the one after it (`Standing.exists_offender`). A label is looked up only when it has been passed,
which takes one token more; but whether there is one makes no difference to the log.
-/

set_option autoImplicit false

namespace TeenyTiny

/-! ## What actions record -/

namespace Action

/-- The variable that an action takes in. -/
def target? : Action → Option String
  | .declare name => some name
  | _ => none

/-- The variables that actions take in, in order. -/
def targets (actions : List Action) : List String :=
  actions.filterMap target?

/-- What an action records, given the variables that were taken in before it. -/
def records (known : List String) : Action → List Record
  | .note record => [record]
  | .declare name => Tree.novelty known name
  | .label name _ => [.newLabel name]
  | _ => []

/-- What actions record, in order, given the variables that were taken in before them. -/
def recordsOf (known : List String) : List Action → List Record
  | [] => []
  | action :: actions =>
      action.records known ++ recordsOf (known ++ action.target?.toList) actions

variable (known : List String)

@[simp] theorem recordsOf_nil : recordsOf known [] = [] := rfl

@[simp] theorem recordsOf_note (record : Record) (actions : List Action) :
    recordsOf known (.note record :: actions) = record :: recordsOf known actions := by
  simp [recordsOf, records, target?]

@[simp] theorem recordsOf_declare (name : String) (actions : List Action) :
    recordsOf known (.declare name :: actions) =
      Tree.novelty known name ++ recordsOf (known ++ [name]) actions := rfl

@[simp] theorem recordsOf_label (name : String) (loc : Nat) (actions : List Action) :
    recordsOf known (.label name loc :: actions) = .newLabel name :: recordsOf known actions := by
  simp [recordsOf, records, target?]

@[simp] theorem recordsOf_write (text : String) (actions : List Action) :
    recordsOf known (.write text :: actions) = recordsOf known actions := by
  simp [recordsOf, records, target?]

@[simp] theorem recordsOf_jump (name : String) (loc : Nat) (actions : List Action) :
    recordsOf known (.jump name loc :: actions) = recordsOf known actions := by
  simp [recordsOf, records, target?]

@[simp] theorem recordsOf_use (name : String) (loc : Nat) (actions : List Action) :
    recordsOf known (.use name loc :: actions) = recordsOf known actions := by
  simp [recordsOf, records, target?]

@[simp] theorem recordsOf_head (line : String) (actions : List Action) :
    recordsOf known (.head line :: actions) = recordsOf known actions := by
  simp [recordsOf, records, target?]

theorem recordsOf_append (first second : List Action) :
    recordsOf known (first ++ second) =
      recordsOf known first ++ recordsOf (known ++ targets first) second := by
  induction first generalizing known with
  | nil => simp [targets]
  | cons action first ih =>
      have taken : targets (action :: first) = action.target?.toList ++ targets first := by
        rw [targets, List.filterMap_cons]
        cases action.target? with
        | none | some _ => rfl
      rw [List.cons_append, recordsOf, recordsOf, ih, taken, List.append_assoc, List.append_assoc]

theorem recordsOf_unplaced (actions : List Action) :
    recordsOf known (actions.map unplaced) = recordsOf known actions := by
  induction actions generalizing known with
  | nil => rfl
  | cons action actions ih =>
      rw [List.map_cons, recordsOf, recordsOf, ih]
      cases action with
      | note _ | head _ | write _ | declare _ | label _ _ | jump _ _ | use _ _ | settle => rfl

/-- Only what may add to the header takes in a variable. -/
theorem targets_eq_of_headings {actions : List Action} {names : List String}
    (only : headings actions = names.map .declare) : targets actions = names := by
  have through : targets actions = (headings actions).filterMap target? := by
    clear only
    induction actions with
    | nil => rfl
    | cons action actions ih =>
        rw [headings_cons, List.filterMap_append, ← ih, targets, List.filterMap_cons]
        cases action with
        | note _ | head _ | write _ | declare _ | label _ _ | jump _ _ | use _ _ | settle => rfl
  rw [through, only, List.filterMap_map]
  exact List.filterMap_some

end Action

/-- The log takes what actions record, in order. -/
theorem Draft.foldl_log {draft : Draft} {known : List String}
    (same : ∀ name, name ∈ draft.names.vars ↔ name ∈ known) (actions : List Action) :
    (actions.foldl perform draft).log.toList =
      draft.log.toList ++ Action.recordsOf known actions := by
  induction actions generalizing draft known with
  | nil => simp
  | cons action actions ih =>
      have vars : ∀ name, name ∈ (draft.perform action).names.vars ↔
          name ∈ known ++ action.target?.toList := by
        intro name
        rw [perform_names, List.mem_append, ← same]
        cases action with
        | declare other =>
            simp only [Names.after, Names.vars_declareVariable, Action.target?,
              Option.toList_some, List.mem_singleton]
            split
            · next seen =>
                constructor
                · exact .inl
                · rintro (before | rfl)
                  · exact before
                  · exact List.contains_iff_mem.mp seen
            · rw [List.mem_append, List.mem_singleton]
        | label _ _ | jump _ _ => simp [Names.after, Action.target?]
        | note _ | head _ | write _ | use _ _ | settle => simp [Names.after, Action.target?]
      have step : (draft.perform action).log.toList =
          draft.log.toList ++ action.records known := by
        cases action with
        | declare name =>
            simp only [perform, Action.records, Tree.novelty, ← same]
            by_cases seen : name ∈ draft.names.vars
            · rw [declare_of_known (List.contains_iff_mem.mpr seen), if_pos seen, List.append_nil]
            · rw [declare_of_new (by simp [Names.hasVariable, seen]), if_neg seen,
                Array.toList_push]
        | note _ | label _ _ => exact Array.toList_push
        | head _ | write _ | jump _ _ | use _ _ | settle => exact (List.append_nil _).symm
      rw [List.foldl_cons, ih vars, step, Action.recordsOf, List.append_assoc]

/-! ## What a tree records -/

namespace Tree

/-- What a chain records, given what is recorded of a part that is entered. -/
theorem Chain.records_actions {Sign Part : Type} {sign : Sign → Lexeme} {enter : List Action}
    {part : Part → List Action} {records : Part → List Record}
    (parts : ∀ known tree, Action.recordsOf known (enter ++ part tree) = records tree)
    (known : List String) (chain : Chain Sign Part) :
    Action.recordsOf known (enter ++ chain.actions sign enter part) = chain.records records := by
  rcases chain with ⟨first, others⟩
  rw [Chain.actions, ← List.append_assoc, Action.recordsOf_append, parts]
  refine congrArg (records first ++ ·) ?_
  generalize known ++ Action.targets (enter ++ part first) = known
  induction others generalizing known with
  | nil => rfl
  | cons other others ih =>
      rw [List.flatMap_cons, List.flatMap_cons, List.cons_append, List.cons_append,
        Action.recordsOf_write, Action.recordsOf_append, parts, ih]

theorem Unary.records_actions (known : List String) (unary : Unary) :
    Action.recordsOf known (.note .unary :: unary.actions) = unary.records := by
  rcases unary with ⟨_ | sign, _ | _⟩ <;>
    simp [Unary.actions, Unary.records, Primary.actions, Primary.lexeme]

theorem Term.records_actions (known : List String) (term : Term) :
    Action.recordsOf known (.note .term :: .note .unary :: term.actions) = term.records := by
  have parts : ∀ known (unary : Unary),
      Action.recordsOf known ([.note .unary] ++ unary.actions) = unary.records :=
    Unary.records_actions
  rw [Action.recordsOf_note]
  exact congrArg (Record.term :: ·) (Chain.records_actions parts known term)

theorem Expression.records_actions (known : List String) (expression : Expression) :
    Action.recordsOf known (Place.enterExpression ++ expression.actions) = expression.records := by
  have parts : ∀ known (term : Term),
      Action.recordsOf known ([.note .term, .note .unary] ++ term.actions) = term.records :=
    Term.records_actions
  rw [Place.enterExpression, List.cons_append, Action.recordsOf_note]
  exact congrArg (Record.expression :: ·) (Chain.records_actions parts known expression)

theorem Comparison.records_actions (known : List String) (comparison : Comparison) :
    Action.recordsOf known (.note .comparison :: Place.enterExpression ++ comparison.actions) =
      comparison.records := by
  have others (known : List String) : Action.recordsOf known (Place.enterExpression ++
      comparison.others.actions ComparisonSign.lexeme Place.enterExpression Expression.actions) =
        comparison.others.records Expression.records :=
    Chain.records_actions Expression.records_actions known comparison.others
  rw [List.cons_append, Action.recordsOf_note, Comparison.actions, ← List.append_assoc,
    Action.recordsOf_append, Expression.records_actions, List.cons_append, Action.recordsOf_write,
    others]
  rfl

theorem records_enter (known : List String) (lexemes : List Lexeme) (actions : List Action) :
    Action.recordsOf known (enter lexemes ++ actions) =
      entry lexemes ++ Action.recordsOf known actions := by
  rcases lexemes with _ | ⟨first, _ | ⟨second, lexemes⟩⟩
  · rfl
  · rfl
  · exact Action.recordsOf_note known _ actions

mutual

theorem Statement.records_actions (known : List String) : ∀ statement : Statement,
    Action.recordsOf known statement.actions = statement.records known
  | .printText text => by simp [Statement.actions, Statement.records, records_enter]
  | .print expression => by
      rw [Statement.actions, records_enter, List.cons_append, List.cons_append,
        Action.recordsOf_write, Action.recordsOf_append, expression.records_actions]
      simp [Statement.records]
  | .block block guard body => by
      have quiet : Action.targets (.note .comparison :: Place.enterExpression ++ guard.actions) =
          [] := Action.targets_eq_of_headings (by simp [Action.heading?])
      rw [Statement.actions, records_enter, List.cons_append, List.cons_append,
        Action.recordsOf_write, Action.recordsOf_append, guard.records_actions, quiet,
        List.append_nil, List.cons_append, Action.recordsOf_write, Action.recordsOf_append,
        body.records_actions]
      simp [Statement.records]
  | .label name => by simp [Statement.actions, Statement.records, records_enter]
  | .goto name => by simp [Statement.actions, Statement.records, records_enter]
  | .assign name expression => by
      rw [Statement.actions, records_enter, List.cons_append, List.cons_append, List.cons_append,
        List.cons_append, Action.recordsOf_declare, Action.recordsOf_write,
        Action.recordsOf_append, expression.records_actions]
      simp [Statement.records]
  | .input name => by simp [Statement.actions, Statement.records, records_enter]

theorem Statements.records_actions (known : List String) : ∀ statements : Statements,
    Action.recordsOf known statements.actions = statements.records known
  | .nil => rfl
  | .cons first others => by
      have set := Action.targets_eq_of_headings first.headings_actions
      rw [Statements.actions, Action.recordsOf_append, first.records_actions known, set,
        others.records_actions, Statements.records]

end

end Tree

/-- The log of a settled source is that of its tree. -/
theorem Compilation.log_eq {source : String} {tree : Tree.Statements} (has : HasTree source tree)
    (settled : (ofSource source {}).Settled) : (ofSource source {}).log = tree.log := by
  obtain ⟨done, same, draft⟩ := exists_draft has settled
  have start : ∀ name, name ∈ ({} : Draft).names.vars ↔ name ∈ ([] : List String) := by
    intro name
    exact Iff.rfl
  have recorded : Action.recordsOf [] done = tree.records [] := by
    rw [← tree.records_actions, ← same, Action.recordsOf_unplaced]
  rw [log, draft, Draft.foldl_log start, Tree.Statements.log, ← recorded]
  simp [prologue, epilogue, Action.recordsOf_append]

/-! ## The log of other tokens with the same lexemes -/

/-- Offsets make no difference to what is drafted, but for those of the jumps. -/
theorem Draft.unplaced_performAll (draft : Draft) (actions : List Action) :
    (draft.performAll actions).1.unplaced =
      (draft.unplaced.performAll (actions.map .unplaced)).1 := by
  induction actions generalizing draft with
  | nil => rfl
  | cons action actions ih =>
      have performed : draft.unplaced.perform action.unplaced = (draft.perform action).unplaced := by
        rw [← Action.relocated_zero]
        exact draft.perform_relocated action
      have broken := draft.names.action_fault_unplaced action
      have names : draft.unplaced.names = draft.names.unplaced := rfl
      rw [List.map_cons, performAll, performAll, names]
      cases found : action.fault? draft.names with
      | none =>
          rw [broken.mpr found, ih, ← performed]
      | some fault =>
          cases found' : action.unplaced.fault? draft.names.unplaced with
          | none => cases found.symm.trans (broken.mp found')
          | some fault' => rfl

namespace Standing

variable {standing : Standing} {tokens tokens' : List Token} {fault : Fault}

/-- Tokens with the same lexemes are logged alike. -/
theorem log_read_of_lexemes (standing : Standing)
    (same : tokens.map Token.lexeme = tokens'.map Token.lexeme) :
    (standing.read tokens).draft.log = (standing.read tokens').draft.log := by
  have through (tokens : List Token) : (standing.read tokens).draft.log =
      (standing.draft.unplaced.performAll (walk none standing.place standing.blocks []
        (tokens.map Token.unplaced)).actions).1.log := by
    have walked := congrArg Walk.actions
      (walk_unplaced none standing.place standing.blocks [] tokens)
    rw [← (standing.performAll_walk none tokens).1]
    refine (congrArg Draft.log (Draft.unplaced_performAll _ _)).trans ?_
    exact congrArg (fun actions => (standing.draft.unplaced.performAll actions).1.log) walked
  rw [through, through, map_unplaced_of_lexemes same]

end Standing

/-! ## Up to the token that offends -/

/-- If reading stops at a rule that a token breaks, what has been drafted is decided by the tokens up
to that one and the one after it. -/
theorem Standing.exists_offender {standing : Standing} {tokens : List Token} {fault : Fault}
    (halts : (standing.read tokens).halt = .fault fault)
    (labelled : ∀ name, fault.cause ≠ .labelMissing name) :
    ∃ index token, tokens[index]? = some token ∧ token.loc = fault.loc ∧
      index + 2 ≤ tokens.length ∧ ∀ rest,
        (standing.read (tokens.take (index + 2) ++ rest)).draft = (standing.read tokens).draft := by
  fun_induction read standing tokens with
  | case1 standing current ahead tokens draft fault' broken =>
      cases halts
      have found := standing.draft.performAll_fault (standing.move current ahead.kind).now
      rw [broken] at found
      rcases Place.fault_of_now found.symm with ⟨here, -⟩ | ⟨name, missing⟩
      · refine ⟨0, current, rfl, here.symm, by simp, ?_⟩
        intro rest
        simp [read, broken]
      · exact absurd missing (labelled name)
  | case2 standing current ahead tokens draft kept cause step =>
      cases halts
      refine ⟨0, current, rfl, rfl, by simp, ?_⟩
      intro rest
      simp [read, kept, step]
  | case3 standing current ahead tokens draft kept step => cases halts
  | case4 standing current ahead draft kept place blocks owed step => cases halts
  | case5 standing current ahead tokens draft kept place blocks owed step more draft' fault'
      broken =>
      cases halts
      have owes : (standing.move current ahead.kind).owed = owed := by rw [Move.owed, step]
      have found := draft.performAll_fault owed
      rw [broken, ← owes] at found
      obtain ⟨-, rfl⟩ := Place.fault_of_owed found.symm
      obtain rfl := Place.performAll_owed step broken
      refine ⟨0, current, rfl, rfl, by simp, ?_⟩
      intro rest
      -- Without a third token the label is not looked up.
      by_cases last : rest = []
      · simp [read, kept, step, last]
      · simp [read, kept, step, last, broken]
  | case6 standing current ahead tokens draft kept place blocks owed step more draft' done ih =>
      obtain ⟨index, token, here, loc, bound, same⟩ := ih halts
      refine ⟨index + 1, token, here, loc, Nat.succ_le_succ bound, ?_⟩
      intro rest
      have window : (current :: ahead :: tokens).take (index + 1 + 2) ++ rest =
          current :: ahead :: (tokens.take (index + 1) ++ rest) := rfl
      have further : tokens.take (index + 1) ++ rest ≠ [] := by
        obtain ⟨third, tokens, rfl⟩ := List.exists_cons_of_ne_nil more
        exact List.cons_ne_nil _ _
      have later : (read ⟨draft', place, blocks⟩ (ahead :: (tokens.take (index + 1) ++ rest))).draft =
          (read ⟨draft', place, blocks⟩ (ahead :: tokens)).draft := same rest
      rw [window, read, kept]
      simp only [step, if_neg further, done]
      exact later
  | case7 tokens standing short => cases halts

namespace Compilation

variable {source other : String} {fault : Fault}

/-- A fault that is not one of reading stops a reader on the way. -/
theorem halt_of_fault (found : (ofSource source {}).fault? = some fault)
    (phase : fault.cause.phase ≠ .lexing) :
    (Outcome.ofSource source {}).halt = .fault fault := by
  have readable : (Cursor.ofSource source).supply.fault? ≠ some fault := by
    intro unread
    exact phase (Cursor.phase_of_ending (Supply.ending_of_fault unread))
  by_cases ready : 2 ≤ (Cursor.ofSource source).supply.lookahead.length
  · rw [ofSource_eq_outcome ready, Outcome.fault?] at found
    cases halt : (Outcome.ofSource source {}).halt with
    | fault fault' =>
        rw [halt] at found
        cases found
        rfl
    | finish =>
        rw [halt] at found
        cases found
    | starved =>
        rw [halt] at found
        exact absurd found readable
  · rw [ofSource_of_unready (Nat.lt_of_not_le ready)] at found
    exact absurd found readable

/-- If the first tokens of a source decide what is drafted whatever follows them, a source that
starts with the same lexemes has the same log. -/
theorem log_of_front {count : Nat}
    (bound : count + 2 ≤ (Cursor.ofSource source).supply.lookahead.length)
    (decided : ∀ rest, ((Standing.start {}).read
      ((Cursor.ofSource source).supply.lookahead.take (count + 2) ++ rest)).draft =
        (Outcome.ofSource source {}).draft)
    (front : ((Cursor.ofSource source).supply.lookahead.map Token.lexeme).take (count + 2) <+:
      (Cursor.ofSource other).supply.lookahead.map Token.lexeme) :
    (ofSource other {}).log = (ofSource source {}).log := by
  have ready : 2 ≤ (Cursor.ofSource source).supply.lookahead.length := by omega
  have length := front.length_le
  rw [List.length_take, List.length_map, List.length_map] at length
  have ready' : 2 ≤ (Cursor.ofSource other).supply.lookahead.length := by omega
  rw [log, log, ofSource_eq_outcome ready, ofSource_eq_outcome ready']
  refine congrArg Array.toList ?_
  rw [← decided ((Cursor.ofSource other).supply.lookahead.drop (count + 2))]
  apply Standing.log_read_of_lexemes
  have whole := List.prefix_iff_eq_append.mp front
  rw [List.length_take, List.length_map, Nat.min_eq_left bound] at whole
  rw [List.map_append, List.map_take, List.map_drop, whole]

end Compilation

/-- The log is a walk through the tree. For every source that is compiled the log is that of its
tree: the program and then its nodes, each before its parts, with a variable recorded after the
statement that sets it first, and a label after the statement that sets it. If a source breaks a rule
of grammar, or a rule of meaning that is checked on the way, there is a token at which it does; and
every other source with the same lexemes up to the one after that token has the same log. -/
theorem log_walks_tree (source : String) :
    (∀ program, compile source = .ok program →
      (∃ tree, HasTree source tree) ∧
        ∀ tree, HasTree source tree → (Compilation.ofSource source {}).log = tree.log) ∧
    ∀ fault, (Compilation.ofSource source {}).fault? = some fault → fault.cause.phase ≠ .lexing →
      (∀ name, fault.cause ≠ .labelMissing name) →
      ∃ index token, (Cursor.ofSource source).supply.lookahead[index]? = some token ∧
        token.loc = fault.loc ∧
        index + 2 ≤ (Cursor.ofSource source).supply.lookahead.length ∧
        ∀ other, ((Cursor.ofSource source).supply.lookahead.map Token.lexeme).take (index + 2) <+:
            (Cursor.ofSource other).supply.lookahead.map Token.lexeme →
          (Compilation.ofSource other {}).log = (Compilation.ofSource source {}).log := by
  refine ⟨?_, ?_⟩
  · intro program compiled
    have settled := Compilation.settled_of_fault_none (compile_eq_ok_iff.mp compiled).1
    exact ⟨Compilation.exists_tree settled, fun tree has => Compilation.log_eq has settled⟩
  · intro fault found grammatical labelled
    have halts := Compilation.halt_of_fault found grammatical
    obtain ⟨index, token, here, loc, bound, same⟩ := Standing.exists_offender halts labelled
    refine ⟨index, token, here, loc, bound, ?_⟩
    intro other front
    exact Compilation.log_of_front bound same front

/-- A label that is set again is not reported if the next line cannot be read, but the log is the
same with that line and without it. -/
theorem log_walks_tree_repeated_label :
    (Compilation.ofSource "LET a = 1" {}).log = [.program, .statement .letWord .ident,
        .newVariable "a", .expression, .term, .unary, .primary "1"] ∧
      (Compilation.ofSource "LABEL a\nLABEL a" {}).fault? = some ⟨.labelTaken "a", 14⟩ ∧
      (Compilation.ofSource "LABEL a\nLABEL a\n!" {}).log =
        (Compilation.ofSource "LABEL a\nLABEL a" {}).log := by
  refine ⟨?_, ?_⟩
  · have lexes : (Cursor.ofSource "LET a = 1").Lexes ([⟨.letWord, "LET", 0⟩, ⟨.ident, "a", 4⟩,
        ⟨.assign, "=", 6⟩, ⟨.number, "1", 8⟩, ⟨.newline, "\n", 9⟩] ++ [⟨.eof, "", 10⟩]) :=
      .read (by rfl) (by decide) (.read (by rfl) (by decide) (.read (by rfl) (by decide)
        (.read (by rfl) (by decide) (.read (by rfl) (by decide) (.finish (by rfl) rfl)))))
    obtain ⟨program, compiled⟩ : ∃ program, compile "LET a = 1" = .ok program := by
      rw [compile, Compilation.ofSource, Cursor.compile, Cursor.Lexes.supply_eq lexes]
      exact ⟨_, rfl⟩
    have has : HasTree "LET a = 1" (.cons (.assign "a" ⟨⟨⟨none, .number "1"⟩, []⟩, []⟩) .nil) :=
      ⟨_, _, lexes, by decide⟩
    exact ((log_walks_tree "LET a = 1").1 program compiled).2 _ has
  · let body : List Token := [⟨.labelWord, "LABEL", 0⟩, ⟨.ident, "a", 6⟩, ⟨.newline, "\n", 7⟩,
      ⟨.labelWord, "LABEL", 8⟩, ⟨.ident, "a", 14⟩, ⟨.newline, "\n", 15⟩]
    have supply : (Cursor.ofSource "LABEL a\nLABEL a").supply = ⟨body, .ok ⟨.eof, "", 16⟩⟩ := by
      apply Cursor.supply_of_take (by rfl) (by decide)
      intro last same
      cases same
      rfl
    have supply' : (Cursor.ofSource "LABEL a\nLABEL a\n!").supply =
        ⟨body, .error ⟨.loneBang none, 16⟩⟩ := by
      apply Cursor.supply_of_take (by rfl) (by decide)
      intro last impossible
      cases impossible
    have found : (Compilation.ofSource "LABEL a\nLABEL a" {}).fault? =
        some ⟨.labelTaken "a", 14⟩ := by
      rw [Compilation.ofSource, Cursor.compile, supply]
      rfl
    have labelled (name : String) : Cause.labelTaken "a" ≠ .labelMissing name := by
      intro impossible
      cases impossible
    obtain ⟨index, token, here, loc, bound, same⟩ :=
      (log_walks_tree "LABEL a\nLABEL a").2 _ found (by decide) labelled
    rw [supply] at here bound same
    have only : ∀ index < 7,
        ((Supply.lookahead ⟨body, .ok ⟨.eof, "", 16⟩⟩)[index]?).map Token.loc = some 14 →
          index = 4 := by decide
    obtain rfl := only index (Nat.le_of_succ_le_succ bound) (by rw [here, Option.map_some, loc])
    refine ⟨found, same _ ?_⟩
    rw [supply']
    decide

end TeenyTiny
