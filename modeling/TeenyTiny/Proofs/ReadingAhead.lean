import TeenyTiny.Proofs.Course
import TeenyTiny.Proofs.Rereading

/-!
# How far a reader sees

A reader who always looks one token ahead stops at a fault of reading two tokens before it: what
stands there is never looked at, and what is owed for the token before it is never done. Up to that
point nothing is different from reading a text without that fault.

`stop?` reads a program and does what is called for as soon as it can be done. It gives the fault at
which it stops, together with the number of tokens that have been passed by then. It is the fault of
compiling a source, unless a fault of reading comes first (`Compilation.fault_eq_stop`). On a part
of the tokens it stops where it stops on all of them, if it gets that far (`stop_append`), and the
offsets of tokens have no influence on it (`stop_alike`).

So of a fault of reading and another one, that which is reported is decided by the number of tokens
passed alone (`compile_reading_fault`).
-/

set_option autoImplicit false

namespace TeenyTiny

/-- Reads a program and does what is called for, given the names, the place and the open blocks that
were reached, the number of tokens passed, and what is owed for the last of them. Gives the fault
that stops it, and how many tokens have been passed by then. -/
def stop? (names : Names) (place : Place) (blocks : List Block) (passed : Nat)
    (owed : List Action) : List Token → Option (Nat × Fault)
  | current :: ahead :: tokens =>
      let move := place.move blocks current ahead.kind
      match names.fault? (owed ++ move.now) with
      | some fault => some (passed, fault)
      | none =>
          match move.step with
          | .pass place blocks owed' =>
              stop? (names.afterAll (owed ++ move.now)) place blocks (passed + 1) owed'
                (ahead :: tokens)
          | .refuse cause => some (passed, ⟨cause, current.loc⟩)
          | .finish => none
  | _ => none

/-! ## The fault of a compilation -/

/-- The first things a walk calls for are those owed and those at its first token. -/
theorem walk_actions (ending : Option Fault) (place : Place) (blocks : List Block)
    (owed : List Action) (current ahead : Token) (tokens : List Token) :
    ∃ later, (walk ending place blocks owed (current :: ahead :: tokens)).actions =
      owed ++ (place.move blocks current ahead.kind).now ++ later := by
  rw [walk]
  split
  · exact ⟨_, rfl⟩
  · exact ⟨[], (List.append_nil _).symm⟩
  · exact ⟨[], (List.append_nil _).symm⟩

/-- The fault of a walk is where reading stops, or else what ended the walk. -/
theorem walk_fault_eq_stop (ending : Option Fault) (names : Names) (place : Place)
    (blocks : List Block) (passed : Nat) (owed : List Action) (tokens : List Token)
    (complete : ending = none ∨ ∀ token ∈ tokens, token.kind ≠ .eof) :
    (names.fault? (walk ending place blocks owed tokens).actions).or
        (walk ending place blocks owed tokens).fault? =
      ((stop? names place blocks passed owed tokens).map Prod.snd).or ending := by
  fun_induction stop? names place blocks passed owed tokens with
  | case1 names place blocks passed owed current ahead tokens move fault broken =>
      obtain ⟨later, actions⟩ := walk_actions ending place blocks owed current ahead tokens
      rw [actions, Names.fault_append, broken]
      rfl
  | case2 names place blocks passed owed current ahead tokens move kept place' blocks' owed'
      step ih =>
      have later := ih (complete.imp_right fun inside token member =>
        inside token (List.mem_cons_of_mem current member))
      rw [walk]
      simp only [move] at step kept later
      simp only [step, Walk.after]
      rw [Names.fault_append, kept, Option.none_or]
      exact later
  | case3 names place blocks passed owed current ahead tokens move kept cause step =>
      rw [walk]
      simp only [move] at step kept
      simp only [step, kept]
      rfl
  | case4 names place blocks passed owed current ahead tokens move kept step =>
      have ended : ending = none := complete.resolve_right fun inside =>
        inside current List.mem_cons_self (Place.eof_of_finish step)
      rw [walk]
      simp only [move] at step kept
      simp only [step, kept, ended]
      rfl
  | case5 tokens names place blocks passed owed short =>
      rw [walk]
      · rfl
      · exact short

/-- Where the reading of a whole program stops. -/
def Supply.stop? (supply : Supply) : Option (Nat × Fault) :=
  TeenyTiny.stop? {} .line [] 0 prologue supply.lookahead

/-- The fault of a compilation is where reading stops, or else the fault of reading that ends it. -/
theorem Compilation.fault_eq_stop (source : String) (output : Output) :
    (ofSource source output).fault? =
      ((Cursor.ofSource source).supply.stop?.map Prod.snd).or
        (Cursor.ofSource source).supply.fault? := by
  rw [fault_ofSource]
  refine walk_fault_eq_stop _ {} .line [] 0 prologue _ ?_
  cases ending : (Cursor.ofSource source).supply.ending with
  | ok last => exact .inl (by simp [Supply.fault?, ending])
  | error fault =>
      refine .inr ?_
      simpa [Supply.lookahead, ending] using (Cursor.ofSource source).more_of_mem_supply

/-! ## A part of the tokens -/

theorem le_of_stop {names : Names} {place : Place} {blocks : List Block} {passed : Nat}
    {owed : List Action} {tokens : List Token} {found : Nat × Fault}
    (stops : stop? names place blocks passed owed tokens = some found) : passed ≤ found.1 := by
  fun_induction stop? names place blocks passed owed tokens with
  | case1 | case3 =>
      cases stops
      exact Nat.le_refl _
  | case2 _ _ _ passed _ _ _ _ _ _ _ _ _ _ ih => exact Nat.le_of_succ_le (ih stops)
  | case4 | case5 => cases stops

/-- On the first of some tokens reading stops where it stops on all of them, if by then it has not
looked further than the first. -/
theorem stop_append {names : Names} {place : Place} {blocks : List Block} {passed : Nat}
    {owed : List Action} {first : List Token} (second : List Token) {found : Nat × Fault} :
    stop? names place blocks passed owed first = some found ↔
      stop? names place blocks passed owed (first ++ second) = some found ∧
        found.1 + 2 ≤ passed + first.length := by
  fun_induction stop? names place blocks passed owed first with
  | case1 names place blocks passed owed current ahead tokens move fault broken =>
      simp only [move] at broken
      simp only [List.cons_append, stop?, broken]
      refine ⟨fun stops => ⟨stops, ?_⟩, And.left⟩
      cases stops
      simp
  | case2 names place blocks passed owed current ahead tokens move kept place' blocks' owed'
      step ih =>
      simp only [move] at step kept ih
      simp only [List.cons_append, stop?, kept, step]
      have count : passed + (current :: ahead :: tokens).length =
          passed + 1 + (ahead :: tokens).length := by
        rw [List.length_cons, Nat.add_assoc, Nat.add_comm 1]
      rw [count]
      exact ih
  | case3 names place blocks passed owed current ahead tokens move kept cause step =>
      simp only [move] at step kept
      simp only [List.cons_append, stop?, kept, step]
      refine ⟨fun stops => ⟨stops, ?_⟩, And.left⟩
      cases stops
      simp
  | case4 names place blocks passed owed current ahead tokens move kept step =>
      simp only [move] at step kept
      simp only [List.cons_append, stop?, kept, step]
      simp
  | case5 tokens names place blocks passed owed short =>
      -- With fewer than two tokens nothing is looked at, and on all of them no stop is near enough.
      refine ⟨nofun, ?_⟩
      rintro ⟨stops, near⟩
      have far := le_of_stop stops
      rcases tokens with _ | ⟨current, _ | ⟨ahead, tokens⟩⟩
      · simp only [List.length_nil] at near
        omega
      · simp only [List.length_cons, List.length_nil] at near
        omega
      · exact absurd rfl (short current ahead tokens)

/-! ## Other offsets -/

/-- An action that points at another offset, if it points at one. -/
def Action.placed (loc : Nat) : Action → Action
  | .label name _ => .label name loc
  | .jump name _ => .jump name loc
  | .use name _ => .use name loc
  | action => action

/-- A step with everything that it owes at another offset. -/
def Step.placed (loc : Nat) : Step → Step
  | .pass place blocks owed => .pass place blocks (owed.map (.placed loc))
  | step => step

/-- A move with everything that it calls for at another offset. -/
def Move.placed (loc : Nat) (move : Move) : Move :=
  ⟨move.now.map (.placed loc), move.step.placed loc⟩

namespace Place

variable (kind : Kind) (text : String) (loc : Nat)

theorem expect_placed {wanted : Kind} {place : Place} {blocks : List Block}
    {owed owed' : List Action} (same : owed' = owed.map (.placed loc)) :
    expect wanted ⟨kind, text, loc⟩ place blocks owed' =
      (expect wanted ⟨kind, text, 0⟩ place blocks owed).placed loc := by
  subst same
  unfold expect
  split
  · rfl
  · rfl

theorem atLine_placed (blocks : List Block) (next : Kind) :
    atLine blocks ⟨kind, text, loc⟩ next = (atLine blocks ⟨kind, text, 0⟩ next).placed loc := by
  rcases blocks with _ | ⟨_ | _, blocks⟩ <;> cases kind <;> rfl

/-- Everything that a token calls for points at that token. -/
theorem move_placed (place : Place) (blocks : List Block) (next : Kind) :
    place.move blocks ⟨kind, text, loc⟩ next =
      (place.move blocks ⟨kind, text, 0⟩ next).placed loc := by
  cases place with
  | line => exact atLine_placed kind text loc blocks next
  | printItem | operand _ | primary _ => cases kind <;> rfl
  | operator purpose =>
      rcases purpose with _ | _ | ⟨_ | _⟩ | ⟨_ | _⟩ <;> cases kind <;> rfl
  | labelName | gotoName | letName | letSign _ | inputName | lineEnd | leadEnd _ =>
      exact expect_placed kind text loc rfl
  | bodyStart block =>
      have line := atLine_placed kind text loc (block :: blocks) next
      cases kind with
      | newline => rfl
      | _ => exact congrArg (Move.after _) line

/-- Two tokens that differ in their offsets alone call for the same, each at its own offset; before
the end of the text nothing is settled and no program is complete. -/
theorem exists_move (place : Place) (blocks : List Block) {current current' : Token} (next : Kind)
    (same : current.lexeme = current'.lexeme) (more : current.kind ≠ .eof) :
    ∃ move : Move, place.move blocks current next = move.placed current.loc ∧
      place.move blocks current' next = move.placed current'.loc ∧
      Action.settle ∉ move.now ∧
      (∀ place' blocks' owed, move.step = .pass place' blocks' owed → Action.settle ∉ owed) ∧
      move.step ≠ .finish := by
  obtain ⟨kind, text, loc⟩ := current
  obtain ⟨_, _, loc'⟩ := current'
  cases same
  have more : (Token.mk kind text 0).kind ≠ .eof := more
  obtain ⟨now, owes⟩ := place.settle_not_mem blocks next more
  exact ⟨place.move blocks ⟨kind, text, 0⟩ next, place.move_placed .., place.move_placed ..,
    now, owes, fun finished => more (eof_of_finish finished)⟩

end Place

/-- The same variables and the same labels are known. -/
def Names.Alike (names names' : Names) : Prop :=
  names.vars = names'.vars ∧ names.labels = names'.labels

namespace Names.Alike

variable {names names' : Names}

theorem hasVariable (alike : names.Alike names') (name : String) :
    names.hasVariable name = names'.hasVariable name :=
  congrArg (List.contains · name) alike.1

theorem hasLabel (alike : names.Alike names') (name : String) :
    names.hasLabel name = names'.hasLabel name :=
  congrArg (List.contains · name) alike.2

theorem after (alike : names.Alike names') (action : Action) (loc loc' : Nat) :
    (names.after (action.placed loc)).Alike (names'.after (action.placed loc')) := by
  cases action with
  | declare name =>
      simp only [Names.after, Action.placed, declareVariable, alike.hasVariable name]
      cases names'.hasVariable name with
      | true => exact alike
      | false => exact ⟨congrArg (· ++ [name]) alike.1, alike.2⟩
  | label name _ =>
      simp only [Names.after, Action.placed, declareLabel, alike.hasLabel name]
      cases names'.hasLabel name with
      | true => exact alike
      | false => exact ⟨alike.1, congrArg (· ++ [name]) alike.2⟩
  | jump name _ =>
      simp only [Names.after, Action.placed, jumpTo]
      split <;> split <;> exact alike
  | note _ | head _ | write _ | use _ _ | settle => exact alike

theorem afterAll (alike : names.Alike names') (actions : List Action) (loc loc' : Nat) :
    (names.afterAll (actions.map (.placed loc))).Alike
      (names'.afterAll (actions.map (.placed loc'))) := by
  induction actions generalizing names names' with
  | nil => exact alike
  | cons action actions ih => exact ih (alike.after action loc loc')

/-- The rule that an action breaks is the same at another offset. -/
theorem exists_cause_of_action (alike : names.Alike names') {action : Action}
    (unsettled : Action.settle ≠ action) (loc loc' : Nat) :
    ∃ cause? : Option Cause,
      (action.placed loc).fault? names = cause?.map (Fault.mk · loc) ∧
        (action.placed loc').fault? names' = cause?.map (Fault.mk · loc') := by
  cases action with
  | label name _ =>
      refine ⟨if names'.hasLabel name then some (.labelTaken name) else none, ?_⟩
      simp only [Action.placed, Action.fault?, alike.hasLabel name]
      cases names'.hasLabel name with
      | true | false => exact ⟨rfl, rfl⟩
  | use name _ =>
      refine ⟨if names'.hasVariable name then none else some (.unassigned name), ?_⟩
      simp only [Action.placed, Action.fault?, alike.hasVariable name]
      cases names'.hasVariable name with
      | true | false => exact ⟨rfl, rfl⟩
  | settle => exact absurd rfl unsettled
  | note _ | head _ | write _ | declare _ | jump _ _ => exact ⟨none, rfl, rfl⟩

/-- As long as nothing is settled, the rule that actions break is the same at other offsets. -/
theorem exists_cause (alike : names.Alike names') {actions : List Action}
    (unsettled : Action.settle ∉ actions) (loc loc' : Nat) :
    ∃ cause? : Option Cause,
      names.fault? (actions.map (.placed loc)) = cause?.map (Fault.mk · loc) ∧
        names'.fault? (actions.map (.placed loc')) = cause?.map (Fault.mk · loc') := by
  induction actions generalizing names names' with
  | nil => exact ⟨none, rfl, rfl⟩
  | cons action actions ih =>
      obtain ⟨here, later⟩ := not_or.mp (mt List.mem_cons.mpr unsettled)
      obtain ⟨first?, broken, broken'⟩ := alike.exists_cause_of_action here loc loc'
      obtain ⟨later?, found, found'⟩ := ih (alike.after action loc loc') later
      refine ⟨first?.or later?, ?_, ?_⟩
      · rw [List.map_cons, fault?, broken, found, Option.map_or]
      · rw [List.map_cons, fault?, broken', found', Option.map_or]

end Names.Alike

/-- Reading stops after as many tokens and for the same cause, at offsets that belong together. -/
structure SameStop (offsets : List (Nat × Nat)) (found found' : Nat × Fault) : Prop where
  passed : found.1 = found'.1
  cause : found.2.cause = found'.2.cause
  loc : (found.2.loc, found'.2.loc) ∈ offsets

/-- The offsets of tokens that are read alike. -/
def offsets (tokens tokens' : List Token) : List (Nat × Nat) :=
  (tokens.map Token.loc).zip (tokens'.map Token.loc)

theorem SameStop.mono {few many : List (Nat × Nat)} (sub : few ⊆ many)
    {found? found'? : Option (Nat × Fault)} (same : Option.Rel (SameStop few) found? found'?) :
    Option.Rel (SameStop many) found? found'? := by
  cases same with
  | none => exact .none
  | some same => exact .some ⟨same.passed, same.cause, sub same.loc⟩

theorem SameStop.eq_none {offsets : List (Nat × Nat)} {found? : Option (Nat × Fault)}
    (same : Option.Rel (SameStop offsets) found? none) : found? = none := by
  cases same
  rfl

theorem SameStop.exists_loc {offsets : List (Nat × Nat)} {found? : Option (Nat × Fault)}
    {found' : Nat × Fault} (same : Option.Rel (SameStop offsets) found? (some found')) :
    ∃ loc, found? = some (found'.1, ⟨found'.2.cause, loc⟩) ∧ (loc, found'.2.loc) ∈ offsets := by
  cases same with
  | @some found _ same =>
      refine ⟨found.2.loc, ?_, same.loc⟩
      rw [← same.passed, ← same.cause]

/-- On tokens that differ in their offsets alone, reading stops after as many tokens and for the
same cause, if it stops before the end of the text. -/
theorem stop_alike {names names' : Names} (alike : names.Alike names') (place : Place)
    (blocks : List Block) (passed : Nat) {owed : List Action} (unsettled : Action.settle ∉ owed)
    (last last' : Nat) {tokens tokens' : List Token}
    (same : tokens.map Token.lexeme = tokens'.map Token.lexeme)
    (inside : ∀ token ∈ tokens, token.kind ≠ .eof) :
    Option.Rel (SameStop ((last, last') :: offsets tokens tokens'))
      (stop? names place blocks passed (owed.map (.placed last)) tokens)
      (stop? names' place blocks passed (owed.map (.placed last')) tokens') := by
  induction tokens generalizing names names' place blocks passed owed last last' tokens' with
  | nil =>
      obtain rfl : tokens' = [] := List.map_eq_nil_iff.mp same.symm
      exact .none
  | cons current tokens ih =>
      obtain ⟨current', tokens', rfl, here, same⟩ := List.map_eq_cons_iff.mp same.symm
      obtain ⟨more, inside⟩ := List.forall_mem_cons.mp inside
      cases tokens with
      | nil =>
          obtain rfl : tokens' = [] := List.map_eq_nil_iff.mp same
          exact .none
      | cons ahead tokens =>
          obtain ⟨ahead', tokens', rfl, next, -⟩ := List.map_eq_cons_iff.mp same
          have kind : ahead'.kind = ahead.kind := congrArg Prod.fst next
          obtain ⟨move, placed, placed', now, owes, goes⟩ :=
            place.exists_move blocks ahead.kind here.symm more
          -- The fault may lie in what is owed for the last token or in what this one calls for.
          obtain ⟨owed?, broken, broken'⟩ := alike.exists_cause unsettled last last'
          have alike := alike.afterAll owed last last'
          obtain ⟨now?, broke, broke'⟩ := alike.exists_cause now current.loc current'.loc
          have alike := alike.afterAll move.now current.loc current'.loc
          simp only [stop?, kind, placed, placed', Move.placed, Names.fault_append,
            Names.afterAll_append, broken, broken', broke, broke']
          cases owed? with
          | some cause => exact .some ⟨rfl, rfl, List.mem_cons_self⟩
          | none =>
              cases now? with
              | some cause => exact .some ⟨rfl, rfl, List.mem_cons_of_mem _ List.mem_cons_self⟩
              | none =>
                  cases step : move.step with
                  | pass place' blocks' owed' =>
                      have later := ih alike place' blocks' (passed + 1) (owes _ _ _ step)
                        current.loc current'.loc same.symm inside
                      exact SameStop.mono (List.subset_cons_self _ _) later
                  | refuse cause =>
                      exact .some ⟨rfl, rfl, List.mem_cons_of_mem _ List.mem_cons_self⟩
                  | finish => exact absurd step goes

/-! ## Faults of reading and others -/

/-- What a reader is given of a text without faults starts with its tokens. -/
theorem Cursor.Lexes.exists_lookahead {cursor : Cursor} {front others : List Token}
    (lexes : cursor.Lexes (front ++ others)) :
    cursor.supply.fault? = none ∧ ∃ rest, cursor.supply.lookahead = front ++ rest := by
  obtain ⟨last, ending, same⟩ := lexes_iff_supply.mp lexes
  refine ⟨by simp [Supply.fault?, ending], others ++ [last], ?_⟩
  simp only [Supply.lookahead, ending]
  rw [← List.append_assoc, same, List.append_assoc]
  rfl

theorem exists_getElem_of_mem_offsets {tokens tokens' : List Token} {loc loc' : Nat}
    (member : (loc, loc') ∈ offsets tokens tokens') :
    ∃ (index : Nat) (token token' : Token), tokens[index]? = some token ∧
      tokens'[index]? = some token' ∧ loc = token.loc ∧ loc' = token'.loc := by
  obtain ⟨index, here⟩ := List.mem_iff_getElem?.mp member
  rw [offsets, List.getElem?_zip_eq_some] at here
  obtain ⟨there, there'⟩ := here
  simp only [List.getElem?_map, Option.map_eq_some_iff] at there there'
  obtain ⟨token, found, same⟩ := there
  obtain ⟨token', found', same'⟩ := there'
  exact ⟨index, token, token', found, found', same.symm, same'.symm⟩

/-- On tokens with the same lexemes reading stops alike. -/
theorem stop_alike_from_start {tokens tokens' : List Token}
    (same : tokens.map Token.lexeme = tokens'.map Token.lexeme)
    (inside : ∀ token ∈ tokens, token.kind ≠ .eof) :
    Option.Rel (SameStop (offsets tokens tokens'))
      (stop? {} .line [] 0 prologue tokens) (stop? {} .line [] 0 prologue tokens') := by
  cases tokens with
  | nil =>
      obtain rfl : tokens' = [] := List.map_eq_nil_iff.mp same.symm
      exact .none
  | cons token tokens =>
      obtain ⟨token', tokens', rfl, -, -⟩ := List.map_eq_cons_iff.mp same.symm
      -- Nothing in the prologue points anywhere, so any offsets will do for what is owed.
      refine SameStop.mono ?_ (stop_alike ⟨rfl, rfl⟩ .line [] 0 (by decide : .settle ∉ prologue)
        token.loc token'.loc same inside)
      exact List.cons_subset.mpr ⟨List.mem_cons_self, List.Subset.refl _⟩

/-- Texts that start with different characters differ. -/
theorem append_ne_append {first second : String} (starts : first.toList ≠ [])
    (starts' : second.toList ≠ []) (other : first.toList.head? ≠ second.toList.head?)
    (rest rest' : String) : first ++ rest ≠ second ++ rest' := by
  intro same
  have whole : first.toList ++ rest.toList = second.toList ++ rest'.toList := by
    rw [← String.toList_append, same, String.toList_append]
  obtain ⟨c, front, shape⟩ := List.exists_cons_of_ne_nil starts
  obtain ⟨d, front', shape'⟩ := List.exists_cons_of_ne_nil starts'
  rw [shape, shape'] at whole other
  exact other (congrArg some (List.cons.inj whole).1)

/-- A diagnostic that speaks of a jump without a label is that of such a jump. -/
theorem Fault.labelMissing_of_diagnose {fault : Fault} {name : String} {loc : Nat}
    {text : List Char}
    (same : fault.diagnose text = Fault.diagnose ⟨.labelMissing name, loc⟩ text) :
    ∃ name', fault.cause = .labelMissing name' := by
  obtain ⟨cause, loc'⟩ := fault
  have phase := congrArg Diagnostic.phase same
  have message : cause.message = Cause.message (.labelMissing name) :=
    congrArg Diagnostic.message same
  cases cause with
  | labelMissing name' => exact ⟨name', rfl⟩
  | unassigned _ | labelTaken _ =>
      exact absurd message (append_ne_append (by decide) (by decide) (by decide) _ _)
  | _ => cases phase

section Clean

variable {clean : String} {tokens front others : List Token}
  (lexes : (Cursor.ofSource clean).Lexes (front ++ others))
  (same : tokens.map Token.lexeme = front.map Token.lexeme)
  (inside : ∀ token ∈ tokens, token.kind ≠ .eof)
include lexes same inside

/-- Where a text without faults stops early, tokens that it starts with stop. -/
theorem exists_stop_of_clean {passed : Nat} {fault : Fault}
    (stops : (Cursor.ofSource clean).supply.stop? = some (passed, fault))
    (near : passed + 2 ≤ tokens.length) :
    ∃ loc, stop? {} .line [] 0 prologue tokens = some (passed, ⟨fault.cause, loc⟩) ∧
      (loc, fault.loc) ∈ offsets tokens front := by
  obtain ⟨-, rest, lookahead⟩ := lexes.exists_lookahead
  rw [Supply.stop?, lookahead] at stops
  have count : tokens.length = front.length := by simpa using congrArg List.length same
  have early : stop? {} .line [] 0 prologue front = some (passed, fault) := by
    refine (stop_append rest).mpr ⟨stops, ?_⟩
    rwa [Nat.zero_add, ← count]
  have alike := stop_alike_from_start same inside
  rw [early] at alike
  exact SameStop.exists_loc alike

/-- Where a text without faults does not stop early, tokens that it starts with do not stop. -/
theorem stop_eq_none_of_clean
    (late : ∀ passed fault, (Cursor.ofSource clean).supply.stop? = some (passed, fault) →
      tokens.length < passed + 2) :
    stop? {} .line [] 0 prologue tokens = none := by
  obtain ⟨-, rest, lookahead⟩ := lexes.exists_lookahead
  simp only [Supply.stop?, lookahead] at late
  have count : tokens.length = front.length := by simpa using congrArg List.length same
  have alike := stop_alike_from_start same inside
  cases found : stop? {} .line [] 0 prologue front with
  | none =>
      rw [found] at alike
      exact SameStop.eq_none alike
  | some stop =>
      obtain ⟨stops, near⟩ := (stop_append rest).mp found
      have := late stop.1 stop.2 stops
      omega

end Clean

namespace Compilation

variable {source : String} {tokens : List Token} {fault : Fault}
  (supply : (Cursor.ofSource source).supply = ⟨tokens, .error fault⟩)
include supply

/-- Without two tokens to look at, nothing is done. -/
theorem ofSource_of_short (short : tokens.length ≤ 1) (output : Output) :
    ofSource source output = ⟨{ output }, some fault⟩ := by
  rw [ofSource, Cursor.compile, supply]
  rcases tokens with _ | ⟨token, _ | ⟨next, tokens⟩⟩
  · rfl
  · rfl
  · simp at short

/-- If a text cannot be read to its end, no jump is found to lack its label. -/
theorem cause_ne_labelMissing {output : Output} {fault' : Fault}
    (found : (ofSource source output).fault? = some fault') (name : String) :
    fault'.cause ≠ .labelMissing name := by
  rw [fault_ofSource] at found
  rcases (Cursor.ofSource source).lexes_or_fault with ⟨_, lexes⟩ | ⟨unsettled, _, stopped, phase⟩
  · obtain ⟨last, ending, -⟩ := Cursor.lexes_iff_supply.mp lexes
    rw [supply] at ending
    cases ending
  · rcases Option.or_eq_some_iff.mp found with broken | ⟨-, found⟩
    · exact Names.cause_ne_labelMissing unsettled broken name
    · obtain rfl := Option.some.inj (stopped.symm.trans found)
      intro missing
      rw [missing] at phase
      exact phase rfl

end Compilation

/-- A source whose reading ends in a fault after some tokens fails, and which fault is reported is
decided by how far a reader gets on those tokens. With at most one token nothing is done and the
fault of reading is reported. With more of them, take any text without faults that starts with the
same lexemes; there is one. If its compilation stops when at most all but two of the tokens are
passed, the source fails for the same cause at the same token; otherwise the fault of reading is
reported. Either way no jump is found to lack its label. -/
theorem compile_reading_fault {source : String} {tokens : List Token} {fault : Fault}
    (supply : (Cursor.ofSource source).supply = ⟨tokens, .error fault⟩) :
    (tokens.length ≤ 1 →
      compile source = .error (fault.diagnose (sourceText source)) ∧
        ∀ output, (Compilation.ofSource source output).draft = { output }) ∧
    (2 ≤ tokens.length →
      (∃ clean others, (Cursor.ofSource clean).Lexes (tokens ++ others)) ∧
      ∀ clean front others, (Cursor.ofSource clean).Lexes (front ++ others) →
        front.map Token.lexeme = tokens.map Token.lexeme →
        (∀ output, (Compilation.ofSource clean output).fault? =
          (Cursor.ofSource clean).supply.stop?.map Prod.snd) ∧
        (∀ passed fault', (Cursor.ofSource clean).supply.stop? = some (passed, fault') →
          passed + 2 ≤ tokens.length →
            ∃ (index : Nat) (token token' : Token), tokens[index]? = some token ∧
              front[index]? = some token' ∧ fault'.loc = token'.loc ∧
              compile source =
                .error (Fault.diagnose ⟨fault'.cause, token.loc⟩ (sourceText source))) ∧
        ((∀ passed fault', (Cursor.ofSource clean).supply.stop? = some (passed, fault') →
          tokens.length < passed + 2) →
            compile source = .error (fault.diagnose (sourceText source)))) ∧
    ∀ name loc,
      compile source ≠ .error (Fault.diagnose ⟨.labelMissing name, loc⟩ (sourceText source)) := by
  have inside : ∀ token ∈ tokens, token.kind ≠ .eof := by
    simpa [supply] using (Cursor.ofSource source).more_of_mem_supply
  have reported : (Compilation.ofSource source {}).fault? =
      ((stop? {} .line [] 0 prologue tokens).map Prod.snd).or (some fault) := by
    rw [Compilation.fault_eq_stop, supply]
    rfl
  refine ⟨?_, ?_, ?_⟩
  · intro short
    have nothing := Compilation.ofSource_of_short supply short
    refine ⟨compile_eq_error_iff.mpr ⟨fault, ?_, rfl⟩, fun output => ?_⟩
    · rw [nothing]
    · rw [nothing]
  · intro _
    refine ⟨?_, ?_⟩
    · obtain ⟨clean, others, lexes⟩ := Cursor.exists_lexes_ofSource source
      rw [supply] at lexes
      exact ⟨clean, others, lexes⟩
    · intro clean front others lexes same
      refine ⟨fun output => ?_, ?_, ?_⟩
      · rw [Compilation.fault_eq_stop, lexes.exists_lookahead.1, Option.or_none]
      · intro passed fault' stops near
        obtain ⟨loc, found, belong⟩ := exists_stop_of_clean lexes same.symm inside stops near
        obtain ⟨index, token, token', here, here', rfl, place⟩ :=
          exists_getElem_of_mem_offsets belong
        refine ⟨index, token, token', here, here', place, compile_eq_error_iff.mpr ⟨_, ?_, rfl⟩⟩
        rw [reported, found]
        rfl
      · intro late
        refine compile_eq_error_iff.mpr ⟨fault, ?_, rfl⟩
        rw [reported, stop_eq_none_of_clean lexes same.symm inside late]
        rfl
  · intro name loc failed
    obtain ⟨fault', found, shown⟩ := compile_eq_error_iff.mp failed
    obtain ⟨name', missing⟩ := Fault.labelMissing_of_diagnose shown.symm
    exact Compilation.cause_ne_labelMissing supply found name' missing

/-- One token makes the difference. A variable without a value is reported if the token after it can
be read, and else what cannot be read; both are seen from a text in which the variable stands
elsewhere. -/
theorem compile_reading_fault_after_variable :
    let word : Token := ⟨.printWord, "PRINT", 0⟩
    (Cursor.ofSource "PRINT x !").supply =
        ⟨[word, ⟨.ident, "x", 6⟩], .error ⟨.loneBang none, 8⟩⟩ ∧
      compile "PRINT x !" = .error ⟨.lexing, ⟨1, 9⟩, "expected !=, got !"⟩ ∧
      (Cursor.ofSource "PRINT x\n!").supply =
        ⟨[word, ⟨.ident, "x", 6⟩, ⟨.newline, "\n", 7⟩], .error ⟨.loneBang none, 8⟩⟩ ∧
      compile "PRINT x\n!" =
        .error ⟨.meaning, ⟨1, 7⟩, "referencing variable before assignment: x"⟩ := by
  intro word
  have near : (Cursor.ofSource "PRINT x !").supply =
      ⟨[word, ⟨.ident, "x", 6⟩], .error ⟨.loneBang none, 8⟩⟩ :=
    Cursor.supply_of_take (by rfl) (by decide) nofun
  have far : (Cursor.ofSource "PRINT x\n!").supply =
      ⟨[word, ⟨.ident, "x", 6⟩, ⟨.newline, "\n", 7⟩], .error ⟨.loneBang none, 8⟩⟩ :=
    Cursor.supply_of_take (by rfl) (by decide) nofun
  have lexes : (Cursor.ofSource "PRINT  x").Lexes
      [word, ⟨.ident, "x", 7⟩, ⟨.newline, "\n", 8⟩, ⟨.eof, "", 9⟩] :=
    .read (by rfl) (by decide) (.read (by rfl) (by decide) (.read (by rfl) (by decide)
      (.finish (by rfl) rfl)))
  have stops : (Cursor.ofSource "PRINT  x").supply.stop? = some (1, ⟨.unassigned "x", 7⟩) := by
    have supply : (Cursor.ofSource "PRINT  x").supply =
      ⟨[word, ⟨.ident, "x", 7⟩, ⟨.newline, "\n", 8⟩], .ok ⟨.eof, "", 9⟩⟩ :=
      Cursor.Lexes.supply_eq lexes
    rw [supply]
    rfl
  refine ⟨near, ?_, far, ?_⟩
  · obtain ⟨-, -, late⟩ := ((compile_reading_fault near).2.1 (by decide)).2 "PRINT  x"
      [word, ⟨.ident, "x", 7⟩] _ lexes rfl
    refine late fun passed fault found => ?_
    rw [stops] at found
    cases found
    decide
  · obtain ⟨-, early, -⟩ := ((compile_reading_fault far).2.1 (by decide)).2 "PRINT  x"
      [word, ⟨.ident, "x", 7⟩, ⟨.newline, "\n", 8⟩] _ lexes rfl
    obtain ⟨index, token, token', here, here', place, failed⟩ := early 1 _ stops (by decide)
    rcases index with _ | _ | _ | index
    · cases here'
      cases place
    · cases here
      exact failed
    · cases here'
      cases place
    · cases here'

end TeenyTiny
