import TeenyTiny.Proofs.LaterLines

/-!
# Compiling token by token

The tokens of a program give a list of actions, and the actions are performed. Here both are done
together, one token after the other (`Standing.read`). What a token calls for at once is done while
it is the current one. Then it is passed, which takes a token to look ahead at, and what is owed for
it is done, the name that it takes in before anything else (`Place.exists_owed`). Reading stops at a
fault, at the end of the program, or where no token can be read ahead.

This is compiling (`Compilation.ofSource_eq_outcome`), with the tokens that have been passed by the
end. What holds at every such stop is shown by what holds before and after one token
(`Standing.Invariant`).
-/

set_option autoImplicit false

namespace TeenyTiny

/-! ## Actions one behind the other -/

namespace Draft

/-- Actions that break no rule are performed before others. -/
theorem performAll_append_of_none {draft draft' : Draft} {first : List Action}
    (done : draft.performAll first = (draft', none)) (second : List Action) :
    draft.performAll (first ++ second) = draft'.performAll second := by
  induction first generalizing draft with
  | nil =>
      cases done
      rfl
  | cons action first ih =>
      rw [List.cons_append, performAll]
      rw [performAll] at done
      cases broken : action.fault? draft.names with
      | none =>
          rw [broken] at done
          exact ih done
      | some fault =>
          rw [broken] at done
          cases done

/-- Where actions break a rule, others behind them are not performed. -/
theorem performAll_append_of_some {draft draft' : Draft} {first : List Action} {fault : Fault}
    (done : draft.performAll first = (draft', some fault)) (second : List Action) :
    draft.performAll (first ++ second) = (draft', some fault) := by
  induction first generalizing draft with
  | nil => cases done
  | cons action first ih =>
      rw [List.cons_append, performAll]
      rw [performAll] at done
      cases broken : action.fault? draft.names with
      | none =>
          rw [broken] at done
          exact ih done
      | some fault' =>
          rw [broken] at done
          exact done

/-- Actions that break no rule are performed in order. -/
theorem performAll_eq_foldl {draft draft' : Draft} {actions : List Action}
    (done : draft.performAll actions = (draft', none)) :
    draft' = actions.foldl perform draft := by
  induction actions generalizing draft with
  | nil =>
      cases done
      rfl
  | cons action actions ih =>
      rw [performAll] at done
      cases broken : action.fault? draft.names with
      | none =>
          rw [broken] at done
          exact ih done
      | some fault =>
          rw [broken] at done
          cases done

/-- What each of some actions preserves, all of them preserve, as far as they are performed. -/
theorem performAll_preserves {holds : Draft → Prop} {actions : List Action}
    (step : ∀ action ∈ actions, ∀ draft : Draft, action.fault? draft.names = none →
      holds draft → holds (draft.perform action))
    {draft : Draft} (start : holds draft) : holds (draft.performAll actions).1 := by
  induction actions generalizing draft with
  | nil => exact start
  | cons action actions ih =>
      obtain ⟨here, later⟩ := List.forall_mem_cons.mp step
      rw [performAll]
      cases broken : action.fault? draft.names with
      | none => exact ih later (here draft broken start)
      | some fault => exact start

end Draft

/-! ## What is owed for a token -/

/-- Whether an action only writes C or logs something. -/
def Action.plain : Action → Bool
  | .write _ | .note _ => true
  | _ => false

/-- Plain actions break no rule. -/
theorem Draft.performAll_plain {actions : List Action} (plain : actions.all Action.plain = true)
    (draft : Draft) : (draft.performAll actions).2 = none := by
  induction actions generalizing draft with
  | nil => rfl
  | cons action actions ih =>
      rw [List.all_cons, Bool.and_eq_true] at plain
      cases action with
      | write _ | note _ => exact ih plain.2 _
      | head _ | declare _ | label _ _ | jump _ _ | use _ _ | settle => cases plain.1

namespace Place

/-- What takes in the name that has to come next at a place, if a name has to. -/
def taking? (place : Place) (token : Token) : Option Action :=
  match place with
  | .labelName => some (.label token.text token.loc)
  | .gotoName => some (.jump token.text token.loc)
  | .letName | .inputName => some (.declare token.text)
  | _ => none

/-- A name is taken in before anything else that is owed, and nothing else that is owed is about
names. -/
theorem exists_owed {place place' : Place} {blocks blocks' : List Block} {token : Token}
    {next : Kind} {owed : List Action}
    (step : (place.move blocks token next).step = .pass place' blocks' owed) :
    ∃ others, owed = (place.taking? token).toList ++ others ∧
      others.all Action.plain = true := by
  obtain ⟨kind, text, loc⟩ := token
  cases place with
  | line =>
      rcases blocks with _ | ⟨_ | _, blocks⟩ <;> cases kind <;> cases step <;> exact ⟨_, rfl, rfl⟩
  | bodyStart block => cases block <;> cases kind <;> cases step <;> exact ⟨_, rfl, rfl⟩
  | operator purpose =>
      rcases purpose with _ | _ | ⟨_ | _⟩ | ⟨_ | _⟩ <;> cases kind <;> cases step <;>
        exact ⟨_, rfl, rfl⟩
  | _ => cases kind <;> cases step <;> exact ⟨_, rfl, rfl⟩

/-- If what is owed for a token breaks a rule, nothing of it is done. -/
theorem performAll_owed {place place' : Place} {blocks blocks' : List Block} {token : Token}
    {next : Kind} {owed : List Action} {draft draft' : Draft} {fault : Fault}
    (step : (place.move blocks token next).step = .pass place' blocks' owed)
    (broken : draft.performAll owed = (draft', some fault)) : draft' = draft := by
  obtain ⟨others, rfl, plain⟩ := exists_owed step
  cases taken : place.taking? token with
  | none =>
      rw [taken, Option.toList_none, List.nil_append] at broken
      exact absurd (congrArg Prod.snd broken) (by simp [Draft.performAll_plain plain])
  | some action =>
      rw [taken, Option.toList_some, List.singleton_append, Draft.performAll] at broken
      cases found : action.fault? draft.names with
      | none =>
          rw [found] at broken
          exact absurd (congrArg Prod.snd broken) (by simp [Draft.performAll_plain plain])
      | some fault' =>
          rw [found] at broken
          cases broken
          rfl

end Place

/-! ## Reading on -/

/-- Where the reading of a program stands: what has been drafted, the place, and the open blocks. -/
structure Standing where
  draft : Draft
  place : Place := .line
  blocks : List Block := []

/-- Why reading stops. -/
inductive Halt where
  /-- A rule of grammar or of meaning is broken. -/
  | fault (fault : Fault)
  /-- The program is complete. -/
  | finish
  /-- There is no token to look ahead at. -/
  | starved

/-- What reading a program leaves: the tokens that have been passed, what has been drafted, and why
it stopped. -/
structure Outcome where
  passed : List Token
  draft : Draft
  halt : Halt

/-- The same outcome, with a token passed before. -/
def Outcome.behind (token : Token) (outcome : Outcome) : Outcome :=
  { outcome with passed := token :: outcome.passed }

/-- The fault of an outcome, given the one that ends the tokens. -/
def Outcome.fault? (outcome : Outcome) (ending : Option Fault) : Option Fault :=
  match outcome.halt with
  | .fault fault => some fault
  | .finish => none
  | .starved => ending

namespace Standing

/-- Before the first line. -/
def start (output : Output) : Standing :=
  { draft := prologue.foldl Draft.perform { output } }

/-- What a token calls for, given the kind of the token after it. -/
def move (standing : Standing) (current : Token) (next : Kind) : Move :=
  standing.place.move standing.blocks current next

/-- Reads on along tokens, of which the first is the current one and the second has been read
ahead. -/
def read (standing : Standing) : List Token → Outcome
  | current :: ahead :: tokens =>
      match standing.draft.performAll (standing.move current ahead.kind).now with
      | (draft, some fault) => ⟨[], draft, .fault fault⟩
      | (draft, none) =>
          match (standing.move current ahead.kind).step with
          | .refuse cause => ⟨[], draft, .fault ⟨cause, current.loc⟩⟩
          | .finish => ⟨[], draft, .finish⟩
          | .pass place blocks owed =>
              if tokens = [] then ⟨[], draft, .starved⟩
              else
                match draft.performAll owed with
                | (draft, some fault) => ⟨[current], draft, .fault fault⟩
                | (draft, none) => (read { draft, place, blocks } (ahead :: tokens)).behind current
  | _ => ⟨[], standing.draft, .starved⟩

/-- Reading token by token is performing what the walk along the tokens calls for. -/
theorem performAll_walk (standing : Standing) (ending : Option Fault) (tokens : List Token) :
    let walked := walk ending standing.place standing.blocks [] tokens
    let done := standing.draft.performAll walked.actions
    let outcome := standing.read tokens
    done.1 = outcome.draft ∧ done.2.or walked.fault? = outcome.fault? ending := by
  fun_induction read standing tokens with
  | case1 standing current ahead tokens draft fault broken =>
      obtain ⟨later, actions⟩ :=
        walk_actions ending standing.place standing.blocks [] current ahead tokens
      have stopped := Draft.performAll_append_of_some broken later
      simp only [move] at stopped
      simp only [actions, List.nil_append]
      rw [stopped]
      exact ⟨rfl, rfl⟩
  | case2 standing current ahead tokens draft kept cause step =>
      simp only [move] at kept
      simp only [walk_of_refuse step]
      rw [kept]
      exact ⟨rfl, rfl⟩
  | case3 standing current ahead tokens draft kept step =>
      simp only [move] at kept
      simp only [walk_of_finish step]
      rw [kept]
      exact ⟨rfl, rfl⟩
  | case4 standing current ahead draft kept place blocks owed step =>
      simp only [move] at kept step
      have walked : walk ending standing.place standing.blocks [] [current, ahead] =
          ⟨(standing.place.move standing.blocks current ahead.kind).now, ending⟩ := by
        rw [walk]
        simp only [step, Walk.after, walk, List.nil_append, List.append_nil]
      simp only [walked]
      rw [kept]
      exact ⟨rfl, Option.none_or⟩
  | case5 standing current ahead tokens draft kept place blocks owed step more draft' fault
      broken =>
      obtain ⟨third, tokens, rfl⟩ := List.exists_cons_of_ne_nil more
      simp only [move] at kept step
      simp only [walk_of_pass step, Walk.after, List.append_assoc]
      rw [Draft.performAll_append_of_none kept, Draft.performAll_append_of_some broken]
      exact ⟨rfl, rfl⟩
  | case6 standing current ahead tokens draft kept place blocks owed step more draft' done ih =>
      obtain ⟨third, tokens, rfl⟩ := List.exists_cons_of_ne_nil more
      simp only [move] at kept step
      simp only [walk_of_pass step, Walk.after, List.append_assoc]
      rw [Draft.performAll_append_of_none kept, Draft.performAll_append_of_none done]
      exact ih
  | case7 tokens standing short =>
      rw [walk]
      · exact ⟨rfl, rfl⟩
      · exact short

/-- The tokens that are passed are the first ones. -/
theorem passed_isPrefix (standing : Standing) (tokens : List Token) :
    (standing.read tokens).passed <+: tokens := by
  fun_induction read standing tokens with
  | case5 standing current ahead tokens _ _ _ _ _ _ _ _ _ _ =>
      exact ⟨ahead :: tokens, rfl⟩
  | case6 standing current ahead tokens _ _ _ _ _ _ _ _ _ ih =>
      exact List.cons_prefix_cons.mpr ⟨rfl, ih⟩
  | _ => exact List.nil_prefix

/-- What holds before a token is passed holds before the next one, and what is left where reading
stops follows from it. Tokens may be assumed to be fine. -/
structure Invariant (fine : Token → Prop) (holds : List Token → Standing → Prop)
    (leaves : List Token → Draft → Prop) : Prop where
  /-- Nothing more is read. -/
  stay : ∀ {passed standing}, holds passed standing → leaves passed standing.draft
  /-- What is called for at once is done as far as it can be. -/
  now : ∀ {passed standing token}, holds passed standing → fine token → ∀ next,
    leaves passed (standing.draft.performAll (standing.move token next).now).1
  /-- The token has been passed, and what is owed for it is done as far as it can be; if all of it
  is done, reading goes on. -/
  pass : ∀ {passed standing token next draft place blocks owed}, holds passed standing →
    fine token → standing.draft.performAll (standing.move token next).now = (draft, none) →
    (standing.move token next).step = .pass place blocks owed →
    leaves (passed ++ [token]) (draft.performAll owed).1 ∧
      ((draft.performAll owed).2 = none →
        holds (passed ++ [token]) { draft := (draft.performAll owed).1, place, blocks })

/-- What holds before the first of some tokens gives what is left of reading them. -/
theorem Invariant.read {fine : Token → Prop} {holds : List Token → Standing → Prop}
    {leaves : List Token → Draft → Prop} (invariant : Invariant fine holds leaves)
    {passed : List Token} {standing : Standing} (start : holds passed standing)
    {tokens : List Token} (each : ∀ token ∈ tokens, fine token) :
    leaves (passed ++ (standing.read tokens).passed) (standing.read tokens).draft := by
  fun_induction Standing.read standing tokens generalizing passed with
  | case1 standing current ahead tokens draft fault broken =>
      have left := invariant.now start (each current List.mem_cons_self) ahead.kind
      rw [broken] at left
      rwa [List.append_nil]
  | case2 standing current ahead tokens draft kept _ _
  | case3 standing current ahead tokens draft kept _
  | case4 standing current ahead draft kept _ _ _ _ =>
      have left := invariant.now start (each current List.mem_cons_self) ahead.kind
      rw [kept] at left
      rwa [List.append_nil]
  | case5 standing current ahead tokens draft kept place blocks owed step more draft' fault
      broken =>
      have left := (invariant.pass start (each current List.mem_cons_self) kept step).1
      rwa [broken] at left
  | case6 standing current ahead tokens draft kept place blocks owed step more draft' done ih =>
      have next := (invariant.pass start (each current List.mem_cons_self) kept step).2
      rw [done] at next
      have left := ih (next rfl) fun token member => each token (List.mem_cons_of_mem _ member)
      rwa [List.append_assoc] at left
  | case7 tokens standing short =>
      rw [List.append_nil]
      exact invariant.stay start

end Standing

/-! ## Reading a source -/

/-- What reading a source token by token leaves. -/
def Outcome.ofSource (source : String) (output : Output) : Outcome :=
  (Standing.start output).read (Cursor.ofSource source).supply.lookahead

/-- What holds before the first line gives what is left of reading a source. -/
theorem Standing.Invariant.ofSource {fine : Token → Prop} {holds : List Token → Standing → Prop}
    {leaves : List Token → Draft → Prop} (invariant : Invariant fine holds leaves)
    {source : String} {output : Output} (start : holds [] (.start output))
    (each : ∀ token ∈ (Cursor.ofSource source).supply.lookahead, fine token) :
    leaves (Outcome.ofSource source output).passed (Outcome.ofSource source output).draft :=
  invariant.read start each

/-- Two tokens can be looked at if the first two can be read. -/
theorem Cursor.two_le_lookahead_iff (cursor : Cursor) :
    2 ≤ cursor.supply.lookahead.length ↔ ∀ fault, .error fault ∉ (cursor.take 2).1 := by
  have taken : (cursor.take 2).1 = [cursor.next.1, cursor.next.2.next.1] := rfl
  rw [taken]
  rcases found : cursor.next with ⟨fault | token, after⟩
  · rw [supply_of_fault found]
    simp only [Supply.lookahead, List.length_nil]
    exact ⟨fun impossible => by omega, fun fine => absurd List.mem_cons_self (fine fault)⟩
  · by_cases ended : token.kind = .eof
    · rw [supply_of_end found ended, next_of_rest (rest_of_end found ended)]
      simp [Supply.lookahead]
    · rw [supply_of_token found ended, Supply.lookahead_cons]
      rcases found' : after.next with ⟨fault | second, after'⟩
      · rw [supply_of_fault found']
        simp [Supply.lookahead]
      · obtain ⟨others, seen⟩ := exists_ahead found'
        rw [seen]
        simp

/-- A text whose first two tokens can be read is compiled token by token. -/
theorem Cursor.compile_eq_read {cursor : Cursor} (ready : 2 ≤ cursor.supply.lookahead.length)
    (output : Output) :
    let outcome := (Standing.start output).read cursor.supply.lookahead
    cursor.compile output = ⟨outcome.draft, outcome.fault? cursor.supply.fault?⟩ := by
  rw [compile, Supply.walk]
  rcases seen : cursor.supply.lookahead with _ | ⟨current, _ | ⟨ahead, tokens⟩⟩
  · rw [seen] at ready
    cases ready
  · rw [seen] at ready
    simp at ready
  · have begun : Draft.performAll { output } prologue = ((Standing.start output).draft, none) := rfl
    have along := (Standing.start output).performAll_walk cursor.supply.fault?
      (current :: ahead :: tokens)
    rw [walk_owed, Walk.after]
    simp only [Draft.performAll_append_of_none begun]
    rw [← along.1, ← along.2]
    rfl

/-- If one of the first two tokens cannot be read, nothing is done. -/
theorem Cursor.compile_of_unready {cursor : Cursor}
    (unready : cursor.supply.lookahead.length < 2) (output : Output) :
    cursor.compile output = ⟨{ output }, cursor.supply.fault?⟩ := by
  rw [compile, Supply.walk]
  rcases seen : cursor.supply.lookahead with _ | ⟨current, _ | ⟨ahead, tokens⟩⟩
  · rfl
  · rfl
  · rw [seen, List.length_cons, List.length_cons] at unready
    omega

namespace Compilation

variable {source : String}

/-- A source whose first two tokens can be read is compiled token by token. -/
theorem ofSource_eq_outcome (ready : 2 ≤ (Cursor.ofSource source).supply.lookahead.length)
    (output : Output) :
    ofSource source output = ⟨(Outcome.ofSource source output).draft,
      (Outcome.ofSource source output).fault? (Cursor.ofSource source).supply.fault?⟩ :=
  Cursor.compile_eq_read ready output

theorem ofSource_of_unready (unready : (Cursor.ofSource source).supply.lookahead.length < 2)
    (output : Output) :
    ofSource source output = ⟨{ output }, (Cursor.ofSource source).supply.fault?⟩ :=
  Cursor.compile_of_unready unready output

end Compilation

end TeenyTiny
