import TeenyTiny.Proofs.LaterLines
import TeenyTiny.Proofs.Relocation

/-!
# The tokens that faults point at

Whatever a token calls for names that token and points at it, and only an identifier calls for
something that does (`Place.ident_of_mem_move`). A walk calls for nothing else
(`exists_move_of_mem_walk`), and the jumps that are kept have their names and offsets from there
too. A token that is refused is described by the refusal (`Place.speaksOf_move`). So every fault but
one of reading points at a token and speaks of it (`Walk.exists_spoken_of_fault`): a fault about
names at an identifier, and a fault of grammar at the token that is refused.
-/

set_option autoImplicit false

namespace TeenyTiny

/-! ## What faults speak of -/

namespace Cause

/-- The name that a cause is about, if it is about one. -/
def subject? : Cause → Option String
  | .unassigned name | .labelTaken name | .labelMissing name => some name
  | _ => none

/-- Whether a cause speaks of a token: by its kind, by its description, or by the name that it
is. -/
def SpeaksOf (token : Token) : Cause → Prop
  | .expected _ found => found = token.kind
  | .badStatement description kind => description = token.describe ∧ kind = token.kind
  | .noComparison description | .badOperand description => description = token.describe
  | .unassigned name | .labelTaken name | .labelMissing name =>
      token.kind = .ident ∧ name = token.text
  | .loneBang _ | .badStringChar | .badNumberChar | .unknownChar _ => False

theorem speaksOf_of_subject {cause : Cause} {token : Token} (ident : token.kind = .ident)
    (about : cause.subject? = some token.text) : cause.SpeaksOf token := by
  cases cause with
  | unassigned _ | labelTaken _ | labelMissing _ =>
      cases about
      exact ⟨ident, rfl⟩
  | _ => cases about

theorem SpeaksOf.phase {cause : Cause} {token : Token} (speaks : cause.SpeaksOf token) :
    cause.phase = .grammar ∨ cause.phase = .meaning ∧ token.kind = .ident := by
  cases cause with
  | expected _ _ | badStatement _ _ | noComparison _ | badOperand _ => exact .inl rfl
  | unassigned _ | labelTaken _ | labelMissing _ => exact .inr ⟨rfl, speaks.1⟩
  | loneBang _ | badStringChar | badNumberChar | unknownChar _ => cases speaks

end Cause

/-! ## Rules about names -/

namespace Names

theorem mem_of_earliest {jumps : List (String × Nat)} {jump : String × Nat}
    (found : earliest? jumps = some jump) : jump ∈ jumps := by
  induction jumps with
  | nil => cases found
  | cons first jumps ih =>
      rw [earliest?] at found
      cases later : earliest? jumps with
      | none =>
          rw [later] at found
          cases found
          exact List.mem_cons_self
      | some other =>
          simp only [later] at found
          split at found
          · cases found
            exact List.mem_cons_self
          · cases found
            exact List.mem_cons_of_mem first (ih later)

theorem mem_of_missing {names : Names} {jump : String × Nat}
    (found : names.missing? = some jump) : jump ∈ names.jumps :=
  (List.mem_filter.mp (mem_of_earliest found)).1

/-- A jump that is kept was kept before, or is the one that is taken in. -/
theorem mem_jumps_after {names : Names} {action : Action} {jump : String × Nat}
    (member : jump ∈ (names.after action).jumps) :
    jump ∈ names.jumps ∨ action.named? = some jump := by
  cases action with
  | declare name => exact .inl (by rwa [after, jumps_declareVariable] at member)
  | label name loc => exact .inl (by rwa [after, jumps_declareLabel] at member)
  | jump name loc =>
      rw [after, jumpTo] at member
      split at member
      · exact .inl member
      · rcases List.mem_append.mp member with member | member
        · exact .inl member
        · cases List.mem_singleton.mp member
          exact .inr rfl
  | note _ | head _ | write _ | use _ _ | settle => exact .inl member

/-- A rule about names that is broken is about a name at an offset: those of one of the actions, or
of a jump that was kept before. -/
theorem exists_named_of_fault {names : Names} {actions : List Action} {fault : Fault}
    (found : names.fault? actions = some fault) :
    ∃ name, fault.cause.subject? = some name ∧
      ((∃ action ∈ actions, action.named? = some (name, fault.loc)) ∨
        (name, fault.loc) ∈ names.jumps) := by
  induction actions generalizing names with
  | nil => cases found
  | cons action actions ih =>
      rw [fault?] at found
      rcases Option.or_eq_some_iff.mp found with broken | ⟨-, found⟩
      · cases action with
        | label name loc =>
            have taken : names.hasLabel name = true ∧ ⟨.labelTaken name, loc⟩ = fault := by
              simpa [Action.fault?] using broken
            obtain ⟨-, rfl⟩ := taken
            exact ⟨name, rfl, .inl ⟨_, List.mem_cons_self, rfl⟩⟩
        | use name loc =>
            have unset : names.hasVariable name = false ∧ ⟨.unassigned name, loc⟩ = fault := by
              simpa [Action.fault?] using broken
            obtain ⟨-, rfl⟩ := unset
            exact ⟨name, rfl, .inl ⟨_, List.mem_cons_self, rfl⟩⟩
        | settle =>
            obtain ⟨jump, missing, rfl⟩ := Option.map_eq_some_iff.mp broken
            exact ⟨jump.1, rfl, .inr (mem_of_missing missing)⟩
        | note _ | head _ | write _ | declare _ | jump _ _ => cases broken
      · obtain ⟨name, about, points⟩ := ih found
        refine ⟨name, about, ?_⟩
        rcases points with ⟨later, member, same⟩ | kept
        · exact .inl ⟨later, List.mem_cons_of_mem action member, same⟩
        · rcases mem_jumps_after kept with kept | taken
          · exact .inr kept
          · exact .inl ⟨action, List.mem_cons_self, taken⟩

end Names

/-! ## Tokens that are refused -/

/-- If a move refuses a token, the cause speaks of the token. -/
def Move.SpeaksOf (token : Token) (move : Move) : Prop :=
  ∀ cause, move.step = .refuse cause → cause.SpeaksOf token

namespace Place

variable {token : Token}

theorem speaksOf_pass (place : Place) (blocks : List Block) (owed : List Action) :
    (Move.pass place blocks owed).SpeaksOf token := by
  intro cause refused
  cases refused

theorem speaksOf_refuse {cause : Cause} (speaks : cause.SpeaksOf token) :
    (Move.refuse cause).SpeaksOf token := by
  intro other refused
  cases refused
  exact speaks

theorem speaksOf_after {move : Move} (first : List Action) (speaks : move.SpeaksOf token) :
    (move.after first).SpeaksOf token :=
  speaks

theorem speaksOf_expect (wanted : Kind) (place : Place) (blocks : List Block)
    (owed : List Action) : (expect wanted token place blocks owed).SpeaksOf token := by
  unfold expect
  split
  · exact speaksOf_pass place blocks owed
  · exact speaksOf_refuse rfl

theorem speaksOf_atPrimary (purpose : Purpose) (blocks : List Block) :
    (atPrimary purpose blocks token).SpeaksOf token := by
  refine speaksOf_after _ ?_
  split
  · exact speaksOf_pass _ _ _
  · exact speaksOf_after _ (speaksOf_pass _ _ _)
  · exact speaksOf_refuse rfl

theorem speaksOf_atOperand (purpose : Purpose) (blocks : List Block) :
    (atOperand purpose blocks token).SpeaksOf token := by
  unfold atOperand
  split
  · exact speaksOf_pass _ _ _
  · exact speaksOf_atPrimary purpose blocks

theorem speaksOf_closeExpression (blocks : List Block) (purpose : Purpose) :
    (closeExpression blocks token purpose).SpeaksOf token := by
  cases purpose with
  | printed | assigned => exact speaksOf_after _ (speaksOf_expect _ _ _ _)
  | guard block =>
      simp only [closeExpression]
      split
      · exact speaksOf_pass _ _ _
      · exact speaksOf_refuse rfl
  | compared block =>
      simp only [closeExpression]
      split
      · exact speaksOf_pass _ _ _
      · exact speaksOf_expect _ _ _ _

theorem speaksOf_atOperator (purpose : Purpose) (blocks : List Block) :
    (atOperator purpose blocks token).SpeaksOf token := by
  unfold atOperator
  split
  case h_5 => exact speaksOf_closeExpression blocks purpose
  all_goals exact speaksOf_pass _ _ _

theorem speaksOf_atPrintItem (blocks : List Block) :
    (atPrintItem blocks token).SpeaksOf token := by
  unfold atPrintItem
  split
  · exact speaksOf_pass _ _ _
  · exact speaksOf_after _ (speaksOf_atOperand .printed blocks)

theorem speaksOf_atStatement (blocks : List Block) (next : Kind) :
    (atStatement blocks token next).SpeaksOf token := by
  refine speaksOf_after _ ?_
  split
  case h_8 => exact speaksOf_refuse ⟨rfl, rfl⟩
  all_goals exact speaksOf_pass _ _ _

theorem speaksOf_atLine (blocks : List Block) (next : Kind) :
    (atLine blocks token next).SpeaksOf token := by
  unfold atLine
  split
  · exact speaksOf_pass _ _ _
  · split
    · split
      · intro cause refused
        cases refused
      · exact speaksOf_atStatement [] next
    · split
      · exact speaksOf_pass _ _ _
      · split
        · next ended => exact speaksOf_refuse ended.symm
        · exact speaksOf_atStatement _ next

/-- The refusal of a token speaks of the token. -/
theorem speaksOf_move (place : Place) (blocks : List Block) (next : Kind) :
    (place.move blocks token next).SpeaksOf token := by
  cases place with
  | line => exact speaksOf_atLine blocks next
  | printItem => exact speaksOf_atPrintItem blocks
  | operand purpose => exact speaksOf_atOperand purpose blocks
  | primary purpose => exact speaksOf_atPrimary purpose blocks
  | operator purpose => exact speaksOf_atOperator purpose blocks
  | labelName | gotoName | letName | letSign _ | inputName | lineEnd | leadEnd _ =>
      exact speaksOf_expect _ _ _ _
  | bodyStart block =>
      simp only [move, atBodyStart]
      split
      · exact speaksOf_pass _ _ _
      · exact speaksOf_after _ (speaksOf_atLine (block :: blocks) next)

end Place

/-! ## Walks -/

namespace Place

/-- What a token calls for names that token and points at it, and the token is an identifier
then. -/
theorem ident_of_mem_move {place : Place} {blocks : List Block} {token : Token} {next : Kind}
    {action : Action} {name : String} {loc : Nat}
    (member : action ∈ (place.move blocks token next).now ++ (place.move blocks token next).owed)
    (about : action.named? = some (name, loc)) :
    token.kind = .ident ∧ name = token.text ∧ loc = token.loc := by
  refine ⟨?_, eq_of_mem_move about member⟩
  rcases List.mem_append.mp member with now | owed
  · have now := mayComeNow_of_mem now
    cases action with
    | use _ _ => exact beq_iff_eq.mp now
    | label _ _ | jump _ _ => cases now
    | note _ | head _ | write _ | declare _ | settle => cases about
  · have owed := mayBeOwed_of_mem owed
    cases action with
    | label _ _ | jump _ _ => exact beq_iff_eq.mp owed
    | use _ _ => cases owed
    | note _ | head _ | write _ | declare _ | settle => cases about

end Place

/-- What a walk calls for was owed before it or is called for by one of its tokens. -/
theorem exists_move_of_mem_walk {ending : Option Fault} {place : Place} {blocks : List Block}
    {owed : List Action} {tokens : List Token} {action : Action}
    (member : action ∈ (walk ending place blocks owed tokens).actions) :
    action ∈ owed ∨ ∃ token ∈ tokens, ∃ place' blocks' next,
      action ∈ (Place.move place' blocks' token next).now ++
        (Place.move place' blocks' token next).owed := by
  induction tokens generalizing place blocks owed with
  | nil => cases member
  | cons current tokens ih =>
      cases tokens with
      | nil => cases member
      | cons ahead tokens =>
          have here (done : action ∈ owed ++ (place.move blocks current ahead.kind).now) :
              action ∈ owed ∨ ∃ token ∈ current :: ahead :: tokens, ∃ place' blocks' next,
                action ∈ (Place.move place' blocks' token next).now ++
                  (Place.move place' blocks' token next).owed := by
            rcases List.mem_append.mp done with before | now
            · exact .inl before
            · exact .inr ⟨current, List.mem_cons_self, place, blocks, ahead.kind,
                List.mem_append_left _ now⟩
          rw [walk] at member
          cases step : (place.move blocks current ahead.kind).step with
          | pass place' blocks' owed' =>
              simp only [step, Walk.after] at member
              rcases List.mem_append.mp member with done | later
              · exact here done
              · rcases ih later with owes | ⟨token, inside, found⟩
                · have owes : action ∈ (place.move blocks current ahead.kind).owed := by
                    rw [Move.owed, step]
                    exact owes
                  exact .inr ⟨current, List.mem_cons_self, place, blocks, ahead.kind,
                    List.mem_append_right _ owes⟩
                · exact .inr ⟨token, List.mem_cons_of_mem current inside, found⟩
          | refuse cause =>
              simp only [step] at member
              exact here member
          | finish =>
              simp only [step] at member
              exact here member

/-- A walk that is stopped by a token is stopped by a fault at that token, which speaks of it. -/
theorem exists_token_of_walk_fault {place : Place} {blocks : List Block} {owed : List Action}
    {tokens : List Token} {fault : Fault}
    (found : (walk none place blocks owed tokens).fault? = some fault) :
    ∃ token ∈ tokens, token.loc = fault.loc ∧ fault.cause.SpeaksOf token := by
  induction tokens generalizing place blocks owed with
  | nil => cases found
  | cons current tokens ih =>
      cases tokens with
      | nil => cases found
      | cons ahead tokens =>
          rw [walk] at found
          cases step : (place.move blocks current ahead.kind).step with
          | pass place' blocks' owed' =>
              simp only [step, Walk.after] at found
              obtain ⟨token, inside, speaks⟩ := ih found
              exact ⟨token, List.mem_cons_of_mem current inside, speaks⟩
          | refuse cause =>
              simp only [step] at found
              cases found
              exact ⟨current, List.mem_cons_self, rfl, place.speaksOf_move blocks _ _ step⟩
          | finish =>
              simp only [step] at found
              cases found

/-- The fault that stops the reader of these tokens points at one of them and speaks of it. -/
theorem Walk.exists_spoken_of_fault {tokens : List Token} {output : Output} {fault : Fault}
    (found : ((walk none .line [] prologue tokens).compile output).fault? = some fault) :
    ∃ token ∈ tokens, token.loc = fault.loc ∧ fault.cause.SpeaksOf token := by
  rw [Walk.compile, Draft.performAll_fault] at found
  rcases Option.or_eq_some_iff.mp found with broken | ⟨-, refused⟩
  · obtain ⟨name, about, points⟩ := Names.exists_named_of_fault broken
    rcases points with ⟨action, member, named⟩ | kept
    · rcases exists_move_of_mem_walk member with
        before | ⟨token, inside, place, blocks, next, calls⟩
      · -- Nothing that is done before the first line points anywhere.
        have nowhere : ∀ action ∈ prologue, action.named? = none := by decide
        cases (nowhere action before).symm.trans named
      · obtain ⟨ident, rfl, here⟩ := Place.ident_of_mem_move calls named
        exact ⟨token, inside, here.symm, Cause.speaksOf_of_subject ident about⟩
    · cases kept
  · exact exists_token_of_walk_fault refused

/-- A fault of grammar may point at any token, and a fault of meaning points at an identifier. -/
theorem Walk.exists_token_of_fault {tokens : List Token} {output : Output} {fault : Fault}
    (found : ((walk none .line [] prologue tokens).compile output).fault? = some fault) :
    ∃ token ∈ tokens, token.loc = fault.loc ∧
      (fault.cause.phase = .grammar ∨ fault.cause.phase = .meaning ∧ token.kind = .ident) := by
  obtain ⟨token, inside, loc, speaks⟩ := exists_spoken_of_fault found
  exact ⟨token, inside, loc, speaks.phase⟩

/-- The fault of a compilation is what stops the reader of its tokens, or else the fault of reading
that ends them. -/
theorem Compilation.fault_eq_or (source : String) (output : Output) :
    let supply := (Cursor.ofSource source).supply
    (ofSource source output).fault? =
      ((TeenyTiny.walk none .line [] prologue supply.lookahead).compile output).fault?.or
        supply.fault? := by
  intro supply
  have stopped := walk_fault_eq_stop none {} .line [] 0 prologue supply.lookahead (.inl rfl)
  rw [Option.or_none] at stopped
  rw [fault_eq_stop, Walk.compile, Draft.performAll_fault, Supply.stop?, ← stopped]

end TeenyTiny
