import TeenyTiny.Proofs.Continuation
import TeenyTiny.Proofs.Layout
import TeenyTiny.Proofs.ReadingAhead

/-!
# Later lines

A fault of a source is reported whatever lines follow the source, but for one exception: what cannot
be read at the very start of the next line is reported in place of a fault at the end of the last
line (`compile_more_lines`, `compile_hidden_by_next_line`).

The reason is when rules are checked. A label is set once its token has been passed, and every other
rule is checked while the token is the current one (`Place.timely_move`). So the fault that stops a
reader points at the current token or at a label just passed (`Blames`), and how far the reader got
can be told from the fault (`Blames.passed_eq_iff`). To pass on to the end of the last line, a
reader who looks one token ahead must have read the first token of the next line. Which token that
is does not matter (`stop_newline`), but without one the reader does not get there
(`stop_of_nothing`).

Jumps are settled at the end of the text, which moves when lines are added. Faults that are found
there are left out.
-/

set_option autoImplicit false

namespace TeenyTiny

/-! ## When rules are checked -/

/-- Whether an action may be called for at once at a token of a kind: C is written, the rules that
are entered are logged, a variable is looked up, and at the end of the text the jumps are
settled. -/
def Action.mayComeNow (kind : Kind) : Action → Bool
  | .write _ => true
  | .note record => record.level == .trace
  | .use _ _ => kind == .ident
  | .settle => kind == .eof
  | .head _ | .declare _ | .label _ _ | .jump _ _ => false

/-- Whether an action may be owed for a token of a kind: C is written, the rules that are entered
are logged, and a name is taken in. -/
def Action.mayBeOwed (kind : Kind) : Action → Bool
  | .write _ => true
  | .note record => record.level == .trace
  | .declare _ | .label _ _ | .jump _ _ => kind == .ident
  | .head _ | .use _ _ | .settle => false

namespace Names

/-- A rule is broken by one of the actions: by a label, a variable that is read, or the jumps. -/
theorem exists_action_of_fault {names : Names} {actions : List Action} {fault : Fault}
    (found : names.fault? actions = some fault) :
    (∃ name loc, .label name loc ∈ actions ∧ fault = ⟨.labelTaken name, loc⟩) ∨
      (∃ name loc, .use name loc ∈ actions ∧ fault = ⟨.unassigned name, loc⟩) ∨
      (.settle ∈ actions ∧ ∃ name, fault.cause = .labelMissing name) := by
  induction actions generalizing names with
  | nil => cases found
  | cons action actions ih =>
      rw [fault?] at found
      rcases Option.or_eq_some_iff.mp found with broken | ⟨-, found⟩
      · cases action with
        | label name loc =>
            have taken : names.hasLabel name = true ∧ ⟨.labelTaken name, loc⟩ = fault := by
              simpa [Action.fault?] using broken
            exact .inl ⟨name, loc, List.mem_cons_self, taken.2.symm⟩
        | use name loc =>
            have unset : names.hasVariable name = false ∧ ⟨.unassigned name, loc⟩ = fault := by
              simpa [Action.fault?] using broken
            exact .inr (.inl ⟨name, loc, List.mem_cons_self, unset.2.symm⟩)
        | settle =>
            obtain ⟨jump, -, rfl⟩ := Option.map_eq_some_iff.mp broken
            exact .inr (.inr ⟨List.mem_cons_self, jump.1, rfl⟩)
        | note _ | head _ | write _ | declare _ | jump _ _ => cases broken
      · rcases ih found with ⟨name, loc, member, same⟩ | ⟨name, loc, member, same⟩ |
          ⟨member, missing⟩
        · exact .inl ⟨name, loc, List.mem_cons_of_mem _ member, same⟩
        · exact .inr (.inl ⟨name, loc, List.mem_cons_of_mem _ member, same⟩)
        · exact .inr (.inr ⟨List.mem_cons_of_mem _ member, missing⟩)

end Names

namespace Move

/-- What is owed after a move. -/
def owed (move : Move) : List Action :=
  match move.step with
  | .pass _ _ owed => owed
  | _ => []

/-- Whether a move at a token of a kind does everything in time: names are looked up at once, and
taken in when the token has been passed. -/
def timely (kind : Kind) (move : Move) : Bool :=
  move.now.all (Action.mayComeNow kind) && move.owed.all (Action.mayBeOwed kind)

end Move

/-- The name that an action is about and the offset that it points at, if it points at one. -/
def Action.named? : Action → Option (String × Nat)
  | .label name loc | .jump name loc | .use name loc => some (name, loc)
  | _ => none

/-- What an occurrence calls for names its token and points at it. -/
theorem Occurrence.eq_of_mem_deeds {occurrence : Occurrence} {action : Action} {name : String}
    {loc : Nat} (about : action.named? = some (name, loc)) (member : action ∈ occurrence.deeds) :
    name = occurrence.token.text ∧ loc = occurrence.token.loc := by
  obtain ⟨token, role?⟩ := occurrence
  cases role? with
  | none => cases member
  | some role =>
      cases role with
      | target =>
          cases List.mem_singleton.mp member
          cases about
      | read | label | jump =>
          cases List.mem_singleton.mp member
          cases about
          exact ⟨rfl, rfl⟩

namespace Place

theorem timely_atLine (blocks : List Block) (token : Token) (next : Kind) :
    (atLine blocks token next).timely token.kind = true := by
  obtain ⟨kind, text, loc⟩ := token
  rcases blocks with _ | ⟨_ | _, blocks⟩ <;> cases kind <;> rfl

/-- A name is taken in when its token has been passed, and every rule but the one about labels is
checked at the token. -/
theorem timely_move (place : Place) (blocks : List Block) (token : Token) (next : Kind) :
    (place.move blocks token next).timely token.kind = true := by
  cases place with
  | line => exact timely_atLine blocks token next
  | bodyStart block =>
      have inside := timely_atLine (block :: blocks) token next
      by_cases newline : token.kind = .newline
      · simp [move, atBodyStart, newline, Move.pass, Move.timely, Move.owed]
      · simp only [move, atBodyStart, if_neg newline]
        exact inside
  | operator purpose =>
      obtain ⟨kind, text, loc⟩ := token
      rcases purpose with _ | _ | ⟨_ | _⟩ | ⟨_ | _⟩ <;> cases kind <;> rfl
  | _ =>
      obtain ⟨kind, text, loc⟩ := token
      cases kind <;> rfl

/-- Everything that a token calls for is one of few things. -/
theorem mayComeNow_of_mem {place : Place} {blocks : List Block} {token : Token} {next : Kind}
    {action : Action} (member : action ∈ (place.move blocks token next).now) :
    action.mayComeNow token.kind = true := by
  have timely := place.timely_move blocks token next
  rw [Move.timely, Bool.and_eq_true] at timely
  exact List.all_eq_true.mp timely.1 action member

theorem mayBeOwed_of_mem {place : Place} {blocks : List Block} {token : Token} {next : Kind}
    {action : Action} (member : action ∈ (place.move blocks token next).owed) :
    action.mayBeOwed token.kind = true := by
  have timely := place.timely_move blocks token next
  rw [Move.timely, Bool.and_eq_true] at timely
  exact List.all_eq_true.mp timely.2 action member

/-- The actions about names that a token calls for, now or later, are those of its role, unless the
jumps are settled. -/
theorem naming_move (place : Place) (blocks : List Block) (token : Token) (next : Kind) :
    let move := place.move blocks token next
    (move.now ++ move.owed).filter Action.naming = [.settle] ∨
      ∃ role?,
        (move.now ++ move.owed).filter Action.naming = (Occurrence.mk token role?).deeds := by
  intro move
  have fits : Fits (place.Remainder blocks) token move := place.fits_move blocks token next
  unfold Fits at fits
  unfold Move.owed
  cases step : move.step with
  | pass place' blocks' owed =>
      simp only [step] at fits
      obtain ⟨role?, deeds, -⟩ := fits
      exact .inr ⟨role?, deeds⟩
  | refuse cause =>
      simp only [step] at fits
      exact .inr ⟨none, by rw [List.append_nil]; exact fits.1⟩
  | finish =>
      simp only [step] at fits
      exact .inl (by rw [List.append_nil]; exact fits.1)

section Faults

variable {place : Place} {blocks : List Block} {token : Token} {next : Kind} {names : Names}
  {fault : Fault}

/-- What a token calls for names that token and points at it. -/
theorem eq_of_mem_move {action : Action} {name : String} {loc : Nat}
    (about : action.named? = some (name, loc))
    (member : action ∈ (place.move blocks token next).now ++ (place.move blocks token next).owed) :
    name = token.text ∧ loc = token.loc := by
  have named : action.naming = true := by
    cases action with
    | label _ _ | jump _ _ | use _ _ => rfl
    | note _ | head _ | write _ | declare _ | settle => cases about
  have inside := List.mem_filter.mpr ⟨member, named⟩
  rcases place.naming_move blocks token next with settled | ⟨role?, deeds⟩
  · rw [settled] at inside
    cases List.mem_singleton.mp inside
    cases about
  · rw [deeds] at inside
    exact Occurrence.eq_of_mem_deeds about inside

/-- A rule that is broken at a token is broken by that token, unless a jump lacks its label; it is
not the rule about labels. -/
theorem fault_of_now (broken : names.fault? (place.move blocks token next).now = some fault) :
    (fault.loc = token.loc ∧ ∀ name, fault.cause ≠ .labelTaken name) ∨
      ∃ name, fault.cause = .labelMissing name := by
  rcases Names.exists_action_of_fault broken with ⟨name, loc, member, -⟩ |
    ⟨name, loc, member, rfl⟩ | ⟨-, missing⟩
  · cases mayComeNow_of_mem member
  · exact .inl ⟨(eq_of_mem_move rfl (List.mem_append_left _ member)).2, nofun⟩
  · exact .inr missing

/-- A rule that is broken after a token has been passed is the rule about labels, and the token is
the label. -/
theorem fault_of_owed (broken : names.fault? (place.move blocks token next).owed = some fault) :
    token.kind = .ident ∧ fault = ⟨.labelTaken token.text, token.loc⟩ := by
  rcases Names.exists_action_of_fault broken with ⟨name, loc, member, rfl⟩ |
    ⟨name, loc, member, -⟩ | ⟨member, -⟩
  · obtain ⟨rfl, rfl⟩ := eq_of_mem_move rfl (List.mem_append_right _ member)
    have ident := mayBeOwed_of_mem member
    exact ⟨beq_iff_eq.mp ident, rfl⟩
  · cases mayBeOwed_of_mem member
  · cases mayBeOwed_of_mem member

end Faults

end Place

/-! ## Where reading stops -/

/-- A fault that stops a reader who has passed so many of these tokens. It points at the token that
comes next, or at a label that has just been passed, or at a jump without a label. -/
inductive Blames (tokens : List Token) : Nat → Fault → Prop where
  | current {index : Nat} {token : Token} {fault : Fault} : tokens[index]? = some token →
      fault.loc = token.loc → (∀ name, fault.cause ≠ .labelTaken name) → Blames tokens index fault
  | label {index : Nat} {token : Token} : tokens[index]? = some token → token.kind = .ident →
      Blames tokens (index + 1) ⟨.labelTaken token.text, token.loc⟩
  | jump {passed : Nat} {fault : Fault} {name : String} : fault.cause = .labelMissing name →
      Blames tokens passed fault

theorem Blames.cons {tokens : List Token} {passed : Nat} {fault : Fault}
    (blames : Blames tokens passed fault) (token : Token) :
    Blames (token :: tokens) (passed + 1) fault := by
  cases blames with
  | current here loc other => exact .current here loc other
  | label here ident => exact .label here ident
  | jump missing => exact .jump missing

/-- What stops a reader is what was owed before the first token, or one of the tokens. -/
theorem blames_of_stop {names : Names} {place : Place} {blocks : List Block} {passed : Nat}
    {owed : List Action} {tokens : List Token} {count : Nat} {fault : Fault}
    (stops : stop? names place blocks passed owed tokens = some (count, fault)) :
    (count = passed ∧ names.fault? owed = some fault) ∨
      ∃ further, count = passed + further ∧ Blames tokens further fault := by
  fun_induction stop? names place blocks passed owed tokens with
  | case1 names place blocks passed owed current ahead tokens move fault' broken =>
      cases stops
      rw [Names.fault_append] at broken
      rcases Option.or_eq_some_iff.mp broken with broken | ⟨-, broken⟩
      · exact .inl ⟨rfl, broken⟩
      · refine .inr ⟨0, rfl, ?_⟩
        rcases Place.fault_of_now broken with ⟨loc, other⟩ | ⟨name, missing⟩
        · exact .current rfl loc other
        · exact .jump missing
  | case2 names place blocks passed owed current ahead tokens move kept place' blocks' owed'
      step ih =>
      rcases ih stops with ⟨rfl, broken⟩ | ⟨further, rfl, blames⟩
      · have owes : move.owed = owed' := by rw [Move.owed, step]
        rw [← owes] at broken
        obtain ⟨ident, rfl⟩ := Place.fault_of_owed broken
        exact .inr ⟨1, rfl, .label rfl ident⟩
      · exact .inr ⟨further + 1, by omega, blames.cons current⟩
  | case3 names place blocks passed owed current ahead tokens move kept cause step =>
      cases stops
      have fits := place.fits_move blocks current ahead.kind
      unfold Place.Fits at fits
      simp only [move] at step
      simp only [step] at fits
      refine .inr ⟨0, rfl, .current rfl rfl ?_⟩
      rintro name rfl
      cases fits.2.1
  | case4 => cases stops
  | case5 => cases stops

/-- What stops the reader of a program is one of its tokens. -/
theorem blames_of_stop_from_start {tokens : List Token} {passed : Nat} {fault : Fault}
    (stops : stop? {} .line [] 0 prologue tokens = some (passed, fault)) :
    Blames tokens passed fault := by
  rcases blames_of_stop stops with ⟨-, broken⟩ | ⟨further, rfl, blames⟩
  · cases broken
  · rwa [Nat.zero_add]

/-- What follows the end of a line has no influence on whether a reader stops there. -/
theorem stop_newline {newline : Token} (ends : newline.kind = .newline) (ahead ahead' : Token)
    (names : Names) (place : Place) (blocks : List Block) (passed : Nat) (owed : List Action)
    (body : List Token) :
    stop? names place blocks passed owed (body ++ [newline, ahead]) =
      stop? names place blocks passed owed (body ++ [newline, ahead']) := by
  induction body generalizing names place blocks passed owed with
  | nil =>
      simp only [List.nil_append, stop?]
      rw [place.move_newline ends blocks ahead.kind ahead'.kind]
  | cons token body ih =>
      -- The next token is the same on both sides, whether it is the end of the line or not.
      cases body with
      | nil | cons _ _ =>
          simp only [List.cons_append, List.nil_append] at ih ⊢
          rw [stop?, stop?]
          simp only [ih]

/-! ## Where a reader stops if lines are added -/

namespace Supply

variable {supply later : Supply} {last : Token} (ending : supply.ending = .ok last)
include ending

theorem lookahead_followed :
    (supply.followed later).lookahead = supply.tokens ++ later.lookahead := by
  simp only [followed, ending]
  unfold lookahead
  cases later.ending with
  | ok _ => exact List.append_assoc _ _ _
  | error _ => rfl

theorem fault_followed : (supply.followed later).fault? = later.fault? := by
  simp only [followed, ending]
  rfl

end Supply

/-- Where a token can be read, a reader is given something. -/
theorem Cursor.exists_ahead {cursor after : Cursor} {token : Token}
    (found : cursor.next = (.ok token, after)) :
    ∃ others, cursor.supply.lookahead = token :: others := by
  by_cases ended : token.kind = .eof
  · exact ⟨[token], by rw [supply_of_end found ended]; rfl⟩
  · rw [supply_of_token found ended, Supply.lookahead_cons]
    exact ⟨_, rfl⟩

section LastLine

variable {body : List Token} {newline last : Token} {passed : Nat} {fault : Fault}
  (stops : stop? {} .line [] 0 prologue (body ++ [newline, last, last]) = some (passed, fault))
include stops

/-- A reader who stops before the end of the last line stops there whatever follows. -/
theorem stop_of_lt (inside : passed < body.length) (later : List Token) :
    stop? {} .line [] 0 prologue (body ++ [newline] ++ later) = some (passed, fault) := by
  have early : stop? {} .line [] 0 prologue (body ++ [newline]) = some (passed, fault) := by
    apply (stop_append [last, last]).mpr
    refine ⟨?_, ?_⟩
    · rw [List.append_assoc]
      exact stops
    · rw [List.length_append, List.length_singleton]
      omega
  exact ((stop_append later).mp early).1

/-- A reader who stops at the end of the last line, or before it, stops there if a token follows. -/
theorem stop_of_token (ends : newline.kind = .newline) (inside : passed ≤ body.length)
    (ahead : Token) (later : List Token) :
    stop? {} .line [] 0 prologue (body ++ [newline] ++ ahead :: later) = some (passed, fault) := by
  have early : stop? {} .line [] 0 prologue (body ++ [newline, last]) = some (passed, fault) := by
    apply (stop_append [last]).mpr
    refine ⟨?_, ?_⟩
    · rw [List.append_assoc]
      exact stops
    · simp only [List.length_append, List.length_cons, List.length_nil]
      omega
  rw [stop_newline ends last ahead] at early
  have shape : body ++ [newline] ++ ahead :: later = body ++ [newline, ahead] ++ later := by
    rw [List.append_assoc, List.append_assoc]
    rfl
  rw [shape]
  exact ((stop_append later).mp early).1

/-- A reader who would stop at the end of the last line does not get there if no token follows. -/
theorem stop_of_nothing (late : body.length ≤ passed) :
    stop? {} .line [] 0 prologue (body ++ [newline]) = none := by
  cases found : stop? {} .line [] 0 prologue (body ++ [newline]) with
  | none => rfl
  | some stop =>
      obtain ⟨again, near⟩ := (stop_append [last, last]).mp found
      rw [List.append_assoc] at again
      cases stops.symm.trans again
      rw [List.length_append, List.length_singleton] at near
      omega

end LastLine

/-! ## The end of the last line -/

/-- A fault at the end of a line, given the tokens before it and the end itself: it points at that
end, or it says of the name right before it that the label was set before. -/
def Fault.AtLineEnd (fault : Fault) (body : List Token) (newline : Token) : Prop :=
  fault.loc = newline.loc ∨ ∃ label ∈ body.getLast?, fault = ⟨.labelTaken label.text, label.loc⟩

/-- A fault at the end of the last line of a source. -/
def Fault.AtLastLineEnd (fault : Fault) (source : String) : Prop :=
  ∃ body newline last, (Cursor.ofSource source).Lexes (body ++ [newline, last]) ∧
    fault.AtLineEnd body newline

namespace Blames

variable {body tokens : List Token} {newline last : Token} {passed : Nat} {fault : Fault}

theorem exists_loc (blames : Blames tokens passed fault)
    (labelled : ∀ name, fault.cause ≠ .labelMissing name) :
    ∃ token ∈ tokens, fault.loc = token.loc := by
  cases blames with
  | current here loc _ => exact ⟨_, List.mem_of_getElem? here, loc⟩
  | label here _ => exact ⟨_, List.mem_of_getElem? here, rfl⟩
  | jump missing => exact absurd missing (labelled _)

/-- A fault before the end of a text is that of a token at the end of the last line or before it. -/
theorem of_before (blames : Blames (body ++ [newline, last, last]) passed fault)
    (ended : last.kind = .eof) (labelled : ∀ name, fault.cause ≠ .labelMissing name)
    (before : fault.loc ≠ last.loc) : Blames (body ++ [newline]) passed fault := by
  have split (index : Nat) (token : Token)
      (here : (body ++ [newline, last, last])[index]? = some token) :
      (body ++ [newline])[index]? = some token ∨ token = last := by
    have whole : body ++ [newline, last, last] = body ++ [newline] ++ [last, last] := by simp
    rw [whole] at here
    by_cases inside : index < (body ++ [newline]).length
    · rw [List.getElem?_append_left inside] at here
      exact .inl here
    · rw [List.getElem?_append_right (by omega)] at here
      have member := List.mem_of_getElem? here
      simp only [List.mem_cons, List.not_mem_nil, or_false, or_self] at member
      exact .inr member
  cases blames with
  | current here loc other =>
      rcases split _ _ here with here | rfl
      · exact .current here loc other
      · exact absurd loc before
  | label here ident =>
      rcases split _ _ here with here | rfl
      · exact .label here ident
      · rw [ended] at ident
        cases ident
  | jump missing => exact absurd missing (labelled _)

/-- How far a reader got who stops at the end of the last line, or before it, can be told from the
fault. -/
theorem passed_eq_iff (blames : Blames (body ++ [newline]) passed fault)
    (ends : newline.kind = .newline) (labelled : ∀ name, fault.cause ≠ .labelMissing name)
    (sorted : (body ++ [newline]).Pairwise (·.loc < ·.loc)) :
    passed ≤ body.length ∧ (passed = body.length ↔ fault.AtLineEnd body newline) := by
  have split {index : Nat} {token : Token} (here : (body ++ [newline])[index]? = some token) :
      (index < body.length ∧ body[index]? = some token) ∨
        (index = body.length ∧ token = newline) := by
    by_cases inside : index < body.length
    · rw [List.getElem?_append_left inside] at here
      exact .inl ⟨inside, here⟩
    · rw [List.getElem?_append_right (by omega), List.getElem?_singleton] at here
      split at here
      · exact .inr ⟨by omega, (Option.some.inj here).symm⟩
      · cases here
  obtain ⟨ordered, -, earlier⟩ := List.pairwise_append.mp sorted
  have before {index : Nat} {token : Token} (here : body[index]? = some token) :
      token.loc < newline.loc :=
    earlier token (List.mem_of_getElem? here) newline (List.mem_singleton_self newline)
  cases blames with
  | @current _ token _ here loc other =>
      rcases split here with ⟨inside, here⟩ | ⟨rfl, rfl⟩
      · have := before here
        refine ⟨by omega, by omega, ?_⟩
        rintro (same | ⟨label, -, rfl⟩)
        · omega
        · exact absurd rfl (other label.text)
      · exact ⟨Nat.le_refl _, fun _ => .inl loc, fun _ => rfl⟩
  | @label index token here ident =>
      rcases split here with ⟨inside, here⟩ | ⟨-, rfl⟩
      · refine ⟨inside, ?_, ?_⟩
        · intro all
          refine .inr ⟨token, ?_, rfl⟩
          rw [List.getLast?_eq_getElem?, ← all]
          exact here
        · rintro (same | ⟨label, final, same⟩)
          · have := before here
            have : token.loc = newline.loc := same
            omega
          · rw [List.getLast?_eq_getElem?] at final
            have loc : token.loc = label.loc := congrArg Fault.loc same
            have increasing := List.pairwise_iff_getElem.mp ordered
            obtain ⟨first, rfl⟩ := List.getElem?_eq_some_iff.mp here
            obtain ⟨second, rfl⟩ := List.getElem?_eq_some_iff.mp final
            by_cases further : index < body.length - 1
            · have := increasing index (body.length - 1) first second further
              omega
            · omega
      · rw [ends] at ident
        cases ident
  | jump missing => exact absurd missing (labelled _)

end Blames

/-! ## Compiling with more lines -/

theorem Cursor.Lexes.unique {cursor : Cursor} {tokens tokens' : List Token}
    (lexes : cursor.Lexes tokens) (lexes' : cursor.Lexes tokens') : tokens = tokens' := by
  obtain ⟨last, ending, rfl⟩ := lexes_iff_supply.mp lexes
  obtain ⟨last', ending', rfl⟩ := lexes_iff_supply.mp lexes'
  cases ending.symm.trans ending'
  rfl

/-- A source can be read to the end of its last line, or there is a fault of reading. -/
theorem Cursor.exists_last_line (source : String) :
    (∃ body newline last, (ofSource source).Lexes (body ++ [newline, last])) ∨
      ∃ offence, (ofSource source).supply.ending = .error offence := by
  cases ending : (ofSource source).supply.ending with
  | error offence => exact .inr ⟨offence, rfl⟩
  | ok last =>
      have lexes := lexes_iff_supply.mpr ⟨last, ending, rfl⟩
      obtain ⟨body, loc, same, -⟩ := lexes.exists_ending (Lexeme.lined_concat source.toList)
        (List.concat_ne_nil '\n' source.toList)
      rw [same] at lexes
      exact .inl ⟨body, _, _, lexes⟩

namespace Compilation

variable {source : String} {output : Output} {fault : Fault}

/-- A fault that is reported lies within the text, unless a jump lacks its label. -/
theorem loc_le (found : (ofSource source output).fault? = some fault)
    (labelled : ∀ name, fault.cause ≠ .labelMissing name) :
    fault.loc ≤ byteLength (sourceText source) := by
  obtain ⟨tokens, ending⟩ := (Cursor.ofSource source).loc_le_of_supply
  rw [Cursor.ofSource, Nat.zero_add] at tokens ending
  rw [fault_eq_stop] at found
  rcases Option.or_eq_some_iff.mp found with stopped | ⟨-, unread⟩
  · obtain ⟨⟨passed, _⟩, stops, rfl⟩ := Option.map_eq_some_iff.mp stopped
    obtain ⟨token, member, loc⟩ := (blames_of_stop_from_start stops).exists_loc labelled
    rw [loc]
    exact tokens token member
  · apply ending
    exact Supply.ending_of_fault unread

/-- A source that cannot be read to its end fails alike whatever follows it. -/
theorem fault_append_of_unread {offence : Fault}
    (unread : (Cursor.ofSource source).supply.ending = .error offence) (more : String) :
    (ofSource (source ++ "\n" ++ more) output).fault? = (ofSource source output).fault? := by
  have same : (Cursor.ofSource (source ++ "\n" ++ more)).supply =
      (Cursor.ofSource source).supply := by
    rw [Cursor.supply_append, Supply.followed, unread]
  rw [fault_eq_stop, fault_eq_stop, same]

section Read

variable {body : List Token} {newline last : Token}
  (lexes : (Cursor.ofSource source).Lexes (body ++ [newline, last]))
include lexes

/-- A reader who has read a source to its end goes on with the lines that follow it. -/
theorem fault_append_of_lexes (more : String) :
    (ofSource (source ++ "\n" ++ more) output).fault? =
      ((stop? {} .line [] 0 prologue
        (body ++ [newline] ++ (Cursor.behind source more).supply.lookahead)).map Prod.snd).or
          (Cursor.behind source more).supply.fault? := by
  have whole : body ++ [newline, last] = body ++ [newline] ++ [last] := by simp
  rw [whole] at lexes
  have ending : (Cursor.ofSource source).supply.ending = .ok last := by rw [lexes.supply_eq]
  rw [fault_eq_stop, Cursor.supply_append, Supply.stop?, Supply.lookahead_followed ending,
    Supply.fault_followed ending, lexes.supply_eq]

/-- How far the reader of a source without faults of reading gets, by the fault that is reported. -/
theorem exists_stop (found : (ofSource source output).fault? = some fault)
    (labelled : ∀ name, fault.cause ≠ .labelMissing name) (before : fault.loc ≠ last.loc) :
    newline.kind = .newline ∧
    ∃ passed, stop? {} .line [] 0 prologue (body ++ [newline, last, last]) = some (passed, fault) ∧
      passed ≤ body.length ∧ (passed = body.length ↔ fault.AtLineEnd body newline) := by
  have lined : Lexeme.Lined (Cursor.ofSource source).rest := Lexeme.lined_concat source.toList
  have whole : body ++ [newline, last] = body ++ [newline] ++ [last] := by simp
  have ends : newline.kind = .newline := by
    have nonempty : (Cursor.ofSource source).rest ≠ [] := List.concat_ne_nil '\n' source.toList
    obtain ⟨body', loc, same, -⟩ := lexes.exists_ending lined nonempty
    rw [(List.cons.inj (List.append_inj' same rfl).2).1]
  have sorted := lexes.pairwise_loc lined
  rw [whole] at lexes sorted
  rw [fault_eq_stop, lexes.supply_eq, Supply.fault?, Option.or_none] at found
  obtain ⟨⟨passed, fault'⟩, stops, same⟩ := Option.map_eq_some_iff.mp found
  obtain rfl : fault' = fault := same
  have lookahead : Supply.lookahead ⟨body ++ [newline], .ok last⟩ =
      body ++ [newline, last, last] := List.append_assoc body [newline] [last, last]
  rw [Supply.stop?, lookahead] at stops
  have blames := (blames_of_stop_from_start stops).of_before lexes.ends.1 labelled before
  have ordered := List.Pairwise.sublist (List.sublist_append_left _ [last]) sorted
  exact ⟨ends, passed, stops, blames.passed_eq_iff ends labelled ordered⟩

end Read

end Compilation

/-- The first fault of a source is reported whatever lines follow it, with one exception. Take a
source that fails, not for a jump without a label and not at the end of its text. If the next line
starts with a token, or if the fault is not at the end of the last line, the same is reported for
the source with more lines. If the fault is at the end of the last line and the next line starts
with what cannot be read, that is reported in its place. -/
theorem compile_more_lines {source : String} {diagnostic : Diagnostic}
    (failed : compile source = .error diagnostic)
    (labelled : ∀ name loc,
      diagnostic ≠ Fault.diagnose ⟨.labelMissing name, loc⟩ (sourceText source))
    (before : ∀ body last, (Cursor.ofSource source).Lexes (body ++ [last]) →
      diagnostic.position ≠ Position.ofOffset (sourceText source) last.loc) (more : String) :
    ∃ fault, (Compilation.ofSource source {}).fault? = some fault ∧
      diagnostic = fault.diagnose (sourceText source) ∧
      ((∃ token after, (Cursor.behind source more).next = (.ok token, after)) ∨
          ¬ fault.AtLastLineEnd source →
        compile (source ++ "\n" ++ more) = .error diagnostic) ∧
      ∀ offence after, (Cursor.behind source more).next = (.error offence, after) →
        fault.AtLastLineEnd source →
          compile (source ++ "\n" ++ more) =
            .error (offence.diagnose (sourceText (source ++ "\n" ++ more))) := by
  obtain ⟨fault, found, rfl⟩ := compile_eq_error_iff.mp failed
  have labelled : ∀ name, fault.cause ≠ .labelMissing name := by
    intro name missing
    apply labelled name fault.loc
    rw [← missing]
  have kept (same : (Compilation.ofSource (source ++ "\n" ++ more) {}).fault? = some fault) :
      compile (source ++ "\n" ++ more) = .error (fault.diagnose (sourceText source)) := by
    refine compile_eq_error_iff.mpr ⟨fault, same, ?_⟩
    rw [sourceText_append, Fault.diagnose_append (Compilation.loc_le found labelled)]
  have inside {body : List Token} {newline last : Token}
      (lexes : (Cursor.ofSource source).Lexes (body ++ [newline, last])) :
      fault.loc ≠ last.loc := by
    intro same
    apply before (body ++ [newline]) last (by simpa using lexes)
    rw [← same]
    rfl
  refine ⟨fault, found, rfl, ?_, ?_⟩
  · intro visible
    apply kept
    rcases Cursor.exists_last_line source with ⟨body, newline, last, lexes⟩ | ⟨offence, unread⟩
    · obtain ⟨ends, passed, stops, near, late⟩ :=
        Compilation.exists_stop lexes found labelled (inside lexes)
      have stays : stop? {} .line [] 0 prologue
          (body ++ [newline] ++ (Cursor.behind source more).supply.lookahead) =
            some (passed, fault) := by
        rcases visible with ⟨token, after, readable⟩ | early
        · obtain ⟨others, ahead⟩ := Cursor.exists_ahead readable
          rw [ahead]
          exact stop_of_token stops ends near token others
        · have : passed ≠ body.length := fun all =>
            early ⟨body, newline, last, lexes, late.mp all⟩
          exact stop_of_lt stops (by omega) _
      rw [Compilation.fault_append_of_lexes lexes, stays]
      rfl
    · rw [Compilation.fault_append_of_unread unread, found]
  · rintro offence after unreadable ⟨body, newline, last, lexes, late⟩
    obtain ⟨-, passed, stops, -, ends⟩ :=
      Compilation.exists_stop lexes found labelled (inside lexes)
    have hidden := stop_of_nothing stops (Nat.le_of_eq (ends.mpr late).symm)
    refine compile_eq_error_iff.mpr ⟨offence, ?_, rfl⟩
    rw [Compilation.fault_append_of_lexes lexes, Cursor.supply_of_fault unreadable,
      Supply.lookahead, List.append_nil, hidden]
    rfl

/-- A variable without a value is reported even if the next line starts with what cannot be read. -/
theorem compile_more_lines_after_variable :
    let diagnostic : Diagnostic := ⟨.meaning, ⟨1, 7⟩, "referencing variable before assignment: x"⟩
    compile "PRINT x" = .error diagnostic ∧
      compile ("PRINT x" ++ "\n" ++ "!") = .error diagnostic := by
  intro diagnostic
  have lexes : (Cursor.ofSource "PRINT x").Lexes
      [⟨.printWord, "PRINT", 0⟩, ⟨.ident, "x", 6⟩, ⟨.newline, "\n", 7⟩, ⟨.eof, "", 8⟩] :=
    .read (by rfl) (by decide) (.read (by rfl) (by decide) (.read (by rfl) (by decide)
      (.finish (by rfl) rfl)))
  have reported : (Compilation.ofSource "PRINT x" {}).fault? = some ⟨.unassigned "x", 6⟩ := by
    have supply : (Cursor.ofSource "PRINT x").supply =
        ⟨[⟨.printWord, "PRINT", 0⟩, ⟨.ident, "x", 6⟩, ⟨.newline, "\n", 7⟩], .ok ⟨.eof, "", 8⟩⟩ :=
      Cursor.Lexes.supply_eq lexes
    rw [Compilation.ofSource, Cursor.compile, supply]
    rfl
  have shown : diagnostic = Fault.diagnose ⟨.unassigned "x", 6⟩ (sourceText "PRINT x") := by rfl
  have failed : compile "PRINT x" = .error diagnostic :=
    compile_eq_error_iff.mpr ⟨_, reported, shown⟩
  have labelled : ∀ name loc,
      diagnostic ≠ Fault.diagnose ⟨.labelMissing name, loc⟩ (sourceText "PRINT x") := by
    intro name loc same
    obtain ⟨_, missing⟩ := Fault.labelMissing_of_diagnose (shown.symm.trans same)
    cases missing
  have before : ∀ body last, (Cursor.ofSource "PRINT x").Lexes (body ++ [last]) →
      diagnostic.position ≠ Position.ofOffset (sourceText "PRINT x") last.loc := by
    intro body last lexes'
    have same : body ++ [last] = [_, _, _] ++ [_] := lexes'.unique lexes
    cases (List.append_inj' same rfl).2
    decide
  obtain ⟨fault, found, -, kept, -⟩ := compile_more_lines failed labelled before "!"
  cases reported.symm.trans found
  refine ⟨failed, kept (.inr ?_)⟩
  rintro ⟨body, newline, last, lexes', late | ⟨label, -, taken⟩⟩
  · have same : body ++ [newline, last] = [_, _] ++ [_, _] := lexes'.unique lexes
    cases (List.append_inj' same rfl).2
    cases late
  · cases taken

/-- What cannot be read at the start of the next line hides a fault at the end of the last line: a
line that ends too early, and a label that is set again. -/
theorem compile_hidden_by_next_line :
    (compile "PRINT" = .error ⟨.grammar, ⟨1, 6⟩, "unexpected token at end of line"⟩ ∧
      compile ("PRINT" ++ "\n" ++ "!") = .error ⟨.lexing, ⟨2, 1⟩, "expected !=, got !"⟩) ∧
    compile "LABEL a\nLABEL a" = .error ⟨.meaning, ⟨2, 7⟩, "label already exists: a"⟩ ∧
      compile ("LABEL a\nLABEL a" ++ "\n" ++ "!") =
        .error ⟨.lexing, ⟨3, 1⟩, "expected !=, got !"⟩ := by
  have unread (fault : Fault) (last : Token) (impossible : Except.error fault = .ok last) :
      last.kind = .eof := by
    cases impossible
  have ended (loc : Nat) (last : Token)
      (same : (.ok ⟨.eof, "", loc⟩ : Except Fault Token) = .ok last) : last.kind = .eof := by
    cases same
    rfl
  refine ⟨⟨?_, ?_⟩, ?_, ?_⟩
  · have supply : (Cursor.ofSource "PRINT").supply =
        ⟨[⟨.printWord, "PRINT", 0⟩, ⟨.newline, "\n", 5⟩], .ok ⟨.eof, "", 6⟩⟩ :=
      Cursor.supply_of_take (by rfl) (by decide) (ended _)
    rw [compile, Compilation.ofSource, Cursor.compile, supply]
    rfl
  · have supply : (Cursor.ofSource ("PRINT" ++ "\n" ++ "!")).supply =
        ⟨[⟨.printWord, "PRINT", 0⟩, ⟨.newline, "\n", 5⟩], .error ⟨.loneBang none, 6⟩⟩ :=
      Cursor.supply_of_take (by rfl) (by decide) (unread _)
    rw [compile, Compilation.ofSource, Cursor.compile, supply]
    rfl
  · have supply : (Cursor.ofSource "LABEL a\nLABEL a").supply =
        ⟨[⟨.labelWord, "LABEL", 0⟩, ⟨.ident, "a", 6⟩, ⟨.newline, "\n", 7⟩,
          ⟨.labelWord, "LABEL", 8⟩, ⟨.ident, "a", 14⟩, ⟨.newline, "\n", 15⟩],
            .ok ⟨.eof, "", 16⟩⟩ :=
      Cursor.supply_of_take (by rfl) (by decide) (ended _)
    rw [compile, Compilation.ofSource, Cursor.compile, supply]
    rfl
  · have supply : (Cursor.ofSource ("LABEL a\nLABEL a" ++ "\n" ++ "!")).supply =
        ⟨[⟨.labelWord, "LABEL", 0⟩, ⟨.ident, "a", 6⟩, ⟨.newline, "\n", 7⟩,
          ⟨.labelWord, "LABEL", 8⟩, ⟨.ident, "a", 14⟩, ⟨.newline, "\n", 15⟩],
            .error ⟨.loneBang none, 16⟩⟩ :=
      Cursor.supply_of_take (by rfl) (by decide) (unread _)
    rw [compile, Compilation.ofSource, Cursor.compile, supply]
    rfl

end TeenyTiny
