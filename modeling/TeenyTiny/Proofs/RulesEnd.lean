import TeenyTiny.Proofs.Descent
import TeenyTiny.Proofs.Progress

/-!
# Every rule ends

A rule that gets through has passed some tokens, none of which is the end of the text, and there is
less to read for each of them (`Parser.Passes`). A rule that meets a fault has tried to pass some
such tokens (`Parser.Tries`). `Descent.Ends` says that one of the two happens, so that there is a
result. It is carried along rules that follow one another (`Descent.Ends.bind`).

A loop ends if something is passed each time round (`Descent.ends_repeatWhile`), and every part of
an expression passes something (`Descent.Consumes`). A statement passes its keyword, something
behind it and the end of a line (`Descent.ends_statementBy`). So there is less to read behind it,
and a block ends, in which statements follow one another and other blocks stand
(`Descent.ends_block`).
-/

set_option autoImplicit false

namespace TeenyTiny

theorem Block.lead_ne_eof (block : Block) : block.lead ≠ .eof := by
  cases block <;> decide

theorem Block.closer_ne_eof (block : Block) : block.closer ≠ .eof := by
  cases block <;> decide

/-! ## Passing tokens -/

namespace Parser

variable {parser after last : Parser} {made later : List Token}

/-- A token other than the end of the text takes at least a byte. -/
theorem unread_of_next {cursor : Cursor} {token : Token} (found : cursor.next.1 = .ok token) :
    [token].countP (·.kind != .eof) + byteLength cursor.next.2.rest ≤ byteLength cursor.rest := by
  obtain ⟨passed, whole, -⟩ := cursor.exists_passed
  have bytes := congrArg byteLength whole
  rw [byteLength_append] at bytes
  by_cases ended : token.kind = .eof
  · simp only [List.countP_singleton, ended, bne_self_eq_false, Bool.false_eq_true, if_false]
    omega
  · have fewer := Cursor.length_next_lt (Prod.ext found rfl) ended
    have nonempty : passed ≠ [] := by
      rintro rfl
      rw [whole, List.nil_append] at fewer
      exact Nat.lt_irrefl _ fewer
    have := byteLength_pos nonempty
    have := List.countP_le_length (p := (·.kind != Kind.eof)) (l := [token])
    simp only [List.length_singleton] at this
    omega

/-- Some tokens were to be passed, and none of them was the end of the text. One token was to be
read ahead for each. -/
structure Tries (parser : Parser) (made : List Token) (after : Parser) : Prop where
  tried : after.tried = parser.tried ++ made
  calls : after.calls = parser.calls + made.length
  cursor : after.cursor = (parser.cursor.take made.length).2
  more : ∀ token ∈ made, token.kind ≠ .eof

theorem Tries.trans (first : parser.Tries made after) (second : after.Tries later last) :
    parser.Tries (made ++ later) last where
  tried := by rw [second.tried, first.tried, List.append_assoc]
  calls := by rw [second.calls, first.calls, List.length_append, Nat.add_assoc]
  cursor := by rw [second.cursor, first.cursor, List.length_append, Cursor.take_add]
  more token member := (List.mem_append.mp member).elim (first.more token) (second.more token)

/-- The tokens that were to be passed have been passed. -/
structure Passes (parser : Parser) (made : List Token) (after : Parser) : Prop extends
    Tries parser made after where
  passed : after.passed = parser.passed ++ made
  /-- There is less to read for each of them. -/
  size : after.size + made.length ≤ parser.size
  /-- What was read ahead for them follows what was seen before. -/
  readings : ∃ taken : List Token, (parser.cursor.take made.length).1 = taken.map .ok ∧
    parser.current :: parser.ahead :: taken = made ++ [after.current, after.ahead]

/-- Drafting passes no token. -/
theorem Passes.draft (parser : Parser) (draft : Draft) :
    parser.Passes [] { parser with draft } where
  tried := (List.append_nil _).symm
  calls := rfl
  cursor := rfl
  more _ impossible := absurd impossible List.not_mem_nil
  passed := (List.append_nil _).symm
  size := Nat.le_refl _
  readings := ⟨[], rfl, rfl⟩

theorem Passes.trans (first : parser.Passes made after) (second : after.Passes later last) :
    parser.Passes (made ++ later) last where
  toTries := first.toTries.trans second.toTries
  passed := by rw [second.passed, first.passed, List.append_assoc]
  size := by
    have := first.size
    have := second.size
    rw [List.length_append]
    omega
  readings := by
    obtain ⟨taken, readings, seen⟩ := first.readings
    obtain ⟨taken', readings', seen'⟩ := second.readings
    refine ⟨taken ++ taken', ?_, ?_⟩
    · rw [List.length_append, Cursor.take_add, readings, ← first.cursor, readings', List.map_append]
    · calc
        parser.current :: parser.ahead :: (taken ++ taken') =
            (parser.current :: parser.ahead :: taken) ++ taken' := rfl
        _ = made ++ (after.current :: after.ahead :: taken') := by
          rw [seen, List.append_assoc]
          rfl
        _ = made ++ later ++ [last.current, last.ahead] := by rw [seen', List.append_assoc]

/-- Where something has been passed there is less to read. -/
theorem Passes.size_lt (passes : parser.Passes made after) (nonempty : made ≠ []) :
    after.size < parser.size := by
  have := passes.size
  have := List.length_pos_iff.mpr nonempty
  omega

end Parser

namespace Descent

variable {α β : Type} {parser : Parser}

/-! ## Rules one after the other -/

theorem bind_apply (first : Descent α) (second : α → Descent β) (parser : Parser) :
    (first >>= second) parser =
      match first parser with
      | none => none
      | some (.error fault, after) => some (.error fault, after)
      | some (.ok value, after) => second value after := by
  simp only [bind, ExceptT.bind, ExceptT.mk, StateT.bind]
  rcases first parser with _ | ⟨_ | value, after⟩
  · rfl
  · rfl
  · rfl

/-- A rule ends: it gets through, with something to be said of its value, of the tokens that it has
passed and of the parser it leaves, or it meets a fault. It never tries to pass the end of the
text. -/
def Ends (rule : Descent α) (parser : Parser) (holds : α → List Token → Parser → Prop) : Prop :=
  (∃ value made after, rule parser = some (.ok value, after) ∧ parser.Passes made after ∧
    holds value made after) ∨
  ∃ fault made after, rule parser = some (.error fault, after) ∧ parser.Tries made after

theorem Ends.imp {rule : Descent α} {holds holds' : α → List Token → Parser → Prop}
    (ends : Ends rule parser holds)
    (weaken : ∀ value made after, parser.Passes made after → holds value made after →
      holds' value made after) : Ends rule parser holds' := by
  rcases ends with ⟨value, made, after, result, passes, held⟩ | fault
  · exact .inl ⟨value, made, after, result, passes, weaken value made after passes held⟩
  · exact .inr fault

/-- What is to be said where a rule gets through. -/
theorem Ends.of_ok {rule : Descent α} {holds : α → List Token → Parser → Prop} {value : α}
    {after : Parser} (ends : Ends rule parser holds)
    (result : rule parser = some (.ok value, after)) :
    ∃ made, parser.Passes made after ∧ holds value made after := by
  rcases ends with ⟨value', made, after', result', passes, held⟩ | ⟨fault, made, after', result', -⟩
  · cases result.symm.trans result'
    exact ⟨made, passes, held⟩
  · cases result.symm.trans result'

theorem Ends.exists_tries {rule : Descent α} {holds : α → List Token → Parser → Prop}
    (ends : Ends rule parser holds) :
    ∃ result made after, rule parser = some (result, after) ∧ parser.Tries made after := by
  rcases ends with ⟨value, made, after, result, passes, -⟩ | ⟨fault, made, after, result, tries⟩
  · exact ⟨.ok value, made, after, result, passes.toTries⟩
  · exact ⟨.error fault, made, after, result, tries⟩

/-- One rule ends and then another. -/
theorem Ends.bind {first : Descent α} {second : α → Descent β}
    {holds : α → List Token → Parser → Prop} {holds' : β → List Token → Parser → Prop}
    (ends : Ends first parser holds)
    (follows : ∀ value made after, parser.Passes made after → holds value made after →
      Ends (second value) after fun value' later => holds' value' (made ++ later)) :
    Ends (first >>= second) parser holds' := by
  rw [Ends]
  rcases ends with ⟨value, made, after, result, passes, held⟩ | ⟨fault, made, after, result, tries⟩
  · rcases follows value made after passes held with
      ⟨value', later, last, result', passes', held'⟩ | ⟨fault, later, last, result', tries⟩
    · refine .inl ⟨value', made ++ later, last, ?_, passes.trans passes', held'⟩
      rw [bind_apply, result]
      exact result'
    · refine .inr ⟨fault, made ++ later, last, ?_, passes.toTries.trans tries⟩
      rw [bind_apply, result]
      exact result'
  · refine .inr ⟨fault, made, after, ?_, tries⟩
    rw [bind_apply, result]

variable {holds : α → List Token → Parser → Prop}

theorem ends_pure {value : α} (held : holds value [] parser) : Ends (pure value) parser holds :=
  .inl ⟨value, [], parser, rfl, .draft parser parser.draft, held⟩

theorem ends_refuse (cause : Cause) : Ends (refuse cause) parser holds :=
  .inr ⟨⟨cause, parser.current.loc⟩, [], parser, rfl,
    (Parser.Passes.draft parser parser.draft).toTries⟩

theorem Ends.get_bind {second : Parser → Descent α} (ends : Ends (second parser) parser holds) :
    Ends (get >>= second) parser holds :=
  ends

theorem Ends.current_bind {second : Token → Descent α}
    (ends : Ends (second parser.current) parser holds) : Ends (current >>= second) parser holds :=
  ends

/-- Actions leave the tokens alone. -/
theorem ends_act (actions : List Action) :
    Ends (act actions) parser fun _ made after =>
      made = [] ∧ ∃ draft, after = { parser with draft } := by
  rw [Ends, act]
  rcases parser.draft.performAll actions with ⟨draft, _ | fault⟩
  · exact .inl ⟨(), [], _, rfl, .draft parser draft, rfl, draft, rfl⟩
  · exact .inr ⟨fault, [], _, rfl, (Parser.Passes.draft parser draft).toTries⟩

theorem Ends.act_bind {actions : List Action} {second : Unit → Descent α}
    (follows : ∀ draft, Ends (second ()) { parser with draft } holds) :
    Ends (act actions >>= second) parser holds := by
  refine (ends_act actions).bind ?_
  rintro ⟨⟩ _ _ - ⟨rfl, draft, rfl⟩
  exact follows draft

theorem ends_pass (more : parser.current.kind ≠ .eof) :
    Ends pass parser fun token made _ => made = [parser.current] ∧ token = parser.current := by
  have inside : ∀ token ∈ [parser.current], token.kind ≠ .eof := by
    intro token member
    rw [List.mem_singleton.mp member]
    exact more
  rw [Ends, pass]
  cases found : parser.cursor.next.1 with
  | error fault => exact .inr ⟨fault, [parser.current], _, rfl, rfl, rfl, rfl, inside⟩
  | ok token =>
      refine .inl ⟨_, _, _, rfl, ⟨⟨rfl, rfl, rfl, inside⟩, rfl, ?_, [token], ?_, rfl⟩, rfl, rfl⟩
      · have bytes := Parser.unread_of_next found
        simp only [Parser.size, List.countP_cons, List.countP_nil, bne_iff_ne, more, ne_eq,
          not_false_eq_true, if_true, List.length_singleton] at bytes ⊢
        omega
      · rw [List.length_singleton, Cursor.take, found]
        rfl

theorem Ends.pass_bind {second : Token → Descent α} (more : parser.current.kind ≠ .eof)
    (follows : ∀ after, parser.Passes [parser.current] after →
      Ends (second parser.current) after fun value later =>
        holds value (parser.current :: later)) :
    Ends (pass >>= second) parser holds := by
  refine (ends_pass more).bind ?_
  rintro _ _ after passes ⟨rfl, rfl⟩
  exact follows after passes

theorem ends_expect {wanted : Kind} (other : wanted ≠ .eof) :
    Ends (expect wanted) parser fun token made _ =>
      made = [parser.current] ∧ token = parser.current ∧ parser.current.kind = wanted := by
  refine .current_bind ?_
  split
  · next fits =>
      refine (ends_pass (by rwa [fits])).imp ?_
      rintro token made after - ⟨rfl, rfl⟩
      exact ⟨rfl, rfl, fits⟩
  · exact ends_refuse _

theorem Ends.expect_bind {wanted : Kind} {second : Token → Descent α} (other : wanted ≠ .eof)
    (follows : parser.current.kind = wanted → ∀ after, parser.Passes [parser.current] after →
      Ends (second parser.current) after fun value later =>
        holds value (parser.current :: later)) :
    Ends (expect wanted >>= second) parser holds := by
  refine (ends_expect other).bind ?_
  rintro _ _ after passes ⟨rfl, rfl, fits⟩
  exact follows fits after passes

/-! ## Loops -/

theorem within_of_lt {size : Nat} {rule : Descent Unit} (fewer : parser.size < size) :
    within size (fun after _ => rule after) parser = rule parser := by
  rw [within, dif_pos fewer]

theorem Ends.within {size : Nat} {rule : Descent Unit} {holds : Unit → List Token → Parser → Prop}
    (fewer : parser.size < size) (ends : Ends rule parser holds) :
    Ends (within size fun after _ => rule after) parser holds := by
  rw [Ends, within_of_lt fewer]
  exact ends

/-- A loop ends if each time round something is passed. -/
theorem ends_repeatWhile {goes : Kind → Bool} {body : Descent Unit} {only : Token → Prop}
    (each : ∀ parser : Parser, goes parser.current.kind = true →
      Ends body parser fun _ made _ => made ≠ [] ∧ ∀ token ∈ made, only token)
    (parser : Parser) :
    Ends (repeatWhile goes body) parser fun _ made after =>
      (∀ token ∈ made, only token) ∧ goes after.current.kind = false := by
  induction size : parser.size using Nat.strongRecOn generalizing parser with
  | ind size ih =>
      rw [Ends, repeatWhile]
      split
      · next again =>
          refine (each parser again).bind ?_
          rintro ⟨⟩ made after passes ⟨nonempty, fits⟩
          have fewer := passes.size_lt nonempty
          refine (ih after.size (size ▸ fewer) after rfl).within fewer |>.imp ?_
          rintro ⟨⟩ later last - ⟨fits', stops⟩
          refine ⟨?_, stops⟩
          intro token member
          exact (List.mem_append.mp member).elim (fits token) (fits' token)
      · next stops => exact ends_pure ⟨by simp, Bool.not_eq_true _ ▸ stops⟩

/-- A rule ends everywhere, and has passed a token if it gets through. -/
def Consumes (rule : Descent Unit) : Prop :=
  ∀ parser, Ends rule parser fun _ made _ => made ≠ []

theorem ends_blanks (parser : Parser) :
    Ends blanks parser fun _ made after =>
      (∀ token ∈ made, token.kind = .newline) ∧ after.current.kind ≠ .newline := by
  have each (parser : Parser) (blank : (parser.current.kind == .newline) = true) :
      Ends (do let _ ← pass; return ()) parser fun _ made _ =>
        made ≠ [] ∧ ∀ token ∈ made, token.kind = .newline := by
    rw [beq_iff_eq] at blank
    refine .pass_bind (by simp [blank]) fun after _ => ends_pure ?_
    simp [blank]
  refine (ends_repeatWhile each parser).imp ?_
  rintro ⟨⟩ made after - ⟨blank, stops⟩
  exact ⟨blank, by simpa using stops⟩

theorem ends_lineEnds (parser : Parser) :
    Ends lineEnds parser fun _ made after =>
      (∃ front line, made = front ++ [line] ∧ line.kind = .newline) ∧
        after.current.kind ≠ .newline := by
  refine .expect_bind (by decide) fun line after _ => ?_
  refine (ends_blanks after).imp ?_
  rintro ⟨⟩ later last - ⟨blank, stops⟩
  have nonempty : parser.current :: later ≠ [] := List.cons_ne_nil _ _
  have newlines : ∀ token ∈ parser.current :: later, token.kind = .newline :=
    List.forall_mem_cons.mpr ⟨line, blank⟩
  exact ⟨⟨_, _, (List.dropLast_concat_getLast nonempty).symm,
    newlines _ (List.getLast_mem nonempty)⟩, stops⟩

/-! ## Expressions -/

theorem ends_behind {part : Descent Unit} (consumes : Consumes part) {joins : Kind → Bool}
    (inside : joins .eof = false) (again : joins parser.current.kind = true) :
    Ends (behind part) parser fun _ made _ => made ≠ [] := by
  have more : parser.current.kind ≠ .eof := by
    intro ended
    rw [ended, inside] at again
    cases again
  refine .pass_bind more fun after _ => .act_bind fun draft => ?_
  exact (consumes _).imp (by simp)

theorem ends_joined {part : Descent Unit} (consumes : Consumes part) {joins : Kind → Bool}
    (inside : joins .eof = false) (parser : Parser) :
    Ends (joined joins part) parser fun _ _ _ => True := by
  have each (parser : Parser) (again : joins parser.current.kind = true) :
      Ends (behind part) parser fun _ made _ => made ≠ [] ∧ ∀ token ∈ made, True :=
    (ends_behind consumes inside again).imp (by simp)
  exact (ends_repeatWhile each parser).imp (by simp)

theorem consumes_primary : Consumes primary := by
  intro parser
  refine .current_bind (.act_bind fun draft => ?_)
  split
  · next number =>
      refine .pass_bind (by simp [number]) fun after _ => ?_
      exact (ends_act _).imp (by simp)
  · next ident =>
      refine .act_bind fun draft => .pass_bind (by simp [ident]) fun after _ => ?_
      exact (ends_act _).imp (by simp)
  · exact ends_refuse _

theorem ends_sign (parser : Parser) : Ends sign parser fun _ _ _ => True := by
  refine .current_bind ?_
  split
  · next signs =>
      have more : parser.current.kind ≠ .eof := by
        intro ended
        rw [ended] at signs
        cases signs
      refine .pass_bind more fun after _ => ?_
      exact (ends_act _).imp (by simp)
  · exact ends_pure trivial

theorem consumes_unary : Consumes unary := by
  intro parser
  refine .act_bind fun draft => (ends_sign _).bind fun _ made after _ _ => ?_
  exact (consumes_primary after).imp (by simp_all)

theorem consumes_term : Consumes term := by
  intro parser
  refine .act_bind fun draft => (consumes_unary _).bind fun _ made after _ nonempty => ?_
  exact (ends_joined consumes_unary rfl after).imp (by simp [nonempty])

theorem consumes_expression : Consumes expression := by
  intro parser
  refine .act_bind fun draft => (consumes_term _).bind fun _ made after _ nonempty => ?_
  exact (ends_joined consumes_term rfl after).imp (by simp [nonempty])

theorem ends_sides (parser : Parser) : Ends sides parser fun _ _ _ => True := by
  refine .current_bind ?_
  split
  · exact ends_joined consumes_expression rfl parser
  · exact ends_refuse _

theorem consumes_comparison : Consumes comparison := by
  intro parser
  refine .act_bind fun draft => (consumes_expression _).bind fun _ made after _ nonempty => ?_
  exact (ends_sides after).imp (by simp [nonempty])

/-! ## Statements -/

theorem consumes_printed : Consumes printed := by
  intro parser
  refine .current_bind ?_
  split
  · next quoted =>
      refine .pass_bind (by simp [quoted]) fun after _ => ?_
      exact (ends_act _).imp (by simp)
  · refine .act_bind fun draft => (consumes_expression _).bind fun _ made after _ nonempty => ?_
    exact (ends_act _).imp (by simp [nonempty])

theorem consumes_named (taken : Token → Action) (written : String → String) :
    Consumes (named taken written) := by
  intro parser
  refine .expect_bind (by decide) fun _ after _ => .act_bind fun draft => ?_
  exact (ends_act _).imp (by simp)

theorem consumes_assigned : Consumes assigned := by
  intro parser
  refine .expect_bind (by decide) fun _ after _ => .act_bind fun draft =>
    .expect_bind (by decide) fun _ after' _ => .act_bind fun draft' =>
    (consumes_expression _).bind fun _ made last _ _ => ?_
  exact (ends_act _).imp (by simp)

theorem ends_heading (kind : Block) (parser : Parser) :
    Ends (heading kind) parser fun _ made after =>
      made ≠ [] ∧ after.current.kind ≠ .newline := by
  refine .act_bind fun draft => (consumes_comparison _).bind fun _ guard after _ nonempty =>
    .expect_bind kind.lead_ne_eof fun _ after' _ =>
    (ends_lineEnds after').bind fun _ ends after'' _ held => ?_
  refine (ends_act _).imp ?_
  rintro ⟨⟩ _ _ - ⟨rfl, draft', rfl⟩
  exact ⟨by simp [nonempty], held.2⟩

section Statements

variable {lines : Block → Descent Unit}

/-- The lines of a block are read behind its heading. -/
theorem ends_enclosed {kind : Block} (inner : ∀ after : Parser, after.size < parser.size →
      Ends (lines kind) after fun _ _ _ => True) :
    Ends (enclosed lines kind) parser fun _ made _ => made ≠ [] := by
  refine (ends_heading kind parser).bind fun _ _ after passes held =>
    (inner after (passes.size_lt held.1)).bind fun _ _ _ _ _ => ?_
  exact (ends_act _).imp (by simp [held.1])

theorem ends_clause (inner : ∀ kind (after : Parser), after.size < parser.size →
      Ends (lines kind) after fun _ _ _ => True) :
    Ends (clause lines parser.current) parser fun _ made _ => 2 ≤ made.length := by
  have opened {phrase : Descent Unit} (more : parser.current.kind ≠ .eof)
      (ends : ∀ after : Parser, after.size < parser.size →
        Ends phrase after fun _ made _ => made ≠ []) :
      Ends (do let _ ← pass; phrase) parser fun _ made _ => 2 ≤ made.length := by
    refine .pass_bind more fun after passes => (ends after ?_).imp ?_
    · exact passes.size
    · rintro ⟨⟩ made last - nonempty
      have := List.length_pos_iff.mpr nonempty
      rw [List.length_cons]
      omega
  have blocks (kind : Block) (after : Parser) (fewer : after.size < parser.size) :
      Ends (enclosed lines kind) after fun _ made _ => made ≠ [] :=
    ends_enclosed fun last fewer' => inner kind last (Nat.lt_trans fewer' fewer)
  rw [clause]
  split
  · next keyword => exact opened (by simp [keyword]) fun after _ => consumes_printed after
  · next keyword => exact opened (by simp [keyword]) (blocks .branch)
  · next keyword => exact opened (by simp [keyword]) (blocks .loop)
  · next keyword => exact opened (by simp [keyword]) fun after _ => consumes_named _ _ after
  · next keyword => exact opened (by simp [keyword]) fun after _ => consumes_named _ _ after
  · next keyword => exact opened (by simp [keyword]) fun after _ => consumes_assigned after
  · next keyword => exact opened (by simp [keyword]) fun after _ => consumes_named _ _ after
  · exact ends_refuse _

/-- What a statement passes: at least three tokens, of which the last ends a line. The line after it
is not blank. -/
def Whole (made : List Token) (after : Parser) : Prop :=
  (∃ front line, made = front ++ [line] ∧ 2 ≤ front.length ∧ line.kind = .newline) ∧
    after.current.kind ≠ .newline

theorem Whole.ne_nil {made : List Token} {after : Parser} (whole : Whole made after) :
    made ≠ [] := by
  obtain ⟨⟨front, line, rfl, -, -⟩, -⟩ := whole
  exact List.append_ne_nil_of_right_ne_nil _ (List.cons_ne_nil _ _)

/-- A statement ends if the lines of the blocks in it do. -/
theorem ends_statementBy (inner : ∀ kind (after : Parser), after.size < parser.size →
      Ends (lines kind) after fun _ _ _ => True) :
    Ends (statementBy lines) parser fun _ made after => Whole made after := by
  refine .get_bind (.act_bind fun draft => ?_)
  have clause := @ends_clause { parser with draft } lines inner
  refine clause.bind fun _ made after _ two => (ends_lineEnds after).imp ?_
  rintro ⟨⟩ later last - ⟨⟨front, line, rfl, newline⟩, stops⟩
  refine ⟨⟨made ++ front, line, (List.append_assoc ..).symm, ?_, newline⟩, stops⟩
  rw [List.length_append]
  omega

end Statements

theorem ends_block (kind : Block) (parser : Parser) :
    Ends (block kind) parser fun _ _ _ => True := by
  induction size : parser.size using Nat.strongRecOn generalizing kind parser with
  | ind size ih =>
      have below (kind : Block) (after : Parser) (fewer : after.size < parser.size) :
          Ends (within parser.size fun after _ => block kind after) after fun _ _ _ => True :=
        (ih after.size (size ▸ fewer) kind after rfl).within fewer
      rw [Ends, block]
      split
      · exact Ends.expect_bind kind.closer_ne_eof fun _ _ _ => ends_pure trivial
      · split
        · exact ends_refuse _
        · exact (ends_statementBy below).bind fun _ made after passes whole =>
            below kind after (passes.size_lt whole.ne_nil)

theorem ends_statement (parser : Parser) :
    Ends statement parser fun _ made after => Whole made after :=
  ends_statementBy fun kind after _ => ends_block kind after

/-- A program ends at the end of the text. -/
theorem ends_program (parser : Parser) :
    Ends program parser fun _ _ after => after.current.kind = .eof := by
  have each (parser : Parser) (_ : (parser.current.kind != .eof) = true) :
      Ends statement parser fun _ made _ => made ≠ [] ∧ ∀ token ∈ made, True := by
    refine (ends_statement parser).imp ?_
    rintro ⟨⟩ made after - whole
    exact ⟨whole.ne_nil, by simp⟩
  refine .act_bind fun draft => (ends_blanks _).bind fun _ _ after _ _ =>
    (ends_repeatWhile each after).bind fun _ _ last _ stops =>
    .act_bind fun draft' => .act_bind fun draft'' => ?_
  refine (ends_act _).imp ?_
  rintro ⟨⟩ _ _ - ⟨-, final, rfl⟩
  simpa using stops.2

end Descent

/-- Every rule ends, whatever the parser. -/
theorem Rule.ends (rule : Rule) (parser : Parser) :
    Descent.Ends rule.run parser fun _ _ _ => True := by
  cases rule with
  | program => exact (Descent.ends_program parser).imp (by simp)
  | statement => exact (Descent.ends_statement parser).imp (by simp)
  | block kind => exact Descent.ends_block kind parser
  | lineEnds => exact (Descent.ends_lineEnds parser).imp (by simp)
  | comparison => exact (Descent.consumes_comparison parser).imp (by simp)
  | expression => exact (Descent.consumes_expression parser).imp (by simp)
  | term => exact (Descent.consumes_term parser).imp (by simp)
  | unary => exact (Descent.consumes_unary parser).imp (by simp)
  | primary => exact (Descent.consumes_primary parser).imp (by simp)

end TeenyTiny
