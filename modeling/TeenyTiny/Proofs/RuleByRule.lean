import TeenyTiny.Proofs.RulesAndPlaces

/-!
# Compiling rule by rule

From the first two tokens of a text and the cursor behind them, all the tokens are seen that a
reader sees who looks one token ahead (`Cursor.sees_lookahead`). Going from place to place over what
is seen is reading on along these tokens (`Descent.compiles_follow`), which is compiling. So
compiling rule by rule has a result, from any cursor, and it is that of compiling
(`Cursor.descend_eq_compile`).

Where a program is accepted, the tokens that were passed are those of the text
(`Descent.lexes_of_program`).
-/

set_option autoImplicit false

namespace TeenyTiny

/-! ## What a parser sees -/

/-- The tokens that are seen from two tokens and the cursor behind them: up to the end of the text,
which is not passed, or up to a fault that ends the reading. -/
inductive Sees : Option Fault → Token → Token → Cursor → List Token → Prop where
  | ended {current ahead : Token} {cursor : Cursor} :
      current.kind = .eof → Sees none current ahead cursor [current, ahead]
  | starved {current ahead : Token} {cursor : Cursor} {fault : Fault} :
      cursor.next.1 = .error fault → Sees (some fault) current ahead cursor [current, ahead]
  | on {ending : Option Fault} {current ahead token : Token} {cursor : Cursor}
      {tokens : List Token} :
      cursor.next.1 = .ok token → Sees ending ahead token cursor.next.2 tokens →
        Sees ending current ahead cursor (current :: tokens)

theorem Sees.exists_later {ending : Option Fault} {current ahead : Token} {cursor : Cursor}
    {tokens : List Token} (sees : Sees ending current ahead cursor tokens) :
    ∃ later, tokens = current :: ahead :: later := by
  cases sees with
  | ended _ => exact ⟨[], rfl⟩
  | starved _ => exact ⟨[], rfl⟩
  | on _ others =>
      cases others <;> exact ⟨_, rfl⟩

/-- Behind the end of the text there is no offence. -/
theorem Cursor.kind_ne_of_offence {cursor after last : Cursor} {token : Token} {fault : Fault}
    (found : cursor.next = (.ok token, after)) (offence : after.next = (.error fault, last)) :
    token.kind ≠ .eof := by
  intro ended
  rw [next_of_end found ended] at offence
  cases offence

/-- From the first two tokens everything is seen that a reader sees who looks one token ahead. -/
theorem Cursor.sees_lookahead {cursor after after' : Cursor} {current ahead : Token}
    (found : cursor.next = (.ok current, after)) (found' : after.next = (.ok ahead, after')) :
    Sees cursor.supply.fault? current ahead after' cursor.supply.lookahead := by
  induction size : cursor.rest.length using Nat.strongRecOn
    generalizing cursor after after' current ahead with
  | ind size ih =>
      by_cases ended : current.kind = .eof
      · obtain ⟨⟩ := found'.symm.trans (next_of_end found ended)
        rw [supply_of_end found ended]
        exact .ended ended
      · rw [supply_of_token found ended, Supply.lookahead_cons]
        show Sees after.supply.fault? _ _ _ _
        rcases reading : after'.next with ⟨fault | third, last⟩
        · rw [supply_of_token found' (kind_ne_of_offence found' reading), supply_of_fault reading]
          exact .starved (by rw [reading])
        · refine .on (by rw [reading]) ?_
          rw [reading]
          exact ih after.rest.length (size ▸ length_next_lt found ended) found' reading rfl

/-! ## Following what is seen -/

namespace Descent

variable {parser : Parser}

theorem compiles_act_bind (actions : List Action) (rule : Descent Unit) (parser : Parser) :
    compiles (do act actions; rule) parser =
      match parser.draft.performAll actions with
      | (draft, none) => compiles rule { parser with draft }
      | (draft, some fault) => some ⟨draft, some fault⟩ := by
  rw [compiles, bind_apply, act]
  rcases parser.draft.performAll actions with ⟨draft, _ | fault⟩
  · rfl
  · rfl

/-- Where a rule compiles without a fault it gets through. -/
theorem exists_of_compiles {rule : Descent Unit}
    (sound : (compiles rule parser).map Compilation.fault? = some none) :
    ∃ after, rule parser = some (.ok (), after) := by
  rw [compiles] at sound
  rcases done : rule parser with _ | ⟨fault | _, after⟩
  · rw [done] at sound
    cases sound
  · rw [done] at sound
    cases sound
  · exact ⟨after, rfl⟩

/-- Passing takes a token to read ahead. -/
theorem compiles_pass_bind (rule : Descent Unit) (parser : Parser) :
    compiles (do let _ ← pass; rule) parser =
      match parser.cursor.next.1 with
      | .error fault => some ⟨parser.draft, some fault⟩
      | .ok token =>
          compiles rule { parser with
            current := parser.ahead
            ahead := token
            cursor := parser.cursor.next.2
            calls := parser.calls + 1
            tried := parser.tried ++ [parser.current]
            passed := parser.passed ++ [parser.current] } := by
  rw [compiles, bind_apply, pass]
  cases parser.cursor.next.1 with
  | error fault => rfl
  | ok token => rfl

/-- Going from place to place is reading on along what is seen. -/
theorem compiles_follow {ending : Option Fault} {current ahead : Token} {cursor : Cursor}
    {tokens : List Token} (sees : Sees ending current ahead cursor tokens) (calls : Nat)
    (draft : Draft) (tried passed : List Token) (place : Place) (blocks : List Block) :
    let outcome := Standing.read { draft, place, blocks } tokens
    compiles (follow place blocks) { current, ahead, cursor, calls, draft, tried, passed } =
      some ⟨outcome.draft, outcome.fault? ending⟩ := by
  -- Passing a token leaves those behind it to be seen, and nothing else of the parser matters.
  induction tokens generalizing current ahead cursor calls draft tried passed place blocks with
  | nil => cases sees
  | cons first tokens ih =>
      obtain ⟨later, same⟩ := sees.exists_later
      cases same
      rw [compiles, follow_apply, ← compiles, turn, compiles_act_bind, Standing.read, Standing.move]
      dsimp only
      rcases draft.performAll (place.move blocks first ahead.kind).now with ⟨draft', _ | fault⟩
      · cases step : (place.move blocks first ahead.kind).step with
        | refuse cause => rfl
        | finish => rfl
        | pass place' blocks' owed =>
            dsimp only
            rw [compiles_pass_bind]
            cases sees with
            | ended ended => exact absurd step (Place.step_of_eof ended _ _ _)
            | starved reading =>
                rw [reading]
                rfl
            | on reading others =>
                obtain ⟨later', same⟩ := others.exists_later
                cases same
                rw [reading, if_neg (List.cons_ne_nil _ _)]
                dsimp only
                rw [compiles_act_bind]
                dsimp only
                rcases draft'.performAll owed with ⟨draft'', _ | fault⟩
                · exact ih others _ _ _ _ _ _
                · rfl
      · rfl

end Descent

/-! ## From the first two tokens -/

/-- A parser starts with the first two tokens, if they can be read. -/
theorem Parser.ofCursor_cases (cursor : Cursor) (output : Output) :
    (∃ current after ahead after', cursor.next = (.ok current, after) ∧
      after.next = (.ok ahead, after') ∧
      ofCursor cursor output =
        .ok { current, ahead, cursor := after', calls := 2, draft := { output } }) ∨
    ∃ fault, ofCursor cursor output = .error fault ∧ cursor.supply.fault? = some fault ∧
      cursor.supply.lookahead.length < 2 := by
  rcases found : cursor.next with ⟨fault | current, after⟩
  · refine .inr ⟨fault, ?_, ?_, ?_⟩
    · rw [ofCursor, found]
      rfl
    · rw [Cursor.supply_of_fault found]
      rfl
    · rw [Cursor.supply_of_fault found]
      exact Nat.zero_lt_two
  · rcases found' : after.next with ⟨fault | ahead, after'⟩
    · have more := Cursor.kind_ne_of_offence found found'
      refine .inr ⟨fault, ?_, ?_, ?_⟩
      · rw [ofCursor, found]
        simp only [found']
        rfl
      · rw [Cursor.supply_of_token found more, Cursor.supply_of_fault found']
        rfl
      · rw [Cursor.supply_of_token found more, Cursor.supply_of_fault found']
        exact Nat.one_lt_two
    · refine .inl ⟨current, after, ahead, after', rfl, found', ?_⟩
      rw [ofCursor, found]
      simp only [found']
      rfl

/-- Compiling rule by rule is compiling. -/
theorem Cursor.descend_eq_compile (cursor : Cursor) (output : Output) :
    cursor.descend output = some (cursor.compile output) := by
  rcases Parser.ofCursor_cases cursor output with
    ⟨current, after, ahead, after', found, found', start⟩ | ⟨fault, start, reading, unready⟩
  · have sees := sees_lookahead found found'
    have begun : Draft.performAll { output } prologue = ((Standing.start output).draft, none) := rfl
    rw [descend, start]
    dsimp only
    rw [Descent.program_eq_follow, Descent.compiles_act_bind]
    dsimp only
    rw [begun]
    dsimp only
    rw [Descent.compiles_follow sees, compile_eq_read]
    · rfl
    · obtain ⟨later, seen⟩ := sees.exists_later
      rw [seen]
      exact Nat.le_add_left 2 later.length
  · rw [descend, start, compile_of_unready unready, reading]

/-- The first two readings and those behind them. -/
theorem Cursor.take_of_two {cursor after after' : Cursor} {first second : Except Fault Token}
    (found : cursor.next = (first, after)) (found' : after.next = (second, after')) (count : Nat) :
    cursor.take (count + 2) =
      (first :: second :: (after'.take count).1, (after'.take count).2) := by
  rw [take, take, found]
  simp only [found']

namespace Descent

variable {cursor : Cursor} {output : Output} {parser after : Parser}

/-- However a program ends, the cursor stands behind as many readings as there were. -/
theorem cursor_of_program (start : Parser.ofCursor cursor output = .ok parser)
    {result : Except Fault Unit} (done : program parser = some (result, after)) :
    after.cursor = (cursor.take after.calls).2 := by
  obtain ⟨result', made, after', done', tries⟩ := (ends_program parser).exists_tries
  cases done.symm.trans done'
  rcases Parser.ofCursor_cases cursor output with
    ⟨current, first, ahead, second, found, found', start'⟩ | ⟨fault, start', -⟩
  · cases start.symm.trans start'
    rw [tries.cursor, tries.calls, Nat.add_comm, Cursor.take_of_two found found']
  · cases start.symm.trans start'

/-- Where a program is accepted, all its tokens have been read, and the end of the text twice. -/
theorem lexes_of_program (start : Parser.ofCursor cursor output = .ok parser)
    (done : program parser = some (.ok (), after)) :
    after.current.kind = .eof ∧
      ∃ tokens last, cursor.Lexes (tokens ++ [last]) ∧ after.calls = tokens.length + 2 := by
  obtain ⟨made, passes, ended⟩ := (ends_program parser).of_ok done
  rcases Parser.ofCursor_cases cursor output with
    ⟨current, first, ahead, second, found, found', start'⟩ | ⟨fault, start', -⟩
  · cases start.symm.trans start'
    obtain ⟨taken, readings, seen⟩ := passes.readings
    have all : (cursor.take (made.length + 1 + 1)).1 =
        (made.map .ok ++ [.ok after.current]) ++ [.ok after.ahead] := by
      have whole := congrArg (List.map (.ok : Token → Except Fault Token)) seen
      rw [Cursor.take_of_two found found']
      simpa [readings] using whole
    rw [Cursor.take_add] at all
    have supply : cursor.supply = ⟨made, .ok after.current⟩ := by
      refine Cursor.supply_of_take (List.append_inj' all rfl).1 passes.more ?_
      intro last same
      cases same
      exact ended
    refine ⟨ended, made, after.current, Cursor.lexes_iff_supply.mpr ?_, ?_⟩
    · rw [supply]
      exact ⟨after.current, rfl, rfl⟩
    · rw [passes.calls, Nat.add_comm]
  · cases start.symm.trans start'

end Descent

/-- The rules end, because there is ever less to read. Every rule has a result, whatever the parser,
and no rule tries to pass the end of the text. Passing any other token leaves less to read. A
statement that gets through passes at least three tokens, of which the last ends a line, and leaves
a token that does not. From any cursor, such as one behind many readings and offences, compiling
rule by rule comes to an end, and to the same as compiling. The cursor then stands behind all the
readings there were. If the program is accepted, the current token is the end of the text, and there
were two readings more than there are tokens before the end. -/
theorem rules_end :
    (∀ (rule : Rule) (parser : Parser), ∃ result made after,
      rule.run parser = some (result, after) ∧ after.tried = parser.tried ++ made ∧
        ∀ token ∈ made, token.kind ≠ .eof) ∧
    (∀ (parser after : Parser) (token : Token), parser.current.kind ≠ .eof →
      Descent.pass parser = some (.ok token, after) → after.size < parser.size) ∧
    (∀ parser after : Parser, Descent.statement parser = some (.ok (), after) →
      ∃ front line, after.passed = parser.passed ++ (front ++ [line]) ∧ 2 ≤ front.length ∧
        line.kind = .newline ∧ after.current.kind ≠ .newline) ∧
    ∀ (cursor : Cursor) (output : Output),
      cursor.descend output = some (cursor.compile output) ∧
      ∀ (parser after : Parser) (result : Except Fault Unit),
        Parser.ofCursor cursor output = .ok parser →
        Descent.program parser = some (result, after) →
          after.cursor = (cursor.take after.calls).2 ∧
          (result = .ok () → after.current.kind = .eof ∧
            ∃ tokens last, cursor.Lexes (tokens ++ [last]) ∧
              after.calls = tokens.length + 2) := by
  refine ⟨?_, ?_, ?_, ?_⟩
  · intro rule parser
    obtain ⟨result, made, after, done, tries⟩ := (rule.ends parser).exists_tries
    exact ⟨result, made, after, done, tries.tried, tries.more⟩
  · intro parser after token more done
    obtain ⟨made, passes, rfl, -⟩ := (Descent.ends_pass more).of_ok done
    exact passes.size
  · intro parser after done
    obtain ⟨made, passes, ⟨front, line, rfl, long, newline⟩, stops⟩ :=
      (Descent.ends_statement parser).of_ok done
    exact ⟨front, line, passes.passed, long, newline, stops⟩
  · intro cursor output
    refine ⟨cursor.descend_eq_compile output, ?_⟩
    intro parser after result start done
    refine ⟨Descent.cursor_of_program start done, ?_⟩
    rintro rfl
    exact Descent.lexes_of_program start done

/-- After the offence of a string that is not closed on its line, the rest is compiled: a blank line
and a label, with six readings for four tokens. -/
theorem rules_end_behind_offence :
    ∃ parser after line last : Parser,
      Parser.ofCursor (Cursor.reached "\"\nLABEL a" 1) {} = .ok parser ∧
      Descent.program parser = some (.ok (), after) ∧ after.current.kind = .eof ∧
      after.calls = 6 ∧
      Descent.pass parser = some (.ok ⟨.newline, "\n", 1⟩, line) ∧ line.size < parser.size ∧
      Descent.statement line = some (.ok (), last) ∧ last.current.kind ≠ .newline ∧
      ∃ front back, last.passed = line.passed ++ (front ++ [back]) ∧ 2 ≤ front.length ∧
        back.kind = .newline := by
  let parser : Parser :=
    { current := ⟨.newline, "\n", 1⟩, ahead := ⟨.labelWord, "LABEL", 2⟩,
      cursor := ⟨7, [' ', 'a', '\n']⟩, calls := 2, draft := {} }
  let line : Parser :=
    { current := ⟨.labelWord, "LABEL", 2⟩, ahead := ⟨.ident, "a", 8⟩, cursor := ⟨9, ['\n']⟩,
      calls := 3, draft := {}, tried := [⟨.newline, "\n", 1⟩], passed := [⟨.newline, "\n", 1⟩] }
  have lexes : (Cursor.reached "\"\nLABEL a" 1).Lexes ([⟨.newline, "\n", 1⟩,
      ⟨.labelWord, "LABEL", 2⟩, ⟨.ident, "a", 8⟩, ⟨.newline, "\n", 9⟩] ++ [⟨.eof, "", 10⟩]) :=
    .read (by rfl) (by decide) (.read (by rfl) (by decide) (.read (by rfl) (by decide)
      (.read (by rfl) (by decide) (.finish (by rfl) rfl))))
  have start : Parser.ofCursor (Cursor.reached "\"\nLABEL a" 1) {} = .ok parser := by rfl
  obtain ⟨after, done⟩ : ∃ after, Descent.program parser = some (.ok (), after) :=
    Descent.exists_of_compiles (by decide +kernel)
  obtain ⟨last, complete⟩ : ∃ last, Descent.statement line = some (.ok (), last) :=
    Descent.exists_of_compiles (by decide +kernel)
  have passes : Descent.pass parser = some (.ok ⟨.newline, "\n", 1⟩, line) := by rfl
  obtain ⟨-, shrinks, whole, runs⟩ := rules_end
  obtain ⟨front, back, passed, long, newline, stops⟩ := whole line last complete
  obtain ⟨ended, tokens, eof, lexes', calls⟩ := ((runs _ _).2 parser after _ start done).2 rfl
  have count := congrArg List.length (lexes'.unique lexes)
  rw [List.length_append, List.length_append] at count
  refine ⟨parser, after, line, last, start, done, ended, ?_, passes,
    shrinks parser line _ (by decide) passes, complete, stops, front, back, passed, long, newline⟩
  rw [calls, Nat.add_right_cancel count]
  rfl

end TeenyTiny
