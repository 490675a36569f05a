import TeenyTiny.Proofs.Course

/-!
# The first fault of a source

When a text can be read to its end, the diagnostic of a source that is not compiled is decided by
the first token that offends (`Offends`). A token offends if no program has it after the tokens
before it (`Misplaced`), if it reads a name that was not set (`Unset`), or if it sets a label that
was set (`Repeated`). What the place of a name means is said by the programs that start with the
tokens up to it (`Stands`), since the source itself may not be one.

The diagnostic points at this token, and its phase says whether the token is misplaced. If no token
offends, only a jump without a label can keep the source from being compiled
(`compile_first_offence`).
-/

set_option autoImplicit false

namespace TeenyTiny

open Grammar

/-- In programs that start with the tokens up to an index, the identifier there has a role and a
name. -/
def Stands (tokens : List Token) (role : Role) (index : Nat) (name : String) : Prop :=
  MayDerive (tokens.map Token.kind) index role ∧ ∃ token, tokens[index]? = some token ∧
    token.text = name

/-- The tokens before an index are the front of a program, and with the token there they are not. -/
def Misplaced (tokens : List Token) (index : Nat) : Prop :=
  index < tokens.length ∧ Viable ((tokens.map Token.kind).take index) ∧
    ¬ Viable ((tokens.map Token.kind).take (index + 1))

/-- The token at an index reads a name that was not set before. -/
def Unset (tokens : List Token) (index : Nat) : Prop :=
  ∃ name, Stands tokens .read index name ∧ ¬ ∃ earlier < index, Stands tokens .target earlier name

/-- The token at an index names a label that was set before. -/
def Repeated (tokens : List Token) (index : Nat) : Prop :=
  ∃ name, Stands tokens .label index name ∧ ∃ earlier < index, Stands tokens .label earlier name

/-- The token at an index is one that a diagnostic may point at. -/
def Offends (tokens : List Token) (index : Nat) : Prop :=
  Misplaced tokens index ∨ Unset tokens index ∨ Repeated tokens index

theorem Grammar.Viable.take {kinds : List Kind} (viable : Viable kinds) (count : Nat) :
    Viable (kinds.take count) := by
  obtain ⟨rest, program⟩ := viable
  refine ⟨kinds.drop count ++ rest, ?_⟩
  rwa [← List.append_assoc, List.take_append_drop]

/-- A name that stands somewhere is not misplaced. -/
theorem not_misplaced_of_named {tokens : List Token} {index : Nat}
    (named : Unset tokens index ∨ Repeated tokens index) : ¬ Misplaced tokens index := by
  rintro ⟨-, -, never⟩
  rcases named with ⟨name, stands, -⟩ | ⟨name, stands, -⟩
  · exact never stands.1.viable
  · exact never stands.1.viable

/-! ## Offences along a run -/

/-- The first of these tokens, if there is one, cannot come next. -/
def Stops (language : List Symbol → Prop) (tokens : List Token) : Prop :=
  ∀ token ∈ tokens.head?, ∀ symbol rest, symbol.kind = token.kind → ¬ language (symbol :: rest)

namespace Run

variable {language : List Symbol → Prop} {occurrences : List Occurrence} {others : List Token}

/-- Where a run stops, what it passed is the front of a program. -/
theorem viable_take (run : Run (Lines []) occurrences language) (more : ∃ rest, language rest)
    {index : Nat} (before : index ≤ occurrences.length) :
    Viable (((occurrences.map Occurrence.token ++ others).map Token.kind).take index) := by
  obtain ⟨rest, after⟩ := more
  have whole : Viable (occurrences.map (·.token.kind)) := ⟨_, run.program_kinds after⟩
  rw [List.map_append, List.map_map, List.take_append_of_le_length (by simpa using before)]
  exact whole.take index

/-- With a token that cannot come next, the tokens are not the front of a program. -/
theorem not_viable_take (run : Run (Lines []) occurrences language)
    (stop : Stops language others) {index : Nat} (after : occurrences.length ≤ index)
    (inside : index < (occurrences.map Occurrence.token ++ others).length) :
    ¬ Viable (((occurrences.map Occurrence.token ++ others).map Token.kind).take (index + 1)) := by
  rintro ⟨kinds, program⟩
  cases others with
  | nil =>
      rw [List.append_nil, List.length_map] at inside
      omega
  | cons token others =>
      obtain ⟨count, rfl⟩ := Nat.exists_eq_add_of_le after
      have front : ((occurrences.map Occurrence.token ++ token :: others).map Token.kind).take
          (occurrences.length + count + 1) =
            occurrences.map (·.token.kind) ++ token.kind :: (others.map Token.kind).take count := by
        rw [List.map_append, List.map_map, List.take_append,
          List.take_of_length_le (by simp; omega), List.length_map, Nat.add_assoc,
          Nat.add_sub_cancel_left]
        rfl
      rw [front, List.append_assoc] at program
      obtain ⟨rest, same, goes⟩ := run.exists_of_program program
      obtain ⟨symbol, rest, rfl, kind, -⟩ := List.map_eq_cons_iff.mp same
      exact stop token rfl symbol rest kind goes

/-- The only misplaced token is the one that cannot come next. -/
theorem misplaced_iff (run : Run (Lines []) occurrences language) (more : ∃ rest, language rest)
    (stop : Stops language others) {index : Nat} :
    Misplaced (occurrences.map Occurrence.token ++ others) index ↔
      index = occurrences.length ∧ others ≠ [] := by
  constructor
  · rintro ⟨inside, before, after⟩
    have late : occurrences.length ≤ index := by
      rcases Nat.lt_or_ge index occurrences.length with early | late
      · exact absurd (run.viable_take more early) after
      · exact late
    have early : index ≤ occurrences.length := by
      rcases Nat.lt_or_ge occurrences.length index with late | early
      · obtain ⟨count, rfl⟩ := Nat.exists_eq_succ_of_ne_zero (Nat.ne_zero_of_lt late)
        exact absurd before
          (run.not_viable_take stop (Nat.le_of_lt_succ late) (Nat.lt_of_succ_lt inside))
      · exact early
    refine ⟨Nat.le_antisymm early late, ?_⟩
    rintro rfl
    rw [List.append_nil, List.length_map] at inside
    omega
  · rintro ⟨rfl, nonempty⟩
    have inside : occurrences.length < (occurrences.map Occurrence.token ++ others).length := by
      have := List.length_pos_iff.mpr nonempty
      rw [List.length_append, List.length_map]
      omega
    exact ⟨inside, run.viable_take more (Nat.le_refl _),
      run.not_viable_take stop (Nat.le_refl _) inside⟩

/-- Names stand where the run has them. -/
theorem stands_iff (run : Run (Lines []) occurrences language) (more : ∃ rest, language rest)
    (stop : Stops language others) {role : Role} {index : Nat} {name : String} :
    Stands (occurrences.map Occurrence.token ++ others) role index name ↔
      Occurrence.HasAt occurrences index role name := by
  have derives {occurrence : Occurrence} (here : occurrences[index]? = some occurrence) :
      MayDerive ((occurrences.map Occurrence.token ++ others).map Token.kind) index role ↔
        occurrence.role? = some role := by
    have bound := (List.getElem?_eq_some_iff.mp here).1
    refine run.mayDerive_iff more here ?_
    rw [List.map_append, List.map_map,
      List.take_append_of_le_length (by rw [List.length_map]; exact bound), List.map_take]
    rfl
  constructor
  · rintro ⟨may, token, there, rfl⟩
    have inside := (List.getElem?_eq_some_iff.mp there).1
    have early : index < occurrences.length := by
      rcases Nat.lt_or_ge index occurrences.length with early | late
      · exact early
      · exact absurd may.viable (run.not_viable_take stop late inside)
    rw [List.getElem?_append_left (by simpa using early), List.getElem?_map,
      Option.map_eq_some_iff] at there
    obtain ⟨occurrence, here, rfl⟩ := there
    exact ⟨occurrence, here, (derives here).mp may, rfl⟩
  · rintro ⟨occurrence, here, role, rfl⟩
    have bound := (List.getElem?_eq_some_iff.mp here).1
    refine ⟨(derives here).mpr role, occurrence.token, ?_, rfl⟩
    rw [List.getElem?_append_left (by simpa using bound), List.getElem?_map, here]
    rfl

/-- A name that stands against the rules breaks one in the run. -/
theorem unset_or_repeated_iff (run : Run (Lines []) occurrences language)
    (more : ∃ rest, language rest)
    (stop : Stops language others) {index : Nat} :
    Unset (occurrences.map Occurrence.token ++ others) index ∨
        Repeated (occurrences.map Occurrence.token ++ others) index ↔
      Occurrence.BreaksAt occurrences index := by
  simp only [Unset, Repeated, run.stands_iff more stop, Occurrence.breaksAt_iff]

/-- The first token that offends is the fault if it is a name, whatever comes later. -/
theorem exists_fault (run : Run (Lines []) occurrences language) (more : ∃ rest, language rest)
    (stop : Stops language others) (actions : List Action) {index : Nat}
    (offends : Unset (occurrences.map Occurrence.token ++ others) index ∨
      Repeated (occurrences.map Occurrence.token ++ others) index)
    (first : ∀ earlier < index, ¬ Offends (occurrences.map Occurrence.token ++ others) earlier) :
    ∃ (token : Token) (cause : Cause),
      (occurrences.map Occurrence.token ++ others)[index]? = some token ∧
        cause.phase = .meaning ∧
        Names.fault? {} (occurrences.flatMap Occurrence.deeds ++ actions) =
          some ⟨cause, token.loc⟩ := by
  obtain ⟨occurrence, here, breaks⟩ := (run.unset_or_repeated_iff more stop).mp offends
  have obeys (earlier : Nat) (before : earlier < index) :
      ¬ Occurrence.BreaksAt occurrences earlier := fun breaks =>
    first earlier before (.inr ((run.unset_or_repeated_iff more stop).mpr breaks))
  obtain ⟨cause, phase, fault⟩ := Names.fault_of_first_break actions here breaks obeys
  have bound := (List.getElem?_eq_some_iff.mp here).1
  refine ⟨occurrence.token, cause, ?_, phase, fault⟩
  rw [List.getElem?_append_left (by simpa using bound), List.getElem?_map, here]
  rfl

/-- No name is a fault if no token that the run passes offends. -/
theorem fault_eq_none (run : Run (Lines []) occurrences language) (more : ∃ rest, language rest)
    (stop : Stops language others)
    (none : ∀ index < occurrences.length,
      ¬ Offends (occurrences.map Occurrence.token ++ others) index) :
    Names.fault? {} (occurrences.flatMap Occurrence.deeds) = .none := by
  refine Names.fault_occurrences_none.mpr fun index breaks => ?_
  have offends := (run.unset_or_repeated_iff more stop).mpr breaks
  obtain ⟨occurrence, here, -⟩ := breaks
  exact none index (List.getElem?_eq_some_iff.mp here).1 (.inr offends)

end Run

/-! ## The fault of a compilation -/

/-- The first token that offends is the fault. -/
theorem Compilation.exists_fault_of_offends {source : String} {tokens : List Token}
    (lexes : (Cursor.ofSource source).Lexes tokens) (output : Output) {index : Nat}
    (offends : Offends tokens index) (first : ∀ earlier < index, ¬ Offends tokens earlier) :
    ∃ (token : Token) (cause : Cause), tokens[index]? = some token ∧
      (Compilation.ofSource source output).fault? = some ⟨cause, token.loc⟩ ∧
      (Misplaced tokens index ∧ cause.phase = .grammar ∨
        (Unset tokens index ∨ Repeated tokens index) ∧ cause.phase = .meaning) := by
  obtain ⟨walk, course, fault⟩ := Compilation.exists_course lexes
  rw [fault output]
  cases course with
  | @finished occurrences split run actions well =>
      obtain rfl : tokens = occurrences.map Occurrence.token ++ [] := by rw [split, List.append_nil]
      have stop : Stops (· = []) [] := by simp [Stops]
      rcases offends with misplaced | offends
      · exact absurd rfl ((run.misplaced_iff ⟨[], rfl⟩ stop).mp misplaced).2
      · obtain ⟨token, cause, here, phase, found⟩ :=
          run.exists_fault ⟨[], rfl⟩ stop [.settle] offends first
        refine ⟨token, cause, here, ?_, .inr ⟨offends, phase⟩⟩
        rw [actions, found, Option.some_or]
  | @refused occurrences token others language cause split run more never actions phase stopped =>
      subst split
      have stop : Stops language (token :: others) := by
        rintro _ ⟨⟩
        exact never
      rcases offends with misplaced | offends
      · obtain ⟨rfl, -⟩ := (run.misplaced_iff more stop).mp misplaced
        refine ⟨token, cause, ?_, ?_, .inl ⟨misplaced, phase⟩⟩
        · rw [List.getElem?_append_right (by simp), List.length_map, Nat.sub_self]
          rfl
        · rw [actions, run.fault_eq_none more stop first, Option.none_or, stopped]
      · obtain ⟨token, cause, here, phase, found⟩ := run.exists_fault more stop [] offends first
        refine ⟨token, cause, here, ?_, .inr ⟨offends, phase⟩⟩
        rw [actions, ← List.append_nil (occurrences.flatMap _), found, Option.some_or]

/-- If no token offends, the only fault is a jump without a label. -/
theorem Compilation.fault_of_not_offends {source : String} {tokens : List Token}
    (lexes : (Cursor.ofSource source).Lexes tokens) (output : Output)
    (none : ∀ index, ¬ Offends tokens index) :
    (Compilation.ofSource source output).fault? = .none ∨
      ∃ name loc, (Compilation.ofSource source output).fault? = some ⟨.labelMissing name, loc⟩ := by
  obtain ⟨walk, course, fault⟩ := Compilation.exists_course lexes
  rw [fault output]
  cases course with
  | @finished occurrences split run actions well =>
      obtain rfl : tokens = occurrences.map Occurrence.token ++ [] := by rw [split, List.append_nil]
      have stop : Stops (· = []) [] := by simp [Stops]
      have quiet := run.fault_eq_none ⟨[], rfl⟩ stop fun index _ => none index
      rw [actions, well, Names.fault_append, quiet, Option.none_or, Option.or_none]
      cases missing : (Names.afterAll {} (occurrences.flatMap Occurrence.deeds)).missing? with
      | none => exact .inl (by simp [Names.fault?, Action.fault?, missing])
      | some jump => exact .inr ⟨jump.1, jump.2, by simp [Names.fault?, Action.fault?, missing]⟩
  | @refused occurrences token others language _ split run more never _ _ _ =>
      subst split
      have stop : Stops language (token :: others) := by
        rintro _ ⟨⟩
        exact never
      exact absurd (.inl ((run.misplaced_iff more stop).mpr ⟨rfl, List.cons_ne_nil _ _⟩))
        (none occurrences.length)

/-- If an index is of a sort, there is a first one that is. -/
theorem exists_first {sort : Nat → Prop} {index : Nat} (holds : sort index) :
    ∃ first, sort first ∧ ∀ earlier < first, ¬ sort earlier := by
  induction index using Nat.strongRecOn with
  | ind index ih =>
      by_cases sooner : ∃ earlier < index, sort earlier
      · obtain ⟨earlier, before, holds⟩ := sooner
        exact ih earlier before holds
      · exact ⟨index, holds, fun earlier before bad => sooner ⟨earlier, before, bad⟩⟩

/-- The first diagnostic of a text without faults of reading is exact. If a token offends, the first
that does is what the diagnostic points at: a fault of grammar if the token is misplaced, and one of
meaning if it is a name that is not set or a label that was. If no token offends, the source is
compiled or fails at a jump without a label. So a fault of grammar is always reported at the first
token that no program has there. -/
theorem compile_first_offence {source : String} {tokens : List Token}
    (lexes : (Cursor.ofSource source).Lexes tokens) :
    (∀ index, Offends tokens index → (∀ earlier < index, ¬ Offends tokens earlier) →
      ∃ token diagnostic, tokens[index]? = some token ∧ compile source = .error diagnostic ∧
        diagnostic.position = Position.ofOffset (sourceText source) token.loc ∧
        (Misplaced tokens index → diagnostic.phase = .grammar) ∧
        (Unset tokens index ∨ Repeated tokens index → diagnostic.phase = .meaning)) ∧
    ((∀ index, ¬ Offends tokens index) →
      (∃ program, compile source = .ok program) ∨
        ∃ name loc, compile source =
          .error (Fault.diagnose ⟨.labelMissing name, loc⟩ (sourceText source))) ∧
    (∀ diagnostic, compile source = .error diagnostic → diagnostic.phase = .grammar →
      ∃ index token, Misplaced tokens index ∧ tokens[index]? = some token ∧
        diagnostic.position = Position.ofOffset (sourceText source) token.loc) := by
  refine ⟨?_, ?_, ?_⟩
  · intro index offends first
    obtain ⟨token, cause, here, fault, phase⟩ :=
      Compilation.exists_fault_of_offends lexes {} offends first
    refine ⟨token, _, here, compile_eq_error_iff.mpr ⟨_, fault, rfl⟩, rfl, ?_, ?_⟩
    · intro misplaced
      rcases phase with ⟨-, phase⟩ | ⟨named, -⟩
      · exact phase
      · exact absurd misplaced (not_misplaced_of_named named)
    · intro named
      rcases phase with ⟨misplaced, -⟩ | ⟨-, phase⟩
      · exact absurd misplaced (not_misplaced_of_named named)
      · exact phase
  · intro none
    rcases Compilation.fault_of_not_offends lexes {} none with quiet | ⟨name, loc, fault⟩
    · exact .inl ⟨_, compile_eq_ok_iff.mpr ⟨quiet, rfl⟩⟩
    · exact .inr ⟨name, loc, compile_eq_error_iff.mpr ⟨_, fault, rfl⟩⟩
  · intro diagnostic failed phase
    obtain ⟨fault, found, rfl⟩ := compile_eq_error_iff.mp failed
    by_cases some : ∃ index, Offends tokens index
    · obtain ⟨_, offends⟩ := some
      obtain ⟨index, offends, first⟩ := exists_first offends
      obtain ⟨token, cause, here, fault', phase'⟩ :=
        Compilation.exists_fault_of_offends lexes {} offends first
      obtain rfl := Option.some.inj (found.symm.trans fault')
      rcases phase' with ⟨misplaced, -⟩ | ⟨-, meaning⟩
      · exact ⟨index, token, misplaced, here, rfl⟩
      · cases phase.symm.trans meaning
    · have none (index : Nat) (offends : Offends tokens index) : False := some ⟨index, offends⟩
      rcases Compilation.fault_of_not_offends lexes {} none with quiet | ⟨name, loc, fault'⟩
      · cases found.symm.trans quiet
      · obtain rfl := Option.some.inj (found.symm.trans fault')
        cases phase

/-- A guard that ends before it compares is a fault of grammar where it ends, the first token that
no program has there. -/
theorem compile_guard_without_comparison :
    let tokens : List Token := [⟨.ifWord, "IF", 0⟩, ⟨.number, "1", 3⟩, ⟨.thenWord, "THEN", 5⟩,
      ⟨.newline, "\n", 9⟩, ⟨.eof, "", 10⟩]
    (Cursor.ofSource "IF 1 THEN").Lexes tokens ∧
      compile "IF 1 THEN" =
        .error ⟨.grammar, ⟨1, 6⟩, "expected comparison operator at: THEN"⟩ ∧
      ∃ index token, Misplaced tokens index ∧ tokens[index]? = some token ∧
        ⟨1, 6⟩ = Position.ofOffset (sourceText "IF 1 THEN") token.loc := by
  intro tokens
  have lexes : (Cursor.ofSource "IF 1 THEN").Lexes tokens :=
    .read (by rfl) (by decide) (.read (by rfl) (by decide) (.read (by rfl) (by decide)
      (.read (by rfl) (by decide) (.finish (by rfl) rfl))))
  have failed : compile "IF 1 THEN" =
      .error ⟨.grammar, ⟨1, 6⟩, "expected comparison operator at: THEN"⟩ := by
    have supply : (Cursor.ofSource "IF 1 THEN").supply =
        ⟨tokens.dropLast, .ok ⟨.eof, "", 10⟩⟩ := Cursor.Lexes.supply_eq lexes
    rw [compile, Compilation.ofSource, Cursor.compile, supply]
    rfl
  exact ⟨lexes, failed, (compile_first_offence lexes).2.2 _ failed rfl⟩

end TeenyTiny
