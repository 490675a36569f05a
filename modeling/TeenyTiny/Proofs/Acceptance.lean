import TeenyTiny.Proofs.Course

/-!
# Which sources are compiled

A source is compiled if and only if its text can be read to the end, its tokens are a program of the
grammar, and three rules about names hold: a variable has been set further up before it is read, no
two labels have one name, and every jump goes to a label of the program
(`compile_ok_iff_wellFormed`).

The rules are said of the places that a derivation gives the identifiers (`Occurs`), not of anything
that compiling keeps.
-/

set_option autoImplicit false

namespace TeenyTiny

open Grammar

/-- The identifier at an index of a program has a role and a name. -/
def Occurs (tokens : List Token) (role : Role) (index : Nat) (name : String) : Prop :=
  Derives (tokens.map Token.kind) index role ∧ ∃ token, tokens[index]? = some token ∧
    token.text = name

/-- Tokens that are a program and keep the rules about names. -/
structure WellFormed (tokens : List Token) : Prop where
  /-- The kinds of the tokens are a program. -/
  program : Program (tokens.map Token.kind)
  /-- A name that is read has been set further up. -/
  assigned : ∀ index name, Occurs tokens .read index name →
    ∃ earlier < index, Occurs tokens .target earlier name
  /-- Labels have different names. -/
  distinct : ∀ index other name, Occurs tokens .label index name →
    Occurs tokens .label other name → index = other
  /-- Every jump goes to a label. -/
  labelled : ∀ index name, Occurs tokens .jump index name →
    ∃ other, Occurs tokens .label other name

/-- In a program that a run has passed, names occur where the run has them. -/
theorem Run.occurs_iff {occurrences : List Occurrence} (run : Run (Lines []) occurrences (· = []))
    {role : Role} {index : Nat} {name : String} :
    Occurs (occurrences.map Occurrence.token) role index name ↔
      Occurrence.HasAt occurrences index role name := by
  constructor
  · rintro ⟨derives, token, there, rfl⟩
    rw [List.getElem?_map, Option.map_eq_some_iff] at there
    obtain ⟨occurrence, here, rfl⟩ := there
    refine ⟨occurrence, here, ?_, rfl⟩
    refine (run.mayDerive_iff ⟨[], rfl⟩ here ?_).mp derives.mayDerive
    simp [List.map_take, Function.comp_def]
  · rintro ⟨occurrence, here, role, rfl⟩
    refine ⟨⟨_, occurrence.symbol, run.program_append rfl, ?_, ?_, role⟩, occurrence.token, ?_, rfl⟩
    · rw [List.append_nil, List.map_map, List.map_map]
      rfl
    · rw [List.append_nil, List.getElem?_map, here]
      rfl
    · rw [List.getElem?_map, here]
      rfl

/-- Occurrences break no rule about names if names are set before they are read and no two labels
have one name. -/
theorem Occurrence.not_breaksAt_iff {occurrences : List Occurrence} :
    (∀ index, ¬ BreaksAt occurrences index) ↔
      (∀ index name, HasAt occurrences index .read name →
        ∃ earlier < index, HasAt occurrences earlier .target name) ∧
      ∀ index other name, HasAt occurrences index .label name →
        HasAt occurrences other .label name → index = other := by
  simp only [breaksAt_iff, not_or, forall_and]
  refine and_congr ?_ ?_
  · constructor
    · intro never index name read
      exact Classical.byContradiction fun unset => never index ⟨name, read, unset⟩
    · rintro assigned index ⟨name, read, unset⟩
      exact unset (assigned index name read)
  · constructor
    · intro never index other name here there
      -- the later of two labels of one name would break a rule
      rcases Nat.lt_trichotomy index other with before | same | after
      · exact absurd ⟨name, there, index, before, here⟩ (never other)
      · exact same
      · exact absurd ⟨name, here, other, after, there⟩ (never index)
    · rintro distinct index ⟨name, here, earlier, before, there⟩
      exact Nat.ne_of_lt before (distinct earlier index name there here)

/-- What settling the jumps comes to after occurrences. -/
theorem Names.settle_occurrences_none {occurrences : List Occurrence} :
    (Names.afterAll {} (occurrences.flatMap Occurrence.deeds)).fault? [.settle] = none ↔
      ∀ index name, Occurrence.HasAt occurrences index .jump name →
        ∃ other, Occurrence.HasAt occurrences other .label name := by
  simp only [fault?, Action.fault?, Option.or_none, Option.map_eq_none_iff, missing_eq_none,
    hasJump_occurrences, hasLabel_occurrences, Occurrence.HasAt, List.mem_iff_getElem?]
  constructor
  · rintro settled index name ⟨occurrence, here, has⟩
    obtain ⟨label, ⟨other, there⟩, has'⟩ := settled name ⟨occurrence, ⟨index, here⟩, has⟩
    exact ⟨other, label, there, has'⟩
  · rintro labelled name ⟨occurrence, ⟨index, here⟩, has⟩
    obtain ⟨other, label, there, has'⟩ := labelled index name ⟨occurrence, here, has⟩
    exact ⟨label, ⟨other, there⟩, has'⟩

/-- A text without faults is compiled if and only if its tokens are well-formed. -/
theorem Compilation.fault_eq_none_iff {source : String} {tokens : List Token}
    (lexes : (Cursor.ofSource source).Lexes tokens) (output : Output) :
    (Compilation.ofSource source output).fault? = none ↔ WellFormed tokens := by
  obtain ⟨walk, course, fault⟩ := Compilation.exists_course lexes
  rw [fault output, Option.or_eq_none_iff]
  cases course with
  | @finished occurrences split run actions well =>
      subst split
      rw [actions, Names.fault_append, Option.or_eq_none_iff, Names.fault_occurrences_none,
        Occurrence.not_breaksAt_iff, Names.settle_occurrences_none]
      simp only [← run.occurs_iff]
      constructor
      · rintro ⟨⟨⟨assigned, distinct⟩, labelled⟩, -⟩
        exact ⟨run.program, assigned, distinct, labelled⟩
      · rintro ⟨-, assigned, distinct, labelled⟩
        exact ⟨⟨⟨assigned, distinct⟩, labelled⟩, well⟩
  | @refused occurrences token others _ cause split run _ never _ _ stopped =>
      constructor
      · rintro ⟨-, well⟩
        rw [stopped] at well
        cases well
      · rintro ⟨program, -⟩
        rw [split, List.map_append, List.map_map] at program
        obtain ⟨rest, kinds, goes⟩ := run.exists_of_program program
        obtain ⟨symbol, rest, rfl, kind, -⟩ := List.map_eq_cons_iff.mp kinds
        exact absurd goes (never symbol rest kind)

/-- Acceptance is exactly the grammar and the rules about names: a source is compiled if and only if
its text can be read to the end and its tokens are a program in which every name that is read has
been set further up, labels have different names, and every jump goes to a label. -/
theorem compile_ok_iff_wellFormed (source : String) :
    (∃ program, compile source = .ok program) ↔
      ∃ tokens, (Cursor.ofSource source).Lexes tokens ∧ WellFormed tokens := by
  constructor
  · rintro ⟨program, compiled⟩
    obtain ⟨quiet, -⟩ := compile_eq_ok_iff.mp compiled
    rcases (Cursor.ofSource source).lexes_or_fault with ⟨tokens, lexes⟩ | ⟨-, fault, found, -⟩
    · exact ⟨tokens, lexes, (Compilation.fault_eq_none_iff lexes {}).mp quiet⟩
    · simp [Compilation.fault_ofSource, found] at quiet
  · rintro ⟨tokens, lexes, legal⟩
    exact ⟨_, compile_eq_ok_iff.mpr ⟨(Compilation.fault_eq_none_iff lexes {}).mpr legal, rfl⟩⟩

end TeenyTiny
