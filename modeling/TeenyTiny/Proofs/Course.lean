import TeenyTiny.Compilation
import TeenyTiny.Proofs.Moves
import TeenyTiny.Proofs.Shape

/-!
# The course of a walk

A walk along the tokens of a text without faults passes some of them and then stops: at the end of
the text, where the program is complete, or at a token that it refuses (`Course`). What it passes is
a run (`Run`): each token leads from the language of what may come to what may come after it, and
has one role. The actions about names are those of these roles in order.

Every walk along such tokens takes a course (`course_walk`), since every move follows the grammar. A
run from the start is the front of every program with these kinds (`Run.exists_of_program`), and in
all of them its identifiers have the roles of the run (`Run.mayDerive_iff`).
-/

set_option autoImplicit false

namespace TeenyTiny

open Grammar

/-! ## Steps of a walk -/

theorem Walk.after_after (first second : List Action) (walk : Walk) :
    (walk.after second).after first = walk.after (first ++ second) := by
  simp [Walk.after]

section Steps

variable {ending : Option Fault} {place place' : Place} {blocks blocks' : List Block}
  {owed owed' : List Action} {current ahead next : Token} {tokens : List Token}

/-- Before two tokens, a token can always be read ahead. -/
theorem exists_window (body : List Token) (next after : Token) (rest : List Token) :
    ∃ current ahead tokens, body ++ next :: after :: rest = current :: ahead :: tokens := by
  rcases body with _ | ⟨current, _ | ⟨ahead, body⟩⟩
  · exact ⟨_, _, _, rfl⟩
  · exact ⟨_, _, _, rfl⟩
  · exact ⟨_, _, _, rfl⟩

/-- What is owed is done before anything else, as long as a token can be read ahead. -/
theorem walk_owed (ending : Option Fault) (place : Place) (blocks : List Block)
    (owed : List Action) (current ahead : Token) (tokens : List Token) :
    walk ending place blocks owed (current :: ahead :: tokens) =
      (walk ending place blocks [] (current :: ahead :: tokens)).after owed := by
  rw [walk, walk]
  split
  · simp [Walk.after_after]
  · simp [Walk.after]
  · simp [Walk.after]

theorem walk_of_pass
    (passed : (place.move blocks current ahead.kind).step = .pass place' blocks' owed) :
    walk ending place blocks [] (current :: ahead :: next :: tokens) =
      (walk ending place' blocks' [] (ahead :: next :: tokens)).after
        ((place.move blocks current ahead.kind).now ++ owed) := by
  rw [walk]
  simp only [passed, List.nil_append]
  rw [walk_owed, Walk.after_after]

theorem walk_of_refuse {cause : Cause}
    (refused : (place.move blocks current ahead.kind).step = .refuse cause) :
    walk ending place blocks [] (current :: ahead :: tokens) =
      ⟨(place.move blocks current ahead.kind).now, some ⟨cause, current.loc⟩⟩ := by
  rw [walk]
  simp only [refused, List.nil_append]

theorem walk_of_finish (finished : (place.move blocks current ahead.kind).step = .finish) :
    walk ending place blocks [] (current :: ahead :: tokens) =
      ⟨(place.move blocks current ahead.kind).now, none⟩ := by
  rw [walk]
  simp only [finished, List.nil_append]

end Steps

/-! ## Runs -/

/-- Passing an occurrence leads from what may come before it to what may come after it. -/
def Leads (language : List Symbol → Prop) (occurrence : Occurrence)
    (language' : List Symbol → Prop) : Prop :=
  ∀ symbol others, symbol.kind = occurrence.token.kind →
    (language (symbol :: others) ↔ symbol.role? = occurrence.role? ∧ language' others)

/-- Passing occurrences one after the other leads from what may come before them to what may come
after them. -/
inductive Run : (List Symbol → Prop) → List Occurrence → (List Symbol → Prop) → Prop where
  | nil {language : List Symbol → Prop} : Run language [] language
  | cons {language middle language' : List Symbol → Prop} {occurrence : Occurrence}
      {occurrences : List Occurrence} :
      Leads language occurrence middle → Run middle occurrences language' →
        Run language (occurrence :: occurrences) language'

namespace Run

variable {language language' : List Symbol → Prop} {occurrences : List Occurrence}

/-- The passed tokens have one role each, and then comes what may come after them. -/
theorem append_iff (run : Run language occurrences language') {symbols : List Symbol}
    (rest : List Symbol) (same : symbols.map Symbol.kind = occurrences.map (·.token.kind)) :
    language (symbols ++ rest) ↔
      symbols = occurrences.map Occurrence.symbol ∧ language' rest := by
  induction run generalizing symbols with
  | nil =>
      obtain rfl := List.map_eq_nil_iff.mp same
      simp
  | cons leads _ ih =>
      cases symbols with
      | nil => cases same
      | cons symbol symbols =>
          obtain ⟨kind, kinds⟩ := List.cons.inj same
          rw [List.cons_append, leads symbol _ kind, ih kinds, ← and_assoc, List.map_cons,
            List.cons.injEq]
          refine and_congr_left fun _ => and_congr_left fun _ => ?_
          cases symbol
          simp only [Occurrence.symbol, Symbol.mk.injEq]
          exact ⟨fun role => ⟨kind, role⟩, And.right⟩

/-- A run can be stopped anywhere and taken up again. -/
theorem split (run : Run language occurrences language') (count : Nat) :
    ∃ middle, Run language (occurrences.take count) middle ∧
      Run middle (occurrences.drop count) language' := by
  induction run generalizing count with
  | nil => exact ⟨_, by simpa using Run.nil, by simpa using Run.nil⟩
  | cons leads later ih =>
      cases count with
      | zero => exact ⟨_, .nil, .cons leads later⟩
      | succ count =>
          obtain ⟨middle, before, after⟩ := ih count
          exact ⟨middle, .cons leads before, after⟩

end Run

/-! ## Courses -/

/-- How a walk along tokens, the last of which is the end of the text, goes from a place. -/
inductive Course (language : List Symbol → Prop) (tokens : List Token) (walk : Walk) : Prop where
  /-- Every token is passed, the end of the text included, which completes the program. -/
  | finished {occurrences : List Occurrence} :
      tokens = occurrences.map Occurrence.token → Run language occurrences (· = []) →
      walk.actions.filter Action.naming =
        occurrences.flatMap Occurrence.deeds ++ [.settle] →
      walk.fault? = none → Course language tokens walk
  /-- A token is refused. Something else may come in its place. -/
  | refused {occurrences : List Occurrence} {token : Token} {others : List Token}
      {language' : List Symbol → Prop} {cause : Cause} :
      tokens = occurrences.map Occurrence.token ++ token :: others →
      Run language occurrences language' → (∃ symbols, language' symbols) →
      (∀ symbol others, symbol.kind = token.kind → ¬ language' (symbol :: others)) →
      walk.actions.filter Action.naming = occurrences.flatMap Occurrence.deeds →
      cause.phase = .grammar → walk.fault? = some ⟨cause, token.loc⟩ →
      Course language tokens walk

/-- A course after a token that is passed. -/
theorem Course.cons {language middle : List Symbol → Prop} {tokens : List Token} {walk : Walk}
    {occurrence : Occurrence} {first : List Action} (leads : Leads language occurrence middle)
    (deeds : first.filter Action.naming = occurrence.deeds) (course : Course middle tokens walk) :
    Course language (occurrence.token :: tokens) (walk.after first) := by
  cases course with
  | @finished occurrences split run actions fault =>
      have whole : occurrence.token :: tokens =
          (occurrence :: occurrences).map Occurrence.token := by
        rw [split]
        rfl
      exact .finished whole (.cons leads run) (by simp [Walk.after, deeds, actions]) fault
  | @refused occurrences token others _ _ split run viable never actions phase fault =>
      have whole : occurrence.token :: tokens =
          (occurrence :: occurrences).map Occurrence.token ++ token :: others := by
        rw [split]
        rfl
      exact .refused whole (.cons leads run) viable never (by simp [Walk.after, deeds, actions])
        phase fault

@[simp] theorem Move.step_after (first : List Action) (move : Move) :
    (move.after first).step = move.step := rfl

/-- The end of the text is never passed. -/
theorem Place.step_of_eof {place : Place} {blocks : List Block} {token : Token} {next : Kind}
    (ended : token.kind = .eof) (place' : Place) (blocks' : List Block) (owed : List Action) :
    (place.move blocks token next).step ≠ .pass place' blocks' owed := by
  have expected (wanted : Kind) (other : wanted ≠ .eof) (place : Place) (blocks : List Block)
      (owed' : List Action) :
      (expect wanted token place blocks owed').step ≠ .pass place' blocks' owed := by
    simp [expect, ended, other.symm, Move.refuse]
  have line (blocks : List Block) :
      (atLine blocks token next).step ≠ .pass place' blocks' owed := by
    cases blocks with
    | nil => simp [atLine, ended]
    | cons block _ => cases block <;> simp [atLine, ended, Block.closer, Move.refuse]
  have operand (purpose : Purpose) :
      (atOperand purpose blocks token).step ≠ .pass place' blocks' owed := by
    simp [atOperand, atPrimary, ended, Kind.isSign, Move.after, Move.refuse]
  cases place with
  | line => exact line blocks
  | printItem => simpa [move, atPrintItem, ended] using operand .printed
  | operand purpose => exact operand purpose
  | primary purpose => simp [move, atPrimary, ended, Move.after, Move.refuse]
  | operator purpose =>
      cases purpose with
      | printed | assigned =>
          simpa [move, atOperator, ended, closeExpression, endLine] using
            expected .newline (by decide) _ _ _
      | guard block =>
          simp [move, atOperator, ended, closeExpression, Kind.isComparison, Move.refuse]
      | compared block =>
          simpa [move, atOperator, ended, closeExpression, Kind.isComparison] using
            expected block.lead (by cases block <;> decide) _ _ _
  | labelName | gotoName | letName | letSign _ | inputName | lineEnd | leadEnd _ =>
      exact expected _ (by decide) _ _ _
  | bodyStart block => simpa [move, atBodyStart, ended] using line (block :: blocks)

/-- Every walk along the tokens of a text without faults has a course. -/
theorem course_walk (ending : Option Fault) {last : Token} (ended : last.kind = .eof)
    (body : List Token) (place : Place) (blocks : List Block)
    (inside : ∀ token ∈ body, token.kind ≠ .eof) :
    Course (place.Remainder blocks) (body ++ [last])
      (walk ending place blocks [] (body ++ [last, last])) := by
  induction body generalizing place blocks with
  | nil =>
      have fits := Place.fits_move place blocks last last.kind
      unfold Place.Fits at fits
      rw [List.nil_append, List.nil_append]
      split at fits
      · next step => exact absurd step (Place.step_of_eof ended _ _ _)
      · next cause step =>
          obtain ⟨quiet, phase, never⟩ := fits
          rw [walk_of_refuse step]
          exact .refused rfl .nil (place.exists_remainder blocks) never quiet phase rfl
      · next step =>
          obtain ⟨settled, -, ends⟩ := fits
          have here : Leads (place.Remainder blocks) ⟨last, none⟩ (· = []) := ends
          rw [walk_of_finish step]
          exact .finished rfl (.cons here .nil) settled rfl
  | cons token body ih =>
      obtain ⟨ahead, next, tokens, window⟩ := exists_window body last last []
      have later (place : Place) (blocks : List Block) := ih place blocks fun other member =>
        inside other (List.mem_cons_of_mem token member)
      have fits := Place.fits_move place blocks token ahead.kind
      unfold Place.Fits at fits
      rw [List.cons_append, List.cons_append, window]
      split at fits
      · next middle middle' owed step =>
          obtain ⟨role?, deeds, leads⟩ := fits
          have here : Leads (place.Remainder blocks) ⟨token, role?⟩ (middle.Remainder middle') :=
            leads
          have course := later middle middle'
          rw [window] at course
          rw [walk_of_pass step]
          exact .cons here deeds course
      · next cause step =>
          obtain ⟨quiet, phase, never⟩ := fits
          rw [walk_of_refuse step]
          exact .refused rfl .nil (place.exists_remainder blocks) never quiet phase rfl
      · next step =>
          obtain ⟨-, kind, -⟩ := fits
          exact absurd kind (inside token List.mem_cons_self)

/-! ## Runs from the start of a program -/

namespace Run

variable {language : List Symbol → Prop} {occurrences : List Occurrence}

/-- What a run passes, with what may come after it, is a program. -/
theorem program_append (run : Run (Lines []) occurrences language) {rest : List Symbol}
    (after : language rest) :
    Derivation.Program (occurrences.map Occurrence.symbol ++ rest) := by
  rw [program_iff_lines, run.append_iff rest (List.map_map ..)]
  exact ⟨rfl, after⟩

theorem program_kinds (run : Run (Lines []) occurrences language) {rest : List Symbol}
    (after : language rest) :
    Program (occurrences.map (·.token.kind) ++ rest.map Symbol.kind) := by
  refine program_iff_exists_derivation.mpr ⟨_, run.program_append after, ?_⟩
  rw [List.map_append, List.map_map]
  rfl

/-- What a run passes to the end is a program. -/
theorem program (run : Run (Lines []) occurrences (· = [])) :
    Program ((occurrences.map Occurrence.token).map Token.kind) := by
  have whole := run.program_kinds rfl
  rw [List.map_nil, List.append_nil] at whole
  rwa [List.map_map]

/-- A program that goes on where a run stops goes on as it may there. -/
theorem exists_of_program (run : Run (Lines []) occurrences language) {kinds : List Kind}
    (program : Program (occurrences.map (·.token.kind) ++ kinds)) :
    ∃ rest, rest.map Symbol.kind = kinds ∧ language rest := by
  obtain ⟨symbols, derivation, same⟩ := program_iff_exists_derivation.mp program
  obtain ⟨first, rest, rfl, passed, rfl⟩ := List.map_eq_append_iff.mp same
  rw [program_iff_lines, run.append_iff rest passed] at derivation
  exact ⟨rest, rfl, derivation.2⟩

/-- An identifier that a run passes has its role in every program that starts so. -/
theorem mayDerive_iff (run : Run (Lines []) occurrences language)
    (more : ∃ rest, language rest) {kinds : List Kind} {index : Nat} {role : Role}
    {occurrence : Occurrence} (here : occurrences[index]? = some occurrence)
    (same : kinds.take (index + 1) = (occurrences.take (index + 1)).map (·.token.kind)) :
    MayDerive kinds index role ↔ occurrence.role? = some role := by
  have bound := (List.getElem?_eq_some_iff.mp here).1
  constructor
  · rintro ⟨rest, symbols, symbol, program, whole, there, role⟩
    obtain ⟨middle, before, -⟩ := run.split (index + 1)
    rw [same] at whole
    obtain ⟨first, others, rfl, passed, -⟩ := List.map_eq_append_iff.mp whole
    rw [program_iff_lines, before.append_iff others passed] at program
    obtain ⟨rfl, -⟩ := program
    rw [List.getElem?_append_left (by simp; omega), List.getElem?_map,
      List.getElem?_take_of_succ, here] at there
    cases there
    exact role
  · intro role
    obtain ⟨rest, after⟩ := more
    refine ⟨(occurrences.drop (index + 1)).map (·.token.kind) ++ rest.map Symbol.kind, _,
      occurrence.symbol, run.program_append after, ?_, ?_, role⟩
    · rw [same, ← List.append_assoc, ← List.map_append, List.take_append_drop, List.map_append,
        List.map_map]
      rfl
    · rw [List.getElem?_append_left (by simpa using bound), List.getElem?_map, here]
      rfl

end Run

/-! ## Compiling -/

/-- The walk along a text without faults. -/
theorem Cursor.Lexes.walk_eq {cursor : Cursor} {body : List Token} {last : Token}
    (lexes : cursor.Lexes (body ++ [last])) :
    cursor.supply.walk = (walk none .line [] [] (body ++ [last, last])).after prologue := by
  obtain ⟨current, ahead, tokens, window⟩ := exists_window body last last []
  rw [Supply.walk, Supply.fault?, Supply.lookahead, lexes.supply_eq]
  simp only [window]
  exact walk_owed none .line [] prologue current ahead tokens

/-- Reading a text without faults is a course from the start of a program. -/
theorem Cursor.Lexes.exists_course {cursor : Cursor} {tokens : List Token}
    (lexes : cursor.Lexes tokens) :
    ∃ walk : Walk, cursor.supply.walk = walk.after prologue ∧ Course (Lines []) tokens walk := by
  obtain ⟨body, last, rfl, ended, inside⟩ := lexes.split
  exact ⟨_, lexes.walk_eq, course_walk none ended body .line [] inside⟩

/-- A program is complete only at the end of the text. -/
theorem Place.eof_of_finish {place : Place} {blocks : List Block} {token : Token} {next : Kind}
    (finished : (place.move blocks token next).step = .finish) : token.kind = .eof := by
  have fits := Place.fits_move place blocks token next
  unfold Place.Fits at fits
  simp only [finished] at fits
  exact fits.2.1

/-- Before the end of the text nothing is settled. -/
theorem Place.settle_not_mem (place : Place) (blocks : List Block) {token : Token} (next : Kind)
    (more : token.kind ≠ .eof) :
    Action.settle ∉ (place.move blocks token next).now ∧
      ∀ place' blocks' owed, (place.move blocks token next).step = .pass place' blocks' owed →
        Action.settle ∉ owed := by
  have fits := Place.fits_move place blocks token next
  unfold Place.Fits at fits
  cases step : (place.move blocks token next).step with
  | pass place' blocks' owed =>
      simp only [step] at fits
      obtain ⟨role?, deeds, -⟩ := fits
      have quiet := Occurrence.settle_not_mem_of_filter ⟨token, role?⟩ deeds
      obtain ⟨now, later⟩ := not_or.mp (mt List.mem_append.mpr quiet)
      refine ⟨now, ?_⟩
      rintro _ _ _ ⟨⟩
      exact later
  | refuse cause =>
      simp only [step] at fits
      exact ⟨Occurrence.settle_not_mem_of_filter ⟨token, none⟩ fits.1, nofun⟩
  | finish => exact absurd (Place.eof_of_finish step) more

/-- A walk along tokens before the end of the text settles nothing, and ends in a fault of grammar
or in the fault that ended the reading. -/
theorem walk_before_end (fault : Fault) {tokens : List Token} (place : Place)
    (blocks : List Block) (owed : List Action) (inside : ∀ token ∈ tokens, token.kind ≠ .eof)
    (unsettled : Action.settle ∉ owed) :
    Action.settle ∉ (walk (some fault) place blocks owed tokens).actions ∧
      ∃ fault', (walk (some fault) place blocks owed tokens).fault? = some fault' ∧
        (fault' = fault ∨ fault'.cause.phase = .grammar) := by
  induction tokens generalizing place blocks owed with
  | nil => exact ⟨List.not_mem_nil, fault, rfl, .inl rfl⟩
  | cons current tokens ih =>
      cases tokens with
      | nil => exact ⟨List.not_mem_nil, fault, rfl, .inl rfl⟩
      | cons ahead tokens =>
          obtain ⟨now, owes⟩ :=
            place.settle_not_mem blocks ahead.kind (inside current List.mem_cons_self)
          rw [walk]
          cases step : (place.move blocks current ahead.kind).step with
          | pass place' blocks' owed' =>
              obtain ⟨never, found⟩ := ih place' blocks' owed' (fun token member =>
                inside token (List.mem_cons_of_mem current member)) (owes _ _ _ step)
              exact ⟨by simp [Walk.after, unsettled, now, never], found⟩
          | refuse cause =>
              have fits := Place.fits_move place blocks current ahead.kind
              unfold Place.Fits at fits
              simp only [step] at fits
              exact ⟨by simp [unsettled, now], _, rfl, .inr fits.2.1⟩
          | finish =>
              exact absurd (Place.eof_of_finish step) (inside current List.mem_cons_self)

/-- A text is read without faults, or the walk along it settles nothing and ends in a fault of
reading or of grammar. -/
theorem Cursor.lexes_or_fault (cursor : Cursor) :
    (∃ tokens, cursor.Lexes tokens) ∨
      Action.settle ∉ cursor.supply.walk.actions ∧
        ∃ fault, cursor.supply.walk.fault? = some fault ∧ fault.cause.phase ≠ .meaning := by
  cases ending : cursor.supply.ending with
  | ok last => exact .inl ⟨_, Cursor.lexes_iff_supply.mpr ⟨last, ending, rfl⟩⟩
  | error fault =>
      have phase := Cursor.phase_of_ending ending
      obtain ⟨never, fault', found, causes⟩ := walk_before_end fault .line [] prologue
        cursor.more_of_mem_supply (by decide)
      refine .inr ?_
      rw [Supply.walk, Supply.fault?, Supply.lookahead, ending]
      refine ⟨never, fault', found, ?_⟩
      rcases causes with rfl | grammar
      · simp [phase]
      · simp [grammar]

namespace Compilation

/-- The fault of a compilation is the first rule about names that is broken, or else the fault that
ended the walk. -/
theorem fault_ofSource (source : String) (output : Output) :
    (ofSource source output).fault? =
      (Names.fault? {} (Cursor.ofSource source).supply.walk.actions).or
        (Cursor.ofSource source).supply.walk.fault? := by
  rw [ofSource, Cursor.compile, Draft.performAll_fault]

/-- What a compilation of a text without faults comes to. -/
theorem exists_course {source : String} {tokens : List Token}
    (lexes : (Cursor.ofSource source).Lexes tokens) :
    ∃ walk : Walk, Course (Lines []) tokens walk ∧ ∀ output,
      (ofSource source output).fault? =
        (Names.fault? {} (walk.actions.filter Action.naming)).or walk.fault? := by
  obtain ⟨walk, same, course⟩ := lexes.exists_course
  refine ⟨walk, course, fun output => ?_⟩
  rw [fault_ofSource, same, ← Names.fault_filter {} (walk.after prologue).actions]
  rfl

end Compilation

theorem compile_eq_ok_iff {source program : String} :
    compile source = .ok program ↔
      (Compilation.ofSource source {}).fault? = none ∧
        program = (Compilation.ofSource source {}).draft.output.render := by
  rw [compile, Compilation.result, Compilation.diagnostic?]
  cases (Compilation.ofSource source {}).fault? <;> simp [eq_comm]

theorem compile_eq_error_iff {source : String} {diagnostic : Diagnostic} :
    compile source = .error diagnostic ↔
      ∃ fault, (Compilation.ofSource source {}).fault? = some fault ∧
        diagnostic = fault.diagnose (sourceText source) := by
  rw [compile, Compilation.result, Compilation.diagnostic?]
  cases (Compilation.ofSource source {}).fault? <;> simp [eq_comm]

end TeenyTiny
