import TeenyTiny.Proofs.Acceptance
import TeenyTiny.Proofs.Concatenation
import TeenyTiny.Proofs.FaultTokens
import TeenyTiny.Proofs.FirstFault
import TeenyTiny.Proofs.Grouping
import TeenyTiny.Proofs.Spacing

/-!
# Jumps without a label

Jumps are settled when everything has been read, and one that goes astray is reported then. If the
reader gets that far (`Walk.Completes`), which is to say that no token offends
(`Cursor.Lexes.completes_iff`), a source fails if and only if a jump goes to a label that is set
nowhere, and the first such jump in the text is the one that is reported (`compile_astray_jump`).

Only the first jump to each label is kept, and the earliest of those without a label is reported.
Leaving out later jumps to the same label does not change which one comes first
(`Names.find_jumpTo`), and the jumps that are kept stand at different offsets
(`Names.jumps_sublist`). So it does not matter in which order they are kept either
(`Names.earliest_of_perm`).
-/

set_option autoImplicit false

namespace TeenyTiny

open Grammar

/-! ## The jump that is reported -/

namespace Names

theorem le_of_earliest {jumps : List (String × Nat)} {jump : String × Nat}
    (found : earliest? jumps = some jump) : ∀ other ∈ jumps, jump.2 ≤ other.2 := by
  induction jumps generalizing jump with
  | nil => cases found
  | cons first jumps ih =>
      rw [earliest?] at found
      cases later : earliest? jumps with
      | none =>
          rw [later] at found
          cases found
          rw [earliest_eq_none.mp later]
          simp
      | some least =>
          simp only [later] at found
          have before := ih later
          refine List.forall_mem_cons.mpr ?_
          split at found
          · next sooner =>
              cases found
              exact ⟨Nat.le_refl _, fun other member => Nat.le_trans sooner (before other member)⟩
          · next sooner =>
              cases found
              exact ⟨Nat.le_of_not_le sooner, before⟩

/-- The jump that comes before all others is the earliest, in whatever order they are. -/
theorem earliest_of_least {jumps : List (String × Nat)} {jump : String × Nat}
    (member : jump ∈ jumps) (least : ∀ other ∈ jumps, other ≠ jump → jump.2 < other.2) :
    earliest? jumps = some jump := by
  cases found : earliest? jumps with
  | none =>
      rw [earliest_eq_none.mp found] at member
      cases member
  | some other =>
      by_cases same : other = jump
      · rw [same]
      · have after := least other (mem_of_earliest found) same
        have before := le_of_earliest found jump member
        omega

/-- Of jumps at different offsets the earliest is the same in every order. -/
theorem earliest_of_perm {jumps order : List (String × Nat)}
    (ordered : jumps.Pairwise (·.2 < ·.2)) (perm : order.Perm jumps) :
    earliest? order = earliest? jumps := by
  cases jumps with
  | nil => rw [perm.eq_nil]
  | cons first others =>
      obtain ⟨before, -⟩ := List.pairwise_cons.mp ordered
      have least : ∀ other ∈ first :: others, other ≠ first → first.2 < other.2 := by
        intro other member different
        rcases List.mem_cons.mp member with same | later
        · exact absurd same different
        · exact before other later
      rw [earliest_of_least List.mem_cons_self least]
      refine earliest_of_least (perm.mem_iff.mpr List.mem_cons_self) ?_
      intro other member
      exact least other (perm.mem_iff.mp member)

/-- Which jump lacks its label does not depend on the order in which jumps are kept. -/
theorem missing_of_perm {names : Names} {order : List (String × Nat)}
    (ordered : names.jumps.Pairwise (·.2 < ·.2)) (perm : order.Perm names.jumps) :
    missing? { names with jumps := order } = names.missing? :=
  earliest_of_perm (ordered.filter _) (perm.filter _)

/-- A second jump to a label does not matter to which jump is the first of a sort. -/
theorem find_jumpTo (names : Names) (sort : String → Bool) (name : String) (loc : Nat) :
    (names.jumpTo name loc).jumps.find? (sort ·.1) =
      (names.jumps ++ [(name, loc)]).find? (sort ·.1) := by
  unfold jumpTo
  split
  · next known =>
      rw [List.find?_append]
      cases found : names.jumps.find? (sort ·.1) with
      | some jump => rfl
      | none =>
          obtain ⟨jump, member, same⟩ := List.any_eq_true.mp known
          have other := List.find?_eq_none.mp found jump member
          rw [beq_iff_eq.mp same] at other
          simp [other]
  · rfl

theorem jumpTo_sublist (names : Names) (name : String) (loc : Nat) :
    (names.jumpTo name loc).jumps.Sublist (names.jumps ++ [(name, loc)]) := by
  unfold jumpTo
  split
  · exact List.sublist_append_left _ _
  · exact List.Sublist.refl _

end Names

/-! ## Jumps along a program -/

namespace Occurrence

/-- The label that an occurrence jumps to, and the offset of the jump. -/
def jump? (occurrence : Occurrence) : Option (String × Nat) :=
  match occurrence.role? with
  | some .jump => some (occurrence.token.text, occurrence.token.loc)
  | _ => none

theorem jump_eq_some_iff {occurrence : Occurrence} {jump : String × Nat} :
    occurrence.jump? = some jump ↔
      occurrence.role? = some .jump ∧ jump = (occurrence.token.text, occurrence.token.loc) := by
  rcases occurrence with ⟨token, _ | _ | _ | _ | _⟩ <;> simp [jump?, eq_comm]

/-- The first occurrence that jumps to a label of a sort. -/
theorem find_jumps {occurrences : List Occurrence} {index : Nat} {occurrence : Occurrence}
    (sort : String → Bool) (here : occurrences[index]? = some occurrence)
    (jumps : occurrence.role? = some .jump) (sorted : sort occurrence.token.text = true)
    (first : ∀ earlier < index, ∀ name, HasAt occurrences earlier .jump name →
      sort name = false) :
    (occurrences.filterMap jump?).find? (sort ·.1) =
      some (occurrence.token.text, occurrence.token.loc) := by
  obtain ⟨bound, rfl⟩ := List.getElem?_eq_some_iff.mp here
  have whole : occurrences = occurrences.take index ++ occurrences[index] ::
      occurrences.drop (index + 1) := by
    rw [← List.drop_eq_getElem_cons bound, List.take_append_drop]
  refine List.find?_eq_some_iff_append.mpr ⟨sorted, (occurrences.take index).filterMap jump?,
    (occurrences.drop (index + 1)).filterMap jump?, ?_, ?_⟩
  · conv => lhs; rw [whole]
    rw [List.filterMap_append, List.filterMap_cons_some (jump_eq_some_iff.mpr ⟨jumps, rfl⟩)]
  · intro jump member
    obtain ⟨other, inside, same⟩ := List.mem_filterMap.mp member
    obtain ⟨role, rfl⟩ := jump_eq_some_iff.mp same
    obtain ⟨earlier, before, there⟩ := exists_mem_take_iff.mp ⟨other, inside, role, rfl⟩
    simp [first earlier before _ there]

end Occurrence

namespace Names

/-- Only a jump changes the jumps that are kept. -/
theorem jumps_deeds (names : Names) (occurrence : Occurrence) :
    (names.afterAll occurrence.deeds).jumps =
      match occurrence.jump? with
      | none => names.jumps
      | some jump => (names.jumpTo jump.1 jump.2).jumps := by
  rcases occurrence with ⟨token, _ | _ | _ | _ | _⟩ <;>
    simp [Occurrence.deeds, Occurrence.jump?, afterAll, after]

/-- Among the jumps that are kept, the first of a sort is the first of all that were met. -/
theorem find_jumps_afterAll (names : Names) (sort : String → Bool)
    (occurrences : List Occurrence) :
    (names.afterAll (occurrences.flatMap Occurrence.deeds)).jumps.find? (sort ·.1) =
      (names.jumps ++ occurrences.filterMap Occurrence.jump?).find? (sort ·.1) := by
  induction occurrences generalizing names with
  | nil => simp [afterAll]
  | cons occurrence occurrences ih =>
      rw [List.flatMap_cons, afterAll_append, ih, jumps_deeds]
      cases jumps : occurrence.jump? with
      | none => rw [List.filterMap_cons_none jumps]
      | some jump =>
          rw [List.filterMap_cons_some jumps, List.find?_append, find_jumpTo, ← List.find?_append,
            List.append_assoc, List.singleton_append]

/-- The jumps that are kept are some of those that were met, in their order. -/
theorem jumps_sublist (names : Names) (occurrences : List Occurrence) :
    (names.afterAll (occurrences.flatMap Occurrence.deeds)).jumps.Sublist
      (names.jumps ++ occurrences.filterMap Occurrence.jump?) := by
  induction occurrences generalizing names with
  | nil => simp [afterAll]
  | cons occurrence occurrences ih =>
      rw [List.flatMap_cons, afterAll_append]
      refine (ih _).trans ?_
      rw [jumps_deeds]
      cases jumps : occurrence.jump? with
      | none => simp [jumps]
      | some jump =>
          have kept := (names.jumpTo_sublist jump.1 jump.2).append_right
            (occurrences.filterMap Occurrence.jump?)
          rwa [List.append_assoc, List.singleton_append,
            ← List.filterMap_cons_some (l := occurrences) jumps] at kept

/-- Along tokens in order, the jumps that are kept stand at different offsets. -/
theorem pairwise_jumps {occurrences : List Occurrence}
    (ordered : (occurrences.map Occurrence.token).Pairwise (·.loc < ·.loc)) :
    (afterAll {} (occurrences.flatMap Occurrence.deeds)).jumps.Pairwise (·.2 < ·.2) := by
  refine List.Pairwise.sublist (jumps_sublist {} occurrences) ?_
  refine List.pairwise_filterMap.mpr ((List.pairwise_map.mp ordered).imp ?_)
  intro first second before jump found jump' found'
  obtain ⟨-, rfl⟩ := Occurrence.jump_eq_some_iff.mp found
  obtain ⟨-, rfl⟩ := Occurrence.jump_eq_some_iff.mp found'
  exact before

/-- After occurrences in order, the first jump without a label is the one that is missing. -/
theorem missing_occurrences {occurrences : List Occurrence}
    (ordered : (occurrences.map Occurrence.token).Pairwise (·.loc < ·.loc)) {index : Nat}
    {occurrence : Occurrence} (here : occurrences[index]? = some occurrence)
    (jumps : occurrence.role? = some .jump)
    (astray : ¬ ∃ other ∈ occurrences, other.Has .label occurrence.token.text)
    (first : ∀ earlier < index, ∀ name, Occurrence.HasAt occurrences earlier .jump name →
      ∃ other ∈ occurrences, other.Has .label name) :
    (afterAll {} (occurrences.flatMap Occurrence.deeds)).missing? =
      some (occurrence.token.text, occurrence.token.loc) := by
  have kept := pairwise_jumps ordered
  rw [missing_of_ordered (kept.imp Nat.le_of_lt), find_jumps_afterAll {} (fun name => !_)]
  rw [show (Names.jumps {}) = [] from rfl, List.nil_append]
  refine Occurrence.find_jumps (fun name => !_) here jumps ?_ ?_
  · rw [Bool.not_eq_true', ← Bool.not_eq_true, hasLabel_occurrences]
    exact astray
  · intro earlier before name there
    rw [Bool.not_eq_false', hasLabel_occurrences]
    exact first earlier before name there

end Names

/-! ## Reading to the end -/

/-- The token at an index jumps to a label that is set nowhere. -/
def Astray (tokens : List Token) (index : Nat) : Prop :=
  ∃ name, Occurs tokens .jump index name ∧ ¬ ∃ other, Occurs tokens .label other name

namespace Walk

/-- What comes of a walk before its jumps are settled. -/
def unsettled (walk : Walk) : Draft × Option Fault :=
  Draft.performAll {} (walk.actions.filter (· ≠ .settle))

/-- A walk that is refused nothing and breaks no rule about names before its jumps are settled. -/
def Completes (walk : Walk) : Prop :=
  walk.fault? = none ∧ walk.unsettled.2 = none

variable {walk : Walk} {occurrences : List Occurrence}

/-- Before the jumps are settled, names change as the identifiers have it. -/
theorem filter_unsettled (actions : walk.actions.filter Action.naming =
      occurrences.flatMap Occurrence.deeds ++ [.settle]) :
    ((walk.after prologue).actions.filter (· ≠ .settle)).filter Action.naming =
      occurrences.flatMap Occurrence.deeds := by
  have unsettled : ∀ action ∈ occurrences.flatMap Occurrence.deeds,
      decide (action ≠ .settle) = true := by
    intro action member
    obtain ⟨occurrence, -, calls⟩ := List.mem_flatMap.mp member
    refine decide_eq_true ?_
    rintro rfl
    exact occurrence.settle_not_mem_deeds calls
  have early : prologue.filter Action.naming = [] := rfl
  rw [List.filter_filter, funext fun action => Bool.and_comm _ _, ← List.filter_filter, after,
    List.filter_append, early, List.nil_append, actions, List.filter_append,
    List.filter_eq_self.mpr unsettled]
  exact List.append_nil _

theorem unsettled_fault (actions : walk.actions.filter Action.naming =
      occurrences.flatMap Occurrence.deeds ++ [.settle]) :
    (walk.after prologue).unsettled.2 = Names.fault? {} (occurrences.flatMap Occurrence.deeds) := by
  rw [unsettled, Draft.performAll_fault, ← filter_unsettled actions, Names.fault_filter]

theorem unsettled_names (actions : walk.actions.filter Action.naming =
      occurrences.flatMap Occurrence.deeds ++ [.settle])
    (quiet : Names.fault? {} (occurrences.flatMap Occurrence.deeds) = none) :
    (walk.after prologue).unsettled.1.names =
      Names.afterAll {} (occurrences.flatMap Occurrence.deeds) := by
  rw [← filter_unsettled actions, Names.fault_filter] at quiet
  rw [unsettled, Draft.performAll_of_quiet quiet, Draft.foldl_names, ← filter_unsettled actions,
    Names.afterAll_filter]

end Walk

/-- The reader gets to the end if and only if no token offends. -/
theorem Cursor.Lexes.completes_iff {cursor : Cursor} {tokens : List Token}
    (lexes : cursor.Lexes tokens) :
    cursor.supply.walk.Completes ↔ ∀ index, ¬ Offends tokens index := by
  obtain ⟨walk, same, course⟩ := lexes.exists_course
  rw [same]
  cases course with
  | @finished occurrences split run actions well =>
      obtain rfl : tokens = occurrences.map Occurrence.token ++ [] := by rw [split, List.append_nil]
      have stop : Stops (· = []) [] := by simp [Stops]
      have breaks (index : Nat) : Offends (occurrences.map Occurrence.token ++ []) index ↔
          Occurrence.BreaksAt occurrences index := by
        rw [Offends, run.unset_or_repeated_iff ⟨[], rfl⟩ stop, run.misplaced_iff ⟨[], rfl⟩ stop]
        simp
      simp only [Walk.Completes, Walk.unsettled_fault actions, Names.fault_occurrences_none, breaks]
      exact and_iff_right well
  | @refused occurrences token others language _ split run more never _ _ stopped =>
      subst split
      have stop : Stops language (token :: others) := by
        rintro _ ⟨⟩
        exact never
      constructor
      · rintro ⟨well, -⟩
        cases stopped.symm.trans well
      · intro none
        exact absurd (.inl ((run.misplaced_iff more stop).mpr ⟨rfl, List.cons_ne_nil _ _⟩))
          (none occurrences.length)

namespace Compilation

variable {source : String} {tokens : List Token}

/-- If no token offends, the tokens are a program, and what remains is to settle its jumps. -/
theorem exists_run_of_not_offends (lexes : (Cursor.ofSource source).Lexes tokens)
    (none : ∀ index, ¬ Offends tokens index) :
    ∃ occurrences : List Occurrence, tokens = occurrences.map Occurrence.token ∧
      Run (Lines []) occurrences (· = []) ∧
      (Cursor.ofSource source).supply.walk.unsettled.1.names =
        Names.afterAll {} (occurrences.flatMap Occurrence.deeds) ∧
      ∀ output, (ofSource source output).fault? =
        Action.settle.fault? (Names.afterAll {} (occurrences.flatMap Occurrence.deeds)) := by
  have completes := lexes.completes_iff.mpr none
  obtain ⟨walk, same, course⟩ := lexes.exists_course
  rw [same] at completes
  obtain ⟨well, quiet⟩ := completes
  cases course with
  | @finished occurrences split run actions _ =>
      rw [Walk.unsettled_fault actions] at quiet
      refine ⟨occurrences, split, run, ?_, ?_⟩
      · rw [same, Walk.unsettled_names actions quiet]
      · intro output
        have early : prologue.filter Action.naming = [] := rfl
        rw [fault_ofSource, same, ← Names.fault_filter, Walk.after, List.filter_append, early,
          List.nil_append, actions, Names.fault_append, quiet, Option.none_or]
        simp only [Names.fault?, Option.or_none]
        exact (congrArg _ well).trans Option.or_none
  | refused _ _ _ _ _ _ stopped => cases stopped.symm.trans well

/-- If no token offends, a source is compiled if and only if no jump goes astray. -/
theorem fault_eq_none_iff_not_astray (lexes : (Cursor.ofSource source).Lexes tokens)
    (none : ∀ index, ¬ Offends tokens index) (output : Output) :
    (ofSource source output).fault? = .none ↔ ∀ index, ¬ Astray tokens index := by
  obtain ⟨occurrences, rfl, run, -, fault⟩ := exists_run_of_not_offends lexes none
  have settles := @Names.settle_occurrences_none occurrences
  rw [Names.fault?, Names.fault?, Option.or_none] at settles
  rw [fault output, settles]
  constructor
  · rintro labelled index ⟨name, jumps, never⟩
    obtain ⟨other, set⟩ := labelled index name (run.occurs_iff.mp jumps)
    exact never ⟨other, run.occurs_iff.mpr set⟩
  · intro settled index name jumps
    simp only [← run.occurs_iff] at jumps ⊢
    exact Classical.byContradiction fun never => settled index ⟨name, jumps, never⟩

/-- If no token offends, the first jump that goes astray is the fault. -/
theorem fault_of_astray (lexes : (Cursor.ofSource source).Lexes tokens)
    (none : ∀ index, ¬ Offends tokens index) (output : Output) {index : Nat} {token : Token}
    (astray : Astray tokens index) (first : ∀ earlier < index, ¬ Astray tokens earlier)
    (here : tokens[index]? = some token) :
    (ofSource source output).fault? = some ⟨.labelMissing token.text, token.loc⟩ := by
  have ordered := lexes.pairwise_loc (Lexeme.lined_concat source.toList)
  obtain ⟨occurrences, rfl, run, -, fault⟩ := exists_run_of_not_offends lexes none
  have set (name : String) :
      (∃ other, Occurs (occurrences.map Occurrence.token) .label other name) ↔
        ∃ other ∈ occurrences, other.Has .label name := by
    simp only [run.occurs_iff, Occurrence.HasAt, List.mem_iff_getElem?]
    constructor
    · rintro ⟨index, other, here, has⟩
      exact ⟨other, ⟨index, here⟩, has⟩
    · rintro ⟨other, ⟨index, here⟩, has⟩
      exact ⟨index, other, here, has⟩
  obtain ⟨name, jumps, never⟩ := astray
  obtain ⟨occurrence, there, role, rfl⟩ := run.occurs_iff.mp jumps
  rw [List.getElem?_map, there] at here
  cases here
  have missing := Names.missing_occurrences ordered there role (mt (set _).mpr never) ?_
  · rw [fault output, Action.fault?, missing]
    rfl
  · intro earlier before name jumps
    exact (set name).mp (Classical.byContradiction fun unset =>
      first earlier before ⟨name, run.occurs_iff.mpr jumps, unset⟩)

end Compilation

/-- Of a source whose text can be read and whose reader gets to the end, nothing but a jump to a
label that is set nowhere keeps it from being compiled. The diagnostic is about the first such jump
in the text: it is one of meaning, names the label and points at it. The order in which jumps are
kept does not matter. -/
theorem compile_astray_jump {source : String} {tokens : List Token}
    (lexes : (Cursor.ofSource source).Lexes tokens)
    (completes : (Cursor.ofSource source).supply.walk.Completes) :
    ((∃ diagnostic, compile source = .error diagnostic) ↔ ∃ index, Astray tokens index) ∧
    (∀ diagnostic, compile source = .error diagnostic →
      ∃ index token, Astray tokens index ∧ (∀ earlier < index, ¬ Astray tokens earlier) ∧
        tokens[index]? = some token ∧
        diagnostic = ⟨.meaning, Position.ofOffset (sourceText source) token.loc,
          "attempting to GOTO undeclared label: " ++ token.text⟩) ∧
    ∀ output order,
      let names := (Cursor.ofSource source).supply.walk.unsettled.1.names
      order.Perm names.jumps →
        (Compilation.ofSource source output).fault? =
          Action.settle.fault? { names with jumps := order } := by
  have none := lexes.completes_iff.mp completes
  have fails : (∃ diagnostic, compile source = .error diagnostic) ↔
      ∃ index, Astray tokens index := by
    have quiet := Compilation.fault_eq_none_iff_not_astray lexes none {}
    constructor
    · rintro ⟨diagnostic, failed⟩
      obtain ⟨fault, found, -⟩ := compile_eq_error_iff.mp failed
      refine Classical.byContradiction fun never => ?_
      cases found.symm.trans (quiet.mpr (not_exists.mp never))
    · rintro ⟨index, astray⟩
      cases found : (Compilation.ofSource source {}).fault? with
      | none => exact absurd astray (quiet.mp found index)
      | some fault => exact ⟨_, compile_eq_error_iff.mpr ⟨fault, found, rfl⟩⟩
  refine ⟨fails, ?_, ?_⟩
  · intro diagnostic failed
    obtain ⟨_, astray⟩ := fails.mp ⟨diagnostic, failed⟩
    obtain ⟨index, astray, first⟩ := exists_first astray
    obtain ⟨_, ⟨-, token, here, -⟩, -⟩ := id astray
    obtain ⟨fault, found, rfl⟩ := compile_eq_error_iff.mp failed
    rw [Compilation.fault_of_astray lexes none {} astray first here] at found
    cases found
    exact ⟨index, token, astray, first, here, rfl⟩
  · intro output order names perm
    have ordered := lexes.pairwise_loc (Lexeme.lined_concat source.toList)
    obtain ⟨occurrences, rfl, -, known, fault⟩ := Compilation.exists_run_of_not_offends lexes none
    have kept : names.jumps.Pairwise (·.2 < ·.2) := by
      unfold names
      rw [known]
      exact Names.pairwise_jumps ordered
    rw [fault output, ← known, Action.fault?, Action.fault?, Names.missing_of_perm kept perm]

/-- Of jumps to two labels that are set nowhere, the first is reported, although the other label
comes first in the alphabet. The label of the jump before them is only set in the end. -/
theorem compile_astray_jump_before_other :
    let tokens : List Token := [⟨.gotoWord, "GOTO", 0⟩, ⟨.ident, "b", 5⟩, ⟨.newline, "\n", 6⟩,
      ⟨.gotoWord, "GOTO", 7⟩, ⟨.ident, "c", 12⟩, ⟨.newline, "\n", 13⟩, ⟨.gotoWord, "GOTO", 14⟩,
      ⟨.ident, "a", 19⟩, ⟨.newline, "\n", 20⟩, ⟨.gotoWord, "GOTO", 21⟩, ⟨.ident, "c", 26⟩,
      ⟨.newline, "\n", 27⟩, ⟨.labelWord, "LABEL", 28⟩, ⟨.ident, "b", 34⟩, ⟨.newline, "\n", 35⟩,
      ⟨.eof, "", 36⟩]
    let diagnostic : Diagnostic := ⟨.meaning, ⟨2, 6⟩, "attempting to GOTO undeclared label: c"⟩
    (Cursor.ofSource "GOTO b\nGOTO c\nGOTO a\nGOTO c\nLABEL b").Lexes tokens ∧
      (Cursor.ofSource "GOTO b\nGOTO c\nGOTO a\nGOTO c\nLABEL b").supply.walk.Completes ∧
      compile "GOTO b\nGOTO c\nGOTO a\nGOTO c\nLABEL b" = .error diagnostic ∧
      ∃ index token, Astray tokens index ∧ (∀ earlier < index, ¬ Astray tokens earlier) ∧
        tokens[index]? = some token ∧
        diagnostic = ⟨.meaning,
          Position.ofOffset (sourceText "GOTO b\nGOTO c\nGOTO a\nGOTO c\nLABEL b") token.loc,
          "attempting to GOTO undeclared label: " ++ token.text⟩ := by
  intro tokens diagnostic
  have supply : (Cursor.ofSource "GOTO b\nGOTO c\nGOTO a\nGOTO c\nLABEL b").supply =
      ⟨tokens.dropLast, .ok ⟨.eof, "", 36⟩⟩ :=
    Cursor.supply_of_take (by rfl) (by decide) (by intro last same; cases same; rfl)
  have lexes : (Cursor.ofSource "GOTO b\nGOTO c\nGOTO a\nGOTO c\nLABEL b").Lexes tokens :=
    Cursor.lexes_iff_supply.mpr ⟨_, congrArg Supply.ending supply, by rw [supply]; rfl⟩
  have completes :
      (Cursor.ofSource "GOTO b\nGOTO c\nGOTO a\nGOTO c\nLABEL b").supply.walk.Completes := by
    rw [supply]
    exact ⟨rfl, rfl⟩
  have failed : compile "GOTO b\nGOTO c\nGOTO a\nGOTO c\nLABEL b" = .error diagnostic := by
    rw [compile, Compilation.ofSource, Cursor.compile, supply]
    rfl
  exact ⟨lexes, completes, failed, (compile_astray_jump lexes completes).2.1 _ failed⟩

end TeenyTiny
