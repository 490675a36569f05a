import TeenyTiny.Action
import TeenyTiny.Token
import TeenyTiny.Proofs.Derivation

/-!
# What actions do to names

Of all that is done while a program is read, only the actions about names can break a rule, and
whether one does depends on the names alone. So the fault that stops a list of actions is found on
the names (`Draft.performAll_fault`), and the other actions can be left out (`Names.fault_filter`).

The actions about names come from the identifiers of a program, one for each, by its role
(`Occurrence.deeds`). After them a variable is known if one of the identifiers set it, and a label
or a jump likewise. A read and a label break a rule by what occurred before them
(`Occurrence.Breaks`), and the first that does is the fault (`Names.fault_of_breaks`).
-/

set_option autoImplicit false

namespace TeenyTiny

open Grammar (Role)

/-! ## Names alone -/

/-- Whether an action is about names. -/
def Action.naming : Action → Bool
  | .declare _ | .label _ _ | .jump _ _ | .use _ _ | .settle => true
  | .note _ | .head _ | .write _ => false

namespace Names

/-- The names after an action. -/
def after (names : Names) : Action → Names
  | .declare name => (names.declareVariable name).2
  | .label name _ => (names.declareLabel name).2
  | .jump name loc => names.jumpTo name loc
  | _ => names

/-- The names after actions. -/
def afterAll (names : Names) (actions : List Action) : Names :=
  actions.foldl after names

/-- The first rule about names that actions break. -/
def fault? (names : Names) : List Action → Option Fault
  | [] => none
  | action :: actions => (action.fault? names).or ((names.after action).fault? actions)

theorem afterAll_append (names : Names) (first second : List Action) :
    names.afterAll (first ++ second) = (names.afterAll first).afterAll second :=
  List.foldl_append

theorem fault_append (names : Names) (first second : List Action) :
    names.fault? (first ++ second) =
      (names.fault? first).or ((names.afterAll first).fault? second) := by
  induction first generalizing names with
  | nil => simp [fault?, afterAll]
  | cons action actions ih =>
      rw [List.cons_append, fault?, fault?, ih, Option.or_assoc]
      rfl

/-- As long as nothing is settled, no jump lacks its label. -/
theorem cause_ne_labelMissing {names : Names} {actions : List Action} {fault : Fault}
    (unsettled : Action.settle ∉ actions) (found : names.fault? actions = some fault)
    (name : String) : fault.cause ≠ .labelMissing name := by
  induction actions generalizing names with
  | nil => cases found
  | cons action actions ih =>
      obtain ⟨here, later⟩ := not_or.mp (mt List.mem_cons.mpr unsettled)
      rw [fault?] at found
      rcases Option.or_eq_some_iff.mp found with broken | ⟨-, found⟩
      · cases action <;> simp [Action.fault?] at broken here
        all_goals
          obtain ⟨-, rfl⟩ := broken
          simp
      · exact ih later found

theorem after_of_not_naming (names : Names) {action : Action} (other : action.naming = false) :
    names.after action = names ∧ action.fault? names = none := by
  cases action <;> first | exact ⟨rfl, rfl⟩ | simp [Action.naming] at other

/-- Only the actions about names matter to the fault. -/
theorem fault_filter (names : Names) (actions : List Action) :
    names.fault? (actions.filter Action.naming) = names.fault? actions := by
  induction actions generalizing names with
  | nil => rfl
  | cons action actions ih =>
      cases about : action.naming with
      | true => rw [List.filter_cons_of_pos about, fault?, fault?, ih]
      | false =>
          obtain ⟨same, none⟩ := after_of_not_naming names about
          rw [List.filter_cons_of_neg (by simp [about]), fault?, same, none, ih, Option.none_or]

end Names

namespace Draft

theorem declare_of_known {draft : Draft} {name : String}
    (known : draft.names.hasVariable name = true) : draft.declare name = draft := by
  simp [declare, Names.declareVariable, known]

theorem declare_of_new {draft : Draft} {name : String}
    (new : draft.names.hasVariable name = false) :
    draft.declare name =
      { names := (draft.names.declareVariable name).2
        output := draft.output.headLine ("float " ++ targetName name ++ ";")
        log := draft.log.push (.newVariable name) } := by
  simp [declare, Names.declareVariable, new, note, head]

theorem declare_names (draft : Draft) (name : String) :
    (draft.declare name).names = (draft.names.declareVariable name).2 := by
  cases known : draft.names.hasVariable name with
  | true => simp [declare_of_known known, Names.declareVariable, known]
  | false => rw [declare_of_new known]

theorem perform_names (draft : Draft) (action : Action) :
    (draft.perform action).names = draft.names.after action := by
  cases action with
  | declare name => exact declare_names draft name
  | _ => rfl

/-- The fault that stops actions is found on the names. -/
theorem performAll_fault (draft : Draft) (actions : List Action) :
    (draft.performAll actions).2 = draft.names.fault? actions := by
  induction actions generalizing draft with
  | nil => rfl
  | cons action actions ih =>
      unfold performAll Names.fault?
      split
      · next none => rw [ih, perform_names, none, Option.none_or]
      · next fault found => rw [found, Option.some_or]

end Draft

/-! ## Identifiers and their roles -/

/-- A token of a program, and the role of an identifier. -/
structure Occurrence where
  token : Token
  role? : Option Role

namespace Occurrence

/-- The symbol of an occurrence in a derivation. -/
def symbol (occurrence : Occurrence) : Grammar.Symbol :=
  ⟨occurrence.token.kind, occurrence.role?⟩

/-- Whether a name occurs here in a role. -/
def Has (occurrence : Occurrence) (role : Role) (name : String) : Prop :=
  occurrence.role? = some role ∧ occurrence.token.text = name

/-- The action about names that an occurrence calls for. -/
def deeds (occurrence : Occurrence) : List Action :=
  match occurrence.role? with
  | none => []
  | some .target => [.declare occurrence.token.text]
  | some .read => [.use occurrence.token.text occurrence.token.loc]
  | some .label => [.label occurrence.token.text occurrence.token.loc]
  | some .jump => [.jump occurrence.token.text occurrence.token.loc]

/-- No identifier settles the jumps. -/
theorem settle_not_mem_deeds (occurrence : Occurrence) : Action.settle ∉ occurrence.deeds := by
  unfold deeds
  split <;> simp

theorem settle_not_mem_of_filter (occurrence : Occurrence) {actions : List Action}
    (deeds : actions.filter Action.naming = occurrence.deeds) : Action.settle ∉ actions := by
  intro member
  have named : Action.settle ∈ actions.filter Action.naming := List.mem_filter.mpr ⟨member, rfl⟩
  rw [deeds] at named
  exact occurrence.settle_not_mem_deeds named

/-- An identifier breaks a rule by what occurred before it: it is read and was not set, or it is
the name of a label that was set. -/
def Breaks (earlier : List Occurrence) (occurrence : Occurrence) : Prop :=
  (occurrence.role? = some .read ∧
      ¬ ∃ other ∈ earlier, other.Has .target occurrence.token.text) ∨
    (occurrence.role? = some .label ∧
      ∃ other ∈ earlier, other.Has .label occurrence.token.text)

/-- Whether the identifier at an index breaks a rule. -/
def BreaksAt (occurrences : List Occurrence) (index : Nat) : Prop :=
  ∃ occurrence, occurrences[index]? = some occurrence ∧
    occurrence.Breaks (occurrences.take index)

/-- Whether a name occurs at an index in a role. -/
def HasAt (occurrences : List Occurrence) (index : Nat) (role : Role) (name : String) : Prop :=
  ∃ occurrence, occurrences[index]? = some occurrence ∧ occurrence.Has role name

theorem exists_mem_take_iff {occurrences : List Occurrence} {index : Nat} {role : Role}
    {name : String} :
    (∃ other ∈ occurrences.take index, other.Has role name) ↔
      ∃ earlier < index, HasAt occurrences earlier role name := by
  constructor
  · rintro ⟨other, member, has⟩
    obtain ⟨earlier, here⟩ := List.mem_iff_getElem?.mp member
    obtain ⟨before, -⟩ := List.getElem?_eq_some_iff.mp here
    rw [List.length_take] at before
    rw [List.getElem?_take_of_lt (by omega)] at here
    exact ⟨earlier, by omega, other, here, has⟩
  · rintro ⟨earlier, before, other, here, has⟩
    refine ⟨other, List.mem_iff_getElem?.mpr ⟨earlier, ?_⟩, has⟩
    rwa [List.getElem?_take_of_lt before]

/-- What breaks a rule is an unset name or a label that was set, said of the indices. -/
theorem breaksAt_iff {occurrences : List Occurrence} {index : Nat} :
    BreaksAt occurrences index ↔
      (∃ name, HasAt occurrences index .read name ∧
          ¬ ∃ earlier < index, HasAt occurrences earlier .target name) ∨
        (∃ name, HasAt occurrences index .label name ∧
          ∃ earlier < index, HasAt occurrences earlier .label name) := by
  simp only [BreaksAt, Breaks, exists_mem_take_iff]
  constructor
  · rintro ⟨occurrence, here, ⟨role, unset⟩ | ⟨role, taken⟩⟩
    · exact .inl ⟨_, ⟨occurrence, here, role, rfl⟩, unset⟩
    · exact .inr ⟨_, ⟨occurrence, here, role, rfl⟩, taken⟩
  · rintro (⟨name, ⟨occurrence, here, role, rfl⟩, unset⟩ |
      ⟨name, ⟨occurrence, here, role, rfl⟩, taken⟩)
    · exact ⟨occurrence, here, .inl ⟨role, unset⟩⟩
    · exact ⟨occurrence, here, .inr ⟨role, taken⟩⟩

end Occurrence

namespace Names

variable (names : Names) (name : String)

/-- A name is in a list to which another was added, unless it was there, if it was in the list or
is the other. -/
theorem contains_ite_append (list : List String) (other : String) :
    (if list.contains other then list else list ++ [other]).contains name = true ↔
      list.contains name = true ∨ other = name := by
  split
  · next known =>
      constructor
      · exact .inl
      · rintro (here | rfl)
        · exact here
        · exact known
  · rw [List.contains_iff_mem, List.contains_iff_mem, List.mem_append, List.mem_singleton,
      eq_comm (a := name)]

@[simp] theorem vars_declareVariable :
    (names.declareVariable name).2.vars =
      if names.vars.contains name then names.vars else names.vars ++ [name] := by
  unfold declareVariable hasVariable
  split <;> rfl

@[simp] theorem labels_declareVariable :
    (names.declareVariable name).2.labels = names.labels := by
  unfold declareVariable
  split <;> rfl

@[simp] theorem jumps_declareVariable :
    (names.declareVariable name).2.jumps = names.jumps := by
  unfold declareVariable
  split <;> rfl

@[simp] theorem vars_declareLabel : (names.declareLabel name).2.vars = names.vars := by
  unfold declareLabel
  split <;> rfl

@[simp] theorem labels_declareLabel :
    (names.declareLabel name).2.labels =
      if names.labels.contains name then names.labels else names.labels ++ [name] := by
  unfold declareLabel hasLabel
  split <;> rfl

@[simp] theorem jumps_declareLabel : (names.declareLabel name).2.jumps = names.jumps := by
  unfold declareLabel
  split <;> rfl

@[simp] theorem vars_jumpTo (loc : Nat) : (names.jumpTo name loc).vars = names.vars := by
  unfold jumpTo
  split <;> rfl

@[simp] theorem labels_jumpTo (loc : Nat) : (names.jumpTo name loc).labels = names.labels := by
  unfold jumpTo
  split <;> rfl

theorem hasJump_jumpTo (other : String) (loc : Nat) :
    (names.jumpTo other loc).hasJump name = true ↔ names.hasJump name = true ∨ other = name := by
  unfold jumpTo
  split
  · next known =>
      constructor
      · exact .inl
      · rintro (here | rfl)
        · exact here
        · exact known
  · simp [hasJump]

/-! ## Names after occurrences -/

variable {name}

theorem hasVariable_deeds (occurrence : Occurrence) :
    (names.afterAll occurrence.deeds).hasVariable name = true ↔
      names.hasVariable name = true ∨ occurrence.Has .target name := by
  rcases occurrence with ⟨token, _ | _ | _ | _ | _⟩
  case some.target =>
    simp only [hasVariable, Occurrence.deeds, afterAll, List.foldl_cons, List.foldl_nil, after,
      vars_declareVariable, contains_ite_append, Occurrence.Has, true_and]
  all_goals
    simp [hasVariable, Occurrence.deeds, afterAll, after, Occurrence.Has]

theorem hasLabel_deeds (occurrence : Occurrence) :
    (names.afterAll occurrence.deeds).hasLabel name = true ↔
      names.hasLabel name = true ∨ occurrence.Has .label name := by
  rcases occurrence with ⟨token, _ | _ | _ | _ | _⟩
  case some.label =>
    simp only [hasLabel, Occurrence.deeds, afterAll, List.foldl_cons, List.foldl_nil, after,
      labels_declareLabel, contains_ite_append, Occurrence.Has, true_and]
  all_goals
    simp [hasLabel, Occurrence.deeds, afterAll, after, Occurrence.Has]

theorem hasJump_deeds (occurrence : Occurrence) :
    (names.afterAll occurrence.deeds).hasJump name = true ↔
      names.hasJump name = true ∨ occurrence.Has .jump name := by
  rcases occurrence with ⟨token, _ | _ | _ | _ | _⟩
  case some.jump =>
    simp only [Occurrence.deeds, afterAll, List.foldl_cons, List.foldl_nil, after,
      hasJump_jumpTo, Occurrence.Has, true_and]
  all_goals
    simp [hasJump, Occurrence.deeds, afterAll, after, Occurrence.Has]

/-- A property of names that every occurrence adds to, all of them add to. -/
theorem afterAll_occurrences (known : Names → Prop) (adds : Occurrence → Prop)
    (step : ∀ names occurrence, known (afterAll names occurrence.deeds) ↔
      known names ∨ adds occurrence) (occurrences : List Occurrence) :
    known (names.afterAll (occurrences.flatMap Occurrence.deeds)) ↔
      known names ∨ ∃ occurrence ∈ occurrences, adds occurrence := by
  induction occurrences generalizing names with
  | nil => simp [afterAll]
  | cons occurrence occurrences ih =>
      rw [List.flatMap_cons, afterAll_append]
      refine (ih (names.afterAll occurrence.deeds)).trans ?_
      rw [step]
      simp [or_assoc]

/-- After occurrences from the start, a variable is known if one of them set it. -/
theorem hasVariable_occurrences (occurrences : List Occurrence) :
    (afterAll {} (occurrences.flatMap Occurrence.deeds)).hasVariable name = true ↔
      ∃ occurrence ∈ occurrences, occurrence.Has .target name := by
  refine (afterAll_occurrences {} (·.hasVariable name = true) (·.Has .target name)
    (fun names => hasVariable_deeds names) occurrences).trans ?_
  simp [hasVariable]

theorem hasLabel_occurrences (occurrences : List Occurrence) :
    (afterAll {} (occurrences.flatMap Occurrence.deeds)).hasLabel name = true ↔
      ∃ occurrence ∈ occurrences, occurrence.Has .label name := by
  refine (afterAll_occurrences {} (·.hasLabel name = true) (·.Has .label name)
    (fun names => hasLabel_deeds names) occurrences).trans ?_
  simp [hasLabel]

theorem hasJump_occurrences (occurrences : List Occurrence) :
    (afterAll {} (occurrences.flatMap Occurrence.deeds)).hasJump name = true ↔
      ∃ occurrence ∈ occurrences, occurrence.Has .jump name := by
  refine (afterAll_occurrences {} (·.hasJump name = true) (·.Has .jump name)
    (fun names => hasJump_deeds names) occurrences).trans ?_
  simp [hasJump]

/-! ## The first fault of occurrences -/

/-- An occurrence that breaks a rule is a fault of meaning at its place. -/
theorem fault_of_breaks {earlier : List Occurrence} {occurrence : Occurrence}
    (breaks : occurrence.Breaks earlier) :
    ∃ cause : Cause, cause.phase = .meaning ∧
      (afterAll {} (earlier.flatMap Occurrence.deeds)).fault? occurrence.deeds =
        some ⟨cause, occurrence.token.loc⟩ := by
  rcases breaks with ⟨role, unset⟩ | ⟨role, taken⟩
  · have unknown := mt (hasVariable_occurrences earlier).mp unset
    refine ⟨.unassigned occurrence.token.text, rfl, ?_⟩
    simp [Occurrence.deeds, role, fault?, Action.fault?, unknown]
  · have known := (hasLabel_occurrences earlier).mpr taken
    refine ⟨.labelTaken occurrence.token.text, rfl, ?_⟩
    simp [Occurrence.deeds, role, fault?, Action.fault?, known]

theorem fault_of_not_breaks {earlier : List Occurrence} {occurrence : Occurrence}
    (obeys : ¬ occurrence.Breaks earlier) :
    (afterAll {} (earlier.flatMap Occurrence.deeds)).fault? occurrence.deeds = none := by
  obtain ⟨read, label⟩ := not_or.mp obeys
  rcases occurrence with ⟨token, _ | _ | _ | _ | _⟩
  case some.read =>
    have known := (hasVariable_occurrences earlier).mpr (Classical.not_not.mp (not_and.mp read rfl))
    simp [Occurrence.deeds, fault?, Action.fault?, known]
  case some.label =>
    have unknown := mt (hasLabel_occurrences earlier).mp (not_and.mp label rfl)
    simp [Occurrence.deeds, fault?, Action.fault?, unknown]
  all_goals rfl

/-- Occurrences of which none breaks a rule call for no fault. -/
theorem fault_take_none {occurrences : List Occurrence} (count : Nat)
    (obeys : ∀ index < count, ¬ Occurrence.BreaksAt occurrences index) :
    fault? {} ((occurrences.take count).flatMap Occurrence.deeds) = none := by
  induction count with
  | zero => rfl
  | succ count ih =>
      have earlier := ih fun index before => obeys index (Nat.lt_succ_of_lt before)
      cases here : occurrences[count]? with
      | none =>
          rw [List.take_add_one, here, Option.toList_none, List.append_nil]
          exact earlier
      | some occurrence =>
          rw [List.take_add_one, here, Option.toList_some, List.flatMap_append, fault_append,
            earlier, Option.none_or, List.flatMap_cons, List.flatMap_nil, List.append_nil]
          refine fault_of_not_breaks fun breaks => ?_
          exact obeys count (Nat.lt_succ_self count) ⟨occurrence, here, breaks⟩

/-- The first occurrence that breaks a rule is the fault of all of them. -/
theorem fault_of_first_break {occurrences : List Occurrence} {index : Nat}
    {occurrence : Occurrence} (more : List Action) (here : occurrences[index]? = some occurrence)
    (breaks : occurrence.Breaks (occurrences.take index))
    (first : ∀ earlier < index, ¬ Occurrence.BreaksAt occurrences earlier) :
    ∃ cause : Cause, cause.phase = .meaning ∧
      fault? {} (occurrences.flatMap Occurrence.deeds ++ more) =
        some ⟨cause, occurrence.token.loc⟩ := by
  obtain ⟨cause, phase, fault⟩ := fault_of_breaks breaks
  refine ⟨cause, phase, ?_⟩
  obtain ⟨bound, rfl⟩ := List.getElem?_eq_some_iff.mp here
  have whole : occurrences = occurrences.take index ++ occurrences[index] ::
      occurrences.drop (index + 1) := by
    rw [← List.drop_eq_getElem_cons bound, List.take_append_drop]
  have shape : occurrences.flatMap Occurrence.deeds ++ more =
      (occurrences.take index).flatMap Occurrence.deeds ++ (occurrences[index].deeds ++
        ((occurrences.drop (index + 1)).flatMap Occurrence.deeds ++ more)) := by
    conv => lhs; rw [whole, List.flatMap_append, List.flatMap_cons]
    simp
  rw [shape, fault_append, fault_take_none index first, Option.none_or, fault_append, fault,
    Option.some_or]

/-- Occurrences call for no fault if and only if none of them breaks a rule. -/
theorem fault_occurrences_none {occurrences : List Occurrence} :
    fault? {} (occurrences.flatMap Occurrence.deeds) = none ↔
      ∀ index, ¬ Occurrence.BreaksAt occurrences index := by
  constructor
  · intro quiet index
    induction index using Nat.strongRecOn with
    | ind index ih =>
        rintro ⟨occurrence, here, breaks⟩
        obtain ⟨cause, -, fault⟩ := fault_of_first_break [] here breaks ih
        rw [List.append_nil, quiet] at fault
        cases fault
  · intro obeys
    have quiet := fault_take_none occurrences.length fun index _ => obeys index
    rwa [List.take_length] at quiet

/-! ## Jumps without a label -/

theorem earliest_eq_none {jumps : List (String × Nat)} : earliest? jumps = none ↔ jumps = [] := by
  cases jumps with
  | nil => simp [earliest?]
  | cons jump jumps =>
      simp only [earliest?, reduceCtorEq, iff_false]
      split
      · simp
      · split <;> simp

/-- Every jump has its label if none is missing. -/
theorem missing_eq_none : names.missing? = none ↔
    ∀ name, names.hasJump name = true → names.hasLabel name = true := by
  rw [missing?, earliest_eq_none]
  simp [hasJump]

end Names

end TeenyTiny
