import TeenyTiny.Proofs.Hygiene
import TeenyTiny.Proofs.Stepwise

/-!
# Lines that set labels

The body of a C program is written in pieces that need not be whole lines, and compiling may stop
after any of them. Still the lines that set labels are always those of the labels that are known, in
order (`Standing.labels_invariant`).

A text is read here as it is written, as lines that are finished and a line that has been begun
(`Sheet`). Nothing that is written has a colon in it but the line of a label and a text to print
(`Move.Tidy`). Both are written where a line starts, so that what matters at a place is whether a line
of C has been begun there (`Place.startsLine`).
-/

set_option autoImplicit false

namespace TeenyTiny

/-! ## Text as it is written -/

theorem ended_append (text : String) {ending : String}
    (ended : ending.toList.getLast? = some '\n') :
    (text ++ ending).toList.getLast? = some '\n' := by
  rw [String.toList_append, List.getLast?_append, ended]
  rfl

/-- A text that is being written: the lines that are finished, and the line that has been begun. -/
structure Sheet where
  finished : List (List Char) := []
  begun : List Char := []

namespace Sheet

/-- The sheet with one character more. -/
def add (sheet : Sheet) (c : Char) : Sheet :=
  if c = '\n' then ⟨sheet.finished ++ [sheet.begun], []⟩
  else ⟨sheet.finished, sheet.begun ++ [c]⟩

/-- The sheet with a text more. -/
def write (sheet : Sheet) (text : String) : Sheet :=
  text.toList.foldl add sheet

/-- The sheet of a text. -/
def ofText (text : String) : Sheet :=
  ({} : Sheet).write text

/-- The lines of a sheet, with the one that has been begun. -/
def lines (sheet : Sheet) : List (List Char) :=
  if sheet.begun = [] then sheet.finished else sheet.finished ++ [sheet.begun]

theorem write_append (sheet : Sheet) (first second : String) :
    sheet.write (first ++ second) = (sheet.write first).write second := by
  rw [write, String.toList_append, List.foldl_append]
  rfl

theorem ofText_append (first second : String) :
    ofText (first ++ second) = (ofText first).write second :=
  write_append {} first second

/-- Characters that do not end the line go to the line that has been begun. -/
theorem foldl_add_of_not_mem {text : List Char} (inside : '\n' ∉ text) (sheet : Sheet) :
    text.foldl add sheet = ⟨sheet.finished, sheet.begun ++ text⟩ := by
  induction text generalizing sheet with
  | nil => rw [List.append_nil]; rfl
  | cons c text ih =>
      obtain ⟨here, inside⟩ := not_or.mp (mt List.mem_cons.mpr inside)
      rw [List.foldl_cons, add, if_neg (Ne.symm here), ih inside, List.append_assoc]
      rfl

/-- A line that is written where a line starts. -/
theorem write_line {sheet : Sheet} (start : sheet.begun = []) {line : String}
    (inside : '\n' ∉ line.toList) :
    sheet.write (line ++ "\n") = ⟨sheet.finished ++ [line.toList], []⟩ := by
  rw [write_append, write, write, foldl_add_of_not_mem inside, start]
  rfl

/-- After the end of a line no line has been begun. -/
theorem begun_of_ended {text : String} (ended : text.toList.getLast? = some '\n') (sheet : Sheet) :
    (sheet.write text).begun = [] := by
  obtain ⟨front, whole⟩ := List.getLast?_eq_some_iff.mp ended
  rw [write, whole, List.foldl_append]
  rfl

/-- A text without line ends is one line, or none if it is empty. -/
theorem splitLines_of_not_mem {line : List Char} (inside : '\n' ∉ line) :
    C.splitLines line = if line = [] then [] else [line] := by
  induction line with
  | nil => rfl
  | cons c line ih =>
      obtain ⟨here, inside⟩ := not_or.mp (mt List.mem_cons.mpr inside)
      rw [C.splitLines, if_neg (Ne.symm here), ih inside, if_neg (List.cons_ne_nil c line)]
      cases line with
      | nil | cons _ _ => rfl

/-- The lines of a text are those of its sheet. -/
theorem lines_ofText (text : String) : C.lines text = (ofText text).lines.map String.ofList := by
  have along (sheet : Sheet) (inside : '\n' ∉ sheet.begun) (rest : List Char) :
      (rest.foldl add sheet).lines = sheet.finished ++ C.splitLines (sheet.begun ++ rest) := by
    induction rest generalizing sheet with
    | nil =>
        rw [List.append_nil, List.foldl_nil, lines, splitLines_of_not_mem inside]
        split
        · rw [List.append_nil]
        · rfl
    | cons c rest ih =>
        rw [List.foldl_cons, add]
        split
        · next ended =>
            rw [ih _ (by simp), ended, C.splitLines_append_newline inside, List.append_assoc]
            rfl
        · next other =>
            rw [ih _ (by simpa [inside] using Ne.symm other), List.append_assoc]
            rfl
  rw [C.lines, ofText, write, along {} (by simp)]
  rfl

end Sheet

/-! ## Labels on a sheet -/

/-- Whether a line of C sets a label: it ends with a colon and a semicolon. -/
def setsLabel (line : List Char) : Bool :=
  [':', ';'].isSuffixOf line

theorem setsLabel_of_not_mem {line : List Char} (plain : ':' ∉ line) : setsLabel line = false := by
  apply Bool.eq_false_iff.mpr
  intro sets
  have ends := List.isSuffixOf_iff_suffix.mp sets
  exact plain (ends.mem List.mem_cons_self)

/-- The finished lines that set labels are those of these labels, in order, and no other line is
about to become one. -/
structure Sheet.Labelled (labels : List String) (sheet : Sheet) : Prop where
  lines : sheet.finished.filter setsLabel = labels.map fun name => (targetName name ++ ":;").toList
  plain : ':' ∉ sheet.begun

namespace Sheet.Labelled

variable {sheet : Sheet} {labels : List String}

/-- What has no colon sets no label. -/
theorem write (labelled : sheet.Labelled labels) {text : String} (quiet : ':' ∉ text.toList) :
    (sheet.write text).Labelled labels := by
  rw [Sheet.write]
  generalize text.toList = text at quiet
  induction text generalizing sheet with
  | nil => exact labelled
  | cons c text ih =>
      obtain ⟨here, quiet⟩ := not_or.mp (mt List.mem_cons.mpr quiet)
      refine ih ?_ quiet
      rw [add]
      split
      · refine ⟨?_, List.not_mem_nil⟩
        rw [List.filter_append, labelled.lines,
          List.filter_cons_of_neg (by simp [setsLabel_of_not_mem labelled.plain])]
        exact List.append_nil _
      · refine ⟨labelled.lines, ?_⟩
        simpa [labelled.plain] using here

/-- A line that sets no label, where a line starts. -/
theorem line (labelled : sheet.Labelled labels) (start : sheet.begun = []) {line : String}
    (inside : '\n' ∉ line.toList) (other : setsLabel line.toList = false) :
    (sheet.write (line ++ "\n")).Labelled labels := by
  rw [write_line start inside]
  refine ⟨?_, List.not_mem_nil⟩
  rw [List.filter_append, labelled.lines, List.filter_cons_of_neg (by simp [other])]
  exact List.append_nil _

/-- The line of a label, where a line starts. -/
theorem label (labelled : sheet.Labelled labels) (start : sheet.begun = []) {name : String}
    (inside : '\n' ∉ (targetName name).toList) :
    (sheet.write (targetName name ++ ":;\n")).Labelled (labels ++ [name]) := by
  have whole : targetName name ++ ":;\n" = targetName name ++ ":;" ++ "\n" := by
    have ended : ":;\n" = ":;" ++ "\n" := by decide
    rw [String.append_assoc, ← ended]
  have sets : setsLabel (targetName name ++ ":;").toList = true := by
    rw [setsLabel, String.toList_append, List.isSuffixOf_iff_suffix]
    exact List.suffix_append _ _
  rw [whole, write_line start (by simpa using inside)]
  refine ⟨?_, List.not_mem_nil⟩
  rw [List.filter_append, labelled.lines, List.map_append, List.filter_cons_of_pos sets]
  rfl

/-- The lines that set labels, whether or not a line has been begun. -/
theorem filter_lines (labelled : sheet.Labelled labels) :
    sheet.lines.filter setsLabel = labels.map fun name => (targetName name ++ ":;").toList := by
  rw [Sheet.lines]
  split
  · exact labelled.lines
  · rw [List.filter_append, labelled.lines,
      List.filter_cons_of_neg (by simp [setsLabel_of_not_mem labelled.plain])]
    exact List.append_nil _

end Sheet.Labelled

/-! ## Tokens without a colon -/

/-- Only a text to print has a colon in it. -/
theorem Token.colon_not_mem_text {token : Token} (shaped : Lexeme.Shaped token.lexeme)
    (other : token.kind ≠ .quoted) : ':' ∉ token.text.toList := by
  obtain ⟨kind, text, loc⟩ := token
  have spelled {kind : Kind} (same : kind.spelling? = some text) : ':' ∉ text.toList := by
    cases kind <;> cases same <;> decide
  cases kind with
  | quoted => exact absurd rfl other
  | ident =>
      intro member
      cases (isWordChar_of_word shaped.1 ':' member).1
  | number =>
      have digits {text : List Char} (digits : Lexeme.Digits text) : ':' ∉ text := by
        intro member
        cases digits.2 ':' member
      have numeral : Lexeme.Numeral text.toList := shaped
      rcases numeral with whole | ⟨whole, fraction, before, after, same⟩
      · exact digits whole
      · rw [same, List.mem_append, List.mem_cons, not_or, not_or]
        exact ⟨digits before, by decide, digits after⟩
  | _ => exact spelled shaped

theorem colon_not_mem_targetName {name : String} (plain : ':' ∉ name.toList) :
    ':' ∉ (targetName name).toList := by
  unfold targetName
  split
  · simpa using plain
  · exact plain

theorem colon_not_mem_targetNumber {text : String} (plain : ':' ∉ text.toList) :
    ':' ∉ (targetNumber text).toList := by
  unfold targetNumber
  split
  · exact plain
  · simpa using plain

/-! ## What moves write -/

/-- An action that sets no label and writes no colon. -/
def Action.Quiet : Action → Prop
  | .label _ _ => False
  | .write text => ':' ∉ text.toList
  | _ => True

/-- Whether C stands at the start of a line at a place. -/
def Place.startsLine : Place → Bool
  | .operand _ | .primary _ | .operator _ | .leadEnd _ | .bodyStart _ => false
  | _ => true

/-- After a text C stands at the start of a line, given whether it did before. -/
def StartsLine (before : Bool) (text : String) : Prop :=
  text.toList.getLast? = some '\n' ∨ before = true ∧ text = ""

namespace Move

/-- A move that sets no label, writes no colon, and leads to a place where a line starts only where
one does, given whether it did before. -/
structure Tidy (start : Bool) (move : Move) : Prop where
  now : ∀ action ∈ move.now, action.Quiet
  owed : ∀ action ∈ move.owed, action.Quiet
  next : ∀ place blocks owed, move.step = .pass place blocks owed → place.startsLine = true →
    StartsLine start (Action.textOf (move.now ++ owed))

namespace Tidy

variable {start start' : Bool} {place : Place} {blocks : List Block} {owed first : List Action}
  {move : Move}

theorem refuse (cause : Cause) : (Move.refuse cause).Tidy start where
  now _ impossible := by cases impossible
  owed _ impossible := by cases impossible
  next _ _ _ impossible := by cases impossible

theorem pass (quiet : ∀ action ∈ owed, action.Quiet)
    (next : place.startsLine = true → StartsLine start (Action.textOf owed)) :
    (Move.pass place blocks owed).Tidy start where
  now _ impossible := by cases impossible
  owed := quiet
  next _ _ _ same starts := by
    cases same
    exact next starts

/-- A move into a line. -/
theorem within (inside : place.startsLine = false) (quiet : ∀ action ∈ owed, action.Quiet) :
    (Move.pass place blocks owed).Tidy start := by
  refine pass quiet ?_
  intro starts
  cases inside.symm.trans starts

/-- A move that writes nothing, where a line starts. -/
theorem stay : (Move.pass place blocks []).Tidy true :=
  pass (List.forall_mem_nil _) fun _ => .inr ⟨rfl, rfl⟩

theorem after (quiet : ∀ action ∈ first, action.Quiet)
    (joins : start = true → StartsLine start' (Action.textOf first)) (tidy : move.Tidy start) :
    (move.after first).Tidy start' where
  now := List.forall_mem_append.mpr ⟨quiet, tidy.now⟩
  owed := tidy.owed
  next place blocks owed step starts := by
    have text : Action.textOf ((move.after first).now ++ owed) =
        Action.textOf first ++ Action.textOf (move.now ++ owed) := by
      rw [Move.after, List.append_assoc, Action.textOf_append]
    rw [text]
    rcases tidy.next place blocks owed step starts with ended | ⟨before, empty⟩
    · exact .inl (ended_append _ ended)
    · rw [empty, String.append_empty]
      exact joins before

end Tidy

end Move

namespace Place

variable {start : Bool} {token : Token} {blocks : List Block} {owed : List Action}

theorem tidy_expect {wanted : Kind} {place : Place}
    (quiet : token.kind = wanted → ∀ action ∈ owed, action.Quiet)
    (next : place.startsLine = true → StartsLine start (Action.textOf owed)) :
    (expect wanted token place blocks owed).Tidy start := by
  unfold expect
  split
  · next same => exact .pass (quiet same) next
  · exact .refuse _

theorem tidy_expect_within {wanted : Kind} {place : Place} (inside : place.startsLine = false)
    (quiet : ∀ action ∈ owed, action.Quiet) :
    (expect wanted token place blocks owed).Tidy start := by
  refine tidy_expect (fun _ => quiet) ?_
  intro starts
  cases inside.symm.trans starts

theorem quiet_enterExpression : ∀ action ∈ enterExpression, action.Quiet := by
  simp [enterExpression, Action.Quiet]

theorem tidy_endLine : (endLine blocks token).Tidy true :=
  tidy_expect (fun _ => List.forall_mem_nil _) fun _ => .inr ⟨rfl, rfl⟩

section Shaped

variable (shaped : Lexeme.Shaped token.lexeme)
include shaped

theorem tidy_atPrimary (purpose : Purpose) : (atPrimary purpose blocks token).Tidy start := by
  have plain := Token.colon_not_mem_text shaped
  unfold atPrimary
  refine .after (by simp [Action.Quiet]) (fun before => .inr ⟨before, rfl⟩) ?_
  split
  · next number =>
      refine .within rfl ?_
      simpa [Action.Quiet] using colon_not_mem_targetNumber (plain (by simp [number]))
  · next ident =>
      refine .after (by simp [Action.Quiet]) (fun before => .inr ⟨before, rfl⟩) (.within rfl ?_)
      simpa [Action.Quiet] using colon_not_mem_targetName (plain (by simp [ident]))
  · exact .refuse _

theorem tidy_atOperand (purpose : Purpose) : (atOperand purpose blocks token).Tidy start := by
  unfold atOperand
  split
  · next sign =>
      have other : token.kind ≠ .quoted := by
        intro same
        rw [same] at sign
        cases sign
      refine .within rfl ?_
      simpa [Action.Quiet] using Token.colon_not_mem_text shaped other
  · exact tidy_atPrimary shaped purpose

theorem tidy_join (other : token.kind ≠ .quoted) (purpose : Purpose) {records : List Action}
    (quiet : ∀ action ∈ records, action.Quiet) :
    (join purpose blocks token records).Tidy start := by
  refine .within rfl (List.forall_mem_cons.mpr ⟨?_, quiet⟩)
  simpa [Action.Quiet] using Token.colon_not_mem_text shaped other

theorem tidy_closeExpression (purpose : Purpose) :
    (closeExpression blocks token purpose).Tidy start := by
  have compares (sign : token.kind.isComparison = true) : token.kind ≠ .quoted := by
    intro same
    rw [same] at sign
    cases sign
  cases purpose with
  | printed => exact .after (by simp [Action.Quiet]) (fun _ => .inl (by decide)) tidy_endLine
  | assigned => exact .after (by simp [Action.Quiet]) (fun _ => .inl (by decide)) tidy_endLine
  | guard block =>
      simp only [closeExpression]
      split
      · next sign => exact tidy_join shaped (compares sign) _ quiet_enterExpression
      · exact .refuse _
  | compared block =>
      simp only [closeExpression]
      split
      · next sign => exact tidy_join shaped (compares sign) _ quiet_enterExpression
      · exact tidy_expect_within rfl (List.forall_mem_nil _)

theorem tidy_atOperator (purpose : Purpose) : (atOperator purpose blocks token).Tidy start := by
  unfold atOperator
  split
  · next same => exact tidy_join shaped (by simp [same]) _ (by simp [Action.Quiet])
  · next same => exact tidy_join shaped (by simp [same]) _ (by simp [Action.Quiet])
  · next same => exact tidy_join shaped (by simp [same]) _ (by simp [Action.Quiet])
  · next same => exact tidy_join shaped (by simp [same]) _ (by simp [Action.Quiet])
  · exact tidy_closeExpression shaped purpose

theorem tidy_atPrintItem (other : token.kind ≠ .quoted) :
    (atPrintItem blocks token).Tidy start := by
  unfold atPrintItem
  split
  · next same => exact absurd same other
  · have plain : ':' ∉ "printf(\"%.2f\\n\", (float)(".toList := by decide
    refine .after (List.forall_mem_cons.mpr ⟨plain, quiet_enterExpression⟩)
      (fun impossible => absurd impossible Bool.false_ne_true) ?_
    exact tidy_atOperand shaped .printed

end Shaped

theorem tidy_openBlock (block : Block) : (openBlock block blocks).Tidy start := by
  have plain : ':' ∉ block.opening.toList := by
    cases block <;> decide
  refine .within rfl (List.forall_mem_cons.mpr ⟨plain, ?_⟩)
  exact List.forall_mem_cons.mpr ⟨trivial, quiet_enterExpression⟩

theorem tidy_atStatement (next : Kind) : (atStatement blocks token next).Tidy true := by
  unfold atStatement
  refine .after (by simp [Action.Quiet]) (fun before => .inr ⟨before, rfl⟩) ?_
  split
  · exact .stay
  · exact tidy_openBlock _
  · exact tidy_openBlock _
  · exact .stay
  · exact .stay
  · exact .stay
  · exact .stay
  · exact .refuse _

theorem tidy_atLine (next : Kind) : (atLine blocks token next).Tidy true := by
  unfold atLine
  split
  · exact .stay
  · split
    · split
      · refine ⟨by simp [Action.Quiet], List.forall_mem_nil _, ?_⟩
        intro _ _ _ impossible
        cases impossible
      · exact tidy_atStatement next
    · split
      · exact .pass (by simp [Action.Quiet]) fun _ => .inl (by decide)
      · split
        · exact .refuse _
        · exact tidy_atStatement next

theorem tidy_atBodyStart (block : Block) (next : Kind) :
    (atBodyStart block blocks token next).Tidy start := by
  unfold atBodyStart
  split
  · exact .within rfl (List.forall_mem_nil _)
  · exact .after (by simp [Action.Quiet]) (fun _ => .inl (by decide)) (tidy_atLine next)

/-- What is owed for a name ends its line. -/
theorem ended_textOf {first : Action} (silent : first.written = "") (text : String)
    {ending : String} (ended : ending.toList.getLast? = some '\n') :
    (Action.textOf [first, .write (text ++ ending)]).toList.getLast? = some '\n' := by
  have whole : Action.textOf [first, .write (text ++ ending)] = text ++ ending := by
    rw [Action.textOf_cons, silent, Action.textOf_cons, Action.textOf_nil, String.append_empty,
      String.empty_append]
    rfl
  rw [whole]
  exact ended_append text ended

/-- Every move is tidy, but for the name of a label and a text to print. -/
theorem tidy_move {place : Place} (shaped : Lexeme.Shaped token.lexeme) (next : Kind)
    (named : ∀ name, place = .letSign name → ':' ∉ name.toList)
    (unlabelled : place = .labelName → token.kind ≠ .ident)
    (unprinted : place = .printItem → token.kind ≠ .quoted) :
    (place.move blocks token next).Tidy place.startsLine := by
  have plain (ident : token.kind = .ident) : ':' ∉ (targetName token.text).toList :=
    colon_not_mem_targetName (Token.colon_not_mem_text shaped (by simp [ident]))
  cases place with
  | line => exact tidy_atLine next
  | printItem => exact tidy_atPrintItem shaped (unprinted rfl)
  | operand purpose => exact tidy_atOperand shaped purpose
  | primary purpose => exact tidy_atPrimary shaped purpose
  | operator purpose => exact tidy_atOperator shaped purpose
  | labelName =>
      simp only [move, expect, if_neg (unlabelled rfl)]
      exact .refuse _
  | gotoName =>
      refine tidy_expect (fun ident => ?_) fun _ => .inl ?_
      · simpa [Action.Quiet] using plain ident
      · exact ended_textOf rfl _ (by decide)
  | letName => exact tidy_expect (by simp [Action.Quiet]) fun _ => .inr ⟨rfl, rfl⟩
  | letSign name =>
      refine tidy_expect_within rfl (List.forall_mem_cons.mpr ⟨?_, quiet_enterExpression⟩)
      simpa [Action.Quiet] using colon_not_mem_targetName (named name rfl)
  | inputName =>
      have whole : inputLines (targetName token.text) =
          "if(scanf(\"%f\", &" ++ targetName token.text ++ ") != 1) \x7b\n" ++
            (targetName token.text ++ " = 0;\n") ++ "scanf(\"%*[^\\n]\");\n" ++ "\x7d\n" := rfl
      have ended : (Action.textOf [.declare token.text,
          .write (inputLines (targetName token.text))]).toList.getLast? = some '\n' := by
        rw [whole]
        exact ended_textOf rfl _ (by decide)
      refine tidy_expect (fun ident => ?_) fun _ => .inl ended
      rw [whole]
      simpa [Action.Quiet] using plain ident
  | lineEnd => exact tidy_endLine
  | leadEnd block => exact tidy_expect_within rfl (List.forall_mem_nil _)
  | bodyStart block => exact tidy_atBodyStart block next

end Place

/-! ## Labels along a run -/

/-- The lines of the body that set labels are those of the labels that are known. -/
def Draft.Labelled (draft : Draft) : Prop :=
  (Sheet.ofText draft.output.body).Labelled draft.names.labels

theorem Draft.body_perform (draft : Draft) (action : Action) :
    (draft.perform action).output.body = draft.output.body ++ action.written := by
  have body := foldl_body [action] draft
  rwa [Action.textOf_cons, Action.textOf_nil, String.append_empty] at body

theorem Draft.Labelled.perform {draft : Draft} {action : Action} (quiet : action.Quiet)
    (labelled : draft.Labelled) : (draft.perform action).Labelled := by
  have labels : (draft.perform action).names.labels = draft.names.labels := by
    rw [perform_names]
    cases action with
    | label _ _ => cases quiet
    | declare name => exact Names.labels_declareVariable ..
    | jump name loc => exact Names.labels_jumpTo ..
    | note _ | head _ | write _ | use _ _ | settle => rfl
  have plain : ':' ∉ action.written.toList := by
    cases action with
    | write text => exact quiet
    | label _ _ | declare _ | jump _ _ | note _ | head _ | use _ _ | settle =>
        exact List.not_mem_nil
  rw [Labelled, labels, body_perform, Sheet.ofText_append]
  exact Sheet.Labelled.write labelled plain

/-- Actions that are quiet keep the labels as they are. -/
theorem Draft.Labelled.performAll {draft : Draft} {actions : List Action}
    (quiet : ∀ action ∈ actions, action.Quiet) (labelled : draft.Labelled) :
    (draft.performAll actions).1.Labelled :=
  performAll_preserves (fun action member _ _ => .perform (quiet action member)) labelled

theorem Draft.Labelled.filter_lines {draft : Draft} (labelled : draft.Labelled) :
    (C.lines draft.output.body).filter (setsLabel ·.toList) =
      draft.names.labels.map (targetName · ++ ":;") := by
  have read : (fun line => setsLabel (String.toList line)) ∘ String.ofList = setsLabel := by
    funext line
    exact congrArg setsLabel String.toList_ofList
  rw [Sheet.lines_ofText, List.filter_map, read, Sheet.Labelled.filter_lines labelled, List.map_map]
  apply List.map_congr_left
  intro name _
  exact String.ofList_toList

namespace Standing

/-- The labels are in order, and a line of C has been begun only where the place says so. -/
structure Labels (standing : Standing) : Prop where
  labelled : standing.draft.Labelled
  start : standing.place.startsLine = true → (Sheet.ofText standing.draft.output.body).begun = []
  named : ∀ name, standing.place = .letSign name → ':' ∉ name.toList

/-- The labels are in order where actions stop, and so is everything else if they do not. -/
def LabelsAfter (done : Draft × Option Fault) (place : Place) (blocks : List Block) : Prop :=
  done.1.Labelled ∧ (done.2 = none → Labels { draft := done.1, place, blocks })

variable {standing : Standing} {token : Token} {next : Kind} {draft : Draft} {place : Place}
  {blocks : List Block} {owed : List Action}

/-- Only a name leads to the sign of an assignment. -/
theorem letSign_of_pass {name : String}
    (step : (standing.move token next).step = .pass (.letSign name) blocks owed) :
    token.kind = .ident ∧ name = token.text := by
  obtain ⟨draft, place, outer⟩ := standing
  obtain ⟨kind, text, loc⟩ := token
  cases place with
  | letName =>
      cases kind with
      | ident =>
          cases step
          exact ⟨rfl, rfl⟩
      | _ => cases step
  | line => rcases outer with _ | ⟨_ | _, outer⟩ <;> cases kind <;> cases step
  | bodyStart block => cases block <;> cases kind <;> cases step
  | operator purpose =>
      rcases purpose with _ | _ | ⟨_ | _⟩ | ⟨_ | _⟩ <;> cases kind <;> cases step
  | _ => cases kind <;> cases step

/-- A move that is tidy. -/
theorem Labels.pass (labels : standing.Labels) (shaped : Lexeme.Shaped token.lexeme)
    (tidy : (standing.move token next).Tidy standing.place.startsLine)
    (kept : standing.draft.performAll (standing.move token next).now = (draft, none))
    (step : (standing.move token next).step = .pass place blocks owed) :
    LabelsAfter (draft.performAll owed) place blocks := by
  have owes : (standing.move token next).owed = owed := by rw [Move.owed, step]
  have labelled : draft.Labelled := by
    have now := labels.labelled.performAll tidy.now
    rwa [kept] at now
  have labelled' := labelled.performAll (owes ▸ tidy.owed)
  refine ⟨labelled', fun done => ⟨labelled', ?_, ?_⟩⟩
  · intro starts
    have first := Draft.performAll_eq_foldl kept
    have second : draft.performAll owed = ((draft.performAll owed).1, none) := by rw [← done]
    have body : (draft.performAll owed).1.output.body = standing.draft.output.body ++
        Action.textOf ((standing.move token next).now ++ owed) := by
      rw [Draft.performAll_eq_foldl second, Draft.foldl_body, first, Draft.foldl_body,
        Action.textOf_append, String.append_assoc]
    rw [body, Sheet.ofText_append]
    rcases tidy.next place blocks owed step starts with ended | ⟨before, empty⟩
    · exact Sheet.begun_of_ended ended _
    · rw [empty]
      exact labels.start before
  · rintro name rfl
    obtain ⟨ident, rfl⟩ := letSign_of_pass step
    exact Token.colon_not_mem_text shaped (by simp [ident])

/-- After a whole line has been written, the line of the source has to end. -/
theorem labels_lineEnd (labelled : draft.Labelled) {before text : String}
    (body : draft.output.body = before ++ text) (ended : text.toList.getLast? = some '\n') :
    Labels { draft, place := .lineEnd, blocks } where
  labelled := labelled
  start _ := by
    rw [body, Sheet.ofText_append]
    exact Sheet.begun_of_ended ended _
  named name impossible := by cases impossible

/-- A label is taken in and its line is written, or neither is done. -/
theorem Labels.pass_label (labels : standing.Labels) (shaped : Lexeme.Shaped token.lexeme)
    (here : standing.place = .labelName) (ident : token.kind = .ident) :
    LabelsAfter (standing.draft.performAll
      [.label token.text token.loc, .write (targetName token.text ++ ":;\n")])
      .lineEnd standing.blocks := by
  have starts := labels.start (by rw [here]; rfl)
  have inside : '\n' ∉ (targetName token.text).toList :=
    (not_mem_of_mentions (.name (isName_targetName (word_of_shaped shaped ident)))).2
  rw [Draft.performAll]
  cases taken : (Action.label token.text token.loc).fault? standing.draft.names with
  | some fault =>
      refine ⟨labels.labelled, ?_⟩
      intro impossible
      cases impossible
  | none =>
      have new : standing.draft.names.hasLabel token.text = false := by
        simpa [Action.fault?] using taken
      have known : (standing.draft.label token.text).names.labels =
          standing.draft.names.labels ++ [token.text] := by
        simp [Draft.label, Names.declareLabel, new]
      have labelled : ((standing.draft.label token.text).write
          (targetName token.text ++ ":;\n")).Labelled := by
        have line := labels.labelled.label starts inside
        rwa [← Sheet.ofText_append, ← known] at line
      exact ⟨labelled, fun _ => labels_lineEnd labelled rfl (ended_append _ (by decide))⟩

/-- A text to print is a line of its own. -/
theorem Labels.pass_printText (labels : standing.Labels) (shaped : Lexeme.Shaped token.lexeme)
    (here : standing.place = .printItem) (quoted : token.kind = .quoted) :
    LabelsAfter (standing.draft.performAll
      [.write ("printf(\"" ++ token.text ++ "\\n\");\n")]) .lineEnd standing.blocks := by
  have starts := labels.start (by rw [here]; rfl)
  have inside : '\n' ∉ ("printf(\"" ++ token.text ++ "\\n\");").toList := by
    rw [Lexeme.Shaped, Token.lexeme, quoted] at shaped
    have plain : '\n' ∉ token.text.toList := by
      intro member
      cases shaped '\n' member
    simpa using plain
  have other : setsLabel ("printf(\"" ++ token.text ++ "\\n\");").toList = false := by
    simp [setsLabel, List.isSuffixOf]
    rfl
  have whole : "printf(\"" ++ token.text ++ "\\n\");" ++ "\n" =
      "printf(\"" ++ token.text ++ "\\n\");\n" := String.append_assoc ..
  have labelled : (standing.draft.write ("printf(\"" ++ token.text ++ "\\n\");\n")).Labelled := by
    have line := labels.labelled.line starts inside other
    rwa [whole, ← Sheet.ofText_append] at line
  exact ⟨labelled, fun _ => labels_lineEnd labelled rfl (ended_append _ (by decide))⟩

theorem move_label (here : standing.place = .labelName) (ident : token.kind = .ident) :
    standing.move token next = .pass .lineEnd standing.blocks
      [.label token.text token.loc, .write (targetName token.text ++ ":;\n")] := by
  rw [move, here]
  exact if_pos ident

theorem move_printText (here : standing.place = .printItem) (quoted : token.kind = .quoted) :
    standing.move token next = .pass .lineEnd standing.blocks
      [.write ("printf(\"" ++ token.text ++ "\\n\");\n")] := by
  rw [move, here, Place.move, Place.atPrintItem, quoted]

/-- A token calls for something tidy, or is the name of a label or a text to print. -/
theorem Labels.tidy_or (labels : standing.Labels) (shaped : Lexeme.Shaped token.lexeme)
    (next : Kind) :
    (standing.move token next).Tidy standing.place.startsLine ∨
      (standing.place = .labelName ∧ token.kind = .ident) ∨
      (standing.place = .printItem ∧ token.kind = .quoted) := by
  by_cases label : standing.place = .labelName ∧ token.kind = .ident
  · exact .inr (.inl label)
  · by_cases text : standing.place = .printItem ∧ token.kind = .quoted
    · exact .inr (.inr text)
    · exact .inl (Place.tidy_move shaped next labels.named (not_and.mp label) (not_and.mp text))

/-- The labels stay in order along every run. -/
theorem labels_invariant : Invariant (fun token => Lexeme.Shaped token.lexeme)
    (fun _ standing => standing.Labels) (fun _ draft => draft.Labelled) where
  stay := Labels.labelled
  now := by
    intro _ standing token labels shaped next
    rcases labels.tidy_or shaped next with tidy | ⟨here, ident⟩ | ⟨here, quoted⟩
    · exact labels.labelled.performAll tidy.now
    · rw [move_label here ident]
      exact labels.labelled
    · rw [move_printText here quoted]
      exact labels.labelled
  pass := by
    intro _ standing token next draft place blocks owed labels shaped kept step
    rcases labels.tidy_or shaped next with tidy | ⟨here, ident⟩ | ⟨here, quoted⟩
    · exact labels.pass shaped tidy kept step
    · rw [move_label here ident] at kept step
      cases kept
      cases step
      exact labels.pass_label shaped here ident
    · rw [move_printText here quoted] at kept step
      cases kept
      cases step
      exact labels.pass_printText shaped here quoted

end Standing

end TeenyTiny
