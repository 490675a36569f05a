import TeenyTiny.Proofs.Remainder

/-!
# Moves follow the grammar

A move at a place fits what may come there (`Place.Fits`). If it passes a token, then after that
token may come what may come at the place it leads to, and the actions about names are those of
the token in the one role it can have. If it refuses a token, nothing that may come starts with
one of its kind. If it finishes, the token is the end and nothing comes after it.

Every move of the reader fits (`Place.fits_move`), and something may come at every place
(`Place.exists_remainder`). Together these say that a token is refused exactly where no program
could have it.
-/

set_option autoImplicit false

namespace TeenyTiny

open Grammar

namespace Grammar

theorem eq_mark_iff {symbol : Symbol} {kind : Kind} :
    symbol = mark kind ↔ symbol.kind = kind ∧ symbol.role? = none := by
  cases symbol
  simp [mark]

theorem eq_name_iff {symbol : Symbol} {role : Role} :
    symbol = name role ↔ symbol.kind = .ident ∧ symbol.role? = some role := by
  cases symbol
  simp [name]

/-- What follows an expression starts with no operator. -/
theorem isOperator_of_after {purpose : Purpose} {blocks : List Block} {symbol : Symbol}
    {others : List Symbol} (after : After blocks (symbol :: others) purpose) :
    isOperator symbol.kind = false := by
  have apart : compares symbol.kind = true → isOperator symbol.kind = false := by
    cases symbol.kind <;> decide
  cases purpose with
  | printed | assigned =>
      obtain ⟨rfl, -⟩ := lineEnd_cons_iff.mp after
      rfl
  | guard block => exact apart (after_guard_cons_iff.mp after).1
  | compared block =>
      rcases moreSides_cons_iff.mp after with ⟨sign, -⟩ | ⟨rfl, -⟩
      · exact apart sign
      · cases block <;> rfl

/-- A statement by its keyword, and what may follow. -/
def Opens (blocks : List Block) (symbols : List Symbol) : Prop :=
  ∃ kind place others, symbols = mark kind :: others ∧ opened? kind = some place ∧
    place.Remainder blocks others

theorem opens_cons_iff {blocks : List Block} {symbol : Symbol} {others : List Symbol} :
    Opens blocks (symbol :: others) ↔
      symbol.role? = none ∧ ∃ place, opened? symbol.kind = some place ∧
        place.Remainder blocks others := by
  constructor
  · rintro ⟨kind, place, _, same, found, remainder⟩
    cases same
    exact ⟨rfl, place, found, remainder⟩
  · rintro ⟨role, place, found, remainder⟩
    exact ⟨symbol.kind, place, others, by rw [← eq_mark_iff.mpr ⟨rfl, role⟩], found, remainder⟩

end Grammar

namespace Place

/-- Whether a move at a token follows a language of what may come. -/
def Fits (language : List Symbol → Prop) (token : Token) (move : Move) : Prop :=
  match move.step with
  | .pass place blocks owed =>
      ∃ role?, (move.now ++ owed).filter Action.naming = (Occurrence.mk token role?).deeds ∧
        ∀ symbol others, symbol.kind = token.kind →
          (language (symbol :: others) ↔ symbol.role? = role? ∧ place.Remainder blocks others)
  | .refuse cause =>
      move.now.filter Action.naming = [] ∧ cause.phase = .grammar ∧
        ∀ symbol others, symbol.kind = token.kind → ¬ language (symbol :: others)
  | .finish =>
      move.now.filter Action.naming = [.settle] ∧ token.kind = .eof ∧
        ∀ symbol others, symbol.kind = token.kind →
          (language (symbol :: others) ↔ symbol.role? = none ∧ others = [])

variable {language language' : List Symbol → Prop} {token : Token} {move : Move} {place : Place}
  {blocks : List Block} {owed : List Action}

/-! ## Building moves that fit -/

theorem fits_pass (role? : Option Role)
    (deeds : owed.filter Action.naming = (Occurrence.mk token role?).deeds)
    (start : ∀ symbol others, symbol.kind = token.kind →
      (language (symbol :: others) ↔ symbol.role? = role? ∧ place.Remainder blocks others)) :
    Fits language token (.pass place blocks owed) :=
  ⟨role?, deeds, start⟩

theorem fits_refuse {cause : Cause} (phase : cause.phase = .grammar)
    (never : ∀ symbol others, symbol.kind = token.kind → ¬ language (symbol :: others)) :
    Fits language token (.refuse cause) :=
  ⟨rfl, phase, never⟩

/-- A move may do something before that is not about names. -/
theorem Fits.after {first : List Action} (fits : Fits language token move)
    (quiet : first.filter Action.naming = []) : Fits language token (move.after first) := by
  unfold Fits at fits ⊢
  simp only [Move.after, List.append_assoc, List.filter_append, quiet, List.nil_append] at fits ⊢
  exact fits

/-- Only what starts with the token matters. -/
theorem Fits.congr (fits : Fits language token move)
    (same : ∀ symbol others, symbol.kind = token.kind →
      (language' (symbol :: others) ↔ language (symbol :: others))) :
    Fits language' token move := by
  unfold Fits at fits ⊢
  split
  · next step =>
      simp only [step] at fits
      obtain ⟨role?, deeds, start⟩ := fits
      exact ⟨role?, deeds, fun symbol others kind => (same symbol others kind).trans
        (start symbol others kind)⟩
  · next step =>
      simp only [step] at fits
      obtain ⟨quiet, phase, never⟩ := fits
      exact ⟨quiet, phase, fun symbol others kind =>
        mt (same symbol others kind).mp (never symbol others kind)⟩
  · next step =>
      simp only [step] at fits
      obtain ⟨settled, ended, start⟩ := fits
      exact ⟨settled, ended, fun symbol others kind => (same symbol others kind).trans
        (start symbol others kind)⟩

theorem fits_expect {wanted : Kind} (role? : Option Role)
    (deeds : owed.filter Action.naming = (Occurrence.mk token role?).deeds)
    (start : ∀ symbol others, symbol.kind = token.kind →
      (language (symbol :: others) ↔
        symbol = ⟨wanted, role?⟩ ∧ place.Remainder blocks others)) :
    Fits language token (expect wanted token place blocks owed) := by
  unfold expect
  split
  · next same =>
      refine fits_pass role? deeds fun symbol others kind => (start symbol others kind).trans ?_
      cases symbol
      simp only [Symbol.mk.injEq] at kind ⊢
      simp [kind, same]
  · next other =>
      refine fits_refuse rfl fun symbol others kind here => ?_
      obtain ⟨rfl, -⟩ := (start symbol others kind).mp here
      exact other kind.symm

theorem fits_endLine : Fits (LineEnd blocks) token (endLine blocks token) :=
  fits_expect none rfl fun _ _ _ => lineEnd_cons_iff

/-! ## Expressions -/

theorem fits_atPrimary {purpose : Purpose} :
    Fits ((Place.primary purpose).Remainder blocks) token (atPrimary purpose blocks token) := by
  refine Fits.after ?_ rfl
  split
  · next kind =>
      refine fits_pass none rfl fun symbol others same => primary_cons_iff.trans ?_
      rw [eq_mark_iff, eq_name_iff, same, kind]
      simp [Place.Remainder]
  · next kind =>
      refine ⟨some .read, rfl, fun symbol others same => primary_cons_iff.trans ?_⟩
      rw [eq_mark_iff, eq_name_iff, same, kind]
      simp [Place.Remainder]
  · next number ident =>
      refine fits_refuse rfl fun symbol others same here => ?_
      rcases (primary_cons_iff.mp here).1 with rfl | rfl
      · exact number same.symm
      · exact ident same.symm

/-- What a primary starts with is no sign. -/
theorem adds_of_primary {purpose : Purpose} {symbol : Symbol} {others : List Symbol}
    (here : (Place.primary purpose).Remainder blocks (symbol :: others)) :
    adds symbol.kind = false := by
  rcases (primary_cons_iff.mp here).1 with rfl | rfl <;> rfl

theorem fits_atOperand {purpose : Purpose} :
    Fits (Operands purpose blocks) token (atOperand purpose blocks token) := by
  unfold atOperand
  rw [← adds_eq]
  split
  · next sign =>
      refine fits_pass none rfl fun symbol others same => operands_cons_iff.trans ?_
      constructor
      · rintro (⟨-, plain, remainder⟩ | here)
        · exact ⟨(eq_mark_iff.mp plain).2, remainder⟩
        · rw [same.symm, adds_of_primary here] at sign
          cases sign
      · rintro ⟨role, remainder⟩
        exact .inl ⟨same ▸ sign, eq_mark_iff.mpr ⟨rfl, role⟩, remainder⟩
  · next plain =>
      refine fits_atPrimary.congr fun symbol others same => operands_cons_iff.trans ?_
      constructor
      · rintro (⟨sign, -⟩ | here)
        · exact absurd (same ▸ sign) plain
        · exact here
      · exact .inr

/-- A sign, and then an operand. -/
theorem fits_join {purpose : Purpose} {records : List Action}
    (quiet : records.filter Action.naming = [])
    (start : ∀ symbol others, symbol.kind = token.kind →
      (language (symbol :: others) ↔ symbol = mark symbol.kind ∧ Operands purpose blocks others)) :
    Fits language token (join purpose blocks token records) := by
  refine fits_pass none quiet fun symbol others same => (start symbol others same).trans ?_
  rw [eq_mark_iff]
  simp [Place.Remainder]

theorem fits_closeExpression {purpose : Purpose} :
    Fits (fun symbols => After blocks symbols purpose) token
      (closeExpression blocks token purpose) := by
  cases purpose with
  | printed | assigned => exact fits_endLine.after rfl
  | guard block =>
      simp only [closeExpression, ← compares_eq]
      split
      · next compares =>
          refine fits_join rfl fun symbol others same => after_guard_cons_iff.trans ?_
          simp [same, compares]
      · next other =>
          refine fits_refuse rfl fun symbol others same here => other ?_
          exact same ▸ (after_guard_cons_iff.mp here).1
  | compared block =>
      simp only [closeExpression, ← compares_eq]
      split
      · next compares =>
          refine fits_join rfl fun symbol others same => moreSides_cons_iff.trans ?_
          have lead : symbol ≠ mark block.lead := by
            rintro rfl
            rw [← same] at compares
            cases block <;> cases compares
          simp [same, compares, lead]
      · next other =>
          refine fits_expect none rfl fun symbol others same => moreSides_cons_iff.trans ?_
          rw [← same] at other
          simp only [other, Bool.false_eq_true, false_and, false_or]
          rfl

theorem fits_atOperator {purpose : Purpose} :
    Fits (MoreOperands purpose blocks) token (atOperator purpose blocks token) := by
  have joined {records : List Action} (quiet : records.filter Action.naming = [])
      (joins : isOperator token.kind = true) :
      Fits (MoreOperands purpose blocks) token (join purpose blocks token records) := by
    refine fits_join quiet fun symbol others same => moreOperands_cons_iff.trans ?_
    constructor
    · rintro (⟨-, here⟩ | after)
      · exact here
      · rw [← same, isOperator_of_after after] at joins
        cases joins
    · rintro here
      exact .inl ⟨same ▸ joins, here⟩
  unfold atOperator
  split
  case h_1 kind | h_2 kind | h_3 kind | h_4 kind => exact joined rfl (by rw [kind]; rfl)
  case h_5 times divide plus minus =>
    refine fits_closeExpression.congr fun symbol others same => moreOperands_cons_iff.trans ?_
    have closes : isOperator symbol.kind = false := by
      rw [same]
      cases kind : token.kind <;> first | rfl | contradiction
    simp [closes]

/-! ## Lines -/

theorem fits_atPrintItem :
    Fits (Place.printItem.Remainder blocks) token (atPrintItem blocks token) := by
  unfold atPrintItem
  split
  · next kind =>
      refine fits_pass none rfl fun symbol others same => ?_
      constructor
      · rintro (⟨_, lineEnd, same'⟩ | operands)
        · cases same'
          exact ⟨rfl, lineEnd⟩
        · exfalso
          rcases operands_cons_iff.mp operands with ⟨sign, -⟩ | here
          · rw [same, kind] at sign
            cases sign
          · rcases (primary_cons_iff.mp here).1 with rfl | rfl <;> simp [kind] at same
      · rintro ⟨role, lineEnd⟩
        exact .inl ⟨_, lineEnd, by rw [eq_mark_iff.mpr ⟨same.trans kind, role⟩]⟩
  · next other =>
      refine (fits_atOperand.congr fun symbol others same => ?_).after rfl
      constructor
      · rintro (⟨_, _, same'⟩ | operands)
        · cases same'
          exact absurd same.symm other
        · exact operands
      · exact .inr

theorem fits_atStatement {next : Kind} :
    Fits (Opens blocks) token (atStatement blocks token next) := by
  have opens {place : Place} {owed : List Action} (found : opened? token.kind = some place)
      (quiet : owed.filter Action.naming = []) :
      Fits (Opens blocks) token (.pass place blocks owed) := by
    refine fits_pass none quiet fun symbol others same => opens_cons_iff.trans ?_
    rw [same, found]
    simp
  refine Fits.after ?_ rfl
  split
  case h_8 =>
    refine fits_refuse rfl fun symbol others same here => ?_
    obtain ⟨-, place, found, -⟩ := opens_cons_iff.mp here
    rw [same] at found
    cases kind : token.kind <;> first | contradiction | simp [kind, opened?] at found
  all_goals
    next kind => exact opens (by rw [kind]; rfl) rfl

/-- Past blank lines, what may come is the end of what is open, or a statement. -/
theorem lines_iff_closing {symbol : Symbol} {others : List Symbol}
    (text : symbol.kind ≠ .newline) :
    Lines blocks (symbol :: others) ↔ Closing blocks (symbol :: others) := by
  refine lines_cons_iff.trans ⟨?_, .inr⟩
  rintro (⟨rfl, -⟩ | closing)
  · exact absurd rfl text
  · exact closing

/-- A symbol that opens no statement ends what is open. -/
theorem closing_iff_ends {symbol : Symbol} {others : List Symbol}
    (plain : opened? symbol.kind = none) :
    Closing blocks (symbol :: others) ↔
      (blocks = [] ∧ symbol = mark .eof ∧ others = []) ∨
      ∃ block outer, blocks = block :: outer ∧ symbol = mark block.closer ∧
        LineEnd outer others := by
  refine closing_cons_iff.trans (or_congr_right ⟨?_, .inl⟩)
  rintro (ends | ⟨kind, place, rfl, found, -⟩)
  · exact ends
  · rw [mark_kind] at plain
    simp [plain] at found

/-- A symbol that does not end what is open opens a statement. -/
theorem closing_iff_opens {symbol : Symbol} {others : List Symbol}
    (open_ : blocks = [] → symbol.kind ≠ .eof)
    (inside : ∀ block outer, blocks = block :: outer → symbol.kind ≠ block.closer) :
    Closing blocks (symbol :: others) ↔ Opens blocks (symbol :: others) := by
  refine closing_cons_iff.trans ⟨?_, ?_⟩
  · rintro (⟨outermost, rfl, -⟩ | ⟨block, outer, here, rfl, -⟩ | ⟨kind, place, rfl, opened⟩)
    · exact absurd rfl (open_ outermost)
    · exact absurd rfl (inside block outer here)
    · exact ⟨kind, place, others, rfl, opened⟩
  · rintro ⟨kind, place, _, same, opened⟩
    cases same
    exact .inr (.inr ⟨kind, place, rfl, opened⟩)

theorem fits_atLine {next : Kind} : Fits (Lines blocks) token (atLine blocks token next) := by
  unfold atLine
  split
  · next kind =>
      refine fits_pass none rfl fun symbol others same => lines_cons_iff.trans ?_
      have newline := same.trans kind
      constructor
      · rintro (⟨rfl, lines⟩ | closing)
        · exact ⟨rfl, lines⟩
        · rcases (closing_iff_ends (by rw [newline]; rfl)).mp closing with
            ⟨-, rfl, -⟩ | ⟨block, outer, -, rfl, -⟩
          · cases newline
          · cases block <;> cases newline
      · rintro ⟨role, lines⟩
        exact .inl ⟨eq_mark_iff.mpr ⟨newline, role⟩, lines⟩
  · next text =>
      cases blocks with
      | nil =>
          simp only
          split
          · next kind =>
              refine ⟨rfl, kind, fun symbol others same => ?_⟩
              have ended := same.trans kind
              rw [lines_iff_closing (same ▸ text), closing_iff_ends (by rw [ended]; rfl),
                eq_mark_iff]
              simp [ended]
          · next more =>
              refine fits_atStatement.congr fun symbol others same => ?_
              rw [lines_iff_closing (same ▸ text)]
              exact closing_iff_opens (fun _ => same ▸ more) (by simp)
      | cons block outer =>
          simp only
          split
          · next kind =>
              refine fits_pass none rfl fun symbol others same => ?_
              have closes := same.trans kind
              rw [lines_iff_closing (same ▸ text),
                closing_iff_ends (by rw [closes]; cases block <;> rfl)]
              constructor
              · rintro (⟨outermost, -⟩ | ⟨block', outer', here, rfl, lineEnd⟩)
                · cases outermost
                · cases here
                  exact ⟨rfl, lineEnd⟩
              · rintro ⟨role, lineEnd⟩
                exact .inr ⟨block, outer, rfl, eq_mark_iff.mpr ⟨closes, role⟩, lineEnd⟩
          · next inside =>
              split
              · next kind =>
                  refine fits_refuse rfl fun symbol others same => ?_
                  have ended := same.trans kind
                  rw [lines_iff_closing (same ▸ text), closing_iff_ends (by rw [ended]; rfl)]
                  simp only [reduceCtorEq, false_and, false_or]
                  rintro ⟨block', outer', -, rfl, -⟩
                  cases block' <;> cases ended
              · next more =>
                  refine fits_atStatement.congr fun symbol others same => ?_
                  rw [lines_iff_closing (same ▸ text)]
                  refine closing_iff_opens (by simp) fun block' outer' here => ?_
                  cases here
                  exact same ▸ inside

theorem fits_atBodyStart {block : Block} {next : Kind} :
    Fits (Lines (block :: blocks)) token (atBodyStart block blocks token next) := by
  have fits : Fits (Lines (block :: blocks)) token (atLine (block :: blocks) token next) :=
    fits_atLine
  unfold atBodyStart
  split
  · next kind =>
      rw [atLine, if_pos kind] at fits
      exact fits
  · exact fits.after rfl

/-- **Every move follows the grammar.** -/
theorem fits_move (place : Place) (blocks : List Block) (token : Token) (next : Kind) :
    Fits (place.Remainder blocks) token (place.move blocks token next) := by
  have starts {symbol head : Symbol} {others : List Symbol} {language : List Symbol → Prop} :
      (∃ rest, language rest ∧ symbol :: others = head :: rest) ↔
        symbol = head ∧ language others := by
    constructor
    · rintro ⟨_, here, same⟩
      cases same
      exact ⟨rfl, here⟩
    · rintro ⟨rfl, here⟩
      exact ⟨_, here, rfl⟩
  cases place with
  | line => exact fits_atLine
  | printItem => exact fits_atPrintItem
  | operand purpose => exact fits_atOperand
  | primary purpose => exact fits_atPrimary
  | operator purpose => exact fits_atOperator
  | labelName => exact fits_expect (some .label) rfl fun _ _ _ => starts
  | gotoName => exact fits_expect (some .jump) rfl fun _ _ _ => starts
  | letName => exact fits_expect (some .target) rfl fun _ _ _ => starts
  | letSign _ => exact fits_expect none rfl fun _ _ _ => starts
  | inputName => exact fits_expect (some .target) rfl fun _ _ _ => starts
  | lineEnd => exact fits_endLine
  | leadEnd block => exact fits_expect none rfl fun _ _ _ => lineEnd_cons_iff
  | bodyStart block => exact fits_atBodyStart

/-! ## No place is a dead end -/

theorem exists_closing (blocks : List Block) : ∃ symbols, Closing blocks symbols := by
  induction blocks with
  | nil => exact ⟨_, .eof⟩
  | cons block blocks ih =>
      obtain ⟨rest, closing⟩ := ih
      exact ⟨_, .closer block 0 closing⟩

theorem exists_lineEnd (blocks : List Block) : ∃ symbols, LineEnd blocks symbols := by
  obtain ⟨rest, closing⟩ := exists_closing blocks
  exact ⟨_, lineEnd_endings 0 closing⟩

theorem expression_number : Expression [.number] :=
  .single (.single (.plain .number))

theorem exists_after (blocks : List Block) (purpose : Purpose) :
    ∃ symbols, After blocks symbols purpose := by
  have sides (block : Block) : ∃ symbols, MoreSides block blocks symbols := by
    obtain ⟨rest, lineEnd⟩ := exists_lineEnd (block :: blocks)
    exact ⟨_, [], _, .nil, ⟨rest, lineEnd, rfl⟩, rfl⟩
  cases purpose with
  | printed | assigned => exact exists_lineEnd blocks
  | guard block =>
      obtain ⟨rest, more⟩ := sides block
      exact ⟨_, .equal, _, rest, rfl, expression_number, more, rfl⟩
  | compared block => exact sides block

/-- Something may come at every place. -/
theorem exists_remainder (place : Place) (blocks : List Block) :
    ∃ symbols, place.Remainder blocks symbols := by
  obtain ⟨ending, lineEnd⟩ := exists_lineEnd blocks
  have operands (purpose : Purpose) : ∃ symbols, Operands purpose blocks symbols := by
    obtain ⟨rest, after⟩ := exists_after blocks purpose
    exact ⟨_, _, rest, expression_number, after, rfl⟩
  have more (purpose : Purpose) : ∃ symbols, MoreOperands purpose blocks symbols := by
    obtain ⟨rest, after⟩ := exists_after blocks purpose
    exact ⟨_, [], rest, .nil, after, rfl⟩
  have assigned : ∃ symbols, Assigned blocks symbols := by
    obtain ⟨rest, here⟩ := operands .assigned
    exact ⟨_, rest, here, rfl⟩
  cases place with
  | line =>
      obtain ⟨rest, closing⟩ := exists_closing blocks
      exact ⟨_, 0, rest, closing, rfl⟩
  | printItem => exact ⟨_, .inl ⟨ending, lineEnd, rfl⟩⟩
  | operand purpose => exact operands purpose
  | primary purpose =>
      obtain ⟨rest, here⟩ := more purpose
      exact ⟨_, _, rest, .number, here, rfl⟩
  | operator purpose => exact more purpose
  | labelName | gotoName | inputName => exact ⟨_, ending, lineEnd, rfl⟩
  | letName =>
      obtain ⟨rest, here⟩ := assigned
      exact ⟨_, rest, here, rfl⟩
  | letSign _ => exact assigned
  | lineEnd => exact ⟨ending, lineEnd⟩
  | leadEnd block => exact exists_lineEnd (block :: blocks)
  | bodyStart block =>
      obtain ⟨rest, closing⟩ := exists_closing (block :: blocks)
      exact ⟨_, 0, rest, closing, rfl⟩

end Place

end TeenyTiny
