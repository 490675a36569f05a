import TeenyTiny.Proofs.RulesEnd
import TeenyTiny.Proofs.Stepwise

/-!
# Rules and places

A program can be read rule by rule, or by going from place to place. Here the second is done over
what a parser sees (`Descent.follow`), so that what follows a place can be said by rules. Behind an
operand come the factors of its term, the other terms and what the expression is for
(`Descent.follow_operator`). A statement leads to the line after it (`Descent.turn_statement`), and
the lines of a block lead back to the line that it stands in (`Descent.encloses_block`). So both
ways to read a program are one (`Descent.program_eq_follow`).

Since rules end, it makes no difference that there has to be less to read where one is entered again
(`Descent.repeatWhile_of_goes`, `Descent.block_eq`). What comes round as a loop does is that loop
(`Descent.eq_repeatWhile`). Where this is not all there is to an equation that comes back to itself,
the induction is on the size of the parser.
-/

set_option autoImplicit false

namespace TeenyTiny

namespace Descent

variable {α β : Type} {parser : Parser}

/-! ## Steps -/

theorem current_bind_apply (second : Token → Descent α) (parser : Parser) :
    (current >>= second) parser = second parser.current parser :=
  rfl

theorem get_bind_apply (second : Parser → Descent α) (parser : Parser) :
    (get >>= second) parser = second parser parser :=
  rfl

theorem act_nil : act [] = pure () :=
  rfl

theorem act_append (first second : List Action) :
    act (first ++ second) = (do act first; act second) := by
  funext parser
  rw [bind_apply]
  cases done : parser.draft.performAll first with
  | mk draft fault? =>
      cases fault? with
      | none =>
          rw [act, Draft.performAll_append_of_none done]
          simp only [act, done]
      | some fault =>
          rw [act, Draft.performAll_append_of_some done]
          simp only [act, done]

theorem act_cons (action : Action) (actions : List Action) :
    act (action :: actions) = (do act [action]; act actions) :=
  act_append [action] actions

/-- What is passed is the current token. -/
theorem pass_bind_apply (second : Token → Descent α) (parser : Parser) :
    (pass >>= second) parser = (pass >>= fun _ => second parser.current) parser := by
  rw [bind_apply, bind_apply, pass]
  cases parser.cursor.next.1 <;> rfl

/-- What follows a rule may be replaced by what comes to the same wherever the rule may leave off.
-/
theorem Ends.bind_congr {first : Descent α} {second second' : α → Descent β}
    {holds : α → List Token → Parser → Prop} (ends : Ends first parser holds)
    (same : ∀ value made after, parser.Passes made after → holds value made after →
      second value after = second' value after) :
    (first >>= second) parser = (first >>= second') parser := by
  rw [bind_apply, bind_apply]
  rcases ends with ⟨value, made, after, result, passes, held⟩ | ⟨fault, made, after, result, -⟩
  · rw [result]
    exact same value made after passes held
  · rw [result]

/-- The same of actions, which leave the tokens alone. -/
theorem act_bind_congr {actions : List Action} {second second' : Unit → Descent β}
    (same : ∀ draft, second () { parser with draft } = second' () { parser with draft }) :
    (act actions >>= second) parser = (act actions >>= second') parser := by
  refine (ends_act actions).bind_congr ?_
  rintro ⟨⟩ made after - ⟨-, draft, rfl⟩
  exact same draft

/-! ## From place to place -/

/-- Goes from place to place, as a walk along tokens does, but over what a parser sees. -/
def follow (place : Place) (blocks : List Block) : Descent Unit := fun parser =>
  (do
    act (place.move blocks parser.current parser.ahead.kind).now
    match (place.move blocks parser.current parser.ahead.kind).step with
    | .pass place blocks owed =>
        let _ ← pass
        act owed
        within parser.size fun after _ => follow place blocks after
    | .refuse cause => refuse cause
    | .finish => return () : Descent Unit) parser
termination_by parser => parser.size

/-- Makes a move, and goes on from where it leads. -/
def turn (move : Move) : Descent Unit := do
  act move.now
  match move.step with
  | .pass place blocks owed =>
      let _ ← pass
      act owed
      follow place blocks
  | .refuse cause => refuse cause
  | .finish => return ()

/-- At a place its move is made. -/
theorem follow_apply (place : Place) (blocks : List Block) (parser : Parser) :
    follow place blocks parser =
      turn (place.move blocks parser.current parser.ahead.kind) parser := by
  rw [follow, turn]
  refine act_bind_congr fun draft => ?_
  cases step : (place.move blocks parser.current parser.ahead.kind).step with
  | pass place' blocks' owed =>
      -- The end of the text is never passed, so there is less to read behind the token.
      have more : parser.current.kind ≠ .eof := fun ended => Place.step_of_eof ended _ _ _ step
      refine Ends.bind_congr (@ends_pass { parser with draft } more) ?_
      rintro _ _ after passes ⟨rfl, -⟩
      exact act_bind_congr fun draft' => within_of_lt passes.size
  | refuse cause => rfl
  | finish => rfl

theorem turn_after (first : List Action) (move : Move) :
    turn (move.after first) = (do act first; turn move) := by
  rw [turn, Move.after, act_append, bind_assoc]
  rfl

theorem turn_pass (place : Place) (blocks : List Block) (owed : List Action) :
    turn (.pass place blocks owed) =
      (do let _ ← pass; act owed; follow place blocks) := by
  rw [turn, Move.pass, act_nil, pure_bind]

/-- What is owed may be said of the token that has been passed, and so may the place it leads to. -/
theorem turn_pass_apply (place : Token → Place) (blocks : List Block)
    (owed : Token → List Action) (parser : Parser) :
    turn (.pass (place parser.current) blocks (owed parser.current)) parser =
      (do let token ← pass; act (owed token); follow (place token) blocks) parser := by
  rw [turn_pass]
  exact (pass_bind_apply
    (fun token => do act (owed token); follow (place token) blocks) parser).symm

theorem turn_refuse (cause : Cause) : turn (.refuse cause) = refuse cause := by
  rw [turn, Move.refuse, act_nil, pure_bind]

/-- Where one kind only fits, the rule expects it. -/
theorem turn_expect (wanted : Kind) (place : Token → Place) (blocks : List Block)
    (owed : Token → List Action) (parser : Parser) :
    turn (Place.expect wanted parser.current (place parser.current) blocks
        (owed parser.current)) parser =
      (do
        let token ← expect wanted
        act (owed token)
        follow (place token) blocks) parser := by
  rw [Place.expect, expect, bind_assoc, current_bind_apply]
  split
  · exact turn_pass_apply place blocks owed parser
  · rw [turn_refuse]
    rfl

/-- Only what a rule does where it stands matters for what follows it. -/
theorem bind_apply_congr {first first' : Descent α} (same : first parser = first' parser)
    (second : α → Descent β) : (first >>= second) parser = (first' >>= second) parser := by
  rw [bind_apply, same, ← bind_apply]

/-! ## Loops -/

theorem repeatWhile_of_goes {goes : Kind → Bool} {body : Descent Unit}
    (again : goes parser.current.kind = true) (ends : Ends body parser fun _ made _ => made ≠ [])
    (next : Unit → Descent β) :
    (repeatWhile goes body >>= next) parser =
      (do body; repeatWhile goes body >>= next) parser := by
  have once : repeatWhile goes body parser = (do body; repeatWhile goes body) parser := by
    conv => lhs; rw [repeatWhile, if_pos again]
    refine ends.bind_congr ?_
    rintro ⟨⟩ made after passes nonempty
    exact within_of_lt (passes.size_lt nonempty)
  rw [bind_apply_congr once, bind_assoc]

theorem repeatWhile_of_stops {goes : Kind → Bool} (stops : goes parser.current.kind = false)
    (body : Descent Unit) (next : Unit → Descent β) :
    (repeatWhile goes body >>= next) parser = next () parser := by
  have once : repeatWhile goes body parser = (pure () : Descent Unit) parser := by
    rw [repeatWhile, if_neg (by simp [stops])]
  rw [bind_apply_congr once, pure_bind]

/-- What goes round a loop as long as the loop goes on, and then does what comes behind it, is the
loop with that behind it. Each time round something has to be passed, and what is known of the
parser has to be known again. -/
theorem eq_repeatWhile (known : Parser → Prop) {goes : Kind → Bool}
    {body rule next : Descent Unit}
    (each : ∀ parser, known parser → goes parser.current.kind = true →
      Ends body parser fun _ made after => made ≠ [] ∧ known after)
    (again : ∀ parser, known parser → goes parser.current.kind = true →
      rule parser = (do body; rule) parser)
    (done : ∀ parser, known parser → goes parser.current.kind = false → rule parser = next parser)
    (parser : Parser) (start : known parser) :
    rule parser = (do repeatWhile goes body; next) parser := by
  induction size : parser.size using Nat.strongRecOn generalizing parser with
  | ind size ih =>
      cases on : goes parser.current.kind with
      | false =>
          rw [repeatWhile_of_stops on]
          exact done parser start on
      | true =>
          have ends := each parser start on
          rw [again parser start on,
            repeatWhile_of_goes on (ends.imp fun _ _ _ _ held => held.1)]
          refine ends.bind_congr ?_
          rintro ⟨⟩ made after passes ⟨nonempty, known⟩
          exact ih after.size (size ▸ passes.size_lt nonempty) after known rfl

/-! ## Blocks -/

section Lines

variable {lines lines' : Block → Descent Unit}

theorem enclosed_congr {kind : Block}
    (same : ∀ after : Parser, after.size < parser.size → lines kind after = lines' kind after) :
    enclosed lines kind parser = enclosed lines' kind parser :=
  (ends_heading kind parser).bind_congr fun _ _ after passes held =>
    bind_apply_congr (same after (passes.size_lt held.1)) _

theorem clause_congr (same : ∀ kind (after : Parser), after.size < parser.size →
      lines kind after = lines' kind after) :
    clause lines parser.current parser = clause lines' parser.current parser := by
  have opened (more : parser.current.kind ≠ .eof) (kind : Block) :
      (do let _ ← pass; enclosed lines kind) parser =
        (do let _ ← pass; enclosed lines' kind) parser := by
    refine (ends_pass more).bind_congr ?_
    rintro _ _ after passes ⟨rfl, -⟩
    exact enclosed_congr fun last fewer => same kind last (Nat.lt_trans fewer passes.size)
  rw [clause, clause]
  cases keyword : parser.current.kind with
  | ifWord => exact opened (by simp [keyword]) .branch
  | whileWord => exact opened (by simp [keyword]) .loop
  | _ => rfl

/-- Of the lines of blocks within a statement, only those count for which there is less to read. -/
theorem statementBy_congr (same : ∀ kind (after : Parser), after.size < parser.size →
      lines kind after = lines' kind after) :
    statementBy lines parser = statementBy lines' parser := by
  rw [statementBy, statementBy, get_bind_apply, get_bind_apply]
  refine act_bind_congr fun draft => bind_apply_congr ?_ _
  exact @clause_congr { parser with draft } lines lines' same

end Lines

/-- Statements and blocks come back to each other, and it makes no difference that there has to be
less to read. -/
theorem block_eq (kind : Block) :
    block kind = (do
      let token ← current
      if token.kind = kind.closer then do
        let _ ← expect kind.closer
        return ()
      else if token.kind = .eof then refuse (.expected kind.closer .eof)
      else do
        statement
        block kind) := by
  funext parser
  rw [current_bind_apply]
  conv => lhs; rw [block]
  split
  · rfl
  · split
    · rfl
    · have same : statementBy (fun inner => within parser.size fun after _ => block inner after)
          parser = statement parser :=
        statementBy_congr fun kind after fewer => within_of_lt fewer
      rw [bind_apply_congr same]
      refine (ends_statement parser).bind_congr ?_
      rintro ⟨⟩ made after passes whole
      exact within_of_lt (passes.size_lt whole.ne_nil)

/-! ## Expressions -/

variable (purpose : Purpose) (blocks : List Block)

theorem follow_primary :
    follow (.primary purpose) blocks = (do primary; follow (.operator purpose) blocks) := by
  funext parser
  rw [follow_apply, Place.move, Place.atPrimary, turn_after, primary, bind_assoc,
    current_bind_apply, bind_assoc]
  refine act_bind_congr fun draft => ?_
  cases kind : parser.current.kind with
  | number =>
      simp only [bind_assoc]
      exact turn_pass_apply (fun _ => _) _ (fun token => [.write (targetNumber token.text)]) _
  | ident =>
      simp only [turn_after, bind_assoc]
      refine act_bind_congr fun draft' => ?_
      exact turn_pass_apply (fun _ => _) _ (fun token => [.write (targetName token.text)]) _
  | _ =>
      simp only [turn_refuse]
      rfl

theorem follow_operand :
    (do act [.note .unary]; follow (.operand purpose) blocks) =
      (do unary; follow (.operator purpose) blocks) := by
  have signed : follow (.operand purpose) blocks =
      (do sign; follow (.primary purpose) blocks) := by
    funext parser
    rw [follow_apply, Place.move, Place.atOperand, sign, bind_assoc, current_bind_apply]
    split
    · simp only [bind_assoc]
      exact turn_pass_apply (fun _ => _) _ (fun token => [.write token.text]) _
    · rw [pure_bind, follow_apply, Place.move]
  rw [unary, signed, follow_primary]
  simp only [bind_assoc]

/-- What follows an expression that does not go on. -/
def close : Descent Unit := do
  let token ← current
  turn (Place.closeExpression blocks token purpose)

theorem behind_bind (part next : Descent Unit) :
    (do behind part; next) = behind (do part; next) := by
  simp only [behind, bind_assoc]

/-- Where an operator fits, what follows it is read. -/
theorem turn_join (records : List Action) (parser : Parser) :
    turn (Place.join purpose blocks parser.current records) parser =
      behind (do act records; follow (.operand purpose) blocks) parser := by
  have owed : ∀ token : Token, act (.write (" " ++ token.text ++ " ") :: records) =
      (do act [.write (" " ++ token.text ++ " ")]; act records) := fun _ => act_cons _ _
  rw [Place.join,
    turn_pass_apply (fun _ => _) _ fun token => .write (" " ++ token.text ++ " ") :: records]
  simp only [owed, bind_assoc, behind]

theorem atOperator_eq (token : Token) :
    Place.atOperator purpose blocks token =
      if token.kind.isFactorSign then Place.join purpose blocks token [.note .unary]
      else if token.kind.isSign then Place.join purpose blocks token [.note .term, .note .unary]
      else Place.closeExpression blocks token purpose := by
  rw [Place.atOperator]
  cases token.kind <;> rfl

/-- Behind an operand the factors of its term are read, and then the other terms. -/
theorem follow_operator :
    follow (.operator purpose) blocks =
      (do joined Kind.isFactorSign unary; joined Kind.isSign term; close purpose blocks) := by
  funext parser
  induction size : parser.size using Nat.strongRecOn generalizing parser with
  | ind size ih =>
      -- After an operator and an operand the same place is reached, with less to read.
      have on {part : Descent Unit} (ends : Ends part parser fun _ made _ => made ≠ []) :
          (do part; follow (.operator purpose) blocks) parser =
            (do
              part
              joined Kind.isFactorSign unary
              joined Kind.isSign term
              close purpose blocks) parser := by
        refine ends.bind_congr ?_
        rintro ⟨⟩ made after passes nonempty
        exact ih after.size (size ▸ passes.size_lt nonempty) after rfl
      rw [follow_apply, Place.move, atOperator_eq]
      cases factor : parser.current.kind.isFactorSign with
      | true =>
          rw [if_pos rfl, turn_join, follow_operand, ← behind_bind,
            on (ends_behind consumes_unary rfl factor)]
          exact (repeatWhile_of_goes factor (ends_behind consumes_unary rfl factor) _).symm
      | false =>
          rw [if_neg Bool.false_ne_true]
          conv => rhs; rw [joined, repeatWhile_of_stops factor]
          cases sign : parser.current.kind.isSign with
          | true =>
              have consumes : Consumes (do act [.note .term]; unary) :=
                fun parser => .act_bind fun draft => consumes_unary _
              rw [if_pos rfl, turn_join, act_cons, bind_assoc, follow_operand]
              conv =>
                rhs
                rw [joined, repeatWhile_of_goes sign (ends_behind consumes_term rfl sign),
                  behind_bind, term]
              have step := on (ends_behind consumes rfl sign)
              rw [behind_bind, behind_bind] at step
              simp only [bind_assoc] at step ⊢
              exact step
          | false =>
              rw [if_neg Bool.false_ne_true, joined, repeatWhile_of_stops sign]
              rfl

theorem follow_expression :
    (do act Place.enterExpression; follow (.operand purpose) blocks) =
      (do expression; close purpose blocks) := by
  rw [Place.enterExpression, act_cons (.note .expression), act_cons (.note .term), expression, term]
  simp only [bind_assoc]
  rw [follow_operand, follow_operator]
  rfl

/-- Some expressions are closed in C before the line ends. -/
theorem close_of_end {text : String} (ends : ∀ token, Place.closeExpression blocks token purpose =
      .after [.write text] (Place.endLine blocks token)) :
    close purpose blocks = (do act [.write text]; follow .lineEnd blocks) := by
  funext parser
  rw [close, current_bind_apply, ends, turn_after]
  exact act_bind_congr fun draft => (follow_apply .lineEnd blocks _).symm

/-- Behind a comparison sign another side is read. -/
theorem turn_compared (block : Block) (parser : Parser) :
    turn (Place.join (.compared block) blocks parser.current Place.enterExpression) parser =
      (do behind expression; close (.compared block) blocks) parser := by
  rw [turn_join, follow_expression, behind_bind]

theorem close_compared (block : Block) :
    close (.compared block) blocks =
      (do
        joined Kind.isComparison expression
        let _ ← expect block.lead
        follow (.leadEnd block) blocks) := by
  funext parser
  refine eq_repeatWhile (fun _ => True) ?_ ?_ ?_ parser trivial
  · intro parser _ again
    exact (ends_behind consumes_expression rfl again).imp (by simp)
  · intro parser _ again
    rw [close, current_bind_apply, Place.closeExpression, if_pos again, turn_compared]
    rfl
  · intro parser _ stops
    rw [close, current_bind_apply, Place.closeExpression, if_neg (by simp [stops]),
      turn_expect _ (fun _ => _) _ fun _ => []]
    rfl

theorem close_guard (block : Block) :
    close (.guard block) blocks =
      (do
        sides
        let _ ← expect block.lead
        follow (.leadEnd block) blocks) := by
  funext parser
  rw [close, current_bind_apply, Place.closeExpression, sides, bind_assoc, current_bind_apply]
  split
  · next again =>
      rw [turn_compared, close_compared]
      exact (repeatWhile_of_goes again (ends_behind consumes_expression rfl again) _).symm
  · rw [turn_refuse]
    rfl

/-! ## Ends of lines -/

theorem follow_blanks (place : Place) {next : Descent Unit}
    (again : ∀ parser : Parser, parser.current.kind = .newline →
      place.move blocks parser.current parser.ahead.kind = .pass place blocks [])
    (done : ∀ parser : Parser, parser.current.kind ≠ .newline →
      follow place blocks parser = next parser) :
    follow place blocks = (do blanks; next) := by
  funext parser
  refine eq_repeatWhile (fun _ => True) ?_ ?_ ?_ parser trivial
  · intro parser _ blank
    rw [beq_iff_eq] at blank
    exact .pass_bind (by simp [blank]) fun after _ => ends_pure (by simp)
  · intro parser _ blank
    rw [beq_iff_eq] at blank
    rw [follow_apply, again parser blank, turn_pass, bind_assoc]
    rfl
  · intro parser _ stops
    exact done parser (by simpa using stops)

/-- Before a line there may be blank ones. -/
theorem follow_line : follow .line blocks = (do blanks; follow .line blocks) := by
  refine follow_blanks blocks .line ?_ fun _ _ => rfl
  intro parser blank
  rw [Place.move, Place.atLine.eq_def, if_pos blank]

theorem follow_lineEnd : follow .lineEnd blocks = (do lineEnds; follow .line blocks) := by
  funext parser
  rw [follow_apply, Place.move, Place.endLine, turn_expect _ (fun _ => _) _ fun _ => [], act_nil,
    lineEnds, bind_assoc]
  simp only [pure_bind]
  rw [← follow_line]

theorem follow_leadEnd (block : Block) :
    follow (.leadEnd block) blocks =
      (do lineEnds; act [.write ")\x7b\n"]; follow .line (block :: blocks)) := by
  have start : follow (.bodyStart block) blocks =
      (do blanks; act [.write ")\x7b\n"]; follow .line (block :: blocks)) := by
    refine follow_blanks blocks (.bodyStart block) ?_ ?_
    · intro parser blank
      rw [Place.move, Place.atBodyStart, if_pos blank]
    · intro parser stops
      rw [follow_apply, Place.move, Place.atBodyStart, if_neg stops, turn_after]
      exact act_bind_congr fun draft => (follow_apply .line (block :: blocks) _).symm
  funext parser
  rw [follow_apply, Place.move, turn_expect _ (fun _ => _) _ fun _ => [], act_nil, lineEnds,
    bind_assoc]
  simp only [pure_bind]
  rw [start]

/-! ## Statements -/

theorem follow_printItem :
    follow .printItem blocks = (do printed; follow .lineEnd blocks) := by
  funext parser
  rw [follow_apply, Place.move, Place.atPrintItem, printed, bind_assoc, current_bind_apply]
  split
  · next quoted =>
      rw [if_pos quoted, bind_assoc]
      exact turn_pass_apply (fun _ => _) _
        (fun token => [.write ("printf(\"" ++ token.text ++ "\\n\");\n")]) _
  · next other =>
      rw [if_neg other, turn_after, act_cons]
      simp only [bind_assoc]
      rw [← close_of_end .printed blocks fun _ => rfl, ← follow_expression]
      exact act_bind_congr fun draft => act_bind_congr fun draft' =>
        (follow_apply (.operand .printed) blocks _).symm

/-- Where a name has to follow, it is taken in and something is written. -/
theorem follow_named {place : Place} {taken : Token → Action} {written : String → String}
    (expects : ∀ token next, place.move blocks token next =
      Place.expect .ident token .lineEnd blocks [taken token, .write (written token.text)]) :
    follow place blocks = (do named taken written; follow .lineEnd blocks) := by
  funext parser
  have owed (token : Token) : act [taken token, .write (written token.text)] =
      (do act [taken token]; act [.write (written token.text)]) := act_cons _ _
  rw [follow_apply, expects,
    turn_expect _ (fun _ => _) _ fun token => [taken token, .write (written token.text)], named]
  simp only [owed, bind_assoc]

theorem follow_letName : follow .letName blocks = (do assigned; follow .lineEnd blocks) := by
  have sign (name : String) : follow (.letSign name) blocks =
      (do
        let _ ← expect .assign
        act [.write (targetName name ++ " = ")]
        expression
        act [.write ";\n"]
        follow .lineEnd blocks) := by
    funext parser
    rw [follow_apply, Place.move, turn_expect _ (fun _ => _) _ fun _ => _, act_cons]
    simp only [bind_assoc]
    rw [follow_expression, close_of_end .assigned blocks fun _ => rfl]
  funext parser
  rw [follow_apply, assigned]
  simp only [bind_assoc, ← sign]
  exact turn_expect .ident (.letSign ·.text) blocks (fun token => [.declare token.text]) parser

/-- What comes before the lines of a block leads to them. -/
theorem follow_heading (block : Block) :
    (do
      act (.write block.opening :: .note .comparison :: Place.enterExpression)
      follow (.operand (.guard block)) blocks) =
      (do heading block; follow .line (block :: blocks)) := by
  rw [act_cons, act_cons (.note .comparison), heading, comparison]
  simp only [bind_assoc]
  rw [follow_expression, close_guard, follow_leadEnd]

/-- The lines of a block are read up to the keyword that closes it, which leads back to the line it
stands in. -/
def Encloses (block : Block) (parser : Parser) : Prop :=
  parser.current.kind ≠ .newline →
    follow .line (block :: blocks) parser =
      (do Descent.block block; act [.write "\x7d\n"]; follow .lineEnd blocks) parser

theorem follow_enclosed {block : Block}
    (inner : ∀ after : Parser, after.size < parser.size → Encloses blocks block after) :
    (do
      act (.write block.opening :: .note .comparison :: Place.enterExpression)
      follow (.operand (.guard block)) blocks) parser =
      (do enclosed Descent.block block; follow .lineEnd blocks) parser := by
  rw [follow_heading, enclosed]
  simp only [bind_assoc]
  refine (ends_heading block parser).bind_congr ?_
  rintro ⟨⟩ made after passes ⟨nonempty, stops⟩
  exact inner after (passes.size_lt nonempty) stops

/-- A keyword is passed, and the place behind it is the rule for what follows. -/
theorem turn_keyword {place : Place} {phrase : Descent Unit}
    (agrees : follow place blocks = (do phrase; follow .lineEnd blocks)) :
    turn (.pass place blocks []) =
      (do
        (do let _ ← pass; phrase)
        follow .lineEnd blocks) := by
  rw [turn_pass, act_nil, agrees, bind_assoc]
  simp only [pure_bind]

theorem turn_openBlock {block : Block} (more : parser.current.kind ≠ .eof)
    (inner : ∀ after : Parser, after.size < parser.size → Encloses blocks block after) :
    turn (Place.openBlock block blocks) parser =
      (do
        (do let _ ← pass; enclosed Descent.block block)
        follow .lineEnd blocks) parser := by
  rw [Place.openBlock, turn_pass, bind_assoc]
  refine (ends_pass more).bind_congr ?_
  rintro _ _ after passes ⟨rfl, -⟩
  exact follow_enclosed blocks fun last fewer => inner last (Nat.lt_trans fewer passes.size)

/-- A statement leads to the line after it. -/
theorem turn_statement
    (inner : ∀ block (after : Parser), after.size < parser.size → Encloses blocks block after) :
    turn (Place.atStatement blocks parser.current parser.ahead.kind) parser =
      (do statement; follow .line blocks) parser := by
  rw [Place.atStatement, turn_after, statement, statementBy, bind_assoc, get_bind_apply, bind_assoc]
  refine act_bind_congr fun draft => ?_
  rw [bind_assoc, ← follow_lineEnd, clause]
  cases keyword : parser.current.kind with
  | printWord => exact congrFun (turn_keyword blocks (follow_printItem blocks)) _
  | ifWord => exact turn_openBlock blocks (by simp [keyword]) (inner .branch)
  | whileWord => exact turn_openBlock blocks (by simp [keyword]) (inner .loop)
  | labelWord => exact congrFun (turn_keyword blocks (follow_named blocks fun _ _ => rfl)) _
  | gotoWord => exact congrFun (turn_keyword blocks (follow_named blocks fun _ _ => rfl)) _
  | letWord => exact congrFun (turn_keyword blocks (follow_letName blocks)) _
  | inputWord => exact congrFun (turn_keyword blocks (follow_named blocks fun _ _ => rfl)) _
  | _ => exact congrFun (turn_refuse _) _

theorem encloses_block (blocks : List Block) (block : Block) (parser : Parser) :
    Encloses blocks block parser := by
  induction size : parser.size using Nat.strongRecOn generalizing blocks block parser with
  | ind size ih =>
      intro stops
      rw [follow_apply, Place.move, Place.atLine.eq_def, if_neg stops, block_eq, bind_assoc,
        current_bind_apply]
      dsimp only
      split
      · next closed =>
          rw [turn_pass, bind_assoc, expect, bind_assoc, current_bind_apply, if_pos closed]
          rfl
      · split
        · rw [turn_refuse]
          rfl
        · rw [turn_statement (block :: blocks) fun inner after fewer =>
            ih after.size (size ▸ fewer) (block :: blocks) inner after rfl, bind_assoc]
          refine (ends_statement parser).bind_congr ?_
          rintro ⟨⟩ made after passes whole
          exact ih after.size (size ▸ passes.size_lt whole.ne_nil) blocks block after rfl whole.2

/-- Following the places of a program from its first line is reading it rule by rule. -/
theorem program_eq_follow : program = (do act prologue; follow .line []) := by
  have lines (parser : Parser) (stops : parser.current.kind ≠ .newline) :
      follow .line [] parser =
        (do
          repeatWhile (· != Kind.eof) statement
          act [.write "return 0;\n"]
          act [.write "\x7d\n"]
          act [.settle]) parser := by
    refine eq_repeatWhile (·.current.kind ≠ .newline) ?_ ?_ ?_ parser stops
    · intro parser _ _
      exact (ends_statement parser).imp fun _ _ _ _ whole => ⟨whole.ne_nil, whole.2⟩
    · intro parser stops more
      rw [bne_iff_ne] at more
      rw [follow_apply, Place.move, Place.atLine.eq_def, if_neg stops]
      dsimp only
      rw [if_neg more]
      exact turn_statement [] fun block after _ => encloses_block [] block after
    · intro parser stops ended
      rw [bne_eq_false_iff_eq] at ended
      rw [follow_apply, Place.move, Place.atLine.eq_def, if_neg stops]
      dsimp only
      rw [if_pos ended, turn]
      dsimp only
      rw [act_cons (.write "return 0;\n"), act_cons (.write "\x7d\n"), bind_pure]
  rw [program, follow_line]
  funext parser
  refine act_bind_congr fun draft => (ends_blanks _).bind_congr ?_
  rintro ⟨⟩ _ after - ⟨-, stops⟩
  exact (lines after stops).symm

end Descent

end TeenyTiny
