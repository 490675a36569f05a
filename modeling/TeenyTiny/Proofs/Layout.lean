import TeenyTiny.Proofs.Course
import TeenyTiny.Tree.Listing

/-!
# Blank lines

Blank lines call for nothing. A walk along tokens is, action for action, the walk along the same
tokens without the ends of line that end blank lines (`walk_dropBlank`).

Where a line has just ended is seen from the place alone (`Place.ended`): a token leads there if and
only if it is the end of a line (`Place.ends_move`).
-/

set_option autoImplicit false

namespace TeenyTiny

/-- Drops every end of line that ends a blank line, given whether a line has just ended. -/
def dropBlank (ended : Bool) : List Token → List Token
  | [] => []
  | token :: tokens =>
      if token.kind = .newline then
        if ended then dropBlank true tokens else token :: dropBlank true tokens
      else token :: dropBlank false tokens

/-- A token is kept unless it ends a blank line. -/
theorem dropBlank_cons_of_keep {ended : Bool} {token : Token}
    (keep : ended = true → token.kind ≠ .newline) (tokens : List Token) :
    dropBlank ended (token :: tokens) =
      token :: dropBlank (decide (token.kind = .newline)) tokens := by
  rw [dropBlank]
  by_cases newline : token.kind = .newline
  · have before : ended = false := Bool.eq_false_iff.mpr fun ended => keep ended newline
    simp [newline, before]
  · simp [newline]

/-- Blank lines can be dropped before or after the places of tokens are forgotten. -/
theorem map_lexeme_dropBlank (ended : Bool) (tokens : List Token) :
    (dropBlank ended tokens).map Token.lexeme =
      Tree.dropBlankLines ended (tokens.map Token.lexeme) := by
  induction tokens generalizing ended with
  | nil => rfl
  | cons token tokens ih =>
      rw [dropBlank, List.map_cons, Tree.dropBlankLines]
      by_cases newline : token.kind = .newline
      · cases ended <;> simp [newline, ih, Token.lexeme]
      · simp [newline, ih, Token.lexeme]

/-- A last token that ends no line is kept where blank lines are dropped. -/
theorem Tree.dropBlankLines_append {last : Lexeme} (other : last.1 ≠ .newline) (ended : Bool)
    (lexemes : List Lexeme) :
    dropBlankLines ended (lexemes ++ [last]) = dropBlankLines ended lexemes ++ [last] := by
  induction lexemes generalizing ended with
  | nil => simp [dropBlankLines, other]
  | cons lexeme lexemes ih =>
      rw [List.cons_append, dropBlankLines, dropBlankLines]
      split
      · split
        · exact ih true
        · rw [ih true, List.cons_append]
      · rw [ih false, List.cons_append]

namespace Place

/-- Whether a line has just ended, or none has started. -/
def ended : Place → Bool
  | line | bodyStart _ => true
  | _ => false

/-- If a move passes a token, it ends a line if and only if the token is the end of one. -/
def Ends (token : Token) (move : Move) : Prop :=
  match move.step with
  | .pass place _ _ => place.ended = decide (token.kind = .newline)
  | _ => True

section Ends

variable {token : Token}

theorem ends_expect {wanted : Kind} {place : Place} (blocks : List Block) (owed : List Action)
    (right : place.ended = decide (wanted = .newline)) :
    Ends token (expect wanted token place blocks owed) := by
  unfold expect
  split
  · next kind => rw [← kind] at right; exact right
  · trivial

theorem ends_atPrimary (purpose : Purpose) (blocks : List Block) :
    Ends token (atPrimary purpose blocks token) := by
  unfold atPrimary
  split
  · next kind => simp [Ends, Move.after, Move.pass, ended, kind]
  · next kind => simp [Ends, Move.after, Move.pass, ended, kind]
  · trivial

theorem ends_atOperand (purpose : Purpose) (blocks : List Block) :
    Ends token (atOperand purpose blocks token) := by
  unfold atOperand
  split
  · next sign =>
      have other : token.kind ≠ .newline := fun newline => by simp [newline, Kind.isSign] at sign
      simp [Ends, Move.pass, ended, other]
  · exact ends_atPrimary purpose blocks

theorem ends_join (purpose : Purpose) (blocks : List Block) (records : List Action)
    (other : token.kind ≠ .newline) : Ends token (join purpose blocks token records) := by
  simp [Ends, join, Move.pass, ended, other]

theorem ends_closeExpression (purpose : Purpose) (blocks : List Block) :
    Ends token (closeExpression blocks token purpose) := by
  have compares (sign : token.kind.isComparison = true) : token.kind ≠ .newline :=
    fun newline => by simp [newline, Kind.isComparison] at sign
  cases purpose with
  | printed => exact ends_expect blocks [] rfl
  | assigned => exact ends_expect blocks [] rfl
  | guard block =>
      rw [closeExpression]
      split
      · next sign => exact ends_join _ _ _ (compares sign)
      · trivial
  | compared block =>
      rw [closeExpression]
      split
      · next sign => exact ends_join _ _ _ (compares sign)
      · exact ends_expect blocks [] (by cases block <;> rfl)

theorem ends_atOperator (purpose : Purpose) (blocks : List Block) :
    Ends token (atOperator purpose blocks token) := by
  unfold atOperator
  split
  · next kind => exact ends_join _ _ _ (by simp [kind])
  · next kind => exact ends_join _ _ _ (by simp [kind])
  · next kind => exact ends_join _ _ _ (by simp [kind])
  · next kind => exact ends_join _ _ _ (by simp [kind])
  · exact ends_closeExpression purpose blocks

theorem ends_atPrintItem (blocks : List Block) : Ends token (atPrintItem blocks token) := by
  unfold atPrintItem
  split
  · next kind => simp [Ends, Move.pass, ended, kind]
  · exact ends_atOperand .printed blocks

theorem ends_atStatement (blocks : List Block) (next : Kind) :
    Ends token (atStatement blocks token next) := by
  unfold atStatement
  split <;>
    first
      | trivial
      | next kind => simp [Ends, Move.after, Move.pass, openBlock, ended, kind]

theorem ends_atLine (blocks : List Block) (next : Kind) :
    Ends token (atLine blocks token next) := by
  unfold atLine
  split
  · next newline => simp [Ends, Move.pass, ended, newline]
  · next other =>
      split
      · split
        · trivial
        · exact ends_atStatement _ next
      · split
        · simp [Ends, Move.pass, ended, other]
        · split
          · trivial
          · exact ends_atStatement _ next

theorem ends_atBodyStart (block : Block) (blocks : List Block) (next : Kind) :
    Ends token (atBodyStart block blocks token next) := by
  unfold atBodyStart
  split
  · next newline => simp [Ends, Move.pass, ended, newline]
  · exact ends_atLine (block :: blocks) next

end Ends

/-- Every move that passes a token ends a line if and only if the token is the end of one. -/
theorem ends_move (place : Place) (blocks : List Block) (token : Token) (next : Kind) :
    Ends token (place.move blocks token next) := by
  cases place with
  | line => exact ends_atLine blocks next
  | printItem => exact ends_atPrintItem blocks
  | operand purpose => exact ends_atOperand purpose blocks
  | primary purpose => exact ends_atPrimary purpose blocks
  | operator purpose => exact ends_atOperator purpose blocks
  | labelName | gotoName | letName | letSign _ | inputName | lineEnd | leadEnd _ =>
      exact ends_expect blocks _ rfl
  | bodyStart block => exact ends_atBodyStart block blocks next

/-- What the end of a line leads to does not depend on the token after it. -/
theorem move_newline {token : Token} (newline : token.kind = .newline) (place : Place)
    (blocks : List Block) (next next' : Kind) :
    place.move blocks token next = place.move blocks token next' := by
  cases place with
  | line => simp [move, atLine, newline]
  | bodyStart block => simp [move, atBodyStart, newline]
  | _ => rfl

/-- The end of a blank line leads nowhere. -/
theorem move_blank {token : Token} (newline : token.kind = .newline) {place : Place}
    (ends : place.ended = true) (blocks : List Block) (next : Kind) :
    place.move blocks token next = .pass place blocks [] := by
  cases place with
  | line => simp [move, atLine, newline]
  | bodyStart block => simp [move, atBodyStart, newline]
  | _ => cases ends

end Place

/-- Two walks that start with one token are equal if they go on equally after it. -/
theorem walk_congr {ending : Option Fault} {place : Place} {blocks : List Block}
    {token ahead ahead' next next' : Token} {tokens tokens' : List Token}
    (same : place.move blocks token ahead.kind = place.move blocks token ahead'.kind)
    (later : ∀ place' blocks' owed,
      (place.move blocks token ahead.kind).step = .pass place' blocks' owed →
        walk ending place' blocks' [] (ahead :: next :: tokens) =
          walk ending place' blocks' [] (ahead' :: next' :: tokens')) :
    walk ending place blocks [] (token :: ahead :: next :: tokens) =
      walk ending place blocks [] (token :: ahead' :: next' :: tokens') := by
  cases step : (place.move blocks token ahead.kind).step with
  | pass place' blocks' owed =>
      rw [walk_of_pass step, later place' blocks' owed step, same,
        walk_of_pass (by rw [← same]; exact step)]
  | refuse cause => rw [walk_of_refuse step, same, walk_of_refuse (by rw [← same]; exact step)]
  | finish => rw [walk_of_finish step, same, walk_of_finish (by rw [← same]; exact step)]

/-- Within a line, the next token is the same with and without blank lines. -/
theorem head_dropBlank {last ahead ahead' : Token} {body tokens tokens' : List Token}
    (window : body ++ [last, last] = ahead :: tokens)
    (window' : dropBlank false body ++ [last, last] = ahead' :: tokens') : ahead = ahead' := by
  cases body with
  | nil =>
      cases window
      cases window'
      rfl
  | cons token body =>
      rw [dropBlank_cons_of_keep (by simp)] at window'
      cases window
      cases window'
      rfl

/-- Blank lines call for nothing. -/
theorem walk_dropBlank (ending : Option Fault) {last : Token} (body : List Token) (place : Place)
    (blocks : List Block) :
    walk ending place blocks [] (body ++ [last, last]) =
      walk ending place blocks [] (dropBlank place.ended body ++ [last, last]) := by
  induction body generalizing place blocks with
  | nil => rfl
  | cons token body ih =>
      obtain ⟨ahead, next, tokens, window⟩ := exists_window body last last []
      by_cases blank : place.ended = true ∧ token.kind = .newline
      · obtain ⟨ends, newline⟩ := blank
        have stays := Place.move_blank newline ends blocks ahead.kind
        rw [dropBlank, if_pos newline, if_pos ends, List.cons_append, window,
          walk_of_pass (by rw [stays]; rfl), stays, ← window, ih, ends]
        rfl
      · obtain ⟨ahead', next', tokens', window'⟩ :=
          exists_window (dropBlank (decide (token.kind = .newline)) body) last last []
        have same : place.move blocks token ahead.kind = place.move blocks token ahead'.kind := by
          by_cases newline : token.kind = .newline
          · exact Place.move_newline newline place blocks ahead.kind ahead'.kind
          · rw [decide_eq_false newline] at window'
            rw [head_dropBlank window window']
        rw [dropBlank_cons_of_keep (fun ends newline => blank ⟨ends, newline⟩), List.cons_append,
          List.cons_append, window, window']
        refine walk_congr same fun place' blocks' owed step => ?_
        have ends := Place.ends_move place blocks token ahead.kind
        rw [Place.Ends, step] at ends
        rw [← window, ← window', ih place' blocks', ends]

end TeenyTiny
