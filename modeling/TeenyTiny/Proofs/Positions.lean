import TeenyTiny.Proofs.Continuation

/-!
# Positions as addresses

A position is worked out from the characters in front of it: the position of an offset at which a
character starts is where those characters lead (`Position.ofOffset_front`). Every character leads
further, to a later column or to a later line (`Position.before_foldl`). So no two places of a text
have the same position (`Position.front_eq`).
-/

set_option autoImplicit false

namespace TeenyTiny

theorem within_byteLength (text : List Char) : within (byteLength text) text = text := by
  induction text with
  | nil => rfl
  | cons c text ih =>
      rw [within, byteLength_cons, if_pos (Nat.le_add_right _ _), Nat.add_sub_cancel_left, ih]

namespace Position

/-- The position of the offset behind a front of a text. -/
theorem ofOffset_front (front rest : List Char) :
    ofOffset (front ++ rest) (byteLength front) = front.foldl advance start := by
  rw [ofOffset, within_append (Nat.le_refl _), within_byteLength]

/-- Whether a position comes before another: on an earlier line, or on the same line in an earlier
column. -/
def Before (first second : Position) : Prop :=
  first.line < second.line ∨ first.line = second.line ∧ first.column < second.column

theorem Before.trans {first second third : Position} (before : first.Before second)
    (before' : second.Before third) : first.Before third := by
  unfold Before at *
  omega

theorem Before.ne {first second : Position} (before : first.Before second) : first ≠ second := by
  rintro rfl
  unfold Before at before
  omega

theorem before_advance (position : Position) (c : Char) : position.Before (position.advance c) := by
  unfold advance
  split
  · exact .inl (Nat.lt_succ_self _)
  · exact .inr ⟨rfl, Nat.lt_succ_self _⟩

/-- Characters lead to a later position. -/
theorem before_foldl {text : List Char} (nonempty : text ≠ []) (position : Position) :
    position.Before (text.foldl advance position) := by
  induction text generalizing position with
  | nil => exact absurd rfl nonempty
  | cons c text ih =>
      rw [List.foldl_cons]
      cases text with
      | nil => exact position.before_advance c
      | cons d text => exact (position.before_advance c).trans (ih (List.cons_ne_nil d text) _)

/-- Fronts of one text that lead to the same position are the same. -/
theorem front_eq {front front' rest rest' : List Char} (whole : front ++ rest = front' ++ rest')
    (same : front.foldl advance start = front'.foldl advance start) : front = front' := by
  have longer {front more : List Char}
      (same : front.foldl advance start = (front ++ more).foldl advance start) : more = [] := by
    cases more with
    | nil => rfl
    | cons c more =>
        rw [List.foldl_append] at same
        exact absurd same (before_foldl (List.cons_ne_nil c more) _).ne
  rcases List.append_eq_append_iff.mp whole with ⟨more, rfl, -⟩ | ⟨more, rfl, -⟩
  · rw [longer same, List.append_nil]
  · rw [longer same.symm, List.append_nil]

end Position

end TeenyTiny
