import TeenyTiny.Proofs.Progress
import TeenyTiny.Proofs.Relocation

/-!
# Reading on and reading anew

Reading may be gone on with behind any number of tokens and offences. What is then ahead of the
cursor can be taken as a source by itself (`Cursor.unread`), and nothing else matters: the tokens
that follow are those of this source, at offsets that count the bytes behind the cursor too
(`Cursor.take_forward`), and compiling what is ahead writes and logs what compiling this source
does, and is stopped by the same fault (`Cursor.compile_unread`).

If the last line of a text ends, so does the last line ahead of every cursor, and the source gets
back the line end that is taken from it. Only where nothing is ahead there is no such line end. The
source by itself is empty there, and has one blank line more, of which the compiler takes no notice.
-/

set_option autoImplicit false

namespace TeenyTiny

/-! ## Texts that are read further on -/

/-- What is read, with its token or its offence moved. -/
def movedReading (shift : Nat → Nat) : Except Fault Token → Except Fault Token
  | .ok token => .ok (token.relocated shift)
  | .error fault => .error (fault.relocated shift)

theorem keepsOrder_add (bytes : Nat) : KeepsOrder (· + bytes) :=
  fun _ _ => Nat.add_le_add_iff_right

namespace Supply

variable (shift : Nat → Nat) (supply : Supply)

theorem fault_relocated :
    (supply.relocated shift).fault? = supply.fault?.map (.relocated shift) := by
  obtain ⟨tokens, ending⟩ := supply
  cases ending <;> rfl

theorem lookahead_relocated :
    (supply.relocated shift).lookahead = supply.lookahead.map (.relocated shift) := by
  obtain ⟨tokens, ending⟩ := supply
  cases ending with
  | ok last => simp only [relocated, lookahead, List.map_append, List.map_cons, List.map_nil]
  | error fault => rfl

/-- What has moved calls for what it called for, where it is now. -/
theorem walk_relocated : (supply.relocated shift).walk = supply.walk.relocated shift := by
  have moved := TeenyTiny.walk_relocated shift supply.fault? .line [] prologue supply.lookahead
  rw [← fault_relocated, ← lookahead_relocated] at moved
  exact moved

end Supply

namespace Cursor

/-- Many tokens are read alike further on. -/
theorem take_forward (cursor : Cursor) (bytes calls : Nat) :
    (cursor.forward bytes).take calls =
      ((cursor.take calls).1.map (movedReading (· + bytes)),
        (cursor.take calls).2.forward bytes) := by
  induction calls generalizing cursor with
  | zero => rfl
  | succ calls ih =>
      have step : (cursor.forward bytes).next =
          (movedReading (· + bytes) cursor.next.1, cursor.next.2.forward bytes) := by
        rw [next_forward]
        cases cursor.next.1 <;> rfl
      simp only [take, step, ih, List.map_cons]

/-! ## What is ahead -/

/-- What is ahead of a cursor as a source by itself: without the line end that a source is given. -/
def unread (cursor : Cursor) : String :=
  String.ofList cursor.rest.dropLast

section Ahead

variable {cursor : Cursor} (lined : Lexeme.Lined cursor.rest) (more : cursor.rest ≠ [])
include lined more

theorem sourceText_unread : sourceText cursor.unread = cursor.rest := by
  have last := lined _ (List.getLast?_eq_some_getLast more)
  calc
    sourceText cursor.unread = cursor.rest.dropLast ++ ['\n'] := by
      rw [sourceText, unread, String.toList_ofList]
    _ = cursor.rest.dropLast ++ [cursor.rest.getLast more] := by rw [last]
    _ = cursor.rest := List.dropLast_concat_getLast more

theorem eq_forward : cursor = (ofSource cursor.unread).forward cursor.offset := by
  rw [ofSource, sourceText_unread lined more, forward, Nat.zero_add]

end Ahead

section Ended

variable {cursor : Cursor} (none : cursor.rest = [])
include none

theorem unread_of_end : cursor.unread = "" := by
  rw [unread, none]
  rfl

theorem supply_of_rest : cursor.supply = ⟨[], .ok ⟨.eof, "", cursor.offset⟩⟩ :=
  supply_of_end (next_of_rest none) rfl

end Ended

/-- The empty source has one blank line. -/
theorem next_empty :
    (ofSource "").next = (.ok ⟨.newline, "\n", 0⟩, ⟨1, []⟩) := by
  rfl

theorem supply_empty :
    (ofSource "").supply = ⟨[⟨.newline, "\n", 0⟩], .ok ⟨.eof, "", 1⟩⟩ := by
  rw [supply_of_token next_empty (by decide), supply_of_rest rfl]

/-- What is ahead calls for what the source by itself does. -/
theorem walk_unread {cursor : Cursor} (lined : Lexeme.Lined cursor.rest) :
    cursor.supply.walk =
      (ofSource cursor.unread).supply.walk.relocated (· + cursor.offset) := by
  by_cases none : cursor.rest = []
  · rw [unread_of_end none, supply_of_rest none, supply_empty]
    rfl
  · calc
      cursor.supply.walk = ((ofSource cursor.unread).forward cursor.offset).supply.walk := by
        rw [← eq_forward lined none]
      _ = (ofSource cursor.unread).supply.walk.relocated (· + cursor.offset) := by
        rw [supply_forward, Supply.walk_relocated]

/-- Compiling what is ahead has the outcome of compiling the source by itself, further on. -/
theorem compile_unread {cursor : Cursor} (lined : Lexeme.Lined cursor.rest) (output : Output) :
    cursor.compile output =
      (Compilation.ofSource cursor.unread output).relocated (· + cursor.offset) := by
  calc
    cursor.compile output = cursor.supply.walk.compile output := rfl
    _ = ((ofSource cursor.unread).supply.walk.relocated (· + cursor.offset)).compile output := by
      rw [walk_unread lined]
    _ = (Compilation.ofSource cursor.unread output).relocated (· + cursor.offset) := by
      rw [Walk.compile_relocated (keepsOrder_add _), Compilation.ofSource_eq]

/-! ## Reading anew -/

/-- Reading on from a cursor of a text is reading a source from its start, further on by the bytes
behind the cursor. -/
structure ResumesAs (text : List Char) (cursor : Cursor) (source : String) : Prop where
  /-- The source and the line end added to it are what is ahead. -/
  ahead : cursor.rest ≠ [] → sourceText source = cursor.rest
  /-- If nothing is ahead, the source is empty. -/
  ended : cursor.rest = [] → source = ""
  /-- The same is written. -/
  output : ∀ output,
    (cursor.compile output).draft.output = (Compilation.ofSource source output).draft.output
  /-- The same is logged. -/
  log : ∀ output, (cursor.compile output).log = (Compilation.ofSource source output).log
  /-- The same fault stops it, further on. -/
  fault : ∀ output, (cursor.compile output).fault? =
    (Compilation.ofSource source output).fault?.map (.relocated (· + cursor.offset))
  /-- The report says the same, its position aside. -/
  report : ∀ output,
    ((cursor.compile output).diagnostic? text).map (fun found => (found.phase, found.message)) =
      ((Compilation.ofSource source output).diagnostic? (sourceText source)).map
        fun found => (found.phase, found.message)
  /-- The same is read over and over, further on. -/
  readings : cursor.rest ≠ [] → ∀ calls, (cursor.take calls).1 =
    ((ofSource source).take calls).1.map (movedReading (· + cursor.offset))
  /-- If nothing is ahead, the end is read over and over, where the source has the line end that was
  added to it in front. -/
  ends : cursor.rest = [] → ∀ calls,
    (cursor.take calls).1 = List.replicate calls (.ok ⟨.eof, "", cursor.offset⟩) ∧
    ((ofSource source).take (calls + 1)).1 =
      .ok ⟨.newline, "\n", 0⟩ :: List.replicate calls (.ok ⟨.eof, "", 1⟩)

theorem take_of_rest {cursor : Cursor} (none : cursor.rest = []) (calls : Nat) :
    (cursor.take calls).1 = List.replicate calls (.ok ⟨.eof, "", cursor.offset⟩) := by
  have found := next_of_rest none
  rw [take_of_stuck (by rw [found]), found]

/-- From every cursor of a text whose last line ends, reading on is reading the source by itself. -/
theorem resumesAs_unread {cursor : Cursor} (lined : Lexeme.Lined cursor.rest) (text : List Char) :
    ResumesAs text cursor cursor.unread where
  ahead := sourceText_unread lined
  ended := unread_of_end
  output output := by
    rw [compile_unread lined]
    rfl
  log output := by
    rw [compile_unread lined]
    rfl
  fault output := by
    rw [compile_unread lined]
    rfl
  report output := by
    rw [compile_unread lined]
    simp only [Compilation.diagnostic?, Compilation.relocated, Option.map_map]
    rfl
  readings more calls := by
    have moved := take_forward (ofSource cursor.unread) cursor.offset calls
    rw [← eq_forward lined more] at moved
    rw [moved]
  ends none calls := by
    refine ⟨take_of_rest none calls, ?_⟩
    rw [unread_of_end none, take, next_empty, take_of_rest rfl]

end Cursor

/-- Behind any number of readings, what follows depends only on what is ahead. Reading on gives what
reading it as a source by itself does, in the tokens, what is written, the log and the report. -/
theorem reading_on_is_reading_anew (source : String) (calls : Nat) :
    Cursor.StandsIn (sourceText source) (Cursor.reached source calls) ∧
      Cursor.ResumesAs (sourceText source) (Cursor.reached source calls)
        (Cursor.reached source calls).unread :=
  ⟨Cursor.standsIn_reached source calls,
    Cursor.resumesAs_unread (Cursor.lined_reached source calls) (sourceText source)⟩

end TeenyTiny
