import TeenyTiny.Proofs.Bytes

/-!
# Positions as addresses of a text

A line and a column say where a character stands: behind so many ends of lines, so many characters
on (`Position.address`). At the offsets where characters start, the position of an offset is its
address. It leads back to the offset (`Position.address_front`), it grows with the offset
(`Position.before_iff_of_fronts`), and it is worked out from the bytes in front of the offset alone
(`front_of_bytes`).

Every other offset has the position of the last boundary before it. There is one (`LastBoundary`),
it is what stands within so many bytes (`lastBoundary_within`), and a search backwards from the
offset finds it (`LastBoundary.lastBoundary_eq`). So cutting out the text in front of an offset
never fails, and gives the position that counting characters does (`position_eq`).
-/

set_option autoImplicit false

namespace TeenyTiny

/-! ## Boundaries -/

/-- The boundaries of a string are where a front of its characters stops. -/
theorem boundary_iff {buffer : String} {offset : Nat} :
    Boundary buffer offset ↔
      ∃ front rest, buffer.toList = front ++ rest ∧ offset = byteLength front := by
  constructor
  · intro boundary
    obtain ⟨front, rest, rfl, stop⟩ := String.Pos.Raw.isValid_iff_exists_append.mp boundary
    refine ⟨front.toList, rest.toList, String.toList_append, ?_⟩
    rw [byteLength_toList]
    exact congrArg String.Pos.Raw.byteIdx stop
  · rintro ⟨front, rest, whole, rfl⟩
    rw [← String.ofList_toList (s := buffer), whole]
    exact boundary_front front rest

/-- The last boundary of a string up to an offset. -/
structure LastBoundary (buffer : String) (offset last : Nat) : Prop where
  boundary : Boundary buffer last
  le : last ≤ offset
  last : ∀ other, Boundary buffer other → other ≤ offset → other ≤ last

/-- The search backwards from an offset finds the last boundary. -/
theorem LastBoundary.lastBoundary_eq {buffer : String} {offset last : Nat}
    (found : LastBoundary buffer offset last) : lastBoundary buffer offset = last := by
  induction offset with
  | zero => exact (Nat.le_zero.mp found.le).symm
  | succ offset ih =>
      rw [lastBoundary]
      split
      · next here => exact Nat.le_antisymm (found.last _ here (Nat.le_refl _)) found.le
      · next inside =>
          have before : last ≠ offset + 1 := by
            rintro rfl
            exact inside found.boundary
          have le := found.le
          refine ih ⟨found.boundary, by omega, fun other boundary behind => ?_⟩
          exact found.last other boundary (by omega)

/-! ## Fronts of a text -/

theorem exists_within (bytes : Nat) (text : List Char) :
    ∃ rest, text = within bytes text ++ rest ∧ byteLength (within bytes text) ≤ bytes := by
  induction text generalizing bytes with
  | nil => exact ⟨[], rfl, Nat.zero_le bytes⟩
  | cons c text ih =>
      rw [within]
      split
      · next fits =>
          obtain ⟨rest, whole, le⟩ := ih (bytes - c.utf8Size)
          refine ⟨rest, ?_, ?_⟩
          · rw [List.cons_append, ← whole]
          · rw [byteLength_cons]
            omega
      · exact ⟨c :: text, rfl, Nat.zero_le bytes⟩

/-- No front of a text that takes at most so many bytes is longer than what stands within them. -/
theorem byteLength_le_within {bytes : Nat} (front rest : List Char)
    (fits : byteLength front ≤ bytes) :
    byteLength front ≤ byteLength (within bytes (front ++ rest)) := by
  induction front generalizing bytes with
  | nil => exact Nat.zero_le _
  | cons c front ih =>
      rw [byteLength_cons] at fits
      have later : byteLength front ≤ byteLength (within (bytes - c.utf8Size) (front ++ rest)) :=
        ih (by omega)
      rw [List.cons_append, within, if_pos (by omega), byteLength_cons, byteLength_cons]
      omega

/-- What stands within so many bytes stops at the last boundary up to there. -/
theorem lastBoundary_within (buffer : String) (offset : Nat) :
    LastBoundary buffer (min offset buffer.utf8ByteSize)
      (byteLength (within offset buffer.toList)) := by
  obtain ⟨rest, whole, le⟩ := exists_within offset buffer.toList
  have size := congrArg byteLength whole
  rw [byteLength_append, byteLength_toList] at size
  refine ⟨boundary_iff.mpr ⟨_, rest, whole, rfl⟩, by omega, ?_⟩
  intro other boundary behind
  obtain ⟨front, more, split, rfl⟩ := boundary_iff.mp boundary
  rw [split]
  exact byteLength_le_within front more (by omega)

/-- A front of one text is the front of another that has the same bytes before that offset. -/
theorem front_of_bytes {buffer other : String} {front rest : List Char}
    (whole : buffer.toList = front ++ rest)
    (same : other.toByteArray.extract 0 (byteLength front) =
      buffer.toByteArray.extract 0 (byteLength front)) :
    ∃ rest', other.toList = front ++ rest' := by
  have bytes : buffer.toByteArray.extract 0 (byteLength front) = front.utf8Encode := by
    rw [← String.ofList_toList (s := buffer), whole, String.toByteArray_ofList,
      List.utf8Encode_append]
    exact ByteArray.extract_append_eq_left (size_utf8Encode front).symm
  rw [bytes] at same
  -- These bytes are whole characters, so the other text has a boundary behind them too.
  have boundary : Boundary other (byteLength front) := by
    refine String.Pos.Raw.isValid_iff_isValidUTF8_extract_zero.mpr ⟨?_, ?_⟩
    · have size := congrArg ByteArray.size same
      rw [size_utf8Encode, ByteArray.size_extract, String.size_toByteArray] at size
      show byteLength front ≤ other.utf8ByteSize
      omega
    · rw [same, ← String.toByteArray_ofList]
      exact (String.ofList front).isValidUTF8
  obtain ⟨front', rest', whole', size⟩ := boundary_iff.mp boundary
  have bytes' : other.toByteArray.extract 0 (byteLength front) = front'.utf8Encode := by
    rw [← String.ofList_toList (s := other), whole', String.toByteArray_ofList,
      List.utf8Encode_append, size]
    exact ByteArray.extract_append_eq_left (size_utf8Encode front').symm
  have equal : String.ofList front' = String.ofList front := by
    rw [← String.toByteArray_inj, String.toByteArray_ofList, String.toByteArray_ofList, ← bytes',
      same]
  exact ⟨rest', by rw [whole', String.ofList_injective equal]⟩

/-! ## Addresses -/

/-- The front of a text up to the so-manyth end of a line, that end included. It is the whole text
if there are fewer. -/
def throughLines : Nat → List Char → List Char
  | 0, _ => []
  | _ + 1, [] => []
  | lines + 1, c :: text => c :: throughLines (if c = '\n' then lines else lines + 1) text

theorem throughLines_of_lined {ended : List Char} (lined : Lexeme.Lined ended)
    (rest : List Char) : throughLines (ended.count '\n') (ended ++ rest) = ended := by
  induction ended with
  | nil => simp [throughLines]
  | cons c ended ih =>
      have whole : Lexeme.Lined ([c] ++ ended) := lined
      have later := ih whole.of_append
      by_cases newline : c = '\n'
      · rw [newline, List.count_cons_self, List.cons_append, throughLines, if_pos rfl, later]
      · -- Another character is followed by an end of a line, since the last line ends.
        have member : '\n' ∈ ended := by
          refine (List.mem_cons.mp (lined.newline_mem (List.cons_ne_nil c ended))).resolve_left ?_
          exact Ne.symm newline
        obtain ⟨lines, count⟩ := Nat.exists_eq_succ_of_ne_zero
          (Nat.ne_of_gt (List.count_pos_iff.mpr member))
        rw [count] at later
        rw [List.count_cons_of_ne newline, count, List.cons_append, throughLines, if_neg newline,
          later]

namespace Position

/-- The offset of a position in a text: behind the ends of the lines before it, and then as many
characters on as there are columns before it. -/
def address (text : List Char) (position : Position) : Nat :=
  let lines := throughLines (position.line - 1) text
  byteLength lines + byteLength ((text.drop lines.length).take (position.column - 1))

/-- The position of a boundary leads back to the boundary. -/
theorem address_front (front rest : List Char) :
    address (front ++ rest) (front.foldl advance start) = byteLength front := by
  obtain ⟨ended, line, rfl, lined, within⟩ := exists_lastLine front
  have count : (ended ++ line).count '\n' = ended.count '\n' := by
    rw [List.count_append, List.count_eq_zero.mpr within, Nat.add_zero]
  rw [foldl_lastLine lined within, address, count]
  simp only [Nat.add_sub_cancel, List.append_assoc, throughLines_of_lined lined,
    List.drop_left, List.take_left, byteLength_append]

/-! ## The order of positions -/

theorem not_before_self (position : Position) : ¬ position.Before position := by
  unfold Before
  omega

/-- Of two fronts of a text, the one with fewer bytes leads to the earlier position. -/
theorem before_of_fronts {front rest front' rest' : List Char}
    (whole : front ++ rest = front' ++ rest') (fewer : byteLength front < byteLength front') :
    (front.foldl advance start).Before (front'.foldl advance start) := by
  rcases List.append_eq_append_iff.mp whole with ⟨more, rfl, -⟩ | ⟨more, rfl, -⟩
  · have nonempty : more ≠ [] := by
      rintro rfl
      rw [List.append_nil] at fewer
      exact Nat.lt_irrefl _ fewer
    rw [List.foldl_append]
    exact before_foldl nonempty _
  · rw [byteLength_append] at fewer
    omega

theorem before_iff_of_fronts {front rest front' rest' : List Char}
    (whole : front ++ rest = front' ++ rest') :
    (front.foldl advance start).Before (front'.foldl advance start) ↔
      byteLength front < byteLength front' := by
  refine ⟨fun before => ?_, before_of_fronts whole⟩
  rcases Nat.lt_trichotomy (byteLength front) (byteLength front') with fewer | same | more
  · exact fewer
  · -- Fronts of one length are equal, and nothing comes before itself.
    have equal : front = front' := by
      rcases List.append_eq_append_iff.mp whole with ⟨more, rfl, -⟩ | ⟨more, rfl, -⟩
      all_goals
        cases more with
        | nil => simp
        | cons c more =>
            have := c.utf8Size_pos
            rw [byteLength_append, byteLength_cons] at same
            omega
    rw [equal] at before
    exact absurd before (not_before_self _)
  · exact absurd (before.trans (before_of_fronts whole.symm more)) (not_before_self _)

end Position

/-! ## Positions of all offsets -/

/-- An offset has the position of the last boundary before it. -/
theorem Position.ofOffset_of_lastBoundary {buffer : String} {offset last : Nat}
    (found : LastBoundary buffer (min offset buffer.utf8ByteSize) last) :
    ofOffset buffer.toList offset = ofOffset buffer.toList last := by
  obtain ⟨rest, whole, -⟩ := exists_within offset buffer.toList
  have same : last = byteLength (within offset buffer.toList) := by
    rw [← found.lastBoundary_eq, (lastBoundary_within buffer offset).lastBoundary_eq]
  have front := ofOffset_front (within offset buffer.toList) rest
  rw [← whole, ← same] at front
  rw [front, ofOffset]

/-- Cutting out the text in front of an offset finds its position, wherever the offset is. -/
theorem position_eq (buffer : String) (offset : Nat) :
    position? buffer offset = some (Position.ofOffset buffer.toList offset) := by
  have found := lastBoundary_within buffer offset
  obtain ⟨rest, whole, -⟩ := exists_within offset buffer.toList
  have size := found.le
  have inside : min (byteLength (within offset buffer.toList)) buffer.utf8ByteSize =
      byteLength (within offset buffer.toList) := by omega
  have same : position? buffer offset =
      position? buffer (byteLength (within offset buffer.toList)) := by
    rw [position?, position?, inside, found.lastBoundary_eq,
      lastBoundary_of_boundary found.boundary]
  have front := position_of_front (within offset buffer.toList) rest
  rw [← whole, String.ofList_toList] at front
  rw [same, front, ← Position.ofOffset_of_lastBoundary found]

/-- The position of an offset is a faithful address. Between the boundaries of a text it grows with
the offset, from line to line and within a line from column to column, and counting lines and
characters leads from it back to the offset. Any offset, also one behind the end or within a
character, has the position of the last boundary up to there, and the same is found by cutting out
the text before it. At a boundary the position depends on nothing but the bytes before it. -/
theorem positions_are_addresses (buffer : String) :
    (∀ first second, Boundary buffer first → Boundary buffer second →
      (first < second ↔ (Position.ofOffset buffer.toList first).Before
        (Position.ofOffset buffer.toList second))) ∧
    (∀ offset, Boundary buffer offset →
      Position.address buffer.toList (Position.ofOffset buffer.toList offset) = offset) ∧
    (∀ offset, ∃ last, LastBoundary buffer (min offset buffer.utf8ByteSize) last ∧
      Position.ofOffset buffer.toList offset = Position.ofOffset buffer.toList last ∧
      position? buffer offset = some (Position.ofOffset buffer.toList offset)) ∧
    (∀ (offset : Nat) (other : String), Boundary buffer offset →
      other.toByteArray.extract 0 offset = buffer.toByteArray.extract 0 offset →
      Position.ofOffset other.toList offset = Position.ofOffset buffer.toList offset) := by
  refine ⟨?_, ?_, ?_, ?_⟩
  · intro first second boundary boundary'
    obtain ⟨front, rest, whole, rfl⟩ := boundary_iff.mp boundary
    obtain ⟨front', rest', whole', rfl⟩ := boundary_iff.mp boundary'
    have here := Position.ofOffset_front front rest
    have there := Position.ofOffset_front front' rest'
    rw [← whole] at here
    rw [← whole'] at there
    rw [here, there, Position.before_iff_of_fronts (whole.symm.trans whole')]
  · intro offset boundary
    obtain ⟨front, rest, whole, rfl⟩ := boundary_iff.mp boundary
    rw [whole, Position.ofOffset_front, Position.address_front]
  · intro offset
    have found := lastBoundary_within buffer offset
    exact ⟨_, found, Position.ofOffset_of_lastBoundary found, position_eq buffer offset⟩
  · intro offset other boundary same
    obtain ⟨front, rest, whole, rfl⟩ := boundary_iff.mp boundary
    obtain ⟨rest', whole'⟩ := front_of_bytes whole same
    rw [whole, whole', Position.ofOffset_front, Position.ofOffset_front]

/-- A text with a character of two bytes and two lines: two of its boundaries, an offset within the
character, and another text with the same first line. -/
theorem positions_are_addresses_two_bytes :
    (Boundary "é\nb" 2 ∧ Boundary "é\nb" 3 ∧
      (Position.ofOffset "é\nb".toList 2).Before (Position.ofOffset "é\nb".toList 3)) ∧
    Position.address "é\nb".toList (Position.ofOffset "é\nb".toList 3) = 3 ∧
    (¬ Boundary "é\nb" 1 ∧
      Position.ofOffset "é\nb".toList 1 = Position.ofOffset "é\nb".toList 0) ∧
    Position.ofOffset "é\n\n".toList 3 = Position.ofOffset "é\nb".toList 3 := by
  obtain ⟨order, back, clamped, bytes⟩ := positions_are_addresses "é\nb"
  have second : Boundary "é\nb" 2 := by decide
  have third : Boundary "é\nb" 3 := by decide
  have within : ¬ Boundary "é\nb" 1 := by decide
  obtain ⟨last, found, same, -⟩ := clamped 1
  have zero : last = 0 := by
    have le := found.le
    rcases Nat.lt_or_ge last 1 with before | after
    · omega
    · have one : last = 1 := by omega
      exact absurd (one ▸ found.boundary) within
  rw [zero] at same
  exact ⟨⟨second, third, (order 2 3 second third).mp (by decide)⟩, back 3 third, ⟨within, same⟩,
    bytes 3 "é\n\n" third (by decide)⟩

end TeenyTiny
