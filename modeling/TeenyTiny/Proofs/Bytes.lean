import TeenyTiny.Proofs.Positions
import TeenyTiny.Proofs.Progress

/-!
# Texts as bytes

A text may be kept as the bytes of its UTF-8 form. A character of ASCII is one byte there, and no
byte of another character is one of ASCII (`bytewise_of_ascii`, `le_of_mem_bytewise`). So a run of
characters can be followed byte by byte, without regard to where one character stops and the next
one starts, if its class takes all characters outside ASCII or none of them (`Uniform`): the run of
bytes stops where the run of characters does, and never within a character (`takeWhile_bytewise`).

A part of a text is cut out from one offset to another. This can be done only where characters start
or the text ends (`Boundary`), and otherwise there is no such part (`slice?`). The position of an
offset is found by cutting out what stands in front of it, and of that the last line (`position?`).
At a boundary both can be done, and the position is that which counting characters gives
(`position_of_front`).
-/

set_option autoImplicit false

namespace TeenyTiny

/-! ## Bytes as characters -/

/-- The bytes of a text, each taken as a character by itself. -/
def bytewise (text : List Char) : List Char :=
  (text.flatMap String.utf8EncodeChar).map Char.ofUInt8

/-- The bytes that a string is kept as, each taken as a character by itself. -/
def byteChars (buffer : String) : List Char :=
  buffer.toByteArray.data.toList.map Char.ofUInt8

theorem byteChars_ofList (text : List Char) : byteChars (String.ofList text) = bytewise text := by
  rw [byteChars, String.toByteArray_ofList, List.utf8Encode, List.data_toByteArray]
  rfl

theorem bytewise_append (first second : List Char) :
    bytewise (first ++ second) = bytewise first ++ bytewise second := by
  simp only [bytewise, List.flatMap_append, List.map_append]

theorem bytewise_cons (c : Char) (text : List Char) :
    bytewise (c :: text) = bytewise [c] ++ bytewise text :=
  bytewise_append [c] text

theorem length_bytewise (text : List Char) : (bytewise text).length = byteLength text := by
  induction text with
  | nil => rfl
  | cons c text ih =>
      rw [bytewise_cons, List.length_append, ih, byteLength_cons]
      simp [bytewise]

theorem toNat_ofUInt8 (byte : UInt8) : (Char.ofUInt8 byte).toNat = byte.toNat := by
  delta Char.ofUInt8 Char.toNat
  exact UInt8.toNat_toUInt32 byte

/-- A character of ASCII is one byte. -/
theorem bytewise_of_ascii {c : Char} (ascii : c.toNat < 128) : bytewise [c] = [c] := by
  have size : c.utf8Size = 1 := by
    rw [Char.utf8Size_eq_one_iff, UInt32.le_iff_toNat_le]
    exact Nat.le_of_lt_succ ascii
  have number : (Char.ofUInt8 c.val.toUInt8).toNat = c.toNat := by
    rw [toNat_ofUInt8, UInt32.toNat_toUInt8]
    exact Nat.mod_eq_of_lt (Nat.lt_trans ascii (by decide))
  have same : Char.ofUInt8 c.val.toUInt8 = c := Char.toNat_inj.mp number
  simp only [bytewise, List.flatMap_singleton, String.utf8EncodeChar_eq_singleton size,
    List.map_cons, List.map_nil, same]

/-- No byte of a character outside ASCII is one of ASCII. -/
theorem le_of_mem_bytewise {c d : Char} (other : 128 ≤ c.toNat) (member : d ∈ bytewise [c]) :
    128 ≤ d.toNat := by
  simp only [bytewise, List.flatMap_singleton, List.mem_map] at member
  obtain ⟨byte, inside, rfl⟩ := member
  rw [toNat_ofUInt8]
  have bound : c.val.toNat < 0x110000 := by
    have valid := c.valid
    simp only [UInt32.isValidChar, Nat.isValidChar] at valid
    omega
  have other : 128 ≤ c.val.toNat := other
  revert byte
  unfold String.utf8EncodeChar
  simp only
  rw [if_neg (by omega)]
  split
  · simp
    omega
  · split
    · simp
      omega
    · simp
      omega

theorem bytewise_ne_nil (c : Char) : bytewise [c] ≠ [] := by
  intro none
  have size := length_bytewise [c]
  have := c.utf8Size_pos
  rw [none, List.length_nil, byteLength_cons] at size
  omega

/-- A character of ASCII stands among the bytes of a text only where it stands in the text. -/
theorem mem_of_mem_bytewise {c : Char} (ascii : c.toNat < 128) {text : List Char}
    (member : c ∈ bytewise text) : c ∈ text := by
  induction text with
  | nil => cases member
  | cons d text ih =>
      rw [bytewise_cons, List.mem_append] at member
      rcases member with here | later
      · by_cases plain : d.toNat < 128
        · rw [bytewise_of_ascii plain, List.mem_singleton] at here
          rw [here]
          exact List.mem_cons_self
        · have := le_of_mem_bytewise (Nat.le_of_not_lt plain) here
          omega
      · exact List.mem_cons_of_mem d (ih later)

/-! ## Runs of bytes -/

/-- Whether a class of characters takes all those outside ASCII or none of them. -/
def Uniform (p : Char → Bool) : Prop :=
  ∃ taken : Bool, ∀ c : Char, 128 ≤ c.toNat → p c = taken

/-- What a uniform class says of a character it says of each of its bytes. -/
theorem Uniform.alike {p : Char → Bool} (uniform : Uniform p) {c d : Char}
    (member : d ∈ bytewise [c]) : p d = p c := by
  obtain ⟨taken, others⟩ := uniform
  by_cases ascii : c.toNat < 128
  · rw [bytewise_of_ascii ascii, List.mem_singleton] at member
    rw [member]
  · have other := Nat.le_of_not_lt ascii
    rw [others c other, others d (le_of_mem_bytewise other member)]

/-- A run of bytes of a uniform class is the run of characters. -/
theorem takeWhile_bytewise {p : Char → Bool} (uniform : Uniform p) (text : List Char) :
    (bytewise text).takeWhile p = bytewise (text.takeWhile p) := by
  induction text with
  | nil => rfl
  | cons c text ih =>
      have alike : ∀ d ∈ bytewise [c], p d = p c := fun _ => uniform.alike
      rw [bytewise_cons]
      by_cases inside : p c = true
      · rw [List.takeWhile_cons_of_pos inside, bytewise_cons c (text.takeWhile p), ← ih]
        apply List.takeWhile_append_of_pos
        intro d member
        rw [alike d member, inside]
      · rw [List.takeWhile_cons_of_neg inside]
        obtain ⟨d, others, shape⟩ := List.exists_cons_of_ne_nil (bytewise_ne_nil c)
        rw [shape] at alike
        have stop : ¬ p d = true := by
          rw [alike d List.mem_cons_self]
          exact inside
        rw [shape, List.cons_append, List.takeWhile_cons_of_neg stop]
        rfl

/-! ## Parts of a text -/

/-- The offsets of a string at which a character starts or the string ends. -/
def Boundary (buffer : String) (offset : Nat) : Prop :=
  String.Pos.Raw.IsValid buffer ⟨offset⟩

instance (buffer : String) (offset : Nat) : Decidable (Boundary buffer offset) :=
  inferInstanceAs (Decidable (String.Pos.Raw.IsValid buffer ⟨offset⟩))

/-- The part of a string between two offsets. There is none unless both are boundaries, in order. -/
def slice? (buffer : String) (start stop : Nat) : Option String :=
  if cut : start ≤ stop ∧ Boundary buffer start ∧ Boundary buffer stop then
    some (String.extract (buffer.pos ⟨start⟩ cut.2.1) (buffer.pos ⟨stop⟩ cut.2.2))
  else none

theorem boundary_front (front rest : List Char) :
    Boundary (String.ofList (front ++ rest)) (byteLength front) := by
  refine String.Pos.Raw.isValid_iff_exists_append.mpr
    ⟨String.ofList front, String.ofList rest, String.ofList_append, ?_⟩
  rw [← utf8ByteSize_ofList]
  rfl

theorem size_utf8Encode (text : List Char) : text.utf8Encode.size = byteLength text := by
  rw [← String.toByteArray_ofList, String.size_toByteArray, utf8ByteSize_ofList]

/-- What stands between a front of a text and its end can be cut out. -/
theorem slice_part (front part back : List Char) :
    slice? (String.ofList (front ++ part ++ back)) (byteLength front) (byteLength (front ++ part)) =
      some (String.ofList part) := by
  have start : Boundary (String.ofList (front ++ part ++ back)) (byteLength front) := by
    rw [List.append_assoc]
    exact boundary_front front (part ++ back)
  have stop := boundary_front (front ++ part) back
  have inOrder : byteLength front ≤ byteLength (front ++ part) := by
    rw [byteLength_append]
    exact Nat.le_add_right _ _
  rw [slice?, dif_pos ⟨inOrder, start, stop⟩]
  congr 1
  apply String.toByteArray_inj.mp
  have bytes : (String.ofList (front ++ part ++ back)).toByteArray =
      front.utf8Encode ++ (part.utf8Encode ++ back.utf8Encode) := by
    rw [String.toByteArray_ofList, List.append_assoc, List.utf8Encode_append,
      List.utf8Encode_append]
  calc
    _ = (front.utf8Encode ++ (part.utf8Encode ++ back.utf8Encode)).extract
          (byteLength front + 0) (byteLength front + byteLength part) := by
        rw [String.toByteArray_extract, bytes, Nat.add_zero, ← byteLength_append]
        rfl
    _ = (part.utf8Encode ++ back.utf8Encode).extract 0 (byteLength part) :=
        ByteArray.extract_append_size_add' (size_utf8Encode front).symm
    _ = part.utf8Encode := ByteArray.extract_append_eq_left (size_utf8Encode part).symm
    _ = (String.ofList part).toByteArray := String.toByteArray_ofList.symm

/-! ## Lines -/

namespace Position

/-- Every end of a line leads to a new line. -/
theorem line_foldl (text : List Char) (position : Position) :
    (text.foldl advance position).line = position.line + text.count '\n' := by
  induction text generalizing position with
  | nil => rfl
  | cons c text ih =>
      rw [List.foldl_cons, ih, advance]
      split
      · next newline =>
          rw [newline, List.count_cons_self]
          exact Nat.add_right_comm _ _ _
      · next other => rw [List.count_cons_of_ne other]

/-- Within a line every character leads to the next column. -/
theorem column_foldl {text : List Char} (within : '\n' ∉ text) (position : Position) :
    (text.foldl advance position).column = position.column + text.length := by
  induction text generalizing position with
  | nil => rfl
  | cons c text ih =>
      obtain ⟨other, later⟩ := not_or.mp (mt List.mem_cons.mpr within)
      rw [List.foldl_cons, ih later, advance, if_neg (Ne.symm other), List.length_cons]
      exact Nat.add_right_comm _ _ _

/-- Behind the end of a line the first column comes. -/
theorem column_of_lined {text : List Char} (lined : Lexeme.Lined text) :
    (text.foldl advance start).column = 1 := by
  by_cases none : text = []
  · rw [none]
    rfl
  · have last := lined _ (List.getLast?_eq_some_getLast none)
    rw [← List.dropLast_concat_getLast none, last, List.foldl_append, List.foldl_cons,
      List.foldl_nil, advance, if_pos rfl]

/-- The position behind a text is told by its ends of lines and by the length of its last line. -/
theorem foldl_lastLine {ended line : List Char} (lined : Lexeme.Lined ended)
    (within : '\n' ∉ line) :
    (ended ++ line).foldl advance start = ⟨(ended ++ line).count '\n' + 1, line.length + 1⟩ := by
  have found : ((ended ++ line).foldl advance start).line = (ended ++ line).count '\n' + 1 := by
    rw [line_foldl, Nat.add_comm]
    rfl
  have column : ((ended ++ line).foldl advance start).column = line.length + 1 := by
    rw [List.foldl_append, column_foldl within, column_of_lined lined, Nat.add_comm]
  rw [← found, ← column]

end Position

/-- The last line of a text, behind the lines that end. -/
theorem exists_lastLine (text : List Char) :
    ∃ ended line, text = ended ++ line ∧ Lexeme.Lined ended ∧ '\n' ∉ line := by
  have whole := List.takeWhile_append_dropWhile (p := (· != '\n')) (l := text.reverse)
  refine ⟨(text.reverse.dropWhile (· != '\n')).reverse,
    (text.reverse.takeWhile (· != '\n')).reverse, ?_, ?_, ?_⟩
  · rw [← List.reverse_append, whole, List.reverse_reverse]
  · intro c last
    rw [List.getLast?_reverse] at last
    simpa using Lexeme.head_dropWhile _ _ c last
  · intro member
    have inside := Lexeme.all_takeWhile _ _ (List.mem_reverse.mp member)
    simp at inside

/-! ## Positions -/

/-- The last boundary up to an offset. -/
def lastBoundary (buffer : String) : Nat → Nat
  | 0 => 0
  | offset + 1 => if Boundary buffer (offset + 1) then offset + 1 else lastBoundary buffer offset

/-- The offset at which the last line of a string starts. -/
def lastLineStart (buffer : String) : Nat :=
  buffer.utf8ByteSize - ((byteChars buffer).reverse.takeWhile (· != '\n')).length

/-- The position of an offset, found by cutting out what stands in front of it and the last line of
that. -/
def position? (buffer : String) (offset : Nat) : Option Position := do
  let before ← slice? buffer 0 (lastBoundary buffer (min offset buffer.utf8ByteSize))
  let line ← slice? before (lastLineStart before) before.utf8ByteSize
  return ⟨before.toList.count '\n' + 1, line.toList.length + 1⟩

theorem lastBoundary_of_boundary {buffer : String} {offset : Nat}
    (boundary : Boundary buffer offset) : lastBoundary buffer offset = offset := by
  cases offset with
  | zero => rfl
  | succ offset => rw [lastBoundary, if_pos boundary]

theorem slice_front (front rest : List Char) :
    slice? (String.ofList (front ++ rest)) 0 (byteLength front) = some (String.ofList front) :=
  slice_part [] front rest

theorem slice_rest (front rest : List Char) :
    slice? (String.ofList (front ++ rest)) (byteLength front) (byteLength (front ++ rest)) =
      some (String.ofList rest) := by
  have part := slice_part front rest []
  rwa [List.append_nil] at part

/-- Among the bytes of a text, too, the last line is what comes behind the last end of a line. -/
theorem lastLineStart_eq {ended line : List Char} (lined : Lexeme.Lined ended)
    (inside : '\n' ∉ line) :
    lastLineStart (String.ofList (ended ++ line)) = byteLength ended := by
  have newline : bytewise ['\n'] = ['\n'] := bytewise_of_ascii (by decide)
  have within : ∀ c ∈ (bytewise line).reverse, (c != '\n') = true := by
    intro c member
    rw [bne_iff_ne]
    rintro rfl
    exact inside (mem_of_mem_bytewise (by decide) (List.mem_reverse.mp member))
  have stop : ∀ c ∈ (bytewise ended).reverse.head?, (c != '\n') = false := by
    intro c last
    rw [List.head?_reverse] at last
    by_cases none : ended = []
    · rw [none] at last
      cases last
    · rw [← List.dropLast_concat_getLast none, lined _ (List.getLast?_eq_some_getLast none),
        bytewise_append, newline, List.getLast?_concat] at last
      cases last
      rfl
  rw [lastLineStart, byteChars_ofList, bytewise_append, List.reverse_append,
    (Lexeme.span_append within stop).1, List.length_reverse, length_bytewise, utf8ByteSize_ofList,
    byteLength_append, Nat.add_sub_cancel]

/-- The position of a boundary can be found, and it is that which counting characters gives. -/
theorem position_of_front (front rest : List Char) :
    position? (String.ofList (front ++ rest)) (byteLength front) =
      some (Position.ofOffset (front ++ rest) (byteLength front)) := by
  have inside : min (byteLength front) (String.ofList (front ++ rest)).utf8ByteSize =
      byteLength front := by
    rw [utf8ByteSize_ofList, byteLength_append]
    omega
  rw [position?, inside, lastBoundary_of_boundary (boundary_front front rest), slice_front]
  obtain ⟨ended, line, rfl, lined, within⟩ := exists_lastLine front
  have cut : slice? (String.ofList (ended ++ line)) (lastLineStart (String.ofList (ended ++ line)))
      (String.ofList (ended ++ line)).utf8ByteSize = some (String.ofList line) := by
    rw [lastLineStart_eq lined within, utf8ByteSize_ofList, slice_rest]
  rw [Position.ofOffset_front, Position.foldl_lastLine lined within]
  simp only [Option.bind_eq_bind, Option.bind_some, cut, String.toList_ofList]
  rfl

end TeenyTiny
