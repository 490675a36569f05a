import TeenyTiny.Proofs.Bytes

/-!
# Reading a text byte by byte

Tokens can be read from a text that is kept as bytes. The reader then holds an offset, looks at one
byte or two of them, and passes runs of bytes, within strings and comments those of any character
(`scan?`). It cuts parts out of the text: what a token stands for, what follows an exclamation mark,
what stands at a character that starts no token, and for a report what stands in front of it. If one
of them cannot be cut out, because it would start or stop within a character, nothing is read at
all.

This never happens. All that the reader looks for is of ASCII, so that it comes to a stand only in
front of such a character or at the end, even behind an offence. Hence every part that it cuts out
lies between boundaries, and it reads what is read character by character, step by step and however
often it is called (`scan_eq`, `scanning_keeps_boundaries`).
-/

set_option autoImplicit false

namespace TeenyTiny

/-! ## Reading at an offset -/

/-- What is read at an offset, and the offset reached; nothing, if a part cannot be cut out. -/
abbrev Scanned := Option (Except Diagnostic Token × Nat)

section Scan

variable (buffer : String)

/-- The byte at an offset, taken as a character; NUL stands for what lies behind the end. -/
def byteAt (pos : Nat) : Char :=
  (byteChars buffer)[pos]?.getD '\x00'

/-- The offset behind a run of bytes. -/
def runEnd (p : Char → Bool) (pos : Nat) : Nat :=
  pos + (((byteChars buffer).drop pos).takeWhile p).length

/-- The offset behind a gap: blanks, and then a comment if one starts there. -/
def gapEnd (pos : Nat) : Nat :=
  let start := runEnd buffer Lexeme.isBlank pos
  if byteAt buffer start = '#' then runEnd buffer Lexeme.inComment start else start

/-- Cuts out a token. -/
def scanToken? (kind : Kind) (start stop : Nat) : Scanned :=
  (slice? buffer start stop).map fun text => (.ok ⟨kind, text, start⟩, stop)

/-- Reports an offence at an offset and stays there. -/
def scanOffence? (cause : Cause) (pos : Nat) : Scanned :=
  (position? buffer pos).map fun position =>
    (.error ⟨cause.phase, position, cause.message⟩, pos)

/-- Reads a sign that an equals sign directly after it makes longer. -/
def scanComparison? (short long : Kind) (pos : Nat) : Scanned :=
  if byteAt buffer (pos + 1) = '=' then scanToken? buffer long pos (pos + 2)
  else scanToken? buffer short pos (pos + 1)

/-- Reads the sign of inequality. A report shows the character that stands in place of the equals
sign. -/
def scanBang? (pos : Nat) : Scanned :=
  if byteAt buffer (pos + 1) = '=' then scanToken? buffer .unequal pos (pos + 2)
  else
    (slice? buffer (pos + 1) buffer.utf8ByteSize).bind fun rest =>
      scanOffence? buffer (.loneBang (rest.toList.head?.filter (· != '\n'))) pos

/-- Reads a string. Where the last line of a text ends, a string that is not closed is refused at
the end of its line at the latest. -/
def scanString? (quote : Nat) : Scanned :=
  let stop := runEnd buffer Lexeme.inString (quote + 1)
  if byteAt buffer stop = '"' then
    (slice? buffer (quote + 1) stop).map fun text => (.ok ⟨.quoted, text, quote⟩, stop + 1)
  else scanOffence? buffer .badStringChar stop

/-- Reads a number. A point in it has a digit after it. -/
def scanNumber? (pos : Nat) : Scanned :=
  let stop := runEnd buffer Char.isDigit pos
  if byteAt buffer stop = '.' then
    if (byteAt buffer (stop + 1)).isDigit then
      scanToken? buffer .number pos (runEnd buffer Char.isDigit (stop + 1))
    else scanOffence? buffer .badNumberChar stop
  else scanToken? buffer .number pos stop

/-- Reads a keyword or a name. -/
def scanWord? (pos : Nat) : Scanned :=
  let stop := runEnd buffer Char.isAlphanum pos
  (slice? buffer pos stop).map fun word => (.ok ⟨Lexeme.wordKind word.toList, word, pos⟩, stop)

/-- Reports the character at an offset. -/
def scanUnknown? (pos : Nat) : Scanned :=
  (slice? buffer pos buffer.utf8ByteSize).bind fun rest =>
    scanOffence? buffer (.unknownChar (rest.toList.head?.getD '\x00')) pos

/-- Reads what starts at an offset with the given byte. -/
def scanFrom? (pos : Nat) (byte : Char) : Scanned :=
  match byte with
  | '\n' => scanToken? buffer .newline pos (pos + 1)
  | '+' => scanToken? buffer .plus pos (pos + 1)
  | '-' => scanToken? buffer .minus pos (pos + 1)
  | '*' => scanToken? buffer .times pos (pos + 1)
  | '/' => scanToken? buffer .divide pos (pos + 1)
  | '=' => scanComparison? buffer .assign .equal pos
  | '<' => scanComparison? buffer .less .atMost pos
  | '>' => scanComparison? buffer .greater .atLeast pos
  | '!' => scanBang? buffer pos
  | '"' => scanString? buffer pos
  | _ =>
      if byte.isDigit then scanNumber? buffer pos
      else if byte.isAlpha then scanWord? buffer pos
      else if byte = '\x00' ∧ buffer.utf8ByteSize ≤ pos then some (.ok ⟨.eof, "", pos⟩, pos)
      else scanUnknown? buffer pos

/-- Reads one token from an offset on. -/
def scan? (pos : Nat) : Scanned :=
  scanFrom? buffer (gapEnd buffer pos) (byteAt buffer (gapEnd buffer pos))

/-- Reads so many tokens one after the other, from an offset on. -/
def scanAll? : Nat → Nat → Option (List (Except Diagnostic Token) × Nat)
  | 0, pos => some ([], pos)
  | calls + 1, pos => do
      let (first, after) ← scan? buffer pos
      let (later, last) ← scanAll? calls after
      return (first :: later, last)

end Scan

/-! ## Looking at bytes -/

section Looking

variable {text rest : List Char} {pos : Nat}

theorem Cursor.StandsIn.pass (passed : List Char)
    (stands : StandsIn text ⟨pos, passed ++ rest⟩) :
    StandsIn text ⟨pos + byteLength passed, rest⟩ := by
  obtain ⟨front, whole, behind⟩ := stands
  refine ⟨front ++ passed, ?_, ?_⟩
  · rw [whole, List.append_assoc]
  · rw [byteLength_append, ← behind]

theorem byteLength_cons_of_ascii {c : Char} (ascii : c.toNat < 128) (text : List Char) :
    byteLength (c :: text) = 1 + byteLength text := by
  rw [← length_bytewise, bytewise_cons, bytewise_of_ascii ascii, List.length_append,
    length_bytewise]
  rfl

/-- A character of ASCII is passed with one byte. -/
theorem Cursor.StandsIn.step {c : Char} (ascii : c.toNat < 128)
    (stands : StandsIn text ⟨pos, c :: rest⟩) : StandsIn text ⟨pos + 1, rest⟩ := by
  have size : byteLength [c] = 1 := byteLength_cons_of_ascii ascii []
  rw [← size]
  exact stands.pass [c]

variable (stands : Cursor.StandsIn text ⟨pos, rest⟩)
include stands

theorem drop_byteChars : (byteChars (String.ofList text)).drop pos = bytewise rest := by
  obtain ⟨front, rfl, rfl⟩ := stands
  rw [byteChars_ofList, bytewise_append, ← length_bytewise]
  exact List.drop_left

theorem byteAt_eq : byteAt (String.ofList text) pos = (bytewise rest).head?.getD '\x00' := by
  rw [byteAt, ← List.head?_drop, drop_byteChars stands]

/-- A class that does not tell bytes outside ASCII apart holds of a byte if it holds of the
character that starts there. -/
theorem byteAt_class {p : Char → Bool} (uniform : Uniform p) (null : p '\x00' = false) :
    p (byteAt (String.ofList text) pos) = rest.head?.any p := by
  rw [byteAt_eq stands]
  cases rest with
  | nil => exact null
  | cons c rest =>
      obtain ⟨d, bytes, shape⟩ := List.exists_cons_of_ne_nil (bytewise_ne_nil c)
      have member : d ∈ bytewise [c] := by
        rw [shape]
        exact List.mem_cons_self
      rw [bytewise_cons, shape]
      exact uniform.alike member

/-- For a character of ASCII other than NUL, the byte at an offset is as good as the character. -/
theorem byteAt_eq_iff {c : Char} (ascii : c.toNat < 128) (visible : c ≠ '\x00') :
    byteAt (String.ofList text) pos = c ↔ rest.head? = some c := by
  have uniform : Uniform (· == c) := ⟨false, fun d other => beq_false_of_ne fun same => by
    rw [same] at other
    omega⟩
  have same := byteAt_class stands uniform (beq_false_of_ne visible.symm)
  rw [← beq_iff_eq, same]
  cases rest with
  | nil => simp
  | cons d rest => simp

theorem byteAt_ne {c : Char} (ascii : c.toNat < 128) (visible : c ≠ '\x00')
    (other : ∀ tail, rest = c :: tail → False) : byteAt (String.ofList text) pos ≠ c := by
  intro same
  obtain ⟨tail, shape⟩ := List.head?_eq_some_iff.mp ((byteAt_eq_iff stands ascii visible).mp same)
  exact other tail shape

theorem runEnd_eq {p : Char → Bool} (uniform : Uniform p) :
    runEnd (String.ofList text) p pos = pos + byteLength (rest.takeWhile p) := by
  rw [runEnd, drop_byteChars stands, takeWhile_bytewise uniform, length_bytewise]

/-- Behind a run of bytes the rest of the text starts. -/
theorem stands_runEnd {p : Char → Bool} (uniform : Uniform p) :
    Cursor.StandsIn text ⟨runEnd (String.ofList text) p pos, rest.dropWhile p⟩ := by
  rw [runEnd_eq stands uniform]
  rw [← List.takeWhile_append_dropWhile (p := p) (l := rest)] at stands
  exact stands.pass _

end Looking

/-- At a character of ASCII the byte is the character. -/
theorem byteAt_head {text rest : List Char} {pos : Nat} {c : Char}
    (stands : Cursor.StandsIn text ⟨pos, c :: rest⟩) (ascii : c.toNat < 128) :
    byteAt (String.ofList text) pos = c := by
  rw [byteAt_eq stands, bytewise_cons, bytewise_of_ascii ascii]
  rfl

/-! ## Classes of bytes -/

section Classes

variable {c : Char}

theorem ascii_of_isAlphanum (alphanumeric : c.isAlphanum = true) : c.toNat < 128 := by
  delta Char.isAlphanum Char.isAlpha Char.isUpper Char.isLower Char.isDigit at alphanumeric
  have bounds : ((65 ≤ c.toNat ∧ c.toNat ≤ 90) ∨ (97 ≤ c.toNat ∧ c.toNat ≤ 122)) ∨
      (48 ≤ c.toNat ∧ c.toNat ≤ 57) := by
    simpa [UInt32.le_iff_toNat_le] using alphanumeric
  omega

theorem isAlphanum_outside (other : 128 ≤ c.toNat) : c.isAlphanum = false := by
  refine Bool.eq_false_iff.mpr fun alphanumeric => ?_
  have := ascii_of_isAlphanum alphanumeric
  omega

theorem not_mem_outside (other : 128 ≤ c.toNat) {listed : List Char}
    (ascii : ∀ d ∈ listed, d.toNat < 128) : c ∉ listed := by
  intro member
  have := ascii c member
  omega

end Classes

theorem uniform_isAlphanum : Uniform Char.isAlphanum :=
  ⟨false, fun _ other => isAlphanum_outside other⟩

theorem uniform_isAlpha : Uniform Char.isAlpha :=
  ⟨false, fun _ other => (Bool.or_eq_false_iff.mp (isAlphanum_outside other)).1⟩

theorem uniform_isDigit : Uniform Char.isDigit :=
  ⟨false, fun _ other => (Bool.or_eq_false_iff.mp (isAlphanum_outside other)).2⟩

namespace Lexeme

theorem uniform_isBlank : Uniform isBlank := by
  refine ⟨false, fun c other => ?_⟩
  have apart : c ∉ [' ', '\t', '\r'] := not_mem_outside other (by decide)
  simpa [isBlank, and_assoc] using apart

theorem uniform_inComment : Uniform inComment := by
  refine ⟨true, fun c other => ?_⟩
  have apart : c ∉ ['\n', '\x00'] := not_mem_outside other (by decide)
  simpa [inComment] using apart

theorem uniform_inString : Uniform inString := by
  refine ⟨true, fun c other => inString_iff.mpr ?_⟩
  have apart : c ∉ '"' :: breaksString := not_mem_outside other (by decide)
  exact not_or.mp (mt List.mem_cons.mpr apart)

end Lexeme

/-! ## What is cut out -/

/-- What is read, and the offset behind it, where a text starts with no gap. -/
def Lexeme.Reading.outcome (text : List Char) (start : Nat) :
    Reading → Except Diagnostic Token × Nat
  | .token kind taken _ =>
      (.ok ⟨kind, String.ofList taken, start⟩, start + byteLength (written kind taken))
  | .refused passed cause _ =>
      (.error (Fault.diagnose ⟨cause, start + byteLength passed⟩ text), start + byteLength passed)

section Cutting

variable {text taken rest : List Char} {pos stop : Nat}

/-- What stands at an offset can be cut out. -/
theorem slice_taken (stands : Cursor.StandsIn text ⟨pos, taken ++ rest⟩)
    (ends : stop = pos + byteLength taken) :
    slice? (String.ofList text) pos stop = some (String.ofList taken) := by
  obtain ⟨front, rfl, rfl⟩ := stands
  have cut := slice_part front taken rest
  rwa [List.append_assoc, byteLength_append, ← ends] at cut

theorem slice_end (stands : Cursor.StandsIn text ⟨pos, rest⟩) :
    slice? (String.ofList text) pos (String.ofList text).utf8ByteSize =
      some (String.ofList rest) := by
  have whole : Cursor.StandsIn text ⟨pos, rest ++ []⟩ := by rwa [List.append_nil]
  rw [utf8ByteSize_ofList]
  exact slice_taken whole stands.offset_add.symm

/-- A token other than a string is cut out where it stands. -/
theorem scanToken_eq {kind : Kind} (plain : kind ≠ .quoted)
    (stands : Cursor.StandsIn text ⟨pos, taken ++ rest⟩) (ends : stop = pos + byteLength taken) :
    scanToken? (String.ofList text) kind pos stop =
      some ((Lexeme.Reading.token kind taken rest).outcome text pos) := by
  rw [scanToken?, slice_taken stands ends, ends, Lexeme.Reading.outcome,
    Lexeme.written_of_ne_quoted plain]
  rfl

/-- An offence is reported where it stands. -/
theorem scanOffence_eq (cause : Cause) (stands : Cursor.StandsIn text ⟨pos, taken ++ rest⟩)
    (ends : stop = pos + byteLength taken) :
    scanOffence? (String.ofList text) cause stop =
      some ((Lexeme.Reading.refused taken cause rest).outcome text pos) := by
  obtain ⟨front, rfl, rfl⟩ := stands
  have found := position_of_front (front ++ taken) rest
  rw [List.append_assoc, byteLength_append] at found
  rw [scanOffence?, ends, found]
  rfl

end Cutting

/-! ## Readers of bytes -/

section Readers

variable {text rest : List Char} {pos : Nat}

theorem scanComparison_eq {c : Char} {short long : Kind} (ascii : c.toNat < 128)
    (plain : short ≠ .quoted) (plain' : long ≠ .quoted)
    (stands : Cursor.StandsIn text ⟨pos, c :: rest⟩) :
    scanComparison? (String.ofList text) short long pos =
      some ((Lexeme.readComparison c short long rest).outcome text pos) := by
  have later := stands.step ascii
  unfold Lexeme.readComparison
  split
  · next rest =>
      have equals := byteAt_head later (by decide)
      rw [scanComparison?, if_pos equals]
      refine scanToken_eq plain' stands ?_
      rw [byteLength_cons_of_ascii ascii]
      rfl
  · next other =>
      rw [scanComparison?, if_neg (byteAt_ne later (by decide) (by decide) other)]
      refine scanToken_eq plain stands ?_
      rw [byteLength_cons_of_ascii ascii]
      rfl

theorem scanBang_eq (stands : Cursor.StandsIn text ⟨pos, '!' :: rest⟩) :
    scanBang? (String.ofList text) pos = some ((Lexeme.readBang rest).outcome text pos) := by
  have later := stands.step (by decide)
  unfold Lexeme.readBang
  split
  · next rest =>
      have equals := byteAt_head later (by decide)
      rw [scanBang?, if_pos equals]
      exact scanToken_eq (by decide) stands rfl
  · next other =>
      rw [scanBang?, if_neg (byteAt_ne later (by decide) (by decide) other), slice_end later,
        Option.bind_some, String.toList_ofList]
      exact scanOffence_eq _ stands rfl

theorem scanString_eq (stands : Cursor.StandsIn text ⟨pos, '"' :: rest⟩) :
    scanString? (String.ofList text) pos = some ((Lexeme.readString rest).outcome text pos) := by
  have later := stands.step (by decide)
  have behind := stands_runEnd later Lexeme.uniform_inString
  have stop := runEnd_eq later Lexeme.uniform_inString
  rw [← List.takeWhile_append_dropWhile (p := Lexeme.inString) (l := rest)] at stands later
  unfold Lexeme.readString
  split
  · next others shape =>
      rw [shape] at behind
      have quote := byteAt_head behind (by decide)
      have size : byteLength (Lexeme.written .quoted (rest.takeWhile Lexeme.inString)) =
          1 + (byteLength (rest.takeWhile Lexeme.inString) + 1) := by
        rw [Lexeme.written, byteLength_cons_of_ascii (by decide), byteLength_append]
        rfl
      have ends : runEnd (String.ofList text) Lexeme.inString (pos + 1) + 1 =
          pos + byteLength (Lexeme.written .quoted (rest.takeWhile Lexeme.inString)) := by
        omega
      simp only [scanString?, if_pos quote, slice_taken later stop, Option.map_some, ends]
      rfl
  · next other =>
      simp only [scanString?, if_neg (byteAt_ne behind (by decide) (by decide) other)]
      refine scanOffence_eq _ stands (stop.trans ?_)
      rw [byteLength_cons_of_ascii (by decide), Nat.add_assoc]

theorem scanNumber_eq (stands : Cursor.StandsIn text ⟨pos, rest⟩) :
    scanNumber? (String.ofList text) pos = some ((Lexeme.readNumber rest).outcome text pos) := by
  have behind := stands_runEnd stands uniform_isDigit
  have stop := runEnd_eq stands uniform_isDigit
  rw [← List.takeWhile_append_dropWhile (p := Char.isDigit) (l := rest)] at stands
  unfold Lexeme.readNumber
  split
  · next fraction shape =>
      rw [shape] at behind stands
      have point := byteAt_head behind (by decide)
      have later := behind.step (by decide)
      have digit := byteAt_class later uniform_isDigit rfl
      have last := runEnd_eq later uniform_isDigit
      simp only [scanNumber?, if_pos point]
      split
      · next has =>
          rw [if_pos (digit.symm.trans has)]
          refine scanToken_eq (by decide) ?_ (last.trans ?_)
          · rw [List.append_assoc, List.cons_append, List.takeWhile_append_dropWhile]
            exact stands
          · rw [stop, byteLength_append, byteLength_cons_of_ascii (by decide), Nat.add_assoc,
              Nat.add_assoc]
      · next lacks =>
          rw [if_neg (by rw [← digit]; exact lacks)]
          exact scanOffence_eq _ stands stop
  · next other =>
      simp only [scanNumber?, if_neg (byteAt_ne behind (by decide) (by decide) other)]
      exact scanToken_eq (by decide) stands stop

theorem scanWord_eq (stands : Cursor.StandsIn text ⟨pos, rest⟩) :
    scanWord? (String.ofList text) pos = some ((Lexeme.readWord rest).outcome text pos) := by
  have stop := runEnd_eq stands uniform_isAlphanum
  rw [← List.takeWhile_append_dropWhile (p := Char.isAlphanum) (l := rest)] at stands
  simp only [scanWord?, slice_taken stands stop, Option.map_some, String.toList_ofList]
  rw [stop, Lexeme.readWord, Lexeme.Reading.outcome,
    Lexeme.written_of_ne_quoted (Lexeme.wordKind_ne_quoted _)]

theorem scanUnknown_eq {c : Char} (stands : Cursor.StandsIn text ⟨pos, c :: rest⟩) :
    scanUnknown? (String.ofList text) pos =
      some ((Lexeme.Reading.refused [] (.unknownChar c) (c :: rest)).outcome text pos) := by
  rw [scanUnknown?, slice_end stands, Option.bind_some, String.toList_ofList]
  exact scanOffence_eq _ stands rfl

theorem scanFrom_of_not_mem_marks {byte : Char} (plain : byte ∉ Lexeme.marks) (buffer : String) :
    scanFrom? buffer pos byte =
      if byte.isDigit then scanNumber? buffer pos
      else if byte.isAlpha then scanWord? buffer pos
      else if byte = '\x00' ∧ buffer.utf8ByteSize ≤ pos then some (.ok ⟨.eof, "", pos⟩, pos)
      else scanUnknown? buffer pos := by
  rw [scanFrom?]
  all_goals
    rintro rfl
    simp [Lexeme.marks] at plain

/-- At a character with which operators, strings and ends of lines start, the bytes are read as the
characters are. -/
theorem scanFrom_of_mem_marks {c : Char} (mark : c ∈ Lexeme.marks) (ascii : c.toNat < 128)
    (stands : Cursor.StandsIn text ⟨pos, c :: rest⟩) :
    scanFrom? (String.ofList text) pos c = some ((Lexeme.read (c :: rest)).outcome text pos) := by
  have single : ∀ kind : Kind, kind ≠ .quoted →
      scanToken? (String.ofList text) kind pos (pos + 1) =
        some ((Lexeme.Reading.token kind [c] rest).outcome text pos) := by
    intro kind plain
    refine scanToken_eq plain stands ?_
    rw [byteLength_cons_of_ascii ascii]
    rfl
  simp only [Lexeme.marks, List.mem_cons, List.not_mem_nil, or_false] at mark
  rcases mark with rfl | rfl | rfl | rfl | rfl | rfl | rfl | rfl | rfl | rfl
  iterate 5 exact single _ (by decide)
  iterate 3 exact scanComparison_eq (by decide) (by decide) (by decide) stands
  · exact scanBang_eq stands
  · exact scanString_eq stands

/-- At the start of a lexeme the bytes are read as the characters are. -/
theorem scanFrom_eq (stands : Cursor.StandsIn text ⟨pos, rest⟩) :
    scanFrom? (String.ofList text) pos (byteAt (String.ofList text) pos) =
      some ((Lexeme.read rest).outcome text pos) := by
  have ascii : ∀ c ∈ Lexeme.marks, c.toNat < 128 ∧ c ≠ '\x00' := by decide
  have total : pos + byteLength rest = (String.ofList text).utf8ByteSize := by
    rw [utf8ByteSize_ofList]
    exact stands.offset_add
  cases rest with
  | nil =>
      have null : byteAt (String.ofList text) pos = '\x00' := byteAt_eq stands
      rw [null, scanFrom_of_not_mem_marks (by decide), if_neg (by decide), if_neg (by decide),
        if_pos ⟨rfl, Nat.le_of_eq total.symm⟩]
      rfl
  | cons c rest =>
      by_cases mark : c ∈ Lexeme.marks
      · rw [byteAt_head stands (ascii c mark).1]
        exact scanFrom_of_mem_marks mark (ascii c mark).1 stands
      · -- A byte of another character is no mark either.
        have plain : byteAt (String.ofList text) pos ∉ Lexeme.marks := by
          intro member
          obtain ⟨ascii, visible⟩ := ascii _ member
          have same := (byteAt_eq_iff stands ascii visible).mp rfl
          rw [← Option.some.inj same] at member
          exact mark member
        have more : ¬ (byteAt (String.ofList text) pos = '\x00' ∧
            (String.ofList text).utf8ByteSize ≤ pos) := by
          have := byteLength_pos (List.cons_ne_nil c rest)
          omega
        rw [scanFrom_of_not_mem_marks plain, Lexeme.read_of_not_mem_marks mark, if_neg more,
          byteAt_class stands uniform_isDigit rfl, byteAt_class stands uniform_isAlpha rfl,
          List.head?_cons, Option.any_some, Option.any_some]
        by_cases digit : c.isDigit = true
        · simp only [if_pos digit]
          exact scanNumber_eq stands
        · simp only [if_neg digit]
          by_cases letter : c.isAlpha = true
          · simp only [if_pos letter]
            exact scanWord_eq stands
          · simp only [if_neg letter]
            exact scanUnknown_eq stands

end Readers

/-! ## Reading on and on -/

namespace Cursor

variable {text : List Char} {cursor : Cursor}

theorem StandsIn.pastGap (stands : StandsIn text cursor) : StandsIn text cursor.pastGap := by
  have whole := Lexeme.splitGap_append cursor.rest
  have stands : StandsIn text ⟨cursor.offset, cursor.rest⟩ := stands
  rw [← whole] at stands
  exact stands.pass _

/-- A gap is passed byte by byte as it is character by character. -/
theorem gapEnd_eq (stands : StandsIn text cursor) :
    gapEnd (String.ofList text) cursor.offset = cursor.pastGap.offset := by
  have behind := stands_runEnd stands Lexeme.uniform_isBlank
  have stop := runEnd_eq stands Lexeme.uniform_isBlank
  rw [Cursor.pastGap, past, Lexeme.splitGap]
  split
  · next rest shape =>
      rw [shape] at behind
      have sign := byteAt_head behind (by decide)
      have comment := runEnd_eq behind Lexeme.uniform_inComment
      rw [List.takeWhile_cons_of_pos (by decide)] at comment
      simp only [gapEnd, if_pos sign]
      rw [comment, stop, byteLength_append, Nat.add_assoc]
  · next other =>
      simp only [gapEnd, if_neg (byteAt_ne behind (by decide) (by decide) other)]
      exact stop

theorem outcome_read (start : Cursor) (text : List Char) :
    (Lexeme.read start.rest).outcome text start.offset =
      (start.read.1.mapError (·.diagnose text), start.read.2.offset) := by
  unfold Cursor.read
  cases Lexeme.read start.rest <;> rfl

/-- Reading a token byte by byte cuts out what it needs, and gives what reading it character by
character does. -/
theorem scan_eq (stands : StandsIn text cursor) :
    scan? (String.ofList text) cursor.offset =
      some (cursor.next.1.mapError (·.diagnose text), cursor.next.2.offset) := by
  have start : StandsIn text ⟨cursor.pastGap.offset, cursor.pastGap.rest⟩ := stands.pastGap
  rw [scan?, gapEnd_eq stands, scanFrom_eq start, outcome_read]
  rfl

/-- So does reading many of them one after the other, behind offences too. -/
theorem scanAll_eq (stands : StandsIn text cursor) (calls : Nat) :
    scanAll? (String.ofList text) calls cursor.offset =
      some ((cursor.take calls).1.map (·.mapError (·.diagnose text)),
        (cursor.take calls).2.offset) := by
  induction calls generalizing cursor with
  | zero => rfl
  | succ calls ih =>
      rw [scanAll?, scan_eq stands]
      simp only [Option.bind_eq_bind, Option.bind_some]
      rw [ih stands.next]
      rfl

/-- The offset of a cursor is a boundary of the text it stands in. -/
theorem StandsIn.boundary (stands : StandsIn text cursor) :
    Boundary (String.ofList text) cursor.offset ∧
      cursor.offset ≤ (String.ofList text).utf8ByteSize := by
  have total := stands.offset_add
  obtain ⟨front, rfl, behind⟩ := stands
  refine ⟨?_, ?_⟩
  · rw [behind]
    exact boundary_front front cursor.rest
  · rw [utf8ByteSize_ofList]
    omega

end Cursor

theorem buffer_eq (source : String) : source ++ "\n" = String.ofList (sourceText source) := by
  rw [sourceText, String.ofList_append, String.ofList_toList]

/-- However often a token is read, behind offences and behind the end, every part that is cut out of
the text on the way lies between two of its boundaries, and so do the parts that the reports on the
offences need. Before and behind every reading the cursor is at a boundary. -/
theorem scanning_keeps_boundaries (source : String) (calls : Nat) :
    scanAll? (source ++ "\n") calls 0 =
      some (((Cursor.ofSource source).take calls).1.map
          (·.mapError (·.diagnose (sourceText source))),
        (Cursor.reached source calls).offset) ∧
    Boundary (source ++ "\n") (Cursor.reached source calls).offset ∧
    (Cursor.reached source calls).offset ≤ (source ++ "\n").utf8ByteSize := by
  rw [buffer_eq source]
  exact ⟨Cursor.scanAll_eq (.start source) calls, (Cursor.standsIn_reached source calls).boundary⟩

end TeenyTiny
