import TeenyTiny.Proofs.Tiling

/-!
# Reading undoes writing

Lexemes are written one after the other with a space between them (`render`). Reading what was
written gives them back, and then the end of the line and the end of the text, for all lexemes that
can be written (`Writable`). No other lexemes are ever read: what comes before the last line end of
a text without faults can be written (`reading_undoes_rendering`).

One lexeme is read back from wherever it stands, after any blanks and in front of any character that
does not go on with it (`Cursor.next_written`). No lexeme starts as a gap does
(`Lexeme.head_written`), and none goes on with a space.
-/

set_option autoImplicit false

namespace TeenyTiny

namespace Lexeme

/-! ## Lexemes and gaps -/

/-- Whether a character may start a gap. -/
def startsGap (c : Char) : Bool :=
  isBlank c || c == '#'

theorem startsGap_of_isAlphanum {c : Char} (alphanumeric : c.isAlphanum = true) :
    startsGap c = false := by
  have all : ∀ c ∈ [' ', '\t', '\r', '#'], c.isAlphanum = false := by decide
  apply Bool.eq_false_iff.mpr
  intro starts
  have member : c ∈ [' ', '\t', '\r', '#'] := by
    simpa [startsGap, isBlank, or_assoc] using starts
  rw [all c member] at alphanumeric
  cases alphanumeric

/-- A lexeme starts with a character that starts no gap. -/
theorem head_written {kind : Kind} {text : String} (shaped : Shaped (kind, text))
    (more : kind ≠ .eof) (rest : List Char) :
    ∀ c ∈ (written kind text.toList ++ rest).head?, startsGap c = false := by
  have digits {text : List Char} (digits : Digits text) (rest : List Char) :
      ∀ c ∈ (text ++ rest).head?, startsGap c = false := by
    obtain ⟨first, others, rfl⟩ := List.exists_cons_of_ne_nil digits.1
    rintro _ ⟨⟩
    apply startsGap_of_isAlphanum
    simp [Char.isAlphanum, digits.2 first List.mem_cons_self]
  cases kind
  case eof => exact absurd rfl more
  case ident =>
    obtain ⟨⟨first, others, same, letter, -⟩, -⟩ := shaped
    rw [written_of_ne_quoted (by decide), show text.toList = first :: others from same]
    rintro _ ⟨⟩
    apply startsGap_of_isAlphanum
    simp [Char.isAlphanum, letter]
  case number =>
    have numeral : Numeral text.toList := shaped
    rw [written_of_ne_quoted (by decide)]
    rcases numeral with whole | ⟨whole, fraction, before, -, same⟩
    · exact digits whole rest
    · rw [same, List.append_assoc]
      exact digits before _
  case quoted =>
    rintro _ ⟨⟩
    rfl
  all_goals
    obtain rfl := shaped.text_eq rfl
    rintro _ ⟨⟩
    rfl

/-- Blanks in front of what starts no gap are the gap. -/
theorem splitGap_of_blanks {blanks rest : List Char} (all : ∀ c ∈ blanks, isBlank c = true)
    (stop : ∀ c ∈ rest.head?, startsGap c = false) :
    splitGap (blanks ++ rest) = (blanks, rest) := by
  have stops : ∀ c ∈ rest.head?, isBlank c = false := by
    intro c next
    exact (Bool.or_eq_false_iff.mp (stop c next)).1
  obtain ⟨front, back⟩ := span_append all stops
  rw [splitGap, front, back]
  split
  · cases stop '#' rfl
  · rfl

/-- No lexeme goes on with a space. -/
theorem joins_space (kind : Kind) (text : List Char) : joins kind text ' ' = false := by
  cases kind <;> rfl

end Lexeme

/-- A lexeme is read from where it is written, after blanks and where it ends. -/
theorem Cursor.next_written {kind : Kind} {text : String} (shaped : Lexeme.Shaped (kind, text))
    (more : kind ≠ .eof) {blanks rest : List Char} (all : ∀ c ∈ blanks, Lexeme.isBlank c = true)
    (ends : Lexeme.Ends kind text.toList rest) (offset : Nat) :
    next ⟨offset, blanks ++ (Lexeme.written kind text.toList ++ rest)⟩ =
      (.ok ⟨kind, text, offset + byteLength blanks⟩,
        ⟨offset + byteLength blanks + byteLength (Lexeme.written kind text.toList), rest⟩) := by
  have gap := Lexeme.splitGap_of_blanks all (Lexeme.head_written shaped more rest)
  have found : Lexeme.read (Lexeme.written kind text.toList ++ rest) =
      .token kind text.toList rest := by
    apply Lexeme.read_written _ more ends
    rwa [String.ofList_toList]
  rw [next, pastGap, gap, read]
  simp only [past, found, String.ofList_toList]

/-! ## Rendering -/

/-- What is written for lexemes, with one space between them. -/
def render (lexemes : List Lexeme) : String :=
  " ".intercalate
    (lexemes.map fun lexeme => String.ofList (Lexeme.written lexeme.1 lexeme.2.toList))

/-- Lexemes that can be written: each is of the shape of its kind, and none is the end of the text,
for which nothing is written. -/
def Writable (lexemes : List Lexeme) : Prop :=
  ∀ lexeme ∈ lexemes, Lexeme.Shaped lexeme ∧ lexeme.1 ≠ .eof

/-- After a lexeme come a space and the other lexemes, if there are others. -/
theorem exists_space_of_render (kind : Kind) (text : String) (others : List Lexeme) :
    ∃ space, (space = [' '] ∨ space = [] ∧ others = []) ∧
      (render ((kind, text) :: others)).toList =
        Lexeme.written kind text.toList ++ (space ++ (render others).toList) := by
  cases others with
  | nil => exact ⟨[], .inr ⟨rfl, rfl⟩, by simp [render]⟩
  | cons other others =>
      refine ⟨[' '], .inl rfl, ?_⟩
      simp [render, String.intercalate_cons_cons]

/-- The end of a line and the end of the text, which follow what is written. -/
def endLexemes : List Lexeme :=
  [(.newline, "\n"), (.eof, "")]

/-- What is written for lexemes is read as these lexemes, also after blanks. -/
theorem Cursor.lexes_render {lexemes : List Lexeme} (writable : Writable lexemes)
    {blanks : List Char} (all : ∀ c ∈ blanks, Lexeme.isBlank c = true) (offset : Nat) :
    ∃ tokens, Lexes ⟨offset, blanks ++ ((render lexemes).toList ++ ['\n'])⟩ tokens ∧
      tokens.map Token.lexeme = lexemes ++ endLexemes := by
  induction lexemes generalizing blanks offset with
  | nil =>
      have shaped : Lexeme.Shaped (.newline, "\n") := rfl
      have ends : Lexeme.Ends .newline "\n".toList [] := nofun
      have found := next_written shaped nofun all ends offset
      exact ⟨_, .read found nofun (.finish rfl rfl), rfl⟩
  | cons lexeme others ih =>
      obtain ⟨kind, text⟩ := lexeme
      obtain ⟨⟨shaped, more⟩, later⟩ := List.forall_mem_cons.mp writable
      obtain ⟨space, spaced, written⟩ := exists_space_of_render kind text others
      have blank : ∀ c ∈ space, Lexeme.isBlank c = true := by
        rcases spaced with rfl | ⟨rfl, -⟩
        · decide
        · exact nofun
      have ends : Lexeme.Ends kind text.toList (space ++ ((render others).toList ++ ['\n'])) := by
        rcases spaced with rfl | ⟨rfl, rfl⟩
        · rintro _ ⟨⟩
          exact Lexeme.joins_space kind _
        · rintro _ ⟨⟩
          exact Lexeme.joins_newline kind _
      have found := next_written shaped more all ends offset
      obtain ⟨tokens, lexes, same⟩ := ih later blank _
      rw [written, List.append_assoc, List.append_assoc]
      exact ⟨_ :: tokens, .read found more lexes, congrArg ((kind, text) :: ·) same⟩

/-- Reading undoes writing. Lexemes that can be written are read back from what is written for them,
with the end of a line and the end of the text after them. And whatever is read from a text without
faults, up to these two, can be written. -/
theorem reading_undoes_rendering :
    (∀ lexemes, Writable lexemes →
      ∃ tokens, (Cursor.ofSource (render lexemes)).Lexes tokens ∧
        tokens.map Token.lexeme = lexemes ++ endLexemes) ∧
    (∀ source tokens, (Cursor.ofSource source).Lexes tokens →
      ∃ lexemes, tokens.map Token.lexeme = lexemes ++ endLexemes ∧ Writable lexemes) := by
  refine ⟨?_, ?_⟩
  · intro lexemes writable
    have none : ∀ c ∈ ([] : List Char), Lexeme.isBlank c = true := nofun
    exact Cursor.lexes_render writable none 0
  · intro source tokens lexes
    obtain ⟨body, loc, rfl, -⟩ := lexes.exists_ending (Lexeme.lined_concat source.toList)
      (List.concat_ne_nil '\n' source.toList)
    have shaped := lexes.shaped
    rw [List.append_cons] at lexes
    have more := lexes.ends.2
    refine ⟨body.map Token.lexeme, List.map_append, ?_⟩
    intro lexeme member
    obtain ⟨token, inside, rfl⟩ := List.mem_map.mp member
    exact ⟨shaped token (List.mem_append_left _ inside),
      more token (List.mem_append_left _ inside)⟩

/-- Two signs of assignment with a space between them are not a comparison, and neither a space nor
a number sign ends a string. -/
theorem reading_undoes_rendering_signs :
    let lexemes : List Lexeme :=
      [(.assign, "="), (.assign, "="), (.equal, "=="), (.newline, "\n"), (.quoted, "é #"),
        (.number, "1.50"), (.ident, "let")]
    render lexemes = "= = == \n \"é #\" 1.50 let" ∧ Writable lexemes ∧
      ∃ tokens, (Cursor.ofSource "= = == \n \"é #\" 1.50 let").Lexes tokens ∧
        tokens.map Token.lexeme = lexemes ++ endLexemes := by
  intro lexemes
  have written : render lexemes = "= = == \n \"é #\" 1.50 let" := by decide
  have writable : Writable lexemes := by
    have number : Lexeme.Shaped (.number, "1.50") :=
      .inr ⟨['1'], ['5', '0'], ⟨nofun, by decide⟩, ⟨nofun, by decide⟩, by decide⟩
    have word : Lexeme.Shaped (.ident, "let") := ⟨by decide, by decide⟩
    have string : Lexeme.Shaped (.quoted, "é #") := by
      show ∀ c ∈ "é #".toList, Lexeme.inString c = true
      decide
    simp only [lexemes, Writable, List.forall_mem_cons]
    exact ⟨⟨rfl, nofun⟩, ⟨rfl, nofun⟩, ⟨rfl, nofun⟩, ⟨rfl, nofun⟩, ⟨string, nofun⟩,
      ⟨number, nofun⟩, ⟨word, nofun⟩, nofun⟩
  refine ⟨written, writable, ?_⟩
  rw [← written]
  exact reading_undoes_rendering.1 lexemes writable

end TeenyTiny
