import TeenyTiny.Proofs.Rereading

/-!
# Tokens tile a text

Reading loses nothing of a text. A tile is a token with the gap in front of it. The tiles of a text
that can be read to its end, put side by side, are the text, and each token stands at the offset
that its tile gives it (`Cursor.Lexes.exists_tiles`). So every byte of the text belongs to one gap
or to one lexeme and to no other (`Tile.Placed.countP_parts`).

A gap is a run of blanks with or without a comment, and after a comment comes the end of the line
(`Lexeme.Gap`). A comment also stops at the character NUL, but no token can be read there. That it
never stops at the end of the text is due to the line end that is added to every source: in a text
whose last line ends (`Lexeme.Lined`), the last two tokens are the end of a line and the end of the
text (`Cursor.Lexes.exists_ending`).
-/

set_option autoImplicit false

namespace TeenyTiny

/-! ## Bytes -/

@[simp] theorem byteLength_nil : byteLength [] = 0 := rfl

@[simp] theorem byteLength_cons (c : Char) (text : List Char) :
    byteLength (c :: text) = c.utf8Size + byteLength text := rfl

@[simp] theorem byteLength_append (first second : List Char) :
    byteLength (first ++ second) = byteLength first + byteLength second := by
  induction first with
  | nil => simp
  | cons c first ih => rw [List.cons_append, byteLength_cons, byteLength_cons, ih, Nat.add_assoc]

theorem byteLength_newline : byteLength ['\n'] = 1 := by
  decide

theorem byteLength_pos {text : List Char} (nonempty : text ≠ []) : 0 < byteLength text := by
  cases text with
  | nil => exact absurd rfl nonempty
  | cons c text =>
      have := c.utf8Size_pos
      rw [byteLength_cons]
      omega

theorem utf8ByteSize_ofList (text : List Char) :
    (String.ofList text).utf8ByteSize = byteLength text := by
  induction text with
  | nil => rfl
  | cons c text ih =>
      rw [String.ofList_cons, String.utf8ByteSize_append, String.utf8ByteSize_singleton, ih]
      rfl

/-- The bytes of a source, as its text counts them. -/
theorem byteLength_toList (source : String) : byteLength source.toList = source.utf8ByteSize := by
  rw [← utf8ByteSize_ofList, String.ofList_toList]

/-! ## Gaps -/

namespace Lexeme

/-- The last line of a text ends, if there is a line. -/
def Lined (text : List Char) : Prop :=
  ∀ c ∈ text.getLast?, c = '\n'

theorem lined_concat (front : List Char) : Lined (front ++ ['\n']) := by
  intro c last
  rw [List.getLast?_concat] at last
  exact (Option.some.inj last).symm

theorem Lined.of_append {front rest : List Char} (lined : Lined (front ++ rest)) :
    Lined rest := by
  intro c last
  apply lined c
  rw [List.getLast?_append, last]
  rfl

theorem Lined.newline_mem {text : List Char} (lined : Lined text) (nonempty : text ≠ []) :
    '\n' ∈ text := by
  have last := lined _ (List.getLast?_eq_some_getLast nonempty)
  rw [← last]
  exact List.getLast_mem nonempty

/-- What may stand in front of a token of a kind: blanks alone, or blanks and then a comment if the
token is the end of the line. -/
inductive Gap : List Char → Kind → Prop where
  | blank {gap : List Char} {next : Kind} : (∀ c ∈ gap, isBlank c = true) → Gap gap next
  | comment {blanks remark : List Char} : (∀ c ∈ blanks, isBlank c = true) →
      (∀ c ∈ remark, c ≠ '\n') → Gap (blanks ++ '#' :: remark) .newline

theorem Gap.newline_not_mem {gap : List Char} {next : Kind} (between : Gap gap next) :
    '\n' ∉ gap := by
  intro member
  cases between with
  | blank blanks => cases blanks '\n' member
  | comment blanks remarks =>
      rcases List.mem_append.mp member with member | member
      · cases blanks '\n' member
      · rcases List.mem_cons.mp member with same | member
        · cases same
        · exact remarks '\n' member rfl

/-- Where a comment stops, a token is read only at the end of the line. -/
theorem newline_of_read {text taken rest : List Char} {kind : Kind} (nonempty : text ≠ [])
    (stop : ∀ c ∈ text.head?, inComment c = false) (found : read text = .token kind taken rest) :
    kind = .newline := by
  obtain ⟨c, others, rfl⟩ := List.exists_cons_of_ne_nil nonempty
  have stops := stop c rfl
  by_cases newline : c = '\n'
  · subst newline
    cases found
    rfl
  · have null : c = '\x00' := by simpa [inComment, newline] using stops
    subst null
    cases found

/-- In front of a token of a text whose last line ends stands a gap. -/
theorem gap_of_read {text taken rest : List Char} {kind : Kind} (lined : Lined text)
    (found : read (splitGap text).2 = .token kind taken rest) : Gap (splitGap text).1 kind := by
  have whole := splitGap_append text
  have blanks := all_takeWhile (p := isBlank) text
  revert found whole
  unfold splitGap
  split
  · next others shape =>
      intro found whole
      have remarks : ∀ c ∈ others.takeWhile inComment, c ≠ '\n' := by
        rintro c member rfl
        cases all_takeWhile others '\n' member
      have nonempty : others.dropWhile inComment ≠ [] := by
        intro none
        rw [none, List.append_nil] at whole
        -- The text would end within the comment, in which no line ends.
        rw [← whole] at lined
        rcases List.mem_cons.mp (lined.of_append.newline_mem (by simp)) with same | member
        · cases same
        · exact remarks '\n' member rfl
      have newline := newline_of_read nonempty (head_dropWhile inComment others) found
      rw [newline]
      exact .comment blanks remarks
  · intro _ _
    exact .blank blanks

/-! ## Lexemes -/

/-- The end of the text is read only where nothing is left. -/
theorem eq_nil_of_read {text taken rest : List Char}
    (found : read text = .token .eof taken rest) : text = [] := by
  revert found
  unfold read
  split
  · intro _
    rfl
  · split
    case h_6 | h_7 | h_8 =>
      unfold readComparison
      split <;> exact nofun
    case h_9 =>
      unfold readBang
      split <;> exact nofun
    case h_10 =>
      unfold readString
      split <;> exact nofun
    case h_11 =>
      split
      · unfold readNumber
        split
        · split <;> exact nofun
        · exact nofun
      · split
        · intro found
          injection found with kind
          exact absurd kind (wordKind_ne (by decide) _)
        · exact nofun
    all_goals exact nofun

theorem Numeral.newline_not_mem {text : List Char} (numeral : Numeral text) : '\n' ∉ text := by
  have digits {text : List Char} (digits : Digits text) : '\n' ∉ text := by
    intro member
    cases digits.2 '\n' member
  rcases numeral with whole | ⟨whole, fraction, before, after, rfl⟩
  · exact digits whole
  · intro member
    rcases List.mem_append.mp member with member | member
    · exact digits before member
    · rcases List.mem_cons.mp member with same | member
      · cases same
      · exact digits after member

/-- The end of a line is the only lexeme with a line end in it. -/
theorem newline_of_mem_written {kind : Kind} {text : String} (shaped : Shaped (kind, text))
    (member : '\n' ∈ written kind text.toList) : kind = .newline := by
  cases kind
  case newline => rfl
  case ident =>
    obtain ⟨⟨first, others, same, letter, word⟩, -⟩ := shaped
    have characters : '\n' ∈ first :: others := same ▸ member
    rcases List.mem_cons.mp characters with rfl | member
    · cases letter
    · cases word '\n' member
  case number =>
    have numeral : Numeral text.toList := shaped
    exact absurd member numeral.newline_not_mem
  case quoted =>
    have inside : ∀ c ∈ text.toList, inString c = true := shaped
    have inner : '\n' ∈ text.toList := by simpa [written] using member
    cases inside '\n' inner
  all_goals
    obtain rfl := shaped.text_eq rfl
    revert member
    decide

end Lexeme

/-- What is written for a token. -/
def Token.written (token : Token) : List Char :=
  Lexeme.written token.kind token.text.toList

namespace Cursor

/-- What is read is a gap and a token, which are the text up to where the cursor stands then. -/
theorem exists_gap_of_next {cursor after : Cursor} {token : Token}
    (lined : Lexeme.Lined cursor.rest) (found : cursor.next = (.ok token, after)) :
    ∃ gap, Lexeme.Gap gap token.kind ∧ cursor.rest = gap ++ token.written ++ after.rest ∧
      token.loc = cursor.offset + byteLength gap ∧
      after.offset = token.loc + byteLength token.written ∧
      (token.kind = .eof ∨ token.written ≠ []) := by
  unfold next read at found
  split at found
  · next kind text rest lexeme =>
      simp only [Prod.mk.injEq, Except.ok.injEq] at found
      obtain ⟨rfl, rfl⟩ := found
      have whole := Lexeme.span_read cursor.pastGap.rest
      have takes := Lexeme.takes_read cursor.pastGap.rest
      rw [lexeme] at whole takes
      simp only [Token.written, String.toList_ofList]
      refine ⟨(Lexeme.splitGap cursor.rest).1, Lexeme.gap_of_read lined lexeme, ?_, rfl, rfl, takes⟩
      rw [List.append_assoc]
      exact ((congrArg _ whole).trans (Lexeme.splitGap_append cursor.rest)).symm
  · simp at found

theorem next_of_rest {cursor : Cursor} (none : cursor.rest = []) :
    cursor.next = (.ok ⟨.eof, "", cursor.offset⟩, cursor) := by
  obtain ⟨offset, rest⟩ := cursor
  subst none
  rfl

/-- Where the end of the text is read, nothing is left, and the end is there. -/
theorem eq_of_end {cursor after : Cursor} {last : Token}
    (found : cursor.next = (.ok last, after)) (ended : last.kind = .eof) :
    after.rest = [] ∧ last = ⟨.eof, "", after.offset⟩ := by
  unfold next read at found
  split at found
  · next kind text rest lexeme =>
      simp only [Prod.mk.injEq, Except.ok.injEq] at found
      obtain ⟨rfl, rfl⟩ := found
      obtain rfl : kind = .eof := ended
      have none := Lexeme.eq_nil_of_read lexeme
      rw [none] at lexeme
      cases lexeme
      exact ⟨rfl, rfl⟩
  · simp at found

theorem rest_of_end {cursor after : Cursor} {last : Token}
    (found : cursor.next = (.ok last, after)) (ended : last.kind = .eof) : after.rest = [] :=
  (eq_of_end found ended).1

/-- The end of the text is read over and over. -/
theorem next_of_end {cursor after : Cursor} {last : Token}
    (found : cursor.next = (.ok last, after)) (ended : last.kind = .eof) :
    after.next = (.ok last, after) := by
  obtain ⟨nothing, same⟩ := eq_of_end found ended
  rw [next_of_rest nothing, same]

/-- In a text whose last line ends, the end of the text is read only where nothing is ahead. -/
theorem rest_eq_nil_of_end {cursor after : Cursor} {last : Token}
    (lined : Lexeme.Lined cursor.rest) (found : cursor.next = (.ok last, after))
    (ended : last.kind = .eof) : cursor.rest = [] := by
  by_cases none : cursor.rest = []
  · exact none
  · obtain ⟨gap, between, whole, -⟩ := exists_gap_of_next lined found
    have shaped := shaped_of_next found
    rw [Token.lexeme, ended] at shaped
    have nothing : last.written = [] := by
      rw [Token.written, ended, shaped.text_eq rfl]
      rfl
    rw [rest_of_end found ended, nothing, List.append_nil, List.append_nil] at whole
    have inside := lined.newline_mem none
    rw [whole] at inside
    exact absurd inside between.newline_not_mem

end Cursor

/-! ## Tiles -/

/-- A token with the gap in front of it. -/
structure Tile where
  gap : List Char
  token : Token

namespace Tile

/-- The characters of a tile. -/
def text (tile : Tile) : List Char :=
  tile.gap ++ tile.token.written

/-- The parts of a tile, each from the offset where it starts to the one where it stops: the gap and
the lexeme. -/
def parts (tile : Tile) : List (Nat × Nat) :=
  [(tile.token.loc - byteLength tile.gap, tile.token.loc),
    (tile.token.loc, tile.token.loc + byteLength tile.token.written)]

/-- Whether the byte at an offset is one of a part. -/
def holds (byte : Nat) (part : Nat × Nat) : Bool :=
  part.1 ≤ byte && byte < part.2

/-- The tokens of tiles that lie side by side, the first of them at the given offset, are where
their tiles put them. -/
def Placed : Nat → List Tile → Prop
  | _, [] => True
  | start, tile :: tiles =>
      tile.token.loc = start + byteLength tile.gap ∧ Placed (start + byteLength tile.text) tiles

namespace Placed

variable {start : Nat} {tiles : List Tile}

/-- A token starts after the tiles before it and its own gap. -/
theorem loc_eq {before after : List Tile} {tile : Tile}
    (placed : Placed start (before ++ tile :: after)) :
    tile.token.loc = start + byteLength (before.flatMap text ++ tile.gap) := by
  induction before generalizing start with
  | nil => exact placed.1
  | cons first before ih =>
      rw [ih placed.2, List.flatMap_cons, List.append_assoc, byteLength_append first.text,
        Nat.add_assoc]

/-- The bytes of tiles that lie side by side belong to one part each, and no other byte does. -/
theorem countP_parts (placed : Placed start tiles) (byte : Nat) :
    (tiles.flatMap parts).countP (holds byte) =
      if start ≤ byte ∧ byte < start + byteLength (tiles.flatMap text) then 1 else 0 := by
  induction tiles generalizing start with
  | nil =>
      have outside : ¬ (start ≤ byte ∧ byte < start + 0) := by omega
      exact (if_neg outside).symm
  | cons tile tiles ih =>
      obtain ⟨loc, later⟩ := placed
      rw [List.flatMap_cons, List.countP_append, ih later, List.flatMap_cons, byteLength_append]
      have here : tile.parts.countP (holds byte) =
          if start ≤ byte ∧ byte < start + byteLength tile.text then 1 else 0 := by
        simp only [parts, List.countP_cons, List.countP_nil, holds, loc, text, byteLength_append,
          Bool.and_eq_true, decide_eq_true_eq]
        split <;> split <;> split <;> omega
      rw [here]
      split <;> split <;> split <;> omega

end Placed

end Tile

namespace Cursor.Lexes

variable {cursor : Cursor} {tokens : List Token}

/-- The tiles of a text without faults are the text. -/
theorem exists_tiles (lexes : cursor.Lexes tokens) (lined : Lexeme.Lined cursor.rest) :
    ∃ tiles : List Tile, tiles.map Tile.token = tokens ∧
      tiles.flatMap Tile.text = cursor.rest ∧ Tile.Placed cursor.offset tiles ∧
      ∀ tile ∈ tiles, Lexeme.Gap tile.gap tile.token.kind := by
  induction lexes with
  | finish found ended =>
      obtain ⟨gap, between, whole, loc, -, -⟩ := exists_gap_of_next lined found
      rw [rest_of_end found ended, List.append_nil] at whole
      refine ⟨[⟨gap, _⟩], rfl, ?_, ⟨loc, trivial⟩, List.forall_mem_singleton.mpr between⟩
      rw [whole, List.flatMap_cons, List.flatMap_nil, List.append_nil]
      rfl
  | @read cursor after token tokens found more _ ih =>
      obtain ⟨gap, between, whole, loc, offset, -⟩ := exists_gap_of_next lined found
      rw [whole] at lined
      obtain ⟨tiles, same, text, placed, gaps⟩ := ih lined.of_append
      refine ⟨⟨gap, token⟩ :: tiles, ?_, ?_, ⟨loc, ?_⟩, List.forall_mem_cons.mpr ⟨between, gaps⟩⟩
      · rw [List.map_cons, same]
      · rw [List.flatMap_cons, text, whole]
        rfl
      · rw [offset, loc] at placed
        rw [Tile.text, byteLength_append, ← Nat.add_assoc]
        exact placed

/-- At the end of a text nothing but the end is read. -/
theorem eq_of_rest (lexes : cursor.Lexes tokens) (none : cursor.rest = []) :
    tokens = [⟨.eof, "", cursor.offset⟩] := by
  cases lexes with
  | finish found _ =>
      rw [next_of_rest none] at found
      cases found
      rfl
  | read found more _ =>
      rw [next_of_rest none] at found
      cases found
      exact absurd rfl more

/-- The last tokens of a text whose last line ends are the end of that line and the end. -/
theorem exists_ending (lexes : cursor.Lexes tokens) (lined : Lexeme.Lined cursor.rest)
    (nonempty : cursor.rest ≠ []) :
    ∃ body loc, tokens = body ++ [⟨.newline, "\n", loc⟩, ⟨.eof, "", loc + 1⟩] ∧
      loc + 1 = cursor.offset + byteLength cursor.rest := by
  induction lexes with
  | finish found ended => exact absurd (rest_eq_nil_of_end lined found ended) nonempty
  | @read cursor after token tokens found more later ih =>
      obtain ⟨gap, between, whole, loc, offset, takes⟩ := exists_gap_of_next lined found
      have count : after.offset + byteLength after.rest =
          cursor.offset + byteLength cursor.rest := by
        rw [whole, byteLength_append, byteLength_append]
        omega
      rw [whole] at lined
      by_cases left : after.rest = []
      · -- The text ends with this token, so that the token is the end of a line.
        rw [left, List.append_nil] at lined
        have newline := Lexeme.newline_of_mem_written (shaped_of_next found)
          (lined.of_append.newline_mem (takes.resolve_left more))
        have shaped := shaped_of_next found
        obtain ⟨kind, text, place⟩ := token
        obtain rfl : kind = .newline := newline
        obtain rfl : text = "\n" := shaped.text_eq rfl
        rw [Token.written, show Lexeme.written .newline "\n".toList = ['\n'] by decide,
          byteLength_newline] at offset
        refine ⟨[], place, ?_, ?_⟩
        · rw [later.eq_of_rest left, offset]
          rfl
        · rw [← count, left, offset]
          rfl
      · obtain ⟨body, place, same, total⟩ := ih lined.of_append left
        exact ⟨token :: body, place, by rw [same]; rfl, total.trans count⟩

theorem le_loc (lexes : cursor.Lexes tokens) (lined : Lexeme.Lined cursor.rest) :
    ∀ token ∈ tokens, cursor.offset ≤ token.loc := by
  induction lexes with
  | finish found _ =>
      obtain ⟨gap, -, -, loc, -⟩ := exists_gap_of_next lined found
      exact List.forall_mem_singleton.mpr (by omega)
  | read found _ _ ih =>
      obtain ⟨gap, -, whole, loc, offset, -⟩ := exists_gap_of_next lined found
      rw [whole] at lined
      refine List.forall_mem_cons.mpr ⟨by omega, ?_⟩
      intro other member
      have := ih lined.of_append other member
      omega

/-- Tokens stand in order. -/
theorem pairwise_loc (lexes : cursor.Lexes tokens) (lined : Lexeme.Lined cursor.rest) :
    tokens.Pairwise (·.loc < ·.loc) := by
  induction lexes with
  | finish _ _ => exact List.pairwise_singleton _ _
  | read found more later ih =>
      obtain ⟨gap, -, whole, loc, offset, takes⟩ := exists_gap_of_next lined found
      have longer := byteLength_pos (takes.resolve_left more)
      rw [whole] at lined
      refine List.pairwise_cons.mpr ⟨?_, ih lined.of_append⟩
      intro other member
      have := later.le_loc lined.of_append other member
      omega

end Cursor.Lexes

/-- Reading a source that can be read to its end loses nothing. The text is made of tiles, each a
gap and a token, and every token stands at the offset of its lexeme, after the tiles before it and
its own gap. A gap is a run of blanks with or without a comment, and after a comment comes the end
of the line. Every byte belongs to one gap or to one lexeme. The last two tokens are the end of the
line that is added to the source, and the end of the text. -/
theorem tokens_tile_source {source : String} {tokens : List Token}
    (lexes : (Cursor.ofSource source).Lexes tokens) :
    (∃ tiles : List Tile, tiles.map Tile.token = tokens ∧
      tiles.flatMap Tile.text = sourceText source ∧
      (∀ before tile after, tiles = before ++ tile :: after →
        tile.token.loc = byteLength (before.flatMap Tile.text ++ tile.gap) ∧
          Lexeme.Gap tile.gap tile.token.kind) ∧
      ∀ byte, byte < byteLength (sourceText source) →
        (tiles.flatMap Tile.parts).countP (Tile.holds byte) = 1) ∧
    ∃ body, tokens = body ++
      [⟨.newline, "\n", source.utf8ByteSize⟩, ⟨.eof, "", source.utf8ByteSize + 1⟩] := by
  have lined := Lexeme.lined_concat source.toList
  refine ⟨?_, ?_⟩
  · obtain ⟨tiles, same, text, placed, gaps⟩ := lexes.exists_tiles lined
    refine ⟨tiles, same, text, ?_, ?_⟩
    · rintro before tile after rfl
      have loc := placed.loc_eq
      rw [Cursor.ofSource, Nat.zero_add] at loc
      exact ⟨loc, gaps tile (by simp)⟩
    · intro byte inside
      rw [placed.countP_parts byte, text]
      exact if_pos ⟨Nat.zero_le byte, by rw [Cursor.ofSource, Nat.zero_add]; exact inside⟩
  · have nonempty : (Cursor.ofSource source).rest ≠ [] := List.concat_ne_nil '\n' source.toList
    obtain ⟨body, loc, same, total⟩ := lexes.exists_ending lined nonempty
    have size : loc = source.utf8ByteSize := by
      simp only [Cursor.ofSource, sourceText, byteLength_append, byteLength_toList,
        byteLength_newline] at total
      omega
    exact ⟨body, by rw [same, size]⟩

/-- A comment with a quote in it is a gap, and both bytes of a character of a string belong to the
string. -/
theorem tokens_tile_source_comment :
    let tokens : List Token :=
      [⟨.printWord, "PRINT", 0⟩, ⟨.quoted, "é", 6⟩, ⟨.newline, "\n", 15⟩, ⟨.eof, "", 16⟩]
    (Cursor.ofSource "PRINT \"é\" # \"x").Lexes tokens ∧
      ∃ tiles : List Tile, tiles.map Tile.token = tokens ∧
        tiles.flatMap Tile.text = sourceText "PRINT \"é\" # \"x" ∧
        (tiles.flatMap Tile.parts).countP (Tile.holds 7) = 1 ∧
        (tiles.flatMap Tile.parts).countP (Tile.holds 8) = 1 := by
  intro tokens
  have lexes : (Cursor.ofSource "PRINT \"é\" # \"x").Lexes tokens :=
    .read (by rfl) (by decide) (.read (by rfl) (by decide) (.read (by rfl) (by decide)
      (.finish (by rfl) rfl)))
  obtain ⟨⟨tiles, same, text, -, once⟩, -⟩ := tokens_tile_source lexes
  exact ⟨lexes, tiles, same, text, once 7 (by decide), once 8 (by decide)⟩

end TeenyTiny
