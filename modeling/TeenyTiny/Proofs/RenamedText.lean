import TeenyTiny.Proofs.LongestMatch

/-!
# Sources under other names

The identifiers of a source can be spelled in another way. Every gap and every other token stays as
it is (`renameText`). If each new spelling is that of an identifier, the new source is read as the
old one, token by token, with the identifiers renamed (`Cursor.Lexes.renamed`).

Only two things are looked at beyond a lexeme itself: a gap ends where a lexeme starts, and a lexeme
ends where the next character does not go on with it. An identifier starts with a letter under
either name, and all letters are alike in both respects (`Lexeme.Alike`).
-/

set_option autoImplicit false

namespace TeenyTiny

/-- A lexeme under another name: an identifier is renamed, and everything else stays. -/
def Lexeme.renamed (rename : String → String) : Lexeme → Lexeme
  | (.ident, name) => (.ident, rename name)
  | lexeme => lexeme

/-- A text with its identifiers renamed, given the tokens that are read from it. -/
def renameText (rename : String → String) : List Token → List Char → List Char
  | [], text => text
  | token :: tokens, text =>
      (Lexeme.splitGap text).1 ++
        (Lexeme.written token.kind (token.lexeme.renamed rename).2.toList ++
          renameText rename tokens ((Lexeme.splitGap text).2.drop token.written.length))

/-- What is ahead of a cursor, with its identifiers renamed. -/
def Cursor.renamedRest (rename : String → String) (cursor : Cursor) : List Char :=
  renameText rename cursor.supply.tokens cursor.rest

/-- A source with its identifiers renamed. The line end that was added is taken away again. -/
def renameSource (rename : String → String) (source : String) : String :=
  String.ofList ((Cursor.ofSource source).renamedRest rename).dropLast

/-- The identifiers among tokens. -/
def identifiers (tokens : List Token) : List String :=
  (tokens.filter (·.kind = .ident)).map Token.text

/-- What a function has to do to rename the identifiers of tokens. -/
structure Renames (rename : String → String) (tokens : List Token) : Prop where
  /-- An identifier is an identifier again. -/
  shaped : ∀ name ∈ identifiers tokens, Lexeme.Shaped (.ident, rename name)
  /-- Different identifiers stay different. -/
  injective : ∀ name ∈ identifiers tokens, ∀ other ∈ identifiers tokens,
    rename name = rename other → name = other

theorem mem_identifiers {tokens : List Token} {name : String} :
    name ∈ identifiers tokens ↔ ∃ token ∈ tokens, token.kind = .ident ∧ token.text = name := by
  simp [identifiers, and_assoc]

namespace Lexeme

variable {rename : String → String}

@[simp] theorem renamed_kind (rename : String → String) (lexeme : Lexeme) :
    (lexeme.renamed rename).1 = lexeme.1 := by
  unfold renamed
  split <;> rfl

theorem renamed_of_ne {lexeme : Lexeme} (other : lexeme.1 ≠ .ident) :
    lexeme.renamed rename = lexeme := by
  unfold renamed
  split
  · exact absurd rfl other
  · rfl

/-! ## Where lexemes end -/

/-- Two texts start with the same character, or both with a letter. -/
def Alike (rest rest' : List Char) : Prop :=
  rest'.head? = rest.head? ∨
    ∃ c ∈ rest.head?, ∃ c' ∈ rest'.head?, c.isAlpha = true ∧ c'.isAlpha = true

theorem isAlphanum_of_isAlpha {c : Char} (letter : c.isAlpha = true) : c.isAlphanum = true := by
  simp [Char.isAlphanum, letter]

/-- All letters go on with a lexeme, or none does. -/
theorem joins_letter {c c' : Char} (letter : c.isAlpha = true) (letter' : c'.isAlpha = true)
    (kind : Kind) (text : List Char) : joins kind text c = joins kind text c' := by
  have plain {c : Char} (letter : c.isAlpha = true) :
      c.isDigit = false ∧ (c == '.') = false ∧ (c == '=') = false := by
    refine ⟨isDigit_of_isAlpha letter, ?_, ?_⟩
    · apply beq_eq_false_iff_ne.mpr
      rintro rfl
      cases letter
    · apply beq_eq_false_iff_ne.mpr
      rintro rfl
      cases letter
  obtain ⟨digit, point, equals⟩ := plain letter
  obtain ⟨digit', point', equals'⟩ := plain letter'
  cases kind <;>
    simp only [joins, digit, digit', point, point', equals, equals', isAlphanum_of_isAlpha letter,
      isAlphanum_of_isAlpha letter']

theorem Ends.alike {kind : Kind} {text rest rest' : List Char} (ends : Ends kind text rest)
    (alike : Alike rest rest') : Ends kind text rest' := by
  intro c next
  rcases alike with same | ⟨d, first, d', first', letter, letter'⟩
  · exact ends c (same ▸ next)
  · obtain rfl : d' = c := Option.some.inj (first'.symm.trans next)
    rw [joins_letter letter' letter]
    exact ends d first

/-- Where an identifier ends does not depend on its spelling. -/
theorem Ends.renamed {kind : Kind} {text : String} {rest : List Char}
    (ends : Ends kind text.toList rest) (rename : String → String) :
    Ends kind (Lexeme.renamed rename (kind, text)).2.toList rest := by
  by_cases ident : kind = .ident
  · subst ident
    exact ends
  · rwa [renamed_of_ne ident]

theorem written_ne_nil {kind : Kind} {text : String} (shaped : Shaped (kind, text))
    (more : kind ≠ .eof) : written kind text.toList ≠ [] := by
  have ends : Ends kind text.toList [] := by
    intro c impossible
    cases impossible
  have takes := takes_read (written kind text.toList ++ [])
  rw [read_written (by rwa [String.ofList_toList]) more ends] at takes
  exact takes.resolve_left more

/-- What is written for a lexeme starts with the same character under another name, or both times
with a letter. -/
theorem alike_written {kind : Kind} {text : String} (shaped : Shaped (kind, text))
    (shaped' : Shaped (Lexeme.renamed rename (kind, text))) (more : kind ≠ .eof)
    (rest rest' : List Char) :
    Alike (written kind text.toList ++ rest)
      (written kind (Lexeme.renamed rename (kind, text)).2.toList ++ rest') := by
  by_cases ident : kind = .ident
  · subst ident
    obtain ⟨⟨first, others, same, letter, -⟩, -⟩ := shaped
    obtain ⟨⟨first', others', same', letter', -⟩, -⟩ := shaped'
    refine .inr ⟨first, ?_, first', ?_, letter, letter'⟩
    · rw [written_of_ne_quoted (by decide), show text.toList = first :: others from same]
      rfl
    · rw [written_of_ne_quoted (by decide), same']
      rfl
  · rw [renamed_of_ne ident]
    obtain ⟨first, others, nonempty⟩ := List.exists_cons_of_ne_nil (written_ne_nil shaped more)
    rw [nonempty]
    exact .inl rfl

/-- What is skipped in front of a text is skipped in front of a text that starts alike. -/
theorem Skips.alike {gap text text' : List Char} (skips : Skips gap text)
    (alike : Alike text text') : Skips gap text' := by
  rcases alike with same | ⟨c, first, c', first', letter, letter'⟩
  · cases skips with
    | blanks all stop => exact .blanks all (same ▸ stop)
    | comment all inside stop => exact .comment all inside (same ▸ stop)
  · cases skips with
    | blanks all _ =>
        refine .blanks all ?_
        intro d next
        obtain rfl : c' = d := Option.some.inj (first'.symm.trans next)
        exact startsGap_of_isAlphanum (isAlphanum_of_isAlpha letter')
    | comment _ _ stop =>
        -- a comment stops at no letter
        rcases stop c first with rfl | rfl
        · cases letter
        · cases letter

end Lexeme

/-! ## Reading -/

namespace Cursor

variable {rename : String → String} {cursor after : Cursor} {token : Token}

/-- Behind the gap stand the token that is read and what is ahead then, and the token ends there. -/
theorem parts_of_next (found : cursor.next = (.ok token, after)) :
    (Lexeme.splitGap cursor.rest).2 = token.written ++ after.rest ∧
      Lexeme.Ends token.kind token.text.toList after.rest := by
  unfold next read at found
  split at found
  · next kind text rest lexeme =>
      simp only [Prod.mk.injEq, Except.ok.injEq] at found
      obtain ⟨rfl, rfl⟩ := found
      have whole := Lexeme.span_read cursor.pastGap.rest
      rw [lexeme] at whole
      simp only [Token.written, String.toList_ofList]
      exact ⟨whole.symm, Lexeme.ends_of_read lexeme⟩
  · cases (Prod.mk.inj found).1

theorem rest_of_next (found : cursor.next = (.ok token, after)) :
    cursor.rest = (Lexeme.splitGap cursor.rest).1 ++ (token.written ++ after.rest) := by
  rw [← (parts_of_next found).1, Lexeme.splitGap_append]

/-- A token is read under another name in front of a text that starts as the one that was ahead. -/
theorem next_renamed (found : cursor.next = (.ok token, after)) (more : token.kind ≠ .eof)
    (shaped : Lexeme.Shaped (token.lexeme.renamed rename)) {rest : List Char}
    (alike : Lexeme.Alike after.rest rest) (offset : Nat) :
    ∃ token' offset', token'.lexeme = token.lexeme.renamed rename ∧
      next ⟨offset, (Lexeme.splitGap cursor.rest).1 ++
        (Lexeme.written token.kind (token.lexeme.renamed rename).2.toList ++ rest)⟩ =
          (.ok token', ⟨offset', rest⟩) := by
  obtain ⟨whole, ends⟩ := parts_of_next found
  have kind : (token.lexeme.renamed rename).1 = token.kind :=
    Lexeme.renamed_kind rename token.lexeme
  have skips := Lexeme.skips_splitGap cursor.rest
  rw [whole] at skips
  have starts : Lexeme.Alike (token.written ++ after.rest)
      (Lexeme.written token.kind (token.lexeme.renamed rename).2.toList ++ rest) :=
    Lexeme.alike_written (shaped_of_next found) shaped more after.rest rest
  have spelled : Lexeme.Shaped
      (token.kind, String.ofList (token.lexeme.renamed rename).2.toList) := by
    rw [String.ofList_toList, ← kind]
    exact shaped
  have found' := Lexeme.read_written spelled more ((ends.alike alike).renamed rename)
  have next := next_of_skips (skips.alike starts) offset
  rw [read, found'] at next
  simp only [String.ofList_toList] at next
  have same : Token.lexeme ⟨token.kind, (token.lexeme.renamed rename).2,
      offset + byteLength (Lexeme.splitGap cursor.rest).1⟩ = token.lexeme.renamed rename :=
    Prod.ext kind.symm rfl
  exact ⟨_, _, same, next⟩

theorem renamedRest_of_end (lined : Lexeme.Lined cursor.rest)
    (found : cursor.next = (.ok token, after)) (ended : token.kind = .eof) :
    cursor.renamedRest rename = [] := by
  rw [renamedRest, supply_of_end found ended]
  exact rest_eq_nil_of_end lined found ended

theorem renamedRest_of_token (found : cursor.next = (.ok token, after))
    (more : token.kind ≠ .eof) :
    cursor.renamedRest rename = (Lexeme.splitGap cursor.rest).1 ++
      (Lexeme.written token.kind (token.lexeme.renamed rename).2.toList ++
        after.renamedRest rename) := by
  rw [renamedRest, supply_of_token found more, renameText, (parts_of_next found).1, List.drop_left]
  rfl

namespace Lexes

variable {tokens : List Token}

/-- A text that can be read starts with the same character when it is renamed, or both times with a
letter. -/
theorem alike_renamedRest (lexes : cursor.Lexes tokens) (lined : Lexeme.Lined cursor.rest)
    (shaped : ∀ token ∈ tokens, Lexeme.Shaped (token.lexeme.renamed rename)) :
    Lexeme.Alike cursor.rest (cursor.renamedRest rename) := by
  cases lexes with
  | finish found ended =>
      rw [renamedRest_of_end lined found ended, rest_eq_nil_of_end lined found ended]
      exact .inl rfl
  | @read _ after token _ found more _ =>
      have whole := rest_of_next found
      rw [renamedRest_of_token found more]
      generalize (Lexeme.splitGap cursor.rest).1 = gap at whole ⊢
      rw [whole]
      cases gap with
      | nil =>
          exact Lexeme.alike_written (shaped_of_next found) (shaped token List.mem_cons_self) more
            _ _
      | cons c gap => exact .inl rfl

/-- The tokens of a text with its identifiers renamed are those of the text, renamed. -/
theorem renamed (lexes : cursor.Lexes tokens) (lined : Lexeme.Lined cursor.rest)
    (shaped : ∀ token ∈ tokens, Lexeme.Shaped (token.lexeme.renamed rename)) (offset : Nat) :
    ∃ tokens', Lexes ⟨offset, cursor.renamedRest rename⟩ tokens' ∧
      tokens'.map Token.lexeme = tokens.map fun token => token.lexeme.renamed rename := by
  induction lexes generalizing offset with
  | @finish cursor after last found ended =>
      have spelled := shaped_of_next found
      rw [Token.lexeme, ended] at spelled
      rw [renamedRest_of_end lined found ended]
      refine ⟨_, .finish (next_of_rest rfl) rfl, ?_⟩
      rw [List.map_singleton, List.map_singleton, Token.lexeme, Token.lexeme, ended,
        spelled.text_eq rfl]
      rfl
  | @read cursor after token tokens found more later ih =>
      obtain ⟨here, others⟩ := List.forall_mem_cons.mp shaped
      have lined : Lexeme.Lined after.rest := by
        simpa only [found] using lined_next lined
      obtain ⟨token', offset', kept, next⟩ :=
        next_renamed found more here (later.alike_renamedRest lined others) offset
      obtain ⟨tokens', lexes', same⟩ := ih lined others offset'
      have more' : token'.kind ≠ .eof := by
        rw [show token'.kind = token'.lexeme.1 from rfl, kept, Lexeme.renamed_kind]
        exact more
      rw [renamedRest_of_token found more]
      refine ⟨token' :: tokens', .read next more' lexes', ?_⟩
      rw [List.map_cons, List.map_cons, same, kept]

/-- Renaming leaves the line end that was added to a source in its place. -/
theorem exists_renamedRest (lexes : cursor.Lexes tokens) (lined : Lexeme.Lined cursor.rest)
    (nonempty : cursor.rest ≠ []) : ∃ front, cursor.renamedRest rename = front ++ ['\n'] := by
  induction lexes with
  | finish found ended => exact absurd (rest_eq_nil_of_end lined found ended) nonempty
  | @read cursor after token tokens found more later ih =>
      rw [rest_of_next found] at lined
      rw [renamedRest_of_token found more]
      by_cases left : after.rest = []
      · -- The text ends with this token, which is the end of a line and not an identifier.
        rw [left, List.append_nil] at lined
        have shaped := shaped_of_next found
        have newline : token.kind = .newline := Lexeme.newline_of_mem_written shaped
          (lined.of_append.newline_mem (Lexeme.written_ne_nil shaped more))
        have spelled : Lexeme.written token.kind (token.lexeme.renamed rename).2.toList =
            ['\n'] := by
          rw [Token.lexeme, newline] at shaped ⊢
          rw [shaped.text_eq rfl, Lexeme.renamed_of_ne (by decide)]
          decide
        have none : after.renamedRest rename = [] := by
          refine renamedRest_of_end ?_ (next_of_rest left) rfl
          rw [left]
          intro c impossible
          cases impossible
        exact ⟨(Lexeme.splitGap cursor.rest).1, by rw [none, spelled, List.append_nil]⟩
      · obtain ⟨front, same⟩ := ih lined.of_append.of_append left
        rw [same]
        exact ⟨_, by rw [← List.append_assoc, ← List.append_assoc]⟩

end Lexes

end Cursor

/-- Everything that is read can be written under other names. -/
theorem Renames.shaped_renamed {rename : String → String} {cursor : Cursor} {tokens : List Token}
    (renames : Renames rename tokens) (lexes : cursor.Lexes tokens) :
    ∀ token ∈ tokens, Lexeme.Shaped (token.lexeme.renamed rename) := by
  intro token member
  by_cases ident : token.kind = .ident
  · have same : token.lexeme = (.ident, token.text) := Prod.ext ident rfl
    rw [same]
    exact renames.shaped token.text (mem_identifiers.mpr ⟨token, member, ident, rfl⟩)
  · rw [Lexeme.renamed_of_ne ident]
    exact lexes.shaped token member

/-- The text of a source with its identifiers renamed. -/
theorem sourceText_renameSource {source : String} {tokens : List Token}
    (lexes : (Cursor.ofSource source).Lexes tokens) (rename : String → String) :
    sourceText (renameSource rename source) = (Cursor.ofSource source).renamedRest rename := by
  obtain ⟨front, same⟩ := lexes.exists_renamedRest (Lexeme.lined_concat source.toList)
    (List.concat_ne_nil '\n' source.toList)
  rw [sourceText, renameSource, String.toList_ofList, same, List.dropLast_concat]

/-- A source with its identifiers renamed is read as the source, with the identifiers renamed. -/
theorem Renames.exists_lexes {rename : String → String} {source : String} {tokens : List Token}
    (renames : Renames rename tokens) (lexes : (Cursor.ofSource source).Lexes tokens) :
    ∃ tokens', (Cursor.ofSource (renameSource rename source)).Lexes tokens' ∧
      tokens'.map Token.lexeme = tokens.map fun token => token.lexeme.renamed rename := by
  rw [Cursor.ofSource, sourceText_renameSource lexes rename]
  exact lexes.renamed (Lexeme.lined_concat source.toList) (renames.shaped_renamed lexes) 0

end TeenyTiny
