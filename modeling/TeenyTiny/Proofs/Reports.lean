import TeenyTiny.Proofs.ByteScan
import TeenyTiny.Proofs.FaultTokens

/-!
# What is reported of a source

A source that is not compiled is reported in one line of text (`reports_are_one_line`): the phase,
the line and column, and what is wrong. What is wrong may be said with a character of the source, the
text of a token or the name of a label. None of these can break the line. A token that holds an end
of a line is described in other words (`Token.oneLine_describe`), and an end of a line is never the
character that offends by itself (`Lexeme.Offence.oneLine`).

The report points at something that stands in the text (`PointsAt`): at a token, at the character
that could not be read, or behind all of it.
-/

set_option autoImplicit false

namespace TeenyTiny

/-! ## Texts of one line -/

/-- A text without an end of a line in it. -/
def OneLine (text : String) : Prop :=
  '\n' ∉ text.toList

instance (text : String) : Decidable (OneLine text) :=
  inferInstanceAs (Decidable ('\n' ∉ text.toList))

theorem oneLine_append {first second : String} (one : OneLine first) (one' : OneLine second) :
    OneLine (first ++ second) := by
  unfold OneLine
  rw [String.toList_append, List.mem_append, not_or]
  exact ⟨one, one'⟩

theorem oneLine_toString (number : Nat) : OneLine (toString number) := by
  intro member
  have digits : (toString number).toList = Nat.toDigits 10 number := String.toList_ofList
  rw [digits] at member
  cases Nat.isDigit_of_mem_toDigits (by decide) (by decide) member

theorem oneLine_char {c : Char} (other : c ≠ '\n') : OneLine c.toString := by
  intro member
  have spelled : c.toString.toList = [c] := String.toList_singleton c
  rw [spelled, List.mem_singleton] at member
  exact other member.symm

theorem Position.oneLine_render (position : Position) : OneLine position.render :=
  oneLine_append (oneLine_append (oneLine_toString _) (by decide)) (oneLine_toString _)

theorem Kind.oneLine_name (kind : Kind) : OneLine kind.name := by
  cases kind <;> decide

/-- However a token is described, it is in one line. -/
theorem Token.oneLine_describe {token : Token} (shaped : Lexeme.Shaped token.lexeme) :
    OneLine token.describe := by
  obtain ⟨kind, text, loc⟩ := token
  -- Only the text of an end of a line has one in it, and that text is not shown.
  have plain (other : kind ≠ .newline) : OneLine text := by
    intro member
    refine other (Lexeme.newline_of_mem_written shaped ?_)
    cases kind with
    | quoted => exact List.mem_cons_of_mem _ (List.mem_append_left _ member)
    | _ => exact member
  cases kind with
  | eof => exact (by decide : OneLine "EOF")
  | newline => exact (by decide : OneLine "end of line")
  | _ => exact plain (by decide)

/-! ## What is wrong, in one line -/

/-- What is said of a token is said in one line. -/
theorem Cause.SpeaksOf.oneLine {cause : Cause} {token : Token} (speaks : cause.SpeaksOf token)
    (shaped : Lexeme.Shaped token.lexeme) : OneLine cause.message := by
  have describe := Token.oneLine_describe shaped
  cases cause with
  | expected wanted found =>
      exact oneLine_append (oneLine_append (oneLine_append (by decide) wanted.oneLine_name)
        (by decide)) found.oneLine_name
  | badStatement description kind =>
      obtain ⟨rfl, -⟩ := speaks
      exact oneLine_append (oneLine_append (oneLine_append (oneLine_append (by decide) describe)
        (by decide)) kind.oneLine_name) (by decide)
  | noComparison description | badOperand description =>
      obtain rfl := speaks
      exact oneLine_append (by decide) describe
  | unassigned name | labelTaken name | labelMissing name =>
      obtain ⟨ident, rfl⟩ := speaks
      have same : token.describe = token.text := by rw [Token.describe, ident]
      rw [same] at describe
      exact oneLine_append (by decide) describe
  | loneBang _ | badStringChar | badNumberChar | unknownChar _ => cases speaks

/-- What is said of a character that cannot be read is said in one line. -/
theorem Lexeme.Offence.oneLine {passed rest : List Char} {cause : Cause}
    (offence : Offence passed cause rest) : OneLine cause.message := by
  cases offence with
  | string _ _ | number _ _ => decide
  | @bang rest _ =>
      cases next : rest.head?.filter (· != '\n') with
      | none => exact oneLine_append (by decide) (by decide)
      | some c =>
          have other := (Option.filter_eq_some_iff.mp next).2
          exact oneLine_append (by decide) (oneLine_char (by simpa using other))
  | @unknown c rest unmarked _ =>
      have other : c ≠ '\n' := by
        rintro rfl
        exact unmarked (by decide)
      exact oneLine_append (oneLine_append (by decide) (oneLine_char other)) (by decide)

/-! ## What stands in the text -/

/-- Everything that is read of a text stands in it: the tokens, the end of the text, and the
character that cannot be read. -/
structure Supply.StandsIn (text : List Char) (supply : Supply) : Prop where
  tokens : ∀ token ∈ supply.tokens, token.StandsIn text ∧ Lexeme.Shaped token.lexeme
  last : ∀ last, supply.ending = .ok last → last = ⟨.eof, "", byteLength text⟩
  offence : ∀ fault, supply.ending = .error fault →
    ∃ front passed c rest, text = front ++ passed ++ c :: rest ∧
      Lexeme.Offence passed fault.cause (c :: rest) ∧ fault.loc = byteLength (front ++ passed)

/-- An offence is that of a character. -/
theorem Lexeme.Offence.exists_cons {passed rest : List Char} {cause : Cause}
    (offence : Offence passed cause rest) : ∃ c others, rest = c :: others := by
  cases offence with
  | string _ _ | number _ _ | bang _ | unknown _ _ => exact ⟨_, _, rfl⟩

namespace Cursor

variable {text : List Char} {cursor : Cursor}

/-- What cannot be read is a character of the text that offends. -/
theorem offence_of_next (stands : StandsIn text cursor) (lined : Lexeme.Lined cursor.rest)
    {fault : Fault} {after : Cursor} (found : cursor.next = (.error fault, after)) :
    ∃ front passed c rest, text = front ++ passed ++ c :: rest ∧
      Lexeme.Offence passed fault.cause (c :: rest) ∧ fault.loc = byteLength (front ++ passed) := by
  obtain ⟨front, whole, behind⟩ := stands.pastGap
  have split := Lexeme.splitGap_append cursor.rest
  rw [← split] at lined
  rcases read_cases cursor.pastGap.offset lined.of_append with
    ⟨-, token, other, read, -⟩ | ⟨-, fault', other, read, offence⟩
  · cases found.symm.trans read
  · cases found.symm.trans read
    obtain ⟨passed, ahead, broken, loc⟩ := offence.broken
    obtain ⟨c, rest, shape⟩ := broken.exists_cons
    have ahead : cursor.pastGap.rest = passed ++ after.rest := ahead
    rw [shape] at ahead broken
    refine ⟨front, passed, c, rest, ?_, broken, ?_⟩
    · rw [whole, ahead, List.append_assoc]
    · rw [loc, behind, byteLength_append]

/-- Everything that is read from a cursor stands in the text that the cursor stands in. -/
theorem supply_standsIn (stands : StandsIn text cursor) (lined : Lexeme.Lined cursor.rest) :
    cursor.supply.StandsIn text := by
  induction cursor using supply.induct with
  | case1 cursor fault after found =>
      rw [supply_of_fault found]
      refine ⟨?_, ?_, ?_⟩
      · intro token impossible
        cases impossible
      · intro last impossible
        cases impossible
      · intro other same
        cases same
        exact offence_of_next stands lined found
  | case2 cursor last after found ended =>
      rw [supply_of_end found ended]
      refine ⟨?_, ?_, ?_⟩
      · intro token impossible
        cases impossible
      · intro other same
        cases same
        have nothing := rest_eq_nil_of_end lined found ended
        have total := stands.offset_add
        rw [nothing, byteLength_nil, Nat.add_zero] at total
        rw [next_of_rest nothing] at found
        cases found
        rw [total]
      · intro fault impossible
        cases impossible
  | case3 cursor token after found more _ ih =>
      have later := stands.next
      have lined' := lined_next lined
      rw [found] at later lined'
      have rest := ih later lined'
      have read : tokenBefore? cursor.next.1 = some token := by
        rw [found]
        exact if_neg more
      have here := (span_of_next stands lined read).1
      rw [supply_of_token found more]
      exact ⟨List.forall_mem_cons.mpr ⟨⟨here, shaped_of_next found⟩, rest.tokens⟩, rest.last,
        rest.offence⟩

end Cursor

/-! ## Reports -/

/-- What the report of a cause can point at in the text of a source. -/
inductive PointsAt (source : String) (cause : Cause) : Nat → Prop where
  /-- A token, of which the cause speaks. -/
  | token {token : Token} : token ∈ (Cursor.ofSource source).supply.tokens →
      cause.SpeaksOf token → PointsAt source cause token.loc
  /-- A character that offends, behind what is in order before it. -/
  | character {front passed rest : List Char} {c : Char} :
      sourceText source = front ++ passed ++ c :: rest →
      Lexeme.Offence passed cause (c :: rest) → PointsAt source cause (byteLength (front ++ passed))
  /-- The end of the text, of which the cause speaks. -/
  | finish : cause.SpeaksOf ⟨.eof, "", byteLength (sourceText source)⟩ →
      PointsAt source cause (byteLength (sourceText source))

namespace Compilation

variable {source : String} {output : Output} {fault : Fault}

/-- The fault of a compilation points at something in the text. -/
theorem pointsAt (found : (ofSource source output).fault? = some fault) :
    PointsAt source fault.cause fault.loc := by
  have stands := Cursor.supply_standsIn (.start source) (Lexeme.lined_concat source.toList)
  rw [fault_eq_or] at found
  rcases Option.or_eq_some_iff.mp found with stopped | ⟨-, unread⟩
  · obtain ⟨token, member, loc, speaks⟩ := Walk.exists_spoken_of_fault stopped
    rw [← loc]
    unfold Supply.lookahead at member
    split at member
    · next last ending =>
        rcases List.mem_append.mp member with member | ended
        · exact .token member speaks
        · obtain rfl : token = last := by simpa using ended
          have same := stands.last token ending
          rw [same] at speaks ⊢
          exact .finish speaks
    · exact .token member speaks
  · obtain ⟨front, passed, c, rest, whole, offence, loc⟩ :=
      stands.offence fault (Supply.ending_of_fault unread)
    rw [loc]
    exact .character whole offence

end Compilation

namespace PointsAt

variable {source : String} {cause : Cause} {loc : Nat}

theorem boundary (points : PointsAt source cause loc) : Boundary (source ++ "\n") loc := by
  rw [buffer_eq]
  cases points with
  | @token token member _ =>
      have stands := Cursor.supply_standsIn (.start source) (Lexeme.lined_concat source.toList)
      obtain ⟨front, back, whole, here⟩ := (stands.tokens token member).1
      rw [whole, here, List.append_assoc]
      exact boundary_front front _
  | @character front passed rest c whole _ =>
      rw [whole]
      exact boundary_front (front ++ passed) (c :: rest)
  | finish _ =>
      have all := boundary_front (sourceText source) []
      rwa [List.append_nil] at all

theorem oneLine (points : PointsAt source cause loc) : OneLine cause.message := by
  cases points with
  | token member speaks =>
      have stands := Cursor.supply_standsIn (.start source) (Lexeme.lined_concat source.toList)
      exact speaks.oneLine (stands.tokens _ member).2
  | character _ offence => exact offence.oneLine
  | finish speaks => exact speaks.oneLine (Lexeme.shaped_of_spelling rfl)

end PointsAt

theorem Phase.oneLine_title (phase : Phase) : OneLine phase.title := by
  cases phase <;> decide

/-- Every report is one line. If a source is not compiled, the report is one of reading, of grammar
or of meaning. It has no end of a line in it, and starts with its phase and with the line and column
of its position. The position is that of a boundary of the text, at which a token starts, a
character stands that offends, or the text ends. -/
theorem reports_are_one_line {source : String} {diagnostic : Diagnostic}
    (failed : compile source = .error diagnostic) :
    '\n' ∉ diagnostic.render.toList ∧
    (∃ opening message, (diagnostic.phase, opening) ∈ [(Phase.lexing, "lexing error at "),
        (Phase.grammar, "syntax error at "), (Phase.meaning, "semantic error at ")] ∧
      diagnostic.render = opening ++ toString diagnostic.position.line ++ ":" ++
        toString diagnostic.position.column ++ ": " ++ message) ∧
    ∃ cause loc, diagnostic.phase = cause.phase ∧ diagnostic.message = cause.message ∧
      diagnostic.position = Position.ofOffset (sourceText source) loc ∧
      Boundary (source ++ "\n") loc ∧ PointsAt source cause loc := by
  obtain ⟨fault, found, rfl⟩ := compile_eq_error_iff.mp failed
  have points := Compilation.pointsAt found
  refine ⟨?_, ?_, fault.cause, fault.loc, rfl, rfl, rfl, points.boundary, points⟩
  · have opening : OneLine (fault.cause.phase.title ++ " error at ") :=
      oneLine_append fault.cause.phase.oneLine_title (by decide)
    have placed := oneLine_append opening
      (Position.oneLine_render (Position.ofOffset (sourceText source) fault.loc))
    exact oneLine_append (oneLine_append placed (by decide)) points.oneLine
  · refine ⟨fault.cause.phase.title ++ " error at ", fault.cause.message, ?_, ?_⟩
    · show (fault.cause.phase, fault.cause.phase.title ++ " error at ") ∈ _
      cases fault.cause.phase with
      | lexing | grammar | meaning => decide
    · simp only [Diagnostic.render, Position.render, String.append_assoc]
      rfl

/-- An exclamation mark at the end of a line is reported without the character behind it, which is
the end of the line. -/
theorem reports_are_one_line_at_line_end :
    let diagnostic : Diagnostic := ⟨.lexing, ⟨1, 1⟩, "expected !=, got !"⟩
    compile "!" = .error diagnostic ∧ '\n' ∉ diagnostic.render.toList ∧
      ∃ cause loc, diagnostic.message = cause.message ∧
        diagnostic.position = Position.ofOffset (sourceText "!") loc ∧
        Boundary ("!" ++ "\n") loc ∧ PointsAt "!" cause loc := by
  intro diagnostic
  have failed : compile "!" = .error diagnostic := by
    have supply : (Cursor.ofSource "!").supply = ⟨[], .error ⟨.loneBang none, 0⟩⟩ :=
      Cursor.supply_of_fault (by rfl)
    rw [compile, Compilation.ofSource, Cursor.compile, supply]
    rfl
  obtain ⟨one, -, cause, loc, -, said, placed⟩ := reports_are_one_line failed
  exact ⟨failed, one, cause, loc, said, placed⟩

end TeenyTiny
