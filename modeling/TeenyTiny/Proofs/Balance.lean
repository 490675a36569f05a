import Mathlib.Data.List.Chain
import TeenyTiny.Proofs.TreeTokens

/-!
# Compiled programs are well-formed text

A reader of C who knows no more than where literals start and end finds nothing amiss in a compiled
program (`compile_wellFormed`). No line ends inside a literal. On every line the parentheses outside
of literals are balanced, no comment starts, and no two signs run together. The braces open with the
second line and close with the last, and in between the program stays inside of them.

Lines are put together from fixed text and from parts of arithmetic (`Bare`), which have no
parentheses, braces or quotes of their own. Lists of lines are level (`Level`) if they close every
brace that they open and no other; a block is level if its lines are.
-/

set_option autoImplicit false

namespace TeenyTiny.C

/-! ## Parentheses, pairs and braces -/

/-- How many parentheses are open after a character, given how many were open before it. There is no
answer if one closes that was not open. -/
def paren (opened : Nat) (c : Char) : Option Nat :=
  if c = '(' then some (opened + 1)
  else if c = ')' then if opened = 0 then none else some (opened - 1)
  else some opened

/-- How many parentheses are open after a text. -/
def parens (opened : Nat) (text : List Char) : Option Nat :=
  text.foldlM paren opened

theorem parens_append (opened : Nat) (first second : List Char) :
    parens opened (first ++ second) = (parens opened first).bind (parens · second) :=
  List.foldlM_append

theorem parens_of_not_mem (opened : Nat) {text : List Char} (opens : '(' ∉ text)
    (closes : ')' ∉ text) : parens opened text = some opened := by
  induction text with
  | nil => rfl
  | cons c text ih =>
      obtain ⟨other, opens⟩ := not_or.mp (mt List.mem_cons.mpr opens)
      obtain ⟨other', closes⟩ := not_or.mp (mt List.mem_cons.mpr closes)
      have stays : paren opened c = some opened := by
        rw [paren, if_neg (Ne.symm other), if_neg (Ne.symm other')]
      rw [parens, List.foldlM_cons, stays]
      exact ih opens closes

/-- The pairs of characters that start a comment, and those that are one mark made of two signs. -/
def pairs : List (List Char) :=
  ["//", "/*", "++", "--"].map String.toList

/-- The characters in pairs. -/
def pairChars : List Char :=
  ['/', '*', '+', '-']

/-- A text in which no pair stands. -/
def Apart (text : List Char) : Prop :=
  text.IsChain fun first second => [first, second] ∉ pairs

instance (text : List Char) : Decidable (Apart text) :=
  inferInstanceAs (Decidable (List.IsChain _ text))

theorem Apart.absent {text : List Char} (apart : Apart text) :
    ∀ pair ∈ pairs, ¬ pair <:+: text := by
  intro pair member inside
  have two : ∀ pair ∈ pairs, pair = [pair.headD ' ', pair.getLastD ' '] := by decide
  rw [two pair member] at inside
  have differ := List.IsChain.infix apart inside
  exact differ.rel (two pair member ▸ member)

theorem Apart.append {first second : List Char} (apart : Apart first) (apart' : Apart second)
    (quiet : (∀ c ∈ first.getLast?, c ∉ pairChars) ∨ ∀ c ∈ second.head?, c ∉ pairChars) :
    Apart (first ++ second) := by
  have chars : ∀ pair ∈ pairs, ∀ c ∈ pair, c ∈ pairChars := by decide
  refine List.isChain_append.mpr ⟨apart, apart', fun last here next there member => ?_⟩
  rcases quiet with quiet | quiet
  · exact quiet last here (chars _ member last (by simp))
  · exact quiet next there (chars _ member next (by simp))

theorem apart_of_quiet {text : List Char} (quiet : ∀ c ∈ text, c ∉ pairChars) : Apart text := by
  induction text with
  | nil => exact List.isChain_nil
  | cons c text ih =>
      obtain ⟨here, quiet⟩ := List.forall_mem_cons.mp quiet
      exact Apart.append (List.isChain_singleton c) (ih quiet) (.inl (by simpa using here))

/-- By how much a text changes the number of open braces. -/
def braces (text : List Char) : Int :=
  text.count '\x7b' - text.count '\x7d'

theorem braces_append (first second : List Char) :
    braces (first ++ second) = braces first + braces second := by
  simp only [braces, List.count_append]
  omega

/-! ## Lines -/

/-- A line without what is inside of its literals. -/
def codeOf (line : String) : List Char :=
  Mode.code.outside line.toList

/-- A line that is in order: it ends outside of literals, its parentheses are balanced, and it has
no pairs. -/
structure Tidy (line : String) : Prop where
  whole : '\n' ∉ line.toList
  closed : Mode.code.after line.toList = .code
  balanced : parens 0 (codeOf line) = some 0
  apart : Apart (codeOf line)

instance (line : String) : Decidable (Tidy line) :=
  decidable_of_iff ('\n' ∉ line.toList ∧ Mode.code.after line.toList = .code ∧
      parens 0 (codeOf line) = some 0 ∧ Apart (codeOf line))
    ⟨fun ⟨whole, closed, balanced, apart⟩ => ⟨whole, closed, balanced, apart⟩,
      fun ⟨whole, closed, balanced, apart⟩ => ⟨whole, closed, balanced, apart⟩⟩

/-- The characters that have a place in the layout of a program. -/
def layoutChars : List Char :=
  ['"', '\n', '(', ')', '\x7b', '\x7d']

/-- A sign that has no part in the layout. -/
def PlainSign (sign : String) : Prop :=
  (∀ c ∈ sign.toList, c ∉ layoutChars) ∧ Apart sign.toList

instance (sign : String) : Decidable (PlainSign sign) :=
  inferInstanceAs (Decidable (_ ∧ _))

/-- A part of a line that has no part in the layout and ends with a letter or a digit. -/
structure Bare (text : String) : Prop where
  plain : ∀ c ∈ text.toList, c ∉ layoutChars
  apart : Apart text.toList
  ends : ∃ c ∈ text.toList.getLast?, isWordChar c = true

theorem quiet_of_word {c : Char} (word : isWordChar c = true ∨ c = '.') :
    c ∉ pairChars ∧ c ∉ layoutChars := by
  have marks : ∀ c ∈ pairChars ++ layoutChars,
      isWordChar c = false ∧ c ≠ '.' := by decide
  rw [← not_or, ← List.mem_append]
  intro member
  obtain ⟨other, point⟩ := marks c member
  rcases word with word | rfl
  · simp [other] at word
  · exact point rfl

namespace Bare

/-- Letters, digits and points. -/
theorem word {text : String} (each : ∀ c ∈ text.toList, isWordChar c = true ∨ c = '.')
    (ends : ∃ c ∈ text.toList.getLast?, isWordChar c = true) : Bare text where
  plain c member := (quiet_of_word (each c member)).2
  apart := apart_of_quiet fun c member => (quiet_of_word (each c member)).1
  ends := ends

theorem name {name : String} (isName : IsName name) : Bare name := by
  obtain ⟨first, others, spelled, letter, word⟩ := isName
  have here : isWordChar first = true := by simp [isWordChar, Char.isAlphanum, letter]
  have each : ∀ c ∈ name.toList, isWordChar c = true := by
    rw [spelled]
    exact List.forall_mem_cons.mpr ⟨here, word⟩
  have last := List.getLast?_eq_getLast_of_ne_nil (spelled ▸ List.cons_ne_nil first others)
  exact .word (fun c member => .inl (each c member))
    ⟨_, last, each _ (List.getLast_mem _)⟩

theorem constant {text : String} {whole fraction : List Char}
    (whole_digits : Lexeme.Digits whole) (fraction_digits : Lexeme.Digits fraction)
    (spelled : text.toList = whole ++ '.' :: fraction) : Bare text := by
  have word {c : Char} (digit : c.isDigit = true) : isWordChar c = true := by
    simp [isWordChar, Char.isAlphanum, digit]
  refine .word (fun c member => ?_) ?_
  · rw [spelled, List.mem_append, List.mem_cons] at member
    rcases member with member | rfl | member
    · exact .inl (word (whole_digits.2 c member))
    · exact .inr rfl
    · exact .inl (word (fraction_digits.2 c member))
  · obtain ⟨nonempty, digits⟩ := fraction_digits
    rcases List.eq_nil_or_concat fraction with rfl | ⟨front, last, rfl⟩
    · exact absurd rfl nonempty
    · refine ⟨last, ?_, word (digits last (by simp))⟩
      rw [spelled, List.concat_eq_append, ← List.cons_append, ← List.append_assoc,
        List.getLast?_concat]
      rfl

/-- Something in front changes nothing at the end. -/
theorem ends_append {text : String} (bare : Bare text) (front : String) :
    ∃ c ∈ (front ++ text).toList.getLast?, isWordChar c = true := by
  obtain ⟨c, last, word⟩ := bare.ends
  refine ⟨c, ?_, word⟩
  rw [String.toList_append, List.getLast?_append, last]
  rfl

variable {text text' sign : String}

/-- A sign before an operand. -/
theorem signed (isSign : sign ∈ ["+", "-"]) (bare : Bare text)
    (starts : ∃ c ∈ text.toList.head?, isWordChar c = true) : Bare (sign ++ text) where
  plain := by
    rw [String.toList_append, List.forall_mem_append]
    refine ⟨?_, bare.plain⟩
    revert sign
    decide
  apart := by
    rw [String.toList_append]
    refine Apart.append ?_ bare.apart (.inr fun c member => ?_)
    · revert sign
      decide
    · obtain ⟨first, here, word⟩ := starts
      obtain rfl : first = c := Option.some.inj (here.symm.trans member)
      exact (quiet_of_word (.inl word)).1
  ends := bare.ends_append sign

/-- A sign between two parts, with blanks around it. -/
theorem joined (bare : Bare text) (isSign : PlainSign sign) (bare' : Bare text') :
    Bare (text ++ (" " ++ sign ++ " " ++ text')) where
  plain := by
    simp only [String.toList_append, List.forall_mem_append]
    exact ⟨bare.plain, ⟨⟨by decide, isSign.1⟩, by decide⟩, bare'.plain⟩
  apart := by
    have blank : Apart " ".toList := by decide
    simp only [String.toList_append]
    refine bare.apart.append (((blank.append isSign.2 ?_).append blank ?_).append bare'.apart ?_) ?_
    · exact .inl (by decide)
    · exact .inr (by decide)
    · exact .inl (by rw [List.getLast?_append]; simp [pairChars])
    · exact .inr (by simp [pairChars])
  ends := by
    rw [← String.append_assoc]
    exact bare'.ends_append _

end Bare

/-- Text around a part of a line: alone, and with the part left out, it is in order. -/
structure Frames (opening closing : String) : Prop where
  whole : '\n' ∉ opening.toList ∧ '\n' ∉ closing.toList
  closed : Mode.code.after opening.toList = .code ∧ Mode.code.after closing.toList = .code
  balanced : parens 0 (codeOf opening ++ codeOf closing) = some 0
  apart : Apart (codeOf opening) ∧ Apart (codeOf closing)
  quiet : ∀ c ∈ (codeOf opening).getLast?, c ∉ pairChars

instance (opening closing : String) : Decidable (Frames opening closing) :=
  decidable_of_iff (('\n' ∉ opening.toList ∧ '\n' ∉ closing.toList) ∧
      (Mode.code.after opening.toList = .code ∧ Mode.code.after closing.toList = .code) ∧
        parens 0 (codeOf opening ++ codeOf closing) = some 0 ∧
          (Apart (codeOf opening) ∧ Apart (codeOf closing)) ∧
            ∀ c ∈ (codeOf opening).getLast?, c ∉ pairChars)
    ⟨fun ⟨whole, closed, balanced, apart, quiet⟩ => ⟨whole, closed, balanced, apart, quiet⟩,
      fun ⟨whole, closed, balanced, apart, quiet⟩ => ⟨whole, closed, balanced, apart, quiet⟩⟩

section

variable {opening text closing : String} (bare : Bare text)

include bare

theorem Bare.not_mem {c : Char} (forbidden : c ∈ layoutChars) :
    c ∉ text.toList :=
  fun member => bare.plain c member forbidden

/-- The code of a line around a part. -/
theorem Bare.codeOf_around (frames : Frames opening closing) :
    codeOf (opening ++ text ++ closing) = codeOf opening ++ text.toList ++ codeOf closing := by
  obtain ⟨same, stays⟩ := Mode.outside_of_plain (bare.not_mem (by decide : '"' ∈ _))
  rw [codeOf, String.toList_append, String.toList_append, Mode.outside_append, Mode.outside_append,
    Mode.after_append, frames.closed.1, same, stays]
  rfl

/-- A part in text that is in order makes a line that is in order. -/
theorem Bare.tidy_around (frames : Frames opening closing) : Tidy (opening ++ text ++ closing) where
  whole := by
    rw [String.toList_append, String.toList_append, List.mem_append, List.mem_append]
    exact fun member => member.elim
      (fun member => member.elim frames.whole.1 (bare.not_mem (by decide))) frames.whole.2
  closed := by
    obtain ⟨-, stays⟩ := Mode.outside_of_plain (bare.not_mem (by decide : '"' ∈ _))
    rw [String.toList_append, String.toList_append, Mode.after_append, Mode.after_append,
      frames.closed.1, stays, frames.closed.2]
  balanced := by
    have inner (opened : Nat) : parens opened text.toList = some opened :=
      parens_of_not_mem opened (bare.not_mem (by decide)) (bare.not_mem (by decide))
    have outer := frames.balanced
    rw [parens_append] at outer
    rw [bare.codeOf_around frames, parens_append, parens_append]
    simpa only [inner, Option.bind_some, Option.bind_fun_some] using outer
  apart := by
    obtain ⟨last, here, word⟩ := bare.ends
    rw [bare.codeOf_around frames]
    refine (frames.apart.1.append bare.apart (.inl frames.quiet)).append frames.apart.2 (.inl ?_)
    rw [List.getLast?_append, here]
    intro c same
    obtain rfl : last = c := Option.some.inj same
    exact (quiet_of_word (.inl word)).1

/-- A part of arithmetic opens and closes no braces. -/
theorem Bare.braces_around (frames : Frames opening closing) :
    braces (codeOf (opening ++ text ++ closing)) =
      braces (codeOf opening) + braces (codeOf closing) := by
  have none : braces text.toList = 0 := by
    simp [braces, List.count_eq_zero_of_not_mem (bare.not_mem (by decide : '\x7b' ∈ _)),
      List.count_eq_zero_of_not_mem (bare.not_mem (by decide : '\x7d' ∈ _))]
  rw [bare.codeOf_around frames, braces_append, braces_append, none]
  omega

end

/-! ## Lists of lines -/

/-- The text of lines, each with its end. -/
def unlines (own : List String) : String :=
  String.join (own.map (· ++ "\n"))

theorem unlines_append (first second : List String) :
    unlines (first ++ second) = unlines first ++ unlines second := by
  simp [unlines]

theorem lines_unlines {own : List String} (tidy : ∀ line ∈ own, Tidy line) :
    lines (unlines own) = own := by
  induction own with
  | nil => rfl
  | cons line own ih =>
      obtain ⟨here, tidy⟩ := List.forall_mem_cons.mp tidy
      rw [unlines, List.map_cons, String.join_cons, lines_append_newline here.whole, ← unlines,
        ih tidy]

/-- Where every line ends outside of literals, so does every front of the text that ends with a
line. -/
theorem closed_unlines {own : List String} (tidy : ∀ line ∈ own, Tidy line)
    {front rest : List Char} (split : (unlines own).toList = front ++ '\n' :: rest) :
    Mode.code.after front = .code := by
  induction own generalizing front with
  | nil => simp [unlines] at split
  | cons line own ih =>
      obtain ⟨here, tidy⟩ := List.forall_mem_cons.mp tidy
      have spelled : (unlines (line :: own)).toList =
          line.toList ++ '\n' :: (unlines own).toList := by
        simp [unlines]
      rw [spelled] at split
      -- the front is the first line, or it ends with a later one
      rcases List.append_eq_append_iff.mp split with ⟨more, rfl, behind⟩ | ⟨more, within, behind⟩
      · cases more with
        | nil => rw [List.append_nil, here.closed]
        | cons c more =>
            obtain ⟨rfl, later⟩ := List.cons.inj behind
            rw [Mode.after_append, here.closed]
            show Mode.code.after more = .code
            exact ih tidy later
      · cases more with
        | nil =>
            rw [List.append_nil] at within
            rw [← within, here.closed]
        | cons c more =>
            obtain ⟨rfl, -⟩ := List.cons.inj behind
            exact absurd (within ▸ by simp) here.whole

/-- How many braces are open after lines. -/
def depth : List String → Int
  | [] => 0
  | line :: own => braces (codeOf line) + depth own

@[simp] theorem depth_nil : depth [] = 0 := rfl

@[simp] theorem depth_cons (line : String) (own : List String) :
    depth (line :: own) = braces (codeOf line) + depth own := rfl

@[simp] theorem depth_append (first second : List String) :
    depth (first ++ second) = depth first + depth second := by
  induction first with
  | nil => simp
  | cons line first ih => rw [List.cons_append, depth_cons, depth_cons, ih, Int.add_assoc]

/-- Lines in order that close every brace that they open, and no other. -/
structure Level (own : List String) : Prop where
  tidy : ∀ line ∈ own, Tidy line
  neutral : depth own = 0
  nonneg : ∀ count, 0 ≤ depth (own.take count)

namespace Level

variable {own own' : List String} {opening : String}

theorem nil : Level [] :=
  ⟨by simp, rfl, by simp⟩

/-- A line without braces. -/
theorem line {line : String} (tidy : Tidy line) (flat : braces (codeOf line) = 0) :
    Level [line] where
  tidy := by simpa using tidy
  neutral := by simpa using flat
  nonneg count := by cases count <;> simp [flat]

theorem append (level : Level own) (level' : Level own') : Level (own ++ own') where
  tidy := List.forall_mem_append.mpr ⟨level.tidy, level'.tidy⟩
  neutral := by rw [depth_append, level.neutral, level'.neutral]; rfl
  nonneg count := by
    have before := level.nonneg count
    have after := level'.nonneg (count - own.length)
    rw [List.take_append, depth_append]
    omega

/-- Between a line that opens a brace and the line that closes it, the brace is open. -/
theorem one_le_depth (opens : braces (codeOf opening) = 1) (level : Level own) {count : Nat}
    (within : count ≤ own.length) :
    1 ≤ depth ((opening :: (own ++ ["\x7d"])).take (count + 1)) := by
  have inside := level.nonneg count
  rw [List.take_succ_cons, depth_cons, List.take_append_of_le_length within, opens]
  omega

theorem depth_nested (opens : braces (codeOf opening) = 1) (level : Level own) :
    depth (opening :: (own ++ ["\x7d"])) = 0 := by
  have closes : braces (codeOf "\x7d") = -1 := by decide
  simp [opens, closes, level.neutral]

/-- Lines between a brace that opens and one that closes. -/
theorem nested (tidy : Tidy opening) (opens : braces (codeOf opening) = 1) (level : Level own) :
    Level (opening :: (own ++ ["\x7d"])) where
  tidy := by
    have closing : Tidy "\x7d" := by decide
    rw [List.forall_mem_cons, List.forall_mem_append]
    exact ⟨tidy, level.tidy, by simpa using closing⟩
  neutral := depth_nested opens level
  nonneg count := by
    cases count with
    | zero => simp
    | succ count =>
        by_cases within : count ≤ own.length
        · have inside := one_le_depth opens level within
          omega
        · have whole : (opening :: (own ++ ["\x7d"])).length ≤ count + 1 := by
            rw [List.length_cons, List.length_append, List.length_singleton]
            omega
          rw [List.take_of_length_le whole]
          exact Int.le_of_eq (depth_nested opens level).symm

end Level

/-- A text of whole lines that are level. -/
def IsLevel (text : String) : Prop :=
  ∃ own, text = unlines own ∧ Level own

namespace IsLevel

theorem empty : IsLevel "" :=
  ⟨[], rfl, .nil⟩

theorem append {text text' : String} (level : IsLevel text) (level' : IsLevel text') :
    IsLevel (text ++ text') := by
  obtain ⟨own, rfl, level⟩ := level
  obtain ⟨own', rfl, level'⟩ := level'
  exact ⟨own ++ own', (unlines_append own own').symm, level.append level'⟩

/-- One line, with its end. -/
theorem line {text : String} (line : String) (ended : line ++ "\n" = text) (tidy : Tidy line)
    (flat : braces (codeOf line) = 0) : IsLevel text :=
  ⟨[line], by rw [← ended]; simp [unlines], .line tidy flat⟩

/-- One line around a part. -/
theorem around {text ending : String} (opening closing : String) (bare : Bare text)
    (ended : closing ++ "\n" = ending) (frames : Frames opening closing)
    (flat : braces (codeOf opening) + braces (codeOf closing) = 0) :
    IsLevel (opening ++ text ++ ending) := by
  refine .line (opening ++ text ++ closing) ?_ (bare.tidy_around frames) ?_
  · rw [String.append_assoc, ended]
  · rw [bare.braces_around frames, flat]

/-- Lines between a brace that opens behind a part and one that closes. -/
theorem nested {text ending inner : String} (opening closing : String) (bare : Bare text)
    (ended : closing ++ "\n" = ending) (frames : Frames opening closing)
    (opens : braces (codeOf opening) + braces (codeOf closing) = 1) (level : IsLevel inner) :
    IsLevel (opening ++ text ++ ending ++ inner ++ "\x7d\n") := by
  obtain ⟨own, rfl, level⟩ := level
  refine ⟨_, ?_, .nested (bare.tidy_around frames) (by rw [bare.braces_around frames, opens]) level⟩
  have last : unlines ["\x7d"] = "\x7d\n" := by decide
  rw [← List.singleton_append, unlines_append, unlines_append, last, ← ended]
  simp [unlines, String.append_assoc]

end IsLevel

end TeenyTiny.C

namespace TeenyTiny

open C (Bare Frames IsLevel)
open Lexeme (Shaped)

/-! ## Statements -/

namespace Tree

theorem Primary.bare {primary : Primary} (shaped : Shaped primary.lexeme) : Bare primary.toC := by
  cases primary with
  | ident name => exact .name (isName_targetName shaped.1)
  | number text =>
      obtain ⟨whole, fraction, whole_digits, fraction_digits, spelled, -⟩ :=
        exists_digits_targetNumber text shaped
      exact .constant whole_digits fraction_digits spelled

theorem Unary.bare {unary : Unary} (shaped : ∀ lexeme ∈ unary.lexemes, Shaped lexeme) :
    Bare unary.toC := by
  have inside := shaped unary.primary.lexeme (by simp [Unary.lexemes])
  have primary := Primary.bare inside
  rcases unary with ⟨_ | sign, _⟩
  · simpa [Unary.toC] using primary
  · have isSign : sign.lexeme.2 ∈ ["+", "-"] := by cases sign <;> decide
    exact primary.signed isSign (Primary.head_toC inside)

/-- A chain of parts that are bare is bare. -/
theorem Chain.bare {Sign Part : Type} {sign : Sign → Lexeme} {lexemes : Part → List Lexeme}
    {text : Part → String} (signs : ∀ other, C.PlainSign (sign other).2)
    (parts : ∀ tree, (∀ lexeme ∈ lexemes tree, Shaped lexeme) → Bare (text tree))
    {chain : Chain Sign Part} (shaped : ∀ lexeme ∈ chain.lexemes sign lexemes, Shaped lexeme) :
    Bare (chain.toC sign text) := by
  rcases chain with ⟨first, others⟩
  simp only [Chain.lexemes, List.forall_mem_append] at shaped
  obtain ⟨firstShaped, shaped⟩ := shaped
  have start := parts first firstShaped
  simp only [Chain.toC]
  generalize text first = front at start ⊢
  induction others generalizing front with
  | nil => simpa using start
  | cons other others ih =>
      simp only [List.flatMap_cons, List.forall_mem_append, List.forall_mem_cons] at shaped
      rw [List.map_cons, String.join_cons, ← String.append_assoc]
      exact ih shaped.2 _ (start.joined (signs other.1) (parts other.2 shaped.1.2))

theorem Expression.bare {expression : Expression}
    (shaped : ∀ lexeme ∈ expression.lexemes, Shaped lexeme) : Bare expression.toC := by
  refine Chain.bare (fun sign => ?_) (fun term shaped => ?_) shaped
  · cases sign <;> decide
  · refine Chain.bare (fun sign => ?_) (fun unary shaped => Unary.bare shaped) shaped
    cases sign <;> decide

theorem Comparison.bare {comparison : Comparison}
    (shaped : ∀ lexeme ∈ comparison.lexemes, Shaped lexeme) : Bare comparison.toC := by
  have signs (sign : ComparisonSign) : C.PlainSign sign.lexeme.2 := by cases sign <;> decide
  simp only [Comparison.lexemes, List.forall_mem_append, List.forall_mem_cons] at shaped
  have others := Chain.bare signs (fun _ shaped => Expression.bare shaped) shaped.2.2
  have whole := (Expression.bare shaped.1).joined (signs comparison.sign) others
  simpa only [Comparison.toC, String.append_assoc] using whole

/-- The line that prints a string, whatever is in the string. -/
theorem isLevel_printText {text : String} (shaped : ∀ c ∈ text.toList, Lexeme.inString c = true) :
    IsLevel ("printf(\"" ++ text ++ "\\n\");\n") := by
  have inside : '\n' ∉ text.toList := fun member => by simpa [Lexeme.inString] using shaped _ member
  have plain : ∀ c ∈ text.toList, c ≠ '"' ∧ c ≠ '\\' := fun c member => by
    constructor <;> rintro rfl <;> simpa [Lexeme.inString] using shaped _ member
  obtain ⟨none, stays⟩ := C.Mode.outside_literal plain
  have opened : C.Mode.code.after "printf(\"".toList = .literal := by decide
  -- of the string nothing is left but the quotes
  have code : C.codeOf ("printf(\"" ++ text ++ "\\n\");") = "printf(\"\");".toList := by
    rw [C.codeOf, String.toList_append, String.toList_append, List.append_assoc,
      C.Mode.outside_append, opened, C.Mode.outside_append, none, stays, List.nil_append]
    decide
  refine .line ("printf(\"" ++ text ++ "\\n\");") (String.append_assoc ..) ?_ ?_
  · constructor
    case whole => simpa using inside
    case closed =>
      rw [String.toList_append, String.toList_append, C.Mode.after_append, C.Mode.after_append,
        opened, stays]
      decide
    case balanced =>
      rw [code]
      decide
    case apart =>
      rw [code]
      decide
  · rw [code]
    decide

/-- The lines that read a variable in. -/
theorem isLevel_inputLines {name : String} (bare : Bare name) :
    IsLevel (Place.inputLines name) := by
  have zero : Bare "0" := .word (by decide) ⟨'0', by decide, by decide⟩
  have reset : IsLevel (name ++ " = 0;\n") := by
    have line := IsLevel.around "" ";" (bare.joined (by decide : C.PlainSign "=") zero)
      (by decide : _ = ";\n") (by decide) (by decide)
    rwa [String.empty_append, String.append_assoc] at line
  have skip : IsLevel "scanf(\"%*[^\\n]\");\n" :=
    .line "scanf(\"%*[^\\n]\");" (by decide) (by decide) (by decide)
  have lines := IsLevel.nested "if(scanf(\"%f\", &" ") != 1) \x7b" bare
    (by decide : _ = ") != 1) \x7b\n") (by decide) (by decide) (reset.append skip)
  rwa [← String.append_assoc] at lines

mutual

/-- The lines of a statement are level. -/
theorem Statement.isLevel : ∀ statement : Statement,
    (∀ lexeme ∈ statement.lexemes, Shaped lexeme) → IsLevel statement.toC
  | .printText text, shaped => by
      have quoted : Shaped (.quoted, text) := Statement.partsShaped shaped
      exact isLevel_printText quoted
  | .print expression, shaped => by
      have inside : ∀ lexeme ∈ expression.lexemes, Shaped lexeme :=
        Statement.partsShaped shaped
      exact .around "printf(\"%.2f\\n\", (float)(" "));" (Expression.bare inside) (by decide)
        (by decide) (by decide)
  | .block block guard body, shaped => by
      obtain ⟨inside, bodyShaped⟩ := Statement.partsShaped shaped
      rw [Statement.toC_block]
      exact .nested block.opening ")\x7b" (Comparison.bare inside) (by decide)
        (by cases block <;> decide) (by cases block <;> decide) (body.isLevel bodyShaped)
  | .label name, shaped => by
      have word : Shaped (.ident, name) := Statement.partsShaped shaped
      have line := IsLevel.around "" ":;" (.name (isName_targetName word.1))
        (by decide : _ = ":;\n") (by decide) (by decide)
      rwa [String.empty_append] at line
  | .goto name, shaped => by
      have word : Shaped (.ident, name) := Statement.partsShaped shaped
      exact .around "goto " ";" (.name (isName_targetName word.1)) (by decide) (by decide)
        (by decide)
  | .assign name expression, shaped => by
      obtain ⟨word, inside⟩ := Statement.partsShaped shaped
      have both := (Bare.name (isName_targetName word.1)).joined (by decide : C.PlainSign "=")
        (Expression.bare inside)
      have line := IsLevel.around "" ";" both (by decide : _ = ";\n") (by decide) (by decide)
      rwa [String.empty_append, ← String.append_assoc] at line
  | .input name, shaped => by
      have word : Shaped (.ident, name) := Statement.partsShaped shaped
      rw [Statement.toC_input]
      exact isLevel_inputLines (.name (isName_targetName word.1))

theorem Statements.isLevel : ∀ statements : Statements,
    (∀ lexeme ∈ statements.lexemes, Shaped lexeme) → IsLevel statements.toC
  | .nil, _ => .empty
  | .cons first others, shaped => by
      rw [Statements.lexemes, List.forall_mem_append] at shaped
      exact (first.isLevel shaped.1).append (others.isLevel shaped.2)

end

/-! ## Programs -/

theorem isLevel_declarations {names : List String}
    (shaped : ∀ name ∈ names, Shaped (.ident, name)) :
    IsLevel (String.join (names.map declaration)) := by
  induction names with
  | nil => exact .empty
  | cons name names ih =>
      obtain ⟨here, shaped⟩ := List.forall_mem_cons.mp shaped
      have line : IsLevel (declaration name) :=
        .around "float " ";" (.name (isName_targetName here.1)) (by decide) (by decide) (by decide)
      rw [List.map_cons, String.join_cons]
      exact line.append (ih shaped)

/-- The lines of a program: the two of the opening, level lines, and one that closes. -/
theorem Statements.exists_lines {program : Statements}
    (shaped : ∀ lexeme ∈ program.lexemes, Shaped lexeme) :
    ∃ own, C.Level own ∧ program.header ++ program.body =
      C.unlines ("#include <stdio.h>" :: "int main(void)\x7b" :: (own ++ ["\x7d"])) := by
  have last : IsLevel "return 0;\n" := .line "return 0;" (by decide) (by decide) (by decide)
  obtain ⟨own, written, level⟩ :=
    (isLevel_declarations (shaped_targets shaped)).append ((program.isLevel shaped).append last)
  have opening : "#include <stdio.h>\nint main(void)\x7b\n" =
      C.unlines ["#include <stdio.h>", "int main(void)\x7b"] := by decide
  have ending : "return 0;\n\x7d\n" = "return 0;\n" ++ C.unlines ["\x7d"] := by decide
  have regroup (a b c d e : String) : a ++ b ++ (c ++ (d ++ e)) = a ++ (b ++ (c ++ d) ++ e) := by
    simp only [String.append_assoc]
  have spelled := congrArg₂ (fun first last =>
    first ++ String.join ((firstOccurrences [] program.targets).map declaration) ++
      (program.toC ++ last)) opening ending
  refine ⟨own, level, spelled.trans ?_⟩
  rw [regroup, written, ← C.unlines_append, ← C.unlines_append]
  rfl

end Tree

namespace C

/-- A program that a reader of C finds in order, who knows where literals start and end. -/
structure WellFormed (program : String) : Prop where
  /-- No line ends inside a literal. -/
  closed : ∀ front rest, program.toList = front ++ '\n' :: rest → Mode.code.after front = .code
  /-- The parentheses of every line are balanced. -/
  balanced : ∀ line ∈ lines program, parens 0 (codeOf line) = some 0
  /-- No line has the start of a comment or a mark made of two signs. -/
  clear : ∀ line ∈ lines program, ∀ pair ∈ ["//", "/*", "++", "--"],
    ¬ pair.toList <:+: codeOf line
  /-- The second line opens the body of the program. -/
  opened : (lines program)[1]? = some "int main(void)\x7b"
  /-- From the second line to the last but one, some brace is open after every line. -/
  inside : ∀ index, 1 ≤ index → index + 1 < (lines program).length →
    1 ≤ depth ((lines program).take (index + 1))
  /-- After the last line, none is. -/
  ended : depth (lines program) = 0

end C

/-- Every compiled program is well-formed text: literals end where they should, parentheses and
braces are balanced, and no comments or marks arise from what stands side by side. -/
theorem compile_wellFormed {source program : String} (compiled : compile source = .ok program) :
    C.WellFormed program := by
  obtain ⟨tree, has, rfl⟩ := exists_tree_of_compile compiled
  obtain ⟨own, level, written⟩ := Tree.Statements.exists_lines has.shaped
  have first : C.Tidy "#include <stdio.h>" := by decide
  have second : C.Tidy "int main(void)\x7b" := by decide
  have flat : C.braces (C.codeOf "#include <stdio.h>") = 0 := by decide
  have opens : C.braces (C.codeOf "int main(void)\x7b") = 1 := by decide
  have tidy := List.forall_mem_cons.mpr ⟨first, (level.nested second opens).tidy⟩
  have all := C.lines_unlines tidy
  rw [written]
  constructor
  case closed => exact fun front rest split => C.closed_unlines tidy split
  case balanced =>
    rw [all]
    exact fun line member => (tidy line member).balanced
  case clear =>
    rw [all]
    intro line member pair here
    exact (tidy line member).apart.absent _ (List.mem_map_of_mem here)
  case opened =>
    rw [all]
    rfl
  case inside =>
    rw [all]
    intro index later earlier
    obtain ⟨count, rfl⟩ := Nat.exists_eq_add_of_le' later
    have within : count ≤ own.length := by simp at earlier; omega
    rw [List.take_succ_cons, C.depth_cons, flat, Int.zero_add]
    exact level.one_le_depth opens within
  case ended =>
    rw [all, C.depth_cons, flat, level.depth_nested opens]
    rfl

/-- A program with a block, a signed operand, and a string that looks like a comment. -/
theorem compile_wellFormed_comment :
    let program := "#include <stdio.h>\nint main(void)\x7b\n" ++
      "while(1.0 > -2.0)\x7b\nprintf(\"(//\\n\");\n\x7d\nreturn 0;\n\x7d\n"
    compile "WHILE 1 > -2 REPEAT\nPRINT \"(//\"\nENDWHILE" = .ok program ∧
      C.WellFormed program := by
  intro program
  have supply : (Cursor.ofSource "WHILE 1 > -2 REPEAT\nPRINT \"(//\"\nENDWHILE").supply =
      ⟨[⟨.whileWord, "WHILE", 0⟩, ⟨.number, "1", 6⟩, ⟨.greater, ">", 8⟩, ⟨.minus, "-", 10⟩,
        ⟨.number, "2", 11⟩, ⟨.repeatWord, "REPEAT", 13⟩, ⟨.newline, "\n", 19⟩,
        ⟨.printWord, "PRINT", 20⟩, ⟨.quoted, "(//", 26⟩, ⟨.newline, "\n", 31⟩,
        ⟨.endwhileWord, "ENDWHILE", 32⟩, ⟨.newline, "\n", 40⟩], .ok ⟨.eof, "", 41⟩⟩ :=
    Cursor.supply_of_take (by rfl) (by decide) (by rintro _ ⟨⟩; rfl)
  have compiled : compile "WHILE 1 > -2 REPEAT\nPRINT \"(//\"\nENDWHILE" = .ok program := by
    rw [compile, Compilation.ofSource, Cursor.compile, supply]
    rfl
  exact ⟨compiled, compile_wellFormed compiled⟩

end TeenyTiny
