import TeenyTiny.Proofs.CLexing

/-!
# Arithmetic in C

How C groups an arithmetic expression. A sign before an operand binds tightest, then multiplication
and division, then addition and subtraction, and operators of the same rank group to the left. The
tokens of an expression are parsed by these rules (`parse`), one reader for each rank: a reader of
left-grouped chains is made from the reader of their parts (`Reader.leftChain`).

Every reader leaves fewer tokens than it was given. This is part of what a reader is, and it is why
reading chains ends.

A constant is digits, a point and digits, and is taken for the rational number that it denotes
(`constant?`).
-/

set_option autoImplicit false

namespace TeenyTiny.C

/-! ## Constants -/

/-- The number that digits denote. -/
def natural (digits : List Char) : Nat :=
  digits.foldl (fun value digit => 10 * value + (digit.toNat - '0'.toNat)) 0

/-- The number with these digits before and after the point: what all of them denote, over the
power of ten that moves the point. -/
def decimal (whole fraction : List Char) : Rat :=
  mkRat (Int.ofNat (natural (whole ++ fraction))) (Nat.pow 10 fraction.length)

/-- The number that a text of the form digits, point, digits denotes. -/
def constant? (text : String) : Option Rat :=
  match text.toList.dropWhile Char.isDigit with
  | '.' :: fraction =>
      let whole := text.toList.takeWhile Char.isDigit
      if whole ≠ [] ∧ fraction ≠ [] ∧ fraction.all Char.isDigit = true then
        some (decimal whole fraction)
      else none
  | _ => none

theorem constant_eq_decimal {text : String} {whole fraction : List Char}
    (whole_digits : Lexeme.Digits whole) (fraction_digits : Lexeme.Digits fraction)
    (spelled : text.toList = whole ++ '.' :: fraction) :
    constant? text = some (decimal whole fraction) := by
  obtain ⟨front, back⟩ := Lexeme.span_digits whole_digits fraction
  rw [← spelled] at front back
  have all : fraction.all Char.isDigit = true := List.all_eq_true.mpr fraction_digits.2
  simp [constant?, front, back, whole_digits.1, fraction_digits.1, all]

/-- A number without a fraction is the number with the fraction zero. -/
theorem decimal_zero (whole : List Char) : decimal whole ['0'] = decimal whole [] := by
  have shift : natural (whole ++ ['0']) = 10 * natural whole := by
    simp only [natural, List.foldl_append, List.foldl_cons, List.foldl_nil, Nat.sub_self,
      Nat.add_zero]
  rw [decimal, decimal, shift, List.append_nil]
  exact Rat.mkRat_mul_left (n := Int.ofNat (natural whole)) (d := 1) (a := 10) (by decide)

/-! ## Expressions -/

/-- An arithmetic expression as C groups it. -/
inductive Arithmetic where
  | name (text : String)
  | constant (value : Rat)
  | signed (sign : String) (operand : Arithmetic)
  | binary (sign : String) (left right : Arithmetic)
  deriving DecidableEq

/-- Reads an expression from the front of a list of tokens, of which it leaves fewer. -/
structure Reader where
  read : List Token → Option (Arithmetic × List Token)
  shrinks : ∀ {tokens tree rest}, read tokens = some (tree, rest) → rest.length < tokens.length

/-- Reads an operand with any signs before it. -/
def readUnary : List Token → Option (Arithmetic × List Token)
  | .name text :: rest => some (.name text, rest)
  | .number text :: rest => (constant? text).map fun value => (.constant value, rest)
  | .mark sign :: rest =>
      if sign ∈ ["+", "-"] then
        (readUnary rest).map fun found => (.signed sign found.1, found.2)
      else none
  | _ => none

theorem length_lt_of_readUnary {tokens rest : List Token} {tree : Arithmetic}
    (found : readUnary tokens = some (tree, rest)) : rest.length < tokens.length := by
  fun_induction readUnary tokens generalizing tree rest with
  | case1 text tokens =>
      cases found
      exact Nat.lt_succ_self _
  | case2 text tokens =>
      obtain ⟨value, -, same⟩ := Option.map_eq_some_iff.mp found
      cases same
      exact Nat.lt_succ_self _
  | case3 sign tokens _ ih =>
      obtain ⟨⟨operand, others⟩, inner, same⟩ := Option.map_eq_some_iff.mp found
      cases same
      exact Nat.lt_succ_of_lt (ih inner)
  | case4 => cases found
  | case5 => cases found

/-- The reader of operands with signs. -/
def unary : Reader :=
  ⟨readUnary, length_lt_of_readUnary⟩

namespace Reader

/-- Goes on with a left operand that has been read, as long as one of the signs follows. -/
def goOn (part : Reader) (signs : List String) (left : Arithmetic) (tokens : List Token) :
    Option (Arithmetic × List Token) :=
  match tokens with
  | .mark sign :: rest =>
      if sign ∈ signs then
        match found : part.read rest with
        | some (right, others) =>
            have := part.shrinks found
            part.goOn signs (.binary sign left right) others
        | none => none
      else some (left, .mark sign :: rest)
  | tokens => some (left, tokens)
termination_by tokens.length

theorem length_le_of_goOn {part : Reader} {signs : List String} {left tree : Arithmetic}
    {tokens rest : List Token} (found : part.goOn signs left tokens = some (tree, rest)) :
    rest.length ≤ tokens.length := by
  fun_induction part.goOn signs left tokens with
  | case1 left sign tokens known right others here shorter ih =>
      have later := ih found
      simp only [List.length_cons]
      omega
  | case2 => cases found
  | case3 | case4 =>
      cases found
      exact Nat.le_refl _

/-- The reader of parts that are joined by signs and group to the left. -/
def leftChain (part : Reader) (signs : List String) : Reader where
  read tokens := (part.read tokens).bind fun found => part.goOn signs found.1 found.2
  shrinks found := by
    obtain ⟨⟨first, others⟩, here, later⟩ := Option.bind_eq_some_iff.mp found
    exact Nat.lt_of_le_of_lt (length_le_of_goOn later) (part.shrinks here)

/-! ## Chains -/

/-- Tokens that go on with none of these signs. -/
def Stops (signs : List String) (tokens : List Token) : Prop :=
  ∀ sign ∈ signs, tokens.head? ≠ some (.mark sign)

variable {part : Reader} {signs : List String}

theorem goOn_of_stops {rest : List Token} (stops : Stops signs rest) (left : Arithmetic) :
    part.goOn signs left rest = some (left, rest) := by
  fun_cases part.goOn signs left rest with
  | case1 sign tokens known | case2 sign tokens known => exact absurd rfl (stops sign known)
  | case3 | case4 => rfl

theorem goOn_of_read {sign : String} {tokens rest : List Token} {left right : Arithmetic}
    (known : sign ∈ signs) (found : part.read tokens = some (right, rest)) :
    part.goOn signs left (.mark sign :: tokens) =
      part.goOn signs (.binary sign left right) rest := by
  rw [goOn, if_pos known]
  split
  · next same =>
      cases found.symm.trans same
      rfl
  · next same => simp [found] at same

/-- Tokens that are read as a tree, wherever none of the signs follows that would go on with it. -/
def Reads (part : Reader) (signs : List String) (tokens : List Token) (tree : Arithmetic) : Prop :=
  ∀ rest, Stops signs rest → part.read (tokens ++ rest) = some (tree, rest)

/-- A sign, and the tokens and the tree of the part behind it. -/
structure Link where
  sign : String
  tokens : List Token
  tree : Arithmetic

/-- The tokens of links in order. -/
def Link.allTokens (links : List Link) : List Token :=
  links.flatMap fun link => .mark link.sign :: link.tokens

section

variable {tighter : List String} {links : List Link} {rest : List Token}
  (parts : ∀ link ∈ links, link.sign ∈ signs ∧ part.Reads tighter link.tokens link.tree)
  (looser : ∀ sign ∈ signs, sign ∉ tighter) (ends : Stops tighter rest)

include parts looser ends

/-- Behind each part of a chain stands a sign of the chain, or what follows the chain. -/
theorem stops_links : Stops tighter (Link.allTokens links ++ rest) := by
  cases links with
  | nil => exact ends
  | cons link links =>
      intro sign tight same
      obtain rfl : link.sign = sign := Token.mark.inj (Option.some.inj same)
      exact looser _ (parts link List.mem_cons_self).1 tight

/-- Going on with a chain groups it to the left. -/
theorem goOn_links (stops : Stops signs rest) (left : Arithmetic) :
    part.goOn signs left (Link.allTokens links ++ rest) =
      some (links.foldl (fun left link => .binary link.sign left link.tree) left, rest) := by
  induction links generalizing left with
  | nil => exact goOn_of_stops stops left
  | cons link links ih =>
      obtain ⟨⟨known, reads⟩, parts⟩ := List.forall_mem_cons.mp parts
      have found := reads _ (stops_links parts looser ends)
      have spelled : Link.allTokens (link :: links) ++ rest =
          .mark link.sign :: (link.tokens ++ (Link.allTokens links ++ rest)) := by
        simp [Link.allTokens]
      rw [spelled, goOn_of_read known found, ih parts, List.foldl_cons]

end

/-- A chain is read as a whole and groups to the left, if each of its parts is read where a sign of
the chain follows. -/
theorem Reads.leftChain {tighter : List String} {links : List Link} {tokens : List Token}
    {tree : Arithmetic} (first : part.Reads tighter tokens tree)
    (parts : ∀ link ∈ links, link.sign ∈ signs ∧ part.Reads tighter link.tokens link.tree)
    (looser : ∀ sign ∈ signs, sign ∉ tighter) :
    (part.leftChain signs).Reads (tighter ++ signs) (tokens ++ Link.allTokens links)
      (links.foldl (fun left link => .binary link.sign left link.tree) tree) := by
  intro rest stops
  have ends : Stops tighter rest := fun sign tight => stops sign (List.mem_append_left _ tight)
  have beyond : Stops signs rest := fun sign known => stops sign (List.mem_append_right _ known)
  rw [List.append_assoc]
  simp only [Reader.leftChain, first _ (stops_links parts looser ends), Option.bind_some]
  exact goOn_links parts looser ends beyond tree

end Reader

/-- The reader of products. -/
def multiplicative : Reader :=
  unary.leftChain ["*", "/"]

/-- The reader of sums. -/
def additive : Reader :=
  multiplicative.leftChain ["+", "-"]

/-- Parses tokens as one arithmetic expression. -/
def parse (tokens : List Token) : Option Arithmetic :=
  match additive.read tokens with
  | some (tree, []) => some tree
  | _ => none

/-- Tokens that are read as a sum are parsed as it. -/
theorem parse_of_reads {signs : List String} {tokens : List Token} {tree : Arithmetic}
    (reads : additive.Reads signs tokens tree) : parse tokens = some tree := by
  have whole := reads [] fun sign _ same => nomatch same
  rw [List.append_nil] at whole
  rw [parse, whole]

end TeenyTiny.C
