import Mathlib.Tactic.Ring
import SchemaMap.PhysicalUnit.Basic
import SchemaMap.Proofs.Prelude

/-!
# Reading units

Units are written with products, quotients, powers and parentheses.  A reader
goes through such a text from left to right and adds up one exponent of the unit
that is written there, given the exponents of the names.  A power takes the
factor right before it, a quotient the factor right after it.

What is written is either a factor, which may stand anywhere, or a term, which
may stand at the start or behind a product (`IsFactor`, `IsTerm`).  A name is a
factor, a term in parentheses is one, and so is the power of a factor; products
and quotients are terms.  Since the reader has but one way to go through a text,
a text has the exponent of one term only (`IsTerm.unique`).
-/

namespace SchemaMap

/-- The marks that units are written with, apart from names and numbers. -/
def UnitReader.marks : List Char :=
  ['*', '/', '^', '(', ')']

/--
A name that is told apart from what stands around it in the text of a unit.
-/
structure IsUnitName (name : String) : Prop where
  unmarked : Text.mentions UnitReader.marks name = false
  apart : name ≠ "1"

instance (name : String) : Decidable (IsUnitName name) :=
  decidable_of_iff (Text.mentions UnitReader.marks name = false ∧ name ≠ "1")
    ⟨fun ⟨unmarked, apart⟩ => ⟨unmarked, apart⟩,
      fun named => ⟨named.unmarked, named.apart⟩⟩

/-- The factor in hand. -/
inductive UnitReader.Part where
  /-- A name or the number one, as far as it is read. -/
  | word (letters : List Char)
  /-- A term in parentheses, by its exponent. -/
  | group (exponent : Int)
  /--
  The power of a factor, with the digits of the power as far as they are read.
  -/
  | raised (base : Int) (digits : List Char)

/--
The state of a reader: the exponent of what is read before the factor in hand,
the sign of this factor, and the same two for each of the open parentheses, the
innermost first.
-/
structure UnitReader where
  outer : List (Int × Int) := []
  total : Int := 0
  sign : Int := 1
  part : UnitReader.Part := .word []

namespace UnitReader

/-- The factor with one more letter. -/
def Part.extended (letter : Char) : Part → Part
  | .word letters => .word (letters ++ [letter])
  | .group exponent => .group exponent
  | .raised base digits => .raised base (digits ++ [letter])

/--
The whole number that is written in decimal digits, possibly behind a minus
sign.
-/
def numberOf : List Char → Int
  | '-' :: digits => -(Nat.ofDigitChars 10 digits 0 : Int)
  | digits => (Nat.ofDigitChars 10 digits 0 : Int)

variable (measure : String → Int)

/-- The exponent of the factor in hand. -/
def Part.exponent : Part → Int
  | .word letters =>
      if String.ofList letters = "1" then 0 else measure (String.ofList letters)
  | .group exponent => exponent
  | .raised base digits => numberOf digits * base

/-- The exponent of what is read since the last open parenthesis. -/
def sum (reader : UnitReader) : Int :=
  reader.total + reader.sign * reader.part.exponent measure

/-- Go on to the next factor. -/
def next (reader : UnitReader) (sign : Int) : UnitReader :=
  { outer := reader.outer, total := reader.sum measure, sign := sign }

/-- Open a parenthesis. -/
def opened (reader : UnitReader) : UnitReader :=
  { outer := (reader.total, reader.sign) :: reader.outer }

/--
Close the innermost parenthesis: what is read since then is the factor in hand.
-/
def closed (reader : UnitReader) : UnitReader :=
  match reader.outer with
  | [] => reader
  | (total, sign) :: outer =>
      { outer := outer, total := total, sign := sign,
        part := .group (reader.sum measure) }

/-- Read one character. -/
def step (reader : UnitReader) : Char → UnitReader
  | '*' => reader.next measure 1
  | '/' => reader.next measure (-1)
  | '^' => { reader with part := .raised (reader.part.exponent measure) [] }
  | '(' => reader.opened
  | ')' => reader.closed measure
  | letter => { reader with part := reader.part.extended letter }

variable {measure}

/-! ## Words -/

/-- A letter that is no mark extends the part that is read. -/
theorem step_of_not_mem {letter : Char} (plain : letter ∉ marks)
    (reader : UnitReader) :
    step measure reader letter =
      { reader with part := reader.part.extended letter } := by
  simp only [marks, List.mem_cons, List.not_mem_nil, not_or] at plain
  rcases plain with ⟨product, quotient, power, opening, closing, -⟩
  unfold step
  split <;> first | contradiction | rfl

/-- A text without marks goes into the factor in hand. -/
theorem scan_of_mentions_eq_false {text : String}
    (plain : Text.mentions marks text = false) (reader : UnitReader) :
    Text.scan (step measure) text reader =
      { reader with
        part :=
          text.toList.foldl (fun part letter => part.extended letter)
            reader.part } := by
  refine Text.scan_eq_of_forall_mem (fun part => { reader with part := part })
    ?_ reader.part
  intro letter member part
  exact step_of_not_mem (Text.mentions_eq_false_iff.mp plain letter member) _

/-! ## Whole numbers -/

theorem isDigit_of_mem_repr {number : Nat} {letter : Char}
    (member : letter ∈ number.repr.toList) :
    letter.isDigit = true := by
  rw [Nat.toList_repr] at member
  exact Nat.isDigit_of_mem_toDigits (by decide) (by decide) member

/-- The text of a whole number has no marks. -/
theorem mentions_toString_eq_false (number : Int) :
    Text.mentions marks (toString number) = false := by
  have digits
      (number : Nat) : ∀ letter ∈ number.repr.toList, letter ∉ marks := by
    intro letter member listed
    have noDigit : marks.all (fun mark => !mark.isDigit) = true := by decide
    have marked := List.all_eq_true.mp noDigit letter listed
    rw [isDigit_of_mem_repr member] at marked
    contradiction
  rw [Int.toString_eq_repr, Int.repr_eq_if, Text.mentions_eq_false_iff]
  split
  · exact digits _
  · rw [String.toList_append, List.forall_mem_append]
    exact ⟨List.forall_mem_singleton.mpr (by decide), digits _⟩

/-- The text of a whole number is read as this number. -/
theorem numberOf_toString (number : Int) :
    numberOf (toString number).toList = number := by
  rw [Int.toString_eq_repr, Int.repr_eq_if]
  split
  · next natural =>
      have unsigned : ∀ digits, number.toNat.repr.toList ≠ '-' :: digits := by
        intro digits signed
        have isDigit : ('-').isDigit = true :=
          isDigit_of_mem_repr
            (signed ▸ List.mem_cons_self : '-' ∈ number.toNat.repr.toList)
        contradiction
      rw [numberOf.eq_2 _ unsigned, Nat.toList_repr,
        Nat.ofDigitChars_ten_toDigits]
      exact Int.toNat_of_nonneg natural
  · next negative =>
      have signed : ("-" ++ (-number).toNat.repr).toList =
          '-' :: (-number).toNat.repr.toList := by
        rw [String.toList_append]
        rfl
      rw [signed, numberOf, Nat.toList_repr, Nat.ofDigitChars_ten_toDigits]
      omega

/-! ## Factors and terms -/

variable (measure) in
/--
Wherever a factor may stand, the reader takes the text for one with the given
exponent.
-/
def IsFactor (text : String) (exponent : Int) : Prop :=
  ∀ before : UnitReader, before.part = .word [] →
    ∃ part : Part,
      Text.scan (step measure) text before = { before with part := part } ∧
        part.exponent measure = exponent

variable (measure) in
/--
At the start and behind a product, the reader adds the given exponent when it
reads the text.
-/
def IsTerm (text : String) (exponent : Int) : Prop :=
  ∀ before : UnitReader, before.part = .word [] → before.sign = 1 →
    (Text.scan (step measure) text before).outer = before.outer ∧
      (Text.scan (step measure) text before).sum measure =
        before.total + exponent

variable {first second text name : String} {left right exponent : Int}

theorem IsFactor.isTerm (factor : IsFactor measure text exponent) :
    IsTerm measure text exponent := by
  intro before blank positive
  rcases factor before blank with ⟨part, after, known⟩
  rw [after, sum, known, positive, Int.one_mul]
  exact ⟨rfl, rfl⟩

/-- A name is read as a factor with the exponent that it has. -/
theorem isFactor_name (named : IsUnitName name) :
    IsFactor measure name (measure name) := by
  intro before blank
  refine ⟨.word name.toList, ?_, ?_⟩
  · rw [scan_of_mentions_eq_false named.unmarked, blank,
      foldl_eq_of_concat Part.word fun _ _ => rfl, List.nil_append]
  · rw [Part.exponent, String.ofList_toList, if_neg named.apart]

theorem isFactor_one : IsFactor measure "1" 0 := by
  intro before blank
  refine ⟨.word ['1'], ?_, by rw [Part.exponent, if_pos rfl]⟩
  rw [scan_of_mentions_eq_false rfl, blank]
  rfl

/-- The power of a factor is a factor. -/
theorem IsFactor.power (base : IsFactor measure text exponent) (power : Int) :
    IsFactor measure (text ++ "^" ++ toString power) (power * exponent) := by
  intro before blank
  rcases base before blank with ⟨part, after, known⟩
  refine ⟨.raised exponent (toString power).toList, ?_, ?_⟩
  · have mark : Text.scan (step measure) "^" { before with part := part } =
        { before with part := .raised exponent [] } := by
      rw [← known]
      rfl
    rw [Text.scan_append, Text.scan_append, after, mark,
      scan_of_mentions_eq_false (mentions_toString_eq_false power),
      foldl_eq_of_concat (Part.raised exponent) fun _ _ => rfl, List.nil_append]
  · rw [Part.exponent, numberOf_toString]

/-- A term in parentheses is a factor. -/
theorem IsTerm.grouped (term : IsTerm measure text exponent) :
    IsFactor measure ("(" ++ text ++ ")") exponent := by
  intro before blank
  have inner := term before.opened rfl rfl
  refine ⟨.group exponent, ?_, rfl⟩
  have closing : Text.scan (step measure) ")"
      (Text.scan (step measure) text before.opened) =
        { before with part := .group exponent } := by
    show (Text.scan (step measure) text before.opened).closed measure = _
    rw [closed, inner.1, inner.2]
    simp only [opened, Int.zero_add]
  rw [Text.scan_append, Text.scan_append, ← closing]
  rfl

/-- Exponents add up in a product. -/
theorem IsTerm.product (leftTerm : IsTerm measure first left)
    (rightTerm : IsTerm measure second right) :
    IsTerm measure (first ++ "*" ++ second) (left + right) := by
  intro before blank positive
  rcases leftTerm before blank positive with ⟨outside, added⟩
  rw [Text.scan_append, Text.scan_append]
  rcases rightTerm ((Text.scan (step measure) first before).next measure 1) rfl
    rfl with ⟨stillOutside, bothAdded⟩
  refine ⟨stillOutside.trans outside, bothAdded.trans ?_⟩
  rw [next, added, Int.add_assoc]

/-- Exponents are subtracted in a quotient. -/
theorem IsTerm.quotient (leftTerm : IsTerm measure first left)
    (rightFactor : IsFactor measure second right) :
    IsTerm measure (first ++ "/" ++ second) (left - right) := by
  intro before blank positive
  rcases leftTerm before blank positive with ⟨outside, added⟩
  -- Behind the slash the sign is negative, which a factor allows and a term
  -- does not.
  rcases rightFactor ((Text.scan (step measure) first before).next measure (-1))
    rfl with ⟨part, after, known⟩
  have whole : Text.scan (step measure) (first ++ "/" ++ second) before =
      { (Text.scan (step measure) first before).next measure (-1) with
        part := part } := by
    rw [Text.scan_append, Text.scan_append, ← after]
    rfl
  rw [whole]
  refine ⟨outside, ?_⟩
  rw [sum, known, next, added]
  ring

/-- A text has the exponent of one term only. -/
theorem IsTerm.unique (leftTerm : IsTerm measure text left)
    (rightTerm : IsTerm measure text right) : left = right := by
  have leftSum := (leftTerm {} rfl rfl).2
  have rightSum := (rightTerm {} rfl rfl).2
  exact Int.add_left_cancel (leftSum.symm.trans rightSum)

end UnitReader

end SchemaMap
