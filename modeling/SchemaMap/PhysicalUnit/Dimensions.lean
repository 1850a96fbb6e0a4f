import SchemaMap.Dictionary
import SchemaMap.Text

/-!
# Dimensions

The dimensions of a unit are a vector of exponents, one for each named
dimension.  Exponents are integers of 32 bits, and a dimension with exponent
zero is left out, so equal vectors have equal representations.

Every operation is built from `shift?`, which adds an integer to one exponent
and fails when the sum leaves the range.
-/

namespace SchemaMap

/-- The integers that an exponent can be. -/
def Representable (exponent : Int) : Prop :=
  -2147483648 ≤ exponent ∧ exponent ≤ 2147483647

instance : DecidablePred Representable :=
  fun exponent =>
    inferInstanceAs (Decidable (-2147483648 ≤ exponent ∧ exponent ≤ 2147483647))

/-- A vector of exponents, without the dimensions whose exponent is zero. -/
structure Dimensions where
  exponents : Dictionary String Int
  stored : ∀ entry ∈ exponents.entries, entry.2 ≠ 0 ∧ Representable entry.2
deriving DecidableEq

namespace Dimensions

/-- The vector of a pure number. -/
def none : Dimensions := ⟨.empty, by simp [Dictionary.empty]⟩

/-- The pairs of dimension and exponent, in the order of the names. -/
def entries (dimensions : Dimensions) : List (String × Int) :=
  dimensions.exponents.entries

/-- The exponent of a dimension. -/
def exponent (dimensions : Dimensions) (name : String) : Int :=
  (dimensions.exponents.get? name).getD 0

/-- The vector with one exponent changed. -/
def set (dimensions : Dimensions) (name : String) (value : Int)
    (representable : Representable value) :
    Dimensions :=
  if zero : value = 0 then
    { exponents := dimensions.exponents.erase name
      stored := fun entry member =>
        dimensions.stored entry (List.mem_filter.mp member).1 }
  else
    { exponents := dimensions.exponents.insert name value
      stored := by
        intro entry member
        rcases Ascending.mem_insert member with same | old
        · subst same
          exact ⟨zero, representable⟩
        · exact dimensions.stored entry old }

/--
The vector with an integer added to one exponent, if the sum is representable.
-/
def shift? (dimensions : Dimensions) (name : String) (amount : Int) :
    Option Dimensions :=
  if representable : Representable (dimensions.exponent name + amount) then
    some (dimensions.set name (dimensions.exponent name + amount) representable)
  else
    Option.none

/-- The vector of a single dimension. -/
def base (name : String) : Dimensions :=
  none.set name 1 (by decide)

/-- The totals of the exponents in a list, added up from the left. -/
def ofList? (pairs : List (String × Int)) : Option Dimensions :=
  pairs.foldlM (fun dimensions pair => dimensions.shift? pair.1 pair.2) none

/-- The sum of two vectors. -/
def add? (left right : Dimensions) : Option Dimensions :=
  right.entries.foldlM (fun dimensions pair => dimensions.shift? pair.1 pair.2)
    left

/--
The difference of two vectors; the exponents that are taken away must have a
representable negative.
-/
def sub? (left right : Dimensions) : Option Dimensions :=
  right.entries.foldlM
    (fun dimensions pair =>
      if Representable (-pair.2) then
        dimensions.shift? pair.1 (-pair.2)
      else
        Option.none)
    left

/-- The multiple of a vector. -/
def smul? (factor : Int) (dimensions : Dimensions) : Option Dimensions :=
  dimensions.entries.foldlM
    (fun multiple pair => multiple.shift? pair.1 (pair.2 * factor))
    none

/-- The vector as a product of powers, in the order of the names. -/
def text (dimensions : Dimensions) : String :=
  if dimensions.entries.isEmpty then
    "1"
  else
    Text.join "*"
      (dimensions.entries.map fun pair =>
        if pair.2 = 1 then pair.1 else pair.1 ++ "^" ++ toString pair.2)

end Dimensions

end SchemaMap
