import SchemaMap.PhysicalUnit.Dimensions

/-!
# Physical units

A physical unit has dimensions, a scale relative to the base units of its
dimensions, and possibly a label.  Products, quotients and powers combine the
dimensions, the scales and the labels of their operands; they fail when an
exponent is not representable.  Two units agree when their dimensions do: scale
and label do not count.
-/

namespace SchemaMap

/-- A unit in which quantities are given. -/
structure PhysicalUnit where
  label : Option String
  dimensions : Dimensions
  scale : Float

namespace PhysicalUnit

/-- The unit of a pure number. -/
def one : PhysicalUnit := ⟨none, .none, 1.0⟩

/-- The base unit of a dimension. -/
def base (dimension : String) : PhysicalUnit := ⟨none, .base dimension, 1.0⟩

/--
The unit with the given exponents, added up where a dimension is repeated.
-/
def ofExponents? (exponents : List (String × Int)) (scale : Float) :
    Option PhysicalUnit :=
  (Dimensions.ofList? exponents).map
    (fun dimensions => ⟨none, dimensions, scale⟩)

/-- The same unit under a label. -/
def labelled (unit : PhysicalUnit) (label : String) : PhysicalUnit :=
  { unit with label := some label }

/-- A unit larger by a factor. -/
def scaled (unit : PhysicalUnit) (factor : Float) : PhysicalUnit :=
  { unit with scale := unit.scale * factor }

/-- The exponent of a dimension. -/
def exponent (unit : PhysicalUnit) (dimension : String) : Int :=
  unit.dimensions.exponent dimension

/-- Whether the unit has no dimension. -/
def isDimensionless (unit : PhysicalUnit) : Bool :=
  unit.dimensions.entries.isEmpty

/-- Whether two units have the same dimensions. -/
def agrees (left right : PhysicalUnit) : Bool :=
  left.dimensions = right.dimensions

/-- The dimensions as text, whatever the label. -/
def signature (unit : PhysicalUnit) : String :=
  unit.dimensions.text

/-- The label, or the dimensions of a unit without one. -/
def text (unit : PhysicalUnit) : String :=
  unit.label.getD unit.signature

/--
The text of a unit inside a larger one, in parentheses when it is itself
composed.
-/
def operandText (unit : PhysicalUnit) : String :=
  if Text.mentions ['*', '/', '^'] unit.text then
    "(" ++ unit.text ++ ")"
  else
    unit.text

/--
Multiply `result` by the power of a scale, by repeated squaring from the lowest
bit on.
-/
def accumulatePower (scale result : Float) (exponent : Nat) : Float :=
  let next := if exponent % 2 = 1 then result * scale else result
  if exponent / 2 = 0 then
    next
  else
    accumulatePower (scale * scale) next (exponent / 2)
termination_by exponent

/-- The power of a scale; a negative exponent inverts the positive power. -/
def scalePower (scale : Float) (exponent : Int) : Float :=
  let power := accumulatePower scale 1.0 exponent.natAbs
  if exponent < 0 then 1.0 / power else power

/-- The product of two units. -/
def multiply? (left right : PhysicalUnit) : Option PhysicalUnit :=
  (left.dimensions.add? right.dimensions).map fun dimensions =>
    { label := some (left.operandText ++ "*" ++ right.operandText)
      dimensions := dimensions
      scale := left.scale * right.scale }

/-- The quotient of two units. -/
def divide? (left right : PhysicalUnit) : Option PhysicalUnit :=
  (left.dimensions.sub? right.dimensions).map fun dimensions =>
    { label := some (left.operandText ++ "/" ++ right.operandText)
      dimensions := dimensions
      scale := left.scale / right.scale }

/-- The power of a unit; the power zero is the unit of a pure number. -/
def power? (unit : PhysicalUnit) (exponent : Int) : Option PhysicalUnit :=
  if exponent = 0 then
    some one
  else
    (unit.dimensions.smul? exponent).map fun dimensions =>
      { label := some (unit.operandText ++ "^" ++ toString exponent)
        dimensions := dimensions
        scale := scalePower unit.scale exponent }

end PhysicalUnit

end SchemaMap
