import SchemaMap.Span

/-!
# Unit expressions

Units as they are written in a program: names of declared units, products,
quotients and powers.
-/

namespace SchemaMap

/-- A unit as it is written, with the position of every part. -/
inductive UnitExpr where
  | reference (span : Span) (name : String)
  | product (span : Span) (left right : UnitExpr)
  | quotient (span : Span) (left right : UnitExpr)
  | power (span : Span) (base : UnitExpr) (exponent : Int)
  | one (span : Span)
deriving DecidableEq, Repr

namespace UnitExpr

/-- The position of the whole expression. -/
def span : UnitExpr → Span
  | .reference span _ => span
  | .product span _ _ => span
  | .quotient span _ _ => span
  | .power span _ _ => span
  | .one span => span

/-- The same expression at another position. -/
def moved (target : Span) : UnitExpr → UnitExpr
  | .reference _ name => .reference target name
  | .product _ left right => .product target left right
  | .quotient _ left right => .quotient target left right
  | .power _ base exponent => .power target base exponent
  | .one _ => .one target

/-- The expression as text; a composed divisor stands in parentheses. -/
def text : UnitExpr → String
  | .reference _ name => name
  | .product _ left right => left.text ++ "*" ++ right.text
  | .quotient _ left right =>
      match right with
      | .product .. | .quotient .. => left.text ++ "/(" ++ right.text ++ ")"
      | _ => left.text ++ "/" ++ right.text
  | .power _ base exponent => base.text ++ "^" ++ toString exponent
  | .one _ => "1"

end UnitExpr

end SchemaMap
