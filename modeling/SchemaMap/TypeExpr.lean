import SchemaMap.Text
import SchemaMap.UnitExpr
import SchemaMap.Vocabulary.Primitive

/-!
# Type expressions

Types as they are written in a program.  A name is either marked as a schema or
as an enumeration; the mark is a spelling and does not decide what the name
stands for.
-/

namespace SchemaMap

/-- A type as it is written, with the position of every part. -/
inductive TypeExpr where
  | primitive (span : Span) (base : Primitive)
  | schemaName (span : Span) (name : String)
  | enumName (span : Span) (name : String)
  | array (span : Span) (element : TypeExpr)
  | optional (span : Span) (inner : TypeExpr)
  | quantity (span : Span) (unit : UnitExpr)
  | tuple (span : Span) (items : List TypeExpr)
  | union (span : Span) (members : List TypeExpr)
  | generic (span : Span) (name : String) (arguments : List TypeExpr)

namespace TypeExpr

/-- The position of the whole expression. -/
def span : TypeExpr → Span
  | .primitive span _ => span
  | .schemaName span _ => span
  | .enumName span _ => span
  | .array span _ => span
  | .optional span _ => span
  | .quantity span _ => span
  | .tuple span _ => span
  | .union span _ => span
  | .generic span _ _ => span

/-- The same expression at another position. -/
def moved (target : Span) : TypeExpr → TypeExpr
  | .primitive _ base => .primitive target base
  | .schemaName _ name => .schemaName target name
  | .enumName _ name => .enumName target name
  | .array _ element => .array target element
  | .optional _ inner => .optional target inner
  | .quantity _ unit => .quantity target unit
  | .tuple _ items => .tuple target items
  | .union _ members => .union target members
  | .generic _ name arguments => .generic target name arguments

/-- A bare name: a primitive type if it spells one, otherwise a schema. -/
def named (name : String) : TypeExpr :=
  match Primitive.ofText? name with
  | some base => .primitive .unknown base
  | none => .schemaName .unknown name

/-- Whether the expression is a primitive type. -/
def isPrimitive : TypeExpr → Bool
  | .primitive _ _ => true
  | _ => false

mutual

/-- The expression as text. -/
def text : TypeExpr → String
  | .primitive _ base => base.text
  | .schemaName _ name => name
  | .enumName _ name => name
  | .array _ element => "[" ++ text element ++ "]"
  | .optional _ inner => text inner ++ "?"
  | .quantity _ unit => "Quantity<" ++ unit.text ++ ">"
  | .tuple _ items => "(" ++ Text.join ", " (texts items) ++ ")"
  | .union _ members => Text.join " | " (texts members)
  | .generic _ name arguments =>
      name ++ "<" ++ Text.join ", " (texts arguments) ++ ">"
termination_by structural type => type

/-- The expressions of a list, each as text. -/
def texts : List TypeExpr → List String
  | [] => []
  | type :: rest => text type :: texts rest
termination_by structural types => types

end

mutual

/-- Whether two expressions are the same, positions included. -/
def same : TypeExpr → TypeExpr → Bool
  | .primitive leftSpan left, .primitive rightSpan right =>
      leftSpan == rightSpan && left == right
  | .schemaName leftSpan left, .schemaName rightSpan right =>
      leftSpan == rightSpan && left == right
  | .enumName leftSpan left, .enumName rightSpan right =>
      leftSpan == rightSpan && left == right
  | .array leftSpan left, .array rightSpan right =>
      leftSpan == rightSpan && same left right
  | .optional leftSpan left, .optional rightSpan right =>
      leftSpan == rightSpan && same left right
  | .quantity leftSpan left, .quantity rightSpan right =>
      leftSpan == rightSpan && left == right
  | .tuple leftSpan left, .tuple rightSpan right =>
      leftSpan == rightSpan && sameAll left right
  | .union leftSpan left, .union rightSpan right =>
      leftSpan == rightSpan && sameAll left right
  | .generic leftSpan leftName left, .generic rightSpan rightName right =>
      leftSpan == rightSpan && leftName == rightName && sameAll left right
  | _, _ => false
termination_by structural left => left

/-- Whether two lists of expressions are the same one by one. -/
def sameAll : List TypeExpr → List TypeExpr → Bool
  | [], [] => true
  | left :: lefts, right :: rights => same left right && sameAll lefts rights
  | _, _ => false
termination_by structural lefts => lefts

end

instance : BEq TypeExpr := ⟨same⟩

end TypeExpr

end SchemaMap
