import SchemaMap.Span
import SchemaMap.Vocabulary.Aggregate
import SchemaMap.Vocabulary.Operator

/-!
# Expressions

The values of mapping rules as they are written.  A path starts at the source of
the transform or at a name and walks through fields and elements; a step with a
question mark enters an optional value.
-/

namespace SchemaMap

/-- A constant. -/
inductive Literal where
  | int (value : Int)
  | float (value : Float)
  | string (value : String)
  | bool (value : Bool)
  | null
deriving BEq, Repr

/-- Where a path starts. -/
inductive PathRoot where
  /-- The source of the transform, written `$`. -/
  | source
  /-- A named source or the parameter of a lambda. -/
  | named (name : String)
deriving DecidableEq, Repr

/-- What an arm of a `match` accepts. -/
inductive Pattern where
  | wildcard (span : Span)
  | literal (span : Span) (value : Literal)
  /-- A variant, with the name of its enumeration if that is written. -/
  | variant (span : Span) (owner : Option String) (choice : String)
deriving BEq, Repr

mutual

/-- An expression, with the position of every part. -/
inductive Expr where
  | literal (span : Span) (value : Literal)
  | path (span : Span) (root : PathRoot) (segments : List Segment)
  | binary (span : Span) (left : Expr) (operator : Operator) (right : Expr)
  | unary (span : Span) (operator : UnaryOperator) (operand : Expr)
  | conditional (span : Span) (condition thenBranch elseBranch : Expr)
  | matching (span : Span) (subject : Expr) (arms : List Arm)
  | lambda (span : Span) (parameters : List (Located String)) (body : Expr)
  /-- An aggregate over the elements themselves. -/
  | aggregate (span : Span) (function : Aggregate) (source : Expr)
  /-- An aggregate over the values of a lambda at the elements. -/
  | aggregateWith (span : Span) (function : Aggregate) (source : Expr)
      (lambdaSpan : Span) (parameters : List (Located String)) (body : Expr)
  | lookup (span : Span) (table : Located String) (keys : List Expr)

/-- A step of a path. -/
inductive Segment where
  | field (span : Span) (name : String) (optional : Bool)
  | index (span : Span) (index : Expr) (optional : Bool)

/-- An arm of a `match`. -/
inductive Arm where
  | mk (span : Span) (pattern : Pattern) (body : Expr)

end

namespace Pattern

/-- The position of a pattern. -/
def span : Pattern → Span
  | .wildcard span => span
  | .literal span _ => span
  | .variant span _ _ => span

/-- The same pattern at another position. -/
def moved (target : Span) : Pattern → Pattern
  | .wildcard _ => .wildcard target
  | .literal _ value => .literal target value
  | .variant _ owner choice => .variant target owner choice

end Pattern

namespace Segment

/-- Whether the step enters an optional value. -/
def isOptional : Segment → Bool
  | .field _ _ optional => optional
  | .index _ _ optional => optional

/-- The name of a field; an index has none. -/
def name? : Segment → Option String
  | .field _ name _ => some name
  | .index _ _ _ => none

end Segment

namespace Expr

/-- The position of the whole expression. -/
def span : Expr → Span
  | .literal span _ => span
  | .path span _ _ => span
  | .binary span _ _ _ => span
  | .unary span _ _ => span
  | .conditional span _ _ _ => span
  | .matching span _ _ => span
  | .lambda span _ _ => span
  | .aggregate span _ _ => span
  | .aggregateWith span _ _ _ _ _ => span
  | .lookup span _ _ => span

/-- The same expression at another position. -/
def moved (target : Span) : Expr → Expr
  | .literal _ value => .literal target value
  | .path _ root segments => .path target root segments
  | .binary _ left operator right => .binary target left operator right
  | .unary _ operator operand => .unary target operator operand
  | .conditional _ condition thenBranch elseBranch =>
      .conditional target condition thenBranch elseBranch
  | .matching _ subject arms => .matching target subject arms
  | .lambda _ parameters body => .lambda target parameters body
  | .aggregate _ function source => .aggregate target function source
  | .aggregateWith _ function source lambdaSpan parameters body =>
      .aggregateWith target function source lambdaSpan parameters body
  | .lookup _ table keys => .lookup target table keys

end Expr

/-- A function of some parameters, apart from the expression it is part of. -/
structure Lambda where
  parameters : List (Located String)
  body : Expr
  span : Span := .unknown

/-- An aggregate with or without a lambda. -/
def Expr.aggregateOf (span : Span) (function : Aggregate) (source : Expr) :
    Option Lambda → Expr
  | none => .aggregate span function source
  | some given =>
      .aggregateWith span function source given.span given.parameters given.body

end SchemaMap
