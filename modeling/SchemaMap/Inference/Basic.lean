import SchemaMap.Inference.Context

/-!
# Inference

The type of an expression in a context.  Parts are inferred before the whole,
from left to right, and the type of every part that has one is noted under its
span.
-/

namespace SchemaMap

/--
Where a walk stands: the type it reached, and whether it entered an optional
value on the way.
-/
structure Walk where
  type : Ty
  chained : Bool := false

namespace Walk

/-- Before a step with a question mark a missing value is left aside. -/
def enter (walk : Walk) (optional : Bool) : Walk :=
  if optional then { type := walk.type.present, chained := true } else walk

/-- The type of the whole path. -/
def result (walk : Walk) : Ty :=
  if walk.chained then walk.type.optionalOf else walk.type

end Walk

namespace Context

mutual

/-- The type of an expression. -/
def infer (context : Context) : Expr → Inference Ty
  | .literal span value => Inference.recorded span (pure (literalType value))
  | .path span root segments =>
      Inference.recorded span do
        let start ← Inference.ofExcept (context.rootType root span)
        let walk ← inferSegments context { type := start } segments
        return walk.result
  | .binary span left operator right =>
      Inference.recorded span do
        let leftType ← infer context left
        let rightType ← infer context right
        Inference.ofExcept (binaryType operator leftType rightType span)
  | .unary span operator operand =>
      Inference.recorded span do
        let type ← infer context operand
        return unaryType operator type
  | .conditional span condition thenBranch elseBranch =>
      Inference.recorded span do
        let _ ← infer context condition
        let thenType ← infer context thenBranch
        let elseType ← infer context elseBranch
        return thenType.join elseType
  | .matching span subject arms =>
      Inference.recorded span do
        let subjectType ← infer context subject
        let types ← inferArms context subjectType arms
        return Ty.joinAll types
  | .lambda span parameters body =>
      let typed := parameters.map fun parameter => (parameter, Ty.unknown)
      let inner :=
        context.withVariables (typed.map fun entry => (entry.1.value, entry.2))
      Inference.recorded span do
        let type ← Inference.inScope do
          Inference.bindAll [] typed
          infer inner body
        return .function (typed.map Prod.snd) type
  | .aggregate span function source =>
      Inference.recorded span do
        let sourceType ← infer context source
        let element ←
          Inference.ofExcept (aggregateElement function sourceType source.span)
        return aggregateType function sourceType element
  | .aggregateWith span function source lambdaSpan parameters body =>
      Inference.recorded span do
        let sourceType ← infer context source
        let element ←
          Inference.ofExcept (aggregateElement function sourceType source.span)
        match parameters with
        | [parameter] => do
            let inner := context.withVariables [(parameter.value, element)]
            let type ← Inference.inScope do
              Inference.bindAll [] [(parameter, element)]
              infer inner body
            Inference.emit (.typed lambdaSpan (.function [element] type))
            return aggregateType function sourceType type
        | _ =>
            Inference.fail
              (.aggregateLambdaArity function.text parameters.length) lambdaSpan
  | .lookup span table keys =>
      Inference.recorded span do
        match (context.kind table.value).bind Kind.lookup? with
        | none => Inference.fail (.lookupNotFound table.value) table.span
        | some (expected, value) => do
            let found ← inferAll context keys
            if context.config.strictLookupKeys then
              Inference.ofExcept
                (context.checkLookup table expected found (keys.map Expr.span))
            return value
termination_by structural expression => expression

/-- The end of a walk through the steps of a path. -/
def inferSegments (context : Context) (walk : Walk) :
    List Segment → Inference Walk
  | [] => pure walk
  | .field span name optional :: rest => do
      let before := walk.enter optional
      let type ← Inference.ofExcept (context.fieldType before.type name span)
      inferSegments context { before with type := type } rest
  | .index span position optional :: rest => do
      let before := walk.enter optional
      let _ ← infer context position
      let type ← Inference.ofExcept (elementType before.type span)
      inferSegments context { before with type := type } rest
termination_by structural segments => segments

/-- The types of the arms of a `match`. -/
def inferArms (context : Context) (subject : Ty) :
    List Arm → Inference (List Ty)
  | [] => pure []
  | .mk _ pattern body :: rest => do
      Inference.ofExcept (context.checkPattern subject pattern)
      let type ← infer context body
      let types ← inferArms context subject rest
      return type :: types
termination_by structural arms => arms

/-- The types of some expressions. -/
def inferAll (context : Context) : List Expr → Inference (List Ty)
  | [] => pure []
  | expression :: rest => do
      let type ← infer context expression
      let types ← inferAll context rest
      return type :: types
termination_by structural expressions => expressions

end

/--
A rule fits its target: the value's type is accepted by the field that the rule
names.
-/
def checkRule (context : Context) (target : Ty) (rule : Rule) :
    Inference Unit := do
  let expected ← Inference.ofExcept (context.walk target rule.target)
  let found ← context.infer rule.value
  if context.accepts found expected then
    return ()
  else
    Inference.fail (.typeMismatch rule.targetText expected.text found.text)
      rule.value.span

end Context

end SchemaMap
