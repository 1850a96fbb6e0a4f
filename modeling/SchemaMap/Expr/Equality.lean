import SchemaMap.Expr.Basic

/-!
# Equality of expressions

Two expressions are the same when all their parts are, positions included.
Numbers with a point are compared as numbers: a value that is no number differs
from itself, and the two zeros are the same.
-/

namespace SchemaMap

mutual

/-- Whether two expressions are the same. -/
def Expr.same : Expr → Expr → Bool
  | .literal leftSpan left, .literal rightSpan right =>
      leftSpan == rightSpan && left == right
  | .path leftSpan leftRoot left, .path rightSpan rightRoot right =>
      leftSpan == rightSpan && leftRoot == rightRoot &&
        Segment.sameAll left right
  | .binary leftSpan leftFirst leftOperator leftSecond,
      .binary rightSpan rightFirst rightOperator rightSecond =>
      leftSpan == rightSpan && Expr.same leftFirst rightFirst &&
        leftOperator == rightOperator &&
        Expr.same leftSecond rightSecond
  | .unary leftSpan leftOperator left, .unary rightSpan rightOperator right =>
      leftSpan == rightSpan && leftOperator == rightOperator &&
        Expr.same left right
  | .conditional leftSpan leftCondition leftThen leftElse,
      .conditional rightSpan rightCondition rightThen rightElse =>
      leftSpan == rightSpan && Expr.same leftCondition rightCondition &&
        Expr.same leftThen rightThen &&
        Expr.same leftElse rightElse
  | .matching leftSpan leftSubject left,
      .matching rightSpan rightSubject right =>
      leftSpan == rightSpan && Expr.same leftSubject rightSubject &&
        Arm.sameAll left right
  | .lambda leftSpan leftParameters left,
      .lambda rightSpan rightParameters right =>
      leftSpan == rightSpan && leftParameters == rightParameters &&
        Expr.same left right
  | .aggregate leftSpan leftFunction left,
      .aggregate rightSpan rightFunction right =>
      leftSpan == rightSpan && leftFunction == rightFunction &&
        Expr.same left right
  |
    .aggregateWith leftSpan leftFunction left leftLambda leftParameters
      leftBody,
    .aggregateWith rightSpan rightFunction right rightLambda rightParameters
      rightBody =>
        leftSpan == rightSpan && leftFunction == rightFunction &&
          Expr.same left right &&
          leftLambda == rightLambda && leftParameters == rightParameters &&
          Expr.same leftBody rightBody
  | .lookup leftSpan leftTable left, .lookup rightSpan rightTable right =>
      leftSpan == rightSpan && leftTable == rightTable &&
        Expr.sameAll left right
  | _, _ => false
termination_by structural left => left

/-- Whether two lists of expressions are the same one by one. -/
def Expr.sameAll : List Expr → List Expr → Bool
  | [], [] => true
  | left :: lefts, right :: rights =>
      Expr.same left right && Expr.sameAll lefts rights
  | _, _ => false
termination_by structural lefts => lefts

/-- Whether two steps of a path are the same. -/
def Segment.same : Segment → Segment → Bool
  | .field leftSpan left leftOptional, .field rightSpan right rightOptional =>
      leftSpan == rightSpan && left == right && leftOptional == rightOptional
  | .index leftSpan left leftOptional, .index rightSpan right rightOptional =>
      leftSpan == rightSpan && Expr.same left right &&
        leftOptional == rightOptional
  | _, _ => false
termination_by structural left => left

/-- Whether two walks are the same step by step. -/
def Segment.sameAll : List Segment → List Segment → Bool
  | [], [] => true
  | left :: lefts, right :: rights =>
      Segment.same left right && Segment.sameAll lefts rights
  | _, _ => false
termination_by structural lefts => lefts

/-- Whether two arms are the same. -/
def Arm.same : Arm → Arm → Bool
  | .mk leftSpan leftPattern left, .mk rightSpan rightPattern right =>
      leftSpan == rightSpan && leftPattern == rightPattern &&
        Expr.same left right
termination_by structural left => left

/-- Whether two lists of arms are the same one by one. -/
def Arm.sameAll : List Arm → List Arm → Bool
  | [], [] => true
  | left :: lefts, right :: rights =>
      Arm.same left right && Arm.sameAll lefts rights
  | _, _ => false
termination_by structural lefts => lefts

end

instance : BEq Expr := ⟨Expr.same⟩

end SchemaMap
