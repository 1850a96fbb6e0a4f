import SchemaMap.Declaration

/-!
# The positions in a program

The spans of all nodes of a program: of declarations, of what they declare and
of the names that they refer to, and of type, unit and other expressions with
all their parts.
-/

namespace SchemaMap

/-- The spans of a unit expression and of its parts. -/
def UnitExpr.positions : UnitExpr → List Span
  | .reference span _ => [span]
  | .product span left right => span :: (left.positions ++ right.positions)
  | .quotient span left right => span :: (left.positions ++ right.positions)
  | .power span base _ => span :: base.positions
  | .one span => [span]

mutual

/-- The spans of a type expression and of its parts. -/
def TypeExpr.positions : TypeExpr → List Span
  | .primitive span _ => [span]
  | .schemaName span _ => [span]
  | .enumName span _ => [span]
  | .array span element => span :: element.positions
  | .optional span inner => span :: inner.positions
  | .quantity span unit => span :: unit.positions
  | .tuple span items => span :: TypeExpr.positionsOfAll items
  | .union span members => span :: TypeExpr.positionsOfAll members
  | .generic span _ arguments => span :: TypeExpr.positionsOfAll arguments
termination_by structural expression => expression

def TypeExpr.positionsOfAll : List TypeExpr → List Span
  | [] => []
  | expression :: rest => expression.positions ++ TypeExpr.positionsOfAll rest
termination_by structural expressions => expressions

end

mutual

/--
The spans of an expression and of its parts: the steps of paths, the arms and
patterns of a `match`, lambdas with their parameters, and the names of lookup
tables.
-/
def Expr.positions : Expr → List Span
  | .literal span _ => [span]
  | .path span _ segments => span :: Segment.positionsOfAll segments
  | .binary span left _ right => span :: (left.positions ++ right.positions)
  | .unary span _ operand => span :: operand.positions
  | .conditional span condition thenBranch elseBranch =>
      span ::
        (condition.positions ++ (thenBranch.positions ++ elseBranch.positions))
  | .matching span subject arms =>
      span :: (subject.positions ++ Arm.positionsOfAll arms)
  | .lambda span parameters body =>
      span :: (parameters.map Located.span ++ body.positions)
  | .aggregate span _ source => span :: source.positions
  | .aggregateWith span _ source lambdaSpan parameters body =>
      span ::
        (source.positions ++ lambdaSpan ::
          (parameters.map Located.span ++ body.positions))
  | .lookup span table keys => span :: table.span :: Expr.positionsOfAll keys
termination_by structural expression => expression

def Segment.positionsOfAll : List Segment → List Span
  | [] => []
  | .field span _ _ :: rest => span :: Segment.positionsOfAll rest
  | .index span position _ :: rest =>
      span :: (position.positions ++ Segment.positionsOfAll rest)
termination_by structural segments => segments

def Arm.positionsOfAll : List Arm → List Span
  | [] => []
  | .mk span pattern body :: rest =>
      span :: pattern.span :: (body.positions ++ Arm.positionsOfAll rest)
termination_by structural arms => arms

def Expr.positionsOfAll : List Expr → List Span
  | [] => []
  | expression :: rest => expression.positions ++ Expr.positionsOfAll rest
termination_by structural expressions => expressions

end

def SchemaDeclaration.positions (declaration : SchemaDeclaration) : List Span :=
  declaration.span :: (declaration.parent.toList.map Located.span ++
    declaration.fields.flatMap fun field => field.span :: field.type.positions)

def EnumDeclaration.positions (declaration : EnumDeclaration) : List Span :=
  declaration.span :: declaration.variants.map Located.span

def UnitDeclaration.positions (declaration : UnitDeclaration) : List Span :=
  declaration.span :: (declaration.dimension.toList.map Located.span ++
    declaration.definition.toList.flatMap UnitExpr.positions)

def LookupDeclaration.positions (declaration : LookupDeclaration) : List Span :=
  declaration.span ::
    (TypeExpr.positionsOfAll declaration.keys ++ declaration.value.positions)

def Rule.positions (rule : Rule) : List Span :=
  rule.span :: (rule.target.map Located.span ++ rule.value.positions)

def TransformDeclaration.positions (declaration : TransformDeclaration) :
    List Span :=
  declaration.span ::
    (TypeExpr.positionsOfAll (declaration.sources.map SourceDeclaration.type) ++
    (declaration.target.positions ++ declaration.rules.flatMap Rule.positions))

def PipelineDeclaration.positions (declaration : PipelineDeclaration) :
    List Span :=
  declaration.span :: declaration.steps.map Located.span

/-- The spans of a declaration and of its parts. -/
def Declaration.positions : Declaration → List Span
  | .schema declaration => declaration.positions
  | .enumeration declaration => declaration.positions
  | .dimension declaration => [declaration.span]
  | .unit declaration => declaration.positions
  | .lookup declaration => declaration.positions
  | .transform declaration => declaration.positions
  | .pipeline declaration => declaration.positions

/-- The spans of all nodes of a program. -/
def Program.positions (program : Program) : List Span :=
  program.flatMap Declaration.positions

/-! ## The whole among its parts -/

/-- The position of a type expression is one of its positions. -/
theorem TypeExpr.span_mem_positions (expression : TypeExpr) :
    expression.span ∈ expression.positions := by
  cases expression <;> exact List.mem_cons_self

/-- The position of an expression is one of its positions. -/
theorem Expr.span_mem_positions (expression : Expr) :
    expression.span ∈ expression.positions := by
  cases expression <;> exact List.mem_cons_self

/-- The position of a declaration is one of its positions. -/
theorem Declaration.span_mem_positions (declaration : Declaration) :
    declaration.span ∈ declaration.positions := by
  cases declaration <;> exact List.mem_cons_self

theorem TypeExpr.positionsOfAll_eq_flatMap (expressions : List TypeExpr) :
    positionsOfAll expressions = expressions.flatMap positions := by
  induction expressions with
  | nil => rfl
  | cons expression rest ih => rw [positionsOfAll, ih, List.flatMap_cons]

theorem Expr.positionsOfAll_eq_flatMap (expressions : List Expr) :
    positionsOfAll expressions = expressions.flatMap positions := by
  induction expressions with
  | nil => rfl
  | cons expression rest ih => rw [positionsOfAll, ih, List.flatMap_cons]

end SchemaMap
