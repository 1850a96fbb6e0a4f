import SchemaMap.Declaration
import SchemaMap.Expr.Path

/-!
# Trees without positions

Programs that are composed rather than read have no positions.  A tree built
here has none, and neither have the trees it is directly built from; positions
further inside are kept.
-/

namespace SchemaMap.Builder

/-- Why a tree cannot be built. -/
inductive Refusal where
  | notBinary (token : String)
  | notAggregate (name : String)
deriving DecidableEq, Repr

/-- The text of a refusal. -/
def Refusal.message : Refusal → String
  | .notBinary token => "not an infix operator: " ++ token
  | .notAggregate name => "not an aggregate: " ++ name

/-- A value without a position. -/
def bare (value : String) : Located String := ⟨value, .unknown⟩

/-! ## Declarations -/

/-- Fields of a schema by name and type. -/
def fields (entries : List (String × TypeExpr)) : List FieldDeclaration :=
  entries.map fun entry => { name := entry.1, type := entry.2.moved .unknown }

def schema (name : String) (entries : List (String × TypeExpr)) : Declaration :=
  .schema { name := name, fields := fields entries }

def extending (name parent : String) (entries : List (String × TypeExpr)) :
    Declaration :=
  .schema
    { name := name, parent := some (bare parent), fields := fields entries }

def genericSchema (name : String) (parameters : List String)
    (entries : List (String × TypeExpr)) :
    Declaration :=
  .schema { name := name, parameters := parameters, fields := fields entries }

def enumeration (name : String) (variants : List String) : Declaration :=
  .enumeration { name := name, variants := variants.map bare }

def dimension (name : String) : Declaration :=
  .dimension { name := name }

/-- The base unit of a dimension. -/
def baseUnit (name dimension : String) : Declaration :=
  .unit { name := name, dimension := some (bare dimension) }

/-- A unit with neither dimension nor definition. -/
def plainUnit (name : String) : Declaration :=
  .unit { name := name }

/-- A unit defined by an expression. -/
def derivedUnit (name : String) (scale : Option Float) (definition : UnitExpr) :
    Declaration :=
  .unit { name := name, definition := some (definition.moved .unknown),
          scale := scale }

def lookup (name : String) (keys : List TypeExpr) (value : TypeExpr) :
    Declaration :=
  .lookup { name := name, keys := keys.map (·.moved .unknown),
            value := value.moved .unknown }

/-- Rules at no position of their own. -/
def rules (entries : List Rule) : List Rule :=
  entries.map fun rule => { rule with span := .unknown }

/-- A transform of one source, which only `$` names. -/
def transform (name : String) (source target : TypeExpr) (entries : List Rule) :
    Declaration :=
  .transform
    { name := name
      sources := [{ type := source.moved .unknown }]
      target := target.moved .unknown
      rules := rules entries }

/-- A transform of several named sources. -/
def transformOfMany (name : String) (sources : List (String × TypeExpr))
    (target : TypeExpr) (entries : List Rule) : Declaration :=
  .transform
    { name := name
      sources :=
        sources.map fun source =>
          { name := some source.1, type := source.2.moved .unknown }
      target := target.moved .unknown
      rules := rules entries }

/-- A rule whose target is written with points between the names. -/
def rule (target : String) (value : Expr) : Rule :=
  { target := (Text.split '.' target).map bare, value := value.moved .unknown }

def pipeline (name : String) (steps : List String) : Declaration :=
  .pipeline { name := name, steps := steps.map bare }

/-! ## Types and units -/

def primitive (base : Primitive) : TypeExpr :=
  .primitive .unknown base

def schemaName (name : String) : TypeExpr :=
  .schemaName .unknown name

def enumName (name : String) : TypeExpr :=
  .enumName .unknown name

def array (element : TypeExpr) : TypeExpr :=
  .array .unknown (element.moved .unknown)

def optional (inner : TypeExpr) : TypeExpr :=
  .optional .unknown (inner.moved .unknown)

def tuple (items : List TypeExpr) : TypeExpr :=
  .tuple .unknown (items.map (·.moved .unknown))

def union (members : List TypeExpr) : TypeExpr :=
  .union .unknown (members.map (·.moved .unknown))

def generic (name : String) (arguments : List TypeExpr) : TypeExpr :=
  .generic .unknown name (arguments.map (·.moved .unknown))

def quantity (unit : UnitExpr) : TypeExpr :=
  .quantity .unknown (unit.moved .unknown)

def unitName (name : String) : UnitExpr :=
  .reference .unknown name

def unitProduct (left right : UnitExpr) : UnitExpr :=
  .product .unknown (left.moved .unknown) (right.moved .unknown)

def unitQuotient (left right : UnitExpr) : UnitExpr :=
  .quotient .unknown (left.moved .unknown) (right.moved .unknown)

def unitPower (base : UnitExpr) (exponent : Int) : UnitExpr :=
  .power .unknown (base.moved .unknown) exponent

def unitOne : UnitExpr :=
  .one .unknown

/-! ## Expressions -/

def literal (value : Literal) : Expr :=
  .literal .unknown value

/-- The path that a text stands for. -/
def path (text : String) : Expr :=
  .path .unknown (Path.read text).1 (Path.read text).2

/-- A path with an index after it; any other expression stays as it is. -/
def index (base position : Expr) : Expr :=
  match base with
  | .path _ root segments =>
      .path .unknown root
        (segments ++ [.index .unknown (position.moved .unknown) false])
  | other => other.moved .unknown

/-- Two operands with the operator that a token spells. -/
def binary (left : Expr) (token : String) (right : Expr) :
    Except Refusal Expr :=
  match Operator.binaryOfText? token with
  | some operator =>
      .ok
        (.binary .unknown (left.moved .unknown) operator (right.moved .unknown))
  | none => .error (.notBinary token)

def unary (operator : UnaryOperator) (operand : Expr) : Expr :=
  .unary .unknown operator (operand.moved .unknown)

def conditional (condition thenBranch elseBranch : Expr) : Expr :=
  .conditional .unknown (condition.moved .unknown) (thenBranch.moved .unknown)
    (elseBranch.moved .unknown)

def matching (subject : Expr) (arms : List (Pattern × Expr)) : Expr :=
  .matching .unknown (subject.moved .unknown)
    (arms.map fun arm =>
      .mk .unknown (arm.1.moved .unknown) (arm.2.moved .unknown))

def lambda (parameters : List String) (body : Expr) : Lambda :=
  { parameters := parameters.map bare, body := body.moved .unknown }

/--
The aggregate that a name stands for, over a source and possibly a lambda.
-/
def aggregate (name : String) (source : Expr) (lambda : Option Lambda) :
    Except Refusal Expr :=
  match Aggregate.ofText? name with
  | some function =>
      .ok (.aggregateOf .unknown function (source.moved .unknown)
        (lambda.map fun lambda => { lambda with span := .unknown }))
  | none => .error (.notAggregate name)

def lookupCall (table : String) (keys : List Expr) : Expr :=
  .lookup .unknown (bare table) (keys.map (·.moved .unknown))

end SchemaMap.Builder
