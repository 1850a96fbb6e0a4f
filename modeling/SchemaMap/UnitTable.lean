import SchemaMap.Declaration
import SchemaMap.Diagnostic.Problem
import SchemaMap.PhysicalUnit.Basic

/-!
# Evaluation of units

Units may be declared in any order and may refer to one another.  Each declared
unit is settled once, when it is first needed: either it has a value or it has a
fault, and later references get the same.  A unit that is needed while it is
being settled lies on a cycle.

While units are settled, the declarations that were not begun yet are handed
down, without the one in hand; that list grows shorter with every reference that
is followed, so the evaluation ends.
-/

namespace SchemaMap

/--
The outcome of every unit that is settled, in the order in which they were.
-/
abbrev UnitTable := List (String × Except Fault PhysicalUnit)

/--
The outcome of a unit that is settled; any other name is not declared as a unit.
-/
def UnitTable.find (table : UnitTable) (name : String) :
    Except Fault PhysicalUnit :=
  (table.lookup name).getD (.error ⟨.undeclaredUnit name, .unknown⟩)

/-- A unit, or the fault of an expression whose exponents leave the range. -/
def orOverflow (unit? : Option PhysicalUnit) (expression : String)
    (span : Span) :
    Except Fault PhysicalUnit :=
  match unit? with
  | some unit => .ok unit
  | none => .error ⟨.exponentOverflow expression, span⟩

/-- The value of a unit expression, given what its references stand for. -/
def UnitExpr.evaluate {m : Type → Type} [Monad m]
    (reference : String → ExceptT Fault m PhysicalUnit) :
    UnitExpr → ExceptT Fault m PhysicalUnit
  | .reference span name => (reference name).adapt (·.orAt span)
  | .product span left right => do
      let left ← left.evaluate reference
      let right ← right.evaluate reference
      ExceptT.mk
        (pure (orOverflow (left.multiply? right)
          (left.text ++ "*" ++ right.text) span))
  | .quotient span left right => do
      let left ← left.evaluate reference
      let right ← right.evaluate reference
      ExceptT.mk (pure
        (orOverflow (left.divide? right) (left.text ++ "/" ++ right.text) span))
  | .power span base exponent => do
      let base ← base.evaluate reference
      ExceptT.mk
        (pure (orOverflow (base.power? exponent)
          (base.text ++ "^" ++ toString exponent) span))
  | .one _ => pure .one

namespace UnitDeclaration

/-- Whether a number may be the scale of a unit. -/
def isScale (scale : Float) : Bool :=
  scale.isFinite && decide (0.0 < scale)

/-- The defined unit with the declared scale, under the declared name. -/
def finish (declaration : UnitDeclaration) (unit : PhysicalUnit) :
    Except Fault PhysicalUnit :=
  match declaration.scale with
  | none => .ok (unit.labelled declaration.name)
  | some scale =>
      if isScale scale then
        .ok ((unit.scaled scale).labelled declaration.name)
      else
        .error ⟨.invalidScale declaration.name scale, .unknown⟩

/--
The value of a declared unit, given the dimensions and what its references stand
for.
-/
def evaluate {m : Type → Type} [Monad m] (isDimension : String → Bool)
    (reference : String → ExceptT Fault m PhysicalUnit)
    (declaration : UnitDeclaration) : ExceptT Fault m PhysicalUnit := do
  let unit ←
    match declaration.definition, declaration.dimension with
    | some definition, _ => definition.evaluate reference
    | none, some dimension =>
        if isDimension dimension.value then
          pure (.base dimension.value)
        else
          throw ⟨.undeclaredDimension dimension.value, dimension.span⟩
    | none, none => pure .one
  ExceptT.mk (pure (declaration.finish unit))

end UnitDeclaration

namespace UnitTable

/--
The outcome of a reference to a unit.  `unbegun` holds the declarations that
were not begun yet, and `stack` the names of the units that are being settled,
the outermost first.
-/
def settle (isDimension : String → Bool) (unbegun : List UnitDeclaration)
    (stack : List String) (name : String) :
    ExceptT Fault (StateM UnitTable) PhysicalUnit := do
  match (← get).lookup name with
  | some outcome => ExceptT.mk (pure outcome)
  | none =>
      if name ∈ stack then
        throw ⟨.cyclicUnit (stack.dropWhile (· != name) ++ [name]), .unknown⟩
      else
        match found : unbegun.find?
          (fun declaration => declaration.name == name) with
        | none => throw ⟨.undeclaredUnit name, .unknown⟩
        | some declaration =>
            have : (without UnitDeclaration.name unbegun name).length <
                unbegun.length := length_without_lt found
            let evaluation :=
              declaration.evaluate isDimension
                (settle isDimension (without UnitDeclaration.name unbegun name)
                  (stack ++ [name]))
            let outcome ←
              ExceptT.lift (evaluation.adapt (·.orAt declaration.span)).run
            modify (· ++ [(name, outcome)])
            ExceptT.mk (pure outcome)
termination_by unbegun.length

/-- Settle one declared unit after those in the table. -/
def extend (isDimension : String → Bool) (declarations : List UnitDeclaration)
    (table : UnitTable) (declaration : UnitDeclaration) : UnitTable :=
  ((settle isDimension declarations [] declaration.name).run table).2

/-- The outcomes of all declared units. -/
def ofDeclarations (isDimension : String → Bool)
    (declarations : List UnitDeclaration) : UnitTable :=
  declarations.foldl (extend isDimension declarations) []

end UnitTable

end SchemaMap
