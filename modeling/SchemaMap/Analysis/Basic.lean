import SchemaMap.Inference.Basic
import SchemaMap.Resolution
import SchemaMap.Symbol.Table

/-!
# Analyses

An analysis holds what was found about a program so far: its symbols, its types,
and its faults.  The steps that add to it are given here.
-/

namespace SchemaMap

/-- What is known about the types of a program. -/
structure TypeInfo where
  /--
  The types of expressions by their spans; the last type noted at a span counts.
  -/
  expressions : Dictionary Span Ty := .empty
  /-- The values of the declared units. -/
  units : Dictionary String PhysicalUnit := .empty
  /-- The declared dimensions. -/
  dimensions : Dictionary String Unit := .empty

/-- What is found about a program. -/
structure Analysis where
  table : SymbolTable
  types : TypeInfo := {}
  faults : List Fault := []

namespace Analysis

/-- Whether nothing is wrong. -/
def isAccepted (analysis : Analysis) : Bool :=
  analysis.faults.isEmpty

/-- What is told about the faults, in the order in which they were found. -/
def diagnostics (analysis : Analysis) : List Diagnostic :=
  analysis.faults.map Fault.diagnostic

/-- The type of the expression at a span. -/
def expressionType? (analysis : Analysis) (span : Span) : Option Ty :=
  analysis.types.expressions.get? span

/-- The value of a declared unit. -/
def unit? (analysis : Analysis) (name : String) : Option PhysicalUnit :=
  analysis.types.units.get? name

/-- Report a fault. -/
def report (analysis : Analysis) (fault : Fault) : Analysis :=
  { analysis with faults := Fault.report analysis.faults fault }

/-- Report faults in order. -/
def reportAll (analysis : Analysis) (faults : List Fault) : Analysis :=
  faults.foldl report analysis

/-- Give a symbol another kind. -/
def setKind (analysis : Analysis) (id : Nat) (kind : Kind) : Analysis :=
  { analysis with table := analysis.table.setKind id kind }

/-- Open a scope. -/
def enter (analysis : Analysis) (kind : ScopeKind) : Analysis :=
  { analysis with table := analysis.table.enter kind }

/-- Close the current scope. -/
def exit (analysis : Analysis) : Analysis :=
  { analysis with table := analysis.table.exit }

/--
Define a variable in the current scope, or report that its name is taken there.
-/
def bindVariable (analysis : Analysis) (name : String) (type : Ty)
    (span : Span) : Analysis :=
  match analysis.table.define
    { name := name, kind := .binding type, span := span } with
  | .ok defined => { analysis with table := defined }
  | .error fault => analysis.report fault

/-- Note the type of the expression at a span. -/
def noteType (analysis : Analysis) (span : Span) (type : Ty) : Analysis :=
  { analysis with
    types :=
      { analysis.types with
        expressions := analysis.types.expressions.insert span type } }

/-- Note a declared dimension. -/
def noteDimension (analysis : Analysis) (name : String) : Analysis :=
  { analysis with
    types :=
      { analysis.types with
        dimensions := analysis.types.dimensions.insert name () } }

/-- Note the value of a unit, both among the units and with its symbol. -/
def noteUnit (analysis : Analysis) (id : Nat) (name : String)
    (unit : PhysicalUnit) : Analysis :=
  { analysis with
    table := analysis.table.setKind id (.unit (some unit))
    types :=
      { analysis.types with units := analysis.types.units.insert name unit } }

/-- Take over what an event says. -/
def follow (analysis : Analysis) : Event → Analysis
  | .typed span type => analysis.noteType span type
  | .entered => analysis.enter .lambda
  | .bound name type span => analysis.bindVariable name type span
  | .left => analysis.exit

/--
Take over what an inference left behind, and report its fault, at the fallback
position if it has none.
-/
def absorb (analysis : Analysis) (inference : Inference Unit)
    (fallback : Span) : Analysis :=
  let after := inference.trace.foldl follow analysis
  match inference.outcome with
  | .ok () => after
  | .error fault => after.report (fault.orAt fallback)

/-- What the names in type expressions stand for. -/
def names (analysis : Analysis) (units : UnitTable) : Names :=
  { kind := analysis.table.kind?
    unit := units.find }

/-- What the types of expressions in the current scope depend on. -/
def context (analysis : Analysis) (config : Config) (source : Option Ty) :
    Context :=
  { config := config
    kind := analysis.table.kind?
    source := source
    variableType := analysis.table.bindingType? }

end Analysis

end SchemaMap
