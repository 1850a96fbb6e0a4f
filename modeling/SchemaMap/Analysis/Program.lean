import SchemaMap.Analysis.Pipeline
import SchemaMap.Analysis.Transform
import SchemaMap.Registration
import SchemaMap.SchemaFields

/-!
# Analysis of programs

The analysis of a program registers its declarations, evaluates its units,
completes its enumerations, schemas and lookup tables, and checks its transforms
and pipelines, in this order.  It never stops at a fault: what is wrong is
reported and the rest is analysed.  A declaration whose name an earlier one has
taken is left out.
-/

namespace SchemaMap

/--
The declarations that own their names, each with the number of its symbol.
-/
def SymbolTable.ownedDeclarations (table : SymbolTable) (program : Program) :
    List (Nat × Declaration) :=
  program.zipIdx.filterMap fun entry =>
    (table.owned? entry.2 entry.1.name).map fun id => (id, entry.1)

namespace Analysis

/-- The names of the dimensions among some declarations. -/
def dimensionNames (owned : List (Nat × Declaration)) : List String :=
  owned.filterMap fun entry =>
    match entry.2 with
    | .dimension declaration => some declaration.name
    | _ => none

/-- The units among some declarations. -/
def unitsOf (owned : List (Nat × Declaration)) : List UnitDeclaration :=
  owned.filterMap fun entry =>
    match entry.2 with
    | .unit declaration => some declaration
    | _ => none

/-- The schemas among some declarations. -/
def schemasOf (owned : List (Nat × Declaration)) : List SchemaDeclaration :=
  owned.filterMap fun entry =>
    match entry.2 with
    | .schema declaration => some declaration
    | _ => none

/-- Note the value of a declared unit, or report its fault. -/
def completeUnit (units : UnitTable) (analysis : Analysis)
    (entry : Nat × Declaration) : Analysis :=
  match entry.2 with
  | .unit declaration =>
      match units.find declaration.name with
      | .ok unit => analysis.noteUnit entry.1 declaration.name unit
      | .error fault => analysis.report (fault.orAt declaration.span)
  | _ => analysis

/-- Note the distinct variants of an enumeration. -/
def completeEnum (analysis : Analysis) (entry : Nat × Declaration) : Analysis :=
  match entry.2 with
  | .enumeration declaration =>
      analysis.setKind entry.1
        (.enumeration (declaration.variants.map Located.value).eraseDups)
  | _ => analysis

/-- Note the fields of a schema. -/
def completeSchema (fields : SchemaFields) (analysis : Analysis)
    (entry : Nat × Declaration) : Analysis :=
  match entry.2 with
  | .schema declaration =>
      match fields.completed.lookup declaration.name with
      | some schema =>
          analysis.setKind entry.1
            (.schema schema (declaration.parent.map Located.value))
      | none => analysis
  | _ => analysis

/--
Note the types of a lookup table, or report the first that does not resolve.
-/
def completeLookup (units : UnitTable) (analysis : Analysis)
    (entry : Nat × Declaration) : Analysis :=
  match entry.2 with
  | .lookup declaration =>
      match (analysis.names units).lookup declaration with
      | .ok (keys, value) => analysis.setKind entry.1 (.lookup keys value)
      | .error fault => analysis.report (fault.orAt declaration.span)
  | _ => analysis

/-- Check a transform. -/
def completeTransform (config : Config) (units : UnitTable)
    (analysis : Analysis) (entry : Nat × Declaration) : Analysis :=
  match entry.2 with
  | .transform declaration =>
      analysis.checkTransform config units entry.1 declaration
  | _ => analysis

/-- Check a pipeline. -/
def completePipeline (config : Config) (analysis : Analysis)
    (entry : Nat × Declaration) : Analysis :=
  match entry.2 with
  | .pipeline declaration => analysis.checkPipeline config declaration
  | _ => analysis

/-- The outcomes of the units among the owned declarations. -/
def unitTable (table : SymbolTable) (owned : List (Nat × Declaration)) :
    UnitTable :=
  .ofDeclarations (fun name => (table.kind? name).any Kind.isDimension)
    (unitsOf owned)

/-- The analysis after the units. -/
def withUnits (units : UnitTable) (owned : List (Nat × Declaration))
    (start : Analysis) : Analysis :=
  owned.foldl (completeUnit units)
    ((dimensionNames owned).foldl noteDimension start)

/-- The analysis after the schemas. -/
def withSchemas (units : UnitTable) (owned : List (Nat × Declaration))
    (start : Analysis) : Analysis :=
  let enumerated := owned.foldl completeEnum start
  let fields :=
    SchemaFields.ofDeclarations (enumerated.names units) (schemasOf owned)
  (owned.foldl (completeSchema fields) enumerated).reportAll fields.faults

end Analysis

/-- What is found about a program. -/
def analyze (config : Config) (program : Program) : Analysis :=
  let (table, faults) := SymbolTable.empty.register program
  let owned := table.ownedDeclarations program
  let units := Analysis.unitTable table owned
  let evaluated :=
    Analysis.withUnits units owned { table := table, faults := faults }
  let completed := Analysis.withSchemas units owned evaluated
  let resolved := owned.foldl (Analysis.completeLookup units) completed
  let mapped := owned.foldl (Analysis.completeTransform config units) resolved
  owned.foldl (Analysis.completePipeline config) mapped

end SchemaMap
