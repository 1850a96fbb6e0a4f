import SchemaMap.Proofs.Analysis.Transform
import SchemaMap.Proofs.SchemaFields

/-!
# What there is to find about a program

What the names of a program stand for, `Program.kind?`, and what is wrong with
it, `Program.faults`, as functions of the declarations.  Neither goes through a
table that phases fill one after the other: each declaration is looked at by
itself, with what the names in it stand for.
-/

namespace SchemaMap

namespace Declaration

/--
What a declaration stands for in type expressions: a schema with its parameters,
an enumeration with its variants, and of the rest no more than what it is.
-/
def head : Declaration → Kind
  | .schema declaration =>
      .schema { name := declaration.name, parameters := declaration.parameters }
        (declaration.parent.map Located.value)
  | .enumeration declaration =>
      .enumeration (declaration.variants.map Located.value).eraseDups
  | .dimension _ => .dimension
  | .unit _ => .unit none
  | .lookup declaration =>
      .lookup (declaration.keys.map fun _ => .unknown) .unknown
  | .transform declaration =>
      .transform
        { sources := declaration.sources.map fun source =>
          (source.name, .unknown)
          target := .unknown }
  | .pipeline declaration => .pipeline (declaration.steps.map Located.value)

def unit? : Declaration → Option UnitDeclaration
  | .unit declaration => some declaration
  | _ => none

def schema? : Declaration → Option SchemaDeclaration
  | .schema declaration => some declaration
  | _ => none

theorem unit?_eq_some_iff {declaration : Declaration}
    {content : UnitDeclaration} :
    declaration.unit? = some content ↔ declaration = .unit content := by
  cases declaration <;> simp [unit?]

theorem schema?_eq_some_iff {declaration : Declaration}
    {content : SchemaDeclaration} :
    declaration.schema? = some content ↔ declaration = .schema content := by
  cases declaration <;> simp [schema?]

def dimensionName? : Declaration → Option String
  | .dimension declaration => some declaration.name
  | _ => none

end Declaration

namespace Program

/-- Whether a name belongs to a dimension. -/
def isDimension (program : Program) (name : String) : Bool :=
  ((program.owner? name).map Declaration.placeholder).any Kind.isDimension

/-- The outcomes of the declared units. -/
def units (program : Program) : UnitTable :=
  .ofDeclarations program.isDimension
    (program.owners.filterMap Declaration.unit?)

/-- What the names in type expressions stand for. -/
def names (program : Program) : Names :=
  { kind := fun name => (program.owner? name).map Declaration.head
    unit := program.units.find }

/-- The fields of the declared schemas. -/
def fields (program : Program) : SchemaFields :=
  .ofDeclarations program.names (program.owners.filterMap Declaration.schema?)

/-- What a declaration is completed to. -/
def kindOf (program : Program) : Declaration → Kind
  | .schema declaration =>
      match program.fields.completed.lookup declaration.name with
      | some schema => .schema schema (declaration.parent.map Located.value)
      | none => (Declaration.schema declaration).placeholder
  | .unit declaration =>
      match program.units.find declaration.name with
      | .ok unit => .unit (some unit)
      | .error _ => .unit none
  | .lookup declaration =>
      match program.names.lookup declaration with
      | .ok (keys, value) => .lookup keys value
      | .error _ => (Declaration.lookup declaration).placeholder
  | .transform declaration =>
      match program.names.signature declaration with
      | .ok signature => .transform signature
      | .error _ => (Declaration.transform declaration).placeholder
  | declaration => declaration.head

/-- What a name stands for after the analysis. -/
def kind? (program : Program) (name : String) : Option Kind :=
  (program.owner? name).map program.kindOf

/-- The faults of a unit. -/
def unitFaults (program : Program) : Declaration → List Fault
  | .unit declaration =>
      match program.units.find declaration.name with
      | .ok _ => []
      | .error fault => [fault.orAt declaration.span]
  | _ => []

/-- The faults of the types of a lookup table. -/
def lookupFaults (program : Program) : Declaration → List Fault
  | .lookup declaration =>
      match program.names.lookup declaration with
      | .ok _ => []
      | .error fault => [fault.orAt declaration.span]
  | _ => []

/-- The faults of a transform: of its signature, or else of its body. -/
def transformFaults (config : Config) (program : Program) :
    Declaration → List Fault
  | .transform declaration =>
      match program.names.signature declaration with
      | .ok signature =>
          Analysis.bodyFaults config program.kind? declaration signature
      | .error fault => [fault.orAt declaration.span]
  | _ => []

/-- The context of pipelines. -/
def pipelineContext (config : Config) (program : Program) : Context :=
  { config := config, kind := program.kind?, source := none,
    variableType := fun _ => none }

/-- The faults of a pipeline. -/
def pipelineFaults (config : Config) (program : Program) :
    Declaration → List Fault
  | .pipeline declaration =>
      (program.pipelineContext config).stepFaults none declaration.steps
  | _ => []

/-- Everything that is wrong with a program. -/
def faults (config : Config) (program : Program) : List Fault :=
  (SymbolTable.empty.register program).2 ++
    program.owners.flatMap program.unitFaults ++
    program.fields.faults ++ program.owners.flatMap program.lookupFaults ++
    program.owners.flatMap (program.transformFaults config) ++
    program.owners.flatMap (program.pipelineFaults config)

/-- The value of a declared unit. -/
def unitOf (program : Program) : Declaration → Option PhysicalUnit
  | .unit declaration => (program.units.find declaration.name).toOption
  | _ => none

end Program

end SchemaMap
