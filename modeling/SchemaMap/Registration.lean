import SchemaMap.Declaration
import SchemaMap.Inheritance

/-!
# Registration

Every declaration is entered into the symbol table before any type is known.  Of
several declarations of one name the first keeps it.  Then the declarations are
checked as far as names alone allow: fields and variants are distinct, parents
are schemas, and no schema is its own ancestor.
-/

namespace SchemaMap

/-- What a declaration stands for before its types are known. -/
def Declaration.placeholder : Declaration → Kind
  | .schema declaration =>
      .schema { name := declaration.name, parameters := declaration.parameters }
        (declaration.parent.map Located.value)
  | .enumeration _ => .enumeration []
  | .dimension _ => .dimension
  | .unit _ => .unit none
  | .lookup declaration =>
      .lookup (declaration.keys.map fun _ => .unknown) .unknown
  | .transform declaration =>
      .transform
        { sources := declaration.sources.map fun source =>
          (source.name, .unknown)
          target := .unknown }
  | .pipeline declaration => .pipeline (declaration.steps.map Located.value)

/--
The located names whose name stands earlier in the list or among those seen
before.
-/
def repeatedNames (seen : List String) :
    List (Located String) → List (Located String)
  | [] => []
  | name :: rest =>
      if name.value ∈ seen then
        name :: repeatedNames seen rest
      else
        repeatedNames (name.value :: seen) rest

namespace SymbolTable

/-- The fault of a declaration whose name is taken. -/
def takenName (table : SymbolTable) (declaration : Declaration) : Fault :=
  match table.kind? declaration.name with
  | some kind => ⟨.alreadyDeclared declaration.name kind.text, declaration.span⟩
  | none => ⟨.duplicateDefinition declaration.name, declaration.span⟩

/--
Enter the declarations from a place of the program on, with the faults of those
whose name is taken.
-/
def registerFrom (table : SymbolTable) (place : Nat) :
    Program → SymbolTable × List Fault
  | [] => (table, [])
  | declaration :: rest =>
      let symbol : Symbol :=
        { name := declaration.name
          kind := declaration.placeholder
          span := declaration.span
          declaration := some place }
      match table.define symbol with
      | .ok defined => defined.table.registerFrom (place + 1) rest
      | .error _ =>
          let (final, faults) := table.registerFrom (place + 1) rest
          (final, table.takenName declaration :: faults)

/-- The faults of a schema that its names alone show. -/
def schemaFaults (table : SymbolTable) (place : Nat)
    (declaration : SchemaDeclaration) : List Fault :=
  let fields :=
    declaration.fields.map fun field =>
      (⟨field.name, field.span⟩ : Located String)
  (repeatedNames [] fields).map
    (fun field => ⟨.duplicateField declaration.name field.value, field.span⟩) ++
    match declaration.parent with
    | none => []
    | some parent =>
        if (table.schema? parent.value).isNone then
          [⟨.unknownParent declaration.name parent.value, parent.span⟩]
        else if table.owner? declaration.name = some place then
          match table.reportedCycle? declaration.name with
          | some chain => [⟨.cyclicInheritance chain, declaration.span⟩]
          | none => []
        else
          []

/-- The faults of an enumeration that its names alone show. -/
def enumFaults (declaration : EnumDeclaration) : List Fault :=
  (repeatedNames [] declaration.variants).map fun variant =>
    ⟨.duplicateVariant declaration.name variant.value, variant.span⟩

/-- The faults of a declaration that its names alone show. -/
def nameFaults (table : SymbolTable) (place : Nat) : Declaration → List Fault
  | .schema declaration => table.schemaFaults place declaration
  | .enumeration declaration => enumFaults declaration
  | _ => []

/-- Enter a program into a table and check the names of its declarations. -/
def register (table : SymbolTable) (program : Program) :
    SymbolTable × List Fault :=
  let (final, taken) := table.registerFrom 0 program
  (final,
    taken ++
      program.zipIdx.flatMap fun entry => final.nameFaults entry.2 entry.1)

end SymbolTable

end SchemaMap
