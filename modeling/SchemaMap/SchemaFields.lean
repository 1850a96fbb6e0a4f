import SchemaMap.Resolution

/-!
# Fields of schemas

A schema has the fields of its parent, in the parent's order, and its own: a
field of a name that is there takes its place, any other is added at the end.  A
schema is completed once, after its parent.  A parent that is itself being
completed lies on a cycle and gives no fields.

The schemas that were not begun yet are handed down to the parent, without the
one in hand, so the chain of parents ends.
-/

namespace SchemaMap

/--
The fields with one more, in the place of the field of the same name if there is
one.
-/
def putField (fields : List (String × Ty)) (name : String) (type : Ty) :
    List (String × Ty) :=
  match fields with
  | [] => [(name, type)]
  | field :: rest =>
      if field.1 = name then
        (name, type) :: rest
      else
        field :: putField rest name type

/--
The schemas that are complete, the faults on the way, and the number of the next
type variable.
-/
structure SchemaFields where
  completed : List (String × Schema) := []
  faults : List Fault := []
  nextVariable : Nat := 0

namespace SchemaFields

/-- Type variables for the parameters of a schema, numbered from `next` on. -/
def typeVariables (next : Nat) : List String → List (String × Ty)
  | [] => []
  | name :: rest =>
      (name, .parameter name next) :: typeVariables (next + 1) rest

/--
The fields after the declared ones, with the faults of those whose type does not
resolve.
-/
def declaredFields (names : Names) (parameters : List (String × Ty))
    (fields : List (String × Ty)) :
    List FieldDeclaration → List (String × Ty) × List Fault
  | [] => (fields, [])
  | declaration :: rest =>
      match names.resolve parameters declaration.type with
      | .ok type =>
          declaredFields names parameters
            (putField fields declaration.name type) rest
      | .error fault =>
          let (final, faults) :=
            declaredFields names parameters
              (putField fields declaration.name .unknown) rest
          (final, fault.orAt declaration.span :: faults)

/-- Complete a schema whose parent is complete as far as it can be. -/
def complete (names : Names) (state : SchemaFields)
    (declaration : SchemaDeclaration) : SchemaFields :=
  let inherited :=
    match declaration.parent with
    | none => []
    | some parent =>
        ((state.completed.lookup parent.value).map Schema.fields).getD []
  let parameters := typeVariables state.nextVariable declaration.parameters
  let (fields, faults) :=
    declaredFields names parameters inherited declaration.fields
  { completed :=
      state.completed ++
        [(declaration.name,
          { name := declaration.name, parameters := declaration.parameters,
            fields := fields })]
    faults := state.faults ++ faults
    nextVariable := state.nextVariable + declaration.parameters.length }

/--
Complete the schema of a name, if it was not begun, and before it its parent.
-/
def settle (names : Names) (unbegun : List SchemaDeclaration) (name : String)
    (state : SchemaFields) :
    SchemaFields :=
  if (state.completed.lookup name).isSome then
    state
  else
    match found : unbegun.find?
      (fun declaration => declaration.name == name) with
    | none => state
    | some declaration =>
        have : (without SchemaDeclaration.name unbegun name).length <
            unbegun.length := length_without_lt found
        match declaration.parent with
        | none => state.complete names declaration
        | some parent =>
            (settle names (without SchemaDeclaration.name unbegun name)
              parent.value state).complete names declaration
termination_by unbegun.length

/-- Complete all declared schemas. -/
def ofDeclarations (names : Names) (declarations : List SchemaDeclaration) :
    SchemaFields :=
  declarations.foldl (fun state declaration =>
    settle names declarations declaration.name state) {}

end SchemaFields

end SchemaMap
