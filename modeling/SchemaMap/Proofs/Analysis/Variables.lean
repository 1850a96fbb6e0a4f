import SchemaMap.Proofs.Analysis.Known
import SchemaMap.Proofs.Analysis.Recorded

/-!
# Where type variables go

The type variables of a schema are its parameters, and a handle has an argument
for each of them.  So no type variable gets out of the schemas that own their
variables, and none is recorded for an expression where all schemas do
(`variableFree_expressionType?`).

A child takes over field types with the variables of its parent, and nothing
gives these an argument: a handle of the child replaces the parameters of the
child.  It owns its variables if the parameters of its parent are among its own,
and `comparison` shows what happens otherwise.
-/

namespace SchemaMap

theorem Ty.inferable_isOrderly {arity : String → Nat}
    {named : String → Nat → Prop} :
    Inferable (IsOrderly arity named) where
  toStructural := structural_isOrderly
  unknown := trivial
  multiply := fun _ _ _ _ _ _ => trivial
  divide := fun _ _ _ _ _ _ => trivial

namespace Program

variable {program : Program}

/-- Every child has the parameters of its parent among its own. -/
def RepeatsParameters (program : Program) : Prop :=
  ∀ child parent, .schema child ∈ program → .schema parent ∈ program →
    child.parent.map Located.value = some parent.name →
    ∀ name ∈ parent.parameters, name ∈ child.parameters

/--
Where children repeat the parameters of their parents, every schema owns its
variables.
-/
theorem RepeatsParameters.ownsVariables (repeats : program.RepeatsParameters)
    {name : String} {schema : Schema} {parent : Option String}
    (known : program.kind? name = some (.schema schema parent)) :
    schema.OwnsVariables := by
  have fields : ∀ field ∈ schema.fields,
      field.2.Throughout (Ty.IsOrderly program.names.arity fun name _ =>
        name ∈ schema.parameters) :=
    @throughout_fields program
      (fun parameters =>
        Ty.IsOrderly program.names.arity fun name _ => name ∈ parameters)
      (fun _ => supplies_isOrderly program _) (fun _ _ _ listed => listed)
      (fun child parent childMember parentMember inherits _ orderly =>
        orderly.mono fun name _ =>
          repeats child parent childMember parentMember inherits name) _ _ _
          known
  rintro field member name ⟨id, occurs⟩
  exact fields field member _ occurs

/--
The rules of a transform see types with the property, if the fields behind
handles have it.
-/
theorem Supplies.throughout_bodyContext {good : Ty → Prop}
    (supplies : program.Supplies good)
    (fields : ∀ name schema parent,
      program.kind? name = some (.schema schema parent) →
      ∀ arguments parameters shown,
        (Ty.schema name arguments parameters shown).Throughout good →
      ∀ field ∈ schema.fieldsAt arguments, field.2.Throughout good)
    (config : Config) {declaration : TransformDeclaration}
    {signature : Signature}
    (resolved : program.names.signature declaration = .ok signature) :
    (Analysis.bodyContext config program.kind? declaration signature).Throughout
      good where
  fields := by
    intro name arguments parameters shown handle
    rw [Context.fields]
    split
    · next schema parent known =>
        exact fields name schema parent known arguments parameters shown handle
    · exact List.forall_mem_nil _
  lookups := by
    intro name keys value known
    rcases Option.map_eq_some_iff.mp known with ⟨other, -, complete⟩
    have types : ∀ type ∈ (program.kindOf other).types,
        type.Throughout good := by
      apply supplies.kindOf
      intro schema parent isSchema
      rw [complete] at isSchema
      contradiction
    rw [complete] at types
    exact types value (List.mem_append_right keys List.mem_cons_self)
  source := by
    rintro type ⟨⟩
    exact Signature.throughout_source supplies.structural
      (supplies.signature resolved)
  variableTypes := by
    intro name type found
    rcases List.mem_map.mp (mem_of_lookup_eq_some found) with
      ⟨source, member, ⟨⟩⟩
    exact supplies.signature resolved _
      (List.mem_append_left _ (mem_of_mem_namedSources member))

/-- The fields behind a handle are orderly, whichever variables they have. -/
theorem orderly_fieldsAt {name : String} {schema : Schema}
    {parent : Option String}
    (known : program.kind? name = some (.schema schema parent))
    {arguments : List Ty}
    (given : ∀ argument ∈ arguments,
      argument.Throughout (Ty.IsOrderly program.names.arity fun _ _ => True)) :
    ∀ field ∈ schema.fieldsAt arguments,
      field.2.Throughout
        (Ty.IsOrderly program.names.arity fun _ _ => True) := by
  have fields :=
    throughout_fields (fun _ => supplies_isOrderly program fun _ _ => True)
      (fun _ _ _ _ => trivial) (fun _ _ _ _ _ _ orderly => orderly) known
  exact Schema.throughout_fieldsAt Ty.isOrderly_substitute fields given

/--
The rules of a transform see schemas with the number of arguments that belongs
to their names.
-/
theorem orderly_bodyContext (config : Config)
    {declaration : TransformDeclaration} {signature : Signature}
    (resolved : program.names.signature declaration = .ok signature) :
    (Analysis.bodyContext config program.kind? declaration signature).Throughout
      (Ty.IsOrderly program.names.arity fun _ _ => True) := by
  refine (supplies_isOrderly program _).throughout_bodyContext ?_ config
    resolved
  intro name schema parent known arguments parameters shown handle
  exact orderly_fieldsAt known fun argument member =>
    handle.child (List.mem_append_left _ member)

/--
The rules of a transform see no type variables, if the schemas own theirs.
-/
theorem throughout_bodyContext
    (owns : ∀ name schema parent,
      program.kind? name = some (.schema schema parent) → schema.OwnsVariables)
    (config : Config) {declaration : TransformDeclaration}
    {signature : Signature}
    (resolved : program.names.signature declaration = .ok signature) :
    (Analysis.bodyContext config program.kind? declaration signature).Throughout
      (Ty.IsOrderly program.names.arity fun _ _ => False) := by
  refine (supplies_isOrderly program _).throughout_bodyContext ?_ config
    resolved
  intro name schema parent known arguments parameters shown handle
  have given : ∀ argument ∈ arguments,
      argument.Throughout (Ty.IsOrderly program.names.arity fun _ _ => False) :=
    fun argument member => handle.child (List.mem_append_left _ member)
  simp only [Ty.throughout_isOrderly_free_iff] at given ⊢
  intro field member
  constructor
  · exact orderly_fieldsAt known
      (fun argument listed => (given argument listed).1) field member
  · exact Schema.ownsVariables_iff.mp (owns name schema parent known) arguments
      ((handle _ .self).trans (length_parameters_eq_arity known).symm)
      (fun argument listed => (given argument listed).2) field member

end Program

namespace Analysis

/--
Where all schemas own their variables, no type variable is recorded at any
depth, whether or not the program is accepted.  A schema owns its variables
exactly when all fields that are reached through full handles are free of
variables, and all schemas do so if every child repeats the parameters of its
parent.
-/
theorem variableFree_expressionType? (config : Config) (program : Program) :
    ((∀ name schema parent,
      (analyze config program).table.kind? name = some (.schema schema parent) →
        schema.OwnsVariables) →
      ∀ span type, (analyze config program).expressionType? span = some type →
        type.VariableFree) ∧
    (∀ name schema parent,
      (analyze config program).table.kind? name = some (.schema schema parent) →
      (schema.OwnsVariables ↔
        ∀ arguments : List Ty, arguments.length = schema.parameters.length →
          (∀ argument ∈ arguments, argument.VariableFree) →
          ∀ field ∈ schema.fieldsAt arguments, field.2.VariableFree)) ∧
    (program.RepeatsParameters →
      ∀ name schema parent,
        (analyze config program).table.kind? name =
          some (.schema schema parent) →
        schema.OwnsVariables) := by
  simp only [kind?_analyze]
  refine ⟨?_, fun _ _ _ _ => Schema.ownsVariables_iff,
    fun repeats _ _ _ known => repeats.ownsVariables known⟩
  intro owns span type recorded
  rcases exists_rule_of_expressionType? recorded with
    ⟨declaration, signature, resolved, rule, -, noted⟩
  have keeps :=
    Context.keeps_checkRule Ty.inferable_isOrderly
      (Program.throughout_bodyContext owns config resolved)
      signature.target rule
  rcases List.mem_filterMap.mp noted with ⟨event, member, same⟩
  have orderly := keeps.trace event member
  cases event with
  | typed =>
      cases same
      exact (Ty.throughout_isOrderly_free_iff.mp orderly).2
  | _ => contradiction

end Analysis

/--
A transform that compares the contents of a crate, where crates extend boxes of
any content.
-/
def comparison (parameter : String) : Program :=
  [.schema
      { name := "Box", parameters := ["T"]
        fields := [{ name := "item", type := .schemaName .unknown "T" }] },
    .schema
      { name := "Crate", parameters := [parameter],
        parent := some ⟨"Box", .unknown⟩
        fields :=
          [{ name := "spare",
             type := .optional .unknown (.schemaName .unknown parameter) }] },
    .schema { name := "Verdict",
              fields :=
                [{ name := "same", type := .primitive .unknown .bool }] },
    .transform
      { name := "Compare"
        sources :=
          [{ type := .generic .unknown "Crate" [.primitive .unknown .int] }]
        target := .schemaName .unknown "Verdict"
        rules :=
          [{ target := [⟨"same", .unknown⟩]
             value :=
               .binary ⟨0, 16⟩
                 (.path ⟨0, 6⟩ .source [.field .unknown "item" false]) .equal
                 (.path ⟨10, 16⟩ .source [.field .unknown "item" false]) }] }]

/-- The crate repeats the parameter of the box. -/
theorem variableFree_expressionType?_comparison :
    (analyze {} (comparison "T")).isAccepted = true ∧
    (comparison "T").RepeatsParameters ∧
    ((analyze {} (comparison "T")).expressionType? ⟨0, 6⟩).isSome = true ∧
    ∀ span type,
      (analyze {} (comparison "T")).expressionType? span = some type →
        type.VariableFree := by
  have repeats : (comparison "T").RepeatsParameters := by
    intro child parent childMember parentMember
    simp only [comparison, List.mem_cons, Declaration.schema.injEq,
      reduceCtorEq, List.not_mem_nil, or_false]
      at childMember parentMember
    rcases childMember with rfl | rfl | rfl <;>
      rcases parentMember with rfl | rfl | rfl <;> simp
  refine ⟨by decide +kernel, repeats, by decide +kernel, ?_⟩
  have theory := Analysis.variableFree_expressionType? {} (comparison "T")
  exact theory.1 (theory.2.2 repeats)

/--
The crate has a parameter of another name, and the type variable of the box gets
out.
-/
theorem exists_expressionType?_parameter :
    (analyze {} (comparison "U")).isAccepted = true ∧
    ∃ span type,
      (analyze {} (comparison "U")).expressionType? span = some type ∧
        ¬ type.VariableFree := by
  have escaped : ((analyze {} (comparison "U")).expressionType? ⟨0, 6⟩).any
      (Ty.equal (.parameter "T" 0)) = true := by
    decide +kernel
  rcases (Option.any_eq_true _ _).mp escaped with ⟨type, recorded, same⟩
  refine ⟨by decide +kernel, ⟨0, 6⟩, type, recorded, fun free => ?_⟩
  cases type with
  | parameter name id => exact free name ⟨id, .self⟩
  | _ => simp [Ty.equal] at same

end SchemaMap
