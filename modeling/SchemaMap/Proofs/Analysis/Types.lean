import SchemaMap.Proofs.Analysis.Phases
import SchemaMap.Proofs.Ty.Substitution

/-!
# The types of declarations

The types that belong to declarations are made of those that type expressions
stand for, of type variables, and of the unknown type where there was a fault.
What holds of all of these holds throughout the types of every declaration
(`Supplies.kindOf`).  A property of field types may depend on the parameters of
their schema, as long as a child has it of the fields that it takes over
(`throughout_built`).
-/

namespace SchemaMap

/-- The number of parameters of a schema. -/
def Names.arity (names : Names) (name : String) : Nat :=
  match names.kind name with
  | some (.schema schema _) => schema.parameters.length
  | _ => 0

theorem Names.provides_isOrderly (names : Names) (named : String → Nat → Prop) :
    Provides names.declares names.measures
      (Ty.IsOrderly names.arity named) where
  structural := Ty.structural_isOrderly
  applied := by
    intro name arguments type applied
    cases applied with
    | schema known full =>
        show arguments.length = names.arity name
        rw [Names.declares] at known
        rw [full, Names.arity, known]
    | enumeration known => trivial
  measured := fun _ _ _ => trivial

/-- The source of a signature is good where its types are. -/
theorem Signature.throughout_source {good : Ty → Prop}
    (structural : Ty.Structural good) {signature : Signature}
    (types : ∀ type ∈ (Kind.transform signature).types, type.Throughout good) :
    signature.source.Throughout good := by
  have sources : ∀ type ∈ signature.sources.map Prod.snd,
      type.Throughout good :=
    fun type member => types type (List.mem_append_left _ member)
  rw [Signature.source]
  split
  · next single =>
      rw [single] at sources
      exact sources _ List.mem_cons_self
  · exact Ty.throughout_iff.mpr ⟨structural.tuple _, sources⟩

namespace Program

variable {program : Program}

/--
What type expressions of the program stand for has the property, and so has what
stands in for a missing type.
-/
structure Supplies (program : Program) (good : Ty → Prop) : Prop extends
    Provides program.names.declares program.names.measures good where
  unknown : good .unknown

namespace Supplies

variable {good : Ty → Prop} (supplies : program.Supplies good)

include supplies

theorem throughout_unknown : Ty.unknown.Throughout good :=
  Ty.throughout_of_children_eq_nil supplies.unknown rfl

theorem resolve {parameters : List (String × Ty)}
    (bound : ∀ name type, parameters.lookup name = some type →
      type.Throughout good)
    {expression : TypeExpr} {type : Ty}
    (resolved : program.names.resolve parameters expression = .ok type) :
    type.Throughout good :=
  Denotes.throughout supplies.toProvides bound expression
    ((Names.resolve_eq_ok_iff expression).mp resolved)

/-- An expression outside of schemas resolves to a good type. -/
theorem resolveOutside {expression : TypeExpr} {type : Ty}
    (resolved : program.names.resolve [] expression = .ok type) :
    type.Throughout good :=
  supplies.resolve (fun _ _ found => by contradiction) resolved

theorem resolveAllOutside {expressions : List TypeExpr} {types : List Ty}
    (resolved : program.names.resolveAll [] expressions = .ok types) :
    ∀ type ∈ types, type.Throughout good :=
  Denotes.allThroughout supplies.toProvides (fun _ _ found => by contradiction)
    expressions
    ((Names.resolveAll_eq_ok_iff expressions).mp resolved)

theorem lookup {declaration : LookupDeclaration} {types : List Ty × Ty}
    (resolved : program.names.lookup declaration = .ok types) :
    ∀ type ∈ (Kind.lookup types.1 types.2).types, type.Throughout good := by
  simp only [Names.lookup, bind_eq_ok_iff] at resolved
  rcases resolved with ⟨keys, keysResolved, value, valueResolved, ⟨⟩⟩
  rw [Kind.types, List.forall_mem_append, List.forall_mem_singleton]
  exact ⟨supplies.resolveAllOutside keysResolved,
    supplies.resolveOutside valueResolved⟩

theorem signature {declaration : TransformDeclaration} {signature : Signature}
    (resolved : program.names.signature declaration = .ok signature) :
    ∀ type ∈ (Kind.transform signature).types, type.Throughout good := by
  simp only [Names.signature, bind_eq_ok_iff] at resolved
  rcases resolved with ⟨types, typesResolved, target, targetResolved, ⟨⟩⟩
  rw [Kind.types, List.forall_mem_append, List.forall_mem_singleton,
    List.forall_mem_map]
  refine ⟨fun source member => ?_, supplies.resolveOutside targetResolved⟩
  exact supplies.resolveAllOutside typesResolved _ (List.of_mem_zip member).2

theorem placeholder (declaration : Declaration) :
    ∀ type ∈ declaration.placeholder.types, type.Throughout good := by
  have unknown := supplies.throughout_unknown
  cases declaration with
  | lookup declaration =>
      rw [Declaration.placeholder, Kind.types, List.forall_mem_append,
        List.forall_mem_map, List.forall_mem_singleton]
      exact ⟨fun _ _ => unknown, unknown⟩
  | transform declaration =>
      rw [Declaration.placeholder, Kind.types, List.forall_mem_append,
        List.forall_mem_map, List.forall_mem_map, List.forall_mem_singleton]
      exact ⟨fun _ _ => unknown, unknown⟩
  | _ => exact List.forall_mem_nil _

/--
A declaration is completed to types that have the property, a schema if its
fields do.
-/
theorem kindOf {declaration : Declaration}
    (fields : ∀ schema parent,
      program.kindOf declaration = .schema schema parent →
      ∀ field ∈ schema.fields, field.2.Throughout good) :
    ∀ type ∈ (program.kindOf declaration).types, type.Throughout good := by
  cases declaration with
  | schema declaration =>
      rw [Program.kindOf] at fields ⊢
      split at fields
      · next schema found =>
          rcases (SchemaFields.built_ofDeclarations _ _).1.declared found with
            ⟨_, _, _, content⟩
          have bare : schema.arguments = [] := by rw [content]
          rw [Kind.types, bare, List.nil_append, List.forall_mem_map]
          exact fields schema _ rfl
      · exact supplies.placeholder _
  | lookup declaration =>
      rw [Program.kindOf]
      split
      · next resolved => exact supplies.lookup resolved
      · exact supplies.placeholder _
  | transform declaration =>
      rw [Program.kindOf]
      split
      · next resolved => exact supplies.signature resolved
      · exact supplies.placeholder _
  | unit declaration =>
      rw [Program.kindOf]
      split <;> exact List.forall_mem_nil _
  | _ => exact List.forall_mem_nil _

end Supplies

/-- Type expressions stand for orderly types, whichever variables are named. -/
theorem supplies_isOrderly (program : Program) (named : String → Nat → Prop) :
    program.Supplies (Ty.IsOrderly program.names.arity named) :=
  { program.names.provides_isOrderly named with unknown := trivial }

/-- A schema has as many parameters as its arity says. -/
theorem length_parameters_eq_arity {name : String} {schema : Schema}
    {parent : Option String}
    (known : program.kind? name = some (.schema schema parent)) :
    schema.parameters.length = program.names.arity name := by
  rcases Option.map_eq_some_iff.mp known with ⟨declaration, owner, complete⟩
  have same := Analysis.asType_kindOf owner
  rw [complete] at same
  have head : program.names.kind name = some declaration.head := by
    show (program.owner? name).map Declaration.head = some declaration.head
    rw [owner, Option.map_some]
  rw [Names.arity, head]
  cases found : declaration.head with
  | schema content above =>
      rw [found] at same
      simp only [Kind.asType, Kind.schema.injEq, Schema.mk.injEq] at same
      rw [same.1.2.2.1]
  | _ =>
      rw [found] at same
      contradiction

/-! ## Fields -/

theorem mem_of_lookup_typeVariables {next : Nat} {parameters : List String}
    {name : String} {type : Ty}
    (found : (SchemaFields.typeVariables next parameters).lookup name =
      some type) :
    name ∈ parameters ∧ ∃ id, type = .parameter name id := by
  induction parameters generalizing next with
  | nil => contradiction
  | cons parameter rest ih =>
      rw [SchemaFields.typeVariables, List.lookup_cons] at found
      split at found
      · next same =>
          cases found
          rw [beq_iff_eq.mp same]
          exact ⟨List.mem_cons_self, next, rfl⟩
      · exact (ih found).imp_left (List.mem_cons_of_mem _)

theorem throughout_declaredFields {good : Ty → Prop}
    (supplies : program.Supplies good) {parameters : List (String × Ty)}
    (bound : ∀ name type, parameters.lookup name = some type →
      type.Throughout good)
    {fields : List (String × Ty)}
    (before : ∀ field ∈ fields, field.2.Throughout good)
    (declared : List FieldDeclaration) :
    ∀ field ∈ (SchemaFields.declaredFields program.names parameters fields
      declared).1, field.2.Throughout good := by
  have put : ∀ fields : List (String × Ty),
      (∀ field ∈ fields, field.2.Throughout good) → ∀ name type,
      type.Throughout good →
        ∀ field ∈ putField fields name type, field.2.Throughout good := by
    intro fields each name type throughout field member
    rcases mem_putField member with old | rfl
    · exact each field old
    · exact throughout
  induction declared generalizing fields with
  | nil => exact before
  | cons declaration rest ih =>
      rw [SchemaFields.declaredFields]
      cases resolved : program.names.resolve parameters declaration.type with
      | ok type =>
          exact ih (put fields before declaration.name type
            (supplies.resolve bound resolved))
      | error fault =>
          exact ih (put fields before declaration.name .unknown
            supplies.throughout_unknown)

section

variable {good : List String → Ty → Prop}
  (supplies : ∀ parameters, program.Supplies (good parameters))
  (own : ∀ parameters name id, name ∈ parameters →
    good parameters (.parameter name id))

include supplies own

/--
The field types of complete schemas have the property that belongs to the
parameters.
-/
theorem throughout_built {declarations : List SchemaDeclaration}
    (taken : ∀ child ∈ declarations,
      ∀ parent ∈ declarations,
        child.parent.map Located.value = some parent.name →
      ∀ type, good parent.parameters type → good child.parameters type)
    {state : SchemaFields}
    (built : SchemaFields.Built program.names declarations state) :
    ∀ entry ∈ state.completed,
      ∀ field ∈ entry.2.fields,
        field.2.Throughout (good entry.2.parameters) := by
  induction built with
  | start => exact List.forall_mem_nil _
  | @complete state declaration before member _ _ ih =>
      rw [SchemaFields.complete_eq, List.forall_mem_append,
        List.forall_mem_singleton]
      refine ⟨ih,
        throughout_declaredFields (supplies _) (fun name type found => ?_) ?_ _⟩
      · rcases mem_of_lookup_typeVariables found with ⟨listed, id, rfl⟩
        exact Ty.throughout_of_children_eq_nil (own _ name id listed) rfl
      · intro field listed
        rw [SchemaFields.inherited] at listed
        split at listed
        · contradiction
        · next parent written =>
            cases found : state.completed.lookup parent.value with
            | none => simp [found] at listed
            | some schema =>
                rw [found] at listed
                rcases before.declared found with
                  ⟨above, declared, named, content⟩
                have same : schema.parameters = above.parameters := by
                  rw [content]
                have throughout :=
                  ih _ (mem_of_lookup_eq_some found) field listed
                intro part occurs
                refine taken declaration member above declared ?_ part
                  (same ▸ throughout part occurs)
                rw [written, named]
                rfl

/--
The field types of every schema of the program have the property that belongs to
its parameters.
-/
theorem throughout_fields
    (taken : ∀ child parent, .schema child ∈ program →
      .schema parent ∈ program →
      child.parent.map Located.value = some parent.name →
      ∀ type, good parent.parameters type → good child.parameters type)
    {name : String} {schema : Schema} {parent : Option String}
    (known : program.kind? name = some (.schema schema parent)) :
    ∀ field ∈ schema.fields, field.2.Throughout (good schema.parameters) := by
  rcases Option.map_eq_some_iff.mp known with ⟨declaration, -, complete⟩
  cases declaration with
  | schema declaration =>
      rw [kindOf] at complete
      split at complete
      · next found =>
          cases complete
          refine throughout_built supplies own ?_
            (SchemaFields.built_ofDeclarations _ _).1 _
            (mem_of_lookup_eq_some found)
          have isDeclared :
              ∀ child ∈ program.owners.filterMap Declaration.schema?,
                .schema child ∈ program := by
            intro child member
            rcases List.mem_filterMap.mp member with ⟨owner, listed, view⟩
            rw [Declaration.schema?_eq_some_iff] at view
            exact view ▸ mem_of_mem_owners listed
          exact fun child childMember parent parentMember =>
            taken child parent (isDeclared child childMember)
            (isDeclared parent parentMember)
      · cases complete
        exact List.forall_mem_nil _
  | lookup declaration =>
      rw [kindOf] at complete; split at complete <;> cases complete
  | transform declaration =>
      rw [kindOf] at complete; split at complete <;> cases complete
  | unit declaration =>
      rw [kindOf] at complete; split at complete <;> cases complete
  | _ => cases complete

end

end Program

end SchemaMap
