import SchemaMap.Proofs.Ty.Equality
import SchemaMap.Proofs.Ty.Throughout
import SchemaMap.Ty.Substitution

/-!
# Type variables and substitution

Substitution replaces type variables by name and leaves everything else as it
is.  The variables of a type after substitution are the unbound ones that it had
and those of the types that came in (`hasVariable_substitute_iff`).

A schema owns its variables when its field types have no others than its
parameters.  These are the schemas whose fields are free of variables through
every handle with full arguments (`Schema.ownsVariables_iff`).
-/

namespace SchemaMap

namespace Ty

/-- Induction on types whose hypothesis speaks of the types right below. -/
theorem inductionOnChildren {motive : Ty → Prop}
    (step : ∀ type, (∀ child ∈ type.children, motive child) → motive type)
    (type : Ty) : motive type := by
  induction type with
  | schema name arguments parameters fields argumentsHold fieldsHold =>
      apply step
      rw [children, List.forall_mem_append, List.forall_mem_map]
      exact ⟨argumentsHold, fieldsHold⟩
  | array element holds => exact step _ (List.forall_mem_singleton.mpr holds)
  | optional inner holds => exact step _ (List.forall_mem_singleton.mpr holds)
  | tuple items hold => exact step _ hold
  | union members hold => exact step _ hold
  | function parameters result parametersHold resultHolds =>
      apply step
      rw [children, List.forall_mem_append, List.forall_mem_singleton]
      exact ⟨parametersHold, resultHolds⟩
  | _ => exact step _ (List.forall_mem_nil _)

/--
Apart from type variables, a type is substituted in by substituting in the types
right below.
-/
theorem children_substitute (bindings : Bindings) {type : Ty}
    (closed : ∀ name id, type ≠ .parameter name id) :
    (type.substitute bindings).children =
      type.children.map (substitute bindings) := by
  cases type with
  | parameter name id => exact absurd rfl (closed name id)
  | _ =>
      simp [substitute, children, substituteAll_eq_map, substituteFields_eq_map]

/--
Substitution brings in the types of its bindings and changes nothing else.
-/
theorem throughout_substitute {good : Ty → Prop} {bindings : Bindings}
    (stable : ∀ {type : Ty}, (∀ name id, type ≠ .parameter name id) →
      good type → good (type.substitute bindings))
    (bound : ∀ name type, bindings.get? name = some type → type.Throughout good)
    (type : Ty) (throughout : type.Throughout good) :
    (type.substitute bindings).Throughout good := by
  induction type using inductionOnChildren with
  | step type ih =>
      by_cases isVariable : ∃ name id, type = .parameter name id
      · rcases isVariable with ⟨name, id, rfl⟩
        rw [substitute]
        cases found : bindings.get? name with
        | none => exact throughout
        | some replacement => exact bound name replacement found
      · have closed : ∀ name id, type ≠ .parameter name id :=
          fun name id same => isVariable ⟨name, id, same⟩
        rw [throughout_iff, children_substitute bindings closed,
          List.forall_mem_map]
        exact ⟨stable closed (throughout type .self),
          fun child member => ih child member (throughout.child member)⟩

/-! ## Type variables -/

/-- A type variable of the name occurs in the type. -/
def HasVariable (name : String) (type : Ty) : Prop :=
  ∃ id, (Ty.parameter name id).OccursIn type

/-- No type variable occurs in the type. -/
def VariableFree (type : Ty) : Prop :=
  ∀ name, ¬ type.HasVariable name

theorem hasVariable_parameter_iff {name other : String} {id : Nat} :
    (Ty.parameter other id).HasVariable name ↔ name = other := by
  constructor
  · rintro ⟨_, occurs⟩
    cases occurs with
    | self => rfl
    | within member => contradiction
  · rintro rfl
    exact ⟨id, .self⟩

/--
Apart from type variables, a type has the variables of the types right below.
-/
theorem hasVariable_iff_children {name : String} {type : Ty}
    (closed : ∀ name id, type ≠ .parameter name id) :
    type.HasVariable name ↔
      ∃ child ∈ type.children, child.HasVariable name := by
  constructor
  · rintro ⟨id, occurs⟩
    cases occurs with
    | self => exact absurd rfl (closed name id)
    | within member inner => exact ⟨_, member, id, inner⟩
  · rintro ⟨child, member, id, inner⟩
    exact ⟨id, .within member inner⟩

/--
The variables after a substitution are those that it leaves and those that it
brings in.
-/
theorem hasVariable_substitute_iff {bindings : Bindings} {name : String}
    (type : Ty) :
    (type.substitute bindings).HasVariable name ↔
      (type.HasVariable name ∧ bindings.get? name = none) ∨
        ∃ other value, type.HasVariable other ∧
          bindings.get? other = some value ∧ value.HasVariable name := by
  induction type using inductionOnChildren with
  | step type ih =>
      by_cases isVariable : ∃ other id, type = .parameter other id
      · rcases isVariable with ⟨other, id, rfl⟩
        rw [substitute]
        simp only [hasVariable_parameter_iff]
        cases found : bindings.get? other with
        | none =>
            rw [Option.getD_none, hasVariable_parameter_iff]
            grind
        | some value =>
            rw [Option.getD_some]
            grind
      · have closed : ∀ name id, type ≠ .parameter name id :=
          fun name id same => isVariable ⟨name, id, same⟩
        have substituted : ∀ name id,
            type.substitute bindings ≠ .parameter name id := by
          cases type with
          | parameter other id => exact absurd rfl (closed other id)
          | _ => simp [substitute]
        rw [hasVariable_iff_children substituted,
          children_substitute bindings closed]
        simp only [hasVariable_iff_children closed, List.mem_map,
          exists_exists_and_eq_and]
        constructor
        · rintro ⟨child, member, has⟩
          rcases (ih child member).mp has with
            ⟨left, unbound⟩ | ⟨other, value, left, bound, brought⟩
          · exact .inl ⟨⟨child, member, left⟩, unbound⟩
          · exact .inr ⟨other, value, ⟨child, member, left⟩, bound, brought⟩
        · rintro (⟨⟨child, member, left⟩, unbound⟩ |
            ⟨other, value, ⟨child, member, left⟩, bound, brought⟩)
          · exact ⟨child, member, (ih child member).mpr (.inl ⟨left, unbound⟩)⟩
          · exact ⟨child, member,
              (ih child member).mpr (.inr ⟨other, value, left, bound, brought⟩)⟩

end Ty

/-! ## Orderly types -/

namespace Ty

/--
A schema has the number of arguments of its name, and a type variable is one of
those that are named.
-/
def IsOrderly (arity : String → Nat) (named : String → Nat → Prop) : Ty → Prop
  | .schema name arguments _ _ => arguments.length = arity name
  | .parameter name id => named name id
  | _ => True

variable {arity : String → Nat} {named : String → Nat → Prop}

theorem structural_isOrderly : Structural (IsOrderly arity named) := by
  constructor <;> intros <;> trivial

theorem IsOrderly.mono {others : String → Nat → Prop}
    (more : ∀ name id, named name id → others name id) {type : Ty}
    (orderly : type.IsOrderly arity named) : type.IsOrderly arity others := by
  cases type with
  | parameter name id => exact more name id orderly
  | _ => exact orderly

theorem isOrderly_substitute (bindings : Bindings) {type : Ty}
    (closed : ∀ name id, type ≠ .parameter name id)
    (orderly : type.IsOrderly arity named) :
    (type.substitute bindings).IsOrderly arity named := by
  cases type with
  | schema name arguments parameters fields =>
      rw [substitute, substituteAll_eq_map]
      exact (List.length_map _).trans orderly
  | parameter name id => exact absurd rfl (closed name id)
  | _ => trivial

/-- Without named variables an orderly type is free of variables. -/
theorem throughout_isOrderly_free_iff {type : Ty} :
    type.Throughout (IsOrderly arity fun _ _ => False) ↔
      type.Throughout (IsOrderly arity fun _ _ => True) ∧
        type.VariableFree := by
  constructor
  · intro orderly
    refine ⟨fun part occurs => (orderly part occurs).mono fun _ _ => False.elim,
      ?_⟩
    rintro name ⟨id, occurs⟩
    exact orderly _ occurs
  · rintro ⟨orderly, free⟩ part occurs
    have here := orderly part occurs
    cases part with
    | parameter name id => exact free name ⟨id, occurs⟩
    | _ => exact here

end Ty

/-! ## Fields behind handles -/

namespace Schema

variable {schema : Schema} {arguments : List Ty}

/-- The type variables in the fields of the schema are its parameters. -/
def OwnsVariables (schema : Schema) : Prop :=
  ∀ field ∈ schema.fields,
    ∀ name, field.2.HasVariable name → name ∈ schema.parameters

/-- A parameter is bound to one of the arguments. -/
theorem mem_of_get?_bindings {name : String} {type : Ty}
    (bound : (schema.bindings arguments).get? name = some type) :
    type ∈ arguments :=
  (List.of_mem_zip (Dictionary.mem_of_get?_ofList bound)).2

/--
The fields behind a handle have what the fields of the schema and the arguments
have.
-/
theorem throughout_fieldsAt {good : Ty → Prop}
    (stable : ∀ bindings {type : Ty}, (∀ name id, type ≠ .parameter name id) →
      good type →
      good (type.substitute bindings))
    (fields : ∀ field ∈ schema.fields, field.2.Throughout good)
    (given : ∀ argument ∈ arguments, argument.Throughout good) :
    ∀ field ∈ schema.fieldsAt arguments, field.2.Throughout good := by
  rw [fieldsAt, List.forall_mem_map]
  intro field member
  exact Ty.throughout_substitute (stable _)
    (fun name type bound => given type (mem_of_get?_bindings bound)) field.2
    (fields field member)

/-- Full arguments bind exactly the parameters. -/
theorem get?_bindings_eq_none_iff
    (full : arguments.length = schema.parameters.length) {name : String} :
    (schema.bindings arguments).get? name = none ↔
      name ∉ schema.parameters := by
  rw [bindings, Dictionary.get?_ofList_eq_none_iff,
    List.map_fst_zip (Nat.le_of_eq full.symm)]

/--
A schema owns its variables when its fields are free of them through every
handle with full arguments.
-/
theorem ownsVariables_iff :
    schema.OwnsVariables ↔
      ∀ arguments : List Ty, arguments.length = schema.parameters.length →
        (∀ argument ∈ arguments, argument.VariableFree) →
        ∀ field ∈ schema.fieldsAt arguments, field.2.VariableFree := by
  constructor
  · intro owns arguments full free
    rw [fieldsAt, List.forall_mem_map]
    intro field member name has
    rcases (Ty.hasVariable_substitute_iff field.2).mp has with
      ⟨left, unbound⟩ | ⟨other, value, _, bound, brought⟩
    · exact (get?_bindings_eq_none_iff full).mp unbound
        (owns field member name left)
    · exact free value (mem_of_get?_bindings bound) name brought
  · intro free field member name has
    by_contra foreign
    have full : (List.replicate schema.parameters.length
        (Ty.primitive .int)).length = schema.parameters.length :=
      List.length_replicate
    have plain : (Ty.primitive .int).VariableFree := by
      rintro name ⟨id, occurs⟩
      cases occurs with
      | within member => contradiction
    refine free _ full
      (fun argument member => List.eq_of_mem_replicate member ▸ plain) _
      (List.mem_map_of_mem member) name ?_
    exact (Ty.hasVariable_substitute_iff field.2).mpr
      (.inl ⟨has, (get?_bindings_eq_none_iff full).mpr foreign⟩)

end Schema

end SchemaMap
