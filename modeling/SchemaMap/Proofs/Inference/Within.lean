import SchemaMap.Proofs.Inference.Kept
import SchemaMap.Proofs.Ty.Substitution

/-!
# What inferred types mention

A type mentions the schemas and enumerations that occur in it and the units of
its quantities.  Inference makes types out of those that its context has, so it
comes upon no other name, and upon no other unit than products and quotients of
theirs (`Context.Within.throughout`).
-/

namespace SchemaMap

/-! ## Types -/

namespace Ty

/-- The type itself mentions no other name and no other unit. -/
def IsWithin (names : String → Prop) (units : PhysicalUnit → Prop) : Ty → Prop
  | .schema name _ _ _ => names name
  | .enumeration name _ => names name
  | .quantity unit => units unit
  | _ => True

/-- The type mentions no other name and no other unit, at any depth. -/
def Within (names : String → Prop) (units : PhysicalUnit → Prop) (type : Ty) :
    Prop :=
  type.Throughout (IsWithin names units)

variable {names : String → Prop} {units : PhysicalUnit → Prop}

theorem structural_isWithin : Structural (IsWithin names units) := by
  constructor <;> intros <;> trivial

theorem Within.mono {others : String → Prop}
    (more : ∀ name, names name → others name) {type : Ty}
    (within : type.Within names units) : type.Within others units := by
  intro part occurs
  have here := within part occurs
  cases part with
  | schema name => exact more name here
  | enumeration name => exact more name here
  | _ => exact here

/-- Substitution keeps the name and the unit of a type. -/
theorem isWithin_substitute (bindings : Bindings) {type : Ty}
    (closed : ∀ name id, type ≠ .parameter name id)
    (here : type.IsWithin names units) :
    (type.substitute bindings).IsWithin names units := by
  cases type with
  | parameter name id => exact absurd rfl (closed name id)
  | _ => exact here

theorem within_unknown : Within names units .unknown :=
  throughout_of_children_eq_nil trivial rfl

end Ty

/-! ## Inference -/

/-- A set of units that products and quotients do not leave. -/
structure PhysicalUnit.ClosedUnder (units : PhysicalUnit → Prop) : Prop where
  multiply : ∀ left right unit, units left → units right →
    left.multiply? right = some unit → units unit
  divide : ∀ left right unit, units left → units right →
    left.divide? right = some unit → units unit

/-- All types of a context are within. -/
structure Context.Within (names : String → Prop) (units : PhysicalUnit → Prop)
    (context : Context) : Prop where
  kinds : ∀ name kind, context.kind name = some kind →
    ∀ type ∈ kind.types, type.Within names units
  source : ∀ type, context.source = some type → type.Within names units
  variableTypes : ∀ name type, context.variableType name = some type →
    type.Within names units

variable {names : String → Prop} {units : PhysicalUnit → Prop}

/--
Where units are closed under arithmetic, types within them are closed under
inference.
-/
theorem PhysicalUnit.ClosedUnder.inferable
    (closed : PhysicalUnit.ClosedUnder units) :
    Ty.Inferable (Ty.IsWithin names units) where
  toStructural := Ty.structural_isWithin
  unknown := trivial
  multiply := closed.multiply
  divide := closed.divide

namespace Context

variable {context : Context}

theorem Within.mono {others : String → Prop}
    (more : ∀ name, names name → others name)
    (within : context.Within names units) : context.Within others units where
  kinds := fun name kind known type member =>
    (within.kinds name kind known type member).mono more
  source := fun type known => (within.source type known).mono more
  variableTypes :=
    fun name type known => (within.variableTypes name type known).mono more

theorem Within.withVariables (within : context.Within names units)
    {bound : List (String × Ty)}
    (each : ∀ entry ∈ bound, entry.2.Within names units) :
    (context.withVariables bound).Within names units where
  kinds := within.kinds
  source := within.source
  variableTypes := forall_variableType_withVariables within.variableTypes each

/-- Inference in a context whose types are within comes upon no other type. -/
theorem Within.throughout (within : context.Within names units) :
    context.Throughout (Ty.IsWithin names units) where
  fields := by
    intro name arguments _ _ handle
    rw [Context.fields]
    split
    · next schema parent known =>
        have types := within.kinds name _ known
        rw [Kind.types, List.forall_mem_append, List.forall_mem_map] at types
        exact Schema.throughout_fieldsAt Ty.isWithin_substitute types.2
          fun argument member => handle.child (List.mem_append_left _ member)
    · exact List.forall_mem_nil _
  lookups := fun _ keys value known =>
    within.kinds _ _ known value (List.mem_append_right keys List.mem_cons_self)
  source := within.source
  variableTypes := within.variableTypes

end Context

end SchemaMap
