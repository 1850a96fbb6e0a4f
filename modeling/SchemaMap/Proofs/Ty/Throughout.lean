import SchemaMap.Proofs.Resolution

/-!
# Properties of all parts of a type

A type holds a property throughout when each of its parts has it.  Optional
types, unions and joins are put together from parts of other types, so they hold
throughout what those do, as long as the property does not mind how types are
put together (`Structural`).  A type expression stands for a type that holds
throughout what its names and units have (`Denotes.throughout`).
-/

namespace SchemaMap

/-- The types that belong to what a name stands for. -/
def Kind.types : Kind → List Ty
  | .schema content _ => content.arguments ++ content.fields.map Prod.snd
  | .lookup keys value => keys ++ [value]
  | .transform signature => signature.sources.map Prod.snd ++ [signature.target]
  | .binding type => [type]
  | .enumeration _ => []
  | .unit _ => []
  | .dimension => []
  | .pipeline _ => []

namespace Ty

/-- The types right below a type. -/
def children : Ty → List Ty
  | .schema _ arguments _ fields => arguments ++ fields.map Prod.snd
  | .array element => [element]
  | .optional inner => [inner]
  | .tuple items => items
  | .union members => members
  | .function parameters result => parameters ++ [result]
  | _ => []

/-- The part is the type itself or occurs below it. -/
inductive OccursIn (part : Ty) : Ty → Prop where
  | self : OccursIn part part
  | within {child type : Ty} (member : child ∈ type.children)
      (inner : OccursIn part child) : OccursIn part type

/-- All parts of the type have the property. -/
def Throughout (good : Ty → Prop) (type : Ty) : Prop :=
  ∀ part : Ty, part.OccursIn type → good part

/--
The property holds of all types but declared names, type variables, quantities
and the unknown type.
-/
structure Structural (good : Ty → Prop) : Prop where
  primitive : ∀ base, good (.primitive base)
  array : ∀ element, good (.array element)
  optional : ∀ inner, good (.optional inner)
  tuple : ∀ items, good (.tuple items)
  union : ∀ members, good (.union members)
  function : ∀ parameters result, good (.function parameters result)
  never : good .never

variable {good : Ty → Prop}

/--
A type is good throughout exactly when it is good and its children are so
throughout.
-/
theorem throughout_iff {type : Ty} :
    type.Throughout good ↔
      good type ∧ ∀ child ∈ type.children, child.Throughout good := by
  constructor
  · intro throughout
    exact ⟨throughout type .self,
      fun child member part inner => throughout part (.within member inner)⟩
  · rintro ⟨here, each⟩ part occurs
    cases occurs with
    | self => exact here
    | within member inner => exact each _ member part inner

theorem throughout_of_children_eq_nil {type : Ty} (here : good type)
    (bare : type.children = []) :
    type.Throughout good := by
  rw [throughout_iff, bare]
  exact ⟨here, List.forall_mem_nil _⟩

theorem Throughout.child {type child : Ty} (throughout : type.Throughout good)
    (member : child ∈ type.children) :
    child.Throughout good :=
  (throughout_iff.mp throughout).2 child member

/-! ## Types that are built -/

theorem throughout_optionalOf (structural : Structural good) {type : Ty}
    (throughout : type.Throughout good) :
    type.optionalOf.Throughout good := by
  have wrapped : (Ty.optional type).Throughout good := by
    rw [throughout_iff]
    exact ⟨structural.optional type, List.forall_mem_singleton.mpr throughout⟩
  cases type with
  | optional inner => exact throughout
  | _ => exact wrapped

theorem throughout_present {type : Ty} (throughout : type.Throughout good) :
    type.present.Throughout good := by
  cases type with
  | optional inner => exact throughout.child List.mem_cons_self
  | _ => exact throughout

theorem throughout_of_mem_parts {type part : Ty}
    (throughout : type.Throughout good) (member : part ∈ type.parts) :
    part.Throughout good := by
  cases type with
  | union members => exact throughout.child member
  | _ =>
      rw [List.mem_singleton.mp member]
      exact throughout

theorem throughout_unionOf (structural : Structural good) {types : List Ty}
    (throughout : ∀ type ∈ types, type.Throughout good) :
    (unionOf types).Throughout good := by
  have each : ∀ part ∈ (types.flatMap parts).foldl addDistinct [],
      part.Throughout good := by
    intro part member
    rcases mem_of_mem_foldl_addDistinct member with none | listed
    · contradiction
    · rcases List.mem_flatMap.mp listed with ⟨type, present, contributed⟩
      exact throughout_of_mem_parts (throughout type present) contributed
  unfold unionOf
  split
  · exact throughout_of_children_eq_nil structural.never rfl
  · next single =>
      rw [single] at each
      exact each _ List.mem_cons_self
  · exact throughout_iff.mpr ⟨structural.union _, each⟩

theorem throughout_join (structural : Structural good) {left right : Ty}
    (leftThroughout : left.Throughout good)
    (rightThroughout : right.Throughout good) :
    (left.join right).Throughout good := by
  unfold join
  split
  · exact leftThroughout
  · apply throughout_unionOf structural
    simp only [List.forall_mem_cons]
    exact ⟨leftThroughout, rightThroughout, List.forall_mem_nil _⟩

theorem throughout_joinAll (structural : Structural good) {types : List Ty}
    (throughout : ∀ type ∈ types, type.Throughout good) :
    (joinAll types).Throughout good := by
  cases types with
  | nil => exact throughout_of_children_eq_nil structural.never rfl
  | cons first rest =>
      rw [List.forall_mem_cons] at throughout
      exact List.foldlRecOn rest join throughout.1
        fun joined kept type member =>
          throughout_join structural kept (throughout.2 type member)

end Ty

/-! ## Types that are written -/

section

variable {declared : String → Kind → Prop} {unit : String → PhysicalUnit → Prop}
  {parameters : List (String × Ty)}
  {good : Ty → Prop}

/--
What the names and the units of type expressions stand for has the property.
-/
structure Provides (declared : String → Kind → Prop)
    (unit : String → PhysicalUnit → Prop) (good : Ty → Prop) :
    Prop where
  structural : Ty.Structural good
  applied : ∀ name arguments type, Applies declared name arguments type →
    good type
  measured : ∀ expression value, UnitExpr.Evaluates unit expression value →
    good (.quantity value)

/-- A name with good arguments stands for a good type. -/
theorem Applies.throughout (provides : Provides declared unit good)
    {name : String} {arguments : List Ty} {type : Ty}
    (applied : Applies declared name arguments type)
    (each : ∀ argument ∈ arguments, argument.Throughout good) :
    type.Throughout good := by
  refine Ty.throughout_iff.mpr
    ⟨provides.applied name arguments type applied, ?_⟩
  cases applied with
  | schema known arity => simpa [Ty.handle, Ty.children] using each
  | enumeration known => exact List.forall_mem_nil _

theorem NameDenotes.throughout (provides : Provides declared unit good)
    (bound : ∀ name type, parameters.lookup name = some type →
      type.Throughout good)
    {name : String} {type : Ty}
    (named : NameDenotes declared parameters name type) :
    type.Throughout good := by
  cases named with
  | parameter found => exact bound name type found
  | declared _ applied =>
      exact applied.throughout provides (List.forall_mem_nil _)

mutual

/--
The type of a type expression has throughout what its names, its units and the
parameters in reach have.
-/
theorem Denotes.throughout (provides : Provides declared unit good)
    (bound : ∀ name type, parameters.lookup name = some type →
      type.Throughout good) :
    (expression : TypeExpr) → {type : Ty} →
      Denotes declared unit parameters expression type → type.Throughout good
  | .primitive _ base, _, .primitive =>
      Ty.throughout_of_children_eq_nil (provides.structural.primitive base) rfl
  | .schemaName _ _, _, .schemaName named => named.throughout provides bound
  | .enumName _ _, _, .enumName named => named.throughout provides bound
  | .array _ element, _, .array inner => by
      rw [Ty.throughout_iff]
      exact ⟨provides.structural.array _,
        List.forall_mem_singleton.mpr
          (Denotes.throughout provides bound element inner)⟩
  | .optional _ inner, _, .optional present wrapped => by
      rw [← Ty.wraps_iff.mp wrapped]
      exact Ty.throughout_optionalOf provides.structural
        (Denotes.throughout provides bound inner present)
  | .quantity _ expression, _, .quantity evaluated =>
      Ty.throughout_of_children_eq_nil
        (provides.measured expression _ evaluated) rfl
  | .tuple _ items, _, .tuple each =>
      Ty.throughout_iff.mpr ⟨provides.structural.tuple _,
        Denotes.allThroughout provides bound items each⟩
  | .union _ members, _, .union each =>
      Ty.throughout_unionOf provides.structural
        (Denotes.allThroughout provides bound members each)
  | .generic _ _ arguments, _, .generic each applied =>
      applied.throughout provides
        (Denotes.allThroughout provides bound arguments each)
termination_by structural expression => expression

/-- Expressions denote good types under good parameters. -/
theorem Denotes.allThroughout (provides : Provides declared unit good)
    (bound : ∀ name type, parameters.lookup name = some type →
      type.Throughout good) :
    (expressions : List TypeExpr) → {types : List Ty} →
      List.Forall₂ (Denotes declared unit parameters) expressions types →
      ∀ type ∈ types, type.Throughout good
  | [], _, .nil => by simp
  | expression :: rest, _, .cons first further => by
      rw [List.forall_mem_cons]
      exact ⟨Denotes.throughout provides bound expression first,
        Denotes.allThroughout provides bound rest further⟩
termination_by structural expressions => expressions

end

end

end SchemaMap
