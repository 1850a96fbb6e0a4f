import SchemaMap.Proofs.Ty.Substitution
import SchemaMap.Proofs.Ty.Union

/-!
# Types in normal form

A written type is in normal form: no optional type right inside another, no
union inside another, no repetition in a union.  Substitution can disturb this,
and `normalized` restores it.  A type with its variables replaced and then
brought to normal form is what the same type is when it is built with the
replacements from the start: optional types and unions are built of instances of
their parts (`instantiated_optionalOf`, `instantiated_unionOf`).

Equality and subtyping need not take a type for its normal form.  They do for
settled types (`isSubtype_normalized_of_settled`).
-/

namespace SchemaMap.Ty

mutual

/--
The type with the optional types and unions in it built anew, from the inside
out.  Fields are not entered.
-/
def normalized : Ty → Ty
  | .primitive base => .primitive base
  | .schema name arguments parameters fields =>
      .schema name (normalizedAll arguments) parameters fields
  | .enumeration name variants => .enumeration name variants
  | .array element => .array (normalized element)
  | .optional inner => (normalized inner).optionalOf
  | .quantity unit => .quantity unit
  | .tuple items => .tuple (normalizedAll items)
  | .union members => unionOf (normalizedAll members)
  | .function parameters result =>
      .function (normalizedAll parameters) (normalized result)
  | .parameter name id => .parameter name id
  | .never => .never
  | .unknown => .unknown
termination_by structural type => type

/-- The types of a list in normal form. -/
def normalizedAll : List Ty → List Ty
  | [] => []
  | type :: rest => normalized type :: normalizedAll rest
termination_by structural types => types

end

theorem normalizedAll_eq_map (types : List Ty) :
    normalizedAll types = types.map normalized := by
  induction types with
  | nil => rfl
  | cons type rest ih => rw [normalizedAll, ih, List.map_cons]

theorem optionalOf_of_isOptional_eq_false {type : Ty}
    (required : type.isOptional = false) :
    type.optionalOf = .optional type := by
  cases type with
  | optional inner => contradiction
  | _ => rfl

theorem parts_optionalOf (type : Ty) :
    type.optionalOf.parts = [type.optionalOf] := by
  cases type <;> rfl

/-- Normal forms are tidy. -/
theorem isTidy_normalized (type : Ty) : type.normalized.IsTidy := by
  induction type with
  | union members ih =>
      rw [normalized, normalizedAll_eq_map]
      exact isTidy_unionOf
        (List.forall_mem_map.mpr fun member listed => (ih member listed).flat)
  | optional inner ih => exact isTidy_of_parts_eq (parts_optionalOf _)
  | _ => exact isTidy_of_parts_eq rfl

/-! ## Instances -/

/-- The type with its variables replaced, in normal form. -/
def instantiated (bindings : Bindings) (type : Ty) : Ty :=
  (type.substitute bindings).normalized

section

variable (bindings : Bindings)

theorem instantiated_schema (name : String) (arguments : List Ty)
    (parameters : List String) (fields : List (String × Ty)) :
    (Ty.schema name arguments parameters fields).instantiated bindings =
      .schema name (arguments.map (instantiated bindings)) parameters
        (substituteFields bindings fields) := by
  rw [instantiated, substitute, normalized, normalizedAll_eq_map,
    substituteAll_eq_map, List.map_map]
  rfl

theorem instantiated_array (element : Ty) :
    (Ty.array element).instantiated bindings =
      .array (element.instantiated bindings) := by
  rw [instantiated, substitute, normalized, instantiated]

theorem instantiated_optional (inner : Ty) :
    (Ty.optional inner).instantiated bindings =
      (inner.instantiated bindings).optionalOf := by
  rw [instantiated, substitute, normalized, instantiated]

theorem instantiated_tuple (items : List Ty) :
    (Ty.tuple items).instantiated bindings =
      .tuple (items.map (instantiated bindings)) := by
  rw [instantiated, substitute, normalized, normalizedAll_eq_map,
    substituteAll_eq_map, List.map_map]
  rfl

theorem instantiated_union (members : List Ty) :
    (Ty.union members).instantiated bindings =
      unionOf (members.map (instantiated bindings)) := by
  rw [instantiated, substitute, normalized, normalizedAll_eq_map,
    substituteAll_eq_map, List.map_map]
  rfl

theorem instantiated_function (parameters : List Ty) (result : Ty) :
    (Ty.function parameters result).instantiated bindings =
      .function (parameters.map (instantiated bindings))
        (result.instantiated bindings) := by
  rw [instantiated, substitute, normalized, normalizedAll_eq_map,
    substituteAll_eq_map, List.map_map, instantiated]
  rfl

/--
The instance of an optional type is built of the instance of what it is made of.
-/
theorem instantiated_optionalOf (type : Ty) :
    type.optionalOf.instantiated bindings =
      (type.instantiated bindings).optionalOf := by
  cases type with
  | optional inner =>
      rw [optionalOf, instantiated_optional, optionalOf_optionalOf]
  | _ => exact instantiated_optional bindings _

end

theorem substitute_empty (type : Ty) : type.substitute .empty = type := by
  have all {types : List Ty}
      (same : ∀ type ∈ types, type.substitute .empty = type) :
      types.map (substitute .empty) = types := by
    rw [List.map_congr_left same, List.map_id']
  induction type with
  | schema name arguments parameters fields argumentsSame fieldsSame =>
      have same : fields.map
          (fun field => (field.1, field.2.substitute .empty)) = fields := by
        rw [List.map_congr_left fun field member =>
          congrArg (Prod.mk field.1) (fieldsSame field member), List.map_id']
      rw [substitute, substituteAll_eq_map, substituteFields_eq_map,
        all argumentsSame, same]
  | array element same => rw [substitute, same]
  | optional inner same => rw [substitute, same]
  | tuple items same => rw [substitute, substituteAll_eq_map, all same]
  | union members same => rw [substitute, substituteAll_eq_map, all same]
  | function parameters result parametersSame resultSame =>
      rw [substitute, substituteAll_eq_map, all parametersSame, resultSame]
  | _ => rfl

/-- Instantiating without bindings is normalizing. -/
theorem instantiated_empty : instantiated .empty = normalized :=
  funext fun type => congrArg normalized (substitute_empty type)

/-! ## Instances of equal types -/

section

variable {arity : String → Nat} {named : String → Nat → Prop}

theorem respects_of_throughout {type : Ty}
    (orderly : type.Throughout (IsOrderly arity named)) :
    type.Respects arity := by
  induction type with
  | schema name arguments parameters fields argumentsRespect _ =>
      refine respects_schema_iff.mpr
        ⟨orderly _ .self, fun argument member => ?_⟩
      exact argumentsRespect argument member
        (orderly.child (List.mem_append_left _ member))
  | array element respects => exact respects (orderly.child List.mem_cons_self)
  | optional inner respects => exact respects (orderly.child List.mem_cons_self)
  | tuple items respect =>
      exact respects_tuple_iff.mpr fun item member =>
        respect item member (orderly.child member)
  | union members respect =>
      exact respects_union_iff.mpr fun type member =>
        respect type member (orderly.child member)
  | function parameters result parametersRespect resultRespects =>
      refine respects_function_iff.mpr ⟨fun parameter member => ?_, ?_⟩
      · exact parametersRespect parameter member
          (orderly.child (List.mem_append_left _ member))
      · exact resultRespects
          (orderly.child (List.mem_append_right _ List.mem_cons_self))
  | _ => exact List.forall_mem_nil _

theorem throughout_normalized {type : Ty}
    (orderly : type.Throughout (IsOrderly arity named)) :
    type.normalized.Throughout (IsOrderly arity named) := by
  have structural := @structural_isOrderly arity named
  induction type with
  | schema name arguments parameters fields argumentsOrderly _ =>
      rw [normalized, normalizedAll_eq_map, throughout_iff, children,
        List.forall_mem_append, List.forall_mem_map]
      refine ⟨(List.length_map _).trans (orderly _ .self),
        fun argument member => ?_, fun field member => ?_⟩
      · exact argumentsOrderly argument member
          (orderly.child (List.mem_append_left _ member))
      · exact orderly.child (List.mem_append_right _ member)
  | array element ih =>
      exact throughout_iff.mpr ⟨trivial,
        List.forall_mem_singleton.mpr (ih (orderly.child List.mem_cons_self))⟩
  | optional inner ih =>
      exact throughout_optionalOf structural
        (ih (orderly.child List.mem_cons_self))
  | tuple items ih =>
      rw [normalized, normalizedAll_eq_map, throughout_iff, children,
        List.forall_mem_map]
      exact ⟨trivial, fun item member => ih item member (orderly.child member)⟩
  | union members ih =>
      rw [normalized, normalizedAll_eq_map]
      apply throughout_unionOf structural
      exact List.forall_mem_map.mpr fun type member =>
        ih type member (orderly.child member)
  | function parameters result parametersOrderly resultOrderly =>
      rw [normalized, normalizedAll_eq_map, throughout_iff, children,
        List.forall_mem_append, List.forall_mem_map, List.forall_mem_singleton]
      refine ⟨trivial, fun parameter member => ?_, ?_⟩
      · exact parametersOrderly parameter member
          (orderly.child (List.mem_append_left _ member))
      · exact resultOrderly
          (orderly.child (List.mem_append_right _ List.mem_cons_self))
  | _ => exact orderly

theorem equal_optionalOf {left right : Ty} (same : equal left right = true) :
    equal left.optionalOf right.optionalOf = true := by
  cases left with
  | optional inner =>
      cases right with
      | optional other => exact same
      | _ => simp [equal] at same
  | _ =>
      cases right with
      | optional other => simp [equal] at same
      | _ => exact same

theorem forall₂_equal_map {change : Ty → Ty} {lefts rights : List Ty}
    (follows : ∀ left ∈ lefts,
      ∀ right ∈ rights, equal left right = true →
        equal (change left) (change right) = true)
    (related : List.Forall₂ (fun left right => equal left right = true) lefts
      rights) :
    List.Forall₂ (fun left right => equal left right = true) (lefts.map change)
      (rights.map change) := by
  induction related with
  | nil => exact .nil
  | @cons left right lefts rights head tail ih =>
      refine .cons
        (follows left List.mem_cons_self right List.mem_cons_self head) (ih ?_)
      intro left leftMember right rightMember
      exact follows left (List.mem_cons_of_mem _ leftMember)
        right (List.mem_cons_of_mem _ rightMember)

variable {bindings : Bindings}
  (bound : ∀ name type, bindings.get? name = some type →
    type.Throughout (IsOrderly arity named))

include bound

theorem throughout_instantiated {type : Ty}
    (orderly : type.Throughout (IsOrderly arity named)) :
    (type.instantiated bindings).Throughout (IsOrderly arity named) :=
  throughout_normalized
    (throughout_substitute (isOrderly_substitute bindings) bound type orderly)

/-- Instances of equal types are equal. -/
theorem equal_instantiated
    (unique : ∀ left right id, named left id → named right id → left = right)
    {left right : Ty} (leftOrderly : left.Throughout (IsOrderly arity named))
    (rightOrderly : right.Throughout (IsOrderly arity named))
    (same : equal left right = true) :
    equal (left.instantiated bindings) (right.instantiated bindings) =
      true := by
  induction left generalizing right with
  | schema name arguments parameters fields ih _ =>
      cases right with
      | schema rightName rights rightParameters rightFields =>
          rw [equal_schema_iff] at same
          rw [instantiated_schema, instantiated_schema, equal_schema_iff,
            List.map_eq_nil_iff, List.map_eq_nil_iff]
          refine same.imp_right
            (Or.imp_right (Or.imp_right (forall₂_equal_map ?_)))
          intro argument listed other otherListed
          exact ih argument listed
            (leftOrderly.child (List.mem_append_left _ listed))
            (rightOrderly.child (List.mem_append_left _ otherListed))
      | _ => simp [equal] at same
  | array element ih =>
      cases right with
      | array other =>
          rw [equal_array] at same
          rw [instantiated_array, instantiated_array, equal_array]
          exact ih (leftOrderly.child List.mem_cons_self)
            (rightOrderly.child List.mem_cons_self) same
      | _ => simp [equal] at same
  | optional inner ih =>
      cases right with
      | optional other =>
          rw [equal_optional] at same
          rw [instantiated_optional, instantiated_optional]
          exact equal_optionalOf
            (ih (leftOrderly.child List.mem_cons_self)
              (rightOrderly.child List.mem_cons_self) same)
      | _ => simp [equal] at same
  | tuple items ih =>
      cases right with
      | tuple others =>
          rw [equal_tuple_iff] at same
          rw [instantiated_tuple, instantiated_tuple, equal_tuple_iff]
          exact forall₂_equal_map (fun item listed other otherListed =>
            ih item listed (leftOrderly.child listed)
              (rightOrderly.child otherListed)) same
      | _ => simp [equal] at same
  | union members ih =>
      cases right with
      | union others =>
          rw [equal_union_iff] at same
          have respects {types : List Ty}
              (orderly : (Ty.union types).Throughout (IsOrderly arity named)) :
              ∀ type ∈ types.map (instantiated bindings), type.Respects arity :=
            List.forall_mem_map.mpr fun type listed =>
              respects_of_throughout
                (throughout_instantiated bound (orderly.child listed))
          rw [instantiated_union, instantiated_union]
          apply equal_unionOf (respects leftOrderly) (respects rightOrderly)
          · rw [List.forall_mem_map]
            intro member listed
            rcases same.1 member listed with ⟨other, otherListed, related⟩
            exact ⟨_, List.mem_map_of_mem otherListed,
              ih member listed (leftOrderly.child listed)
                (rightOrderly.child otherListed) related⟩
          · rw [List.forall_mem_map]
            intro other otherListed
            rcases same.2 other otherListed with ⟨member, listed, related⟩
            exact ⟨_, List.mem_map_of_mem listed,
              ih member listed (leftOrderly.child listed)
                (rightOrderly.child otherListed) related⟩
      | _ => simp [equal] at same
  | function parameters result parametersEqual resultEqual =>
      cases right with
      | function others otherResult =>
          rw [equal_function_iff] at same
          rw [instantiated_function, instantiated_function, equal_function_iff]
          refine ⟨forall₂_equal_map
            (fun parameter listed other otherListed => ?_) same.1, ?_⟩
          · exact parametersEqual parameter listed
              (leftOrderly.child (List.mem_append_left _ listed))
              (rightOrderly.child (List.mem_append_left _ otherListed))
          · exact resultEqual
              (leftOrderly.child (List.mem_append_right _ List.mem_cons_self))
              (rightOrderly.child (List.mem_append_right _ List.mem_cons_self))
              same.2
      | _ => simp [equal] at same
  | parameter name id =>
      cases right with
      | parameter other otherId =>
          have sameId : id = otherId := by simpa [equal] using same
          subst sameId
          rw [unique name other id (leftOrderly _ .self) (rightOrderly _ .self)]
          exact equal_refl _
      | _ => simp [equal] at same
  | _ => cases right <;> first | exact same | simp [equal] at same

/-- The instance of a union is built of the instances of its members. -/
theorem instantiated_unionOf
    (unique : ∀ left right id, named left id → named right id → left = right)
    {members : List Ty} (tidy : ∀ member ∈ members, member.IsTidy)
    (orderly : ∀ member ∈ members, member.Throughout (IsOrderly arity named)) :
    (unionOf members).instantiated bindings =
      unionOf (members.map (instantiated bindings)) := by
  have partOrderly : ∀ part ∈ members.flatMap parts,
      part.Throughout (IsOrderly arity named) := by
    intro part listed
    rcases List.mem_flatMap.mp listed with ⟨member, present, contributed⟩
    exact throughout_of_mem_parts (orderly member present) contributed
  have respects : ∀ part ∈ members.flatMap parts,
      (part.instantiated bindings).Respects arity :=
    fun part listed =>
      respects_of_throughout
        (throughout_instantiated bound (partOrderly part listed))
  refine map_unionOf rfl (instantiated_union bindings)
    (fun type => isTidy_normalized _) tidy respects ?_
  intro left leftListed right rightListed
  exact equal_instantiated bound unique (partOrderly left leftListed)
    (partOrderly right rightListed)

end

/-! ## Settled types -/

/--
Subtyping takes the type for its normal form.  Arrays, optional types and unions
follow what they are made of, except that an optional type must not lie right
inside another.  Everything else has to equal its normal form.
-/
inductive Settled : Ty → Prop where
  | same {type : Ty} (unchanged : equal type type.normalized = true) :
      Settled type
  | array {element : Ty} (settled : Settled element) : Settled (.array element)
  | optional {inner : Ty} (settled : Settled inner)
      (required : inner.normalized.isOptional = false) :
      Settled (.optional inner)
  | union {members : List Ty} (settled : ∀ member ∈ members, Settled member) :
      Settled (.union members)

/-- A settled type and its normal form are subtypes of each other. -/
theorem isSubtype_normalized_of_settled (widening : Bool) {arity : String → Nat}
    {named : String → Nat → Prop} {type : Ty}
    (orderly : type.Throughout (IsOrderly arity named))
    (settled : type.Settled) :
    isSubtype widening type type.normalized = true ∧
      isSubtype widening type.normalized type = true := by
  induction settled with
  | same unchanged =>
      exact ⟨isSubtype_of_equal unchanged,
        isSubtype_of_equal (equal_symm unchanged)⟩
  | array _ ih =>
      rw [normalized, array_isSubtype_array_iff, array_isSubtype_array_iff]
      exact ih (orderly.child List.mem_cons_self)
  | @optional inner _ required ih =>
      rw [normalized, optionalOf_of_isOptional_eq_false required,
        optional_isSubtype_optional_iff, optional_isSubtype_optional_iff]
      exact ih (orderly.child List.mem_cons_self)
  | @union members _ ih =>
      have respects : ∀ type ∈ members.map normalized, type.Respects arity :=
        List.forall_mem_map.mpr fun member listed =>
          respects_of_throughout (throughout_normalized (orderly.child listed))
      have whole := respects_unionOf respects
      rw [normalized, normalizedAll_eq_map]
      constructor
      · have above : ∀ type ∈ members.map normalized,
            isSubtype widening type (unionOf (members.map normalized)) = true :=
          (unionOf_isSubtype_iff respects whole).mp (isSubtype_refl _)
        rw [isSubtype_union_left_iff]
        intro member listed
        have normal := List.mem_map_of_mem (f := normalized) listed
        exact isSubtype_trans (respects_of_throughout (orderly.child listed))
          (respects _ normal) whole
          (ih member listed (orderly.child listed)).1 (above _ normal)
      · rw [unionOf_isSubtype_iff respects (respects_of_throughout orderly),
          List.forall_mem_map]
        exact fun member listed =>
          isSubtype_union_right listed
            (ih member listed (orderly.child listed)).2

/--
Inside arrays and optional types lies neither a union nor an unknown type.
-/
def hasPlainCore : Ty → Bool
  | .array element => element.hasPlainCore
  | .optional inner => inner.hasPlainCore
  | .union _ => false
  | .unknown => false
  | _ => true

/--
A type with a plain core is normalized to a plain type, to none, or to an
optional one of these.
-/
theorem normalized_of_hasPlainCore {type : Ty}
    (core : type.hasPlainCore = true) :
    (type.normalized.isPlain = true ∨ type.normalized = .never) ∨
      ∃ inner, type.normalized = .optional inner ∧
        (inner.isPlain = true ∨ inner = .never) := by
  induction type with
  | optional inner ih =>
      refine .inr ?_
      rcases ih core with bare | ⟨other, isOptional, bare⟩
      · have required : inner.normalized.isOptional = false := by
          cases found : inner.normalized with
          | optional other => simp [found, isPlain] at bare
          | _ => rfl
        exact ⟨inner.normalized, optionalOf_of_isOptional_eq_false required,
          bare⟩
      · exact ⟨other, by rw [normalized, isOptional, optionalOf], bare⟩
  | never => exact .inl (.inr rfl)
  | union members => simp [hasPlainCore] at core
  | unknown => simp [hasPlainCore] at core
  | _ => exact .inl (.inl rfl)

/-- An optional type lies below no plain type and not below `never`. -/
theorem not_optional_isSubtype_core {widening : Bool} {inner sup : Ty}
    (bare : sup.isPlain = true ∨ sup = .never) :
    isSubtype widening (.optional inner) sup = false := by
  rcases bare with plain | rfl
  · exact not_optional_isSubtype plain
  · exact not_isSubtype_never (by simp) (by simp)

/-- Without unions, only settled types are subtypes of their normal forms. -/
theorem settled_of_isSubtype_normalized {widening : Bool} {type : Ty}
    (core : type.hasPlainCore = true)
    (below : isSubtype widening type type.normalized = true) :
    type.Settled := by
  have plain {type : Ty} (isPlain : type.isPlain = true)
      (normalPlain : type.normalized.isPlain = true)
      (notArray : ∀ element, type ≠ .array element) (notInt : type ≠ .int)
      (below : isSubtype widening type type.normalized =
        true) : type.Settled := by
    rcases (isSubtype_plain_iff isPlain normalPlain).mp below with
      same | ⟨element, _, isArray, _⟩ | ⟨_, isInt, _⟩
    · exact .same same
    · exact absurd isArray (notArray element)
    · exact absurd isInt notInt
  induction type with
  | array element ih =>
      rw [normalized, array_isSubtype_array_iff] at below
      exact .array (ih core below)
  | optional inner ih =>
      cases required : inner.normalized.isOptional with
      | false =>
          rw [normalized, optionalOf_of_isOptional_eq_false required,
            optional_isSubtype_optional_iff] at below
          exact .optional (ih core below) required
      | true =>
          -- The normal form has one optional layer, of which nothing optional
          -- lies inside.
          rcases normalized_of_hasPlainCore core with
            bare | ⟨other, isOptional, bare⟩
          · rw [normalized] at bare
            cases found : inner.normalized <;>
              simp [found, optionalOf, isPlain] at bare
          · rw [isOptional, optional_isSubtype_optional_iff] at below
            cases inner with
            | optional deeper =>
                rw [not_optional_isSubtype_core bare] at below
                contradiction
            | union members => simp [hasPlainCore] at core
            | _ => simp [normalized, Ty.isOptional] at required
  | primitive base => exact .same (equal_refl _)
  | union members => simp [hasPlainCore] at core
  | unknown => simp [hasPlainCore] at core
  | never => exact .same (equal_refl _)
  | schema => exact plain rfl rfl (by simp) (by simp [int]) below
  | tuple => exact plain rfl rfl (by simp) (by simp [int]) below
  | function => exact plain rfl rfl (by simp) (by simp [int]) below
  | _ => exact .same (equal_refl _)

end SchemaMap.Ty
