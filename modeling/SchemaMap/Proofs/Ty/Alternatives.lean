import SchemaMap.Proofs.Ty.Subtype

/-!
# The alternatives of a type

A value of a union has the type of one of the members, and where a member is a
union again, the type of one of its members.  What is left when all unions are
taken apart are the alternatives of a type.  None of them is `never` or a union,
so each of them is compared by a rule of its own, and subtyping as a whole is a
matter of the alternatives: each alternative of the smaller type lies below an
alternative of the larger one (`isSubtype_iff_alternatives`).
-/

namespace SchemaMap.Ty

mutual

/--
The types that a value may have, where unions are taken apart at every depth.
-/
def alternatives : Ty → List Ty
  | .union members => alternativesAll members
  | .never => []
  | type => [type]
termination_by structural type => type

/-- The alternatives of the types of a list. -/
def alternativesAll : List Ty → List Ty
  | [] => []
  | type :: rest => alternatives type ++ alternativesAll rest
termination_by structural types => types

end

theorem alternativesAll_eq_flatMap (types : List Ty) :
    alternativesAll types = types.flatMap alternatives := by
  induction types with
  | nil => rfl
  | cons type rest ih => rw [alternativesAll, ih, List.flatMap_cons]

theorem alternatives_union (members : List Ty) :
    (union members).alternatives = members.flatMap alternatives :=
  alternativesAll_eq_flatMap members

/-- The type is neither `never` nor a union. -/
structure IsSingle (type : Ty) : Prop where
  notNever : type ≠ .never
  notUnion : ∀ members, type ≠ .union members

theorem isSingle_of_mem_alternatives {type alternative : Ty}
    (member : alternative ∈ type.alternatives) :
    alternative.IsSingle := by
  induction type with
  | union members ih =>
      rw [alternatives_union] at member
      rcases List.mem_flatMap.mp member with ⟨part, listed, inner⟩
      exact ih part listed inner
  | never => contradiction
  | _ =>
      rw [List.mem_singleton.mp member]
      exact ⟨by simp, by simp⟩

/-! ## Subtypes -/

section

variable {widening : Bool} {sub sup : Ty}

/-- A single type is below a union exactly when it is below a member. -/
theorem IsSingle.isSubtype_union_iff (single : sub.IsSingle)
    {members : List Ty} :
    isSubtype widening sub (.union members) = true ↔
      ∃ member ∈ members, isSubtype widening sub member = true := by
  constructor
  · exact exists_of_isSubtype_union single.notNever single.notUnion
  · rintro ⟨member, listed, below⟩
    exact isSubtype_union_right listed below

/-- A type lies below what all its alternatives lie below. -/
theorem isSubtype_iff_forall_alternatives :
    isSubtype widening sub sup = true ↔
      ∀ alternative ∈ sub.alternatives,
        isSubtype widening alternative sup = true := by
  induction sub with
  | union members ih =>
      rw [isSubtype_union_left_iff, alternatives_union, List.forall_mem_flatMap]
      exact forall₂_congr ih
  | never => exact iff_of_true (never_isSubtype sup) (List.forall_mem_nil _)
  | _ => simp [alternatives]

/-- Above a single type lie the types that have an alternative above it. -/
theorem IsSingle.isSubtype_iff_exists_alternative (single : sub.IsSingle) :
    isSubtype widening sub sup = true ↔
      ∃ alternative ∈ sup.alternatives,
        isSubtype widening sub alternative = true := by
  induction sup with
  | union members ih =>
      rw [single.isSubtype_union_iff, alternatives_union]
      constructor
      · rintro ⟨member, listed, below⟩
        rcases (ih member listed).mp below with ⟨alternative, inner, above⟩
        exact ⟨alternative, List.mem_flatMap.mpr ⟨member, listed, inner⟩, above⟩
      · rintro ⟨alternative, inner, above⟩
        rcases List.mem_flatMap.mp inner with ⟨member, listed, here⟩
        exact ⟨member, listed,
          (ih member listed).mpr ⟨alternative, here, above⟩⟩
  | never =>
      rw [not_isSubtype_never single.notNever single.notUnion]
      simp [alternatives]
  | _ => simp [alternatives]

/--
One type lies below another if each alternative of the one lies below an
alternative of the other, and only then.
-/
theorem isSubtype_iff_alternatives :
    isSubtype widening sub sup = true ↔
      ∀ lower ∈ sub.alternatives,
        ∃ upper ∈ sup.alternatives, isSubtype widening lower upper = true := by
  rw [isSubtype_iff_forall_alternatives]
  exact forall₂_congr fun lower member =>
    (isSingle_of_mem_alternatives member).isSubtype_iff_exists_alternative

/-- Two types above the same single types are above the same types. -/
theorem isSubtype_congr_of_isSingle {other : Bool} {target : Ty}
    (agree : ∀ sub : Ty, sub.IsSingle →
      (isSubtype widening sub sup = true ↔ isSubtype other sub target = true))
    (sub : Ty) :
    isSubtype widening sub sup = true ↔ isSubtype other sub target = true := by
  rw [isSubtype_iff_forall_alternatives,
    @isSubtype_iff_forall_alternatives other]
  exact forall₂_congr fun alternative member =>
    agree alternative (isSingle_of_mem_alternatives member)

/-! ## Single types -/

namespace IsSingle

variable (single : sub.IsSingle)

include single

/--
An optional type takes a value that may be missing if its content takes the
value that is there.
-/
theorem isSubtype_optional_iff :
    isSubtype widening sub (.optional sup) = true ↔
      isSubtype widening sub.present sup = true := by
  cases sub with
  | optional inner => exact optional_isSubtype_optional_iff
  | union members => exact absurd rfl (single.notUnion members)
  | never => exact absurd rfl single.notNever
  | _ => exact Ty.isSubtype_optional_iff single.notNever single.notUnion rfl

/-- Exactly arrays of subtypes are below an array. -/
theorem isSubtype_array_iff :
    isSubtype widening sub (.array sup) = true ↔
      ∃ element, sub = .array element ∧
        isSubtype widening element sup = true := by
  constructor
  · intro below
    have plain := isPlain_of_isSubtype single.notNever single.notUnion rfl below
    rcases (isSubtype_plain_iff plain rfl).mp below with
      same | ⟨element, _, rfl, ⟨⟩, inner⟩ | ⟨_, _, ⟨⟩⟩
    · cases sub with
      | array element =>
          exact ⟨element, rfl, array_isSubtype_array_iff.mp below⟩
      | _ => simp [equal] at same
    · exact ⟨element, rfl, inner⟩
  · rintro ⟨element, rfl, inner⟩
    exact array_isSubtype_array_iff.mpr inner

/--
Among the plain types without elements there is equality and the widening of
numbers.
-/
theorem isSubtype_plain_iff (plain : sup.isPlain = true)
    (bare : sup.element? = none) :
    isSubtype widening sub sup = true ↔
      equal sub sup = true ∨ (widening = true ∧ sub = .int ∧ sup = .float) := by
  constructor
  · intro below
    have subPlain :=
      isPlain_of_isSubtype single.notNever single.notUnion plain below
    rcases (Ty.isSubtype_plain_iff subPlain plain).mp below with
      same | ⟨_, _, _, rfl, _⟩ | widened
    · exact .inl same
    · contradiction
    · exact .inr widened
  · rintro (same | ⟨rfl, rfl, rfl⟩)
    · exact isSubtype_of_equal same
    · exact (Ty.isSubtype_plain_iff rfl rfl).mpr (.inr (.inr ⟨rfl, rfl, rfl⟩))

end IsSingle

end

end SchemaMap.Ty
