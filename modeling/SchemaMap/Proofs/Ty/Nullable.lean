import SchemaMap.Proofs.Ty.Alternatives

/-!
# Values that may be missing

A type is nullable when a value of it may be missing: when it is optional, when
nothing is known about it, or when a member of a union is nullable.  Nullable
types are the ones that have an alternative which is not plain
(`isNullable_iff`), and above such an alternative lies no plain type.  So a
value that may be missing never gets to a place where one is required, while
every value may go to a place where it might as well be missing
(`isNullable_and_isSubtype_optionalOf`).
-/

namespace SchemaMap.Ty

mutual

/-- Whether a value of the type may be missing. -/
def isNullable : Ty → Bool
  | .optional _ => true
  | .unknown => true
  | .union members => anyNullable members
  | _ => false
termination_by structural type => type

/-- Whether a value of some type of a list may be missing. -/
def anyNullable : List Ty → Bool
  | [] => false
  | type :: rest => isNullable type || anyNullable rest
termination_by structural types => types

end

theorem anyNullable_eq_any (types : List Ty) :
    anyNullable types = types.any isNullable := by
  induction types with
  | nil => rfl
  | cons type rest ih => rw [anyNullable, ih, List.any_cons]

/-- A union is nullable exactly when a member is. -/
theorem isNullable_union_iff {members : List Ty} :
    (union members).isNullable = true ↔
      ∃ member ∈ members, member.isNullable = true := by
  rw [isNullable, anyNullable_eq_any, List.any_eq_true]

/-- The nullable types are those with an alternative that is not plain. -/
theorem isNullable_iff {type : Ty} :
    type.isNullable = true ↔
      ∃ alternative ∈ type.alternatives, alternative.isPlain = false := by
  induction type with
  | union members ih =>
      rw [isNullable_union_iff, alternatives_union]
      constructor
      · rintro ⟨member, listed, nullable⟩
        rcases (ih member listed).mp nullable with ⟨alternative, inner, free⟩
        exact ⟨alternative, List.mem_flatMap.mpr ⟨member, listed, inner⟩, free⟩
      · rintro ⟨alternative, inner, free⟩
        rcases List.mem_flatMap.mp inner with ⟨member, listed, here⟩
        exact ⟨member, listed, (ih member listed).mpr ⟨alternative, here, free⟩⟩
  | _ => simp [isNullable, alternatives, isPlain]

section

variable {widening : Bool} {sub sup : Ty}

/-- Above a nullable type lie nullable types only. -/
theorem isNullable_of_isSubtype (below : isSubtype widening sub sup = true)
    (nullable : sub.isNullable = true) :
    sup.isNullable = true := by
  rw [isNullable_iff] at nullable ⊢
  rcases nullable with ⟨lower, member, free⟩
  have single := isSingle_of_mem_alternatives member
  rcases isSubtype_iff_alternatives.mp below lower member with
    ⟨upper, above, compared⟩
  refine ⟨upper, above, Bool.eq_false_iff.mpr fun plain => ?_⟩
  rw [isPlain_of_isSubtype single.notNever single.notUnion plain
    compared] at free
  contradiction

theorem present_of_isPlain {type : Ty} (plain : type.isPlain = true) :
    type.present = type := by
  cases type with
  | optional inner => contradiction
  | _ => rfl

/-- What takes a value that may be missing takes the value that is there. -/
theorem IsSingle.present_isSubtype (single : sub.IsSingle)
    (below : isSubtype widening sub sup = true) :
    isSubtype widening sub.present sup = true := by
  induction sup generalizing sub with
  | union members ih =>
      rcases single.isSubtype_union_iff.mp below with ⟨member, listed, above⟩
      exact isSubtype_union_right listed (ih member listed single above)
  | optional inner ih =>
      -- The content of an optional type may be any type, so its alternatives
      -- are compared.
      rw [single.isSubtype_optional_iff,
        isSubtype_iff_forall_alternatives] at below
      rw [isSubtype_iff_forall_alternatives]
      intro alternative member
      have isSingle := isSingle_of_mem_alternatives member
      exact isSingle.isSubtype_optional_iff.mpr
        (ih isSingle (below alternative member))
  | never =>
      rw [not_isSubtype_never single.notNever single.notUnion] at below
      contradiction
  | unknown => exact isSubtype_unknown _
  | _ =>
      have plain :=
        isPlain_of_isSubtype single.notNever single.notUnion rfl below
      rwa [present_of_isPlain plain]

theorem isSubtype_optional_of_isSubtype
    (below : isSubtype widening sub sup = true) :
    isSubtype widening sub (.optional sup) = true := by
  rw [isSubtype_iff_forall_alternatives] at below ⊢
  intro alternative member
  have single := isSingle_of_mem_alternatives member
  exact single.isSubtype_optional_iff.mpr
    (single.present_isSubtype (below alternative member))

theorem isSubtype_optionalOf_of_isSubtype
    (below : isSubtype widening sub sup = true) :
    isSubtype widening sub sup.optionalOf = true := by
  cases sup with
  | optional inner => exact below
  | _ => exact isSubtype_optional_of_isSubtype below

/-- A type that is not nullable has plain alternatives. -/
theorem isPlain_of_mem_alternatives {type alternative : Ty}
    (required : type.isNullable = false)
    (member : alternative ∈ type.alternatives) :
    alternative.isPlain = true := by
  by_contra free
  rw [isNullable_iff.mpr
    ⟨alternative, member, Bool.eq_false_iff.mpr free⟩] at required
  contradiction

/--
An optional type takes a value that cannot be missing exactly when its content
does.
-/
theorem isSubtype_optional_iff_of_required (required : sub.isNullable = false) :
    isSubtype widening sub (.optional sup) = true ↔
      isSubtype widening sub sup = true := by
  rw [isSubtype_iff_forall_alternatives,
    @isSubtype_iff_forall_alternatives _ _ sup]
  refine forall₂_congr fun alternative member => ?_
  rw [(isSingle_of_mem_alternatives member).isSubtype_optional_iff,
    present_of_isPlain (isPlain_of_mem_alternatives required member)]

/-- Optional types keep the order of types that are not nullable. -/
theorem optionalOf_isSubtype_optionalOf (required : sub.isNullable = false)
    (below : isSubtype widening sub sup = true) :
    isSubtype widening sub.optionalOf sup.optionalOf = true := by
  have wrapped : sub.optionalOf = .optional sub := by
    cases sub with
    | optional inner => contradiction
    | _ => rfl
  rw [wrapped]
  cases sup with
  | optional inner =>
      exact optional_isSubtype_optional_iff.mpr
        ((isSubtype_optional_iff_of_required required).mp below)
  | _ => exact optional_isSubtype_optional_iff.mpr below

end

/--
For both settings of the widening of numbers: a type that lies above a nullable
one is nullable.  A type that lies below another lies below its optional form,
and unless it is nullable, its own optional form does so too.
-/
theorem isNullable_and_isSubtype_optionalOf (widening : Bool) :
    (∀ sub sup : Ty, isSubtype widening sub sup = true → sub.isNullable = true →
      sup.isNullable = true) ∧
      ∀ type target : Ty, isSubtype widening type target = true →
        isSubtype widening type target.optionalOf = true ∧
          (type.isNullable = false →
            isSubtype widening type.optionalOf target.optionalOf = true) := by
  constructor
  · intro sub sup below nullable
    exact isNullable_of_isSubtype below nullable
  · intro type target below
    exact ⟨isSubtype_optionalOf_of_isSubtype below,
      fun required => optionalOf_isSubtype_optionalOf required below⟩

/--
Optional types inside unions on both sides, and a union that lies below an
optional type of widened numbers.
-/
theorem isNullable_and_isSubtype_optionalOf_union :
    (isSubtype true (.union [.string, .optional .int])
      (.union [.optional .float, .string]) = true ∧
      (union [.string, .optional .int]).isNullable = true ∧
      (union [.optional .float, .string]).isNullable = true) ∧
    isSubtype true (.union [.int, .float]) (.optional .float) = true ∧
      (union [.int, .float]).isNullable = false ∧
      isSubtype true (.optional (.union [.int, .float])) (.optional .float) =
        true := by
  have first : isSubtype true (.union [.string, .optional .int])
      (.union [.optional .float, .string]) = true := by
    decide +kernel
  have second : isSubtype true (.union [.int, .float]) (.optional .float) =
      true := by
    decide +kernel
  have theory := isNullable_and_isSubtype_optionalOf true
  exact ⟨⟨first, rfl, theory.1 _ _ first rfl⟩, second, rfl,
    (theory.2 _ _ second).2 rfl⟩

-- A nullable type may lie below an optional one although its own optional form
-- does not.
example :
    isSubtype false (.union [.optional .int]) (.optional .int) = true ∧
      isSubtype false (optionalOf (.union [.optional .int]))
        (optionalOf (.optional .int)) = false := by
  decide +kernel

end SchemaMap.Ty
