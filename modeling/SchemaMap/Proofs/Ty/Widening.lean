import SchemaMap.Proofs.Ty.Alternatives

/-!
# What the widening of numbers adds

With widening an `Int` is accepted where a `Float` is expected.  This goes as
far as the rules of subtyping look into the expected type: through arrays,
optional types and unions, but neither into tuples and functions nor into the
arguments of schemas, which are compared by equality.  So widening is the same
as expecting `Float | Int` at these places (`isSubtype_widening_iff_relaxed`).
-/

namespace SchemaMap.Ty

mutual

/--
The type with `Float | Int` for every `Float` that is reached through arrays,
optional types and unions only.
-/
def relaxed : Ty → Ty
  | .primitive .float => .union [.float, .int]
  | .array element => .array (relaxed element)
  | .optional inner => .optional (relaxed inner)
  | .union members => .union (relaxedAll members)
  | type => type
termination_by structural type => type

/-- The relaxed types of a list. -/
def relaxedAll : List Ty → List Ty
  | [] => []
  | type :: rest => relaxed type :: relaxedAll rest
termination_by structural types => types

end

theorem relaxedAll_eq_map (types : List Ty) :
    relaxedAll types = types.map relaxed := by
  induction types with
  | nil => rfl
  | cons type rest ih => rw [relaxedAll, ih, List.map_cons]

namespace IsSingle

variable {sub : Ty} (single : sub.IsSingle)

include single

/-- With widening exactly the subtypes of the relaxed type are below a float. -/
theorem isSubtype_float_iff :
    isSubtype true sub .float = true ↔
      isSubtype false sub (relaxed .float) = true := by
  have only : ∀ base, equal sub (.primitive base) = true ↔
      sub = .primitive base := by
    intro base
    cases sub <;> simp [equal]
  have members : isSubtype false sub (relaxed .float) = true ↔
      isSubtype false sub .float = true ∨ isSubtype false sub .int = true := by
    rw [float, relaxed, single.isSubtype_union_iff]
    simp only [List.mem_cons, List.not_mem_nil, or_false, exists_eq_or_imp,
      exists_eq_left, float]
  rw [members, single.isSubtype_plain_iff rfl rfl,
    single.isSubtype_plain_iff rfl rfl, single.isSubtype_plain_iff rfl rfl,
    float, int, only, only]
  simp

/--
Widening does not show at a plain type other than `Float` that has no elements.
-/
theorem isSubtype_widening_iff {sup : Ty} (plain : sup.isPlain = true)
    (bare : sup.element? = none) (notFloat : sup ≠ .float) :
    isSubtype true sub sup = true ↔ isSubtype false sub sup = true := by
  rw [single.isSubtype_plain_iff plain bare,
    single.isSubtype_plain_iff plain bare]
  simp [notFloat]

end IsSingle

/--
With widening a type lies below another exactly when it lies, without widening,
below the other one relaxed, which has `Float | Int` for every `Float` that is
reached through arrays, optional types and unions.
-/
theorem isSubtype_widening_iff_relaxed (sub sup : Ty) :
    isSubtype true sub sup = true ↔ isSubtype false sub sup.relaxed = true := by
  -- The larger type decides which rule applies to a single type.
  induction sup generalizing sub with
  | primitive base =>
      cases base with
      | float =>
          exact isSubtype_congr_of_isSingle
            (fun _ single => single.isSubtype_float_iff) sub
      | _ =>
          exact isSubtype_congr_of_isSingle
            (fun _ single =>
              single.isSubtype_widening_iff rfl rfl (by simp [float])) sub
  | array element ih =>
      refine isSubtype_congr_of_isSingle (fun sub single => ?_) sub
      rw [relaxed, single.isSubtype_array_iff, single.isSubtype_array_iff]
      simp only [ih]
  | optional inner ih =>
      refine isSubtype_congr_of_isSingle (fun sub single => ?_) sub
      rw [relaxed, single.isSubtype_optional_iff, single.isSubtype_optional_iff,
        ih]
  | union members ih =>
      refine isSubtype_congr_of_isSingle (fun sub single => ?_) sub
      rw [relaxed, relaxedAll_eq_map, single.isSubtype_union_iff,
        single.isSubtype_union_iff]
      simp only [List.mem_map, exists_exists_and_eq_and]
      exact exists_congr fun member =>
        and_congr_right fun listed => ih member listed sub
  | never =>
      refine isSubtype_congr_of_isSingle (fun sub single => ?_) sub
      show isSubtype true sub .never = true ↔ isSubtype false sub .never = true
      rw [not_isSubtype_never single.notNever single.notUnion,
        not_isSubtype_never single.notNever single.notUnion]
  | unknown => exact iff_of_true (isSubtype_unknown sub) (isSubtype_unknown sub)
  | _ =>
      exact isSubtype_congr_of_isSingle
        (fun _ single =>
          single.isSubtype_widening_iff rfl rfl (by simp [float])) sub

-- A tuple is not entered, so its numbers are not widened.
example :
    isSubtype true (.array .int) (.array (.optional .float)) = true ∧
      isSubtype true (.tuple [.int]) (.tuple [.float]) = false := by
  decide +kernel

end SchemaMap.Ty
