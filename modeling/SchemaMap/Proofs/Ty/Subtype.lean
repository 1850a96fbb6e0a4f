import SchemaMap.Proofs.Ty.Equality
import SchemaMap.Ty.Subtype

/-!
# Subtyping is a preorder with a least and a greatest type

`Ty.isSubtype` tries equality first and then the first case that fits.  The
lemmas of the first section say what it decides for each shape of its two
arguments, whatever the order of the cases: a union lies below what all its
members lie below (`isSubtype_union_left_iff`), although the comparison of two
unions as sets comes before that rule.

Transitivity follows by induction on the sizes of the three types.  It needs
that every schema has the number of arguments that belongs to its name, for the
sake of equality only.
-/

namespace SchemaMap.Ty

variable {widening : Bool}

/-! ## The cases of subtyping -/

/-- Equal types are subtypes of one another. -/
theorem isSubtype_of_equal {sub sup : Ty} (same : equal sub sup = true) :
    isSubtype widening sub sup = true := by
  rw [isSubtype.eq_def, same, Bool.true_or]

theorem isSubtype_refl (type : Ty) : isSubtype widening type type = true :=
  isSubtype_of_equal (equal_refl type)

theorem never_isSubtype (sup : Ty) : isSubtype widening .never sup = true := by
  simp [isSubtype]

theorem isSubtype_unknown (sub : Ty) :
    isSubtype widening sub .unknown = true := by
  cases sub <;> simp [isSubtype]

/--
Types that are neither least nor greatest nor built by a rule of their own on
the right.
-/
def isPlain : Ty → Bool
  | .optional _ | .union _ | .never | .unknown => false
  | _ => true

theorem isSubtype_union_right {sub member : Ty} {members : List Ty}
    (found : member ∈ members) (below : isSubtype widening sub member = true) :
    isSubtype widening sub (.union members) = true := by
  -- A union on the left goes first, member by member, so the induction is on
  -- the smaller type.
  induction sub generalizing member members with
  | union parts partsBelow =>
      rw [isSubtype.eq_def, Bool.or_eq_true]
      right
      simp only [allSubtypes_eq_all, List.all_eq_true]
      intro part partFound
      refine partsBelow part partFound found ?_
      rw [isSubtype.eq_def, Bool.or_eq_true] at below
      rcases below with same | rule
      · cases member with
        | union others =>
            rw [equal_union_iff] at same
            obtain ⟨other, otherFound, partSame⟩ := same.1 part partFound
            exact partsBelow part partFound otherFound
              (isSubtype_of_equal partSame)
        | _ => simp [equal] at same
      · cases member with
        | unknown => exact isSubtype_unknown part
        | _ =>
            simp only [allSubtypes_eq_all, List.all_eq_true] at rule
            exact rule part partFound
  | never => exact never_isSubtype _
  | _ =>
      rw [isSubtype.eq_def, Bool.or_eq_true]
      right
      simp only [anySupertype_eq_any, List.any_eq_true]
      exact ⟨member, found, below⟩

/-- A union is below a type exactly when every member is. -/
theorem isSubtype_union_left_iff {members : List Ty} {sup : Ty} :
    isSubtype widening (.union members) sup = true ↔
      ∀ member ∈ members, isSubtype widening member sup = true := by
  constructor
  · intro below member found
    rw [isSubtype.eq_def, Bool.or_eq_true] at below
    rcases below with same | rule
    · cases sup with
      | union others =>
          rw [equal_union_iff] at same
          obtain ⟨other, otherFound, memberSame⟩ := same.1 member found
          exact isSubtype_union_right otherFound (isSubtype_of_equal memberSame)
      | _ => simp [equal] at same
    · cases sup with
      | unknown => exact isSubtype_unknown member
      | _ =>
          simp only [allSubtypes_eq_all, List.all_eq_true] at rule
          exact rule member found
  · intro below
    rw [isSubtype.eq_def, Bool.or_eq_true]
    right
    cases sup with
    | unknown => rfl
    | _ =>
        simp only [allSubtypes_eq_all, List.all_eq_true]
        exact below

/--
Below a union lie, apart from `never` and from unions, the types below one of
its members.
-/
theorem exists_of_isSubtype_union {sub : Ty} {members : List Ty}
    (notNever : sub ≠ .never) (notUnion : ∀ parts, sub ≠ .union parts)
    (below : isSubtype widening sub (.union members) = true) :
    ∃ member ∈ members, isSubtype widening sub member = true := by
  rw [isSubtype.eq_def, Bool.or_eq_true] at below
  rcases below with same | rule
  · cases sub with
    | union parts => exact absurd rfl (notUnion parts)
    | _ => simp [equal] at same
  · cases sub with
    | union parts => exact absurd rfl (notUnion parts)
    | never => exact absurd rfl notNever
    | _ => simpa only [anySupertype_eq_any, List.any_eq_true] using rule

theorem optional_isSubtype_optional_iff {sub sup : Ty} :
    isSubtype widening (.optional sub) (.optional sup) = true ↔
      isSubtype widening sub sup = true := by
  rw [isSubtype.eq_def, Bool.or_eq_true, equal_optional]
  constructor
  · rintro (same | below)
    · exact isSubtype_of_equal same
    · exact below
  · exact Or.inr

/--
An optional type takes what its content takes, apart from other optional types
and from unions.
-/
theorem isSubtype_optional_iff {sub sup : Ty} (notNever : sub ≠ .never)
    (notUnion : ∀ parts, sub ≠ .union parts)
    (required : sub.isOptional = false) :
    isSubtype widening sub (.optional sup) = true ↔
      isSubtype widening sub sup = true := by
  rw [isSubtype.eq_def]
  cases sub with
  | union parts => exact absurd rfl (notUnion parts)
  | never => exact absurd rfl notNever
  | optional inner => simp [isOptional] at required
  | _ => simp [equal]

theorem array_isSubtype_array_iff {sub sup : Ty} :
    isSubtype widening (.array sub) (.array sup) = true ↔
      isSubtype widening sub sup = true := by
  rw [isSubtype.eq_def, Bool.or_eq_true, equal_array]
  constructor
  · rintro (same | below)
    · exact isSubtype_of_equal same
    · exact below
  · exact Or.inr

/-- Below `never` lie, apart from unions, no types but itself. -/
theorem not_isSubtype_never {sub : Ty} (notNever : sub ≠ .never)
    (notUnion : ∀ parts, sub ≠ .union parts) :
    isSubtype widening sub .never = false := by
  cases sub with
  | union parts => exact absurd rfl (notUnion parts)
  | never => exact absurd rfl notNever
  | _ => simp [isSubtype.eq_def, equal]

theorem not_optional_isSubtype {inner sup : Ty} (plain : sup.isPlain = true) :
    isSubtype widening (.optional inner) sup = false := by
  cases sup <;> simp_all [isPlain, isSubtype.eq_def, equal]

/--
Below a plain type lie, apart from `never` and from unions, plain types only.
-/
theorem isPlain_of_isSubtype {sub sup : Ty} (notNever : sub ≠ .never)
    (notUnion : ∀ parts, sub ≠ .union parts) (plain : sup.isPlain = true)
    (below : isSubtype widening sub sup = true) :
    sub.isPlain = true := by
  cases sub with
  | union parts => exact absurd rfl (notUnion parts)
  | never => exact absurd rfl notNever
  | optional inner =>
      rw [not_optional_isSubtype plain] at below
      exact absurd below Bool.false_ne_true
  | unknown => cases sup <;> simp_all [isPlain, isSubtype.eq_def, equal]
  | _ => rfl

/--
Between plain types there is equality, what holds between the elements of
arrays, and the widening of numbers.
-/
theorem isSubtype_plain_iff {sub sup : Ty} (subPlain : sub.isPlain = true)
    (supPlain : sup.isPlain = true) :
    isSubtype widening sub sup = true ↔
      equal sub sup = true ∨
        (∃ element other, sub = .array element ∧ sup = .array other ∧
          isSubtype widening element other = true) ∨
        (widening = true ∧ sub = .int ∧ sup = .float) := by
  rw [isSubtype.eq_def, Bool.or_eq_true]
  refine or_congr_right ?_
  cases sub with
  | array element => cases sup <;> simp_all [isPlain, int]
  | primitive base =>
      cases sup with
      | primitive other => cases base <;> cases other <;> simp [int, float]
      | _ => simp_all [isPlain, int, float]
  | _ => cases sup <;> simp_all [isPlain, int]

/-! ## Transitivity -/

section Transitivity

variable {arity : String → Nat}

/--
A number that is widened cannot be widened again, nor can a number that is not
equal to it.
-/
private theorem isSubtype_trans_plain {sub middle sup : Ty}
    (subPlain : sub.isPlain = true) (middlePlain : middle.isPlain = true)
    (supPlain : sup.isPlain = true) (subRespects : sub.Respects arity)
    (middleRespects : middle.Respects arity) (supRespects : sup.Respects arity)
    (elements : ∀ first second third, sub = .array first →
      middle = .array second → sup = .array third →
      isSubtype widening first second = true →
      isSubtype widening second third = true →
      isSubtype widening first third = true)
    (below : isSubtype widening sub middle = true)
    (above : isSubtype widening middle sup = true) :
    isSubtype widening sub sup = true := by
  have compare := below
  have compare' := above
  rw [isSubtype_plain_iff subPlain middlePlain] at compare
  rw [isSubtype_plain_iff middlePlain supPlain] at compare'
  rcases compare with same | ⟨first, second, rfl, rfl, inner⟩ | ⟨wide, rfl, rfl⟩
  · rcases compare' with
      same' | ⟨second, third, rfl, rfl, inner⟩ | ⟨wide, rfl, rfl⟩
    · exact isSubtype_of_equal
        (equal_trans subRespects middleRespects supRespects same same')
    · cases sub with
      | array first =>
          rw [array_isSubtype_array_iff] at below above ⊢
          exact elements first second third rfl rfl rfl below above
      | _ => simp [equal] at same
    · cases sub with
      | primitive base =>
          obtain rfl : base = .int := by simpa [equal, int] using same
          exact above
      | _ => simp [equal, int] at same
  · cases sup with
    | array third =>
        rw [array_isSubtype_array_iff] at above ⊢
        exact elements first second third rfl rfl rfl inner above
    | _ => simp [equal, int] at compare'
  · cases sup with
    | primitive base =>
        obtain rfl : .float = base := by
          simpa [equal, int, float] using compare'
        exact below
    | _ => simp [equal, int, float] at compare'

/-- Transitivity for three types that are smaller in all than a bound. -/
private def TransitiveBelow (widening : Bool) (arity : String → Nat)
    (bound : Nat) : Prop :=
  ∀ sub middle sup : Ty, sizeOf sub + sizeOf middle + sizeOf sup < bound →
    sub.Respects arity → middle.Respects arity → sup.Respects arity →
    isSubtype widening sub middle = true →
    isSubtype widening middle sup = true →
    isSubtype widening sub sup = true

/--
The step to an optional type on the right, from a type that is not a union.
-/
private theorem isSubtype_trans_optional {sub middle sup : Ty}
    (smaller : TransitiveBelow widening arity
      (sizeOf sub + sizeOf middle + sizeOf (Ty.optional sup)))
    (subRespects : sub.Respects arity) (middleRespects : middle.Respects arity)
    (supRespects : sup.Respects arity) (notNever : sub ≠ .never)
    (notUnion : ∀ parts, sub ≠ .union parts) (middleNotNever : middle ≠ .never)
    (middleNotUnion : ∀ parts, middle ≠ .union parts)
    (below : isSubtype widening sub middle = true)
    (above : isSubtype widening middle (.optional sup) = true) :
    isSubtype widening sub (.optional sup) = true := by
  by_cases middleOptional : middle.isOptional = true
  · cases middle with
    | optional middle =>
        rw [optional_isSubtype_optional_iff] at above
        by_cases subOptional : sub.isOptional = true
        · cases sub with
          | optional sub =>
              rw [optional_isSubtype_optional_iff] at below ⊢
              exact smaller sub middle sup (by simp; omega) subRespects
                middleRespects supRespects below above
          | _ => simp [isOptional] at subOptional
        · rw [isSubtype_optional_iff notNever notUnion
            (by simpa using subOptional)] at below ⊢
          exact smaller sub middle sup (by simp; omega) subRespects
            middleRespects supRespects below above
    | _ => simp [isOptional] at middleOptional
  · rw [isSubtype_optional_iff middleNotNever middleNotUnion
      (by simpa using middleOptional)] at above
    by_cases subOptional : sub.isOptional = true
    · cases sub with
      | optional sub =>
          -- Above an optional type lie, of the types without a rule of their
          -- own, only the greatest one.
          have greatest : middle = .unknown := by
            cases middle with
            | unknown => rfl
            | optional _ => simp [isOptional] at middleOptional
            | union parts => exact absurd rfl (middleNotUnion parts)
            | never => exact absurd rfl middleNotNever
            | _ =>
                rw [not_optional_isSubtype (by rfl)] at below
                exact absurd below (by simp)
          subst greatest
          rw [optional_isSubtype_optional_iff]
          exact smaller sub .unknown sup (by simp; omega) subRespects
            middleRespects supRespects
            (isSubtype_unknown sub) above
      | _ => simp [isOptional] at subOptional
    · rw [isSubtype_optional_iff notNever notUnion (by simpa using subOptional)]
      exact smaller sub middle sup (by simp) subRespects middleRespects
        supRespects below above

/-- Subtypes are transitive if smaller types are. -/
private theorem isSubtype_trans_of_smaller {sub middle sup : Ty}
    (smaller : TransitiveBelow widening arity
      (sizeOf sub + sizeOf middle + sizeOf sup))
    (subRespects : sub.Respects arity) (middleRespects : middle.Respects arity)
    (supRespects : sup.Respects arity)
    (below : isSubtype widening sub middle = true)
    (above : isSubtype widening middle sup = true) :
    isSubtype widening sub sup = true := by
  -- Unions are taken apart first, the left one before the middle one before the
  -- right one.
  by_cases subUnion : ∃ parts, sub = .union parts
  · obtain ⟨parts, rfl⟩ := subUnion
    rw [respects_union_iff] at subRespects
    rw [isSubtype_union_left_iff] at below ⊢
    intro part found
    have shrinks := List.sizeOf_lt_of_mem found
    exact smaller part middle sup (by simp; omega) (subRespects part found)
      middleRespects supRespects
      (below part found) above
  by_cases subNever : sub = .never
  · subst subNever
    exact never_isSubtype sup
  have notUnion : ∀ parts, sub ≠ .union parts :=
    fun parts same => subUnion ⟨parts, same⟩
  by_cases middleUnion : ∃ parts, middle = .union parts
  · obtain ⟨parts, rfl⟩ := middleUnion
    rw [respects_union_iff] at middleRespects
    rw [isSubtype_union_left_iff] at above
    obtain ⟨part, found, partAbove⟩ :=
      exists_of_isSubtype_union subNever notUnion below
    have shrinks := List.sizeOf_lt_of_mem found
    exact smaller sub part sup (by simp; omega) subRespects
      (middleRespects part found) supRespects
      partAbove (above part found)
  have middleNotUnion : ∀ parts, middle ≠ .union parts :=
    fun parts same => middleUnion ⟨parts, same⟩
  have middleNotNever : middle ≠ .never := by
    rintro rfl
    rw [not_isSubtype_never subNever notUnion] at below
    exact Bool.false_ne_true below
  by_cases supPlain : sup.isPlain = true
  · have middlePlain :=
      isPlain_of_isSubtype middleNotNever middleNotUnion supPlain above
    have subPlain := isPlain_of_isSubtype subNever notUnion middlePlain below
    refine isSubtype_trans_plain subPlain middlePlain supPlain subRespects
      middleRespects supRespects ?_ below above
    rintro first second third rfl rfl rfl firstBelow secondBelow
    rw [respects_array_iff] at subRespects middleRespects supRespects
    exact smaller first second third (by simp; omega) subRespects middleRespects
      supRespects
      firstBelow secondBelow
  · cases sup with
    | unknown => exact isSubtype_unknown sub
    | never =>
        rw [not_isSubtype_never middleNotNever middleNotUnion] at above
        exact absurd above Bool.false_ne_true
    | union members =>
        rw [respects_union_iff] at supRespects
        obtain ⟨member, found, memberAbove⟩ :=
          exists_of_isSubtype_union middleNotNever middleNotUnion above
        have shrinks := List.sizeOf_lt_of_mem found
        exact isSubtype_union_right found
          (smaller sub middle member (by simp; omega) subRespects middleRespects
            (supRespects member found)
            below memberAbove)
    | optional sup =>
        exact isSubtype_trans_optional smaller subRespects middleRespects
          supRespects subNever notUnion
          middleNotNever middleNotUnion below above
    | _ => exact absurd rfl supPlain

/-- Subtypes are transitive on types that respect the arities. -/
theorem isSubtype_trans {sub middle sup : Ty} (subRespects : sub.Respects arity)
    (middleRespects : middle.Respects arity) (supRespects : sup.Respects arity)
    (below : isSubtype widening sub middle = true)
    (above : isSubtype widening middle sup = true) :
    isSubtype widening sub sup = true := by
  have transitive : ∀ bound, TransitiveBelow widening arity bound := by
    intro bound
    induction bound with
    | zero =>
        intro sub middle sup small
        omega
    | succ bound ih =>
        intro sub middle sup small subRespects middleRespects supRespects below
          above
        refine isSubtype_trans_of_smaller ?_ subRespects middleRespects
          supRespects below above
        intro sub' middle' sup' smaller'
        exact ih sub' middle' sup' (by omega)
  exact transitive _ sub middle sup (Nat.lt_succ_self _) subRespects
    middleRespects supRespects below above

end Transitivity

/-! ## The preorder -/

/--
For both settings of the widening of numbers, subtyping is reflexive, has a
least and a greatest type, and is transitive on types that are coherent in the
number of arguments of their schemas.
-/
theorem isSubtype_bounded_preorder (widening : Bool) :
    (∀ type : Ty,
      isSubtype widening type type = true ∧
        isSubtype widening .never type = true ∧
        isSubtype widening type .unknown = true) ∧
      ∀ sub middle sup : Ty, Coherent [sub, middle, sup] →
        isSubtype widening sub middle = true →
        isSubtype widening middle sup = true →
        isSubtype widening sub sup = true := by
  constructor
  · intro type
    exact ⟨isSubtype_refl type, never_isSubtype type, isSubtype_unknown type⟩
  · intro sub middle sup coherent below above
    obtain ⟨arity, respects⟩ := coherent.exists_respects
    exact isSubtype_trans (respects sub (by simp)) (respects middle (by simp))
      (respects sup (by simp)) below above

/--
Three types that exercise the preorder: unions in another order, an optional
type, a schema and widened numbers.
-/
theorem isSubtype_bounded_preorder_mixed :
    isSubtype true (.union [.int, .array (.handle "Page" [.never])])
      (.optional (.union [.array .unknown, .float])) = true :=
  (isSubtype_bounded_preorder true).2
    (.union [.int, .array (.handle "Page" [.never])])
    (.union [.array (.handle "Page" [.never]), .float])
    (.optional (.union [.array .unknown, .float]))
    (by decide)
    (by simp [isSubtype, allSubtypes, anySupertype, equal, equalAll, handle,
      int, float])
    (by simp [isSubtype, allSubtypes, anySupertype, equal, handle, float])

end SchemaMap.Ty
