import SchemaMap.Proofs.Inference.Within
import SchemaMap.Proofs.Units

/-!
# The dimensions that units are made of

A unit is over some dimensions when its exponents are exponents of these.
Products, quotients and powers of units bring in no other dimension, so the
value of a declared unit is over the declared dimensions (`HasUnit.isOver`).
-/

namespace SchemaMap

namespace Dimensions

/-- Every dimension with an exponent has the property. -/
def Over (isDimension : String → Prop) (dimensions : Dimensions) : Prop :=
  ∀ entry ∈ dimensions.entries, isDimension entry.1

variable {isDimension : String → Prop} {dimensions result : Dimensions}

theorem over_none : none.Over isDimension :=
  List.forall_mem_nil _

theorem over_set (isOver : dimensions.Over isDimension) {name : String}
    (known : isDimension name) (value : Int)
    (representable : Representable value) :
    (dimensions.set name value representable).Over isDimension := by
  unfold set
  split
  · intro entry member
    exact isOver entry (List.mem_filter.mp member).1
  · intro entry member
    rcases Ascending.mem_insert member with rfl | old
    · exact known
    · exact isOver entry old

/-- Changing the exponent of a declared dimension adds no other dimension. -/
theorem over_shift? (isOver : dimensions.Over isDimension) {name : String}
    (known : isDimension name) {amount : Int}
    (shifted : dimensions.shift? name amount = some result) :
    result.Over isDimension := by
  rw [shift?] at shifted
  split at shifted
  · cases shifted
    exact over_set isOver known _ _
  · contradiction

/-- Exponents are added one by one. -/
theorem over_foldlM {step : Dimensions → String × Int → Option Dimensions}
    {entries : List (String × Int)}
    (one : ∀ entry ∈ entries,
      ∀ before after, Over isDimension before → step before entry = some after →
      Over isDimension after)
    (isOver : dimensions.Over isDimension)
    (folded : entries.foldlM step dimensions = some result) :
    result.Over isDimension := by
  induction entries generalizing dimensions with
  | nil =>
      cases folded
      exact isOver
  | cons entry rest ih =>
      rw [List.forall_mem_cons] at one
      rw [List.foldlM_cons] at folded
      rcases Option.bind_eq_some_iff.mp folded with ⟨next, first, further⟩
      exact ih one.2 (one.1 dimensions next isOver first) further

variable {left right : Dimensions}

/-- A product has no dimension that neither factor has. -/
theorem over_add? (leftOver : left.Over isDimension)
    (rightOver : right.Over isDimension)
    (added : left.add? right = some result) : result.Over isDimension :=
  over_foldlM (fun entry member _ _ before shifted =>
    over_shift? before (rightOver entry member) shifted) leftOver
    added

theorem over_sub? (leftOver : left.Over isDimension)
    (rightOver : right.Over isDimension)
    (subtracted : left.sub? right = some result) : result.Over isDimension := by
  refine over_foldlM ?_ leftOver subtracted
  intro entry member before after isOver stepped
  split at stepped
  · exact over_shift? isOver (rightOver entry member) stepped
  · contradiction

theorem over_smul? (isOver : dimensions.Over isDimension) {factor : Int}
    (multiplied : dimensions.smul? factor = some result) :
    result.Over isDimension :=
  over_foldlM (fun entry member _ _ before shifted =>
    over_shift? before (isOver entry member) shifted) over_none
    multiplied

end Dimensions

namespace PhysicalUnit

/-- The unit is made of dimensions that have the property. -/
def Over (isDimension : String → Prop) (unit : PhysicalUnit) : Prop :=
  unit.dimensions.Over isDimension

variable {isDimension : String → Prop} {unit result : PhysicalUnit}

theorem over_one : one.Over isDimension :=
  Dimensions.over_none

/-- A base unit has its own dimension only. -/
theorem over_base {dimension : String} (known : isDimension dimension) :
    (base dimension).Over isDimension :=
  Dimensions.over_set Dimensions.over_none known _ _

/-- Products and quotients stay within the declared dimensions. -/
theorem closedUnder_over : ClosedUnder (Over isDimension) where
  multiply := by
    intro left right unit leftOver rightOver combined
    rcases Option.map_eq_some_iff.mp combined with ⟨dimensions, added, rfl⟩
    exact Dimensions.over_add? leftOver rightOver added
  divide := by
    intro left right unit leftOver rightOver combined
    rcases Option.map_eq_some_iff.mp combined with ⟨dimensions, subtracted, rfl⟩
    exact Dimensions.over_sub? leftOver rightOver subtracted

theorem over_power? (isOver : unit.Over isDimension) {exponent : Int}
    (raised : unit.power? exponent = some result) :
    result.Over isDimension := by
  rw [power?] at raised
  split at raised
  · cases raised
    exact over_one
  · rcases Option.map_eq_some_iff.mp raised with ⟨dimensions, multiplied, rfl⟩
    exact Dimensions.over_smul? isOver multiplied

end PhysicalUnit

/-! ## Declared units -/

variable {isDimension : String → Prop} {unit result : PhysicalUnit}

/--
The value of a unit expression is over the dimensions of what its names stand
for.
-/
theorem UnitExpr.Evaluates.isOver {value : String → PhysicalUnit → Prop}
    (known : ∀ name unit, value name unit → unit.Over isDimension)
    {expression : UnitExpr} (evaluated : expression.Evaluates value unit) :
    unit.Over isDimension := by
  induction evaluated with
  | reference stands => exact known _ _ stands
  | product _ _ combined first second =>
      exact PhysicalUnit.closedUnder_over.multiply _ _ _ first second combined
  | quotient _ _ combined first second =>
      exact PhysicalUnit.closedUnder_over.divide _ _ _ first second combined
  | power _ raised inner => exact PhysicalUnit.over_power? inner raised
  | one plain =>
      rw [PhysicalUnit.isPlain_nil_iff.mp plain]
      exact PhysicalUnit.over_one

/-- Scale and label leave the dimensions. -/
theorem UnitDeclaration.Finishes.isOver {declaration : UnitDeclaration}
    (finished : declaration.Finishes unit result)
    (isOver : unit.Over isDimension) : result.Over isDimension := by
  cases finished with
  | unscaled => exact isOver
  | scaled => exact isOver

/-- The value of a declared unit is over the declared dimensions. -/
theorem HasUnit.isOver {declared : UnitDeclaration → Prop} {name : String}
    (value : HasUnit declared isDimension name unit) :
    unit.Over isDimension := by
  induction value using HasUnit.inductionOn with
  | derived _ _ _ finished unfolded =>
      refine finished.isOver (unfolded.isOver ?_)
      rintro name unit ⟨_, isOver⟩
      exact isOver
  | base _ _ _ known plain finished =>
      rw [PhysicalUnit.isPlain_singleton_iff.mp plain] at finished
      exact finished.isOver (PhysicalUnit.over_base known)
  | number _ _ _ plain finished =>
      rw [PhysicalUnit.isPlain_nil_iff.mp plain] at finished
      exact finished.isOver PhysicalUnit.over_one

end SchemaMap
