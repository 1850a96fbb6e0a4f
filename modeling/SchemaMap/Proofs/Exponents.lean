import SchemaMap.PhysicalUnit.Basic
import SchemaMap.Proofs.Prelude

/-!
# The algebra of units is exact

Exponents are changed one dimension at a time, and each change is checked
against the range of an exponent.  Seen as a whole the operations are those of
vectors of integers: a product adds the exponents of every dimension, a quotient
subtracts them, a power multiplies them.  They fail only where such an integer
is not representable, and the quotient also where the negative of an exponent
that is taken away is not, so division undoes multiplication unless the divisor
has the least exponent.

A vector without zeros is determined by its exponents
(`Dimensions.ext_exponent`), so the exponents are all there is to say about
dimensions.
-/

namespace SchemaMap

namespace Dimensions

variable {dimensions left right result start : Dimensions}

/-! ## Single exponents -/

/-- A vector holds exactly the exponents that are not zero. -/
theorem get?_exponents_eq_some_iff {name : String} {value : Int} :
    dimensions.exponents.get? name = some value ↔
      value ≠ 0 ∧ dimensions.exponent name = value := by
  constructor
  · intro found
    have stored :=
      dimensions.stored (name, value) (Dictionary.get?_eq_some_iff.mp found)
    exact ⟨stored.1, by simp [exponent, found]⟩
  · rintro ⟨apart, same⟩
    cases found : dimensions.exponents.get? name with
    | none =>
        have zero : dimensions.exponent name = 0 := by simp [exponent, found]
        exact absurd (same.symm.trans zero) apart
    | some other =>
        have value : dimensions.exponent name = other := by
          simp [exponent, found]
        exact congrArg some (value.symm.trans same)

/-- A vector is determined by its exponents. -/
@[ext]
theorem ext_exponent
    (agree : ∀ name, left.exponent name = right.exponent name) :
    left = right := by
  have same : left.exponents = right.exponents := by
    apply Dictionary.ext_get?
    intro name
    ext value
    simp only [get?_exponents_eq_some_iff, agree]
  cases left
  cases right
  cases same
  rfl

theorem representable_exponent (dimensions : Dimensions) (name : String) :
    Representable (dimensions.exponent name) := by
  by_cases zero : dimensions.exponent name = 0
  · rw [zero]
    decide
  · have found := get?_exponents_eq_some_iff.mpr ⟨zero, rfl⟩
    exact (dimensions.stored _ (Dictionary.get?_eq_some_iff.mp found)).2

@[simp]
theorem exponent_none (name : String) : none.exponent name = 0 := rfl

/-- Setting an exponent changes no other. -/
theorem exponent_set (dimensions : Dimensions) (name : String) (value : Int)
    (representable : Representable value) (other : String) :
    (dimensions.set name value representable).exponent other =
      if other = name then value else dimensions.exponent other := by
  by_cases same : other = name <;> by_cases zero : value = 0
  · simp [set, exponent, same, zero]
  · simp [set, exponent, same, zero]
  · simp [set, exponent, same, zero, Dictionary.get?_erase_of_ne same]
  · simp [set, exponent, same, zero, Dictionary.get?_insert_of_ne same]

/-- One exponent is changed, if its new value is representable. -/
theorem shift?_eq_some_iff {name : String} {amount : Int} :
    dimensions.shift? name amount = some result ↔
      Representable (dimensions.exponent name + amount) ∧
        ∀ other,
          result.exponent other =
            (if other = name then amount else 0) +
              dimensions.exponent other := by
  have shifted : ∀ representable other,
      (dimensions.set name (dimensions.exponent name + amount)
        representable).exponent other =
        (if other = name then amount else 0) + dimensions.exponent other := by
    intro representable other
    rw [exponent_set]
    split
    · next same => rw [same, Int.add_comm]
    · exact (Int.zero_add _).symm
  constructor
  · intro found
    rcases Option.dite_none_right_eq_some.mp found with ⟨representable, same⟩
    cases same
    exact ⟨representable, shifted representable⟩
  · rintro ⟨representable, exponents⟩
    have same : dimensions.set name (dimensions.exponent name + amount)
        representable = result := by
      ext other
      exact (shifted representable other).trans (exponents other).symm
    exact (dif_pos representable).trans (congrArg some same)

/-! ## Lists of exponents -/

/-- What a list of pairs gives to a dimension in all. -/
def total : List (String × Int) → String → Int
  | [], _ => 0
  | pair :: rest, name =>
      (if name = pair.1 then pair.2 else 0) + total rest name

theorem total_of_not_mem {pairs : List (String × Int)} {name : String}
    (absent : name ∉ pairs.map Prod.fst) :
    total pairs name = 0 := by
  induction pairs with
  | nil => rfl
  | cons pair rest ih =>
      rw [List.map_cons, List.mem_cons, not_or] at absent
      simp [total, absent.1, ih absent.2]

theorem nodup_names_entries (dimensions : Dimensions) :
    (dimensions.entries.map Prod.fst).Nodup := by
  have increasing : dimensions.entries.Pairwise fun earlier later =>
      earlier.1 ≠ later.1 := by
    refine dimensions.exponents.ascending.imp ?_
    intro earlier later less same
    simp [same] at less
  exact List.pairwise_map.mpr increasing

/-- Where no name occurs twice the total of a name is its only entry. -/
theorem total_of_mem {pairs : List (String × Int)}
    (distinct : (pairs.map Prod.fst).Nodup) {pair : String × Int}
    (member : pair ∈ pairs) : total pairs pair.1 = pair.2 := by
  induction pairs with
  | nil => contradiction
  | cons first rest ih =>
      rw [List.map_cons, List.nodup_cons] at distinct
      rcases List.mem_cons.mp member with rfl | later
      · simp [total, total_of_not_mem distinct.1]
      · have apart : pair.1 ≠ first.1 :=
          fun same => distinct.1 (same ▸ List.mem_map_of_mem later)
        simp [total, apart, ih distinct.2 later]

/-- A vector is the total of its own entries. -/
@[simp]
theorem total_entries (dimensions : Dimensions) (name : String) :
    total dimensions.entries name = dimensions.exponent name := by
  by_cases zero : dimensions.exponent name = 0
  · rw [zero]
    apply total_of_not_mem
    intro member
    rcases List.mem_map.mp member with ⟨entry, listed, rfl⟩
    have found :=
      get?_exponents_eq_some_iff.mp (Dictionary.get?_eq_some_iff.mpr listed)
    exact found.1 (found.2.symm.trans zero)
  · have found := get?_exponents_eq_some_iff.mpr ⟨zero, rfl⟩
    exact total_of_mem dimensions.nodup_names_entries
      (Dictionary.get?_eq_some_iff.mp found)

/-- The vector with the pairs of a list added to it, one by one. -/
def shiftAll? (start : Dimensions) (pairs : List (String × Int)) :
    Option Dimensions :=
  pairs.foldlM (fun dimensions pair => dimensions.shift? pair.1 pair.2) start

theorem shiftAll?_cons (start : Dimensions) (pair : String × Int)
    (rest : List (String × Int)) :
    start.shiftAll? (pair :: rest) =
      (start.shift? pair.1 pair.2).bind fun next => next.shiftAll? rest :=
  List.foldlM_cons

/-- Pairs that are added one by one add up to their totals. -/
theorem exponent_of_shiftAll? {pairs : List (String × Int)}
    (shifted : start.shiftAll? pairs = some result) (name : String) :
    result.exponent name = start.exponent name + total pairs name := by
  induction pairs generalizing start with
  | nil =>
      cases shifted
      exact (Int.add_zero _).symm
  | cons pair rest ih =>
      rw [shiftAll?_cons] at shifted
      rcases Option.bind_eq_some_iff.mp shifted with ⟨next, first, further⟩
      have changed := (shift?_eq_some_iff.mp first).2 name
      have later := ih further
      simp only [total]
      omega

/--
Pairs of distinct dimensions can be added exactly when every sum is
representable.
-/
theorem isSome_shiftAll?_iff {pairs : List (String × Int)}
    (distinct : (pairs.map Prod.fst).Nodup) :
    (start.shiftAll? pairs).isSome ↔
      ∀ name, Representable (start.exponent name + total pairs name) := by
  induction pairs generalizing start with
  | nil => simpa [shiftAll?, total] using start.representable_exponent
  | cons pair rest ih =>
      rw [List.map_cons, List.nodup_cons] at distinct
      rw [shiftAll?_cons]
      cases first : start.shift? pair.1 pair.2 with
      | none =>
          -- No later pair has this dimension, so what is not representable now
          -- is not in the end.
          have outside : ¬ Representable
              (start.exponent pair.1 + total (pair :: rest) pair.1) := by
            intro representable
            rw [total, if_pos rfl, total_of_not_mem distinct.1,
              Int.add_zero] at representable
            exact absurd first (by simp [shift?, representable])
          exact iff_of_false Bool.false_ne_true fun all => outside (all pair.1)
      | some next =>
          have changed := (shift?_eq_some_iff.mp first).2
          have sums : ∀ name,
              next.exponent name + total rest name =
                start.exponent name + total (pair :: rest) name := by
            intro name
            rw [changed, total]
            omega
          rw [Option.bind_some, ih distinct.2]
          simp only [sums]

/-! ## Sums, differences and multiples -/

/-- Exponents of a sum of vectors are added. -/
theorem exponent_of_add? (added : left.add? right = some result)
    (name : String) :
    result.exponent name = left.exponent name + right.exponent name := by
  simpa using exponent_of_shiftAll? added name

/-- A sum fails exactly when one of the added exponents leaves the range. -/
theorem add?_eq_none_iff :
    left.add? right = Option.none ↔
      ∃ name, ¬ Representable (left.exponent name + right.exponent name) := by
  have defined :=
    @isSome_shiftAll?_iff left right.entries right.nodup_names_entries
  simp only [total_entries] at defined
  rw [← Option.not_isSome_iff_eq_none, ← not_forall]
  exact not_congr defined

/-- A list whose pairs are all multiplied by a factor. -/
def scaledPairs (pairs : List (String × Int)) (factor : Int) :
    List (String × Int) :=
  pairs.map fun pair => (pair.1, pair.2 * factor)

theorem scaledPairs_cons (pair : String × Int) (rest : List (String × Int))
    (factor : Int) :
    scaledPairs (pair :: rest) factor =
      (pair.1, pair.2 * factor) :: scaledPairs rest factor := rfl

/-- The totals of multiplied entries are the multiplied totals. -/
theorem total_scaledPairs (pairs : List (String × Int)) (factor : Int)
    (name : String) :
    total (scaledPairs pairs factor) name = total pairs name * factor := by
  induction pairs with
  | nil => exact (Int.zero_mul factor).symm
  | cons pair rest ih =>
      have first : (if name = pair.1 then pair.2 * factor else 0) =
          (if name = pair.1 then pair.2 else 0) * factor := by
        split <;> simp
      rw [scaledPairs_cons, total, total, first, ih, ← Int.add_mul]

theorem nodup_names_scaledPairs (dimensions : Dimensions) (factor : Int) :
    ((scaledPairs dimensions.entries factor).map Prod.fst).Nodup := by
  rw [scaledPairs, List.map_map]
  exact dimensions.nodup_names_entries

/-- A multiple is made by shifting from nothing, entry by entry. -/
theorem smul?_eq_shiftAll? (factor : Int) (dimensions : Dimensions) :
    dimensions.smul? factor =
      none.shiftAll? (scaledPairs dimensions.entries factor) := by
  rw [shiftAll?, scaledPairs, List.foldlM_map]
  rfl

/-- Exponents of a multiple are multiplied. -/
theorem exponent_of_smul? {factor : Int}
    (multiplied : dimensions.smul? factor = some result) (name : String) :
    result.exponent name = factor * dimensions.exponent name := by
  rw [smul?_eq_shiftAll?] at multiplied
  have sums := exponent_of_shiftAll? multiplied name
  rw [total_scaledPairs, total_entries, exponent_none, Int.zero_add] at sums
  exact sums.trans (Int.mul_comm _ _)

/--
A multiple fails exactly when one of the multiplied exponents leaves the range.
-/
theorem smul?_eq_none_iff {factor : Int} :
    dimensions.smul? factor = Option.none ↔
      ∃ name, ¬ Representable (factor * dimensions.exponent name) := by
  have defined :=
    @isSome_shiftAll?_iff none _ (dimensions.nodup_names_scaledPairs factor)
  simp only [total_scaledPairs, total_entries, exponent_none, Int.zero_add,
    Int.mul_comm _ factor] at defined
  rw [smul?_eq_shiftAll?, ← Option.not_isSome_iff_eq_none, ← not_forall]
  exact not_congr defined

/--
A difference is a sum with the negative pairs, if all of these are
representable.
-/
theorem sub?_eq_shiftAll? (left right : Dimensions) :
    left.sub? right =
      if ∀ entry ∈ right.entries, Representable (-entry.2) then
        left.shiftAll? (scaledPairs right.entries (-1))
      else Option.none := by
  rw [sub?]
  generalize right.entries = pairs
  induction pairs generalizing left with
  | nil => rfl
  | cons pair rest ih =>
      rw [List.foldlM_cons, scaledPairs_cons, shiftAll?_cons]
      simp only [List.forall_mem_cons, Int.mul_neg_one]
      by_cases representable : Representable (-pair.2)
      · simp only [representable, if_true, true_and]
        cases left.shift? pair.1 (-pair.2) with
        | none => simp
        | some next => exact ih next
      · simp [representable]

theorem forall_representable_neg_iff :
    (∀ entry ∈ dimensions.entries, Representable (-entry.2)) ↔
      ∀ name, Representable (-dimensions.exponent name) := by
  constructor
  · intro all name
    by_cases zero : dimensions.exponent name = 0
    · rw [zero]
      decide
    · have found := get?_exponents_eq_some_iff.mpr ⟨zero, rfl⟩
      exact all _ (Dictionary.get?_eq_some_iff.mp found)
  · intro all entry member
    have found :=
      get?_exponents_eq_some_iff.mp (Dictionary.get?_eq_some_iff.mpr member)
    exact found.2 ▸ all entry.1

/-- Exponents of a difference are subtracted. -/
theorem exponent_of_sub? (subtracted : left.sub? right = some result)
    (name : String) :
    result.exponent name = left.exponent name - right.exponent name := by
  rw [sub?_eq_shiftAll?] at subtracted
  rcases Option.ite_none_right_eq_some.mp subtracted with ⟨-, shifted⟩
  have sums := exponent_of_shiftAll? shifted name
  rw [total_scaledPairs, total_entries, Int.mul_neg_one] at sums
  exact sums

/--
A difference fails also where an exponent of the right side has no opposite.
-/
theorem sub?_eq_none_iff :
    left.sub? right = Option.none ↔
      ∃ name, ¬ Representable (-right.exponent name) ∨
        ¬ Representable (left.exponent name - right.exponent name) := by
  have defined :=
    @isSome_shiftAll?_iff left _ (right.nodup_names_scaledPairs (-1))
  simp only [total_scaledPairs, total_entries, Int.mul_neg_one,
    ← Int.sub_eq_add_neg] at defined
  by_cases negatives : ∀ name, Representable (-right.exponent name)
  · rw [sub?_eq_shiftAll?, if_pos (forall_representable_neg_iff.mpr negatives),
      ← Option.not_isSome_iff_eq_none, defined, not_forall]
    simp only [negatives, not_true_eq_false, false_or]
  · have missing := mt forall_representable_neg_iff.mp negatives
    rcases not_forall.mp negatives with ⟨name, outside⟩
    exact iff_of_true ((sub?_eq_shiftAll? left right).trans (if_neg missing))
      ⟨name, .inl outside⟩

end Dimensions

namespace PhysicalUnit

variable {left right unit result : PhysicalUnit}

/-! ## Units -/

/-- Exponents of a product of units are added. -/
theorem exponent_of_multiply? (combined : left.multiply? right = some result)
    (name : String) :
    result.exponent name = left.exponent name + right.exponent name := by
  rcases Option.map_eq_some_iff.mp combined with ⟨dimensions, added, rfl⟩
  exact Dimensions.exponent_of_add? added name

/-- Exponents of a quotient of units are subtracted. -/
theorem exponent_of_divide? (combined : left.divide? right = some result)
    (name : String) :
    result.exponent name = left.exponent name - right.exponent name := by
  rcases Option.map_eq_some_iff.mp combined with ⟨dimensions, subtracted, rfl⟩
  exact Dimensions.exponent_of_sub? subtracted name

/-- Exponents of a power of a unit are multiplied. -/
theorem exponent_of_power? {exponent : Int}
    (raised : unit.power? exponent = some result) (name : String) :
    result.exponent name = exponent * unit.exponent name := by
  rw [power?] at raised
  split at raised
  · next zero =>
      cases raised
      rw [zero, Int.zero_mul]
      rfl
  · rcases Option.map_eq_some_iff.mp raised with ⟨dimensions, multiplied, rfl⟩
    exact Dimensions.exponent_of_smul? multiplied name

/-- When a product of units fails. -/
theorem multiply?_eq_none_iff :
    left.multiply? right = none ↔
      ∃ name, ¬ Representable (left.exponent name + right.exponent name) :=
  Option.map_eq_none_iff.trans Dimensions.add?_eq_none_iff

/-- When a quotient of units fails. -/
theorem divide?_eq_none_iff :
    left.divide? right = none ↔
      ∃ name, ¬ Representable (-right.exponent name) ∨
        ¬ Representable (left.exponent name - right.exponent name) :=
  Option.map_eq_none_iff.trans Dimensions.sub?_eq_none_iff

/-- When a power of a unit fails. -/
theorem power?_eq_none_iff {exponent : Int} :
    unit.power? exponent = none ↔
      ∃ name, ¬ Representable (exponent * unit.exponent name) := by
  rw [power?]
  split
  · next zero =>
      have representable : ∀ name,
          Representable (exponent * unit.exponent name) := by
        intro name
        rw [zero, Int.zero_mul]
        decide
      simp [representable]
  · exact Option.map_eq_none_iff.trans Dimensions.smul?_eq_none_iff

/-- Units agree exactly when all their exponents do. -/
theorem agrees_iff :
    left.agrees right = true ↔
      ∀ name, left.exponent name = right.exponent name := by
  rw [agrees, decide_eq_true_iff, Dimensions.ext_exponent_iff]
  rfl

/-! ## Sequences of operations -/

/-- The operations by which a unit is built. -/
inductive Construction where
  | one
  | base (dimension : String)
  | ofExponents (exponents : List (String × Int)) (scale : Float)
  | labelled (unit : Construction) (label : String)
  | scaled (unit : Construction) (factor : Float)
  | product (left right : Construction)
  | quotient (left right : Construction)
  | power (unit : Construction) (exponent : Int)

namespace Construction

/-- The unit that is built, if every operation on the way is defined. -/
def unit? : Construction → Option PhysicalUnit
  | .one => some PhysicalUnit.one
  | .base dimension => some (PhysicalUnit.base dimension)
  | .ofExponents exponents scale => ofExponents? exponents scale
  | .labelled unit label => unit.unit?.map fun built => built.labelled label
  | .scaled unit factor => unit.unit?.map fun built => built.scaled factor
  | .product left right =>
      left.unit?.bind fun first =>
        right.unit?.bind fun second => first.multiply? second
  | .quotient left right =>
      left.unit?.bind fun first =>
        right.unit?.bind fun second => first.divide? second
  | .power unit exponent => unit.unit?.bind fun built => built.power? exponent

/--
The exponent of a dimension by the rules of whole numbers, without a bound.
-/
def exponent : Construction → String → Int
  | .one, _ => 0
  | .base dimension, name => if name = dimension then 1 else 0
  | .ofExponents exponents _, name => Dimensions.total exponents name
  | .labelled unit _, name => unit.exponent name
  | .scaled unit _, name => unit.exponent name
  | .product left right, name => left.exponent name + right.exponent name
  | .quotient left right, name => left.exponent name - right.exponent name
  | .power unit exponent, name => exponent * unit.exponent name

/--
What is built has the exponents of whole numbers: no operation on the way
rounds, wraps or forgets.
-/
theorem exponent_of_unit? {construction : Construction} {unit : PhysicalUnit}
    (built : construction.unit? = some unit) (name : String) :
    unit.exponent name = construction.exponent name := by
  induction construction generalizing unit with
  | one =>
      cases built
      rfl
  | base dimension =>
      cases built
      exact Dimensions.exponent_set Dimensions.none dimension 1 (by decide) name
  | ofExponents exponents scale =>
      rcases Option.map_eq_some_iff.mp built with ⟨dimensions, added, rfl⟩
      exact (Dimensions.exponent_of_shiftAll? added name).trans (Int.zero_add _)
  | labelled inner label ih =>
      rcases Option.map_eq_some_iff.mp built with ⟨first, known, rfl⟩
      have same : first.exponent name = inner.exponent name := ih known
      exact same
  | scaled inner factor ih =>
      rcases Option.map_eq_some_iff.mp built with ⟨first, known, rfl⟩
      have same : first.exponent name = inner.exponent name := ih known
      exact same
  | product left right leftExact rightExact =>
      rcases Option.bind_eq_some_iff.mp built with ⟨first, leftBuilt, rest⟩
      rcases Option.bind_eq_some_iff.mp rest with ⟨second, rightBuilt, combined⟩
      rw [exponent_of_multiply? combined, leftExact leftBuilt,
        rightExact rightBuilt, exponent]
  | quotient left right leftExact rightExact =>
      rcases Option.bind_eq_some_iff.mp built with ⟨first, leftBuilt, rest⟩
      rcases Option.bind_eq_some_iff.mp rest with ⟨second, rightBuilt, combined⟩
      rw [exponent_of_divide? combined, leftExact leftBuilt,
        rightExact rightBuilt, exponent]
  | power inner factor ih =>
      rcases Option.bind_eq_some_iff.mp built with ⟨first, known, raised⟩
      rw [exponent_of_power? raised, ih known, exponent]

end Construction

/--
A unit that is built by any operations stores no exponent zero and has the
exponents of whole numbers.  Products, quotients and powers give the exact sums,
differences and multiples; a product or a power is undefined exactly where one
of these is not representable, a quotient also where a negative is not.  Units
agree exactly when all exponents do.
-/
theorem exponents_exact (left right : PhysicalUnit) (exponent : Int) :
    (∀ (construction : Construction) (unit : PhysicalUnit),
      construction.unit? = some unit →
      (∀ entry ∈ unit.dimensions.entries, entry.2 ≠ 0) ∧
        ∀ name, unit.exponent name = construction.exponent name) ∧
    (∀ unit, left.multiply? right = some unit →
      ∀ name, unit.exponent name = left.exponent name + right.exponent name) ∧
    (∀ unit, left.divide? right = some unit →
      ∀ name, unit.exponent name = left.exponent name - right.exponent name) ∧
    (∀ unit, left.power? exponent = some unit →
      ∀ name, unit.exponent name = exponent * left.exponent name) ∧
    (left.multiply? right = none ↔
      ∃ name, ¬ Representable (left.exponent name + right.exponent name)) ∧
    (left.divide? right = none ↔
      ∃ name, ¬ Representable (-right.exponent name) ∨
        ¬ Representable (left.exponent name - right.exponent name)) ∧
    (left.power? exponent = none ↔
      ∃ name, ¬ Representable (exponent * left.exponent name)) ∧
    (left.agrees right = true ↔
      ∀ name, left.exponent name = right.exponent name) := by
  refine ⟨?_, fun unit => exponent_of_multiply?,
    fun unit => exponent_of_divide?, fun unit => exponent_of_power?,
    multiply?_eq_none_iff, divide?_eq_none_iff, power?_eq_none_iff, agrees_iff⟩
  intro construction unit built
  exact ⟨fun entry member => (unit.dimensions.stored entry member).1,
    Construction.exponent_of_unit? built⟩

/--
A quotient may be undefined where the difference of the exponents is
representable.
-/
example :
    (Construction.quotient (.power (.base "length") (-1))
      (.power (.base "length") (-2147483648))).unit?.isNone ∧
    Representable (-1 - -2147483648) := by
  decide +kernel

/-! ## Division after multiplication -/

/-- Only the least exponent has no opposite in the range. -/
theorem representable_neg_iff {exponent : Int}
    (representable : Representable exponent) :
    Representable (-exponent) ↔ exponent ≠ -2147483648 := by
  unfold Representable at *
  omega

/--
Multiplying and dividing by the same unit gives the unit back, up to its scale
and label.
-/
theorem agrees_of_divide?_product {product quotient : PhysicalUnit}
    (multiplied : left.multiply? right = some product)
    (divided : product.divide? right = some quotient) :
    quotient.agrees left = true := by
  rw [agrees_iff]
  intro name
  rw [exponent_of_divide? divided, exponent_of_multiply? multiplied,
    Int.add_sub_cancel]

/-- The way back fails exactly for the least exponent. -/
theorem divide?_product_eq_none_iff {product : PhysicalUnit}
    (multiplied : left.multiply? right = some product) :
    product.divide? right = none ↔
      ∃ name, right.exponent name = -2147483648 := by
  rw [divide?_eq_none_iff]
  apply exists_congr
  intro name
  -- The difference is the exponent of the other factor, so only the negative
  -- can be out of range.
  have back : product.exponent name - right.exponent name =
      left.exponent name := by
    rw [exponent_of_multiply? multiplied, Int.add_sub_cancel]
  have fits : Representable (left.exponent name) :=
    left.dimensions.representable_exponent name
  have negative :=
    representable_neg_iff (right.dimensions.representable_exponent name)
  rw [back, exponent, negative, not_ne_iff]
  simp [fits]

/--
A product divided by its second factor agrees with the first, whenever the
quotient is defined; and it is defined exactly when the divisor has no exponent
-2147483648, whose negative is not representable.
-/
theorem divide?_of_multiply? (left right product : PhysicalUnit)
    (multiplied : left.multiply? right = some product) :
    ((∃ quotient, product.divide? right = some quotient ∧
      quotient.agrees left = true) ↔
      ∀ name, right.exponent name ≠ -2147483648) ∧
    (product.divide? right = none ↔ ∃ name, right.exponent name = -2147483648) ∧
    ∀ quotient, product.divide? right = some quotient →
      quotient.agrees left = true := by
  refine ⟨⟨?_, ?_⟩, divide?_product_eq_none_iff multiplied,
    fun quotient => agrees_of_divide?_product multiplied⟩
  · rintro ⟨quotient, divided, -⟩ name least
    have undefined := (divide?_product_eq_none_iff multiplied).mpr ⟨name, least⟩
    rw [undefined] at divided
    contradiction
  · intro bounded
    have defined : product.divide? right ≠ none := by
      intro undefined
      rcases (divide?_product_eq_none_iff multiplied).mp undefined with
        ⟨name, least⟩
      exact bounded name least
    rcases Option.ne_none_iff_exists'.mp defined with ⟨quotient, divided⟩
    exact ⟨quotient, divided, agrees_of_divide?_product multiplied divided⟩

/--
The greatest exponent is no obstacle, neither in the product nor in the divisor.
-/
theorem divide?_of_multiply?_greatest :
    ∃ left right product quotient : PhysicalUnit,
      right.exponent "length" = 2147483647 ∧
      left.multiply? right = some product ∧
      product.divide? right = some quotient ∧ quotient.agrees left = true := by
  have built : (ofExponents? [("length", 2147483647)] 1.0).any (fun right =>
      (one.multiply? right).isSome &&
        decide (right.dimensions.entries = [("length", 2147483647)])) =
        true := by
    decide +kernel
  rcases (Option.any_eq_true _ _).mp built with ⟨right, -, facts⟩
  rcases Bool.and_eq_true_iff.mp facts with ⟨defined, single⟩
  rcases Option.isSome_iff_exists.mp defined with ⟨product, multiplied⟩
  have value : ∀ name, right.exponent name = if name = "length" then 2147483647
      else 0 := by
    intro name
    have sum := right.dimensions.total_entries name
    rw [of_decide_eq_true single, Dimensions.total, Dimensions.total,
      Int.add_zero] at sum
    exact sum.symm
  have bounded : ∀ name, right.exponent name ≠ -2147483648 := by
    intro name
    rw [value]
    split <;> decide
  rcases (divide?_of_multiply? one right product multiplied).1.mpr bounded with
    ⟨quotient, divided, agrees⟩
  exact ⟨one, right, product, quotient, value "length", multiplied, divided,
    agrees⟩

/--
A product cannot be divided by a factor with the least exponent, though the
exponents of the quotient are small.
-/
theorem exists_divide?_product_eq_none :
    ∃ left right product : PhysicalUnit, left.multiply? right = some product ∧
      product.divide? right = none ∧
      ∀ name, Representable (product.exponent name - right.exponent name) := by
  have built : (ofExponents? [("length", -2147483648)] 1.0).any (fun right =>
      (one.multiply? right).isSome && right.exponent "length" = -2147483648) =
      true := by
    decide +kernel
  rcases (Option.any_eq_true _ _).mp built with ⟨right, -, facts⟩
  rcases Bool.and_eq_true_iff.mp facts with ⟨defined, least⟩
  rcases Option.isSome_iff_exists.mp defined with ⟨product, multiplied⟩
  refine ⟨one, right, product, multiplied, ?_, ?_⟩
  · exact (divide?_product_eq_none_iff multiplied).mpr
      ⟨"length", of_decide_eq_true least⟩
  · intro name
    rw [exponent_of_multiply? multiplied, Int.add_sub_cancel]
    exact one.dimensions.representable_exponent name

end PhysicalUnit

end SchemaMap
