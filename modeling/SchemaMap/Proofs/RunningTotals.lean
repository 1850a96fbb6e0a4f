import SchemaMap.Proofs.Exponents

/-!
# Running totals of exponents

A unit may be given by a list of dimensions with exponents, which are added up
from the left.  Each sum on the way is checked, so what counts is not the total
of a dimension but every running total of it: one that leaves the range ends the
addition, also where later exponents would lead back
(`ofExponents?_by_running_totals`).

What a list gives is therefore a question of its order, though only so far as it
gives anything at all.  Lists of the same pairs that give a unit give the same
one, and pairs whose totals are in the range can be added in some order: while
the sum is positive a negative exponent can be added, and the other way round
(`exists_shift?_isSome`).
-/

namespace SchemaMap

namespace Dimensions

variable {start : Dimensions} {pairs reordered : List (String × Int)}
  {name : String}

/-- The order of the pairs does not matter for the totals. -/
theorem total_perm (same : reordered.Perm pairs) (name : String) :
    total reordered name = total pairs name := by
  induction same with
  | nil => rfl
  | cons pair _ ih => simp only [total, ih]
  | swap first second rest =>
      simp only [total]
      omega
  | trans _ _ first second => exact first.trans second

/--
Pairs can be added one by one exactly when no running total leaves the range.
-/
theorem isSome_shiftAll?_iff_running :
    (start.shiftAll? pairs).isSome ↔
      ∀ earlier, earlier <+: pairs →
        ∀ name, Representable (start.exponent name + total earlier name) := by
  induction pairs generalizing start with
  | nil =>
      simp only [List.prefix_nil, forall_eq, total, Int.add_zero]
      exact iff_of_true rfl start.representable_exponent
  | cons pair rest ih =>
      rw [shiftAll?_cons]
      cases first : start.shift? pair.1 pair.2 with
      | none =>
          refine iff_of_false Bool.false_ne_true fun all => ?_
          have added :=
            all [pair] ((List.prefix_cons_inj pair).mpr List.nil_prefix) pair.1
          rw [total, total, if_pos rfl, Int.add_zero] at added
          simp [shift?, added] at first
      | some next =>
          have changed := (shift?_eq_some_iff.mp first).2
          have sums : ∀ earlier name,
              next.exponent name + total earlier name =
                start.exponent name + total (pair :: earlier) name := by
            intro earlier name
            rw [changed, total]
            omega
          rw [Option.bind_some, ih]
          simp only [sums]
          constructor
          · intro all earlier within name
            rcases List.prefix_cons_iff.mp within with
              rfl | ⟨others, rfl, further⟩
            · rw [total, Int.add_zero]
              exact start.representable_exponent name
            · exact all others further name
          · exact fun all earlier within =>
              all (pair :: earlier) ((List.prefix_cons_inj pair).mpr within)

/-! ## Orders in which pairs can be added -/

/-- A negative total has a negative entry. -/
theorem exists_negative_of_total (negative : total pairs name < 0) :
    ∃ pair ∈ pairs, pair.1 = name ∧ pair.2 < 0 := by
  induction pairs with
  | nil => exact absurd negative (Int.lt_irrefl 0)
  | cons pair rest ih =>
      by_cases here : name = pair.1 ∧ pair.2 < 0
      · exact ⟨pair, List.mem_cons_self, here.1.symm, here.2⟩
      · have later : total rest name < 0 := by
          rw [total] at negative
          split at negative
          · next same =>
              have notBelow : ¬ pair.2 < 0 := fun less => here ⟨same, less⟩
              omega
          · omega
        rcases ih later with ⟨found, member, facts⟩
        exact ⟨found, List.mem_cons_of_mem pair member, facts⟩

/--
A pair above the total of its dimension is not alone: some other pair takes away
from it.
-/
theorem exists_negative_of_total_lt {pair : String × Int}
    (member : pair ∈ pairs) (less : total pairs pair.1 < pair.2) :
    ∃ other ∈ pairs, other.1 = pair.1 ∧ other.2 < 0 := by
  have sum := total_perm (List.perm_cons_erase member) pair.1
  rw [total, if_pos rfl] at sum
  have rest : total (pairs.erase pair) pair.1 < 0 := by omega
  rcases exists_negative_of_total rest with ⟨other, left, facts⟩
  exact ⟨other, List.mem_of_mem_erase left, facts⟩

theorem exists_positive_of_lt_total {pair : String × Int}
    (member : pair ∈ pairs) (less : pair.2 < total pairs pair.1) :
    ∃ other ∈ pairs, other.1 = pair.1 ∧ 0 < other.2 := by
  have mirrored : (pair.1, pair.2 * -1) ∈ scaledPairs pairs (-1) :=
    List.mem_map_of_mem member
  have below : total (scaledPairs pairs (-1)) pair.1 < pair.2 * -1 := by
    rw [total_scaledPairs]
    omega
  rcases exists_negative_of_total_lt mirrored below with
    ⟨_, listed, same, negative⟩
  rcases List.mem_map.mp listed with ⟨other, found, rfl⟩
  have positive : other.2 * -1 < 0 := negative
  exact ⟨other, found, same, by omega⟩

/-- Where all totals are in the range, one of the pairs can be added first. -/
theorem exists_shift?_isSome (small : ∀ pair ∈ pairs, Representable pair.2)
    (fits : ∀ name, Representable (start.exponent name + total pairs name))
    (inhabited : pairs ≠ []) :
    ∃ pair ∈ pairs, (start.shift? pair.1 pair.2).isSome := by
  rcases List.exists_mem_of_ne_nil pairs inhabited with ⟨pair, member⟩
  have whole := fits pair.1
  have here := start.representable_exponent pair.1
  have step := small pair member
  have suitable : ∃ chosen ∈ pairs, chosen.1 = pair.1 ∧
      Representable (start.exponent pair.1 + chosen.2) := by
    by_cases added : Representable (start.exponent pair.1 + pair.2)
    · exact ⟨pair, member, rfl, added⟩
    · -- The pair leads out of the range and the total is inside, so there is a
      -- pair of the other sign.
      simp only [Representable] at added whole here step ⊢
      by_cases above : 0 < pair.2
      · rcases exists_negative_of_total_lt member (by omega) with
          ⟨chosen, listed, same, negative⟩
        have bounds := (small chosen listed).1
        exact ⟨chosen, listed, same, by omega, by omega⟩
      · rcases exists_positive_of_lt_total member (by omega) with
          ⟨chosen, listed, same, positive⟩
        have bounds := (small chosen listed).2
        exact ⟨chosen, listed, same, by omega, by omega⟩
  rcases suitable with ⟨chosen, listed, same, added⟩
  refine ⟨chosen, listed, ?_⟩
  rw [← same] at added
  simp [shift?, added]

/-- Pairs whose totals are in the range can be added in some order. -/
theorem exists_perm_isSome_shiftAll?
    (small : ∀ pair ∈ pairs, Representable pair.2)
    (fits : ∀ name, Representable (start.exponent name + total pairs name)) :
    ∃ reordered, reordered.Perm pairs ∧ (start.shiftAll? reordered).isSome := by
  induction size : pairs.length generalizing start pairs with
  | zero => exact ⟨[], by rw [List.length_eq_zero_iff.mp size], rfl⟩
  | succ count ih =>
      have inhabited : pairs ≠ [] := List.ne_nil_of_length_eq_add_one size
      rcases exists_shift?_isSome small fits inhabited with
        ⟨pair, member, defined⟩
      rcases Option.isSome_iff_exists.mp defined with ⟨next, first⟩
      have split := List.perm_cons_erase member
      have sums : ∀ name,
          next.exponent name + total (pairs.erase pair) name =
            start.exponent name + total pairs name := by
        intro name
        rw [(shift?_eq_some_iff.mp first).2, total_perm split name, total]
        omega
      have stillSmall : ∀ other ∈ pairs.erase pair, Representable other.2 :=
        fun other left => small other (List.mem_of_mem_erase left)
      have shorter : (pairs.erase pair).length = count := by
        rw [List.length_erase_of_mem member, size, Nat.add_sub_cancel]
      rcases ih stillSmall (fun name => sums name ▸ fits name) shorter with
        ⟨reordered, same, further⟩
      refine ⟨pair :: reordered, (same.cons pair).trans split.symm, ?_⟩
      rw [shiftAll?_cons, first]
      exact further

end Dimensions

namespace PhysicalUnit

open Dimensions (total)

variable {left right unit : PhysicalUnit} {pairs : List (String × Int)}
  {scale : Float}

/-- Units with the same label, scale and exponents are the same. -/
theorem eq_of_exponents (labels : left.label = right.label)
    (scales : left.scale = right.scale)
    (exponents : ∀ name, left.exponent name = right.exponent name) :
    left = right := by
  have dimensions : left.dimensions = right.dimensions :=
    Dimensions.ext_exponent exponents
  cases left
  cases right
  simp_all

/-- Exponents can be added up exactly when no running total leaves the range. -/
theorem isSome_ofExponents?_iff :
    (ofExponents? pairs scale).isSome ↔
      ∀ earlier, earlier <+: pairs →
        ∀ name, Representable (total earlier name) := by
  have running := @Dimensions.isSome_shiftAll?_iff_running Dimensions.none pairs
  simp only [Dimensions.exponent_none, Int.zero_add] at running
  rw [ofExponents?, Option.isSome_map]
  exact running

/--
What a list of pairs gives has neither label nor scale of its own, and the
totals of the list as exponents.
-/
theorem parts_of_ofExponents? (built : ofExponents? pairs scale = some unit) :
    unit.label = none ∧ unit.scale = scale ∧
      ∀ name, unit.exponent name = total pairs name := by
  rcases Option.map_eq_some_iff.mp built with ⟨dimensions, added, rfl⟩
  refine ⟨rfl, rfl, fun name => ?_⟩
  exact (Dimensions.exponent_of_shiftAll? added name).trans (Int.zero_add _)

/-- Where two orders both succeed they give the same unit. -/
theorem ofExponents?_perm {reordered : List (String × Int)}
    (same : reordered.Perm pairs)
    (first : (ofExponents? reordered scale).isSome)
    (second : (ofExponents? pairs scale).isSome) :
    ofExponents? reordered scale = ofExponents? pairs scale := by
  rcases Option.isSome_iff_exists.mp first with ⟨left, leftBuilt⟩
  rcases Option.isSome_iff_exists.mp second with ⟨right, rightBuilt⟩
  rcases parts_of_ofExponents? leftBuilt with
    ⟨leftLabel, leftScale, leftExponents⟩
  rcases parts_of_ofExponents? rightBuilt with
    ⟨rightLabel, rightScale, rightExponents⟩
  have equal : left = right := by
    apply eq_of_exponents (leftLabel.trans rightLabel.symm)
      (leftScale.trans rightScale.symm)
    intro name
    rw [leftExponents, rightExponents, Dimensions.total_perm same]
  rw [leftBuilt, rightBuilt, equal]

/--
A list of dimensions with exponents gives no unit exactly when a running total
of some dimension is not representable.  Otherwise the exponents of the unit are
the totals of the list, and reordered lists that give a unit give the same one.
Exponents that are each representable can be put in an order that gives a unit
exactly when all totals are representable.
-/
theorem ofExponents?_by_running_totals (pairs : List (String × Int))
    (scale : Float) :
    (ofExponents? pairs scale = none ↔
      ∃ earlier, earlier <+: pairs ∧
        ∃ name, ¬ Representable (total earlier name)) ∧
    (∀ unit, ofExponents? pairs scale = some unit →
      unit.label = none ∧ unit.scale = scale ∧
        ∀ name, unit.exponent name = total pairs name) ∧
    (∀ reordered, reordered.Perm pairs → (ofExponents? reordered scale).isSome →
      (ofExponents? pairs scale).isSome →
      ofExponents? reordered scale = ofExponents? pairs scale) ∧
    ((∀ pair ∈ pairs, Representable pair.2) →
      ((∃ reordered, reordered.Perm pairs ∧
        (ofExponents? reordered scale).isSome) ↔
        ∀ name, Representable (total pairs name))) := by
  refine ⟨?_, fun unit => parts_of_ofExponents?,
    fun reordered => ofExponents?_perm, fun small => ⟨?_, ?_⟩⟩
  · rw [← Option.not_isSome_iff_eq_none, isSome_ofExponents?_iff]
    simp only [not_forall, exists_prop]
  · rintro ⟨reordered, same, built⟩ name
    have whole :=
      isSome_ofExponents?_iff.mp built reordered List.prefix_rfl name
    rwa [Dimensions.total_perm same] at whole
  · intro fits
    have sums : ∀ name,
        Representable (Dimensions.none.exponent name + total pairs name) := by
      simpa only [Dimensions.exponent_none, Int.zero_add] using fits
    rcases Dimensions.exists_perm_isSome_shiftAll? small sums with
      ⟨reordered, same, added⟩
    exact ⟨reordered, same, by rwa [ofExponents?, Option.isSome_map]⟩

/--
A running total above the range ends the addition, though the total is in it and
another order succeeds.
-/
theorem exists_ofExponents?_eq_none_of_representable :
    ∃ (pairs reordered : List (String × Int)), reordered.Perm pairs ∧
      (∀ pair ∈ pairs, Representable pair.2) ∧
      (∀ name, Representable (total pairs name)) ∧
      (ofExponents? pairs 1.0).isNone ∧
      (ofExponents? reordered 1.0).isSome := by
  refine ⟨[("length", 2147483647), ("length", 1), ("length", -1)],
    [("length", 2147483647), ("length", -1), ("length", 1)], by decide, by
      decide, ?_, by decide +kernel, by decide +kernel⟩
  intro name
  simp only [total]
  split <;> decide

end PhysicalUnit

end SchemaMap
