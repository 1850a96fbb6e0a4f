import SchemaMap.Proofs.PathText
import SchemaMap.Proofs.UnitReader

/-!
# Signatures

The signature of a unit is the text of its dimensions: the factors in the order
of their names, with a star between them, each with its exponent unless this is
one.  A unit without dimensions has the signature `1`.

A signature can be read back, factor by factor (`Dimensions.read_text`), if the
names of the dimensions have neither stars nor carets and if none is called
`1`.  So it identifies the dimensions: two units have the same signature exactly
when they agree (`signature_eq_iff_agrees`).
-/

namespace SchemaMap

/-- Joined parts are split again if the separator is in none of them. -/
theorem Text.split_join {separator : Char} {parts : List String}
    (nonempty : parts ≠ []) (absent : ∀ part ∈ parts, separator ∉ part.toList) :
    split separator (join (String.singleton separator) parts) = parts := by
  induction parts with
  | nil => contradiction
  | cons part rest ih =>
      rw [List.forall_mem_cons] at absent
      cases rest with
      | nil => rw [join, split_of_not_mem absent.1]
      | cons next rest =>
          show split separator
            (part ++ String.singleton separator ++
              join (String.singleton separator) (next :: rest)) = _
          rw [split_append_append absent.1, ih (List.cons_ne_nil _ _) absent.2]

/--
A name that is told apart from what stands around it in a signature; it may be
empty.
-/
structure IsDimensionName (name : String) : Prop where
  unmarked : Text.mentions ['*', '^'] name = false
  apart : name ≠ "1"

instance (name : String) : Decidable (IsDimensionName name) :=
  decidable_of_iff (Text.mentions ['*', '^'] name = false ∧ name ≠ "1")
    ⟨fun ⟨unmarked, apart⟩ => ⟨unmarked, apart⟩,
      fun named => ⟨named.unmarked, named.apart⟩⟩

theorem IsDimensionName.not_mem {name : String} (named : IsDimensionName name) :
    '*' ∉ name.toList ∧ '^' ∉ name.toList :=
  ⟨Text.not_mem_of_mentions_eq_false named.unmarked (by decide),
    Text.not_mem_of_mentions_eq_false named.unmarked (by decide)⟩

namespace Dimensions

/-! ## Factors -/

/-- A dimension with its exponent as it stands in a signature. -/
def factorText (factor : String × Int) : String :=
  if factor.2 = 1 then factor.1 else factor.1 ++ "^" ++ toString factor.2

/-- The dimension and the exponent that a factor of a signature stands for. -/
def readFactor (text : String) : String × Int :=
  match Text.split '^' text with
  | [name, exponent] => (name, UnitReader.numberOf exponent.toList)
  | _ => (text, 1)

theorem not_mem_toString (exponent : Int) :
    '*' ∉ (toString exponent).toList ∧ '^' ∉ (toString exponent).toList := by
  have unmarked := UnitReader.mentions_toString_eq_false exponent
  exact ⟨Text.not_mem_of_mentions_eq_false unmarked (by decide),
    Text.not_mem_of_mentions_eq_false unmarked (by decide)⟩

/-- A factor falls into its name and its exponent. -/
theorem split_factorText {factor : String × Int}
    (named : IsDimensionName factor.1) :
    Text.split '^' (factorText factor) =
      if factor.2 = 1 then [factor.1] else [factor.1, toString factor.2] := by
  have bare := named.not_mem.2
  rw [factorText]
  split
  · exact Text.split_of_not_mem bare
  · exact (Text.split_append_append bare _).trans
      (congrArg (factor.1 :: ·)
        (Text.split_of_not_mem (not_mem_toString factor.2).2))

/-- A factor is read back. -/
theorem readFactor_factorText {factor : String × Int}
    (named : IsDimensionName factor.1) :
    readFactor (factorText factor) = factor := by
  rw [readFactor, split_factorText named]
  by_cases once : factor.2 = 1
  · rw [if_pos once, factorText, if_pos once]
    exact Prod.ext rfl once.symm
  · rw [if_neg once]
    exact Prod.ext rfl (UnitReader.numberOf_toString factor.2)

theorem not_mem_factorText {factor : String × Int}
    (named : IsDimensionName factor.1) :
    '*' ∉ (factorText factor).toList := by
  have bare := named.not_mem.1
  have digits := (not_mem_toString factor.2).1
  rw [factorText]
  split
  · exact bare
  · simp only [String.toList_append, List.mem_append, not_or]
    exact ⟨⟨bare, by decide⟩, digits⟩

/-- No factor is taken for the number one. -/
theorem factorText_ne_one {factor : String × Int}
    (named : IsDimensionName factor.1) : factorText factor ≠ "1" := by
  intro same
  have read := readFactor_factorText named
  rw [same] at read
  exact named.apart (congrArg Prod.fst read).symm

/-! ## Whole signatures -/

/-- Dimensions are determined by their entries. -/
theorem ext_entries {left right : Dimensions}
    (same : left.entries = right.entries) : left = right := by
  obtain ⟨⟨leftEntries, _⟩, _⟩ := left
  obtain ⟨⟨rightEntries, _⟩, _⟩ := right
  cases show leftEntries = rightEntries from same
  rfl

/-- The dimensions and exponents that a signature stands for. -/
def read (text : String) : List (String × Int) :=
  if text = "1" then [] else (Text.split '*' text).map readFactor

variable {dimensions : Dimensions}

theorem split_text
    (named : ∀ factor ∈ dimensions.entries, IsDimensionName factor.1)
    (some : dimensions.entries ≠ []) :
    Text.split '*' dimensions.text = dimensions.entries.map factorText := by
  rw [text, List.isEmpty_eq_false_iff.mpr some, if_neg Bool.false_ne_true]
  refine Text.split_join (List.map_eq_nil_iff.not.mpr some)
    (List.forall_mem_map.mpr fun factor member => ?_)
  exact not_mem_factorText (named factor member)

/-- A signature is read as the dimensions it was written for. -/
theorem read_text
    (named : ∀ factor ∈ dimensions.entries, IsDimensionName factor.1) :
    read dimensions.text = dimensions.entries := by
  by_cases none : dimensions.entries = []
  · rw [text, none]
    rfl
  · have written : dimensions.text ≠ "1" := by
      -- The text of one would be a single factor.
      intro one
      have factors := split_text named none
      rw [one] at factors
      have listed : "1" ∈ dimensions.entries.map factorText :=
        factors ▸ List.mem_cons_self
      rcases List.mem_map.mp listed with ⟨factor, member, same⟩
      exact factorText_ne_one (named factor member) same
    rw [read, if_neg written, split_text named none, List.map_map]
    exact (List.map_congr_left fun factor member =>
      readFactor_factorText (named factor member)).trans (List.map_id _)

end Dimensions

/--
Signatures identify dimensions.  Two units whose dimensions have names without
stars and carets, none of them called `1`, have the same signature exactly when
they agree.
-/
theorem signature_eq_iff_agrees (left right : PhysicalUnit)
    (named : ∀ factor ∈ left.dimensions.entries ++ right.dimensions.entries,
      IsDimensionName factor.1) :
    left.signature = right.signature ↔ left.agrees right = true := by
  rw [List.forall_mem_append] at named
  rw [PhysicalUnit.agrees, decide_eq_true_iff]
  constructor
  · intro same
    have entries : left.dimensions.entries = right.dimensions.entries := by
      rw [← Dimensions.read_text named.1, ← Dimensions.read_text named.2]
      exact congrArg Dimensions.read same
    exact Dimensions.ext_entries entries
  · intro same
    exact congrArg Dimensions.text same

/-- Energy per time, as a quotient and by its exponents. -/
theorem signature_eq_iff_agrees_power :
    ∃ left right,
      (PhysicalUnit.base "Energy").divide? (.base "Time") = some left ∧
      PhysicalUnit.ofExponents? [("Time", -3), ("Mass", 0), ("Energy", 1),
        ("Time", 2)] 1000 = some right ∧
      left.signature = "Energy*Time^-1" ∧ right.signature = "Energy*Time^-1" ∧
      left.agrees right = true := by
  have quotient : ((PhysicalUnit.base "Energy").divide? (.base "Time")).any
      (fun unit =>
        unit.signature == "Energy*Time^-1" &&
          unit.dimensions.entries == [("Energy", 1), ("Time", -1)]) = true := by
    decide +kernel
  have totals : (PhysicalUnit.ofExponents?
      [("Time", -3), ("Mass", 0), ("Energy", 1), ("Time", 2)] 1000).any
      (fun unit =>
        unit.signature == "Energy*Time^-1" &&
          unit.dimensions.entries == [("Energy", 1), ("Time", -1)]) = true := by
    decide +kernel
  simp only [Option.any_eq_true, Bool.and_eq_true,
    beq_iff_eq] at quotient totals
  rcases quotient with ⟨left, divided, leftSignature, leftEntries⟩
  rcases totals with ⟨right, added, rightSignature, rightEntries⟩
  refine ⟨left, right, divided, added, leftSignature, rightSignature, ?_⟩
  refine (signature_eq_iff_agrees left right ?_).mp
    (leftSignature.trans rightSignature.symm)
  rw [leftEntries, rightEntries]
  decide

/-- A dimension that is called `1` has the signature of a pure number. -/
example : (PhysicalUnit.base "1").signature = PhysicalUnit.one.signature ∧
    (PhysicalUnit.base "1").agrees .one = false := by
  decide +kernel

end SchemaMap
