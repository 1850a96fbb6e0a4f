import SchemaMap.Proofs.Analysis.Phases
import SchemaMap.Proofs.Meaning

/-!
# The units of a program

The units of a program are evaluated on demand, in whatever order they refer to
one another, and a fault that is met on the way is remembered.  Which units are
noted in the end is nevertheless the least solution of the declarations that own
their names: `unit?_withUnits_iff_hasValue` says that exactly the units are
noted that finite unfolding gives, and that every other declared unit is
remembered with a fault that is reported.
-/

namespace SchemaMap

namespace Program

variable {program : Program}

/--
The values of the declared units, by finite unfolding of the declarations that
own their names.
-/
def HasValue (program : Program) : String → PhysicalUnit → Prop :=
  HasUnit (fun declaration =>
    program.owner? declaration.name = some (.unit declaration))
    (fun name =>
      ∃ declaration, program.owner? name = some (.dimension declaration))

/-- The units among the owners are those that own their names. -/
theorem mem_units_owners_iff {declaration : UnitDeclaration} :
    declaration ∈ program.owners.filterMap Declaration.unit? ↔
      program.owner? declaration.name = some (.unit declaration) := by
  rw [mem_filterMap_unit?_iff]
  exact mem_owners_iff

/-- A name is a dimension exactly when a dimension owns it. -/
theorem isDimension_iff_owner? {name : String} :
    program.isDimension name = true ↔
      ∃ declaration, program.owner? name = some (.dimension declaration) := by
  unfold isDimension
  cases program.owner? name with
  | none => simp
  | some declaration =>
      cases declaration <;> simp [Declaration.placeholder, Kind.isDimension]

/-- The units of the owners have the values of the program. -/
theorem unitOf_owners_eq :
    UnitOf program.isDimension (program.owners.filterMap Declaration.unit?) =
      program.HasValue := by
  simp only [UnitOf, HasValue, mem_units_owners_iff, isDimension_iff_owner?]

theorem nodup_names_units_owners :
    ((program.owners.filterMap Declaration.unit?).map
      UnitDeclaration.name).Nodup :=
  nodup_map_filterMap (fun _ _ => Declaration.unit?_eq_some_iff)
    (nodup_names_owners program)

theorem eq_of_mem_units_owners {first second : UnitDeclaration}
    (left : first ∈ program.owners.filterMap Declaration.unit?)
    (right : second ∈ program.owners.filterMap Declaration.unit?)
    (named : first.name = second.name) : first = second :=
  List.inj_on_of_nodup_map nodup_names_units_owners left right named

/--
Every declared unit is settled in the end, and a fault has the position of its
declaration if it has no other.
-/
theorem consistent_units (program : Program) :
    UnitTable.Consistent program.isDimension
      (program.owners.filterMap Declaration.unit?)
      (program.owners.filterMap Declaration.unit?) []
      ((program.owners.filterMap Declaration.unit?).map UnitDeclaration.name)
        program.units :=
  UnitTable.consistent_ofDeclarations fun _ _ => eq_of_mem_units_owners

/-- A unit is found exactly when finite unfolding gives it. -/
theorem find_units_eq_ok_iff {name : String} {unit : PhysicalUnit} :
    program.units.find name = .ok unit ↔ program.HasValue name unit := by
  rw [← unitOf_owners_eq]
  exact UnitTable.find_ofDeclarations_eq_ok_iff nodup_names_units_owners

/-- Only units that own their names have a value. -/
theorem HasValue.exists_owner {name : String} {unit : PhysicalUnit}
    (value : program.HasValue name unit) :
    ∃ declaration, program.owner? name = some (.unit declaration) := by
  rcases value.exists_declared with ⟨declaration, owner, rfl⟩
  exact ⟨declaration, owner⟩

theorem bind_unitOf_eq_some_iff {name : String} {unit : PhysicalUnit} :
    (program.owner? name).bind program.unitOf = some unit ↔
      program.HasValue name unit := by
  constructor
  · intro noted
    rcases Option.bind_eq_some_iff.mp noted with ⟨declaration, owner, value⟩
    cases declaration with
    | unit declaration =>
        rw [← name_of_owner? owner]
        exact find_units_eq_ok_iff.mp (toOption_eq_some_iff.mp value)
    | _ => contradiction
  · intro value
    rcases value.exists_owner with ⟨declaration, owner⟩
    have named : declaration.name = name := name_of_owner? owner
    rw [owner, Option.bind_some, unitOf, named, toOption_eq_some_iff]
    exact find_units_eq_ok_iff.mpr value

/--
A declared unit without a value is remembered with a fault, at the position of
the declaration if it has no other.
-/
theorem exists_lookup_units_eq_error {declaration : UnitDeclaration}
    (owner : program.owner? declaration.name = some (.unit declaration))
    (valueless : ∀ unit, ¬ program.HasValue declaration.name unit) :
    ∃ fault, program.units.lookup declaration.name = some (.error fault) ∧
      program.unitFaults (.unit declaration) = [fault] := by
  have final := program.consistent_units
  have member := mem_units_owners_iff.mpr owner
  rcases Option.isSome_iff_exists.mp (final.kept declaration.name
    (List.mem_map_of_mem member)) with ⟨outcome, settled⟩
  have decided := final.decided settled
  rw [unitOf_owners_eq] at decided
  cases outcome with
  | ok unit => exact absurd decided (valueless unit)
  | error fault =>
      rcases final.placed settled with ⟨other, otherMember, named, placed⟩
      cases eq_of_mem_units_owners otherMember member named
      refine ⟨fault, settled, ?_⟩
      simp only [unitFaults, UnitTable.find_of_lookup settled, placed]

end Program

namespace Analysis

theorem found_two_unit (program : Program) (declaration : Declaration) :
    (program.found 2 [] declaration).unit = program.unitOf declaration := by
  cases declaration <;> simp [Program.found, Declaration.phase, Program.unitOf]

/--
After the units are evaluated, the noted units are exactly those that finite
unfolding of the owning declarations gives, and the later phases leave it at
that.  Any other declared unit is remembered with a fault, and the fault is
reported.
-/
theorem unit?_withUnits_iff_hasValue (config : Config) (program : Program)
    (name : String) :
    let (table, faults) := SymbolTable.empty.register program
    let owned := table.ownedDeclarations program
    let units := unitTable table owned
    let evaluated := withUnits units owned { table := table, faults := faults }
    (∀ unit, evaluated.unit? name = some unit ↔ program.HasValue name unit) ∧
      (analyze config program).unit? name = evaluated.unit? name ∧
      ∀ declaration, program.owner? name = some (.unit declaration) →
        (∀ unit, ¬ program.HasValue name unit) →
        ∃ fault, units.lookup name = some (.error fault) ∧
          fault.diagnostic ∈ evaluated.diagnostics ∧
          fault.diagnostic ∈ (analyze config program).diagnostics := by
  simp only [SymbolTable.register_fst, unitTable_entries]
  rcases stage_withUnits program (SymbolTable.empty.register program).2 with
    ⟨stage, adds⟩
  have noted : (withUnits program.units (Stage.entries program)
      { table := SymbolTable.ofProgram program,
        faults := (SymbolTable.empty.register program).2 }).unit? name =
        (program.owner? name).bind program.unitOf := by
    refine (stage.units name).trans ?_
    simp only [found_two_unit]
  refine ⟨fun unit => ?_, ?_, ?_⟩
  · rw [noted]
    exact Program.bind_unitOf_eq_some_iff
  · rw [noted]
    exact unit?_analyze config program name
  · intro declaration owner valueless
    have named : declaration.name = name := Program.name_of_owner? owner
    subst named
    rcases Program.exists_lookup_units_eq_error owner valueless with
      ⟨fault, remembered, faults⟩
    have reported : fault ∈ program.owners.flatMap program.unitFaults := by
      refine List.mem_flatMap.mpr
        ⟨.unit declaration, Program.mem_owners_iff.mpr owner, ?_⟩
      rw [faults]
      exact List.mem_singleton_self fault
    refine ⟨fault, remembered,
      (adds _).mpr (.inr (List.mem_map_of_mem reported)), ?_⟩
    rw [mem_diagnostics_analyze]
    apply List.mem_map_of_mem
    simp only [Program.faults, List.mem_append]
    tauto

end Analysis

end SchemaMap
