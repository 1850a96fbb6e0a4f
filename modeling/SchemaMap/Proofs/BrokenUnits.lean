import SchemaMap.Proofs.Analysis.Evaluation
import SchemaMap.Proofs.Reporting

/-!
# Broken units are told once

A declared unit that cannot be evaluated is remembered with its fault, and every
use of it gets the same fault back: in the definitions of other units, in the
types of fields, in lookup tables and in the signatures of transforms.  On its
way the fault passes positions that it would take if it had none.

If every declared unit has a position, the remembered fault has one
(`span_ne_unknown_of_broken`), so it stays the same on every way, and to report
it again changes nothing.  The main theorem, `broken_unit_told_once`, says so
for every analysis after the units were evaluated.
-/

namespace SchemaMap

/-! ## Faults with a position -/

namespace Fault

variable {fault : Fault}

/-- A fault with a position keeps it. -/
theorem orAt_of_placed (placed : fault.span ≠ .unknown) (span : Span) :
    fault.orAt span = fault := by
  rw [orAt, Span.orElse, if_neg placed]

theorem foldl_orAt_of_placed (placed : fault.span ≠ .unknown)
    (spans : List Span) :
    spans.foldl orAt fault = fault := by
  induction spans with
  | nil => rfl
  | cons span rest ih => rw [List.foldl_cons, orAt_of_placed placed, ih]

theorem span_ne_unknown_of_orAt_eq {span : Span} (known : span ≠ .unknown)
    (kept : fault.orAt span = fault) :
    fault.span ≠ .unknown := by
  intro unplaced
  have taken : span = fault.span := by
    calc
      span = (fault.orAt span).span := by
        rw [orAt, Span.orElse, if_pos unplaced]
      _ = fault.span := by rw [kept]
  exact known (taken.trans unplaced)

end Fault

/-! ## The remembered faults -/

namespace Program

variable {program : Program} {name : String} {broken : Fault}

/--
A fault that is remembered for a unit has the position of its declaration, if it
has no other.
-/
theorem exists_owner_of_broken
    (remembered : program.units.lookup name = some (.error broken)) :
    ∃ declaration : UnitDeclaration,
      program.owner? declaration.name = some (.unit declaration) ∧
      declaration.name = name ∧ broken.orAt declaration.span = broken := by
  rcases (consistent_units program).placed remembered with
    ⟨declaration, member, named, placed⟩
  exact ⟨declaration, mem_units_owners_iff.mp member, named, placed⟩

/-- Where all declared units have positions, so do the remembered faults. -/
theorem span_ne_unknown_of_broken
    (positioned : ∀ declaration, .unit declaration ∈ program →
      declaration.span ≠ .unknown)
    (remembered : program.units.lookup name = some (.error broken)) :
    broken.span ≠ .unknown := by
  rcases exists_owner_of_broken remembered with ⟨declaration, owner, -, placed⟩
  have written : .unit declaration ∈ program :=
    mem_of_mem_owners (mem_owners_iff.mpr owner)
  exact Fault.span_ne_unknown_of_orAt_eq (positioned declaration written) placed

end Program

namespace Analysis

variable {program : Program} {name : String} {broken : Fault}

/-- The analysis after the units were evaluated. -/
def evaluated (program : Program) : Analysis :=
  withUnits program.units (Stage.entries program) (registered program)

/-- A broken unit is told of when the units are evaluated. -/
theorem mem_diagnostics_evaluated
    (remembered : program.units.lookup name = some (.error broken)) :
    broken.diagnostic ∈ (evaluated program).diagnostics := by
  rcases Program.exists_owner_of_broken remembered with
    ⟨declaration, owner, named, placed⟩
  have reported : broken ∈ program.owners.flatMap program.unitFaults := by
    refine List.mem_flatMap.mpr
      ⟨.unit declaration, Program.mem_owners_iff.mpr owner, ?_⟩
    simp only [Program.unitFaults, named, UnitTable.find_of_lookup remembered,
      placed, List.mem_singleton]
  exact ((stage_withUnits program _).2 _).mpr
    (.inr (List.mem_map_of_mem reported))

/-- No fault of a unit is told by the registration. -/
theorem count_diagnostics_registered
    (remembered : program.units.lookup name = some (.error broken)) :
    (registered program).diagnostics.count broken.diagnostic = 0 := by
  apply List.count_eq_zero_of_not_mem
  intro told
  rcases List.mem_map.mp told with ⟨fault, member, same⟩
  have later :=
    program.isLater_find_units name broken (UnitTable.find_of_lookup remembered)
  exact Fault.diagnostic_ne
    (SymbolTable.isOfRegistration_register program fault member) later same

/-- Nothing is told twice about it. -/
theorem count_diagnostics_evaluated
    (remembered : program.units.lookup name = some (.error broken)) :
    (evaluated program).diagnostics.count broken.diagnostic ≤ 1 := by
  rw [evaluated, withUnits_eq_changed]
  apply count_diagnostics_changed_le_one
  rw [count_diagnostics_registered remembered]
  exact Nat.zero_le 1

/-- Whatever happens later, it is told of exactly once. -/
theorem count_diagnostics_changed_evaluated
    (remembered : program.units.lookup name = some (.error broken))
    (changes : List Change) :
    ((evaluated program).changed changes).diagnostics.count broken.diagnostic =
      1 := by
  have atMost :=
    count_diagnostics_changed_le_one (count_diagnostics_evaluated remembered)
      changes
  have told :=
    mem_diagnostics_changed (mem_diagnostics_evaluated remembered) changes
  exact Nat.le_antisymm atMost (List.one_le_count_iff.mpr told)

/-- After the units an analysis makes further changes only. -/
theorem exists_analyze_eq_changed_evaluated (config : Config)
    (program : Program) :
    ∃ changes,
      analyze config program = (evaluated program).changed changes := by
  rw [analyze_eq_changed, evaluated, withUnits_eq_changed, Program.changes]
  simp only [List.append_assoc, ← changed_append]
  exact ⟨_, rfl⟩

/--
The fault of a broken unit is told once, and no use of the unit changes the
analysis: wherever an expression stops at the unit, it fails with this very
fault, and to report the fault, at whatever positions it was met, adds nothing.
-/
structure TellsOnce (config : Config) (units : UnitTable) (name : String)
    (broken : Fault) (analysis : Analysis) :
    Prop where
  once : analysis.diagnostics.count broken.diagnostic = 1
  dropped : ∀ spans : List Span,
    analysis.report (spans.foldl Fault.orAt broken) = analysis
  unit : ∀ expression span, UnitExpr.StopsAt units.find expression span name →
    (expression.evaluate (m := Id) units.find).run = .error broken
  type : ∀ parameters expression span,
    TypeExpr.StopsAt (analysis.names units) parameters expression span name →
    (analysis.names units).resolve parameters expression = .error broken
  field : ∀ parameters fields field rest span,
    TypeExpr.StopsAt (analysis.names units) parameters field.type span name →
    analysis.reportAll (SchemaFields.declaredFields (analysis.names units)
      parameters fields (field :: rest)).2 =
      analysis.reportAll
        (SchemaFields.declaredFields (analysis.names units) parameters
        (putField fields field.name .unknown) rest).2
  lookup : ∀ id declaration span,
    TypeExpr.SomeStopsAt (analysis.names units) []
      (declaration.keys ++ [declaration.value]) span name →
    analysis.completeLookup units (id, .lookup declaration) = analysis
  transform : ∀ id declaration span,
    TypeExpr.SomeStopsAt (analysis.names units) []
      (declaration.sources.map SourceDeclaration.type ++ [declaration.target])
      span name →
    analysis.completeTransform config units (id, .transform declaration) =
      analysis

/-- A fault that has a position and is told once is told once for good. -/
theorem tellsOnce_of_placed (config : Config) {units : UnitTable}
    {analysis : Analysis}
    (remembered : units.lookup name = some (.error broken))
    (placed : broken.span ≠ .unknown)
    (once : analysis.diagnostics.count broken.diagnostic = 1) :
    analysis.TellsOnce config units name broken := by
  have failed : units.find name = .error broken :=
    UnitTable.find_of_lookup remembered
  have same : ∀ span, broken.orAt span = broken := broken.orAt_of_placed placed
  have told : broken.diagnostic ∈ analysis.diagnostics :=
    List.one_le_count_iff.mp once.ge
  have dropped : analysis.report broken = analysis := report_of_told told
  have type : ∀ parameters expression span,
      TypeExpr.StopsAt (analysis.names units) parameters expression span name →
      (analysis.names units).resolve parameters expression = .error broken := by
    intro parameters expression span stops
    rw [stops.resolve failed, same]
  refine ⟨once, ?_, ?_, type, ?_, ?_, ?_⟩
  · intro spans
    rw [Fault.foldl_orAt_of_placed placed, dropped]
  · intro expression span stops
    rw [stops.run_evaluate failed, same]
  · intro parameters fields field rest span stops
    rw [SchemaFields.declaredFields, type parameters field.type span stops]
    simp only [same]
    rw [reportAll, List.foldl_cons, dropped]
    rfl
  · intro id declaration span stops
    simp only [completeLookup, Names.lookup_of_stopped stops failed, same,
      dropped]
  · intro id declaration span stops
    simp only [completeTransform, checkTransform,
      Names.signature_of_stopped stops failed, same, dropped]

/--
What is told in the end about units was told when they were evaluated, but for
names that are no units.
-/
theorem mem_diagnostics_evaluated_or_undeclared (config : Config)
    (program : Program)
    (positioned : ∀ declaration, .unit declaration ∈ program →
      declaration.span ≠ .unknown) :
    ∀ fault ∈ (analyze config program).faults, fault.problem.isOfUnits = true →
      fault.diagnostic ∈ (evaluated program).diagnostics ∨
        ∃ name, fault.problem = .undeclaredUnit name ∧
          program.units.lookup name = none := by
  -- Of a remembered fault all the data count, so that another position does not
  -- make it a new one.
  let good (fault : Fault) : Prop :=
    fault.problem.isOfUnits = false ∨
      (∃ name, program.units.lookup name = some (.error fault)) ∨
      ∃ name, fault.problem = .undeclaredUnit name ∧
        program.units.lookup name = none
  have moved : ∀ fault span, good fault → good (Fault.orAt fault span) := by
    rintro fault span (other | ⟨name, remembered⟩ | undeclared)
    · exact .inl other
    · rw [Fault.orAt_of_placed
        (Program.span_ne_unknown_of_broken positioned remembered)]
      exact .inr (.inl ⟨name, remembered⟩)
    · exact .inr (.inr undeclared)
  have units : ∀ name, FailsIn good (program.units.find name) := by
    intro name fault failed
    rcases UnitTable.lookup_of_find_eq_error failed with
      remembered | ⟨missing, rfl⟩
    · exact .inr (.inl ⟨name, remembered⟩)
    · exact .inr (.inr ⟨name, rfl, missing⟩)
  have early : ∀ fault : Fault, fault.problem.isOfRegistration = true →
      good fault := by
    rintro ⟨problem, span⟩ registered
    cases problem with
    | alreadyDeclared | unknownParent | cyclicInheritance | duplicateField |
        duplicateVariant => exact .inl rfl
    | _ => contradiction
  intro fault member ofUnits
  have allGood :=
    good_of_mem_faults_analyze
      (fun _ _ found => .inl (Problem.isOfUnits_of_isOfUse found)) early moved
      units config
  rcases allGood fault member with other | ⟨name, remembered⟩ | undeclared
  · rw [ofUnits] at other
    contradiction
  · exact .inl (mem_diagnostics_evaluated remembered)
  · exact .inr undeclared

/--
Where every declared unit has a position, each unit that is remembered with a
fault is told once when the units are evaluated and never again, however often
it is used.  A type that does not stop at a unit fails with a fault of its own,
and what is told in the end about units was told before, or it is about a name
that is no unit.
-/
theorem broken_unit_told_once (config : Config) (program : Program)
    (positioned : ∀ declaration, .unit declaration ∈ program →
      declaration.span ≠ .unknown) :
    let (table, faults) := SymbolTable.empty.register program
    let owned := table.ownedDeclarations program
    let units := unitTable table owned
    let evaluated := withUnits units owned { table := table, faults := faults }
    (∀ name broken, units.lookup name = some (.error broken) →
        (∀ changes,
          (evaluated.changed changes).TellsOnce config units name broken) ∧
          (analyze config program).TellsOnce config units name broken) ∧
      (∀ changes parameters expression fault,
        ((evaluated.changed changes).names units).resolve parameters
          expression = .error fault →
          fault.problem.isOfUse = true ∨
            ∃ span name,
              expression.StopsAt ((evaluated.changed changes).names units)
                parameters span name) ∧
      ∀ fault ∈ (analyze config program).faults,
        fault.problem.isOfUnits = true →
        fault.diagnostic ∈ evaluated.diagnostics ∨
          ∃ name, fault.problem = .undeclaredUnit name ∧
            units.lookup name = none := by
  simp only [SymbolTable.register_fst, unitTable_entries]
  refine ⟨?_, ?_,
    mem_diagnostics_evaluated_or_undeclared config program positioned⟩
  · intro name broken remembered
    have placed := Program.span_ne_unknown_of_broken positioned remembered
    have always : ∀ changes,
        ((evaluated program).changed changes).TellsOnce config program.units
          name broken := by
      intro changes
      exact tellsOnce_of_placed config remembered placed
        (count_diagnostics_changed_evaluated remembered changes)
    rcases exists_analyze_eq_changed_evaluated config program with
      ⟨changes, final⟩
    exact ⟨always, final ▸ always changes⟩
  · intro changes parameters expression fault failed
    cases Names.failsIn_resolve _ parameters expression fault failed with
    | unit _ stopped _ => exact .inr ⟨_, _, stopped⟩
    | own _ found => exact .inl found

/--
A unit that is defined by an undeclared one, another unit, a schema and a lookup
table that use it.
-/
def freight : Program :=
  [.unit
      { name := "crate"
        definition :=
          some (.product ⟨14, 22⟩ (.reference .unknown "box")
            (.reference ⟨18, 22⟩ "load"))
        span := ⟨1, 23⟩ },
    .unit { name := "load",
            definition :=
              some (.power ⟨36, 43⟩ (.reference ⟨36, 41⟩ "crate") 2), span :=
                ⟨25, 44⟩ },
    .schema
      { name := "Ship"
        fields :=
          [{ name := "hold",
             type := .quantity ⟨70, 84⟩ (.reference ⟨79, 83⟩ "load"), span :=
               ⟨64, 84⟩ },
            { name := "deck",
              type :=
                .array ⟨92, 109⟩
                  (.quantity ⟨92, 107⟩ (.reference ⟨101, 106⟩ "crate")),
              span := ⟨86, 109⟩ }]
        span := ⟨46, 111⟩ },
    .lookup
      { name := "Rates"
        keys := [.quantity ⟨125, 139⟩ (.reference ⟨134, 138⟩ "load")]
        value := .primitive ⟨143, 148⟩ .float
        span := ⟨113, 149⟩ }]

/--
In `freight` both units fail with the same fault, of which nothing is told but
once.
-/
theorem broken_unit_told_once_freight :
    (∀ declaration, .unit declaration ∈ freight → declaration.span ≠ .unknown) ∧
      ∃ broken, freight.units.lookup "load" = some (.error broken) ∧
        (analyze {} freight).diagnostics.count broken.diagnostic = 1 ∧
        (analyze {} freight).diagnostics.length = 1 := by
  have positioned : ∀ declaration, .unit declaration ∈ freight →
      declaration.span ≠ .unknown := by
    intro declaration member
    simp only [freight, List.mem_cons, Declaration.unit.injEq, reduceCtorEq,
      List.not_mem_nil, or_false] at member
    rcases member with rfl | rfl
    · decide
    · decide
  have fails : ((freight.units.lookup "load").any fun outcome =>
      !outcome.isOk) = true := by decide +kernel
  have told := broken_unit_told_once {} freight positioned
  simp only [SymbolTable.register_fst, unitTable_entries] at told
  rcases (Option.any_eq_true _ _).mp fails with ⟨outcome, remembered, failed⟩
  cases outcome with
  | ok unit => contradiction
  | error broken =>
      refine ⟨positioned, broken, remembered,
        (told.1 "load" broken remembered).2.once, ?_⟩
      decide +kernel

end Analysis

end SchemaMap
