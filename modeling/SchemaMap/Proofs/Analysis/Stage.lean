import SchemaMap.Proofs.Findings

/-!
# Stages of an analysis

Between two steps of an analysis, every name stands for the placeholder of its
owner or for what its owner was completed to (`Stage`).  A phase completes its
declarations one by one, and what it completes one to depends on nothing that
the same phase changes.
-/

namespace SchemaMap

/--
The place of a declaration in the order of the phases; dimensions and pipelines
are completed from the start.
-/
def Declaration.phase : Declaration → Nat
  | .dimension _ => 0
  | .pipeline _ => 0
  | .unit _ => 1
  | .enumeration _ => 2
  | .schema _ => 3
  | .lookup _ => 4
  | .transform _ => 5

namespace Program

/-- What is known about a declared name. -/
structure Finding where
  kind : Kind
  unit : Option PhysicalUnit := none

/--
What is known about a declaration while a phase goes on and has completed those
of the given names.
-/
def found (program : Program) (phase : Nat) (completed : List String)
    (declaration : Declaration) : Finding :=
  if declaration.phase < phase ∨
    declaration.phase = phase ∧ declaration.name ∈ completed then
    ⟨program.kindOf declaration, program.unitOf declaration⟩
  else
    ⟨declaration.placeholder, none⟩

section

variable (program : Program) {phase : Nat} {completed : List String}
  {declaration other : Declaration}

/-- Completing one declaration does not change what is found for another. -/
theorem found_of_ne (apart : other.name ≠ declaration.name) :
    program.found phase (declaration.name :: completed) other =
      program.found phase completed other := by
  simp [found, apart]

/-- A completed declaration has its final kind and unit. -/
theorem found_self (current : declaration.phase = phase) :
    program.found phase (declaration.name :: completed) declaration =
      ⟨program.kindOf declaration, program.unitOf declaration⟩ := by
  simp [found, current]

/-- A declaration that waits has its placeholder. -/
theorem found_fresh (current : declaration.phase = phase)
    (fresh : declaration.name ∉ completed) :
    program.found phase completed declaration =
      ⟨declaration.placeholder, none⟩ := by
  simp [found, current, fresh]

/-- When a phase has gone through all names, the next one begins. -/
theorem found_succ (all : declaration.name ∈ completed) :
    program.found (phase + 1) [] declaration =
      program.found phase completed declaration := by
  unfold found
  have same : (declaration.phase < phase + 1 ∨
      declaration.phase = phase + 1 ∧ declaration.name ∈ ([] : List String)) ↔
      (declaration.phase < phase ∨
        declaration.phase = phase ∧ declaration.name ∈ completed) := by
    simp only [List.not_mem_nil, and_false, or_false, all, and_true]
    omega
  simp only [same]

end

end Program

namespace Analysis

/-- Every name stands for what is known about its owner. -/
structure Stage (program : Program) (finding : Declaration → Program.Finding)
    (analysis : Analysis) : Prop where
  rooted : analysis.table.Rooted
  lookupGlobal : ∀ name,
    analysis.table.lookupGlobal name =
      (SymbolTable.ofProgram program).lookupGlobal name
  kinds : ∀ name,
    analysis.table.kind? name =
      (program.owner? name).map fun declaration => (finding declaration).kind
  units : ∀ name, analysis.types.units.get? name =
    (program.owner? name).bind fun declaration => (finding declaration).unit
  dimensions : ∀ name,
    analysis.types.dimensions.get? name = if program.isDimension name then
      some () else none

namespace Stage

variable {program : Program} {finding other : Declaration → Program.Finding}
  {analysis after : Analysis}

/-- A stage depends on what is found for owners only. -/
theorem congr (stage : Stage program finding analysis)
    (same : ∀ name declaration, program.owner? name = some declaration →
      other declaration = finding declaration) :
    Stage program other analysis where
  rooted := stage.rooted
  lookupGlobal := stage.lookupGlobal
  kinds := by
    intro name
    rw [stage.kinds]
    cases owner : program.owner? name with
    | none => rfl
    | some declaration => simp [same name declaration owner]
  units := by
    intro name
    rw [stage.units]
    cases owner : program.owner? name with
    | none => rfl
    | some declaration => simp [same name declaration owner]
  dimensions := stage.dimensions

theorem grows (stage : Stage program finding analysis) {faults : List Fault}
    (grown : analysis.Grows after faults) :
    Stage program finding after where
  rooted := grown.table.rooted stage.rooted
  lookupGlobal := fun name =>
    (grown.table.lookupGlobal_eq stage.rooted name).trans
      (stage.lookupGlobal name)
  kinds := fun name =>
    (grown.table.kind?_eq stage.rooted name).trans (stage.kinds name)
  units := fun name => by rw [grown.units, stage.units]
  dimensions := fun name => by rw [grown.dimensions, stage.dimensions]

section

variable {phase id : Nat} {completed : List String} {declaration : Declaration}

/-- A declaration of which nothing new is known counts as completed. -/
theorem completed_of_found_eq
    (stage : Stage program (program.found phase completed) analysis)
    (owner : program.owner? declaration.name = some declaration)
    (same : program.found phase (declaration.name :: completed) declaration =
      program.found phase completed declaration) :
    Stage program (program.found phase (declaration.name :: completed))
      analysis := by
  apply stage.congr
  intro name other otherOwner
  by_cases apart : other.name = declaration.name
  · rw [Program.eq_of_owner? owner otherOwner apart, same]
  · exact program.found_of_ne apart

/-- A declaration that keeps its placeholder completes by itself. -/
theorem unchanged
    (stage : Stage program (program.found phase completed) analysis)
    (current : declaration.phase = phase) (fresh : declaration.name ∉ completed)
    (owner : program.owner? declaration.name = some declaration)
    (same : program.kindOf declaration = declaration.placeholder)
    (unitless : program.unitOf declaration = none) :
    Stage program (program.found phase (declaration.name :: completed))
      analysis := by
  apply stage.completed_of_found_eq owner
  rw [program.found_self current, program.found_fresh current fresh, same,
    unitless]

/-- A symbol gets the kind that its declaration is completed to. -/
theorem setKind (stage : Stage program (program.found phase completed) analysis)
    (current : declaration.phase = phase)
    (owner : program.owner? declaration.name = some declaration)
    (bound : (SymbolTable.ofProgram program).lookupGlobal declaration.name =
      some id)
    (declared : (program.kindOf declaration).binding? = none)
    (table : after.table =
      analysis.table.setKind id (program.kindOf declaration))
    (units : ∀ name, after.types.units.get? name =
      if name = declaration.name then program.unitOf declaration else
        analysis.types.units.get? name)
    (dimensions : after.types.dimensions = analysis.types.dimensions) :
    Stage program (program.found phase (declaration.name :: completed))
      after where
  rooted := table ▸ stage.rooted.setKind id declared
  lookupGlobal := by
    intro name
    rw [table, SymbolTable.lookupGlobal_setKind, stage.lookupGlobal]
  kinds := by
    intro name
    rw [table, stage.rooted.kind?_setKind ((stage.lookupGlobal _).trans bound)]
    split
    · next same =>
        rw [same, owner, Option.map_some, program.found_self current]
    · next apart =>
        rw [stage.kinds]
        cases otherOwner : program.owner? name with
        | none => rfl
        | some other =>
            rw [Option.map_some, Option.map_some,
              program.found_of_ne (by rwa [Program.name_of_owner? otherOwner])]
  units := by
    intro name
    rw [units]
    split
    · next same =>
        rw [same, owner, Option.bind_some, program.found_self current]
    · next apart =>
        rw [stage.units]
        cases otherOwner : program.owner? name with
        | none => rfl
        | some other =>
            rw [Option.bind_some, Option.bind_some,
              program.found_of_ne (by rwa [Program.name_of_owner? otherOwner])]
  dimensions := by rw [dimensions]; exact stage.dimensions

/-- Entering the kind of a declaration without unit completes it. -/
theorem setKind_of_unitless
    (stage : Stage program (program.found phase completed) analysis)
    (current : declaration.phase = phase) (fresh : declaration.name ∉ completed)
    (owner : program.owner? declaration.name = some declaration)
    (bound : (SymbolTable.ofProgram program).lookupGlobal declaration.name =
      some id)
    (declared : (program.kindOf declaration).binding? = none)
    (unitless : program.unitOf declaration = none) :
    Stage program (program.found phase (declaration.name :: completed))
      (analysis.setKind id (program.kindOf declaration)) := by
  refine stage.setKind current owner bound declared rfl (fun name => ?_) rfl
  split
  · next same =>
      rw [same, unitless]
      show analysis.types.units.get? declaration.name = none
      rw [stage.units, owner, Option.bind_some,
        program.found_fresh current fresh]
  · rfl

end

/--
The declarations that the phases go through, with the numbers of their symbols.
-/
abbrev entries (program : Program) : List (Nat × Declaration) :=
  (SymbolTable.ofProgram program).ownedDeclarations program

theorem owner?_of_mem_entries {entry : Nat × Declaration}
    (member : entry ∈ entries program) :
    program.owner? entry.2.name = some entry.2 := by
  rw [← Program.mem_owners_iff, ← SymbolTable.map_snd_ownedDeclarations]
  exact List.mem_map_of_mem member

/--
A phase completes the declarations of its number, reports their faults, and
leaves the other declarations.
-/
structure Phase (program : Program) (number : Nat)
    (step : Analysis → Nat × Declaration → Analysis)
    (faults : Declaration → List Fault) : Prop where
  skips : ∀ analysis id declaration, declaration.phase ≠ number →
    step analysis (id, declaration) = analysis
  faultless : ∀ declaration, declaration.phase ≠ number →
    faults declaration = []
  completes : ∀ {completed analysis id declaration},
    program.owner? declaration.name = some declaration →
    (SymbolTable.ofProgram program).lookupGlobal declaration.name = some id →
    declaration.phase = number →
    declaration.name ∉ completed →
    Stage program (program.found number completed) analysis →
    Stage program (program.found number (declaration.name :: completed))
      (step analysis (id, declaration)) ∧
      analysis.Adds (step analysis (id, declaration)) (faults declaration)

section

variable {number : Nat} {step : Analysis → Nat × Declaration → Analysis}
  {faults : Declaration → List Fault}

/--
A step of a phase completes a declaration of the phase and leaves any other.
-/
theorem next (phase : Phase program number step faults)
    {completed : List String} {entry : Nat × Declaration}
    (member : entry ∈ entries program) (fresh : entry.2.name ∉ completed)
    (stage : Stage program (program.found number completed) analysis) :
    Stage program (program.found number (entry.2.name :: completed))
      (step analysis entry) ∧
      analysis.Adds (step analysis entry) (faults entry.2) := by
  have owner := owner?_of_mem_entries member
  by_cases current : entry.2.phase = number
  · exact phase.completes owner
      (SymbolTable.lookupGlobal_of_mem_ownedDeclarations member) current fresh
      stage
  · rw [phase.skips analysis entry.1 entry.2 current,
      phase.faultless entry.2 current]
    refine ⟨stage.completed_of_found_eq owner ?_, .of_faults_eq rfl⟩
    simp [Program.found, current]

/--
Declarations of distinct names that are not completed yet, with the numbers of
their symbols.
-/
structure Awaits (program : Program) (completed : List String)
    (suffix : List (Nat × Declaration)) : Prop where
  included : ∀ entry ∈ suffix, entry ∈ entries program
  distinct : (suffix.map fun entry => entry.2.name).Nodup
  fresh : ∀ entry ∈ suffix, entry.2.name ∉ completed

theorem Awaits.tail {completed : List String} {entry : Nat × Declaration}
    {rest : List (Nat × Declaration)}
    (awaits : Awaits program completed (entry :: rest)) :
    Awaits program (entry.2.name :: completed) rest where
  included := (List.forall_mem_cons.mp awaits.included).2
  distinct := (List.nodup_cons.mp awaits.distinct).2
  fresh := by
    intro other found repeated
    rcases List.mem_cons.mp repeated with same | older
    · exact (List.nodup_cons.mp awaits.distinct).1
        (List.mem_map.mpr ⟨other, found, same⟩)
    · exact (List.forall_mem_cons.mp awaits.fresh).2 other found older

theorem names_entries (program : Program) :
    (entries program).map (fun entry => entry.2.name) =
      program.owners.map Declaration.name := by
  rw [← SymbolTable.map_snd_ownedDeclarations, List.map_map]
  rfl

theorem awaits_entries (program : Program) :
    Awaits program [] (entries program) where
  included := fun _ found => found
  distinct := names_entries program ▸ Program.nodup_names_owners program
  fresh := by simp

/-- A phase completes the entries one after the other. -/
theorem foldl_entries (phase : Phase program number step faults)
    {suffix : List (Nat × Declaration)} {completed : List String}
    (awaits : Awaits program completed suffix)
    (stage : Stage program (program.found number completed) analysis) :
    Stage program
      (program.found number
        ((suffix.map fun entry => entry.2.name).reverse ++ completed))
        (suffix.foldl step analysis) ∧
      analysis.Adds (suffix.foldl step analysis)
        ((suffix.map Prod.snd).flatMap faults) := by
  induction suffix generalizing completed analysis with
  | nil => exact ⟨stage, .of_faults_eq rfl⟩
  | cons entry rest ih =>
      rcases stage.next phase (awaits.included _ List.mem_cons_self)
        (awaits.fresh _ List.mem_cons_self) with
        ⟨after, added⟩
      rcases ih awaits.tail after with ⟨final, adds⟩
      rw [List.map_cons, List.reverse_cons, List.append_assoc]
      exact ⟨final, added.trans adds⟩

/-- A phase completes its declarations one by one and reports their faults. -/
theorem foldl (phase : Phase program number step faults)
    (start : Stage program (program.found number []) analysis) :
    Stage program (program.found (number + 1) [])
      ((entries program).foldl step analysis) ∧
      analysis.Adds ((entries program).foldl step analysis)
        (program.owners.flatMap faults) := by
  rcases start.foldl_entries phase (awaits_entries program) with ⟨final, adds⟩
  rw [SymbolTable.map_snd_ownedDeclarations] at adds
  refine ⟨final.congr ?_, adds⟩
  intro name declaration owner
  apply program.found_succ
  rw [names_entries, List.append_nil, List.mem_reverse]
  apply List.mem_map_of_mem
  rw [Program.mem_owners_iff, Program.name_of_owner? owner]
  exact owner

end

/-- A phase that only reports changes nothing that is known. -/
theorem foldl_reports {step : Analysis → Nat × Declaration → Analysis}
    {faults : Declaration → List Fault}
    (one : ∀ {analysis} entry, Stage program finding analysis →
      step analysis entry = analysis.reportAll (faults entry.2))
    (start : Stage program finding analysis) :
    Stage program finding ((entries program).foldl step analysis) ∧
      analysis.Adds ((entries program).foldl step analysis)
        (program.owners.flatMap faults) := by
  rw [← SymbolTable.map_snd_ownedDeclarations]
  unfold entries
  generalize (SymbolTable.ofProgram program).ownedDeclarations program = suffix
  induction suffix generalizing analysis with
  | nil => exact ⟨start, .of_faults_eq rfl⟩
  | cons entry rest ih =>
      rw [List.foldl_cons, one entry start]
      have reported : Stage program finding
          (analysis.reportAll (faults entry.2)) :=
        start.grows (.reportAll analysis (faults entry.2))
      rcases ih reported with ⟨final, adds⟩
      exact ⟨final, (adds_reportAll _ _).trans adds⟩

end Stage

end Analysis

end SchemaMap
