import SchemaMap.Analysis.Program
import SchemaMap.Proofs.Analysis.Stage

/-!
# What the phases find

The phases of an analysis hand a table from one to the next and change it as
they go.  The main theorems, `kind?_analyze` and `mem_diagnostics_analyze`, say
that what they find in the end is what there is to find: each name stands for
what `Program.kind?` says, and what is told is what the faults of the program
tell.
-/

namespace SchemaMap

namespace Analysis

/-! ## Dimensions and units -/

theorem foldl_noteDimension (names : List String) (analysis : Analysis) :
    (names.foldl noteDimension analysis).table = analysis.table ∧
      (names.foldl noteDimension analysis).faults = analysis.faults ∧
      (names.foldl noteDimension analysis).types.units = analysis.types.units ∧
      ∀ name, (names.foldl noteDimension analysis).types.dimensions.get? name =
        if name ∈ names then some () else
          analysis.types.dimensions.get? name := by
  induction names generalizing analysis with
  | nil => simp
  | cons first rest ih =>
      rcases ih (analysis.noteDimension first) with
        ⟨table, faults, units, dimensions⟩
      refine ⟨table, faults, units, ?_⟩
      intro name
      rw [List.foldl_cons, dimensions]
      by_cases same : name = first
      · simp [same, noteDimension]
      · simp [same, noteDimension, Dictionary.get?_insert_of_ne same]

/-- The names of dimensions are those that a dimension owns. -/
theorem mem_dimensionNames_iff {program : Program} {name : String} :
    name ∈ program.owners.filterMap Declaration.dimensionName? ↔
      program.isDimension name = true := by
  rw [List.mem_filterMap, Program.isDimension]
  constructor
  · rintro ⟨declaration, member, named⟩
    cases declaration with
    | dimension dimension =>
        cases named
        have owner : program.owner? dimension.name =
            some (.dimension dimension) := Program.mem_owners_iff.mp member
        rw [owner]
        rfl
    | _ => contradiction
  · cases owner : program.owner? name with
    | none => simp
    | some declaration =>
        intro isDimension
        have named := Program.name_of_owner? owner
        refine ⟨declaration, Program.mem_owners_iff.mpr (named ▸ owner), ?_⟩
        cases declaration with
        | dimension dimension => exact congrArg some named
        | _ => contradiction

variable {program : Program}

theorem dimensionNames_entries :
    dimensionNames (Stage.entries program) =
      program.owners.filterMap Declaration.dimensionName? := by
  rw [← SymbolTable.map_snd_ownedDeclarations, List.filterMap_map]
  rfl

theorem unitsOf_entries :
    unitsOf (Stage.entries program) =
      program.owners.filterMap Declaration.unit? := by
  rw [← SymbolTable.map_snd_ownedDeclarations, List.filterMap_map]
  rfl

theorem schemasOf_entries :
    schemasOf (Stage.entries program) =
      program.owners.filterMap Declaration.schema? := by
  rw [← SymbolTable.map_snd_ownedDeclarations, List.filterMap_map]
  rfl

theorem unitTable_entries :
    unitTable (SymbolTable.ofProgram program) (Stage.entries program) =
      program.units := by
  rw [unitTable, unitsOf_entries, Program.units]
  congr 1
  funext name
  rw [SymbolTable.kind?_ofProgram]
  rfl

/-- After registration every name stands for a placeholder. -/
private theorem stage_registered (program : Program) (faults : List Fault) :
    Stage program (program.found 1 [])
      ((dimensionNames (Stage.entries program)).foldl noteDimension
        { table := SymbolTable.ofProgram program, faults := faults }) := by
  rcases foldl_noteDimension (dimensionNames (Stage.entries program))
      { table := SymbolTable.ofProgram program, faults := faults } with
        ⟨table, -, units, dimensions⟩
  have placeholders : ∀ declaration,
      program.found 1 [] declaration = ⟨declaration.placeholder, none⟩ := by
    intro declaration
    cases declaration <;>
      simp [Program.found, Declaration.phase, Program.kindOf, Program.unitOf,
        Declaration.head,
      Declaration.placeholder]
  refine ⟨?_, ?_, ?_, ?_, ?_⟩
  · rw [table]
    exact SymbolTable.rooted_ofProgram program
  · intro name
    rw [table]
  · intro name
    rw [table, SymbolTable.kind?_ofProgram]
    simp only [placeholders]
  · intro name
    rw [units]
    simp only [placeholders]
    cases program.owner? name <;> rfl
  · intro name
    rw [dimensions, dimensionNames_entries]
    simp only [mem_dimensionNames_iff]
    rfl

theorem unitPhase (program : Program) :
    Stage.Phase program 1 (completeUnit program.units) program.unitFaults where
  skips := by
    intro analysis id declaration other
    cases declaration with
    | unit => exact absurd rfl other
    | _ => rfl
  faultless := by
    intro declaration other
    cases declaration with
    | unit => exact absurd rfl other
    | _ => rfl
  completes := by
    intro completed analysis id declaration owner bound current fresh stage
    cases declaration with
    | unit declaration =>
        cases value : program.units.find declaration.name with
        | ok unit =>
            have kind : program.kindOf (.unit declaration) =
                .unit (some unit) := by simp [Program.kindOf, value]
            have unitValue : program.unitOf (.unit declaration) =
                some unit := by
              simp [Program.unitOf, value, Except.toOption]
            simp only [completeUnit, value, Program.unitFaults]
            refine ⟨stage.setKind current owner bound ?_ ?_ ?_ rfl,
              .of_faults_eq rfl⟩
            · rw [kind]
              rfl
            · rw [kind]
              rfl
            · intro name
              rw [unitValue]
              by_cases same : name = declaration.name
              · simp [noteUnit, same, Declaration.name]
              · simp [noteUnit, Dictionary.get?_insert_of_ne same, same,
                  Declaration.name]
        | error fault =>
            simp only [completeUnit, value, Program.unitFaults]
            refine ⟨(stage.unchanged current fresh owner ?_ ?_).grows
              (.report _ _), adds_report _ _⟩
            · simp [Program.kindOf, value, Declaration.placeholder]
            · simp [Program.unitOf, value, Except.toOption]
    | _ => simp [Declaration.phase] at current

/-- The phase of the units, after the dimensions were noted. -/
theorem stage_withUnits (program : Program) (faults : List Fault) :
    Stage program (program.found 2 [])
        (withUnits program.units (Stage.entries program)
          { table := SymbolTable.ofProgram program, faults := faults }) ∧
      ({ table := SymbolTable.ofProgram program, faults := faults } :
        Analysis).Adds
        (withUnits program.units (Stage.entries program)
          { table := SymbolTable.ofProgram program, faults := faults })
        (program.owners.flatMap program.unitFaults) := by
  rcases (stage_registered program faults).foldl (unitPhase program) with
    ⟨stage, adds⟩
  rcases foldl_noteDimension (dimensionNames (Stage.entries program))
      { table := SymbolTable.ofProgram program, faults := faults } with
        ⟨-, sameFaults, -, -⟩
  exact ⟨stage, (Adds.of_faults_eq sameFaults).trans adds⟩

/-! ## Enumerations and schemas -/

theorem enumPhase (program : Program) :
    Stage.Phase program 2 completeEnum fun _ => [] where
  skips := by
    intro analysis id declaration other
    cases declaration with
    | enumeration => exact absurd rfl other
    | _ => rfl
  faultless := fun _ _ => rfl
  completes := by
    intro completed analysis id declaration owner bound current fresh stage
    cases declaration with
    | enumeration =>
        exact ⟨stage.setKind_of_unitless current fresh owner bound rfl rfl,
          .of_faults_eq rfl⟩
    | _ => simp [Declaration.phase] at current

/--
Of a schema that owns its name, completion keeps the name and the parameters.
-/
theorem asType_kindOf {name : String} {declaration : Declaration}
    (owner : program.owner? name = some declaration) :
    (program.kindOf declaration).asType = declaration.head.asType := by
  cases declaration with
  | schema declaration =>
      rw [Program.kindOf]
      cases found : program.fields.completed.lookup declaration.name with
      | none => rfl
      | some schema =>
          rcases (SchemaFields.built_ofDeclarations _ _).1.declared found with
            ⟨other, member, sameName, content⟩
          rcases List.mem_filterMap.mp member with ⟨viewed, ownerMember, view⟩
          rw [Declaration.schema?_eq_some_iff] at view
          subst view
          cases Program.eq_of_owner? (Program.mem_owners_iff.mp ownerMember)
            owner sameName.symm
          rw [content]
          rfl
  | unit declaration =>
      rw [Program.kindOf]
      cases program.units.find declaration.name <;> rfl
  | lookup declaration =>
      rw [Program.kindOf]
      cases program.names.lookup declaration <;> rfl
  | transform declaration =>
      rw [Program.kindOf]
      cases program.names.signature declaration <;> rfl
  | _ => rfl

/--
Once the enumerations are complete, type expressions see the same names until
the end.
-/
theorem Stage.sameTypes {analysis : Analysis} {phase : Nat}
    {completed : List String}
    (stage : Stage program (program.found phase completed) analysis)
    (late : 3 ≤ phase) :
    (analysis.names program.units).SameTypes program.names where
  kind := by
    intro name
    show (analysis.table.kind? name).map Kind.asType =
        ((program.owner? name).map Declaration.head).map Kind.asType
    rw [stage.kinds]
    cases owner : program.owner? name with
    | none => rfl
    | some declaration =>
        simp only [Option.map_some, Option.some.injEq, Program.found]
        split
        · exact asType_kindOf owner
        · next early =>
            cases declaration with
            | enumeration =>
                simp only [Declaration.phase] at early
                omega
            | _ => rfl
  unit := rfl

theorem schemaPhase (program : Program) :
    Stage.Phase program 3 (completeSchema program.fields) fun _ => [] where
  skips := by
    intro analysis id declaration other
    cases declaration with
    | schema => exact absurd rfl other
    | _ => rfl
  faultless := fun _ _ => rfl
  completes := by
    intro completed analysis id declaration owner bound current fresh stage
    cases declaration with
    | schema declaration =>
        cases found : program.fields.completed.lookup declaration.name with
        | none =>
            simp only [completeSchema, found]
            refine ⟨stage.unchanged current fresh owner ?_ rfl,
              .of_faults_eq rfl⟩
            simp [Program.kindOf, found]
        | some schema =>
            have kind : program.kindOf (.schema declaration) =
                .schema schema (declaration.parent.map Located.value) := by
              simp [Program.kindOf, found]
            simp only [completeSchema, found]
            rw [← kind]
            exact ⟨stage.setKind_of_unitless current fresh owner bound
              (by rw [kind]; rfl) rfl, .of_faults_eq rfl⟩
    | _ => simp [Declaration.phase] at current

/--
Once the enumerations are complete, the schemas have the fields that they have
in the end.
-/
theorem Stage.fields_eq {analysis : Analysis}
    (stage : Stage program (program.found 3 []) analysis) :
    SchemaFields.ofDeclarations (analysis.names program.units)
      (schemasOf (Stage.entries program)) =
      program.fields := by
  rw [schemasOf_entries,
    SchemaFields.ofDeclarations_congr (stage.sameTypes (Nat.le_refl 3))]
  rfl

/-- The phases of the enumerations and the schemas. -/
theorem stage_withSchemas {analysis : Analysis}
    (stage : Stage program (program.found 2 []) analysis) :
    Stage program (program.found 4 [])
      (withSchemas program.units (Stage.entries program) analysis) ∧
      analysis.Adds (withSchemas program.units (Stage.entries program) analysis)
        program.fields.faults := by
  have noFaults : program.owners.flatMap (fun _ => ([] : List Fault)) = [] := by
    simp
  rcases stage.foldl (enumPhase program) with ⟨enumStage, enumAdds⟩
  rcases enumStage.foldl (schemaPhase program) with ⟨schemaStage, schemaAdds⟩
  have fields := enumStage.fields_eq
  simp only [withSchemas, fields]
  rw [noFaults] at enumAdds schemaAdds
  have reported := Grows.reportAll
    ((Stage.entries program).foldl (completeSchema program.fields)
      ((Stage.entries program).foldl completeEnum analysis))
    program.fields.faults
  exact ⟨schemaStage.grows reported,
    (enumAdds.trans schemaAdds).trans reported.adds⟩

/-! ## Lookup tables, transforms and pipelines -/

theorem lookupPhase (program : Program) :
    Stage.Phase program 4 (completeLookup program.units)
      program.lookupFaults where
  skips := by
    intro analysis id declaration other
    cases declaration with
    | lookup => exact absurd rfl other
    | _ => rfl
  faultless := by
    intro declaration other
    cases declaration with
    | lookup => exact absurd rfl other
    | _ => rfl
  completes := by
    intro completed analysis id declaration owner bound current fresh stage
    cases declaration with
    | lookup declaration =>
        simp only [completeLookup, (stage.sameTypes (by omega)).lookup,
          Program.lookupFaults]
        cases resolved : program.names.lookup declaration with
        | ok types =>
            have kind : program.kindOf (.lookup declaration) =
                .lookup types.1 types.2 := by
              simp [Program.kindOf, resolved]
            simp only
            rw [← kind]
            exact ⟨stage.setKind_of_unitless current fresh owner bound
              (by rw [kind]; rfl) rfl, .of_faults_eq rfl⟩
        | error fault =>
            refine ⟨(stage.unchanged current fresh owner ?_ rfl).grows
              (.report _ _), adds_report _ _⟩
            simp [Program.kindOf, resolved]
    | _ => simp [Declaration.phase] at current

/-- While transforms are checked, inference sees what it sees in the end. -/
theorem Stage.alike {analysis : Analysis} {completed : List String}
    (stage : Stage program (program.found 5 completed) analysis)
    (config : Config) (declaration : TransformDeclaration)
    (signature : Signature) :
    (bodyContext config analysis.table.kind? declaration signature).Alike
      (bodyContext config program.kind? declaration signature) := by
  have general : ∀ {α : Type} (view : Kind → Option α),
      (∀ signature, view (.transform signature) = none) →
      ∀ name,
        (analysis.table.kind? name).bind view =
          (program.kind? name).bind view := by
    intro α view blind name
    rw [stage.kinds, Program.kind?]
    cases owner : program.owner? name with
    | none => rfl
    | some declaration =>
        simp only [Option.map_some, Option.bind_some, Program.found]
        split
        · rfl
        · next early =>
            cases declaration with
            | transform declaration =>
                rw [Program.kindOf]
                cases program.names.signature declaration <;>
                  simp only [Declaration.placeholder, blind]
            | _ => simp [Declaration.phase] at early
  exact ⟨⟨rfl, rfl, rfl⟩, general _ fun _ => rfl, general _ fun _ => rfl,
    general _ fun _ => rfl⟩

/-- The symbol of a transform gets its signature, before its body is checked. -/
theorem Stage.withSignature {analysis : Analysis} {completed : List String}
    (stage : Stage program (program.found 5 completed) analysis)
    {declaration : TransformDeclaration} {signature : Signature}
    (resolved : program.names.signature declaration = .ok signature) {id : Nat}
    (owner : program.owner? declaration.name = some (.transform declaration))
    (bound : (SymbolTable.ofProgram program).lookupGlobal declaration.name =
      some id)
    (fresh : declaration.name ∉ completed) :
    Stage program (program.found 5 (declaration.name :: completed))
      (analysis.setKind id (.transform signature)) := by
  have kind : program.kindOf (.transform declaration) =
      .transform signature := by
    simp [Program.kindOf, resolved]
  have current : (Declaration.transform declaration).phase = 5 := rfl
  rw [← kind]
  exact stage.setKind_of_unitless current fresh owner bound (by rw [kind]; rfl)
    rfl

theorem transformPhase (config : Config) (program : Program) :
    Stage.Phase program 5 (completeTransform config program.units)
      (program.transformFaults config) where
  skips := by
    intro analysis id declaration other
    cases declaration with
    | transform => exact absurd rfl other
    | _ => rfl
  faultless := by
    intro declaration other
    cases declaration with
    | transform => exact absurd rfl other
    | _ => rfl
  completes := by
    intro completed analysis id declaration owner bound current fresh stage
    cases declaration with
    | transform declaration =>
        simp only [completeTransform, checkTransform,
          (stage.sameTypes (by omega)).signature, Program.transformFaults]
        cases resolved : program.names.signature declaration with
        | ok signature =>
            have next := stage.withSignature resolved owner bound fresh
            have body :=
              grows_checkBody config next.rooted declaration signature
            have faults : bodyFaults config
                (analysis.setKind id (.transform signature)).table.kind?
                declaration
                signature =
                  bodyFaults config program.kind? declaration signature := by
              simp only [bodyFaults,
                (next.alike config declaration signature).ruleFaults]
            rw [faults] at body
            exact ⟨next.grows body, body.adds⟩
        | error fault =>
            refine ⟨(stage.unchanged current fresh owner ?_ rfl).grows
              (.report _ _), adds_report _ _⟩
            simp [Program.kindOf, resolved]
    | _ => simp [Declaration.phase] at current

/-- The faults of steps depend on the settings and the kinds only. -/
theorem stepFaults_congr {context other : Context}
    (sameConfig : context.config = other.config)
    (sameKind : context.kind = other.kind)
    (previous : Option (String × Signature)) (steps : List (Located String)) :
    context.stepFaults previous steps = other.stepFaults previous steps := by
  induction steps generalizing previous with
  | nil => rfl
  | cons step rest ih =>
      simp only [Context.stepFaults, Context.chainingFault?, Context.accepts,
        sameConfig, sameKind, ih]
      rfl

/-- After all phases every declaration has its final kind and unit. -/
theorem found_all (declaration : Declaration) :
    program.found 6 [] declaration =
      ⟨program.kindOf declaration, program.unitOf declaration⟩ := by
  cases declaration <;> simp [Program.found, Declaration.phase]

/--
Once the transforms are complete, a pipeline is checked with what the names
stand for in the end.
-/
theorem Stage.completePipeline_eq {analysis : Analysis}
    (stage : Stage program (program.found 6 []) analysis) (config : Config)
    (entry : Nat × Declaration) :
    analysis.completePipeline config entry =
      analysis.reportAll (program.pipelineFaults config entry.2) := by
  rcases entry with ⟨id, declaration⟩
  cases declaration with
  | pipeline declaration =>
      have sameKind : (analysis.context config none).kind =
          (program.pipelineContext config).kind := by
        funext name
        refine (stage.kinds name).trans ?_
        simp only [found_all]
        rfl
      have sameConfig : (analysis.context config none).config =
          (program.pipelineContext config).config := rfl
      exact congrArg analysis.reportAll
        (stepFaults_congr sameConfig sameKind none declaration.steps)
  | _ => rfl

/-! ## The whole analysis -/

/-- The analysis of a program right after its declarations are registered. -/
def registered (program : Program) : Analysis :=
  { table := SymbolTable.ofProgram program,
    faults := (SymbolTable.empty.register program).2 }

/-- The phases, one after the other. -/
theorem analyze_eq_phases (config : Config) (program : Program) :
    analyze config program =
      (Stage.entries program).foldl (completePipeline config)
        ((Stage.entries program).foldl (completeTransform config program.units)
          ((Stage.entries program).foldl (completeLookup program.units)
            (withSchemas program.units (Stage.entries program)
              (withUnits program.units (Stage.entries program)
                (registered program))))) := by
  simp only [analyze, SymbolTable.register_fst, unitTable_entries]
  rfl

/-- The analysis reaches its last stage, with the faults of all phases. -/
private theorem stage_analyze (config : Config) (program : Program) :
    Stage program (program.found 6 []) (analyze config program) ∧
      (registered program).Adds (analyze config program)
        (program.owners.flatMap program.unitFaults ++ program.fields.faults ++
          program.owners.flatMap program.lookupFaults ++
          program.owners.flatMap (program.transformFaults config) ++
          program.owners.flatMap (program.pipelineFaults config)) := by
  rcases stage_withUnits program (SymbolTable.empty.register program).2 with
    ⟨unitStage, unitAdds⟩
  rcases stage_withSchemas unitStage with ⟨schemaStage, schemaAdds⟩
  rcases schemaStage.foldl (lookupPhase program) with ⟨lookupStage, lookupAdds⟩
  rcases lookupStage.foldl (transformPhase config program) with
    ⟨transformStage, transformAdds⟩
  rcases transformStage.foldl_reports fun entry stage =>
    stage.completePipeline_eq config entry with
    ⟨stage, pipelineAdds⟩
  rw [analyze_eq_phases]
  exact ⟨stage,
    (((unitAdds.trans schemaAdds).trans lookupAdds).trans transformAdds).trans
      pipelineAdds⟩

/-- After the analysis every name stands for what its owner is completed to. -/
theorem kind?_analyze (config : Config) (program : Program) (name : String) :
    (analyze config program).table.kind? name = program.kind? name := by
  rw [(stage_analyze config program).1.kinds]
  simp only [found_all]
  rfl

/--
Type expressions see after the analysis what they see in the declarations.
-/
theorem sameTypes_analyze (config : Config) (program : Program) :
    ((analyze config program).names program.units).SameTypes program.names :=
  (stage_analyze config program).1.sameTypes (by decide)

/--
The units that the analysis notes are those of the owners that have a value.
-/
theorem unit?_analyze (config : Config) (program : Program) (name : String) :
    (analyze config program).types.units.get? name =
      (program.owner? name).bind program.unitOf := by
  rw [(stage_analyze config program).1.units]
  simp only [found_all]

theorem dimension?_analyze (config : Config) (program : Program)
    (name : String) :
    (analyze config program).types.dimensions.get? name =
      if program.isDimension name then some () else none :=
  (stage_analyze config program).1.dimensions name

/-- The analysis tells exactly what the faults of the program tell. -/
theorem mem_diagnostics_analyze (config : Config) (program : Program)
    (diagnostic : Diagnostic) :
    diagnostic ∈ (analyze config program).diagnostics ↔
      diagnostic ∈ (program.faults config).map Fault.diagnostic := by
  rw [(stage_analyze config program).2 diagnostic]
  simp only [registered, diagnostics, Program.faults, List.map_append,
    List.mem_append, or_assoc]

/-- A program is accepted exactly when nothing is wrong with it. -/
theorem isAccepted_analyze_iff (config : Config) (program : Program) :
    (analyze config program).isAccepted = true ↔
      program.faults config = [] := by
  rw [isAccepted_iff]
  simp only [mem_diagnostics_analyze]
  rw [← List.eq_nil_iff_forall_not_mem, List.map_eq_nil_iff]

end Analysis

end SchemaMap
