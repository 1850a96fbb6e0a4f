import SchemaMap.Proofs.Analysis.Phases

/-!
# An analysis as a list of changes

Every step of an analysis is made of a few elementary changes (`Change`).  Which
changes these are does not depend on what the steps before have found: they are
a function of the program (`Program.changes`).  The main theorems say that each
phase of an analysis applies its part of these changes, one after the other, to
what the phase before has left (`phases_eq_scanl`), and so the whole analysis
applies all of them to the table of the registered declarations
(`analyze_eq_changed`).  What single changes keep, an analysis keeps.
-/

namespace SchemaMap

/-- An elementary change of an analysis. -/
inductive Change where
  | noteDimension (name : String)
  | noteUnit (id : Nat) (name : String) (unit : PhysicalUnit)
  | setKind (id : Nat) (kind : Kind)
  | enter (kind : ScopeKind)
  | exit
  | bindVariable (name : String) (type : Ty) (span : Span)
  | noteType (span : Span) (type : Ty)
  | report (fault : Fault)

/-- The change that an event of an inference makes. -/
def Event.change : Event → Change
  | .typed span type => .noteType span type
  | .entered => .enter .lambda
  | .bound name type span => .bindVariable name type span
  | .left => .exit

/-! ## The changes of a program -/

/--
The changes of the rules of a transform; `assigned` holds the targets of the
rules before them.
-/
def Context.ruleChanges (context : Context) (target : Ty)
    (assigned : List String) : List Rule → List Change
  | [] => []
  | rule :: rest =>
      (if rule.targetText ∈ assigned then
        [.report ⟨.duplicateTarget rule.targetText, rule.span⟩] else []) ++
        (context.checkRule target rule).trace.map Event.change ++
        (context.ruleFault? target rule).toList.map .report ++
        context.ruleChanges target (rule.targetText :: assigned) rest

/-- Rules make the same changes in contexts that are alike. -/
theorem Context.Alike.ruleChanges {context other : Context}
    (alike : context.Alike other) (target : Ty) (assigned : List String)
    (rules : List Rule) :
    context.ruleChanges target assigned rules =
      other.ruleChanges target assigned rules := by
  induction rules generalizing assigned with
  | nil => rfl
  | cons rule rest ih =>
      simp only [Context.ruleChanges, Context.ruleFault?, alike.checkRule, ih]

namespace Program

/-- The changes that bind the named sources of a transform. -/
def sourceChanges (sources : List (SourceDeclaration × Ty)) : List Change :=
  (Analysis.namedSources sources).map fun source =>
    .bindVariable source.1.value source.2 source.1.span

/-- The changes of the body of a transform whose signature is known. -/
def bodyChanges (config : Config) (program : Program)
    (declaration : TransformDeclaration) (signature : Signature) :
    List Change :=
  .enter .transform ::
    sourceChanges (declaration.sources.zip (signature.sources.map Prod.snd)) ++
    (Analysis.bodyContext config program.kind? declaration
      signature).ruleChanges signature.target []
      declaration.rules ++
    [.exit]

def unitChanges (program : Program) (entry : Nat × Declaration) : List Change :=
  match entry.2 with
  | .unit declaration =>
      match program.units.find declaration.name with
      | .ok unit => [.noteUnit entry.1 declaration.name unit]
      | .error fault => [.report (fault.orAt declaration.span)]
  | _ => []

def enumChanges (entry : Nat × Declaration) : List Change :=
  match entry.2 with
  | .enumeration declaration =>
      [.setKind entry.1
        (.enumeration (declaration.variants.map Located.value).eraseDups)]
  | _ => []

def schemaChanges (program : Program) (entry : Nat × Declaration) :
    List Change :=
  match entry.2 with
  | .schema declaration =>
      match program.fields.completed.lookup declaration.name with
      | some schema =>
          [.setKind entry.1
            (.schema schema (declaration.parent.map Located.value))]
      | none => []
  | _ => []

def lookupChanges (program : Program) (entry : Nat × Declaration) :
    List Change :=
  match entry.2 with
  | .lookup declaration =>
      match program.names.lookup declaration with
      | .ok (keys, value) => [.setKind entry.1 (.lookup keys value)]
      | .error fault => [.report (fault.orAt declaration.span)]
  | _ => []

def transformChanges (config : Config) (program : Program)
    (entry : Nat × Declaration) : List Change :=
  match entry.2 with
  | .transform declaration =>
      match program.names.signature declaration with
      | .ok signature =>
          .setKind entry.1 (.transform signature) ::
            program.bodyChanges config declaration signature
      | .error fault => [.report (fault.orAt declaration.span)]
  | _ => []

def pipelineChanges (config : Config) (program : Program)
    (entry : Nat × Declaration) : List Change :=
  (program.pipelineFaults config entry.2).map .report

/-- What an analysis changes after the registration. -/
def changes (config : Config) (program : Program) : List Change :=
  (program.owners.filterMap Declaration.dimensionName?).map .noteDimension ++
    (Analysis.Stage.entries program).flatMap program.unitChanges ++
    (Analysis.Stage.entries program).flatMap enumChanges ++
    (Analysis.Stage.entries program).flatMap program.schemaChanges ++
    program.fields.faults.map .report ++
    (Analysis.Stage.entries program).flatMap program.lookupChanges ++
    (Analysis.Stage.entries program).flatMap
      (program.transformChanges config) ++
    (Analysis.Stage.entries program).flatMap (program.pipelineChanges config)

/--
The changes phase by phase: the units, the schemas, the lookup tables, the
transforms and the pipelines.
-/
def phaseChanges (config : Config) (program : Program) : List (List Change) :=
  [(program.owners.filterMap Declaration.dimensionName?).map .noteDimension ++
      (Analysis.Stage.entries program).flatMap program.unitChanges,
    (Analysis.Stage.entries program).flatMap enumChanges ++
      (Analysis.Stage.entries program).flatMap program.schemaChanges ++
      program.fields.faults.map .report,
    (Analysis.Stage.entries program).flatMap program.lookupChanges,
    (Analysis.Stage.entries program).flatMap (program.transformChanges config),
    (Analysis.Stage.entries program).flatMap (program.pipelineChanges config)]

/-- The phases make the changes of the program, one after the other. -/
theorem flatten_phaseChanges (config : Config) (program : Program) :
    (program.phaseChanges config).flatten = program.changes config := by
  simp only [phaseChanges, changes, List.flatten_cons, List.flatten_nil,
    List.append_nil, List.append_assoc]

end Program

namespace Analysis

/-! ## Applying changes -/

def change (analysis : Analysis) : Change → Analysis
  | .noteDimension name => analysis.noteDimension name
  | .noteUnit id name unit => analysis.noteUnit id name unit
  | .setKind id kind => analysis.setKind id kind
  | .enter kind => analysis.enter kind
  | .exit => analysis.exit
  | .bindVariable name type span => analysis.bindVariable name type span
  | .noteType span type => analysis.noteType span type
  | .report fault => analysis.report fault

/-- The analysis after some changes. -/
def changed (analysis : Analysis) (changes : List Change) : Analysis :=
  changes.foldl change analysis

@[simp]
theorem changed_cons (analysis : Analysis) (first : Change)
    (rest : List Change) :
    analysis.changed (first :: rest) = (analysis.change first).changed rest :=
  rfl

@[simp]
theorem changed_append (analysis : Analysis) (earlier later : List Change) :
    analysis.changed (earlier ++ later) =
      (analysis.changed earlier).changed later :=
  List.foldl_append

/-- What every change keeps, a run of changes keeps. -/
theorem changed_induction {motive : Analysis → Prop} {changes : List Change}
    {analysis : Analysis}
    (step : ∀ change ∈ changes,
      ∀ before, motive before → motive (before.change change))
    (start : motive analysis) :
    motive (analysis.changed changes) :=
  List.foldlRecOn changes change start fun before kept change member =>
    step change member before kept

theorem foldl_follow_eq_changed (trace : List Event) (analysis : Analysis) :
    trace.foldl follow analysis =
      analysis.changed (trace.map Event.change) := by
  rw [changed, List.foldl_map]
  congr 1
  funext before event
  cases event <;> rfl

/-- Reporting faults makes the changes that report them. -/
theorem reportAll_eq_changed (faults : List Fault) (analysis : Analysis) :
    analysis.reportAll faults = analysis.changed (faults.map .report) := by
  rw [changed, List.foldl_map]
  rfl

theorem foldl_noteDimension_eq_changed (names : List String)
    (analysis : Analysis) :
    names.foldl noteDimension analysis =
      analysis.changed (names.map .noteDimension) := by
  rw [changed, List.foldl_map]
  rfl

theorem absorb_eq_changed (analysis : Analysis) (context : Context)
    (target : Ty) (rule : Rule) :
    analysis.absorb (context.checkRule target rule) rule.span =
      analysis.changed
        ((context.checkRule target rule).trace.map Event.change ++
        (context.ruleFault? target rule).toList.map .report) := by
  rw [changed_append, ← foldl_follow_eq_changed]
  unfold absorb Context.ruleFault?
  cases (context.checkRule target rule).outcome <;> rfl

/--
The rules change the analysis as their context says, although each is checked in
the analysis before it.
-/
theorem checkRules_eq_changed {config : Config} {source : Ty}
    {context : Context} {analysis : Analysis}
    (shows : Shows analysis.table config source context) (target : Ty)
    (assigned : List String) (rules : List Rule) :
    checkRules config source target assigned analysis rules =
      analysis.changed (context.ruleChanges target assigned rules) := by
  induction rules generalizing assigned analysis with
  | nil => rfl
  | cons rule rest ih =>
      have checked := grows_checkRule context target analysis assigned rule
      rw [checkRules_cons shows, ih (shows.of_grows checked), absorb_eq_changed,
        Context.ruleChanges, noteTarget]
      split <;> simp [change]

theorem bindSources_eq_changed (analysis : Analysis)
    (sources : List (SourceDeclaration × Ty)) :
    analysis.bindSources sources =
      analysis.changed (Program.sourceChanges sources) := by
  induction sources generalizing analysis with
  | nil => rfl
  | cons entry rest ih =>
      rcases entry with ⟨source, type⟩
      cases named : source.name with
      | none =>
          have unnamed : Program.sourceChanges ((source, type) :: rest) =
              Program.sourceChanges rest := by
            simp [Program.sourceChanges, namedSources, named]
          rw [unnamed, ← ih]
          simp only [bindSources, named]
      | some name =>
          have split : Program.sourceChanges ((source, type) :: rest) =
              .bindVariable name type source.type.span ::
                Program.sourceChanges rest := by
            simp [Program.sourceChanges, namedSources, named]
          rw [split, changed_cons, ← ih]
          simp only [bindSources, named, change]

/-! ## Phases -/

variable {program : Program} {analysis : Analysis}

/-- A phase whose steps are changes, whatever it is applied to. -/
theorem foldl_eq_changed {step : Analysis → Nat × Declaration → Analysis}
    {changes : Nat × Declaration → List Change}
    (one : ∀ analysis entry,
      step analysis entry = analysis.changed (changes entry))
    (analysis : Analysis) (entries : List (Nat × Declaration)) :
    entries.foldl step analysis =
      analysis.changed (entries.flatMap changes) := by
  induction entries generalizing analysis with
  | nil => rfl
  | cons entry rest ih =>
      rw [List.foldl_cons, ih, one, List.flatMap_cons, changed_append]

namespace Stage

variable {number : Nat} {step : Analysis → Nat × Declaration → Analysis}
  {faults : Declaration → List Fault}
  {changes : Nat × Declaration → List Change}

/-- A phase whose steps are changes at the stages that it goes through. -/
theorem foldl_eq_changed (phase : Phase program number step faults)
    (one : ∀ {completed analysis entry}, entry ∈ Stage.entries program →
      entry.2.name ∉ completed →
      Stage program (program.found number completed) analysis →
      step analysis entry = analysis.changed (changes entry))
    {suffix : List (Nat × Declaration)} {completed : List String}
    (awaits : Awaits program completed suffix)
    (stage : Stage program (program.found number completed) analysis) :
    suffix.foldl step analysis = analysis.changed (suffix.flatMap changes) := by
  induction suffix generalizing completed analysis with
  | nil => rfl
  | cons entry rest ih =>
      have included := awaits.included entry List.mem_cons_self
      have fresh := awaits.fresh entry List.mem_cons_self
      rw [List.foldl_cons, ih awaits.tail (stage.next phase included fresh).1,
        one included fresh stage, List.flatMap_cons, changed_append]

theorem completeLookup_eq_changed {completed : List String}
    (stage : Stage program (program.found 4 completed) analysis)
    (entry : Nat × Declaration) :
    analysis.completeLookup program.units entry =
      analysis.changed (program.lookupChanges entry) := by
  rcases entry with ⟨id, declaration⟩
  cases declaration with
  | lookup declaration =>
      simp only [completeLookup, (stage.sameTypes (by omega)).lookup,
        Program.lookupChanges]
      cases program.names.lookup declaration <;> rfl
  | _ => rfl

/-- Checking a body makes its changes. -/
theorem checkBody_eq_changed {completed : List String}
    (stage : Stage program (program.found 5 completed) analysis)
    (config : Config) (declaration : TransformDeclaration)
    (signature : Signature) :
    analysis.checkBody config declaration signature =
      analysis.changed (program.bodyChanges config declaration signature) := by
  have opened : analysis.openedBody declaration signature =
      analysis.changed (.enter .transform ::
        Program.sourceChanges
          (declaration.sources.zip (signature.sources.map Prod.snd))) :=
    bindSources_eq_changed _ _
  show (checkRules config signature.source signature.target []
      (analysis.openedBody declaration signature)
    declaration.rules).exit = _
  rw [checkRules_eq_changed (shows_bodyContext config stage.rooted declaration
    signature), (stage.alike config declaration signature).ruleChanges, opened,
    Program.bodyChanges, changed_append, changed_append]
  rfl

theorem completeTransform_eq_changed (config : Config) {completed : List String}
    {entry : Nat × Declaration} (member : entry ∈ Stage.entries program)
    (fresh : entry.2.name ∉ completed)
    (stage : Stage program (program.found 5 completed) analysis) :
    analysis.completeTransform config program.units entry =
      analysis.changed (program.transformChanges config entry) := by
  have owner := owner?_of_mem_entries member
  have bound := SymbolTable.lookupGlobal_of_mem_ownedDeclarations member
  rcases entry with ⟨id, declaration⟩
  cases declaration with
  | transform declaration =>
      simp only [completeTransform, checkTransform,
        (stage.sameTypes (by omega)).signature, Program.transformChanges]
      cases resolved : program.names.signature declaration with
      | ok signature =>
          exact (stage.withSignature resolved owner bound
            fresh).checkBody_eq_changed config _ _
      | error fault => rfl
  | _ => rfl

theorem foldl_completePipeline_eq_changed (config : Config)
    (stage : Stage program (program.found 6 []) analysis)
    (entries : List (Nat × Declaration)) :
    entries.foldl (completePipeline config) analysis =
      analysis.changed (entries.flatMap (program.pipelineChanges config)) := by
  induction entries generalizing analysis with
  | nil => rfl
  | cons entry rest ih =>
      have reported :=
        stage.grows
          (.reportAll analysis (program.pipelineFaults config entry.2))
      rw [List.foldl_cons, stage.completePipeline_eq, ih reported,
        reportAll_eq_changed, List.flatMap_cons, changed_append]
      rfl

end Stage

/-- The phase of units makes its changes. -/
theorem withUnits_eq_changed (analysis : Analysis) :
    withUnits program.units (Stage.entries program) analysis =
      analysis.changed
        ((program.owners.filterMap Declaration.dimensionName?).map
          .noteDimension ++
        (Stage.entries program).flatMap program.unitChanges) := by
  rw [withUnits, dimensionNames_entries, foldl_noteDimension_eq_changed,
    changed_append]
  apply foldl_eq_changed
  rintro analysis ⟨id, declaration⟩
  cases declaration with
  | unit declaration =>
      simp only [completeUnit, Program.unitChanges]
      cases program.units.find declaration.name <;> rfl
  | _ => rfl

theorem foldl_completeEnum_eq_changed (analysis : Analysis)
    (entries : List (Nat × Declaration)) :
    entries.foldl completeEnum analysis =
      analysis.changed (entries.flatMap Program.enumChanges) := by
  apply foldl_eq_changed
  rintro analysis ⟨id, declaration⟩
  cases declaration <;> rfl

theorem foldl_completeSchema_eq_changed (analysis : Analysis)
    (entries : List (Nat × Declaration)) :
    entries.foldl (completeSchema program.fields) analysis =
      analysis.changed (entries.flatMap program.schemaChanges) := by
  apply foldl_eq_changed
  rintro analysis ⟨id, declaration⟩
  cases declaration with
  | schema declaration =>
      simp only [completeSchema, Program.schemaChanges]
      cases program.fields.completed.lookup declaration.name <;> rfl
  | _ => rfl

/-- The phase of schemas makes its changes. -/
theorem withSchemas_eq_changed
    (stage : Stage program (program.found 2 []) analysis) :
    withSchemas program.units (Stage.entries program) analysis =
      analysis.changed ((Stage.entries program).flatMap Program.enumChanges ++
        (Stage.entries program).flatMap program.schemaChanges ++
        program.fields.faults.map .report) := by
  have fields := (stage.foldl (enumPhase program)).1.fields_eq
  simp only [withSchemas, fields]
  rw [reportAll_eq_changed, foldl_completeSchema_eq_changed,
    foldl_completeEnum_eq_changed, changed_append, changed_append]

/--
The analyses that the registration and the phases leave behind, in their order.
-/
def phases (config : Config) (program : Program) : List Analysis :=
  let start := registered program
  let owned := start.table.ownedDeclarations program
  let units := unitTable start.table owned
  let evaluated := withUnits units owned start
  let completed := withSchemas units owned evaluated
  let resolved := owned.foldl (completeLookup units) completed
  let mapped := owned.foldl (completeTransform config units) resolved
  [start, evaluated, completed, resolved, mapped,
    owned.foldl (completePipeline config) mapped]

/-- The last of the phases leaves the analysis of the program. -/
theorem getLast?_phases (config : Config) (program : Program) :
    (phases config program).getLast? = some (analyze config program) := by
  rw [analyze_eq_phases]
  simp only [phases, registered, unitTable_entries]
  rfl

/-- Each phase makes its own changes to what the phase before has left. -/
theorem phases_eq_scanl (config : Config) (program : Program) :
    phases config program =
      (program.phaseChanges config).scanl changed (registered program) := by
  have unitStage : Stage program (program.found 2 [])
      (withUnits program.units (Stage.entries program) (registered program)) :=
    (stage_withUnits program (SymbolTable.empty.register program).2).1
  have schemaStage := (stage_withSchemas unitStage).1
  have lookupStage := (schemaStage.foldl (lookupPhase program)).1
  have transformStage := (lookupStage.foldl (transformPhase config program)).1
  have lookups := schemaStage.foldl_eq_changed (lookupPhase program)
    (fun {_ _ entry} _ _ stage => stage.completeLookup_eq_changed entry)
    (Stage.awaits_entries program)
  have transforms :=
    lookupStage.foldl_eq_changed (transformPhase config program)
      (Stage.completeTransform_eq_changed config) (Stage.awaits_entries program)
  have pipelines :=
    transformStage.foldl_completePipeline_eq_changed config
      (Stage.entries program)
  rw [Program.phaseChanges, List.scanl_cons, List.scanl_cons, List.scanl_cons,
    List.scanl_cons, List.scanl_cons, List.scanl_nil, ← withUnits_eq_changed,
    ← withSchemas_eq_changed unitStage, ← lookups, ← transforms, ← pipelines,
    ← unitTable_entries]
  rfl

/--
An analysis registers the declarations and then makes the changes of the
program.
-/
theorem analyze_eq_changed (config : Config) (program : Program) :
    analyze config program =
      (registered program).changed (program.changes config) := by
  have last := getLast?_phases config program
  rw [phases_eq_scanl, List.getLast?_scanl, Option.some.injEq] at last
  rw [← last, ← Program.flatten_phaseChanges, changed, List.foldl_flatten]
  rfl

/--
What a phase leaves behind is reached by the changes of the phases up to it.
-/
theorem exists_of_mem_scanl_changed {phases : List (List Change)}
    {analysis after : Analysis}
    (member : after ∈ phases.scanl changed analysis) :
    ∃ done rest, phases = done ++ rest ∧
      after = analysis.changed done.flatten := by
  induction phases generalizing analysis with
  | nil =>
      rw [List.scanl_nil, List.mem_singleton] at member
      exact ⟨[], [], rfl, member⟩
  | cons phase later ih =>
      rw [List.scanl_cons, List.mem_cons] at member
      rcases member with rfl | member
      · exact ⟨[], phase :: later, rfl, rfl⟩
      · rcases ih member with ⟨done, rest, split, reached⟩
        refine ⟨phase :: done, rest, by rw [split, List.cons_append], ?_⟩
        rw [reached, List.flatten_cons, changed_append]

end Analysis

end SchemaMap
