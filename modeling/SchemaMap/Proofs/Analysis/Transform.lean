import SchemaMap.Analysis.Transform
import SchemaMap.Proofs.Analysis.Frame
import SchemaMap.Proofs.Inference.Context
import SchemaMap.Proofs.Registration

/-!
# The body of a transform

Checking the body of a transform extends the table and reports faults, and does
nothing else that a later declaration can see (`grows_checkBody`).  The faults
are those of the sources and those of the rules.  Each rule is checked with what
the analysis knows before it.  That is one and the same context for all of them,
whatever the others leave behind (`Shows`, `checkRules_cons`), so the fault of a
rule is a function of the rule alone.
-/

namespace SchemaMap

namespace Context

/-- The fault of a rule. -/
def ruleFault? (context : Context) (target : Ty) (rule : Rule) : Option Fault :=
  match (context.checkRule target rule).outcome with
  | .ok () => none
  | .error fault => some (fault.orAt rule.span)

/--
The faults of the rules of a transform; `assigned` holds the targets of the
rules before them.
-/
def ruleFaults (context : Context) (target : Ty) (assigned : List String) :
    List Rule → List Fault
  | [] => []
  | rule :: rest =>
      (if rule.targetText ∈ assigned then
        [⟨.duplicateTarget rule.targetText, rule.span⟩] else []) ++
        (context.ruleFault? target rule).toList ++
        context.ruleFaults target (rule.targetText :: assigned) rest

/-- Rules have the same faults in contexts that are alike. -/
theorem Alike.ruleFaults {context other : Context} (alike : context.Alike other)
    (target : Ty) (assigned : List String) (rules : List Rule) :
    context.ruleFaults target assigned rules =
      other.ruleFaults target assigned rules := by
  induction rules generalizing assigned with
  | nil => rfl
  | cons rule rest ih =>
      simp only [Context.ruleFaults, ruleFault?, alike.checkRule, ih]

end Context

namespace Analysis

/--
The table is extended, faults are reported and types are noted; nothing else
changes.
-/
structure Grows (before after : Analysis) (faults : List Fault) : Prop where
  table : before.table.Extends after.table
  adds : before.Adds after faults
  units : after.types.units = before.types.units
  dimensions : after.types.dimensions = before.types.dimensions

namespace Grows

theorem refl (analysis : Analysis) : analysis.Grows analysis [] :=
  ⟨.refl _, .of_faults_eq rfl, rfl, rfl⟩

theorem trans {first second third : Analysis} {earlier later : List Fault}
    (before : first.Grows second earlier) (after : second.Grows third later) :
    first.Grows third (earlier ++ later) :=
  ⟨before.table.trans after.table, before.adds.trans after.adds,
    after.units.trans before.units,
    after.dimensions.trans before.dimensions⟩

theorem of_quiet {before after : Analysis} (quiet : before.Quiet after) :
    before.Grows after [] :=
  ⟨quiet.table, .of_faults_eq quiet.faults, quiet.units, quiet.dimensions⟩

theorem report (analysis : Analysis) (fault : Fault) :
    analysis.Grows (analysis.report fault) [fault] :=
  ⟨.refl _, adds_report analysis fault, rfl, rfl⟩

theorem reportAll (analysis : Analysis) (faults : List Fault) :
    analysis.Grows (analysis.reportAll faults) faults :=
  ⟨by rw [table_reportAll]; exact .refl _, adds_reportAll analysis faults,
    by rw [types_reportAll],
    by rw [types_reportAll]⟩

end Grows

/-! ## Rules -/

/-- Absorbing a rule grows by its fault. -/
theorem grows_absorb (analysis : Analysis) (context : Context) (target : Ty)
    (rule : Rule) :
    analysis.Grows (analysis.absorb (context.checkRule target rule) rule.span)
      (context.ruleFault? target rule).toList := by
  have quiet :=
    Grows.of_quiet
      (quiet_foldl_follow (context.balanced_checkRule target rule) analysis)
  unfold absorb Context.ruleFault?
  cases (context.checkRule target rule).outcome with
  | ok => exact quiet
  | error fault => exact quiet.trans (.report _ _)

/--
From a table on, whatever is added to it, an analysis shows what a context
shows.
-/
def Shows (table : SymbolTable) (config : Config) (source : Ty)
    (context : Context) : Prop :=
  ∀ {later : Analysis}, table.Extends later.table →
    (later.context config (some source)).Alike context

/-- What a table shows it still shows after inner scopes. -/
theorem Shows.of_grows {before after : Analysis} {faults : List Fault}
    {config : Config} {source : Ty} {context : Context}
    (shows : Shows before.table config source context)
    (grown : before.Grows after faults) :
    Shows after.table config source context := by
  intro later added
  exact shows (grown.table.trans added)

/-- Noting a target grows by a fault exactly when it is assigned already. -/
theorem grows_noteTarget (analysis : Analysis) (assigned : List String)
    (rule : Rule) :
    analysis.Grows (analysis.noteTarget assigned rule)
      (if rule.targetText ∈ assigned then
        [⟨.duplicateTarget rule.targetText, rule.span⟩] else []) := by
  unfold noteTarget
  split
  · exact .report _ _
  · exact .refl analysis

section

variable {config : Config} {source target : Ty} {context : Context}
  {analysis : Analysis}

/--
The first of several rules is checked in the context that the analysis shows.
-/
theorem checkRules_cons (shows : Shows analysis.table config source context)
    (assigned : List String) (rule : Rule) (rest : List Rule) :
    checkRules config source target assigned analysis (rule :: rest) =
      checkRules config source target (rule.targetText :: assigned)
        ((analysis.noteTarget assigned rule).absorb
          (context.checkRule target rule) rule.span) rest := by
  have known := shows (analysis.grows_noteTarget assigned rule).table
  rw [← known.checkRule]
  rfl

/--
Checking a rule adds its faults and nothing that the rules behind it could see.
-/
theorem grows_checkRule (context : Context) (target : Ty) (analysis : Analysis)
    (assigned : List String) (rule : Rule) :
    analysis.Grows ((analysis.noteTarget assigned rule).absorb
      (context.checkRule target rule) rule.span)
      ((if rule.targetText ∈ assigned then
        [⟨.duplicateTarget rule.targetText, rule.span⟩] else []) ++
        (context.ruleFault? target rule).toList) :=
  (analysis.grows_noteTarget assigned rule).trans
    (grows_absorb _ context target rule)

/--
The context of the first rule is the context of every rule, although each is
checked in the analysis before it.
-/
theorem grows_checkRules (shows : Shows analysis.table config source context)
    (target : Ty) (assigned : List String) (rules : List Rule) :
    analysis.Grows (checkRules config source target assigned analysis rules)
      (context.ruleFaults target assigned rules) := by
  induction rules generalizing assigned analysis with
  | nil => exact .refl analysis
  | cons rule rest ih =>
      have checked := grows_checkRule context target analysis assigned rule
      rw [checkRules_cons shows]
      exact checked.trans (ih (shows.of_grows checked) _)

end

/-! ## Sources -/

/--
The named sources of a transform with their types, each at the position of its
type.
-/
def namedSources (sources : List (SourceDeclaration × Ty)) :
    List (Located String × Ty) :=
  sources.filterMap fun source =>
    source.1.name.map fun name => (⟨name, source.1.type.span⟩, source.2)

/-- The faults of sources whose name is taken by an earlier source. -/
def sourceFaults (taken : List String)
    (sources : List (SourceDeclaration × Ty)) : List Fault :=
  (repeatedNames taken ((namedSources sources).map Prod.fst)).map fun name =>
    ⟨.duplicateDefinition name.value, name.span⟩

/-- The types of the named sources by their names. -/
def sourceTypes (sources : List (SourceDeclaration × Ty)) :
    List (String × Ty) :=
  (namedSources sources).map fun source => (source.1.value, source.2)

theorem repeatedNames_congr {taken other : List String}
    (same : ∀ name, name ∈ taken ↔ name ∈ other)
    (names : List (Located String)) :
    repeatedNames taken names = repeatedNames other names := by
  induction names generalizing taken other with
  | nil => rfl
  | cons name rest ih =>
      have further :=
        @ih (name.value :: taken) (name.value :: other) (by simp [same])
      rw [repeatedNames, repeatedNames, ih same, further]
      simp only [same]

theorem sourceFaults_congr {taken other : List String}
    (same : ∀ name, name ∈ taken ↔ name ∈ other)
    (sources : List (SourceDeclaration × Ty)) :
    sourceFaults taken sources = sourceFaults other sources := by
  rw [sourceFaults, sourceFaults, repeatedNames_congr same]

section

variable {outer : SymbolTable} {bound : List (String × Ty)}
  {analysis : Analysis} {name : String}

/-- A variable whose name is bound already is refused. -/
theorem bindVariable_of_mem (opened : outer.Opened bound analysis.table)
    (type : Ty) (span : Span) (taken : name ∈ bound.map Prod.fst) :
    analysis.bindVariable name type span =
      analysis.report ⟨.duplicateDefinition name, span⟩ := by
  have error :=
    opened.define_eq_error { name := name, kind := .binding type, span := span }
      taken
  simp [bindVariable, error]

/-- A variable with a free name is bound in the open scope. -/
theorem bindVariable_of_not_mem (opened : outer.Opened bound analysis.table)
    (type : Ty) (span : Span) (free : name ∉ bound.map Prod.fst) :
    ∃ next,
      analysis.bindVariable name type span = { analysis with table := next } ∧
      outer.Opened (bound ++ [(name, type)]) next := by
  rcases opened.define_eq_ok name type span free with
    ⟨next, defined, nextOpened⟩
  exact ⟨next, by simp [bindVariable, defined], nextOpened⟩

theorem lookup_append_cons_of_mem (taken : name ∈ bound.map Prod.fst)
    (type : Ty) (rest : List (String × Ty)) (wanted : String) :
    (bound ++ (name, type) :: rest).lookup wanted =
      (bound ++ rest).lookup wanted := by
  rw [List.lookup_append, List.lookup_append]
  by_cases same : wanted = name
  · subst same
    rcases Option.isSome_iff_exists.mp (lookup_isSome_iff.mpr taken) with
      ⟨found, known⟩
    simp [known]
  · have apart : (wanted == name) = false := by simpa using same
    simp [List.lookup_cons, apart]

/--
A scope with the first source of each name, after those that were bound before.
-/
theorem opened_bindSources (opened : outer.Opened bound analysis.table)
    (sources : List (SourceDeclaration × Ty)) :
    ∃ final, outer.Opened final (analysis.bindSources sources).table ∧
      (∀ name, final.lookup name = (bound ++ sourceTypes sources).lookup name) ∧
      analysis.Adds (analysis.bindSources sources)
        (sourceFaults (bound.map Prod.fst) sources) ∧
      (analysis.bindSources sources).types = analysis.types := by
  induction sources generalizing bound analysis with
  | nil =>
      exact ⟨bound, opened, by simp [sourceTypes, namedSources],
        .of_faults_eq rfl, rfl⟩
  | cons entry rest ih =>
      rcases entry with ⟨source, type⟩
      cases named : source.name with
      | none =>
          have unnamed : namedSources ((source, type) :: rest) =
              namedSources rest := by
            simp [namedSources, named]
          simp only [bindSources, named, sourceTypes, sourceFaults, unnamed]
          exact ih opened
      | some name =>
          have split : namedSources ((source, type) :: rest) =
              (⟨name, source.type.span⟩, type) :: namedSources rest := by
            simp [namedSources, named]
          simp only [bindSources, named, sourceTypes, sourceFaults, split,
            List.map_cons, repeatedNames]
          by_cases taken : name ∈ bound.map Prod.fst
          · rw [bindVariable_of_mem opened type source.type.span taken,
              if_pos taken]
            have stillOpened :
                outer.Opened bound
                  (analysis.report ⟨.duplicateDefinition name,
                    source.type.span⟩).table := opened
            rcases ih stillOpened with
              ⟨final, finalOpened, sameLookup, adds, types⟩
            refine ⟨final, finalOpened, ?_, (adds_report _ _).trans adds, types⟩
            intro other
            rw [sameLookup, lookup_append_cons_of_mem taken]
            rfl
          · rcases bindVariable_of_not_mem opened type source.type.span
              taken with ⟨next, accepted, nextOpened⟩
            rw [accepted, if_neg taken]
            have stillOpened : outer.Opened (bound ++ [(name, type)])
                ({ analysis with table := next }).table :=
              nextOpened
            rcases ih stillOpened with
              ⟨final, finalOpened, sameLookup, adds, types⟩
            have sameNames : ∀ other,
                other ∈ (bound ++ [(name, type)]).map Prod.fst ↔
                other ∈ name :: bound.map Prod.fst := by
              simp [or_comm]
            rw [sourceFaults_congr sameNames] at adds
            refine ⟨final, finalOpened, ?_, adds, types⟩
            intro other
            rw [sameLookup]
            simp [sourceTypes]

end

/-! ## Bodies -/

/-- The context in which the rules of a transform are checked. -/
def bodyContext (config : Config) (kind : String → Option Kind)
    (declaration : TransformDeclaration) (signature : Signature) : Context :=
  { config := config
    kind := kind
    source := some signature.source
    variableType := fun name =>
      (sourceTypes (declaration.sources.zip
        (signature.sources.map Prod.snd))).lookup name }

/-- The faults of a transform whose signature is known. -/
def bodyFaults (config : Config) (kind : String → Option Kind)
    (declaration : TransformDeclaration) (signature : Signature) : List Fault :=
  sourceFaults [] (declaration.sources.zip (signature.sources.map Prod.snd)) ++
    (bodyContext config kind declaration signature).ruleFaults signature.target
      [] declaration.rules

/-- The analysis inside a transform, whose named sources are bound. -/
def openedBody (analysis : Analysis) (declaration : TransformDeclaration)
    (signature : Signature) : Analysis :=
  (analysis.enter .transform).bindSources
    (declaration.sources.zip (signature.sources.map Prod.snd))

/--
A scope was opened for the sources, the first of each name is bound in it, and
the others are reported.
-/
theorem opened_openedBody (analysis : Analysis)
    (declaration : TransformDeclaration) (signature : Signature) :
    ∃ bound,
      analysis.table.Opened bound
        (analysis.openedBody declaration signature).table ∧
      (∀ name, bound.lookup name =
        (sourceTypes (declaration.sources.zip
          (signature.sources.map Prod.snd))).lookup name) ∧
      analysis.Adds (analysis.openedBody declaration signature)
        (sourceFaults []
          (declaration.sources.zip (signature.sources.map Prod.snd))) ∧
      (analysis.openedBody declaration signature).types = analysis.types := by
  have entered : analysis.table.Opened [] (analysis.enter .transform).table :=
    .enter analysis.table .transform
  exact opened_bindSources entered
    (declaration.sources.zip (signature.sources.map Prod.snd))

/--
The rules of a transform are checked in a context that its declaration and its
signature determine.
-/
theorem shows_bodyContext (config : Config) {analysis : Analysis}
    (rooted : analysis.table.Rooted) (declaration : TransformDeclaration)
    (signature : Signature) :
    Shows (analysis.openedBody declaration signature).table config
      signature.source
      (bodyContext config analysis.table.kind? declaration signature) := by
  intro later added
  rcases opened_openedBody analysis declaration signature with
    ⟨bound, opened, sameLookup, -, -⟩
  have sameKinds : ∀ name, later.table.kind? name = analysis.table.kind? name :=
    (opened.exit_extends added).kind?_eq rooted
  refine ⟨⟨rfl, rfl, ?_⟩, ?_, ?_, ?_⟩
  · funext name
    exact (opened.bindingType?_eq added rooted name).trans (sameLookup name)
  all_goals
    intro name
    simp only [context, bodyContext, sameKinds]

/--
The body of a transform extends the table and reports the faults of its sources
and rules.
-/
theorem grows_checkBody (config : Config) {analysis : Analysis}
    (rooted : analysis.table.Rooted) (declaration : TransformDeclaration)
    (signature : Signature) :
    analysis.Grows (analysis.checkBody config declaration signature)
      (bodyFaults config analysis.table.kind? declaration signature) := by
  rcases opened_openedBody analysis declaration signature with
    ⟨bound, opened, -, adds, types⟩
  have rules :=
    grows_checkRules (shows_bodyContext config rooted declaration signature)
      signature.target []
      declaration.rules
  exact ⟨opened.exit_extends rules.table, adds.trans rules.adds,
    rules.units.trans (congrArg TypeInfo.units types),
    rules.dimensions.trans (congrArg TypeInfo.dimensions types)⟩

end Analysis

end SchemaMap
