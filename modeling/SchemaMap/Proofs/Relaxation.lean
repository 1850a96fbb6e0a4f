import SchemaMap.Proofs.Analysis.Changes
import SchemaMap.Proofs.Inference.Typing

/-!
# Relaxing the configuration

A configuration is relaxed by turning numeric widening on, or the check of
lookup keys or of pipeline chaining off.  A relaxed configuration accepts more
types at the same places and makes fewer checks, but what it finds where nothing
was wrong before is the same: an accepted program has the same analysis under
every relaxed configuration.
-/

namespace SchemaMap

/--
The second configuration has numeric widening if the first has it, and no check
that the first does not have.
-/
structure Config.Relaxes (config relaxed : Config) : Prop where
  numericWidening : config.numericWidening = true →
    relaxed.numericWidening = true
  strictLookupKeys : config.strictLookupKeys = false →
    relaxed.strictLookupKeys = false
  pipelineChaining : config.pipelineChaining = false →
    relaxed.pipelineChaining = false

/-! ## Subtypes -/

namespace Ty

mutual

/-- A subtype stays one when `Int` is put below `Float`. -/
theorem isSubtype_widened {sub sup : Ty}
    (below : isSubtype false sub sup = true) :
    isSubtype true sub sup = true := by
  rw [isSubtype.eq_def, Bool.or_eq_true] at below ⊢
  rcases below with same | rule
  · exact .inl same
  · right
    split at rule
    · rfl
    · rfl
    · exact allSubtypes_widened rule
    · exact anySupertype_widened rule
    · exact isSubtype_widened rule
    · contradiction
    · exact isSubtype_widened rule
    · exact isSubtype_widened rule
    · contradiction
    · contradiction
termination_by sizeOf sub + sizeOf sup

theorem allSubtypes_widened {subs : List Ty} {sup : Ty}
    (below : allSubtypes false subs sup = true) :
    allSubtypes true subs sup = true := by
  match subs with
  | [] => simp [allSubtypes]
  | sub :: rest =>
      rw [allSubtypes, Bool.and_eq_true] at below ⊢
      exact ⟨isSubtype_widened below.1, allSubtypes_widened below.2⟩
termination_by sizeOf subs + sizeOf sup

theorem anySupertype_widened {sub : Ty} {sups : List Ty}
    (below : anySupertype false sub sups = true) :
    anySupertype true sub sups = true := by
  match sups with
  | [] => simp [anySupertype] at below
  | sup :: rest =>
      rw [anySupertype, Bool.or_eq_true] at below ⊢
      exact below.imp isSubtype_widened anySupertype_widened
termination_by sizeOf sub + sizeOf sups

end

end Ty

/-! ## Inference -/

namespace Inference

variable {α β : Type}

/-- Where the strict inference finds something, the relaxed one is the same. -/
def Relaxes (strict relaxed : Inference α) : Prop :=
  ∀ value, strict.outcome = .ok value → relaxed = strict

namespace Relaxes

theorem refl (inference : Inference α) : inference.Relaxes inference :=
  fun _ _ => rfl

/-- Inferences that are relaxed part by part are relaxed. -/
theorem bind {strict relaxed : Inference α} {next nextRelaxed : α → Inference β}
    (first : strict.Relaxes relaxed)
    (second : ∀ value, (next value).Relaxes (nextRelaxed value)) :
    (strict >>= next).Relaxes (relaxed >>= nextRelaxed) := by
  intro result found
  rw [outcome_bind_eq_ok_iff] at found
  rcases found with ⟨value, firstFound, secondFound⟩
  rw [first value firstFound]
  simp only [Bind.bind, firstFound, second value result secondFound]

theorem recorded {strict relaxed : Inference Ty}
    (relaxes : strict.Relaxes relaxed) (span : Span) :
    (Inference.recorded span strict).Relaxes
      (Inference.recorded span relaxed) :=
  relaxes.bind fun _ => .refl _

theorem inScope {strict relaxed : Inference α}
    (relaxes : strict.Relaxes relaxed) :
    (Inference.inScope strict).Relaxes (Inference.inScope relaxed) := by
  intro value found
  rw [relaxes value found]

end Relaxes

end Inference

namespace Context

/-- The context under another configuration. -/
def withConfig (context : Context) (config : Config) : Context :=
  { context with config := config }

@[simp]
theorem kind_withConfig (context : Context) (config : Config) :
    (context.withConfig config).kind = context.kind := rfl

section

variable {context : Context} {relaxed : Config}
  (relaxes : context.config.Relaxes relaxed)

include relaxes

/-- What is accepted stays accepted with relaxed settings. -/
theorem accepts_withConfig {found expected : Ty}
    (accepted : context.accepts found expected = true) :
    (context.withConfig relaxed).accepts found expected = true := by
  rw [accepts] at accepted ⊢
  cases strict : context.config.numericWidening with
  | true =>
      have widened : (context.withConfig relaxed).config.numericWidening =
          true := relaxes.numericWidening strict
      rw [strict] at accepted
      rwa [widened]
  | false =>
      rw [strict] at accepted
      cases (context.withConfig relaxed).config.numericWidening with
      | true => exact Ty.isSubtype_widened accepted
      | false => exact accepted

theorem checkKeys_withConfig {table : String} {keys : List (Ty × Ty × Span)}
    (fits : context.checkKeys table keys = .ok ()) :
    (context.withConfig relaxed).checkKeys table keys = .ok () := by
  induction keys with
  | nil => rfl
  | cons key rest ih =>
      rw [checkKeys] at fits ⊢
      split at fits
      · next accepted =>
          rw [if_pos (accepts_withConfig relaxes accepted)]
          exact ih fits
      · contradiction

/-- Keys that fit still fit with relaxed settings. -/
theorem checkLookup_withConfig {table : Located String}
    {expected found : List Ty} {spans : List Span}
    (fits : context.checkLookup table expected found spans = .ok ()) :
    (context.withConfig relaxed).checkLookup table expected found spans =
      .ok () := by
  rw [checkLookup] at fits ⊢
  split at fits
  · next sameLength =>
      rw [if_pos sameLength]
      exact checkKeys_withConfig relaxes fits
  · contradiction

/-- The keys of a lookup may be left unchecked. -/
theorem relaxes_checkLookup (table : Located String) (expected found : List Ty)
    (spans : List Span) (value : Ty) :
    (if context.config.strictLookupKeys then do
        Inference.ofExcept (context.checkLookup table expected found spans)
        return value
      else
        return value : Inference Ty).Relaxes
      (if relaxed.strictLookupKeys then do
        Inference.ofExcept
          ((context.withConfig relaxed).checkLookup table expected found spans)
        return value
      else
        return value) := by
  cases strict : context.config.strictLookupKeys with
  | false =>
      rw [relaxes.strictLookupKeys strict]
      exact .refl _
  | true =>
      intro type checked
      simp only [if_true, Inference.outcome_bind_eq_ok_iff,
        Inference.outcome_ofExcept] at checked
      rcases checked with ⟨⟨⟩, fits, -⟩
      simp only [if_true, fits, checkLookup_withConfig relaxes fits]
      split <;> rfl

end

mutual

/--
Under a relaxed configuration an expression has the type that it had, with the
same trace.
-/
theorem relaxes_infer {context : Context} {relaxed : Config}
    (relaxes : context.config.Relaxes relaxed) :
    (expression : Expr) →
      (context.infer expression).Relaxes
        ((context.withConfig relaxed).infer expression)
  | .literal _ _ => .refl _
  | .path _ _ segments =>
      .recorded (.bind (.refl _) fun _ =>
        .bind (relaxes_inferSegments relaxes _ segments) fun _ => .refl _) _
  | .binary _ left _ right =>
      .recorded (.bind (relaxes_infer relaxes left) fun _ =>
        .bind (relaxes_infer relaxes right) fun _ => .refl _) _
  | .unary _ _ operand =>
      .recorded (.bind (relaxes_infer relaxes operand) fun _ => .refl _) _
  | .conditional _ condition thenBranch elseBranch =>
      .recorded (.bind (relaxes_infer relaxes condition) fun _ =>
        .bind (relaxes_infer relaxes thenBranch) fun _ =>
          .bind (relaxes_infer relaxes elseBranch) fun _ => .refl _) _
  | .matching _ subject arms =>
      .recorded (.bind (relaxes_infer relaxes subject) fun _ =>
        .bind (relaxes_inferArms relaxes _ arms) fun _ => .refl _) _
  | .lambda _ _ body =>
      .recorded (.bind (.inScope (.bind (.refl _) fun _ =>
        @relaxes_infer (context.withVariables _) relaxed relaxes body)) fun _ =>
        .refl _) _
  | .aggregate _ _ source =>
      .recorded (.bind (relaxes_infer relaxes source) fun _ => .refl _) _
  | .aggregateWith _ _ source _ [parameter] body =>
      .recorded
        (.bind (relaxes_infer relaxes source) fun _ => .bind (.refl _) fun _ =>
          .bind (.inScope (.bind (.refl _) fun _ =>
            @relaxes_infer (context.withVariables _) relaxed relaxes body))
            fun _ => .refl _) _
  | .aggregateWith _ _ source _ [] body =>
      .recorded (.bind (relaxes_infer relaxes source) fun _ => .refl _) _
  | .aggregateWith _ _ source _ (_ :: _ :: _) body =>
      .recorded (.bind (relaxes_infer relaxes source) fun _ => .refl _) _
  | .lookup _ table keys => by
      refine .recorded ?_ _
      rw [kind_withConfig]
      cases (context.kind table.value).bind Kind.lookup? with
      | none => exact .refl _
      | some types =>
          exact .bind (relaxes_inferAll relaxes keys) fun found =>
            relaxes_checkLookup relaxes table types.1 found _ types.2
termination_by structural expression => expression

theorem relaxes_inferSegments {context : Context} {relaxed : Config}
    (relaxes : context.config.Relaxes relaxed) (walk : Walk) :
    (segments : List Segment) →
      (context.inferSegments walk segments).Relaxes
        ((context.withConfig relaxed).inferSegments walk segments)
  | [] => .refl _
  | .field _ _ _ :: rest =>
      .bind (.refl _) fun _ => relaxes_inferSegments relaxes _ rest
  | .index _ position _ :: rest =>
      .bind (relaxes_infer relaxes position) fun _ =>
        .bind (.refl _) fun _ => relaxes_inferSegments relaxes _ rest
termination_by structural segments => segments

theorem relaxes_inferArms {context : Context} {relaxed : Config}
    (relaxes : context.config.Relaxes relaxed) (subject : Ty) :
    (arms : List Arm) →
      (context.inferArms subject arms).Relaxes
        ((context.withConfig relaxed).inferArms subject arms)
  | [] => .refl _
  | .mk _ _ body :: rest =>
      .bind (.refl _) fun _ => .bind (relaxes_infer relaxes body) fun _ =>
        .bind (relaxes_inferArms relaxes subject rest) fun _ => .refl _
termination_by structural arms => arms

theorem relaxes_inferAll {context : Context} {relaxed : Config}
    (relaxes : context.config.Relaxes relaxed) :
    (expressions : List Expr) →
      (context.inferAll expressions).Relaxes
        ((context.withConfig relaxed).inferAll expressions)
  | [] => .refl _
  | expression :: rest =>
      .bind (relaxes_infer relaxes expression) fun _ =>
        .bind (relaxes_inferAll relaxes rest) fun _ => .refl _
termination_by structural expressions => expressions

end

section

variable {context : Context} {relaxed : Config}
  (relaxes : context.config.Relaxes relaxed)

theorem walk_withConfig (config : Config) (base : Ty)
    (fields : List (Located String)) :
    (context.withConfig config).walk base fields =
      context.walk base fields := by
  induction fields generalizing base with
  | nil => rfl
  | cons field rest ih =>
      simp only [walk_cons, ih]
      rfl

include relaxes

/--
A rule that is accepted stays so with relaxed settings, with the same trace.
-/
theorem relaxes_checkRule (target : Ty) (rule : Rule) :
    (context.checkRule target rule).Relaxes
      ((context.withConfig relaxed).checkRule target rule) := by
  rw [checkRule, checkRule, walk_withConfig]
  refine .bind (.refl _) fun expected =>
    .bind (relaxes_infer relaxes rule.value) fun found => ?_
  cases accepted : context.accepts found expected with
  | true =>
      rw [accepts_withConfig relaxes accepted]
      exact .refl _
  | false =>
      intro _ refused
      contradiction

/-- Rules without a fault change the same. -/
theorem ruleChanges_withConfig {target : Ty} {assigned : List String}
    {rules : List Rule}
    (faultless : context.ruleFaults target assigned rules = []) :
    (context.withConfig relaxed).ruleChanges target assigned rules =
      context.ruleChanges target assigned rules := by
  induction rules generalizing assigned with
  | nil => rfl
  | cons rule rest ih =>
      simp only [ruleFaults, List.append_eq_nil_iff,
        Option.toList_eq_nil_iff] at faultless
      rcases faultless with ⟨⟨-, fits⟩, further⟩
      have same : (context.withConfig relaxed).checkRule target rule =
          context.checkRule target rule := by
        cases outcome : (context.checkRule target rule).outcome with
        | ok value => exact relaxes_checkRule relaxes target rule value outcome
        | error fault => simp [ruleFault?, outcome] at fits
      simp only [ruleChanges, ruleFault?, same, ih further]

theorem chainingFault?_withConfig {previous : String} {before after : Signature}
    {step : Located String}
    (chained : context.chainingFault? previous before step after = none) :
    (context.withConfig relaxed).chainingFault? previous before step after =
      none := by
  cases strict : context.config.pipelineChaining with
  | false =>
      have unchecked : (context.withConfig relaxed).config.pipelineChaining =
          false := relaxes.pipelineChaining strict
      simp [chainingFault?, unchecked]
  | true =>
      cases accepted : context.accepts before.target after.source with
      | true => simp [chainingFault?, accepts_withConfig relaxes accepted]
      | false =>
          -- The step was let through because one of the two signatures did not
          -- resolve.
          simp only [chainingFault?, strict, accepted, Bool.true_and,
            Bool.not_false, Bool.and_true] at chained
          have unresolved : (before.isResolved && after.isResolved) =
              false := by
            cases resolved : before.isResolved && after.isResolved with
            | true => simp [resolved] at chained
            | false => rfl
          simp [chainingFault?, Bool.and_assoc, unresolved]

/-- A pipeline without a fault stays without one. -/
theorem stepFaults_withConfig {previous : Option (String × Signature)}
    {steps : List (Located String)}
    (faultless : context.stepFaults previous steps = []) :
    (context.withConfig relaxed).stepFaults previous steps = [] := by
  induction steps generalizing previous with
  | nil => rfl
  | cons step rest ih =>
      rw [stepFaults] at faultless ⊢
      rw [kind_withConfig]
      split at faultless
      · contradiction
      · next signature _ =>
          rw [List.append_eq_nil_iff] at faultless ⊢
          refine ⟨?_, ih faultless.2⟩
          cases previous with
          | none => rfl
          | some entry =>
              rw [Option.bind_some, Option.toList_eq_nil_iff] at faultless ⊢
              exact chainingFault?_withConfig relaxes faultless.1
      · contradiction

end

end Context

/-! ## Programs -/

namespace Program

variable {program : Program} {config relaxed : Config}
  (relaxes : config.Relaxes relaxed)

include relaxes

/-- A transform without a fault changes the same. -/
theorem transformChanges_relaxed {entry : Nat × Declaration}
    (faultless : program.transformFaults config entry.2 = []) :
    program.transformChanges relaxed entry =
      program.transformChanges config entry := by
  rcases entry with ⟨id, declaration⟩
  cases declaration with
  | transform declaration =>
      simp only [transformFaults] at faultless
      simp only [transformChanges]
      cases resolved : program.names.signature declaration with
      | error fault => rfl
      | ok signature =>
          simp only [resolved, Analysis.bodyFaults,
            List.append_eq_nil_iff] at faultless
          have rules :=
            @Context.ruleChanges_withConfig
              (Analysis.bodyContext config program.kind? declaration signature)
              relaxed relaxes _ _ _ faultless.2
          simp only [bodyChanges]
          rw [← rules]
          rfl
  | _ => rfl

theorem pipelineFaults_relaxed {declaration : Declaration}
    (faultless : program.pipelineFaults config declaration = []) :
    program.pipelineFaults relaxed declaration = [] := by
  cases declaration with
  | pipeline declaration =>
      exact @Context.stepFaults_withConfig (program.pipelineContext config)
        relaxed relaxes none declaration.steps
        faultless
  | _ => rfl

/-- A program without a fault changes the same. -/
theorem changes_relaxed (faultless : program.faults config = []) :
    program.changes relaxed = program.changes config := by
  simp only [faults, List.append_eq_nil_iff,
    List.flatMap_eq_nil_iff] at faultless
  rcases faultless with ⟨⟨-, transforms⟩, pipelines⟩
  have owned : ∀ entry ∈ Analysis.Stage.entries program,
      entry.2 ∈ program.owners := by
    intro entry member
    exact Program.mem_owners_iff.mpr
      (Analysis.Stage.owner?_of_mem_entries member)
  have sameTransforms : ∀ entry ∈ Analysis.Stage.entries program,
      program.transformChanges relaxed entry =
        program.transformChanges config entry :=
    fun entry member =>
      transformChanges_relaxed relaxes (transforms _ (owned entry member))
  have samePipelines : ∀ entry ∈ Analysis.Stage.entries program,
      program.pipelineChanges relaxed entry =
        program.pipelineChanges config entry := by
    intro entry member
    have faultless := pipelines _ (owned entry member)
    rw [pipelineChanges, pipelineChanges, faultless,
      pipelineFaults_relaxed relaxes faultless]
  rw [changes, changes, List.flatMap_congr sameTransforms,
    List.flatMap_congr samePipelines]

end Program

/--
An accepted program is accepted under every relaxed configuration, and its
analysis is the same.
-/
theorem analyze_relaxed {config relaxed : Config}
    (relaxes : config.Relaxes relaxed) (program : Program)
    (accepted : (analyze config program).isAccepted = true) :
    (analyze relaxed program).isAccepted = true ∧
      analyze relaxed program = analyze config program := by
  have faultless := (Analysis.isAccepted_analyze_iff config program).mp accepted
  have same : analyze relaxed program = analyze config program := by
    rw [Analysis.analyze_eq_changed, Analysis.analyze_eq_changed,
      Program.changes_relaxed relaxes faultless]
  exact ⟨same ▸ accepted, same⟩

/-- A lookup with a key of its type, and a pipeline whose steps fit. -/
def tariffs : Program :=
  [.schema
      { name := "Parcel"
        fields :=
          [{ name := "zone", type := .primitive .unknown .string },
            { name := "fee", type := .primitive .unknown .float }] },
    .lookup { name := "Fees", keys := [.primitive .unknown .string],
              value := .primitive .unknown .float },
    .transform
      { name := "Price"
        sources := [{ type := .schemaName .unknown "Parcel" }]
        target := .schemaName .unknown "Parcel"
        rules :=
          [{ target := [⟨"fee", .unknown⟩]
             value :=
               .lookup .unknown ⟨"Fees", .unknown⟩
                 [.path .unknown .source [.field .unknown "zone" false]] }] },
    .pipeline
      { name := "Twice", steps := [⟨"Price", .unknown⟩, ⟨"Price", .unknown⟩] }]

theorem analyze_relaxed_tariffs :
    (analyze { strictLookupKeys := true, pipelineChaining := true }
      tariffs).isAccepted = true ∧
      (analyze { numericWidening := true } tariffs).isAccepted = true ∧
      analyze { numericWidening := true } tariffs =
        analyze { strictLookupKeys := true, pipelineChaining := true }
          tariffs := by
  have relaxes : Config.Relaxes { strictLookupKeys := true,
                                  pipelineChaining := true }
                                  { numericWidening := true } :=
    ⟨fun _ => rfl, fun _ => rfl, fun _ => rfl⟩
  have accepted :
      (analyze { strictLookupKeys := true, pipelineChaining := true }
        tariffs).isAccepted = true := by
    decide +kernel
  exact ⟨accepted, analyze_relaxed relaxes tariffs accepted⟩

end SchemaMap
