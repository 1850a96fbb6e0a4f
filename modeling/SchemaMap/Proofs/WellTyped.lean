import Mathlib.Data.List.Chain
import SchemaMap.Proofs.Analysis.Phases
import SchemaMap.Proofs.Completion
import SchemaMap.Proofs.Inference.Typing

/-!
# Well-typed programs

A set of declarations is well typed when everything in it can be resolved, the
rules of transforms fit their targets, and the steps of pipelines are transforms
that fit together (`WellTyped`).  The judgement looks at no table and at no
order of the declarations.

The analysis finds nothing wrong with a program exactly when its names are
distinct and it is well typed with the numbers that completion gives to type
variables (`faults_eq_nil_iff_wellTyped`).
-/

namespace SchemaMap

section

variable (config : Config) (declared : Set Declaration)
  (number : String → Nat → Nat)

/--
The type of `$`: that of the only source of a transform, or the tuple of all.
-/
inductive Signature.HasSource : Signature → Ty → Prop where
  | single {name : Option String} {type target : Ty} :
      HasSource ⟨[(name, type)], target⟩ type
  | several {sources : List (Option String × Ty)} {target : Ty}
      (several : sources.length ≠ 1) :
      HasSource ⟨sources, target⟩ (.tuple (sources.map Prod.snd))

/--
The environment of the rules of a transform: its named sources, and the type of
`$`.
-/
def ruleEnvironment (signature : Signature) (source : Ty) : Environment :=
  { config := config
    kind := HasKind declared number
    source := source
    scope :=
      signature.sources.filterMap fun source =>
        source.1.map fun name => (name, source.2) }

/-- The names of a target, with dots between them. -/
def Rule.dottedTarget (rule : Rule) : String :=
  ".".intercalate (rule.target.map Located.value)

/--
The named sources of a transform are distinct, and so are the targets of its
rules, which fit.
-/
structure TransformDeclaration.WellTyped (declaration : TransformDeclaration) :
    Prop where
  sources : (declaration.sources.filterMap SourceDeclaration.name).Nodup
  targets : (declaration.rules.map Rule.dottedTarget).Nodup
  rules : ∃ signature source, declaration.HasSignature declared signature ∧
    signature.HasSource source ∧ ∀ rule ∈ declaration.rules,
      rule.Fits (ruleEnvironment config declared number signature source)
        signature.target

/-- A name belongs to a transform of the given signature. -/
def Performs (name : String) (signature : Signature) : Prop :=
  ∃ declaration, .transform declaration ∈ declared ∧ declaration.name = name ∧
    declaration.HasSignature declared signature

/-- What the first transform produces is accepted by the second. -/
def Chains (first second : Located String) : Prop :=
  ∃ before after source, Performs declared first.value before ∧
    Performs declared second.value after ∧ after.HasSource source ∧
    Ty.isSubtype config.numericWidening before.target source = true

/--
The steps of a pipeline are transforms, each of which accepts what the one
before it produces.
-/
structure PipelineDeclaration.WellTyped (declaration : PipelineDeclaration) :
    Prop where
  steps : ∀ step ∈ declaration.steps,
    ∃ transform, .transform transform ∈ declared ∧ transform.name = step.value
  chained : config.pipelineChaining = true →
    declaration.steps.IsChain (Chains config declared)

/-- The declarations are well typed. -/
structure WellTyped : Prop extends Resolved declared number where
  transforms : ∀ declaration, .transform declaration ∈ declared →
    declaration.WellTyped config declared number
  pipelines : ∀ declaration, .pipeline declaration ∈ declared →
    declaration.WellTyped config declared

end

/-! ## Rules and sources -/

theorem Signature.hasSource_iff {signature : Signature} {type : Ty} :
    signature.HasSource type ↔ signature.source = type := by
  rcases signature with ⟨sources, target⟩
  constructor
  · intro has
    cases has with
    | single => rfl
    | several several =>
        match sources with
        | [] => rfl
        | [_] => contradiction
        | _ :: _ :: _ => rfl
  · rintro rfl
    match sources with
    | [] => exact .several (by simp)
    | [_] => exact .single
    | _ :: _ :: _ => exact .several (by simp)

/-- Steps chain exactly when the first yields what the second takes. -/
theorem chains_iff {config : Config} {declared : Set Declaration}
    {first second : Located String} :
    Chains config declared first second ↔
      ∃ before after, Performs declared first.value before ∧
        Performs declared second.value after ∧
        Ty.isSubtype config.numericWidening before.target after.source =
          true := by
  simp only [Chains, Signature.hasSource_iff]
  constructor
  · rintro ⟨before, after, _, performed, next, rfl, accepted⟩
    exact ⟨before, after, performed, next, accepted⟩
  · rintro ⟨before, after, performed, next, accepted⟩
    exact ⟨before, after, _, performed, next, rfl, accepted⟩

theorem Text.join_eq_intercalate (separator : String) (parts : List String) :
    Text.join separator parts = separator.intercalate parts := by
  induction parts with
  | nil => rfl
  | cons part rest ih =>
      cases rest with
      | nil => rw [Text.join, String.intercalate_singleton]
      | cons next rest =>
          show part ++ separator ++ Text.join separator (next :: rest) = _
          rw [ih, String.intercalate_cons_cons]

theorem Rule.targetText_eq_dottedTarget :
    Rule.targetText = Rule.dottedTarget := by
  funext rule
  exact Text.join_eq_intercalate "." _

/-- A rule has no fault exactly when it fits. -/
theorem Context.ruleFault?_eq_none_iff {context : Context}
    {environment : Environment} (realizes : context.Realizes environment)
    {target : Ty} {rule : Rule} :
    context.ruleFault? target rule = none ↔ rule.Fits environment target := by
  rw [← Context.checkRule_eq_ok_iff realizes, Context.ruleFault?]
  cases (context.checkRule target rule).outcome <;> simp

/--
Rules have no faults exactly when each has none and no target is assigned twice.
-/
theorem Context.ruleFaults_eq_nil_iff {context : Context} {target : Ty}
    {assigned : List String} {rules : List Rule} :
    context.ruleFaults target assigned rules = [] ↔
      ((rules.map Rule.targetText).Nodup ∧
        ∀ rule ∈ rules, rule.targetText ∉ assigned) ∧
        ∀ rule ∈ rules, context.ruleFault? target rule = none := by
  induction rules generalizing assigned with
  | nil => simp [Context.ruleFaults]
  | cons rule rest ih =>
      simp only [Context.ruleFaults, List.append_eq_nil_iff, ih,
        Option.toList_eq_nil_iff, List.map_cons, List.nodup_cons, List.mem_map,
        not_exists, not_and, List.mem_cons, not_or]
      split <;> grind

namespace Analysis

theorem names_namedSources {sources : List SourceDeclaration} {types : List Ty}
    (sameLength : sources.length = types.length) :
    ((namedSources (sources.zip types)).map Prod.fst).map Located.value =
      sources.filterMap SourceDeclaration.name := by
  induction sources generalizing types with
  | nil => rfl
  | cons source rest ih =>
      cases types with
      | nil => simp at sameLength
      | cons type types =>
          have further := ih (Nat.succ.inj sameLength)
          rw [namedSources] at further ⊢
          cases named : source.name with
          | none => simpa [List.filterMap_cons, named] using further
          | some name => simpa [List.filterMap_cons, named] using further

/-- Faults among the sources say that their names are repeated. -/
theorem sourceFaults_eq_nil_iff {sources : List SourceDeclaration}
    {types : List Ty} (sameLength : sources.length = types.length) :
    sourceFaults [] (sources.zip types) = [] ↔
      (sources.filterMap SourceDeclaration.name).Nodup := by
  rw [sourceFaults, List.map_eq_nil_iff, repeatedNames_eq_nil_iff,
    names_namedSources sameLength]
  simp

/-- The variables of a transform are those of its signature. -/
theorem sourceTypes_eq {relation : SourceDeclaration → Ty → Prop}
    {sources : List SourceDeclaration} {entries : List (Option String × Ty)}
    (each : List.Forall₂ (fun source entry =>
      entry.1 = source.name ∧ relation source entry.2) sources entries) :
    sourceTypes (sources.zip (entries.map Prod.snd)) =
      entries.filterMap fun source =>
        source.1.map fun name => (name, source.2) := by
  induction each with
  | nil => rfl
  | @cons source entry _ _ first _ ih =>
      rw [sourceTypes, namedSources] at ih ⊢
      cases named : source.name with
      | none => simpa [List.filterMap_cons, first.1, named] using ih
      | some name => simpa [List.filterMap_cons, first.1, named] using ih

end Analysis

namespace Program

variable {program : Program} (distinct : (program.map Declaration.name).Nodup)

include distinct

/--
The rules of a transform are checked in a context that holds what their
environment says.
-/
theorem realizes_bodyContext
    (resolved : Resolved program.declared program.number) (config : Config)
    {declaration : TransformDeclaration} {signature : Signature} {source : Ty}
    (typed : declaration.HasSignature program.declared signature)
    (taken : signature.HasSource source) :
    (Analysis.bodyContext config program.kind? declaration signature).Realizes
      (ruleEnvironment config program.declared program.number signature
        source) where
  config := rfl
  kind := fun name kind => kind?_eq_some_iff_hasKind distinct resolved
  source := congrArg some (Signature.hasSource_iff.mp taken)
  scope := by
    intro name
    show (Analysis.sourceTypes (declaration.sources.zip
        (signature.sources.map Prod.snd))).lookup name = _
    rw [Analysis.sourceTypes_eq typed.1]
    rfl

/--
A transform whose signature resolves has no fault exactly when it is well typed.
-/
theorem transformFaults_eq_nil_iff
    (resolved : Resolved program.declared program.number) (config : Config)
    {declaration : TransformDeclaration}
    (member : .transform declaration ∈ program.declared) :
    program.transformFaults config (.transform declaration) = [] ↔
      declaration.WellTyped config program.declared program.number := by
  rcases exists_hasSignature resolved member with ⟨signature, typed⟩
  have found := (signature_eq_ok_iff distinct).mpr typed
  have sameLength : declaration.sources.length =
      (signature.sources.map Prod.snd).length := by
    rw [List.length_map, typed.1.length_eq]
  have taken : signature.HasSource signature.source :=
    Signature.hasSource_iff.mpr rfl
  have realizes := realizes_bodyContext distinct resolved config typed taken
  simp only [transformFaults, found, Analysis.bodyFaults,
    List.append_eq_nil_iff, Analysis.sourceFaults_eq_nil_iff sameLength,
    Context.ruleFaults_eq_nil_iff, Rule.targetText_eq_dottedTarget,
    Context.ruleFault?_eq_none_iff realizes, List.not_mem_nil,
    not_false_eq_true, implies_true, and_true]
  constructor
  · rintro ⟨sources, targets, fits⟩
    exact ⟨sources, targets, signature, signature.source, typed, taken, fits⟩
  · rintro ⟨sources, targets, other, source, otherTyped, otherTaken, fits⟩
    cases Except.ok.inj
      (found.symm.trans ((signature_eq_ok_iff distinct).mpr otherTyped))
    cases Signature.hasSource_iff.mp otherTaken
    exact ⟨sources, targets, fits⟩

end Program

/-! ## Pipelines -/

namespace Context

variable {context : Context}

/-- A step that is no transform is a fault. -/
theorem stepFaults_ne_nil {step : Located String}
    (other : ∀ signature, context.kind step.value ≠ some (.transform signature))
    (previous : Option (String × Signature)) (rest : List (Located String)) :
    context.stepFaults previous (step :: rest) ≠ [] := by
  rw [stepFaults]
  split
  · simp
  · next signature known => exact absurd known (other signature)
  · simp

/--
Where chaining is checked, resolved signatures chain exactly when the source of
the second accepts the target of the first.
-/
theorem chainingFault?_eq_none_iff {previous : String} {step : Located String}
    {before after : Signature} (beforeKnown : before.isResolved = true)
    (afterKnown : after.isResolved = true) :
    context.chainingFault? previous before step after = none ↔
      (context.config.pipelineChaining = true →
        context.accepts before.target after.source = true) := by
  simp only [chainingFault?, beforeKnown, afterKnown]
  cases context.config.pipelineChaining <;>
    cases context.accepts before.target after.source <;> simp

/--
A step that comes after another one has no fault of its own when it accepts what
that one produces.
-/
theorem chainingFaults_eq_nil_iff {previous : Option (String × Signature)}
    {step : Located String} {after : Signature}
    (beforeKnown : ∀ entry ∈ previous, entry.2.isResolved = true)
    (afterKnown : after.isResolved = true) :
    (previous.bind fun before =>
      context.chainingFault? before.1 before.2 step after).toList = [] ↔
      (context.config.pipelineChaining = true →
        ∀ entry ∈ previous,
          context.accepts entry.2.target after.source = true) := by
  cases previous with
  | none => simp
  | some entry =>
      rw [Option.bind_some, Option.toList_eq_nil_iff,
        chainingFault?_eq_none_iff (beforeKnown entry rfl) afterKnown]
      simp

/--
Steps have no fault when they are transforms, of which each accepts what comes
before it.
-/
theorem stepFaults_eq_nil_iff {performs : String → Signature → Prop}
    (transforms : ∀ name signature,
      context.kind name = some (.transform signature) ↔ performs name signature)
    (known : ∀ name signature, performs name signature →
      signature.isResolved = true)
    (previous : Option (String × Signature))
    (beforeKnown : ∀ entry ∈ previous, entry.2.isResolved = true)
    (steps : List (Located String)) :
    context.stepFaults previous steps = [] ↔
      (∀ step ∈ steps, ∃ signature, performs step.value signature) ∧
        (context.config.pipelineChaining = true →
          (∀ entry ∈ previous, ∀ first ∈ steps.head?,
            ∃ after, performs first.value after ∧
              context.accepts entry.2.target after.source = true) ∧
          steps.IsChain fun first second =>
            ∃ before after, performs first.value before ∧
            performs second.value after ∧
            context.accepts before.target after.source = true) := by
  induction steps generalizing previous with
  | nil => simp [stepFaults]
  | cons step rest ih =>
      by_cases isTransform : ∃ signature, performs step.value signature
      · rcases isTransform with ⟨signature, performed⟩
        have stands := (transforms _ _).mpr performed
        have only : ∀ other, performs step.value other ↔ signature = other := by
          intro other
          rw [← transforms, stands, Option.some.injEq, Kind.transform.injEq]
        have arriving :=
          @chainingFaults_eq_nil_iff context previous step signature beforeKnown
            (known _ _ performed)
        have further := ih (some (step.value, signature)) (by
          rintro _ ⟨⟩
          exact known _ _ performed)
        simp only [stepFaults, stands, List.append_eq_nil_iff, arriving,
          further, List.isChain_cons, List.head?_cons, Option.mem_def,
          Option.some.injEq, forall_eq', only, exists_and_left, exists_eq_left',
          List.forall_mem_cons]
        constructor
        · rintro ⟨arrives, all, chained⟩
          exact ⟨⟨⟨signature, rfl⟩, all⟩,
            fun chaining => ⟨arrives chaining, chained chaining⟩⟩
        · rintro ⟨⟨-, all⟩, chained⟩
          exact ⟨fun chaining => (chained chaining).1, all,
            fun chaining => (chained chaining).2⟩
      · have other : ∀ signature,
            context.kind step.value ≠ some (.transform signature) :=
          fun signature stands =>
            isTransform ⟨signature, (transforms _ _).mp stands⟩
        constructor
        · intro none
          exact absurd none (stepFaults_ne_nil other previous rest)
        · rintro ⟨all, -⟩
          exact absurd (all step List.mem_cons_self) isTransform

end Context

namespace Program

/-- The types of a signature are known. -/
theorem isResolved_of_hasSignature {declared : Set Declaration}
    {declaration : TransformDeclaration} {signature : Signature}
    (typed : declaration.HasSignature declared signature) :
    signature.isResolved = true := by
  have known : ∀ {type : Ty}, type.IsKnown → type.isUnknown = false := by
    intro type known
    have apart := known.ne_unknown
    cases type <;> first | rfl | contradiction
  rcases forall₂_key_iff.mp typed.1 with ⟨types, each, zipped⟩
  have sources :=
    Denotes.areKnown (by simp) _ (List.forall₂_map_left_iff.mpr each)
  have target := Denotes.isKnown (by simp) _ typed.2
  rw [Signature.isResolved, known target, Bool.not_false, Bool.true_and,
    List.all_eq_true]
  intro entry member
  rw [← zipped] at member
  rw [known (sources entry.2 (List.of_mem_zip member).2), Bool.not_false]

variable {program : Program} (distinct : (program.map Declaration.name).Nodup)

include distinct

/-- A name has a signature exactly when it performs it. -/
theorem kind?_eq_some_transform_iff
    (resolved : Resolved program.declared program.number) {name : String}
    {signature : Signature} :
    program.kind? name = some (.transform signature) ↔
      Performs program.declared name signature := by
  rw [kind?_eq_some_iff_hasKind distinct resolved]
  constructor
  · rintro ⟨declaration, member, named, stands⟩
    cases declaration with
    | transform declaration =>
        rcases stands with ⟨other, typed, ⟨⟩⟩
        exact ⟨declaration, member, named, typed⟩
    | schema declaration =>
        rcases stands with ⟨_, _, same⟩
        contradiction
    | unit declaration =>
        rcases stands with ⟨_, _, same⟩
        contradiction
    | lookup declaration =>
        rcases stands with ⟨_, _, _, same⟩
        contradiction
    | _ => contradiction
  · rintro ⟨declaration, member, named, typed⟩
    exact ⟨_, member, named, signature, typed, rfl⟩

/-- A pipeline has no fault exactly when it is well typed. -/
theorem pipelineFaults_eq_nil_iff
    (resolved : Resolved program.declared program.number) (config : Config)
    {declaration : PipelineDeclaration} :
    program.pipelineFaults config (.pipeline declaration) = [] ↔
      declaration.WellTyped config program.declared := by
  have known : ∀ name signature, Performs program.declared name signature →
      signature.isResolved = true := by
    rintro name signature ⟨_, -, -, typed⟩
    exact isResolved_of_hasSignature typed
  have exists_performs : ∀ name,
      (∃ signature, Performs program.declared name signature) ↔
      ∃ transform, .transform transform ∈ program.declared ∧
        transform.name = name := by
    intro name
    constructor
    · rintro ⟨_, transform, member, named, -⟩
      exact ⟨transform, member, named⟩
    · rintro ⟨transform, member, named⟩
      rcases exists_hasSignature resolved member with ⟨signature, typed⟩
      exact ⟨signature, transform, member, named, typed⟩
  have transforms : ∀ name signature,
      (program.pipelineContext config).kind name = some (.transform signature) ↔
      Performs program.declared name signature :=
    fun name signature => kind?_eq_some_transform_iff distinct resolved
  rw [pipelineFaults,
    Context.stepFaults_eq_nil_iff transforms known none (by simp)]
  simp only [exists_performs, Option.mem_def, reduceCtorEq, false_implies,
    implies_true, true_and]
  constructor
  · rintro ⟨steps, chained⟩
    exact ⟨steps,
      fun chaining => (chained chaining).imp fun _ _ => chains_iff.mpr⟩
  · rintro ⟨steps, chained⟩
    exact ⟨steps,
      fun chaining => (chained chaining).imp fun _ _ => chains_iff.mp⟩

/-! ## The whole program -/

/-- A unit has no fault exactly when it measures something. -/
theorem unitFaults_eq_nil_iff {declaration : UnitDeclaration} :
    program.unitFaults (.unit declaration) = [] ↔
      ∃ unit, Measures program.declared declaration.name unit := by
  rw [← measures_names distinct]
  show _ ↔ ∃ unit, program.units.find declaration.name = .ok unit
  rw [unitFaults]
  cases program.units.find declaration.name <;> simp

/-- A look-up has no fault exactly when its keys and its value mean types. -/
theorem lookupFaults_eq_nil_iff {declaration : LookupDeclaration} :
    program.lookupFaults (.lookup declaration) = [] ↔
      (∀ key ∈ declaration.keys, ∃ type, Means program.declared [] key type) ∧
        ∃ type, Means program.declared [] declaration.value type := by
  rw [← exists_forall₂_iff]
  have found :
      (∃ keys value, program.names.lookup declaration = .ok (keys, value)) ↔
      (∃ keys, List.Forall₂ (Means program.declared []) declaration.keys keys) ∧
        ∃ type, Means program.declared [] declaration.value type := by
    simp only [lookup_eq_ok_iff distinct, exists_and_left, exists_and_right]
  rw [← found, lookupFaults]
  cases program.names.lookup declaration with
  | ok types => exact ⟨fun _ => ⟨types.1, types.2, rfl⟩, fun _ => rfl⟩
  | error fault => simp

/-- A transform without faults has a signature that resolves. -/
theorem resolves_of_transformFaults_eq_nil {config : Config}
    {declaration : TransformDeclaration}
    (faultless : program.transformFaults config (.transform declaration) = []) :
    (∀ source ∈ declaration.sources,
      ∃ type, Means program.declared [] source.type type) ∧
      ∃ type, Means program.declared [] declaration.target type := by
  simp only [← resolve_eq_ok_iff_means distinct]
  rw [← Names.exists_signature_iff]
  rw [transformFaults] at faultless
  cases found : program.names.signature declaration with
  | ok signature => exact ⟨signature, rfl⟩
  | error fault => simp [found] at faultless

omit distinct in
/--
A program has no faults exactly when neither its names nor any phase shows one.
-/
theorem faults_eq_nil_iff (config : Config) (program : Program) :
    program.faults config = [] ↔
      (program.map Declaration.name).Nodup ∧ WellNamed program.declared ∧
        (∀ declaration ∈ program.declared,
          program.unitFaults declaration = []) ∧ program.fields.faults = [] ∧
        (∀ declaration ∈ program.declared,
          program.lookupFaults declaration = []) ∧
        (∀ declaration ∈ program.declared,
          program.transformFaults config declaration = []) ∧
        ∀ declaration ∈ program.declared,
          program.pipelineFaults config declaration = [] := by
  simp only [faults, List.append_eq_nil_iff, List.flatMap_eq_nil_iff,
    SymbolTable.register_snd_eq_nil_iff, and_assoc]
  apply and_congr_right
  intro distinct
  rw [owners_eq_of_nodup distinct]
  rfl

omit distinct in
/--
Nothing is wrong with a program exactly when its names are distinct and it is
well typed.
-/
theorem faults_eq_nil_iff_wellTyped (config : Config) (program : Program) :
    program.faults config = [] ↔
      (program.map Declaration.name).Nodup ∧
        WellTyped config program.declared program.number := by
  rw [faults_eq_nil_iff]
  apply and_congr_right
  intro distinct
  constructor
  · rintro ⟨wellNamed, units, fields, lookups, transforms, pipelines⟩
    have resolved : Resolved program.declared program.number :=
      { toWellNamed := wellNamed
        units := fun declaration member =>
          (unitFaults_eq_nil_iff distinct).mp (units _ member)
        fieldTypes := (fieldFaults_eq_nil_iff distinct).mp fields
        lookupKeys := fun declaration member =>
          ((lookupFaults_eq_nil_iff distinct).mp (lookups _ member)).1
        lookupValues := fun declaration member =>
          ((lookupFaults_eq_nil_iff distinct).mp (lookups _ member)).2
        sources := fun declaration member =>
          (resolves_of_transformFaults_eq_nil distinct (transforms _ member)).1
        targets := fun declaration member =>
          (resolves_of_transformFaults_eq_nil distinct
            (transforms _ member)).2 }
    exact
      { toResolved := resolved
        transforms := fun declaration member =>
          (transformFaults_eq_nil_iff distinct resolved config member).mp
            (transforms _ member)
        pipelines := fun declaration member =>
          (pipelineFaults_eq_nil_iff distinct resolved config).mp
            (pipelines _ member) }
  · intro wellTyped
    have resolved := wellTyped.toResolved
    refine ⟨resolved.toWellNamed, ?_,
      (fieldFaults_eq_nil_iff distinct).mpr resolved.fieldTypes, ?_, ?_, ?_⟩
    · intro declaration member
      cases declaration with
      | unit declaration =>
          exact (unitFaults_eq_nil_iff distinct).mpr
            (resolved.units declaration member)
      | _ => rfl
    · intro declaration member
      cases declaration with
      | lookup declaration =>
          exact (lookupFaults_eq_nil_iff distinct).mpr
            ⟨resolved.lookupKeys declaration member,
              resolved.lookupValues declaration member⟩
      | _ => rfl
    · intro declaration member
      cases declaration with
      | transform declaration =>
          exact (transformFaults_eq_nil_iff distinct resolved config member).mpr
            (wellTyped.transforms declaration member)
      | _ => rfl
    · intro declaration member
      cases declaration with
      | pipeline declaration =>
          exact (pipelineFaults_eq_nil_iff distinct resolved config).mpr
            (wellTyped.pipelines declaration member)
      | _ => rfl

end Program

end SchemaMap
