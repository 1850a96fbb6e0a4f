import SchemaMap.Proofs.Inference.Typing

/-!
# What an inference notes

An inference that succeeds notes a type for every expression inside the one it
is about, for lambdas of aggregates too, and for nothing else (`tells_infer`).
Which type that is follows from the typing rules: a part is typed in the
environment that it stands in (`StandsIn`), however deep it lies (`Notes`).
-/

namespace SchemaMap

/-! ## The parts of an expression -/

mutual

/--
The spans of an expression, of the expressions inside it and of the lambdas of
its aggregates.
-/
def Expr.spans : Expr → List Span
  | .literal span _ => [span]
  | .path span _ segments => Segment.spansOfAll segments ++ [span]
  | .binary span left _ right => left.spans ++ right.spans ++ [span]
  | .unary span _ operand => operand.spans ++ [span]
  | .conditional span condition thenBranch elseBranch =>
      condition.spans ++ (thenBranch.spans ++ elseBranch.spans) ++ [span]
  | .matching span subject arms =>
      subject.spans ++ Arm.spansOfAll arms ++ [span]
  | .lambda span _ body => body.spans ++ [span]
  | .aggregate span _ source => source.spans ++ [span]
  | .aggregateWith span _ source lambdaSpan _ body =>
      source.spans ++ (body.spans ++ [lambdaSpan]) ++ [span]
  | .lookup span _ keys => Expr.spansOfAll keys ++ [span]
termination_by structural expression => expression

def Segment.spansOfAll : List Segment → List Span
  | [] => []
  | .field _ _ _ :: rest => Segment.spansOfAll rest
  | .index _ position _ :: rest => position.spans ++ Segment.spansOfAll rest
termination_by structural segments => segments

def Arm.spansOfAll : List Arm → List Span
  | [] => []
  | .mk _ _ body :: rest => body.spans ++ Arm.spansOfAll rest
termination_by structural arms => arms

def Expr.spansOfAll : List Expr → List Span
  | [] => []
  | expression :: rest => expression.spans ++ Expr.spansOfAll rest
termination_by structural expressions => expressions

end

/--
A part stands directly in an expression, with the variables that are in reach
there.
-/
inductive StandsIn (environment : Environment) :
    Expr → Environment → Expr → Prop where
  | index {span segmentSpan : Span} {root : PathRoot} {segments : List Segment}
      {position : Expr} {optional : Bool}
      (member : .index segmentSpan position optional ∈ segments) :
      StandsIn environment (.path span root segments) environment position
  | left {span : Span} {operator : Operator} {left right : Expr} :
      StandsIn environment (.binary span left operator right) environment left
  | right {span : Span} {operator : Operator} {left right : Expr} :
      StandsIn environment (.binary span left operator right) environment right
  | operand {span : Span} {operator : UnaryOperator} {operand : Expr} :
      StandsIn environment (.unary span operator operand) environment operand
  | condition {span : Span} {condition thenBranch elseBranch : Expr} :
      StandsIn environment (.conditional span condition thenBranch elseBranch)
        environment condition
  | thenBranch {span : Span} {condition thenBranch elseBranch : Expr} :
      StandsIn environment (.conditional span condition thenBranch elseBranch)
        environment thenBranch
  | elseBranch {span : Span} {condition thenBranch elseBranch : Expr} :
      StandsIn environment (.conditional span condition thenBranch elseBranch)
        environment elseBranch
  | subject {span : Span} {subject : Expr} {arms : List Arm} :
      StandsIn environment (.matching span subject arms) environment subject
  | arm {span armSpan : Span} {subject body : Expr} {arms : List Arm}
      {pattern : Pattern} (member : .mk armSpan pattern body ∈ arms) :
      StandsIn environment (.matching span subject arms) environment body
  | lambda {span : Span} {parameters : List (Located String)} {body : Expr} :
      StandsIn environment (.lambda span parameters body)
        (environment.bind
          (parameters.map fun parameter => (parameter.value, .unknown))) body
  | source {span : Span} {function : Aggregate} {source : Expr} :
      StandsIn environment (.aggregate span function source) environment source
  | collection {span lambdaSpan : Span} {function : Aggregate}
      {source body : Expr} {parameters : List (Located String)} :
      StandsIn environment
        (.aggregateWith span function source lambdaSpan parameters body)
        environment source
  | body {span lambdaSpan : Span} {function : Aggregate} {source body : Expr}
      {parameter : Located String} {sourceType element : Ty}
      (collection : HasType environment source sourceType)
      (elements : sourceType.HasElement element) :
      StandsIn environment
        (.aggregateWith span function source lambdaSpan [parameter] body)
        (environment.bind [(parameter.value, element)]) body
  | key {span : Span} {table : Located String} {keys : List Expr} {key : Expr}
      (member : key ∈ keys) :
      StandsIn environment (.lookup span table keys) environment key

/--
The type that belongs to a span of an expression: that of the expression itself,
that of a lambda of an aggregate, or one that belongs to the span of a part.
-/
inductive Notes : Environment → Expr → Span → Ty → Prop where
  | whole {environment : Environment} {expression : Expr} {type : Ty}
      (typed : HasType environment expression type) :
      Notes environment expression expression.span type
  | lambda {environment : Environment} {span lambdaSpan : Span}
      {function : Aggregate} {source body : Expr} {parameter : Located String}
      {sourceType element type : Ty}
      (collection : HasType environment source sourceType)
      (elements : sourceType.HasElement element)
      (inner : HasType (environment.bind [(parameter.value, element)]) body
        type) :
      Notes environment
        (.aggregateWith span function source lambdaSpan [parameter] body)
        lambdaSpan
        (.function [element] type)
  | part {environment inner : Environment} {expression part : Expr}
      {span : Span} {type : Ty}
      (within : StandsIn environment expression inner part)
      (noted : Notes inner part span type) :
      Notes environment expression span type

/-! ## The types inside each form of expression -/

section

variable {environment : Environment} {span noted : Span} {type : Ty}

theorem notes_literal_iff {value : Literal} :
    Notes environment (.literal span value) noted type ↔
      False ∨
        noted = span ∧ HasType environment (.literal span value) type := by
  constructor
  · intro told
    cases told with
    | whole typed => exact .inr ⟨rfl, typed⟩
    | part within inside => cases within
  · rintro (⟨⟨⟩⟩ | ⟨rfl, typed⟩)
    exact .whole typed

/-- A path notes what its positions note, and its own type. -/
theorem notes_path_iff {root : PathRoot} {segments : List Segment} :
    Notes environment (.path span root segments) noted type ↔
      (∃ segmentSpan position optional,
        .index segmentSpan position optional ∈ segments ∧
          Notes environment position noted type) ∨
        noted = span ∧ HasType environment (.path span root segments) type := by
  constructor
  · intro told
    cases told with
    | whole typed => exact .inr ⟨rfl, typed⟩
    | part within inside =>
        cases within with
        | index member => exact .inl ⟨_, _, _, member, inside⟩
  · rintro (⟨_, _, _, member, inside⟩ | ⟨rfl, typed⟩)
    · exact .part (.index member) inside
    · exact .whole typed

/-- An operation notes what its operands note, and its own type. -/
theorem notes_binary_iff {left right : Expr} {operator : Operator} :
    Notes environment (.binary span left operator right) noted type ↔
      (Notes environment left noted type ∨ Notes environment right noted type) ∨
        noted = span ∧
          HasType environment (.binary span left operator right) type := by
  constructor
  · intro told
    cases told with
    | whole typed => exact .inr ⟨rfl, typed⟩
    | part within inside =>
        cases within with
        | left => exact .inl (.inl inside)
        | right => exact .inl (.inr inside)
  · rintro ((inside | inside) | ⟨rfl, typed⟩)
    · exact .part .left inside
    · exact .part .right inside
    · exact .whole typed

theorem notes_unary_iff {operator : UnaryOperator} {operand : Expr} :
    Notes environment (.unary span operator operand) noted type ↔
      Notes environment operand noted type ∨
        noted = span ∧
          HasType environment (.unary span operator operand) type := by
  constructor
  · intro told
    cases told with
    | whole typed => exact .inr ⟨rfl, typed⟩
    | part within inside =>
        cases within with
        | operand => exact .inl inside
  · rintro (inside | ⟨rfl, typed⟩)
    · exact .part .operand inside
    · exact .whole typed

/-- A conditional notes what its three parts note, and its own type. -/
theorem notes_conditional_iff {condition thenBranch elseBranch : Expr} :
    Notes environment (.conditional span condition thenBranch elseBranch) noted
      type ↔
      (Notes environment condition noted type ∨
        Notes environment thenBranch noted type ∨
        Notes environment elseBranch noted type) ∨
        noted = span ∧ HasType environment
          (.conditional span condition thenBranch elseBranch) type := by
  constructor
  · intro told
    cases told with
    | whole typed => exact .inr ⟨rfl, typed⟩
    | part within inside =>
        cases within with
        | condition => exact .inl (.inl inside)
        | thenBranch => exact .inl (.inr (.inl inside))
        | elseBranch => exact .inl (.inr (.inr inside))
  · rintro ((inside | inside | inside) | ⟨rfl, typed⟩)
    · exact .part .condition inside
    · exact .part .thenBranch inside
    · exact .part .elseBranch inside
    · exact .whole typed

/-- A match notes what its subject and its arms note, and its own type. -/
theorem notes_matching_iff {subject : Expr} {arms : List Arm} :
    Notes environment (.matching span subject arms) noted type ↔
      (Notes environment subject noted type ∨
        ∃ armSpan pattern body, .mk armSpan pattern body ∈ arms ∧
          Notes environment body noted type) ∨
        noted = span ∧
          HasType environment (.matching span subject arms) type := by
  constructor
  · intro told
    cases told with
    | whole typed => exact .inr ⟨rfl, typed⟩
    | part within inside =>
        cases within with
        | subject => exact .inl (.inl inside)
        | arm member => exact .inl (.inr ⟨_, _, _, member, inside⟩)
  · rintro ((inside | ⟨_, _, _, member, inside⟩) | ⟨rfl, typed⟩)
    · exact .part .subject inside
    · exact .part (.arm member) inside
    · exact .whole typed

/--
A lambda notes what its body notes under the parameters, and its own type.
-/
theorem notes_lambda_iff {parameters : List (Located String)} {body : Expr} :
    Notes environment (.lambda span parameters body) noted type ↔
      Notes (environment.bind
        (parameters.map fun parameter => (parameter.value, .unknown)))
        body noted type ∨
        noted = span ∧
          HasType environment (.lambda span parameters body) type := by
  constructor
  · intro told
    cases told with
    | whole typed => exact .inr ⟨rfl, typed⟩
    | part within inside =>
        cases within with
        | lambda => exact .inl inside
  · rintro (inside | ⟨rfl, typed⟩)
    · exact .part .lambda inside
    · exact .whole typed

theorem notes_aggregate_iff {function : Aggregate} {source : Expr} :
    Notes environment (.aggregate span function source) noted type ↔
      Notes environment source noted type ∨
        noted = span ∧
          HasType environment (.aggregate span function source) type := by
  constructor
  · intro told
    cases told with
    | whole typed => exact .inr ⟨rfl, typed⟩
    | part within inside =>
        cases within with
        | source => exact .inl inside
  · rintro (inside | ⟨rfl, typed⟩)
    · exact .part .source inside
    · exact .whole typed

/-- A look-up notes what its keys note, and its own type. -/
theorem notes_lookup_iff {table : Located String} {keys : List Expr} :
    Notes environment (.lookup span table keys) noted type ↔
      (∃ key ∈ keys, Notes environment key noted type) ∨
        noted = span ∧ HasType environment (.lookup span table keys) type := by
  constructor
  · intro told
    cases told with
    | whole typed => exact .inr ⟨rfl, typed⟩
    | part within inside =>
        cases within with
        | key member => exact .inl ⟨_, member, inside⟩
  · rintro (⟨_, member, inside⟩ | ⟨rfl, typed⟩)
    · exact .part (.key member) inside
    · exact .whole typed

end

/-! ## What is told by a trace -/

/-- The type that an event notes. -/
def Event.noted? : Event → Option (Span × Ty)
  | .typed span type => some (span, type)
  | _ => none

namespace Inference

variable {α β : Type}

/-- The types that an inference notes, with their spans. -/
def noted (inference : Inference α) : List (Span × Ty) :=
  inference.trace.filterMap Event.noted?

theorem trace_ofExcept_bind_pure (outcome : Except Fault α) (value : β) :
    (Inference.ofExcept outcome >>= fun _ => pure value).trace = [] := by
  cases outcome <;> rfl

/--
An inference notes types for these spans, one after the other, and the types
that it notes are the ones told.
-/
structure Tells (inference : Inference α) (spans : List Span)
    (told : Span → Ty → Prop) : Prop where
  spans : inference.noted.map Prod.fst = spans
  told : ∀ span type, (span, type) ∈ inference.noted ↔ told span type

namespace Tells

variable {inference : Inference α} {spans later : List Span}
  {told other : Span → Ty → Prop}

theorem silent (quiet : inference.trace = []) :
    inference.Tells [] fun _ _ => False where
  spans := by rw [noted, quiet]; rfl
  told := by
    intro span type
    rw [noted, quiet]
    exact ⟨fun member => List.not_mem_nil member, False.elim⟩

theorem congr (tells : inference.Tells spans told)
    (same : ∀ span type, told span type ↔ other span type) :
    inference.Tells spans other where
  spans := tells.spans
  told := fun span type => (tells.told span type).trans (same span type)

/-- Inferences that follow one another tell what each of them tells. -/
theorem bind {next : α → Inference β} {value : α}
    (found : inference.outcome = .ok value) (first : inference.Tells spans told)
    (second : (next value).Tells later other) :
    (inference >>= next).Tells (spans ++ later) fun span type =>
      told span type ∨ other span type := by
  have split : (inference >>= next).noted =
      inference.noted ++ (next value).noted := by
    rw [noted, trace_bind_of_ok next found, List.filterMap_append]
    rfl
  constructor
  · rw [split, List.map_append, first.spans, second.spans]
  · intro span type
    rw [split, List.mem_append, first.told, second.told]

/-- What follows notes nothing. -/
theorem bindSilent {next : α → Inference β} {value : α}
    (found : inference.outcome = .ok value) (first : inference.Tells spans told)
    (quiet : (next value).trace = []) :
    (inference >>= next).Tells spans told := by
  have tells :=
    (bind found first (silent quiet)).congr fun _ _ => iff_of_eq (or_false _)
  rwa [List.append_nil] at tells

/-- What comes first notes nothing. -/
theorem silentBind {outcome : Except Fault α} {next : α → Inference β}
    {value : α} (found : outcome = .ok value)
    (second : (next value).Tells spans told) :
    (Inference.ofExcept outcome >>= next).Tells spans told :=
  (bind found (silent rfl) second).congr fun _ _ => iff_of_eq (false_or _)

theorem emit (span : Span) (type : Ty) :
    (Inference.emit (.typed span type)).Tells [span] fun other found =>
      other = span ∧ found = type where
  spans := rfl
  told := by
    intro other found
    show (other, found) ∈ [(span, type)] ↔ _
    rw [List.mem_singleton, Prod.mk.injEq]

/-- A recorded inference also tells its own type. -/
theorem recorded {inference : Inference Ty} {span : Span} {type : Ty}
    (found : (Inference.recorded span inference).outcome = .ok type)
    (inner : inference.Tells spans told) :
    (Inference.recorded span inference).Tells (spans ++ [span])
      fun other found =>
      told other found ∨ other = span ∧ found = type := by
  rw [outcome_recorded] at found
  exact bind found inner (bindSilent rfl (emit span type) rfl)

/-- A scope tells what its body tells. -/
theorem inScope {parameters : List (Located String × Ty)} {body : Inference α}
    (distinct : (parameters.map fun parameter => parameter.1.value).Nodup)
    (inner : body.Tells spans told) :
    (Inference.inScope (bindAll [] parameters >>= fun _ => body)).Tells spans
      told := by
  have bound : (bindAll [] parameters).outcome = .ok () :=
    outcome_bindAll_eq_ok_iff.mpr ⟨distinct, by simp⟩
  rcases trace_bindAll [] parameters with ⟨fresh, traced, -, -⟩
  have silent : (bindAll [] parameters).noted = [] := by
    rw [noted, traced, List.filterMap_eq_nil_iff, List.forall_mem_map]
    exact fun _ _ => rfl
  have same : (Inference.inScope
      (bindAll [] parameters >>= fun _ => body)).noted = body.noted := by
    rw [noted, Inference.inScope, trace_bind_of_ok _ bound,
      List.filterMap_append, List.filterMap_cons_none rfl,
      List.filterMap_append]
    show (bindAll [] parameters).noted ++ body.noted ++ [] = body.noted
    rw [silent, List.nil_append, List.append_nil]
  exact ⟨by rw [same, inner.spans], by rw [same]; exact inner.told⟩

end Tells

end Inference

/-! ## What inference tells -/

theorem Ty.HasElement.unique {base first second : Ty}
    (one : base.HasElement first) (other : base.HasElement second) :
    first = second := by
  cases one <;> cases other <;> rfl

namespace Context

open Inference

/-- An expression has one type. -/
theorem hasType_unique {context : Context} {environment : Environment}
    (realizes : context.Realizes environment) {expression : Expr}
    {type other : Ty} (first : HasType environment expression type)
    (second : HasType environment expression other) : type = other := by
  have found := (infer_eq_ok_iff realizes expression).mpr first
  rw [(infer_eq_ok_iff realizes expression).mpr second] at found
  exact (Except.ok.inj found).symm

/--
Inside an aggregate with a lambda there is what belongs to its source and to the
body of the lambda, and the type of the lambda itself.
-/
theorem notes_aggregateWith_iff {context : Context} {environment : Environment}
    (realizes : context.Realizes environment) {span lambdaSpan noted : Span}
    {function : Aggregate} {source body : Expr} {parameter : Located String}
    {sourceType element bodyType type : Ty}
    (collection : HasType environment source sourceType)
    (elements : sourceType.HasElement element)
    (inner : HasType (environment.bind [(parameter.value, element)]) body
      bodyType) :
    Notes environment
        (.aggregateWith span function source lambdaSpan [parameter] body) noted
        type ↔
      (Notes environment source noted type ∨
        Notes (environment.bind [(parameter.value, element)]) body noted type ∨
        noted = lambdaSpan ∧ type = .function [element] bodyType) ∨
        noted = span ∧ HasType environment
          (.aggregateWith span function source lambdaSpan [parameter] body)
          type := by
  constructor
  · intro told
    -- The source and the body have no other types, so the parts stand in no
    -- other environments.
    cases told with
    | whole typed => exact .inr ⟨rfl, typed⟩
    | lambda otherCollection otherElements otherInner =>
        cases hasType_unique realizes otherCollection collection
        cases otherElements.unique elements
        cases hasType_unique (realizes.withVariables _) otherInner inner
        exact .inl (.inr (.inr ⟨rfl, rfl⟩))
    | part within inside =>
        cases within with
        | collection => exact .inl (.inl inside)
        | body otherCollection otherElements =>
            cases hasType_unique realizes otherCollection collection
            cases otherElements.unique elements
            exact .inl (.inr (.inl inside))
  · rintro ((inside | inside | ⟨rfl, rfl⟩) | ⟨rfl, typed⟩)
    · exact .part .collection inside
    · exact .part (.body collection elements) inside
    · exact .lambda collection elements inner
    · exact .whole typed

/--
An inference that records what it finds notes the type of the expression after
those of its parts.
-/
theorem tells_recorded {context : Context} {environment : Environment}
    (realizes : context.Realizes environment) {expression : Expr} {type : Ty}
    (typed : HasType environment expression type) {inference : Inference Ty}
    (unfolded : context.infer expression = recorded expression.span inference)
    {spans : List Span} {told : Span → Ty → Prop}
    (inner : inference.Tells spans told)
    (parts : ∀ span noted, Notes environment expression span noted ↔
      told span noted ∨
        span = expression.span ∧ HasType environment expression noted) :
    (context.infer expression).Tells (spans ++ [expression.span])
      (Notes environment expression) := by
  have found := (infer_eq_ok_iff realizes expression).mpr typed
  rw [unfolded] at found ⊢
  refine (Tells.recorded found inner).congr fun span noted => ?_
  rw [parts]
  refine or_congr_right (and_congr_right fun _ => ⟨?_, fun again => ?_⟩)
  · rintro rfl
    exact typed
  · exact hasType_unique realizes again typed

section

variable {context : Context} {environment : Environment}
  (realizes : context.Realizes environment) {span : Span}

include realizes

/-!
The lemmas of this section say what an inference tells if those for the parts do
so.
-/

theorem tells_infer_path {root : PathRoot} {segments : List Segment}
    {start last type : Ty} {marked : Bool}
    (starts : environment.HasRoot root start)
    (walks : Walks environment start segments last marked)
    (ends : last.Ends marked type)
    (steps : (context.inferSegments { type := start } segments).Tells
      (Segment.spansOfAll segments) fun noted type =>
        ∃ segmentSpan position optional,
          .index segmentSpan position optional ∈ segments ∧
            Notes environment position noted type) :
    (context.infer (.path span root segments)).Tells
      (Expr.path span root segments).spans
      (Notes environment (.path span root segments)) := by
  have walked : (context.inferSegments { type := start } segments).outcome =
      .ok { type := last, chained := marked } :=
    (inferSegments_eq_ok_iff realizes segments).mpr ⟨marked, walks, rfl⟩
  exact tells_recorded realizes (.path starts walks ends) (by rw [infer]; rfl)
    (.silentBind ((realizes.rootType_eq_ok_iff).mpr starts)
      (.bindSilent walked steps rfl))
    fun _ _ => notes_path_iff

theorem tells_infer_binary {left right : Expr} {operator : Operator}
    {leftType rightType type : Ty} (first : HasType environment left leftType)
    (second : HasType environment right rightType)
    (yields : operator.Yields leftType rightType type)
    (tellsLeft : (context.infer left).Tells left.spans (Notes environment left))
    (tellsRight : (context.infer right).Tells right.spans
      (Notes environment right)) :
    (context.infer (.binary span left operator right)).Tells
      (Expr.binary span left operator right).spans
      (Notes environment (.binary span left operator right)) :=
  tells_recorded realizes (.binary first second yields) (by rw [infer]; rfl)
    (.bind ((infer_eq_ok_iff realizes left).mpr first) tellsLeft
      (.bindSilent ((infer_eq_ok_iff realizes right).mpr second) tellsRight
        rfl))
    fun _ _ => notes_binary_iff

theorem tells_infer_conditional {condition thenBranch elseBranch : Expr}
    {conditionType thenType elseType type : Ty}
    (decided : HasType environment condition conditionType)
    (first : HasType environment thenBranch thenType)
    (second : HasType environment elseBranch elseType)
    (joins : thenType.Joins elseType type)
    (tellsCondition : (context.infer condition).Tells condition.spans
      (Notes environment condition))
    (tellsThen : (context.infer thenBranch).Tells thenBranch.spans
      (Notes environment thenBranch))
    (tellsElse : (context.infer elseBranch).Tells elseBranch.spans
      (Notes environment elseBranch)) :
    (context.infer (.conditional span condition thenBranch elseBranch)).Tells
      (Expr.conditional span condition thenBranch elseBranch).spans
      (Notes environment (.conditional span condition thenBranch elseBranch)) :=
  tells_recorded realizes (.conditional decided first second joins)
    (by rw [infer]; rfl)
    (.bind ((infer_eq_ok_iff realizes condition).mpr decided) tellsCondition
      (.bind ((infer_eq_ok_iff realizes thenBranch).mpr first) tellsThen
        (.bindSilent ((infer_eq_ok_iff realizes elseBranch).mpr second)
          tellsElse rfl)))
    fun _ _ => notes_conditional_iff

theorem tells_infer_lambda {parameters : List (Located String)} {body : Expr}
    {type : Ty} (distinct : (parameters.map Located.value).Nodup)
    (inner : HasType
      (environment.bind
        (parameters.map fun parameter => (parameter.value, .unknown)))
      body type)
    (tellsBody : ((context.withVariables
        (parameters.map fun parameter => (parameter.value, .unknown))).infer
        body).Tells
      body.spans
      (Notes (environment.bind
        (parameters.map fun parameter => (parameter.value, .unknown))) body)) :
    (context.infer (.lambda span parameters body)).Tells
      (Expr.lambda span parameters body).spans
      (Notes environment (.lambda span parameters body)) := by
  have apart : ((parameters.map fun parameter => (parameter, Ty.unknown)).map
      fun parameter => parameter.1.value).Nodup := by
    rw [List.map_map]
    exact distinct
  have bound : ((parameters.map fun parameter => (parameter, Ty.unknown)).map
      fun entry => (entry.1.value, entry.2)) =
        parameters.map fun parameter => (parameter.value, .unknown) := by
    rw [List.map_map]
    rfl
  have opened := (infer_eq_ok_iff (realizes.withVariables _) body).mpr inner
  exact tells_recorded realizes (.lambda distinct inner)
    (by rw [infer, bound]; rfl)
    (.bindSilent (outcome_inScope_bindAll_eq_ok_iff.mpr ⟨apart, opened⟩)
      (.inScope apart tellsBody) rfl)
    fun _ _ => notes_lambda_iff

theorem tells_infer_aggregateWith {lambdaSpan : Span} {function : Aggregate}
    {source body : Expr} {parameter : Located String}
    {sourceType element bodyType type : Ty}
    (collection : HasType environment source sourceType)
    (elements : sourceType.HasElement element)
    (inner : HasType (environment.bind [(parameter.value, element)]) body
      bodyType)
    (yields : function.Yields sourceType bodyType type)
    (tellsSource : (context.infer source).Tells source.spans
      (Notes environment source))
    (tellsBody : ((context.withVariables [(parameter.value, element)]).infer
      body).Tells
      body.spans (Notes (environment.bind [(parameter.value, element)]) body)) :
    (context.infer
      (.aggregateWith span function source lambdaSpan [parameter] body)).Tells
      (Expr.aggregateWith span function source lambdaSpan [parameter]
        body).spans
      (Notes environment
        (.aggregateWith span function source lambdaSpan [parameter] body)) := by
  have apart : ([(parameter, element)].map fun parameter =>
      parameter.1.value).Nodup :=
    List.nodup_singleton _
  have opened := (infer_eq_ok_iff (realizes.withVariables _) body).mpr inner
  exact tells_recorded realizes
    (.aggregateWith collection elements inner yields)
    (by rw [infer]; rfl)
    (.bind ((infer_eq_ok_iff realizes source).mpr collection) tellsSource
      (.silentBind (aggregateElement_eq_ok_iff.mpr elements)
        (.bind (outcome_inScope_bindAll_eq_ok_iff.mpr ⟨apart, opened⟩)
          (.inScope apart tellsBody)
          (.bindSilent rfl (.emit _ _) rfl))))
    fun _ _ => notes_aggregateWith_iff realizes collection elements inner

theorem tells_infer_lookup {table : Located String} {keys : List Expr}
    {expected found : List Ty} {value : Ty}
    (known : environment.kind table.value (.lookup expected value))
    (each : HaveTypes environment keys found)
    (strict : environment.config.strictLookupKeys = true →
      List.Forall₂ environment.Accepts found expected)
    (tellsKeys : (context.inferAll keys).Tells (Expr.spansOfAll keys)
      fun span type =>
      ∃ key ∈ keys, Notes environment key span type) :
    (context.infer (.lookup span table keys)).Tells
      (Expr.lookup span table keys).spans
      (Notes environment (.lookup span table keys)) := by
  have stands := realizes.lookup?_eq_some_iff.mpr known
  refine tells_recorded realizes (.lookup known each strict)
    (by rw [infer, stands]; rfl)
    (.bindSilent ((inferAll_eq_ok_iff realizes keys).mpr each) tellsKeys ?_)
    fun _ _ => notes_lookup_iff
  -- The check of the keys notes nothing.
  split
  · exact trace_ofExcept_bind_pure _ _
  · rfl

end

mutual

/-- An inference notes the types of an expression and its parts. -/
theorem tells_infer {context : Context} {environment : Environment}
    (realizes : context.Realizes environment) :
    (expression : Expr) → {type : Ty} →
      HasType environment expression type →
      (context.infer expression).Tells expression.spans
        (Notes environment expression)
  | .literal _ _, _, typed =>
      tells_recorded realizes typed (by rw [infer]; rfl) (.silent rfl)
        fun _ _ => notes_literal_iff
  | .path _ _ segments, _, .path starts walks ends =>
      tells_infer_path realizes starts walks ends
        (tells_inferSegments realizes segments rfl walks)
  | .binary _ left _ right, _, .binary first second yields =>
      tells_infer_binary realizes first second yields
        (tells_infer realizes left first)
        (tells_infer realizes right second)
  | .unary _ _ operand, _, .unary inner yields =>
      tells_recorded realizes (.unary inner yields) (by rw [infer]; rfl)
        (.bindSilent ((infer_eq_ok_iff realizes operand).mpr inner)
          (tells_infer realizes operand inner) rfl)
        fun _ _ => notes_unary_iff
  | .conditional _ condition thenBranch elseBranch, _,
      .conditional decided first second joins =>
      tells_infer_conditional realizes decided first second joins
        (tells_infer realizes condition decided)
        (tells_infer realizes thenBranch first)
        (tells_infer realizes elseBranch second)
  | .matching _ subject arms, _, .matching inspected each joins =>
      tells_recorded realizes (.matching inspected each joins)
        (by rw [infer]; rfl)
        (.bind ((infer_eq_ok_iff realizes subject).mpr inspected)
          (tells_infer realizes subject inspected)
          (.bindSilent ((inferArms_eq_ok_iff realizes _ arms).mpr each)
            (tells_inferArms realizes arms each) rfl))
        fun _ _ => notes_matching_iff
  | .lambda _ _ body, _, .lambda distinct inner =>
      tells_infer_lambda realizes distinct inner
        (tells_infer (realizes.withVariables _) body inner)
  | .aggregate _ _ source, _, .aggregate collection elements yields =>
      tells_recorded realizes (.aggregate collection elements yields)
        (by rw [infer]; rfl)
        (.bindSilent ((infer_eq_ok_iff realizes source).mpr collection)
          (tells_infer realizes source collection)
          (trace_bind_of_ok _ (aggregateElement_eq_ok_iff.mpr elements)))
        fun _ _ => notes_aggregate_iff
  | .aggregateWith _ _ source _ _ body, _,
      .aggregateWith collection elements inner yields =>
      tells_infer_aggregateWith realizes collection elements inner yields
        (tells_infer realizes source collection)
        (tells_infer (realizes.withVariables _) body inner)
  | .lookup _ _ keys, _, .lookup known each strict =>
      tells_infer_lookup realizes known each strict
        (tells_inferAll realizes keys each)
termination_by structural expression => expression

theorem tells_inferSegments {context : Context} {environment : Environment}
    (realizes : context.Realizes environment) : (segments : List Segment) →
      {walk : Walk} → {start last : Ty} → {marked : Bool} → walk.type = start →
      Walks environment start segments last marked →
      (context.inferSegments walk segments).Tells (Segment.spansOfAll segments)
        fun span type => ∃ segmentSpan position optional,
          .index segmentSpan position optional ∈ segments ∧
            Notes environment position span type
  | [], _, _, _, _, _, _ => (Tells.silent rfl).congr (by simp)
  | .field _ _ _ :: rest, _, _, _, _, rfl, .field enters first further => by
      rw [← Walk.enters_iff.mp enters] at first
      rw [inferSegments]
      exact (Tells.silentBind ((realizes.fieldType_eq_ok_iff).mpr first)
        (tells_inferSegments realizes rest rfl further)).congr (by simp)
  | .index _ position _ :: rest, _, _, _, _, rfl,
      .index enters placed first further => by
      rw [← Walk.enters_iff.mp enters] at first
      rw [inferSegments]
      exact (Tells.bind ((infer_eq_ok_iff realizes position).mpr placed)
        (tells_infer realizes position placed)
        (.silentBind (elementType_eq_ok_iff.mpr first)
          (tells_inferSegments realizes rest rfl further))).congr
            (by simp [or_and_right, exists_or])
termination_by structural segments => segments

theorem tells_inferArms {context : Context} {environment : Environment}
    (realizes : context.Realizes environment) {subject : Ty} :
    (arms : List Arm) →
      {types : List Ty} → ArmsHaveTypes environment subject arms types →
      (context.inferArms subject arms).Tells (Arm.spansOfAll arms)
        fun span type =>
        ∃ armSpan pattern body, .mk armSpan pattern body ∈ arms ∧
          Notes environment body span type
  | [], _, _ => (Tells.silent rfl).congr (by simp)
  | .mk _ _ body :: rest, _, .cons fits first further => by
      rw [inferArms]
      exact (Tells.silentBind ((realizes.checkPattern_eq_ok_iff).mpr fits)
        (.bind ((infer_eq_ok_iff realizes body).mpr first)
          (tells_infer realizes body first)
          (.bindSilent ((inferArms_eq_ok_iff realizes subject rest).mpr further)
            (tells_inferArms realizes rest further) rfl))).congr
              (by simp [or_and_right, exists_or])
termination_by structural arms => arms

theorem tells_inferAll {context : Context} {environment : Environment}
    (realizes : context.Realizes environment) : (expressions : List Expr) →
      {types : List Ty} → HaveTypes environment expressions types →
      (context.inferAll expressions).Tells (Expr.spansOfAll expressions)
        fun span type =>
        ∃ expression ∈ expressions, Notes environment expression span type
  | [], _, _ => (Tells.silent rfl).congr (by simp)
  | expression :: rest, _, .cons first further => by
      rw [inferAll]
      exact (Tells.bind ((infer_eq_ok_iff realizes expression).mpr first)
        (tells_infer realizes expression first)
        (.bindSilent ((inferAll_eq_ok_iff realizes rest).mpr further)
          (tells_inferAll realizes rest further) rfl)).congr (by simp)
termination_by structural expressions => expressions

end

/--
Checking a rule that fits notes the types of its value and the parts of it.
-/
theorem tells_checkRule {context : Context} {environment : Environment}
    (realizes : context.Realizes environment) {target : Ty} {rule : Rule}
    (fits : rule.Fits environment target) :
    (context.checkRule target rule).Tells rule.value.spans
      (Notes environment rule.value) := by
  rcases fits with ⟨expected, found, leads, typed, accepted⟩
  refine .silentBind (realizes.walk_eq_ok_iff.mpr leads) ?_
  refine .bindSilent ((infer_eq_ok_iff realizes rule.value).mpr typed)
    (tells_infer realizes rule.value typed) ?_
  rw [if_pos (realizes.accepts_iff.mpr accepted)]
  rfl

end Context

end SchemaMap
