import SchemaMap.Proofs.Inference.Typing
import SchemaMap.Proofs.Ty.Throughout

/-!
# What inference keeps

Inference makes types out of those that its context has.  A property that does
not mind how types are put together, and that looking up a field keeps, holds
throughout every type that inference comes upon, that of the expression and
those on the way (`keeps_infer`), whether or not it ends in a fault.
-/

namespace SchemaMap

/-- The property holds of whatever inference makes up. -/
structure Ty.Inferable (good : Ty → Prop) :
    Prop extends Ty.Structural good where
  unknown : good .unknown
  multiply : ∀ left right unit, good (.quantity left) → good (.quantity right) →
    left.multiply? right = some unit →
    good (.quantity unit)
  divide : ∀ left right unit, good (.quantity left) → good (.quantity right) →
    left.divide? right = some unit →
    good (.quantity unit)

theorem Ty.Inferable.throughout_unknown {good : Ty → Prop}
    (inferable : Ty.Inferable good) :
    Ty.unknown.Throughout good :=
  Ty.throughout_of_children_eq_nil inferable.unknown rfl

section

variable (good : Ty → Prop)

/-- The types of an event have the property throughout. -/
def Event.Throughout : Event → Prop
  | .typed _ type => type.Throughout good
  | .bound _ type _ => type.Throughout good
  | .entered => True
  | .left => True

/--
The types that expressions get from a context have the property throughout.
-/
structure Context.Throughout (context : Context) : Prop where
  fields : ∀ name arguments parameters fields,
    (Ty.schema name arguments parameters fields).Throughout good →
    ∀ field ∈ context.fields name arguments, field.2.Throughout good
  lookups : ∀ name keys value, context.kind name = some (.lookup keys value) →
    value.Throughout good
  source : ∀ type, context.source = some type → type.Throughout good
  variableTypes : ∀ name type, context.variableType name = some type →
    type.Throughout good

/--
What is found is sound, and the types on the way have the property throughout.
-/
structure Inference.Keeps {α : Type} (sound : α → Prop)
    (inference : Inference α) : Prop where
  outcome : ∀ value, inference.outcome = .ok value → sound value
  trace : ∀ event ∈ inference.trace, event.Throughout good

end

section

variable {good : Ty → Prop} {α β : Type}

namespace Inference.Keeps

theorem pure {sound : α → Prop} {value : α} (isSound : sound value) :
    Keeps good sound (Pure.pure value : Inference α) :=
  ⟨by rintro _ ⟨⟩; exact isSound, List.forall_mem_nil _⟩

theorem ofExcept {sound : α → Prop} {outcome : Except Fault α}
    (isSound : ∀ value, outcome = .ok value → sound value) :
    Keeps good sound (Inference.ofExcept outcome) :=
  ⟨isSound, List.forall_mem_nil _⟩

theorem check (outcome : Except Fault α) :
    Keeps good (fun _ => True) (Inference.ofExcept outcome) :=
  .ofExcept fun _ _ => trivial

theorem fail {sound : α → Prop} (problem : Problem) (span : Span) :
    Keeps good sound (Inference.fail problem span) :=
  ⟨nofun, List.forall_mem_nil _⟩

theorem emit (event : Event) (within : event.Throughout good) :
    Keeps good (fun _ => True) (Inference.emit event) :=
  ⟨fun _ _ => trivial, List.forall_mem_singleton.mpr within⟩

theorem bind {sound : α → Prop} {final : β → Prop} {inference : Inference α}
    {next : α → Inference β} (first : Keeps good sound inference)
    (second : ∀ value, sound value → Keeps good final (next value)) :
    Keeps good final (inference >>= next) := by
  cases found : inference.outcome with
  | error fault =>
      refine ⟨?_, ?_⟩
      · intro value result
        rw [outcome_bind_eq_ok_iff, found] at result
        rcases result with ⟨_, ⟨⟩, _⟩
      · rw [trace_bind_of_error next found]
        exact first.trace
  | ok value =>
      have after := second value (first.outcome value found)
      refine ⟨?_, ?_⟩
      · intro result bound
        rw [outcome_bind_eq_ok_iff, found] at bound
        rcases bound with ⟨_, ⟨⟩, final⟩
        exact after.outcome result final
      · rw [trace_bind_of_ok next found, List.forall_mem_append]
        exact ⟨first.trace, after.trace⟩

theorem recorded {inference : Inference Ty}
    (kept : Keeps good (Ty.Throughout good) inference) (span : Span) :
    Keeps good (Ty.Throughout good) (Inference.recorded span inference) :=
  kept.bind fun type within =>
    (emit (.typed span type) within).bind fun _ _ => .pure within

theorem inScope {sound : α → Prop} {inference : Inference α}
    (kept : Keeps good sound inference) :
    Keeps good sound (Inference.inScope inference) := by
  refine ⟨kept.outcome, ?_⟩
  rw [Inference.inScope, List.cons_append, List.forall_mem_cons,
    List.forall_mem_append, List.forall_mem_singleton]
  exact ⟨trivial, kept.trace, trivial⟩

theorem bindAll {parameters : List (Located String × Ty)}
    (within : ∀ parameter ∈ parameters, parameter.2.Throughout good)
    (bound : List String) :
    Keeps good (fun _ => True) (Inference.bindAll bound parameters) := by
  induction parameters generalizing bound with
  | nil => exact .pure trivial
  | cons parameter rest ih =>
      rw [List.forall_mem_cons] at within
      rw [Inference.bindAll]
      split
      · exact .fail _ _
      · exact (emit (.bound parameter.1.value parameter.2 parameter.1.span)
          within.1).bind fun _ _ => ih within.2 _

end Inference.Keeps

namespace Context

variable {context : Context}

/-- The variables in a lambda are its parameters and the ones around it. -/
theorem forall_variableType_withVariables {holds : Ty → Prop}
    {bound : List (String × Ty)}
    (outer : ∀ name type, context.variableType name = some type → holds type)
    (each : ∀ entry ∈ bound, holds entry.2) :
    ∀ name type, (context.withVariables bound).variableType name = some type →
      holds type := by
  intro name type found
  simp only [Context.withVariables] at found
  cases local? : bound.lookup name with
  | none =>
      rw [local?] at found
      exact outer name type found
  | some inner =>
      rw [local?] at found
      cases found
      exact each _ (mem_of_lookup_eq_some local?)

theorem Throughout.withVariables (throughout : context.Throughout good)
    {bound : List (String × Ty)}
    (each : ∀ entry ∈ bound, entry.2.Throughout good) :
    (context.withVariables bound).Throughout good where
  fields := throughout.fields
  lookups := throughout.lookups
  source := throughout.source
  variableTypes :=
    forall_variableType_withVariables throughout.variableTypes each

theorem Throughout.fieldType (throughout : context.Throughout good) {base : Ty}
    (within : base.Throughout good) {field : String} {span : Span} {type : Ty}
    (found : context.fieldType base field span = .ok type) :
    type.Throughout good := by
  rw [Context.fieldType.eq_def] at found
  split at found
  · split at found
    · next known =>
        cases found
        exact throughout.fields _ _ _ _ within _ (mem_of_lookup_eq_some known)
    · contradiction
  · cases found
    exact within
  · contradiction

theorem Throughout.walk (throughout : context.Throughout good) {base : Ty}
    (within : base.Throughout good) {fields : List (Located String)} {type : Ty}
    (walked : context.walk base fields = .ok type) :
    type.Throughout good := by
  induction fields generalizing base with
  | nil =>
      cases walked
      exact within
  | cons field rest ih =>
      rw [Context.walk_cons, bind_eq_ok_iff] at walked
      rcases walked with ⟨next, first, further⟩
      exact ih (throughout.fieldType within first) further

theorem Throughout.rootType (inferable : Ty.Inferable good)
    (throughout : context.Throughout good) {root : PathRoot} {span : Span}
    {type : Ty} (found : context.rootType root span = .ok type) :
    type.Throughout good := by
  cases root with
  | source =>
      cases found
      cases source : context.source with
      | none => exact inferable.throughout_unknown
      | some type => exact throughout.source type source
  | named name =>
      rw [Context.rootType] at found
      split at found
      · next bound =>
          cases found
          exact throughout.variableTypes name type bound
      · contradiction

theorem throughout_element {base element : Ty} (has : base.HasElement element)
    (within : base.Throughout good) :
    element.Throughout good := by
  cases has with
  | array => exact within.child List.mem_cons_self
  | unknown => exact within

theorem throughout_array (structural : Ty.Structural good) {element : Ty}
    (within : element.Throughout good) :
    (Ty.array element).Throughout good :=
  Ty.throughout_iff.mpr
    ⟨structural.array element, List.forall_mem_singleton.mpr within⟩

theorem throughout_function (structural : Ty.Structural good)
    {parameters : List Ty} {result : Ty}
    (each : ∀ parameter ∈ parameters, parameter.Throughout good)
    (within : result.Throughout good) :
    (Ty.function parameters result).Throughout good := by
  refine Ty.throughout_iff.mpr ⟨structural.function parameters result, ?_⟩
  rw [Ty.children, List.forall_mem_append, List.forall_mem_singleton]
  exact ⟨each, within⟩

theorem throughout_primitive (structural : Ty.Structural good)
    (base : Primitive) :
    (Ty.primitive base).Throughout good :=
  Ty.throughout_of_children_eq_nil (structural.primitive base) rfl

theorem throughout_literalType (structural : Ty.Structural good)
    (value : Literal) :
    (literalType value).Throughout good := by
  cases value with
  | null => exact Ty.throughout_of_children_eq_nil structural.never rfl
  | _ => exact throughout_primitive structural _

theorem throughout_binaryType (inferable : Ty.Inferable good)
    {operator : Operator} {left right type : Ty}
    (yields : operator.Yields left right type)
    (leftWithin : left.Throughout good) (rightWithin : right.Throughout good) :
    type.Throughout good := by
  have quantity : ∀ unit, good (.quantity unit) →
      (Ty.quantity unit).Throughout good :=
    fun unit known => Ty.throughout_of_children_eq_nil known rfl
  cases yields with
  | product _ combined =>
      exact quantity _
        (inferable.multiply _ _ _ (leftWithin _ .self) (rightWithin _ .self)
          combined)
  | quotient _ combined =>
      exact quantity _
        (inferable.divide _ _ _ (leftWithin _ .self) (rightWithin _ .self)
          combined)
  | comparison => exact throughout_primitive inferable.toStructural .bool
  | logical => exact throughout_primitive inferable.toStructural .bool
  | coalescing => exact rightWithin
  | _ => exact leftWithin

theorem throughout_unaryType (structural : Ty.Structural good)
    (operator : UnaryOperator) {operand : Ty}
    (within : operand.Throughout good) :
    (unaryType operator operand).Throughout good := by
  cases operator with
  | not => exact throughout_primitive structural .bool
  | negate => exact within

theorem throughout_aggregateType (structural : Ty.Structural good)
    (function : Aggregate) {source body : Ty}
    (sourceWithin : source.Throughout good)
    (bodyWithin : body.Throughout good) :
    (aggregateType function source body).Throughout good := by
  rw [aggregateType]
  split
  · exact bodyWithin
  · exact throughout_array structural bodyWithin
  · exact sourceWithin
  · exact throughout_primitive structural .int

theorem throughout_enter {walk : Walk} (within : walk.type.Throughout good)
    (optional : Bool) :
    (walk.enter optional).type.Throughout good := by
  rw [Walk.enter]
  split
  · exact Ty.throughout_present within
  · exact within

theorem throughout_result (structural : Ty.Structural good) {walk : Walk}
    (within : walk.type.Throughout good) :
    walk.result.Throughout good := by
  rw [Walk.result]
  split
  · exact Ty.throughout_optionalOf structural within
  · exact within

/-- The elements of a good collection are good. -/
theorem keeps_aggregateElement (function : Aggregate) {source : Ty}
    (within : source.Throughout good) (span : Span) :
    Inference.Keeps good (Ty.Throughout good)
      (.ofExcept (aggregateElement function source span)) :=
  .ofExcept fun _ found =>
    throughout_element (aggregateElement_eq_ok_iff.mp found) within

mutual

/-- Inference comes upon no type without the property. -/
theorem keeps_infer (inferable : Ty.Inferable good) {context : Context}
    (throughout : context.Throughout good) :
    (expression : Expr) →
      Inference.Keeps good (Ty.Throughout good) (context.infer expression)
  | .literal _ value =>
      .recorded (.pure (throughout_literalType inferable.toStructural value)) _
  | .path _ root segments => by
      refine .recorded (.bind (.ofExcept fun _ => throughout.rootType inferable)
        fun _ start => ?_) _
      exact .bind (keeps_inferSegments inferable throughout start segments)
        fun _ walked => .pure (throughout_result inferable.toStructural walked)
  | .binary _ left _ right =>
      .recorded
        (.bind (keeps_infer inferable throughout left) fun _ leftWithin =>
          .bind (keeps_infer inferable throughout right) fun _ rightWithin =>
            .ofExcept fun _ found =>
              throughout_binaryType inferable (binaryType_eq_ok_iff.mp found)
                leftWithin rightWithin) _
  | .unary _ operator operand =>
      .recorded (.bind (keeps_infer inferable throughout operand) fun _ inner =>
        .pure (throughout_unaryType inferable.toStructural operator inner)) _
  | .conditional _ condition thenBranch elseBranch =>
      .recorded (.bind (keeps_infer inferable throughout condition) fun _ _ =>
        .bind (keeps_infer inferable throughout thenBranch) fun _ first =>
          .bind (keeps_infer inferable throughout elseBranch) fun _ second =>
            .pure (Ty.throughout_join inferable.toStructural first second)) _
  | .matching _ subject arms =>
      .recorded
        (.bind (keeps_infer inferable throughout subject) fun subjectType _ =>
          .bind (keeps_inferArms inferable throughout subjectType arms)
            fun _ each =>
              .pure (Ty.throughout_joinAll inferable.toStructural each)) _
  | .lambda _ parameters body => by
      have typed : ∀ entry ∈ parameters.map fun parameter =>
          (parameter, Ty.unknown), entry.2.Throughout good :=
        List.forall_mem_map.mpr fun _ _ => inferable.throughout_unknown
      refine .recorded (.bind (.inScope (.bind (.bindAll typed []) fun _ _ =>
        keeps_infer inferable (throughout.withVariables ?_) body))
        fun _ inner => .pure
          (throughout_function inferable.toStructural ?_ inner)) _
      · exact List.forall_mem_map.mpr typed
      · exact List.forall_mem_map.mpr typed
  | .aggregate _ function source => by
      refine .recorded (.bind (keeps_infer inferable throughout source)
        fun _ sourceWithin => ?_) _
      refine .bind (keeps_aggregateElement function sourceWithin _)
        fun _ element => .pure ?_
      exact throughout_aggregateType inferable.toStructural function
        sourceWithin element
  | .aggregateWith _ function source _ [parameter] body => by
      refine .recorded (.bind (keeps_infer inferable throughout source)
        fun _ sourceWithin => ?_) _
      refine .bind (keeps_aggregateElement function sourceWithin _)
        fun _ element => ?_
      refine .bind (.inScope (.bind
        (.bindAll (List.forall_mem_singleton.mpr element) []) fun _ _ =>
          keeps_infer inferable (throughout.withVariables
            (List.forall_mem_singleton.mpr element)) body)) fun _ inner => ?_
      refine .bind (.emit (.typed _ _) (throughout_function
        inferable.toStructural (List.forall_mem_singleton.mpr element) inner))
        fun _ _ => .pure ?_
      exact throughout_aggregateType inferable.toStructural function
        sourceWithin inner
  | .aggregateWith _ function source _ [] _ =>
      .recorded (.bind (keeps_infer inferable throughout source)
        fun _ sourceWithin =>
          .bind (keeps_aggregateElement function sourceWithin _)
            fun _ _ => .fail _ _) _
  | .aggregateWith _ function source _ (_ :: _ :: _) _ =>
      .recorded (.bind (keeps_infer inferable throughout source)
        fun _ sourceWithin =>
          .bind (keeps_aggregateElement function sourceWithin _)
            fun _ _ => .fail _ _) _
  | .lookup _ table keys => by
      refine .recorded ?_ _
      cases known : context.kind table.value with
      | none => exact .fail _ _
      | some kind =>
          cases kind with
          | lookup expected value =>
              have valueWithin := throughout.lookups _ _ _ known
              refine .bind (keeps_inferAll inferable throughout keys)
                fun found _ => ?_
              split
              · exact .bind (.check _) fun _ _ => .pure valueWithin
              · exact .pure valueWithin
          | _ => exact .fail _ _
termination_by structural expression => expression

/-- Segments lead from good types to good types. -/
theorem keeps_inferSegments (inferable : Ty.Inferable good) {context : Context}
    (throughout : context.Throughout good) {walk : Walk}
    (start : walk.type.Throughout good) :
    (segments : List Segment) →
      Inference.Keeps good (fun final : Walk => final.type.Throughout good)
        (context.inferSegments walk segments)
  | [] => .pure start
  | .field _ _ optional :: rest =>
      have entered := throughout_enter start optional
      .bind (.ofExcept fun _ => throughout.fieldType entered) fun _ next =>
        keeps_inferSegments inferable throughout next rest
  | .index _ position optional :: rest => by
      have entered := throughout_enter start optional
      refine .bind (keeps_infer inferable throughout position) fun _ _ => ?_
      refine .bind (.ofExcept fun _ found => ?_) fun _ next =>
        keeps_inferSegments inferable throughout next rest
      exact throughout_element (elementType_eq_ok_iff.mp found) entered
termination_by structural segments => segments

theorem keeps_inferArms (inferable : Ty.Inferable good) {context : Context}
    (throughout : context.Throughout good) (subject : Ty) :
    (arms : List Arm) →
      Inference.Keeps good
        (fun types : List Ty => ∀ type ∈ types, type.Throughout good)
        (context.inferArms subject arms)
  | [] => .pure (List.forall_mem_nil _)
  | .mk _ _ body :: rest =>
      .bind (.check _) fun _ _ =>
        .bind (keeps_infer inferable throughout body) fun _ first =>
          .bind (keeps_inferArms inferable throughout subject rest)
            fun _ others =>
              .pure (List.forall_mem_cons.mpr ⟨first, others⟩)
termination_by structural arms => arms

theorem keeps_inferAll (inferable : Ty.Inferable good) {context : Context}
    (throughout : context.Throughout good) :
    (expressions : List Expr) →
      Inference.Keeps good
        (fun types : List Ty => ∀ type ∈ types, type.Throughout good)
        (context.inferAll expressions)
  | [] => .pure (List.forall_mem_nil _)
  | expression :: rest =>
      .bind (keeps_infer inferable throughout expression) fun _ first =>
        .bind (keeps_inferAll inferable throughout rest) fun _ others =>
          .pure (List.forall_mem_cons.mpr ⟨first, others⟩)
termination_by structural expressions => expressions

end

/-- Rules tell good types only. -/
theorem keeps_checkRule (inferable : Ty.Inferable good)
    (throughout : context.Throughout good) (target : Ty) (rule : Rule) :
    Inference.Keeps good (fun _ => True) (context.checkRule target rule) := by
  refine .bind (.check _) fun expected _ =>
    .bind (keeps_infer inferable throughout rule.value) fun found _ => ?_
  split
  · exact .pure trivial
  · exact .fail _ _

end Context

end

end SchemaMap
