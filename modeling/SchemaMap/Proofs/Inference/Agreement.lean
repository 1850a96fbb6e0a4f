import SchemaMap.Proofs.Analysis.Transform
import SchemaMap.Proofs.Inference.Within
import SchemaMap.Proofs.Mentions

/-!
# Inference depends on the names that it meets

Inference asks a context for lookup tables by the names in an expression, and
for schemas and enumerations by the names in types that it has found.  Two
contexts that agree on all of these give the same inference, with the same trace
and the same fault (`Context.AgreesOn.infer`).
-/

namespace SchemaMap

/-- What follows an inference matters for what it finds. -/
theorem Inference.bind_congr {α β : Type} {inference other : Inference α}
    {next further : α → Inference β} (same : inference = other)
    (rest : ∀ value, inference.outcome = .ok value →
      next value = further value) :
    inference >>= next = other >>= further := by
  subst same
  cases found : inference.outcome with
  | ok value => simp only [bind, found, rest value found]
  | error fault => simp only [bind, found]

namespace Context

/-- Both contexts give the same, as far as relevant names are concerned. -/
structure AgreesOn (relevant : String → Prop) (context other : Context) :
    Prop extends context.SameReach other where
  kind : ∀ name, relevant name → context.kind name = other.kind name

namespace AgreesOn

variable {relevant : String → Prop} {units : PhysicalUnit → Prop}
  {context other : Context}

theorem withVariables (agrees : context.AgreesOn relevant other)
    (bound : List (String × Ty)) :
    (context.withVariables bound).AgreesOn relevant
      (other.withVariables bound) where
  toSameReach := agrees.toSameReach.withVariables bound
  kind := agrees.kind

theorem fieldType (agrees : context.AgreesOn relevant other) {base : Ty}
    (within : base.Within relevant units) (field : String) (span : Span) :
    context.fieldType base field span = other.fieldType base field span := by
  cases base with
  | schema name arguments parameters fields =>
      have isRelevant : relevant name := within _ .self
      simp only [Context.fieldType, Context.fields, agrees.kind name isRelevant]
  | _ => rfl

theorem walk (agrees : context.AgreesOn relevant other)
    (contextWithin : context.Within relevant units) {base : Ty}
    (within : base.Within relevant units) (fields : List (Located String)) :
    context.walk base fields = other.walk base fields := by
  induction fields generalizing base with
  | nil => rfl
  | cons field rest ih =>
      rw [Context.walk_cons, Context.walk_cons, ← agrees.fieldType within]
      cases found : context.fieldType base field.value field.span with
      | ok type => exact ih (contextWithin.throughout.fieldType within found)
      | error fault => rfl

theorem checkPattern (agrees : context.AgreesOn relevant other) {subject : Ty}
    (within : subject.Within relevant units) (pattern : Pattern) :
    context.checkPattern subject pattern =
      other.checkPattern subject pattern := by
  have present : subject.present.Within relevant units :=
    Ty.throughout_present within
  cases pattern with
  | variant span owner choice =>
      simp only [Context.checkPattern]
      cases known : subject.present with
      | enumeration name variants =>
          rw [known] at present
          have isRelevant : relevant name := present _ .self
          simp only [agrees.kind name isRelevant]
      | _ => rfl
  | _ => rfl

open Inference (bind_congr recorded inScope)

mutual

/-- An expression depends on the names in it and in the types of the context. -/
theorem infer (closed : PhysicalUnit.ClosedUnder units)
    {context other : Context} (agrees : context.AgreesOn relevant other)
    (within : context.Within relevant units) :
    (expression : Expr) → (∀ name ∈ expression.mentions, relevant name) →
      context.infer expression = other.infer expression
  | .literal _ _, _ => rfl
  | .path span root segments, mentioned => by
      refine congrArg (recorded span)
        (bind_congr (congrArg Inference.ofExcept (agrees.rootType root span))
          fun start found => ?_)
      have begun : Ty.Within relevant units ({ type := start } : Walk).type :=
        within.throughout.rootType closed.inferable found
      exact bind_congr (inferSegments closed agrees within begun segments
        mentioned) fun _ _ => rfl
  | .binary span left operator right, mentioned => by
      rw [Expr.mentions, List.forall_mem_append] at mentioned
      refine congrArg (recorded span)
        (bind_congr (infer closed agrees within left mentioned.1) fun _ _ => ?_)
      exact bind_congr (infer closed agrees within right mentioned.2) fun _ _ =>
        rfl
  | .unary span operator operand, mentioned =>
      congrArg (recorded span)
        (bind_congr (infer closed agrees within operand mentioned) fun _ _ =>
          rfl)
  | .conditional span condition thenBranch elseBranch, mentioned => by
      rw [Expr.mentions, List.forall_mem_append,
        List.forall_mem_append] at mentioned
      refine congrArg (recorded span)
        (bind_congr (infer closed agrees within condition mentioned.1)
          fun _ _ => ?_)
      refine bind_congr (infer closed agrees within thenBranch mentioned.2.1)
        fun _ _ => ?_
      exact bind_congr (infer closed agrees within elseBranch mentioned.2.2)
        fun _ _ => rfl
  | .matching span subject arms, mentioned => by
      rw [Expr.mentions, List.forall_mem_append] at mentioned
      refine congrArg (recorded span)
        (bind_congr (infer closed agrees within subject mentioned.1)
          fun type found => ?_)
      have subjectWithin :=
        (keeps_infer closed.inferable within.throughout subject).outcome type
          found
      exact bind_congr (inferArms closed agrees within subjectWithin arms
        mentioned.2) fun _ _ => rfl
  | .lambda span parameters body, mentioned => by
      have bound :
          ∀ entry ∈ (parameters.map fun parameter =>
            (parameter, Ty.unknown)).map fun entry =>
              (entry.1.value, entry.2), entry.2.Within relevant units := by
        rw [List.map_map, List.forall_mem_map]
        exact fun _ _ => Ty.within_unknown
      refine congrArg (recorded span)
        (bind_congr (congrArg inScope (bind_congr rfl fun _ _ => ?_)) fun _ _ =>
          rfl)
      exact infer closed (agrees.withVariables _) (within.withVariables bound)
        body mentioned
  | .aggregate span function source, mentioned =>
      congrArg (recorded span)
        (bind_congr (infer closed agrees within source mentioned) fun _ _ =>
          rfl)
  | .aggregateWith span function source lambdaSpan parameters body,
      mentioned => by
      rw [Expr.mentions, List.forall_mem_append] at mentioned
      refine congrArg (recorded span)
        (bind_congr (infer closed agrees within source mentioned.1)
          fun type found => ?_)
      refine bind_congr rfl fun element taken => ?_
      have sourceWithin :=
        (keeps_infer closed.inferable within.throughout source).outcome type
          found
      have elementWithin :=
        throughout_element (aggregateElement_eq_ok_iff.mp taken) sourceWithin
      match parameters with
      | [parameter] =>
          have bound : ∀ entry ∈ [(parameter.value, element)],
              entry.2.Within relevant units :=
            List.forall_mem_singleton.mpr elementWithin
          refine bind_congr (congrArg inScope (bind_congr rfl fun _ _ => ?_))
            fun _ _ => rfl
          exact infer closed (agrees.withVariables _)
            (within.withVariables bound) body mentioned.2
      | [] => rfl
      | _ :: _ :: _ => rfl
  | .lookup span table keys, mentioned => by
      rw [Expr.mentions, List.forall_mem_cons] at mentioned
      simp only [Context.infer, agrees.kind table.value mentioned.1,
        inferAll closed agrees within keys mentioned.2, agrees.config,
        agrees.checkLookup]
termination_by structural expression => expression

theorem inferSegments (closed : PhysicalUnit.ClosedUnder units)
    {context other : Context} (agrees : context.AgreesOn relevant other)
    (within : context.Within relevant units) {walk : Walk}
    (start : walk.type.Within relevant units) :
    (segments : List Segment) →
      (∀ name ∈ Segment.mentionsAll segments, relevant name) →
      context.inferSegments walk segments = other.inferSegments walk segments
  | [], _ => rfl
  | .field span name optional :: rest, mentioned => by
      have entered := throughout_enter start optional
      refine bind_congr (congrArg Inference.ofExcept
        (agrees.fieldType entered name span)) fun type found => ?_
      have next : Ty.Within relevant units
          ({ walk.enter optional with type := type } : Walk).type :=
        within.throughout.fieldType entered found
      exact inferSegments closed agrees within next rest mentioned
  | .index span position optional :: rest, mentioned => by
      rw [Segment.mentionsAll, List.forall_mem_append] at mentioned
      refine bind_congr (infer closed agrees within position mentioned.1)
        fun _ _ => bind_congr rfl fun type found => ?_
      have next : Ty.Within relevant units
          ({ walk.enter optional with type := type } : Walk).type :=
        throughout_element (elementType_eq_ok_iff.mp found)
          (throughout_enter start optional)
      exact inferSegments closed agrees within next rest mentioned.2
termination_by structural segments => segments

theorem inferArms (closed : PhysicalUnit.ClosedUnder units)
    {context other : Context} (agrees : context.AgreesOn relevant other)
    (within : context.Within relevant units) {subject : Ty}
    (subjectWithin : subject.Within relevant units) :
    (arms : List Arm) → (∀ name ∈ Arm.mentionsAll arms, relevant name) →
      context.inferArms subject arms = other.inferArms subject arms
  | [], _ => rfl
  | .mk span pattern body :: rest, mentioned => by
      rw [Arm.mentionsAll, List.forall_mem_append] at mentioned
      refine bind_congr (congrArg Inference.ofExcept
        (agrees.checkPattern subjectWithin pattern)) fun _ _ => ?_
      refine bind_congr (infer closed agrees within body mentioned.1) fun _ _ =>
        ?_
      exact bind_congr (inferArms closed agrees within subjectWithin rest
        mentioned.2) fun _ _ => rfl
termination_by structural arms => arms

theorem inferAll (closed : PhysicalUnit.ClosedUnder units)
    {context other : Context} (agrees : context.AgreesOn relevant other)
    (within : context.Within relevant units) :
    (expressions : List Expr) →
      (∀ name ∈ Expr.mentionsAll expressions, relevant name) →
      context.inferAll expressions = other.inferAll expressions
  | [], _ => rfl
  | expression :: rest, mentioned => by
      rw [Expr.mentionsAll, List.forall_mem_append] at mentioned
      refine bind_congr (infer closed agrees within expression mentioned.1)
        fun _ _ => ?_
      exact bind_congr (inferAll closed agrees within rest mentioned.2)
        fun _ _ => rfl
termination_by structural expressions => expressions

end

/-- Rules are checked alike against a relevant target. -/
theorem checkRule (closed : PhysicalUnit.ClosedUnder units)
    (agrees : context.AgreesOn relevant other)
    (within : context.Within relevant units) {target : Ty}
    (targetWithin : target.Within relevant units) {rule : Rule}
    (mentioned : ∀ name ∈ rule.value.mentions, relevant name) :
    context.checkRule target rule = other.checkRule target rule := by
  refine bind_congr (congrArg Inference.ofExcept
    (agrees.walk within targetWithin rule.target)) fun expected _ => ?_
  refine bind_congr (agrees.infer closed within rule.value mentioned)
    fun found _ => ?_
  rw [agrees.accepts]

/-- The faults of rules depend on the names in them. -/
theorem ruleFaults (closed : PhysicalUnit.ClosedUnder units)
    (agrees : context.AgreesOn relevant other)
    (within : context.Within relevant units) {target : Ty}
    (targetWithin : target.Within relevant units) {rules : List Rule}
    (mentioned : ∀ rule ∈ rules, ∀ name ∈ rule.value.mentions, relevant name)
    (assigned : List String) :
    context.ruleFaults target assigned rules =
      other.ruleFaults target assigned rules := by
  induction rules generalizing assigned with
  | nil => rfl
  | cons rule rest ih =>
      rw [List.forall_mem_cons] at mentioned
      simp only [Context.ruleFaults, ruleFault?,
        agrees.checkRule closed within targetWithin mentioned.1, ih mentioned.2]

/-- The faults of a pipeline depend on the names of its steps. -/
theorem stepFaults (agrees : context.AgreesOn relevant other)
    {steps : List (Located String)}
    (mentioned : ∀ step ∈ steps, relevant step.value)
    (previous : Option (String × Signature)) :
    context.stepFaults previous steps = other.stepFaults previous steps := by
  induction steps generalizing previous with
  | nil => rfl
  | cons step rest ih =>
      rw [List.forall_mem_cons] at mentioned
      simp only [Context.stepFaults, chainingFault?, agrees.accepts,
        agrees.config, agrees.kind step.value mentioned.1, ih mentioned.2]

end AgreesOn

end Context

/--
The rules of a transform are checked in contexts that agree where the declared
names do.
-/
theorem Analysis.agrees_bodyContext {relevant : String → Prop}
    {kind others : String → Option Kind} (config : Config)
    (declaration : TransformDeclaration) (signature : Signature)
    (same : ∀ name, relevant name → kind name = others name) :
    (bodyContext config kind declaration signature).AgreesOn relevant
      (bodyContext config others declaration signature) :=
  ⟨⟨rfl, rfl, rfl⟩, same⟩

end SchemaMap
