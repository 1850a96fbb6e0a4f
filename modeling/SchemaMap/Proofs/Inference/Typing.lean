import SchemaMap.Proofs.Inference.Judgement
import SchemaMap.Proofs.Inference.Trace
import SchemaMap.Proofs.Prelude

/-!
# Inference finds the types of expressions

The main theorem, `infer_eq_ok_iff`, says that inference finds exactly the types
that the rules of typing give.  A context stands for an environment when it
holds what the environment says (`Realizes`).
-/

namespace SchemaMap

/-! ## Outcomes of inference -/

namespace Inference

variable {α β : Type}

/-- A sequence succeeds exactly when each step does. -/
theorem outcome_bind_eq_ok_iff {inference : Inference α}
    {next : α → Inference β} {result : β} :
    (inference >>= next).outcome = .ok result ↔
      ∃ value, inference.outcome = .ok value ∧
        (next value).outcome = .ok result := by
  cases found : inference.outcome <;> simp [bind, found]

@[simp]
theorem outcome_ofExcept (outcome : Except Fault α) :
    (ofExcept outcome).outcome = outcome := rfl

@[simp]
theorem outcome_fail (problem : Problem) (span : Span) :
    (fail problem span : Inference α).outcome = .error ⟨problem, span⟩ := rfl

@[simp]
theorem outcome_emit (event : Event) : (emit event).outcome = .ok () := rfl

@[simp]
theorem outcome_inScope (inference : Inference α) :
    (inScope inference).outcome = inference.outcome := rfl

@[simp]
theorem outcome_recorded (span : Span) (inference : Inference Ty) :
    (recorded span inference).outcome = inference.outcome := by
  cases found : inference.outcome <;> simp [recorded, bind, found]

/-- Parameters are bound exactly when their names are distinct and free. -/
theorem outcome_bindAll_eq_ok_iff {bound : List String}
    {parameters : List (Located String × Ty)} {result : Unit} :
    (bindAll bound parameters).outcome = .ok result ↔
      (parameters.map fun parameter => parameter.1.value).Nodup ∧
        ∀ parameter ∈ parameters, parameter.1.value ∉ bound := by
  induction parameters generalizing bound with
  | nil => simp [bindAll]
  | cons parameter rest ih =>
      rcases parameter with ⟨located, type⟩
      rw [bindAll]
      split
      · next taken => simp [taken]
      · next free =>
          rw [outcome_bind_eq_ok_iff]
          simp only [outcome_emit, true_and, exists_const, ih, List.map_cons,
            List.nodup_cons, List.mem_cons, not_or, List.mem_map, not_exists,
            not_and]
          grind

/-- A scope finds what its body finds, provided its parameters are distinct. -/
theorem outcome_inScope_bindAll_eq_ok_iff
    {parameters : List (Located String × Ty)} {body : Inference α}
    {result : α} :
    (inScope (bindAll [] parameters >>= fun _ => body)).outcome = .ok result ↔
      (parameters.map fun parameter => parameter.1.value).Nodup ∧
        body.outcome = .ok result := by
  simp [outcome_bind_eq_ok_iff, outcome_bindAll_eq_ok_iff]

end Inference

/-! ## What inference finds -/

theorem Walk.eq_of_walks_nil {environment : Environment} {walk result : Walk}
    {marked : Bool} (walks : Walks environment walk.type [] result.type marked)
    (chained : result.chained = (walk.chained || marked)) : walk = result := by
  rcases walk with ⟨type, entered⟩
  rcases result with ⟨last, final⟩
  cases walks
  simp_all

namespace Context

/-- The context holds what the environment says. -/
structure Realizes (context : Context) (environment : Environment) : Prop where
  config : context.config = environment.config
  kind : ∀ name kind, context.kind name = some kind ↔ environment.kind name kind
  source : context.source = some environment.source
  scope : ∀ name, context.variableType name = environment.scope.lookup name

/-- The fields that a handle shows have their parameters replaced. -/
theorem lookup_fieldsAt_eq_some_iff {schema : Schema} {arguments : List Ty}
    {field : String} {type : Ty} :
    (schema.fieldsAt arguments).lookup field = some type ↔
      ∃ written, schema.fields.lookup field = some written ∧
        written.substitute (.ofList (schema.parameters.zip arguments)) =
          type := by
  have seen : schema.fieldsAt arguments =
      schema.fields.map
        (Prod.map id (Ty.substitute (schema.bindings arguments))) := rfl
  rw [seen, lookup_map_snd, Option.map_eq_some_iff]
  rfl

namespace Realizes

variable {context : Context} {environment : Environment}

theorem withVariables (realizes : context.Realizes environment)
    (bound : List (String × Ty)) :
    (context.withVariables bound).Realizes (environment.bind bound) where
  config := realizes.config
  kind := realizes.kind
  source := realizes.source
  scope := by
    intro name
    simp only [Context.withVariables, Environment.bind, List.lookup_append,
      realizes.scope, Option.or_eq_orElse]

theorem accepts_iff (realizes : context.Realizes environment)
    {found expected : Ty} :
    context.accepts found expected = true ↔
      environment.Accepts found expected := by
  rw [Context.accepts, Environment.Accepts, realizes.config]

theorem fieldType_eq_ok_iff (realizes : context.Realizes environment)
    {base type : Ty} {field : String} {span : Span} :
    context.fieldType base field span = .ok type ↔
      environment.HasField base field type := by
  constructor
  · intro found
    unfold fieldType at found
    split at found
    · split at found
      · next known =>
          cases found
          unfold fields at known
          split at known
          · next stands =>
              rcases lookup_fieldsAt_eq_some_iff.mp known with
                ⟨written, found, rfl⟩
              exact .schema ((realizes.kind _ _).mp stands) found
          · contradiction
      · contradiction
    · cases found
      exact .unknown
    · contradiction
  · intro has
    cases has with
    | @schema _ _ arguments _ _ _ _ written known found =>
        have seen :=
          (@lookup_fieldsAt_eq_some_iff _ arguments _ _).mpr
            ⟨written, found, rfl⟩
        simp only [fieldType, fields, (realizes.kind _ _).mpr known, seen]
    | unknown => rfl

theorem walk_eq_ok_iff (realizes : context.Realizes environment)
    {base type : Ty} {names : List (Located String)} :
    context.walk base names = .ok type ↔ environment.Leads base names type := by
  induction names generalizing base with
  | nil =>
      rw [Context.walk]
      constructor
      · rintro ⟨⟩
        exact .here
      · rintro ⟨⟩
        rfl
  | cons field rest ih =>
      simp only [walk_cons, bind_eq_ok_iff, realizes.fieldType_eq_ok_iff, ih]
      constructor
      · rintro ⟨next, first, further⟩
        exact .step first further
      · rintro (_ | ⟨first, further⟩)
        exact ⟨_, first, further⟩

theorem rootType_eq_ok_iff (realizes : context.Realizes environment)
    {root : PathRoot} {type : Ty} {span : Span} :
    context.rootType root span = .ok type ↔ environment.HasRoot root type := by
  cases root with
  | source =>
      simp only [rootType, realizes.source, Option.getD_some]
      constructor
      · rintro ⟨⟩
        exact .source
      · rintro ⟨⟩
        rfl
  | named name =>
      simp only [rootType, realizes.scope]
      constructor
      · intro found
        split at found
        · next bound =>
            cases found
            exact .named bound
        · contradiction
      · rintro (_ | bound)
        simp only [bound]

theorem variants_contains_iff (realizes : context.Realizes environment)
    {name choice : String} :
    (((context.kind name).bind Kind.variants?).getD []).contains choice = true ↔
      ∃ variants, environment.kind name (.enumeration variants) ∧
        choice ∈ variants := by
  simp only [← realizes.kind]
  cases context.kind name with
  | none => simp
  | some kind => cases kind <;> simp [Kind.variants?]

/-- A pattern fits by rule exactly when its check passes. -/
theorem checkPattern_eq_ok_iff (realizes : context.Realizes environment)
    {subject : Ty} {pattern : Pattern} :
    context.checkPattern subject pattern = .ok () ↔
      environment.Fits subject pattern := by
  cases pattern with
  | wildcard span => exact ⟨fun _ => .wildcard, fun _ => rfl⟩
  | literal span value => exact ⟨fun _ => .literal, fun _ => rfl⟩
  | variant span owner choice =>
      simp only [checkPattern]
      constructor
      · intro checked
        split at checked
        · next enumeration =>
            split at checked
            · contradiction
            · next own =>
                split at checked
                · next contained =>
                    rcases realizes.variants_contains_iff.mp contained with
                      ⟨variants, known, member⟩
                    apply Environment.Fits.variant
                      (Ty.enters_true_iff.mpr enumeration) _ known member
                    rintro written rfl
                    simpa using own
                · contradiction
        · next unknown => exact .unknown (Ty.enters_true_iff.mpr unknown)
        · contradiction
      · intro fits
        cases fits with
        | @variant _ _ name _ _ _ enumeration own known member =>
            rw [Ty.enters_true_iff] at enumeration
            have contained :=
              realizes.variants_contains_iff.mpr ⟨_, known, member⟩
            have ours : owner.filter (fun written => written != name) =
                none := by
              cases owner with
              | none => rfl
              | some written => simp [own written rfl]
            simp only [enumeration, ours, contained, if_true]
        | unknown unknown => simp only [Ty.enters_true_iff.mp unknown]

theorem checkKeys_eq_ok_iff (realizes : context.Realizes environment)
    {table : String} {expected found : List Ty} {spans : List Span}
    {result : Unit} (lengths : found.length = expected.length)
    (spanLengths : spans.length = found.length) :
    context.checkKeys table (found.zip (expected.zip spans)) = .ok result ↔
      List.Forall₂ environment.Accepts found expected := by
  induction found generalizing expected spans with
  | nil =>
      rw [List.length_nil, eq_comm, List.length_eq_zero_iff] at lengths
      simp [lengths, checkKeys]
  | cons type rest ih =>
      cases expected with
      | nil => simp at lengths
      | cons other others =>
          cases spans with
          | nil => simp at spanLengths
          | cons span spans =>
              rw [List.forall₂_cons,
                ← ih (by simpa using lengths) (by simpa using spanLengths),
                ← realizes.accepts_iff]
              simp only [List.zip_cons_cons, checkKeys]
              split <;> simp_all

/-- The keys of a look-up pass exactly when each is accepted. -/
theorem checkLookup_eq_ok_iff (realizes : context.Realizes environment)
    {table : Located String} {expected found : List Ty} {spans : List Span}
    {result : Unit} (sameLength : spans.length = found.length) :
    context.checkLookup table expected found spans = .ok result ↔
      List.Forall₂ environment.Accepts found expected := by
  unfold checkLookup
  split
  · next lengths => exact realizes.checkKeys_eq_ok_iff lengths sameLength
  · next lengths =>
      constructor
      · intro checked
        contradiction
      · intro each
        exact absurd each.length_eq lengths

theorem lookup?_eq_some_iff (realizes : context.Realizes environment)
    {name : String} {keys : List Ty} {value : Ty} :
    (context.kind name).bind Kind.lookup? = some (keys, value) ↔
      environment.kind name (.lookup keys value) := by
  rw [← realizes.kind]
  cases context.kind name with
  | none => simp
  | some kind => cases kind <;> simp [Kind.lookup?]

/-- The keys of a lookup count only where they are to be checked. -/
theorem outcome_lookup_eq_ok_iff (realizes : context.Realizes environment)
    {table : Located String} {expected found : List Ty} {value type : Ty}
    {spans : List Span} (sameLength : spans.length = found.length) :
    (if context.config.strictLookupKeys = true then
        Inference.ofExcept (context.checkLookup table expected found spans) >>=
          fun _ => pure value
      else
        pure value : Inference Ty).outcome = .ok type ↔
      (environment.config.strictLookupKeys = true →
        List.Forall₂ environment.Accepts found expected) ∧
        value = type := by
  rw [realizes.config]
  split
  · next strict =>
      simp [Inference.outcome_bind_eq_ok_iff,
        realizes.checkLookup_eq_ok_iff sameLength, strict]
  · next lax => simp [lax]

end Realizes

mutual

/-- Inference finds exactly the types that expressions have. -/
theorem infer_eq_ok_iff {context : Context} {environment : Environment}
    (realizes : context.Realizes environment) :
    (expression : Expr) → {type : Ty} →
      ((context.infer expression).outcome = .ok type ↔
        HasType environment expression type)
  | .literal span value, type => by
      rw [infer, Inference.outcome_recorded]
      constructor
      · intro found
        exact .literal (literalType_eq_iff.mp (Except.ok.inj found))
      · intro typed
        cases typed with
        | literal constant =>
            exact congrArg Except.ok (literalType_eq_iff.mpr constant)
  | .path span root segments, type => by
      rw [infer, Inference.outcome_recorded]
      simp only [Inference.outcome_bind_eq_ok_iff, Inference.outcome_ofExcept,
        Inference.outcome_pure, realizes.rootType_eq_ok_iff,
        inferSegments_eq_ok_iff realizes segments]
      constructor
      · rintro ⟨start, starts, walk, ⟨marked, walks, chained⟩, found⟩
        rw [Bool.false_or] at chained
        subst chained
        exact .path starts walks (Walk.ends_iff.mpr (Except.ok.inj found))
      · intro typed
        cases typed with
        | @path _ _ _ _ start last _ marked starts walks ends =>
            refine ⟨start, starts, { type := last, chained := marked },
              ⟨marked, walks, rfl⟩, ?_⟩
            exact congrArg Except.ok (Walk.ends_iff.mp ends)
  | .binary span left operator right, type => by
      rw [infer, Inference.outcome_recorded]
      simp only [Inference.outcome_bind_eq_ok_iff, Inference.outcome_ofExcept,
        infer_eq_ok_iff realizes left, infer_eq_ok_iff realizes right,
        binaryType_eq_ok_iff]
      constructor
      · rintro ⟨leftType, first, rightType, second, yields⟩
        exact .binary first second yields
      · rintro ⟨⟩
        exact ⟨_, by assumption, _, by assumption, by assumption⟩
  | .unary span operator operand, type => by
      rw [infer, Inference.outcome_recorded]
      simp only [Inference.outcome_bind_eq_ok_iff, Inference.outcome_pure,
        infer_eq_ok_iff realizes operand]
      constructor
      · rintro ⟨operandType, inner, found⟩
        exact .unary inner (unaryType_eq_iff.mp (Except.ok.inj found))
      · intro typed
        cases typed with
        | unary inner yields =>
            exact ⟨_, inner, congrArg Except.ok (unaryType_eq_iff.mpr yields)⟩
  | .conditional span condition thenBranch elseBranch, type => by
      rw [infer, Inference.outcome_recorded]
      simp only [Inference.outcome_bind_eq_ok_iff, Inference.outcome_pure,
        infer_eq_ok_iff realizes condition, infer_eq_ok_iff realizes thenBranch,
        infer_eq_ok_iff realizes elseBranch]
      constructor
      · rintro ⟨conditionType, decided, thenType, first, elseType, second,
          found⟩
        exact .conditional decided first second
          (Ty.joins_iff.mpr (Except.ok.inj found))
      · intro typed
        cases typed with
        | conditional decided first second joins =>
            exact ⟨_, decided, _, first, _, second,
              congrArg Except.ok (Ty.joins_iff.mp joins)⟩
  | .matching span subject arms, type => by
      rw [infer, Inference.outcome_recorded]
      simp only [Inference.outcome_bind_eq_ok_iff, Inference.outcome_pure,
        infer_eq_ok_iff realizes subject, inferArms_eq_ok_iff realizes _ arms]
      constructor
      · rintro ⟨subjectType, inspected, types, each, found⟩
        exact .matching inspected each
          (Ty.joinsAll_iff.mpr (Except.ok.inj found))
      · intro typed
        cases typed with
        | matching inspected each joins =>
            exact ⟨_, inspected, _, each,
              congrArg Except.ok (Ty.joinsAll_iff.mp joins)⟩
  | .lambda span parameters body, type => by
      rw [infer, Inference.outcome_recorded]
      simp only [Inference.outcome_bind_eq_ok_iff,
        Inference.outcome_inScope_bindAll_eq_ok_iff, Inference.outcome_pure,
        infer_eq_ok_iff (realizes.withVariables _) body, List.map_map]
      constructor
      · rintro ⟨bodyType, ⟨distinct, inner⟩, ⟨⟩⟩
        exact .lambda distinct inner
      · rintro ⟨⟩
        exact ⟨_, ⟨by assumption, by assumption⟩, rfl⟩
  | .aggregate span function source, type => by
      rw [infer, Inference.outcome_recorded]
      simp only [Inference.outcome_bind_eq_ok_iff, Inference.outcome_ofExcept,
        Inference.outcome_pure, infer_eq_ok_iff realizes source,
        aggregateElement_eq_ok_iff]
      constructor
      · rintro ⟨sourceType, collection, element, elements, found⟩
        exact .aggregate collection elements
          (aggregateType_eq_iff.mp (Except.ok.inj found))
      · intro typed
        cases typed with
        | aggregate collection elements yields =>
            exact ⟨_, collection, _, elements,
              congrArg Except.ok (aggregateType_eq_iff.mpr yields)⟩
  | .aggregateWith span function source lambdaSpan parameters body, type => by
      rw [infer, Inference.outcome_recorded]
      simp only [Inference.outcome_bind_eq_ok_iff, Inference.outcome_ofExcept,
        infer_eq_ok_iff realizes source, aggregateElement_eq_ok_iff]
      constructor
      · rintro ⟨sourceType, collection, element, elements, found⟩
        split at found
        · next parameter =>
            simp only [Inference.outcome_bind_eq_ok_iff,
              Inference.outcome_inScope_bindAll_eq_ok_iff,
              Inference.outcome_emit, Inference.outcome_pure, exists_const,
              true_and,
              infer_eq_ok_iff (realizes.withVariables _) body] at found
            rcases found with ⟨bodyType, ⟨-, inner⟩, found⟩
            exact .aggregateWith collection elements inner
              (aggregateType_eq_iff.mp (Except.ok.inj found))
        · contradiction
      · intro typed
        cases typed with
        | aggregateWith collection elements inner yields =>
            refine ⟨_, collection, _, elements, ?_⟩
            simp only [Inference.outcome_bind_eq_ok_iff,
              Inference.outcome_inScope_bindAll_eq_ok_iff,
              Inference.outcome_emit, Inference.outcome_pure, exists_const,
              true_and, infer_eq_ok_iff (realizes.withVariables _) body]
            exact ⟨_, ⟨by simp, inner⟩,
              congrArg Except.ok (aggregateType_eq_iff.mpr yields)⟩
  | .lookup span table keys, type => by
      rw [infer, Inference.outcome_recorded]
      cases stands : (context.kind table.value).bind Kind.lookup? with
      | none =>
          constructor
          · intro found
            contradiction
          · intro typed
            cases typed with
            | lookup known =>
                rw [realizes.lookup?_eq_some_iff.mpr known] at stands
                contradiction
      | some entry =>
          rcases entry with ⟨expected, value⟩
          have known := realizes.lookup?_eq_some_iff.mp stands
          simp only [Inference.outcome_bind_eq_ok_iff,
            inferAll_eq_ok_iff realizes keys]
          constructor
          · rintro ⟨found, each, outcome⟩
            rw [realizes.outcome_lookup_eq_ok_iff
              (by rw [List.length_map, each.length_eq])] at outcome
            rcases outcome with ⟨strict, rfl⟩
            exact .lookup known each strict
          · intro typed
            cases typed with
            | lookup known' each strict =>
                cases Option.some.inj
                  (stands.symm.trans (realizes.lookup?_eq_some_iff.mpr known'))
                refine ⟨_, each, ?_⟩
                rw [realizes.outcome_lookup_eq_ok_iff
                  (by rw [List.length_map, each.length_eq])]
                exact ⟨strict, rfl⟩
termination_by structural expression => expression

/-- Segments lead by rule to the type that is inferred. -/
theorem inferSegments_eq_ok_iff {context : Context} {environment : Environment}
    (realizes : context.Realizes environment) :
    (segments : List Segment) → {walk result : Walk} →
      ((context.inferSegments walk segments).outcome = .ok result ↔
        ∃ marked, Walks environment walk.type segments result.type marked ∧
          result.chained = (walk.chained || marked))
  | [], walk, result => by
      rw [inferSegments]
      constructor
      · rintro ⟨⟩
        exact ⟨false, .here, by simp⟩
      · rintro ⟨marked, walks, chained⟩
        exact congrArg Except.ok (Walk.eq_of_walks_nil walks chained)
  | .field span name optional :: rest, walk, result => by
      rw [inferSegments]
      simp only [Inference.outcome_bind_eq_ok_iff, Inference.outcome_ofExcept,
        realizes.fieldType_eq_ok_iff, inferSegments_eq_ok_iff realizes rest,
        Walk.chained_enter]
      constructor
      · rintro ⟨type, first, marked, further, chained⟩
        refine ⟨optional || marked,
          .field (Walk.enters_iff.mpr rfl) first further, ?_⟩
        rw [chained, Bool.or_comm optional, Bool.or_assoc]
      · rintro ⟨marked, walks, chained⟩
        cases walks with
        | @field _ _ _ type _ _ _ _ marked _ enters first further =>
            rw [← Walk.enters_iff.mp enters] at first
            refine ⟨type, first, marked, further, ?_⟩
            rw [chained, Bool.or_comm optional walk.chained, Bool.or_assoc]
  | .index span position optional :: rest, walk, result => by
      rw [inferSegments]
      simp only [Inference.outcome_bind_eq_ok_iff, Inference.outcome_ofExcept,
        infer_eq_ok_iff realizes position, elementType_eq_ok_iff,
        inferSegments_eq_ok_iff realizes rest, Walk.chained_enter]
      constructor
      · rintro ⟨positionType, placed, type, first, marked, further, chained⟩
        refine ⟨optional || marked,
          .index (Walk.enters_iff.mpr rfl) placed first further, ?_⟩
        rw [chained, Bool.or_comm optional, Bool.or_assoc]
      · rintro ⟨marked, walks, chained⟩
        cases walks with
        |
            @index _ _ _ positionType type _ _ _ _ marked _ enters placed first
              further =>
            rw [← Walk.enters_iff.mp enters] at first
            refine ⟨positionType, placed, type, first, marked, further, ?_⟩
            rw [chained, Bool.or_comm optional walk.chained, Bool.or_assoc]
termination_by structural segments => segments

theorem inferArms_eq_ok_iff {context : Context} {environment : Environment}
    (realizes : context.Realizes environment) (subject : Ty) :
    (arms : List Arm) → {types : List Ty} →
      ((context.inferArms subject arms).outcome = .ok types ↔
        ArmsHaveTypes environment subject arms types)
  | [], types => by
      rw [inferArms]
      constructor
      · rintro ⟨⟩
        exact .nil
      · rintro ⟨⟩
        rfl
  | .mk span pattern body :: rest, types => by
      rw [inferArms]
      simp only [Inference.outcome_bind_eq_ok_iff, Inference.outcome_ofExcept,
        Inference.outcome_pure, exists_const, realizes.checkPattern_eq_ok_iff,
        infer_eq_ok_iff realizes body,
        inferArms_eq_ok_iff realizes subject rest]
      constructor
      · rintro ⟨fits, type, first, others, further, ⟨⟩⟩
        exact .cons fits first further
      · rintro ⟨⟩
        exact ⟨by assumption, _, by assumption, _, by assumption, rfl⟩
termination_by structural arms => arms

/-- Expressions have by rule the types that are inferred. -/
theorem inferAll_eq_ok_iff {context : Context} {environment : Environment}
    (realizes : context.Realizes environment) :
    (expressions : List Expr) → {types : List Ty} →
      ((context.inferAll expressions).outcome = .ok types ↔
        HaveTypes environment expressions types)
  | [], types => by
      rw [inferAll]
      constructor
      · rintro ⟨⟩
        exact .nil
      · rintro ⟨⟩
        rfl
  | expression :: rest, types => by
      rw [inferAll]
      simp only [Inference.outcome_bind_eq_ok_iff, Inference.outcome_pure,
        infer_eq_ok_iff realizes expression, inferAll_eq_ok_iff realizes rest]
      constructor
      · rintro ⟨type, first, others, further, ⟨⟩⟩
        exact .cons first further
      · rintro ⟨⟩
        exact ⟨_, by assumption, _, by assumption, rfl⟩
termination_by structural expressions => expressions

end

/-- A rule is checked without a fault exactly when it fits. -/
theorem checkRule_eq_ok_iff {context : Context} {environment : Environment}
    (realizes : context.Realizes environment) {target : Ty} {rule : Rule} :
    (context.checkRule target rule).outcome = .ok () ↔
      rule.Fits environment target := by
  simp only [checkRule, Inference.outcome_bind_eq_ok_iff,
    Inference.outcome_ofExcept, realizes.walk_eq_ok_iff,
    infer_eq_ok_iff realizes, Rule.Fits, ← realizes.accepts_iff]
  constructor
  · rintro ⟨expected, leads, found, typed, outcome⟩
    split at outcome
    · next accepted => exact ⟨expected, found, leads, typed, accepted⟩
    · contradiction
  · rintro ⟨expected, found, leads, typed, accepted⟩
    exact ⟨expected, leads, found, typed, by simp [accepted]⟩

end Context

end SchemaMap
