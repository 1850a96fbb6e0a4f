import SchemaMap.Proofs.Inference.Session
import SchemaMap.Proofs.Inference.Typing

/-!
# The names of parameters

What a parameter of a lambda is called does not matter.  Renaming it, together
with the variables in the body that it binds, changes neither the type nor the
fault of the expression around it, provided that the new name is not taken in
the lambda (`infer_of_renamesParameter`).  It does not matter what else the old
or the new name stands for outside.

The proof has two parts.  An expression with renamed variables is inferred alike
in a context that gives the renamed variables the types of the old ones
(`Context.Renames.akin_infer`), and expressions that differ in one part are
inferred alike if the two parts are (`Context.akin_infer_of_differsBy`).
-/

namespace SchemaMap

/-! ## Renaming variables -/

/-- The name of the variable at the start of a path. -/
def PathRoot.name? : PathRoot → Option String
  | .source => none
  | .named name => some name

def PathRoot.renamed (rename : String → String) : PathRoot → PathRoot
  | .source => .source
  | .named name => .named (rename name)

/-- A renaming where some names are bound anew: these stay. -/
def shadowed (rename : String → String) (bound : List String) (name : String) :
    String :=
  if name ∈ bound then name else rename name

mutual

/--
The names of variables in an expression: those that paths start with, and the
parameters of lambdas.
-/
def Expr.variableNames : Expr → List String
  | .literal _ _ => []
  | .path _ root segments =>
      root.name?.toList ++ Segment.variableNamesAll segments
  | .binary _ left _ right => left.variableNames ++ right.variableNames
  | .unary _ _ operand => operand.variableNames
  | .conditional _ condition thenBranch elseBranch =>
      condition.variableNames ++
        (thenBranch.variableNames ++ elseBranch.variableNames)
  | .matching _ subject arms =>
      subject.variableNames ++ Arm.variableNamesAll arms
  | .lambda _ parameters body =>
      parameters.map Located.value ++ body.variableNames
  | .aggregate _ _ source => source.variableNames
  | .aggregateWith _ _ source _ parameters body =>
      source.variableNames ++
        (parameters.map Located.value ++ body.variableNames)
  | .lookup _ _ keys => Expr.variableNamesAll keys
termination_by structural expression => expression

def Segment.variableNamesAll : List Segment → List String
  | [] => []
  | .field _ _ _ :: rest => Segment.variableNamesAll rest
  | .index _ position _ :: rest =>
      position.variableNames ++ Segment.variableNamesAll rest
termination_by structural segments => segments

def Arm.variableNamesAll : List Arm → List String
  | [] => []
  | .mk _ _ body :: rest => body.variableNames ++ Arm.variableNamesAll rest
termination_by structural arms => arms

def Expr.variableNamesAll : List Expr → List String
  | [] => []
  | expression :: rest => expression.variableNames ++ Expr.variableNamesAll rest
termination_by structural expressions => expressions

end

mutual

/--
The expression with its variables renamed, except for those that lambdas inside
it bind.
-/
def Expr.renamed : Expr → (String → String) → Expr
  | .literal span value, _ => .literal span value
  | .path span root segments, rename =>
      .path span (root.renamed rename) (Segment.renamedAll segments rename)
  | .binary span left operator right, rename =>
      .binary span (left.renamed rename) operator (right.renamed rename)
  | .unary span operator operand, rename =>
      .unary span operator (operand.renamed rename)
  | .conditional span condition thenBranch elseBranch, rename =>
      .conditional span (condition.renamed rename) (thenBranch.renamed rename)
        (elseBranch.renamed rename)
  | .matching span subject arms, rename =>
      .matching span (subject.renamed rename) (Arm.renamedAll arms rename)
  | .lambda span parameters body, rename =>
      .lambda span parameters
        (body.renamed (shadowed rename (parameters.map Located.value)))
  | .aggregate span function source, rename =>
      .aggregate span function (source.renamed rename)
  | .aggregateWith span function source lambdaSpan parameters body, rename =>
      .aggregateWith span function (source.renamed rename) lambdaSpan parameters
        (body.renamed (shadowed rename (parameters.map Located.value)))
  | .lookup span table keys, rename =>
      .lookup span table (Expr.renamedAll keys rename)
termination_by structural expression => expression

def Segment.renamedAll : List Segment → (String → String) → List Segment
  | [], _ => []
  | .field span name optional :: rest, rename =>
      .field span name optional :: Segment.renamedAll rest rename
  | .index span position optional :: rest, rename =>
      .index span (position.renamed rename) optional ::
        Segment.renamedAll rest rename
termination_by structural segments => segments

def Arm.renamedAll : List Arm → (String → String) → List Arm
  | [], _ => []
  | .mk span pattern body :: rest, rename =>
      .mk span pattern (body.renamed rename) :: Arm.renamedAll rest rename
termination_by structural arms => arms

def Expr.renamedAll : List Expr → (String → String) → List Expr
  | [], _ => []
  | expression :: rest, rename =>
      expression.renamed rename :: Expr.renamedAll rest rename
termination_by structural expressions => expressions

end

theorem Expr.span_renamed (expression : Expr) (rename : String → String) :
    (expression.renamed rename).span = expression.span := by
  cases expression <;> rfl

theorem Expr.map_span_renamedAll (expressions : List Expr)
    (rename : String → String) :
    (Expr.renamedAll expressions rename).map Expr.span =
      expressions.map Expr.span := by
  induction expressions with
  | nil => rfl
  | cons expression rest ih => simp [Expr.renamedAll, Expr.span_renamed, ih]

/-! ## Inferences that differ in names -/

/-- What an event says apart from the name that it binds. -/
def Event.nameless : Event → Event
  | .bound _ type span => .bound "" type span
  | event => event

namespace Inference

variable {α β : Type}

/--
Both end alike, and leave the same behind but for the names of parameters.
-/
structure Akin (inference other : Inference α) : Prop where
  outcome : other.outcome = inference.outcome
  trace : other.trace.map Event.nameless = inference.trace.map Event.nameless

namespace Akin

theorem refl (inference : Inference α) : Akin inference inference :=
  ⟨rfl, rfl⟩

/-- Inferences that are akin step by step are akin. -/
theorem bind {inference other : Inference α} {next further : α → Inference β}
    (first : Akin inference other)
    (second : ∀ value, Akin (next value) (further value)) :
    Akin (inference >>= next) (other >>= further) := by
  cases found : inference.outcome with
  | error fault =>
      have failed := first.outcome.trans found
      constructor
      · exact (outcome_bind_of_error further failed).trans
          (outcome_bind_of_error next found).symm
      · simpa only [trace_bind_of_error further failed,
          trace_bind_of_error next found] using first.trace
  | ok value =>
      have succeeded := first.outcome.trans found
      constructor
      · rw [outcome_bind_of_ok further succeeded, outcome_bind_of_ok next found]
        exact (second value).outcome
      · simp only [trace_bind_of_ok further succeeded,
          trace_bind_of_ok next found, List.map_append, first.trace,
          (second value).trace]

theorem recorded {inference other : Inference Ty} (span : Span)
    (akin : Akin inference other) :
    Akin (Inference.recorded span inference) (Inference.recorded span other) :=
  akin.bind fun _ => refl _

theorem inScope {inference other : Inference α} (akin : Akin inference other) :
    Akin (Inference.inScope inference) (Inference.inScope other) where
  outcome := akin.outcome
  trace := by
    simp only [Inference.inScope, List.map_append, List.map_cons, akin.trace]

end Akin

end Inference

/-! ## Contexts with renamed variables -/

namespace Context

/--
The second context gives to renamed variables the types that the first one gives
to them.  Only variables in reach change their names, and only to the new one.
-/
structure Renames (rename : String → String) (new : String)
    (context other : Context) : Prop where
  config : other.config = context.config
  kind : other.kind = context.kind
  source : other.source = context.source
  variableType : ∀ name, name ≠ new →
    other.variableType (rename name) = context.variableType name
  moves : ∀ name, rename name = name ∨
    rename name = new ∧ (context.variableType name).isSome

/-- A variable has the innermost type that is bound to its name. -/
theorem variableType_withVariables (context : Context)
    (bound : List (String × Ty)) (name : String) :
    (context.withVariables bound).variableType name =
      (bound.lookup name).or (context.variableType name) := by
  rw [withVariables, Option.or_eq_orElse]

theorem names_unknown (parameters : List (Located String)) :
    ((parameters.map fun parameter => (parameter, Ty.unknown)).map
      fun parameter => parameter.1.value) =
      parameters.map Located.value := by
  rw [List.map_map]
  rfl

namespace Renames

variable {rename : String → String} {new : String} {context other : Context}

theorem accepts (renames : Renames rename new context other)
    (found expected : Ty) :
    other.accepts found expected = context.accepts found expected := by
  simp only [Context.accepts, renames.config]

theorem fieldType (renames : Renames rename new context other) (base : Ty)
    (field : String) (span : Span) :
    other.fieldType base field span = context.fieldType base field span := by
  simp only [Context.fieldType, Context.fields, renames.kind]

theorem checkPattern (renames : Renames rename new context other) (subject : Ty)
    (pattern : Pattern) :
    other.checkPattern subject pattern =
      context.checkPattern subject pattern := by
  simp only [Context.checkPattern, renames.kind]

theorem checkLookup (renames : Renames rename new context other)
    (table : Located String) (expected found : List Ty) (spans : List Span) :
    other.checkLookup table expected found spans =
      context.checkLookup table expected found spans := by
  have keys : ∀ entries,
      other.checkKeys table.value entries =
        context.checkKeys table.value entries := by
    intro entries
    induction entries with
    | nil => rfl
    | cons entry rest ih => simp only [Context.checkKeys, renames.accepts, ih]
  simp only [Context.checkLookup, keys]

/--
A path starts with the same type, or with the same fault: a name that changes is
that of a variable in reach.
-/
theorem rootType (renames : Renames rename new context other) {root : PathRoot}
    (absent : new ∉ root.name?.toList) (span : Span) :
    other.rootType (root.renamed rename) span = context.rootType root span := by
  cases root with
  | source => simp only [PathRoot.renamed, Context.rootType, renames.source]
  | named name =>
      have apart : name ≠ new := by
        rintro rfl
        exact absent List.mem_cons_self
      have same := renames.variableType name apart
      rcases renames.moves name with stays | ⟨-, bound⟩
      · rw [stays] at same
        simp only [PathRoot.renamed, stays, Context.rootType, same]
      · rcases Option.isSome_iff_exists.mp bound with ⟨type, known⟩
        simp only [PathRoot.renamed, Context.rootType, same, known]

/--
Inside a lambda the names of its parameters stay, which hide whatever has the
same names outside.
-/
theorem withVariables (renames : Renames rename new context other)
    {bound : List (String × Ty)} (absent : new ∉ bound.map Prod.fst) :
    Renames (shadowed rename (bound.map Prod.fst)) new
      (context.withVariables bound) (other.withVariables bound) where
  config := renames.config
  kind := renames.kind
  source := renames.source
  variableType := by
    intro name apart
    simp only [variableType_withVariables]
    by_cases isBound : name ∈ bound.map Prod.fst
    · rcases Option.isSome_iff_exists.mp (lookup_isSome_iff.mpr isBound) with
        ⟨type, found⟩
      simp only [shadowed, isBound, if_true, found, Option.some_or]
    · have outside : rename name ∉ bound.map Prod.fst := by
        rcases renames.moves name with stays | ⟨moved, -⟩
        · rwa [stays]
        · rwa [moved]
      have unfound : ∀ {name}, name ∉ bound.map Prod.fst →
          bound.lookup name = none := by
        intro name free
        exact Option.not_isSome_iff_eq_none.mp (mt lookup_isSome_iff.mp free)
      simp only [shadowed, isBound, if_false, unfound isBound, unfound outside,
        Option.none_or]
      exact renames.variableType name apart
  moves := by
    intro name
    by_cases isBound : name ∈ bound.map Prod.fst
    · exact .inl (if_pos isBound)
    · rcases renames.moves name with stays | ⟨moved, known⟩
      · exact .inl ((if_neg isBound).trans stays)
      · refine .inr ⟨(if_neg isBound).trans moved, ?_⟩
        simp [variableType_withVariables, known]

/-- The same, for parameters with their types. -/
theorem withParameters (renames : Renames rename new context other)
    (parameters : List (Located String × Ty))
    (absent : new ∉ parameters.map fun parameter => parameter.1.value) :
    Renames
      (shadowed rename (parameters.map fun parameter => parameter.1.value)) new
      (context.withVariables
        (parameters.map fun parameter => (parameter.1.value, parameter.2)))
      (other.withVariables (parameters.map fun parameter =>
        (parameter.1.value, parameter.2))) := by
  have names : (parameters.map fun parameter =>
      (parameter.1.value, parameter.2)).map Prod.fst =
      parameters.map fun parameter => parameter.1.value := by
    rw [List.map_map]
    rfl
  rw [← names] at absent ⊢
  exact renames.withVariables absent

open Inference (Akin)

mutual

/--
An expression with renamed variables is inferred as the expression itself is
where they have their old names.
-/
theorem akin_infer :
    (expression : Expr) → {rename : String → String} →
    {context other : Context} →
    Renames rename new context other → new ∉ expression.variableNames →
    Akin (context.infer expression) (other.infer (expression.renamed rename))
  | .literal _ _, _, _, _, _, _ => .refl _
  | .path span root segments, _, _, _, renames, absent => by
      rw [Expr.variableNames, List.mem_append, not_or] at absent
      simp only [Expr.renamed, infer, renames.rootType absent.1]
      refine .recorded span ((Akin.refl _).bind fun start => ?_)
      exact (akin_inferSegments segments renames absent.2).bind fun _ => .refl _
  | .binary span left operator right, _, _, _, renames, absent => by
      rw [Expr.variableNames, List.mem_append, not_or] at absent
      simp only [Expr.renamed, infer]
      refine .recorded span
        ((akin_infer left renames absent.1).bind fun _ => ?_)
      exact (akin_infer right renames absent.2).bind fun _ => .refl _
  | .unary span operator operand, _, _, _, renames, absent => by
      simp only [Expr.renamed, infer]
      exact .recorded span
        ((akin_infer operand renames absent).bind fun _ => .refl _)
  | .conditional span condition thenBranch elseBranch, _, _, _, renames,
      absent => by
      rw [Expr.variableNames, List.mem_append, List.mem_append, not_or,
        not_or] at absent
      simp only [Expr.renamed, infer]
      refine .recorded span
        ((akin_infer condition renames absent.1).bind fun _ => ?_)
      refine (akin_infer thenBranch renames absent.2.1).bind fun _ => ?_
      exact (akin_infer elseBranch renames absent.2.2).bind fun _ => .refl _
  | .matching span subject arms, _, _, _, renames, absent => by
      rw [Expr.variableNames, List.mem_append, not_or] at absent
      simp only [Expr.renamed, infer]
      refine .recorded span
        ((akin_infer subject renames absent.1).bind fun subjectType => ?_)
      exact (akin_inferArms arms renames absent.2).bind fun _ => .refl _
  | .lambda span parameters body, _, _, _, renames, absent => by
      rw [Expr.variableNames, List.mem_append, not_or] at absent
      have inside :=
        renames.withParameters
          (parameters.map fun parameter => (parameter, Ty.unknown))
          (by simpa using absent.1)
      rw [names_unknown] at inside
      simp only [Expr.renamed, infer]
      refine .recorded span
        (.bind (.inScope ((Akin.refl _).bind fun _ => ?_)) fun _ => .refl _)
      exact akin_infer body inside absent.2
  | .aggregate span function source, _, _, _, renames, absent => by
      simp only [Expr.renamed, infer, Expr.span_renamed]
      exact .recorded span
        ((akin_infer source renames absent).bind fun _ => .refl _)
  | .aggregateWith span function source lambdaSpan parameters body, _, _, _,
      renames, absent => by
      rw [Expr.variableNames, List.mem_append, List.mem_append, not_or,
        not_or] at absent
      simp only [Expr.renamed, infer, Expr.span_renamed]
      refine .recorded span
        ((akin_infer source renames absent.1).bind fun _ =>
          (Akin.refl _).bind fun element => ?_)
      match parameters with
      | [parameter] =>
          have inside :=
            renames.withParameters [(parameter, element)] absent.2.1
          refine .bind (.inScope ((Akin.refl _).bind fun _ => ?_)) fun _ =>
            .refl _
          exact akin_infer body inside absent.2.2
      | [] => exact .refl _
      | _ :: _ :: _ => exact .refl _
  | .lookup span table keys, _, context, other, renames, absent => by
      have sameTable : (other.kind table.value).bind Kind.lookup? =
          (context.kind table.value).bind Kind.lookup? := by
        rw [renames.kind]
      simp only [Expr.renamed, infer, sameTable, renames.config,
        renames.checkLookup, Expr.map_span_renamedAll]
      refine .recorded span ?_
      split
      · exact .refl _
      · exact (akin_inferAll keys renames absent).bind fun _ => .refl _
termination_by structural expression => expression

theorem akin_inferSegments :
    (segments : List Segment) → {rename : String → String} →
    {context other : Context} →
    {walk : Walk} → Renames rename new context other →
    new ∉ Segment.variableNamesAll segments →
    Akin (context.inferSegments walk segments)
      (other.inferSegments walk (Segment.renamedAll segments rename))
  | [], _, _, _, _, _, _ => .refl _
  | .field span name optional :: rest, _, _, _, _, renames, absent => by
      simp only [Segment.renamedAll, inferSegments, renames.fieldType]
      exact (Akin.refl _).bind fun _ => akin_inferSegments rest renames absent
  | .index span position optional :: rest, _, _, _, _, renames, absent => by
      rw [Segment.variableNamesAll, List.mem_append, not_or] at absent
      simp only [Segment.renamedAll, inferSegments]
      refine (akin_infer position renames absent.1).bind fun _ =>
        (Akin.refl _).bind fun _ => ?_
      exact akin_inferSegments rest renames absent.2
termination_by structural segments => segments

theorem akin_inferArms :
    (arms : List Arm) → {rename : String → String} → {context other : Context} →
    {subject : Ty} → Renames rename new context other →
    new ∉ Arm.variableNamesAll arms →
    Akin (context.inferArms subject arms)
      (other.inferArms subject (Arm.renamedAll arms rename))
  | [], _, _, _, _, _, _ => .refl _
  | .mk span pattern body :: rest, _, _, _, _, renames, absent => by
      rw [Arm.variableNamesAll, List.mem_append, not_or] at absent
      simp only [Arm.renamedAll, inferArms, renames.checkPattern]
      refine (Akin.refl _).bind fun _ =>
        (akin_infer body renames absent.1).bind fun _ => ?_
      exact (akin_inferArms rest renames absent.2).bind fun _ => .refl _
termination_by structural arms => arms

theorem akin_inferAll :
    (expressions : List Expr) → {rename : String → String} →
    {context other : Context} →
    Renames rename new context other → new ∉ Expr.variableNamesAll expressions →
    Akin (context.inferAll expressions)
      (other.inferAll (Expr.renamedAll expressions rename))
  | [], _, _, _, _, _ => .refl _
  | expression :: rest, _, _, _, renames, absent => by
      rw [Expr.variableNamesAll, List.mem_append, not_or] at absent
      simp only [Expr.renamedAll, inferAll]
      refine (akin_infer expression renames absent.1).bind fun _ => ?_
      exact (akin_inferAll rest renames absent.2).bind fun _ => .refl _
termination_by structural expressions => expressions

end

end Renames

end Context

/-! ## Expressions that differ in one part -/

section

variable (step : Expr → Expr → Prop)

mutual

/--
Two expressions are the same but for one part, at which the step leads from the
first to the second.
-/
inductive Expr.DiffersBy : Expr → Expr → Prop where
  | here {first second : Expr} (stepped : step first second) :
      Expr.DiffersBy first second
  | path {span : Span} {root : PathRoot} {segments others : List Segment}
      (inside : Segment.DifferBy segments others) :
      Expr.DiffersBy (.path span root segments) (.path span root others)
  | left {span : Span} {operator : Operator} {left other right : Expr}
      (inside : Expr.DiffersBy left other) :
      Expr.DiffersBy (.binary span left operator right)
        (.binary span other operator right)
  | right {span : Span} {operator : Operator} {left right other : Expr}
      (inside : Expr.DiffersBy right other) :
      Expr.DiffersBy (.binary span left operator right)
        (.binary span left operator other)
  | unary {span : Span} {operator : UnaryOperator} {operand other : Expr}
      (inside : Expr.DiffersBy operand other) :
      Expr.DiffersBy (.unary span operator operand) (.unary span operator other)
  | condition {span : Span} {condition other thenBranch elseBranch : Expr}
      (inside : Expr.DiffersBy condition other) :
      Expr.DiffersBy (.conditional span condition thenBranch elseBranch)
        (.conditional span other thenBranch elseBranch)
  | thenBranch {span : Span} {condition thenBranch other elseBranch : Expr}
      (inside : Expr.DiffersBy thenBranch other) :
      Expr.DiffersBy (.conditional span condition thenBranch elseBranch)
        (.conditional span condition other elseBranch)
  | elseBranch {span : Span} {condition thenBranch elseBranch other : Expr}
      (inside : Expr.DiffersBy elseBranch other) :
      Expr.DiffersBy (.conditional span condition thenBranch elseBranch)
        (.conditional span condition thenBranch other)
  | subject {span : Span} {subject other : Expr} {arms : List Arm}
      (inside : Expr.DiffersBy subject other) :
      Expr.DiffersBy (.matching span subject arms) (.matching span other arms)
  | arms {span : Span} {subject : Expr} {arms others : List Arm}
      (inside : Arm.DifferBy arms others) :
      Expr.DiffersBy (.matching span subject arms)
        (.matching span subject others)
  | lambda {span : Span} {parameters : List (Located String)}
      {body other : Expr} (inside : Expr.DiffersBy body other) :
      Expr.DiffersBy (.lambda span parameters body)
        (.lambda span parameters other)
  | aggregate {span : Span} {function : Aggregate} {source other : Expr}
      (inside : Expr.DiffersBy source other) :
      Expr.DiffersBy (.aggregate span function source)
        (.aggregate span function other)
  | aggregateSource {span lambdaSpan : Span} {function : Aggregate}
      {source other body : Expr} {parameters : List (Located String)}
      (inside : Expr.DiffersBy source other) :
      Expr.DiffersBy
        (.aggregateWith span function source lambdaSpan parameters body)
        (.aggregateWith span function other lambdaSpan parameters body)
  | aggregateBody {span lambdaSpan : Span} {function : Aggregate}
      {source body other : Expr} {parameters : List (Located String)}
      (inside : Expr.DiffersBy body other) :
      Expr.DiffersBy
        (.aggregateWith span function source lambdaSpan parameters body)
        (.aggregateWith span function source lambdaSpan parameters other)
  | lookup {span : Span} {table : Located String} {keys others : List Expr}
      (inside : Expr.DifferBy keys others) :
      Expr.DiffersBy (.lookup span table keys) (.lookup span table others)

inductive Segment.DifferBy : List Segment → List Segment → Prop where
  | index {span : Span} {optional : Bool} {position other : Expr}
      {rest : List Segment} (inside : Expr.DiffersBy position other) :
      Segment.DifferBy (.index span position optional :: rest)
        (.index span other optional :: rest)
  | later {segment : Segment} {rest others : List Segment}
      (inside : Segment.DifferBy rest others) :
      Segment.DifferBy (segment :: rest) (segment :: others)

inductive Arm.DifferBy : List Arm → List Arm → Prop where
  | body {span : Span} {pattern : Pattern} {body other : Expr} {rest : List Arm}
      (inside : Expr.DiffersBy body other) :
      Arm.DifferBy (.mk span pattern body :: rest)
        (.mk span pattern other :: rest)
  | later {arm : Arm} {rest others : List Arm}
      (inside : Arm.DifferBy rest others) :
      Arm.DifferBy (arm :: rest) (arm :: others)

inductive Expr.DifferBy : List Expr → List Expr → Prop where
  | first {expression other : Expr} {rest : List Expr}
      (inside : Expr.DiffersBy expression other) :
      Expr.DifferBy (expression :: rest) (other :: rest)
  | later {expression : Expr} {rest others : List Expr}
      (inside : Expr.DifferBy rest others) :
      Expr.DifferBy (expression :: rest) (expression :: others)

end

end

open Inference (Akin)

/--
Steps between expressions that cannot be told apart from outside: they keep the
span, and what is inferred.
-/
structure Expr.Unseen (step : Expr → Expr → Prop) : Prop where
  span : ∀ {first second}, step first second → second.span = first.span
  infer : ∀ {first second}, step first second → ∀ context : Context,
    Akin (context.infer first) (context.infer second)

variable {step : Expr → Expr → Prop}

theorem Expr.DiffersBy.span_eq (unseen : Expr.Unseen step) {first second : Expr}
    (differs : Expr.DiffersBy step first second) :
    second.span = first.span := by
  cases differs with
  | here stepped => exact unseen.span stepped
  | _ => rfl

theorem Expr.DifferBy.map_span_eq (unseen : Expr.Unseen step)
    {first second : List Expr} (differ : Expr.DifferBy step first second) :
    second.map Expr.span = first.map Expr.span := by
  induction first generalizing second with
  | nil => cases differ
  | cons expression rest ih =>
      cases differ with
      | first inside => simp only [List.map_cons, inside.span_eq unseen]
      | later inside => simp only [List.map_cons, ih inside]

namespace Context

mutual

/-- Expressions that differ in one part are inferred alike if the parts are. -/
theorem akin_infer_of_differsBy (unseen : Expr.Unseen step) :
    (expression : Expr) → {other : Expr} → (context : Context) →
    Expr.DiffersBy step expression other →
    Akin (context.infer expression) (context.infer other)
  | first, second, context, .here stepped => unseen.infer stepped context
  | .path span root segments, _, context, .path inside => by
      simp only [infer]
      refine .recorded span ((Akin.refl _).bind fun start => ?_)
      exact (akin_inferSegments_of_differBy unseen segments context inside).bind
        fun _ => .refl _
  | .binary span left operator right, _, context, .left inside => by
      simp only [infer]
      exact .recorded span
        ((akin_infer_of_differsBy unseen left context inside).bind fun _ =>
          .refl _)
  | .binary span left operator right, _, context, .right inside => by
      simp only [infer]
      refine .recorded span ((Akin.refl _).bind fun _ => ?_)
      exact (akin_infer_of_differsBy unseen right context inside).bind fun _ =>
        .refl _
  | .unary span operator operand, _, context, .unary inside => by
      simp only [infer]
      exact .recorded span
        ((akin_infer_of_differsBy unseen operand context inside).bind fun _ =>
          .refl _)
  | .conditional span condition thenBranch elseBranch, _, context,
      .condition inside => by
      simp only [infer]
      exact .recorded span
        ((akin_infer_of_differsBy unseen condition context inside).bind fun _ =>
          .refl _)
  | .conditional span condition thenBranch elseBranch, _, context,
      .thenBranch inside => by
      simp only [infer]
      refine .recorded span ((Akin.refl _).bind fun _ => ?_)
      exact (akin_infer_of_differsBy unseen thenBranch context inside).bind
        fun _ => .refl _
  | .conditional span condition thenBranch elseBranch, _, context,
      .elseBranch inside => by
      simp only [infer]
      refine .recorded span
        ((Akin.refl _).bind fun _ => (Akin.refl _).bind fun _ => ?_)
      exact (akin_infer_of_differsBy unseen elseBranch context inside).bind
        fun _ => .refl _
  | .matching span subject arms, _, context, .subject inside => by
      simp only [infer]
      exact .recorded span
        ((akin_infer_of_differsBy unseen subject context inside).bind fun _ =>
          .refl _)
  | .matching span subject arms, _, context, .arms inside => by
      simp only [infer]
      refine .recorded span ((Akin.refl _).bind fun _ => ?_)
      exact (akin_inferArms_of_differBy unseen arms context inside).bind
        fun _ => .refl _
  | .lambda span parameters body, _, context, .lambda inside => by
      simp only [infer]
      refine .recorded span
        (.bind (.inScope ((Akin.refl _).bind fun _ => ?_)) fun _ => .refl _)
      exact akin_infer_of_differsBy unseen body _ inside
  | .aggregate span function source, _, context, .aggregate inside => by
      simp only [infer, inside.span_eq unseen]
      exact .recorded span
        ((akin_infer_of_differsBy unseen source context inside).bind fun _ =>
          .refl _)
  | .aggregateWith span function source lambdaSpan parameters body, _, context,
      .aggregateSource inside => by
      simp only [infer, inside.span_eq unseen]
      exact .recorded span
        ((akin_infer_of_differsBy unseen source context inside).bind fun _ =>
          .refl _)
  | .aggregateWith span function source lambdaSpan parameters body, _, context,
      .aggregateBody inside => by
      simp only [infer]
      refine .recorded span
        ((Akin.refl _).bind fun _ => (Akin.refl _).bind fun element => ?_)
      match parameters with
      | [parameter] =>
          refine .bind (.inScope ((Akin.refl _).bind fun _ => ?_)) fun _ =>
            .refl _
          exact akin_infer_of_differsBy unseen body _ inside
      | [] => exact .refl _
      | _ :: _ :: _ => exact .refl _
  | .lookup span table keys, _, context, .lookup inside => by
      simp only [infer, inside.map_span_eq unseen]
      refine .recorded span ?_
      split
      · exact .refl _
      · exact (akin_inferAll_of_differBy unseen keys context inside).bind
          fun _ => .refl _
termination_by structural expression => expression

/-- Segments that differ by unseen steps are inferred alike. -/
theorem akin_inferSegments_of_differBy (unseen : Expr.Unseen step) :
    (segments : List Segment) → {others : List Segment} → (context : Context) →
    {walk : Walk} → Segment.DifferBy step segments others →
    Akin (context.inferSegments walk segments)
      (context.inferSegments walk others)
  | .index span position optional :: rest, _, context, _, .index inside => by
      simp only [inferSegments]
      exact (akin_infer_of_differsBy unseen position context inside).bind
        fun _ => .refl _
  | .index span position optional :: rest, _, context, _, .later inside => by
      simp only [inferSegments]
      refine (Akin.refl _).bind fun _ => (Akin.refl _).bind fun _ => ?_
      exact akin_inferSegments_of_differBy unseen rest context inside
  | .field span name optional :: rest, _, context, _, .later inside => by
      simp only [inferSegments]
      exact (Akin.refl _).bind fun _ =>
        akin_inferSegments_of_differBy unseen rest context inside
termination_by structural segments => segments

theorem akin_inferArms_of_differBy (unseen : Expr.Unseen step) :
    (arms : List Arm) → {others : List Arm} → (context : Context) →
    {subject : Ty} → Arm.DifferBy step arms others →
    Akin (context.inferArms subject arms) (context.inferArms subject others)
  | .mk span pattern body :: rest, _, context, _, .body inside => by
      simp only [inferArms]
      refine (Akin.refl _).bind fun _ => ?_
      exact (akin_infer_of_differsBy unseen body context inside).bind fun _ =>
        .refl _
  | .mk span pattern body :: rest, _, context, _, .later inside => by
      simp only [inferArms]
      refine (Akin.refl _).bind fun _ => (Akin.refl _).bind fun _ => ?_
      exact (akin_inferArms_of_differBy unseen rest context inside).bind
        fun _ => .refl _
termination_by structural arms => arms

theorem akin_inferAll_of_differBy (unseen : Expr.Unseen step) :
    (expressions : List Expr) → {others : List Expr} → (context : Context) →
    Expr.DifferBy step expressions others →
    Akin (context.inferAll expressions) (context.inferAll others)
  | expression :: rest, _, context, .first inside => by
      simp only [inferAll]
      exact (akin_infer_of_differsBy unseen expression context inside).bind
        fun _ => .refl _
  | expression :: rest, _, context, .later inside => by
      simp only [inferAll]
      refine (Akin.refl _).bind fun _ => ?_
      exact (akin_inferAll_of_differBy unseen rest context inside).bind fun _ =>
        .refl _
termination_by structural expressions => expressions

end

end Context

/-! ## Renaming a parameter -/

/-- The renaming of one name into another. -/
def replaceName (old new name : String) : String :=
  if name = old then new else name

/-- Replacing a name by a new one confuses no two names. -/
theorem replaceName_inj {old new first second : String}
    (firstApart : first ≠ old → first ≠ new)
    (secondApart : second ≠ old → second ≠ new) :
    replaceName old new first = replaceName old new second ↔
      first = second := by
  unfold replaceName
  split <;> split <;> grind

/--
One of the parameters of a lambda may be renamed.  The parameters are distinct,
the new name is none of the others, and it does not occur in the body.
-/
structure Renamable (old new : String) (names : List String) (body : Expr) :
    Prop where
  distinct : names.Nodup
  isParameter : old ∈ names
  apart : ∀ name ∈ names, name ≠ old → name ≠ new
  absent : new ∉ body.variableNames

def Located.replaced (old new : String) (parameter : Located String) :
    Located String :=
  { parameter with value := replaceName old new parameter.value }

/--
A lambda, alone or in an aggregate, and the same one with a parameter renamed
and with it what it binds.
-/
inductive Expr.RenamesParameter (old new : String) : Expr → Expr → Prop where
  | lambda {span : Span} {parameters : List (Located String)} {body : Expr}
      (renamable : Renamable old new (parameters.map Located.value) body) :
      Expr.RenamesParameter old new (.lambda span parameters body)
        (.lambda span (parameters.map (Located.replaced old new))
          (body.renamed (replaceName old new)))
  | aggregateWith {span lambdaSpan : Span} {function : Aggregate}
      {source : Expr} {parameters : List (Located String)} {body : Expr}
      (renamable : Renamable old new (parameters.map Located.value) body) :
      Expr.RenamesParameter old new
        (.aggregateWith span function source lambdaSpan parameters body)
        (.aggregateWith span function source lambdaSpan
          (parameters.map (Located.replaced old new))
          (body.renamed (replaceName old new)))

namespace Inference

/-- Distinct parameters are bound one after the other. -/
theorem bindAll_eq_of_nodup {bound : List String}
    {parameters : List (Located String × Ty)}
    (distinct : (parameters.map fun parameter => parameter.1.value).Nodup)
    (free : ∀ parameter ∈ parameters, parameter.1.value ∉ bound) :
    bindAll bound parameters = ⟨.ok (), parameters.map Event.binding⟩ := by
  induction parameters generalizing bound with
  | nil => rfl
  | cons parameter rest ih =>
      rcases parameter with ⟨located, type⟩
      rw [List.map_cons, List.nodup_cons] at distinct
      have later : ∀ parameter ∈ rest,
          parameter.1.value ∉ located.value :: bound := by
        intro parameter member repeated
        rcases List.mem_cons.mp repeated with same | earlier
        · exact distinct.1 (List.mem_map.mpr ⟨parameter, member, same⟩)
        · exact free parameter (List.mem_cons_of_mem _ member) earlier
      rw [bindAll, if_neg (free _ List.mem_cons_self), ih distinct.2 later]
      rfl

end Inference

namespace Renamable

variable {old new : String} {names : List String} {body : Expr}

/-- A renamed name is found where the name was found. -/
theorem lookup_replaced (renamable : Renamable old new names body)
    {bound : List (String × Ty)} (within : ∀ entry ∈ bound, entry.1 ∈ names)
    {name : String} (other : name ≠ new) :
    (bound.map (Prod.map (replaceName old new) id)).lookup
      (replaceName old new name) = bound.lookup name := by
  induction bound with
  | nil => rfl
  | cons entry rest ih =>
      rcases entry with ⟨key, type⟩
      have same :=
        replaceName_inj (fun _ => other)
          (renamable.apart key (within (key, type) List.mem_cons_self))
      have later :=
        ih fun entry member => within entry (List.mem_cons_of_mem _ member)
      simp only [List.map_cons, Prod.map_apply, id_eq, List.lookup_cons, later]
      by_cases isKey : name = key
      · simp only [beq_iff_eq.mpr isKey, beq_iff_eq.mpr (same.mpr isKey)]
      · simp only [beq_eq_false_iff_ne.mpr isKey,
          beq_eq_false_iff_ne.mpr (mt same.mp isKey)]

/--
The parameters with one of them renamed have the types that they had under the
old names.
-/
theorem renames_withVariables (renamable : Renamable old new names body)
    (context : Context) {bound : List (String × Ty)}
    (keys : bound.map Prod.fst = names) :
    Context.Renames (replaceName old new) new (context.withVariables bound)
      (context.withVariables
        (bound.map (Prod.map (replaceName old new) id))) where
  config := rfl
  kind := rfl
  source := rfl
  variableType := by
    intro name other
    have within : ∀ entry ∈ bound, entry.1 ∈ names := by
      intro entry member
      exact keys ▸ List.mem_map_of_mem member
    simp only [Context.variableType_withVariables,
      renamable.lookup_replaced within other]
    by_cases isParameter : name ∈ names
    · rcases Option.isSome_iff_exists.mp
        (lookup_isSome_iff.mpr (keys ▸ isParameter)) with ⟨type, found⟩
      simp only [found, Option.some_or]
    · have stays : replaceName old new name = name := by
        refine if_neg ?_
        rintro rfl
        exact isParameter renamable.isParameter
      rw [stays]
  moves := by
    intro name
    by_cases isOld : name = old
    · subst isOld
      have found := lookup_isSome_iff.mpr (keys ▸ renamable.isParameter)
      refine .inr ⟨if_pos rfl, ?_⟩
      simp [Context.variableType_withVariables, found]
    · exact .inl (if_neg isOld)

open Inference (Akin)

/-- The scope of a lambda is alike whatever one of its parameters is called. -/
theorem akin_inScope (context : Context)
    {parameters : List (Located String × Ty)}
    (renamable : Renamable old new
      (parameters.map fun parameter => parameter.1.value) body) :
    let replaced := parameters.map (Prod.map (Located.replaced old new) id)
    Akin
      (Inference.inScope (Inference.bindAll [] parameters >>= fun _ =>
        (context.withVariables (parameters.map fun parameter =>
          (parameter.1.value, parameter.2))).infer body))
      (Inference.inScope (Inference.bindAll [] replaced >>= fun _ =>
        (context.withVariables (replaced.map fun parameter =>
          (parameter.1.value, parameter.2))).infer
          (body.renamed (replaceName old new)))) := by
  intro replaced
  have names : (replaced.map fun parameter => parameter.1.value) =
      (parameters.map fun parameter => parameter.1.value).map
        (replaceName old new) := by
    simp only [replaced, List.map_map, Function.comp_def, Prod.map_fst,
      Located.replaced]
  have distinct : (replaced.map fun parameter => parameter.1.value).Nodup := by
    rw [names]
    refine renamable.distinct.map_on fun first isFirst second isSecond same =>
      ?_
    exact (replaceName_inj (renamable.apart first isFirst)
      (renamable.apart second isSecond)).mp same
  have types : (replaced.map fun parameter =>
      (parameter.1.value, parameter.2)) =
      (parameters.map fun parameter => (parameter.1.value, parameter.2)).map
        (Prod.map (replaceName old new) id) := by
    simp only [replaced, List.map_map, Function.comp_def, Prod.map_fst,
      Prod.map_snd, Prod.map_apply, id_eq, Located.replaced]
  have bound : Akin (Inference.bindAll [] parameters)
      (Inference.bindAll [] replaced) := by
    rw [Inference.bindAll_eq_of_nodup renamable.distinct (by simp),
      Inference.bindAll_eq_of_nodup distinct (by simp)]
    refine ⟨rfl, ?_⟩
    simp only [replaced, List.map_map, Function.comp_def, Event.binding,
      Event.nameless, Prod.map_snd, id_eq, Prod.map_fst, Located.replaced]
  have keys : (parameters.map fun parameter =>
      (parameter.1.value, parameter.2)).map Prod.fst =
      parameters.map fun parameter => parameter.1.value := by
    simp only [List.map_map, Function.comp_def]
  rw [types]
  exact .inScope (bound.bind fun _ =>
    (renamable.renames_withVariables context keys).akin_infer body
      renamable.absent)

/-- A lambda with a renamed parameter is inferred alike. -/
theorem akin_lambda (context : Context) (span : Span)
    {parameters : List (Located String)}
    (renamable : Renamable old new (parameters.map Located.value) body) :
    Akin (context.infer (.lambda span parameters body))
      (context.infer
        (.lambda span (parameters.map (Located.replaced old new))
          (body.renamed (replaceName old new)))) := by
  have replaced : ((parameters.map (Located.replaced old new)).map
      fun parameter => (parameter, Ty.unknown)) =
      (parameters.map fun parameter => (parameter, Ty.unknown)).map
        (Prod.map (Located.replaced old new) id) := by
    simp only [List.map_map, Function.comp_def, Prod.map_apply, id_eq]
  rw [← Context.names_unknown] at renamable
  simp only [Context.infer, replaced]
  refine .recorded span ((renamable.akin_inScope context).bind fun _ => ?_)
  simp only [List.map_map, Function.comp_def, Prod.map_snd, id_eq]
  exact .refl _

/--
An aggregate takes one parameter; with more of them it fails, whatever they are
called.
-/
theorem akin_aggregateWith (context : Context) (span : Span)
    (function : Aggregate) (source : Expr) (lambdaSpan : Span)
    {parameters : List (Located String)}
    (renamable : Renamable old new (parameters.map Located.value) body) :
    Akin (context.infer
      (.aggregateWith span function source lambdaSpan parameters body))
      (context.infer
        (.aggregateWith span function source lambdaSpan
          (parameters.map (Located.replaced old new))
          (body.renamed (replaceName old new)))) := by
  simp only [Context.infer]
  refine .recorded span
    ((Akin.refl _).bind fun _ => (Akin.refl _).bind fun element => ?_)
  match parameters with
  | [parameter] =>
      have inside :=
        @akin_inScope old new body context [(parameter, element)] renamable
      exact inside.bind fun _ => .refl _
  | [] => exact .refl _
  | first :: second :: rest =>
      simp only [List.map_cons, List.length_cons, List.length_map]
      exact .refl _

end Renamable

/-- Renaming a parameter cannot be told from outside. -/
theorem Expr.RenamesParameter.unseen (old new : String) :
    Expr.Unseen (Expr.RenamesParameter old new) where
  span := by
    rintro _ _ (_ | _) <;> rfl
  infer := by
    intro first second renames context
    cases renames with
    | lambda renamable => exact renamable.akin_lambda context _
    | aggregateWith renamable =>
        exact renamable.akin_aggregateWith context _ _ _ _

namespace Analysis

/-- The types that are noted do not depend on the names of parameters. -/
theorem types_foldl_follow {first second : List Event}
    (akin : second.map Event.nameless = first.map Event.nameless)
    {analysis other : Analysis} (same : other.types = analysis.types) :
    (second.foldl follow other).types =
      (first.foldl follow analysis).types := by
  induction first generalizing second analysis other with
  | nil =>
      rw [List.map_nil, List.map_eq_nil_iff] at akin
      rw [akin]
      exact same
  | cons event rest ih =>
      rcases List.map_eq_cons_iff.mp akin with
        ⟨further, later, rfl, likeEvent, likeRest⟩
      refine ih likeRest ?_
      cases event <;> cases further <;> cases likeEvent
      · simp only [follow, noteType, same]
      · exact same
      · simp only [follow, types_bindVariable, same]
      · exact same

end Analysis

/--
The name of a parameter does not matter.  If a parameter of a lambda is renamed,
wherever in an expression the lambda stands, then the expression has the type
that it had, or the fault, in every context, whatever the old and the new name
stand for there.  In place too, where every parameter is defined in a scope of
its table, it ends the same way and leaves the same types.
-/
theorem infer_of_renamesParameter {old new : String} {expression other : Expr}
    (renames : Expr.DiffersBy (Expr.RenamesParameter old new) expression
      other) :
    (∀ context : Context,
      (context.infer other).outcome = (context.infer expression).outcome) ∧
    ∀ (analysis : Analysis) (config : Config) (source : Option Ty),
      analysis.table.Reachable →
      ((Session.infer config source other).run analysis).1 =
        ((Session.infer config source expression).run analysis).1 ∧
      ((Session.infer config source other).run analysis).2.types =
        ((Session.infer config source expression).run analysis).2.types := by
  have akin : ∀ context : Context,
      Inference.Akin (context.infer expression) (context.infer other) := by
    intro context
    exact Context.akin_infer_of_differsBy (Expr.RenamesParameter.unseen old new)
      expression context renames
  refine ⟨fun context => (akin context).outcome, ?_⟩
  intro analysis config source reachable
  rw [Session.run_infer config source _ reachable,
    Session.run_infer config source _ reachable]
  exact ⟨(akin _).outcome, Analysis.types_foldl_follow (akin _).trace rfl⟩

/-- An enumeration `other`, and in a transform orders and a source `order`. -/
def ordering : Analysis where
  table := SymbolTable.empty.run
    [.define { name := "other", kind := .enumeration ["open", "closed"] },
      .define { name := "Order",
                kind :=
                  .schema { name := "Order", fields := [("amount", .int)] }
                    none },
      .enter .transform,
      .define
        { name := "orders", kind := .binding (.array (.handle "Order" [])) },
      .define { name := "order", kind := .binding .string }]

/--
A sum over orders beside the source `order`.  For each order, under a given
name, it adds a sum in which a lambda binds `order` anew.
-/
def sumBeside (name : String) : Expr :=
  let amountOf := fun root =>
    Expr.path .unknown (.named root) [.field .unknown "amount" false]
  let sumOf :=
    Expr.aggregateWith .unknown .sum (.path .unknown (.named "orders") [])
      .unknown
  .binary .unknown
    (sumOf [⟨name, .unknown⟩] (.binary .unknown (amountOf name) .plus
      (sumOf [⟨"order", .unknown⟩] (amountOf "order"))))
    .plus (.path .unknown (.named "order") [])

/--
Naming the orders `other`, like the enumeration, instead of `order`, like the
source, changes nothing.
-/
theorem infer_sumBeside_other :
    ordering.table.Reachable ∧
    Expr.DiffersBy (Expr.RenamesParameter "order" "other") (sumBeside "order")
      (sumBeside "other") ∧
    ((Session.infer {} none (sumBeside "order")).run ordering).1 = .ok .int ∧
    ((Session.infer {} none (sumBeside "other")).run ordering).1 =
      .ok .int := by
  have reachable : ordering.table.Reachable := ⟨_, rfl⟩
  have renames : Expr.DiffersBy (Expr.RenamesParameter "order" "other")
      (sumBeside "order") (sumBeside "other") := by
    exact .left
      (.here (.aggregateWith ⟨by decide, by decide, by decide, by decide⟩))
  have found : ((Session.infer {} none (sumBeside "order")).run ordering).1 =
      .ok .int := by
    with_unfolding_all rfl
  have same := (infer_of_renamesParameter renames).2 ordering {} none reachable
  exact ⟨reachable, renames, found, same.1.trans found⟩

end SchemaMap
