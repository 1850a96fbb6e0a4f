import SchemaMap.Proofs.Analysis.Traces

/-!
# Inference in place

Inference is a function of a context and leaves a trace.  Here it is written
once more, as a session on an analysis that opens and closes scopes, defines the
parameters of lambdas in the table, notes types as it goes, and looks names up
in whatever the table is at that moment.  A fault ends a session from any depth.

Both are the same (`tracks_infer`): a session ends as the inference does in the
context that the analysis shows at the start, and leaves the analysis as the
trace of that inference would.  So a session cannot see what earlier sessions
did, and only adds to the analysis (`run_infer_of_reachable`).  This holds of
all tables that operations lead to, and the analysis of a program has no others
(`Analysis.reachable_analyze`).
-/

namespace SchemaMap

/--
A computation on an analysis that may end in a fault; what it did before the
fault stays.
-/
abbrev Session := ExceptT Fault (StateM Analysis)

namespace Session

variable {α β : Type}

/-- Look at what the analysis shows now. -/
def look (config : Config) (source : Option Ty)
    (view : Context → Except Fault α) : Session α :=
  ExceptT.mk do
    let analysis ← get
    return view (analysis.context config source)

/-- Note the type that is found for the expression at a span. -/
def recorded (span : Span) (session : Session Ty) : Session Ty := do
  let type ← session
  modify fun analysis => analysis.noteType span type
  return type

/-- Define a variable in the open scope. -/
def define (name : String) (type : Ty) (span : Span) : Session Unit := do
  let analysis ← get
  match analysis.table.define
    { name := name, kind := .binding type, span := span } with
  | .ok defined => set { analysis with table := defined }
  | .error fault => throw fault

/-- Define parameters one after the other. -/
def defineAll : List (Located String × Ty) → Session Unit
  | [] => pure ()
  | (parameter, type) :: rest => do
      define parameter.value type parameter.span
      defineAll rest

/-- Go on inside a new scope, which is closed also after a fault. -/
def inScope (session : Session α) : Session α :=
  ExceptT.mk do
    modify fun analysis => analysis.enter .lambda
    let outcome ← session.run
    modify Analysis.exit
    return outcome

mutual

/-- Find the type of an expression. -/
def infer (config : Config) (source : Option Ty) : Expr → Session Ty
  | .literal span value => recorded span (pure (Context.literalType value))
  | .path span root segments =>
      recorded span do
        let start ← look config source fun context => context.rootType root span
        let walk ← inferSegments config source { type := start } segments
        return walk.result
  | .binary span left operator right =>
      recorded span do
        let leftType ← infer config source left
        let rightType ← infer config source right
        look config source fun _ =>
          Context.binaryType operator leftType rightType span
  | .unary span operator operand =>
      recorded span do
        let type ← infer config source operand
        return Context.unaryType operator type
  | .conditional span condition thenBranch elseBranch =>
      recorded span do
        let _ ← infer config source condition
        let thenType ← infer config source thenBranch
        let elseType ← infer config source elseBranch
        return thenType.join elseType
  | .matching span subject arms =>
      recorded span do
        let subjectType ← infer config source subject
        let types ← inferArms config source subjectType arms
        return Ty.joinAll types
  | .lambda span parameters body =>
      let typed := parameters.map fun parameter => (parameter, Ty.unknown)
      recorded span do
        let type ← inScope do
          defineAll typed
          infer config source body
        return .function (typed.map Prod.snd) type
  | .aggregate span function collection =>
      recorded span do
        let collectionType ← infer config source collection
        let element ←
          look config source fun _ =>
            Context.aggregateElement function collectionType collection.span
        return Context.aggregateType function collectionType element
  | .aggregateWith span function collection lambdaSpan parameters body =>
      recorded span do
        let collectionType ← infer config source collection
        let element ←
          look config source fun _ =>
            Context.aggregateElement function collectionType collection.span
        match parameters with
        | [parameter] => do
            let type ← inScope do
              defineAll [(parameter, element)]
              infer config source body
            modify fun analysis =>
              analysis.noteType lambdaSpan (.function [element] type)
            return Context.aggregateType function collectionType type
        | _ =>
            throw ⟨.aggregateLambdaArity function.text parameters.length,
              lambdaSpan⟩
  | .lookup span table keys =>
      recorded span do
        match ←
          look config source fun context =>
            .ok ((context.kind table.value).bind Kind.lookup?) with
        | none => throw ⟨.lookupNotFound table.value, table.span⟩
        | some (expected, value) => do
            let found ← inferAll config source keys
            if config.strictLookupKeys then
              look config source fun context =>
                context.checkLookup table expected found (keys.map Expr.span)
            return value
termination_by structural expression => expression

/-- Walk through the steps of a path. -/
def inferSegments (config : Config) (source : Option Ty) (walk : Walk) :
    List Segment → Session Walk
  | [] => pure walk
  | .field span name optional :: rest => do
      let before := walk.enter optional
      let type ←
        look config source fun context =>
          context.fieldType before.type name span
      inferSegments config source { before with type := type } rest
  | .index span position optional :: rest => do
      let before := walk.enter optional
      let _ ← infer config source position
      let type ←
        look config source fun _ => Context.elementType before.type span
      inferSegments config source { before with type := type } rest
termination_by structural segments => segments

/-- Find the types of the arms of a `match`. -/
def inferArms (config : Config) (source : Option Ty) (subject : Ty) :
    List Arm → Session (List Ty)
  | [] => pure []
  | .mk _ pattern body :: rest => do
      look config source fun context => context.checkPattern subject pattern
      let type ← infer config source body
      let types ← inferArms config source subject rest
      return type :: types
termination_by structural arms => arms

/-- Find the types of some expressions. -/
def inferAll (config : Config) (source : Option Ty) :
    List Expr → Session (List Ty)
  | [] => pure []
  | expression :: rest => do
      let type ← infer config source expression
      let types ← inferAll config source rest
      return type :: types
termination_by structural expressions => expressions

end

/-! ## How sessions run -/

theorem run_bind (session : Session α) (next : α → Session β)
    (analysis : Analysis) :
    (session >>= next).run analysis =
      match session.run analysis with
      | (.ok value, after) => (next value).run after
      | (.error fault, after) => (.error fault, after) := by
  show (match session.run analysis with
      | (outcome, after) => ExceptT.bindCont next outcome after) = _
  rcases session.run analysis with ⟨outcome, after⟩
  cases outcome <;> rfl

/-- A scope is entered before the session and left after it. -/
theorem run_inScope (session : Session α) (analysis : Analysis) :
    (inScope session).run analysis =
      ((session.run (analysis.enter .lambda)).1,
        (session.run (analysis.enter .lambda)).2.exit) := rfl

theorem run_define (name : String) (type : Ty) (span : Span)
    (analysis : Analysis) :
    (define name type span).run analysis =
      match analysis.table.define
        { name := name, kind := .binding type, span := span } with
      | .ok defined => (.ok (), { analysis with table := defined })
      | .error fault => (.error fault, analysis) := by
  show (match analysis.table.define _ with
    | .ok defined => (set { analysis with table := defined } : Session Unit)
    | .error fault => throw fault).run analysis = _
  split <;> rfl

/-! ## Sessions and inferences -/

/-- A session that goes on as the inference does ends as it does. -/
theorem run_bind_eq {session : Session α} {inference : Inference α}
    {next : α → Session β} {further : α → Inference β} {analysis : Analysis}
    (first : session.run analysis =
      (inference.outcome, analysis.following inference))
    (second : ∀ value, inference.outcome = .ok value →
      (next value).run (analysis.following inference) =
        ((further value).outcome,
          (analysis.following inference).following (further value))) :
    (session >>= next).run analysis =
      ((inference >>= further).outcome,
        analysis.following (inference >>= further)) := by
  rw [run_bind, first]
  cases found : inference.outcome with
  | error fault =>
      rw [Analysis.following_bind_of_error _ found]
      simp only [Bind.bind, found]
  | ok value =>
      rw [Analysis.following_bind_of_ok _ found]
      simp only [Bind.bind, found]
      exact second value found

/--
Wherever the analysis shows the context, the session ends as the inference does
and leaves the analysis as the trace of the inference would.
-/
structure Tracks (config : Config) (source : Option Ty) (context : Context)
    (session : Session α) (inference : Inference α) : Prop where
  balanced : Balanced inference.trace
  run_eq : ∀ analysis : Analysis, analysis.table.Reachable →
    analysis.context config source = context →
    session.run analysis = (inference.outcome, analysis.following inference)

variable {config : Config} {source : Option Ty} {context : Context}

namespace Tracks

theorem pure (value : α) :
    Tracks config source context (Pure.pure value) (Pure.pure value) where
  balanced := .nil
  run_eq := by
    intro analysis _ _
    rfl

theorem fail (problem : Problem) (span : Span) :
    Tracks config source context (throw ⟨problem, span⟩ : Session α)
      (Inference.fail problem span) where
  balanced := .nil
  run_eq := by
    intro analysis _ _
    rfl

theorem look (view : Context → Except Fault α) :
    Tracks config source context (Session.look config source view)
      (Inference.ofExcept (view context)) where
  balanced := .nil
  run_eq := by
    intro analysis _ shown
    rw [← shown]
    rfl

/-- Looking without a fault leaves nothing behind. -/
theorem look_bind {view : Context → α} {next : α → Session β}
    {inference : Inference β}
    (tracks : Tracks config source context (next (view context)) inference) :
    Tracks config source context
      (Session.look config source (fun shown => .ok (view shown)) >>= next)
      inference where
  balanced := tracks.balanced
  run_eq := by
    intro analysis reachable shown
    rw [← tracks.run_eq analysis reachable shown, run_bind, ← shown]
    rfl

theorem note (span : Span) (type : Ty) :
    Tracks config source context
      (modify fun analysis => analysis.noteType span type)
      (Inference.emit (.typed span type)) where
  balanced := .typed span type .nil
  run_eq := by
    intro analysis _ _
    rfl

theorem bind {session : Session α} {inference : Inference α}
    {next : α → Session β} {further : α → Inference β}
    (first : Tracks config source context session inference)
    (second : ∀ value,
      Tracks config source context (next value) (further value)) :
    Tracks config source context (session >>= next)
      (inference >>= further) where
  balanced :=
    Inference.balanced_bind first.balanced fun value => (second value).balanced
  run_eq := by
    intro analysis reachable shown
    -- A balanced trace leaves the open scope as it was, so the second session
    -- begins where the first one did.
    have stillShown : (analysis.following inference).context config source =
        context := by
      have extended :=
        (Analysis.quiet_foldl_follow first.balanced analysis).table
      exact (Analysis.context_of_extends reachable extended config source).trans
        shown
    refine run_bind_eq (first.run_eq analysis reachable shown) fun value _ => ?_
    exact (second value).run_eq _
      (Analysis.reachable_following reachable inference) stillShown

theorem recorded {session : Session Ty} {inference : Inference Ty} (span : Span)
    (tracks : Tracks config source context session inference) :
    Tracks config source context (Session.recorded span session)
      (Inference.recorded span inference) :=
  tracks.bind fun type => (note span type).bind fun _ => pure type

end Tracks

/-! ## Scopes -/

/--
Parameters are defined in an open scope up to the first whose name is taken.
-/
theorem run_defineAll {outer : SymbolTable} {bound : List (String × Ty)}
    {analysis : Analysis} (opened : outer.Opened bound analysis.table)
    {taken : List String}
    (same : ∀ name, name ∈ taken ↔ name ∈ bound.map Prod.fst)
    (parameters : List (Located String × Ty)) :
    let inference := Inference.bindAll taken parameters
    (defineAll parameters).run analysis =
      (inference.outcome, analysis.following inference) ∧
      (inference.outcome = .ok () →
        outer.Opened (bound ++
          parameters.map fun parameter => (parameter.1.value, parameter.2))
          (analysis.following inference).table) := by
  induction parameters generalizing bound analysis taken with
  | nil =>
      refine ⟨rfl, fun _ => ?_⟩
      rw [List.map_nil, List.append_nil]
      exact opened
  | cons parameter rest ih =>
      rcases parameter with ⟨located, type⟩
      rw [defineAll, run_bind, run_define, Inference.bindAll]
      -- The names that the inference has met are those that the scope binds, so
      -- both refuse the same parameter.
      by_cases repeated : located.value ∈ taken
      · have refused :=
          opened.define_eq_error { name := located.value, kind := .binding type,
                                   span := located.span }
            ((same _).mp repeated)
        rw [if_pos repeated, refused]
        exact ⟨rfl, nofun⟩
      · rcases opened.define_eq_ok located.value type located.span
          (mt (same _).mpr repeated) with
          ⟨table, defined, further⟩
        have followed : analysis.follow (.bound located.value type
            located.span) = { analysis with table := table } := by
          simp only [Analysis.follow, Analysis.bindVariable, defined]
        have stillSame : ∀ name, name ∈ located.value :: taken ↔
            name ∈ (bound ++ [(located.value, type)]).map Prod.fst := by
          intro name
          simp [same name, or_comm]
        have grown : (analysis.follow
            (.bound located.value type located.span)).table = table := by
          rw [followed]
        rw [← grown] at further
        rcases ih further stillSame with ⟨ran, final⟩
        rw [if_neg repeated, defined]
        refine ⟨?_, fun ended => ?_⟩
        · show (defineAll rest).run { analysis with table := table } = _
          rw [← followed]
          exact ran
        · have complete := final ended
          rw [List.append_assoc] at complete
          exact complete

/--
A session in a new scope with parameters tracks the inference in the context
that the parameters extend.
-/
theorem Tracks.inScope {parameters : List (Located String × Ty)}
    {session : Session α} {inference : Inference α}
    (tracks : Tracks config source
      (context.withVariables (parameters.map fun parameter =>
        (parameter.1.value, parameter.2))) session inference) :
    Tracks config source context
      (Session.inScope (defineAll parameters >>= fun _ => session))
      (Inference.inScope
        (Inference.bindAll [] parameters >>= fun _ => inference)) where
  balanced := Inference.balanced_inScope tracks.balanced
  run_eq := by
    intro analysis reachable shown
    have entered : analysis.table.Opened [] (analysis.enter .lambda).table :=
      .enter analysis.table .lambda
    rcases run_defineAll entered
      (by simp : ∀ name, name ∈ ([] : List String) ↔ _) parameters with
        ⟨ran, opened⟩
    have inside : (defineAll parameters >>= fun _ => session).run
        (analysis.enter .lambda) =
        ((Inference.bindAll [] parameters >>= fun _ => inference).outcome,
          (analysis.enter .lambda).following
            (Inference.bindAll [] parameters >>= fun _ => inference)) := by
      refine run_bind_eq ran fun _ bound => tracks.run_eq _ ?_ ?_
      · have outside : (analysis.enter .lambda).table.Reachable :=
          reachable.enter .lambda
        exact Analysis.reachable_following outside _
      · rw [Analysis.context_of_opened reachable (opened bound), shown]
        rfl
    rw [run_inScope, inside, Analysis.following_inScope]
    rfl

mutual

/-- A session on an expression tracks the inference of its type. -/
theorem tracks_infer : (expression : Expr) → {context : Context} →
    Tracks context.config source context
      (infer context.config source expression) (context.infer expression)
  | .literal span value, context => by
      rw [infer, Context.infer]
      exact (Tracks.pure _).recorded span
  | .path span root segments, context => by
      rw [infer, Context.infer]
      refine Tracks.recorded span ((Tracks.look _).bind fun start => ?_)
      exact (tracks_inferSegments segments).bind fun walk => .pure walk.result
  | .binary span left operator right, context => by
      rw [infer, Context.infer]
      refine Tracks.recorded span ((tracks_infer left).bind fun leftType => ?_)
      exact (tracks_infer right).bind fun rightType => .look _
  | .unary span operator operand, context => by
      rw [infer, Context.infer]
      exact Tracks.recorded span
        ((tracks_infer operand).bind fun type => .pure _)
  | .conditional span condition thenBranch elseBranch, context => by
      rw [infer, Context.infer]
      refine Tracks.recorded span ((tracks_infer condition).bind fun _ => ?_)
      refine (tracks_infer thenBranch).bind fun thenType => ?_
      exact (tracks_infer elseBranch).bind fun elseType => .pure _
  | .matching span subject arms, context => by
      rw [infer, Context.infer]
      refine Tracks.recorded span
        ((tracks_infer subject).bind fun subjectType => ?_)
      exact (tracks_inferArms arms).bind fun types => .pure _
  | .lambda span parameters body, context => by
      rw [infer, Context.infer]
      exact Tracks.recorded span
        ((Tracks.inScope (tracks_infer body)).bind fun type => .pure _)
  | .aggregate span function collection, context => by
      rw [infer, Context.infer]
      refine Tracks.recorded span
        ((tracks_infer collection).bind fun collectionType => ?_)
      exact (Tracks.look _).bind fun element => .pure _
  | .aggregateWith span function collection lambdaSpan parameters body,
      context => by
      rw [infer, Context.infer]
      refine Tracks.recorded span
        ((tracks_infer collection).bind fun collectionType => ?_)
      refine (Tracks.look _).bind fun element => ?_
      rcases parameters with _ | ⟨parameter, _ | ⟨second, others⟩⟩
      · exact .fail _ _
      · refine (Tracks.inScope (tracks_infer body)).bind fun type => ?_
        exact (Tracks.note lambdaSpan _).bind fun _ => .pure _
      · exact .fail _ _
  | .lookup span table keys, context => by
      rw [infer, Context.infer]
      refine Tracks.recorded span (.look_bind ?_)
      cases (context.kind table.value).bind Kind.lookup? with
      | none => exact .fail _ _
      | some entry =>
          refine (tracks_inferAll keys).bind fun found => ?_
          split
          · exact (Tracks.look _).bind fun _ => .pure entry.2
          · exact .pure entry.2
termination_by structural expression => expression

/-- Sessions track the inference of segments. -/
theorem tracks_inferSegments :
    (segments : List Segment) → {context : Context} → {walk : Walk} →
    Tracks context.config source context
      (inferSegments context.config source walk segments)
      (context.inferSegments walk segments)
  | [], context, walk => .pure walk
  | .field span name optional :: rest, context, walk => by
      rw [inferSegments, Context.inferSegments]
      exact (Tracks.look _).bind fun type => tracks_inferSegments rest
  | .index span position optional :: rest, context, walk => by
      rw [inferSegments, Context.inferSegments]
      refine (tracks_infer position).bind fun _ => ?_
      exact (Tracks.look _).bind fun type => tracks_inferSegments rest
termination_by structural segments => segments

theorem tracks_inferArms :
    (arms : List Arm) → {context : Context} → {subject : Ty} →
    Tracks context.config source context
      (inferArms context.config source subject arms)
      (context.inferArms subject arms)
  | [], context, subject => .pure []
  | .mk span pattern body :: rest, context, subject => by
      rw [inferArms, Context.inferArms]
      refine (Tracks.look _).bind fun _ => ?_
      refine (tracks_infer body).bind fun type => ?_
      exact (tracks_inferArms rest).bind fun types => .pure (type :: types)
termination_by structural arms => arms

theorem tracks_inferAll : (expressions : List Expr) → {context : Context} →
    Tracks context.config source context
      (inferAll context.config source expressions)
      (context.inferAll expressions)
  | [], context => .pure []
  | expression :: rest, context => by
      rw [inferAll, Context.inferAll]
      refine (tracks_infer expression).bind fun type => ?_
      exact (tracks_inferAll rest).bind fun types => .pure (type :: types)
termination_by structural expressions => expressions

end

/--
In a table that operations lead to, a session ends as the inference does and
leaves what its trace says.
-/
theorem run_infer (config : Config) (source : Option Ty) (expression : Expr)
    {analysis : Analysis} (reachable : analysis.table.Reachable) :
    (infer config source expression).run analysis =
      (((analysis.context config source).infer expression).outcome,
        analysis.following
          ((analysis.context config source).infer expression)) := by
  have tracks :=
    @tracks_infer source expression (analysis.context config source)
  exact tracks.run_eq analysis reachable rfl

/-! ## What sessions see and leave -/

/--
In every table that operations lead to, a session ends as the inference in the
context that the analysis shows.  It leaves what was there alone, on every way
out, so that the analysis shows the same afterwards; and in another analysis
that shows the same kinds and variables it ends the same way.
-/
theorem run_infer_of_reachable (config : Config) (source : Option Ty)
    (expression : Expr) (analysis : Analysis)
    (reachable : analysis.table.Reachable) :
    (infer config source expression).run analysis =
      (((analysis.context config source).infer expression).outcome,
        analysis.following
          ((analysis.context config source).infer expression)) ∧
    analysis.Appends ((infer config source expression).run analysis).2 ∧
    ((infer config source expression).run analysis).2.context config source =
      analysis.context config source ∧
    ∀ other : Analysis, other.table.Reachable →
      (∀ name, other.table.kind? name = analysis.table.kind? name) →
      (∀ name,
        other.table.bindingType? name = analysis.table.bindingType? name) →
      ((infer config source expression).run other).1 =
        ((infer config source expression).run analysis).1 := by
  have tracks : ∀ context : Context, context.config = config →
      Tracks config source context (infer config source expression)
        (context.infer expression) := by
    rintro context rfl
    exact tracks_infer expression
  have first := tracks (analysis.context config source) rfl
  have ran := first.run_eq analysis reachable rfl
  rw [ran]
  refine ⟨rfl, Analysis.appends_following analysis first.balanced, ?_, ?_⟩
  · have extended := (Analysis.quiet_foldl_follow first.balanced analysis).table
    exact Analysis.context_of_extends reachable extended config source
  · intro other otherReachable kinds types
    have shown : other.context config source =
        analysis.context config source := by
      rw [Analysis.context, Analysis.context, funext kinds, funext types]
    rw [first.run_eq other otherReachable shown]

/-- A scope with one variable, for an array of numbers. -/
def amounts : Analysis :=
  { table :=
    SymbolTable.empty.run [.enter .transform,
      .define { name := "amounts", kind := .binding (.array .int) }] }

/--
The sum of the numbers, by a lambda whose body is a lambda that is given one
name twice.
-/
def total : Expr :=
  .aggregateWith .unknown .sum (.path .unknown (.named "amounts") []) .unknown
    [⟨"amount", .unknown⟩]
    (.lambda .unknown [⟨"x", .unknown⟩, ⟨"x", .unknown⟩]
      (.path .unknown (.named "amount") []))

/--
A second session after the first one, which ends in a fault inside two scopes,
ends as the first did.
-/
theorem run_infer_total_twice :
    amounts.table.Reachable ∧
    ((infer {} none total).run amounts).1.isOk = false ∧
    amounts.Appends ((infer {} none total).run amounts).2 ∧
    ((infer {} none total).run ((infer {} none total).run amounts).2).1 =
      ((infer {} none total).run amounts).1 := by
  have reachable : amounts.table.Reachable := ⟨_, rfl⟩
  rcases run_infer_of_reachable {} none total amounts reachable with
    ⟨ran, appends, shown, determined⟩
  refine ⟨reachable, by decide +kernel, appends, determined _ ?_ ?_ ?_⟩
  · rw [ran]
    exact Analysis.reachable_following reachable _
  · exact congrFun (congrArg Context.kind shown)
  · exact congrFun (congrArg Context.variableType shown)

end Session

end SchemaMap
