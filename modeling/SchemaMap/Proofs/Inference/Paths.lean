import SchemaMap.Proofs.Inference.Session
import SchemaMap.Proofs.Inference.Typing

/-!
# Walks along paths

The target of a rule is walked through fields from the type of the target; a
path in an expression is walked through fields and elements from its root, with
question marks where a value may be missing.  From the same type through the
same fields both walks end alike, in the same type or in the same fault
(`infer_fieldPath_eq_walk`).

A question mark on a step leaves a missing value aside.  Where a path has a type
without it there is no missing value to leave aside, so all it does is to make
the type of the whole path optional (`infer_path_markAt`).
-/

namespace SchemaMap

/-! ## Walks through fields -/

/-- The step to a field, without a question mark. -/
def Segment.ofField (field : Located String) : Segment :=
  .field field.span field.value false

/-- The path from the source through some fields. -/
def Expr.fieldPath (span : Span) (fields : List (Located String)) : Expr :=
  .path span .source (fields.map Segment.ofField)

namespace Context

/-- A walk from a given type does not look at the source. -/
theorem walk_withSource (context : Context) (source : Option Ty) (base : Ty)
    (fields : List (Located String)) :
    ({ context with source := source } : Context).walk base fields =
      context.walk base fields := by
  induction fields generalizing base with
  | nil => rfl
  | cons field rest ih => simp only [walk_cons, fieldType, Context.fields, ih]

/-- Segments that are fields are walked as fields. -/
theorem inferSegments_ofField (context : Context) (walk : Walk)
    (fields : List (Located String)) :
    context.inferSegments walk (fields.map Segment.ofField) =
      Inference.ofExcept ((context.walk walk.type fields).map fun type =>
        { walk with type := type }) := by
  induction fields generalizing walk with
  | nil => rfl
  | cons field rest ih =>
      rw [List.map_cons, Segment.ofField, inferSegments, walk_cons,
        show walk.enter false = walk from rfl]
      cases context.fieldType walk.type field.value field.span with
      | error fault => rfl
      | ok type => exact ih { walk with type := type }

/--
A path through fields has the type, or the fault, that the walk from the type of
the source has.
-/
theorem outcome_infer_fieldPath (context : Context) (base : Ty) (span : Span)
    (fields : List (Located String)) :
    (({ context with source := some base } : Context).infer
      (.fieldPath span fields)).outcome =
      context.walk base fields := by
  rw [Expr.fieldPath, infer, Inference.outcome_recorded,
    Inference.outcome_bind_of_ok _ rfl, inferSegments_ofField]
  simp only [Option.getD_some, walk_withSource]
  cases context.walk base fields <;> rfl

end Context

namespace Session

theorem run_look {α : Type} (config : Config) (source : Option Ty)
    (view : Context → Except Fault α) (analysis : Analysis) :
    (look config source view).run analysis =
      (view (analysis.context config source), analysis) := rfl

theorem run_inferSegments_ofField (config : Config) (source : Option Ty)
    (walk : Walk) (fields : List (Located String)) (analysis : Analysis) :
    (inferSegments config source walk (fields.map Segment.ofField)).run
      analysis =
      (((analysis.context config source).walk walk.type fields).map fun type =>
        { walk with type := type },
        analysis) := by
  induction fields generalizing walk with
  | nil => rfl
  | cons field rest ih =>
      rw [List.map_cons, Segment.ofField, inferSegments,
        show walk.enter false = walk from rfl, run_bind, run_look,
        Context.walk_cons]
      cases (analysis.context config source).fieldType walk.type field.value
        field.span with
      | error fault => rfl
      | ok type => exact ih { walk with type := type }

theorem run_recorded_congr {first second : Session Ty} {analysis : Analysis}
    (same : first.run analysis = second.run analysis) (span : Span) :
    (recorded span first).run analysis =
      (recorded span second).run analysis := by
  rw [recorded, recorded, run_bind, run_bind, same]

/--
In place a path through fields is walked as a target is, and its type is noted.
-/
theorem run_infer_fieldPath (config : Config) (source : Option Ty) (base : Ty)
    (span : Span) (fields : List (Located String)) (analysis : Analysis) :
    (infer config (some base) (.fieldPath span fields)).run analysis =
      (recorded span
        (look config source fun context => context.walk base fields)).run
        analysis := by
  have walked : (inferSegments config (some base) { type := base }
      (fields.map Segment.ofField)).run analysis =
      (((analysis.context config source).walk base fields).map fun type =>
        { type := type }, analysis) := by
    rw [← (analysis.context config source).walk_withSource (some base)]
    exact run_inferSegments_ofField config (some base) { type := base } fields
      analysis
  rw [Expr.fieldPath, infer]
  refine run_recorded_congr ?_ span
  rw [run_bind, run_look, run_look]
  show (inferSegments config (some base) { type := base } _ >>= _).run
      analysis = _
  rw [run_bind, walked]
  cases (analysis.context config source).walk base fields <;> rfl

end Session

/--
The target of a rule and a path from the source are walked alike.  From the same
type through the same fields both end in the same type or in the same fault,
whatever the names stand for; in place, the path is walked without a change to
the analysis, and then its type is noted.
-/
theorem infer_fieldPath_eq_walk (base : Ty) (span : Span)
    (fields : List (Located String)) :
    (∀ context : Context,
      (({ context with source := some base } : Context).infer
        (.fieldPath span fields)).outcome =
        context.walk base fields) ∧
    ∀ (config : Config) (source : Option Ty) (analysis : Analysis),
      (Session.infer config (some base) (.fieldPath span fields)).run analysis =
        (Session.recorded span
          (Session.look config source fun context =>
            context.walk base fields)).run analysis := by
  refine ⟨fun context => context.outcome_infer_fieldPath base span fields,
    fun config source analysis => ?_⟩
  exact Session.run_infer_fieldPath config source base span fields analysis

/-! ## Question marks -/

namespace Segment

/-- The step, with a question mark if one is added or was there. -/
def withMark (mark : Bool) : Segment → Segment
  | .field span name optional => .field span name (optional || mark)
  | .index span position optional => .index span position (optional || mark)

/-- The steps with question marks added at the chosen places. -/
def markAt (chosen : Nat → Bool) (segments : List Segment) : List Segment :=
  segments.mapIdx fun place segment => segment.withMark (chosen place)

/--
The expression that says which element is meant; a step to a field has none.
-/
def position? : Segment → Option Expr
  | .field _ _ _ => none
  | .index _ position _ => some position

theorem markAt_cons (chosen : Nat → Bool) (segment : Segment)
    (rest : List Segment) :
    markAt chosen (segment :: rest) =
      segment.withMark (chosen 0) ::
        markAt (fun place => chosen (place + 1)) rest :=
  List.mapIdx_cons

theorem position?_withMark (mark : Bool) (segment : Segment) :
    (segment.withMark mark).position? = segment.position? := by
  cases segment <;> rfl

theorem isOptional_withMark (mark : Bool) (segment : Segment) :
    (segment.withMark mark).isOptional = (segment.isOptional || mark) := by
  cases segment <;> rfl

theorem filterMap_position?_markAt (chosen : Nat → Bool)
    (segments : List Segment) :
    (markAt chosen segments).filterMap position? =
      segments.filterMap position? := by
  induction segments generalizing chosen with
  | nil => rfl
  | cons segment rest ih =>
      rw [markAt_cons, List.filterMap_cons, List.filterMap_cons,
        position?_withMark, ih]

/-- Where a place is chosen there is a question mark. -/
theorem any_isOptional_markAt {chosen : Nat → Bool} {segments : List Segment}
    {place : Nat} (within : place < segments.length)
    (isChosen : chosen place = true) :
    (markAt chosen segments).any isOptional = true := by
  rw [List.any_eq_true]
  refine ⟨(segments.get ⟨place, within⟩).withMark true, ?_,
    by simp [isOptional_withMark]⟩
  rw [markAt, List.mem_mapIdx]
  exact ⟨place, within, by rw [isChosen]; rfl⟩

end Segment

theorem Walk.optionalOf_result (walk : Walk) :
    walk.result.optionalOf = walk.type.optionalOf := by
  rw [result]
  split
  · exact walk.type.optionalOf_optionalOf
  · rfl

/-- Entering a value that is not missing only makes the walk chained. -/
theorem Walk.enter_or {walk : Walk} {optional : Bool}
    (present : (walk.enter optional).type.present = (walk.enter optional).type)
    (mark chained : Bool) :
    ({ walk with chained := chained } : Walk).enter (optional || mark) =
      { walk.enter optional with
        chained := chained || (optional || mark) } := by
  cases optional with
  | true => simp [enter]
  | false =>
      have same : walk.type.present = walk.type := present
      cases mark <;> simp [enter, same]

namespace Context

variable {context : Context}

/-- What has fields is not missing. -/
theorem present_of_fieldType_eq_ok {base type : Ty} {field : String}
    {span : Span} (found : context.fieldType base field span = .ok type) :
    base.present = base := by
  cases base with
  | optional inner => contradiction
  | _ => rfl

/-- What has elements is not missing. -/
theorem present_of_elementType_eq_ok {base type : Ty} {span : Span}
    (found : elementType base span = .ok type) :
    base.present = base := by
  cases base with
  | optional inner => contradiction
  | _ => rfl

/-- Further question marks do not change where a walk leads. -/
theorem outcome_inferSegments_markAt (chosen : Nat → Bool) (chained : Bool)
    {walk result : Walk} {segments : List Segment}
    (found : (context.inferSegments walk segments).outcome = .ok result) :
    (context.inferSegments { walk with chained := chained }
      (Segment.markAt chosen segments)).outcome =
      .ok { result with
        chained :=
          chained ||
            (Segment.markAt chosen segments).any Segment.isOptional } := by
  induction segments generalizing walk chosen chained with
  | nil =>
      cases found
      simp [Segment.markAt, inferSegments]
  | cons segment rest ih =>
      rw [Segment.markAt_cons, List.any_cons, Segment.isOptional_withMark,
        ← Bool.or_assoc]
      cases segment with
      | field span name optional =>
          rw [inferSegments, Inference.outcome_bind_eq_ok_iff] at found
          rcases found with ⟨type, taken, further⟩
          have same :=
            Walk.enter_or (present_of_fieldType_eq_ok taken) (chosen 0) chained
          rw [Segment.withMark, inferSegments, same,
            Inference.outcome_bind_of_ok _ taken]
          exact ih _ _ further
      | index span position optional =>
          rw [inferSegments, Inference.outcome_bind_eq_ok_iff] at found
          rcases found with ⟨placed, known, found⟩
          rcases Inference.outcome_bind_eq_ok_iff.mp found with
            ⟨type, taken, further⟩
          have same :=
            Walk.enter_or (present_of_elementType_eq_ok taken) (chosen 0)
              chained
          rw [Segment.withMark, inferSegments, same,
            Inference.outcome_bind_of_ok _ known,
            Inference.outcome_bind_of_ok _ taken]
          exact ih _ _ further

/-- What the positions in the steps of a path leave behind. -/
def positionsTrace (context : Context) (segments : List Segment) : List Event :=
  (segments.filterMap Segment.position?).flatMap fun position =>
    (context.infer position).trace

theorem positionsTrace_markAt (context : Context) (chosen : Nat → Bool)
    (segments : List Segment) :
    context.positionsTrace (Segment.markAt chosen segments) =
      context.positionsTrace segments := by
  rw [positionsTrace, Segment.filterMap_position?_markAt, positionsTrace]

/--
A walk that leads somewhere leaves behind what the positions on the way do.
-/
theorem trace_inferSegments {walk result : Walk} {segments : List Segment}
    (found : (context.inferSegments walk segments).outcome = .ok result) :
    (context.inferSegments walk segments).trace =
      context.positionsTrace segments := by
  induction segments generalizing walk with
  | nil => rfl
  | cons segment rest ih =>
      cases segment with
      | field span name optional =>
          rw [inferSegments] at found ⊢
          rcases Inference.outcome_bind_eq_ok_iff.mp found with
            ⟨type, taken, further⟩
          rw [Inference.trace_bind_of_ok _ taken, ih further]
          rfl
      | index span position optional =>
          rw [inferSegments] at found ⊢
          rcases Inference.outcome_bind_eq_ok_iff.mp found with
            ⟨placed, known, found⟩
          rcases Inference.outcome_bind_eq_ok_iff.mp found with
            ⟨type, taken, further⟩
          rw [Inference.trace_bind_of_ok _ known,
            Inference.trace_bind_of_ok _ taken, ih further]
          rfl

/--
A path that has a type leaves this type behind, after what its positions do.
-/
theorem trace_infer_path {span : Span} {root : PathRoot}
    {segments : List Segment} {type : Ty}
    (found : (context.infer (.path span root segments)).outcome = .ok type) :
    (context.infer (.path span root segments)).trace =
      context.positionsTrace segments ++ [.typed span type] := by
  rw [infer] at found ⊢
  rw [Inference.outcome_recorded] at found
  rw [Inference.recorded, Inference.trace_bind_of_ok _ found]
  rcases Inference.outcome_bind_eq_ok_iff.mp found with ⟨start, started, found⟩
  rcases Inference.outcome_bind_eq_ok_iff.mp found with ⟨walk, walked, ended⟩
  rw [Inference.trace_bind_of_ok _ started, Inference.trace_bind_of_ok _ walked,
    trace_inferSegments walked]
  simp only [Inference.ofExcept, Inference.trace_pure, List.nil_append,
    List.append_nil]
  rfl

/--
A path with further question marks has the type that it has without them, made
optional.
-/
theorem outcome_infer_path_markAt {span : Span} {root : PathRoot}
    {segments : List Segment} {type : Ty}
    (found : (context.infer (.path span root segments)).outcome = .ok type)
    {chosen : Nat → Bool} {place : Nat} (within : place < segments.length)
    (isChosen : chosen place = true) :
    (context.infer (.path span root (Segment.markAt chosen segments))).outcome =
      .ok type.optionalOf := by
  rw [infer, Inference.outcome_recorded] at found ⊢
  rcases Inference.outcome_bind_eq_ok_iff.mp found with ⟨start, started, found⟩
  rcases Inference.outcome_bind_eq_ok_iff.mp found with ⟨walk, walked, ended⟩
  have further := outcome_inferSegments_markAt chosen false walked
  rw [Segment.any_isOptional_markAt within isChosen] at further
  rw [Inference.outcome_bind_of_ok _ started,
    Inference.outcome_bind_of_ok _ further, ← Except.ok.inj ended]
  exact congrArg Except.ok walk.optionalOf_result.symm

end Context

/--
Question marks on further steps of a path only make its type optional.  What is
found for the positions on the way is the same; in place, all that differs is
what is noted for the path itself.
-/
theorem infer_path_markAt (context : Context) {span : Span} {root : PathRoot}
    {segments : List Segment} {type : Ty}
    (found : (context.infer (.path span root segments)).outcome = .ok type)
    (chosen : Nat → Bool)
    (marks : ∃ place, place < segments.length ∧ chosen place = true) :
    (context.infer (.path span root (Segment.markAt chosen segments))).outcome =
      .ok type.optionalOf ∧
    (context.infer (.path span root segments)).trace =
      context.positionsTrace segments ++ [.typed span type] ∧
    (context.infer (.path span root (Segment.markAt chosen segments))).trace =
      context.positionsTrace segments ++ [.typed span type.optionalOf] ∧
    ∀ (analysis : Analysis) (config : Config) (source : Option Ty),
      analysis.table.Reachable →
      analysis.context config source = context →
      (Session.infer config source (.path span root segments)).run analysis =
        (.ok type,
          ((context.positionsTrace segments).foldl Analysis.follow
            analysis).noteType span type) ∧
      (Session.infer config source
        (.path span root (Segment.markAt chosen segments))).run analysis =
        (.ok type.optionalOf,
          ((context.positionsTrace segments).foldl Analysis.follow
            analysis).noteType span type.optionalOf) := by
  rcases marks with ⟨place, within, isChosen⟩
  have marked := Context.outcome_infer_path_markAt found within isChosen
  have trace := Context.trace_infer_path found
  have markedTrace := Context.trace_infer_path marked
  rw [Context.positionsTrace_markAt] at markedTrace
  refine ⟨marked, trace, markedTrace, ?_⟩
  rintro analysis config source reachable rfl
  constructor
  · rw [Session.run_infer config source _ reachable, found, Analysis.following,
      trace, List.foldl_append]
    rfl
  · rw [Session.run_infer config source _ reachable, marked, Analysis.following,
      markedTrace, List.foldl_append]
    rfl

/-- Teams with members. -/
def teams : Analysis where
  table := SymbolTable.empty.run
    [.define
      { name := "Team"
        kind :=
          .schema { name := "Team",
                    fields :=
                      [("members", .array (.handle "Person" [])),
                        ("size", .int)] } none },
    .define { name := "Person",
              kind :=
                .schema { name := "Person", fields := [("title", .string)] }
                  none }]

/-- The steps from a team to the title of its last member. -/
def lastTitle : List Segment :=
  [.field ⟨1, 9⟩ "members" false,
    .index ⟨9, 17⟩ (.path ⟨10, 16⟩ .source [.field ⟨11, 16⟩ "size" false])
      false,
    .field ⟨17, 23⟩ "title" false]

/--
A question mark before the position leaves its type and makes that of the path
optional.
-/
theorem infer_path_markAt_lastTitle :
    teams.table.Reachable ∧
    ((teams.context {} (some (.handle "Team" []))).infer
      (.path ⟨0, 23⟩ .source lastTitle)).outcome = .ok .string ∧
    (Session.infer {} (some (.handle "Team" []))
      (.path ⟨0, 23⟩ .source lastTitle)).run teams =
      (.ok .string, (teams.noteType ⟨10, 16⟩ .int).noteType ⟨0, 23⟩ .string) ∧
    (Session.infer {} (some (.handle "Team" []))
      (.path ⟨0, 23⟩ .source (Segment.markAt (· == 1) lastTitle))).run teams =
      (.ok (.optional .string),
        (teams.noteType ⟨10, 16⟩ .int).noteType ⟨0, 23⟩
          (.optional .string)) := by
  have reachable : teams.table.Reachable := ⟨_, rfl⟩
  have found : ((teams.context {} (some (.handle "Team" []))).infer
      (.path ⟨0, 23⟩ .source lastTitle)).outcome =
      .ok .string := rfl
  rcases infer_path_markAt _ found (· == 1) ⟨1, by decide, rfl⟩ with
    ⟨-, -, -, inPlace⟩
  exact ⟨reachable, found, inPlace teams {} _ reachable rfl⟩

end SchemaMap
