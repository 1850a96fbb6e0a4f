import Mathlib.Data.List.Nodup
import SchemaMap.Inference.Basic

/-!
# Traces are balanced

The trace of an inference consists of noted types and of scopes.  A scope is
opened, binds distinct names, holds a trace of the same form, and is closed,
also where the inference ended in a fault.
-/

namespace SchemaMap

/-- The event of binding a parameter. -/
def Event.binding (parameter : Located String × Ty) : Event :=
  .bound parameter.1.value parameter.2 parameter.1.span

/-- Traces of noted types and of closed scopes whose names are distinct. -/
inductive Balanced : List Event → Prop where
  | nil : Balanced []
  | typed (span : Span) (type : Ty) {rest : List Event}
      (after : Balanced rest) :
      Balanced (.typed span type :: rest)
  | scope (parameters : List (Located String × Ty)) {inner rest : List Event}
      (distinct : (parameters.map fun parameter => parameter.1.value).Nodup)
      (inside : Balanced inner) (after : Balanced rest) :
      Balanced
        (.entered :: (parameters.map Event.binding ++ inner ++ .left :: rest))

namespace Balanced

theorem append {first second : List Event} (before : Balanced first)
    (after : Balanced second) :
    Balanced (first ++ second) := by
  induction before with
  | nil => exact after
  | typed span type _ ih => exact .typed span type ih
  | scope parameters distinct inside _ _ ih =>
      simpa [List.append_assoc] using
        Balanced.scope parameters distinct inside ih

end Balanced

namespace Inference

variable {α β : Type}

@[simp]
theorem outcome_pure (value : α) :
    (pure value : Inference α).outcome = .ok value := rfl

@[simp]
theorem trace_pure (value : α) : (pure value : Inference α).trace = [] := rfl

theorem trace_bind_of_ok {inference : Inference α} {value : α}
    (next : α → Inference β) (found : inference.outcome = .ok value) :
    (inference >>= next).trace = inference.trace ++ (next value).trace := by
  simp [bind, found]

theorem trace_bind_of_error {inference : Inference α} {fault : Fault}
    (next : α → Inference β) (failed : inference.outcome = .error fault) :
    (inference >>= next).trace = inference.trace := by
  simp [bind, failed]

theorem outcome_bind_of_ok {inference : Inference α} {value : α}
    (next : α → Inference β) (found : inference.outcome = .ok value) :
    (inference >>= next).outcome = (next value).outcome := by
  simp [bind, found]

theorem outcome_bind_of_error {inference : Inference α} {fault : Fault}
    (next : α → Inference β) (failed : inference.outcome = .error fault) :
    (inference >>= next).outcome = .error fault := by
  simp [bind, failed]

/-- Inferences that are balanced step by step are balanced. -/
theorem balanced_bind {inference : Inference α} {next : α → Inference β}
    (first : Balanced inference.trace)
    (second : ∀ value, Balanced (next value).trace) :
    Balanced (inference >>= next).trace := by
  cases found : inference.outcome with
  | error fault =>
      rw [trace_bind_of_error next found]
      exact first
  | ok value =>
      rw [trace_bind_of_ok next found]
      exact first.append (second value)

theorem balanced_recorded {span : Span} {inference : Inference Ty}
    (balanced : Balanced inference.trace) :
    Balanced (recorded span inference).trace := by
  refine balanced_bind balanced fun type => ?_
  refine balanced_bind (.typed span type .nil) fun _ => .nil

/--
What is traced while parameters are bound: those before the first repetition.
-/
theorem trace_bindAll (bound : List String)
    (parameters : List (Located String × Ty)) :
    ∃ fresh : List (Located String × Ty),
      (bindAll bound parameters).trace = fresh.map Event.binding ∧
      (fresh.map fun parameter => parameter.1.value).Nodup ∧
      ∀ parameter ∈ fresh, parameter.1.value ∉ bound := by
  induction parameters generalizing bound with
  | nil => exact ⟨[], rfl, List.nodup_nil, by simp⟩
  | cons parameter rest ih =>
      obtain ⟨located, type⟩ := parameter
      unfold bindAll
      split
      · exact ⟨[], rfl, List.nodup_nil, by simp⟩
      · next free =>
          obtain ⟨fresh, traced, distinct, apart⟩ := ih (located.value :: bound)
          refine ⟨(located, type) :: fresh, ?_, ?_, ?_⟩
          · rw [trace_bind_of_ok _ rfl, traced]
            rfl
          · simp only [List.map_cons, List.nodup_cons]
            refine ⟨?_, distinct⟩
            intro repeated
            obtain ⟨other, found, sameName⟩ := List.mem_map.mp repeated
            exact apart other found (by simp [sameName])
          · intro other found
            rcases List.mem_cons.mp found with same | later
            · subst same
              exact free
            · intro taken
              exact apart other later (List.mem_cons_of_mem _ taken)

/-- A scope that binds parameters and then holds an inference is balanced. -/
theorem balanced_inScope {parameters : List (Located String × Ty)}
    {body : Inference α} (balanced : Balanced body.trace) :
    Balanced (inScope (bindAll [] parameters >>= fun _ => body)).trace := by
  obtain ⟨fresh, traced, distinct, -⟩ := trace_bindAll [] parameters
  cases found : (bindAll [] parameters).outcome with
  | error fault =>
      have opened := Balanced.scope fresh distinct .nil .nil
      simpa [inScope, trace_bind_of_error _ found, traced] using opened
  | ok value =>
      have opened := Balanced.scope fresh distinct balanced .nil
      simpa [inScope, trace_bind_of_ok _ found, traced] using opened

end Inference

namespace Context

mutual

/-- The trace of an inference is balanced, whatever is found. -/
theorem balanced_infer (context : Context) :
    (expression : Expr) → Balanced (context.infer expression).trace
  | .literal span value => by
      rw [infer]
      exact Inference.balanced_recorded .nil
  | .path span root segments => by
      rw [infer]
      refine Inference.balanced_recorded
        (Inference.balanced_bind .nil fun start => ?_)
      exact Inference.balanced_bind (balanced_inferSegments context _ segments)
        fun _ => .nil
  | .binary span left operator right => by
      rw [infer]
      refine Inference.balanced_recorded
        (Inference.balanced_bind (balanced_infer context left) fun _ => ?_)
      exact Inference.balanced_bind (balanced_infer context right) fun _ => .nil
  | .unary span operator operand => by
      rw [infer]
      exact Inference.balanced_recorded
        (Inference.balanced_bind (balanced_infer context operand) fun _ => .nil)
  | .conditional span condition thenBranch elseBranch => by
      rw [infer]
      refine Inference.balanced_recorded
        (Inference.balanced_bind (balanced_infer context condition) fun _ => ?_)
      refine Inference.balanced_bind (balanced_infer context thenBranch)
        fun _ => ?_
      exact Inference.balanced_bind (balanced_infer context elseBranch) fun _ =>
        .nil
  | .matching span subject arms => by
      rw [infer]
      refine Inference.balanced_recorded
        (Inference.balanced_bind (balanced_infer context subject) fun _ => ?_)
      exact Inference.balanced_bind (balanced_inferArms context _ arms) fun _ =>
        .nil
  | .lambda span parameters body => by
      rw [infer]
      refine Inference.balanced_recorded
        (Inference.balanced_bind ?_ fun _ => .nil)
      exact Inference.balanced_inScope (balanced_infer _ body)
  | .aggregate span function source => by
      rw [infer]
      refine Inference.balanced_recorded
        (Inference.balanced_bind (balanced_infer context source) fun _ => ?_)
      exact Inference.balanced_bind .nil fun _ => .nil
  | .aggregateWith span function source lambdaSpan parameters body => by
      rw [infer]
      refine Inference.balanced_recorded
        (Inference.balanced_bind (balanced_infer context source) fun _ => ?_)
      refine Inference.balanced_bind .nil fun element => ?_
      split
      · refine Inference.balanced_bind
          (Inference.balanced_inScope (balanced_infer _ body)) fun type => ?_
        exact Inference.balanced_bind (.typed lambdaSpan _ .nil) fun _ => .nil
      · exact .nil
  | .lookup span table keys => by
      rw [infer]
      refine Inference.balanced_recorded ?_
      split
      · exact .nil
      · refine Inference.balanced_bind (balanced_inferAll context keys)
          fun found => ?_
        split
        · exact Inference.balanced_bind .nil fun _ => .nil
        · exact .nil
termination_by structural expression => expression

theorem balanced_inferSegments (context : Context) (walk : Walk) :
    (segments : List Segment) →
      Balanced (context.inferSegments walk segments).trace
  | [] => .nil
  | .field span name optional :: rest => by
      rw [inferSegments]
      exact Inference.balanced_bind .nil fun _ =>
        balanced_inferSegments context _ rest
  | .index span position optional :: rest => by
      rw [inferSegments]
      refine Inference.balanced_bind (balanced_infer context position) fun _ =>
        ?_
      exact Inference.balanced_bind .nil fun _ =>
        balanced_inferSegments context _ rest
termination_by structural segments => segments

theorem balanced_inferArms (context : Context) (subject : Ty) :
    (arms : List Arm) → Balanced (context.inferArms subject arms).trace
  | [] => .nil
  | .mk span pattern body :: rest => by
      rw [inferArms]
      refine Inference.balanced_bind .nil fun _ => ?_
      refine Inference.balanced_bind (balanced_infer context body) fun _ => ?_
      exact Inference.balanced_bind (balanced_inferArms context subject rest)
        fun _ => .nil
termination_by structural arms => arms

theorem balanced_inferAll (context : Context) :
    (expressions : List Expr) → Balanced (context.inferAll expressions).trace
  | [] => .nil
  | expression :: rest => by
      rw [inferAll]
      refine Inference.balanced_bind (balanced_infer context expression)
        fun _ => ?_
      exact Inference.balanced_bind (balanced_inferAll context rest) fun _ =>
        .nil
termination_by structural expressions => expressions

end

/-- Checking a rule leaves every scope that it enters. -/
theorem balanced_checkRule (context : Context) (target : Ty) (rule : Rule) :
    Balanced (context.checkRule target rule).trace := by
  refine Inference.balanced_bind .nil fun expected => ?_
  refine Inference.balanced_bind (balanced_infer context rule.value)
    fun found => ?_
  split
  · exact .nil
  · exact .nil

end Context

end SchemaMap
