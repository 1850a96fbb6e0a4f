import SchemaMap.Diagnostic.Problem
import SchemaMap.Symbol.Kind

/-!
# Traces of inference

Inference gives a type or a fault, and leaves a trace: the types it found, the
scopes it opened and the variables it bound there, in this order.  The trace is
written and never read, so what inference finds cannot depend on it.  A fault
ends the inference; what was traced before it stays.
-/

namespace SchemaMap

/-- What inference leaves behind. -/
inductive Event where
  /-- An expression at this span has this type. -/
  | typed (span : Span) (type : Ty)
  /-- The scope of a lambda is opened. -/
  | entered
  /-- A parameter is bound in the open scope. -/
  | bound (name : String) (type : Ty) (span : Span)
  /-- The open scope is closed. -/
  | left

/-- A result or a fault, and what was left behind on the way. -/
structure Inference (α : Type) where
  outcome : Except Fault α
  trace : List Event := []

namespace Inference

instance : Monad Inference where
  pure value := { outcome := .ok value }
  bind inference next :=
    match inference.outcome with
    | .error fault => { outcome := .error fault, trace := inference.trace }
    | .ok value =>
        let rest := next value
        { outcome := rest.outcome, trace := inference.trace ++ rest.trace }

/-- End in a fault. -/
def fail {α : Type} (problem : Problem) (span : Span) : Inference α :=
  { outcome := .error ⟨problem, span⟩ }

/-- A result that leaves nothing behind. -/
def ofExcept {α : Type} (outcome : Except Fault α) : Inference α :=
  { outcome := outcome }

/-- Leave an event behind. -/
def emit (event : Event) : Inference Unit :=
  { outcome := .ok (), trace := [event] }

/-- Note the type that is found for the expression at a span. -/
def recorded (span : Span) (inference : Inference Ty) : Inference Ty := do
  let type ← inference
  emit (.typed span type)
  return type

/-- Infer inside a scope of its own, which is closed whatever is found. -/
def inScope {α : Type} (inference : Inference α) : Inference α :=
  { outcome := inference.outcome
    trace := .entered :: inference.trace ++ [.left] }

/--
Bind parameters in the open scope; a name that is bound there already is a
fault.
-/
def bindAll (bound : List String) : List (Located String × Ty) → Inference Unit
  | [] => pure ()
  | (parameter, type) :: rest =>
      if parameter.value ∈ bound then
        fail (.duplicateDefinition parameter.value) parameter.span
      else do
        emit (.bound parameter.value type parameter.span)
        bindAll (parameter.value :: bound) rest

end Inference

end SchemaMap
