import SchemaMap.Analysis.Basic

/-!
# Analysis of pipelines

Every step of a pipeline must be a transform.  With the rule of chaining, what a
step produces must be accepted by the next one, unless the signature of one of
the two did not resolve.
-/

namespace SchemaMap

namespace Context

/-- The fault of a step that does not accept what the one before it produces. -/
def chainingFault? (context : Context) (previous : String) (before : Signature)
    (step : Located String) (signature : Signature) : Option Fault :=
  if context.config.pipelineChaining && before.isResolved &&
      signature.isResolved &&
      !context.accepts before.target signature.source then
    some ⟨.stepMismatch previous step.value before.target.text
      signature.source.text, step.span⟩
  else
    none

/--
The faults of the steps of a pipeline; `previous` is the transform right before
them.
-/
def stepFaults (context : Context) (previous : Option (String × Signature)) :
    List (Located String) → List Fault
  | [] => []
  | step :: rest =>
      match context.kind step.value with
      | none =>
          ⟨.unknownTransform step.value, step.span⟩ ::
            context.stepFaults none rest
      | some (.transform signature) =>
          (previous.bind fun before =>
            context.chainingFault? before.1 before.2 step signature).toList ++
            context.stepFaults (some (step.value, signature)) rest
      | some kind =>
          ⟨.notATransform step.value kind.text, step.span⟩ ::
            context.stepFaults none rest

end Context

/-- Report what is wrong with the steps of a pipeline. -/
def Analysis.checkPipeline (config : Config) (analysis : Analysis)
    (declaration : PipelineDeclaration) :
    Analysis :=
  analysis.reportAll
    ((analysis.context config none).stepFaults none declaration.steps)

end SchemaMap
