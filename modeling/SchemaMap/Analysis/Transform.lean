import SchemaMap.Analysis.Basic

/-!
# Analysis of transforms

The rules of a transform are checked in a scope that binds its named sources.
Every rule is checked, whatever is wrong with the others; a field that a second
rule assigns is reported beside.
-/

namespace SchemaMap.Analysis

/-- Bind the named sources of a transform, the first of each name. -/
def bindSources (analysis : Analysis) : List (SourceDeclaration × Ty) → Analysis
  | [] => analysis
  | (source, type) :: rest =>
      match source.name with
      | none => analysis.bindSources rest
      | some name =>
          (analysis.bindVariable name type source.type.span).bindSources rest

/--
A second rule for a field is reported, before it is checked as the first one
was.
-/
def noteTarget (analysis : Analysis) (assigned : List String) (rule : Rule) :
    Analysis :=
  if rule.targetText ∈ assigned then
    analysis.report ⟨.duplicateTarget rule.targetText, rule.span⟩
  else
    analysis

/--
Check the rules of a transform, each with what the analysis knows before it;
`assigned` holds the targets of the rules before them.
-/
def checkRules (config : Config) (source target : Ty) (assigned : List String)
    (analysis : Analysis) :
    List Rule → Analysis
  | [] => analysis
  | rule :: rest =>
      let noted := analysis.noteTarget assigned rule
      let context := noted.context config (some source)
      checkRules config source target (rule.targetText :: assigned)
        (noted.absorb (context.checkRule target rule) rule.span) rest

/-- Check a transform whose signature is known. -/
def checkBody (config : Config) (analysis : Analysis)
    (declaration : TransformDeclaration) (signature : Signature) : Analysis :=
  let opened :=
    (analysis.enter .transform).bindSources
      (declaration.sources.zip (signature.sources.map Prod.snd))
  (checkRules config signature.source signature.target [] opened
    declaration.rules).exit

/-- Check a transform, or report that its signature does not resolve. -/
def checkTransform (config : Config) (units : UnitTable) (analysis : Analysis)
    (id : Nat) (declaration : TransformDeclaration) : Analysis :=
  match (analysis.names units).signature declaration with
  | .error fault => analysis.report (fault.orAt declaration.span)
  | .ok signature =>
      (analysis.setKind id (.transform signature)).checkBody config declaration
        signature

end SchemaMap.Analysis
