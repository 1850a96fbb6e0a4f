import SchemaMap.Proofs.Analysis.Changes
import SchemaMap.Proofs.Inference.Nodes
import SchemaMap.Proofs.WellTyped

/-!
# The types that an analysis records

An analysis keeps the types of expressions under their spans.  In an accepted
program every expression inside a rule has been typed, and where all spans
differ no type replaces another, so that each expression is found under its span
with the type that the rules of typing give it (`expressionType?_analyze`).
-/

namespace SchemaMap

/-! ## Types that changes note -/

/-- The type that a change notes. -/
def Change.noted? : Change → Option (Span × Ty)
  | .noteType span type => some (span, type)
  | _ => none

/-- The changes of a trace note what the trace tells. -/
theorem Change.filterMap_noted?_trace (trace : List Event) :
    (trace.map Event.change).filterMap Change.noted? =
      trace.filterMap Event.noted? := by
  rw [List.filterMap_map]
  congr 1
  funext event
  cases event <;> rfl

theorem Change.filterMap_noted?_eq_nil {α : Type} {make : α → Change}
    (silent : ∀ entry, (make entry).noted? = none) (entries : List α) :
    (entries.map make).filterMap Change.noted? = [] := by
  rw [List.filterMap_eq_nil_iff, List.forall_mem_map]
  exact fun entry _ => silent entry

namespace Analysis

/-- A change enters what it notes and nothing else. -/
theorem expressions_change (analysis : Analysis) (change : Change) :
    (analysis.change change).types.expressions =
      change.noted?.toList.foldl (fun known entry =>
        known.insert entry.1 entry.2) analysis.types.expressions := by
  cases change with
  | bindVariable name type span =>
      show (analysis.bindVariable name type span).types.expressions =
          analysis.types.expressions
      rw [types_bindVariable]
  | _ => rfl

/-- The recorded types are those that the changes note. -/
theorem expressions_changed (analysis : Analysis) (changes : List Change) :
    (analysis.changed changes).types.expressions =
      (changes.filterMap Change.noted?).foldl
        (fun known entry => known.insert entry.1 entry.2)
        analysis.types.expressions := by
  induction changes generalizing analysis with
  | nil => rfl
  | cons change rest ih =>
      rw [changed_cons, ih, expressions_change, ← List.foldl_append]
      congr 1
      cases noted : change.noted? with
      | none => rw [List.filterMap_cons_none noted]; rfl
      | some entry => rw [List.filterMap_cons_some noted]; rfl

end Analysis

/-- Rules note the types that their inferences tell. -/
theorem Context.filterMap_noted?_ruleChanges (context : Context) (target : Ty)
    (assigned : List String) (rules : List Rule) :
    (context.ruleChanges target assigned rules).filterMap Change.noted? =
      rules.flatMap fun rule => (context.checkRule target rule).noted := by
  induction rules generalizing assigned with
  | nil => rfl
  | cons rule rest ih =>
      have again : (if rule.targetText ∈ assigned then
          [Change.report ⟨.duplicateTarget rule.targetText, rule.span⟩] else
            []).filterMap Change.noted? = [] := by
        split <;> rfl
      rw [Context.ruleChanges, List.filterMap_append, List.filterMap_append,
        List.filterMap_append, again, Change.filterMap_noted?_trace,
        Change.filterMap_noted?_eq_nil fun _ => rfl, ih, List.flatMap_cons,
        List.nil_append, List.append_nil]
      rfl

namespace Program

/-- The types that are noted for the rules of a declaration. -/
def noted (config : Config) (program : Program) : Declaration → List (Span × Ty)
  | .transform declaration =>
      match program.names.signature declaration with
      | .ok signature =>
          declaration.rules.flatMap fun rule =>
            ((Analysis.bodyContext config program.kind? declaration
              signature).checkRule signature.target rule).noted
      | .error _ => []
  | _ => []

theorem filterMap_noted?_transformChanges (config : Config) (program : Program)
    (entry : Nat × Declaration) :
    (program.transformChanges config entry).filterMap Change.noted? =
      program.noted config entry.2 := by
  rcases entry with ⟨id, declaration⟩
  cases declaration with
  | transform declaration =>
      simp only [transformChanges, noted]
      cases program.names.signature declaration with
      | error fault => rfl
      | ok signature =>
          show (program.bodyChanges config declaration signature).filterMap
              Change.noted? = _
          have sources (named : List (SourceDeclaration × Ty)) : (sourceChanges
              named).filterMap Change.noted? = [] :=
            Change.filterMap_noted?_eq_nil (fun _ => rfl) _
          rw [bodyChanges, List.cons_append, List.cons_append,
            List.filterMap_cons_none rfl, List.filterMap_append,
            List.filterMap_append, sources,
            Context.filterMap_noted?_ruleChanges, List.nil_append]
          exact List.append_nil _
  | _ => rfl

/-- The types that a program notes are those of its rules. -/
theorem filterMap_noted?_changes (config : Config) (program : Program) :
    (program.changes config).filterMap Change.noted? =
      program.owners.flatMap (program.noted config) := by
  have units (entry : Nat × Declaration) : (program.unitChanges entry).filterMap
      Change.noted? = [] := by
    unfold unitChanges
    split
    · split <;> rfl
    · rfl
  have enums (entry : Nat × Declaration) : (enumChanges entry).filterMap
      Change.noted? = [] := by
    unfold enumChanges
    split <;> rfl
  have schemas (entry : Nat ×
      Declaration) : (program.schemaChanges entry).filterMap Change.noted? =
      [] := by
    unfold schemaChanges
    split
    · split <;> rfl
    · rfl
  have lookups (entry : Nat ×
      Declaration) : (program.lookupChanges entry).filterMap Change.noted? =
      [] := by
    unfold lookupChanges
    split
    · split <;> rfl
    · rfl
  have pipelines (entry : Nat ×
      Declaration) : (program.pipelineChanges config entry).filterMap
      Change.noted? = [] :=
    Change.filterMap_noted?_eq_nil (fun _ => rfl) _
  have dimensions (names : List String) : (names.map
      Change.noteDimension).filterMap Change.noted? = [] :=
    Change.filterMap_noted?_eq_nil (fun _ => rfl) names
  have reports (faults : List Fault) : (faults.map Change.report).filterMap
      Change.noted? = [] :=
    Change.filterMap_noted?_eq_nil (fun _ => rfl) faults
  have none {α : Type} (entries : List α) : (entries.flatMap fun _ =>
      ([] : List (Span × Ty))) = [] :=
    List.flatMap_eq_nil_iff.mpr fun _ _ => rfl
  rw [← SymbolTable.map_snd_ownedDeclarations, List.flatMap_map]
  simp only [changes, List.filterMap_append, List.filterMap_flatMap, dimensions,
    units, enums, schemas, reports, lookups, filterMap_noted?_transformChanges,
    pipelines, none, List.nil_append, List.append_nil]

end Program

/-! ## Recorded types -/

/-- The spans in the rules of a declaration. -/
def Declaration.expressionSpans : Declaration → List Span
  | .transform declaration =>
      declaration.rules.flatMap fun rule => rule.value.spans
  | _ => []

namespace Program

/--
The spans of all expressions in the rules of a program, and of the lambdas of
aggregates there.
-/
def expressionSpans (program : Program) : List Span :=
  program.flatMap Declaration.expressionSpans

/-- The type that belongs to a span in a rule of a declaration. -/
inductive DeclarationNotes (config : Config) (program : Program) :
    Declaration → Span → Ty → Prop where
  | rule {declaration : TransformDeclaration} {signature : Signature}
      {rule : Rule} {span : Span} {source type : Ty}
      (typed : declaration.HasSignature program.declared signature)
      (taken : signature.HasSource source) (listed : rule ∈ declaration.rules)
      (noted : Notes (ruleEnvironment config program.declared program.number
        signature source)
        rule.value span type) :
      DeclarationNotes config program (.transform declaration) span type

variable {config : Config} {program : Program}
  (distinct : (program.map Declaration.name).Nodup)
  (wellTyped : WellTyped config program.declared program.number)

include distinct wellTyped

/-- What is noted for a well-typed declaration are the types in its rules. -/
theorem noted_of_wellTyped {declaration : Declaration}
    (member : declaration ∈ program.declared) :
    (program.noted config declaration).map Prod.fst =
      declaration.expressionSpans ∧
      ∀ span type, (span, type) ∈ program.noted config declaration ↔
        program.DeclarationNotes config declaration span type := by
  cases declaration with
  | transform declaration =>
      rcases (wellTyped.transforms declaration member).rules with
        ⟨signature, source, typed, taken, fits⟩
      have found := (signature_eq_ok_iff distinct).mpr typed
      have realizes :=
        realizes_bodyContext distinct wellTyped.toResolved config typed taken
      have tells :=
        fun rule listed => Context.tells_checkRule realizes (fits rule listed)
      simp only [noted, found, Declaration.expressionSpans]
      constructor
      · rw [List.map_flatMap]
        exact List.flatMap_congr fun rule listed => (tells rule listed).spans
      · intro span type
        rw [List.mem_flatMap]
        constructor
        · rintro ⟨rule, listed, noted⟩
          exact .rule typed taken listed
            (((tells rule listed).told span type).mp noted)
        · rintro (@⟨_, other, rule, _, _, _, otherTyped, otherTaken, listed,
            noted⟩)
          cases Except.ok.inj
            (found.symm.trans ((signature_eq_ok_iff distinct).mpr otherTyped))
          cases (Signature.hasSource_iff.mp otherTaken).symm.trans
            (Signature.hasSource_iff.mp taken)
          exact ⟨rule, listed, ((tells rule listed).told span type).mpr noted⟩
  | _ =>
      refine ⟨rfl,
        fun span type => ⟨fun member => absurd member List.not_mem_nil, ?_⟩⟩
      rintro ⟨⟩

end Program

namespace Analysis

/--
The types of expressions are those that the changes note, the last for each
position.
-/
theorem expressions_analyze (config : Config) (program : Program) :
    (analyze config program).types.expressions =
      .ofList ((program.changes config).filterMap Change.noted?) := by
  rw [analyze_eq_changed, expressions_changed]
  rfl

/-- Every recorded type was noted for a rule of a transform. -/
theorem exists_rule_of_expressionType? {config : Config} {program : Program}
    {span : Span} {type : Ty}
    (recorded : (analyze config program).expressionType? span = some type) :
    ∃ declaration signature,
      program.names.signature declaration = .ok signature ∧
      ∃ rule ∈ declaration.rules, (span, type) ∈
        ((bodyContext config program.kind? declaration signature).checkRule
          signature.target rule).noted := by
  rw [expressionType?, expressions_analyze] at recorded
  have member := Dictionary.mem_of_get?_ofList recorded
  rw [Program.filterMap_noted?_changes, List.mem_flatMap] at member
  rcases member with ⟨declaration, -, noted⟩
  cases declaration with
  | transform declaration =>
      rw [Program.noted] at noted
      split at noted
      · next signature resolved =>
          rcases List.mem_flatMap.mp noted with ⟨rule, listed, here⟩
          exact ⟨declaration, signature, resolved, rule, listed, here⟩
      · contradiction
  | _ => contradiction

/--
In an accepted program whose expressions have distinct spans, types are recorded
for exactly these spans, and the type at a span is the one that the rules of
typing give to the expression there.
-/
theorem expressionType?_analyze (config : Config) (program : Program)
    (accepted : (analyze config program).isAccepted = true)
    (apart : program.expressionSpans.Nodup) :
    (∀ span, ((analyze config program).expressionType? span).isSome ↔
      span ∈ program.expressionSpans) ∧
      ∀ span type, (analyze config program).expressionType? span = some type ↔
        ∃ declaration ∈ program,
          program.DeclarationNotes config declaration span type := by
  rw [isAccepted_analyze_iff, Program.faults_eq_nil_iff_wellTyped] at accepted
  have each (declaration : Declaration) (member : declaration ∈ program) :=
    Program.noted_of_wellTyped accepted.1 accepted.2 member
  have noted : (program.changes config).filterMap Change.noted? =
      program.flatMap (program.noted config) := by
    rw [Program.filterMap_noted?_changes, Program.owners_eq_of_nodup accepted.1]
  have spans : (program.flatMap (program.noted config)).map Prod.fst =
      program.expressionSpans := by
    rw [List.map_flatMap]
    exact List.flatMap_congr fun declaration member =>
      (each declaration member).1
  have recorded (span : Span)
      (type : Ty) : (analyze config program).expressionType? span = some type ↔
      (span, type) ∈ program.flatMap (program.noted config) := by
    rw [expressionType?, expressions_analyze, noted]
    exact Dictionary.get?_ofList_eq_some_iff (by rw [spans]; exact apart)
  constructor
  · intro span
    rw [Option.isSome_iff_exists, ← spans, List.mem_map]
    simp only [recorded]
    constructor
    · rintro ⟨type, member⟩
      exact ⟨(span, type), member, rfl⟩
    · rintro ⟨⟨_, type⟩, member, rfl⟩
      exact ⟨type, member⟩
  · intro span type
    rw [recorded, List.mem_flatMap]
    exact exists_congr fun declaration =>
      and_congr_right fun member => (each declaration member).2 span type

end Analysis

/-- A rule with an index, a condition and an aggregate. -/
def receipts : Program :=
  [.schema { name := "Line",
             fields :=
               [{ name := "amount", type := .primitive .unknown .int }] },
    .schema
      { name := "Basket"
        fields :=
          [{ name := "lines",
             type := .array .unknown (.schemaName .unknown "Line") }] },
    .schema { name := "Receipt",
              fields :=
                [{ name := "total", type := .primitive .unknown .int }] },
    .transform
      { name := "Total"
        sources := [{ type := .schemaName .unknown "Basket" }]
        target := .schemaName .unknown "Receipt"
        rules :=
          [{ target := [⟨"total", .unknown⟩]
             value :=
               .conditional ⟨0, 60⟩
                 (.binary ⟨3, 26⟩
                   (.path ⟨3, 21⟩ .source
                     [.field .unknown "lines" false,
                       .index .unknown (.literal ⟨11, 12⟩ (.int 0)) false,
                       .field .unknown "amount" false])
                   .equal (.literal ⟨25, 26⟩ (.int 0)))
                 (.literal ⟨29, 30⟩ (.int 0))
                 (.aggregateWith ⟨33, 60⟩ .sum
                   (.path ⟨37, 44⟩ .source [.field .unknown "lines" false])
                   ⟨46, 59⟩
                   [⟨"line", .unknown⟩] (.path ⟨51, 59⟩ (.named "line")
                     [.field .unknown "amount" false])) }] }]

/--
In an accepted program exactly the positions of its expressions have a type, the
one that the rules give.
-/
theorem expressionType?_analyze_receipts :
    (analyze {} receipts).isAccepted = true ∧ receipts.expressionSpans.Nodup ∧
    (∀ span, ((analyze {} receipts).expressionType? span).isSome ↔
      span ∈
        [⟨11, 12⟩, ⟨3, 21⟩, ⟨25, 26⟩, ⟨3, 26⟩, ⟨29, 30⟩, ⟨37, 44⟩, ⟨51, 59⟩,
          ⟨46, 59⟩, ⟨33, 60⟩, ⟨0, 60⟩]) ∧
    ∀ span type, (analyze {} receipts).expressionType? span = some type ↔
      ∃ declaration ∈ receipts,
        receipts.DeclarationNotes {} declaration span type := by
  have accepted : (analyze {} receipts).isAccepted = true := by decide +kernel
  have apart : receipts.expressionSpans.Nodup := by decide
  exact ⟨accepted, apart,
    Analysis.expressionType?_analyze {} receipts accepted apart⟩

end SchemaMap
