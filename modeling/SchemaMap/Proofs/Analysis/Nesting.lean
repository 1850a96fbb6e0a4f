import SchemaMap.Proofs.Analysis.Changes

/-!
# Scopes are closed

The changes of an analysis open and close scopes.  They close every scope that
they open, and variables are bound only while one is open (`level_changes`),
whatever the program is.
-/

namespace SchemaMap

namespace Change

/--
How many scopes are open after a change, which may close or bind something only
in an open scope.
-/
def depth? (depth : Nat) : Change → Option Nat
  | .enter _ => some (depth + 1)
  | .exit => if depth = 0 then none else some (depth - 1)
  | .bindVariable _ _ _ => if depth = 0 then none else some depth
  | _ => some depth

/-- With enough open scopes, the changes leave as many open as there were. -/
def Level (least : Nat) (changes : List Change) : Prop :=
  ∀ depth, least ≤ depth → changes.foldlM depth? depth = some depth

namespace Level

variable {least : Nat} {changes first second : List Change}

theorem append (before : Level least first) (after : Level least second) :
    Level least (first ++ second) := by
  intro depth enough
  rw [List.foldlM_append, before depth enough]
  exact after depth enough

theorem of_forall
    (each : ∀ change ∈ changes,
      ∀ depth, least ≤ depth → depth? depth change = some depth) :
    Level least changes := by
  intro depth enough
  induction changes with
  | nil => rfl
  | cons change rest ih =>
      rw [List.forall_mem_cons] at each
      rw [List.foldlM_cons, each.1 depth enough]
      exact ih each.2

theorem flatMap {α : Type} {entries : List α} {changes : α → List Change}
    (each : ∀ entry ∈ entries, Level least (changes entry)) :
    Level least (entries.flatMap changes) := by
  induction entries with
  | nil => exact fun _ _ => rfl
  | cons entry rest ih =>
      rw [List.forall_mem_cons] at each
      exact each.1.append (ih each.2)

theorem flatten {phases : List (List Change)}
    (each : ∀ changes ∈ phases, Level least changes) :
    Level least phases.flatten := by
  rw [← List.flatMap_id]
  exact flatMap each

/-- A scope that is opened and closed. -/
theorem scope (least : Nat) (kind : ScopeKind) (inside : Level 1 changes) :
    Level least (.enter kind :: (changes ++ [.exit])) := by
  intro depth _
  show List.foldlM depth? (depth + 1) (changes ++ [.exit]) = some depth
  rw [List.foldlM_append, inside (depth + 1) (by omega)]
  rfl

/-- The changes of a balanced trace are level. -/
theorem trace {trace : List Event} (balanced : Balanced trace) :
    Level least (trace.map Event.change) := by
  induction balanced generalizing least with
  | nil => exact fun _ _ => rfl
  | typed span type _ ih => exact ih
  | scope parameters _ _ _ inner outer =>
      have bindings : Level 1
          ((parameters.map Event.binding).map Event.change) := by
        apply of_forall
        rw [List.map_map, List.forall_mem_map]
        intro parameter _ depth enough
        exact if_neg (by omega)
      have opened := (scope least .lambda (bindings.append inner)).append outer
      simpa [Event.change, List.append_assoc] using opened

end Level

theorem level_report (least : Nat) (faults : List Fault) :
    Level least (faults.map Change.report) := by
  apply Level.of_forall
  rw [List.forall_mem_map]
  exact fun _ _ _ _ => rfl

end Change

namespace Program

open Change

/-- Rules are level inside a scope. -/
theorem level_ruleChanges (context : Context) (target : Ty)
    (assigned : List String) (rules : List Rule) :
    Level 1 (context.ruleChanges target assigned rules) := by
  induction rules generalizing assigned with
  | nil => exact fun _ _ => rfl
  | cons rule rest ih =>
      rw [Context.ruleChanges]
      refine ((Level.append ?_
        (.trace (context.balanced_checkRule target rule))).append
        (level_report 1 _)).append (ih _)
      split
      · exact fun _ _ => rfl
      · exact fun _ _ => rfl

variable (config : Config) (program : Program)

/-- Bodies are level everywhere. -/
theorem level_bodyChanges (declaration : TransformDeclaration)
    (signature : Signature) :
    Level 0 (program.bodyChanges config declaration signature) := by
  have sources : Level 1
      (sourceChanges
        (declaration.sources.zip (signature.sources.map Prod.snd))) := by
    apply Level.of_forall
    rw [sourceChanges, List.forall_mem_map]
    intro source _ depth enough
    exact if_neg (by omega)
  exact Level.scope 0 .transform (sources.append (level_ruleChanges _ _ _ _))

/-- The changes of each phase close every scope that they open. -/
theorem level_phaseChanges :
    ∀ changes ∈ program.phaseChanges config, Level 0 changes := by
  have dimensions (names : List String) : Level 0
      (names.map Change.noteDimension) := by
    apply Level.of_forall
    rw [List.forall_mem_map]
    exact fun _ _ _ _ => rfl
  have units (entry : Nat × Declaration) : Level 0
      (program.unitChanges entry) := by
    unfold unitChanges
    split
    · split <;> exact fun _ _ => rfl
    · exact fun _ _ => rfl
  have enums (entry : Nat × Declaration) : Level 0 (enumChanges entry) := by
    unfold enumChanges
    split <;> exact fun _ _ => rfl
  have schemas (entry : Nat × Declaration) : Level 0
      (program.schemaChanges entry) := by
    unfold schemaChanges
    split
    · split <;> exact fun _ _ => rfl
    · exact fun _ _ => rfl
  have lookups (entry : Nat × Declaration) : Level 0
      (program.lookupChanges entry) := by
    unfold lookupChanges
    split
    · split <;> exact fun _ _ => rfl
    · exact fun _ _ => rfl
  have transforms (entry : Nat × Declaration) : Level 0
      (program.transformChanges config entry) := by
    unfold transformChanges
    split
    · split
      · exact program.level_bodyChanges config _ _
      · exact fun _ _ => rfl
    · exact fun _ _ => rfl
  simp only [phaseChanges, List.forall_mem_cons]
  refine ⟨?_, ?_, ?_, ?_, ?_, List.forall_mem_nil _⟩
  · exact (dimensions _).append (.flatMap fun entry _ => units entry)
  · exact ((Level.flatMap fun entry _ => enums entry).append
      (.flatMap fun entry _ => schemas entry)).append
      (level_report 0 _)
  · exact .flatMap fun entry _ => lookups entry
  · exact .flatMap fun entry _ => transforms entry
  · exact .flatMap fun _ _ => level_report 0 _

/-- The changes of a program close every scope that they open. -/
theorem level_changes : Level 0 (program.changes config) := by
  rw [← flatten_phaseChanges]
  exact .flatten (program.level_phaseChanges config)

end Program

end SchemaMap
