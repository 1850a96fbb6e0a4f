import SchemaMap.Analysis.Basic
import SchemaMap.Proofs.Inference.Trace
import SchemaMap.Proofs.Symbol.Table

/-!
# What an analysis keeps and what it tells

Taking over the trace of an inference changes nothing that a declaration can
see: the table is extended, and the faults, the units and the dimensions stay as
they are (`Quiet`).

Of the faults of an analysis only what is told about them is compared.  A fault
that tells nothing new is dropped, so reporting adds to the set of diagnostics
and never takes away (`Adds`).
-/

namespace SchemaMap.Analysis

/-! ## Quiet changes -/

/-- The table is extended and types are noted; nothing else changes. -/
structure Quiet (before after : Analysis) : Prop where
  table : before.table.Extends after.table
  faults : after.faults = before.faults
  units : after.types.units = before.types.units
  dimensions : after.types.dimensions = before.types.dimensions

namespace Quiet

theorem refl (analysis : Analysis) : analysis.Quiet analysis :=
  ⟨.refl _, rfl, rfl, rfl⟩

theorem trans {first second third : Analysis} (before : first.Quiet second)
    (after : second.Quiet third) :
    first.Quiet third :=
  ⟨before.table.trans after.table, after.faults.trans before.faults,
    after.units.trans before.units,
    after.dimensions.trans before.dimensions⟩

end Quiet

/-- Distinct parameters are bound in an open scope without a fault. -/
private theorem opened_foldl_follow {outer : SymbolTable}
    {bound : List (String × Ty)} {analysis : Analysis}
    (opened : outer.Opened bound analysis.table)
    (parameters : List (Located String × Ty))
    (distinct : (bound.map Prod.fst ++
      parameters.map fun parameter => parameter.1.value).Nodup) :
    ∃ final,
      outer.Opened final
        ((parameters.map Event.binding).foldl follow analysis).table ∧
      ((parameters.map Event.binding).foldl follow analysis).faults =
        analysis.faults ∧
      ((parameters.map Event.binding).foldl follow analysis).types =
        analysis.types := by
  induction parameters generalizing bound analysis with
  | nil => exact ⟨bound, opened, rfl, rfl⟩
  | cons parameter rest ih =>
      obtain ⟨located, type⟩ := parameter
      have free : located.value ∉ bound.map Prod.fst := by
        intro taken
        exact (List.nodup_append.mp distinct).2.2 _ taken _ (by simp) rfl
      obtain ⟨next, defined, nextOpened⟩ :=
        opened.define_eq_ok located.value type located.span free
      have step : analysis.follow (Event.binding (located, type)) =
          { analysis with table := next } := by
        simp [follow, Event.binding, bindVariable, defined]
      rw [List.map_cons, List.foldl_cons, step]
      exact ih nextOpened (by simpa using distinct)

/-- A balanced trace is taken over quietly. -/
theorem quiet_foldl_follow {trace : List Event} (balanced : Balanced trace)
    (analysis : Analysis) :
    analysis.Quiet (trace.foldl follow analysis) := by
  induction balanced generalizing analysis with
  | nil => exact .refl analysis
  | typed span type after ih =>
      have noted : analysis.Quiet (analysis.noteType span type) :=
        ⟨.refl _, rfl, rfl, rfl⟩
      exact noted.trans (ih _)
  | @scope parameters inner rest distinct inside after insideQuiet afterQuiet =>
      have entered : analysis.table.Opened [] (analysis.enter .lambda).table :=
        SymbolTable.Opened.enter analysis.table .lambda
      obtain ⟨bound, opened, faults, types⟩ :=
        opened_foldl_follow entered parameters (by simpa using distinct)
      have body :=
        insideQuiet
          ((parameters.map Event.binding).foldl follow (analysis.enter .lambda))
      rw [List.foldl_cons, List.foldl_append, List.foldl_append,
        List.foldl_cons]
      refine Quiet.trans ?_ (afterQuiet _)
      refine ⟨opened.exit_extends body.table, ?_, ?_, ?_⟩
      · exact body.faults.trans faults
      · exact body.units.trans (congrArg TypeInfo.units types)
      · exact body.dimensions.trans (congrArg TypeInfo.dimensions types)

/-! ## Faults as sets of diagnostics -/

/-- What is told after is what was told before and what the faults tell. -/
def Adds (before after : Analysis) (faults : List Fault) : Prop :=
  ∀ diagnostic, diagnostic ∈ after.diagnostics ↔
    diagnostic ∈ before.diagnostics ∨ diagnostic ∈ faults.map Fault.diagnostic

namespace Adds

/-- Nothing is added where the faults stay the same. -/
theorem of_faults_eq {before after : Analysis}
    (same : after.faults = before.faults) : before.Adds after [] := by
  intro diagnostic
  simp [diagnostics, same]

theorem trans {first second third : Analysis} {earlier later : List Fault}
    (before : first.Adds second earlier) (after : second.Adds third later) :
    first.Adds third (earlier ++ later) := by
  intro diagnostic
  rw [after diagnostic, before diagnostic, List.map_append, List.mem_append,
    or_assoc]

end Adds

theorem adds_report (analysis : Analysis) (fault : Fault) :
    analysis.Adds (analysis.report fault) [fault] := by
  intro diagnostic
  simp only [diagnostics, report, Fault.report]
  split
  · next known =>
      -- The fault is dropped because the same is told already.
      simp only [List.any_eq_true, decide_eq_true_eq] at known
      obtain ⟨other, found, same⟩ := known
      constructor
      · exact Or.inl
      · rintro (told | told)
        · exact told
        · rw [List.map_singleton, List.mem_singleton] at told
          exact List.mem_map.mpr ⟨other, found, same.trans told.symm⟩
  · simp

theorem adds_reportAll (analysis : Analysis) (faults : List Fault) :
    analysis.Adds (analysis.reportAll faults) faults := by
  induction faults generalizing analysis with
  | nil => exact .of_faults_eq rfl
  | cons fault rest ih =>
      exact (adds_report analysis fault).trans (ih (analysis.report fault))

/-- Variables go into the table. -/
theorem types_bindVariable (analysis : Analysis) (name : String) (type : Ty)
    (span : Span) :
    (analysis.bindVariable name type span).types = analysis.types := by
  unfold bindVariable
  split <;> rfl

@[simp]
theorem table_reportAll (analysis : Analysis) (faults : List Fault) :
    (analysis.reportAll faults).table = analysis.table := by
  induction faults generalizing analysis with
  | nil => rfl
  | cons fault rest ih => exact ih (analysis.report fault)

@[simp]
theorem types_reportAll (analysis : Analysis) (faults : List Fault) :
    (analysis.reportAll faults).types = analysis.types := by
  induction faults generalizing analysis with
  | nil => rfl
  | cons fault rest ih => exact ih (analysis.report fault)

/-- A program is accepted when nothing is told about it. -/
theorem isAccepted_iff (analysis : Analysis) :
    analysis.isAccepted = true ↔
      ∀ diagnostic, diagnostic ∉ analysis.diagnostics := by
  simp [isAccepted, diagnostics, List.eq_nil_iff_forall_not_mem]

end SchemaMap.Analysis
