import SchemaMap.Proofs.Repetition

/-!
# The faults of an analysis

An analysis collects faults one by one, and it drops a fault if the same is told
about one that it has.  A change leaves the faults as they are or reports one
more (`faults_change`); what the faults of a whole analysis satisfy, and how
often something is told, follows from that step by step.
-/

namespace SchemaMap

namespace Fault

/-- A fault is added unless the same is told already. -/
theorem report_eq (faults : List Fault) (fault : Fault) :
    Fault.report faults fault =
      if fault.diagnostic ∈ faults.map diagnostic then faults else
        faults ++ [fault] := by
  have same : (faults.any fun known => known.diagnostic = fault.diagnostic) =
      true ↔
      fault.diagnostic ∈ faults.map diagnostic := by
    rw [List.any_eq_true, List.mem_map]
    simp only [decide_eq_true_eq]
  rw [Fault.report]
  exact if_congr same rfl rfl

theorem mem_or_eq_of_mem_report {faults : List Fault} {fault found : Fault}
    (member : found ∈ Fault.report faults fault) :
    found ∈ faults ∨ found = fault := by
  rw [report_eq] at member
  split at member
  · exact .inl member
  · rwa [List.mem_append, List.mem_singleton] at member

theorem mem_map_diagnostic_report {faults : List Fault}
    {diagnostic : Diagnostic} (told : diagnostic ∈ faults.map Fault.diagnostic)
    (fault : Fault) :
    diagnostic ∈ (Fault.report faults fault).map Fault.diagnostic := by
  rw [report_eq]
  split
  · exact told
  · rw [List.map_append]
    exact List.mem_append_left _ told

/-- What is told at most once is not told again. -/
theorem count_report_le_one {faults : List Fault} {diagnostic : Diagnostic}
    (once : (faults.map Fault.diagnostic).count diagnostic ≤ 1)
    (fault : Fault) :
    ((Fault.report faults fault).map Fault.diagnostic).count diagnostic ≤
      1 := by
  rw [report_eq]
  split
  · exact once
  · next fresh =>
      rw [List.map_append, List.count_append, List.map_singleton,
        List.count_singleton]
      by_cases same : fault.diagnostic = diagnostic
      · rw [same] at fresh
        rw [List.count_eq_zero_of_not_mem fresh, Nat.zero_add]
        split <;> decide
      · simpa [same] using once

end Fault

namespace Analysis

section

variable {good : Fault → Prop} (use : ∀ span, Admits good span)

include use

/-- A change leaves the faults as they are or reports one. -/
theorem faults_change (analysis : Analysis) {change : Change}
    (reports : change.Reports good) :
    (analysis.change change).faults = analysis.faults ∨
      ∃ fault, good fault ∧
        (analysis.change change).faults =
          Fault.report analysis.faults fault := by
  cases change with
  | report fault => exact .inr ⟨fault, reports, rfl⟩
  | bindVariable name type span =>
      rw [change, bindVariable]
      split
      · exact .inl rfl
      · next fault failed =>
          rw [SymbolTable.define] at failed
          split at failed
          · cases failed
            exact .inr ⟨_, use _ _ rfl, rfl⟩
          · contradiction
  | _ => exact .inl rfl

/-- If all reported faults are good, so are all faults in the end. -/
theorem good_of_mem_faults_changed {analysis : Analysis} {changes : List Change}
    (reports : ∀ change ∈ changes, change.Reports good)
    (start : ∀ fault ∈ analysis.faults, good fault) :
    ∀ fault ∈ (analysis.changed changes).faults, good fault := by
  refine changed_induction
    (motive := fun analysis => ∀ fault ∈ analysis.faults, good fault)
    (fun change listed before allGood => ?_) start
  rcases before.faults_change use (reports change listed) with
    same | ⟨added, found, faults⟩
  · rwa [same]
  · rw [faults]
    intro fault member
    rcases Fault.mem_or_eq_of_mem_report member with old | rfl
    · exact allGood fault old
    · exact found

/-- A fault of an analysis is one of registration, of use, or of a unit. -/
theorem good_of_mem_faults_analyze {program : Program}
    (early : ∀ fault : Fault, fault.problem.isOfRegistration = true →
      good fault)
    (moved : ∀ fault span, good fault → good (Fault.orAt fault span))
    (units : ∀ name, FailsIn good (program.units.find name)) (config : Config) :
    ∀ fault ∈ (analyze config program).faults, good fault := by
  rw [analyze_eq_changed]
  refine good_of_mem_faults_changed
    use (Program.reports_changes moved use units config) ?_
  exact fun fault member =>
    early fault (SymbolTable.isOfRegistration_register program fault member)

end

theorem reports_true (change : Change) : change.Reports fun _ => True := by
  cases change <;> trivial

/-- What was told stays told. -/
theorem mem_diagnostics_changed {analysis : Analysis} {diagnostic : Diagnostic}
    (told : diagnostic ∈ analysis.diagnostics) (changes : List Change) :
    diagnostic ∈ (analysis.changed changes).diagnostics := by
  refine changed_induction
    (motive := fun analysis => diagnostic ∈ analysis.diagnostics)
    (fun change _ before told => ?_) told
  rw [diagnostics]
  rcases before.faults_change (fun _ _ _ => trivial) (reports_true change) with
    same | ⟨added, -, faults⟩
  · rwa [same]
  · rw [faults]
    exact Fault.mem_map_diagnostic_report told added

/-- What is told at most once is told at most once after any changes. -/
theorem count_diagnostics_changed_le_one {analysis : Analysis}
    {diagnostic : Diagnostic} (once : analysis.diagnostics.count diagnostic ≤ 1)
    (changes : List Change) :
    (analysis.changed changes).diagnostics.count diagnostic ≤ 1 := by
  refine changed_induction
    (motive := fun analysis => analysis.diagnostics.count diagnostic ≤ 1)
    (fun change _ before once => ?_) once
  rw [diagnostics]
  rcases before.faults_change (fun _ _ _ => trivial) (reports_true change) with
    same | ⟨added, -, faults⟩
  · rwa [same]
  · rw [faults]
    exact Fault.count_report_le_one once added

/-- A fault whose diagnostic is told already is dropped. -/
theorem report_of_told {analysis : Analysis} {fault : Fault}
    (told : fault.diagnostic ∈ analysis.diagnostics) :
    analysis.report fault = analysis := by
  rw [report, Fault.report_eq]
  exact congrArg (fun faults => { analysis with faults }) (if_pos told)

end Analysis

end SchemaMap
