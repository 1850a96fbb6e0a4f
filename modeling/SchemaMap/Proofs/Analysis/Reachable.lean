import SchemaMap.Analysis.Program
import SchemaMap.Proofs.Analysis.Frame
import SchemaMap.Proofs.Symbol.Operations

/-!
# Tables of analyses

All phases of an analysis change its table by operations only, so the table is
one that operations lead to (`reachable_analyze`).  In such a table every symbol
of the global scope is what its name stands for (`kind?_of_mem_globals`).
-/

namespace SchemaMap

namespace SymbolTable

/-- Registration is a run of the operations of the table. -/
theorem Reachable.registerFrom {table : SymbolTable}
    (reachable : table.Reachable) (place : Nat) (program : Program) :
    (table.registerFrom place program).1.Reachable := by
  induction program generalizing table place with
  | nil => exact reachable
  | cons declaration rest ih =>
      rw [SymbolTable.registerFrom]
      split
      · next defined => exact ih (reachable.define defined) (place + 1)
      · exact ih reachable (place + 1)

/-- A symbol of the global scope is what its name stands for. -/
theorem WellFormed.kind?_of_mem_globals {table : SymbolTable}
    (wellFormed : table.WellFormed) {symbol : Symbol}
    (member : symbol ∈ table.globals) :
    table.kind? symbol.name = some symbol.kind := by
  rcases List.mem_filter.mp member with ⟨stored, global⟩
  rcases List.getElem?_of_mem stored with ⟨id, found⟩
  have bound : table.lookupIn symbol.scope symbol.name = some id :=
    wellFormed.bound id symbol found
  rw [beq_iff_eq.mp global] at bound
  have known : table.global? symbol.name = some symbol := by
    rw [global?, lookupGlobal, bound]
    exact found
  rw [kind?, known, Option.map_some]

/-- What a name stands for in the global scope is a symbol of it. -/
theorem WellFormed.exists_mem_globals {table : SymbolTable}
    (wellFormed : table.WellFormed) {name : String} {kind : Kind}
    (known : table.kind? name = some kind) :
    ∃ symbol ∈ table.globals, symbol.name = name ∧ symbol.kind = kind := by
  rcases Option.map_eq_some_iff.mp known with ⟨symbol, global, sameKind⟩
  rcases Option.bind_eq_some_iff.mp global with ⟨id, found, stored⟩
  rcases wellFormed.stored 0 name id found with
    ⟨other, otherStored, named, placed⟩
  cases stored.symm.trans otherStored
  refine ⟨symbol, List.mem_filter.mpr ⟨List.mem_of_getElem? stored, ?_⟩, named,
    sameKind⟩
  rw [placed]
  rfl

end SymbolTable

namespace Analysis

variable {analysis : Analysis} (reachable : analysis.table.Reachable)

include reachable

theorem reachable_bindVariable (name : String) (type : Ty) (span : Span) :
    (analysis.bindVariable name type span).table.Reachable := by
  unfold bindVariable
  split
  · next defined => exact reachable.define defined
  · exact reachable

/-- An event is a run of the operations of the table. -/
theorem reachable_follow (event : Event) :
    (analysis.follow event).table.Reachable := by
  cases event with
  | typed span type => exact reachable
  | entered => exact reachable.enter .lambda
  | bound name type span =>
      exact reachable_bindVariable reachable name type span
  | left => exact reachable.exit

/--
A phase whose steps change the table by operations changes it by operations.
-/
theorem reachable_foldl {α : Type} (step : Analysis → α → Analysis)
    (each : ∀ {analysis : Analysis} (entry : α), analysis.table.Reachable →
      (step analysis entry).table.Reachable)
    (entries : List α) : (entries.foldl step analysis).table.Reachable := by
  induction entries generalizing analysis with
  | nil => exact reachable
  | cons entry rest ih => exact ih (each entry reachable)

theorem reachable_absorb (inference : Inference Unit) (fallback : Span) :
    (analysis.absorb inference fallback).table.Reachable := by
  have followed :=
    reachable_foldl reachable follow
      (fun event before => reachable_follow before event) inference.trace
  unfold absorb
  split
  · exact followed
  · exact followed

/-! ## Transforms -/

theorem reachable_bindSources (sources : List (SourceDeclaration × Ty)) :
    (analysis.bindSources sources).table.Reachable := by
  induction sources generalizing analysis with
  | nil => exact reachable
  | cons entry rest ih =>
      rw [bindSources]
      split
      · exact ih reachable
      · exact ih (reachable_bindVariable reachable _ _ _)

theorem reachable_checkRules (config : Config) (source target : Ty)
    (assigned : List String) (rules : List Rule) :
    (checkRules config source target assigned analysis
      rules).table.Reachable := by
  induction rules generalizing analysis assigned with
  | nil => exact reachable
  | cons rule rest ih =>
      rw [checkRules]
      refine ih (reachable_absorb ?_ _ _) _
      rw [noteTarget]
      split
      · exact reachable
      · exact reachable

/-- Checking a body is a run of the operations of the table. -/
theorem reachable_checkBody (config : Config)
    (declaration : TransformDeclaration) (signature : Signature) :
    (analysis.checkBody config declaration signature).table.Reachable := by
  have entered : (analysis.enter .transform).table.Reachable :=
    reachable.enter .transform
  exact (reachable_checkRules (reachable_bindSources entered _) _ _ _ _ _).exit

/-! ## Phases -/

theorem reachable_completeUnit (units : UnitTable) (entry : Nat × Declaration) :
    (completeUnit units analysis entry).table.Reachable := by
  unfold completeUnit
  split
  · split
    · exact reachable.setKind _ _
    · exact reachable
  · exact reachable

theorem reachable_completeEnum (entry : Nat × Declaration) :
    (completeEnum analysis entry).table.Reachable := by
  unfold completeEnum
  split
  · exact reachable.setKind _ _
  · exact reachable

theorem reachable_completeSchema (fields : SchemaFields)
    (entry : Nat × Declaration) :
    (completeSchema fields analysis entry).table.Reachable := by
  unfold completeSchema
  split
  · split
    · exact reachable.setKind _ _
    · exact reachable
  · exact reachable

theorem reachable_completeLookup (units : UnitTable)
    (entry : Nat × Declaration) :
    (completeLookup units analysis entry).table.Reachable := by
  unfold completeLookup
  split
  · split
    · exact reachable.setKind _ _
    · exact reachable
  · exact reachable

theorem reachable_completeTransform (config : Config) (units : UnitTable)
    (entry : Nat × Declaration) :
    (completeTransform config units analysis entry).table.Reachable := by
  unfold completeTransform checkTransform
  split
  · split
    · exact reachable
    · next signature _ =>
        have completed : (analysis.setKind entry.1
            (.transform signature)).table.Reachable :=
          reachable.setKind entry.1 (.transform signature)
        exact reachable_checkBody completed config _ signature
  · exact reachable

theorem reachable_completePipeline (config : Config)
    (entry : Nat × Declaration) :
    (completePipeline config analysis entry).table.Reachable := by
  unfold completePipeline checkPipeline
  split
  · rw [table_reportAll]
    exact reachable
  · exact reachable

omit reachable

/-- The analysis of a program changes the table by operations only. -/
theorem reachable_analyze (config : Config) (program : Program) :
    (analyze config program).table.Reachable := by
  unfold analyze withUnits withSchemas
  apply reachable_foldl _ _ fun entry before =>
    reachable_completePipeline before config entry
  apply reachable_foldl _ _ fun entry before =>
    reachable_completeTransform before config _ entry
  apply reachable_foldl _ _ fun entry before =>
    reachable_completeLookup before _ entry
  rw [table_reportAll]
  apply reachable_foldl _ _ fun entry before =>
    reachable_completeSchema before _ entry
  apply reachable_foldl _ _ fun entry before =>
    reachable_completeEnum before entry
  apply reachable_foldl _ _ fun entry before =>
    reachable_completeUnit before _ entry
  apply reachable_foldl _ noteDimension fun _ before => before
  exact SymbolTable.reachable_empty.registerFrom 0 program

end Analysis

end SchemaMap
