import SchemaMap.Proofs.Analysis.Reachable
import SchemaMap.Proofs.Symbol.Visibility

/-!
# What traces leave behind

The trace of an inference is taken over by an analysis event by event.
Afterwards the analysis shows what it showed before (`context_of_extends`), and
everything that was there is as it was: all that happened is that variables,
scopes of lambdas and types of expressions were added (`appends_following`).
-/

namespace SchemaMap.Analysis

variable {α β : Type} {analysis : Analysis}

/-- The analysis after the trace of an inference. -/
def following (analysis : Analysis) (inference : Inference α) : Analysis :=
  inference.trace.foldl follow analysis

/-- An inference that succeeds is followed by the next. -/
theorem following_bind_of_ok {inference : Inference α} {value : α}
    (next : α → Inference β) (found : inference.outcome = .ok value) :
    analysis.following (inference >>= next) =
      (analysis.following inference).following (next value) := by
  rw [following, Inference.trace_bind_of_ok next found, List.foldl_append]
  rfl

/-- An inference that fails is followed to its end only. -/
theorem following_bind_of_error {inference : Inference α} {fault : Fault}
    (next : α → Inference β) (failed : inference.outcome = .error fault) :
    analysis.following (inference >>= next) = analysis.following inference := by
  rw [following, Inference.trace_bind_of_error next failed]
  rfl

/-- A scope is entered, followed and left. -/
theorem following_inScope (inference : Inference α) :
    analysis.following (.inScope inference) =
      ((analysis.enter .lambda).following inference).exit := by
  rw [following, Inference.inScope, List.cons_append, List.foldl_cons,
    List.foldl_append]
  rfl

/-- Following an inference is a run of the operations of the table. -/
theorem reachable_following (reachable : analysis.table.Reachable)
    (inference : Inference α) :
    (analysis.following inference).table.Reachable :=
  reachable_foldl reachable follow
    (fun event before => reachable_follow before event) inference.trace

/-- What an analysis shows is the same after whatever only adds to it. -/
theorem context_of_extends {after : Analysis}
    (reachable : analysis.table.Reachable)
    (extended : analysis.table.Extends after.table) (config : Config)
    (source : Option Ty) :
    after.context config source = analysis.context config source := by
  have wellFormed := reachable.wellFormed
  have kinds :=
    funext (wellFormed.kind?_of_prefix extended.symbols extended.scopes)
  have types := funext (wellFormed.bindingType?_of_extends extended)
  rw [context, context, kinds, types]

/--
In an open scope an analysis shows the variables of the scope before what it
showed outside.
-/
theorem context_of_opened {after : Analysis}
    (reachable : analysis.table.Reachable) {bound : List (String × Ty)}
    (opened : analysis.table.Opened bound after.table) (config : Config)
    (source : Option Ty) :
    after.context config source =
      (analysis.context config source).withVariables bound := by
  have wellFormed := reachable.wellFormed
  rcases opened.scope with ⟨kind, names, scopes, -⟩
  have kinds :=
    funext (wellFormed.kind?_of_prefix opened.symbols ⟨_, scopes.symm⟩)
  have types := funext (wellFormed.bindingType?_of_opened opened)
  rw [context, context, kinds, types]
  rfl

/-! ## What is added -/

theorem bindVariable_of_bound {analysis : Analysis} {name : String} {id : Nat}
    (bound : analysis.table.lookupLocal name = some id) (type : Ty)
    (span : Span) :
    analysis.bindVariable name type span =
      analysis.report ⟨.duplicateDefinition name, span⟩ := by
  have refused : analysis.table.define
      { name := name, kind := .binding type, span := span } = _ :=
    SymbolTable.define_of_bound _ bound
  simp only [bindVariable, refused]

theorem bindVariable_of_free {analysis : Analysis} {name : String}
    (free : analysis.table.lookupLocal name = none) (type : Ty) (span : Span) :
    analysis.bindVariable name type span =
      { analysis with
        table :=
          analysis.table.adding
            { name := name, kind := .binding type, span := span } } := by
  have defined : analysis.table.define
      { name := name, kind := .binding type, span := span } = _ :=
    SymbolTable.define_of_free _ free
  simp only [bindVariable, defined]

/-- What is added are variables, scopes of lambdas and types of expressions. -/
structure Gains (before after : Analysis) : Prop where
  symbols : ∃ added, after.table.symbols = before.table.symbols ++ added ∧
    ∀ symbol ∈ added, ∃ type, symbol.kind = .binding type
  scopes : ∃ count, after.table.scopes.map Scope.kind =
    before.table.scopes.map Scope.kind ++ List.replicate count .lambda
  expressions : ∃ noted : List (Span × Ty), after.types.expressions =
    noted.foldl (fun known entry => known.insert entry.1 entry.2)
      before.types.expressions

namespace Gains

theorem refl (analysis : Analysis) : analysis.Gains analysis where
  symbols := ⟨[], (List.append_nil _).symm, nofun⟩
  scopes := ⟨0, (List.append_nil _).symm⟩
  expressions := ⟨[], rfl⟩

theorem trans {first second third : Analysis} (before : first.Gains second)
    (after : second.Gains third) :
    first.Gains third where
  symbols := by
    rcases before.symbols with ⟨earlier, same, kinds⟩
    rcases after.symbols with ⟨later, final, laterKinds⟩
    refine ⟨earlier ++ later, by rw [final, same, List.append_assoc], ?_⟩
    exact List.forall_mem_append.mpr ⟨kinds, laterKinds⟩
  scopes := by
    rcases before.scopes with ⟨earlier, same⟩
    rcases after.scopes with ⟨later, final⟩
    exact ⟨earlier + later,
      by rw [final, same, List.append_assoc, List.replicate_append_replicate]⟩
  expressions := by
    rcases before.expressions with ⟨earlier, same⟩
    rcases after.expressions with ⟨later, final⟩
    exact ⟨earlier ++ later, by rw [final, same, List.foldl_append]⟩

theorem of_table {analysis : Analysis} {table : SymbolTable}
    (symbols : table.symbols = analysis.table.symbols)
    (scopes : ∃ count, table.scopes.map Scope.kind =
      analysis.table.scopes.map Scope.kind ++ List.replicate count .lambda) :
    analysis.Gains { analysis with table := table } where
  symbols := ⟨[], by rw [symbols, List.append_nil], nofun⟩
  scopes := scopes
  expressions := ⟨[], rfl⟩

/-- An event adds to an analysis. -/
theorem follow (analysis : Analysis) (event : Event) :
    analysis.Gains (analysis.follow event) := by
  cases event with
  | typed span type =>
      exact { Gains.refl analysis with expressions := ⟨[(span, type)], rfl⟩ }
  | entered =>
      refine of_table rfl ⟨1, ?_⟩
      rw [SymbolTable.enter, List.map_append]
      rfl
  | bound name type span =>
      cases found : analysis.table.lookupLocal name with
      | some id =>
          rw [Analysis.follow, bindVariable_of_bound found]
          exact { Gains.refl analysis with }
      | none =>
          rw [Analysis.follow, bindVariable_of_free found]
          exact
            { symbols := ⟨[_], rfl, List.forall_mem_singleton.mpr ⟨type, rfl⟩⟩
              scopes :=
                ⟨0,
                  (SymbolTable.map_kind_adding _ _).trans
                    (List.append_nil _).symm⟩
              expressions := ⟨[], rfl⟩ }
  | left => exact of_table rfl ⟨0, (List.append_nil _).symm⟩

/-- A trace adds to an analysis. -/
theorem following {α : Type} (analysis : Analysis) (inference : Inference α) :
    analysis.Gains (analysis.following inference) := by
  unfold Analysis.following
  induction inference.trace generalizing analysis with
  | nil => exact .refl analysis
  | cons event rest ih =>
      exact (follow analysis event).trans (ih (analysis.follow event))

end Gains

/--
The open scope, the scopes and symbols that were there, the faults, the units
and the dimensions are as they were.  What is added are variables, scopes of
lambdas and types of expressions.
-/
structure Appends (before after : Analysis) : Prop where
  current : after.table.current = before.table.current
  symbols : ∃ added, after.table.symbols = before.table.symbols ++ added ∧
    ∀ symbol ∈ added, ∃ type, symbol.kind = .binding type
  scopes : ∃ added, after.table.scopes = before.table.scopes ++ added ∧
    ∀ scope ∈ added, scope.kind = .lambda
  expressions : ∃ noted : List (Span × Ty), after.types.expressions =
    noted.foldl (fun known entry => known.insert entry.1 entry.2)
      before.types.expressions
  units : after.types.units = before.types.units
  dimensions : after.types.dimensions = before.types.dimensions
  faults : after.faults = before.faults

/-- A balanced trace appends to the table and comes back to the same scope. -/
theorem appends_following {α : Type} (analysis : Analysis)
    {inference : Inference α} (balanced : Balanced inference.trace) :
    analysis.Appends (analysis.following inference) := by
  have quiet : analysis.Quiet (analysis.following inference) :=
    quiet_foldl_follow balanced analysis
  have gains := Gains.following analysis inference
  refine ⟨quiet.table.current, gains.symbols, ?_, gains.expressions,
    quiet.units, quiet.dimensions, quiet.faults⟩
  rcases quiet.table.scopes with ⟨added, split⟩
  rcases gains.scopes with ⟨count, kinds⟩
  refine ⟨added, split.symm, fun scope member => ?_⟩
  rw [← split, List.map_append] at kinds
  have listed : scope.kind ∈ List.replicate count ScopeKind.lambda := by
    rw [← List.append_cancel_left kinds]
    exact List.mem_map_of_mem member
  exact List.eq_of_mem_replicate listed

end SchemaMap.Analysis
