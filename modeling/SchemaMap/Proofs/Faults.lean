import SchemaMap.Proofs.Analysis.Changes
import SchemaMap.Proofs.Inference.Typing
import SchemaMap.Proofs.Stopping

/-!
# Faults that registration finds and faults that are found later

Registration finds what the names of declarations alone show: names that are
taken, parents that are no schemas, cycles of parents, and fields and variants
that are declared twice.  No later part of an analysis reports such a fault
(`isLater_changes`), and what is told about the two sorts is never the same
(`diagnostic_ne`).

The later faults are found in units, type expressions and other expressions.  A
unit fails in a later fault at one of its parts, or in one without a position,
which then gets that of the reference or of the declaration that it is met in
(`FailsAt`).  Any other expression fails in problems of use at its parts: one
traversal of expressions serves every sort of faults that has these (`Admits`),
and another one the changes that an analysis makes (`reports_changes`).
-/

namespace SchemaMap

namespace Fault

/-- The fault is not of registration. -/
def IsLater (fault : Fault) : Prop :=
  fault.problem.isOfRegistration = false

/-- What registration finds is told as a matter of names. -/
theorem phase_eq_resolve {fault : Fault}
    (early : fault.problem.isOfRegistration = true) :
    fault.diagnostic.phase = .resolve := by
  rcases fault with ⟨problem, span⟩
  cases problem with
  | alreadyDeclared | unknownParent | cyclicInheritance | duplicateField |
      duplicateVariant => rfl
  | _ => contradiction

/-- What is told about a fault of registration is not told about a later one. -/
theorem diagnostic_ne {first second : Fault}
    (early : first.problem.isOfRegistration = true) (later : second.IsLater) :
    first.diagnostic ≠ second.diagnostic := by
  intro same
  have phase : second.diagnostic.phase = .resolve :=
    same ▸ phase_eq_resolve early
  have notes : first.problem.notes = second.problem.notes :=
    congrArg Diagnostic.notes same
  have hints : first.problem.hints = second.problem.hints :=
    congrArg Diagnostic.hints same
  -- The only later problem of this phase has a hint and no note.
  have onlyOne : ∃ name, second.problem = .duplicateDefinition name := by
    rcases second with ⟨problem, span⟩
    cases problem with
    | duplicateDefinition name => exact ⟨name, rfl⟩
    | _ => contradiction
  rcases onlyOne with ⟨name, repeated⟩
  rw [repeated] at notes hints
  rcases first with ⟨problem, span⟩
  cases problem <;> contradiction

end Fault

/-! ## Computations that fail late -/

/-- The span stands for no position, or it is one of the places. -/
def Span.IsUnknownOr (placed : Span → Prop) (span : Span) : Prop :=
  span = .unknown ∨ placed span

/-- A position that is unknown is taken from elsewhere. -/
theorem Span.IsUnknownOr.orElse {placed : Span → Prop} {span fallback : Span}
    (found : span.IsUnknownOr placed) (there : placed fallback) :
    placed (span.orElse fallback) := by
  rw [Span.orElse]
  split
  · exact there
  · next known => exact found.resolve_left known

/-- A computation fails only in later faults, and only at the places. -/
abbrev FailsAt {α : Type} (placed : Span → Prop) (outcome : Except Fault α) :
    Prop :=
  FailsIn (fun fault => fault.IsLater ∧ placed fault.span) outcome

section

variable {α : Type} {placed : Span → Prop}

namespace FailsAt

theorem orUnknown {outcome : Except Fault α} (fails : FailsAt placed outcome) :
    FailsAt (Span.IsUnknownOr placed) outcome :=
  FailsIn.mono fails fun _ found => ⟨found.1, .inr found.2⟩

/-- A fault without a position gets one; the problem stays the same. -/
theorem orAt {outcome : Except Fault α}
    (fails : FailsAt (Span.IsUnknownOr placed) outcome) {span : Span}
    (there : placed span) :
    FailsAt placed (outcome.mapError (·.orAt span)) := by
  cases outcome with
  | ok value => exact failsIn_ok _
  | error fault =>
      exact failsIn_error
        ⟨(fails fault rfl).1, (fails fault rfl).2.orElse there⟩

end FailsAt

end

/-! ## Units -/

section

variable {placed : Span → Prop}

/-- An overflow is told where the expression stands. -/
theorem failsAt_orOverflow (unit? : Option PhysicalUnit) (expression : String)
    {span : Span} (there : placed span) :
    FailsAt placed (orOverflow unit? expression span) := by
  cases unit? with
  | some unit => exact failsIn_ok _
  | none => exact failsIn_error ⟨rfl, there⟩

/-- A scale that is refused is told without a position. -/
theorem UnitDeclaration.failsAt_finish (declaration : UnitDeclaration)
    (unit : PhysicalUnit) :
    FailsAt (Span.IsUnknownOr placed) (declaration.finish unit) := by
  rw [finish]
  split
  · exact failsIn_ok _
  · split
    · exact failsIn_ok _
    · exact failsIn_error ⟨rfl, .inl rfl⟩

/-- All faults that are remembered are later ones, at the places. -/
def UnitTable.FailAt (placed : Span → Prop) (table : UnitTable) : Prop :=
  ∀ entry ∈ table, FailsAt placed entry.2

/--
A computation keeps an invariant of the table and meets later faults only, at
the places.
-/
def MeetsAt (placed : Span → Prop) (invariant : UnitTable → Prop)
    (computation : ExceptT Fault (StateM UnitTable) PhysicalUnit) : Prop :=
  ∀ table, invariant table →
    invariant (computation.run table).2 ∧
      FailsAt placed (computation.run table).1

namespace MeetsAt

variable {invariant : UnitTable → Prop}

theorem outcome {outcome : Except Fault PhysicalUnit}
    (fails : FailsAt placed outcome) :
    MeetsAt placed invariant (ExceptT.mk (pure outcome)) :=
  fun _ holds => ⟨holds, fails⟩

theorem orUnknown {computation : ExceptT Fault (StateM UnitTable) PhysicalUnit}
    (meets : MeetsAt placed invariant computation) :
    MeetsAt (Span.IsUnknownOr placed) invariant computation :=
  fun table holds => ⟨(meets table holds).1, (meets table holds).2.orUnknown⟩

/--
A computation that may fail without a position fails in place once it is given
one.
-/
theorem adapt {computation : ExceptT Fault (StateM UnitTable) PhysicalUnit}
    (meets : MeetsAt (Span.IsUnknownOr placed) invariant computation)
    {span : Span} (there : placed span) :
    MeetsAt placed invariant (computation.adapt (·.orAt span)) := by
  intro table holds
  rcases meets table holds with ⟨kept, fails⟩
  exact ⟨kept, fails.orAt there⟩

theorem bind {computation : ExceptT Fault (StateM UnitTable) PhysicalUnit}
    {next : PhysicalUnit → ExceptT Fault (StateM UnitTable) PhysicalUnit}
    (meets : MeetsAt placed invariant computation)
    (continues : ∀ unit, MeetsAt placed invariant (next unit)) :
    MeetsAt placed invariant (computation >>= next) := by
  intro table holds
  rcases meets table holds with ⟨kept, fails⟩
  cases found : (computation.run table).1 with
  | ok unit =>
      rw [run_bind_of_ok next found]
      exact continues unit _ kept
  | error fault =>
      rw [run_bind_of_error next found]
      exact ⟨kept, failsIn_error (fails fault found)⟩

/-- An expression fails where its parts stand, or as its references do. -/
theorem evaluate
    {reference : String → ExceptT Fault (StateM UnitTable) PhysicalUnit}
    (references : ∀ name,
      MeetsAt (Span.IsUnknownOr placed) invariant (reference name))
    {expression : UnitExpr}
    (inside : ∀ span ∈ expression.positions, placed span) :
    MeetsAt placed invariant (expression.evaluate reference) := by
  induction expression with
  | reference span name =>
      exact (references name).adapt (inside span List.mem_cons_self)
  | product span left right first second =>
      simp only [UnitExpr.positions, List.forall_mem_cons,
        List.forall_mem_append] at inside
      exact (first inside.2.1).bind fun _ => (second inside.2.2).bind fun _ =>
        .outcome (failsAt_orOverflow _ _ inside.1)
  | quotient span left right first second =>
      simp only [UnitExpr.positions, List.forall_mem_cons,
        List.forall_mem_append] at inside
      exact (first inside.2.1).bind fun _ => (second inside.2.2).bind fun _ =>
        .outcome (failsAt_orOverflow _ _ inside.1)
  | power span base exponent inner =>
      simp only [UnitExpr.positions, List.forall_mem_cons] at inside
      exact (inner inside.2).bind fun _ =>
        .outcome (failsAt_orOverflow _ _ inside.1)
  | one span => exact .outcome (failsIn_ok _)

/-- Only the fault of a scale has no position of its own. -/
theorem declaration
    {reference : String → ExceptT Fault (StateM UnitTable) PhysicalUnit}
    (references : ∀ name,
      MeetsAt (Span.IsUnknownOr placed) invariant (reference name))
    (isDimension : String → Bool) {declaration : UnitDeclaration}
    (inside : ∀ span ∈ declaration.positions, placed span) :
    MeetsAt (Span.IsUnknownOr placed) invariant
      (declaration.evaluate isDimension reference) := by
  have finish : ∀ unit,
      MeetsAt (Span.IsUnknownOr placed) invariant
        (ExceptT.mk (pure (declaration.finish unit))) :=
    fun unit => .outcome (declaration.failsAt_finish unit)
  simp only [UnitDeclaration.positions, List.forall_mem_cons,
    List.forall_mem_append, List.forall_mem_map, List.forall_mem_flatMap,
    Option.mem_toList] at inside
  rw [UnitDeclaration.evaluate]
  split
  · next definition defined =>
      exact (evaluate references (inside.2.2 definition defined)).orUnknown.bind
        finish
  · next dimension _ written =>
      split
      · exact (outcome (failsIn_ok _)).bind finish
      · have undeclared : Fault.IsLater
            ⟨.undeclaredDimension dimension.value, dimension.span⟩ := rfl
        exact (outcome (failsIn_error
          ⟨undeclared, .inr (inside.2.1 dimension written)⟩)).bind finish
  · exact (outcome (failsIn_ok _)).bind finish

end MeetsAt

namespace UnitTable

theorem failAt_concat {table : UnitTable} {outcome : Except Fault PhysicalUnit}
    (failAt : table.FailAt placed) (fails : FailsAt placed outcome)
    (name : String) : FailAt placed (table ++ [(name, outcome)]) := by
  rw [FailAt, List.forall_mem_append, List.forall_mem_singleton]
  exact ⟨failAt, fails⟩

/--
References to units that are being settled or are not declared fail without a
position.
-/
theorem meetsAt_settle (isDimension : String → Bool)
    {unbegun : List UnitDeclaration}
    (inside : ∀ declaration ∈ unbegun,
      ∀ span ∈ declaration.positions, placed span)
    (stack : List String) (name : String) :
    MeetsAt (Span.IsUnknownOr placed) (FailAt placed)
      (settle isDimension unbegun stack name) := by
  -- The induction is on the declarations that were not begun, of which each
  -- reference that is followed takes one.
  induction size : unbegun.length using Nat.strongRecOn
    generalizing unbegun stack name with
  | ind size ih =>
      intro table failAt
      cases known : table.lookup name with
      | some outcome =>
          rw [run_settle_of_settled known]
          exact ⟨failAt, (failAt _ (mem_of_lookup_eq_some known)).orUnknown⟩
      | none =>
          by_cases onStack : name ∈ stack
          · rw [run_settle_of_mem_stack known onStack]
            exact ⟨failAt, failsIn_error ⟨rfl, .inl rfl⟩⟩
          · cases found : unbegun.find?
              (fun candidate => candidate.name == name) with
            | none =>
                rw [run_settle_of_undeclared known onStack found]
                exact ⟨failAt, failsIn_error ⟨rfl, .inl rfl⟩⟩
            | some declaration =>
                rw [run_settle_of_unsettled known onStack found]
                have parts :=
                  inside declaration (List.mem_of_find?_eq_some found)
                have others :
                    ∀ other ∈ without UnitDeclaration.name unbegun name,
                      ∀ span ∈ other.positions, placed span :=
                  fun other member =>
                    inside other (List.mem_of_mem_filter member)
                have evaluation := (MeetsAt.declaration
                  (fun used =>
                    ih _ (size ▸ length_without_lt found) others
                      (stack ++ [name]) used rfl) isDimension
                  parts).adapt (parts declaration.span List.mem_cons_self)
                rcases evaluation table failAt with ⟨kept, fails⟩
                exact ⟨failAt_concat kept fails name, fails.orUnknown⟩

/-- What is remembered about units fails where their declarations stand. -/
theorem failAt_ofDeclarations (isDimension : String → Bool)
    {declarations : List UnitDeclaration}
    (inside : ∀ declaration ∈ declarations,
      ∀ span ∈ declaration.positions, placed span) :
    (ofDeclarations isDimension declarations).FailAt placed :=
  List.foldlRecOn declarations _ (List.forall_mem_nil _)
    fun table failAt declaration _ =>
      (meetsAt_settle isDimension inside [] declaration.name table failAt).1

/-- A look-up of a unit fails as the unit did, or without a position. -/
theorem failsAt_find {table : UnitTable} (failAt : table.FailAt placed)
    (name : String) :
    FailsAt (Span.IsUnknownOr placed) (table.find name) := by
  rw [find]
  cases known : table.lookup name with
  | none => exact failsIn_error ⟨rfl, .inl rfl⟩
  | some outcome => exact (failAt _ (mem_of_lookup_eq_some known)).orUnknown

end UnitTable

theorem Program.inside_of_mem_owners {program : Program}
    (inside : ∀ span ∈ program.positions, placed span)
    {declaration : Declaration} (owns : declaration ∈ program.owners) :
    ∀ span ∈ declaration.positions, placed span :=
  fun span part =>
    inside span
      (List.mem_flatMap.mpr ⟨declaration, mem_of_mem_owners owns, part⟩)

/--
The units of a program fail late, where the parts of the declarations are or
without a position.
-/
theorem Program.failsAt_units {program : Program}
    (inside : ∀ span ∈ program.positions, placed span) (name : String) :
    FailsAt (Span.IsUnknownOr placed) (program.units.find name) := by
  refine UnitTable.failsAt_find
    (UnitTable.failAt_ofDeclarations _ fun declaration member => ?_) name
  rcases List.mem_filterMap.mp member with ⟨owner, owns, selected⟩
  have parts := inside_of_mem_owners inside owns
  rwa [Declaration.unit?_eq_some_iff.mp selected] at parts

end

/-! ## Type expressions -/

namespace Names

variable {names : Names} {placed : Span → Prop}

/--
What comes from units that fail late, or is found at the places, is late and at
the places.
-/
theorem isLater_of_comesFrom
    (units : ∀ name, FailsAt (Span.IsUnknownOr placed) (names.unit name))
    {stops : Span → String → Prop} {positions : List Span}
    (inside : ∀ span ∈ positions, placed span) (fault : Fault)
    (origin : ComesFrom names.unit stops positions fault) :
    fault.IsLater ∧ placed fault.span := by
  cases origin with
  | unit there _ failed =>
      have found := units _ _ failed
      exact ⟨found.1, found.2.orElse (inside _ there)⟩
  | own there found =>
      exact ⟨Problem.isOfRegistration_of_isOfUse found, inside _ there⟩

/-- A type expression fails late, where its parts are. -/
theorem failsAt_resolve
    (units : ∀ name, FailsAt (Span.IsUnknownOr placed) (names.unit name))
    (parameters : List (String × Ty)) (expression : TypeExpr)
    (inside : ∀ span ∈ expression.positions, placed span) :
    FailsAt placed (names.resolve parameters expression) :=
  (names.failsIn_resolve parameters expression).mono
    (isLater_of_comesFrom units inside)

theorem failsAt_resolveAll
    (units : ∀ name, FailsAt (Span.IsUnknownOr placed) (names.unit name))
    (parameters : List (String × Ty)) (expressions : List TypeExpr)
    (inside : ∀ span ∈ TypeExpr.positionsOfAll expressions, placed span) :
    FailsAt placed (names.resolveAll parameters expressions) :=
  (names.failsIn_resolveAll parameters expressions).mono
    (isLater_of_comesFrom units inside)

section

variable (units : ∀ name, FailsAt (Span.IsUnknownOr placed) (names.unit name))

include units

/-- The types of a lookup table fail where they are written. -/
theorem failsAt_lookup {declaration : LookupDeclaration}
    (inside : ∀ span ∈ declaration.positions, placed span) :
    FailsAt placed (names.lookup declaration) := by
  simp only [LookupDeclaration.positions, List.forall_mem_cons,
    List.forall_mem_append] at inside
  exact (failsAt_resolveAll units [] _ inside.2.1).bind fun _ =>
    (failsAt_resolve units [] _ inside.2.2).bind fun _ => failsIn_ok _

/-- The types of a transform fail where they are written. -/
theorem failsAt_signature {declaration : TransformDeclaration}
    (inside : ∀ span ∈ declaration.positions, placed span) :
    FailsAt placed (names.signature declaration) := by
  simp only [TransformDeclaration.positions, List.forall_mem_cons,
    List.forall_mem_append] at inside
  exact (failsAt_resolveAll units [] _ inside.2.1).bind fun _ =>
    (failsAt_resolve units [] _ inside.2.2.1).bind fun _ => failsIn_ok _

end

end Names

namespace SchemaFields

variable {names : Names} {good : Fault → Prop}

/--
The faults of fields are those of their types, at the field if they have no
position.
-/
theorem good_of_mem_declaredFields (parameters fields : List (String × Ty))
    {declared : List FieldDeclaration}
    (types : ∀ field ∈ declared,
      FailsIn (fun fault => good (fault.orAt field.span))
        (names.resolve parameters field.type)) :
    ∀ fault ∈ (declaredFields names parameters fields declared).2,
      good fault := by
  induction declared generalizing fields with
  | nil => exact List.forall_mem_nil _
  | cons declaration rest ih =>
      rw [List.forall_mem_cons] at types
      rw [declaredFields]
      split
      · exact ih _ types.2
      · next fault failed =>
          exact List.forall_mem_cons.mpr ⟨types.1 fault failed, ih _ types.2⟩

/-- The faults of completed schemas are those of the types of their fields. -/
theorem Built.good_of_mem_faults {declarations : List SchemaDeclaration}
    {state : SchemaFields}
    (types : ∀ declaration ∈ declarations,
      ∀ field ∈ declaration.fields, ∀ parameters,
      FailsIn (fun fault => good (fault.orAt field.span))
        (names.resolve parameters field.type))
    (built : Built names declarations state) :
    ∀ fault ∈ state.faults, good fault := by
  induction built with
  | start => exact List.forall_mem_nil _
  | @complete _ declaration _ member _ _ ih =>
      rw [complete_eq, List.forall_mem_append]
      exact ⟨ih,
        good_of_mem_declaredFields _ _ fun field declared =>
          types declaration member field declared _⟩

end SchemaFields

/--
The fields of the schemas of a program fail late, where the parts of the
declarations are.
-/
theorem Program.placed_of_mem_faults_fields {program : Program}
    {placed : Span → Prop} (inside : ∀ span ∈ program.positions, placed span) :
    ∀ fault ∈ program.fields.faults, fault.IsLater ∧ placed fault.span := by
  refine (SchemaFields.built_ofDeclarations program.names
    _).1.good_of_mem_faults ?_
  intro declaration member field declared parameters
  rcases List.mem_filterMap.mp member with ⟨owner, owns, selected⟩
  have parts := inside_of_mem_owners inside owns
  rw [Declaration.schema?_eq_some_iff.mp selected] at parts
  simp only [Declaration.positions, SchemaDeclaration.positions,
    List.forall_mem_cons, List.forall_mem_append,
    List.forall_mem_flatMap] at parts
  rcases parts.2.2 field declared with ⟨here, inner⟩
  refine (Names.failsAt_resolve (failsAt_units inside) parameters field.type
    inner).mono fun fault found => ?_
  exact ⟨found.1, Span.IsUnknownOr.orElse (.inr found.2) here⟩

/-! ## Expressions -/

/-- Every problem of use at a span is a fault of the sort. -/
def Admits (good : Fault → Prop) (span : Span) : Prop :=
  ∀ problem : Problem, problem.isOfUse = true → good ⟨problem, span⟩

theorem admits_later {placed : Span → Prop} {span : Span}
    (there : placed span) :
    Admits (fun fault => fault.IsLater ∧ placed fault.span) span :=
  fun _ ofUse => ⟨Problem.isOfRegistration_of_isOfUse ofUse, there⟩

/-- An inference fails only in faults of a sort. -/
def Inference.FailsIn {α : Type} (good : Fault → Prop)
    (inference : Inference α) : Prop :=
  SchemaMap.FailsIn good inference.outcome

namespace Inference.FailsIn

variable {α β : Type} {good : Fault → Prop}

theorem pure (value : α) : (Pure.pure value : Inference α).FailsIn good :=
  failsIn_ok value

theorem ofExcept {outcome : Except Fault α}
    (fails : SchemaMap.FailsIn good outcome) :
    (Inference.ofExcept outcome).FailsIn good :=
  fails

theorem fail {problem : Problem} (ofUse : problem.isOfUse = true) {span : Span}
    (there : Admits good span) :
    (Inference.fail problem span : Inference α).FailsIn good :=
  failsIn_error (there problem ofUse)

theorem emit (event : Event) : (Inference.emit event).FailsIn good :=
  failsIn_ok _

/-- Inferences that follow one another fail as one of them does. -/
theorem bind {inference : Inference α} {next : α → Inference β}
    (fails : inference.FailsIn good)
    (further : ∀ value, (next value).FailsIn good) :
    (inference >>= next).FailsIn good := by
  cases found : inference.outcome with
  | ok value =>
      rw [FailsIn, outcome_bind_of_ok next found]
      exact further value
  | error fault =>
      rw [FailsIn, outcome_bind_of_error next found]
      exact failsIn_error (fails fault found)

theorem recorded {inference : Inference Ty} (fails : inference.FailsIn good)
    (span : Span) :
    (Inference.recorded span inference).FailsIn good :=
  fails.bind fun type => (emit (.typed span type)).bind fun _ => .pure _

theorem inScope {inference : Inference α} (fails : inference.FailsIn good) :
    (Inference.inScope inference).FailsIn good :=
  fails

theorem bindAll (bound : List String) {parameters : List (Located String × Ty)}
    (inside : ∀ parameter ∈ parameters, Admits good parameter.1.span) :
    (Inference.bindAll bound parameters).FailsIn good := by
  induction parameters generalizing bound with
  | nil => exact .pure _
  | cons parameter rest ih =>
      rw [List.forall_mem_cons] at inside
      rw [Inference.bindAll]
      split
      · exact .fail rfl inside.1
      · exact (emit (.bound parameter.1.value parameter.2
          parameter.1.span)).bind fun _ => ih _ inside.2

end Inference.FailsIn

namespace Context

variable {good : Fault → Prop} (context : Context)

/-- A field that is not found is told where it is written. -/
theorem failsIn_fieldType (base : Ty) (field : String) {span : Span}
    (there : Admits good span) :
    FailsIn good (context.fieldType base field span) := by
  rw [fieldType.eq_def]
  split
  · split
    · exact failsIn_ok _
    · exact failsIn_error (there _ rfl)
  · exact failsIn_ok _
  · exact failsIn_error (there _ rfl)

/-- A target fails at one of its names. -/
theorem failsIn_walk (base : Ty) {fields : List (Located String)}
    (inside : ∀ field ∈ fields, Admits good field.span) :
    FailsIn good (context.walk base fields) := by
  induction fields generalizing base with
  | nil => exact failsIn_ok _
  | cons field rest ih =>
      rw [List.forall_mem_cons] at inside
      rw [walk_cons]
      exact (context.failsIn_fieldType base field.value inside.1).bind fun _ =>
        ih _ inside.2

theorem failsIn_elementType (base : Ty) {span : Span}
    (there : Admits good span) :
    FailsIn good (elementType base span) := by
  rw [elementType.eq_def]
  split
  · exact failsIn_ok _
  · exact failsIn_ok _
  · exact failsIn_error (there _ rfl)

theorem failsIn_aggregateElement (function : Aggregate) (source : Ty)
    {span : Span} (there : Admits good span) :
    FailsIn good (aggregateElement function source span) := by
  rw [aggregateElement.eq_def]
  split
  · exact failsIn_ok _
  · exact failsIn_ok _
  · exact failsIn_error (there _ rfl)

theorem failsIn_rootType (root : PathRoot) {span : Span}
    (there : Admits good span) :
    FailsIn good (context.rootType root span) := by
  rw [rootType.eq_def]
  split
  · exact failsIn_ok _
  · split
    · exact failsIn_ok _
    · exact failsIn_error (there _ rfl)

/-- An operator between unfit operands is told where it stands. -/
theorem failsIn_binaryType (operator : Operator) (left right : Ty) {span : Span}
    (there : Admits good span) :
    FailsIn good (binaryType operator left right span) := by
  unfold binaryType
  split
  · split
    · split
      · exact failsIn_ok _
      · exact failsIn_error (there _ rfl)
    · exact failsIn_ok _
  · split
    · simp only
      split
      · exact failsIn_ok _
      · exact failsIn_error (there _ rfl)
    · exact failsIn_ok _
  · exact failsIn_ok _
  · exact failsIn_ok _
  · exact failsIn_ok _

theorem failsIn_checkPattern (subject : Ty) {pattern : Pattern}
    (there : Admits good pattern.span) :
    FailsIn good (context.checkPattern subject pattern) := by
  rw [checkPattern.eq_def]
  split
  · exact failsIn_ok _
  · exact failsIn_ok _
  · split
    · split
      · exact failsIn_error (there _ rfl)
      · split
        · exact failsIn_ok _
        · exact failsIn_error (there _ rfl)
    · exact failsIn_ok _
    · exact failsIn_error (there _ rfl)

theorem failsIn_checkKeys (table : String) {keys : List (Ty × Ty × Span)}
    (inside : ∀ key ∈ keys, Admits good key.2.2) :
    FailsIn good (context.checkKeys table keys) := by
  induction keys with
  | nil => exact failsIn_ok _
  | cons key rest ih =>
      rw [List.forall_mem_cons] at inside
      rw [checkKeys]
      split
      · exact ih inside.2
      · exact failsIn_error (inside.1 _ rfl)

theorem failsIn_checkLookup {table : Located String}
    (there : Admits good table.span) (expected found : List Ty)
    {spans : List Span} (inside : ∀ span ∈ spans, Admits good span) :
    FailsIn good (context.checkLookup table expected found spans) := by
  rw [checkLookup]
  split
  · refine context.failsIn_checkKeys table.value fun key member => inside _ ?_
    exact (List.of_mem_zip (List.of_mem_zip member).2).2
  · exact failsIn_error (there _ rfl)

mutual

/-- Inference fails late, where the parts of the expression are. -/
theorem failsIn_infer (context : Context) :
    (expression : Expr) → (∀ span ∈ expression.positions, Admits good span) →
    (context.infer expression).FailsIn good
  | .literal _ _, _ => .recorded (.pure _) _
  | .path _ root segments, inside =>
      have parts := List.forall_mem_cons.mp inside
      .recorded
        (.bind (.ofExcept (context.failsIn_rootType root parts.1)) fun _ =>
          .bind (failsIn_inferSegments context _ segments parts.2) fun _ =>
            .pure _) _
  | .binary _ left operator right, inside =>
      have ⟨here, parts⟩ := List.forall_mem_cons.mp inside
      have ⟨first, second⟩ := List.forall_mem_append.mp parts
      .recorded (.bind (failsIn_infer context left first) fun _ =>
        .bind (failsIn_infer context right second) fun _ =>
          .ofExcept (failsIn_binaryType operator _ _ here)) _
  | .unary _ _ operand, inside =>
      have parts := List.forall_mem_cons.mp inside
      .recorded (.bind (failsIn_infer context operand parts.2)
        fun _ => .pure _) _
  | .conditional _ condition thenBranch elseBranch, inside =>
      have ⟨_, parts⟩ := List.forall_mem_cons.mp inside
      have ⟨first, branches⟩ := List.forall_mem_append.mp parts
      have ⟨second, third⟩ := List.forall_mem_append.mp branches
      .recorded (.bind (failsIn_infer context condition first) fun _ =>
        .bind (failsIn_infer context thenBranch second) fun _ =>
          .bind (failsIn_infer context elseBranch third) fun _ => .pure _) _
  | .matching _ subject arms, inside =>
      have ⟨_, parts⟩ := List.forall_mem_cons.mp inside
      have ⟨first, others⟩ := List.forall_mem_append.mp parts
      .recorded (.bind (failsIn_infer context subject first) fun subjectType =>
        .bind (failsIn_inferArms context subjectType arms others) fun _ =>
          .pure _) _
  | .lambda _ _ body, inside => by
      have ⟨_, parts⟩ := List.forall_mem_cons.mp inside
      have ⟨names, inner⟩ := List.forall_mem_append.mp parts
      refine .recorded (.bind (.inScope ?_) fun _ => .pure _) _
      refine .bind (.bindAll [] ?_) fun _ =>
        failsIn_infer (context.withVariables _) body inner
      exact List.forall_mem_map.mpr (List.forall_mem_map.mp names)
  | .aggregate _ function source, inside => by
      have ⟨_, inner⟩ := List.forall_mem_cons.mp inside
      have here := inner _ source.span_mem_positions
      refine .recorded (.bind (failsIn_infer context source inner)
        fun _ => ?_) _
      exact .bind (.ofExcept (failsIn_aggregateElement function _ here))
        fun _ => .pure _
  | .aggregateWith _ function source _ [_] body, inside => by
      have ⟨_, parts⟩ := List.forall_mem_cons.mp inside
      have ⟨inner, others⟩ := List.forall_mem_append.mp parts
      have ⟨_, function'⟩ := List.forall_mem_cons.mp others
      have ⟨name, last⟩ := List.forall_mem_cons.mp function'
      have here := inner _ source.span_mem_positions
      refine .recorded (.bind (failsIn_infer context source inner)
        fun _ => ?_) _
      refine .bind (.ofExcept (failsIn_aggregateElement function _ here))
        fun _ => ?_
      refine .bind (.inScope ?_) fun _ => .bind (.emit _) fun _ => .pure _
      exact .bind (.bindAll [] (List.forall_mem_singleton.mpr name)) fun _ =>
        failsIn_infer (context.withVariables _) body last
  | .aggregateWith _ function source _ [] _, inside => by
      have ⟨_, parts⟩ := List.forall_mem_cons.mp inside
      have ⟨inner, others⟩ := List.forall_mem_append.mp parts
      have here := inner _ source.span_mem_positions
      refine .recorded (.bind (failsIn_infer context source inner)
        fun _ => ?_) _
      exact .bind (.ofExcept (failsIn_aggregateElement function _ here))
        fun _ => .fail rfl (List.forall_mem_cons.mp others).1
  | .aggregateWith _ function source _ (_ :: _ :: _) _, inside => by
      have ⟨_, parts⟩ := List.forall_mem_cons.mp inside
      have ⟨inner, others⟩ := List.forall_mem_append.mp parts
      have here := inner _ source.span_mem_positions
      refine .recorded (.bind (failsIn_infer context source inner)
        fun _ => ?_) _
      exact .bind (.ofExcept (failsIn_aggregateElement function _ here))
        fun _ => .fail rfl (List.forall_mem_cons.mp others).1
  | .lookup _ table keys, inside => by
      have ⟨_, parts⟩ := List.forall_mem_cons.mp inside
      have ⟨named, others⟩ := List.forall_mem_cons.mp parts
      have spans : ∀ span ∈ keys.map Expr.span, Admits good span := by
        intro span member
        rcases List.mem_map.mp member with ⟨key, listed, rfl⟩
        refine others _ ?_
        rw [Expr.positionsOfAll_eq_flatMap, List.mem_flatMap]
        exact ⟨key, listed, key.span_mem_positions⟩
      refine .recorded ?_ _
      cases (context.kind table.value) with
      | none => exact .fail rfl named
      | some kind =>
          cases kind with
          | lookup expected value =>
              refine .bind (failsIn_inferAll context keys others)
                fun found => ?_
              split
              · have keys := context.failsIn_checkLookup named expected found
                  spans
                exact .bind (.ofExcept keys) fun _ => .pure _
              · exact .pure _
          | _ => exact .fail rfl named
termination_by structural expression => expression

theorem failsIn_inferSegments (context : Context) (walk : Walk) :
    (segments : List Segment) →
      (∀ span ∈ Segment.positionsOfAll segments, Admits good span) →
      (context.inferSegments walk segments).FailsIn good
  | [], _ => .pure _
  | .field _ _ _ :: rest, inside =>
      have ⟨here, others⟩ := List.forall_mem_cons.mp inside
      .bind (.ofExcept (context.failsIn_fieldType _ _ here)) fun _ =>
        failsIn_inferSegments context _ rest others
  | .index _ position _ :: rest, inside =>
      have ⟨here, parts⟩ := List.forall_mem_cons.mp inside
      have ⟨first, others⟩ := List.forall_mem_append.mp parts
      .bind (failsIn_infer context position first) fun _ =>
        .bind (.ofExcept (failsIn_elementType _ here)) fun _ =>
          failsIn_inferSegments context _ rest others
termination_by structural segments => segments

theorem failsIn_inferArms (context : Context) (subject : Ty) :
    (arms : List Arm) → (∀ span ∈ Arm.positionsOfAll arms, Admits good span) →
      (context.inferArms subject arms).FailsIn good
  | [], _ => .pure _
  | .mk _ _ body :: rest, inside =>
      have ⟨_, parts⟩ := List.forall_mem_cons.mp inside
      have ⟨here, bodies⟩ := List.forall_mem_cons.mp parts
      have ⟨first, others⟩ := List.forall_mem_append.mp bodies
      .bind (.ofExcept (context.failsIn_checkPattern subject here)) fun _ =>
        .bind (failsIn_infer context body first) fun _ =>
          .bind (failsIn_inferArms context subject rest others) fun _ => .pure _
termination_by structural arms => arms

theorem failsIn_inferAll (context : Context) :
    (expressions : List Expr) →
      (∀ span ∈ Expr.positionsOfAll expressions, Admits good span) →
      (context.inferAll expressions).FailsIn good
  | [], _ => .pure _
  | expression :: rest, inside =>
      have ⟨first, others⟩ := List.forall_mem_append.mp inside
      .bind (failsIn_infer context expression first) fun _ =>
        .bind (failsIn_inferAll context rest others) fun _ => .pure _
termination_by structural expressions => expressions

end

/-- A rule fails at one of its positions, with a problem of use. -/
theorem failsIn_checkRule (target : Ty) {rule : Rule}
    (inside : ∀ span ∈ rule.positions, Admits good span) :
    (context.checkRule target rule).FailsIn good := by
  simp only [Rule.positions, List.forall_mem_cons, List.forall_mem_append,
    List.forall_mem_map] at inside
  refine .bind (.ofExcept (context.failsIn_walk target inside.2.1))
    fun expected =>
      .bind (context.failsIn_infer rule.value inside.2.2) fun found => ?_
  split
  · exact .pure _
  · exact .fail rfl (inside.2.2 _ rule.value.span_mem_positions)

theorem failsAt_checkRule {placed : Span → Prop} (target : Ty) {rule : Rule}
    (inside : ∀ span ∈ rule.positions, placed span) :
    FailsAt placed (context.checkRule target rule).outcome :=
  context.failsIn_checkRule target fun span part =>
    admits_later (inside span part)

/-- A pipeline fails at one of its steps. -/
theorem good_of_mem_stepFaults (previous : Option (String × Signature))
    {steps : List (Located String)}
    (inside : ∀ step ∈ steps, Admits good step.span) :
    ∀ fault ∈ context.stepFaults previous steps, good fault := by
  induction steps generalizing previous with
  | nil => exact List.forall_mem_nil _
  | cons step rest ih =>
      rw [List.forall_mem_cons] at inside
      rw [stepFaults]
      split
      · exact List.forall_mem_cons.mpr ⟨inside.1 _ rfl, ih _ inside.2⟩
      · rw [List.forall_mem_append]
        refine ⟨?_, ih _ inside.2⟩
        intro fault member
        rcases Option.bind_eq_some_iff.mp (Option.mem_toList.mp member) with
          ⟨before, -, mismatched⟩
        rw [chainingFault?] at mismatched
        split at mismatched
        · cases mismatched
          exact inside.1 _ rfl
        · contradiction
      · exact List.forall_mem_cons.mpr ⟨inside.1 _ rfl, ih _ inside.2⟩

theorem placed_of_mem_stepFaults {placed : Span → Prop}
    (previous : Option (String × Signature)) {steps : List (Located String)}
    (inside : ∀ step ∈ steps, placed step.span) :
    ∀ fault ∈ context.stepFaults previous steps, fault.IsLater ∧
      placed fault.span :=
  context.good_of_mem_stepFaults previous fun step listed =>
    admits_later (inside step listed)

end Context

/-! ## What is reported -/

/-- The change reports only faults of a sort. -/
def Change.Reports (good : Fault → Prop) : Change → Prop
  | .report fault => good fault
  | _ => True

section

variable {good : Fault → Prop}

theorem Event.reports_change (event : Event) : event.change.Reports good := by
  cases event <;> trivial

variable (moved : ∀ fault span, good fault → good (Fault.orAt fault span))
  (use : ∀ span, Admits good span)

include moved use

theorem Context.reports_ruleChanges (context : Context) (target : Ty)
    (assigned : List String) (rules : List Rule) :
    ∀ change ∈ context.ruleChanges target assigned rules,
      change.Reports good := by
  induction rules generalizing assigned with
  | nil => exact List.forall_mem_nil _
  | cons rule rest ih =>
      simp only [ruleChanges, List.forall_mem_append, List.forall_mem_map]
      refine ⟨⟨⟨?_, fun event _ => event.reports_change⟩, ?_⟩, ih _⟩
      · split
        · exact List.forall_mem_singleton.mpr (use _ _ rfl)
        · exact List.forall_mem_nil _
      · intro fault member
        rw [Option.mem_toList, ruleFault?] at member
        split at member
        · contradiction
        · next original failed =>
            cases member
            have fails : (context.checkRule target rule).FailsIn good :=
              context.failsIn_checkRule target fun span _ => use span
            exact moved _ _ (fails original failed)

namespace Program

variable {program : Program}
  (units : ∀ name, FailsIn good (program.units.find name))

include units

/-- A type expression fails in problems of use and in those of units. -/
theorem good_of_comesFrom {stops : Span → String → Prop} {positions : List Span}
    (fault : Fault)
    (origin : ComesFrom program.names.unit stops positions fault) :
    good fault := by
  cases origin with
  | unit _ _ failed => exact moved _ _ (units _ _ failed)
  | own _ found => exact use _ _ found

theorem failsIn_resolve (parameters : List (String × Ty))
    (expression : TypeExpr) :
    FailsIn good (program.names.resolve parameters expression) :=
  (program.names.failsIn_resolve parameters expression).mono
    (good_of_comesFrom moved use units)

theorem failsIn_resolveAll (parameters : List (String × Ty))
    (expressions : List TypeExpr) :
    FailsIn good (program.names.resolveAll parameters expressions) :=
  (program.names.failsIn_resolveAll parameters expressions).mono
    (good_of_comesFrom moved use units)

theorem reports_lookupChanges (entry : Nat × Declaration) :
    ∀ change ∈ program.lookupChanges entry, change.Reports good := by
  rw [lookupChanges]
  split
  · split
    · exact List.forall_mem_singleton.mpr trivial
    · next declaration _ _ fault failed =>
        have fails : FailsIn good (program.names.lookup declaration) :=
          (failsIn_resolveAll moved use units [] declaration.keys).bind fun _ =>
            (failsIn_resolve moved use units [] declaration.value).bind fun _ =>
              failsIn_ok _
        exact List.forall_mem_singleton.mpr (moved _ _ (fails fault failed))
  · exact List.forall_mem_nil _

omit units in
/-- The body of a transform reports faults of use only. -/
theorem reports_bodyChanges (config : Config)
    (declaration : TransformDeclaration) (signature : Signature) :
    ∀ change ∈ program.bodyChanges config declaration signature,
      change.Reports good := by
  simp only [bodyChanges, sourceChanges, List.cons_append, List.forall_mem_cons,
    List.forall_mem_append, List.forall_mem_map]
  exact ⟨trivial,
    ⟨fun _ _ => trivial, Context.reports_ruleChanges moved use _ _ _ _⟩,
    trivial, List.forall_mem_nil _⟩

/--
A transform reports faults of use, or that its signature does not resolve.
-/
theorem reports_transformChanges (config : Config) (entry : Nat × Declaration) :
    ∀ change ∈ program.transformChanges config entry, change.Reports good := by
  rw [transformChanges]
  split
  · split
    · exact List.forall_mem_cons.mpr
        ⟨trivial, reports_bodyChanges moved use config _ _⟩
    · next declaration _ _ fault failed =>
        have fails : FailsIn good (program.names.signature declaration) :=
          (failsIn_resolveAll moved use units []
            (declaration.sources.map SourceDeclaration.type)).bind fun _ =>
              (failsIn_resolve moved use units [] declaration.target).bind
                fun _ => failsIn_ok _
        exact List.forall_mem_singleton.mpr (moved _ _ (fails fault failed))
  · exact List.forall_mem_nil _

omit moved units in
theorem reports_pipelineChanges (config : Config) (entry : Nat × Declaration) :
    ∀ change ∈ program.pipelineChanges config entry, change.Reports good := by
  rw [pipelineChanges, List.forall_mem_map]
  cases entry.2 with
  | pipeline declaration =>
      exact Context.good_of_mem_stepFaults (program.pipelineContext config) none
        fun step _ => use step.span
  | _ => exact List.forall_mem_nil _

omit use in
/-- A unit reports what is remembered about it. -/
theorem reports_unitChanges (entry : Nat × Declaration) :
    ∀ change ∈ program.unitChanges entry, change.Reports good := by
  rw [unitChanges]
  split
  · split
    · exact List.forall_mem_singleton.mpr trivial
    · next fault failed =>
        exact List.forall_mem_singleton.mpr (moved _ _ (units _ fault failed))
  · exact List.forall_mem_nil _

omit moved use units in
theorem reports_enumChanges (entry : Nat × Declaration) :
    ∀ change ∈ enumChanges entry, change.Reports good := by
  rw [enumChanges]
  split
  · exact List.forall_mem_singleton.mpr trivial
  · exact List.forall_mem_nil _

omit moved use units in
theorem reports_schemaChanges (entry : Nat × Declaration) :
    ∀ change ∈ program.schemaChanges entry, change.Reports good := by
  rw [schemaChanges]
  split
  · split
    · exact List.forall_mem_singleton.mpr trivial
    · exact List.forall_mem_nil _
  · exact List.forall_mem_nil _

/--
After the registration only problems of use and of the units are reported.
-/
theorem reports_changes (config : Config) :
    ∀ change ∈ program.changes config, change.Reports good := by
  have fields : ∀ fault ∈ program.fields.faults, good fault :=
    (SchemaFields.built_ofDeclarations program.names _).1.good_of_mem_faults
      fun _ _ field _ parameters =>
        (failsIn_resolve moved use units parameters field.type).mono
          fun _ found => moved _ field.span found
  simp only [changes, List.forall_mem_append, List.forall_mem_flatMap,
    List.forall_mem_map]
  exact ⟨⟨⟨⟨⟨⟨⟨fun _ _ => trivial,
    fun entry _ => reports_unitChanges moved units entry⟩,
    fun entry _ => reports_enumChanges entry⟩,
    fun entry _ => reports_schemaChanges entry⟩, fields⟩,
    fun entry _ => reports_lookupChanges moved use units entry⟩,
    fun entry _ => reports_transformChanges moved use units config entry⟩,
    fun entry _ => reports_pipelineChanges use config entry⟩

end Program

end

/-- The change reports no fault of registration. -/
abbrev Change.IsLater : Change → Prop :=
  Change.Reports Fault.IsLater

/-- The fault of a unit is not one of registration. -/
theorem Program.isLater_find_units (program : Program) (name : String) :
    FailsIn Fault.IsLater (program.units.find name) := by
  have fails := @failsAt_units (fun _ => True) program (fun _ _ => trivial) name
  exact fails.mono fun _ found => found.1

/-- After the registration no fault of registration is reported. -/
theorem Program.isLater_changes (program : Program) (config : Config) :
    ∀ change ∈ program.changes config, change.IsLater :=
  reports_changes (fun _ _ found => found)
    (fun _ _ => Problem.isOfRegistration_of_isOfUse) program.isLater_find_units
    config

end SchemaMap
