import SchemaMap.Proofs.Positions
import SchemaMap.Proofs.Units
import SchemaMap.Resolution

/-!
# Where the resolution of types stops

A type expression is resolved from the left to the right, and the first fault
ends it.  Such a fault is either one of the expression's own, found at one of
its parts, or it is the fault of a unit that the expression refers to.
`UnitExpr.StopsAt` and `TypeExpr.StopsAt` say at which reference to a unit the
resolution stops: everything to the left of it resolves, and the unit does not.

Resolution then gives the fault of that unit, at the position of the reference
if it has none of its own (`StopsAt.resolve`), and every other fault is one of
the expression's own (`failsIn_resolve`).
-/

namespace SchemaMap

namespace Problem

/-- The problems that registration finds. -/
def isOfRegistration : Problem → Bool
  | .alreadyDeclared _ _ => true
  | .unknownParent _ _ => true
  | .cyclicInheritance _ => true
  | .duplicateField _ _ => true
  | .duplicateVariant _ _ => true
  | _ => false

/-- The problems that only the evaluation of the declared units finds. -/
def isOfUnits : Problem → Bool
  | .undeclaredUnit _ => true
  | .undeclaredDimension _ => true
  | .cyclicUnit _ => true
  | .invalidScale _ _ => true
  | _ => false

/-- The problems that are found where declared names are used. -/
def isOfUse (problem : Problem) : Bool :=
  !problem.isOfRegistration && !problem.isOfUnits

theorem isOfRegistration_of_isOfUse {problem : Problem}
    (ofUse : problem.isOfUse = true) :
    problem.isOfRegistration = false := by
  simp only [isOfUse, Bool.and_eq_true, Bool.not_eq_true'] at ofUse
  exact ofUse.1

theorem isOfUnits_of_isOfUse {problem : Problem}
    (ofUse : problem.isOfUse = true) : problem.isOfUnits = false := by
  simp only [isOfUse, Bool.and_eq_true, Bool.not_eq_true'] at ofUse
  exact ofUse.2

end Problem

/-! ## Computations that fail -/

/-- A computation fails only in faults of a sort. -/
def FailsIn {α : Type} (good : Fault → Prop) (outcome : Except Fault α) :
    Prop :=
  ∀ fault, outcome = .error fault → good fault

section

variable {α β : Type} {good : Fault → Prop}

theorem failsIn_ok (value : α) : FailsIn good (.ok value : Except Fault α) := by
  intro fault failed
  contradiction

theorem failsIn_error {fault : Fault} (found : good fault) :
    FailsIn good (.error fault : Except Fault α) := by
  rintro _ ⟨⟩
  exact found

namespace FailsIn

theorem mono {wider : Fault → Prop} {outcome : Except Fault α}
    (fails : FailsIn good outcome)
    (within : ∀ fault, good fault → wider fault) : FailsIn wider outcome :=
  fun fault failed => within fault (fails fault failed)

theorem bind_of_ok {first : Except Fault α} {next : α → Except Fault β}
    (fails : FailsIn good first)
    (further : ∀ value, first = .ok value → FailsIn good (next value)) :
    FailsIn good (first >>= next) := by
  cases first with
  | ok value => exact further value rfl
  | error fault => exact failsIn_error (fails fault rfl)

theorem bind {first : Except Fault α} {next : α → Except Fault β}
    (fails : FailsIn good first)
    (further : ∀ value, FailsIn good (next value)) :
    FailsIn good (first >>= next) :=
  fails.bind_of_ok fun value _ => further value

theorem map {outcome : Except Fault α} (fails : FailsIn good outcome)
    (change : α → β) :
    FailsIn good (outcome.map change) := by
  cases outcome with
  | ok value => exact failsIn_ok _
  | error fault => exact failsIn_error (fails fault rfl)

theorem run_bind {computation : ExceptT Fault Id PhysicalUnit}
    {next : PhysicalUnit → ExceptT Fault Id PhysicalUnit}
    (fails : FailsIn good computation.run)
    (further : ∀ unit, computation.run = .ok unit →
      FailsIn good (next unit).run) :
    FailsIn good (computation >>= next).run := by
  change FailsIn good (ExceptT.bindCont (m := Id) next computation.run)
  cases found : computation.run with
  | ok unit => exact further unit found
  | error fault => exact failsIn_error (fails fault found)

end FailsIn

end

/--
A fault of an expression is the fault of a unit at which the expression stops,
or it is one of the expression's own.  Either is met at one of the positions.
-/
inductive ComesFrom (unit : String → Except Fault PhysicalUnit)
    (stops : Span → String → Prop) (positions : List Span) : Fault → Prop where
  | unit {span : Span} {name : String} {fault : Fault}
      (inside : span ∈ positions) (stopped : stops span name)
      (failed : unit name = .error fault) :
      ComesFrom unit stops positions (fault.orAt span)
  | own {problem : Problem} {span : Span} (inside : span ∈ positions)
      (found : problem.isOfUse = true) :
      ComesFrom unit stops positions ⟨problem, span⟩

theorem ComesFrom.mono {unit : String → Except Fault PhysicalUnit}
    {stops wider : Span → String → Prop} {positions all : List Span}
    (included : positions ⊆ all)
    (within : ∀ span name, stops span name → wider span name) (fault : Fault)
    (origin : ComesFrom unit stops positions fault) :
    ComesFrom unit wider all fault := by
  cases origin with
  | unit inside stopped failed =>
      exact .unit (included inside) (within _ _ stopped) failed
  | own inside found => exact .own (included inside) found

/-! ## Unit expressions -/

namespace UnitExpr

/--
The reference to a unit, by position and name, at which the evaluation of a unit
expression stops.
-/
inductive StopsAt (unit : String → Except Fault PhysicalUnit) :
    UnitExpr → Span → String → Prop where
  | reference {span : Span} {name : String} {fault : Fault}
      (failed : unit name = .error fault) :
      StopsAt unit (.reference span name) span name
  | productLeft {here span : Span} {left right : UnitExpr} {name : String}
      (stops : StopsAt unit left span name) :
      StopsAt unit (.product here left right) span name
  | productRight {here span : Span} {left right : UnitExpr} {name : String}
      {value : PhysicalUnit}
      (before : left.Evaluates (fun name value => unit name = .ok value) value)
      (stops : StopsAt unit right span name) :
      StopsAt unit (.product here left right) span name
  | quotientLeft {here span : Span} {left right : UnitExpr} {name : String}
      (stops : StopsAt unit left span name) :
      StopsAt unit (.quotient here left right) span name
  | quotientRight {here span : Span} {left right : UnitExpr} {name : String}
      {value : PhysicalUnit}
      (before : left.Evaluates (fun name value => unit name = .ok value) value)
      (stops : StopsAt unit right span name) :
      StopsAt unit (.quotient here left right) span name
  | power {here span : Span} {base : UnitExpr} {exponent : Int} {name : String}
      (stops : StopsAt unit base span name) :
      StopsAt unit (.power here base exponent) span name

variable {unit : String → Except Fault PhysicalUnit} {expression : UnitExpr}

section

variable {computation : ExceptT Fault Id PhysicalUnit}
  (next : PhysicalUnit → ExceptT Fault Id PhysicalUnit)

theorem run_bind_of_run_eq_error {fault : Fault}
    (failed : computation.run = .error fault) :
    (computation >>= next).run = .error fault := by
  change ExceptT.bindCont (m := Id) next computation.run = _
  rw [failed]
  rfl

theorem run_bind_of_run_eq_ok {value : PhysicalUnit}
    (found : computation.run = .ok value) :
    (computation >>= next).run = (next value).run := by
  change ExceptT.bindCont (m := Id) next computation.run = _
  rw [found]
  rfl

end

/-- The evaluation gives the fault of the unit at which it stops. -/
theorem StopsAt.run_evaluate {span : Span} {name : String} {fault : Fault}
    (stops : expression.StopsAt unit span name)
    (failed : unit name = .error fault) :
    (expression.evaluate (m := Id) unit).run = .error (fault.orAt span) := by
  induction stops with
  | reference =>
      change (unit _).mapError _ = _
      rw [failed]
      rfl
  | productLeft _ inLeft => exact run_bind_of_run_eq_error _ (inLeft failed)
  | productRight before _ inRight =>
      rw [evaluate, run_bind_of_run_eq_ok _ (run_evaluate_eq_ok_iff.mpr before)]
      exact run_bind_of_run_eq_error _ (inRight failed)
  | quotientLeft _ inLeft => exact run_bind_of_run_eq_error _ (inLeft failed)
  | quotientRight before _ inRight =>
      rw [evaluate, run_bind_of_run_eq_ok _ (run_evaluate_eq_ok_iff.mpr before)]
      exact run_bind_of_run_eq_error _ (inRight failed)
  | power _ inBase => exact run_bind_of_run_eq_error _ (inBase failed)

theorem failsIn_orOverflow {stops : Span → String → Prop}
    {positions : List Span} (unit? : Option PhysicalUnit) (text : String)
    {span : Span} (inside : span ∈ positions) :
    FailsIn (ComesFrom unit stops positions) (orOverflow unit? text span) := by
  cases unit? with
  | some value => exact failsIn_ok _
  | none => exact failsIn_error (.own inside rfl)

/--
Two operands and what combines them: what stops an operand stops the whole.
-/
theorem failsIn_combined {left right : UnitExpr} {positions : List Span}
    {stops : Span → String → Prop} {here : Span}
    (inLeft : FailsIn (ComesFrom unit (left.StopsAt unit) left.positions)
      (left.evaluate (m := Id) unit).run)
    (inRight : FailsIn (ComesFrom unit (right.StopsAt unit) right.positions)
      (right.evaluate (m := Id) unit).run)
    (included : here :: (left.positions ++ right.positions) ⊆ positions)
    (stopsLeft : ∀ span name, left.StopsAt unit span name → stops span name)
    (stopsRight : ∀ {value},
      left.Evaluates (fun name value => unit name = .ok value) value →
      ∀ span name, right.StopsAt unit span name → stops span name)
    (combine : PhysicalUnit → PhysicalUnit → Option PhysicalUnit)
    (text : PhysicalUnit → PhysicalUnit → String) :
    FailsIn (ComesFrom unit stops positions)
      (do
        let first ← left.evaluate (m := Id) unit
        let second ← right.evaluate (m := Id) unit
        ExceptT.mk
          (pure (orOverflow (combine first second) (text first second)
            here))).run := by
  rw [List.cons_subset, List.append_subset] at included
  refine (inLeft.mono (ComesFrom.mono included.2.1 stopsLeft)).run_bind
    fun first known => ?_
  have before := run_evaluate_eq_ok_iff.mp known
  refine (inRight.mono (ComesFrom.mono included.2.2
    (stopsRight before))).run_bind fun second _ => ?_
  exact failsIn_orOverflow _ _ included.1

/--
A unit expression fails where it stops, or with an exponent that is out of
range.
-/
theorem failsIn_evaluate (unit : String → Except Fault PhysicalUnit)
    (expression : UnitExpr) :
    FailsIn (ComesFrom unit (expression.StopsAt unit) expression.positions)
      (expression.evaluate (m := Id) unit).run := by
  induction expression with
  | reference span name =>
      intro fault failed
      change (unit name).mapError (·.orAt span) = _ at failed
      cases found : unit name with
      | ok value =>
          rw [found] at failed
          contradiction
      | error original =>
          rw [found] at failed
          cases failed
          exact .unit List.mem_cons_self (.reference found) found
  | product here left right inLeft inRight =>
      exact failsIn_combined inLeft inRight (List.Subset.refl _)
        (fun _ _ => .productLeft)
        (fun before _ _ => .productRight before) _ _
  | quotient here left right inLeft inRight =>
      exact failsIn_combined inLeft inRight (List.Subset.refl _)
        (fun _ _ => .quotientLeft)
        (fun before _ _ => .quotientRight before) _ _
  | power here base exponent inBase =>
      refine (inBase.mono (ComesFrom.mono (List.subset_cons_self _ _) fun _ _ =>
        .power)).run_bind fun value _ => ?_
      exact failsIn_orOverflow _ _ List.mem_cons_self
  | one span => exact failsIn_ok _

end UnitExpr

/-! ## Type expressions -/

/--
The reference to a unit, by position and name, at which the resolution of a type
expression stops.  In a list of type expressions those before resolve.
-/
inductive TypeExpr.StopsAt (names : Names) (parameters : List (String × Ty)) :
    TypeExpr → Span → String → Prop where
  | quantity {here span : Span} {unit : UnitExpr} {name : String}
      (stops : unit.StopsAt names.unit span name) :
      StopsAt names parameters (.quantity here unit) span name
  | array {here span : Span} {element : TypeExpr} {name : String}
      (stops : StopsAt names parameters element span name) :
      StopsAt names parameters (.array here element) span name
  | optional {here span : Span} {inner : TypeExpr} {name : String}
      (stops : StopsAt names parameters inner span name) :
      StopsAt names parameters (.optional here inner) span name
  | tuple {here span : Span} {before after : List TypeExpr} {item : TypeExpr}
      {name : String}
      (resolved : ∀ other ∈ before,
        ∃ type, names.resolve parameters other = .ok type)
      (stops : StopsAt names parameters item span name) :
      StopsAt names parameters (.tuple here (before ++ item :: after)) span name
  | union {here span : Span} {before after : List TypeExpr} {item : TypeExpr}
      {name : String}
      (resolved : ∀ other ∈ before,
        ∃ type, names.resolve parameters other = .ok type)
      (stops : StopsAt names parameters item span name) :
      StopsAt names parameters (.union here (before ++ item :: after)) span name
  | generic {here span : Span} {schema : String} {before after : List TypeExpr}
      {item : TypeExpr} {name : String}
      (resolved : ∀ other ∈ before,
        ∃ type, names.resolve parameters other = .ok type)
      (stops : StopsAt names parameters item span name) :
      StopsAt names parameters (.generic here schema (before ++ item :: after))
        span name

/--
The resolution of a list of type expressions stops in one of them, and those
before resolve.
-/
def TypeExpr.SomeStopsAt (names : Names) (parameters : List (String × Ty))
    (expressions : List TypeExpr) (span : Span) (name : String) : Prop :=
  ∃ before item after, expressions = before ++ item :: after ∧
    (∀ other ∈ before, ∃ type, names.resolve parameters other = .ok type) ∧
    item.StopsAt names parameters span name

namespace Names

variable {names : Names} {parameters : List (String × Ty)}

/-- A list of expressions stops at the first that does not resolve. -/
theorem resolveAll_of_stopped {before after : List TypeExpr} {item : TypeExpr}
    {fault : Fault}
    (resolved : ∀ other ∈ before,
      ∃ type, names.resolve parameters other = .ok type)
    (failed : names.resolve parameters item = .error fault) :
    names.resolveAll parameters (before ++ item :: after) = .error fault := by
  induction before with
  | nil =>
      rw [List.nil_append, resolveAll, failed]
      rfl
  | cons first rest ih =>
      rw [List.forall_mem_cons] at resolved
      rcases resolved.1 with ⟨type, known⟩
      rw [List.cons_append, resolveAll, known, ih resolved.2]
      rfl

end Names

/-- The resolution gives the fault of the unit at which it stops. -/
theorem TypeExpr.StopsAt.resolve {names : Names}
    {parameters : List (String × Ty)} {expression : TypeExpr} {span : Span}
    {name : String} {fault : Fault}
    (stops : expression.StopsAt names parameters span name)
    (failed : names.unit name = .error fault) :
    names.resolve parameters expression = .error (fault.orAt span) := by
  induction stops with
  | quantity stops =>
      rw [Names.resolve, Names.quantity, stops.run_evaluate failed]
      rfl
  | array _ inner =>
      rw [Names.resolve, inner failed]
      rfl
  | optional _ inner =>
      rw [Names.resolve, inner failed]
      rfl
  | tuple resolved _ inner =>
      rw [Names.resolve, Names.resolveAll_of_stopped resolved (inner failed)]
      rfl
  | union resolved _ inner =>
      rw [Names.resolve, Names.resolveAll_of_stopped resolved (inner failed)]
      rfl
  | generic resolved _ inner =>
      rw [Names.resolve, Names.resolveAll_of_stopped resolved (inner failed)]
      rfl

theorem TypeExpr.SomeStopsAt.resolveAll {names : Names}
    {parameters : List (String × Ty)} {expressions : List TypeExpr}
    {span : Span} {name : String} {fault : Fault}
    (stops : SomeStopsAt names parameters expressions span name)
    (failed : names.unit name = .error fault) :
    names.resolveAll parameters expressions = .error (fault.orAt span) := by
  rcases stops with ⟨before, item, after, rfl, resolved, stops⟩
  exact Names.resolveAll_of_stopped resolved (stops.resolve failed)

namespace Names

variable {names : Names}

theorem resolveAll_concat (parameters : List (String × Ty))
    (types : List TypeExpr) (last : TypeExpr) :
    names.resolveAll parameters (types ++ [last]) =
      (names.resolveAll parameters types >>= fun found =>
        names.resolve parameters last >>=
          fun type => pure (found ++ [type])) := by
  induction types with
  | nil => rfl
  | cons first rest ih =>
      rw [List.cons_append, resolveAll, resolveAll, ih]
      cases names.resolve parameters first with
      | error fault => rfl
      | ok type =>
          cases names.resolveAll parameters rest with
          | error fault => rfl
          | ok found => cases names.resolve parameters last <;> rfl

/-- A list of type expressions and one more fail like the longer list. -/
theorem bind_resolveAll_eq_error {α : Type} {parameters : List (String × Ty)}
    {types : List TypeExpr} {last : TypeExpr} {fault : Fault}
    (failed : names.resolveAll parameters (types ++ [last]) = .error fault)
    (finish : List Ty → Ty → α) :
    (names.resolveAll parameters types >>= fun found =>
      names.resolve parameters last >>= fun type => pure (finish found type)) =
      .error fault := by
  rw [resolveAll_concat] at failed
  cases known : names.resolveAll parameters types with
  | error other =>
      rw [known] at failed
      cases failed
      rfl
  | ok found =>
      rw [known] at failed
      cases resolved : names.resolve parameters last with
      | error other =>
          rw [resolved] at failed
          cases failed
          rfl
      | ok type =>
          rw [resolved] at failed
          contradiction

/-- A lookup table stops where its keys, or else its values, do. -/
theorem lookup_of_stopped {declaration : LookupDeclaration} {span : Span}
    {name : String} {fault : Fault}
    (stops : TypeExpr.SomeStopsAt names []
      (declaration.keys ++ [declaration.value]) span name)
    (failed : names.unit name = .error fault) :
    names.lookup declaration = .error (fault.orAt span) :=
  bind_resolveAll_eq_error (stops.resolveAll failed) _

/-- A signature stops where its sources, or else its target, do. -/
theorem signature_of_stopped {declaration : TransformDeclaration} {span : Span}
    {name : String} {fault : Fault}
    (stops : TypeExpr.SomeStopsAt names []
      (declaration.sources.map SourceDeclaration.type ++ [declaration.target])
      span name)
    (failed : names.unit name = .error fault) :
    names.signature declaration = .error (fault.orAt span) :=
  bind_resolveAll_eq_error (stops.resolveAll failed) _

/-- A name that stands for no type fails where it is written. -/
theorem failsIn_named {stops : Span → String → Prop} {positions : List Span}
    (names : Names) (name : String) (arguments : List Ty) {span : Span}
    (inside : span ∈ positions) :
    FailsIn (ComesFrom names.unit stops positions)
      (names.named name arguments span) := by
  rw [named]
  split
  · exact failsIn_error (.own inside rfl)
  · split
    · exact failsIn_ok _
    · exact failsIn_error (.own inside rfl)
  · split
    · exact failsIn_ok _
    · exact failsIn_error (.own inside rfl)
  · exact failsIn_error (.own inside rfl)

theorem failsIn_bare {stops : Span → String → Prop} {positions : List Span}
    (names : Names) (parameters : List (String × Ty)) (name : String)
    {span : Span} (inside : span ∈ positions) :
    FailsIn (ComesFrom names.unit stops positions)
      (names.bare parameters name span) := by
  rw [bare]
  split
  · exact failsIn_ok _
  · exact names.failsIn_named name [] inside

mutual

/-- A type expression fails where it stops, or with a fault of its own. -/
theorem failsIn_resolve (names : Names) (parameters : List (String × Ty)) :
    (expression : TypeExpr) →
    FailsIn (ComesFrom names.unit (expression.StopsAt names parameters)
      expression.positions)
      (names.resolve parameters expression)
  | .primitive _ _ => failsIn_ok _
  | .schemaName _ name => names.failsIn_bare parameters name List.mem_cons_self
  | .enumName _ name => names.failsIn_bare parameters name List.mem_cons_self
  | .array _ element =>
      ((failsIn_resolve names parameters element).mono
        (ComesFrom.mono (List.subset_cons_self _ _) fun _ _ => .array)).map _
  | .optional _ inner =>
      ((failsIn_resolve names parameters inner).mono
        (ComesFrom.mono (List.subset_cons_self _ _) fun _ _ => .optional)).map _
  | .quantity _ unit =>
      ((unit.failsIn_evaluate names.unit).mono
        (ComesFrom.mono (List.subset_cons_self _ _) fun _ _ => .quantity)).map _
  | .tuple _ items =>
      ((failsIn_resolveAll names parameters items).mono
        (ComesFrom.mono (List.subset_cons_self _ _) (by
          rintro span name ⟨before, item, after, rfl, resolved, stops⟩
          exact .tuple resolved stops))).map _
  | .union _ members =>
      ((failsIn_resolveAll names parameters members).mono
        (ComesFrom.mono (List.subset_cons_self _ _) (by
          rintro span name ⟨before, item, after, rfl, resolved, stops⟩
          exact .union resolved stops))).map _
  | .generic _ schema arguments =>
      ((failsIn_resolveAll names parameters arguments).mono
        (ComesFrom.mono (List.subset_cons_self _ _) (by
          rintro span name ⟨before, item, after, rfl, resolved, stops⟩
          exact .generic resolved stops))).bind fun types =>
          names.failsIn_named schema types List.mem_cons_self
termination_by structural expression => expression

theorem failsIn_resolveAll (names : Names) (parameters : List (String × Ty)) :
    (expressions : List TypeExpr) →
    FailsIn
      (ComesFrom names.unit (TypeExpr.SomeStopsAt names parameters expressions)
      (TypeExpr.positionsOfAll expressions))
      (names.resolveAll parameters expressions)
  | [] => failsIn_ok _
  | expression :: rest => by
      have here : ∀ span name, expression.StopsAt names parameters span name →
          TypeExpr.SomeStopsAt names parameters (expression :: rest) span
            name :=
        fun span name stops =>
          ⟨[], expression, rest, rfl, List.forall_mem_nil _, stops⟩
      refine ((failsIn_resolve names parameters expression).mono
        (ComesFrom.mono (List.subset_append_left _ _) here)).bind_of_ok
        fun type known => ?_
      have later : ∀ span name,
          TypeExpr.SomeStopsAt names parameters rest span name →
          TypeExpr.SomeStopsAt names parameters (expression :: rest) span
            name := by
        rintro span name ⟨before, item, after, rfl, resolved, stops⟩
        exact ⟨expression :: before, item, after, rfl,
          List.forall_mem_cons.mpr ⟨⟨type, known⟩, resolved⟩, stops⟩
      exact ((failsIn_resolveAll names parameters rest).mono
        (ComesFrom.mono (List.subset_append_right _ _) later)).bind fun _ =>
        failsIn_ok _
termination_by structural expressions => expressions

end

end Names

end SchemaMap
