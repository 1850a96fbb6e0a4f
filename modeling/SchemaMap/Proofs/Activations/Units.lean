import SchemaMap.Proofs.Activations.Accounts
import SchemaMap.Proofs.UnitMarks

/-!
# The activations of units

A reference to a unit is answered by an activation, which evaluates the
declaration of the unit if it has no mark yet; for each reference in the
declaration a further activation is nested in it.  The declarations may refer to
one another in circles, so their shape does not bound how far this goes.
`UnitJournal.visitWithin` goes by the marks alone, over all declarations, and is
given up where more than so many activations would be nested.

With one activation more than there are declarations it is never given up and
finds what `UnitTable.settle` finds (`ofDeclarationsWithin_eq_some`, with
`reflects_ofDeclarations`).  Every declaration is evaluated exactly once
(`perm_evaluations`), and afterwards no reference begins anything
(`reads_visitWithin`).
-/

namespace SchemaMap

/-- The unit that is begun with an event. -/
def UnitEvent.begun? : UnitEvent → Option String
  | .begun name => some name
  | .finished _ _ => none

namespace UnitJournal

/--
The units whose declarations were evaluated, in the order in which they were
begun.
-/
def evaluations (journal : UnitJournal) : List String :=
  journal.filterMap UnitEvent.begun?

/-- A unit that is begun is evaluated once more. -/
@[simp]
theorem evaluations_begun (journal : UnitJournal) (name : String) :
    evaluations (journal ++ [.begun name]) = evaluations journal ++ [name] := by
  simp [evaluations, UnitEvent.begun?]

@[simp]
theorem evaluations_finished (journal : UnitJournal) (name : String)
    (outcome : Except Fault PhysicalUnit) :
    evaluations (journal ++ [.finished name outcome]) =
      evaluations journal := by
  simp [evaluations, UnitEvent.begun?]

/--
The outcome of a reference to a unit by its mark, with at most `depth`
activations nested.  What happens is written down; where more activations are
needed the evaluation is given up.
-/
def visitWithin (isDimension : String → Bool)
    (declarations : List UnitDeclaration) :
    Nat → String → ExceptT Fault (StateT UnitJournal Option) PhysicalUnit
  | 0, _ => ExceptT.mk failure
  | depth + 1, name =>
      visitBy declarations name fun declaration _ =>
        declaration.evaluate isDimension
          (visitWithin isDimension declarations depth)

/--
What happens while all declared units are evaluated, each with at most `depth`
activations nested.
-/
def ofDeclarationsWithin (isDimension : String → Bool)
    (declarations : List UnitDeclaration) (depth : Nat) :
    Option UnitJournal :=
  declarations.foldlM
    (fun journal declaration =>
      ((visitWithin isDimension declarations depth declaration.name).run
        journal).map Prod.snd) []

section

variable {journal : UnitJournal}

/-- A computation that answers goes on with its value. -/
theorem run_bind_limited_of_ok {α β : Type}
    {computation : ExceptT Fault (StateT UnitJournal Option) α}
    (next : α → ExceptT Fault (StateT UnitJournal Option) β) {value : α}
    {after : UnitJournal}
    (found : computation.run journal = some (.ok value, after)) :
    (computation >>= next).run journal = (next value).run after := by
  change ((computation.run journal).bind fun result =>
    ExceptT.bindCont next result.1 result.2) = _
  rw [found]
  rfl

theorem run_bind_limited_of_error {α β : Type}
    {computation : ExceptT Fault (StateT UnitJournal Option) α}
    (next : α → ExceptT Fault (StateT UnitJournal Option) β) {fault : Fault}
    {after : UnitJournal}
    (failed : computation.run journal = some (.error fault, after)) :
    (computation >>= next).run journal = some (.error fault, after) := by
  change ((computation.run journal).bind fun result =>
    ExceptT.bindCont next result.1 result.2) = _
  rw [failed]
  rfl

theorem run_adapt_limited {α : Type}
    {computation : ExceptT Fault (StateT UnitJournal Option) α}
    {outcome : Except Fault α} {after : UnitJournal}
    (found : computation.run journal = some (outcome, after))
    (change : Fault → Fault) :
    (computation.adapt change).run journal =
      some (outcome.mapError change, after) := by
  change ((computation.run journal).bind fun result =>
    some (result.1.mapError change, result.2)) = _
  rw [found]
  rfl

end

/--
An evaluation that may be given up is not: it has the outcome and the journal of
another, and keeps an invariant.
-/
def Answers (invariant : UnitJournal → Prop)
    (limited : ExceptT Fault (StateT UnitJournal Option) PhysicalUnit)
    (visited : ExceptT Fault (StateM UnitJournal) PhysicalUnit) : Prop :=
  ∀ journal, invariant journal →
    limited.run journal = some (visited.run journal) ∧
      invariant (visited.run journal).2

namespace Answers

variable {invariant : UnitJournal → Prop}
  {limited : ExceptT Fault (StateT UnitJournal Option) PhysicalUnit}
  {visited : ExceptT Fault (StateM UnitJournal) PhysicalUnit}

theorem adapt (answers : Answers invariant limited visited) (span : Span) :
    Answers invariant (limited.adapt (·.orAt span))
      (visited.adapt (·.orAt span)) := by
  intro journal holds
  rcases answers journal holds with ⟨same, after⟩
  exact ⟨run_adapt_limited same (·.orAt span), after⟩

theorem bind (answers : Answers invariant limited visited)
    {nextLimited : PhysicalUnit →
      ExceptT Fault (StateT UnitJournal Option) PhysicalUnit}
    {nextVisited : PhysicalUnit →
      ExceptT Fault (StateM UnitJournal) PhysicalUnit}
    (further : ∀ unit,
      Answers invariant (nextLimited unit) (nextVisited unit)) :
    Answers invariant (limited >>= nextLimited) (visited >>= nextVisited) := by
  intro journal holds
  rcases answers journal holds with ⟨same, after⟩
  cases found : (visited.run journal).1 with
  | ok unit =>
      have first : limited.run journal =
          some (.ok unit, (visited.run journal).2) := found ▸ same
      rw [run_bind_limited_of_ok nextLimited first,
        run_bind_of_ok nextVisited found]
      exact further unit _ after
  | error fault =>
      have first : limited.run journal =
          some (.error fault, (visited.run journal).2) := found ▸ same
      rw [run_bind_limited_of_error nextLimited first,
        run_bind_of_error nextVisited found]
      exact ⟨rfl, after⟩

theorem isRespected : IsRespected (Answers invariant) where
  outcome := fun _ _ holds => ⟨rfl, holds⟩
  adapt := adapt
  bind := bind

end Answers

/--
The journal accounts for the declarations, and exactly the units that were begun
have a mark.
-/
structure Accounted (declarations unbegun : List UnitDeclaration)
    (started : List String) (journal : UnitJournal) :
    Prop where
  accounts : Accounts UnitDeclaration.name declarations unbegun started
    journal.evaluations
  unmarked_iff : ∀ name, journal.progress.marks.get? name = none ↔
    name ∉ journal.evaluations

namespace Accounted

variable {declarations unbegun : List UnitDeclaration} {started : List String}
  {journal : UnitJournal} {name : String}

theorem start : Accounted declarations declarations [] [] where
  accounts := .start
  unmarked_iff := fun name => by simp [progress, evaluations]

theorem begun (accounted : Accounted declarations unbegun started journal)
    (unmarked : journal.progress.marks.get? name = none)
    {declaration : UnitDeclaration}
    (found : unbegun.find? (fun candidate => candidate.name == name) =
      some declaration) :
    Accounted declarations (without UnitDeclaration.name unbegun name)
      (name :: started) (journal ++ [.begun name]) where
  accounts := by
    rw [evaluations_begun]
    exact accounted.accounts.enter ((accounted.unmarked_iff name).mp unmarked)
      found
  unmarked_iff := by
    intro other
    rw [progress_concat, UnitProgress.next, evaluations_begun, List.mem_append,
      List.mem_singleton]
    by_cases same : other = name
    · simp [same]
    · simp [Dictionary.get?_insert_of_ne same, same, accounted.unmarked_iff]

theorem finished
    (accounted : Accounted declarations
      (without UnitDeclaration.name unbegun name) (name :: started) journal)
    (outcome : Except Fault PhysicalUnit) :
    Accounted declarations unbegun started
      (journal ++ [.finished name outcome]) where
  accounts := by
    rw [evaluations_finished]
    exact accounted.accounts.leave
  unmarked_iff := by
    intro other
    rw [progress_concat, UnitProgress.next, evaluations_finished]
    by_cases same : other = name
    · simp [same, accounted.accounts.kept name List.mem_cons_self]
    · rw [Dictionary.get?_insert_of_ne same, accounted.unmarked_iff]

end Accounted

section

variable (isDimension : String → Bool) {declarations : List UnitDeclaration}

/--
With more activations than there are units to begin, a reference is answered by
the marks alone as it is where the units that were not begun are handed down.
-/
theorem answers_visitWithin {depth : Nat} {unbegun : List UnitDeclaration}
    (fits : unbegun.length < depth) (started : List String) (name : String) :
    Answers (Accounted declarations unbegun started)
      (visitWithin isDimension declarations depth name)
      (visit isDimension unbegun name) := by
  -- The induction is on the depth: a unit that is begun takes one activation
  -- and one of the units to begin.
  induction depth generalizing unbegun started name with
  | zero => contradiction
  | succ depth ih =>
      intro journal accounted
      cases marked : journal.progress.marks.get? name with
      | some mark =>
          cases mark with
          | settled outcome =>
              rw [visitWithin, visit, run_visitBy_of_settled marked,
                run_visitBy_of_settled marked]
              exact ⟨rfl, accounted⟩
          | visiting =>
              rw [visitWithin, visit, run_visitBy_of_visiting marked,
                run_visitBy_of_visiting marked]
              exact ⟨rfl, accounted⟩
      | none =>
          have fresh : name ∉ journal.evaluations :=
            (accounted.unmarked_iff name).mp marked
          have same := accounted.accounts.find?_eq name fresh
          cases found : unbegun.find?
            (fun candidate => candidate.name == name) with
          | none =>
              rw [visitWithin, visit,
                run_visitBy_of_undeclared marked (same.symm.trans found),
                run_visitBy_of_undeclared marked found]
              exact ⟨rfl, accounted⟩
          | some declaration =>
              have shorter := length_without_lt found
              have references : ∀ definition,
                  declaration.definition = some definition →
                  ∀ used ∈ definition.references,
                    Answers (Accounted declarations
                      (without UnitDeclaration.name unbegun name)
                      (name :: started))
                      (visitWithin isDimension declarations depth used)
                      (visit isDimension
                        (without UnitDeclaration.name unbegun name) used) :=
                fun _ _ used _ => ih (by omega) (name :: started) used
              have evaluation :=
                (Answers.isRespected.declaration isDimension references).adapt
                  declaration.span
              rcases evaluation _ (accounted.begun marked found) with
                ⟨evaluated, after⟩
              rw [visitWithin, visit,
                run_visitBy_of_unmarked marked (same.symm.trans found),
                run_visitBy_of_unmarked marked found, evaluated]
              exact ⟨rfl, after.finished _⟩

/--
With one activation more than there are units the evaluation is not given up.
-/
theorem ofDeclarationsWithin_eq_some {depth : Nat}
    (fits : declarations.length < depth) :
    ofDeclarationsWithin isDimension declarations depth =
      some (ofDeclarations isDimension declarations) ∧
      Accounted declarations declarations []
        (ofDeclarations isDimension declarations) := by
  have turn : ∀ (declaration : UnitDeclaration) (journal other : UnitJournal),
      journal = other ∧ Accounted declarations declarations [] journal →
        ∃ after,
          ((visitWithin isDimension declarations depth declaration.name).run
            journal).map Prod.snd = some after ∧
            after =
              ((visit isDimension declarations declaration.name).run other).2 ∧
            Accounted declarations declarations [] after := by
    rintro declaration journal _ ⟨rfl, accounted⟩
    rcases answers_visitWithin isDimension fits [] declaration.name journal
      accounted with ⟨same, kept⟩
    exact ⟨_, congrArg (Option.map Prod.snd) same, rfl, kept⟩
  rcases exists_foldlM_eq_some turn declarations ⟨rfl, .start⟩ with
    ⟨_, limited, rfl, accounted⟩
  exact ⟨limited, accounted⟩

-- One activation is too few where a unit refers to another, be that declared or
-- not.
example : ofDeclarationsWithin (fun _ => false)
    [{ name := "speed", definition := some (.reference .unknown "turn") }] 1 =
      none := rfl

/--
An evaluation reads an outcome off the journal: it is not given up, and nothing
happens.
-/
def Reads (journal : UnitJournal)
    (limited : ExceptT Fault (StateT UnitJournal Option) PhysicalUnit)
    (outcome : ExceptT Fault Id PhysicalUnit) : Prop :=
  limited.run journal = some (outcome.run, journal)

/-- Computations that only read the journal are respected. -/
theorem isRespected_reads (journal : UnitJournal) :
    IsRespected (Reads journal) where
  outcome := fun _ => rfl
  adapt := fun reads span => run_adapt_limited reads (·.orAt span)
  bind := by
    intro limited outcome reads nextLimited nextOutcome further
    change limited.run journal = some (outcome.run, journal) at reads
    change (limited >>= nextLimited).run journal =
      some (ExceptT.bindCont nextOutcome outcome.run, journal)
    cases found : outcome.run with
    | ok unit =>
        rw [found] at reads
        rw [run_bind_limited_of_ok nextLimited reads]
        exact further unit
    | error fault =>
        rw [found] at reads
        exact run_bind_limited_of_error nextLimited reads

section

variable (distinct : (declarations.map UnitDeclaration.name).Nodup)

include distinct

/-- In the end every declared unit has a mark. -/
theorem mark_ne_none {declaration : UnitDeclaration}
    (member : declaration ∈ declarations) :
    (ofDeclarations isDimension declarations).progress.marks.get?
      declaration.name ≠ none := by
  intro unmarked
  have final := @UnitTable.consistent_ofDeclarations declarations isDimension
    fun _ _ left right => List.inj_on_of_nodup_map distinct left right
  have settled := final.kept declaration.name (List.mem_map_of_mem member)
  rw [(reflects_ofDeclarations isDimension declarations).lookup_eq_none
    (by simp [unmarked])] at settled
  contradiction

/-- Every unit is evaluated exactly once. -/
theorem perm_evaluations :
    (ofDeclarations isDimension declarations).evaluations.Perm
      (declarations.map UnitDeclaration.name) := by
  have accounted :=
    (ofDeclarationsWithin_eq_some isDimension
      (Nat.lt_succ_self declarations.length)).2
  apply accounted.accounts.perm distinct
  intro declaration member
  by_contra absent
  exact mark_ne_none isDimension distinct member
    ((accounted.unmarked_iff declaration.name).mpr absent)

/-- Once all units are evaluated every reference is read off the journal. -/
theorem reads_visitWithin (name : String) :
    Reads (ofDeclarations isDimension declarations)
      (visitWithin isDimension declarations 1 name)
      ((UnitTable.ofDeclarations isDimension declarations).find name) := by
  have reflects := reflects_ofDeclarations isDimension declarations
  cases marked : (ofDeclarations isDimension declarations).progress.marks.get?
    name with
  | some mark =>
      cases mark with
      | settled outcome =>
          rw [UnitTable.find_of_lookup
            ((reflects.settled_iff name outcome).mp marked)]
          exact run_visitBy_of_settled marked
      | visiting =>
          have open_ := reflects.visiting_iff.mp marked
          contradiction
  | none =>
      have unsettled : (UnitTable.ofDeclarations isDimension
          declarations).lookup name = none :=
        reflects.lookup_eq_none (by simp [marked])
      have missing : declarations.find?
          (fun candidate => candidate.name == name) = none := by
        rw [List.find?_eq_none]
        intro declaration member named
        rw [beq_iff_eq] at named
        exact mark_ne_none isDimension distinct member (named ▸ marked)
      rw [UnitTable.find, unsettled]
      exact run_visitBy_of_undeclared marked missing

end

end

end UnitJournal

end SchemaMap
