import Mathlib.Data.List.Chain
import SchemaMap.Proofs.Analysis.Evaluation
import SchemaMap.Proofs.Reporting

/-!
# The marks of units in progress

While units are evaluated, each one that was begun has a mark: it is in
progress, or it is settled.  Beside the marks there is a stack of the names in
progress.  `UnitJournal.visit` evaluates a unit by its mark and writes down when
a unit is begun and finished, so that the marks and the stack can be read off at
every moment.

It evaluates every unit as `UnitTable.settle` does (`agrees_visit`, by
`IsRespected`: what holds between the references of two evaluations holds
between the evaluations).  At every moment exactly the names on the stack are
marked as in progress, each of them once, and each is mentioned by the one
before (`UnitProgress.Sound`).  Hence a cycle that is reported is a cycle of the
declarations (`cyclicUnits_analyze`).
-/

namespace SchemaMap

/-! ## Cycles of units -/

/--
A chain of units that leads from one back to itself: each is used by the one
before, and only the first repeats.
-/
structure IsUnitCycle (declared : UnitDeclaration → Prop)
    (chain : List String) : Prop where
  proper : 2 ≤ chain.length
  closed : chain.head? = chain.getLast?
  distinct : chain.dropLast.Nodup
  linked : chain.IsChain (UsesUnit declared)

/--
A fault that tells of a cycle of units tells of one that the declarations have.
-/
def Fault.IsGenuine (declared : UnitDeclaration → Prop) (fault : Fault) :
    Prop :=
  ∀ chain, fault.problem = .cyclicUnit chain → IsUnitCycle declared chain

/-- Only a cycle can fail to be genuine. -/
theorem Fault.isGenuine_of_ne {declared : UnitDeclaration → Prop}
    {fault : Fault} (other : ∀ chain, fault.problem ≠ .cyclicUnit chain) :
    fault.IsGenuine declared :=
  fun chain cyclic => absurd cyclic (other chain)

section

variable {declared : UnitDeclaration → Prop} {stack : List String}
  {name : String}

theorem dropWhile_ne_of_not_mem {before after : List String}
    (absent : name ∉ before) :
    (before ++ name :: after).dropWhile (· != name) = name :: after := by
  rw [List.dropWhile_append_of_pos, List.dropWhile_cons_of_neg (by simp)]
  intro other member
  exact bne_iff_ne.mpr fun same => absent (same ▸ member)

/-- The part of a stack from a name in it, and the name again, are a cycle. -/
theorem isUnitCycle_of_mem_stack (open_ : name ∈ stack) (distinct : stack.Nodup)
    (linked : (stack ++ [name]).IsChain (UsesUnit declared)) :
    IsUnitCycle declared (stack.dropWhile (· != name) ++ [name]) := by
  rcases List.eq_append_cons_of_mem open_ with ⟨before, after, rfl, absent⟩
  rw [dropWhile_ne_of_not_mem absent]
  refine ⟨by simp, ?_, ?_, ?_⟩
  · rw [List.getLast?_concat]
    rfl
  · rw [List.dropLast_concat]
    exact distinct.of_append_right
  · rw [List.append_assoc] at linked
    exact linked.right_of_append

end

/-! ## Marks and stack -/

/-- The mark of a unit that was begun. -/
inductive UnitMark where
  | visiting
  | settled (outcome : Except Fault PhysicalUnit)

/-- What happens to a unit. -/
inductive UnitEvent where
  | begun (name : String)
  | finished (name : String) (outcome : Except Fault PhysicalUnit)

/--
The marks of the units, and the names of those in progress, the outermost first.
-/
structure UnitProgress where
  marks : Dictionary String UnitMark := .empty
  stack : List String := []

namespace UnitProgress

/--
A unit that is begun is pushed on the stack, and one that is finished is popped.
-/
def next (progress : UnitProgress) : UnitEvent → UnitProgress
  | .begun name =>
      { marks := progress.marks.insert name .visiting
        stack := progress.stack ++ [name] }
  | .finished name outcome =>
      { marks := progress.marks.insert name (.settled outcome)
        stack := progress.stack.dropLast }

/-- The names from where a unit was begun up to now, and the unit again. -/
def chainTo (progress : UnitProgress) (name : String) : List String :=
  progress.stack.drop ((progress.stack.idxOf? name).getD 0) ++ [name]

/--
Exactly the names on the stack are marked as in progress, each is there once,
and it is used by the one before.
-/
structure Sound (declared : UnitDeclaration → Prop) (progress : UnitProgress) :
    Prop where
  visiting_iff : ∀ name, progress.marks.get? name = some .visiting ↔
    name ∈ progress.stack
  distinct : progress.stack.Nodup
  linked : progress.stack.IsChain (UsesUnit declared)

/--
The chain to an open unit is the part of the stack from it on, closed by the
name.
-/
theorem chainTo_eq {progress : UnitProgress} {name : String}
    (open_ : name ∈ progress.stack) :
    progress.chainTo name = progress.stack.dropWhile (· != name) ++ [name] := by
  rw [chainTo]
  rcases List.eq_append_cons_of_mem open_ with ⟨before, after, split, absent⟩
  have start : progress.stack.idxOf? name = some before.length := by
    rw [split, List.idxOf?_eq_some_iff]
    refine ⟨by simp, by simp, fun place small same => absent ?_⟩
    rw [List.getElem_append_left small] at same
    exact same ▸ List.getElem_mem small
  rw [start, split, dropWhile_ne_of_not_mem absent, Option.getD_some,
    List.drop_left]

example :
    chainTo { stack := ["speed", "turn", "cycle"] } "turn" =
      ["turn", "cycle", "turn"] := by decide

namespace Sound

variable {declared : UnitDeclaration → Prop} {progress : UnitProgress}
  {name : String}

theorem start : Sound declared {} where
  visiting_iff := fun name => by simp
  distinct := List.nodup_nil
  linked := .nil

/-- A unit without a mark is begun soundly, as a link of the open chain. -/
theorem begun (sound : progress.Sound declared)
    (unmarked : progress.marks.get? name = none)
    (linked : (progress.stack ++ [name]).IsChain (UsesUnit declared)) :
    (progress.next (.begun name)).Sound declared where
  visiting_iff := by
    intro other
    rw [next, List.mem_append, List.mem_singleton]
    by_cases same : other = name
    · simp [same]
    · simp [Dictionary.get?_insert_of_ne same, same, sound.visiting_iff]
  distinct := by
    have fresh : name ∉ progress.stack := by
      rw [← sound.visiting_iff, unmarked]
      simp
    rw [next, List.nodup_append_comm]
    exact List.nodup_cons.mpr ⟨fresh, sound.distinct⟩
  linked := linked

theorem finished {stack : List String} (sound : progress.Sound declared)
    (top : progress.stack = stack ++ [name])
    (outcome : Except Fault PhysicalUnit) :
    (progress.next (.finished name outcome)).Sound declared := by
  have rest : (progress.next (.finished name outcome)).stack = stack := by
    rw [next, top, List.dropLast_concat]
  have distinct : (stack ++ [name]).Nodup := top ▸ sound.distinct
  -- The name that leaves the stack was there once, so it is no longer in
  -- progress.
  have popped : name ∉ stack :=
    fun kept => List.disjoint_of_nodup_append distinct kept List.mem_cons_self
  have linked : (stack ++ [name]).IsChain (UsesUnit declared) :=
    top ▸ sound.linked
  refine ⟨fun other => ?_, ?_, ?_⟩
  · rw [rest, next]
    by_cases same : other = name
    · simp [same, popped]
    · simp [Dictionary.get?_insert_of_ne same, sound.visiting_iff, top, same]
  · rw [rest]
    exact distinct.of_append_left
  · rw [rest]
    exact linked.left_of_append

end Sound

end UnitProgress

/-! ## The journal of an evaluation -/

/-- What happened to units so far, the earliest first. -/
abbrev UnitJournal := List UnitEvent

namespace UnitJournal

/-- The marks and the stack after what happened. -/
def progress (journal : UnitJournal) : UnitProgress :=
  journal.foldl UnitProgress.next {}

@[simp]
theorem progress_concat (journal : UnitJournal) (event : UnitEvent) :
    progress (journal ++ [event]) = (progress journal).next event := by
  rw [progress, List.foldl_concat, progress]

/--
The outcome of a reference to a unit by its mark.  A unit without a mark is
begun, evaluated and finished; what happens is written down.
-/
def visitBy {m : Type → Type} [Monad m] (declarations : List UnitDeclaration)
    (name : String)
    (evaluate : (declaration : UnitDeclaration) →
      declarations.find? (fun candidate => candidate.name == name) =
        some declaration →
        ExceptT Fault (StateT UnitJournal m) PhysicalUnit) :
    ExceptT Fault (StateT UnitJournal m) PhysicalUnit := do
  match (progress (← get)).marks.get? name with
  | some (.settled outcome) => ExceptT.mk (pure outcome)
  | some .visiting =>
      throw ⟨.cyclicUnit ((progress (← get)).chainTo name), .unknown⟩
  | none =>
      match found : declarations.find?
        (fun candidate => candidate.name == name) with
      | none => throw ⟨.undeclaredUnit name, .unknown⟩
      | some declaration =>
          modify (· ++ [.begun name])
          let outcome ←
            ExceptT.lift
              ((evaluate declaration found).adapt (·.orAt declaration.span)).run
          modify (· ++ [.finished name outcome])
          ExceptT.mk (pure outcome)

/--
The outcome of a reference to a unit by its mark; `unbegun` holds the
declarations that were not begun yet.
-/
def visit (isDimension : String → Bool) (unbegun : List UnitDeclaration)
    (name : String) :
    ExceptT Fault (StateM UnitJournal) PhysicalUnit :=
  visitBy unbegun name fun declaration found =>
    have : (without UnitDeclaration.name unbegun name).length <
        unbegun.length := length_without_lt found
    declaration.evaluate isDimension
      (visit isDimension (without UnitDeclaration.name unbegun name))
termination_by unbegun.length

/-- What happens while all declared units are evaluated. -/
def ofDeclarations (isDimension : String → Bool)
    (declarations : List UnitDeclaration) : UnitJournal :=
  declarations.foldl (fun journal declaration =>
    ((visit isDimension declarations declaration.name).run journal).2) []

section

variable {m : Type → Type} [Monad m] [LawfulMonad m]
  {declarations : List UnitDeclaration} {name : String}
  {journal : UnitJournal}
  {evaluate : (declaration : UnitDeclaration) →
    declarations.find? (fun candidate => candidate.name == name) =
      some declaration →
      ExceptT Fault (StateT UnitJournal m) PhysicalUnit}

/-- A settled unit is not evaluated again. -/
theorem run_visitBy_of_settled {outcome : Except Fault PhysicalUnit}
    (marked : journal.progress.marks.get? name = some (.settled outcome)) :
    (visitBy declarations name evaluate).run journal =
      pure (outcome, journal) := by
  rw [visitBy, run_get_bind, marked]
  rfl

/-- A unit that is met while it is open closes a cycle. -/
theorem run_visitBy_of_visiting
    (marked : journal.progress.marks.get? name = some .visiting) :
    (visitBy declarations name evaluate).run journal =
      pure (.error ⟨.cyclicUnit (journal.progress.chainTo name), .unknown⟩,
        journal) := by
  rw [visitBy, run_get_bind, marked]
  exact run_get_bind _ _

/-- A unit that is not declared is not evaluated. -/
theorem run_visitBy_of_undeclared
    (unmarked : journal.progress.marks.get? name = none)
    (missing : declarations.find? (fun candidate => candidate.name == name) =
      none) :
    (visitBy declarations name evaluate).run journal =
      pure (.error ⟨.undeclaredUnit name, .unknown⟩, journal) := by
  rw [visitBy, run_get_bind]
  simp only [unmarked]
  split
  · rfl
  · next found =>
      rw [missing] at found
      contradiction

/-- A unit without a mark is begun, evaluated and finished. -/
theorem run_visitBy_of_unmarked {declaration : UnitDeclaration}
    (unmarked : journal.progress.marks.get? name = none)
    (found : declarations.find? (fun candidate => candidate.name == name) =
      some declaration) :
    (visitBy declarations name evaluate).run journal =
      ((evaluate declaration found).adapt (·.orAt declaration.span)).run
        (journal ++ [.begun name]) >>=
        fun evaluated =>
          pure (evaluated.1, evaluated.2 ++ [.finished name evaluated.1]) := by
  rw [visitBy, run_get_bind]
  simp only [unmarked]
  split
  · next missing =>
      rw [found] at missing
      contradiction
  · next other listed =>
      cases found.symm.trans listed
      rw [run_modify_bind, run_lift_bind]
      refine bind_congr fun evaluated => ?_
      rw [run_modify_bind]
      rfl

end

end UnitJournal

/-! ## Evaluations side by side -/

/--
A relation between computations of units, each in a monad of its own, that
evaluation respects: it holds between an outcome and itself, unless that tells
of a cycle, and it is kept where a position is added and where one computation
follows another.
-/
structure IsRespected {m n : Type → Type} [Monad m] [Monad n]
    (related : ExceptT Fault m PhysicalUnit → ExceptT Fault n PhysicalUnit →
      Prop) : Prop where
  outcome : ∀ {outcome : Except Fault PhysicalUnit},
    FailsIn (fun fault => ∀ chain, fault.problem ≠ .cyclicUnit chain) outcome →
      related (ExceptT.mk (pure outcome)) (ExceptT.mk (pure outcome))
  adapt : ∀ {left : ExceptT Fault m PhysicalUnit}
    {right : ExceptT Fault n PhysicalUnit}, related left right →
    ∀ span : Span,
      related (left.adapt (·.orAt span)) (right.adapt (·.orAt span))
  bind : ∀ {left : ExceptT Fault m PhysicalUnit}
    {right : ExceptT Fault n PhysicalUnit}, related left right →
    ∀ {nextLeft : PhysicalUnit → ExceptT Fault m PhysicalUnit}
      {nextRight : PhysicalUnit → ExceptT Fault n PhysicalUnit},
      (∀ unit, related (nextLeft unit) (nextRight unit)) →
        related (left >>= nextLeft) (right >>= nextRight)

namespace IsRespected

variable {m n : Type → Type} [Monad m] [Monad n]
  {related : ExceptT Fault m PhysicalUnit → ExceptT Fault n PhysicalUnit → Prop}
  (respected : IsRespected related)

include respected

theorem unit (unit : PhysicalUnit) : related (pure unit) (pure unit) :=
  respected.outcome (failsIn_ok unit)

theorem overflow (unit? : Option PhysicalUnit) (text : String) (span : Span) :
    related (ExceptT.mk (pure (orOverflow unit? text span)))
      (ExceptT.mk (pure (orOverflow unit? text span))) := by
  apply respected.outcome
  cases unit? with
  | some unit => exact failsIn_ok unit
  | none => exact failsIn_error fun _ => Problem.noConfusion

/-- Expressions are related where the references in them are. -/
theorem evaluate {first : String → ExceptT Fault m PhysicalUnit}
    {second : String → ExceptT Fault n PhysicalUnit} {expression : UnitExpr}
    (references : ∀ name ∈ expression.references,
      related (first name) (second name)) :
    related (expression.evaluate first) (expression.evaluate second) := by
  induction expression with
  | reference span name =>
      exact respected.adapt (references name List.mem_cons_self) span
  | product span left right ihLeft ihRight =>
      have inLeft :=
        ihLeft fun name found => references name (List.mem_append_left _ found)
      have inRight :=
        ihRight fun name found =>
          references name (List.mem_append_right _ found)
      exact respected.bind inLeft fun _ =>
        respected.bind inRight fun _ => respected.overflow _ _ span
  | quotient span left right ihLeft ihRight =>
      have inLeft :=
        ihLeft fun name found => references name (List.mem_append_left _ found)
      have inRight :=
        ihRight fun name found =>
          references name (List.mem_append_right _ found)
      exact respected.bind inLeft fun _ =>
        respected.bind inRight fun _ => respected.overflow _ _ span
  | power span base exponent ih =>
      exact respected.bind (ih references) fun _ => respected.overflow _ _ span
  | one span => exact respected.unit .one

theorem finish (declaration : UnitDeclaration) (unit : PhysicalUnit) :
    related (ExceptT.mk (pure (declaration.finish unit)))
      (ExceptT.mk (pure (declaration.finish unit))) := by
  apply respected.outcome
  rw [UnitDeclaration.finish]
  split
  · exact failsIn_ok _
  · split
    · exact failsIn_ok _
    · exact failsIn_error fun _ => Problem.noConfusion

/-- Declared units are related where the references in their definitions are. -/
theorem declaration (isDimension : String → Bool)
    {declaration : UnitDeclaration}
    {first : String → ExceptT Fault m PhysicalUnit}
    {second : String → ExceptT Fault n PhysicalUnit}
    (references : ∀ definition, declaration.definition = some definition →
      ∀ name ∈ definition.references,
      related (first name) (second name)) :
    related (declaration.evaluate isDimension first)
      (declaration.evaluate isDimension second) := by
  unfold UnitDeclaration.evaluate
  have finished := respected.finish declaration
  cases written : declaration.definition with
  | some definition =>
      exact respected.bind (respected.evaluate (references definition written))
        finished
  | none =>
      cases declaration.dimension with
      | none => exact respected.bind (respected.unit .one) finished
      | some dimension =>
          simp only
          cases isDimension dimension.value with
          | true =>
              exact respected.bind (respected.unit (.base dimension.value))
                finished
          | false =>
              exact respected.bind (respected.outcome
                (failsIn_error fun _ => Problem.noConfusion)) finished

end IsRespected

/-! ## The evaluation by marks is the evaluation by the table -/

/--
Two computations agree: from related states they have the same outcome and leave
related states, and the cycles that they fail with are genuine.
-/
def Agrees (declared : UnitDeclaration → Prop)
    (related : UnitTable → UnitJournal → Prop)
    (settled : ExceptT Fault (StateM UnitTable) PhysicalUnit)
    (visited : ExceptT Fault (StateM UnitJournal) PhysicalUnit) : Prop :=
  ∀ table journal, related table journal →
    (visited.run journal).1 = (settled.run table).1 ∧
      related (settled.run table).2 (visited.run journal).2 ∧
      FailsIn (Fault.IsGenuine declared) (settled.run table).1

namespace Agrees

variable {declared : UnitDeclaration → Prop}
  {related : UnitTable → UnitJournal → Prop}

theorem outcome {outcome : Except Fault PhysicalUnit}
    (fails : FailsIn (Fault.IsGenuine declared) outcome) :
    Agrees declared related (ExceptT.mk (pure outcome))
      (ExceptT.mk (pure outcome)) :=
  fun _ _ holds => ⟨rfl, holds, fails⟩

theorem adapt {settled : ExceptT Fault (StateM UnitTable) PhysicalUnit}
    {visited : ExceptT Fault (StateM UnitJournal) PhysicalUnit}
    (agrees : Agrees declared related settled visited) (span : Span) :
    Agrees declared related (settled.adapt (·.orAt span))
      (visited.adapt (·.orAt span)) := by
  intro table journal holds
  rcases agrees table journal holds with ⟨same, after, fails⟩
  refine ⟨congrArg (Except.mapError (Fault.orAt · span)) same, after, ?_⟩
  intro fault failed
  change (settled.run table).1.mapError (·.orAt span) = .error fault at failed
  cases found : (settled.run table).1 with
  | ok unit =>
      rw [found] at failed
      contradiction
  | error original =>
      rw [found] at failed
      cases failed
      exact fails original found

theorem bind {settled : ExceptT Fault (StateM UnitTable) PhysicalUnit}
    {visited : ExceptT Fault (StateM UnitJournal) PhysicalUnit}
    (agrees : Agrees declared related settled visited)
    {nextSettled : PhysicalUnit → ExceptT Fault (StateM UnitTable) PhysicalUnit}
    {nextVisited : PhysicalUnit →
      ExceptT Fault (StateM UnitJournal) PhysicalUnit}
    (further : ∀ unit,
      Agrees declared related (nextSettled unit) (nextVisited unit)) :
    Agrees declared related (settled >>= nextSettled)
      (visited >>= nextVisited) := by
  intro table journal holds
  rcases agrees table journal holds with ⟨same, after, fails⟩
  cases found : (settled.run table).1 with
  | ok unit =>
      rw [run_bind_of_ok nextSettled found,
        run_bind_of_ok nextVisited (same.trans found)]
      exact further unit _ _ after
  | error fault =>
      rw [run_bind_of_error nextSettled found,
        run_bind_of_error nextVisited (same.trans found)]
      exact ⟨rfl, after, failsIn_error (fails fault found)⟩

/--
Two evaluations agree where the references in them do, since no evaluation tells
of a cycle by itself.
-/
theorem isRespected : IsRespected (Agrees declared related) where
  outcome := fun fails => outcome (fails.mono fun _ => Fault.isGenuine_of_ne)
  adapt := adapt
  bind := bind

end Agrees

/--
A journal reflects a table and a stack: its last moment has the stack, and the
marks of the units that are settled are their outcomes in the table.  All
moments of it are sound, and the cycles in the table are genuine.
-/
structure UnitJournal.Reflects (declared : UnitDeclaration → Prop)
    (stack : List String) (table : UnitTable) (journal : UnitJournal) :
    Prop where
  sound : ∀ earlier : UnitJournal, earlier <+: journal →
    earlier.progress.Sound declared
  stack_eq : journal.progress.stack = stack
  settled_iff : ∀ name outcome,
    journal.progress.marks.get? name = some (.settled outcome) ↔
      table.lookup name = some outcome
  genuine : ∀ name fault, table.lookup name = some (.error fault) →
    fault.IsGenuine declared

namespace UnitJournal.Reflects

variable {declared : UnitDeclaration → Prop} {stack : List String}
  {table : UnitTable} {journal : UnitJournal}
  {name : String}

theorem now (reflects : Reflects declared stack table journal) :
    journal.progress.Sound declared :=
  reflects.sound journal (List.prefix_refl journal)

/-- A unit is marked as visiting exactly while it is on the stack. -/
theorem visiting_iff (reflects : Reflects declared stack table journal) :
    journal.progress.marks.get? name = some .visiting ↔ name ∈ stack := by
  rw [reflects.now.visiting_iff, reflects.stack_eq]

theorem start : Reflects declared [] [] [] where
  sound := by
    intro earlier part
    rw [List.prefix_nil.mp part]
    exact .start
  stack_eq := rfl
  settled_iff := fun _ _ => by simp [progress]
  genuine := fun _ _ impossible => by simp at impossible

/-- If a further event is sound then so is every prefix with it. -/
theorem sound_concat {event : UnitEvent}
    (reflects : Reflects declared stack table journal)
    (after : (journal.progress.next event).Sound declared) :
    ∀ earlier : UnitJournal, earlier <+: journal ++ [event] →
      earlier.progress.Sound declared := by
  intro earlier part
  rcases List.prefix_concat_iff.mp part with rfl | before
  · rw [progress_concat]
    exact after
  · exact reflects.sound earlier before

theorem begun (reflects : Reflects declared stack table journal)
    (unmarked : journal.progress.marks.get? name = none)
    (linked : (stack ++ [name]).IsChain (UsesUnit declared)) :
    Reflects declared (stack ++ [name]) table (journal ++ [.begun name]) where
  sound :=
    reflects.sound_concat
      (reflects.now.begun unmarked (reflects.stack_eq ▸ linked))
  stack_eq := by rw [progress_concat, UnitProgress.next, reflects.stack_eq]
  settled_iff := by
    intro other outcome
    rw [progress_concat, UnitProgress.next, ← reflects.settled_iff]
    by_cases same : other = name
    · simp [same, unmarked]
    · rw [Dictionary.get?_insert_of_ne same]
  genuine := reflects.genuine

/-- A unit that is not settled by the marks is not in the table. -/
theorem lookup_eq_none (reflects : Reflects declared stack table journal)
    (unsettled : ∀ outcome,
      journal.progress.marks.get? name ≠ some (.settled outcome)) :
    table.lookup name = none := by
  rw [Option.eq_none_iff_forall_ne_some]
  exact fun outcome settled =>
    unsettled outcome ((reflects.settled_iff name outcome).mpr settled)

theorem finished (reflects : Reflects declared (stack ++ [name]) table journal)
    {outcome : Except Fault PhysicalUnit}
    (fails : FailsIn (Fault.IsGenuine declared) outcome) :
    Reflects declared stack (table ++ [(name, outcome)])
      (journal ++ [.finished name outcome]) := by
  have visiting : journal.progress.marks.get? name = some .visiting :=
    reflects.visiting_iff.mpr (List.mem_append_right _ List.mem_cons_self)
  have unsettled : table.lookup name = none :=
    reflects.lookup_eq_none (by simp [visiting])
  refine ⟨reflects.sound_concat
    (reflects.now.finished reflects.stack_eq outcome), ?_, ?_, ?_⟩
  · rw [progress_concat, UnitProgress.next, reflects.stack_eq,
      List.dropLast_concat]
  · intro other found
    rw [progress_concat, UnitProgress.next, lookup_concat]
    by_cases same : other = name
    · simp [same, unsettled]
    · rw [Dictionary.get?_insert_of_ne same, reflects.settled_iff]
      simp [same]
  · intro other fault settled
    rw [lookup_concat, Option.or_eq_some_iff] at settled
    rcases settled with old | ⟨-, new⟩
    · exact reflects.genuine other fault old
    · split at new
      · exact fails fault (Option.some.inj new)
      · contradiction

/--
What is read off the stack for a unit in progress is a cycle, the same one that
a search in the stack finds.
-/
theorem chainTo_eq (reflects : Reflects declared stack table journal)
    (open_ : name ∈ stack)
    (linked : (stack ++ [name]).IsChain (UsesUnit declared)) :
    journal.progress.chainTo name = stack.dropWhile (· != name) ++ [name] ∧
      IsUnitCycle declared (stack.dropWhile (· != name) ++ [name]) := by
  have distinct : stack.Nodup := reflects.stack_eq ▸ reflects.now.distinct
  refine ⟨?_, isUnitCycle_of_mem_stack open_ distinct linked⟩
  rw [UnitProgress.chainTo_eq (reflects.stack_eq ▸ open_), reflects.stack_eq]

end UnitJournal.Reflects

namespace UnitJournal

variable (isDimension : String → Bool)

/--
A unit is evaluated by its mark as it is by the table, and a cycle that is met
is one of the declarations.
-/
theorem agrees_visit {declared : UnitDeclaration → Prop}
    (unbegun : List UnitDeclaration)
    (included : ∀ declaration ∈ unbegun, declared declaration)
    (stack : List String) (name : String)
    (linked : (stack ++ [name]).IsChain (UsesUnit declared)) :
    Agrees declared (Reflects declared stack)
      (UnitTable.settle isDimension unbegun stack name)
      (visit isDimension unbegun name) := by
  -- The induction is on the declarations that were not begun, of which each
  -- reference that is followed takes one.
  induction size : unbegun.length using Nat.strongRecOn
    generalizing unbegun stack name with
  | ind size ih =>
      intro table journal reflects
      cases marked : journal.progress.marks.get? name with
      | some mark =>
          cases mark with
          | settled outcome =>
              have settled := (reflects.settled_iff name outcome).mp marked
              rw [visit, run_visitBy_of_settled marked,
                UnitTable.run_settle_of_settled settled]
              refine ⟨rfl, reflects, ?_⟩
              rintro fault rfl
              exact reflects.genuine name fault settled
          | visiting =>
              have open_ : name ∈ stack := reflects.visiting_iff.mp marked
              have unsettled : table.lookup name = none :=
                reflects.lookup_eq_none (by simp [marked])
              rcases reflects.chainTo_eq open_ linked with ⟨sameChain, cycle⟩
              rw [visit, run_visitBy_of_visiting marked,
                UnitTable.run_settle_of_mem_stack unsettled open_, sameChain]
              refine ⟨rfl, reflects, failsIn_error ?_⟩
              rintro chain ⟨⟩
              exact cycle
      | none =>
          have unsettled : table.lookup name = none :=
            reflects.lookup_eq_none (by simp [marked])
          have fresh : name ∉ stack :=
            fun open_ => by simp [reflects.visiting_iff.mpr open_] at marked
          cases found : unbegun.find?
            (fun candidate => candidate.name == name) with
          | none =>
              rw [visit, run_visitBy_of_undeclared marked found,
                UnitTable.run_settle_of_undeclared unsettled fresh found]
              exact ⟨rfl, reflects,
                failsIn_error
                  (Fault.isGenuine_of_ne fun _ => Problem.noConfusion)⟩
          | some declaration =>
              have member : declared declaration :=
                included declaration (List.mem_of_find?_eq_some found)
              have named : declaration.name = name := by
                simpa using List.find?_some found
              have references : ∀ definition,
                  declaration.definition = some definition →
                  ∀ used ∈ definition.references,
                    Agrees declared (Reflects declared (stack ++ [name]))
                      (UnitTable.settle isDimension
                        (without UnitDeclaration.name unbegun name)
                        (stack ++ [name]) used)
                      (visit isDimension
                        (without UnitDeclaration.name unbegun name) used) := by
                intro definition written used mentioned
                have step : UsesUnit declared name used :=
                  ⟨declaration, definition, member, named, written, mentioned⟩
                apply ih _ (size ▸ length_without_lt found) _ _ _ _ _ rfl
                · exact fun other kept =>
                    included other (mem_without_iff.mp kept).1
                · rw [List.isChain_append]
                  refine ⟨linked, .singleton used, ?_⟩
                  simpa using step
              have evaluation :=
                (Agrees.isRespected.declaration isDimension references).adapt
                  declaration.span
              rcases evaluation table _ (reflects.begun marked linked) with
                ⟨same, after, fails⟩
              rw [visit, run_visitBy_of_unmarked marked found,
                UnitTable.run_settle_of_unsettled unsettled fresh found]
              refine ⟨same, ?_, fails⟩
              show Reflects declared stack _ (_ ++ [.finished name _])
              rw [same]
              exact after.finished fails

/-- The table reflects the journal turn by turn. -/
theorem reflects_foldl (declarations : List UnitDeclaration)
    (turns : List UnitDeclaration) {table : UnitTable} {journal : UnitJournal}
    (reflects : Reflects (· ∈ declarations) [] table journal) :
    Reflects (· ∈ declarations) []
      (turns.foldl (UnitTable.extend isDimension declarations) table)
      (turns.foldl
        (fun journal declaration =>
          ((visit isDimension declarations declaration.name).run journal).2)
          journal) := by
  induction turns generalizing table journal with
  | nil => exact reflects
  | cons declaration rest ih =>
      have agrees :=
        agrees_visit isDimension declarations (fun _ member => member) []
          declaration.name (.singleton _)
      exact ih (agrees table journal reflects).2.1

/--
In the end the journal reflects the table of all declared units, and nothing is
in progress.
-/
theorem reflects_ofDeclarations (declarations : List UnitDeclaration) :
    Reflects (· ∈ declarations) []
      (UnitTable.ofDeclarations isDimension declarations)
      (ofDeclarations isDimension declarations) :=
  reflects_foldl isDimension declarations declarations .start

end UnitJournal

/-! ## The units of a program -/

namespace Analysis

/--
What happens to the units among the owned declarations while they are evaluated.
-/
def unitJournal (table : SymbolTable) (owned : List (Nat × Declaration)) :
    UnitJournal :=
  .ofDeclarations (fun name => (table.kind? name).any Kind.isDimension)
    (unitsOf owned)

/-- The units of a program reflect the journal of their evaluation. -/
theorem reflects_unitJournal (program : Program) :
    UnitJournal.Reflects (fun declaration =>
      program.owner? declaration.name = some (.unit declaration)) []
      program.units (unitJournal (SymbolTable.ofProgram program)
        (Stage.entries program)) := by
  have declared : (· ∈ unitsOf (Stage.entries program)) =
      fun declaration =>
        program.owner? declaration.name = some (.unit declaration) := by
    rw [unitsOf_entries]
    exact funext fun _ => propext Program.mem_units_owners_iff
  rw [← declared, ← unitTable_entries]
  exact UnitJournal.reflects_ofDeclarations _ _

/-- Only units are reported as cycles of units. -/
theorem isGenuine_of_mem_faults {program : Program}
    {declared : UnitDeclaration → Prop}
    (units : ∀ name fault, program.units.lookup name = some (.error fault) →
      fault.IsGenuine declared)
    (config : Config) :
    ∀ fault ∈ (analyze config program).faults, fault.IsGenuine declared := by
  refine good_of_mem_faults_analyze ?_ ?_ (fun _ _ genuine => genuine) ?_ config
  · intro span problem ofUse chain cyclic
    change problem = .cyclicUnit chain at cyclic
    rw [cyclic] at ofUse
    contradiction
  · intro fault registered chain cyclic
    rw [cyclic] at registered
    contradiction
  · intro name fault failed
    rcases UnitTable.lookup_of_find_eq_error failed with settled | ⟨-, rfl⟩
    · exact units name fault settled
    · exact Fault.isGenuine_of_ne fun _ => Problem.noConfusion

/--
At every moment of the evaluation of the units exactly the names on the stack
are marked as in progress, each of them once, so that a name in progress is
found there.  In the end nothing is in progress, the marks are the remembered
outcomes, and every cycle of units that is remembered or told is a cycle of the
owning declarations.
-/
theorem cyclicUnits_analyze (config : Config) (program : Program) :
    let (table, _) := SymbolTable.empty.register program
    let owned := table.ownedDeclarations program
    let units := unitTable table owned
    let journal := unitJournal table owned
    let declared := fun declaration : UnitDeclaration =>
      program.owner? declaration.name = some (.unit declaration)
    (∀ earlier : UnitJournal, earlier <+: journal →
        earlier.progress.Sound declared ∧
          ∀ name, earlier.progress.marks.get? name = some .visiting →
            (earlier.progress.stack.idxOf? name).isSome) ∧
      journal.progress.stack = [] ∧
      (∀ name, journal.progress.marks.get? name ≠ some .visiting) ∧
      (∀ name outcome,
        journal.progress.marks.get? name = some (.settled outcome) ↔
          units.lookup name = some outcome) ∧
      (∀ name fault, units.lookup name = some (.error fault) →
        fault.IsGenuine declared) ∧
      ∀ fault ∈ (analyze config program).faults, fault.IsGenuine declared := by
  simp only [SymbolTable.register_fst, unitTable_entries]
  have reflects := reflects_unitJournal program
  refine ⟨?_, reflects.stack_eq, ?_, reflects.settled_iff, reflects.genuine,
    isGenuine_of_mem_faults reflects.genuine config⟩
  · intro earlier part
    have sound := reflects.sound earlier part
    exact ⟨sound,
      fun name visiting =>
        List.isSome_idxOf?.mpr ((sound.visiting_iff name).mp visiting)⟩
  · intro name visiting
    have open_ := reflects.visiting_iff.mp visiting
    contradiction

end Analysis

end SchemaMap
