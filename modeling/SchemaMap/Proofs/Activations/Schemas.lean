import SchemaMap.Proofs.Activations.Accounts
import SchemaMap.Proofs.SchemaFields

/-!
# The activations of schemas

A schema is completed by an activation, and its parent before it by another one
nested in that.  As for units, the chain of parents may lead back to where it
started, and only the marks of what was begun keep it from being followed for
ever.  `SchemaProgress.visitWithin` goes by the marks alone, over all
declarations, and is given up where more than so many activations would be
nested.  With one activation more than there are declarations it is never given
up, it completes what `SchemaFields.settle` completes, and every declaration is
evaluated exactly once (`ofDeclarationsWithin_eq_some`).
-/

namespace SchemaMap

/-- The mark of a schema that was begun. -/
inductive SchemaMark where
  | visiting
  | done

/--
The marks of the schemas, the names that were begun, in this order, and what is
complete.
-/
structure SchemaProgress where
  marks : Dictionary String SchemaMark := .empty
  begun : List String := []
  fields : SchemaFields := {}

namespace SchemaProgress

/-- A schema is begun. -/
def start (progress : SchemaProgress) (name : String) : SchemaProgress :=
  { progress with
    marks := progress.marks.insert name .visiting
    begun := progress.begun ++ [name] }

/-- A schema is completed; its parent gives its fields if it is done. -/
def finish (names : Names) (progress : SchemaProgress)
    (declaration : SchemaDeclaration) : SchemaProgress :=
  { progress with
    marks := progress.marks.insert declaration.name .done
    fields := progress.fields.complete names declaration }

/--
Complete the schema of a name by its mark, and before it its parent, with at
most `depth` activations nested.  Where more are needed this is given up.
-/
def visitWithin (names : Names) (declarations : List SchemaDeclaration) :
    Nat → String → SchemaProgress → Option SchemaProgress
  | 0, _, _ => none
  | depth + 1, name, progress =>
      if (progress.marks.get? name).isSome then
        some progress
      else
        match declarations.find?
          (fun declaration => declaration.name == name) with
        | none => some progress
        | some declaration =>
            match declaration.parent with
            | none => some ((progress.start name).finish names declaration)
            | some parent =>
                (visitWithin names declarations depth parent.value
                  (progress.start name)).map
                  (finish names · declaration)

/--
Complete all declared schemas, each with at most `depth` activations nested.
-/
def ofDeclarationsWithin (names : Names) (declarations : List SchemaDeclaration)
    (depth : Nat) :
    Option SchemaProgress :=
  declarations.foldlM (fun progress declaration =>
    visitWithin names declarations depth declaration.name progress) {}

/--
The schemas that were begun account for the declarations: exactly they have a
mark, exactly the complete ones are done, and what is in hand is not begun
again.
-/
structure Accounted (declarations unbegun : List SchemaDeclaration)
    (started : List String) (progress : SchemaProgress) : Prop where
  accounts : Accounts SchemaDeclaration.name declarations unbegun started
    progress.begun
  unmarked_iff : ∀ name, progress.marks.get? name = none ↔ name ∉ progress.begun
  done_iff : ∀ name, progress.marks.get? name = some .done ↔
    progress.fields.Holds name
  inHand : ∀ name, progress.marks.get? name = some .visiting →
    unbegun.find? (fun candidate => candidate.name == name) = none

namespace Accounted

variable {declarations unbegun : List SchemaDeclaration} {started : List String}
  {progress : SchemaProgress}
  {name : String}

theorem start : Accounted declarations declarations [] {} where
  accounts := .start
  unmarked_iff := fun name => by simp
  done_iff := fun name => by simp [SchemaFields.Holds]
  inHand := fun name visiting => by simp at visiting

theorem begun (accounted : Accounted declarations unbegun started progress)
    (unmarked : progress.marks.get? name = none)
    {declaration : SchemaDeclaration}
    (found : unbegun.find? (fun candidate => candidate.name == name) =
      some declaration) :
    Accounted declarations (without SchemaDeclaration.name unbegun name)
      (name :: started) (progress.start name) where
  accounts :=
    accounted.accounts.enter ((accounted.unmarked_iff name).mp unmarked) found
  unmarked_iff := by
    intro other
    rw [SchemaProgress.start, List.mem_append, List.mem_singleton]
    by_cases same : other = name
    · simp [same]
    · simp [Dictionary.get?_insert_of_ne same, same, accounted.unmarked_iff]
  done_iff := by
    intro other
    rw [SchemaProgress.start, ← accounted.done_iff]
    by_cases same : other = name
    · simp [same, unmarked]
    · rw [Dictionary.get?_insert_of_ne same]
  inHand := by
    intro other visiting
    by_cases same : other = name
    · simp [same, without]
    · rw [SchemaProgress.start, Dictionary.get?_insert_of_ne same] at visiting
      exact (Accounts.find?_filter_of_ne same).trans
        (accounted.inHand other visiting)

theorem finished {declaration : SchemaDeclaration}
    (accounted : Accounted declarations
      (without SchemaDeclaration.name unbegun declaration.name)
      (declaration.name :: started)
      progress)
    (names : Names) :
    Accounted declarations unbegun started
      (progress.finish names declaration) where
  accounts := accounted.accounts.leave
  unmarked_iff := by
    intro other
    rw [finish]
    by_cases same : other = declaration.name
    · simp [same, accounted.accounts.kept _ List.mem_cons_self]
    · rw [Dictionary.get?_insert_of_ne same, accounted.unmarked_iff]
  done_iff := by
    intro other
    rw [finish, SchemaFields.holds_complete_iff, ← accounted.done_iff]
    by_cases same : other = declaration.name
    · simp [same]
    · simp [Dictionary.get?_insert_of_ne same, same]
  inHand := by
    intro other visiting
    have apart : other ≠ declaration.name := by
      rintro rfl
      simp [finish] at visiting
    rw [finish, Dictionary.get?_insert_of_ne apart] at visiting
    exact (Accounts.find?_filter_of_ne apart).symm.trans
      (accounted.inHand other visiting)

end Accounted

section

variable {names : Names} {declarations : List SchemaDeclaration} {depth : Nat}
  {name : String}
  {progress : SchemaProgress}

theorem visitWithin_of_marked (marked : (progress.marks.get? name).isSome) :
    visitWithin names declarations (depth + 1) name progress =
      some progress := by
  rw [visitWithin, if_pos marked]

theorem visitWithin_of_undeclared (unmarked : progress.marks.get? name = none)
    (missing : declarations.find? (fun candidate => candidate.name == name) =
      none) :
    visitWithin names declarations (depth + 1) name progress =
      some progress := by
  rw [visitWithin, if_neg (by simp [unmarked]), missing]

/--
A schema without a mark is begun and completed after its parent, unless that is
given up.
-/
theorem visitWithin_of_unmarked {declaration : SchemaDeclaration}
    (unmarked : progress.marks.get? name = none)
    (found : declarations.find? (fun candidate => candidate.name == name) =
      some declaration) :
    visitWithin names declarations (depth + 1) name progress =
      match declaration.parent with
      | none => some ((progress.start name).finish names declaration)
      | some parent =>
          (visitWithin names declarations depth parent.value
            (progress.start name)).map
            (finish names · declaration) := by
  rw [visitWithin, if_neg (by simp [unmarked]), found]

end

section

variable (names : Names) {declarations : List SchemaDeclaration}

/--
With more activations than there are schemas to begin, a schema is completed by
the marks alone as it is where the schemas that were not begun are handed down.
-/
theorem visitWithin_eq_some {depth : Nat} {unbegun : List SchemaDeclaration}
    (fits : unbegun.length < depth) (started : List String) (name : String)
    {progress : SchemaProgress}
    (accounted : Accounted declarations unbegun started progress) :
    ∃ after, visitWithin names declarations depth name progress = some after ∧
      Accounted declarations unbegun started after ∧
      after.fields =
        SchemaFields.settle names unbegun name progress.fields := by
  -- As for units: a schema that is begun takes one activation and one of the
  -- schemas to begin.
  induction depth generalizing unbegun started name progress with
  | zero => contradiction
  | succ depth ih =>
      cases marked : progress.marks.get? name with
      | some mark =>
          refine ⟨progress, visitWithin_of_marked (by simp [marked]), accounted,
            ?_⟩
          cases mark with
          | done =>
              rw [SchemaFields.settle_of_holds
                ((accounted.done_iff name).mp marked)]
          | visiting =>
              rw [SchemaFields.settle_of_not_found
                (accounted.inHand name marked)]
      | none =>
          have same :=
            accounted.accounts.find?_eq name
              ((accounted.unmarked_iff name).mp marked)
          have absent : ¬ progress.fields.Holds name := by
            simp [← accounted.done_iff, marked]
          cases found : unbegun.find?
            (fun candidate => candidate.name == name) with
          | none =>
              refine ⟨progress,
                visitWithin_of_undeclared marked (same.symm.trans found),
                accounted, ?_⟩
              rw [SchemaFields.settle_of_not_found found]
          | some declaration =>
              have named : declaration.name = name := by
                simpa using List.find?_some found
              subst named
              have shorter := length_without_lt found
              have begun := accounted.begun marked found
              rw [visitWithin_of_unmarked marked (same.symm.trans found),
                SchemaFields.settle_of_found absent found]
              cases declaration.parent with
              | none => exact ⟨_, rfl, begun.finished names, rfl⟩
              | some parent =>
                  rcases ih (by omega) _ parent.value begun with
                    ⟨after, visited, kept, fields⟩
                  simp only [visited, Option.map_some]
                  refine ⟨_, rfl, kept.finished names, ?_⟩
                  rw [finish, fields]
                  rfl

/--
With one activation more than there are schemas all are completed, and each is
evaluated exactly once.
-/
theorem ofDeclarationsWithin_eq_some {depth : Nat}
    (fits : declarations.length < depth)
    (distinct : (declarations.map SchemaDeclaration.name).Nodup) :
    ∃ progress, ofDeclarationsWithin names declarations depth = some progress ∧
      progress.fields = SchemaFields.ofDeclarations names declarations ∧
      progress.begun.Perm (declarations.map SchemaDeclaration.name) := by
  have turn : ∀ (declaration : SchemaDeclaration) (progress : SchemaProgress)
      (fields : SchemaFields),
      Accounted declarations declarations [] progress ∧
        progress.fields = fields →
        ∃ after,
          visitWithin names declarations depth declaration.name progress =
            some after ∧
          Accounted declarations declarations [] after ∧
          after.fields =
            SchemaFields.settle names declarations declaration.name fields := by
    rintro declaration progress _ ⟨accounted, rfl⟩
    exact visitWithin_eq_some names fits [] declaration.name accounted
  rcases exists_foldlM_eq_some turn declarations ⟨.start, rfl⟩ with
    ⟨progress, visited, accounted, fields⟩
  refine ⟨progress, visited, fields,
    accounted.accounts.perm distinct fun declaration member => ?_⟩
  by_contra absent
  have unmarked := (accounted.unmarked_iff declaration.name).mpr absent
  have complete :=
    (SchemaFields.built_ofDeclarations names declarations).2 declaration member
  rw [SchemaFields.ofDeclarations, ← fields, ← accounted.done_iff,
    unmarked] at complete
  contradiction

end

end SchemaProgress

end SchemaMap
