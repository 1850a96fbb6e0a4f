import Mathlib.Data.Countable.Basic
import Mathlib.Logic.Equiv.List
import SchemaMap.Proofs.Renumbering

/-!
# Acceptance

The analysis goes through a program phase by phase, with tables that it fills on
demand and marks that it sets and clears.  What it accepts can be said without
any of this: `isAccepted_analyze_iff_wellTyped` says that it accepts a program
exactly when the declared names are distinct and the declarations are well
typed, whatever numbers type variables are given.
-/

namespace SchemaMap

/--
Numbers for the parameters of schemas, by the names of the schemas and the
places there, that keep all apart.
-/
structure Numbering where
  number : String → Nat → Nat
  apart : Function.Injective2 number

-- Names are lists of characters, so there are countably many places to number.
instance : Nonempty Numbering := by
  have characters : Countable Char :=
    Function.Injective.countable fun _ _ => Char.toNat_inj.mp
  have names : Countable String :=
    Function.Injective.countable fun _ _ => String.toList_inj.mp
  rcases exists_injective_nat (String × Nat) with ⟨place, injective⟩
  refine ⟨{ number := fun name index => place (name, index), apart := ?_ }⟩
  intro left right i j same
  exact Prod.ext_iff.mp (injective same)

theorem Numbering.injOn (numbering : Numbering) (members : Set (String × Nat)) :
    Set.InjOn (fun entry : String × Nat => numbering.number entry.1 entry.2)
      members := by
  intro first _ second _ same
  exact Prod.ext_iff.mpr (numbering.apart same)

/--
A program is accepted exactly when its declared names are distinct and its
declarations are well typed by the rules, which know no phases and no order of
the declarations.
-/
theorem isAccepted_analyze_iff_wellTyped (config : Config) (program : Program)
    (numbering : Numbering) :
    (analyze config program).isAccepted = true ↔
      (program.map Declaration.name).Nodup ∧
        WellTyped config program.declared numbering.number := by
  rw [Analysis.isAccepted_analyze_iff, Program.faults_eq_nil_iff_wellTyped]
  apply and_congr_right
  intro distinct
  have chosen := numbering.injOn (typeVariablesOf program.declared)
  have found := Program.injOn_number distinct
  constructor
  · intro wellTyped
    rcases exists_renumbers program found chosen with
      ⟨rename, injective, renumbers⟩
    exact wellTyped.renumbered injective renumbers
  · intro wellTyped
    rcases exists_renumbers program chosen found with
      ⟨rename, injective, renumbers⟩
    exact wellTyped.renumbered injective renumbers

end SchemaMap
