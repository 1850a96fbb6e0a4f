import Mathlib.Data.List.Nodup
import Mathlib.Data.List.Perm.Basic

/-!
# What an evaluation on demand has begun

Declarations are evaluated when they are first needed.  To see that this ends,
the names that were begun are counted against the declarations that were not:
`Accounts` says that the former are distinct and declared, and that the latter
are all the others.  Beginning a declaration takes it from the one side to the
other (`Accounts.enter`), and once it is evaluated it may be handed on again
(`Accounts.leave`).
-/

namespace SchemaMap

/--
The account of an evaluation on demand.  `begun` are the names that were begun,
in this order; those in `started` are among them.  Of every other name `unbegun`
holds what the declarations hold.
-/
structure Accounts {α : Type} (key : α → String) (declarations unbegun : List α)
    (started begun : List String) :
    Prop where
  find?_eq : ∀ name, name ∉ begun →
    unbegun.find? (fun candidate => key candidate == name) =
      declarations.find? (fun candidate => key candidate == name)
  once : begun.Nodup
  declared : ∀ name ∈ begun, name ∈ declarations.map key
  kept : ∀ name ∈ started, name ∈ begun

namespace Accounts

variable {α : Type} {key : α → String} {declarations unbegun : List α}
  {started begun : List String} {name : String}

/-- Leaving out one key does not change what is found under another. -/
theorem find?_filter_of_ne {other : String} (apart : other ≠ name) :
    (unbegun.filter fun candidate => key candidate != name).find?
      (fun candidate => key candidate == other) =
      unbegun.find? (fun candidate => key candidate == other) := by
  rw [List.find?_filter]
  congr 1
  funext candidate
  by_cases same : key candidate = other
  · simp [same, apart]
  · simp [same]

theorem start : Accounts key declarations declarations [] [] where
  find?_eq := fun _ _ => rfl
  once := List.nodup_nil
  declared := List.forall_mem_nil _
  kept := List.forall_mem_nil _

/-- A declaration that was not begun is taken out when it is. -/
theorem enter (accounts : Accounts key declarations unbegun started begun)
    (fresh : name ∉ begun) {declaration : α}
    (found : unbegun.find? (fun candidate => key candidate == name) =
      some declaration) :
    Accounts key declarations
      (unbegun.filter fun candidate => key candidate != name) (name :: started)
      (begun ++ [name]) where
  find?_eq := by
    intro other absent
    rw [List.mem_append, List.mem_singleton, not_or] at absent
    rw [find?_filter_of_ne absent.2, accounts.find?_eq other absent.1]
  once := by
    rw [List.nodup_append_comm]
    exact List.nodup_cons.mpr ⟨fresh, accounts.once⟩
  declared := by
    have named : key declaration = name := by simpa using List.find?_some found
    rw [accounts.find?_eq name fresh] at found
    intro other member
    rcases List.mem_append.mp member with older | newest
    · exact accounts.declared other older
    · rw [List.mem_singleton.mp newest, ← named]
      exact List.mem_map_of_mem (List.mem_of_find?_eq_some found)
  kept := by
    intro other member
    rcases List.mem_cons.mp member with rfl | older
    · exact List.mem_append_right _ List.mem_cons_self
    · exact List.mem_append_left _ (accounts.kept other older)

/--
Afterwards it may be handed on again: its name is among those that were begun.
-/
theorem leave
    (accounts : Accounts key declarations
      (unbegun.filter fun candidate => key candidate != name)
    (name :: started) begun) :
    Accounts key declarations unbegun started begun where
  find?_eq := by
    intro other absent
    have apart : other ≠ name :=
      fun same => absent (same ▸ accounts.kept name List.mem_cons_self)
    rw [← find?_filter_of_ne apart, accounts.find?_eq other absent]
  once := accounts.once
  declared := accounts.declared
  kept :=
    fun other member => accounts.kept other (List.mem_cons_of_mem _ member)

/-- Where every declaration was begun, each was begun exactly once. -/
theorem perm (accounts : Accounts key declarations unbegun started begun)
    (distinct : (declarations.map key).Nodup)
    (all : ∀ declaration ∈ declarations, key declaration ∈ begun) :
    begun.Perm (declarations.map key) := by
  rw [List.perm_ext_iff_of_nodup accounts.once distinct]
  refine fun name => ⟨accounts.declared name, fun member => ?_⟩
  rcases List.mem_map.mp member with ⟨declaration, declared, rfl⟩
  exact all declaration declared

end Accounts

/--
Turns that may be given up are not, if each of them is not wherever the turns
before it may lead.
-/
theorem exists_foldlM_eq_some {α σ τ : Type} {related : σ → τ → Prop}
    {limited : σ → α → Option σ} {step : τ → α → τ}
    (turn : ∀ entry state other, related state other →
      ∃ after, limited state entry = some after ∧
        related after (step other entry))
    (entries : List α) {state : σ} {other : τ} (start : related state other) :
    ∃ after, entries.foldlM limited state = some after ∧
      related after (entries.foldl step other) := by
  induction entries generalizing state other with
  | nil => exact ⟨state, rfl, start⟩
  | cons entry rest ih =>
      rcases turn entry state other start with ⟨middle, taken, kept⟩
      rw [List.foldlM_cons, taken, List.foldl_cons]
      exact ih kept

end SchemaMap
