import SchemaMap.Proofs.Symbol.Stack

/-!
# What is visible in a grown table

Symbols and scopes that are added behind those that are there change nothing for
a scope that was there: names are found as before (`WellFormed.kind?_of_prefix`,
`WellFormed.bindingType?_of_extends`).  Inside a new scope its variables come
first, and behind them everything is visible that was visible where the scope
was opened (`WellFormed.bindingType?_of_opened`).
-/

namespace SchemaMap.SymbolTable

/-- Later scopes do not change what is found in an earlier one. -/
theorem lookupIn_of_prefix {before after : SymbolTable}
    (grown : before.scopes <+: after.scopes) {scope : Nat}
    (inside : scope < before.scopes.length) :
    after.lookupIn scope = before.lookupIn scope := by
  rcases grown with ⟨added, split⟩
  funext name
  rw [lookupIn, lookupIn, ← split, List.getElem?_append_left inside]

theorem parent?_of_prefix {before after : SymbolTable}
    (grown : before.scopes <+: after.scopes) {scope : Nat}
    (inside : scope < before.scopes.length) :
    after.parent? scope = before.parent? scope := by
  rcases grown with ⟨added, split⟩
  rw [parent?, parent?, ← split, List.getElem?_append_left inside]

/-- A name is looked up in the maps of the open scopes, from the inside out. -/
theorem lookup_eq_findSome?_map (table : SymbolTable) (name : String) :
    table.lookup name =
      ((table.chain table.current).map table.lookupIn).findSome? fun map =>
        map name := by
  rw [List.findSome?_map]
  rfl

namespace WellFormed

variable {before after : SymbolTable} (wellFormed : before.WellFormed)

include wellFormed

/-- The open scopes with their maps are those that they were. -/
theorem map_lookupIn_chain_of_prefix (grown : before.scopes <+: after.scopes) :
    (after.chain before.current).map after.lookupIn =
      (before.chain before.current).map before.lookupIn := by
  have sameChain : after.chain before.current =
      before.chain before.current := by
    apply chain_congr
    intro around below
    exact parent?_of_prefix grown (Nat.lt_of_le_of_lt below wellFormed.current)
  rw [sameChain]
  apply List.map_congr_left
  intro around member
  exact lookupIn_of_prefix grown
    (Nat.lt_of_le_of_lt (wellFormed.le_of_mem_chain member) wellFormed.current)

/-- What a scope binds is the same symbol as before. -/
theorem bind_get?_of_prefix (grown : before.symbols <+: after.symbols)
    (scope : Nat) (name : String) :
    (before.lookupIn scope name).bind after.get? =
      (before.lookupIn scope name).bind before.get? := by
  cases found : before.lookupIn scope name with
  | none => rfl
  | some id =>
      rcases wellFormed.stored scope name id found with ⟨symbol, stored, -⟩
      rw [Option.bind_some, Option.bind_some, stored,
        get?_of_prefix grown stored]

theorem bind_get?_lookup_of_prefix (grown : before.symbols <+: after.symbols)
    (name : String) :
    (before.lookup name).bind after.get? =
      (before.lookup name).bind before.get? := by
  cases found : before.lookup name with
  | none => rfl
  | some id =>
      rcases List.exists_of_findSome?_eq_some found with ⟨scope, -, bound⟩
      have same := wellFormed.bind_get?_of_prefix grown scope name
      rw [bound] at same
      exact same

/-- Later symbols and scopes do not change what a name stands for. -/
theorem kind?_of_prefix (symbols : before.symbols <+: after.symbols)
    (scopes : before.scopes <+: after.scopes) (name : String) :
    after.kind? name = before.kind? name := by
  have nonempty : 0 < before.scopes.length :=
    Nat.zero_lt_of_lt wellFormed.current
  rw [kind?, kind?, global?, global?, lookupGlobal,
    lookupIn_of_prefix scopes nonempty, wellFormed.bind_get?_of_prefix symbols]
  rfl

theorem bindingType?_of_extends (extended : before.Extends after)
    (name : String) :
    after.bindingType? name = before.bindingType? name := by
  have found : after.lookup name = before.lookup name := by
    rw [lookup_eq_findSome?_map, lookup_eq_findSome?_map, extended.current,
      wellFormed.map_lookupIn_chain_of_prefix extended.scopes]
  rw [bindingType?, bindingType?, found,
    wellFormed.bind_get?_lookup_of_prefix extended.symbols]

/-- The variables of a scope hide what was visible where it was opened. -/
theorem bindingType?_of_opened {bound : List (String × Ty)}
    (opened : before.Opened bound after) (name : String) :
    after.bindingType? name =
      (bound.lookup name).orElse fun _ => before.bindingType? name := by
  rcases opened.scope with ⟨kind, names, scopes, paired⟩
  rcases lookup_of_forall₂_binds paired name with ⟨value, isSome⟩
  have grown : before.scopes <+: after.scopes := ⟨_, scopes.symm⟩
  have inner : after.lookupIn before.scopes.length name =
      names.lookup name := by
    simp [lookupIn, scopes]
  have chain : after.chain after.current =
      before.scopes.length :: after.chain before.current := by
    have parent : after.parent? before.scopes.length = some before.current := by
      simp [parent?, scopes]
    rw [opened.current, SymbolTable.chain, parent]
    simp only [wellFormed.current, if_true]
  have found : after.lookup name =
      (names.lookup name).or (before.lookup name) := by
    rw [lookup_eq_findSome?_map, lookup_eq_findSome?_map, chain, List.map_cons,
      List.findSome?_cons, inner, wellFormed.map_lookupIn_chain_of_prefix grown]
    cases names.lookup name <;> rfl
  rw [bindingType?, found]
  cases here : names.lookup name with
  | some id =>
      rw [here, Option.bind_some] at value
      rw [here, Option.isSome_some] at isSome
      have isBound : (bound.lookup name).isSome :=
        lookup_isSome_iff.mpr (isSome.mp rfl)
      rcases Option.isSome_iff_exists.mp isBound with ⟨type, bound⟩
      rw [bound] at value ⊢
      exact value
  | none =>
      rw [here, Option.bind_none] at value
      rw [← value, Option.none_or, bindingType?,
        wellFormed.bind_get?_lookup_of_prefix opened.symbols]
      rfl

end WellFormed

end SchemaMap.SymbolTable
