import Mathlib.Data.List.Forall2
import SchemaMap.Symbol.Table

/-!
# Symbol tables between declarations

Between two declarations the global scope is open and every name in it stands
for something declared (`Rooted`).  Two kinds of change happen to such a table:
a symbol of the global scope gets another kind, and symbols and scopes are added
behind those that are there (`Extends`).  Both are described by what they do to
`kind?`.

While the rules of a transform or the body of a lambda are checked, a scope is
open whose variables are known (`Opened`).  Closing it leads back to an
extension of the table before.
-/

namespace SchemaMap.SymbolTable

/-! ## Tables at the global scope -/

/--
The global scope is open, has no parent, and binds its names to declared symbols
of the same names.
-/
structure Rooted (table : SymbolTable) : Prop where
  atRoot : table.current = 0
  root : ∃ kind names, table.scopes[0]? = some ⟨none, kind, names⟩
  declared : ∀ name id, table.lookupGlobal name = some id →
    ∃ symbol, table.get? id = some symbol ∧ symbol.name = name ∧
      symbol.kind.binding? = none

@[simp]
theorem lookupGlobal_setKind (table : SymbolTable) (id : Nat) (kind : Kind)
    (name : String) :
    (table.setKind id kind).lookupGlobal name = table.lookupGlobal name := rfl

theorem get?_setKind (table : SymbolTable) (id other : Nat) (kind : Kind) :
    (table.setKind id kind).get? other =
      (table.get? other).map fun symbol =>
        if id = other then { symbol with kind := kind } else symbol := by
  simp only [setKind, get?, List.getElem?_modify]
  split <;> simp

theorem Rooted.setKind {table : SymbolTable} (rooted : table.Rooted) (id : Nat)
    {kind : Kind} (declared : kind.binding? = none) :
    (table.setKind id kind).Rooted where
  atRoot := rooted.atRoot
  root := rooted.root
  declared := by
    intro name other found
    obtain ⟨symbol, stored, named, notBinding⟩ :=
      rooted.declared name other found
    rw [get?_setKind, stored]
    refine ⟨_, rfl, ?_⟩
    split
    · exact ⟨named, declared⟩
    · exact ⟨named, notBinding⟩

/--
A symbol that gets another kind changes what its own name stands for, and no
other name.
-/
theorem Rooted.kind?_setKind {table : SymbolTable} (rooted : table.Rooted)
    {name : String} {id : Nat} (found : table.lookupGlobal name = some id)
    (kind : Kind) (other : String) :
    (table.setKind id kind).kind? other = if other = name then some kind else
      table.kind? other := by
  obtain ⟨symbol, stored, named, -⟩ := rooted.declared name id found
  unfold SymbolTable.kind? global?
  rw [lookupGlobal_setKind]
  split
  · next same =>
      subst same
      simp [found, get?_setKind, stored]
  · next different =>
      cases otherFound : table.lookupGlobal other with
      | none => simp
      | some otherId =>
          obtain ⟨otherSymbol, otherStored, otherNamed, -⟩ :=
            rooted.declared other otherId otherFound
          have apart : id ≠ otherId := by
            rintro rfl
            rw [stored, Option.some.injEq] at otherStored
            subst otherStored
            exact different (otherNamed.symm.trans named)
          simp [get?_setKind, otherStored, apart]

/-! ## Extensions -/

/-- Symbols keep their numbers when others are added behind them. -/
theorem get?_of_prefix {before after : SymbolTable}
    (grown : before.symbols <+: after.symbols) {id : Nat} {symbol : Symbol}
    (stored : before.get? id = some symbol) : after.get? id = some symbol := by
  obtain ⟨added, split⟩ := grown
  unfold get? at stored ⊢
  rw [← split,
    List.getElem?_append_left (List.getElem?_eq_some_iff.mp stored).1]
  exact stored

/--
Symbols and scopes are added behind those that are there; the open scope is the
same.
-/
structure Extends (before after : SymbolTable) : Prop where
  symbols : before.symbols <+: after.symbols
  scopes : before.scopes <+: after.scopes
  current : after.current = before.current

namespace Extends

theorem refl (table : SymbolTable) : table.Extends table :=
  ⟨List.prefix_rfl, List.prefix_rfl, rfl⟩

theorem trans {first second third : SymbolTable} (before : first.Extends second)
    (after : second.Extends third) : first.Extends third :=
  ⟨before.symbols.trans after.symbols, before.scopes.trans after.scopes,
    after.current.trans before.current⟩

variable {before after : SymbolTable}

theorem lookupGlobal_eq (extended : before.Extends after)
    (rooted : before.Rooted) (name : String) :
    after.lookupGlobal name = before.lookupGlobal name := by
  obtain ⟨added, split⟩ := extended.scopes
  obtain ⟨kind, names, root⟩ := rooted.root
  unfold lookupGlobal lookupIn
  rw [← split, List.getElem?_append_left (List.getElem?_eq_some_iff.mp root).1]

theorem rooted (extended : before.Extends after) (rooted : before.Rooted) :
    after.Rooted where
  atRoot := extended.current.trans rooted.atRoot
  root := by
    obtain ⟨added, split⟩ := extended.scopes
    obtain ⟨kind, names, root⟩ := rooted.root
    refine ⟨kind, names, ?_⟩
    rw [← split,
      List.getElem?_append_left (List.getElem?_eq_some_iff.mp root).1]
    exact root
  declared := by
    intro name id found
    rw [extended.lookupGlobal_eq rooted] at found
    obtain ⟨symbol, stored, rest⟩ := rooted.declared name id found
    exact ⟨symbol, get?_of_prefix extended.symbols stored, rest⟩

/-- In an extension a name stands for what it stood for. -/
theorem kind?_eq (extended : before.Extends after) (rooted : before.Rooted)
    (name : String) :
    after.kind? name = before.kind? name := by
  unfold SymbolTable.kind? global?
  rw [extended.lookupGlobal_eq rooted]
  cases found : before.lookupGlobal name with
  | none => rfl
  | some id =>
      obtain ⟨symbol, stored, -⟩ := rooted.declared name id found
      simp [stored, get?_of_prefix extended.symbols stored]

end Extends

/-! ## Scopes with variables -/

/-- A name of a scope stands for a variable of the given name and type. -/
def Binds (table : SymbolTable) (entry : String × Nat) (binding : String × Ty) :
    Prop :=
  entry.1 = binding.1 ∧
    ∃ symbol, table.get? entry.2 = some symbol ∧
      symbol.kind = .binding binding.2

theorem Binds.of_prefix {before after : SymbolTable} {entry : String × Nat}
    {binding : String × Ty} (binds : before.Binds entry binding)
    (grown : before.symbols <+: after.symbols) :
    after.Binds entry binding := by
  obtain ⟨sameName, symbol, stored, typed⟩ := binds
  exact ⟨sameName, symbol, get?_of_prefix grown stored, typed⟩

/-- Looking a name up in a scope of variables gives the variable's type. -/
theorem lookup_of_forall₂_binds {table : SymbolTable}
    {names : List (String × Nat)} {bound : List (String × Ty)}
    (paired : List.Forall₂ table.Binds names bound) (name : String) :
    (names.lookup name).bind
      (fun id => (table.get? id).bind fun symbol => symbol.kind.binding?) =
        bound.lookup name ∧
      ((names.lookup name).isSome ↔ name ∈ bound.map Prod.fst) := by
  induction paired with
  | nil => simp
  | @cons entry binding names bound head tail ih =>
      obtain ⟨entryName, id⟩ := entry
      obtain ⟨bindingName, type⟩ := binding
      obtain ⟨sameName, symbol, stored, typed⟩ := head
      simp only at sameName stored typed
      subst sameName
      by_cases same : name = entryName
      · subst same
        simp [stored, typed, Kind.binding?]
      · have apart : (name == entryName) = false := by simpa using same
        simp only [List.lookup_cons, apart, List.map_cons, List.mem_cons, same,
          false_or]
        exact ih

/--
A scope was opened in the table `outer`, and variables of the given types were
bound in it, each name once.
-/
structure Opened (outer : SymbolTable) (bound : List (String × Ty))
    (table : SymbolTable) : Prop where
  symbols : outer.symbols <+: table.symbols
  current : table.current = outer.scopes.length
  scope : ∃ kind names,
    table.scopes = outer.scopes ++ [⟨some outer.current, kind, names⟩] ∧
      List.Forall₂ table.Binds names bound

namespace Opened

variable {outer table : SymbolTable} {bound : List (String × Ty)}

theorem enter (outer : SymbolTable) (kind : ScopeKind) :
    Opened outer [] (outer.enter kind) where
  symbols := List.prefix_rfl
  current := rfl
  scope := ⟨kind, [], rfl, .nil⟩

/-- Exactly the bound names are found in the open scope. -/
theorem lookupLocal_isSome_iff (opened : Opened outer bound table)
    (name : String) :
    (table.lookupLocal name).isSome ↔ name ∈ bound.map Prod.fst := by
  obtain ⟨kind, names, scopes, paired⟩ := opened.scope
  unfold lookupLocal lookupIn
  rw [opened.current, scopes]
  simpa using (lookup_of_forall₂_binds paired name).2

/-- A name that is bound cannot be bound again. -/
theorem define_eq_error (opened : Opened outer bound table) (symbol : Symbol)
    (taken : symbol.name ∈ bound.map Prod.fst) :
    table.define symbol =
      .error ⟨.duplicateDefinition symbol.name, symbol.span⟩ := by
  obtain ⟨id, found⟩ :=
    Option.isSome_iff_exists.mp
      ((opened.lookupLocal_isSome_iff symbol.name).mpr taken)
  simp [define, found]

/-- A name that is not bound yet becomes a variable behind the others. -/
theorem define_eq_ok (opened : Opened outer bound table) (name : String)
    (type : Ty) (span : Span) (free : name ∉ bound.map Prod.fst) :
    ∃ next,
      table.define { name := name, kind := .binding type, span := span } =
        .ok next ∧
      Opened outer (bound ++ [(name, type)]) next.table := by
  have absent : table.lookupLocal name = none := by
    rw [← Option.not_isSome_iff_eq_none, opened.lookupLocal_isSome_iff]
    exact free
  refine ⟨_, by simp only [define, absent]; rfl, ?_⟩
  obtain ⟨kind, names, scopes, paired⟩ := opened.scope
  refine ⟨?_, opened.current, kind, names ++ [(name, table.symbols.length)], ?_,
    ?_⟩
  · exact opened.symbols.trans (List.prefix_append _ _)
  · simp only [opened.current, scopes]
    rw [List.modify_eq_take_cons_drop (by simp)]
    simp
  · refine List.rel_append ?_ (.cons ⟨rfl, ?_⟩ .nil)
    · exact paired.imp fun entry binding binds =>
        binds.of_prefix (List.prefix_append _ _)
    · exact ⟨{ name := name, kind := .binding type, span := span,
               scope := table.current }, by simp [get?], rfl⟩

/--
Whatever is added behind it, the scope stands where it was opened and binds its
variables.
-/
theorem scopes_of_extends {later : SymbolTable}
    (opened : Opened outer bound table) (added : table.Extends later) :
    ∃ kind names more,
      later.scopes = outer.scopes ++ ⟨some outer.current, kind, names⟩ :: more ∧
      List.Forall₂ later.Binds names bound := by
  obtain ⟨kind, names, scopes, paired⟩ := opened.scope
  obtain ⟨more, split⟩ := added.scopes
  refine ⟨kind, names, more, by simp [← split, scopes], ?_⟩
  exact paired.imp fun entry binding binds => binds.of_prefix added.symbols

/--
The variables in reach inside a scope of the global scope are those that the
scope binds.
-/
theorem bindingType?_eq {later : SymbolTable}
    (opened : Opened outer bound table) (added : table.Extends later)
    (rooted : outer.Rooted) (name : String) :
    later.bindingType? name = bound.lookup name := by
  obtain ⟨kind, names, more, scopes, paired⟩ := opened.scopes_of_extends added
  obtain ⟨rootKind, rootNames, root⟩ := rooted.root
  obtain ⟨value, isSome⟩ := lookup_of_forall₂_binds paired name
  have outerScopes : 0 < outer.scopes.length :=
    (List.getElem?_eq_some_iff.mp root).1
  have innerLookup : later.lookupIn outer.scopes.length name =
      names.lookup name := by
    simp [lookupIn, scopes]
  have globalLookup : later.lookupIn 0 name = outer.lookupGlobal name := by
    rw [lookupGlobal, lookupIn, lookupIn, scopes,
      List.getElem?_append_left outerScopes]
  have chain : later.chain later.current = [outer.scopes.length, 0] := by
    have innerParent : later.parent? outer.scopes.length = some 0 := by
      simp [parent?, scopes, rooted.atRoot]
    have rootParent : later.parent? 0 = none := by
      rw [parent?, scopes, List.getElem?_append_left outerScopes, root]
      rfl
    rw [added.current, opened.current, SymbolTable.chain, innerParent]
    simp only [outerScopes, if_true]
    rw [SymbolTable.chain, rootParent]
  unfold bindingType? lookup
  rw [chain]
  simp only [List.findSome?_cons, List.findSome?_nil, innerLookup, globalLookup]
  cases found : names.lookup name with
  | some id =>
      rw [found] at value
      simpa using value
  | none =>
      rw [found] at value
      cases globalFound : outer.lookupGlobal name with
      | none => simpa using value
      | some id =>
          obtain ⟨symbol, stored, -, notBinding⟩ :=
            rooted.declared name id globalFound
          have kept :=
            get?_of_prefix (opened.symbols.trans added.symbols) stored
          simpa [kept, notBinding] using value

/--
Closing the scope, after whatever was added inside it, leads back to where it
was opened.
-/
theorem exit_extends {final : SymbolTable} (opened : Opened outer bound table)
    (added : table.Extends final) :
    outer.Extends final.exit := by
  obtain ⟨kind, names, more, finalScopes, -⟩ := opened.scopes_of_extends added
  have finalParent : final.parent? final.current = some outer.current := by
    rw [added.current, opened.current, parent?, finalScopes]
    simp
  refine ⟨opened.symbols.trans added.symbols, ?_, ?_⟩
  · exact ⟨_, finalScopes.symm⟩
  · simp [exit, finalParent]

end Opened

end SchemaMap.SymbolTable
