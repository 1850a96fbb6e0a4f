import SchemaMap.Proofs.Prelude
import SchemaMap.Proofs.Symbol.Table

/-!
# Sequences of operations

A symbol table changes in four ways: a scope is opened or closed, a symbol is
defined, a symbol gets another kind (`Operation`).  Scopes refer to their
parents and to their symbols by number, and no scope is ever freed.  That these
numbers are always good is one invariant, `WellFormed`, which every operation
keeps, so that every table that operations lead to has it
(`Reachable.wellFormed`).
-/

namespace SchemaMap.SymbolTable

/-- A change of a symbol table. -/
inductive Operation where
  | enter (kind : ScopeKind)
  | exit
  | define (symbol : Symbol)
  | setKind (id : Nat) (kind : Kind)

/--
The table after an operation; a definition that is refused changes nothing.
-/
def apply (table : SymbolTable) : Operation → SymbolTable
  | .enter kind => table.enter kind
  | .exit => table.exit
  | .define symbol =>
      match table.define symbol with
      | .ok defined => defined
      | .error _ => table
  | .setKind id kind => table.setKind id kind

/-- The table after a sequence of operations. -/
def run (table : SymbolTable) (operations : List Operation) : SymbolTable :=
  operations.foldl apply table

/-- Operations lead to the table from the empty one. -/
def Reachable (table : SymbolTable) : Prop :=
  ∃ operations, empty.run operations = table

/-! ## What the operations do -/

section

variable (table : SymbolTable)

/--
The table with one more symbol in the current scope, under the next number.
-/
def adding (symbol : Symbol) : SymbolTable :=
  { table with
    symbols := table.symbols ++ [{ symbol with scope := table.current }]
    scopes :=
      table.scopes.modify table.current fun scope =>
        { scope with
          names := scope.names ++ [(symbol.name, table.symbols.length)] } }

/-- A name that is bound in the current scope cannot be defined. -/
theorem define_of_bound {symbol : Symbol} {id : Nat}
    (bound : table.lookupLocal symbol.name = some id) :
    table.define symbol =
      .error ⟨.duplicateDefinition symbol.name, symbol.span⟩ := by
  simp only [define, bound]

/-- A free name is defined under the next number. -/
theorem define_of_free {symbol : Symbol}
    (free : table.lookupLocal symbol.name = none) :
    table.define symbol =
      .ok { id := table.symbols.length, table := table.adding symbol } := by
  simp only [define, free]
  rfl

theorem apply_define_of_bound {symbol : Symbol} {id : Nat}
    (bound : table.lookupLocal symbol.name = some id) :
    table.apply (.define symbol) = table := by
  simp only [apply, table.define_of_bound bound]

theorem apply_define_of_free {symbol : Symbol}
    (free : table.lookupLocal symbol.name = none) :
    table.apply (.define symbol) = table.adding symbol := by
  simp only [apply, table.define_of_free free]

theorem lookupIn_enter (kind : ScopeKind) :
    (table.enter kind).lookupIn = table.lookupIn := by
  funext scope name
  unfold lookupIn enter
  by_cases new : scope < table.scopes.length
  · rw [List.getElem?_append_left new]
  · rw [List.getElem?_append_right (Nat.le_of_not_lt new),
      List.getElem?_eq_none (Nat.le_of_not_lt new)]
    cases scope - table.scopes.length <;> rfl

theorem parent?_enter (kind : ScopeKind) (scope : Nat) :
    (table.enter kind).parent? scope =
      if scope = table.scopes.length then some table.current else
        table.parent? scope := by
  unfold parent? enter
  by_cases new : scope < table.scopes.length
  · rw [List.getElem?_append_left new, if_neg (Nat.ne_of_lt new)]
  · rw [List.getElem?_append_right (Nat.le_of_not_lt new),
      List.getElem?_eq_none (Nat.le_of_not_lt new)]
    cases further : scope - table.scopes.length with
    | zero =>
        rw [if_pos (by omega)]
        rfl
    | succ =>
        rw [if_neg (by omega)]
        rfl

theorem parent?_adding (symbol : Symbol) (scope : Nat) :
    (table.adding symbol).parent? scope = table.parent? scope := by
  unfold parent? adding
  rw [List.getElem?_modify]
  cases table.scopes[scope]? with
  | none => rfl
  | some found => by_cases here : table.current = scope <;> simp [here]

theorem map_kind_adding (symbol : Symbol) :
    (table.adding symbol).scopes.map Scope.kind =
      table.scopes.map Scope.kind := by
  apply List.ext_getElem?
  intro scope
  rw [List.getElem?_map, List.getElem?_map, adding, List.getElem?_modify]
  cases table.scopes[scope]? with
  | none => rfl
  | some found => by_cases here : table.current = scope <;> simp [here]

theorem get?_adding (symbol : Symbol) (id : Nat) :
    (table.adding symbol).get? id =
      if id = table.symbols.length then
        some { symbol with scope := table.current } else table.get? id := by
  unfold get? adding
  by_cases old : id < table.symbols.length
  · rw [List.getElem?_append_left old, if_neg (Nat.ne_of_lt old)]
  · rw [List.getElem?_append_right (Nat.le_of_not_lt old),
      List.getElem?_eq_none (Nat.le_of_not_lt old)]
    cases further : id - table.symbols.length with
    | zero =>
        rw [if_pos (by omega)]
        rfl
    | succ =>
        rw [if_neg (by omega)]
        rfl

variable {table}

/--
A new name is found in the current scope, and the others are found as before.
-/
theorem lookupIn_adding (inside : table.current < table.scopes.length)
    {symbol : Symbol} (free : table.lookupLocal symbol.name = none)
    (scope : Nat) (name : String) :
    (table.adding symbol).lookupIn scope name =
      if scope = table.current ∧ name = symbol.name then
        some table.symbols.length
      else table.lookupIn scope name := by
  by_cases here : scope = table.current
  · subst here
    have open_ := List.getElem?_eq_getElem inside
    simp only [lookupLocal, lookupIn, open_, Option.bind_some] at free
    simp only [lookupIn, adding, List.getElem?_modify, open_, if_true, true_and]
    refine (lookup_concat _ symbol.name name table.symbols.length).trans ?_
    by_cases same : name = symbol.name
    · rw [same, free, if_pos rfl, if_pos rfl]
      rfl
    · rw [if_neg same, if_neg same, Option.or_none]
      rfl
  · have apart : ¬ table.current = scope := fun same => here same.symm
    simp only [lookupIn, adding, List.getElem?_modify, apart, here, if_false,
      false_and]
    cases table.scopes[scope]? <;> rfl

end

/-! ## The invariant -/

/--
Parents come before their children, and only the global scope has none.  What a
scope binds are symbols of its own under their own names, and every symbol is
bound where it belongs.
-/
structure WellFormed (table : SymbolTable) : Prop where
  current : table.current < table.scopes.length
  parents : ∀ scope parent, table.parent? scope = some parent → parent < scope
  root : ∀ scope < table.scopes.length, table.parent? scope = none → scope = 0
  stored : ∀ scope name id, table.lookupIn scope name = some id →
    ∃ symbol, table.get? id = some symbol ∧ symbol.name = name ∧
      symbol.scope = scope
  bound : ∀ id symbol, table.get? id = some symbol →
    table.lookupIn symbol.scope symbol.name = some id

theorem lt_length_of_lookupIn {table : SymbolTable} {scope id : Nat}
    {name : String} (found : table.lookupIn scope name = some id) :
    scope < table.scopes.length := by
  rcases Option.bind_eq_some_iff.mp found with ⟨content, stored, -⟩
  exact (List.getElem?_eq_some_iff.mp stored).1

theorem lt_length_of_get? {table : SymbolTable} {id : Nat} {symbol : Symbol}
    (found : table.get? id = some symbol) :
    id < table.symbols.length :=
  (List.getElem?_eq_some_iff.mp found).1

theorem wellFormed_empty : empty.WellFormed where
  current := Nat.zero_lt_one
  parents := by
    intro scope parent found
    cases scope <;> simp [empty, parent?] at found
  root := by
    intro scope inside _
    exact Nat.lt_one_iff.mp inside
  stored := by
    intro scope name id found
    cases scope <;> simp [empty, lookupIn] at found
  bound := by
    intro id symbol found
    simp [empty, get?] at found

namespace WellFormed

variable {table : SymbolTable}

theorem enter (wellFormed : table.WellFormed) (kind : ScopeKind) :
    (table.enter kind).WellFormed where
  current := by simp [SymbolTable.enter]
  parents := by
    intro scope parent found
    rw [parent?_enter] at found
    split at found
    · next new =>
        cases found
        rw [new]
        exact wellFormed.current
    · exact wellFormed.parents scope parent found
  root := by
    intro scope inside orphan
    rw [parent?_enter] at orphan
    split at orphan
    · contradiction
    · next old =>
        have length : (table.enter kind).scopes.length =
            table.scopes.length + 1 := by simp [SymbolTable.enter]
        exact wellFormed.root scope (by omega) orphan
  stored := by
    rw [lookupIn_enter]
    exact wellFormed.stored
  bound := by
    rw [lookupIn_enter]
    exact wellFormed.bound

theorem exit (wellFormed : table.WellFormed) : table.exit.WellFormed where
  current := by
    show (table.parent? table.current).getD table.current < table.scopes.length
    cases found : table.parent? table.current with
    | none => exact wellFormed.current
    | some parent =>
        exact Nat.lt_trans (wellFormed.parents _ _ found) wellFormed.current
  parents := wellFormed.parents
  root := wellFormed.root
  stored := wellFormed.stored
  bound := wellFormed.bound

theorem adding (wellFormed : table.WellFormed) {symbol : Symbol}
    (free : table.lookupLocal symbol.name = none) :
    (table.adding symbol).WellFormed where
  current := by
    simp only [SymbolTable.adding, List.length_modify]
    exact wellFormed.current
  parents := by
    intro scope parent found
    rw [parent?_adding] at found
    exact wellFormed.parents scope parent found
  root := by
    intro scope inside orphan
    rw [parent?_adding] at orphan
    simp only [SymbolTable.adding, List.length_modify] at inside
    exact wellFormed.root scope inside orphan
  stored := by
    intro scope name id found
    rw [lookupIn_adding wellFormed.current free] at found
    rw [get?_adding]
    split at found
    · next new =>
        cases found
        exact ⟨_, if_pos rfl, new.2.symm, new.1.symm⟩
    · rcases wellFormed.stored scope name id found with ⟨older, known, rest⟩
      exact ⟨older,
        by rw [if_neg (Nat.ne_of_lt (lt_length_of_get? known)), known], rest⟩
  bound := by
    intro id other found
    rw [get?_adding] at found
    rw [lookupIn_adding wellFormed.current free]
    split at found
    · next new =>
        cases found
        rw [if_pos ⟨rfl, rfl⟩, new]
    · have known := wellFormed.bound id other found
      rw [if_neg, known]
      rintro ⟨here, same⟩
      rw [here, same] at known
      rw [lookupLocal, known] at free
      contradiction

theorem setKind (wellFormed : table.WellFormed) (id : Nat) (kind : Kind) :
    (table.setKind id kind).WellFormed where
  current := wellFormed.current
  parents := wellFormed.parents
  root := wellFormed.root
  stored := by
    intro scope name other found
    rcases wellFormed.stored scope name other found with
      ⟨symbol, known, named, placed⟩
    rw [get?_setKind, known]
    refine ⟨_, rfl, ?_⟩
    split
    · exact ⟨named, placed⟩
    · exact ⟨named, placed⟩
  bound := by
    intro other symbol found
    rw [get?_setKind] at found
    rcases Option.map_eq_some_iff.mp found with ⟨older, known, rfl⟩
    have kept := wellFormed.bound other older known
    split
    · exact kept
    · exact kept

/-- Every operation keeps a table well formed. -/
theorem apply (wellFormed : table.WellFormed) (operation : Operation) :
    (table.apply operation).WellFormed := by
  cases operation with
  | enter kind => exact wellFormed.enter kind
  | exit => exact wellFormed.exit
  | define symbol =>
      cases found : table.lookupLocal symbol.name with
      | some id =>
          rw [apply_define_of_bound table found]
          exact wellFormed
      | none =>
          rw [apply_define_of_free table found]
          exact wellFormed.adding found
  | setKind id kind => exact wellFormed.setKind id kind

/-- Operations keep a table well-formed. -/
theorem run (wellFormed : table.WellFormed) (operations : List Operation) :
    (table.run operations).WellFormed := by
  induction operations generalizing table with
  | nil => exact wellFormed
  | cons operation rest ih => exact ih (wellFormed.apply operation)

/-- Every symbol is bound in exactly one scope. -/
theorem existsUnique_scope (wellFormed : table.WellFormed) {id : Nat}
    (valid : id < table.symbols.length) :
    ∃! scope, ∃ name, table.lookupIn scope name = some id := by
  have known : table.get? id = some table.symbols[id] :=
    List.getElem?_eq_getElem valid
  refine ⟨_, ⟨_, wellFormed.bound id _ known⟩, ?_⟩
  rintro scope ⟨name, found⟩
  rcases wellFormed.stored scope name id found with ⟨symbol, same, -, placed⟩
  rw [known] at same
  cases same
  exact placed.symm

end WellFormed

theorem reachable_empty : empty.Reachable :=
  ⟨[], rfl⟩

namespace Reachable

variable {table : SymbolTable}

/-- Reachable tables are well-formed. -/
theorem wellFormed (reachable : table.Reachable) : table.WellFormed := by
  rcases reachable with ⟨operations, rfl⟩
  exact wellFormed_empty.run operations

theorem apply (reachable : table.Reachable) (operation : Operation) :
    (table.apply operation).Reachable := by
  rcases reachable with ⟨operations, rfl⟩
  refine ⟨operations ++ [operation], ?_⟩
  simp only [SymbolTable.run, List.foldl_append, List.foldl_cons,
    List.foldl_nil]

theorem enter (reachable : table.Reachable) (kind : ScopeKind) :
    (table.enter kind).Reachable :=
  reachable.apply (.enter kind)

theorem exit (reachable : table.Reachable) : table.exit.Reachable :=
  reachable.apply .exit

theorem setKind (reachable : table.Reachable) (id : Nat) (kind : Kind) :
    (table.setKind id kind).Reachable :=
  reachable.apply (.setKind id kind)

theorem define (reachable : table.Reachable) {symbol : Symbol}
    {next : Definition} (defined : table.define symbol = .ok next) :
    next.table.Reachable := by
  have applied : table.apply (.define symbol) = next.table := by
    simp only [SymbolTable.apply, defined]
  rw [← applied]
  exact reachable.apply (.define symbol)

end Reachable

/-! ## Numbers stay -/

/--
An operation leaves every symbol under its number and changes at most its kind.
-/
theorem get?_apply {table : SymbolTable} {id : Nat} {symbol : Symbol}
    (found : table.get? id = some symbol) (operation : Operation) :
    ∃ kind,
      (table.apply operation).get? id = some { symbol with kind := kind } := by
  cases operation with
  | enter kind => exact ⟨symbol.kind, found⟩
  | exit => exact ⟨symbol.kind, found⟩
  | define other =>
      refine ⟨symbol.kind, ?_⟩
      cases bound : table.lookupLocal other.name with
      | some known =>
          rw [apply_define_of_bound table bound]
          exact found
      | none =>
          rw [apply_define_of_free table bound, get?_adding,
            if_neg (Nat.ne_of_lt (lt_length_of_get? found))]
          exact found
  | setKind other kind =>
      show ∃ changed,
          (table.setKind other kind).get? id =
            some { symbol with kind := changed }
      rw [get?_setKind, found, Option.map_some]
      split
      · exact ⟨kind, rfl⟩
      · exact ⟨symbol.kind, rfl⟩

/-- Operations change nothing but the kind of a symbol. -/
theorem get?_run {table : SymbolTable} {id : Nat} {symbol : Symbol}
    (found : table.get? id = some symbol) (operations : List Operation) :
    ∃ kind,
      (table.run operations).get? id = some { symbol with kind := kind } := by
  induction operations generalizing table symbol with
  | nil => exact ⟨symbol.kind, found⟩
  | cons operation rest ih =>
      rcases get?_apply found operation with ⟨kind, next⟩
      rcases ih next with ⟨final, kept⟩
      exact ⟨final, kept⟩

end SchemaMap.SymbolTable
