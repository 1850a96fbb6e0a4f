import SchemaMap.Proofs.Symbol.Operations

/-!
# Scopes as a stack

Seen from outside, a symbol table is a stack of finite maps from names to
numbers.  Opening a scope pushes an empty map, closing it pops the top map
unless only the global one is left, a definition binds its name in the top map
to the next number, and a name is looked up from the top down (`ScopeStack`).
The main theorem, `run_refines_scopeStack`, says that after any sequence of
operations the table and the stack agree on every look-up and on which
definitions are refused.
-/

namespace SchemaMap

/--
The maps of the open scopes, the innermost first, around them the global map,
and the next number.
-/
structure ScopeStack where
  inner : List (Dictionary String Nat) := []
  global : Dictionary String Nat := .empty
  next : Nat := 0

namespace ScopeStack

/-- All maps, from the top down. -/
def maps (stack : ScopeStack) : List (Dictionary String Nat) :=
  stack.inner ++ [stack.global]

/-- The map of the innermost scope. -/
def top (stack : ScopeStack) : Dictionary String Nat :=
  stack.inner.headD stack.global

/-- The number of a name in the uppermost map that binds it. -/
def lookup (stack : ScopeStack) (name : String) : Option Nat :=
  stack.maps.findSome? fun map => map.get? name

/-- The stack with a name bound to the next number in the top map. -/
def bind (stack : ScopeStack) (name : String) : ScopeStack :=
  match stack.inner with
  | [] =>
      { stack with global := stack.global.insert name stack.next,
                   next := stack.next + 1 }
  | map :: rest =>
      { stack with inner := map.insert name stack.next :: rest,
                   next := stack.next + 1 }

/-- The stack after an operation on the symbol table. -/
def apply (stack : ScopeStack) : SymbolTable.Operation → ScopeStack
  | .enter _ => { stack with inner := .empty :: stack.inner }
  | .exit => { stack with inner := stack.inner.tail }
  | .define symbol =>
      if (stack.top.get? symbol.name).isSome then
        stack
      else
        stack.bind symbol.name
  | .setKind _ _ => stack

/-- The stack after a sequence of operations. -/
def run (stack : ScopeStack) (operations : List SymbolTable.Operation) :
    ScopeStack :=
  operations.foldl apply stack

theorem maps_eq_cons (stack : ScopeStack) :
    stack.maps = stack.top :: stack.maps.tail := by
  rcases stack with ⟨_ | ⟨map, rest⟩, global, next⟩ <;> rfl

theorem maps_bind (stack : ScopeStack) (name : String) :
    (stack.bind name).maps =
      stack.top.insert name stack.next :: stack.maps.tail := by
  rcases stack with ⟨_ | ⟨map, rest⟩, global, next⟩ <;> rfl

theorem next_bind (stack : ScopeStack) (name : String) :
    (stack.bind name).next = stack.next + 1 := by
  rcases stack with ⟨_ | ⟨map, rest⟩, global, next⟩ <;> rfl

end ScopeStack

namespace SymbolTable

/-! ## The open scopes -/

/-- The open scopes depend on the parents alone. -/
theorem chain_congr {table other : SymbolTable} {scope : Nat}
    (same : ∀ inner ≤ scope, other.parent? inner = table.parent? inner) :
    other.chain scope = table.chain scope := by
  induction scope using Nat.strongRecOn with
  | ind scope ih =>
      rw [chain, chain, same scope (Nat.le_refl scope)]
      cases table.parent? scope with
      | none => rfl
      | some parent =>
          by_cases below : parent < scope
          · simp only [below, if_true]
            rw [ih parent below fun inner before => same inner (by omega)]
          · simp only [below, if_false]

theorem chain_eq_cons (table : SymbolTable) (scope : Nat) :
    table.chain scope = scope :: (table.chain scope).tail := by
  rw [chain]
  rfl

theorem chain_of_parent?_eq_none {table : SymbolTable} {scope : Nat}
    (orphan : table.parent? scope = none) :
    table.chain scope = [scope] := by
  rw [chain, orphan]

namespace WellFormed

variable {table : SymbolTable} (wellFormed : table.WellFormed)

include wellFormed

/-- The chain of a scope goes on with that of its parent. -/
theorem chain_of_parent?_eq_some {scope parent : Nat}
    (found : table.parent? scope = some parent) :
    table.chain scope = scope :: table.chain parent := by
  rw [chain, found]
  simp only [wellFormed.parents scope parent found, if_true]

/-- The scopes around a scope come before it. -/
theorem le_of_mem_chain {scope outer : Nat}
    (member : outer ∈ table.chain scope) : outer ≤ scope := by
  induction scope using Nat.strongRecOn with
  | ind scope ih =>
      cases found : table.parent? scope with
      | none =>
          rw [chain_of_parent?_eq_none found, List.mem_singleton] at member
          exact Nat.le_of_eq member
      | some parent =>
          have below := wellFormed.parents scope parent found
          rw [wellFormed.chain_of_parent?_eq_some found,
            List.mem_cons] at member
          rcases member with rfl | further
          · exact Nat.le_refl _
          · exact Nat.le_trans (ih parent below further) (Nat.le_of_lt below)

theorem lt_of_mem_tail_chain {scope outer : Nat}
    (member : outer ∈ (table.chain scope).tail) : outer < scope := by
  cases found : table.parent? scope with
  | none =>
      rw [chain_of_parent?_eq_none found] at member
      contradiction
  | some parent =>
      rw [wellFormed.chain_of_parent?_eq_some found] at member
      exact Nat.lt_of_le_of_lt (wellFormed.le_of_mem_chain member)
        (wellFormed.parents scope parent found)

/-- The outermost scope is the global one. -/
theorem getLast?_chain {scope : Nat} (inside : scope < table.scopes.length) :
    (table.chain scope).getLast? = some 0 := by
  induction scope using Nat.strongRecOn with
  | ind scope ih =>
      cases found : table.parent? scope with
      | none =>
          rw [chain_of_parent?_eq_none found,
            wellFormed.root scope inside found]
          rfl
      | some parent =>
          have below := wellFormed.parents scope parent found
          rw [wellFormed.chain_of_parent?_eq_some found, List.getLast?_cons,
            ih parent below (by omega)]
          rfl

/-- A scope that is entered comes in front of the chain. -/
theorem chain_enter (kind : ScopeKind) :
    (table.enter kind).chain (table.enter kind).current =
      table.scopes.length :: table.chain table.current := by
  have parent : (table.enter kind).parent? table.scopes.length =
      some table.current := by
    rw [parent?_enter, if_pos rfl]
  refine ((wellFormed.enter kind).chain_of_parent?_eq_some parent).trans
    (congrArg _ (chain_congr ?_))
  intro scope before
  have inside := wellFormed.current
  rw [parent?_enter, if_neg (by omega)]

end WellFormed

/-! ## Refinement -/

/--
The maps of the open scopes are those of the stack, and both give the same
number next.
-/
structure Refines (table : SymbolTable) (stack : ScopeStack) : Prop where
  wellFormed : table.WellFormed
  maps : (table.chain table.current).map table.lookupIn =
    stack.maps.map Dictionary.get?
  next : table.symbols.length = stack.next

theorem refines_empty : empty.Refines {} where
  wellFormed := wellFormed_empty
  maps := by
    rw [chain_of_parent?_eq_none (by rfl)]
    rfl
  next := rfl

namespace Refines

variable {table : SymbolTable} {stack : ScopeStack}
  (refines : table.Refines stack)

include refines

/-- Names are found as in the stack. -/
theorem lookup_eq (name : String) : table.lookup name = stack.lookup name := by
  have search := congrArg (List.findSome? fun map => map name) refines.maps
  rw [List.findSome?_map, List.findSome?_map] at search
  exact search

theorem lookupLocal_eq (name : String) :
    table.lookupLocal name = stack.top.get? name := by
  have first := congrArg List.head? refines.maps
  rw [chain, stack.maps_eq_cons, List.map_cons, List.map_cons, List.head?_cons,
    List.head?_cons] at first
  exact congrFun (Option.some.inj first) name

theorem lookupGlobal_eq (name : String) :
    table.lookupGlobal name = stack.global.get? name := by
  have last := congrArg List.getLast? refines.maps
  rw [List.getLast?_map,
    refines.wellFormed.getLast?_chain refines.wellFormed.current,
    ScopeStack.maps, List.map_append, List.map_singleton,
    List.getLast?_concat] at last
  exact congrFun (Option.some.inj last) name

/-- A definition is refused exactly when the top map binds its name. -/
theorem define_eq_error_iff (symbol : Symbol) :
    (∃ fault, table.define symbol = .error fault) ↔
      (stack.top.get? symbol.name).isSome := by
  rw [← refines.lookupLocal_eq]
  cases found : table.lookupLocal symbol.name with
  | some id => simp [define_of_bound table found]
  | none => simp [define_of_free table found]

theorem enter (kind : ScopeKind) :
    (table.enter kind).Refines
      { stack with inner := .empty :: stack.inner } where
  wellFormed := refines.wellFormed.enter kind
  maps := by
    have fresh : table.lookupIn table.scopes.length =
        Dictionary.get? .empty := by
      funext name
      cases found : table.lookupIn table.scopes.length name with
      | none => rfl
      | some id => exact absurd (lt_length_of_lookupIn found) (Nat.lt_irrefl _)
    rw [refines.wellFormed.chain_enter, lookupIn_enter, List.map_cons,
      refines.maps, fresh]
    rfl
  next := refines.next

theorem exit : table.exit.Refines { stack with inner := stack.inner.tail } where
  wellFormed := refines.wellFormed.exit
  maps := by
    have maps := refines.maps
    have same : table.exit.chain table.exit.current =
        table.chain table.exit.current :=
      chain_congr fun _ _ => rfl
    rw [same]
    show (table.chain ((table.parent? table.current).getD table.current)).map
        table.lookupIn = _
    cases found : table.parent? table.current with
    | none =>
        -- Only the global scope is open, so the stack has no other map.
        rw [chain_of_parent?_eq_none found] at maps
        have alone : stack.inner = [] := by
          simpa [ScopeStack.maps] using congrArg List.length maps
        rw [Option.getD_none, chain_of_parent?_eq_none found, maps,
          ScopeStack.maps, alone]
        rfl
    | some parent =>
        rw [refines.wellFormed.chain_of_parent?_eq_some found,
          ScopeStack.maps] at maps
        rw [Option.getD_some]
        cases opened : stack.inner with
        | nil =>
            rw [opened, chain] at maps
            simp at maps
        | cons map rest =>
            rw [opened] at maps
            exact (List.cons.inj maps).2
  next := refines.next

theorem adding {symbol : Symbol} (free : table.lookupLocal symbol.name = none) :
    (table.adding symbol).Refines (stack.bind symbol.name) where
  wellFormed := refines.wellFormed.adding free
  maps := by
    have view := lookupIn_adding refines.wellFormed.current free
    have same : (table.adding symbol).chain table.current =
        table.chain table.current :=
      chain_congr fun scope _ => parent?_adding table symbol scope
    have top : (table.adding symbol).lookupIn table.current =
        Dictionary.get? (stack.top.insert symbol.name stack.next) := by
      funext name
      rw [view]
      by_cases defined : name = symbol.name
      · rw [if_pos ⟨rfl, defined⟩, defined, Dictionary.get?_insert_self,
          refines.next]
      · rw [if_neg fun here => defined here.2,
          Dictionary.get?_insert_of_ne defined]
        exact refines.lookupLocal_eq name
    have below : (table.chain table.current).tail.map
        (table.adding symbol).lookupIn =
        (table.chain table.current).tail.map table.lookupIn := by
      apply List.map_congr_left
      intro outer member
      funext name
      have apart :=
        Nat.ne_of_lt (refines.wellFormed.lt_of_mem_tail_chain member)
      rw [view, if_neg fun here => apart here.1]
    show ((table.adding symbol).chain table.current).map
        (table.adding symbol).lookupIn = _
    rw [same, chain_eq_cons, List.map_cons, top, below, List.map_tail,
      refines.maps, stack.maps_bind, List.map_cons, List.map_tail]
  next := by
    rw [stack.next_bind, ← refines.next]
    simp [SymbolTable.adding]

theorem setKind (id : Nat) (kind : Kind) :
    (table.setKind id kind).Refines stack where
  wellFormed := refines.wellFormed.setKind id kind
  maps := by
    have same : (table.setKind id kind).chain (table.setKind id kind).current =
        table.chain table.current :=
      chain_congr fun _ _ => rfl
    rw [same]
    exact refines.maps
  next := by
    rw [← refines.next]
    exact List.length_modify ..

/-- An operation does to the table what it does to the stack. -/
theorem apply (operation : Operation) :
    (table.apply operation).Refines (stack.apply operation) := by
  cases operation with
  | enter kind => exact refines.enter kind
  | exit => exact refines.exit
  | define symbol =>
      show (table.apply (.define symbol)).Refines
        (if (stack.top.get? symbol.name).isSome then stack else
          stack.bind symbol.name)
      rw [← refines.lookupLocal_eq]
      cases found : table.lookupLocal symbol.name with
      | some id =>
          rw [apply_define_of_bound table found]
          exact refines
      | none =>
          rw [apply_define_of_free table found]
          exact refines.adding found
  | setKind id kind => exact refines.setKind id kind

/-- Operations keep the refinement. -/
theorem run (operations : List Operation) :
    (table.run operations).Refines (stack.run operations) := by
  induction operations generalizing table stack with
  | nil => exact refines
  | cons operation rest ih => exact ih (refines.apply operation)

end Refines

/--
After any sequence of operations a symbol table is a stack of maps.  It looks
names up from the top map down, in the top map or in the global map; it refuses
exactly the names that the top map binds, which changes nothing, and gives any
other the next number; it keeps every symbol under its number; and its scopes
and symbols refer to one another as they should.
-/
theorem run_refines_scopeStack (operations : List Operation) :
    let table := empty.run operations
    let stack := ScopeStack.run {} operations
    (∀ name, table.lookup name = stack.lookup name ∧
      table.lookupLocal name = stack.top.get? name ∧
      table.lookupGlobal name = stack.global.get? name) ∧
    (∀ symbol,
      ((∃ fault, table.define symbol = .error fault) ↔
        (stack.top.get? symbol.name).isSome) ∧
      ((stack.top.get? symbol.name).isSome →
        table.apply (.define symbol) = table) ∧
      ((stack.top.get? symbol.name).isNone →
        table.define symbol =
          .ok { id := stack.next, table := table.apply (.define symbol) } ∧
        (table.apply (.define symbol)).symbols =
          table.symbols ++ [{ symbol with scope := table.current }] ∧
        (table.apply (.define symbol)).lookupLocal symbol.name =
          some stack.next)) ∧
    table.symbols.length = stack.next ∧
    (∀ later id symbol, table.get? id = some symbol →
      ∃ kind, (table.run later).get? id = some { symbol with kind := kind }) ∧
    table.WellFormed ∧
    ∀ id < table.symbols.length,
      ∃! scope, ∃ name, table.lookupIn scope name = some id := by
  intro table stack
  have refines : table.Refines stack := refines_empty.run operations
  refine ⟨fun name =>
    ⟨refines.lookup_eq name, refines.lookupLocal_eq name,
      refines.lookupGlobal_eq name⟩,
      fun symbol => ⟨refines.define_eq_error_iff symbol, ?_, ?_⟩, refines.next,
        fun later id symbol found => get?_run found later, refines.wellFormed,
        fun id valid => refines.wellFormed.existsUnique_scope valid⟩
  · intro bound
    rw [← refines.lookupLocal_eq, Option.isSome_iff_exists] at bound
    rcases bound with ⟨id, found⟩
    exact apply_define_of_bound table found
  · intro free
    rw [← refines.lookupLocal_eq, Option.isNone_iff_eq_none] at free
    rw [apply_define_of_free table free, define_of_free table free,
      refines.next]
    refine ⟨rfl, rfl, ?_⟩
    show (table.adding symbol).lookupIn table.current symbol.name = _
    rw [lookupIn_adding refines.wellFormed.current free, if_pos ⟨rfl, rfl⟩,
      refines.next]

end SymbolTable

end SchemaMap
