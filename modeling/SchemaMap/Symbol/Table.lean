import SchemaMap.Diagnostic.Problem
import SchemaMap.Symbol.Kind

/-!
# Symbol tables

A symbol table holds every symbol that was ever defined, in the order of
definition, and the scopes that bind their names.  Scopes are nested: each was
entered from its parent, and the first one, without a parent, is the global
scope.  A name is looked up in the current scope and then in its ancestors.
-/

namespace SchemaMap

/-- What a scope belongs to. -/
inductive ScopeKind where
  | global
  /-- The rules of a transform, with its named sources. -/
  | transform
  /-- The body of a lambda, with its parameters. -/
  | lambda
deriving DecidableEq, Repr

/-- A name with what it stands for and where it was defined. -/
structure Symbol where
  name : String
  kind : Kind
  span : Span := .unknown
  /-- The position of the declaration in the program. -/
  declaration : Option Nat := none
  scope : Nat := 0

/--
The names that one part of a program binds, each with the number of its symbol.
-/
structure Scope where
  parent : Option Nat
  kind : ScopeKind
  names : List (String × Nat) := []

/-- All symbols and scopes, and the scope that is open. -/
structure SymbolTable where
  symbols : List Symbol
  scopes : List Scope
  current : Nat

/-- A symbol that was defined: its number, and the table that holds it. -/
structure Definition where
  id : Nat
  table : SymbolTable

instance : Coe Definition SymbolTable := ⟨Definition.table⟩

namespace SymbolTable

/-- The table with an empty global scope. -/
def empty : SymbolTable :=
  { symbols := [], scopes := [{ parent := none, kind := .global }],
    current := 0 }

/-- Open a scope inside the current one. -/
def enter (table : SymbolTable) (kind : ScopeKind) : SymbolTable :=
  { table with
    scopes := table.scopes ++ [{ parent := some table.current, kind := kind }]
    current := table.scopes.length }

/-- The scope around a scope. -/
def parent? (table : SymbolTable) (scope : Nat) : Option Nat :=
  (table.scopes[scope]?).bind Scope.parent

/-- Close the current scope; the global scope stays open. -/
def exit (table : SymbolTable) : SymbolTable :=
  { table with current := (table.parent? table.current).getD table.current }

/-- The symbol that a scope itself binds to a name. -/
def lookupIn (table : SymbolTable) (scope : Nat) (name : String) : Option Nat :=
  (table.scopes[scope]?).bind (fun found => found.names.lookup name)

/-- The symbol that the current scope itself binds to a name. -/
def lookupLocal (table : SymbolTable) (name : String) : Option Nat :=
  table.lookupIn table.current name

/-- The symbol that the global scope binds to a name. -/
def lookupGlobal (table : SymbolTable) (name : String) : Option Nat :=
  table.lookupIn 0 name

/--
A scope and those around it, from the inside out.  A scope is entered after its
parent, so parents come first.
-/
def chain (table : SymbolTable) (scope : Nat) : List Nat :=
  scope ::
    match table.parent? scope with
    | none => []
    | some parent => if parent < scope then chain table parent else []
termination_by scope

/-- The symbol of a name in the current scope or the nearest scope around it. -/
def lookup (table : SymbolTable) (name : String) : Option Nat :=
  (table.chain table.current).findSome? (fun scope => table.lookupIn scope name)

/-- The symbol with a number. -/
def get? (table : SymbolTable) (id : Nat) : Option Symbol :=
  table.symbols[id]?

/--
Define a symbol in the current scope, under the next number.  A name that the
scope binds already is a fault; names of the scopes around it may be taken
again.
-/
def define (table : SymbolTable) (symbol : Symbol) : Except Fault Definition :=
  match table.lookupLocal symbol.name with
  | some _ => .error ⟨.duplicateDefinition symbol.name, symbol.span⟩
  | none =>
      let id := table.symbols.length
      .ok
        { id := id
          table :=
            { table with
              symbols :=
                table.symbols ++ [{ symbol with scope := table.current }]
              scopes :=
                table.scopes.modify table.current fun scope =>
                  { scope with names := scope.names ++ [(symbol.name, id)] } } }

/-- The table with another kind for a symbol. -/
def setKind (table : SymbolTable) (id : Nat) (kind : Kind) : SymbolTable :=
  { table with
    symbols :=
      table.symbols.modify id fun symbol => { symbol with kind := kind } }

/-- What the current scope belongs to. -/
def currentKind (table : SymbolTable) : ScopeKind :=
  ((table.scopes[table.current]?).map Scope.kind).getD .global

/-- The symbols of the global scope, in the order of definition. -/
def globals (table : SymbolTable) : List Symbol :=
  table.symbols.filter (fun symbol => symbol.scope == 0)

/-- The symbol that a name has in the global scope. -/
def global? (table : SymbolTable) (name : String) : Option Symbol :=
  (table.lookupGlobal name).bind table.get?

/-- What a name stands for in the global scope. -/
def kind? (table : SymbolTable) (name : String) : Option Kind :=
  (table.global? name).map Symbol.kind

/-- The schema of a name, with the name of its parent. -/
def schema? (table : SymbolTable) (name : String) :
    Option (Schema × Option String) :=
  (table.kind? name).bind Kind.schema?

/-- The type of a variable that is visible in the current scope. -/
def bindingType? (table : SymbolTable) (name : String) : Option Ty :=
  ((table.lookup name).bind table.get?).bind
    (fun symbol => symbol.kind.binding?)

/-- The place in the program of the declaration that owns a name. -/
def owner? (table : SymbolTable) (name : String) : Option Nat :=
  (table.global? name).bind Symbol.declaration

/--
The symbol of the declaration at a place of the program, if the name is its own.
-/
def owned? (table : SymbolTable) (place : Nat) (name : String) : Option Nat :=
  if table.owner? name = some place then table.lookupGlobal name else none

end SymbolTable

end SchemaMap
