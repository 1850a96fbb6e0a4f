import Mathlib.Order.Monotone.Basic
import SchemaMap.Proofs.Symbol.Operations
import SchemaMap.Registration

/-!
# Tables whose declarations stand at other places

A symbol remembers the place of its declaration in the program.  When
declarations move to other places and keep their order, nothing changes but
these places: operations on the table do the same (`adding_withPlaces`), names
stand for the same, and the names of a declaration show the same faults
(`nameFaults_withPlaces`).
-/

namespace SchemaMap

/-- The symbol with its declaration at another place. -/
def Symbol.withPlace (change : Nat → Nat) (symbol : Symbol) : Symbol :=
  { symbol with declaration := symbol.declaration.map change }

namespace SymbolTable

/-- The table with its declarations at other places. -/
def withPlaces (change : Nat → Nat) (table : SymbolTable) : SymbolTable :=
  { table with symbols := table.symbols.map (Symbol.withPlace change) }

variable (change : Nat → Nat) (table : SymbolTable)

/-! ## Operations -/

theorem enter_withPlaces (kind : ScopeKind) :
    (table.withPlaces change).enter kind =
      (table.enter kind).withPlaces change :=
  rfl

theorem exit_withPlaces :
    (table.withPlaces change).exit = table.exit.withPlaces change :=
  rfl

theorem setKind_withPlaces (id : Nat) (kind : Kind) :
    (table.withPlaces change).setKind id kind =
      (table.setKind id kind).withPlaces change := by
  simp only [setKind, withPlaces, SymbolTable.mk.injEq, and_true]
  apply List.ext_getElem?
  intro index
  simp only [List.getElem?_map, List.getElem?_modify]
  cases table.symbols[index]? with
  | none => rfl
  | some symbol => by_cases here : id = index <;> simp [here, Symbol.withPlace]

/-- A symbol without a declaration is added alike. -/
theorem adding_withPlaces {symbol : Symbol}
    (undeclared : symbol.declaration = none) :
    (table.withPlaces change).adding symbol =
      (table.adding symbol).withPlaces change := by
  simp [adding, withPlaces, Symbol.withPlace, undeclared]

/-! ## What names stand for -/

@[simp]
theorem lookupGlobal_withPlaces (name : String) :
    (table.withPlaces change).lookupGlobal name = table.lookupGlobal name :=
  rfl

/-- Under new places a symbol is found with its new place. -/
theorem global?_withPlaces (name : String) :
    (table.withPlaces change).global? name =
      (table.global? name).map (Symbol.withPlace change) := by
  simp only [global?, lookupGlobal_withPlaces]
  cases table.lookupGlobal name with
  | none => rfl
  | some id => simp [get?, withPlaces]

@[simp]
theorem kind?_withPlaces (name : String) :
    (table.withPlaces change).kind? name = table.kind? name := by
  rw [kind?, kind?, global?_withPlaces, Option.map_map]
  rfl

@[simp]
theorem schema?_withPlaces (name : String) :
    (table.withPlaces change).schema? name = table.schema? name := by
  rw [schema?, schema?, kind?_withPlaces]

@[simp]
theorem parentOf?_withPlaces (name : String) :
    (table.withPlaces change).parentOf? name = table.parentOf? name := by
  rw [parentOf?, parentOf?, schema?_withPlaces]

theorem owner?_withPlaces (name : String) :
    (table.withPlaces change).owner? name = (table.owner? name).map change := by
  rw [owner?, owner?, global?_withPlaces]
  cases table.global? name <;> rfl

theorem schemaNames_withPlaces :
    (table.withPlaces change).schemaNames = table.schemaNames := by
  have names : (table.withPlaces change).globals.map Symbol.name =
      table.globals.map Symbol.name := by
    simp only [globals, withPlaces, List.filter_map, List.map_map]
    rfl
  simp only [schemaNames, names, schema?_withPlaces]

/-! ## Faults of names -/

theorem followParents_withPlaces (start : String) (unmet chain : List String)
    (next : Option String) :
    (table.withPlaces change).followParents start unmet chain next =
      table.followParents start unmet chain next := by
  fun_induction followParents table start unmet chain next with
  | case1 => rw [followParents]
  | case2 => rw [followParents, if_pos rfl]
  | case3 unmet chain name other member ih =>
      rw [followParents, if_neg other, if_pos member, parentOf?_withPlaces, ih]
  | case4 unmet chain name other absent =>
      rw [followParents, if_neg other, if_neg absent]

theorem inheritanceCycle?_withPlaces (start : String) :
    (table.withPlaces change).inheritanceCycle? start =
      table.inheritanceCycle? start := by
  rw [inheritanceCycle?, inheritanceCycle?, schemaNames_withPlaces,
    parentOf?_withPlaces, followParents_withPlaces]

variable {change} (increasing : StrictMono change)

include increasing

/-- The earliest place moves with the others. -/
theorem earliest?_withPlaces (names : List String) :
    (table.withPlaces change).earliest? names =
      (table.earliest? names).map change := by
  have places : names.filterMap (table.withPlaces change).owner? =
      (names.filterMap table.owner?).map change := by
    rw [List.map_filterMap]
    congr 1
    funext name
    exact owner?_withPlaces change table name
  rw [earliest?, earliest?, places]
  cases least : (names.filterMap table.owner?).min? with
  | none => simpa using least
  | some place =>
      rw [List.min?_eq_some_iff] at least
      rw [Option.map_some, List.min?_eq_some_iff, List.forall_mem_map]
      exact ⟨List.mem_map_of_mem least.1,
        fun other member => increasing.monotone (least.2 other member)⟩

theorem reportedCycle?_withPlaces (start : String) :
    (table.withPlaces change).reportedCycle? start =
      table.reportedCycle? start := by
  rw [reportedCycle?, reportedCycle?, inheritanceCycle?_withPlaces]
  congr 1
  funext chain
  rw [earliest?_withPlaces table increasing, owner?_withPlaces,
    Option.isSome_map]
  congr 1
  exact decide_eq_decide.mpr (Option.map_injective increasing.injective).eq_iff

/-- The names of a declaration show the same faults at another place. -/
theorem nameFaults_withPlaces (place : Nat) (declaration : Declaration) :
    (table.withPlaces change).nameFaults (change place) declaration =
      table.nameFaults place declaration := by
  cases declaration with
  | schema declaration =>
      have owned : (table.withPlaces change).owner? declaration.name =
          some (change place) ↔
          table.owner? declaration.name = some place := by
        rw [owner?_withPlaces, ← Option.map_some]
        exact (Option.map_injective increasing.injective).eq_iff
      simp only [nameFaults, schemaFaults, schema?_withPlaces, owned,
        reportedCycle?_withPlaces table increasing]
  | _ => rfl

end SymbolTable

end SchemaMap
