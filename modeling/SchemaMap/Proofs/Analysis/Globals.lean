import Mathlib.Data.List.Perm.Basic
import Mathlib.Data.List.Flatten
import SchemaMap.Proofs.Analysis.Nesting
import SchemaMap.Proofs.Analysis.Owners
import SchemaMap.Proofs.Analysis.Traces
import SchemaMap.Proofs.Symbol.Stack

/-!
# The global scope of an analysis

Whatever a program declares, and whether or not anything is wrong with it, the
global scope holds the symbols of the first declarations of their names, in the
order of the program, and every other symbol is a variable of an inner scope.
This holds after the registration and each change of an analysis keeps it: a
change gives a symbol a kind of the form of its own declaration, no symbol gets
a kind twice, and variables are bound only while a scope is open.
-/

namespace SchemaMap

/-! ## First declarations -/

namespace Program

/--
The declarations whose names are not declared before them, with their places.
-/
def firsts (program : Program) : List (Nat × Declaration) :=
  (program.zipIdx.filter fun entry =>
    entry.1.name ∉ (program.take entry.2).map Declaration.name).map Prod.swap

/-- The owners are the declarations whose names do not stand before them. -/
theorem ownersFrom_eq_filter (before after : Program) :
    ownersFrom (before.map Declaration.name) before.length after =
      ((after.zipIdx before.length).filter fun entry =>
        entry.1.name ∉
          ((before ++ after).take entry.2).map Declaration.name).map
          Prod.swap := by
  induction after generalizing before with
  | nil => rfl
  | cons declaration rest ih =>
      have further := ih (before ++ [declaration])
      rw [List.length_append, List.length_singleton, List.append_assoc,
        List.singleton_append] at further
      have names : ∀ name,
          name ∈ (before ++ [declaration]).map Declaration.name ↔
          name ∈ declaration.name :: before.map Declaration.name := by
        intro name
        rw [List.map_append, List.mem_append, List.mem_cons, List.map_singleton,
          List.mem_singleton, or_comm]
      rw [ownersFrom, List.zipIdx_cons, List.filter_cons, List.take_left' rfl]
      by_cases taken : declaration.name ∈ before.map Declaration.name
      · rw [if_pos taken, if_neg (by simpa using taken), ← further]
        apply ownersFrom_congr
        intro name
        rw [names, List.mem_cons, or_iff_right_of_imp]
        rintro rfl
        exact taken
      · rw [if_neg taken, if_pos (by simpa using taken), List.map_cons,
          ← further, ownersFrom_congr names]
        rfl

/-- The first declarations are those that own their names. -/
theorem ownersFrom_eq_firsts (program : Program) :
    ownersFrom [] 0 program = program.firsts :=
  ownersFrom_eq_filter [] program

/--
A declaration that the phases go through is a first one, at the place of its
number.
-/
theorem getElem?_firsts_of_mem_entries {program : Program}
    {entry : Nat × Declaration}
    (member : entry ∈ Analysis.Stage.entries program) :
    ∃ place, program.firsts[entry.1]? = some (place, entry.2) := by
  rw [entries_eq] at member
  rcases List.mem_map.mp member with ⟨swapped, listed, rfl⟩
  have found := List.mem_zipIdx_iff_getElem?.mp listed
  rw [owners, ownersFrom_eq_firsts, List.getElem?_map] at found
  rcases Option.map_eq_some_iff.mp found with ⟨first, known, same⟩
  exact ⟨first.1, by rw [Prod.fst_swap, known, Prod.snd_swap, ← same]⟩

theorem nodup_numbers_entries (program : Program) :
    ((Analysis.Stage.entries program).map Prod.fst).Nodup := by
  have numbers : (Analysis.Stage.entries program).map Prod.fst =
      List.range' 0 program.owners.length := by
    rw [entries_eq, List.map_map]
    exact List.zipIdx_map_snd 0 program.owners
  rw [numbers]
  exact List.nodup_range'

end Program

/-! ## Symbols of declarations -/

/-- The kind has the form of the declaration. -/
inductive Kind.Matches : Kind → Declaration → Prop where
  | schema (content : Schema) (parent : Option String)
      (declaration : SchemaDeclaration) :
      Matches (.schema content parent) (.schema declaration)
  | enumeration (variants : List String) (declaration : EnumDeclaration) :
      Matches (.enumeration variants) (.enumeration declaration)
  | dimension (declaration : DimensionDeclaration) :
      Matches .dimension (.dimension declaration)
  | unit (value : Option PhysicalUnit) (declaration : UnitDeclaration) :
      Matches (.unit value) (.unit declaration)
  | lookup (keys : List Ty) (value : Ty) (declaration : LookupDeclaration) :
      Matches (.lookup keys value) (.lookup declaration)
  | transform (signature : Signature) (declaration : TransformDeclaration) :
      Matches (.transform signature) (.transform declaration)
  | pipeline (steps : List String) (declaration : PipelineDeclaration) :
      Matches (.pipeline steps) (.pipeline declaration)

theorem Kind.matches_placeholder (declaration : Declaration) :
    declaration.placeholder.Matches declaration := by
  cases declaration <;> constructor

/-- The symbol belongs to the declaration at a place of the program. -/
structure Symbol.Represents (symbol : Symbol) (entry : Nat × Declaration) :
    Prop where
  name : symbol.name = entry.2.name
  span : symbol.span = entry.2.span
  place : symbol.declaration = some entry.1
  isGlobal : symbol.scope = 0
  kind : symbol.kind.Matches entry.2

theorem Symbol.represents_registered (entry : Nat × Declaration) :
    (SymbolTable.registered entry).Represents entry where
  name := rfl
  span := rfl
  place := rfl
  isGlobal := rfl
  kind := Kind.matches_placeholder entry.2

namespace SymbolTable

/--
The symbols are those of some declarations, in their order, and then variables
of inner scopes.
-/
def Declares (table : SymbolTable) (entries : List (Nat × Declaration)) :
    Prop :=
  ∃ declared bound, table.symbols = declared ++ bound ∧
    List.Forall₂ Symbol.Represents declared entries ∧
    ∀ symbol ∈ bound, symbol.scope ≠ 0 ∧ ∃ type, symbol.kind = .binding type

/-- The table of a program declares the first declaration of each name. -/
theorem declares_ofProgram (program : Program) :
    (ofProgram program).Declares program.firsts := by
  refine ⟨program.firsts.map registered, [], ?_, ?_, List.forall_mem_nil _⟩
  · rw [ofProgram, Program.ownersFrom_eq_firsts, List.append_nil]
    rfl
  · rw [List.forall₂_map_left_iff, List.forall₂_same]
    exact fun entry _ => Symbol.represents_registered entry

/-- Symbols that represent declarations are all global. -/
theorem filter_global_of_represents {declared : List Symbol}
    {entries : List (Nat × Declaration)}
    (each : List.Forall₂ Symbol.Represents declared entries) :
    declared.filter (fun symbol => symbol.scope == 0) = declared := by
  induction each with
  | nil => rfl
  | cons first _ ih =>
      rw [List.filter_cons_of_pos (by rw [first.isGlobal]; rfl), ih]

namespace Declares

variable {table : SymbolTable} {entries : List (Nat × Declaration)}
  (declares : table.Declares entries)

include declares

/-- A new kind that suits the declaration keeps the declared symbols. -/
theorem setKind {id : Nat} {entry : Nat × Declaration}
    (known : entries[id]? = some entry) {kind : Kind}
    (suits : kind.Matches entry.2) :
    (table.setKind id kind).Declares entries := by
  rcases declares with ⟨declared, bound, split, each, inner⟩
  rcases exists_forall₂_modify each bound known
    (fun symbol => { symbol with kind := kind })
    (fun symbol before => { before with kind := suits }) with
      ⟨next, modified, related⟩
  refine ⟨next, bound, ?_, related, inner⟩
  rw [← modified, ← split]
  rfl

/-- A variable inside a scope keeps the declared symbols. -/
theorem adding (inside : table.current ≠ 0) {symbol : Symbol} {type : Ty}
    (isVariable : symbol.kind = .binding type) :
    (table.adding symbol).Declares entries := by
  rcases declares with ⟨declared, bound, split, each, inner⟩
  refine ⟨declared, bound ++ [{ symbol with scope := table.current }], ?_, each,
    ?_⟩
  · rw [← List.append_assoc, ← split]
    rfl
  · exact List.forall_mem_append.mpr
      ⟨inner, List.forall_mem_singleton.mpr ⟨inside, type, isVariable⟩⟩

/-- The global scope holds the symbols of the declarations. -/
theorem globals : List.Forall₂ Symbol.Represents table.globals entries := by
  rcases declares with ⟨declared, bound, split, each, inner⟩
  have none : bound.filter (fun symbol => symbol.scope == 0) = [] := by
    rw [List.filter_eq_nil_iff]
    exact fun symbol member => by simpa using (inner symbol member).1
  rw [SymbolTable.globals, split, List.filter_append,
    filter_global_of_represents each, none, List.append_nil]
  exact each

/-- Every other symbol is a variable. -/
theorem binding_of_not_mem_globals {symbol : Symbol}
    (member : symbol ∈ table.symbols) (inner : symbol ∉ table.globals) :
    symbol.scope ≠ 0 ∧ ∃ type, symbol.kind = .binding type := by
  rcases declares with ⟨declared, bound, split, each, outside⟩
  rw [SymbolTable.globals, split, List.filter_append,
    filter_global_of_represents each, List.mem_append, not_or] at inner
  rw [split, List.mem_append] at member
  exact outside symbol (member.resolve_left inner.1)

end Declares

end SymbolTable

/-! ## Kinds that are replaced -/

namespace Change

/--
The number of the symbol whose kind is replaced, with the kind that it gets.
-/
def replacement? : Change → Option (Nat × Kind)
  | .noteUnit id _ unit => some (id, .unit (some unit))
  | .setKind id kind => some (id, kind)
  | _ => none

/-- A kind that is given has the form of the declaration of its symbol. -/
def Suits (entries : List (Nat × Declaration)) (change : Change) : Prop :=
  ∀ id kind, change.replacement? = some (id, kind) →
    ∃ entry, entries[id]? = some entry ∧ kind.Matches entry.2

theorem filterMap_replacement?_trace (trace : List Event) :
    (trace.map Event.change).filterMap replacement? = [] := by
  rw [List.filterMap_eq_nil_iff, List.forall_mem_map]
  intro event _
  cases event <;> rfl

theorem filterMap_replacement?_report (faults : List Fault) :
    (faults.map Change.report).filterMap replacement? = [] := by
  rw [List.filterMap_eq_nil_iff, List.forall_mem_map]
  exact fun _ _ => rfl

end Change

namespace Program

open Change

theorem filterMap_replacement?_ruleChanges (context : Context) (target : Ty)
    (assigned : List String) (rules : List Rule) :
    (context.ruleChanges target assigned rules).filterMap replacement? =
      [] := by
  induction rules generalizing assigned with
  | nil => rfl
  | cons rule rest ih =>
      rw [Context.ruleChanges, List.filterMap_append, List.filterMap_append,
        List.filterMap_append, ih, filterMap_replacement?_trace,
        filterMap_replacement?_report]
      split <;> rfl

variable (config : Config) (program : Program)

theorem filterMap_replacement?_bodyChanges (declaration : TransformDeclaration)
    (signature : Signature) :
    (program.bodyChanges config declaration signature).filterMap replacement? =
      [] := by
  have sources (named : List (SourceDeclaration × Ty)) : (sourceChanges
      named).filterMap replacement? = [] := by
    rw [sourceChanges, List.filterMap_eq_nil_iff, List.forall_mem_map]
    exact fun _ _ => rfl
  rw [bodyChanges, List.cons_append, List.cons_append,
    List.filterMap_cons_none rfl, List.filterMap_append, List.filterMap_append,
    sources, filterMap_replacement?_ruleChanges]
  rfl

/-- The kinds that the phases give to the symbol of a declaration. -/
def replacements (entry : Nat × Declaration) : List (Nat × Kind) :=
  (program.unitChanges entry ++ enumChanges entry ++
    program.schemaChanges entry ++ program.lookupChanges entry ++
    program.transformChanges config entry).filterMap replacement?

/--
The symbol of a declaration gets at most one kind, which has the form of the
declaration.
-/
theorem replacements_eq (entry : Nat × Declaration) :
    program.replacements config entry = [] ∨
      ∃ kind : Kind, kind.Matches entry.2 ∧
        program.replacements config entry = [(entry.1, kind)] := by
  rcases entry with ⟨id, declaration⟩
  cases declaration with
  | schema declaration =>
      simp only [replacements, unitChanges, enumChanges, schemaChanges,
        lookupChanges, transformChanges]
      cases program.fields.completed.lookup declaration.name with
      | none => exact .inl rfl
      | some content => exact .inr ⟨_, .schema _ _ declaration, rfl⟩
  | enumeration declaration => exact .inr ⟨_, .enumeration _ declaration, rfl⟩
  | dimension declaration => exact .inl rfl
  | unit declaration =>
      simp only [replacements, unitChanges, enumChanges, schemaChanges,
        lookupChanges, transformChanges]
      cases program.units.find declaration.name with
      | error fault => exact .inl rfl
      | ok unit => exact .inr ⟨_, .unit _ declaration, rfl⟩
  | lookup declaration =>
      simp only [replacements, unitChanges, enumChanges, schemaChanges,
        lookupChanges, transformChanges]
      cases program.names.lookup declaration with
      | error fault => exact .inl rfl
      | ok found => exact .inr ⟨_, .lookup _ _ declaration, rfl⟩
  | transform declaration =>
      simp only [replacements, unitChanges, enumChanges, schemaChanges,
        lookupChanges, transformChanges]
      cases program.names.signature declaration with
      | error fault => exact .inl rfl
      | ok signature =>
          refine .inr ⟨_, .transform signature declaration, ?_⟩
          simp [replacement?, filterMap_replacement?_bodyChanges]
  | pipeline declaration => exact .inl rfl

/-- All kinds that symbols get, declaration by declaration. -/
theorem perm_replacements :
    ((program.changes config).filterMap replacement?).Perm
      ((Analysis.Stage.entries program).flatMap
        (program.replacements config)) := by
  have dimensions (names : List String) : (names.map
      Change.noteDimension).filterMap replacement? = [] := by
    rw [List.filterMap_eq_nil_iff, List.forall_mem_map]
    exact fun _ _ => rfl
  have pipelines (entries : List (Nat × Declaration)) :
      (entries.flatMap (program.pipelineChanges config)).filterMap
        replacement? = [] := by
    rw [List.filterMap_flatMap, List.flatMap_eq_nil_iff]
    exact fun _ _ => filterMap_replacement?_report _
  simp only [changes, List.filterMap_append, dimensions,
    filterMap_replacement?_report, pipelines, List.filterMap_flatMap,
    List.nil_append, List.append_nil]
  refine ((((List.flatMap_append_perm _ _ _).append_right _).trans
    (List.flatMap_append_perm _ _ _)).append_right _
    |>.trans (List.flatMap_append_perm _ _ _)).append_right _
    |>.trans ((List.flatMap_append_perm _ _ _).trans ?_)
  refine List.Perm.flatMap_left _ fun entry _ => ?_
  rw [replacements, List.filterMap_append, List.filterMap_append,
    List.filterMap_append, List.filterMap_append]

/-- No symbol gets a kind twice. -/
theorem nodup_replacements :
    (((program.changes config).filterMap replacement?).map Prod.fst).Nodup := by
  rw [((program.perm_replacements config).map Prod.fst).nodup_iff,
    List.map_flatMap]
  refine (nodup_numbers_entries program).sublist ?_
  rw [List.map_eq_flatMap]
  refine List.Sublist.flatMap_right _ fun entry _ => ?_
  rcases program.replacements_eq config entry with none | ⟨kind, -, one⟩
  · rw [none]
    exact List.nil_sublist _
  · rw [one]
    exact .refl _

/-- A symbol gets a kind of the form of its declaration. -/
theorem suits_changes :
    ∀ change ∈ program.changes config, change.Suits program.firsts := by
  intro change member id kind replaced
  have listed : (id, kind) ∈ (program.changes config).filterMap replacement? :=
    List.mem_filterMap.mpr ⟨change, member, replaced⟩
  rw [(program.perm_replacements config).mem_iff, List.mem_flatMap] at listed
  rcases listed with ⟨entry, declared, found⟩
  rcases getElem?_firsts_of_mem_entries declared with ⟨place, known⟩
  rcases program.replacements_eq config entry with none | ⟨given, suits, one⟩
  · rw [none] at found
    contradiction
  · rw [one, List.mem_singleton] at found
    cases found
    exact ⟨(place, entry.2), known, suits⟩

end Program

/-! ## Changes of the table -/

namespace SymbolTable

/--
The table is well formed, has as many scopes open in the global one as told, and
declares the entries.
-/
structure Holds (entries : List (Nat × Declaration)) (depth : Nat)
    (table : SymbolTable) : Prop where
  wellFormed : table.WellFormed
  depth : (table.chain table.current).length = depth + 1
  declares : table.Declares entries

namespace Holds

variable {entries : List (Nat × Declaration)} {depth : Nat}
  {table : SymbolTable} (holds : table.Holds entries depth)

include holds

/-- An open scope has a parent, with one scope less open. -/
theorem exists_parent (inside : depth ≠ 0) :
    ∃ parent, table.parent? table.current = some parent ∧
      (table.chain parent).length = depth := by
  have length := holds.depth
  cases found : table.parent? table.current with
  | none =>
      rw [chain_of_parent?_eq_none found, List.length_singleton] at length
      omega
  | some parent =>
      rw [holds.wellFormed.chain_of_parent?_eq_some found,
        List.length_cons] at length
      exact ⟨parent, rfl, by omega⟩

/-- Inside a scope the global one is not current. -/
theorem current_ne_zero (inside : depth ≠ 0) : table.current ≠ 0 := by
  rcases holds.exists_parent inside with ⟨parent, found, -⟩
  have before := holds.wellFormed.parents _ _ found
  omega

/-- Outside of all scopes the global one is current. -/
theorem current_eq_zero (closed : depth = 0) : table.current = 0 := by
  have length := holds.depth
  cases found : table.parent? table.current with
  | none => exact holds.wellFormed.root _ holds.wellFormed.current found
  | some parent =>
      rw [holds.wellFormed.chain_of_parent?_eq_some found, chain_eq_cons,
        List.length_cons, List.length_cons] at length
      omega

theorem enter (kind : ScopeKind) :
    (table.enter kind).Holds entries (depth + 1) where
  wellFormed := holds.wellFormed.enter kind
  depth := by rw [holds.wellFormed.chain_enter, List.length_cons, holds.depth]
  declares := holds.declares

theorem exit (inside : depth ≠ 0) : table.exit.Holds entries (depth - 1) where
  wellFormed := holds.wellFormed.exit
  depth := by
    rcases holds.exists_parent inside with ⟨parent, found, length⟩
    have outer : table.exit.current = parent := by
      show (table.parent? table.current).getD table.current = parent
      rw [found, Option.getD_some]
    have same : table.exit.chain parent = table.chain parent :=
      chain_congr fun _ _ => rfl
    rw [outer, same]
    omega
  declares := holds.declares

theorem adding (inside : depth ≠ 0) {symbol : Symbol}
    (free : table.lookupLocal symbol.name = none) {type : Ty}
    (isVariable : symbol.kind = .binding type) :
    (table.adding symbol).Holds entries depth where
  wellFormed := holds.wellFormed.adding free
  depth := by
    have same : (table.adding symbol).chain table.current =
        table.chain table.current :=
      chain_congr fun scope _ => parent?_adding table symbol scope
    exact (congrArg List.length same).trans holds.depth
  declares := holds.declares.adding (holds.current_ne_zero inside) isVariable

theorem setKind {id : Nat} {entry : Nat × Declaration}
    (known : entries[id]? = some entry) {kind : Kind}
    (suits : kind.Matches entry.2) :
    (table.setKind id kind).Holds entries depth where
  wellFormed := holds.wellFormed.setKind id kind
  depth := by
    have same : (table.setKind id kind).chain table.current =
        table.chain table.current :=
      chain_congr fun _ _ => rfl
    exact (congrArg List.length same).trans holds.depth
  declares := holds.declares.setKind known suits

end Holds

end SymbolTable

namespace Analysis

open SymbolTable

variable {entries : List (Nat × Declaration)} {depth next : Nat}
  {analysis : Analysis}

/-- A change keeps the declared symbols and opens or closes scopes as told. -/
theorem holds_change (holds : analysis.table.Holds entries depth)
    {change : Change} (nested : change.depth? depth = some next)
    (suits : change.Suits entries) :
    (analysis.change change).table.Holds entries next := by
  cases change with
  | enter kind =>
      cases nested
      exact holds.enter kind
  | exit =>
      rcases Option.ite_none_left_eq_some.mp nested with ⟨inside, closed⟩
      cases closed
      exact holds.exit inside
  | bindVariable name type span =>
      rcases Option.ite_none_left_eq_some.mp nested with ⟨inside, same⟩
      cases same
      cases found : analysis.table.lookupLocal name with
      | some id =>
          rw [Analysis.change, bindVariable_of_bound found]
          exact holds
      | none =>
          rw [Analysis.change, bindVariable_of_free found]
          exact holds.adding inside found rfl
  | noteUnit id name unit =>
      cases nested
      rcases suits id _ rfl with ⟨entry, known, matched⟩
      exact holds.setKind known matched
  | setKind id kind =>
      cases nested
      rcases suits id _ rfl with ⟨entry, known, matched⟩
      exact holds.setKind known matched
  | noteDimension name =>
      cases nested
      exact holds
  | noteType span type =>
      cases nested
      exact holds
  | report fault =>
      cases nested
      exact holds

/-- Changes that nest and suit keep the table in order. -/
theorem holds_changed (holds : analysis.table.Holds entries depth)
    {changes : List Change}
    (nested : changes.foldlM Change.depth? depth = some next)
    (suits : ∀ change ∈ changes, change.Suits entries) :
    (analysis.changed changes).table.Holds entries next := by
  induction changes generalizing analysis depth with
  | nil =>
      cases nested
      exact holds
  | cons change rest ih =>
      rw [List.forall_mem_cons] at suits
      rcases Option.bind_eq_some_iff.mp nested with ⟨between, first, later⟩
      exact ih (holds_change holds first suits.1) later suits.2

theorem holds_registered (program : Program) :
    (registered program).table.Holds program.firsts 0 := by
  show (ofProgram program).Holds program.firsts 0
  refine ⟨?_, ?_, declares_ofProgram program⟩
  · rw [← register_fst]
    exact (reachable_empty.registerFrom 0 program).wellFormed
  · rw [chain_of_parent?_eq_none rfl]
    rfl

/-- A symbol that is there stays as it is unless the change gives it a kind. -/
theorem get?_change_of_replacement?_ne {change : Change} {id : Nat}
    (other : change.replacement?.map Prod.fst ≠ some id) {symbol : Symbol}
    (found : analysis.table.get? id = some symbol) :
    (analysis.change change).table.get? id = some symbol := by
  have kept {number : Nat} (kind : Kind) (apart : some number ≠ some id) :
      (analysis.table.setKind number kind).get? id = some symbol := by
    rw [get?_setKind, found, Option.map_some,
      if_neg fun same => apart (congrArg some same)]
  cases change with
  | noteUnit number name unit => exact kept _ other
  | setKind number kind => exact kept kind other
  | bindVariable name type span =>
      cases bound : analysis.table.lookupLocal name with
      | some number =>
          rw [Analysis.change, bindVariable_of_bound bound]
          exact found
      | none =>
          rw [Analysis.change, bindVariable_of_free bound, get?_adding,
            if_neg (Nat.ne_of_lt (lt_length_of_get? found))]
          exact found
  | _ => exact found

/--
Each phase leaves the declared symbols in a table whose scopes are closed.
-/
theorem holds_of_mem_phases {config : Config} {program : Program}
    {after : Analysis} (member : after ∈ phases config program) :
    after.table.Holds program.firsts 0 := by
  rw [phases_eq_scanl] at member
  rcases exists_of_mem_scanl_changed member with ⟨done, rest, split, rfl⟩
  have included : ∀ changes ∈ done, changes ∈ program.phaseChanges config := by
    intro changes listed
    rw [split]
    exact List.mem_append_left rest listed
  have closed : Change.Level 0 done.flatten :=
    .flatten fun changes listed =>
      program.level_phaseChanges config changes (included changes listed)
  refine holds_changed (holds_registered program) (closed 0 (Nat.le_refl 0)) ?_
  intro change listed
  rcases List.mem_flatten.mp listed with ⟨changes, phase, found⟩
  refine program.suits_changes config change ?_
  rw [← Program.flatten_phaseChanges]
  exact List.mem_flatten.mpr ⟨changes, included changes phase, found⟩

/--
After each phase, and so after the whole run, the global scope is open and holds
the symbols of the first declarations, in their order; every other symbol is a
variable of an inner scope.  A phase makes its changes to what the phase before
has left.  On the way the global scope always holds the symbols of these
declarations, and in the changes of all phases together each of them is given a
kind at most once.
-/
theorem globals_analyze (config : Config) (program : Program) :
    (analyze config program).table.current = 0 ∧
    List.Forall₂ Symbol.Represents (analyze config program).table.globals
      program.firsts ∧
    (∀ symbol ∈ (analyze config program).table.symbols,
      symbol ∉ (analyze config program).table.globals →
      symbol.scope ≠ 0 ∧ ∃ type, symbol.kind = .binding type) ∧
    analyze config program =
      (registered program).changed (program.changes config) ∧
    (∀ done rest, program.changes config = done ++ rest →
      List.Forall₂ Symbol.Represents
        ((registered program).changed done).table.globals program.firsts) ∧
    (((program.changes config).filterMap Change.replacement?).map
      Prod.fst).Nodup ∧
    (∀ (before : Analysis) (change : Change) (id : Nat) (symbol : Symbol),
      before.table.get? id = some symbol →
      change.replacement?.map Prod.fst ≠ some id →
      (before.change change).table.get? id = some symbol) ∧
    (phases config program).getLast? = some (analyze config program) ∧
    phases config program =
      (program.phaseChanges config).scanl changed (registered program) ∧
    (program.phaseChanges config).flatten = program.changes config ∧
    ∀ after ∈ phases config program,
      after.table.current = 0 ∧
      List.Forall₂ Symbol.Represents after.table.globals program.firsts ∧
      ∀ symbol ∈ after.table.symbols, symbol ∉ after.table.globals →
        symbol.scope ≠ 0 ∧ ∃ type, symbol.kind = .binding type := by
  have closed := program.level_changes config 0 (Nat.le_refl 0)
  have suits := program.suits_changes config
  have final :=
    holds_of_mem_phases (List.mem_of_getLast? (getLast?_phases config program))
  refine ⟨final.current_eq_zero rfl, final.declares.globals,
    fun symbol member => final.declares.binding_of_not_mem_globals member,
    analyze_eq_changed config program, ?_, program.nodup_replacements config,
    ?_, getLast?_phases config program, phases_eq_scanl config program,
    program.flatten_phaseChanges config, ?_⟩
  · intro done rest split
    rw [split, List.foldlM_append] at closed
    rcases Option.bind_eq_some_iff.mp closed with ⟨depth, reached, -⟩
    refine (holds_changed (holds_registered program) reached
      ?_).declares.globals
    intro change member
    exact suits change (by rw [split]; exact List.mem_append_left rest member)
  · intro before change id symbol found other
    exact get?_change_of_replacement?_ne other found
  · intro after member
    have holds := holds_of_mem_phases member
    exact ⟨holds.current_eq_zero rfl, holds.declares.globals,
      fun symbol listed => holds.declares.binding_of_not_mem_globals listed⟩

end Analysis

end SchemaMap
