import SchemaMap.Proofs.Activations.Schemas
import SchemaMap.Proofs.Activations.Units
import SchemaMap.Proofs.Cycles
import SchemaMap.Proofs.Overriding

/-!
# Evaluation on demand comes to an end

The search for a cycle of parents follows them one by one and stops at a name
that it has met.  It takes at most one turn more than there are schemas
(`SymbolTable.ascendWithin_ofProgram`).  Together with the activations of units
and schemas this bounds everything in a program that is evaluated on demand:
`evaluation_on_demand_ends`.
-/

namespace SchemaMap

/-! ## Parents -/

namespace SymbolTable

/--
How far the parents of a schema were followed: the names that were met, and the
one that comes next.
-/
structure Ascent where
  chain : List String
  next : Option String

/--
One turn of the search for the way back to a schema.  It goes on with the parent
of a name that was not met; otherwise it ends, with the chain if that leads back
to its start.
-/
def ascend (table : SymbolTable) (start : String) (ascent : Ascent) :
    Option (List String) ⊕ Ascent :=
  match ascent.next with
  | none => .inl none
  | some name =>
      if name = start then
        .inl (some (ascent.chain ++ [name]))
      else if name ∈ ascent.chain then
        .inl none
      else
        .inr { chain := ascent.chain ++ [name], next := table.parentOf? name }

/-- What the search finds in at most so many turns. -/
def ascendWithin (table : SymbolTable) (start : String) :
    Nat → Ascent → Option (Option (List String))
  | 0, _ => none
  | turns + 1, ascent =>
      match table.ascend start ascent with
      | .inl answer => some answer
      | .inr further => table.ascendWithin start turns further

section

variable {table : SymbolTable} {start name : String} {turns : Nat}
  {chain : List String}

theorem ascendWithin_none :
    table.ascendWithin start (turns + 1) ⟨chain, none⟩ = some none := rfl

/-- Coming back to the start closes the cycle. -/
theorem ascendWithin_start :
    table.ascendWithin start (turns + 1) ⟨chain, some start⟩ =
      some (some (chain ++ [start])) := by
  simp [ascendWithin, ascend]

/--
Coming back to another schema on the way shows a cycle that is not its own.
-/
theorem ascendWithin_of_mem (apart : name ≠ start) (met : name ∈ chain) :
    table.ascendWithin start (turns + 1) ⟨chain, some name⟩ = some none := by
  simp [ascendWithin, ascend, apart, met]

theorem ascendWithin_of_not_mem (apart : name ≠ start) (unmet : name ∉ chain) :
    table.ascendWithin start (turns + 1) ⟨chain, some name⟩ =
      table.ascendWithin start turns
        ⟨chain ++ [name], table.parentOf? name⟩ := by
  simp [ascendWithin, ascend, apart, unmet]

end

/--
The search by the names that were met is the search by the schemas that were
not.  Each schema other than the start takes a turn; then there may be a name
that is no schema, and one turn that finds the end.
-/
theorem ascendWithin_eq_some {table : SymbolTable} {start : String}
    {unmet chain : List String} {next : Option String}
    (unmet_iff : ∀ name, name ≠ start →
      (name ∈ unmet ↔ (table.schema? name).isSome ∧ name ∉ chain))
    (distinct : unmet.Nodup) {turns : Nat}
    (fits : (unmet.erase start).length + 2 ≤ turns) :
    table.ascendWithin start turns ⟨chain, next⟩ =
      some (table.followParents start unmet chain next) := by
  -- The induction follows the schemas that were not met, of which each turn but
  -- the last two takes one.
  fun_induction followParents table start unmet chain
    next generalizing turns with
  | case1 unmet chain =>
      obtain ⟨turns, rfl⟩ :=
        Nat.exists_eq_add_of_le' (Nat.le_of_add_left_le fits)
      exact ascendWithin_none
  | case2 unmet chain =>
      obtain ⟨turns, rfl⟩ :=
        Nat.exists_eq_add_of_le' (Nat.le_of_add_left_le fits)
      exact ascendWithin_start
  | case3 unmet chain name apart isUnmet ih =>
      have fresh := ((unmet_iff name apart).mp isUnmet).2
      have others : name ∈ unmet.erase start :=
        (List.mem_erase_of_ne apart).mpr isUnmet
      have positive := List.length_pos_of_mem others
      have shorter := List.length_erase_of_mem others
      obtain ⟨turns, rfl⟩ :=
        Nat.exists_eq_add_of_le' (Nat.le_of_add_left_le fits)
      rw [ascendWithin_of_not_mem apart fresh]
      apply ih
      · intro other different
        rw [List.Nodup.mem_erase_iff distinct, unmet_iff other different,
          List.mem_append, List.mem_singleton]
        tauto
      · exact distinct.erase name
      · rw [List.erase_comm]
        omega
  | case4 unmet chain name apart isMet =>
      obtain ⟨turns, rfl⟩ :=
        Nat.exists_eq_add_of_le' (Nat.le_of_add_left_le fits)
      by_cases met : name ∈ chain
      · exact ascendWithin_of_mem apart met
      · -- A name that is no schema has no parent, so that the search ends one
        -- turn later.
        have other : table.schema? name = none := by
          rw [unmet_iff name apart] at isMet
          simpa [met] using isMet
        rw [ascendWithin_of_not_mem apart met, parentOf?, other]
        exact ascendWithin_none

section

variable {program : Program} {name : String}

theorem isSome_schema?_ofProgram_iff :
    ((ofProgram program).schema? name).isSome ↔
      ∃ declaration, program.owner? name = some (.schema declaration) := by
  constructor
  · intro isSchema
    rcases Option.isSome_iff_exists.mp isSchema with ⟨⟨content, parent⟩, found⟩
    rcases schema?_ofProgram_eq_some_iff_owner?.mp found with
      ⟨declaration, owner, -, -⟩
    exact ⟨declaration, owner⟩
  · rintro ⟨declaration, owner⟩
    exact Option.isSome_of_eq_some
      (schema?_ofProgram_eq_some_iff_owner?.mpr ⟨declaration, owner, rfl, rfl⟩)

/-- The names of schemas are those that stand for one. -/
theorem mem_schemaNames_ofProgram_iff :
    name ∈ (ofProgram program).schemaNames ↔
      ((ofProgram program).schema? name).isSome := by
  rw [schemaNames, List.mem_filter, and_iff_right_iff_imp]
  intro isSchema
  rcases isSome_schema?_ofProgram_iff.mp isSchema with ⟨declaration, owner⟩
  rw [names_globals_ofProgram, Program.mem_names_owners_iff,
    ← Program.owner?_isSome_iff]
  exact Option.isSome_of_eq_some owner

theorem nodup_schemaNames_ofProgram (program : Program) :
    (ofProgram program).schemaNames.Nodup := by
  rw [schemaNames, names_globals_ofProgram]
  exact program.nodup_names_owners.filter _

/-- The table has no more schemas than the program declares. -/
theorem length_schemaNames_ofProgram_le (program : Program) :
    (ofProgram program).schemaNames.length ≤
      (program.owners.filterMap Declaration.schema?).length := by
  have included : (ofProgram program).schemaNames ⊆
      (program.owners.filterMap Declaration.schema?).map
      SchemaDeclaration.name := by
    intro name member
    rcases isSome_schema?_ofProgram_iff.mp
      (mem_schemaNames_ofProgram_iff.mp member) with ⟨declaration, owner⟩
    have named : declaration.name = name := Program.name_of_owner? owner
    rw [← named] at owner ⊢
    exact List.mem_map_of_mem (Program.mem_schemas_owners_iff.mpr owner)
  simpa using
    (List.subperm_of_subset (nodup_schemaNames_ofProgram program)
      included).length_le

/--
The search for a cycle of parents takes at most one turn more than there are
schemas.
-/
theorem ascendWithin_ofProgram (program : Program) (start : String)
    {turns : Nat}
    (fits : (program.owners.filterMap Declaration.schema?).length < turns) :
    (ofProgram program).ascendWithin start turns
      ⟨[start], (ofProgram program).parentOf? start⟩ =
      some ((ofProgram program).inheritanceCycle? start) := by
  rw [inheritanceCycle?]
  cases parent : (ofProgram program).parentOf? start with
  | none =>
      obtain ⟨turns, rfl⟩ := Nat.exists_eq_add_of_lt fits
      rw [ascendWithin_none, followParents]
  | some next =>
      have listed : start ∈ (ofProgram program).schemaNames :=
        mem_schemaNames_of_follows parent (mem_globals_of_follows parent)
      apply ascendWithin_eq_some
      · intro name apart
        rw [mem_schemaNames_ofProgram_iff, List.mem_singleton]
        simp [apart]
      · exact nodup_schemaNames_ofProgram program
      · have bound := length_schemaNames_ofProgram_le program
        have positive := List.length_pos_of_mem listed
        rw [List.length_erase_of_mem listed]
        omega

end

end SymbolTable

/-! ## The evaluation of a program -/

namespace Analysis

/--
However the declarations of a program refer to one another, what is evaluated on
demand comes to an end.  With one activation more than there are registered
units, or schemas, nothing is given up, and they are found as the analysis has
them.  Each registered declaration is evaluated exactly once; later every unit
expression is read off the outcomes.  The search for a cycle of parents ends
after at most one turn more than there are registered schemas.
-/
theorem evaluation_on_demand_ends (program : Program) :
    let (table, _) := SymbolTable.empty.register program
    let owned := table.ownedDeclarations program
    let isDimension := fun name => (table.kind? name).any Kind.isDimension
    let units := unitsOf owned
    let outcomes := unitTable table owned
    let journal := unitJournal table owned
    let schemas := schemasOf owned
    (∀ depth ≥ units.length + 1,
      UnitJournal.ofDeclarationsWithin isDimension units depth = some journal) ∧
      (∀ name outcome,
        journal.progress.marks.get? name = some (.settled outcome) ↔
          outcomes.lookup name = some outcome) ∧
      journal.evaluations.Nodup ∧
        journal.evaluations.Perm (units.map UnitDeclaration.name) ∧
      (∀ expression : UnitExpr,
        (expression.evaluate (UnitJournal.visitWithin isDimension units 1)).run
          journal =
          some ((expression.evaluate (m := Id) outcomes.find).run, journal)) ∧
      (∀ names, ∀ depth ≥ schemas.length + 1, ∃ progress,
        SchemaProgress.ofDeclarationsWithin names schemas depth =
          some progress ∧
          progress.fields = SchemaFields.ofDeclarations names schemas ∧
          progress.begun.Nodup ∧
          progress.begun.Perm (schemas.map SchemaDeclaration.name)) ∧
      ∀ start, ∀ turns ≥ schemas.length + 1,
        table.ascendWithin start turns ⟨[start], table.parentOf? start⟩ =
          some (table.inheritanceCycle? start) := by
  simp only [SymbolTable.register_fst]
  have distinctUnits : ((unitsOf (Stage.entries program)).map
      UnitDeclaration.name).Nodup := by
    rw [unitsOf_entries]
    exact Program.nodup_names_units_owners
  have distinctSchemas : ((schemasOf (Stage.entries program)).map
      SchemaDeclaration.name).Nodup := by
    rw [schemasOf_entries]
    exact program.nodup_names_schemas_owners
  have evaluated : (unitJournal (SymbolTable.ofProgram program)
      (Stage.entries program)).evaluations.Perm
      ((unitsOf (Stage.entries program)).map UnitDeclaration.name) :=
        UnitJournal.perm_evaluations _ distinctUnits
  refine ⟨fun depth fits => (UnitJournal.ofDeclarationsWithin_eq_some _ fits).1,
    (UnitJournal.reflects_ofDeclarations _ _).settled_iff,
    evaluated.nodup_iff.mpr distinctUnits, evaluated, ?_, ?_, ?_⟩
  · intro expression
    exact (UnitJournal.isRespected_reads _).evaluate fun name _ =>
      UnitJournal.reads_visitWithin _ distinctUnits name
  · intro names depth fits
    rcases SchemaProgress.ofDeclarationsWithin_eq_some names fits
      distinctSchemas with
      ⟨progress, visited, fields, begun⟩
    exact ⟨progress, visited, fields, begun.nodup_iff.mpr distinctSchemas,
      begun⟩
  · intro start turns fits
    rw [schemasOf_entries] at fits
    exact SymbolTable.ascendWithin_ofProgram program start fits

end Analysis

end SchemaMap
