import SchemaMap.Proofs.Analysis.Changes
import SchemaMap.Proofs.Parts

/-!
# An analysis depends on the owners

The declarations that own their names are numbered in the order in which they
stand in the program (`entries_eq`).  What an analysis changes after the
registration depends on these declarations and on nothing else of the program
(`changes_eq_of_owners_eq`).
-/

namespace SchemaMap

namespace SymbolTable

/-- Among symbols of distinct names, a name leads to the place of its symbol. -/
theorem lookup_names_zipIdx {symbols : List Symbol}
    (distinct : (symbols.map Symbol.name).Nodup) {index : Nat} {symbol : Symbol}
    (found : symbols[index]? = some symbol) (start : Nat) :
    ((symbols.zipIdx start).map fun entry => (entry.1.name, entry.2)).lookup
      symbol.name = some (start + index) := by
  induction symbols generalizing index start with
  | nil => contradiction
  | cons first rest ih =>
      rw [List.map_cons, List.nodup_cons] at distinct
      rw [List.zipIdx_cons, List.map_cons, List.lookup_cons]
      cases index with
      | zero =>
          cases found
          simp
      | succ index =>
          rw [List.getElem?_cons_succ] at found
          have apart : symbol.name ≠ first.name := by
            intro same
            exact distinct.1
              (same ▸ List.mem_map_of_mem (List.mem_of_getElem? found))
          rw [beq_eq_false_iff_ne.mpr apart]
          simp only
          rw [ih distinct.2 found, Nat.add_assoc, Nat.add_comm 1 index]

/-- A symbol is found at its place among distinct names. -/
theorem lookupGlobal_ofGlobals {symbols : List Symbol}
    (distinct : (symbols.map Symbol.name).Nodup) {index : Nat} {symbol : Symbol}
    (found : symbols[index]? = some symbol) :
    (ofGlobals symbols).lookupGlobal symbol.name = some index := by
  have numbered := lookup_names_zipIdx distinct found 0
  rw [Nat.zero_add] at numbered
  exact numbered

end SymbolTable

namespace Program

theorem lookupGlobal_ofProgram {program : Program} {index : Nat}
    {declaration : Declaration}
    (found : program.owners[index]? = some declaration) :
    (SymbolTable.ofProgram program).lookupGlobal declaration.name =
      some index := by
  have distinct := nodup_names_owners program
  rw [← SymbolTable.names_ofProgram] at distinct
  rw [owners, List.getElem?_map] at found
  rcases Option.map_eq_some_iff.mp found with ⟨entry, listed, rfl⟩
  have registered : ((program.ownersFrom [] 0).map
      SymbolTable.registered)[index]? =
      some (SymbolTable.registered entry) := by
    rw [List.getElem?_map, listed, Option.map_some]
  exact SymbolTable.lookupGlobal_ofGlobals distinct registered

/-- The symbols of the owners are numbered in the order of the owners. -/
theorem entries_eq (program : Program) :
    Analysis.Stage.entries program = program.owners.zipIdx.map Prod.swap := by
  apply List.ext_getElem?
  intro index
  have declarations :=
    congrArg (fun list => list[index]?)
      (SymbolTable.map_snd_ownedDeclarations program)
  simp only [List.getElem?_map] at declarations
  rw [List.getElem?_map, List.getElem?_zipIdx]
  cases listed : (Analysis.Stage.entries program)[index]? with
  | none =>
      rw [listed] at declarations
      rw [← declarations]
      rfl
  | some entry =>
      rw [listed, Option.map_some] at declarations
      have numbered := lookupGlobal_ofProgram declarations.symm
      rw [SymbolTable.lookupGlobal_of_mem_ownedDeclarations
        (List.mem_of_getElem? listed)] at numbered
      cases numbered
      rw [← declarations]
      simp

/-! ## Programs with the same owners -/

section

variable {program other : Program} (same : program.owners = other.owners)

include same

theorem owner?_eq_of_owners_eq : program.owner? = other.owner? := by
  funext name
  rw [← find?_owners, ← find?_owners, same]

theorem isDimension_eq_of_owners_eq :
    program.isDimension = other.isDimension := by
  funext name
  rw [isDimension, isDimension, owner?_eq_of_owners_eq same]

theorem units_eq_of_owners_eq : program.units = other.units := by
  rw [units, units, isDimension_eq_of_owners_eq same, same]

theorem names_eq_of_owners_eq : program.names = other.names := by
  rw [names, names, owner?_eq_of_owners_eq same, units_eq_of_owners_eq same]

theorem fields_eq_of_owners_eq : program.fields = other.fields := by
  rw [fields, fields, names_eq_of_owners_eq same, same]

theorem kindOf_eq_of_owners_eq : program.kindOf = other.kindOf := by
  funext declaration
  cases declaration <;>
    simp only [kindOf, units_eq_of_owners_eq same, names_eq_of_owners_eq same,
      fields_eq_of_owners_eq same]

theorem kind?_eq_of_owners_eq : program.kind? = other.kind? := by
  funext name
  rw [kind?, kind?, owner?_eq_of_owners_eq same, kindOf_eq_of_owners_eq same]

/-- The changes of a program depend on the declarations that own their names. -/
theorem changes_eq_of_owners_eq (config : Config) :
    program.changes config = other.changes config := by
  have units : program.unitChanges = other.unitChanges := by
    funext entry
    simp only [unitChanges, units_eq_of_owners_eq same]
  have schemas : program.schemaChanges = other.schemaChanges := by
    funext entry
    simp only [schemaChanges, fields_eq_of_owners_eq same]
  have lookups : program.lookupChanges = other.lookupChanges := by
    funext entry
    simp only [lookupChanges, names_eq_of_owners_eq same]
  have transforms : program.transformChanges config =
      other.transformChanges config := by
    funext entry
    simp only [transformChanges, bodyChanges, names_eq_of_owners_eq same,
      kind?_eq_of_owners_eq same]
  have pipelines : program.pipelineChanges config =
      other.pipelineChanges config := by
    funext entry
    have faults : program.pipelineFaults config =
        other.pipelineFaults config := by
      funext declaration
      cases declaration <;>
        simp only [pipelineFaults, pipelineContext, kind?_eq_of_owners_eq same]
    simp only [pipelineChanges, faults]
  simp only [changes, entries_eq, same, units, schemas, lookups, transforms,
    pipelines, fields_eq_of_owners_eq same]

end

end Program

end SchemaMap
