import SchemaMap.Proofs.Mentions
import SchemaMap.Registration

/-!
# Tables that agree on some names

What the names of a declaration show depends on the names that it mentions and
on those of its ancestors.  A table with further names, which are no ancestors
of the others, shows the same (`SymbolTable.AgreesOn.nameFaults`).
-/

namespace SchemaMap.SymbolTable

/--
The second table gives the same for the relevant names, which are closed under
parents, and knows of others.
-/
structure AgreesOn (relevant : String → Prop) (table other : SymbolTable) :
    Prop where
  global? : ∀ name, relevant name → other.global? name = table.global? name
  parents : ∀ name parent, relevant name → table.parentOf? name = some parent →
    relevant parent
  schemaNames : ∃ foreign : List String, (∀ name ∈ foreign, ¬ relevant name) ∧
    other.schemaNames = table.schemaNames ++ foreign

namespace AgreesOn

variable {relevant : String → Prop} {table other : SymbolTable}
  (agrees : table.AgreesOn relevant other)

include agrees

theorem schema? {name : String} (isRelevant : relevant name) :
    other.schema? name = table.schema? name := by
  rw [SymbolTable.schema?, SymbolTable.schema?, kind?, kind?,
    agrees.global? name isRelevant]

theorem parentOf? {name : String} (isRelevant : relevant name) :
    other.parentOf? name = table.parentOf? name := by
  rw [SymbolTable.parentOf?, SymbolTable.parentOf?, agrees.schema? isRelevant]

theorem owner? {name : String} (isRelevant : relevant name) :
    other.owner? name = table.owner? name := by
  rw [SymbolTable.owner?, SymbolTable.owner?, agrees.global? name isRelevant]

/-- From a relevant name the same parents are followed. -/
theorem followParents {foreign : List String}
    (irrelevant : ∀ name ∈ foreign, ¬ relevant name) (start : String)
    (unmet chain : List String) (next : Option String)
    (isRelevant : ∀ name, next = some name → relevant name) :
    other.followParents start (unmet ++ foreign) chain next =
      table.followParents start unmet chain next := by
  fun_induction SymbolTable.followParents table start unmet chain next with
  | case1 => rw [SymbolTable.followParents]
  | case2 => rw [SymbolTable.followParents, if_pos rfl]
  | case3 unmet chain name apart member ih =>
      have named := isRelevant name rfl
      rw [SymbolTable.followParents, if_neg apart,
        if_pos (List.mem_append_left _ member), agrees.parentOf? named,
        List.erase_append_left foreign member]
      exact ih fun parent written => agrees.parents name parent named written
  | case4 unmet chain name apart absent =>
      have unmetToo : name ∉ unmet ++ foreign := by
        rw [List.mem_append, not_or]
        exact ⟨absent,
          fun member => irrelevant name member (isRelevant name rfl)⟩
      rw [SymbolTable.followParents, if_neg apart, if_neg unmetToo]

/-- The members of a chain of parents are relevant. -/
theorem relevant_of_followParents {start : String}
    {unmet chain found : List String} {next : Option String}
    (followed : table.followParents start unmet chain next = some found)
    (isRelevant : ∀ name, next = some name → relevant name)
    (chainRelevant : ∀ name ∈ chain, relevant name) :
    ∀ name ∈ found, relevant name := by
  fun_induction SymbolTable.followParents table start unmet chain next with
  | case1 => contradiction
  | case2 =>
      cases followed
      rw [List.forall_mem_append, List.forall_mem_singleton]
      exact ⟨chainRelevant, isRelevant _ rfl⟩
  | case3 unmet chain name apart member ih =>
      have named := isRelevant name rfl
      apply ih followed fun parent written =>
        agrees.parents name parent named written
      rw [List.forall_mem_append, List.forall_mem_singleton]
      exact ⟨chainRelevant, named⟩
  | case4 => contradiction

theorem inheritanceCycle? {start : String} (isRelevant : relevant start) :
    other.inheritanceCycle? start = table.inheritanceCycle? start := by
  rcases agrees.schemaNames with ⟨foreign, irrelevant, names⟩
  rw [SymbolTable.inheritanceCycle?, SymbolTable.inheritanceCycle?, names,
    agrees.parentOf? isRelevant]
  exact agrees.followParents irrelevant start _ _ _ fun parent written =>
    agrees.parents start parent isRelevant written

theorem reportedCycle? {start : String} (isRelevant : relevant start) :
    other.reportedCycle? start = table.reportedCycle? start := by
  rw [SymbolTable.reportedCycle?, SymbolTable.reportedCycle?,
    agrees.inheritanceCycle? isRelevant, agrees.owner? isRelevant]
  cases found : table.inheritanceCycle? start with
  | none => rfl
  | some chain =>
      have relevantChain : ∀ name ∈ chain, relevant name :=
        agrees.relevant_of_followParents found
          (fun parent written => agrees.parents start parent isRelevant written)
          (List.forall_mem_singleton.mpr isRelevant)
      have places : chain.filterMap other.owner? =
          chain.filterMap table.owner? :=
        List.filterMap_congr fun name member =>
          agrees.owner? (relevantChain name member)
      rw [Option.filter_some, Option.filter_some, earliest?, earliest?, places]

/-- The names of a declaration show the same in both tables. -/
theorem nameFaults {declaration : Declaration}
    (named : relevant declaration.name)
    (mentioned : ∀ name ∈ declaration.mentions, relevant name) (place : Nat) :
    other.nameFaults place declaration =
      table.nameFaults place declaration := by
  cases declaration with
  | schema declaration =>
      rw [SymbolTable.nameFaults, SymbolTable.nameFaults, schemaFaults,
        schemaFaults]
      cases written : declaration.parent with
      | none => rfl
      | some parent =>
          have isParent : parent.value ∈ declaration.mentions := by
            simp [SchemaDeclaration.mentions, written]
          have own : relevant declaration.name := named
          simp only [agrees.schema? (mentioned parent.value isParent),
            agrees.owner? own, agrees.reportedCycle? own]
  | _ => rfl

end AgreesOn

end SchemaMap.SymbolTable
