import SchemaMap.Symbol.Table

/-!
# Inheritance

A schema may take over the fields of a parent, which may have a parent of its
own.  A chain of parents that comes back to where it started is a cycle.  Every
member of a cycle meets it; the one declared first speaks for all.
-/

namespace SchemaMap.SymbolTable

/-- The name of the parent of a schema. -/
def parentOf? (table : SymbolTable) (name : String) : Option String :=
  (table.schema? name).bind Prod.snd

/-- The names that stand for schemas. -/
def schemaNames (table : SymbolTable) : List String :=
  (table.globals.map Symbol.name).filter
    (fun name => (table.schema? name).isSome)

/--
Follow the parents from `next` on, as long as they are among the schemas that
were not met yet.  The result is the chain when it leads back to its start.
-/
def followParents (table : SymbolTable) (start : String)
    (unmet chain : List String) (next : Option String) : Option (List String) :=
  match next with
  | none => none
  | some name =>
      if name = start then
        some (chain ++ [name])
      else if name ∈ unmet then
        followParents table start (unmet.erase name) (chain ++ [name])
          (table.parentOf? name)
      else
        none
termination_by unmet.length
decreasing_by
  have member : name ∈ unmet := by assumption
  have positive : 0 < unmet.length := List.length_pos_of_mem member
  rw [List.length_erase_of_mem member]
  omega

/-- The chain of parents from a schema back to itself. -/
def inheritanceCycle? (table : SymbolTable) (start : String) :
    Option (List String) :=
  table.followParents start table.schemaNames [start] (table.parentOf? start)

/-- The earliest place among the declarations that own the given names. -/
def earliest? (table : SymbolTable) (names : List String) : Option Nat :=
  (names.filterMap table.owner?).min?

/--
The cycle through a schema, if the schema is the one of its members that is
declared first.
-/
def reportedCycle? (table : SymbolTable) (start : String) :
    Option (List String) :=
  (table.inheritanceCycle? start).filter fun chain =>
    (table.owner? start).isSome && table.earliest? chain = table.owner? start

end SchemaMap.SymbolTable
