import Mathlib.Data.Nat.Find
import SchemaMap.Proofs.Registration
import SchemaMap.Proofs.SchemaFields

/-!
# Faults of names

Registration finds nothing wrong exactly when the declared names are distinct,
fields and variants are, parents are declared schemas, and no schema is its own
ancestor (`register_snd_eq_nil_iff`).

Only one member of a cycle of parents reports it.  The argument that some member
does goes through the cyclic schema that is declared first: the chain of parents
from it leads back to it, and nothing on the chain is declared earlier.
-/

namespace SchemaMap

/-- The declarations of a program, without their order. -/
def Program.declared (program : Program) : Set Declaration :=
  { declaration | declaration ∈ program }

/--
The names within the declarations are distinct, and parents are declared schemas
that lead nowhere back.
-/
structure WellNamed (declared : Set Declaration) : Prop where
  fields : ∀ declaration, .schema declaration ∈ declared →
    (declaration.fields.map FieldDeclaration.name).Nodup
  variants : ∀ declaration, .enumeration declaration ∈ declared →
    (declaration.variants.map Located.value).Nodup
  parents : ∀ declaration parent, .schema declaration ∈ declared →
    declaration.parent = some parent →
    ∃ other, .schema other ∈ declared ∧ other.name = parent.value
  acyclic : ∀ name,
    ¬ Relation.TransGen
      (Inherits fun declaration => .schema declaration ∈ declared) name name

namespace SymbolTable

variable {table : SymbolTable} {start : String}

/-- The second name is that of the parent of the first. -/
def Follows (table : SymbolTable) (child parent : String) : Prop :=
  table.parentOf? child = some parent

/-! ## Following parents -/

/-- Every name on a chain that leads back to its start lies on a cycle. -/
theorem transGen_of_followParents {unmet chain result : List String}
    {next : Option String}
    (found : table.followParents start unmet chain next = some result)
    (reached : ∀ name ∈ chain, Relation.ReflTransGen table.Follows start name)
    (leads : ∀ name ∈ chain,
      ∀ last, next = some last → Relation.TransGen table.Follows name last)
    (started : start ∈ chain) :
    start ∈ result ∧
      ∀ name ∈ result, Relation.TransGen table.Follows name name := by
  fun_induction followParents table start unmet chain next with
  | case1 => contradiction
  | case2 unmet chain =>
      cases found
      refine ⟨List.mem_append_left _ started, fun name member => ?_⟩
      have cycle := leads start started start rfl
      rcases List.mem_append.mp member with onChain | atEnd
      · exact (leads name onChain start rfl).trans_left (reached name onChain)
      · rw [List.mem_singleton.mp atEnd]
        exact cycle
  | case3 unmet chain name apart isUnmet ih =>
      refine ih found ?_ ?_ (List.mem_append_left _ started)
      · intro other member
        rcases List.mem_append.mp member with onChain | atEnd
        · exact reached other onChain
        · rw [List.mem_singleton.mp atEnd]
          exact (leads start started name rfl).to_reflTransGen
      · intro other member last parent
        rcases List.mem_append.mp member with onChain | atEnd
        · exact (leads other onChain name rfl).tail parent
        · rw [List.mem_singleton.mp atEnd]
          exact .single parent
  | case4 => contradiction

/-- The names on the way from a name to a goal, each once. -/
inductive Route (table : SymbolTable) (goal : String) :
    String → List String → Prop where
  | arrived : Route table goal goal []
  | step {name next : String} {names : List String} (apart : name ≠ goal)
      (parent : table.Follows name next) (rest : Route table goal next names)
      (fresh : name ∉ names) : Route table goal name (name :: names)

namespace Route

/-- A route goes on from every name on it. -/
theorem from_member {goal first name : String} {names : List String}
    (route : table.Route goal first names) (member : name ∈ names) :
    ∃ suffix, table.Route goal name suffix := by
  induction route with
  | arrived => contradiction
  | step apart parent rest fresh ih =>
      rcases List.mem_cons.mp member with rfl | later
      · exact ⟨_, .step apart parent rest fresh⟩
      · exact ih later

/-- Where parents lead from one schema to another there is a route. -/
theorem exists_of_reflTransGen {goal name : String}
    (leads : Relation.ReflTransGen table.Follows name goal) :
    ∃ names, table.Route goal name names := by
  induction leads using Relation.ReflTransGen.head_induction_on with
  | refl => exact ⟨[], .arrived⟩
  | @head name next parent _ ih =>
      rcases ih with ⟨names, route⟩
      by_cases same : name = goal
      · subst same
        exact ⟨[], .arrived⟩
      · by_cases member : name ∈ names
        · exact route.from_member member
        · exact ⟨_, .step same parent route member⟩

/-- Every name on a route has a parent. -/
theorem exists_parent {goal first name : String} {names : List String}
    (route : table.Route goal first names) (member : name ∈ names) :
    ∃ next, table.Follows name next := by
  induction route with
  | arrived => contradiction
  | step apart parent rest fresh ih =>
      rcases List.mem_cons.mp member with rfl | later
      · exact ⟨_, parent⟩
      · exact ih later

/-- A route through names that were not met is followed to its end. -/
theorem followParents_eq_some {name : String} {names : List String}
    (route : table.Route start name names) (unmet chain : List String)
    (included : ∀ name ∈ names, name ∈ unmet) :
    table.followParents start unmet chain (some name) =
      some (chain ++ names ++ [start]) := by
  induction route generalizing unmet chain with
  | arrived => simp [followParents]
  | @step name next names apart parent rest fresh ih =>
      have isUnmet := included name List.mem_cons_self
      rw [followParents, if_neg apart, if_pos isUnmet,
        show table.parentOf? name = some next from parent,
        List.append_cons chain name names]
      apply ih
      intro other member
      have different : other ≠ name := fun same => fresh (same ▸ member)
      exact (List.mem_erase_of_ne different).mpr
        (included other (List.mem_cons_of_mem _ member))

end Route

theorem mem_schemaNames_of_follows {name parent : String}
    (follows : table.Follows name parent)
    (listed : name ∈ table.globals.map Symbol.name) :
    name ∈ table.schemaNames := by
  rw [schemaNames, List.mem_filter]
  refine ⟨listed, ?_⟩
  cases schema : table.schema? name with
  | none => simp [Follows, parentOf?, schema] at follows
  | some found => rfl

/-- A schema that is its own ancestor has a cycle. -/
theorem inheritanceCycle?_isSome
    (listed : ∀ name parent, table.Follows name parent →
      name ∈ table.globals.map Symbol.name)
    (cyclic : Relation.TransGen table.Follows start start) :
    (table.inheritanceCycle? start).isSome := by
  rcases Relation.TransGen.head'_iff.mp cyclic with ⟨next, parent, leads⟩
  rcases Route.exists_of_reflTransGen leads with ⟨names, route⟩
  rw [inheritanceCycle?, show table.parentOf? start = some next from parent]
  apply Option.isSome_of_eq_some
  apply route.followParents_eq_some
  intro name member
  rcases route.exists_parent member with ⟨further, follows⟩
  exact mem_schemaNames_of_follows follows (listed name further follows)

/--
What is on the chain of a cycle is cyclic, and the chain begins with the schema
itself.
-/
theorem inheritanceCycle?_eq_some {chain : List String}
    (found : table.inheritanceCycle? start = some chain) :
    start ∈ chain ∧
      ∀ name ∈ chain, Relation.TransGen table.Follows name name := by
  apply transGen_of_followParents found
  · intro name member
    rw [List.mem_singleton.mp member]
  · intro name member last parent
    rw [List.mem_singleton.mp member]
    exact .single parent
  · exact List.mem_singleton_self start

/-! ## Schemas of a program -/

section

variable {program : Program} {name : String}

/-- A name stands for the schema that owns it. -/
theorem schema?_ofProgram_eq_some_iff_owner? {content : Schema}
    {parent : Option String} :
    (ofProgram program).schema? name = some (content, parent) ↔
      ∃ declaration, program.owner? name = some (.schema declaration) ∧
        content =
          { name := declaration.name, parameters := declaration.parameters } ∧
        parent = declaration.parent.map Located.value := by
  rw [schema?, kind?_ofProgram]
  constructor
  · intro found
    rcases Option.bind_eq_some_iff.mp found with ⟨kind, stands, view⟩
    rcases Option.map_eq_some_iff.mp stands with ⟨declaration, owner, rfl⟩
    cases declaration with
    | schema declaration =>
        cases view
        exact ⟨declaration, owner, rfl, rfl⟩
    | _ => contradiction
  · rintro ⟨declaration, owner, rfl, rfl⟩
    rw [owner]
    rfl

/-- The parent of a name is the one that its owner writes. -/
theorem follows_ofProgram_iff_owner? {parent : String} :
    (ofProgram program).Follows name parent ↔
      ∃ declaration located, program.owner? name = some (.schema declaration) ∧
        declaration.parent = some located ∧ located.value = parent := by
  constructor
  · intro follows
    rcases Option.bind_eq_some_iff.mp follows with
      ⟨⟨content, written⟩, found, view⟩
    rcases schema?_ofProgram_eq_some_iff_owner?.mp found with
      ⟨declaration, owner, -, rfl⟩
    rcases Option.map_eq_some_iff.mp view with ⟨located, parent, value⟩
    exact ⟨declaration, located, owner, parent, value⟩
  · rintro ⟨declaration, located, owner, written, rfl⟩
    have found :=
      schema?_ofProgram_eq_some_iff_owner?.mpr ⟨declaration, owner, rfl, rfl⟩
    simp [Follows, parentOf?, found, written]

end

/-! ## Programs with distinct names -/

theorem exists_place {program : Program} {declaration : Declaration}
    (member : declaration ∈ program) :
    ∃ place, (declaration, place) ∈ program.zipIdx := by
  rw [← List.zipIdx_map_fst 0 program] at member
  rcases List.mem_map.mp member with ⟨⟨found, place⟩, entry, rfl⟩
  exact ⟨place, entry⟩

/--
The declaration at a place of the program is a schema that is its own ancestor.
-/
def CyclicAt (program : Program) (place : Nat) : Prop :=
  ∃ declaration, (Declaration.schema declaration, place) ∈ program.zipIdx ∧
    declaration.parent.isSome ∧
    Relation.TransGen (ofProgram program).Follows declaration.name
      declaration.name

section

variable {program : Program} (distinct : (program.map Declaration.name).Nodup)

include distinct

theorem owner?_eq_some_schema_iff {name : String}
    {declaration : SchemaDeclaration} :
    program.owner? name = some (.schema declaration) ↔
      .schema declaration ∈ program.declared ∧ declaration.name = name :=
  find?_key_eq_some_iff distinct

theorem schema?_ofProgram_eq_some_iff {name : String} {content : Schema}
    {parent : Option String} :
    (ofProgram program).schema? name = some (content, parent) ↔
      ∃ declaration, .schema declaration ∈ program.declared ∧
        declaration.name = name ∧
        content =
          { name := declaration.name, parameters := declaration.parameters } ∧
        parent = declaration.parent.map Located.value := by
  simp only [schema?_ofProgram_eq_some_iff_owner?,
    owner?_eq_some_schema_iff distinct, and_assoc]

/-- Parents in the table of a program are those of the declared schemas. -/
theorem follows_ofProgram_iff {child parent : String} :
    (ofProgram program).Follows child parent ↔
      Inherits (fun declaration => .schema declaration ∈ program.declared) child
        parent := by
  simp only [follows_ofProgram_iff_owner?, owner?_eq_some_schema_iff distinct,
    and_assoc, Inherits]

theorem follows_ofProgram_eq :
    (ofProgram program).Follows =
      Inherits fun declaration => .schema declaration ∈ program.declared := by
  ext child parent
  exact follows_ofProgram_iff distinct

/-- The place of a declaration is that of the owner of its name. -/
theorem owner?_of_mem_zipIdx {declaration : Declaration} {place : Nat}
    (member : (declaration, place) ∈ program.zipIdx) :
    (ofProgram program).owner? declaration.name = some place := by
  have entry : (place, declaration) ∈ program.ownersFrom [] 0 := by
    rw [Program.ownersFrom_eq_of_nodup 0 distinct (by simp)]
    exact List.mem_map_of_mem member
  exact owner?_ofProgram entry

theorem mem_globals_ofProgram {declaration : Declaration}
    (member : declaration ∈ program) :
    declaration.name ∈ (ofProgram program).globals.map Symbol.name := by
  rcases exists_place member with ⟨place, entry⟩
  apply List.mem_map.mpr
  refine ⟨registered (place, declaration), ?_, rfl⟩
  rw [globals, List.mem_filter]
  refine ⟨?_, rfl⟩
  show registered (place, declaration) ∈
      (program.ownersFrom [] 0).map registered
  apply List.mem_map_of_mem
  rw [Program.ownersFrom_eq_of_nodup 0 distinct (by simp)]
  exact List.mem_map_of_mem entry

/-- A cycle of parents passes through the declaration of every name on it. -/
theorem exists_cyclicAt {name : String}
    (cyclic : Relation.TransGen (ofProgram program).Follows name name) :
    ∃ place, (ofProgram program).owner? name = some place ∧
      CyclicAt program place := by
  rcases Relation.TransGen.head'_iff.mp cyclic with ⟨parent, follows, -⟩
  rcases (follows_ofProgram_iff distinct).mp follows with
    ⟨declaration, located, member, rfl, written, -⟩
  rcases exists_place member with ⟨place, entry⟩
  exact ⟨place, owner?_of_mem_zipIdx distinct entry, declaration, entry,
    by simp [written], cyclic⟩

/--
Where some schema is its own ancestor, the first of these in the program has a
cycle to report.
-/
theorem exists_reportedCycle? {name : String}
    (cyclic : Relation.TransGen (ofProgram program).Follows name name) :
    ∃ declaration, .schema declaration ∈ program.declared ∧
      declaration.parent.isSome ∧
      ((ofProgram program).reportedCycle? declaration.name).isSome := by
  classical
  have some : ∃ place, CyclicAt program place := by
    rcases exists_cyclicAt distinct cyclic with ⟨place, -, found⟩
    exact ⟨place, found⟩
  rcases Nat.find_spec some with ⟨declaration, entry, child, cyclic⟩
  have owner := owner?_of_mem_zipIdx distinct entry
  have listed : ∀ name parent, (ofProgram program).Follows name parent →
      name ∈ (ofProgram program).globals.map Symbol.name := by
    intro name parent follows
    rcases (follows_ofProgram_iff distinct).mp follows with
      ⟨other, -, member, rfl, -, -⟩
    exact mem_globals_ofProgram distinct member
  rcases Option.isSome_iff_exists.mp
    (inheritanceCycle?_isSome listed cyclic) with ⟨chain, found⟩
  rcases inheritanceCycle?_eq_some found with ⟨starts, allCyclic⟩
  have earliest : (ofProgram program).earliest? chain =
      (ofProgram program).owner? declaration.name := by
    rw [earliest?,
      show (ofProgram program).owner? declaration.name = _ from owner,
      List.min?_eq_some_iff]
    constructor
    · exact List.mem_filterMap.mpr ⟨_, starts, owner⟩
    · intro place member
      rcases List.mem_filterMap.mp member with ⟨other, onChain, otherOwner⟩
      rcases exists_cyclicAt distinct (allCyclic other onChain) with
        ⟨place', owner', found'⟩
      rw [owner'] at otherOwner
      cases otherOwner
      exact Nat.find_min' some found'
  refine ⟨declaration, List.fst_mem_of_mem_zipIdx entry, child, ?_⟩
  have isOwner : ((ofProgram program).owner? declaration.name).isSome := by
    rw [show (ofProgram program).owner? declaration.name = _ from owner]
    rfl
  rw [reportedCycle?, found, Option.filter_some, isOwner, earliest]
  simp

/-- No schema reports a cycle exactly when none is its own ancestor. -/
theorem reportedCycle?_eq_none_iff :
    (∀ declaration, .schema declaration ∈ program.declared →
        declaration.parent.isSome →
        (ofProgram program).reportedCycle? declaration.name = none) ↔
      ∀ name,
        ¬ Relation.TransGen (Inherits fun declaration =>
          .schema declaration ∈ program.declared) name name := by
  rw [← follows_ofProgram_eq distinct]
  constructor
  · intro silent name cyclic
    rcases exists_reportedCycle? distinct cyclic with
      ⟨declaration, member, child, reported⟩
    rw [silent declaration member child] at reported
    contradiction
  · intro acyclic declaration _ _
    cases found : (ofProgram program).inheritanceCycle? declaration.name with
    | none => simp [reportedCycle?, found]
    | some chain =>
        rcases inheritanceCycle?_eq_some found with ⟨starts, allCyclic⟩
        exact absurd (allCyclic _ starts) (acyclic _)

/--
The names of a schema show nothing wrong exactly when its fields are distinct,
its parent is a schema, and no cycle is to be reported here.
-/
theorem schemaFaults_eq_nil_iff {declaration : SchemaDeclaration} {place : Nat}
    (member : (.schema declaration, place) ∈ program.zipIdx) :
    (ofProgram program).schemaFaults place declaration = [] ↔
      (declaration.fields.map FieldDeclaration.name).Nodup ∧
        (∀ parent, declaration.parent = some parent →
          ∃ other, .schema other ∈ program.declared ∧
            other.name = parent.value) ∧
        (declaration.parent.isSome →
          (ofProgram program).reportedCycle? declaration.name = none) := by
  have owner : (ofProgram program).owner? declaration.name = some place :=
    owner?_of_mem_zipIdx distinct member
  have names : (declaration.fields.map fun field =>
      (⟨field.name, field.span⟩ : Located String)).map Located.value =
      declaration.fields.map FieldDeclaration.name := by
    rw [List.map_map]
    rfl
  rw [schemaFaults, List.append_eq_nil_iff, List.map_eq_nil_iff,
    repeatedNames_eq_nil_iff, names]
  simp only [List.not_mem_nil, not_false_eq_true, implies_true, and_true]
  apply and_congr_right'
  cases declaration.parent with
  | none => simp
  | some parent =>
      have known : ((ofProgram program).schema? parent.value).isNone = false ↔
          ∃ other, .schema other ∈ program.declared ∧
            other.name = parent.value := by
        rw [Option.isNone_eq_false_iff, Option.isSome_iff_exists]
        constructor
        · rintro ⟨⟨content, further⟩, found⟩
          rcases (schema?_ofProgram_eq_some_iff distinct).mp found with
            ⟨other, member, named, -⟩
          exact ⟨other, member, named⟩
        · rintro ⟨other, member, named⟩
          exact ⟨_,
            (schema?_ofProgram_eq_some_iff distinct).mpr
              ⟨other, member, named, rfl, rfl⟩⟩
      simp only [Option.some.injEq, forall_eq', Option.isSome_some,
        forall_const, ← known, owner, if_true]
      cases ((ofProgram program).schema? parent.value).isNone with
      | true => simp
      | false =>
          cases (ofProgram program).reportedCycle? declaration.name <;> simp

end

/--
The names of an enumeration show nothing wrong exactly when its variants are
distinct.
-/
theorem enumFaults_eq_nil_iff (declaration : EnumDeclaration) :
    enumFaults declaration = [] ↔
      (declaration.variants.map Located.value).Nodup := by
  simp [enumFaults, repeatedNames_eq_nil_iff]

/-- Registration finds nothing wrong exactly when the program is well named. -/
theorem register_snd_eq_nil_iff (program : Program) :
    (empty.register program).2 = [] ↔
      (program.map Declaration.name).Nodup ∧ WellNamed program.declared := by
  have parts : (empty.register program).2 = [] ↔
      (program.map Declaration.name).Nodup ∧
        ∀ entry ∈ program.zipIdx,
          (ofProgram program).nameFaults entry.2 entry.1 = [] := by
    have taken := registerFrom_snd_eq_nil_iff [] 0 program
    simp only [ofGlobals_nil, List.map_nil, List.not_mem_nil, not_false_eq_true,
      implies_true, and_true] at taken
    have table : (empty.registerFrom 0 program).1 = ofProgram program :=
      register_fst program
    simp only [register, List.append_eq_nil_iff, taken, table,
      List.flatMap_eq_nil_iff]
  rw [parts]
  apply and_congr_right
  intro distinct
  constructor
  · intro faultless
    have schemas :=
      fun (declaration : SchemaDeclaration)
        (member : .schema declaration ∈ program.declared) =>
        have entry := (exists_place member).choose_spec
        (schemaFaults_eq_nil_iff distinct entry).mp
          (faultless (.schema declaration, _) entry)
    refine ⟨fun declaration member => (schemas declaration member).1, ?_,
      fun declaration parent member => (schemas declaration member).2.1 parent,
      ?_⟩
    · intro declaration member
      rcases exists_place member with ⟨place, entry⟩
      exact (enumFaults_eq_nil_iff declaration).mp (faultless _ entry)
    · exact (reportedCycle?_eq_none_iff distinct).mp fun declaration member =>
        (schemas declaration member).2.2
  · rintro wellNamed ⟨declaration, place⟩ entry
    have member := List.fst_mem_of_mem_zipIdx entry
    cases declaration with
    | schema declaration =>
        have silent :=
          (reportedCycle?_eq_none_iff distinct).mpr wellNamed.acyclic
        exact (schemaFaults_eq_nil_iff distinct entry).mpr
          ⟨wellNamed.fields declaration member,
          fun parent => wellNamed.parents declaration parent member,
          silent declaration member⟩
    | enumeration declaration =>
        exact (enumFaults_eq_nil_iff declaration).mpr
          (wellNamed.variants declaration member)
    | _ => rfl

end SymbolTable

end SchemaMap
