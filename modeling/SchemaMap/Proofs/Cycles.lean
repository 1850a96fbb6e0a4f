import Mathlib.Data.List.Cycle
import SchemaMap.Builder
import SchemaMap.Proofs.Inheritance
import SchemaMap.Proofs.Parts

/-!
# Cycles of inheritance

Every schema with a parent follows its own chain of parents and decides on its
own whether it reports a cycle.  Taken together, the schemas of a program report
each cycle exactly once (`inheritance_cycles_reported_once`).

A schema has one parent, so the chain that leads from a name back to it is
determined by the name; as a `Cycle`, it is the same for all of its members
(`inheritanceCycle?_ofProgram_iff`).  Of the members, the one whose declaration
has the least place reports the cycle, and different names have different
places.
-/

namespace SchemaMap

namespace Program

variable {program : Program} {name : String} {place : Nat}

/-- The place of the first declaration of a name. -/
def placeOf? (program : Program) (name : String) : Option Nat :=
  program.findIdx? fun declaration => declaration.name == name

/-- The owner of a name stands at the first place where the name is declared. -/
theorem map_fst_find?_ownersFrom {taken : List String} (place : Nat)
    (program : Program) (free : name ∉ taken) :
    ((ownersFrom taken place program).find? fun entry =>
      entry.2.name == name).map Prod.fst =
      (program.placeOf? name).map (place + ·) := by
  induction program generalizing taken place with
  | nil => rfl
  | cons declaration rest ih =>
      unfold ownersFrom
      by_cases same : declaration.name = name
      · subst same
        simp [placeOf?, free, List.findIdx?_cons]
      · have apart : (declaration.name == name) = false := by simpa using same
        have shifted : placeOf? (declaration :: rest) name =
            (placeOf? rest name).map (· + 1) := by
          simp [placeOf?, List.findIdx?_cons, apart]
        have later : (placeOf? (declaration :: rest) name).map (place + ·) =
            (placeOf? rest name).map (place + 1 + ·) := by
          rw [shifted, Option.map_map]
          congr 1
          ext index
          exact Nat.add_right_comm place index 1
        rw [later]
        split
        · exact ih (place + 1) free
        · have stillFree : name ∉ declaration.name :: taken := by
            simp only [List.mem_cons, not_or]
            exact ⟨fun equality => same equality.symm, free⟩
          simpa [apart] using ih (place + 1) stillFree

/-- The owner of a name stands at the place of the name. -/
theorem owner?_eq_bind_placeOf? (program : Program) (name : String) :
    program.owner? name =
      (program.placeOf? name).bind fun place => program[place]? :=
  List.find?_eq_bind_findIdx?_getElem?

theorem exists_owner?_of_placeOf? (found : program.placeOf? name = some place) :
    ∃ declaration, program[place]? = some declaration ∧
      program.owner? name = some declaration := by
  rcases List.findIdx?_eq_some_iff_getElem.mp found with ⟨bound, -⟩
  have present : program[place]? = some program[place] :=
    List.getElem?_eq_getElem bound
  exact ⟨program[place], present,
    by rw [owner?_eq_bind_placeOf?, found, Option.bind_some, present]⟩

/-- Different names have different places. -/
theorem placeOf?_injective {other : String}
    (found : program.placeOf? name = some place)
    (otherFound : program.placeOf? other = some place) : name = other := by
  rcases exists_owner?_of_placeOf? found with ⟨declaration, present, owner⟩
  rcases exists_owner?_of_placeOf? otherFound with
    ⟨otherDeclaration, otherPresent, otherOwner⟩
  have same := Option.some.inj (present.symm.trans otherPresent)
  rw [← name_of_owner? owner, ← name_of_owner? otherOwner, same]

end Program

/--
The chain of a cycle of parents and where it is reported, if this is what is
wrong.
-/
def Fault.inheritanceChain? : Fault → Option (List String × Span)
  | ⟨.cyclicInheritance chain, span⟩ => some (chain, span)
  | _ => none

namespace SymbolTable

/-- In the table of a program a name belongs to its first place. -/
theorem owner?_ofProgram_eq_placeOf? (program : Program) (name : String) :
    (ofProgram program).owner? name = program.placeOf? name := by
  have places :=
    Program.map_fst_find?_ownersFrom 0 program (List.not_mem_nil (a := name))
  simp only [Nat.zero_add, Option.map_id'] at places
  rw [owner?, global?_ofProgram, ← places, Option.bind_map]
  exact Option.map_eq_bind.symm

variable {table : SymbolTable} {start : String}

/-! ## Cycles -/

/--
The second name is that of the parent of the first, and both stand for schemas.
-/
def DerivesFrom (table : SymbolTable) (child parent : String) : Prop :=
  table.Follows child parent ∧ (table.schema? parent).isSome

/--
Schemas, each once, of which each extends the next and the last extends the
first.
-/
structure IsInheritanceCycle (table : SymbolTable) (cycle : Cycle String) :
    Prop where
  inhabited : ∃ name, name ∈ cycle
  distinct : cycle.Nodup
  linked : cycle.Chain table.DerivesFrom

/-- Only schemas have parents. -/
theorem isSome_schema?_of_follows {name parent : String}
    (follows : table.Follows name parent) :
    (table.schema? name).isSome := by
  rcases Option.bind_eq_some_iff.mp follows with ⟨found, schema, -⟩
  exact Option.isSome_of_eq_some schema

theorem exists_head?_concat {α : Type} (front : List α) (last : α) :
    ∃ first, (front ++ [last]).head? = some first :=
  Option.isSome_iff_exists.mp (by simp)

/-- The first name of a route to a schema is that of a schema. -/
theorem Route.isSome_schema? {goal first : String} {names : List String}
    (route : table.Route goal first names)
    (isSchema : (table.schema? goal).isSome) :
    (table.schema? first).isSome := by
  cases route with
  | arrived => exact isSchema
  | step apart parent rest fresh => exact isSome_schema?_of_follows parent

/-- A route to a schema is a chain of different schemas. -/
theorem route_iff {goal first : String} {names : List String}
    (isSchema : (table.schema? goal).isSome) :
    table.Route goal first names ↔
      (names ++ [goal]).head? = some first ∧
        (names ++ [goal]).IsChain table.DerivesFrom ∧ names.Nodup ∧
        goal ∉ names := by
  constructor
  · intro route
    induction route with
    | arrived => simp
    | @step name next names apart parent rest fresh ih =>
        rcases ih with ⟨head, chain, distinct, absent⟩
        have link : table.DerivesFrom name next :=
          ⟨parent, rest.isSome_schema? isSchema⟩
        have longer : (name :: (names ++ [goal])).IsChain
            table.DerivesFrom := by
          rw [List.isChain_cons, head]
          exact ⟨fun _ same => Option.some.inj same ▸ link, chain⟩
        exact ⟨rfl, longer, List.nodup_cons.mpr ⟨fresh, distinct⟩,
          List.not_mem_cons_of_ne_of_not_mem apart.symm absent⟩
  · rintro ⟨head, chain, distinct, absent⟩
    induction names generalizing first with
    | nil =>
        cases head
        exact .arrived
    | cons name rest ih =>
        cases head
        rw [List.cons_append, List.isChain_cons] at chain
        rcases exists_head?_concat rest goal with ⟨next, head⟩
        have link := chain.1 next head
        rw [List.nodup_cons] at distinct
        rw [List.mem_cons, not_or] at absent
        exact .step (Ne.symm absent.1) link.1
          (ih head chain.2 distinct.2 absent.2) distinct.1

/--
Parents are followed back to the start along a route, and along no other way.
-/
theorem followParents_eq_some_iff {unmet chain result : List String}
    {next : Option String} (distinct : unmet.Nodup) :
    table.followParents start unmet chain next = some result ↔
      ∃ first names, next = some first ∧ table.Route start first names ∧
        (∀ name ∈ names, name ∈ unmet) ∧
        result = chain ++ names ++ [start] := by
  constructor
  · intro found
    fun_induction followParents table start unmet chain next with
    | case1 => contradiction
    | case2 unmet chain =>
        cases found
        exact ⟨start, [], rfl, .arrived, List.forall_mem_nil _, by simp⟩
    | case3 unmet chain name apart isUnmet ih =>
        rcases ih (distinct.erase name) found with
          ⟨next, names, parent, route, included, rfl⟩
        have fresh : name ∉ names :=
          fun member => (distinct.mem_erase_iff.mp (included name member)).1 rfl
        refine ⟨name, name :: names, rfl, .step apart parent route fresh, ?_,
          by simp⟩
        rw [List.forall_mem_cons]
        exact ⟨isUnmet,
          fun other member => List.mem_of_mem_erase (included other member)⟩
    | case4 => contradiction
  · rintro ⟨first, names, rfl, route, included, rfl⟩
    exact route.followParents_eq_some unmet chain included

/-- The chain of a schema is a route from its parent back to it. -/
theorem inheritanceCycle?_eq_some_iff
    (distinct : (table.globals.map Symbol.name).Nodup)
    (listed : ∀ name parent, table.Follows name parent →
      name ∈ table.globals.map Symbol.name)
    {chain : List String} :
    table.inheritanceCycle? start = some chain ↔
      ∃ first names, table.Follows start first ∧ table.Route start first names ∧
        chain = start :: (names ++ [start]) := by
  have schemasDistinct : table.schemaNames.Nodup := distinct.filter _
  rw [inheritanceCycle?, followParents_eq_some_iff schemasDistinct]
  constructor
  · rintro ⟨first, names, follows, route, -, rfl⟩
    exact ⟨first, names, follows, route, rfl⟩
  · rintro ⟨first, names, follows, route, rfl⟩
    refine ⟨first, names, follows, route, ?_, rfl⟩
    intro name member
    rcases route.exists_parent member with ⟨further, furtherFollows⟩
    exact mem_schemaNames_of_follows furtherFollows
      (listed name further furtherFollows)

/-- A cycle can be told from any of its members on. -/
theorem exists_eq_coe_cons {α : Type} {cycle : Cycle α} {first : α}
    (member : first ∈ cycle) :
    ∃ rest : List α, cycle = ((first :: rest : List α) : Cycle α) := by
  induction cycle using Quotient.inductionOn' with
  | h names =>
      rcases List.append_of_mem (Cycle.mem_coe_iff.mp member) with
        ⟨before, after, rfl⟩
      exact ⟨after ++ before, Cycle.coe_eq_coe.mpr List.isRotated_append⟩

/-! ## Cycles of a program -/

section

variable {program : Program} {name : String}

theorem mem_globals_of_follows {parent : String}
    (follows : (ofProgram program).Follows name parent) :
    name ∈ (ofProgram program).globals.map Symbol.name := by
  rcases follows_ofProgram_iff_owner?.mp follows with
    ⟨declaration, -, owner, -, -⟩
  rw [names_globals_ofProgram, Program.mem_names_owners_iff,
    ← Program.owner?_isSome_iff]
  exact Option.isSome_of_eq_some owner

/--
A chain of parents is found exactly when the parents lead from the schema back
to it, and it lists them.
-/
theorem inheritanceCycle?_ofProgram_eq_some_iff {chain : List String} :
    (ofProgram program).inheritanceCycle? start = some chain ↔
      ∃ first names, (ofProgram program).Follows start first ∧
        (ofProgram program).Route start first names ∧
        chain = start :: (names ++ [start]) := by
  apply inheritanceCycle?_eq_some_iff
  · rw [names_globals_ofProgram]
    exact program.nodup_names_owners
  · exact fun name parent => mem_globals_of_follows

/-- The chain of a schema of a program, told as a cycle. -/
theorem inheritanceCycle?_ofProgram_iff {names : List String} :
    (ofProgram program).inheritanceCycle? start =
      some (start :: (names ++ [start])) ↔
      (ofProgram program).IsInheritanceCycle
        ((start :: names : List String) : Cycle String) := by
  rw [inheritanceCycle?_ofProgram_eq_some_iff]
  constructor
  · rintro ⟨first, others, follows, route, same⟩
    have isSchema := isSome_schema?_of_follows follows
    cases List.append_cancel_right (List.cons.inj same).2
    rcases (route_iff isSchema).mp route with ⟨head, chain, distinct, absent⟩
    have link : (ofProgram program).DerivesFrom start first :=
      ⟨follows, route.isSome_schema? isSchema⟩
    refine ⟨⟨start, List.mem_cons_self⟩, List.nodup_cons.mpr ⟨absent, distinct⟩,
      ?_⟩
    rw [Cycle.chain_coe_cons, List.isChain_cons, head]
    exact ⟨fun _ same => Option.some.inj same ▸ link, chain⟩
  · rintro ⟨-, distinct, linked⟩
    rw [Cycle.nodup_coe_iff, List.nodup_cons] at distinct
    rw [Cycle.chain_coe_cons, List.isChain_cons] at linked
    rcases exists_head?_concat names start with ⟨first, head⟩
    have link := linked.1 first head
    have route :=
      (route_iff (isSome_schema?_of_follows link.1)).mpr
        ⟨head, linked.2, distinct.2, distinct.1⟩
    exact ⟨first, names, link.1, route, rfl⟩

/-! ## Reports -/

/-- A name that is taken is not reported as a cycle. -/
theorem inheritanceChain?_of_mem_takenFaults {earlier : Program} {fault : Fault}
    (member : fault ∈ Program.takenFaults earlier program) :
    fault.inheritanceChain? = none := by
  induction program generalizing earlier with
  | nil => contradiction
  | cons declaration rest ih =>
      rcases List.mem_append.mp member with first | later
      · rw [Option.mem_toList] at first
        rcases Option.map_eq_some_iff.mp first with ⟨owner, -, rfl⟩
        rfl
      · exact ih later

/--
What a declaration reports: its cycle, if it owns its name and none of the cycle
is declared earlier.
-/
def report? (table : SymbolTable) (entry : Declaration × Nat) :
    Option (List String × Span) :=
  if table.owner? entry.1.name = some entry.2 then
    (table.reportedCycle? entry.1.name).map fun chain => (chain, entry.1.span)
  else
    none

/-- A declaration that stands at the place of its name owns the name. -/
theorem owner?_of_placeOf? {declaration : Declaration} {place : Nat}
    (entry : (declaration, place) ∈ program.zipIdx)
    (owns : (ofProgram program).owner? declaration.name = some place) :
    program.owner? declaration.name = some declaration := by
  rw [owner?_ofProgram_eq_placeOf?] at owns
  rcases Program.exists_owner?_of_placeOf? owns with ⟨other, present, owner⟩
  rw [List.mem_zipIdx_iff_getElem?.mp entry] at present
  cases present
  exact owner

/-- Only a schema with a declared parent reports a cycle. -/
theorem exists_derivesFrom_of_reportedCycle? {chain : List String}
    (reported : (ofProgram program).reportedCycle? start = some chain) :
    ∃ parent, (ofProgram program).DerivesFrom start parent := by
  rcases Option.filter_eq_some_iff.mp reported with ⟨found, -⟩
  rcases inheritanceCycle?_ofProgram_eq_some_iff.mp found with
    ⟨first, names, follows, route, -⟩
  exact ⟨first, follows,
    route.isSome_schema? (isSome_schema?_of_follows follows)⟩

/-- Of the faults of a schema the reported cycles are told. -/
theorem filterMap_schemaFaults {declaration : SchemaDeclaration} {place : Nat}
    (entry : (Declaration.schema declaration, place) ∈ program.zipIdx) :
    ((ofProgram program).schemaFaults place declaration).filterMap
      Fault.inheritanceChain? =
      ((ofProgram program).report? (.schema declaration, place)).toList := by
  have name : (Declaration.schema declaration).name = declaration.name := rfl
  have span : (Declaration.schema declaration).span = declaration.span := rfl
  have fieldFaults : ∀ fields : List (Located String), (fields.map fun field =>
      (⟨.duplicateField declaration.name field.value, field.span⟩ :
        Fault)).filterMap Fault.inheritanceChain? = [] := by
    simp [Fault.inheritanceChain?]
  rw [schemaFaults, List.filterMap_append, fieldFaults, List.nil_append]
  by_cases owns : (ofProgram program).owner? declaration.name = some place
  · cases reported : (ofProgram program).reportedCycle? declaration.name with
    | none =>
        cases declaration.parent <;>
          simp [report?, name, reported, owns, Fault.inheritanceChain?]
    | some chain =>
        rcases exists_derivesFrom_of_reportedCycle? reported with
          ⟨parent, follows, isSchema⟩
        rcases follows_ofProgram_iff_owner?.mp follows with
          ⟨other, located, owner, written, rfl⟩
        cases (owner?_of_placeOf? entry owns).symm.trans owner
        simp [report?, written, name, span, reported, owns,
          Option.isSome_iff_ne_none.mp isSchema, Fault.inheritanceChain?]
  · cases declaration.parent <;>
      simp [report?, name, owns, Fault.inheritanceChain?]

/-- Only schemas are reported as cycles. -/
theorem exists_eq_schema_of_report? {declaration : Declaration} {place : Nat}
    (entry : (declaration, place) ∈ program.zipIdx)
    {report : List String × Span}
    (found : (ofProgram program).report? (declaration, place) = some report) :
    ∃ schema, declaration = .schema schema := by
  rcases Option.ite_none_right_eq_some.mp found with ⟨owns, mapped⟩
  rcases Option.map_eq_some_iff.mp mapped with ⟨chain, reported, -⟩
  rcases exists_derivesFrom_of_reportedCycle? reported with ⟨parent, follows, -⟩
  rcases follows_ofProgram_iff_owner?.mp follows with ⟨schema, -, owner, -, -⟩
  exact ⟨schema,
    Option.some.inj ((owner?_of_placeOf? entry owns).symm.trans owner)⟩

/--
The name faults of a declaration hold what it reports, and no other chain.
-/
theorem filterMap_nameFaults {declaration : Declaration} {place : Nat}
    (entry : (declaration, place) ∈ program.zipIdx) :
    ((ofProgram program).nameFaults place declaration).filterMap
      Fault.inheritanceChain? =
      ((ofProgram program).report? (declaration, place)).toList := by
  cases found : (ofProgram program).report? (declaration, place) with
  | some report =>
      rcases exists_eq_schema_of_report? entry found with ⟨schema, rfl⟩
      rw [← found]
      exact filterMap_schemaFaults entry
  | none =>
      cases declaration with
      | schema declaration =>
          rw [← found]
          exact filterMap_schemaFaults entry
      | enumeration declaration =>
          simp [nameFaults, enumFaults, Fault.inheritanceChain?]
      | _ => rfl

/-- The reports of a program are those of its declarations. -/
theorem filterMap_register (program : Program) :
    (empty.register program).2.filterMap Fault.inheritanceChain? =
      program.zipIdx.filterMap (ofProgram program).report? := by
  have taken : (Program.takenFaults [] program).filterMap
      Fault.inheritanceChain? = [] :=
    List.filterMap_eq_nil_iff.mpr fun _ member =>
      inheritanceChain?_of_mem_takenFaults member
  rw [register_snd, List.filterMap_append, taken, List.nil_append,
    List.filterMap_flatMap, List.filterMap_eq_flatMap_toList]
  apply List.flatMap_congr
  intro entry member
  exact filterMap_nameFaults member

/-- The places of the members of a cycle. -/
def places (table : SymbolTable) (cycle : Cycle String) : Set Nat :=
  { place | ∃ name ∈ cycle, table.owner? name = some place }

/-- The earliest place of a chain is the least place of its cycle. -/
theorem earliest?_eq_some_iff {names : List String} {place : Nat} :
    table.earliest? (start :: (names ++ [start])) = some place ↔
      IsLeast (table.places ((start :: names : List String) : Cycle String))
        place := by
  have same : ∀ other,
      other ∈ (start :: (names ++ [start])).filterMap table.owner? ↔
      other ∈ table.places ((start :: names : List String) : Cycle String) := by
    intro other
    have members : ∀ name, name ∈ start :: (names ++ [start]) ↔
        name ∈ start :: names := by grind
    simp only [List.mem_filterMap, members]
    exact Iff.rfl
  rw [earliest?, List.min?_eq_some_iff]
  simp only [same]
  exact Iff.rfl

/-- A declaration reports the cycle through its name that it comes first on. -/
theorem report?_eq_some_iff {declaration : Declaration} {place : Nat}
    {report : List String × Span} :
    (ofProgram program).report? (declaration, place) = some report ↔
      (ofProgram program).owner? declaration.name = some place ∧
        ∃ names,
          report =
            (declaration.name :: (names ++ [declaration.name]),
              declaration.span) ∧
          (ofProgram program).IsInheritanceCycle
            ((declaration.name :: names : List String) : Cycle String) ∧
          IsLeast ((ofProgram program).places
            ((declaration.name :: names : List String) : Cycle String))
            place := by
  constructor
  · intro found
    rcases Option.ite_none_right_eq_some.mp found with ⟨owns, mapped⟩
    rcases Option.map_eq_some_iff.mp mapped with ⟨chain, reported, rfl⟩
    rcases Option.filter_eq_some_iff.mp reported with ⟨cyclic, first⟩
    rcases inheritanceCycle?_ofProgram_eq_some_iff.mp cyclic with
      ⟨-, names, -, -, rfl⟩
    simp only [owns, Option.isSome_some, Bool.true_and, decide_eq_true_eq,
      earliest?_eq_some_iff] at first
    exact ⟨owns, names, rfl, inheritanceCycle?_ofProgram_iff.mp cyclic, first⟩
  · rintro ⟨owns, names, rfl, cyclic, first⟩
    have found := inheritanceCycle?_ofProgram_iff.mpr cyclic
    have earliest := earliest?_eq_some_iff.mpr first
    simp [report?, reportedCycle?, owns, found, earliest]

/-- Every name on a cycle is declared. -/
theorem exists_owner?_of_mem {cycle : Cycle String}
    (cyclic : (ofProgram program).IsInheritanceCycle cycle)
    (member : name ∈ cycle) :
    ∃ place, (ofProgram program).owner? name = some place := by
  rcases exists_eq_coe_cons member with ⟨names, rfl⟩
  have linked := (List.isChain_cons.mp cyclic.linked).1
  rcases exists_head?_concat names name with ⟨first, head⟩
  rcases follows_ofProgram_iff_owner?.mp (linked first head).1 with
    ⟨declaration, -, owner, -⟩
  rw [Program.owner?_eq_bind_placeOf?] at owner
  rcases Option.bind_eq_some_iff.mp owner with ⟨place, found, -⟩
  exact ⟨place, (owner?_ofProgram_eq_placeOf? program name).trans found⟩

/-- Some member of a cycle is declared first. -/
theorem exists_isLeast_places {cycle : Cycle String}
    (cyclic : (ofProgram program).IsInheritanceCycle cycle) :
    ∃ place, IsLeast ((ofProgram program).places cycle) place := by
  classical
  have inhabited : ∃ place, place ∈ (ofProgram program).places cycle := by
    rcases cyclic.inhabited with ⟨name, member⟩
    rcases exists_owner?_of_mem cyclic member with ⟨place, owns⟩
    exact ⟨place, name, member, owns⟩
  exact ⟨Nat.find inhabited, Nat.find_spec inhabited,
    fun _ later => Nat.find_min' inhabited later⟩

/-- Each cycle is reported by the declaration of its first member. -/
theorem exists_report?_of_cycle {cycle : Cycle String}
    (cyclic : (ofProgram program).IsInheritanceCycle cycle) :
    ∃ entry ∈ program.zipIdx,
      ∃ report, (ofProgram program).report? entry = some report ∧
      (report.1.dropLast : Cycle String) = cycle := by
  rcases exists_isLeast_places cyclic with ⟨place, first⟩
  rcases first.1 with ⟨name, member, owns⟩
  rcases exists_eq_coe_cons member with ⟨names, rfl⟩
  have found := (owner?_ofProgram_eq_placeOf? program name).symm.trans owns
  rcases Program.exists_owner?_of_placeOf? found with
    ⟨declaration, present, owner⟩
  cases Program.name_of_owner? owner
  refine ⟨(declaration, place), List.mem_zipIdx_iff_getElem?.mpr present, _,
    report?_eq_some_iff.mpr ⟨owns, names, rfl, cyclic, first⟩, ?_⟩
  rw [← List.cons_append, List.dropLast_concat]

/-- Declarations at different places report different cycles. -/
theorem places_eq_of_report? {entry other : Declaration × Nat}
    {report otherReport : List String × Span}
    (found : (ofProgram program).report? entry = some report)
    (otherFound : (ofProgram program).report? other = some otherReport)
    (same : (report.1.dropLast : Cycle String) =
      (otherReport.1.dropLast : Cycle String)) : entry.2 = other.2 := by
  rcases report?_eq_some_iff.mp found with ⟨-, names, rfl, -, first⟩
  rcases report?_eq_some_iff.mp otherFound with
    ⟨-, otherNames, rfl, -, otherFirst⟩
  simp only [← List.cons_append, List.dropLast_concat] at same
  rw [same] at first
  exact first.unique otherFirst

theorem pairwise_zipIdx (program : Program) :
    program.zipIdx.Pairwise fun entry other => entry.2 < other.2 := by
  apply List.pairwise_map.mp
  rw [List.zipIdx_map_snd]
  exact List.pairwise_lt_range' 1

/-- No cycle is reported twice. -/
theorem nodup_reported (program : Program) :
    ((program.zipIdx.filterMap (ofProgram program).report?).map fun report =>
      (report.1.dropLast : Cycle String)).Nodup := by
  apply List.pairwise_map.mpr
  apply List.pairwise_filterMap.mpr
  apply (pairwise_zipIdx program).imp
  intro entry other before report found otherReport otherFound same
  exact Nat.ne_of_lt before (places_eq_of_report? found otherFound same)

/-- The cycles that are reported are all cycles. -/
theorem mem_reported_iff {cycle : Cycle String} :
    cycle ∈
      ((program.zipIdx.filterMap (ofProgram program).report?).map fun report =>
      (report.1.dropLast : Cycle String)) ↔
      (ofProgram program).IsInheritanceCycle cycle := by
  constructor
  · intro member
    rcases List.mem_map.mp member with ⟨report, listed, rfl⟩
    rcases List.mem_filterMap.mp listed with ⟨⟨declaration, place⟩, -, found⟩
    rcases report?_eq_some_iff.mp found with ⟨-, names, rfl, cyclic, -⟩
    rw [← List.cons_append, List.dropLast_concat]
    exact cyclic
  · intro cyclic
    rcases exists_report?_of_cycle cyclic with
      ⟨entry, member, report, found, same⟩
    exact List.mem_map.mpr
      ⟨report, List.mem_filterMap.mpr ⟨entry, member, found⟩, same⟩

/-- The other members of a cycle that is reported are declared later. -/
theorem exists_later_of_report? {declaration : Declaration} {place : Nat}
    {names : List String}
    (owns : (ofProgram program).owner? declaration.name = some place)
    (cyclic : (ofProgram program).IsInheritanceCycle
      ((declaration.name :: names : List String) : Cycle String))
    (first : IsLeast ((ofProgram program).places
      ((declaration.name :: names : List String) : Cycle String)) place)
    (member : name ∈ names) :
    ∃ later, program.placeOf? name = some later ∧ place < later := by
  have onCycle : name ∈
      ((declaration.name :: names : List String) : Cycle String) :=
    List.mem_cons_of_mem _ member
  rcases exists_owner?_of_mem cyclic onCycle with ⟨later, found⟩
  have apart : place ≠ later := by
    rintro rfl
    rw [owner?_ofProgram_eq_placeOf?] at owns found
    have absent := (List.nodup_cons.mp cyclic.distinct).1
    exact absent (Program.placeOf?_injective owns found ▸ member)
  rw [← owner?_ofProgram_eq_placeOf?]
  exact ⟨later, found,
    Nat.lt_of_le_of_ne (first.2 ⟨name, onCycle, found⟩) apart⟩

/-- A name on a cycle derives from itself. -/
theorem transGen_of_cycle {cycle : Cycle String}
    (cyclic : table.IsInheritanceCycle cycle) (member : name ∈ cycle) :
    Relation.TransGen table.DerivesFrom name name := by
  rcases exists_eq_coe_cons member with ⟨names, rfl⟩
  have linked := List.isChain_cons.mp cyclic.linked
  rcases exists_head?_concat names name with ⟨first, head⟩
  have onward :=
    List.relationReflTransGen_of_exists_isChain (names ++ [name]) linked.2
      (by simp)
  rw [List.getLast_concat, List.head_of_head?_eq_some head] at onward
  exact .head' (linked.1 first head) onward

/-- A schema that is its own ancestor is on a cycle. -/
theorem exists_cycle_of_transGen
    (cyclic : Relation.TransGen (ofProgram program).DerivesFrom name name) :
    ∃ cycle, (ofProgram program).IsInheritanceCycle cycle := by
  have follows := Relation.TransGen.mono (fun _ _ link => link.1) _ _ cyclic
  have found :=
    inheritanceCycle?_isSome (fun _ _ => mem_globals_of_follows) follows
  rcases Option.isSome_iff_exists.mp found with ⟨chain, found⟩
  rcases inheritanceCycle?_ofProgram_eq_some_iff.mp found with
    ⟨-, names, -, -, rfl⟩
  exact ⟨_, inheritanceCycle?_ofProgram_iff.mp found⟩

end

/--
Each cycle of parents is reported exactly once.  The reports of a program name
the cycles of its registered schemas, each once; a report tells the cycle in the
order of the parents, from the member that is declared first and back to it, and
stands at the declaration of this member.  A declaration that does not own its
name or is on no cycle reports none.
-/
theorem inheritance_cycles_reported_once (program : Program) :
    let table := (empty.register program).1
    let reports := (empty.register program).2.filterMap Fault.inheritanceChain?
    let cycles := reports.map fun report => (report.1.dropLast : Cycle String)
    cycles.Nodup ∧ (∀ cycle, cycle ∈ cycles ↔ table.IsInheritanceCycle cycle) ∧
    (∀ report ∈ reports,
      ∃ declaration place names, program[place]? = some (.schema declaration) ∧
      program.placeOf? declaration.name = some place ∧
      report =
        (declaration.name :: (names ++ [declaration.name]), declaration.span) ∧
      report.1.IsChain table.DerivesFrom ∧
      ∀ name ∈ names,
        ∃ later, program.placeOf? name = some later ∧ place < later) ∧
    (∀ declaration place, program[place]? = some declaration →
      (∃ fault ∈ table.nameFaults place declaration,
        fault.inheritanceChain?.isSome) →
      program.placeOf? declaration.name = some place ∧
        ∃ cycle, table.IsInheritanceCycle cycle ∧ declaration.name ∈ cycle) ∧
    (reports = [] ↔
      ∀ name, ¬ Relation.TransGen table.DerivesFrom name name) := by
  intro table reports cycles
  have tableEq : table = ofProgram program := register_fst program
  have reportsEq : reports =
      program.zipIdx.filterMap (ofProgram program).report? :=
    filterMap_register program
  simp only [cycles, tableEq, reportsEq]
  refine ⟨nodup_reported program, fun cycle => mem_reported_iff, ?_, ?_, ?_⟩
  · intro report member
    rcases List.mem_filterMap.mp member with
      ⟨⟨declaration, place⟩, entry, found⟩
    rcases exists_eq_schema_of_report? entry found with ⟨schema, rfl⟩
    rcases report?_eq_some_iff.mp found with ⟨owns, names, rfl, cyclic, first⟩
    exact ⟨schema, place, names, List.mem_zipIdx_iff_getElem?.mp entry,
      (owner?_ofProgram_eq_placeOf? program _).symm.trans owns, rfl,
      cyclic.linked, fun name => exists_later_of_report? owns cyclic first⟩
  · rintro declaration place present ⟨fault, member, isChain⟩
    rcases Option.isSome_iff_exists.mp isChain with ⟨report, told⟩
    have listed := List.mem_filterMap.mpr ⟨fault, member, told⟩
    rw [filterMap_nameFaults (List.mem_zipIdx_iff_getElem?.mpr present),
      Option.mem_toList] at listed
    rcases report?_eq_some_iff.mp listed with ⟨owns, names, -, cyclic, -⟩
    exact ⟨(owner?_ofProgram_eq_placeOf? program _).symm.trans owns, _, cyclic,
      List.mem_cons_self⟩
  · constructor
    · intro none name cyclic
      rcases exists_cycle_of_transGen cyclic with ⟨cycle, isCycle⟩
      have listed := mem_reported_iff.mpr isCycle
      rw [none] at listed
      contradiction
    · intro acyclic
      apply List.eq_nil_iff_forall_not_mem.mpr
      intro report member
      have cyclic := mem_reported_iff.mp (List.mem_map_of_mem member)
      rcases cyclic.inhabited with ⟨name, onCycle⟩
      exact acyclic name (transGen_of_cycle cyclic onCycle)

/--
A schema that leads into a cycle, a second declaration of a member, and a schema
that extends itself.
-/
example :
    (empty.register
      [Builder.extending "Leaf" "Left" [], Builder.extending "Right" "Left" [],
        Builder.extending "Left" "Right" [],
        Builder.extending "Right" "Right" [],
        Builder.extending "Self" "Self" []]).2.filterMap
          Fault.inheritanceChain? =
      [(["Right", "Left", "Right"], .unknown),
        (["Self", "Self"], .unknown)] := by
  decide +kernel

end SymbolTable

end SchemaMap
