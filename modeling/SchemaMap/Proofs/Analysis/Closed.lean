import SchemaMap.Proofs.Analysis.Reachable
import SchemaMap.Proofs.Fields
import SchemaMap.Proofs.Ty.Closed
import SchemaMap.Proofs.WellTyped

/-!
# Tables of accepted programs

Symbols are registered with placeholders, and the phases of an analysis may
leave a placeholder where something is wrong.  `closed_table_analyze` says that
an accepted program leaves none: all types of the global scope are known at
every depth, and every name that its symbols mention belongs to a symbol of the
right sort.
-/

namespace SchemaMap

/--
Nothing is unknown in the global scope, and what its symbols mention is there.
-/
structure SymbolTable.Closed (table : SymbolTable) : Prop where
  known : ∀ symbol ∈ table.globals,
    ∀ type ∈ symbol.kind.types, ¬ Ty.unknown.OccursIn type
  units : ∀ symbol ∈ table.globals, symbol.kind ≠ .unit none
  handles : ∀ symbol ∈ table.globals,
    ∀ type ∈ symbol.kind.types, ∀ name arguments parameters fields,
    (Ty.schema name arguments parameters fields).OccursIn type →
      parameters = [] ∧ fields = [] ∧
        ∃ schema parent, table.kind? name = some (.schema schema parent) ∧
        arguments.length = schema.parameters.length
  enumerations : ∀ symbol ∈ table.globals,
    ∀ type ∈ symbol.kind.types, ∀ name variants,
    (Ty.enumeration name variants).OccursIn type →
      table.kind? name = some (.enumeration variants)
  steps : ∀ symbol ∈ table.globals, ∀ steps, symbol.kind = .pipeline steps →
    ∀ step ∈ steps, ∃ signature, table.kind? step = some (.transform signature)
  parents : ∀ symbol ∈ table.globals,
    ∀ schema parent, symbol.kind = .schema schema (some parent) →
    ∃ content above, table.kind? parent = some (.schema content above)
  /-- Going from a schema to its parent and on comes to an end. -/
  ends : ∀ symbol ∈ table.globals,
    ∀ schema parent, symbol.kind = .schema schema parent →
    ∃ count,
      (fun next => next.bind table.parentOf?)^[count] (some symbol.name) = none

/-! ## What declarations stand for is closed -/

section

variable {declared : Set Declaration} {number : String → Nat → Nat}

/--
Whatever is listed with the types of type expressions is closed if they are.
-/
theorem forall_closed_of_forall₂ {α β : Type} {view : α → TypeExpr}
    {label : α → β} {parameters : List (String × Ty)}
    (bound : ∀ name type, parameters.lookup name = some type →
      type.Closed (Heads declared))
    {members : List α} {entries : List (β × Ty)}
    (each : List.Forall₂ (fun member entry =>
      entry.1 = label member ∧ Means declared parameters (view member) entry.2)
      members entries) :
    ∀ entry ∈ entries, entry.2.Closed (Heads declared) := by
  induction each with
  | nil => simp
  | cons first _ ih => exact List.forall_mem_cons.mpr ⟨first.2.closed bound, ih⟩

/-- The type variables of a schema are closed. -/
theorem closed_of_lookup_typeVariables (declaration : SchemaDeclaration)
    (name : String) (type : Ty)
    (found : (declaration.typeVariables number).lookup name = some type) :
    type.Closed (Heads declared) := by
  rcases List.mem_mapIdx.mp (mem_of_lookup_eq_some found) with
    ⟨index, inside, same⟩
  cases same
  exact Ty.closed_iff.mpr ⟨trivial, List.forall_mem_nil _⟩

theorem HasFields.closed {name : String} {fields : List (String × Ty)}
    (typed : HasFields declared number name fields) :
    ∀ field ∈ fields, field.2.Closed (Heads declared) := by
  induction typed with
  | root _ _ typed =>
      intro field member
      rcases mem_putFields member with none | own
      · contradiction
      · exact forall_closed_of_forall₂ (closed_of_lookup_typeVariables _) typed
          field own
  | child _ _ _ typed ih =>
      intro field member
      rcases mem_putFields member with inherited | own
      · exact ih field inherited
      · exact forall_closed_of_forall₂ (closed_of_lookup_typeVariables _) typed
          field own

/-- A declaration stands for a kind of closed types. -/
theorem Declaration.StandsFor.closed {declaration : Declaration} {kind : Kind}
    (stands : declaration.StandsFor declared number kind) :
    ∀ type ∈ kind.types, type.Closed (Heads declared) := by
  have unbound : ∀ name type,
      ([] : List (String × Ty)).lookup name = some type →
        type.Closed (Heads declared) := nofun
  cases declaration with
  | schema declaration =>
      rcases stands with ⟨fields, typed, rfl⟩
      exact List.forall_mem_map.mpr typed.closed
  | lookup declaration =>
      rcases stands with ⟨keys, value, ⟨keyed, valued⟩, rfl⟩
      rw [Kind.types, List.forall_mem_append, List.forall_mem_singleton]
      exact ⟨Denotes.allClosed unbound _ keyed, valued.closed unbound⟩
  | transform declaration =>
      rcases stands with ⟨signature, ⟨sources, target⟩, rfl⟩
      rw [Kind.types, List.forall_mem_append, List.forall_mem_map,
        List.forall_mem_singleton]
      exact ⟨forall_closed_of_forall₂ unbound sources, target.closed unbound⟩
  | unit declaration =>
      rcases stands with ⟨unit, -, rfl⟩
      exact List.forall_mem_nil _
  | _ =>
      rw [show kind = _ from stands]
      exact List.forall_mem_nil _

/-- What a declaration stands for is called as its placeholder is. -/
theorem Declaration.StandsFor.text_eq {declaration : Declaration} {kind : Kind}
    (stands : declaration.StandsFor declared number kind) :
    kind.text = declaration.placeholder.text := by
  cases declaration with
  | schema declaration =>
      rcases stands with ⟨fields, -, rfl⟩
      rfl
  | unit declaration =>
      rcases stands with ⟨unit, -, rfl⟩
      rfl
  | lookup declaration =>
      rcases stands with ⟨keys, value, -, rfl⟩
      rfl
  | transform declaration =>
      rcases stands with ⟨signature, -, rfl⟩
      rfl
  | _ =>
      rw [show kind = _ from stands]
      rfl

theorem Declaration.StandsFor.ne_unit_none {declaration : Declaration}
    {kind : Kind} (stands : declaration.StandsFor declared number kind) :
    kind ≠ .unit none := by
  rintro rfl
  have text := stands.text_eq
  cases declaration with
  | unit declaration =>
      rcases stands with ⟨unit, -, same⟩
      cases same
  | _ => simp [Kind.text, Declaration.placeholder] at text

theorem Declaration.StandsFor.exists_pipeline {declaration : Declaration}
    {steps : List String}
    (stands : declaration.StandsFor declared number (.pipeline steps)) :
    ∃ content, declaration = .pipeline content ∧
      steps = content.steps.map Located.value := by
  have text := stands.text_eq
  cases declaration with
  | pipeline declaration =>
      cases stands
      exact ⟨declaration, rfl, rfl⟩
  | _ => simp [Kind.text, Declaration.placeholder] at text

theorem Declaration.StandsFor.exists_schema {declaration : Declaration}
    {schema : Schema} {parent : Option String}
    (stands : declaration.StandsFor declared number (.schema schema parent)) :
    ∃ content, declaration = .schema content ∧
      HasFields declared number content.name schema.fields ∧
      parent = content.parent.map Located.value := by
  have text := stands.text_eq
  cases declaration with
  | schema declaration =>
      rcases stands with ⟨fields, typed, same⟩
      cases same
      exact ⟨declaration, rfl, typed, rfl⟩
  | _ => simp [Kind.text, Declaration.placeholder] at text

end

/-! ## Programs -/

namespace Program

variable {program : Program} (distinct : (program.map Declaration.name).Nodup)

include distinct

/-- A declared name stands for the kind of its declaration. -/
theorem kind?_of_mem {declaration : Declaration}
    (member : declaration ∈ program.declared) :
    program.kind? declaration.name = some (program.kindOf declaration) := by
  rw [kind?, (owner?_eq_some_iff distinct).mpr ⟨member, rfl⟩, Option.map_some]

/--
A declared schema stands for a schema with the parameters and the parent that it
is declared with.
-/
theorem exists_kind?_eq_schema {declaration : SchemaDeclaration}
    (member : .schema declaration ∈ program.declared) :
    ∃ schema,
      program.kind? declaration.name =
        some (.schema schema (declaration.parent.map Located.value)) ∧
      schema.parameters = declaration.parameters := by
  rcases exists_completed distinct member with ⟨fields, found⟩
  refine ⟨{ name := declaration.name, parameters := declaration.parameters,
            fields := fields }, ?_, rfl⟩
  refine (kind?_of_mem distinct member).trans ?_
  simp only [kindOf, found]

/--
What is closed over the declarations is closed over what their names stand for
in the end.
-/
theorem closed_of_closed_heads {type : Ty}
    (closed : type.Closed (Heads program.declared)) :
    type.Closed fun name kind => program.kind? name = some kind := by
  apply closed.mono
  · rintro name schema parent ⟨declaration, member, rfl, head⟩
    cases declaration with
    | schema declaration =>
        cases head
        rcases exists_kind?_eq_schema distinct member with
          ⟨content, known, same⟩
        exact ⟨content, _, known, same⟩
    | _ => contradiction
  · rintro name variants ⟨declaration, member, rfl, head⟩
    cases declaration with
    | enumeration declaration =>
        rw [← head]
        exact kind?_of_mem distinct member
    | _ => contradiction

/--
Going from a schema to its parent and on ends, since its fields are found that
way.
-/
theorem exists_iterate_parentOf?_eq_none {table : SymbolTable}
    (same : ∀ name, table.kind? name = program.kind? name)
    {number : String → Nat → Nat} {name : String} {fields : List (String × Ty)}
    (typed : HasFields program.declared number name fields) :
    ∃ count,
      (fun next => next.bind table.parentOf?)^[count] (some name) = none := by
  have parentOf? : ∀ declaration, .schema declaration ∈ program.declared →
      table.parentOf? declaration.name =
        declaration.parent.map Located.value := by
    intro declaration member
    rcases exists_kind?_eq_schema distinct member with ⟨content, known, -⟩
    rw [SymbolTable.parentOf?, SymbolTable.schema?, same, known]
    rfl
  induction typed with
  | @root declaration _ member orphan _ =>
      refine ⟨1, ?_⟩
      show table.parentOf? declaration.name = none
      rw [parentOf? declaration member, orphan]
      rfl
  | @child declaration parent _ _ member written _ _ ih =>
      rcases ih with ⟨count, ended⟩
      refine ⟨count + 1, ?_⟩
      have step : (some declaration.name).bind table.parentOf? =
          some parent.value := by
        show table.parentOf? declaration.name = some parent.value
        rw [parentOf? declaration member, written]
        rfl
      rw [Function.iterate_succ_apply, step]
      exact ended

end Program

/-! ## Accepted programs -/

/--
A table in which names stand for what the declarations of a well-typed program
mean is closed.
-/
theorem WellTyped.closed {config : Config} {program : Program}
    (distinct : (program.map Declaration.name).Nodup)
    (wellTyped : WellTyped config program.declared program.number)
    {table : SymbolTable} (same : ∀ name, table.kind? name = program.kind? name)
    (found : ∀ symbol ∈ table.globals,
      table.kind? symbol.name = some symbol.kind) : table.Closed := by
  have resolved := wellTyped.toResolved
  have stands : ∀ symbol ∈ table.globals,
      HasKind program.declared program.number symbol.name symbol.kind := by
    intro symbol member
    rw [← Program.kind?_eq_some_iff_hasKind distinct resolved, ← same]
    exact found symbol member
  have closed : ∀ symbol ∈ table.globals, ∀ type ∈ symbol.kind.types,
      type.Closed fun name kind => table.kind? name = some kind := by
    intro symbol member type listed
    rcases stands symbol member with ⟨declaration, -, -, stands⟩
    simp only [same]
    exact Program.closed_of_closed_heads distinct (stands.closed type listed)
  constructor
  case known =>
    intro symbol member type listed occurs
    exact closed symbol member type listed .unknown occurs
  case units =>
    intro symbol member
    rcases stands symbol member with ⟨declaration, -, -, stands⟩
    exact stands.ne_unit_none
  case handles =>
    intro symbol member type listed name arguments parameters fields occurs
    exact closed symbol member type listed _ occurs
  case enumerations =>
    intro symbol member type listed name variants occurs
    exact closed symbol member type listed _ occurs
  case steps =>
    intro symbol member steps isPipeline step listed
    rcases stands symbol member with ⟨declaration, declared, -, stands⟩
    rw [isPipeline] at stands
    rcases stands.exists_pipeline with ⟨content, rfl, rfl⟩
    rcases List.mem_map.mp listed with ⟨located, written, rfl⟩
    rcases (wellTyped.pipelines content declared).steps located written with
      ⟨transform, performed, named⟩
    rcases exists_hasSignature resolved performed with ⟨signature, typed⟩
    refine ⟨signature, ?_⟩
    rw [same, Program.kind?_eq_some_iff_hasKind distinct resolved]
    exact ⟨_, performed, named, signature, typed, rfl⟩
  case parents =>
    intro symbol member schema parent isSchema
    rcases stands symbol member with ⟨declaration, declared, -, stands⟩
    rw [isSchema] at stands
    rcases stands.exists_schema with ⟨content, rfl, -, written⟩
    rcases Option.map_eq_some_iff.mp written.symm with ⟨located, above, rfl⟩
    rcases resolved.parents content located declared above with
      ⟨other, otherDeclared, named⟩
    rcases Program.exists_kind?_eq_schema distinct otherDeclared with
      ⟨parentSchema, known, -⟩
    rw [same, ← named]
    exact ⟨parentSchema, _, known⟩
  case ends =>
    intro symbol member schema parent isSchema
    rcases stands symbol member with ⟨declaration, -, named, stands⟩
    rw [isSchema] at stands
    rcases stands.exists_schema with ⟨content, rfl, typed, -⟩
    rw [← named]
    exact Program.exists_iterate_parentOf?_eq_none distinct same typed

/--
The analysis of an accepted program leaves every declaration a symbol, and a
global scope without loose ends.
-/
theorem closed_table_analyze (config : Config) (program : Program)
    (accepted : (analyze config program).isAccepted = true) :
    (∀ declaration ∈ program, ∃ symbol ∈ (analyze config program).table.globals,
      symbol.name = declaration.name ∧
        symbol.kind.text = declaration.placeholder.text) ∧
    (analyze config program).table.Closed := by
  have wellFormed := (Analysis.reachable_analyze config program).wellFormed
  have same := Analysis.kind?_analyze config program
  rw [Analysis.isAccepted_analyze_iff,
    Program.faults_eq_nil_iff_wellTyped] at accepted
  rcases accepted with ⟨distinct, wellTyped⟩
  refine ⟨fun declaration member => ?_, ?_⟩
  · have known :=
      (same declaration.name).trans (Program.kind?_of_mem distinct member)
    rcases wellFormed.exists_mem_globals known with
      ⟨symbol, stored, named, kind⟩
    have stands :=
      (Program.kindOf_eq_iff_standsFor distinct wellTyped.toResolved member).mp
        rfl
    exact ⟨symbol, stored, named, by rw [kind, stands.text_eq]⟩
  · exact wellTyped.closed distinct same fun symbol =>
      wellFormed.kind?_of_mem_globals

/--
A program with every form of declaration: a schema that mentions itself, an
heir, and types inside types.
-/
def shipping : Program :=
  [.pipeline
    { name := "Twice", steps := [⟨"Copy", .unknown⟩, ⟨"Copy", .unknown⟩] },
    .transform
      { name := "Copy"
        sources :=
          [{ name := some "order", type := .schemaName .unknown "Rush" }]
        target := .schemaName .unknown "Order"
        rules :=
          [{ target := [⟨"state", .unknown⟩]
             value :=
               .path .unknown .source [.field .unknown "state" false] }] },
    .lookup
      { name := "Zones"
        keys := [.primitive .unknown .string, .enumName .unknown "State"]
        value :=
          .union .unknown
            [.schemaName .unknown "Order", .schemaName .unknown "Rush"] },
    .schema
      { name := "Rush"
        parent := some ⟨"Order", .unknown⟩
        fields :=
          [{ name := "deadline", type := .primitive .unknown .string }] },
    .schema
      { name := "Order"
        fields :=
          [{ name := "state",
             type := .optional .unknown (.enumName .unknown "State") },
            { name := "weight",
              type := .quantity .unknown (.reference .unknown "kg") },
            { name := "parts",
              type :=
                .generic .unknown "Page" [.schemaName .unknown "Order"] }] },
    .schema
      { name := "Page"
        parameters := ["T"]
        fields :=
          [{ name := "items",
             type := .array .unknown (.schemaName .unknown "T") },
            { name := "next",
              type :=
                .optional .unknown
                  (.generic .unknown "Page" [.schemaName .unknown "T"]) }] },
    .enumeration
      { name := "State", variants := [⟨"open", .unknown⟩, ⟨"done", .unknown⟩] },
    .unit { name := "kg", dimension := some ⟨"mass", .unknown⟩ },
    .dimension { name := "mass" }]

/--
An accepted program has an entry for each declaration, with closed types only.
-/
theorem closed_table_analyze_shipping :
    (analyze {} shipping).isAccepted = true ∧
    (∀ declaration ∈ shipping, ∃ symbol ∈ (analyze {} shipping).table.globals,
      symbol.name = declaration.name ∧
        symbol.kind.text = declaration.placeholder.text) ∧
    (analyze {} shipping).table.Closed := by
  have accepted : (analyze {} shipping).isAccepted = true := by decide +kernel
  exact ⟨accepted, closed_table_analyze {} shipping accepted⟩

end SchemaMap
