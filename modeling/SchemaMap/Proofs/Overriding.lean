import SchemaMap.Builder
import SchemaMap.Proofs.Analysis.Owners
import SchemaMap.Proofs.Order

/-!
# Inheritance with overriding

Schemas are completed on demand: a parent that is not complete is completed on
the way, fields are copied from it, and the fields that a schema declares itself
are put among them one by one.  `fieldsOf_withSchemas_overrides` says what the
table stores in the end, wherever the chain of parents ends: the fields of the
parent, overridden by those of the schema.  The fields are therefore those of
the nearest declarations, in whatever order the schemas are declared.

A schema is completed when its parent is complete or never will be
(`Built.ready`), so what was copied from the parent is what the table has for it
in the end (`Built.fieldsOf_eq`).  The statements about all ancestors follow by
induction along the chain of parents (`ChainEnds.acc`).
-/

namespace SchemaMap

/--
The type of a field, which is unknown where the type expression does not
resolve.
-/
def Names.fieldType (names : Names) (parameters : List (String × Ty))
    (expression : TypeExpr) : Ty :=
  (names.resolve parameters expression).toOption.getD .unknown

/-- The fields that a schema declares itself, with their types. -/
def SchemaDeclaration.ownFields (names : Names) (number : String → Nat → Nat)
    (declaration : SchemaDeclaration) :
    List (String × Ty) :=
  declaration.fields.map fun field =>
    (field.name, names.fieldType (declaration.typeVariables number) field.type)

theorem lookup_map_key {α : Type} (entries : List α) (key : α → String)
    (value : α → Ty) (wanted : String) :
    (entries.map fun entry => (key entry, value entry)).lookup wanted =
      (entries.find? fun entry => key entry == wanted).map value := by
  induction entries with
  | nil => rfl
  | cons entry rest ih =>
      rw [List.map_cons, lookup_cons_eq, ih]
      by_cases same : key entry = wanted <;> simp [same]

/--
Under a name there is the last field of that name that the schema declares.
-/
theorem SchemaDeclaration.lookup_reverse_ownFields {names : Names}
    {number : String → Nat → Nat} (declaration : SchemaDeclaration)
    (name : String) :
    (declaration.ownFields names number).reverse.lookup name =
      (declaration.fields.reverse.find? fun field => field.name == name).map
        fun field =>
        names.fieldType (declaration.typeVariables number) field.type := by
  rw [ownFields, ← List.map_reverse]
  exact lookup_map_key _ _ _ name

namespace SchemaFields

variable {names : Names} {declarations : List SchemaDeclaration}
  {state : SchemaFields}

theorem declaredFields_cons_fst (parameters fields : List (String × Ty))
    (field : FieldDeclaration) (rest : List FieldDeclaration) :
    (declaredFields names parameters fields (field :: rest)).1 =
      (declaredFields names parameters
        (putField fields field.name (names.fieldType parameters field.type))
        rest).1 := by
  cases resolved : names.resolve parameters field.type <;>
    simp [declaredFields, Names.fieldType, resolved, Except.toOption]

/-- The declared fields are put one after the other. -/
theorem declaredFields_fst (parameters fields : List (String × Ty))
    (declared : List FieldDeclaration) :
    (declaredFields names parameters fields declared).1 =
      putFields fields
        (declared.map fun field =>
          (field.name, names.fieldType parameters field.type)) := by
  induction declared generalizing fields with
  | nil => rfl
  | cons field rest ih =>
      exact (declaredFields_cons_fst parameters fields field rest).trans (ih _)

/-- The fields of the schema of a name, none if it is not complete. -/
def fieldsOf (state : SchemaFields) (name : String) : List (String × Ty) :=
  ((state.completed.lookup name).map Schema.fields).getD []

/-- A schema inherits the fields of its parent, and none if it has no parent. -/
theorem inherited_eq (state : SchemaFields) (declaration : SchemaDeclaration) :
    state.inherited declaration =
      (declaration.parent.map Located.value).elim [] state.fieldsOf := by
  cases written : declaration.parent <;> simp [inherited, fieldsOf, written]

/--
Completing a schema does not change the fields of those that are complete or
have another name.
-/
theorem fieldsOf_complete_of_ne {declaration : SchemaDeclaration}
    {name : String} (known : state.Holds name ∨ name ≠ declaration.name) :
    (state.complete names declaration).fieldsOf name = state.fieldsOf name := by
  rw [fieldsOf, fieldsOf, complete_eq, lookup_concat]
  rcases known with holds | apart
  · rw [Option.or_of_isSome holds]
  · rw [if_neg apart, Option.or_none]

/--
A schema that is completed has the fields that its declaration puts together.
-/
theorem fieldsOf_complete_self {declaration : SchemaDeclaration}
    (fresh : ¬ state.Holds declaration.name) :
    (state.complete names declaration).fieldsOf declaration.name =
      (state.ownFields names declaration).1 := by
  have absent : state.completed.lookup declaration.name = none :=
    Option.not_isSome_iff_eq_none.mp fresh
  rw [fieldsOf, complete_eq, lookup_concat, absent, if_pos rfl]
  rfl

namespace Built

/-- A complete schema has a parent that is ready. -/
theorem ready (built : Built names declarations state)
    (distinct : (declarations.map SchemaDeclaration.name).Nodup)
    {declaration : SchemaDeclaration} (member : declaration ∈ declarations)
    (holds : state.Holds declaration.name) {parent : Located String}
    (written : declaration.parent = some parent) :
    Ready declarations state parent.value := by
  induction built with
  | start => simp [Holds] at holds
  | @complete state other before otherMember fresh ready ih =>
      have kept : Ready declarations state parent.value →
          Ready declarations (state.complete names other) parent.value :=
        Or.imp_left fun holds => holds_complete_iff.mpr (.inl holds)
      rcases holds_complete_iff.mp holds with older | newest
      · exact kept (ih older)
      · cases List.inj_on_of_nodup_map distinct member otherMember newest
        exact kept (ready parent written)

/-- Names of fields are distinct. -/
theorem nodup_names_fieldsOf (built : Built names declarations state)
    (name : String) :
    ((state.fieldsOf name).map Prod.fst).Nodup := by
  induction built generalizing name with
  | start => exact List.nodup_nil
  | @complete state declaration before member fresh ready ih =>
      by_cases same : name = declaration.name
      · subst same
        rw [fieldsOf_complete_self fresh, SchemaFields.ownFields,
          declaredFields_fst, inherited_eq]
        apply nodup_names_putFields
        cases declaration.parent with
        | none => exact List.nodup_nil
        | some parent => exact ih parent.value
      · rw [fieldsOf_complete_of_ne (.inr same)]
        exact ih name

/--
Completing a schema does not change what is taken over from a parent that is
ready.
-/
theorem fieldsOf_complete_of_ready {other : SchemaDeclaration}
    (member : other ∈ declarations) {name : String}
    (ready : Ready declarations state name)
    (acyclic : ¬ Relation.TransGen (Inherits (· ∈ declarations)) name name) :
    (state.complete names other).fieldsOf name = state.fieldsOf name := by
  apply fieldsOf_complete_of_ne
  rcases ready with holds | undeclared | cyclic
  · exact .inl holds
  · exact .inr fun same => undeclared other member same.symm
  · exact absurd cyclic acyclic

/--
The fields of a schema whose parent is on no cycle are those of its parent,
overridden by its own.
-/
theorem fieldsOf_eq (built : Built names declarations state)
    (distinct : (declarations.map SchemaDeclaration.name).Nodup)
    {number : String → Nat → Nat}
    (agrees : ∀ name, state.Holds name →
      ∀ index, number name index = offset state.completed name + index)
    {declaration : SchemaDeclaration} (member : declaration ∈ declarations)
    (holds : state.Holds declaration.name)
    (acyclic : ∀ parent, declaration.parent = some parent →
      ¬ Relation.TransGen (Inherits (· ∈ declarations)) parent.value
        parent.value) :
    state.fieldsOf declaration.name =
      putFields ((declaration.parent.map Located.value).elim [] state.fieldsOf)
        (declaration.ownFields names number) := by
  induction built with
  | start => simp [Holds] at holds
  | @complete state other before otherMember fresh ready ih =>
      -- The parent is complete or never will be, so `other` does not change
      -- what is taken over from it.
      have inherited
          (ready : ∀ parent, declaration.parent = some parent →
            Ready declarations state parent.value) :
          (declaration.parent.map Located.value).elim []
            (state.complete names other).fieldsOf =
            (declaration.parent.map Located.value).elim [] state.fieldsOf := by
        cases written : declaration.parent with
        | none => rfl
        | some parent =>
            exact fieldsOf_complete_of_ready otherMember (ready parent written)
              (acyclic parent written)
      rcases holds_complete_iff.mp holds with older | newest
      · have earlier :=
          ih (fun name holds => agrees_before agrees (.inl holds)) older
        rw [fieldsOf_complete_of_ne (.inl older),
          inherited fun _ => before.ready distinct member older]
        exact earlier
      · cases List.inj_on_of_nodup_map distinct member otherMember newest
        have parameters :=
          before.typeVariables_eq fresh (agrees_before agrees (.inr rfl))
        rw [fieldsOf_complete_self fresh, inherited ready,
          SchemaFields.ownFields, declaredFields_fst, inherited_eq, parameters]
        rfl

end Built

end SchemaFields

/-! ## Chains of parents -/

namespace SymbolTable

variable {table : SymbolTable} {name : String}

/-- Going from a schema to its parent and on comes to an end. -/
def ChainEnds (table : SymbolTable) (name : String) : Prop :=
  ∃ count, (fun next => next.bind table.parentOf?)^[count] (some name) = none

/-- The way up from a schema is the way up from its parent, one step later. -/
theorem Follows.iterate_succ {parent : String}
    (follows : table.Follows name parent) (count : Nat) :
    (fun next => next.bind table.parentOf?)^[count + 1] (some name) =
      (fun next => next.bind table.parentOf?)^[count] (some parent) := by
  rw [Function.iterate_succ_apply, Option.bind_some,
    show table.parentOf? name = some parent from follows]

/-- If the way up from a schema ends, so does the way up from its parent. -/
theorem ChainEnds.parent (ends : table.ChainEnds name) {parent : String}
    (follows : table.Follows name parent) :
    table.ChainEnds parent := by
  rcases ends with ⟨count, ends⟩
  cases count with
  | zero => contradiction
  | succ count => exact ⟨count, (follows.iterate_succ count).symm.trans ends⟩

/-- Where the chain of parents ends, it can be gone along by induction. -/
theorem ChainEnds.acc (ends : table.ChainEnds name) :
    Acc (Function.swap table.Follows) name := by
  rcases ends with ⟨count, ends⟩
  induction count generalizing name with
  | zero => contradiction
  | succ count ih =>
      apply Acc.intro
      intro parent (follows : table.Follows name parent)
      exact ih ((follows.iterate_succ count).symm.trans ends)

/--
The fields that a table stores for a schema; a name that is not that of a schema
has none.
-/
def fieldsOf (table : SymbolTable) (name : String) : List (String × Ty) :=
  ((table.schema? name).map fun found => found.1.fields).getD []

end SymbolTable

/-! ## Programs -/

namespace Program

variable {program : Program}

/-- The analysis of a program up to its schemas. -/
def withSchemas (program : Program) : Analysis :=
  let (table, faults) := SymbolTable.empty.register program
  let owned := table.ownedDeclarations program
  let units := Analysis.unitTable table owned
  Analysis.withSchemas units owned
    (Analysis.withUnits units owned { table := table, faults := faults })

theorem mem_schemas_owners_iff {declaration : SchemaDeclaration} :
    declaration ∈ program.owners.filterMap Declaration.schema? ↔
      program.owner? declaration.name = some (.schema declaration) := by
  rw [mem_filterMap_schema?_iff]
  exact mem_owners_iff

/-- The schemas that own their names have distinct names. -/
theorem nodup_names_schemas_owners (program : Program) :
    ((program.owners.filterMap Declaration.schema?).map
      SchemaDeclaration.name).Nodup :=
  nodup_map_filterMap (fun _ _ => Declaration.schema?_eq_some_iff)
    program.nodup_names_owners

theorem bind_schema?_eq_some_iff {name : String}
    {declaration : SchemaDeclaration} :
    (program.owner? name).bind Declaration.schema? = some declaration ↔
      program.owner? name = some (.schema declaration) := by
  simp only [Option.bind_eq_some_iff, Declaration.schema?_eq_some_iff,
    exists_eq_right]

theorem owner?_self {name : String} {declaration : SchemaDeclaration}
    (owner : program.owner? name = some (.schema declaration)) :
    program.owner? declaration.name = some (.schema declaration) := by
  have named : declaration.name = name := name_of_owner? owner
  rw [named, owner]

/-- After the schemas every name stands for what it is found to be by then. -/
theorem kind?_withSchemas (program : Program) (name : String) :
    program.withSchemas.table.kind? name =
      (program.owner? name).map fun declaration =>
      (program.found 4 [] declaration).kind := by
  have stage := (Analysis.stage_withSchemas
    (Analysis.stage_withUnits program
      (SymbolTable.empty.register program).2).1).1
  simp only [withSchemas, SymbolTable.register_fst, Analysis.unitTable_entries]
  exact stage.kinds name

/--
Completion goes through the schemas that own their names, and completes them
all.
-/
theorem built_fields_owners (program : Program) :
    SchemaFields.Built program.names
      (program.owners.filterMap Declaration.schema?) program.fields ∧
      ∀ declaration,
        program.owner? declaration.name = some (.schema declaration) →
        program.fields.Holds declaration.name := by
  have built :=
    SchemaFields.built_ofDeclarations program.names
      (program.owners.filterMap Declaration.schema?)
  exact ⟨built.1,
    fun declaration owner =>
      built.2 declaration (mem_schemas_owners_iff.mpr owner)⟩

/-- A schema as it is completed. -/
def completed (program : Program) (declaration : SchemaDeclaration) : Schema :=
  { name := declaration.name
    parameters := declaration.parameters
    fields := program.fields.fieldsOf declaration.name }

theorem kindOf_schema {declaration : SchemaDeclaration}
    (owner : program.owner? declaration.name = some (.schema declaration)) :
    program.kindOf (.schema declaration) =
      .schema (program.completed declaration)
        (declaration.parent.map Located.value) := by
  rcases built_fields_owners program with ⟨built, complete⟩
  rcases Option.isSome_iff_exists.mp (complete declaration owner) with
    ⟨schema, found⟩
  rcases built.declared found with ⟨other, member, named, content⟩
  have otherOwner := mem_schemas_owners_iff.mp member
  rw [named, owner] at otherOwner
  cases otherOwner
  simp only [kindOf, found, completed, SchemaFields.fieldsOf, Option.map_some,
    Option.getD_some]
  rw [content]

/-- An owner is completed to a schema exactly when it declares one. -/
theorem schema?_kindOf {name : String} {declaration : Declaration}
    (owner : program.owner? name = some declaration) :
    (program.kindOf declaration).schema? =
      declaration.schema?.map fun schema =>
        (program.completed schema, schema.parent.map Located.value) := by
  cases declaration with
  | schema declaration =>
      exact congrArg Kind.schema? (kindOf_schema (owner?_self owner))
  | unit declaration =>
      cases value : program.units.find declaration.name <;>
        simp [kindOf, value, Kind.schema?] <;> rfl
  | lookup declaration =>
      cases types : program.names.lookup declaration <;>
        simp [kindOf, types, Kind.schema?] <;> rfl
  | transform declaration =>
      cases signature : program.names.signature declaration <;>
        simp [kindOf, signature, Kind.schema?] <;> rfl
  | _ => rfl

/-- In the end, the table holds the completed schemas. -/
theorem schema?_analyze (config : Config) (program : Program) (name : String) :
    (analyze config program).table.schema? name =
      ((program.owner? name).bind Declaration.schema?).map fun declaration =>
        (program.completed declaration,
          declaration.parent.map Located.value) := by
  rw [SymbolTable.schema?, Analysis.kind?_analyze, kind?]
  cases owner : program.owner? name with
  | none => rfl
  | some declaration => exact schema?_kindOf owner

/-- The table holds the completed schemas already after their phase. -/
theorem schema?_withSchemas (program : Program) (name : String) :
    program.withSchemas.table.schema? name =
      ((program.owner? name).bind Declaration.schema?).map fun declaration =>
        (program.completed declaration,
          declaration.parent.map Located.value) := by
  rw [SymbolTable.schema?, kind?_withSchemas]
  cases owner : program.owner? name with
  | none => rfl
  | some declaration =>
      cases declaration with
      | schema declaration => exact schema?_kindOf owner
      | unit declaration => exact schema?_kindOf owner
      | _ => rfl

/-- The fields in the table are those that completion found. -/
theorem fieldsOf_withSchemas (program : Program) (name : String) :
    program.withSchemas.table.fieldsOf name = program.fields.fieldsOf name := by
  rw [SymbolTable.fieldsOf, schema?_withSchemas]
  cases view : (program.owner? name).bind Declaration.schema? with
  | some declaration =>
      rw [← name_of_owner? (bind_schema?_eq_some_iff.mp view)]
      rfl
  | none =>
      have absent : program.fields.completed.lookup name = none := by
        apply Option.eq_none_iff_forall_ne_some.mpr
        intro schema found
        rcases (built_fields_owners program).1.declared found with
          ⟨declaration, member, rfl, -⟩
        rw [mem_schemas_owners_iff.mp member] at view
        contradiction
      rw [SchemaFields.fieldsOf, absent]
      rfl

/-- After the schemas the parent of a name is the one that its owner writes. -/
theorem parentOf?_withSchemas (program : Program) (name : String) :
    program.withSchemas.table.parentOf? name =
      ((program.owner? name).bind Declaration.schema?).bind fun declaration =>
        declaration.parent.map Located.value := by
  rw [SymbolTable.parentOf?, schema?_withSchemas, Option.bind_map]
  rfl

/-- Parents in the table are those that the schemas of the program have. -/
theorem follows_withSchemas (program : Program) :
    program.withSchemas.table.Follows =
      Inherits (· ∈ program.owners.filterMap Declaration.schema?) := by
  ext child parent
  rw [SymbolTable.Follows, parentOf?_withSchemas]
  constructor
  · intro follows
    rcases Option.bind_eq_some_iff.mp follows with ⟨declaration, view, written⟩
    rcases Option.map_eq_some_iff.mp written with
      ⟨located, parentWritten, value⟩
    have owner := bind_schema?_eq_some_iff.mp view
    exact ⟨declaration, located, mem_schemas_owners_iff.mpr (owner?_self owner),
      name_of_owner? owner, parentWritten, value⟩
  · rintro ⟨declaration, located, member, rfl, written, rfl⟩
    rw [bind_schema?_eq_some_iff.mpr (mem_schemas_owners_iff.mp member),
      Option.bind_some, written, Option.map_some]

/-! ## Fields of a schema -/

section

variable {declaration : SchemaDeclaration}
  (owner : program.owner? declaration.name = some (.schema declaration))

include owner

theorem parentOf?_of_owner? :
    program.withSchemas.table.parentOf? declaration.name =
      declaration.parent.map Located.value := by
  rw [parentOf?_withSchemas, owner]
  rfl

theorem follows_of_owner? {parent : Located String}
    (written : declaration.parent = some parent) :
    program.withSchemas.table.Follows declaration.name parent.value := by
  rw [SymbolTable.Follows, parentOf?_of_owner? owner, written, Option.map_some]

/--
Where the chain of parents ends, the fields of a schema are those of its parent,
with its own put in.
-/
theorem fieldsOf_eq_putFields
    (ends : program.withSchemas.table.ChainEnds declaration.name) :
    program.withSchemas.table.fieldsOf declaration.name =
      putFields ((declaration.parent.map Located.value).elim []
        program.withSchemas.table.fieldsOf)
        (declaration.ownFields program.names program.number) := by
  have stored : program.withSchemas.table.fieldsOf = program.fields.fieldsOf :=
    funext program.fieldsOf_withSchemas
  rcases built_fields_owners program with ⟨built, complete⟩
  rw [stored]
  apply built.fieldsOf_eq program.nodup_names_schemas_owners (fun _ _ _ => rfl)
    (mem_schemas_owners_iff.mpr owner) (complete declaration owner)
  intro parent written
  rw [← follows_withSchemas]
  exact not_transGen_self_of_acc
    (ends.parent (follows_of_owner? owner written)).acc

end

/-- Names of fields are distinct, whether or not the chain of parents ends. -/
theorem nodup_names_withSchemas (program : Program) (name : String) :
    ((program.withSchemas.table.fieldsOf name).map Prod.fst).Nodup := by
  rw [fieldsOf_withSchemas]
  exact (built_fields_owners program).1.nodup_names_fieldsOf name

/--
Where the chain of parents ends, the fields of a schema are those of its parent,
overridden by its own.
-/
theorem fieldsOf_eq_foldl_override {declaration : SchemaDeclaration}
    (owner : program.owner? declaration.name = some (.schema declaration))
    (ends : program.withSchemas.table.ChainEnds declaration.name) :
    program.withSchemas.table.fieldsOf declaration.name =
      (declaration.ownFields program.names program.number).foldl override
        ((program.withSchemas.table.parentOf? declaration.name).elim []
          program.withSchemas.table.fieldsOf) := by
  rw [parentOf?_of_owner? owner, fieldsOf_eq_putFields owner ends]
  apply putFields_eq_foldl_override
  cases declaration.parent with
  | none => exact List.nodup_nil
  | some parent => exact program.nodup_names_withSchemas parent.value

/--
The type of a field, from the nearest schema on the chain of parents that
declares the field.
-/
inductive NearestField (program : Program) : String → String → Ty → Prop where
  | own {declaration : SchemaDeclaration} {field : FieldDeclaration}
      {name : String}
      (owner : program.owner? declaration.name = some (.schema declaration))
      (last : declaration.fields.reverse.find?
        (fun candidate => candidate.name == name) = some field) :
      NearestField program declaration.name name
        (program.names.fieldType (declaration.typeVariables program.number)
          field.type)
  | inherited {declaration : SchemaDeclaration} {parent : Located String}
      {name : String} {type : Ty}
      (owner : program.owner? declaration.name = some (.schema declaration))
      (absent : ∀ field ∈ declaration.fields, field.name ≠ name)
      (written : declaration.parent = some parent)
      (above : NearestField program parent.value name type) :
      NearestField program declaration.name name type

/-- The fields of all ancestors are there. -/
theorem names_subset_of_reflTransGen {name ancestor : String}
    (above : Relation.ReflTransGen program.withSchemas.table.Follows name
      ancestor)
    (ends : program.withSchemas.table.ChainEnds name) :
    (program.withSchemas.table.fieldsOf ancestor).map Prod.fst ⊆
      (program.withSchemas.table.fieldsOf name).map Prod.fst := by
  induction above using Relation.ReflTransGen.head_induction_on with
  | refl => exact List.Subset.refl _
  | @head name parent follows _ ih =>
      have inherited : Inherits
          (· ∈ program.owners.filterMap Declaration.schema?) name parent := by
        rw [← follows_withSchemas]
        exact follows
      rcases inherited with ⟨declaration, located, member, rfl, written, rfl⟩
      apply List.Subset.trans (ih (ends.parent follows))
      intro field listed
      rw [fieldsOf_eq_putFields (mem_schemas_owners_iff.mp member) ends,
        written, ← lookup_isSome_iff, lookup_putFields, Option.isSome_or,
        Bool.or_eq_true]
      exact .inr (lookup_isSome_iff.mpr listed)

/--
The nearest declaration of a field is the last one of the schema itself, or else
the nearest one of its parent.
-/
theorem nearestField_iff {declaration : SchemaDeclaration}
    (owner : program.owner? declaration.name = some (.schema declaration))
    {name : String} {type : Ty} :
    program.NearestField declaration.name name type ↔
      (∃ field,
        declaration.fields.reverse.find?
          (fun candidate => candidate.name == name) = some field ∧
        program.names.fieldType (declaration.typeVariables program.number)
          field.type = type) ∨
      (declaration.fields.reverse.find?
        (fun candidate => candidate.name == name) = none ∧
        ∃ parent, declaration.parent = some parent ∧
          program.NearestField parent.value name type) := by
  have absent_iff : declaration.fields.reverse.find?
      (fun candidate => candidate.name == name) = none ↔
      ∀ field ∈ declaration.fields, field.name ≠ name := by simp
  rw [absent_iff]
  constructor
  · intro nearest
    generalize same : declaration.name = start at nearest
    cases nearest with
    | own otherOwner last =>
        rw [← same, owner] at otherOwner
        cases otherOwner
        exact .inl ⟨_, last, rfl⟩
    | inherited otherOwner absent written above =>
        rw [← same, owner] at otherOwner
        cases otherOwner
        exact .inr ⟨absent, _, written, above⟩
  · rintro (⟨field, last, rfl⟩ | ⟨absent, parent, written, above⟩)
    · exact .own owner last
    · exact .inherited owner absent written above

/-- What is found under a name is the type of the nearest declaration. -/
theorem lookup_fieldsOf_iff_nearestField {start : String}
    (ends : program.withSchemas.table.ChainEnds start) {name : String}
    {type : Ty} :
    (program.withSchemas.table.fieldsOf start).lookup name = some type ↔
      program.NearestField start name type := by
  have accessible := ends.acc
  induction accessible with
  | intro start _ above =>
      cases view : (program.owner? start).bind Declaration.schema? with
      | none =>
          rw [SymbolTable.fieldsOf, schema?_withSchemas, view]
          constructor
          · intro found
            contradiction
          · intro nearest
            cases nearest with
            | own owner => simp [owner, Declaration.schema?] at view
            | inherited owner => simp [owner, Declaration.schema?] at view
      | some declaration =>
          have owner := bind_schema?_eq_some_iff.mp view
          have named : declaration.name = start := name_of_owner? owner
          subst named
          rw [fieldsOf_eq_putFields owner ends, lookup_putFields,
            SchemaDeclaration.lookup_reverse_ownFields, nearestField_iff owner]
          cases declaration.fields.reverse.find? fun candidate =>
            candidate.name == name with
          | some field => simp
          | none =>
              cases written : declaration.parent with
              | none => simp
              | some parent =>
                  have follows := follows_of_owner? owner written
                  simpa using above parent.value follows (ends.parent follows)

/-! ## The order of declarations -/

/-- What names stand for is a matter of the owners. -/
theorem names_eq_names_owners (program : Program) :
    program.names = names program.owners :=
  names_eq_of_owners_eq (owners_eq_of_nodup program.nodup_names_owners).symm

/-- The numbers of type variables are a matter of the owners. -/
theorem number_eq_number_owners (program : Program) :
    program.number = number program.owners := by
  rw [number, number,
    fields_eq_of_owners_eq (owners_eq_of_nodup program.nodup_names_owners).symm]

theorem injOn_number_owners (program : Program) :
    Set.InjOn (fun entry : String × Nat => program.number entry.1 entry.2)
      (typeVariablesOf (declared program.owners)) := by
  rw [number_eq_number_owners]
  exact injOn_number program.nodup_names_owners

/-- A type expression resolves to its meaning among the owners. -/
theorem resolve_eq_ok_iff_means_owners {parameters : List (String × Ty)}
    {expression : TypeExpr} {type : Ty} :
    program.names.resolve parameters expression = .ok type ↔
      Means (declared program.owners) parameters expression type := by
  rw [names_eq_names_owners]
  exact resolve_eq_ok_iff_means program.nodup_names_owners

section

variable {other : Program}
  (same : ∀ name, other.owner? name = program.owner? name)

include same

theorem declared_owners_eq :
    declared other.owners = declared program.owners := by
  ext declaration
  show declaration ∈ other.owners ↔ declaration ∈ program.owners
  rw [mem_owners_iff, mem_owners_iff, same]

theorem parentOf?_withSchemas_eq :
    other.withSchemas.table.parentOf? =
      program.withSchemas.table.parentOf? := by
  funext name
  rw [parentOf?_withSchemas, parentOf?_withSchemas, same]

variable {rename back : Nat → Nat} (injective : Function.Injective rename)
  (backInjective : Function.Injective back)
  (renumbers : Renumbers (declared program.owners) rename program.number
    other.number)
  (backRenumbers : Renumbers (declared program.owners) back other.number
    program.number)

include injective backInjective renumbers backRenumbers

/-- The type of a field is the same up to the numbers of type variables. -/
theorem fieldType_renamed {declaration : SchemaDeclaration}
    (owner : program.owner? declaration.name = some (.schema declaration))
    (expression : TypeExpr) :
    other.names.fieldType (declaration.typeVariables other.number) expression =
      (program.names.fieldType (declaration.typeVariables program.number)
        expression).renamed rename := by
  have member : .schema declaration ∈ declared program.owners :=
    mem_owners_iff.mpr owner
  cases resolved : program.names.resolve
    (declaration.typeVariables program.number) expression with
  | ok type =>
      have renamed :=
        means_renamed injective (resolve_eq_ok_iff_means_owners.mp resolved)
      rw [renumbers.typeVariables member, ← declared_owners_eq same,
        ← resolve_eq_ok_iff_means_owners] at renamed
      simp [Names.fieldType, resolved, renamed, Except.toOption]
  | error fault =>
      cases otherResolved : other.names.resolve
        (declaration.typeVariables other.number) expression with
      | ok type =>
          have renamed :=
            means_renamed backInjective
              (resolve_eq_ok_iff_means_owners.mp otherResolved)
          rw [declared_owners_eq same, backRenumbers.typeVariables member,
            ← resolve_eq_ok_iff_means_owners, resolved] at renamed
          contradiction
      | error otherFault =>
          simp [Names.fieldType, resolved, otherResolved, Except.toOption,
            Ty.renamed]

theorem ownFields_renamed {declaration : SchemaDeclaration}
    (owner : program.owner? declaration.name = some (.schema declaration)) :
    declaration.ownFields other.names other.number =
      (declaration.ownFields program.names program.number).map
        (Prod.map id (Ty.renamed rename)) := by
  rw [SchemaDeclaration.ownFields, SchemaDeclaration.ownFields, List.map_map]
  apply List.map_congr_left
  intro field _
  rw [fieldType_renamed same injective backInjective renumbers backRenumbers
    owner]
  rfl

/--
A schema whose way up ends has the same fields up to the numbers of type
variables.
-/
theorem fieldsOf_renamed {name : String}
    (ends : program.withSchemas.table.ChainEnds name) :
    other.withSchemas.table.fieldsOf name =
      (program.withSchemas.table.fieldsOf name).map
        (Prod.map id (Ty.renamed rename)) := by
  have accessible := ends.acc
  induction accessible with
  | intro name _ above =>
      cases view : (program.owner? name).bind Declaration.schema? with
      | none =>
          rw [SymbolTable.fieldsOf, SymbolTable.fieldsOf, schema?_withSchemas,
            schema?_withSchemas, same, view]
          rfl
      | some declaration =>
          have owner := bind_schema?_eq_some_iff.mp view
          have named : declaration.name = name := name_of_owner? owner
          subst named
          have otherEnds : other.withSchemas.table.ChainEnds
              declaration.name := by
            rw [SymbolTable.ChainEnds, parentOf?_withSchemas_eq same]
            exact ends
          rw [fieldsOf_eq_putFields owner ends,
            fieldsOf_eq_putFields ((same _).trans owner) otherEnds,
            ownFields_renamed same injective backInjective renumbers
              backRenumbers owner, ← putFields_map]
          congr 1
          cases written : declaration.parent with
          | none => rfl
          | some parent =>
              have follows := follows_of_owner? owner written
              exact above parent.value follows (ends.parent follows)

end

/--
Without type variables, the order of declarations does not matter to the fields.
-/
theorem fieldsOf_eq_of_no_parameters {other : Program}
    (same : ∀ name, other.owner? name = program.owner? name)
    (plain : ∀ declaration,
      program.owner? declaration.name = some (.schema declaration) →
      declaration.parameters = [])
    {name : String} (ends : program.withSchemas.table.ChainEnds name) :
    other.withSchemas.table.fieldsOf name =
      program.withSchemas.table.fieldsOf name := by
  have renumbers (first second : String → Nat → Nat) : Renumbers
      (declared program.owners) id first second := by
    rintro entry ⟨declaration, member, -, bound⟩
    rw [plain declaration (mem_owners_iff.mp member)] at bound
    contradiction
  have unchanged : Ty.renamed id = id := funext Ty.renamed_id
  have renamed :=
    fieldsOf_renamed same Function.injective_id Function.injective_id
      (renumbers _ _) (renumbers _ _) ends
  rw [unchanged, Prod.map_id, List.map_id] at renamed
  exact renamed

/--
The order of declarations matters to the fields only in the numbers of type
variables.
-/
theorem exists_fieldsOf_renamed {other : Program}
    (same : ∀ name, other.owner? name = program.owner? name) :
    ∃ rename : Nat → Nat, Function.Injective rename ∧
      ∀ name, program.withSchemas.table.ChainEnds name →
      other.withSchemas.table.fieldsOf name =
        (program.withSchemas.table.fieldsOf name).map
          (Prod.map id (Ty.renamed rename)) := by
  have apart := injOn_number_owners program
  have otherApart := injOn_number_owners other
  rw [declared_owners_eq same] at otherApart
  rcases exists_renumbers program.owners apart otherApart with
    ⟨rename, injective, renumbers⟩
  rcases exists_renumbers program.owners otherApart apart with
    ⟨back, backInjective, backRenumbers⟩
  exact ⟨rename, injective,
    fun name =>
      fieldsOf_renamed same injective backInjective renumbers backRenumbers⟩

/--
Fields are inherited and overridden.  The names of the fields of a schema are
distinct.  Where the chain of its parents ends, its fields are those of its
parent, overridden by its own in turn.  All fields of all ancestors are there,
each with the type of the nearest declaration; and declaring the schemas in
another order changes nothing but the numbers of type variables.
-/
theorem fieldsOf_withSchemas_overrides (config : Config) (program : Program) :
    let table := program.withSchemas.table
    (∀ name, (analyze config program).table.schema? name = table.schema? name) ∧
    (∀ name, (table.schema? name).isSome ↔
      ∃ declaration, program.owner? name = some (.schema declaration)) ∧
    (∀ name, ((table.fieldsOf name).map Prod.fst).Nodup) ∧
    (∀ declaration,
      program.owner? declaration.name = some (.schema declaration) →
      table.parentOf? declaration.name = declaration.parent.map Located.value ∧
      (table.ChainEnds declaration.name →
        table.fieldsOf declaration.name =
          (declaration.ownFields program.names program.number).foldl override
            ((table.parentOf? declaration.name).elim [] table.fieldsOf) ∧
        (∀ ancestor,
          Relation.ReflTransGen table.Follows declaration.name ancestor →
          (table.fieldsOf ancestor).map Prod.fst ⊆
            (table.fieldsOf declaration.name).map Prod.fst) ∧
        ∀ name type, (table.fieldsOf declaration.name).lookup name = some type ↔
          program.NearestField declaration.name name type)) ∧
    ∀ other : Program, (∀ name, other.owner? name = program.owner? name) →
      (∃ rename : Nat → Nat, Function.Injective rename ∧
        ∀ name, table.ChainEnds name →
        other.withSchemas.table.fieldsOf name =
          (table.fieldsOf name).map (Prod.map id (Ty.renamed rename))) ∧
      ((∀ declaration,
        program.owner? declaration.name = some (.schema declaration) →
          declaration.parameters = []) →
        ∀ name, table.ChainEnds name →
          other.withSchemas.table.fieldsOf name = table.fieldsOf name) := by
  intro table
  refine ⟨fun name => ?_, fun name => ?_, program.nodup_names_withSchemas, ?_,
    fun other same =>
      ⟨exists_fieldsOf_renamed same,
        fun plain name => fieldsOf_eq_of_no_parameters same plain⟩⟩
  · exact (schema?_analyze config program name).trans
      (schema?_withSchemas program name).symm
  · rw [schema?_withSchemas, Option.isSome_map, Option.isSome_iff_exists]
    simp only [bind_schema?_eq_some_iff]
  · intro declaration owner
    exact ⟨parentOf?_of_owner? owner,
      fun ends =>
        ⟨fieldsOf_eq_foldl_override owner ends,
          fun ancestor above => names_subset_of_reflTransGen above ends,
          fun name type => lookup_fieldsOf_iff_nearestField ends⟩⟩

/--
A field that is overridden keeps its place, also where the parent comes later.
-/
example :
    let children :=
  [("weight", TypeExpr.primitive .unknown .int),
    ("mark", .primitive .unknown .string)]
    let parents :=
      [("weight", TypeExpr.primitive .unknown .float),
        ("count", .primitive .unknown .int)]
    let program :=
      [Builder.extending "Parcel" "Item" children,
        Builder.schema "Item" parents]
    ((withSchemas program).table.fieldsOf "Parcel").map Prod.fst =
      ["weight", "count", "mark"] := by
  decide +kernel

end Program

end SchemaMap
