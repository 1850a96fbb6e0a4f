import SchemaMap.Proofs.Meaning

/-!
# What completion finds

The schemas of a program are completed one by one and their type variables are
numbered on the way.  With these numbers (`Program.number`) the completed
schemas have exactly the fields that the declarations give them, and in a
program that can be resolved every name stands for what its declaration means
(`kind?_eq_some_iff_hasKind`).
-/

namespace SchemaMap

namespace SchemaFields

/-! ## Numbers of type variables -/

/-- How many type variables belong to the schemas before the one of a name. -/
def offset (completed : List (String × Schema)) (name : String) : Nat :=
  match completed with
  | [] => 0
  | (other, schema) :: rest =>
      if other = name then 0 else schema.parameters.length + offset rest name

/-- The number of a type variable of a completed schema. -/
def number (state : SchemaFields) (name : String) (index : Nat) : Nat :=
  offset state.completed name + index

/-- A schema at the end does not change the numbers of those that are there. -/
theorem offset_concat_of_mem {completed : List (String × Schema)}
    {name : String} (entry : String × Schema)
    (member : name ∈ completed.map Prod.fst) :
    offset (completed ++ [entry]) name = offset completed name := by
  induction completed with
  | nil => contradiction
  | cons first rest ih =>
      rw [List.cons_append, offset, offset]
      split
      · rfl
      · next apart =>
          rcases List.mem_cons.mp member with same | later
          · exact absurd same.symm apart
          · rw [ih later]

theorem offset_concat_of_not_mem {completed : List (String × Schema)}
    {name : String} (entry : String × Schema)
    (free : name ∉ completed.map Prod.fst) :
    offset (completed ++ [entry]) name =
      offset completed name + if entry.1 = name then 0 else
        entry.2.parameters.length := by
  induction completed with
  | nil => simp [offset]
  | cons first rest ih =>
      simp only [List.map_cons, List.mem_cons, not_or] at free
      have apart : ¬ first.1 = name := fun same => free.1 same.symm
      rw [List.cons_append, offset, offset, if_neg apart, if_neg apart,
        ih free.2]
      omega

/-- Distinct type variables have distinct numbers. -/
theorem offset_injective {completed : List (String × Schema)}
    {first second : String} {left right : Schema} {i j : Nat}
    (foundLeft : completed.lookup first = some left)
    (foundRight : completed.lookup second = some right)
    (leftBound : i < left.parameters.length)
    (rightBound : j < right.parameters.length)
    (same : offset completed first + i = offset completed second + j) :
    first = second ∧ i = j := by
  induction completed with
  | nil => simp at foundLeft
  | cons entry rest ih =>
      rcases entry with ⟨name, schema⟩
      rw [lookup_cons_eq] at foundLeft foundRight
      rw [offset, offset] at same
      by_cases leftHere : name = first
      · rw [if_pos leftHere] at foundLeft same
        by_cases rightHere : name = second
        · rw [if_pos rightHere] at same
          exact ⟨leftHere.symm.trans rightHere, by omega⟩
        · rw [if_neg rightHere] at same
          cases foundLeft
          omega
      · rw [if_neg leftHere] at foundLeft same
        by_cases rightHere : name = second
        · rw [if_pos rightHere] at foundRight same
          cases foundRight
          omega
        · rw [if_neg rightHere] at foundRight same
          exact ih foundLeft foundRight (by omega)

/-- The variables of a schema have consecutive numbers. -/
theorem typeVariables_eq_mapIdx (next : Nat) (parameters : List String) :
    typeVariables next parameters =
      parameters.mapIdx fun index name =>
        (name, .parameter name (next + index)) := by
  induction parameters generalizing next with
  | nil => rfl
  | cons name rest ih =>
      rw [typeVariables, ih, List.mapIdx_cons]
      simp only [Nat.add_zero, Nat.add_assoc, Nat.add_comm 1]

/-! ## The fields that a schema declares -/

variable {names : Names} {parameters : List (String × Ty)}

/--
Fields are declared without a fault exactly when the types of all of them
resolve.
-/
theorem declaredFields_snd_eq_nil_iff {fields : List (String × Ty)}
    {declarations : List FieldDeclaration} :
    (declaredFields names parameters fields declarations).2 = [] ↔
      ∀ declaration ∈ declarations,
        ∃ type, names.resolve parameters declaration.type = .ok type := by
  induction declarations generalizing fields with
  | nil => simp [declaredFields]
  | cons declaration rest ih =>
      rw [declaredFields, List.forall_mem_cons]
      cases names.resolve parameters declaration.type with
      | ok type => simp [ih]
      | error fault => simp

/-- Fields whose types resolve are put one after the other. -/
theorem declaredFields_fst_eq {fields : List (String × Ty)}
    {declarations : List FieldDeclaration} {types : List Ty}
    (resolved : List.Forall₂ (fun declaration type =>
      names.resolve parameters declaration.type = .ok type)
      declarations types) :
    (declaredFields names parameters fields declarations).1 =
      putFields fields
        ((declarations.map FieldDeclaration.name).zip types) := by
  induction resolved generalizing fields with
  | nil => rfl
  | cons first _ ih =>
      simp only [declaredFields, first]
      exact ih

/-! ## Completed schemas -/

namespace Built

variable {declarations : List SchemaDeclaration} {state : SchemaFields}

theorem holds_iff_mem {name : String} :
    state.Holds name ↔ name ∈ state.completed.map Prod.fst :=
  lookup_isSome_iff

/--
The next type variable is numbered as the first one of any schema that is not
complete.
-/
theorem nextVariable_eq (built : Built names declarations state) {name : String}
    (fresh : ¬ state.Holds name) :
    state.nextVariable = offset state.completed name := by
  induction built with
  | start => rfl
  | @complete state declaration before member _ _ ih =>
      rw [holds_complete_iff, not_or] at fresh
      have free : name ∉ state.completed.map Prod.fst :=
        fun found => fresh.1 (holds_iff_mem.mpr found)
      have apart : ¬ declaration.name = name := fun same => fresh.2 same.symm
      rw [complete_eq]
      simp only [offset_concat_of_not_mem _ free, if_neg apart, ih fresh.1]

/--
Completing a schema gives numbers to its own type variables and leaves the
others.
-/
theorem offset_complete (declaration : SchemaDeclaration) {name : String}
    (known : state.Holds name ∨ name = declaration.name) :
    offset (state.complete names declaration).completed name =
      offset state.completed name := by
  rw [complete_eq]
  by_cases member : name ∈ state.completed.map Prod.fst
  · exact offset_concat_of_mem _ member
  · have same : declaration.name = name := by
      rcases known with holds | same
      · exact absurd (holds_iff_mem.mp holds) member
      · exact same.symm
    rw [offset_concat_of_not_mem _ member, if_pos same, Nat.add_zero]

/-- The type variables of a schema as it is completed. -/
theorem typeVariables_eq (built : Built names declarations state)
    {declaration : SchemaDeclaration} {number : String → Nat → Nat}
    (fresh : ¬ state.Holds declaration.name)
    (agrees : ∀ index,
      number declaration.name index =
        offset state.completed declaration.name + index) :
    typeVariables state.nextVariable declaration.parameters =
      declaration.typeVariables number := by
  simp only [typeVariables_eq_mapIdx, SchemaDeclaration.typeVariables, agrees,
    built.nextVariable_eq fresh]

/-- Numbers that agree with a state agree with the states before it. -/
theorem agrees_before {declaration : SchemaDeclaration}
    {number : String → Nat → Nat}
    (agrees : ∀ name, (state.complete names declaration).Holds name →
      ∀ index,
        number name index =
          offset (state.complete names declaration).completed name + index)
    {name : String} (known : state.Holds name ∨ name = declaration.name)
    (index : Nat) :
    number name index = offset state.completed name + index := by
  rw [agrees name (holds_complete_iff.mpr known),
    offset_complete declaration known]

/-- Completion finds no fault exactly when the types of all fields resolve. -/
theorem faults_eq_nil_iff (built : Built names declarations state)
    (distinct : (declarations.map SchemaDeclaration.name).Nodup)
    {number : String → Nat → Nat}
    (agrees : ∀ name, state.Holds name →
      ∀ index, number name index = offset state.completed name + index) :
    state.faults = [] ↔
      ∀ declaration ∈ declarations, state.Holds declaration.name →
        ∀ field ∈ declaration.fields,
      ∃ type,
        names.resolve (declaration.typeVariables number) field.type =
          .ok type := by
  induction built with
  | start => simp [Holds]
  | @complete state declaration before member fresh _ ih =>
      have older := ih fun name holds => agrees_before agrees (.inl holds)
      have newest : (state.ownFields names declaration).2 = [] ↔
          ∀ field ∈ declaration.fields,
          ∃ type,
            names.resolve (declaration.typeVariables number) field.type =
              .ok type := by
        rw [ownFields,
          before.typeVariables_eq fresh (agrees_before agrees (.inr rfl)),
          declaredFields_snd_eq_nil_iff]
      rw [complete_eq, List.append_eq_nil_iff, older, newest, ← complete_eq]
      simp only [holds_complete_iff]
      constructor
      · rintro ⟨earlier, own⟩ other otherMember (holds | same)
        · exact earlier other otherMember holds
        · rw [List.inj_on_of_nodup_map distinct otherMember member same]
          exact own
      · intro all
        exact ⟨fun other otherMember holds =>
          all other otherMember (.inl holds), all declaration member (.inr rfl)⟩

end Built

end SchemaFields

namespace Program

/-- The numbers that completion gives to type variables. -/
def number (program : Program) : String → Nat → Nat :=
  program.fields.number

/--
A schema that is declared to have a parent has one that is complete before it.
-/
theorem holds_parent {program : Program}
    (wellNamed : WellNamed program.declared) {state : SchemaFields}
    {declaration : SchemaDeclaration} {parent : Located String}
    (member : .schema declaration ∈ program.declared)
    (written : declaration.parent = some parent)
    (ready : state.Holds parent.value ∨
      (∀ other ∈ program.filterMap Declaration.schema?,
        other.name ≠ parent.value) ∨
      Relation.TransGen (Inherits (· ∈ program.filterMap Declaration.schema?))
        parent.value parent.value) :
    state.Holds parent.value := by
  simp only [mem_filterMap_schema?_iff] at ready
  rcases ready with holds | undeclared | cyclic
  · exact holds
  · rcases wellNamed.parents declaration parent member written with
      ⟨other, otherMember, named⟩
    exact absurd named (undeclared other otherMember)
  · exact absurd cyclic (wellNamed.acyclic _)

variable {program : Program} (distinct : (program.map Declaration.name).Nodup)

include distinct

/--
The schemas of a program are built one after the other, and all of them are.
-/
theorem built_fields :
    SchemaFields.Built program.names (program.filterMap Declaration.schema?)
      program.fields ∧
      ∀ declaration, .schema declaration ∈ program.declared →
        program.fields.Holds declaration.name := by
  have built :=
    SchemaFields.built_ofDeclarations program.names
      (program.owners.filterMap Declaration.schema?)
  rw [fields, owners_eq_of_nodup distinct] at *
  exact ⟨built.1,
    fun declaration member =>
      built.2 declaration (mem_filterMap_schema?_iff.mpr member)⟩

/-- A declared schema is completed, and keeps its name and its parameters. -/
theorem exists_completed {declaration : SchemaDeclaration}
    (member : .schema declaration ∈ program.declared) :
    ∃ fields, program.fields.completed.lookup declaration.name =
      some { name := declaration.name, parameters := declaration.parameters,
             fields := fields } := by
  have built := built_fields distinct
  rcases Option.isSome_iff_exists.mp (built.2 declaration member) with
    ⟨schema, found⟩
  rcases built.1.declared found with ⟨other, listed, named, content⟩
  cases eq_of_name_eq distinct (mem_filterMap_schema?_iff.mp listed) member
    named
  rw [content] at found
  exact ⟨schema.fields, found⟩

/--
No field has a fault exactly when the type of every declared field has a
meaning.
-/
theorem fieldFaults_eq_nil_iff :
    program.fields.faults = [] ↔
      ∀ declaration, .schema declaration ∈ program.declared →
      ∀ field ∈ declaration.fields,
        ∃ type,
          Means program.declared (declaration.typeVariables program.number)
            field.type type := by
  have distinctSchemas : ((program.filterMap Declaration.schema?).map
      SchemaDeclaration.name).Nodup :=
    nodup_map_filterMap (fun _ _ => Declaration.schema?_eq_some_iff) distinct
  rw [(built_fields distinct).1.faults_eq_nil_iff distinctSchemas fun _ _ _ =>
    rfl]
  simp only [mem_filterMap_schema?_iff, resolve_eq_ok_iff_means distinct]
  constructor
  · intro all declaration member
    exact all declaration member ((built_fields distinct).2 declaration member)
  · intro all declaration member _
    exact all declaration member

/--
Where the types of its fields resolve, a schema is completed with the fields
that it declares itself.
-/
theorem exists_hasOwnFields {state : SchemaFields}
    (built : SchemaFields.Built program.names
      (program.filterMap Declaration.schema?) state)
    {declaration : SchemaDeclaration} (fresh : ¬ state.Holds declaration.name)
    {number : String → Nat → Nat}
    (agrees : ∀ index,
      number declaration.name index =
        SchemaFields.offset state.completed declaration.name + index)
    (faultless : (state.ownFields program.names declaration).2 = []) :
    ∃ own, declaration.HasOwnFields program.declared number own ∧
      (state.ownFields program.names declaration).1 =
        putFields (state.inherited declaration) own := by
  rw [SchemaFields.ownFields,
    built.typeVariables_eq fresh agrees] at faultless ⊢
  rw [SchemaFields.declaredFields_snd_eq_nil_iff,
    ← exists_forall₂_iff] at faultless
  rcases faultless with ⟨types, resolved⟩
  refine ⟨_, forall₂_key_iff.mpr ⟨types, ?_, rfl⟩,
    SchemaFields.declaredFields_fst_eq resolved⟩
  simpa only [resolve_eq_ok_iff_means distinct] using resolved

/-- Completed schemas have the fields that the declarations give them. -/
theorem hasFields_of_built (wellNamed : WellNamed program.declared)
    {state : SchemaFields}
    (built : SchemaFields.Built program.names
      (program.filterMap Declaration.schema?) state)
    {number : String → Nat → Nat}
    (agrees : ∀ name, state.Holds name →
      ∀ index,
        number name index = SchemaFields.offset state.completed name + index)
    (faultless : state.faults = []) {name : String} {schema : Schema}
    (found : state.completed.lookup name = some schema) :
    HasFields program.declared number name schema.fields := by
  induction built generalizing name schema with
  | start => simp at found
  | @complete state declaration before listed fresh ready ih =>
      have member := mem_filterMap_schema?_iff.mp listed
      have olderAgrees := fun name (holds : state.Holds name) =>
        SchemaFields.Built.agrees_before agrees (.inl holds)
      rw [SchemaFields.complete_eq] at found faultless
      rcases List.append_eq_nil_iff.mp faultless with
        ⟨olderFaultless, ownFaultless⟩
      rw [lookup_concat, Option.or_eq_some_iff] at found
      rcases found with older | ⟨-, newest⟩
      · exact ih olderAgrees olderFaultless older
      · split at newest
        · next same =>
            cases newest
            rcases exists_hasOwnFields distinct before fresh
              (SchemaFields.Built.agrees_before agrees (.inr rfl))
              ownFaultless with ⟨own, typed, fields⟩
            rw [same, fields]
            cases written : declaration.parent with
            | none =>
                rw [SchemaFields.inherited, written]
                exact .root member written typed
            | some parent =>
                have holds :=
                  holds_parent wellNamed member written (ready parent written)
                rcases Option.isSome_iff_exists.mp holds with ⟨above, known⟩
                rw [SchemaFields.inherited, written]
                simp only [known, Option.map_some, Option.getD_some]
                exact .child member written
                  (ih olderAgrees olderFaultless known) typed
        · contradiction

/-- What a declaration is completed to is what it stands for. -/
theorem kindOf_eq_iff_standsFor
    (resolved : Resolved program.declared program.number)
    {declaration : Declaration} (member : declaration ∈ program.declared)
    {kind : Kind} :
    program.kindOf declaration = kind ↔
      declaration.StandsFor program.declared program.number kind := by
  cases declaration with
  | schema declaration =>
      have built := (built_fields distinct).1
      have faultless :=
        (fieldFaults_eq_nil_iff distinct).mpr resolved.fieldTypes
      rcases exists_completed distinct member with ⟨fields, found⟩
      have typed : HasFields program.declared program.number declaration.name
          fields :=
        hasFields_of_built distinct resolved.toWellNamed built
          (fun _ _ _ => rfl) faultless found
      simp only [kindOf, found, Declaration.StandsFor]
      constructor
      · rintro rfl
        exact ⟨fields, typed, rfl⟩
      · rintro ⟨others, otherTyped, rfl⟩
        rw [hasFields_unique distinct typed otherTyped]
  | unit declaration =>
      rcases resolved.units declaration member with ⟨unit, measured⟩
      have found : program.units.find declaration.name = .ok unit := by
        rw [← measures_names distinct] at measured
        exact measured
      simp only [kindOf, found, Declaration.StandsFor]
      constructor
      · rintro rfl
        exact ⟨unit, measured, rfl⟩
      · rintro ⟨other, otherMeasured, rfl⟩
        rw [measures_unique distinct measured otherMeasured]
  | lookup declaration =>
      rcases exists_forall₂_iff.mpr
        (resolved.lookupKeys declaration member) with ⟨keys, keyed⟩
      rcases resolved.lookupValues declaration member with ⟨value, valued⟩
      have found := (lookup_eq_ok_iff distinct).mpr ⟨keyed, valued⟩
      simp only [kindOf, found, Declaration.StandsFor]
      constructor
      · rintro rfl
        exact ⟨keys, value, ⟨keyed, valued⟩, rfl⟩
      · rintro ⟨otherKeys, otherValue, meant, rfl⟩
        cases Except.ok.inj
          (found.symm.trans ((lookup_eq_ok_iff distinct).mpr meant))
        rfl
  | transform declaration =>
      rcases exists_hasSignature resolved member with ⟨signature, typed⟩
      have found := (signature_eq_ok_iff distinct).mpr typed
      simp only [kindOf, found, Declaration.StandsFor]
      constructor
      · rintro rfl
        exact ⟨signature, typed, rfl⟩
      · rintro ⟨other, otherTyped, rfl⟩
        cases Except.ok.inj
          (found.symm.trans ((signature_eq_ok_iff distinct).mpr otherTyped))
        rfl
  | _ => exact eq_comm

/--
In a program that can be resolved, names stand for what their declarations mean.
-/
theorem kind?_eq_some_iff_hasKind
    (resolved : Resolved program.declared program.number) {name : String}
    {kind : Kind} :
    program.kind? name = some kind ↔
      HasKind program.declared program.number name kind := by
  simp only [kind?, Option.map_eq_some_iff, owner?_eq_some_iff distinct,
    HasKind]
  constructor
  · rintro ⟨declaration, ⟨member, named⟩, completed⟩
    exact ⟨declaration, member, named,
      (kindOf_eq_iff_standsFor distinct resolved member).mp completed⟩
  · rintro ⟨declaration, member, named, stands⟩
    exact ⟨declaration, ⟨member, named⟩,
      (kindOf_eq_iff_standsFor distinct resolved member).mpr stands⟩

end Program

end SchemaMap
