import SchemaMap.Proofs.Analysis.Closed
import SchemaMap.Proofs.Analysis.Types
import SchemaMap.Proofs.Ty.Normal

/-!
# Instances of generic fields

There are two ways to the type of a field behind a handle: to replace the type
variables in the type that the field has in its schema, or to replace the
parameters in the type expression of the field and to resolve the result.  The
second gives the normal form of what the first gives (`Denotes.instantiate`),
since resolution builds optional types and unions anew.  Where the first type is
settled the two are subtypes of each other (`resolve_instantiate`), but an
optional field whose argument is optional shows the difference (`parcel`).
-/

namespace SchemaMap

namespace TypeExpr

mutual

/-- The expression with type expressions in the place of bare names. -/
def instantiate (given : List (String × TypeExpr)) : TypeExpr → TypeExpr
  | .primitive span base => .primitive span base
  | .schemaName span name => (given.lookup name).getD (.schemaName span name)
  | .enumName span name => (given.lookup name).getD (.enumName span name)
  | .array span element => .array span (instantiate given element)
  | .optional span inner => .optional span (instantiate given inner)
  | .quantity span unit => .quantity span unit
  | .tuple span items => .tuple span (instantiateAll given items)
  | .union span members => .union span (instantiateAll given members)
  | .generic span name arguments =>
      .generic span name (instantiateAll given arguments)
termination_by structural expression => expression

/--
The expressions of a list with type expressions in the place of bare names.
-/
def instantiateAll (given : List (String × TypeExpr)) :
    List TypeExpr → List TypeExpr
  | [] => []
  | expression :: rest =>
      instantiate given expression :: instantiateAll given rest
termination_by structural expressions => expressions

end

end TypeExpr

/-! ## Resolved types are in normal form -/

section

variable {declared : String → Kind → Prop} {unit : String → PhysicalUnit → Prop}
  {parameters : List (String × Ty)}
  {arity : String → Nat} {named : String → Nat → Prop}

/--
A name with arguments stands for the type with replaced arguments when these are
replaced.
-/
theorem Applies.instantiated (bindings : Bindings) {name : String}
    {arguments : List Ty} {type : Ty}
    (applied : Applies declared name arguments type) :
    Applies declared name (arguments.map (Ty.instantiated bindings))
      (type.instantiated bindings) := by
  cases applied with
  | schema known full =>
      rw [Ty.instantiated_schema]
      exact .schema known ((List.length_map _).trans full)
  | enumeration known => exact .enumeration known

/-- The type of a name with arguments in normal form is in normal form. -/
theorem Applies.normalized_eq {name : String} {arguments : List Ty} {type : Ty}
    (applied : Applies declared name arguments type)
    (normal : ∀ argument ∈ arguments, argument.normalized = argument) :
    type.normalized = type := by
  cases applied with
  | schema known full =>
      rw [Ty.normalized, Ty.normalizedAll_eq_map, List.map_congr_left normal,
        List.map_id']
  | enumeration known => rfl

theorem NameDenotes.normalized_eq
    (bound : ∀ name type, parameters.lookup name = some type →
      type.normalized = type)
    {name : String} {type : Ty}
    (denotes : NameDenotes declared parameters name type) :
    type.normalized = type := by
  cases denotes with
  | parameter found => exact bound name type found
  | declared _ applied => exact applied.normalized_eq (List.forall_mem_nil _)

/--
Declared names are orderly, and the parameters in reach are orderly types in
normal form.
-/
structure Arranged (declared : String → Kind → Prop)
    (unit : String → PhysicalUnit → Prop) (parameters : List (String × Ty))
    (arity : String → Nat) (named : String → Nat → Prop) : Prop where
  provides : Provides declared unit (Ty.IsOrderly arity named)
  unique : ∀ left right id, named left id → named right id → left = right
  orderly : ∀ name type, parameters.lookup name = some type →
    type.Throughout (Ty.IsOrderly arity named)
  normal : ∀ name type, parameters.lookup name = some type →
    type.normalized = type

/-- The union of resolved types is in normal form when these are. -/
theorem Arranged.normalized_unionOf
    (arranged : Arranged declared unit parameters arity named)
    {expressions : List TypeExpr} {types : List Ty}
    (each : List.Forall₂ (Denotes declared unit parameters) expressions types)
    (normal : ∀ type ∈ types, type.normalized = type) :
    (Ty.unionOf types).normalized = Ty.unionOf types := by
  have orderly :=
    Denotes.allThroughout arranged.provides arranged.orderly expressions each
  have tidy : ∀ type ∈ types, type.IsTidy :=
    fun type member => normal type member ▸ Ty.isTidy_normalized type
  have empty : ∀ name type,
      Dictionary.get? (.empty : Bindings) name = some type →
      type.Throughout (Ty.IsOrderly arity named) := by
    intro name type found
    contradiction
  have members := Ty.instantiated_unionOf empty arranged.unique tidy orderly
  rwa [Ty.instantiated_empty, List.map_congr_left normal,
    List.map_id'] at members

mutual

/-- A type expression stands for a type in normal form. -/
theorem Denotes.normalized_eq
    (arranged : Arranged declared unit parameters arity named) :
    (expression : TypeExpr) → {type : Ty} →
      Denotes declared unit parameters expression type → type.normalized = type
  | .primitive _ _, _, .primitive => rfl
  | .schemaName _ _, _, .schemaName denotes =>
      denotes.normalized_eq arranged.normal
  | .enumName _ _, _, .enumName denotes => denotes.normalized_eq arranged.normal
  | .array _ element, _, .array inner =>
      congrArg Ty.array (Denotes.normalized_eq arranged element inner)
  | .optional _ inner, _,
      @Denotes.optional _ _ _ _ _ type _ present wrapped => by
      have normal := Ty.instantiated_optionalOf .empty type
      rw [Ty.instantiated_empty,
        Denotes.normalized_eq arranged inner present] at normal
      rwa [← Ty.wraps_iff.mp wrapped]
  | .quantity _ _, _, .quantity _ => rfl
  | .tuple _ items, _, .tuple each => by
      rw [Ty.normalized, Ty.normalizedAll_eq_map,
        List.map_congr_left (Denotes.allNormalized_eq arranged items each),
        List.map_id']
  | .union _ members, _, .union each =>
      arranged.normalized_unionOf each
        (Denotes.allNormalized_eq arranged members each)
  | .generic _ _ arguments, _, .generic each applied =>
      applied.normalized_eq (Denotes.allNormalized_eq arranged arguments each)
termination_by structural expression => expression

theorem Denotes.allNormalized_eq
    (arranged : Arranged declared unit parameters arity named) :
    (expressions : List TypeExpr) → {types : List Ty} →
      List.Forall₂ (Denotes declared unit parameters) expressions types →
      ∀ type ∈ types, type.normalized = type
  | [], _, .nil => List.forall_mem_nil _
  | expression :: rest, _, .cons first further =>
      List.forall_mem_cons.mpr
        ⟨Denotes.normalized_eq arranged expression first,
          Denotes.allNormalized_eq arranged rest further⟩
termination_by structural expressions => expressions

end

/-! ## Instances -/

/--
Each parameter in reach is given an expression for its instance, and nothing
else is.
-/
structure Replaces (declared : String → Kind → Prop)
    (unit : String → PhysicalUnit → Prop) (parameters : List (String × Ty))
    (arity : String → Nat) (named : String → Nat → Prop) (bindings : Bindings)
    (given : List (String × TypeExpr)) :
    Prop extends Arranged declared unit parameters arity named where
  brought : ∀ name type, bindings.get? name = some type →
    type.Throughout (Ty.IsOrderly arity named)
  bound : ∀ name type, parameters.lookup name = some type →
    ∃ expression, given.lookup name = some expression ∧
      Denotes declared unit [] expression (type.instantiated bindings)
  free : ∀ name, parameters.lookup name = none → given.lookup name = none

variable {bindings : Bindings} {given : List (String × TypeExpr)}

/--
A name stands for the replaced type once its variable is given an argument.
-/
theorem Replaces.instantiate_name
    (replaces : Replaces declared unit parameters arity named bindings given)
    {name : String} {type : Ty}
    (denotes : NameDenotes declared parameters name type) {bare : TypeExpr}
    (stands : ∀ type, NameDenotes declared [] name type →
      Denotes declared unit [] bare type) :
    Denotes declared unit [] ((given.lookup name).getD bare)
      (type.instantiated bindings) := by
  cases denotes with
  | parameter found =>
      rcases replaces.bound name type found with
        ⟨expression, listed, instantiated⟩
      rwa [listed]
  | declared unbound applied =>
      rw [replaces.free name unbound]
      exact stands _ (.declared rfl (applied.instantiated bindings))

mutual

/--
The type expression with its parameters replaced stands for the instance of its
type.
-/
theorem Denotes.instantiate
    (replaces : Replaces declared unit parameters arity named bindings given) :
    (expression : TypeExpr) → {type : Ty} →
      Denotes declared unit parameters expression type →
      Denotes declared unit [] (expression.instantiate given)
        (type.instantiated bindings)
  | .primitive _ _, _, .primitive => .primitive
  | .schemaName _ _, _, .schemaName denotes =>
      replaces.instantiate_name denotes fun _ named => .schemaName named
  | .enumName _ _, _, .enumName denotes =>
      replaces.instantiate_name denotes fun _ named => .enumName named
  | .array _ element, _, .array inner => by
      rw [TypeExpr.instantiate, Ty.instantiated_array]
      exact .array (Denotes.instantiate replaces element inner)
  | .optional _ inner, _, .optional present wrapped => by
      rw [TypeExpr.instantiate, ← Ty.wraps_iff.mp wrapped,
        Ty.instantiated_optionalOf]
      exact .optional (Denotes.instantiate replaces inner present)
        (Ty.wraps_iff.mpr rfl)
  | .quantity _ _, _, .quantity evaluated => .quantity evaluated
  | .tuple _ items, _, .tuple each => by
      rw [TypeExpr.instantiate, Ty.instantiated_tuple]
      exact .tuple (Denotes.instantiateAll replaces items each)
  | .union _ members, _, .union each => by
      have orderly :=
        Denotes.allThroughout replaces.provides replaces.orderly members each
      have normal := Denotes.allNormalized_eq replaces.toArranged members each
      rw [TypeExpr.instantiate,
        Ty.instantiated_unionOf replaces.brought replaces.unique
        (fun type member => normal type member ▸ Ty.isTidy_normalized type)
        orderly]
      exact .union (Denotes.instantiateAll replaces members each)
  | .generic _ _ arguments, _, .generic each applied => by
      rw [TypeExpr.instantiate]
      exact .generic (Denotes.instantiateAll replaces arguments each)
        (applied.instantiated bindings)
termination_by structural expression => expression

theorem Denotes.instantiateAll
    (replaces : Replaces declared unit parameters arity named bindings given) :
    (expressions : List TypeExpr) → {types : List Ty} →
      List.Forall₂ (Denotes declared unit parameters) expressions types →
        List.Forall₂ (Denotes declared unit [])
          (TypeExpr.instantiateAll given expressions)
          (types.map (Ty.instantiated bindings))
  | [], _, .nil => .nil
  | expression :: rest, _, .cons first further => by
      rw [TypeExpr.instantiateAll, List.map_cons]
      exact .cons (Denotes.instantiate replaces expression first)
        (Denotes.instantiateAll replaces rest further)
termination_by structural expressions => expressions

end

end

/-! ## Fields behind handles -/

namespace SchemaDeclaration

variable {declaration : SchemaDeclaration} {number : String → Nat → Nat}

/--
The variables of a schema carry the names of its parameters and their numbers.
-/
theorem mem_typeVariables_iff {name : String} {type : Ty} :
    (name, type) ∈ declaration.typeVariables number ↔
      ∃ index, ∃ inside : index < declaration.parameters.length,
        declaration.parameters[index] = name ∧
          type = .parameter name (number declaration.name index) := by
  simp only [typeVariables, List.mem_mapIdx, Prod.mk.injEq]
  constructor
  · rintro ⟨index, inside, rfl, rfl⟩
    exact ⟨index, inside, rfl, rfl⟩
  · rintro ⟨index, inside, rfl, rfl⟩
    exact ⟨index, inside, rfl, rfl⟩

theorem isSome_lookup_typeVariables_iff {name : String} :
    ((declaration.typeVariables number).lookup name).isSome ↔
      name ∈ declaration.parameters := by
  rw [lookup_isSome_iff, List.mem_map]
  constructor
  · rintro ⟨⟨_, type⟩, member, rfl⟩
    rcases mem_typeVariables_iff.mp member with ⟨index, inside, rfl, -⟩
    exact List.getElem_mem inside
  · intro member
    rcases List.getElem_of_mem member with ⟨index, inside, rfl⟩
    exact ⟨_, mem_typeVariables_iff.mpr ⟨index, inside, rfl, rfl⟩, rfl⟩

/-- The parameters of a schema can be replaced by arguments, one for each. -/
theorem replaces_typeVariables (names : Names)
    (injective : Function.Injective (number declaration.name))
    (distinct : declaration.parameters.Nodup) {schema : Schema}
    (same : schema.parameters = declaration.parameters)
    {arguments : List TypeExpr} {types : List Ty}
    (full : arguments.length = declaration.parameters.length)
    (resolved : List.Forall₂ (Denotes names.declares names.measures [])
      arguments types) :
    Replaces names.declares names.measures (declaration.typeVariables number)
      names.arity
      (fun name id =>
        (name, Ty.parameter name id) ∈ declaration.typeVariables number)
        (schema.bindings types)
      (declaration.parameters.zip arguments) := by
  have provides := names.provides_isOrderly fun name id =>
    (name, Ty.parameter name id) ∈ declaration.typeVariables number
  have unique : ∀ left right id,
      (left, Ty.parameter left id) ∈ declaration.typeVariables number →
      (right, Ty.parameter right id) ∈ declaration.typeVariables number →
      left = right := by
    intro left right id leftMember rightMember
    rcases mem_typeVariables_iff.mp leftMember with ⟨i, _, rfl, leftSame⟩
    rcases mem_typeVariables_iff.mp rightMember with ⟨j, _, rfl, rightSame⟩
    have sameNumber : number declaration.name i = number declaration.name j :=
      (Ty.parameter.inj leftSame).2.symm.trans (Ty.parameter.inj rightSame).2
    simp only [injective sameNumber]
  have outside : Arranged names.declares names.measures [] names.arity
      fun name id =>
        (name, Ty.parameter name id) ∈ declaration.typeVariables number :=
    ⟨provides, unique, fun _ _ found => by contradiction,
      fun _ _ found => by contradiction⟩
  have shape {name : String} {type : Ty}
      (found : (declaration.typeVariables number).lookup name = some type) :
      ∃ id, type = .parameter name id ∧
        (name, Ty.parameter name id) ∈ declaration.typeVariables number := by
    have member := mem_of_lookup_eq_some found
    rcases mem_typeVariables_iff.mp member with ⟨index, inside, named, rfl⟩
    exact ⟨_, rfl, member⟩
  have keys : (declaration.parameters.zip arguments).map Prod.fst =
      declaration.parameters :=
    List.map_fst_zip (Nat.le_of_eq full.symm)
  have typeKeys : (declaration.parameters.zip types).map Prod.fst =
      declaration.parameters :=
    List.map_fst_zip (Nat.le_of_eq (full.symm.trans resolved.length_eq))
  refine ⟨⟨provides, unique, ?_, ?_⟩, ?_, ?_, ?_⟩
  · intro name type found
    rcases shape found with ⟨id, rfl, member⟩
    exact Ty.throughout_of_children_eq_nil member rfl
  · intro name type found
    rcases shape found with ⟨id, rfl, -⟩
    rfl
  · intro name type brought
    exact Denotes.allThroughout provides outside.orderly arguments resolved type
      (Schema.mem_of_get?_bindings brought)
  · intro name type found
    have isParameter : name ∈ declaration.parameters :=
      isSome_lookup_typeVariables_iff.mp
        (Option.isSome_iff_exists.mpr ⟨type, found⟩)
    rw [← keys, ← lookup_isSome_iff, Option.isSome_iff_exists] at isParameter
    rcases isParameter with ⟨expression, listed⟩
    refine ⟨expression, listed, ?_⟩
    rcases exists_mem_zip_of_forall₂ resolved
      (mem_of_lookup_eq_some listed) with ⟨argument, paired, denotes⟩
    have bound : (schema.bindings types).get? name = some argument := by
      rw [Schema.bindings, same,
        Dictionary.get?_ofList_eq_some_iff (typeKeys.symm ▸ distinct)]
      exact paired
    rcases shape found with ⟨id, rfl, -⟩
    rw [Ty.instantiated, Ty.substitute, bound, Option.getD_some,
      Denotes.normalized_eq outside expression denotes]
    exact denotes
  · intro name unbound
    rw [← Option.not_isSome_iff_eq_none,
      isSome_lookup_typeVariables_iff] at unbound
    rwa [← Option.not_isSome_iff_eq_none, lookup_isSome_iff, keys]

end SchemaDeclaration

namespace Program

variable {program : Program} (distinct : (program.map Declaration.name).Nodup)

include distinct

/-- A schema without a parent has the fields that it declares. -/
theorem exists_field_of_root
    (resolved : Resolved program.declared program.number)
    {declaration : SchemaDeclaration}
    (member : .schema declaration ∈ program.declared)
    (root : declaration.parent = none) {field : FieldDeclaration}
    (listed : field ∈ declaration.fields) :
    ∃ schema type, program.kind? declaration.name = some (.schema schema none) ∧
      schema.parameters = declaration.parameters ∧
      schema.fields.lookup field.name = some type ∧
      Means program.declared (declaration.typeVariables program.number)
        field.type type := by
  rcases exists_forall₂_iff.mpr (resolved.fieldTypes declaration member) with
    ⟨types, each⟩
  let own := (declaration.fields.map FieldDeclaration.name).zip types
  have typed : declaration.HasOwnFields program.declared program.number own :=
    forall₂_key_iff.mpr ⟨types, each, rfl⟩
  have names : (own.map Prod.fst).Nodup := by
    rw [List.map_fst_zip (by rw [List.length_map, each.length_eq])]
    exact resolved.fields declaration member
  have paired : (field.name, field) ∈
      (declaration.fields.map FieldDeclaration.name).zip
        declaration.fields := by
    rw [← List.map_id declaration.fields, List.map_map, List.zip_map']
    exact List.mem_map_of_mem listed
  rcases exists_mem_zip_of_forall₂ each paired with ⟨type, found, means⟩
  refine ⟨{ name := declaration.name, parameters := declaration.parameters,
            fields := putFields [] own }, type, ?_, rfl,
            lookup_putFields_of_mem names found, means⟩
  rw [kind?_eq_some_iff_hasKind distinct resolved]
  exact ⟨.schema declaration, member, rfl, _, .root member root typed,
    by rw [root]; rfl⟩

end Program

namespace Analysis

/--
In an accepted program, take a schema without a parent and with distinct
parameters, one of its fields, and an argument for each parameter that resolves
outside of any schema.  The field has a type behind the handle with these
arguments, and the type expression of the field resolves with the arguments in
the place of the parameters.  The second type is the normal form of the first.
The two are subtypes of each other where the first is settled, and without
unions inside arrays and optional types only then.
-/
theorem resolve_instantiate (config : Config) (program : Program)
    (accepted : (analyze config program).isAccepted = true)
    (declaration : SchemaDeclaration) (member : .schema declaration ∈ program)
    (root : declaration.parent = none)
    (parameters : declaration.parameters.Nodup) (field : FieldDeclaration)
    (listed : field ∈ declaration.fields) (arguments : List TypeExpr)
    (full : arguments.length = declaration.parameters.length) (types : List Ty)
    (resolved : ((analyze config program).names program.units).resolveAll []
      arguments = .ok types) :
    ∃ seen written,
      (((analyze config program).context config none).fields declaration.name
        types).lookup field.name = some seen ∧
      ((analyze config program).names program.units).resolve []
        (field.type.instantiate (declaration.parameters.zip arguments)) =
          .ok written ∧
      written = seen.normalized ∧
      ∀ widening,
        (seen.Settled →
          Ty.isSubtype widening seen written = true ∧
            Ty.isSubtype widening written seen = true) ∧
        (seen.hasPlainCore = true → Ty.isSubtype widening seen written = true →
          seen.Settled) := by
  rw [isAccepted_analyze_iff, Program.faults_eq_nil_iff_wellTyped] at accepted
  rcases accepted with ⟨distinct, wellTyped⟩
  rw [(sameTypes_analyze config program).resolveAll,
    Names.resolveAll_eq_ok_iff] at resolved
  rcases Program.exists_field_of_root distinct wellTyped.toResolved member root
    listed with
    ⟨schema, type, known, same, found, means⟩
  have injective : Function.Injective (program.number declaration.name) :=
    fun _ _ => Nat.add_left_cancel
  have replaces :=
    SchemaDeclaration.replaces_typeVariables program.names injective parameters
      same full resolved
  have denotes :=
    (Names.resolve_eq_ok_iff field.type).mp
      ((Program.resolve_eq_ok_iff_means distinct).mpr means)
  have orderly :=
    Denotes.throughout replaces.provides replaces.orderly field.type denotes
  refine ⟨type.substitute (schema.bindings types),
    type.instantiated (schema.bindings types), ?_, ?_, rfl, ?_⟩
  · have fields : ((analyze config program).context config none).fields
        declaration.name types =
        schema.fieldsAt types := by
      simp only [Context.fields, context, kind?_analyze, known]
    rw [fields]
    exact (lookup_map_snd _ _ _).trans (by rw [found]; rfl)
  · rw [(sameTypes_analyze config program).resolve, Names.resolve_eq_ok_iff]
    exact Denotes.instantiate replaces field.type denotes
  · intro widening
    exact ⟨Ty.isSubtype_normalized_of_settled widening
        (Ty.throughout_substitute (Ty.isOrderly_substitute _) replaces.brought
          type orderly),
      Ty.settled_of_isSubtype_normalized⟩

end Analysis

/-- A generic schema with an optional field and one with a union. -/
def parcel : SchemaDeclaration :=
  { name := "Parcel", parameters := ["T"]
    fields :=
      [{ name := "content",
         type := .optional .unknown (.schemaName .unknown "T") },
        { name := "extras"
          type :=
            .array .unknown
              (.union .unknown
                [.schemaName .unknown "T", .primitive .unknown .int]) }] }

/--
The extras of a parcel of numbers are an array of a union with a repetition,
which is settled.
-/
theorem resolve_instantiate_parcel :
    (analyze {} [.schema parcel]).isAccepted = true ∧
    ∃ seen written,
      (((analyze {} [.schema parcel]).context {} none).fields "Parcel"
        [.primitive .int]).lookup "extras" = some seen ∧
      ((analyze {} [.schema parcel]).names
        (Program.units [.schema parcel])).resolve []
        (.array .unknown
          (.union .unknown
            [.primitive .unknown .int, .primitive .unknown .int])) =
            .ok written ∧
      written = seen.normalized ∧ seen.Settled ∧
      Ty.isSubtype false seen written = true ∧
      Ty.isSubtype false written seen = true := by
  have accepted : (analyze {} [.schema parcel]).isAccepted = true := by
    decide +kernel
  rcases Analysis.resolve_instantiate {} [.schema parcel] accepted parcel
    List.mem_cons_self rfl (by decide)
      { name := "extras"
        type :=
          .array .unknown
            (.union .unknown
              [.schemaName .unknown "T", .primitive .unknown .int]) }
      (List.mem_cons_of_mem _ List.mem_cons_self) [.primitive .unknown .int] rfl
        [.primitive .int] rfl with
    ⟨seen, written, found, resolved, normal, subtypes⟩
  have repeated :
      ((((analyze {} [.schema parcel]).context {} none).fields parcel.name
        [.primitive .int]).lookup
      "extras").any (Ty.equal
      (.array (.union [.primitive .int, .primitive .int]))) = true := by
    decide +kernel
  rw [found, Option.any_some] at repeated
  have settled : seen.Settled := by
    cases seen with
    | array element =>
        cases element with
        | union members =>
            rw [Ty.equal_array, Ty.equal_union_iff] at repeated
            refine .array (.union fun member listed => ?_)
            rcases repeated.2 member listed with ⟨number, isNumber, same⟩
            simp only [List.mem_cons, List.not_mem_nil, or_false,
              or_self] at isNumber
            cases member with
            | primitive base => exact .same (Ty.equal_refl _)
            | _ => simp [isNumber, Ty.equal] at same
        | _ => simp [Ty.equal] at repeated
    | _ => simp [Ty.equal] at repeated
  exact ⟨accepted, seen, written, found, resolved, normal, settled,
    (subtypes false).1 settled⟩

/--
The content of a parcel of optional numbers is doubly optional, and no subtype
of what is written.
-/
theorem exists_not_isSubtype_instantiate :
    (analyze {} [.schema parcel]).isAccepted = true ∧
    ∃ seen written,
      (((analyze {} [.schema parcel]).context {} none).fields "Parcel"
        [.optional (.primitive .int)]).lookup "content" =
        some seen ∧
      ((analyze {} [.schema parcel]).names
        (Program.units [.schema parcel])).resolve []
        (.optional .unknown (.optional .unknown (.primitive .unknown .int))) =
          .ok written ∧
      Ty.isSubtype false seen written = false := by
  have doubled :
      ((((analyze {} [.schema parcel]).context {} none).fields "Parcel"
        [.optional (.primitive .int)]).lookup
      "content").any (Ty.equal (.optional (.optional (.primitive .int)))) =
      true := by
    decide +kernel
  rcases (Option.any_eq_true _ _).mp doubled with ⟨seen, found, same⟩
  refine ⟨by decide +kernel, seen, .optional (.primitive .int), found, rfl, ?_⟩
  cases seen with
  | optional inner =>
      rw [← Bool.not_eq_true, Ty.optional_isSubtype_optional_iff,
        Bool.not_eq_true]
      cases inner with
      | optional deeper => exact Ty.not_optional_isSubtype rfl
      | _ => simp [Ty.equal] at same
  | _ => simp [Ty.equal] at same

end SchemaMap
