import SchemaMap.Proofs.Findings
import SchemaMap.Proofs.Inheritance

/-!
# What declarations mean

What a declared name stands for is given by rules over the set of declarations:
units by finite unfolding, type expressions by what the names in them stand for,
schemas with the fields of their parents, and the rest of a declaration through
its type expressions (`HasKind`).  No order of the declarations enters, except
that type variables have numbers, which `number` gives to the parameters of each
schema.

Where names are distinct, the types that a program's own tables find are those
of the rules (`resolve_eq_ok_iff_means`).
-/

namespace SchemaMap

section

variable (declared : Set Declaration)

/-- What a declared name stands for in type expressions. -/
def Heads (name : String) (kind : Kind) : Prop :=
  ∃ declaration ∈ declared, declaration.name = name ∧ declaration.head = kind

/-- The values of the declared units. -/
def Measures : String → PhysicalUnit → Prop :=
  HasUnit (fun declaration => .unit declaration ∈ declared)
    (fun name =>
      ∃ declaration, .dimension declaration ∈ declared ∧
        declaration.name = name)

/--
The type of a type expression among the declarations, inside a schema with the
given parameters.
-/
def Means (parameters : List (String × Ty)) : TypeExpr → Ty → Prop :=
  Denotes (Heads declared) (Measures declared) parameters

/-- The types of the sources of a transform and of its target. -/
def TransformDeclaration.HasSignature (declaration : TransformDeclaration)
    (signature : Signature) : Prop :=
  List.Forall₂ (fun source entry =>
    entry.1 = source.name ∧ Means declared [] source.type entry.2)
      declaration.sources signature.sources ∧
    Means declared [] declaration.target signature.target

variable (number : String → Nat → Nat)

/-- The type variables of a schema. -/
def SchemaDeclaration.typeVariables (declaration : SchemaDeclaration) :
    List (String × Ty) :=
  declaration.parameters.mapIdx fun index name =>
    (name, .parameter name (number declaration.name index))

/-- The fields that a schema itself declares. -/
def SchemaDeclaration.HasOwnFields (declaration : SchemaDeclaration)
    (fields : List (String × Ty)) : Prop :=
  List.Forall₂
    (fun field entry =>
      entry.1 = field.name ∧
        Means declared (declaration.typeVariables number) field.type entry.2)
    declaration.fields fields

/--
The fields with further ones, each in the place of the field of its name if
there is one.
-/
def putFields (fields further : List (String × Ty)) : List (String × Ty) :=
  further.foldl (fun fields field => putField fields field.1 field.2) fields

/--
The fields of a schema: those of its parent, overridden and extended by its own.
-/
inductive HasFields : String → List (String × Ty) → Prop where
  | root {declaration : SchemaDeclaration} {own : List (String × Ty)}
      (member : .schema declaration ∈ declared)
      (orphan : declaration.parent = none)
      (typed : declaration.HasOwnFields declared number own) :
      HasFields declaration.name (putFields [] own)
  | child {declaration : SchemaDeclaration} {parent : Located String}
      {inherited own : List (String × Ty)}
      (member : .schema declaration ∈ declared)
      (written : declaration.parent = some parent)
      (above : HasFields parent.value inherited)
      (typed : declaration.HasOwnFields declared number own) :
      HasFields declaration.name (putFields inherited own)

/-- What a declaration stands for. -/
def Declaration.StandsFor : Declaration → Kind → Prop
  | .schema declaration, kind =>
      ∃ fields, HasFields declared number declaration.name fields ∧
        kind =
          .schema { name := declaration.name,
                    parameters := declaration.parameters, fields := fields }
          (declaration.parent.map Located.value)
  | .unit declaration, kind =>
      ∃ unit, Measures declared declaration.name unit ∧ kind = .unit (some unit)
  | .lookup declaration, kind =>
      ∃ keys value, (List.Forall₂ (Means declared []) declaration.keys keys ∧
        Means declared [] declaration.value value) ∧ kind = .lookup keys value
  | .transform declaration, kind =>
      ∃ signature, declaration.HasSignature declared signature ∧
        kind = .transform signature
  | declaration, kind => kind = declaration.head

/-- What a declared name stands for. -/
def HasKind (name : String) (kind : Kind) : Prop :=
  ∃ declaration ∈ declared, declaration.name = name ∧
    declaration.StandsFor declared number kind

/-- Everything that is declared can be resolved. -/
structure Resolved : Prop extends WellNamed declared where
  units : ∀ declaration, .unit declaration ∈ declared →
    ∃ unit, Measures declared declaration.name unit
  fieldTypes : ∀ declaration, .schema declaration ∈ declared →
    ∀ field ∈ declaration.fields,
    ∃ type, Means declared (declaration.typeVariables number) field.type type
  lookupKeys : ∀ declaration, .lookup declaration ∈ declared →
    ∀ key ∈ declaration.keys,
    ∃ type, Means declared [] key type
  lookupValues : ∀ declaration, .lookup declaration ∈ declared →
    ∃ type, Means declared [] declaration.value type
  sources : ∀ declaration, .transform declaration ∈ declared →
    ∀ source ∈ declaration.sources,
    ∃ type, Means declared [] source.type type
  targets : ∀ declaration, .transform declaration ∈ declared →
    ∃ type, Means declared [] declaration.target type

end

/-- Where everything resolves a transform has a signature. -/
theorem exists_hasSignature {declared : Set Declaration}
    {number : String → Nat → Nat} (resolved : Resolved declared number)
    {declaration : TransformDeclaration}
    (member : .transform declaration ∈ declared) :
    ∃ signature, declaration.HasSignature declared signature := by
  rcases exists_forall₂_iff.mpr (resolved.sources declaration member) with
    ⟨types, each⟩
  rcases resolved.targets declaration member with ⟨target, meant⟩
  exact ⟨⟨_, target⟩, forall₂_key_iff.mpr ⟨types, each, rfl⟩, meant⟩

/-- Fields are those of a declared schema, put behind those of its parent. -/
theorem HasFields.exists_declaration {declared : Set Declaration}
    {number : String → Nat → Nat} {name : String} {fields : List (String × Ty)}
    (typed : HasFields declared number name fields) :
    ∃ declaration inherited own, .schema declaration ∈ declared ∧
      declaration.name = name ∧
      declaration.HasOwnFields declared number own ∧
      fields = putFields inherited own ∧
      match declaration.parent with
      | none => inherited = []
      | some parent => HasFields declared number parent.value inherited := by
  cases typed with
  | root member orphan typed =>
      exact ⟨_, [], _, member, rfl, typed, rfl, by rw [orphan]⟩
  | child member written above typed =>
      exact ⟨_, _, _, member, rfl, typed, rfl, by rw [written]; exact above⟩

/-! ## Declarations of one form -/

section

variable {program : Program}

theorem mem_filterMap_unit?_iff {declaration : UnitDeclaration} :
    declaration ∈ program.filterMap Declaration.unit? ↔
      .unit declaration ∈ program.declared := by
  simp only [List.mem_filterMap, Declaration.unit?_eq_some_iff, exists_eq_right]
  rfl

theorem mem_filterMap_schema?_iff {declaration : SchemaDeclaration} :
    declaration ∈ program.filterMap Declaration.schema? ↔
      .schema declaration ∈ program.declared := by
  simp only [List.mem_filterMap, Declaration.schema?_eq_some_iff,
    exists_eq_right]
  rfl

/-- The declarations of one form have distinct names if all have. -/
theorem nodup_map_filterMap {α : Type} {view : Declaration → Option α}
    {form : α → Declaration}
    (viewed : ∀ declaration content, view declaration = some content ↔
      declaration = form content)
    (distinct : (program.map Declaration.name).Nodup) :
    ((program.filterMap view).map fun content =>
      (form content).name).Nodup := by
  induction program with
  | nil => exact List.nodup_nil
  | cons declaration rest ih =>
      rw [List.map_cons, List.nodup_cons] at distinct
      cases view' : view declaration with
      | none =>
          rw [List.filterMap_cons_none view']
          exact ih distinct.2
      | some content =>
          rw [List.filterMap_cons_some view', List.map_cons, List.nodup_cons,
            ← (viewed _ _).mp view']
          refine ⟨fun repeated => distinct.1 ?_, ih distinct.2⟩
          rcases List.mem_map.mp repeated with ⟨other, found, same⟩
          rcases List.mem_filterMap.mp found with ⟨later, member, laterView⟩
          rw [← same, ← (viewed _ _).mp laterView]
          exact List.mem_map_of_mem member

end

/-! ## Programs with distinct names -/

namespace Program

variable {program : Program} (distinct : (program.map Declaration.name).Nodup)

include distinct

/-- Where no name is declared twice every declaration owns its name. -/
theorem owner?_eq_some_iff {name : String} {declaration : Declaration} :
    program.owner? name = some declaration ↔
      declaration ∈ program.declared ∧ declaration.name = name :=
  find?_key_eq_some_iff distinct

/-- What names stand for is what is declared. -/
theorem declares_names : program.names.declares = Heads program.declared := by
  ext name kind
  show (program.owner? name).map Declaration.head = some kind ↔ _
  rw [Option.map_eq_some_iff]
  simp only [owner?_eq_some_iff distinct, and_assoc]
  rfl

/-- A name is a dimension exactly when one of this name is declared. -/
theorem isDimension_iff {name : String} :
    program.isDimension name = true ↔
      ∃ declaration, .dimension declaration ∈ program.declared ∧
        declaration.name = name := by
  simp only [isDimension, Option.any_eq_true, Option.map_eq_some_iff,
    owner?_eq_some_iff distinct]
  constructor
  · rintro ⟨_, ⟨declaration, ⟨member, named⟩, rfl⟩, isDimension⟩
    cases declaration with
    | dimension declaration => exact ⟨declaration, member, named⟩
    | _ => contradiction
  · rintro ⟨declaration, member, named⟩
    exact ⟨_, ⟨_, ⟨member, named⟩, rfl⟩, rfl⟩

/-- What unit names stand for is what the declared units are. -/
theorem measures_names :
    program.names.measures = Measures program.declared := by
  ext name unit
  have distinctUnits : ((program.filterMap Declaration.unit?).map
      UnitDeclaration.name).Nodup :=
    nodup_map_filterMap (fun _ _ => Declaration.unit?_eq_some_iff) distinct
  show program.units.find name = .ok unit ↔ _
  rw [units, owners_eq_of_nodup distinct,
    UnitTable.find_ofDeclarations_eq_ok_iff distinctUnits]
  simp only [UnitOf, Measures, mem_filterMap_unit?_iff,
    isDimension_iff distinct]

/-- Resolution finds exactly what type expressions mean. -/
theorem resolve_eq_ok_iff_means {parameters : List (String × Ty)}
    {expression : TypeExpr} {type : Ty} :
    program.names.resolve parameters expression = .ok type ↔
      Means program.declared parameters expression type := by
  rw [Means, ← declares_names distinct, ← measures_names distinct]
  exact Names.resolve_eq_ok_iff expression

theorem resolveAll_eq_ok_iff_means {parameters : List (String × Ty)}
    {expressions : List TypeExpr} {types : List Ty} :
    program.names.resolveAll parameters expressions = .ok types ↔
      List.Forall₂ (Means program.declared parameters) expressions types := by
  have same : Means program.declared parameters =
      Denotes program.names.declares program.names.measures parameters := by
    rw [Means, declares_names distinct, measures_names distinct]
  rw [same]
  exact Names.resolveAll_eq_ok_iff expressions

/-- A lookup table resolves to the meanings of its keys and its value. -/
theorem lookup_eq_ok_iff {declaration : LookupDeclaration} {keys : List Ty}
    {value : Ty} :
    program.names.lookup declaration = .ok (keys, value) ↔
      List.Forall₂ (Means program.declared []) declaration.keys keys ∧
        Means program.declared [] declaration.value value := by
  simp only [Names.lookup, bind_eq_ok_iff, resolveAll_eq_ok_iff_means distinct,
    resolve_eq_ok_iff_means distinct]
  constructor
  · rintro ⟨_, keyed, _, valued, ⟨⟩⟩
    exact ⟨keyed, valued⟩
  · rintro ⟨keyed, valued⟩
    exact ⟨_, keyed, _, valued, rfl⟩

/-- A signature resolves exactly to the meanings of its parts. -/
theorem signature_eq_ok_iff {declaration : TransformDeclaration}
    {signature : Signature} :
    program.names.signature declaration = .ok signature ↔
      declaration.HasSignature program.declared signature := by
  simp only [Names.signature, bind_eq_ok_iff,
    resolveAll_eq_ok_iff_means distinct, resolve_eq_ok_iff_means distinct,
    List.forall₂_map_left_iff]
  constructor
  · rintro ⟨types, each, target, meant, ⟨⟩⟩
    exact ⟨forall₂_key_iff.mpr ⟨types, each, rfl⟩, meant⟩
  · rintro ⟨each, meant⟩
    rcases forall₂_key_iff.mp each with ⟨types, related, zipped⟩
    refine ⟨types, related, _, meant, ?_⟩
    rw [zipped]
    rfl

/-! ## A declared name stands for one thing -/

theorem eq_of_name_eq {first second : Declaration}
    (left : first ∈ program.declared) (right : second ∈ program.declared)
    (same : first.name = second.name) : first = second :=
  List.inj_on_of_nodup_map distinct left right same

/-- A type expression has at most one meaning. -/
theorem means_unique (parameters : List (String × Ty)) :
    Relator.RightUnique (Means program.declared parameters) := by
  intro expression first second left right
  rw [← resolve_eq_ok_iff_means distinct] at left right
  exact Except.ok.inj (left.symm.trans right)

/-- A unit name stands for at most one unit. -/
theorem measures_unique : Relator.RightUnique (Measures program.declared) := by
  rw [← measures_names distinct]
  intro name first second left right
  exact Except.ok.inj (left.symm.trans right)

/-- A schema has one list of fields. -/
theorem hasFields_unique {number : String → Nat → Nat} :
    Relator.RightUnique (HasFields program.declared number) := by
  intro name first second left right
  have ownUnique : ∀ declaration : SchemaDeclaration,
      Relator.RightUnique
        fun (field : FieldDeclaration) (entry : String × Ty) =>
          entry.1 = field.name ∧
            Means program.declared (declaration.typeVariables number) field.type
              entry.2 := by
    intro declaration field first second left right
    exact Prod.ext (left.1.trans right.1.symm)
      (means_unique distinct _ left.2 right.2)
  induction left generalizing second with
  | root member orphan typed =>
      rcases right.exists_declaration with
        ⟨other, inherited, own, otherMember, named, otherTyped, rfl, above⟩
      cases eq_of_name_eq distinct member otherMember named.symm
      rw [orphan] at above
      rw [above, (ownUnique _).forall₂ typed otherTyped]
  | child member written _ typed ih =>
      rcases right.exists_declaration with
        ⟨other, inherited, own, otherMember, named, otherTyped, rfl, above⟩
      cases eq_of_name_eq distinct member otherMember named.symm
      rw [written] at above
      rw [ih above, (ownUnique _).forall₂ typed otherTyped]

end Program

end SchemaMap
