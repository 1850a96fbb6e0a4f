import Mathlib.Data.Set.Finite.Lattice
import SchemaMap.Proofs.Fields
import SchemaMap.Proofs.Inference.Renaming
import SchemaMap.Proofs.WellTyped

/-!
# Other numbers for type variables

Which numbers type variables get does not matter, as long as distinct ones get
distinct numbers.  Two such numberings of the type variables of a program differ
by a renaming (`exists_renumbers`), and what the declarations mean follows it,
up to being well typed (`WellTyped.renumbered`).
-/

namespace SchemaMap

/-! ## Type expressions -/

section

variable {rename : Nat → Nat} {declared : String → Kind → Prop}
  {unit : String → PhysicalUnit → Prop}
  {parameters : List (String × Ty)}

/--
A name with arguments stands for the renamed type of the renamed arguments.
-/
theorem Applies.renamed {name : String} {arguments : List Ty} {type : Ty}
    (applied : Applies declared name arguments type) :
    Applies declared name (arguments.map (Ty.renamed rename))
      (type.renamed rename) := by
  cases applied with
  | schema known arity =>
      rw [Ty.renamed, Ty.renamedAll_eq_map]
      exact .schema known (by rw [List.length_map, arity])
  | enumeration known => exact .enumeration known

theorem NameDenotes.renamed {name : String} {type : Ty}
    (named : NameDenotes declared parameters name type) :
    NameDenotes declared (parameters.map (Prod.map id (Ty.renamed rename))) name
      (type.renamed rename) := by
  cases named with
  | parameter bound =>
      apply NameDenotes.parameter
      rw [lookup_map_snd, bound]
      rfl
  | declared free applied =>
      refine .declared ?_ applied.renamed
      rw [lookup_map_snd, free]
      rfl

mutual

/--
The type of a type expression follows a renaming of the type variables among the
parameters.
-/
theorem Denotes.renamed (injective : Function.Injective rename) :
    (expression : TypeExpr) → {type : Ty} →
    Denotes declared unit parameters expression type →
    Denotes declared unit (parameters.map (Prod.map id (Ty.renamed rename)))
      expression (type.renamed rename)
  | .primitive _ _, _, .primitive => .primitive
  | .schemaName _ _, _, .schemaName named => .schemaName named.renamed
  | .enumName _ _, _, .enumName named => .enumName named.renamed
  | .array _ element, _, .array inner =>
      .array (Denotes.renamed injective element inner)
  | .optional _ inner, _, .optional present wrapped => by
      refine .optional (Denotes.renamed injective inner present) ?_
      rw [Ty.wraps_iff, Ty.optionalOf_renamed, Ty.wraps_iff.mp wrapped]
  | .quantity _ _, _, .quantity evaluated => .quantity evaluated
  | .tuple _ items, _, .tuple each => by
      rw [Ty.renamed, Ty.renamedAll_eq_map]
      exact .tuple (Denotes.renamedAll injective items each)
  | .union _ members, _, .union each => by
      rw [← Ty.unionOf_renamed injective]
      exact .union (Denotes.renamedAll injective members each)
  | .generic _ _ arguments, _, .generic each applied =>
      .generic (Denotes.renamedAll injective arguments each) applied.renamed
termination_by structural expression => expression

theorem Denotes.renamedAll (injective : Function.Injective rename) :
    (expressions : List TypeExpr) →
    {types : List Ty} →
    List.Forall₂ (Denotes declared unit parameters) expressions types →
    List.Forall₂ (Denotes declared unit
      (parameters.map (Prod.map id (Ty.renamed rename)))) expressions
      (types.map (Ty.renamed rename))
  | [], _, .nil => .nil
  | expression :: rest, _, .cons first further =>
      .cons (Denotes.renamed injective expression first)
        (Denotes.renamedAll injective rest further)
termination_by structural expressions => expressions

end

end

/-! ## Declarations -/

/--
The type variables of the declared schemas, each by the name of its schema and
its place there.
-/
def typeVariablesOf (declared : Set Declaration) : Set (String × Nat) :=
  { entry |
    ∃ declaration, .schema declaration ∈ declared ∧ declaration.name = entry.1 ∧
    entry.2 < declaration.parameters.length }

/-- The second numbering is the first one, renamed. -/
def Renumbers (declared : Set Declaration) (rename : Nat → Nat)
    (number other : String → Nat → Nat) : Prop :=
  ∀ entry ∈ typeVariablesOf declared,
    rename (number entry.1 entry.2) = other entry.1 entry.2

section

variable {rename : Nat → Nat} (injective : Function.Injective rename)
  {declared : Set Declaration}
  {number other : String → Nat → Nat}

/--
The variables of a schema under one numbering, renamed, are those under the
other.
-/
theorem Renumbers.typeVariables
    (renumbers : Renumbers declared rename number other)
    {declaration : SchemaDeclaration}
    (member : .schema declaration ∈ declared) :
    (declaration.typeVariables number).map (Prod.map id (Ty.renamed rename)) =
      declaration.typeVariables other := by
  apply List.ext_getElem
  · simp [SchemaDeclaration.typeVariables]
  · intro index _ bound
    rw [SchemaDeclaration.typeVariables, List.length_mapIdx] at bound
    have same : rename (number declaration.name index) =
        other declaration.name index :=
      renumbers (declaration.name, index) ⟨declaration, member, rfl, bound⟩
    simp [SchemaDeclaration.typeVariables, Ty.renamed, same]

include injective

/-- A type expression means the renamed type under renamed parameters. -/
theorem means_renamed {parameters : List (String × Ty)} {expression : TypeExpr}
    {type : Ty} (meant : Means declared parameters expression type) :
    Means declared (parameters.map (Prod.map id (Ty.renamed rename))) expression
      (type.renamed rename) :=
  Denotes.renamed injective expression meant

theorem TransformDeclaration.HasSignature.renamed
    {declaration : TransformDeclaration} {signature : Signature}
    (typed : declaration.HasSignature declared signature) :
    declaration.HasSignature declared (signature.renamed rename) := by
  refine ⟨?_, means_renamed injective typed.2⟩
  rw [Signature.renamed, List.forall₂_map_right_iff]
  exact typed.1.imp fun source entry meant =>
    ⟨meant.1, means_renamed injective meant.2⟩

theorem Renumbers.hasOwnFields
    (renumbers : Renumbers declared rename number other)
    {declaration : SchemaDeclaration} (member : .schema declaration ∈ declared)
    {own : List (String × Ty)}
    (typed : declaration.HasOwnFields declared number own) :
    declaration.HasOwnFields declared other
      (own.map (Prod.map id (Ty.renamed rename))) := by
  rw [SchemaDeclaration.HasOwnFields, List.forall₂_map_right_iff,
    ← renumbers.typeVariables member]
  exact typed.imp fun field entry meant =>
    ⟨meant.1, means_renamed injective meant.2⟩

/-- A schema has the renamed fields under the other numbering. -/
theorem Renumbers.hasFields (renumbers : Renumbers declared rename number other)
    {name : String} {fields : List (String × Ty)}
    (typed : HasFields declared number name fields) :
    HasFields declared other name
      (fields.map (Prod.map id (Ty.renamed rename))) := by
  induction typed with
  | root member orphan own =>
      rw [← putFields_map, List.map_nil]
      exact .root member orphan (renumbers.hasOwnFields injective member own)
  | child member written _ own ih =>
      rw [← putFields_map]
      exact .child member written ih
        (renumbers.hasOwnFields injective member own)

/-- What names stand for follows the renaming. -/
theorem Renumbers.hasKind (renumbers : Renumbers declared rename number other)
    {name : String} {kind : Kind} (stands : HasKind declared number name kind) :
    HasKind declared other name (kind.renamed rename) := by
  rcases stands with ⟨declaration, member, named, stands⟩
  refine ⟨declaration, member, named, ?_⟩
  cases declaration with
  | schema declaration =>
      rcases stands with ⟨fields, typed, rfl⟩
      exact ⟨_, renumbers.hasFields injective typed, rfl⟩
  | unit declaration =>
      rcases stands with ⟨unit, measured, rfl⟩
      exact ⟨unit, measured, rfl⟩
  | lookup declaration =>
      rcases stands with ⟨keys, value, ⟨keyed, valued⟩, rfl⟩
      refine ⟨_, _, ⟨?_, means_renamed injective valued⟩, rfl⟩
      exact Denotes.renamedAll injective _ keyed
  | transform declaration =>
      rcases stands with ⟨signature, typed, rfl⟩
      exact ⟨_, typed.renamed injective, rfl⟩
  | _ =>
      cases stands
      rfl

omit injective in
theorem Signature.HasSource.renamed {signature : Signature} {source : Ty}
    (taken : signature.HasSource source) :
    (signature.renamed rename).HasSource (source.renamed rename) := by
  cases taken with
  | single => exact .single
  | @several sources target several =>
      have types : (sources.map (Prod.map id (Ty.renamed rename))).map
          Prod.snd =
          (sources.map Prod.snd).map (Ty.renamed rename) := by
        rw [List.map_map, List.map_map]
        rfl
      rw [Ty.renamed, Ty.renamedAll_eq_map, ← types]
      exact .several (by rwa [List.length_map])

/-- The environment of a rule under the other numbering is the renamed one. -/
theorem Renumbers.ruleEnvironment
    (renumbers : Renumbers declared rename number other) (config : Config)
    (signature : Signature) (source : Ty) :
    (SchemaMap.ruleEnvironment config declared number signature source).Renames
      rename
      (SchemaMap.ruleEnvironment config declared other
        (signature.renamed rename)
        (source.renamed rename)) where
  config := rfl
  kind := fun _ _ => renumbers.hasKind injective
  source := rfl
  scope := by
    show (signature.sources.map (Prod.map id (Ty.renamed rename))).filterMap _ =
        _
    rw [List.filterMap_map, SchemaMap.ruleEnvironment, List.map_filterMap]
    apply List.filterMap_congr
    rintro ⟨name, type⟩ _
    cases name <;> rfl

/-- What resolves under one numbering resolves under the other. -/
theorem Resolved.renumbered (resolved : Resolved declared number)
    (renumbers : Renumbers declared rename number other) :
    Resolved declared other :=
  { resolved with
    fieldTypes := by
      intro declaration member field listed
      rcases resolved.fieldTypes declaration member field listed with
        ⟨type, meant⟩
      rw [← renumbers.typeVariables member]
      exact ⟨_, means_renamed injective meant⟩ }

/--
Declarations that are well typed are so with other numbers for type variables.
-/
theorem WellTyped.renumbered {config : Config}
    (wellTyped : WellTyped config declared number)
    (renumbers : Renumbers declared rename number other) :
    WellTyped config declared other :=
  { wellTyped.toResolved.renumbered injective renumbers with
    transforms := by
      intro declaration member
      have typed := wellTyped.transforms declaration member
      rcases typed.rules with ⟨signature, source, resolves, taken, fits⟩
      refine ⟨typed.sources, typed.targets, signature.renamed rename,
        source.renamed rename, resolves.renamed injective, taken.renamed, ?_⟩
      intro rule listed
      exact (fits rule listed).renamed injective
        (renumbers.ruleEnvironment injective config signature source)
    pipelines := wellTyped.pipelines }

end

/-! ## Two numberings of a program -/

section

variable {ι : Type} [Nonempty ι] {members : Set ι} {first second : ι → Nat}

open Classical in
/--
Carry the first numbering of some members over to the second; other numbers go
above `bound`.
-/
noncomputable def carryOver (members : Set ι) (first second : ι → Nat)
    (bound id : Nat) : Nat :=
  if id ∈ Set.image first members then
    second (Function.invFunOn first members id)
  else
    id + bound + 1

theorem carryOver_of_mem (apart : Set.InjOn first members) (bound : Nat)
    {member : ι} (found : member ∈ members) :
    carryOver members first second bound (first member) = second member := by
  rw [carryOver, if_pos (Set.mem_image_of_mem first found),
    apart.leftInvOn_invFunOn found]

/-- Distinct numbers are carried over to distinct ones. -/
theorem carryOver_injective {bound : Nat} (apart : Set.InjOn first members)
    (otherApart : Set.InjOn second members)
    (below : ∀ member ∈ members, second member ≤ bound) :
    Function.Injective (carryOver members first second bound) := by
  have unused : ∀ id, id ∉ Set.image first members →
      carryOver members first second bound id = id + bound + 1 := by
    intro id fresh
    exact if_neg fresh
  intro left right same
  by_cases leftUsed : left ∈ Set.image first members <;>
    by_cases rightUsed : right ∈ Set.image first members
  · rcases leftUsed with ⟨one, oneFound, rfl⟩
    rcases rightUsed with ⟨two, twoFound, rfl⟩
    rw [carryOver_of_mem apart bound oneFound,
      carryOver_of_mem apart bound twoFound] at same
    rw [otherApart oneFound twoFound same]
  · rcases leftUsed with ⟨one, oneFound, rfl⟩
    rw [carryOver_of_mem apart bound oneFound, unused right rightUsed] at same
    have := below one oneFound
    omega
  · rcases rightUsed with ⟨two, twoFound, rfl⟩
    rw [carryOver_of_mem apart bound twoFound, unused left leftUsed] at same
    have := below two twoFound
    omega
  · rw [unused left leftUsed, unused right rightUsed] at same
    omega

end

theorem finite_typeVariablesOf (program : Program) :
    (typeVariablesOf program.declared).Finite := by
  apply (List.finite_toSet (program.flatMap fun declaration =>
    ((Declaration.schema? declaration).toList).flatMap fun schema =>
      (List.range schema.parameters.length).map fun index =>
        (schema.name, index))).subset
  rintro ⟨name, index⟩ ⟨declaration, member, rfl, bound⟩
  refine List.mem_flatMap.mpr ⟨_, member, ?_⟩
  simpa [Declaration.schema?] using bound

/--
Numberings that keep the type variables of a program apart differ by a renaming.
-/
theorem exists_renumbers (program : Program) {number other : String → Nat → Nat}
    (apart : Set.InjOn (fun entry : String × Nat => number entry.1 entry.2)
      (typeVariablesOf program.declared))
    (otherApart : Set.InjOn (fun entry : String × Nat => other entry.1 entry.2)
      (typeVariablesOf program.declared)) :
    ∃ rename, Function.Injective rename ∧
      Renumbers program.declared rename number other := by
  rcases ((finite_typeVariablesOf program).image fun entry =>
    other entry.1 entry.2).bddAbove with ⟨bound, isBound⟩
  have below : ∀ entry ∈ typeVariablesOf program.declared,
      other entry.1 entry.2 ≤ bound :=
    fun entry found => isBound (Set.mem_image_of_mem _ found)
  exact ⟨_, carryOver_injective apart otherApart below,
    fun entry => carryOver_of_mem apart bound⟩

/-- Completion keeps the type variables of a program apart. -/
theorem Program.injOn_number {program : Program}
    (distinct : (program.map Declaration.name).Nodup) :
    Set.InjOn (fun entry : String × Nat => program.number entry.1 entry.2)
      (typeVariablesOf program.declared) := by
  rintro ⟨_, i⟩ ⟨first, firstMember, rfl, firstBound⟩ ⟨_, j⟩
    ⟨second, secondMember, rfl, secondBound⟩ same
  rcases exists_completed distinct firstMember with ⟨_, foundFirst⟩
  rcases exists_completed distinct secondMember with ⟨_, foundSecond⟩
  exact Prod.ext_iff.mpr (SchemaFields.offset_injective foundFirst foundSecond
    firstBound secondBound same)

end SchemaMap
