import SchemaMap.Proofs.Renumbering

/-!
# Further transforms

No schema, unit or table depends on a transform.  What names and type
expressions mean among some declarations, they mean as well where further
transforms are declared (`AddsTransforms.hasKind`), so that declarations which
are well typed stay so if the further transforms fit
(`AddsTransforms.wellTyped`).

A transform at the end of a program brings no fault if it is well typed and its
name is free (`faults_concat_transform`).
-/

namespace SchemaMap

/-! ## More names -/

section

variable {declared other : String → Kind → Prop}
  {unit : String → PhysicalUnit → Prop} {parameters : List (String × Ty)}
  (more : ∀ name kind, declared name kind → other name kind)

include more

/-- A name with arguments stands for the same type when more is declared. -/
theorem Applies.mono {name : String} {arguments : List Ty} {type : Ty}
    (applied : Applies declared name arguments type) :
    Applies other name arguments type := by
  cases applied with
  | schema known arity => exact .schema (more _ _ known) arity
  | enumeration known => exact .enumeration (more _ _ known)

/-- A name stands for the same type when more is declared. -/
theorem NameDenotes.mono {name : String} {type : Ty}
    (named : NameDenotes declared parameters name type) :
    NameDenotes other parameters name type := by
  cases named with
  | parameter bound => exact .parameter bound
  | declared free applied => exact .declared free (applied.mono more)

end

mutual

/-- Type expressions keep their types where more names are declared. -/
theorem Denotes.mono {declared other : String → Kind → Prop}
    {unit : String → PhysicalUnit → Prop} {parameters : List (String × Ty)}
    (more : ∀ name kind, declared name kind → other name kind) :
    (expression : TypeExpr) → {type : Ty} →
    Denotes declared unit parameters expression type →
    Denotes other unit parameters expression type
  | .primitive _ _, _, .primitive => .primitive
  | .schemaName _ _, _, .schemaName named => .schemaName (named.mono more)
  | .enumName _ _, _, .enumName named => .enumName (named.mono more)
  | .array _ element, _, .array inner =>
      .array (Denotes.mono more element inner)
  | .optional _ inner, _, .optional present wrapped =>
      .optional (Denotes.mono more inner present) wrapped
  | .quantity _ _, _, .quantity evaluated => .quantity evaluated
  | .tuple _ items, _, .tuple each => .tuple (Denotes.monoAll more items each)
  | .union _ members, _, .union each =>
      .union (Denotes.monoAll more members each)
  | .generic _ _ arguments, _, .generic each applied =>
      .generic (Denotes.monoAll more arguments each) (applied.mono more)
termination_by structural expression => expression

theorem Denotes.monoAll {declared other : String → Kind → Prop}
    {unit : String → PhysicalUnit → Prop} {parameters : List (String × Ty)}
    (more : ∀ name kind, declared name kind → other name kind) :
    (expressions : List TypeExpr) → {types : List Ty} →
    List.Forall₂ (Denotes declared unit parameters) expressions types →
    List.Forall₂ (Denotes other unit parameters) expressions types
  | [], _, .nil => .nil
  | expression :: rest, _, .cons first further =>
      .cons (Denotes.mono more expression first)
        (Denotes.monoAll more rest further)
termination_by structural expressions => expressions

end

/-! ## More transforms -/

/-- All that the second set has more than the first are transforms. -/
structure AddsTransforms (declared more : Set Declaration) : Prop where
  subset : declared ⊆ more
  transforms : ∀ declaration ∈ more, declaration ∈ declared ∨
    ∃ transform, declaration = .transform transform

namespace AddsTransforms

variable {declared more : Set Declaration} (adds : AddsTransforms declared more)

include adds

/-- Apart from transforms, nothing is added. -/
theorem mem_iff {declaration : Declaration}
    (other : ∀ transform, declaration ≠ .transform transform := by simp) :
    declaration ∈ more ↔ declaration ∈ declared := by
  constructor
  · intro member
    rcases adds.transforms declaration member with before | ⟨transform, same⟩
    · exact before
    · exact absurd same (other transform)
  · exact fun member => adds.subset member

theorem schema_mem_iff {declaration : SchemaDeclaration} :
    .schema declaration ∈ more ↔ .schema declaration ∈ declared :=
  adds.mem_iff

/-- Transforms do not change what units stand for. -/
theorem measures_eq : Measures more = Measures declared := by
  have units : ∀ declaration : UnitDeclaration, .unit declaration ∈ more ↔
      .unit declaration ∈ declared :=
    fun declaration => adds.mem_iff
  have dimensions : ∀ declaration : DimensionDeclaration,
      .dimension declaration ∈ more ↔ .dimension declaration ∈ declared :=
    fun declaration => adds.mem_iff
  simp only [Measures, units, dimensions]

/-- Type expressions keep their meaning when transforms are added. -/
theorem means {parameters : List (String × Ty)} {expression : TypeExpr}
    {type : Ty} (meant : Means declared parameters expression type) :
    Means more parameters expression type := by
  have heads : ∀ name kind, Heads declared name kind →
      Heads more name kind := by
    rintro name kind ⟨declaration, member, stands⟩
    exact ⟨declaration, adds.subset member, stands⟩
  rw [Means, adds.measures_eq]
  exact Denotes.mono heads expression meant

/-- Signatures are the same when transforms are added. -/
theorem hasSignature {declaration : TransformDeclaration}
    {signature : Signature}
    (typed : declaration.HasSignature declared signature) :
    declaration.HasSignature more signature :=
  ⟨typed.1.imp fun _ _ meant => ⟨meant.1, adds.means meant.2⟩,
    adds.means typed.2⟩

/-- A step does what it did when transforms are added. -/
theorem performs {name : String} {signature : Signature}
    (performed : Performs declared name signature) :
    Performs more name signature := by
  rcases performed with ⟨declaration, member, named, typed⟩
  exact ⟨declaration, adds.subset member, named, adds.hasSignature typed⟩

variable {number : String → Nat → Nat}

theorem hasOwnFields {declaration : SchemaDeclaration}
    {own : List (String × Ty)}
    (typed : declaration.HasOwnFields declared number own) :
    declaration.HasOwnFields more number own :=
  typed.imp fun _ _ meant => ⟨meant.1, adds.means meant.2⟩

/-- Schemas have the same fields when transforms are added. -/
theorem hasFields {name : String} {fields : List (String × Ty)}
    (typed : HasFields declared number name fields) :
    HasFields more number name fields := by
  induction typed with
  | root member orphan own =>
      exact .root (adds.subset member) orphan (adds.hasOwnFields own)
  | child member written _ own ih =>
      exact .child (adds.subset member) written ih (adds.hasOwnFields own)

/-- What a name stands for it stands for among the further transforms too. -/
theorem hasKind {name : String} {kind : Kind}
    (stands : HasKind declared number name kind) :
    HasKind more number name kind := by
  rcases stands with ⟨declaration, member, named, stands⟩
  refine ⟨declaration, adds.subset member, named, ?_⟩
  cases declaration with
  | schema declaration =>
      rcases stands with ⟨fields, typed, rfl⟩
      exact ⟨fields, adds.hasFields typed, rfl⟩
  | unit declaration =>
      rcases stands with ⟨unit, measured, rfl⟩
      exact ⟨unit, adds.measures_eq ▸ measured, rfl⟩
  | lookup declaration =>
      rcases stands with ⟨keys, value, ⟨keyed, valued⟩, rfl⟩
      exact ⟨keys, value,
        ⟨keyed.imp fun _ _ meant => adds.means meant, adds.means valued⟩, rfl⟩
  | transform declaration =>
      rcases stands with ⟨signature, typed, rfl⟩
      exact ⟨signature, adds.hasSignature typed, rfl⟩
  | _ => exact stands

/--
Rules fit as before: in their environment all names stand for what they did.
-/
theorem fits {config : Config} {signature : Signature} {source target : Ty}
    {rule : Rule}
    (fitting : rule.Fits
      (ruleEnvironment config declared number signature source) target) :
    rule.Fits (ruleEnvironment config more number signature source) target := by
  have unchanged : Ty.renamed id = id := funext Ty.renamed_id
  have renames : (ruleEnvironment config declared number signature
      source).Renames id
      (ruleEnvironment config more number signature source) :=
    { config := rfl
      kind := by
        intro name kind stands
        rw [Kind.renamed_id]
        exact adds.hasKind stands
      source := (Ty.renamed_id _).symm
      scope := by rw [unchanged, Prod.map_id, List.map_id]; rfl }
  have renamed := fitting.renamed Function.injective_id renames
  rwa [Ty.renamed_id] at renamed

/-- Names stay in order when transforms are added. -/
theorem wellNamed (named : WellNamed declared) : WellNamed more where
  fields := fun declaration member =>
    named.fields declaration (adds.schema_mem_iff.mp member)
  variants := fun declaration member =>
    named.variants declaration (adds.mem_iff.mp member)
  parents := by
    intro declaration parent member written
    rcases named.parents declaration parent (adds.schema_mem_iff.mp member)
      written with ⟨other, found, owns⟩
    exact ⟨other, adds.subset found, owns⟩
  acyclic := by
    simp only [adds.schema_mem_iff]
    exact named.acyclic

/--
Declarations that are well typed stay so if the further transforms fit among
them.
-/
theorem wellTyped {config : Config} (typed : WellTyped config declared number)
    (further : ∀ transform, .transform transform ∈ more →
      .transform transform ∉ declared →
      transform.WellTyped config more number) :
    WellTyped config more number := by
  have transforms : ∀ transform, .transform transform ∈ more →
      transform.WellTyped config more number := by
    intro transform member
    by_cases before : .transform transform ∈ declared
    · have fitting := typed.transforms transform before
      rcases fitting.rules with ⟨signature, source, resolves, taken, fits⟩
      exact ⟨fitting.sources, fitting.targets, signature, source,
        adds.hasSignature resolves, taken,
        fun rule listed => adds.fits (fits rule listed)⟩
    · exact further transform member before
  have signatures : ∀ transform, .transform transform ∈ more →
      ∃ signature, transform.HasSignature more signature := by
    intro transform member
    rcases (transforms transform member).rules with ⟨signature, _, resolves, -⟩
    exact ⟨signature, resolves⟩
  exact
    { adds.wellNamed typed.toWellNamed with
      units := by
        intro declaration member
        rw [adds.measures_eq]
        exact typed.units declaration (adds.mem_iff.mp member)
      fieldTypes := by
        intro declaration member field listed
        rcases typed.fieldTypes declaration (adds.schema_mem_iff.mp member)
          field listed with ⟨type, meant⟩
        exact ⟨type, adds.means meant⟩
      lookupKeys := by
        intro declaration member key listed
        have before := adds.mem_iff.mp member
        rcases typed.lookupKeys declaration before key listed with ⟨type, meant⟩
        exact ⟨type, adds.means meant⟩
      lookupValues := by
        intro declaration member
        have before := adds.mem_iff.mp member
        rcases typed.lookupValues declaration before with ⟨type, meant⟩
        exact ⟨type, adds.means meant⟩
      sources := by
        intro declaration member
        rcases signatures declaration member with ⟨signature, resolves, -⟩
        rcases forall₂_key_iff.mp resolves with ⟨types, each, -⟩
        exact exists_forall₂_iff.mp ⟨types, each⟩
      targets := by
        intro declaration member
        rcases signatures declaration member with ⟨signature, -, meant⟩
        exact ⟨_, meant⟩
      transforms := transforms
      pipelines := by
        intro declaration member
        have before := adds.mem_iff.mp member
        have fitting := typed.pipelines declaration before
        constructor
        · intro step listed
          rcases fitting.steps step listed with ⟨transform, found, named⟩
          exact ⟨transform, adds.subset found, named⟩
        · intro chaining
          refine (fitting.chained chaining).imp ?_
          rintro first second
            ⟨before, after, source, performed, performedAfter, accepted⟩
          exact ⟨before, after, source, adds.performs performed,
            adds.performs performedAfter, accepted⟩ }

end AddsTransforms

/-! ## A transform at the end of a program -/

namespace Program

variable {program : Program}

theorem addsTransforms_concat (transform : TransformDeclaration) :
    AddsTransforms program.declared
      (declared (program ++ [.transform transform])) where
  subset := fun _ member => List.mem_append_left _ member
  transforms := by
    intro declaration member
    rcases List.mem_append.mp member with before | last
    · exact .inl before
    · exact .inr ⟨transform, List.mem_singleton.mp last⟩

/--
A well-typed transform of a free name brings no fault.  The numbers of type
variables may be those of the program without it.
-/
theorem faults_concat_transform {config : Config}
    (faultless : program.faults config = []) {transform : TransformDeclaration}
    (fresh : transform.name ∉ program.map Declaration.name)
    (typed : transform.WellTyped config
      (declared (program ++ [.transform transform])) program.number) :
    faults config (program ++ [.transform transform]) = [] := by
  rcases (faults_eq_nil_iff_wellTyped config program).mp faultless with
    ⟨distinct, wellTyped⟩
  have adds := @addsTransforms_concat program transform
  have distinctAfter : ((program ++ [.transform transform] : Program).map
      Declaration.name).Nodup := by
    rw [List.map_append, List.map_singleton, List.nodup_append_comm]
    exact List.nodup_cons.mpr ⟨fresh, distinct⟩
  have sameVariables : typeVariablesOf
      (declared (program ++ [.transform transform])) =
      typeVariablesOf program.declared := by
    simp only [typeVariablesOf, adds.schema_mem_iff]
  have extended : WellTyped config
      (declared (program ++ [.transform transform])) program.number := by
    refine adds.wellTyped wellTyped fun other member added => ?_
    rcases List.mem_append.mp member with before | last
    · exact absurd before added
    · cases List.mem_singleton.mp last
      exact typed
  have apart := injOn_number distinct
  rw [← sameVariables] at apart
  rcases exists_renumbers _ apart (injOn_number distinctAfter) with
    ⟨rename, injective, renumbers⟩
  exact (faults_eq_nil_iff_wellTyped config _).mpr
    ⟨distinctAfter, extended.renumbered injective renumbers⟩

end Program

end SchemaMap
