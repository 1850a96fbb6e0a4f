import SchemaMap.Proofs.Analysis.Changes
import SchemaMap.Proofs.Analysis.Evaluation
import SchemaMap.Proofs.Analysis.Types
import SchemaMap.Proofs.Dimensions
import SchemaMap.Proofs.Symbol.Operations

/-!
# What the types of an analysis mention

A program knows the names that a declaration of it owns, and the units that are
made of its dimensions.  The types that its declarations stand for mention
nothing else (`knowsKind_kind?`), and neither does any type that an analysis
comes upon, faults or not (`knows_changes`).
-/

namespace SchemaMap

namespace Program

/-- The name belongs to a declaration. -/
def Owns (program : Program) (name : String) : Prop :=
  (program.owner? name).isSome = true

/-- The unit is made of dimensions of the program. -/
def KnowsUnit (program : Program) (unit : PhysicalUnit) : Prop :=
  unit.Over fun name => program.isDimension name = true

/-- The type mentions names and units of the program, and no others. -/
def Knows (program : Program) (type : Ty) : Prop :=
  type.Within program.Owns program.KnowsUnit

/--
What a name stands for mentions names and units of the program, and no others.
-/
structure KnowsKind (program : Program) (kind : Kind) : Prop where
  unit : ∀ value, kind = .unit (some value) → program.KnowsUnit value
  types : ∀ type ∈ kind.types, program.Knows type

variable {program : Program}

/-! ## Types that are written -/

theorem knowsUnit_of_find {name : String} {unit : PhysicalUnit}
    (found : program.units.find name = .ok unit) :
    program.KnowsUnit unit := by
  have value := find_units_eq_ok_iff.mp found
  simp only [HasValue, ← isDimension_iff_owner?] at value
  exact value.isOver

/-- Type expressions stand for types that the program knows. -/
theorem supplies_isWithin (program : Program) :
    program.Supplies (Ty.IsWithin program.Owns program.KnowsUnit) where
  structural := Ty.structural_isWithin
  applied := by
    have owned : ∀ name kind, program.names.declares name kind →
        program.Owns name := by
      intro name kind known
      rcases Option.map_eq_some_iff.mp known with ⟨declaration, owner, -⟩
      rw [Owns, owner, Option.isSome_some]
    intro name arguments type applied
    cases applied with
    | schema known => exact owned name _ known
    | enumeration known => exact owned name _ known
  measured := by
    intro expression value evaluated
    exact evaluated.isOver fun _ _ found => knowsUnit_of_find found
  unknown := trivial

/-! ## Declarations -/

theorem knowsKind_schema {name : String} {schema : Schema}
    (found : program.fields.completed.lookup name = some schema)
    (parent : Option String) : program.KnowsKind (.schema schema parent) where
  unit := nofun
  types := by
    have built :=
      (SchemaFields.built_ofDeclarations program.names
        (program.owners.filterMap Declaration.schema?)).1
    rcases built.declared found with ⟨declaration, -, -, content⟩
    have bare : schema.arguments = [] := by rw [content]
    rw [Kind.types, bare, List.nil_append, List.forall_mem_map]
    exact throughout_built (fun _ => supplies_isWithin program)
      (fun _ _ _ _ => trivial)
      (fun _ _ _ _ _ _ within => within) built _ (mem_of_lookup_eq_some found)

theorem knowsKind_lookup {declaration : LookupDeclaration}
    {types : List Ty × Ty}
    (resolved : program.names.lookup declaration = .ok types) :
    program.KnowsKind (.lookup types.1 types.2) where
  unit := nofun
  types := (supplies_isWithin program).lookup resolved

theorem knowsKind_transform {declaration : TransformDeclaration}
    {signature : Signature}
    (resolved : program.names.signature declaration = .ok signature) :
    program.KnowsKind (.transform signature) where
  unit := nofun
  types := (supplies_isWithin program).signature resolved

theorem knowsKind_placeholder (declaration : Declaration) :
    program.KnowsKind declaration.placeholder where
  unit := by cases declaration <;> exact nofun
  types := (supplies_isWithin program).placeholder declaration

/-- A declaration is completed to something known. -/
theorem knowsKind_kindOf (declaration : Declaration) :
    program.KnowsKind (program.kindOf declaration) := by
  cases declaration with
  | schema declaration =>
      rw [kindOf]
      split
      · next found => exact knowsKind_schema found _
      · exact knowsKind_placeholder _
  | unit declaration =>
      rw [kindOf]
      split
      · next found =>
          refine ⟨?_, List.forall_mem_nil _⟩
          rintro value ⟨⟩
          exact knowsUnit_of_find found
      · exact knowsKind_placeholder (.unit declaration)
  | lookup declaration =>
      rw [kindOf]
      split
      · next resolved => exact knowsKind_lookup resolved
      · exact knowsKind_placeholder _
  | transform declaration =>
      rw [kindOf]
      split
      · next resolved => exact knowsKind_transform resolved
      · exact knowsKind_placeholder _
  | _ =>
      refine ⟨?_, List.forall_mem_nil _⟩
      rintro value ⟨⟩

theorem knowsKind_kind? {name : String} {kind : Kind}
    (found : program.kind? name = some kind) :
    program.KnowsKind kind := by
  rcases Option.map_eq_some_iff.mp found with ⟨declaration, -, rfl⟩
  exact knowsKind_kindOf declaration

/-! ## Changes -/

/-- A change mentions names and units of the program, and no others. -/
def KnowsChange (program : Program) : Change → Prop
  | .noteUnit _ _ unit => program.KnowsUnit unit
  | .setKind _ kind => program.KnowsKind kind
  | .bindVariable _ type _ => program.Knows type
  | .noteType _ type => program.Knows type
  | _ => True

/-- An event within the known types is a known change. -/
theorem knowsChange_event {event : Event}
    (within : event.Throughout (Ty.IsWithin program.Owns program.KnowsUnit)) :
    program.KnowsChange event.change := by
  cases event <;> exact within

theorem knows_reports (faults : List Fault) :
    ∀ change ∈ faults.map Change.report, program.KnowsChange change :=
  List.forall_mem_map.mpr fun _ _ => trivial

theorem knows_ruleChanges {context : Context}
    (within : context.Within program.Owns program.KnowsUnit) (target : Ty)
    (assigned : List String) (rules : List Rule) :
    ∀ change ∈ context.ruleChanges target assigned rules,
      program.KnowsChange change := by
  induction rules generalizing assigned with
  | nil => exact List.forall_mem_nil _
  | cons rule rest ih =>
      simp only [Context.ruleChanges, List.forall_mem_append]
      refine ⟨⟨⟨?_, ?_⟩, knows_reports _⟩, ih _⟩
      · split
        · exact List.forall_mem_singleton.mpr trivial
        · exact List.forall_mem_nil _
      · rw [List.forall_mem_map]
        intro event member
        have kept :=
          context.keeps_checkRule PhysicalUnit.closedUnder_over.inferable
            within.throughout target rule
        exact knowsChange_event (kept.trace event member)

/-- The named sources of a transform have types of its signature. -/
theorem mem_of_mem_namedSources {declaration : TransformDeclaration}
    {signature : Signature} {source : Located String × Ty}
    (member : source ∈
      Analysis.namedSources
        (declaration.sources.zip (signature.sources.map Prod.snd))) :
    source.2 ∈ signature.sources.map Prod.snd := by
  rcases List.mem_filterMap.mp member with ⟨entry, listed, named⟩
  rcases Option.map_eq_some_iff.mp named with ⟨name, -, rfl⟩
  exact (List.of_mem_zip listed).2

/-- Bodies are checked within the known types. -/
theorem within_bodyContext (config : Config)
    (declaration : TransformDeclaration) {signature : Signature}
    (known : program.KnowsKind (.transform signature)) :
    (Analysis.bodyContext config program.kind? declaration signature).Within
      program.Owns program.KnowsUnit where
  kinds := fun _ _ found => (knowsKind_kind? found).types
  source := by
    rintro type ⟨⟩
    exact Signature.throughout_source Ty.structural_isWithin known.types
  variableTypes := by
    intro name type found
    rcases List.mem_map.mp (mem_of_lookup_eq_some found) with
      ⟨source, member, ⟨⟩⟩
    exact known.types _
      (List.mem_append_left _ (mem_of_mem_namedSources member))

/-- Bodies make known changes. -/
theorem knows_bodyChanges (config : Config) (declaration : TransformDeclaration)
    {signature : Signature} (known : program.KnowsKind (.transform signature)) :
    ∀ change ∈ program.bodyChanges config declaration signature,
      program.KnowsChange change := by
  simp only [bodyChanges, sourceChanges, List.cons_append, List.forall_mem_cons,
    List.forall_mem_append]
  refine ⟨trivial,
    ⟨?_, knows_ruleChanges (within_bodyContext config declaration known) _ _ _⟩,
    trivial, List.forall_mem_nil _⟩
  rw [List.forall_mem_map]
  intro source member
  exact known.types _ (List.mem_append_left _ (mem_of_mem_namedSources member))

theorem knows_unitChanges (entry : Nat × Declaration) :
    ∀ change ∈ program.unitChanges entry, program.KnowsChange change := by
  rw [unitChanges]
  split
  · split
    · next found =>
        exact List.forall_mem_singleton.mpr (knowsUnit_of_find found)
    · exact List.forall_mem_singleton.mpr trivial
  · exact List.forall_mem_nil _

theorem knows_enumChanges (entry : Nat × Declaration) :
    ∀ change ∈ enumChanges entry, program.KnowsChange change := by
  rw [enumChanges]
  split
  · exact List.forall_mem_singleton.mpr ⟨nofun, List.forall_mem_nil _⟩
  · exact List.forall_mem_nil _

theorem knows_schemaChanges (entry : Nat × Declaration) :
    ∀ change ∈ program.schemaChanges entry, program.KnowsChange change := by
  rw [schemaChanges]
  split
  · split
    · next found =>
        exact List.forall_mem_singleton.mpr (knowsKind_schema found _)
    · exact List.forall_mem_nil _
  · exact List.forall_mem_nil _

theorem knows_lookupChanges (entry : Nat × Declaration) :
    ∀ change ∈ program.lookupChanges entry, program.KnowsChange change := by
  rw [lookupChanges]
  split
  · split
    · next resolved =>
        exact List.forall_mem_singleton.mpr (knowsKind_lookup resolved)
    · exact List.forall_mem_singleton.mpr trivial
  · exact List.forall_mem_nil _

theorem knows_transformChanges (config : Config) (entry : Nat × Declaration) :
    ∀ change ∈ program.transformChanges config entry,
      program.KnowsChange change := by
  rw [transformChanges]
  split
  · split
    · next resolved =>
        have known := knowsKind_transform resolved
        exact List.forall_mem_cons.mpr ⟨known, knows_bodyChanges config _ known⟩
    · exact List.forall_mem_singleton.mpr trivial
  · exact List.forall_mem_nil _

/-- No change of a program mentions anything else. -/
theorem knows_changes (config : Config) (program : Program) :
    ∀ change ∈ program.changes config, program.KnowsChange change := by
  simp only [changes, List.forall_mem_append, List.forall_mem_flatMap,
    List.forall_mem_map]
  exact ⟨⟨⟨⟨⟨⟨⟨fun _ _ => trivial, fun entry _ => knows_unitChanges entry⟩,
    fun entry _ => knows_enumChanges entry⟩,
    fun entry _ => knows_schemaChanges entry⟩, fun _ _ => trivial⟩,
    fun entry _ => knows_lookupChanges entry⟩,
    fun entry _ => knows_transformChanges config entry⟩,
    fun _ _ => knows_reports _⟩

end Program

end SchemaMap
