import SchemaMap.Proofs.Ty.Normal

/-!
# Substitutions one after the other

A substitution replaces all its variables at once and does not look into what it
brings in.  So two of them, one after the other, do what a single one does that
brings in the results of the second, as long as the first leaves no variable
over (`substitute_substitute`).

The fields behind a handle are seen through its arguments.  Where the schema
owns its variables, a substitution in the arguments is therefore a substitution
in the fields (`Schema.fieldsAt_map_substitute`), also if the arguments mention
variables that are called like the parameters.
-/

namespace SchemaMap

namespace Dictionary

variable {κ ν μ : Type} [Ord κ]

/-- The map with every value changed. -/
def map (change : ν → μ) (dictionary : Dictionary κ ν) : Dictionary κ μ where
  entries := dictionary.entries.map (Prod.map id change)
  ascending := List.pairwise_map.mpr dictionary.ascending

theorem get?_map (change : ν → μ) (dictionary : Dictionary κ ν) (key : κ) :
    (dictionary.map change).get? key = (dictionary.get? key).map change := by
  show Ascending.get? key (dictionary.entries.map (Prod.map id change)) =
    (Ascending.get? key dictionary.entries).map change
  induction dictionary.entries with
  | nil => rfl
  | cons entry rest ih =>
      simp only [List.map_cons, Prod.map, id, Ascending.get?]
      split
      · rfl
      · exact ih

variable [Std.LawfulEqOrd κ] [Std.TransOrd κ]

theorem map_insert (change : ν → μ) (dictionary : Dictionary κ ν) (key : κ)
    (value : ν) :
    (dictionary.insert key value).map change =
      (dictionary.map change).insert key (change value) := by
  refine ext_get? fun other => ?_
  rw [get?_map]
  by_cases same : other = key
  · rw [same, get?_insert_self, get?_insert_self, Option.map_some]
  · rw [get?_insert_of_ne same, get?_insert_of_ne same, get?_map]

theorem map_ofList (change : ν → μ) (entries : List (κ × ν)) :
    (ofList entries).map change =
      ofList (entries.map (Prod.map id change)) := by
  suffices inserted : ∀ dictionary : Dictionary κ ν,
      (entries.foldl (fun known entry => known.insert entry.1 entry.2)
        dictionary).map change =
        (entries.map (Prod.map id change)).foldl
          (fun known entry => known.insert entry.1 entry.2)
          (dictionary.map change) from
    inserted empty
  induction entries with
  | nil => exact fun dictionary => rfl
  | cons entry rest ih =>
      intro dictionary
      rw [List.foldl_cons, ih, map_insert]
      rfl

end Dictionary

namespace Ty

theorem HasVariable.of_child {type child : Ty} {name : String}
    (has : child.HasVariable name) (member : child ∈ type.children) :
    type.HasVariable name := by
  rcases has with ⟨id, occurs⟩
  exact ⟨id, .within member occurs⟩

/-- The variables that occur in the type have a replacement. -/
def BoundBy (bindings : Bindings) (type : Ty) : Prop :=
  ∀ name, type.HasVariable name → (bindings.get? name).isSome = true

theorem BoundBy.child {bindings : Bindings} {type child : Ty}
    (bound : type.BoundBy bindings) (member : child ∈ type.children) :
    child.BoundBy bindings :=
  fun name has => bound name (has.of_child member)

/--
Where the first substitution leaves no variable over, the second one goes into
the types that it brings in.
-/
theorem substitute_substitute {first second : Bindings} {type : Ty}
    (bound : type.BoundBy first) :
    (type.substitute first).substitute second =
      type.substitute (first.map (substitute second)) := by
  have all {types : List Ty} (each : ∀ type ∈ types, type.BoundBy first →
      (type.substitute first).substitute second =
        type.substitute (first.map (substitute second)))
      (allBound : ∀ type ∈ types, type.BoundBy first) :
      (types.map (substitute first)).map (substitute second) =
        types.map (substitute (first.map (substitute second))) := by
    rw [List.map_map]
    exact List.map_congr_left fun type member =>
      each type member (allBound type member)
  induction type with
  | parameter name id =>
      rcases Option.isSome_iff_exists.mp
        (bound name (hasVariable_parameter_iff.mpr rfl)) with ⟨value, found⟩
      rw [substitute, substitute, Dictionary.get?_map, found, Option.map_some,
        Option.getD_some, Option.getD_some]
  | schema name arguments parameters fields argumentsCompose fieldsCompose =>
      have inArguments : ∀ argument ∈ arguments, argument.BoundBy first :=
        fun argument member => bound.child (List.mem_append_left _ member)
      have inFields : ∀ field ∈ fields, field.2.BoundBy first :=
        fun field member =>
          bound.child (List.mem_append_right _ (List.mem_map_of_mem member))
      simp only [substitute, substituteAll_eq_map, substituteFields_eq_map,
        all argumentsCompose inArguments, List.map_map, schema.injEq, true_and]
      exact List.map_congr_left fun field member =>
        congrArg (Prod.mk field.1)
          (fieldsCompose field member (inFields field member))
  | array element composes =>
      simp only [substitute, composes (bound.child List.mem_cons_self)]
  | optional inner composes =>
      simp only [substitute, composes (bound.child List.mem_cons_self)]
  | tuple items compose =>
      simp only [substitute, substituteAll_eq_map,
        all compose fun item => bound.child]
  | union members compose =>
      simp only [substitute, substituteAll_eq_map,
        all compose fun member => bound.child]
  | function parameters result parametersCompose resultComposes =>
      have inParameters : ∀ parameter ∈ parameters, parameter.BoundBy first :=
        fun parameter member => bound.child (List.mem_append_left _ member)
      simp only [substitute, substituteAll_eq_map,
        all parametersCompose inParameters,
        resultComposes
          (bound.child (List.mem_append_right _ List.mem_cons_self))]
  | _ => rfl

end Ty

namespace Schema

variable {schema : Schema} {arguments : List Ty}

/-- Substituted arguments are bound to the parameters, substituted. -/
theorem bindings_map_substitute (bindings : Bindings) :
    schema.bindings (arguments.map (Ty.substitute bindings)) =
      (schema.bindings arguments).map (Ty.substitute bindings) := by
  rw [Schema.bindings, Schema.bindings, Dictionary.map_ofList,
    List.zip_map_right]

/-- Full arguments bind every variable of the fields. -/
theorem boundBy_bindings (owns : schema.OwnsVariables)
    (full : arguments.length = schema.parameters.length) {field : String × Ty}
    (member : field ∈ schema.fields) :
    field.2.BoundBy (schema.bindings arguments) := by
  intro name has
  rw [Option.isSome_iff_ne_none, Ne, get?_bindings_eq_none_iff full, not_not]
  exact owns field member name has

/--
A substitution in the arguments of a handle is a substitution in the fields
behind it.
-/
theorem fieldsAt_map_substitute (owns : schema.OwnsVariables)
    (full : arguments.length = schema.parameters.length) (bindings : Bindings) :
    schema.fieldsAt (arguments.map (Ty.substitute bindings)) =
      (schema.fieldsAt arguments).map
        (Prod.map id (Ty.substitute bindings)) := by
  rw [fieldsAt, fieldsAt, List.map_map, bindings_map_substitute]
  refine List.map_congr_left fun field member => ?_
  rw [← Ty.substitute_substitute (boundBy_bindings owns full member)]
  rfl

end Schema

/--
Substitution is simultaneous and composes.  Where the first of two substitutions
has a replacement for every variable that occurs in a type, both together give
the type that a single one gives, which replaces each name by what the first has
for it with the second carried out there.  A substitution without replacements
changes nothing.  So in the fields behind a full handle of a schema that owns
its variables, each parameter stands for its argument and nothing is replaced
again: a substitution in the arguments comes out as the same substitution in the
fields.
-/
theorem substitution_composes :
    (∀ (type : Ty) (first second : Bindings),
      (∀ name, type.HasVariable name → (first.get? name).isSome = true) →
      (type.substitute first).substitute second =
        type.substitute (first.map (Ty.substitute second))) ∧
    (∀ type : Ty, type.substitute .empty = type) ∧
    ∀ (schema : Schema) (arguments : List Ty) (bindings : Bindings),
      schema.OwnsVariables →
      arguments.length = schema.parameters.length →
      schema.fieldsAt (arguments.map (Ty.substitute bindings)) =
        (schema.fieldsAt arguments).map
          (Prod.map id (Ty.substitute bindings)) := by
  refine ⟨fun type first second bound => ?_, Ty.substitute_empty,
    fun schema arguments bindings owns full => ?_⟩
  · exact Ty.substitute_substitute bound
  · exact Schema.fieldsAt_map_substitute owns full bindings

/-- A schema with a pair of its parameters in the other order. -/
def swap : Schema :=
  { name := "Swap", parameters := ["A", "B"]
    fields := [("pair", .handle "Pair" [.parameter "B" 1, .parameter "A" 0])] }

/--
Arguments that mention variables of the same names, each in the place of the
other.
-/
def crossedArguments : List Ty :=
  [.parameter "B" 7, .array (.parameter "A" 8)]

/-- A type without variables for each of the names. -/
def wholeTypes : Bindings :=
  .ofList [("A", .int), ("B", .string)]

/--
The variables of the arguments are not taken for the parameters of the schema.
-/
theorem substitution_composes_swap :
    ((Ty.handle "Pair" [.parameter "B" 1, .parameter "A" 0]).substitute
      (swap.bindings crossedArguments)).substitute
        wholeTypes = .handle "Pair" [.array .int, .string] ∧
      swap.fieldsAt (crossedArguments.map (Ty.substitute wholeTypes)) =
        [("pair", .handle "Pair" [.array .int, .string])] := by
  have owns : swap.OwnsVariables := by
    rintro field member name has
    cases List.mem_singleton.mp member
    have pair : ∀ name id,
        Ty.handle "Pair" [.parameter "B" 1, .parameter "A" 0] ≠
          .parameter name id := by
      rintro name id ⟨⟩
    rw [Ty.hasVariable_iff_children pair] at has
    simp only [Ty.handle, Ty.children, List.map_nil, List.append_nil,
      List.mem_cons, List.not_mem_nil, or_false, exists_eq_or_imp,
      exists_eq_left, Ty.hasVariable_parameter_iff] at has
    rcases has with rfl | rfl <;> decide
  have bound : ∀ field ∈ swap.fields,
      field.2.BoundBy (swap.bindings crossedArguments) :=
    fun field member => Schema.boundBy_bindings owns rfl member
  rw [substitution_composes.1 _ _ _ (bound _ List.mem_cons_self),
    substitution_composes.2.2 swap crossedArguments wholeTypes owns rfl]
  exact ⟨by with_unfolding_all rfl, by with_unfolding_all rfl⟩

end SchemaMap
