import SchemaMap.Proofs.Ty.Subtype
import SchemaMap.Symbol.Kind
import SchemaMap.Ty.Union

/-!
# Renaming type variables

Type variables go by their numbers.  Another choice of numbers, as long as
distinct ones stay distinct, changes nothing that is decided about types:
equality, subtypes, unions and substitution follow the renaming.
-/

namespace SchemaMap

namespace Ty

mutual

/-- The type with other numbers for its variables. -/
def renamed (rename : Nat → Nat) : Ty → Ty
  | .primitive base => .primitive base
  | .schema name arguments parameters fields =>
      .schema name (renamedAll rename arguments) parameters
        (renamedFields rename fields)
  | .enumeration name variants => .enumeration name variants
  | .array element => .array (renamed rename element)
  | .optional inner => .optional (renamed rename inner)
  | .quantity unit => .quantity unit
  | .tuple items => .tuple (renamedAll rename items)
  | .union members => .union (renamedAll rename members)
  | .function parameters result =>
      .function (renamedAll rename parameters) (renamed rename result)
  | .parameter name id => .parameter name (rename id)
  | .never => .never
  | .unknown => .unknown
termination_by structural type => type

/-- The types of a list with other numbers for their variables. -/
def renamedAll (rename : Nat → Nat) : List Ty → List Ty
  | [] => []
  | type :: rest => renamed rename type :: renamedAll rename rest
termination_by structural types => types

/-- Named types with other numbers for their variables. -/
def renamedFields (rename : Nat → Nat) : List (String × Ty) → List (String × Ty)
  | [] => []
  | (name, type) :: rest =>
      (name, renamed rename type) :: renamedFields rename rest
termination_by structural fields => fields

end

variable {rename : Nat → Nat}

@[simp]
theorem renamedAll_eq_map (types : List Ty) :
    renamedAll rename types = types.map (renamed rename) := by
  induction types with
  | nil => rfl
  | cons type rest ih => simp [renamedAll, ih]

@[simp]
theorem renamedFields_eq_map (fields : List (String × Ty)) :
    renamedFields rename fields =
      fields.map (Prod.map id (renamed rename)) := by
  induction fields with
  | nil => rfl
  | cons field rest ih =>
      rw [renamedFields, ih]
      rfl

mutual

/-- A type stays as it is if its variables keep their numbers. -/
theorem renamed_id : (type : Ty) → type.renamed id = type
  | .primitive _ => rfl
  | .schema _ arguments _ fields => by
      rw [renamed, renamedAll_id arguments, renamedFields_id fields]
  | .enumeration _ _ => rfl
  | .array element => by rw [renamed, renamed_id element]
  | .optional inner => by rw [renamed, renamed_id inner]
  | .quantity _ => rfl
  | .tuple items => by rw [renamed, renamedAll_id items]
  | .union members => by rw [renamed, renamedAll_id members]
  | .function parameters result => by
      rw [renamed, renamedAll_id parameters, renamed_id result]
  | .parameter _ _ => rfl
  | .never => rfl
  | .unknown => rfl
termination_by structural type => type

theorem renamedAll_id : (types : List Ty) → renamedAll id types = types
  | [] => rfl
  | type :: rest => by rw [renamedAll, renamed_id type, renamedAll_id rest]
termination_by structural types => types

theorem renamedFields_id :
    (fields : List (String × Ty)) → renamedFields id fields = fields
  | [] => rfl
  | (_, type) :: rest => by
      rw [renamedFields, renamed_id type, renamedFields_id rest]
termination_by structural fields => fields

end

theorem optionalOf_renamed (type : Ty) :
    (type.renamed rename).optionalOf = type.optionalOf.renamed rename := by
  cases type <;> rfl

theorem present_renamed (type : Ty) :
    (type.renamed rename).present = type.present.renamed rename := by
  cases type <;> rfl

theorem parts_renamed (type : Ty) :
    (type.renamed rename).parts = type.parts.map (renamed rename) := by
  cases type with
  | union members => simp [renamed, parts]
  | _ => rfl

/-! ## Equality and subtypes -/

mutual

/-- An injective renaming keeps equality. -/
theorem equal_renamed (injective : Function.Injective rename) :
    (left right : Ty) →
    equal (left.renamed rename) (right.renamed rename) = equal left right
  | .primitive _, right => by cases right <;> rfl
  | .schema _ arguments _ _, right => by
      cases right with
      | schema => simp [renamed, equal, equalAll_renamed injective arguments]
      | _ => rfl
  | .enumeration _ _, right => by cases right <;> rfl
  | .array element, right => by
      cases right with
      | array other => exact equal_renamed injective element other
      | _ => rfl
  | .optional inner, right => by
      cases right with
      | optional other => exact equal_renamed injective inner other
      | _ => rfl
  | .quantity _, right => by cases right <;> rfl
  | .tuple items, right => by
      cases right with
      | tuple others => simp [renamed, equal, equalAll_renamed injective items]
      | _ => rfl
  | .union members, right => by
      cases right with
      | union others =>
          simp [renamed, equal, allFound_renamed injective members,
            anyEqual_renamed injective members, Function.comp_def]
      | _ => rfl
  | .function parameters result, right => by
      cases right with
      | function =>
          simp [renamed, equal, equalAll_renamed injective parameters,
            equal_renamed injective result]
      | _ => rfl
  | .parameter _ id, right => by
      cases right with
      | parameter _ other => simp [renamed, equal, injective.eq_iff]
      | _ => rfl
  | .never, right => by cases right <;> rfl
  | .unknown, right => by cases right <;> rfl
termination_by structural left => left

theorem equalAll_renamed (injective : Function.Injective rename) :
    (lefts rights : List Ty) →
    equalAll (lefts.map (renamed rename)) (rights.map (renamed rename)) =
      equalAll lefts rights
  | [], rights => by cases rights <;> rfl
  | left :: lefts, rights => by
      cases rights with
      | nil => rfl
      | cons right rights =>
          simp [equalAll, equal_renamed injective left,
            equalAll_renamed injective lefts]
termination_by structural lefts => lefts

theorem anyEqual_renamed (injective : Function.Injective rename) :
    (lefts : List Ty) → (right : Ty) →
    anyEqual (lefts.map (renamed rename)) (right.renamed rename) =
      anyEqual lefts right
  | [], _ => rfl
  | left :: lefts, right => by
      simp [anyEqual, equal_renamed injective left,
        anyEqual_renamed injective lefts]
termination_by structural lefts => lefts

theorem allFound_renamed (injective : Function.Injective rename) :
    (lefts rights : List Ty) →
    allFound (lefts.map (renamed rename)) (rights.map (renamed rename)) =
      allFound lefts rights
  | [], _ => rfl
  | left :: lefts, rights => by
      simp [allFound, equal_renamed injective left,
        allFound_renamed injective lefts, Function.comp_def]
termination_by structural lefts => lefts

end

section

variable (injective : Function.Injective rename)

include injective

/-- An injective renaming keeps subtypes. -/
theorem isSubtype_renamed (widening : Bool) (sub sup : Ty) :
    isSubtype widening (sub.renamed rename) (sup.renamed rename) =
      isSubtype widening sub sup := by
  induction size : sizeOf sub + sizeOf sup using Nat.strongRecOn
    generalizing sub sup with
  | ind size ih =>
      have below : ∀ members, sub = .union members →
          allSubtypes widening (members.map (renamed rename))
            (sup.renamed rename) =
            allSubtypes widening members sup := by
        rintro members rfl
        rw [allSubtypes_eq_all, allSubtypes_eq_all, List.all_map,
          Bool.eq_iff_iff, List.all_eq_true, List.all_eq_true]
        apply forall₂_congr
        intro member found
        have smaller := List.sizeOf_lt_of_mem found
        rw [Function.comp_apply, ih _ (by simp [← size]; omega) member sup rfl]
      have above : ∀ members, sup = .union members →
          anySupertype widening (sub.renamed rename)
            (members.map (renamed rename)) =
            anySupertype widening sub members := by
        rintro members rfl
        rw [anySupertype_eq_any, anySupertype_eq_any, List.any_map,
          Bool.eq_iff_iff, List.any_eq_true, List.any_eq_true]
        apply exists_congr
        intro member
        apply and_congr_right
        intro found
        have smaller := List.sizeOf_lt_of_mem found
        rw [Function.comp_apply, ih _ (by simp [← size]; omega) sub member rfl]
      have inside : ∀ inner, sup = .optional inner →
          isSubtype widening (sub.renamed rename) (inner.renamed rename) =
            isSubtype widening sub inner := by
        rintro inner rfl
        exact ih _ (by simp [← size]) sub inner rfl
      rw [isSubtype.eq_def, isSubtype.eq_def widening sub sup,
        equal_renamed injective]
      congr 1
      -- Only unions, optional types and arrays look further into either type.
      cases sub with
      | never => rfl
      | union members =>
          cases sup with
          | unknown => rfl
          | _ => simpa [renamed] using below _ rfl
      | optional inner =>
          cases sup with
          | union others => simpa [renamed] using above _ rfl
          | optional other =>
              exact ih _ (by simp [← size]; omega) inner other rfl
          | _ => rfl
      | array element =>
          cases sup with
          | union others => simpa [renamed] using above _ rfl
          | optional other => simpa [renamed] using inside _ rfl
          | array other =>
              exact ih _ (by simp [← size]; omega) element other rfl
          | _ => rfl
      | primitive base =>
          cases sup with
          | union others => simpa [renamed] using above _ rfl
          | optional other => simpa [renamed] using inside _ rfl
          | _ => rfl
      | _ =>
          cases sup with
          | union others => simpa [renamed] using above _ rfl
          | optional other => simpa [renamed] using inside _ rfl
          | _ => rfl

/-! ## Unions -/

theorem addDistinct_renamed (types : List Ty) (type : Ty) :
    addDistinct (types.map (renamed rename)) (type.renamed rename) =
      (addDistinct types type).map (renamed rename) := by
  rw [addDistinct, addDistinct, anyEqual_renamed injective]
  split
  · rfl
  · rw [List.map_append]
    rfl

/-- An injective renaming is applied to a union member by member. -/
theorem unionOf_renamed (members : List Ty) :
    unionOf (members.map (renamed rename)) =
      (unionOf members).renamed rename := by
  have parts : (members.map (renamed rename)).flatMap Ty.parts =
      (members.flatMap Ty.parts).map (renamed rename) := by
    simp [List.flatMap_map, List.map_flatMap, parts_renamed]
  have distinct : ∀ others types : List Ty,
      (others.map (renamed rename)).foldl addDistinct
        (types.map (renamed rename)) =
        (others.foldl addDistinct types).map (renamed rename) := by
    intro others
    induction others with
    | nil => exact fun _ => rfl
    | cons other rest ih =>
        intro types
        rw [List.map_cons, List.foldl_cons, List.foldl_cons,
          addDistinct_renamed injective, ih]
  have total := distinct (members.flatMap Ty.parts) []
  rw [List.map_nil] at total
  rw [unionOf, unionOf, parts, total]
  cases (members.flatMap Ty.parts).foldl addDistinct [] with
  | nil => rfl
  | cons first rest =>
      cases rest with
      | nil => rfl
      | cons second rest => simp [renamed]

theorem join_renamed (left right : Ty) :
    (left.renamed rename).join (right.renamed rename) =
      (left.join right).renamed rename := by
  rw [join, join, equal_renamed injective]
  split
  · rfl
  · exact unionOf_renamed injective [left, right]

theorem joinAll_renamed (types : List Ty) :
    joinAll (types.map (renamed rename)) = (joinAll types).renamed rename := by
  cases types with
  | nil => rfl
  | cons first rest =>
      rw [List.map_cons, joinAll, joinAll]
      induction rest generalizing first with
      | nil => rfl
      | cons second rest ih =>
          rw [List.map_cons, List.foldl_cons, List.foldl_cons,
            join_renamed injective, ih]

end

/-! ## Substitution -/

/-- The second bindings are the first ones with other numbers. -/
def RenamesBindings (rename : Nat → Nat) (bindings others : Bindings) : Prop :=
  ∀ name, others.get? name = (bindings.get? name).map (renamed rename)

/-- Renaming commutes with substitution. -/
theorem substitute_renamed {bindings others : Bindings}
    (renames : RenamesBindings rename bindings others) (type : Ty) :
    (type.renamed rename).substitute others =
      (type.substitute bindings).renamed rename := by
  induction type with
  | schema name arguments parameters fields arguments_ih fields_ih =>
      simp only [renamed, substitute, substituteAll_eq_map,
        substituteFields_eq_map, renamedAll_eq_map, renamedFields_eq_map,
        List.map_map]
      congr 1
      · exact List.map_congr_left arguments_ih
      · apply List.map_congr_left
        intro field member
        exact congrArg (Prod.mk field.1) (fields_ih field member)
  | array element ih => exact congrArg Ty.array ih
  | optional inner ih => exact congrArg Ty.optional ih
  | tuple items ih =>
      simp only [renamed, substitute, substituteAll_eq_map, renamedAll_eq_map,
        List.map_map]
      exact congrArg Ty.tuple (List.map_congr_left ih)
  | union members ih =>
      simp only [renamed, substitute, substituteAll_eq_map, renamedAll_eq_map,
        List.map_map]
      exact congrArg Ty.union (List.map_congr_left ih)
  | function parameters result parameters_ih result_ih =>
      simp only [renamed, substitute, substituteAll_eq_map, renamedAll_eq_map,
        List.map_map, result_ih]
      congr 1
      exact List.map_congr_left parameters_ih
  | parameter name id =>
      simp only [renamed, substitute, renames name]
      cases bindings.get? name <;> rfl
  | _ => rfl

end Ty

theorem Dictionary.get?_foldl_insert_map {change : Ty → Ty}
    {left right : Bindings}
    (same : ∀ name, right.get? name = (left.get? name).map change)
    (entries : List (String × Ty)) (name : String) :
    ((entries.map (Prod.map id change)).foldl
      (fun bindings entry => bindings.insert entry.1 entry.2)
        right).get? name =
      ((entries.foldl (fun bindings entry => bindings.insert entry.1 entry.2)
        left).get? name).map change := by
  induction entries generalizing left right with
  | nil => exact same name
  | cons entry rest ih =>
      apply ih
      intro other
      by_cases here : other = entry.1
      · subst here
        simp
      · rw [Dictionary.get?_insert_of_ne here,
          Dictionary.get?_insert_of_ne (by simpa using here), same]

/-- Entries with other values give bindings with these values. -/
theorem Dictionary.get?_ofList_map (entries : List (String × Ty))
    (change : Ty → Ty) (name : String) :
    (Dictionary.ofList (entries.map (Prod.map id change))).get? name =
      ((Dictionary.ofList entries).get? name).map change :=
  Dictionary.get?_foldl_insert_map (fun _ => rfl) entries name

/-! ## What names stand for -/

section

variable (rename : Nat → Nat)

def Schema.renamed (schema : Schema) : Schema :=
  { schema with
    arguments := schema.arguments.map (Ty.renamed rename)
    fields := schema.fields.map (Prod.map id (Ty.renamed rename)) }

def Signature.renamed (signature : Signature) : Signature :=
  { sources := signature.sources.map (Prod.map id (Ty.renamed rename))
    target := signature.target.renamed rename }

/-- What a name stands for, with other numbers for type variables. -/
def Kind.renamed : Kind → Kind
  | .schema content parent => .schema (content.renamed rename) parent
  | .enumeration variants => .enumeration variants
  | .unit value => .unit value
  | .dimension => .dimension
  | .lookup keys value =>
      .lookup (keys.map (Ty.renamed rename)) (value.renamed rename)
  | .transform signature => .transform (signature.renamed rename)
  | .pipeline steps => .pipeline steps
  | .binding type => .binding (type.renamed rename)

theorem Kind.renamed_id (kind : Kind) : kind.renamed id = kind := by
  have unchanged : Ty.renamed id = id := funext Ty.renamed_id
  cases kind <;>
    simp [Kind.renamed, Schema.renamed, Signature.renamed, unchanged]

/-- The bindings of renamed arguments are the renamed bindings. -/
theorem Ty.renamesBindings_zip (parameters : List String)
    (arguments : List Ty) :
    Ty.RenamesBindings rename (.ofList (parameters.zip arguments))
      (.ofList (parameters.zip (arguments.map (Ty.renamed rename)))) := by
  intro name
  rw [← Dictionary.get?_ofList_map, List.zip_map_right]

end

end SchemaMap
