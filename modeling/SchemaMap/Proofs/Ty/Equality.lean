import Mathlib.Data.List.Forall2
import SchemaMap.Ty.Equality

/-!
# Equality of types is an equivalence

`Ty.equal` compares lists of types through companions of its own.  Here every
case is read as a statement about members of lists, and types get an induction
whose hypotheses speak of the members.

Equality is reflexive and symmetric on all types.  It is not transitive on all
of them, since a schema without arguments equals every schema of its name.  It
is transitive on types that give every schema the number of arguments that
belongs to its name (`Respects`), so on all types that agree in these numbers
(`Coherent`, `equal_equivalence_on_coherent`).
-/

namespace SchemaMap.Ty

/-! ## Induction with members -/

/-- Induction on types whose hypotheses speak of the members of lists. -/
@[elab_as_elim, induction_eliminator]
theorem inductionOn {motive : Ty → Prop}
    (primitive : ∀ base, motive (.primitive base))
    (schema : ∀ name arguments parameters fields,
      (∀ argument ∈ arguments, motive argument) →
      (∀ field ∈ fields, motive field.2) →
      motive (.schema name arguments parameters fields))
    (enumeration : ∀ name variants, motive (.enumeration name variants))
    (array : ∀ element, motive element → motive (.array element))
    (optional : ∀ inner, motive inner → motive (.optional inner))
    (quantity : ∀ unit, motive (.quantity unit))
    (tuple : ∀ items, (∀ item ∈ items, motive item) → motive (.tuple items))
    (union : ∀ members, (∀ member ∈ members, motive member) →
      motive (.union members))
    (function : ∀ parameters result,
      (∀ parameter ∈ parameters, motive parameter) → motive result →
      motive (.function parameters result))
    (parameter : ∀ name id, motive (.parameter name id)) (never : motive .never)
    (unknown : motive .unknown) (type : Ty) : motive type := by
  refine @Ty.rec motive
    (fun types => ∀ member ∈ types, motive member)
    (fun fields => ∀ field ∈ fields, motive field.2)
    (fun field => motive field.2)
    primitive schema enumeration array optional quantity tuple union function
      parameter never unknown
    ?_ ?_ ?_ ?_ ?_ type
  · simp
  · intro head tail headHolds tailHolds
    exact List.forall_mem_cons.mpr ⟨headHolds, tailHolds⟩
  · simp
  · intro head tail headHolds tailHolds
    exact List.forall_mem_cons.mpr ⟨headHolds, tailHolds⟩
  · intro name type holds
    exact holds

/-! ## The cases of equality -/

theorem equalAll_iff_forall₂ {lefts rights : List Ty} :
    equalAll lefts rights = true ↔
      List.Forall₂ (fun left right => equal left right = true) lefts
        rights := by
  induction lefts generalizing rights with
  | nil => cases rights <;> simp [equalAll]
  | cons left lefts ih => cases rights <;> simp [equalAll, ih]

@[simp]
theorem equal_schema_iff {leftName rightName : String} {lefts rights : List Ty}
    {leftParameters rightParameters : List String}
    {leftFields rightFields : List (String × Ty)} :
    equal (.schema leftName lefts leftParameters leftFields)
        (.schema rightName rights rightParameters rightFields) = true ↔
      leftName = rightName ∧
        (lefts = [] ∨ rights = [] ∨
          List.Forall₂ (fun left right => equal left right = true) lefts
            rights) := by
  change (leftName == rightName &&
    (lefts.isEmpty || rights.isEmpty || equalAll lefts rights)) = true ↔ _
  simp [equalAll_iff_forall₂, or_assoc]

@[simp]
theorem equal_tuple_iff {lefts rights : List Ty} :
    equal (.tuple lefts) (.tuple rights) = true ↔
      List.Forall₂ (fun left right => equal left right = true) lefts rights :=
  equalAll_iff_forall₂

@[simp]
theorem equal_function_iff {lefts rights : List Ty} {left right : Ty} :
    equal (.function lefts left) (.function rights right) = true ↔
      List.Forall₂ (fun left right => equal left right = true) lefts rights ∧
        equal left right = true := by
  change (equalAll lefts rights && equal left right) = true ↔ _
  simp [equalAll_iff_forall₂]

/-- Unions are equal if each has a partner for every member of the other. -/
@[simp]
theorem equal_union_iff {lefts rights : List Ty} :
    equal (.union lefts) (.union rights) = true ↔
      (∀ left ∈ lefts, ∃ right ∈ rights, equal left right = true) ∧
        ∀ right ∈ rights, ∃ left ∈ lefts, equal left right = true := by
  change (allFound lefts rights &&
    rights.all (fun type => anyEqual lefts type)) = true ↔ _
  simp [anyEqual_eq_any, allFound_eq_all]

/-- Quantities are equal exactly when their dimensions are. -/
@[simp]
theorem equal_quantity_iff {left right : PhysicalUnit} :
    equal (.quantity left) (.quantity right) = true ↔
      left.dimensions = right.dimensions := by
  change left.agrees right = true ↔ _
  simp [PhysicalUnit.agrees]

@[simp]
theorem equal_array {left right : Ty} :
    equal (.array left) (.array right) = equal left right := rfl

@[simp]
theorem equal_optional {left right : Ty} :
    equal (.optional left) (.optional right) = equal left right := rfl

/-! ## Reflexivity and symmetry -/

theorem equal_refl (type : Ty) : equal type type = true := by
  induction type with
  | primitive base => exact decide_eq_true rfl
  | schema name arguments parameters fields argumentsEqual _ =>
      rw [equal_schema_iff]
      exact ⟨rfl, Or.inr (Or.inr (List.forall₂_same.mpr argumentsEqual))⟩
  | enumeration name variants => exact beq_self_eq_true name
  | array element ih => rw [equal_array, ih]
  | optional inner ih => rw [equal_optional, ih]
  | quantity unit => simp
  | tuple items itemsEqual =>
      rw [equal_tuple_iff]
      exact List.forall₂_same.mpr itemsEqual
  | union members membersEqual =>
      rw [equal_union_iff]
      exact ⟨fun member found => ⟨member, found, membersEqual member found⟩,
        fun member found => ⟨member, found, membersEqual member found⟩⟩
  | function parameters result parametersEqual resultEqual =>
      rw [equal_function_iff]
      exact ⟨List.forall₂_same.mpr parametersEqual, resultEqual⟩
  | parameter name id => exact beq_self_eq_true id
  | never => rfl
  | unknown => rfl

/-- Lists whose members are swapped one by one are swapped as a whole. -/
private theorem forall₂_equal_symm {lefts rights : List Ty}
    (swap : ∀ left ∈ lefts,
      ∀ right, equal left right = true → equal right left = true)
    (related : List.Forall₂ (fun left right => equal left right = true) lefts
      rights) :
    List.Forall₂ (fun left right => equal left right = true) rights lefts := by
  induction related with
  | nil => exact .nil
  | @cons left right lefts rights head tail ih =>
      refine .cons (swap left (by simp) right head) (ih ?_)
      intro member found
      exact swap member (by simp [found])

theorem equal_symm {left right : Ty} (same : equal left right = true) :
    equal right left = true := by
  induction left generalizing right with
  | primitive base =>
      cases right <;> simp_all [equal]
  | schema name arguments parameters fields argumentsSymm _ =>
      cases right with
      | schema rightName rights rightParameters rightFields =>
          rw [equal_schema_iff] at same ⊢
          obtain ⟨sameName, empty | otherEmpty | related⟩ := same
          · exact ⟨sameName.symm, Or.inr (Or.inl empty)⟩
          · exact ⟨sameName.symm, Or.inl otherEmpty⟩
          · refine ⟨sameName.symm,
              Or.inr (Or.inr (forall₂_equal_symm ?_ related))⟩
            intro argument found other
            exact argumentsSymm argument found
      | _ => simp [equal] at same
  | enumeration name variants =>
      cases right <;> simp_all [equal]
  | array element ih =>
      cases right with
      | array other =>
          rw [equal_array] at same ⊢
          exact ih same
      | _ => simp [equal] at same
  | optional inner ih =>
      cases right with
      | optional other =>
          rw [equal_optional] at same ⊢
          exact ih same
      | _ => simp [equal] at same
  | quantity unit =>
      cases right with
      | quantity other =>
          rw [equal_quantity_iff] at same ⊢
          exact same.symm
      | _ => simp [equal] at same
  | tuple items itemsSymm =>
      cases right with
      | tuple others =>
          rw [equal_tuple_iff] at same ⊢
          exact forall₂_equal_symm
            (fun item found other => itemsSymm item found) same
      | _ => simp [equal] at same
  | union members membersSymm =>
      cases right with
      | union others =>
          rw [equal_union_iff] at same ⊢
          constructor
          · intro other found
            obtain ⟨member, memberFound, related⟩ := same.2 other found
            exact ⟨member, memberFound, membersSymm member memberFound related⟩
          · intro member found
            obtain ⟨other, otherFound, related⟩ := same.1 member found
            exact ⟨other, otherFound, membersSymm member found related⟩
      | _ => simp [equal] at same
  | function parameters result parametersSymm resultSymm =>
      cases right with
      | function others otherResult =>
          rw [equal_function_iff] at same ⊢
          refine ⟨forall₂_equal_symm ?_ same.1, resultSymm same.2⟩
          intro parameter found other
          exact parametersSymm parameter found
      | _ => simp [equal] at same
  | parameter name id =>
      cases right <;> simp_all [equal]
  | never =>
      cases right <;> simp_all [equal]
  | unknown =>
      cases right <;> simp_all [equal]

/-! ## Transitivity -/

mutual

/--
The schemas that occur in a type, each with the number of its arguments.  Fields
are not entered.
-/
def schemaUses : Ty → List (String × Nat)
  | .primitive _ => []
  | .schema name arguments _ _ =>
      (name, arguments.length) :: schemaUsesAll arguments
  | .enumeration _ _ => []
  | .array element => schemaUses element
  | .optional inner => schemaUses inner
  | .quantity _ => []
  | .tuple items => schemaUsesAll items
  | .union members => schemaUsesAll members
  | .function parameters result => schemaUsesAll parameters ++ schemaUses result
  | .parameter _ _ => []
  | .never => []
  | .unknown => []
termination_by structural type => type

/-- The schemas that occur in the types of a list. -/
def schemaUsesAll : List Ty → List (String × Nat)
  | [] => []
  | type :: rest => schemaUses type ++ schemaUsesAll rest
termination_by structural types => types

end

theorem schemaUsesAll_eq_flatMap (types : List Ty) :
    schemaUsesAll types = types.flatMap schemaUses := by
  induction types with
  | nil => rfl
  | cons type rest ih => simp [schemaUsesAll, ih]

/-- Every schema in the type has as many arguments as belong to its name. -/
def Respects (arity : String → Nat) (type : Ty) : Prop :=
  ∀ use ∈ type.schemaUses, use.2 = arity use.1

section Respects

variable {arity : String → Nat}

theorem respects_schema_iff {name : String} {arguments : List Ty}
    {parameters : List String} {fields : List (String × Ty)} :
    Respects arity (.schema name arguments parameters fields) ↔
      arguments.length = arity name ∧
        ∀ argument ∈ arguments, Respects arity argument := by
  simp only [Respects, schemaUses, schemaUsesAll_eq_flatMap,
    List.forall_mem_cons, List.mem_flatMap]
  constructor
  · rintro ⟨own, inner⟩
    exact ⟨own,
      fun argument found use member => inner use ⟨argument, found, member⟩⟩
  · rintro ⟨own, inner⟩
    refine ⟨own, ?_⟩
    rintro use ⟨argument, found, member⟩
    exact inner argument found use member

theorem respects_array_iff {element : Ty} :
    Respects arity (.array element) ↔ Respects arity element :=
  Iff.rfl

theorem respects_optional_iff {inner : Ty} :
    Respects arity (.optional inner) ↔ Respects arity inner :=
  Iff.rfl

theorem respects_tuple_iff {items : List Ty} :
    Respects arity (.tuple items) ↔ ∀ item ∈ items, Respects arity item := by
  simp only [Respects, schemaUses, schemaUsesAll_eq_flatMap, List.mem_flatMap]
  constructor
  · intro inner item found use member
    exact inner use ⟨item, found, member⟩
  · rintro inner use ⟨item, found, member⟩
    exact inner item found use member

theorem respects_union_iff {members : List Ty} :
    Respects arity (.union members) ↔
      ∀ member ∈ members, Respects arity member :=
  @respects_tuple_iff arity members

theorem respects_function_iff {parameters : List Ty} {result : Ty} :
    Respects arity (.function parameters result) ↔
      (∀ parameter ∈ parameters, Respects arity parameter) ∧
        Respects arity result := by
  rw [← respects_tuple_iff]
  simp only [Respects, schemaUses, List.forall_mem_append]

/-- Lists whose members compose one by one compose as a whole. -/
private theorem forall₂_equal_trans {lefts middles rights : List Ty}
    (compose : ∀ left ∈ lefts, ∀ middle ∈ middles, ∀ right ∈ rights,
      equal left middle = true → equal middle right = true →
        equal left right = true)
    (first : List.Forall₂ (fun left right => equal left right = true) lefts
      middles)
    (second : List.Forall₂ (fun left right => equal left right = true) middles
      rights) :
    List.Forall₂ (fun left right => equal left right = true) lefts rights := by
  induction first generalizing rights with
  | nil =>
      cases second
      exact .nil
  | @cons left middle lefts middles head tail ih =>
      cases second with
      | @cons _ right _ rights nextHead nextTail =>
          refine .cons
            (compose left (by simp) middle (by simp) right (by simp) head
              nextHead)
            (ih ?_ nextTail)
          intro left leftFound middle middleFound right rightFound
          exact compose left (by simp [leftFound]) middle
            (by simp [middleFound]) right (by simp [rightFound])

/-- Equality is transitive on types that respect the arities. -/
theorem equal_trans {left middle right : Ty}
    (leftRespects : left.Respects arity)
    (middleRespects : middle.Respects arity)
    (rightRespects : right.Respects arity) (first : equal left middle = true)
    (second : equal middle right = true) :
    equal left right = true := by
  induction left generalizing middle right with
  | primitive base =>
      cases middle <;> simp_all [equal]
  | schema name arguments parameters fields argumentsTrans _ =>
      cases middle with
      | schema middleName middles middleParameters middleFields =>
          cases right with
          | schema rightName rights rightParameters rightFields =>
              rw [respects_schema_iff]
                at leftRespects middleRespects rightRespects
              rw [equal_schema_iff] at first second ⊢
              obtain ⟨rfl, firstArguments⟩ := first
              obtain ⟨rfl, secondArguments⟩ := second
              refine ⟨rfl, ?_⟩
              -- All three have the same number of arguments: one list is empty
              -- only if all are.
              have sameLength : arguments.length = middles.length := by
                rw [leftRespects.1, middleRespects.1]
              have sameLength' : middles.length = rights.length := by
                rw [middleRespects.1, rightRespects.1]
              rcases firstArguments with empty | empty | firstRelated
              · exact Or.inl empty
              · exact Or.inl
                  (List.length_eq_zero_iff.mp (by simp [sameLength, empty]))
              · rcases secondArguments with empty | empty | secondRelated
                · exact Or.inl
                    (List.length_eq_zero_iff.mp (by simp [sameLength, empty]))
                · exact Or.inr (Or.inl empty)
                · refine Or.inr
                    (Or.inr (forall₂_equal_trans ?_ firstRelated secondRelated))
                  intro argument found middle middleFound right rightFound
                  exact argumentsTrans argument found
                    (leftRespects.2 argument found)
                    (middleRespects.2 middle middleFound)
                    (rightRespects.2 right rightFound)
          | _ => simp [equal] at second
      | _ => simp [equal] at first
  | enumeration name variants =>
      cases middle <;> cases right <;> simp_all [equal]
  | array element ih =>
      cases middle with
      | array middle =>
          cases right with
          | array right =>
              rw [respects_array_iff]
                at leftRespects middleRespects rightRespects
              rw [equal_array] at first second ⊢
              exact ih leftRespects middleRespects rightRespects first second
          | _ => simp [equal] at second
      | _ => simp [equal] at first
  | optional inner ih =>
      cases middle with
      | optional middle =>
          cases right with
          | optional right =>
              rw [respects_optional_iff]
                at leftRespects middleRespects rightRespects
              rw [equal_optional] at first second ⊢
              exact ih leftRespects middleRespects rightRespects first second
          | _ => simp [equal] at second
      | _ => simp [equal] at first
  | quantity unit =>
      cases middle with
      | quantity middle =>
          cases right with
          | quantity right =>
              rw [equal_quantity_iff] at first second ⊢
              exact first.trans second
          | _ => simp [equal] at second
      | _ => simp [equal] at first
  | tuple items itemsTrans =>
      cases middle with
      | tuple middles =>
          cases right with
          | tuple rights =>
              rw [respects_tuple_iff]
                at leftRespects middleRespects rightRespects
              rw [equal_tuple_iff] at first second ⊢
              refine forall₂_equal_trans ?_ first second
              intro item found middle middleFound right rightFound
              exact itemsTrans item found (leftRespects item found)
                (middleRespects middle middleFound)
                (rightRespects right rightFound)
          | _ => simp [equal] at second
      | _ => simp [equal] at first
  | union members membersTrans =>
      cases middle with
      | union middles =>
          cases right with
          | union rights =>
              rw [respects_union_iff]
                at leftRespects middleRespects rightRespects
              rw [equal_union_iff] at first second ⊢
              constructor
              · intro member found
                obtain ⟨middle, middleFound, toMiddle⟩ := first.1 member found
                obtain ⟨right, rightFound, toRight⟩ :=
                  second.1 middle middleFound
                exact ⟨right, rightFound,
                  membersTrans member found (leftRespects member found)
                    (middleRespects middle middleFound)
                    (rightRespects right rightFound) toMiddle toRight⟩
              · intro right rightFound
                obtain ⟨middle, middleFound, toRight⟩ :=
                  second.2 right rightFound
                obtain ⟨member, found, toMiddle⟩ := first.2 middle middleFound
                exact ⟨member, found,
                  membersTrans member found (leftRespects member found)
                    (middleRespects middle middleFound)
                    (rightRespects right rightFound) toMiddle toRight⟩
          | _ => simp [equal] at second
      | _ => simp [equal] at first
  | function parameters result parametersTrans resultTrans =>
      cases middle with
      | function middles middleResult =>
          cases right with
          | function rights rightResult =>
              rw [respects_function_iff]
                at leftRespects middleRespects rightRespects
              rw [equal_function_iff] at first second ⊢
              refine ⟨forall₂_equal_trans ?_ first.1 second.1,
                resultTrans leftRespects.2 middleRespects.2 rightRespects.2
                  first.2 second.2⟩
              intro parameter found middle middleFound right rightFound
              exact parametersTrans parameter found
                (leftRespects.1 parameter found)
                (middleRespects.1 middle middleFound)
                (rightRespects.1 right rightFound)
          | _ => simp [equal] at second
      | _ => simp [equal] at first
  | parameter name id =>
      cases middle <;> cases right <;> simp_all [equal]
  | never =>
      cases middle <;> simp_all [equal]
  | unknown =>
      cases middle <;> simp_all [equal]

end Respects

/-! ## The equivalence -/

/--
Any two schemas of one name in the types have the same number of arguments.
-/
def Coherent (types : List Ty) : Prop :=
  ∀ first ∈ types.flatMap schemaUses, ∀ second ∈ types.flatMap schemaUses,
    first.1 = second.1 → first.2 = second.2

instance (types : List Ty) : Decidable (Coherent types) :=
  inferInstanceAs (Decidable
    (∀ first ∈ types.flatMap schemaUses, ∀ second ∈ types.flatMap schemaUses,
    first.1 = second.1 → first.2 = second.2))

theorem Coherent.exists_respects {types : List Ty} (coherent : Coherent types) :
    ∃ arity : String → Nat, ∀ type ∈ types, type.Respects arity := by
  refine ⟨fun name => ((types.flatMap schemaUses).lookup name).getD 0, ?_⟩
  rintro type found ⟨name, count⟩ used
  have member : (name, count) ∈ types.flatMap schemaUses :=
    List.mem_flatMap.mpr ⟨type, found, used⟩
  cases stored : (types.flatMap schemaUses).lookup name with
  | none =>
      have absent := List.lookup_eq_none_iff.mp stored (name, count) member
      simp at absent
  | some other =>
      have otherMember : (name, other) ∈ types.flatMap schemaUses := by
        obtain ⟨before, after, split, -⟩ := List.lookup_eq_some_iff.mp stored
        simp [split]
      simpa [stored] using
        coherent (name, count) member (name, other) otherMember rfl

/--
Equality is reflexive and symmetric on all types, unions without members and
unions inside unions among them, and it is transitive on types that are coherent
in the number of arguments of their schemas.
-/
theorem equal_equivalence_on_coherent :
    (∀ type : Ty, equal type type = true) ∧
      (∀ left right : Ty, equal left right = equal right left) ∧
      ∀ left middle right : Ty, Coherent [left, middle, right] →
        equal left middle = true → equal middle right = true →
        equal left right = true := by
  refine ⟨equal_refl, fun left right => ?_,
    fun left middle right coherent first second => ?_⟩
  · rw [Bool.eq_iff_iff]
    exact ⟨equal_symm, equal_symm⟩
  · obtain ⟨arity, respects⟩ := coherent.exists_respects
    exact equal_trans (respects left (by simp)) (respects middle (by simp))
      (respects right (by simp)) first second

/--
Unions that differ in the order of their members, in repetitions and in the
labels of units.
-/
theorem equal_equivalence_on_coherent_unions :
    equal
      (.union [.union [], .handle "Page" [.quantity (.base "Length")], .int])
      (.union [.int, .int,
        .handle "Page"
          [.quantity ((PhysicalUnit.base "Length").labelled "mile")],
            .union []]) =
        true :=
  equal_equivalence_on_coherent.2.2
    (.union [.union [], .handle "Page" [.quantity (.base "Length")], .int])
    (.union [.handle "Page"
      [.quantity ((PhysicalUnit.base "Length").labelled "m")], .union [], .int])
    (.union [.int, .int,
      .handle "Page" [.quantity ((PhysicalUnit.base "Length").labelled "mile")],
      .union []])
    (by decide) (by decide +kernel) (by decide +kernel)

/-- A schema without arguments equals two that differ. -/
example :
    equal (.handle "Page" [.int]) (.handle "Page" []) = true ∧
      equal (.handle "Page" []) (.handle "Page" [.string]) = true ∧
      equal (.handle "Page" [.int]) (.handle "Page" [.string]) = false := by
  decide +kernel

end SchemaMap.Ty
