import SchemaMap.Proofs.Analysis.Types
import SchemaMap.Proofs.Mentions
import SchemaMap.Proofs.Ty.Normal
import SchemaMap.Proofs.TypeReader

/-!
# Types as text

A type expression is written without parentheses around alternatives.  Its text
is read in one way only (`TypeReader`), and what matters is whether the reading
is what the expression stands for.

How the members of a union are grouped is not seen in the text, and makes no
difference either.  A question mark behind several alternatives is read as if
the last one alone were optional, and indeed another expression has that text
(`exists_not_isSubtype_of_text_eq`); a tuple of one empty text is read as the
tuple without items.  Where neither occurs, the text of an expression determines
its type (`types_eq_of_text_eq`).
-/

namespace SchemaMap

/-! ## Expressions that are written in a way of their own -/

namespace TypeExpr

mutual

/-- The expression and all expressions in it. -/
def subexpressions : TypeExpr → List TypeExpr
  | .primitive span base => [.primitive span base]
  | .schemaName span name => [.schemaName span name]
  | .enumName span name => [.enumName span name]
  | .array span element => .array span element :: element.subexpressions
  | .optional span inner => .optional span inner :: inner.subexpressions
  | .quantity span unit => [.quantity span unit]
  | .tuple span items => .tuple span items :: subexpressionsAll items
  | .union span members => .union span members :: subexpressionsAll members
  | .generic span name arguments =>
      .generic span name arguments :: subexpressionsAll arguments
termination_by structural expression => expression

def subexpressionsAll : List TypeExpr → List TypeExpr
  | [] => []
  | expression :: rest => expression.subexpressions ++ subexpressionsAll rest
termination_by structural expressions => expressions

end

/-- Whether the expression is a quantity. -/
def isQuantity : TypeExpr → Bool
  | .quantity _ _ => true
  | _ => false

/--
Whether the expression is a union of several members; one that is the only
member of a union counts as well.
-/
def isChoice : TypeExpr → Bool
  | .union _ [member] => member.isChoice
  | .union _ (_ :: _ :: _) => true
  | _ => false

/--
Whether the expression itself, apart from what is in it, is written in a way of
its own.  A question mark belongs to the last of several alternatives, and a
single empty text in parentheses is not seen.
-/
def isClear : TypeExpr → Bool
  | .optional _ inner => !inner.isChoice
  | .tuple _ items => texts items != [""]
  | _ => true

end TypeExpr

/-! ## Reading the text of an expression -/

/-- A name with arguments stands for a type of one part. -/
theorem Applies.parts_eq {declared : String → Kind → Prop} {name : String}
    {arguments : List Ty} {type : Ty}
    (applied : Applies declared name arguments type) : type.parts = [type] := by
  cases applied <;> rfl

theorem Primitive.ofText?_text (base : Primitive) :
    ofText? base.text = some base := by
  cases base <;> decide +kernel

theorem Primitive.mentions_text (base : Primitive) :
    Text.mentions TypeReader.marks base.text = false := by
  cases base <;> decide +kernel

theorem Primitive.text_ne_empty (base : Primitive) : base.text ≠ "" := by
  cases base <;> decide

namespace TypeExpr

open TypeReader

variable (names : Names) (parameters : List (String × Ty))

/--
The text of the expression is read as the type, and as one alternative if it is
no choice.
-/
def ReadsAs (expression : TypeExpr) (type : Ty) : Prop :=
  ∃ types, Reads names parameters expression.text types ∧
    Ty.AreParts names.arity types ∧ Ty.unionOf types = type ∧
    (expression.isChoice = false → types = [type])

variable {names parameters}

section

variable {span : Span} {expression : TypeExpr} {expressions : List TypeExpr}
  {name : String} {type : Ty} {types : List Ty}

/-- A type of one part is read where its text is read as that part. -/
theorem readsAs_of_single
    (reads : Reads names parameters expression.text [type])
    (single : type.parts = [type]) (respects : type.Respects names.arity) :
    expression.ReadsAs names parameters type :=
  ⟨[type], reads, Ty.areParts_singleton single respects,
    Ty.unionOf_singleton single, fun _ => rfl⟩

/--
Expressions that are read as types give alternatives, those of each type
together.
-/
theorem exists_groups
    (each : List.Forall₂ (ReadsAs names parameters) expressions types) :
    ∃ groups, List.Forall₂ (Reads names parameters) (texts expressions) groups ∧
      (∀ group ∈ groups, Ty.AreParts names.arity group) ∧
      groups.map Ty.unionOf = types := by
  induction each with
  | nil => exact ⟨[], .nil, List.forall_mem_nil _, rfl⟩
  | cons first _ ih =>
      rcases first with ⟨group, reads, parts, rfl, -⟩
      rcases ih with ⟨groups, each, allParts, rfl⟩
      exact ⟨group :: groups, .cons reads each,
        List.forall_mem_cons.mpr ⟨parts, allParts⟩, rfl⟩

/-- A name is read as the type that it stands for. -/
theorem reads_named (named : IsTypeName name)
    (denotes : NameDenotes names.declares parameters name type) :
    Reads names parameters name [type] := by
  refine reads_name named.unmarked named.written ?_
  rw [TypeExpr.named, named.apart]
  exact Names.bare_eq_ok_iff.mpr denotes

theorem reads_primitive (base : Primitive) :
    Reads names parameters base.text [.primitive base] := by
  refine reads_name base.mentions_text base.text_ne_empty ?_
  rw [TypeExpr.named, base.ofText?_text]
  rfl

/-- An array is read as the array of what its element is read as. -/
theorem ReadsAs.array (reads : expression.ReadsAs names parameters type) :
    Reads names parameters (array span expression).text [.array type] := by
  rcases reads with ⟨types, reads, -, rfl, -⟩
  exact reads.array

/-- An optional is read as such if its text is clear. -/
theorem ReadsAs.optional (reads : expression.ReadsAs names parameters type)
    (clear : (optional span expression).isClear = true) :
    Reads names parameters (optional span expression).text
      [type.optionalOf] := by
  rcases reads with ⟨types, reads, -, -, only⟩
  -- The question mark takes the last alternative, so it has to be the only one.
  rw [isClear, Bool.not_eq_true'] at clear
  rw [only clear] at reads
  exact reads.optional

/-- A tuple is read component by component if its text is clear. -/
theorem reads_tuple
    (each : List.Forall₂ (ReadsAs names parameters) expressions types)
    (clear : (tuple span expressions).isClear = true) :
    Reads names parameters (tuple span expressions).text [.tuple types] := by
  rcases exists_groups each with ⟨groups, reads, -, rfl⟩
  rw [isClear, bne_iff_ne] at clear
  exact (encloses_join reads clear).tuple

/-- A name with arguments is read as the type that it stands for. -/
theorem reads_generic
    (each : List.Forall₂ (ReadsAs names parameters) expressions types)
    (named : IsTypeName name)
    (applied : Applies names.declares name types type) :
    Reads names parameters (generic span name expressions).text [type] := by
  rcases exists_groups each with ⟨groups, reads, -, rfl⟩
  rw [text]
  by_cases empty : texts expressions = [""]
  · -- The argument is an empty union, which the name has to take.
    rw [empty] at reads ⊢
    rcases List.forall₂_cons_left_iff.mp reads with
      ⟨group, rest, argument, further, rfl⟩
    cases further
    rw [argument.unique reads_empty] at applied
    rw [← applied_nil_eq applied]
    exact encloses_empty.generic named.unmarked named.written
  · rw [← applied_eq applied]
    exact (encloses_join reads empty).generic named.unmarked named.written

/-- A union of one member is written as the member. -/
theorem ReadsAs.union (reads : expression.ReadsAs names parameters type) :
    (union span [expression]).ReadsAs names parameters (.unionOf [type]) := by
  rcases reads with ⟨types, reads, parts, rfl, only⟩
  have same : Ty.unionOf [.unionOf types] = .unionOf types := by
    have merged := Ty.unionOf_map_unionOf (List.forall_mem_singleton.mpr parts)
    rwa [List.map_singleton, List.flatten_singleton] at merged
  rw [same]
  exact ⟨types, reads, parts, rfl, only⟩

theorem readsAs_union
    (each : List.Forall₂ (ReadsAs names parameters) expressions types) :
    (TypeExpr.union span expressions).ReadsAs names parameters
      (.unionOf types) := by
  match each with
  | .nil => exact readsAs_of_single reads_empty rfl (List.forall_mem_nil _)
  | .cons first .nil => exact first.union
  | .cons first (.cons second further) =>
      rcases exists_groups (.cons first (.cons second further)) with
        ⟨groups, reads, parts, merged⟩
      have some : groups ≠ [] := by
        rintro rfl
        contradiction
      refine ⟨groups.flatten, reads_join reads (List.cons_ne_nil _ _),
        Ty.areParts_flatten parts some, ?_, fun choice => by contradiction⟩
      rw [← Ty.unionOf_map_unionOf parts, merged]

end

/-- The parameters in reach are type variables. -/
def AreVariables (parameters : List (String × Ty)) : Prop :=
  ∀ name type, parameters.lookup name = some type →
    ∃ id, type = .parameter name id

/-- An expression denotes a type that respects the arities. -/
theorem respects_of_denotes (bound : AreVariables parameters)
    {expression : TypeExpr} {type : Ty}
    (denotes : Denotes names.declares names.measures parameters expression
      type) : type.Respects names.arity := by
  have orderly : type.Throughout
      (Ty.IsOrderly names.arity fun _ _ => True) := by
    refine Denotes.throughout (names.provides_isOrderly _)
      (fun name type found => ?_) expression denotes
    rcases bound name type found with ⟨id, rfl⟩
    exact Ty.throughout_of_children_eq_nil trivial rfl
  exact Ty.respects_of_throughout orderly

theorem parts_of_nameDenotes (bound : AreVariables parameters) {name : String}
    {type : Ty} (denotes : NameDenotes names.declares parameters name type) :
    type.parts = [type] := by
  cases denotes with
  | parameter found =>
      rcases bound name type found with ⟨id, rfl⟩
      rfl
  | declared _ applied => exact applied.parts_eq

mutual

/--
The text of an expression is read as the type that the expression stands for.
-/
theorem readsAs_of_denotes (bound : AreVariables parameters) :
    (expression : TypeExpr) → {type : Ty} →
      (∀ name ∈ expression.mentions, IsTypeName name) →
      (∀ node ∈ expression.subexpressions, node.isQuantity = false ∧
        node.isClear = true) →
      Denotes names.declares names.measures parameters expression type →
      expression.ReadsAs names parameters type
  | .primitive span base, _, _, _, denotes@.primitive =>
      readsAs_of_single (reads_primitive base) rfl
        (respects_of_denotes bound denotes)
  | .schemaName span name, _, named, _, denotes@(.schemaName nameDenotes) =>
      readsAs_of_single
        (reads_named (named name List.mem_cons_self) nameDenotes)
        (parts_of_nameDenotes bound nameDenotes)
        (respects_of_denotes bound denotes)
  | .enumName span name, _, named, _, denotes@(.enumName nameDenotes) =>
      readsAs_of_single
        (reads_named (named name List.mem_cons_self) nameDenotes)
        (parts_of_nameDenotes bound nameDenotes)
        (respects_of_denotes bound denotes)
  | .array span element, _, named, clear, denotes@(.array inner) => by
      rw [subexpressions, List.forall_mem_cons] at clear
      exact readsAs_of_single
        (readsAs_of_denotes bound element named clear.2 inner).array rfl
        (respects_of_denotes bound denotes)
  | .optional span inner, _, named, clear,
      denotes@(.optional present wrapped) => by
      rw [subexpressions, List.forall_mem_cons] at clear
      have known := respects_of_denotes bound denotes
      rw [← Ty.wraps_iff.mp wrapped] at known ⊢
      exact readsAs_of_single
        ((readsAs_of_denotes bound inner named clear.2 present).optional
          clear.1.2)
        (Ty.parts_optionalOf _) known
  | .quantity span unit, _, _, clear, _ => by
      have measured := (clear _ List.mem_cons_self).1
      contradiction
  | .tuple span items, _, named, clear, denotes@(.tuple each) => by
      rw [subexpressions, List.forall_mem_cons] at clear
      exact readsAs_of_single (reads_tuple
        (readAs_of_denotes bound items named clear.2 each) clear.1.2) rfl
        (respects_of_denotes bound denotes)
  | .union span members, _, named, clear, .union each => by
      rw [subexpressions, List.forall_mem_cons] at clear
      exact readsAs_union (readAs_of_denotes bound members named clear.2 each)
  | .generic span name arguments, _, named, clear,
      denotes@(.generic each applied) => by
      rw [mentions, List.forall_mem_cons] at named
      rw [subexpressions, List.forall_mem_cons] at clear
      exact readsAs_of_single
        (reads_generic (readAs_of_denotes bound arguments named.2 clear.2 each)
          named.1 applied)
        applied.parts_eq (respects_of_denotes bound denotes)
termination_by structural expression => expression

/-- Expressions are read as the types that they denote, one by one. -/
theorem readAs_of_denotes (bound : AreVariables parameters) :
    (expressions : List TypeExpr) → {types : List Ty} →
      (∀ name ∈ mentionsAll expressions, IsTypeName name) →
      (∀ node ∈ subexpressionsAll expressions, node.isQuantity = false ∧
        node.isClear = true) →
      List.Forall₂ (Denotes names.declares names.measures parameters)
        expressions types →
      List.Forall₂ (ReadsAs names parameters) expressions types
  | [], _, _, _, .nil => .nil
  | expression :: rest, _, named, clear, .cons first further => by
      rw [mentionsAll, List.forall_mem_append] at named
      rw [subexpressionsAll, List.forall_mem_append] at clear
      exact .cons (readsAs_of_denotes bound expression named.1 clear.1 first)
        (readAs_of_denotes bound rest named.2 clear.2 further)
termination_by structural expressions => expressions

end

/-! ## What the text says -/

theorem texts_eq_map (expressions : List TypeExpr) :
    texts expressions = expressions.map text := by
  induction expressions with
  | nil => rfl
  | cons expression rest ih => rw [texts, ih, List.map_cons]

/--
A union that is made optional has the text of another union, the last member of
which is optional.
-/
theorem text_optional_union (outer inner other last : Span)
    (members : List TypeExpr) (member : TypeExpr) :
    (optional outer (union inner (members ++ [member]))).text =
      (union other (members ++ [optional last member])).text := by
  simp only [text, texts_eq_map, List.map_append, List.map_cons, List.map_nil]
  induction members.map text with
  | nil => rfl
  | cons first rest ih =>
      cases rest with
      | nil =>
          simp only [List.nil_append, List.cons_append, Text.join,
            String.append_assoc]
      | cons second rest =>
          simp only [List.cons_append, Text.join, String.append_assoc] at ih ⊢
          rw [ih]

end TypeExpr

theorem areVariables_typeVariables (next : Nat) (scope : List String) :
    TypeExpr.AreVariables (SchemaFields.typeVariables next scope) := by
  intro name type found
  exact (Program.mem_of_lookup_typeVariables found).2

/--
The text of a type expression determines the type that it stands for, whatever
the names stand for and inside every schema, if nothing is made optional in it
that has several alternatives, if it has no tuple of a single empty text and no
quantity, and if its names are told apart from the marks and from the primitive
types.
-/
theorem types_eq_of_text_eq (names : Names) (next : Nat) (scope : List String)
    (left right : TypeExpr)
    (named : ∀ name ∈ left.mentions ++ right.mentions, IsTypeName name)
    (unmeasured : ∀ node ∈ left.subexpressions ++ right.subexpressions,
      node.isQuantity = false)
    (clear : ∀ node ∈ left.subexpressions ++ right.subexpressions,
      node.isClear = true)
    (same : left.text = right.text) (leftType rightType : Ty)
    (leftResolved : names.resolve (SchemaFields.typeVariables next scope) left =
      .ok leftType)
    (rightResolved : names.resolve (SchemaFields.typeVariables next scope)
      right = .ok rightType) :
    leftType = rightType ∧
      ∀ widening, Ty.isSubtype widening leftType rightType = true ∧
      Ty.isSubtype widening rightType leftType = true := by
  have readable : ∀ node ∈ left.subexpressions ++ right.subexpressions,
      node.isQuantity = false ∧ node.isClear = true :=
    fun node member => ⟨unmeasured node member, clear node member⟩
  rw [List.forall_mem_append] at named readable
  rw [Names.resolve_eq_ok_iff] at leftResolved rightResolved
  have bound := areVariables_typeVariables next scope
  rcases TypeExpr.readsAs_of_denotes bound left named.1 readable.1
    leftResolved with ⟨leftParts, leftReads, -, rfl, -⟩
  rcases TypeExpr.readsAs_of_denotes bound right named.2 readable.2
    rightResolved with
    ⟨rightParts, rightReads, -, rfl, -⟩
  rw [same] at leftReads
  rw [leftReads.unique rightReads]
  exact ⟨rfl, fun widening => ⟨Ty.isSubtype_refl _, Ty.isSubtype_refl _⟩⟩

/-- A schema with a parameter. -/
def boxes : Program :=
  [.schema { name := "Box", parameters := ["T"], fields := [] }]

/--
An array of boxes between two other alternatives, grouped with the one before
it.
-/
def boxesGroupedLeft : TypeExpr :=
  .union .unknown
    [.union .unknown [.primitive .unknown .int, .array .unknown
      (.generic .unknown "Box"
        [.optional .unknown (.schemaName .unknown "T")])],
        .schemaName .unknown "T"]

/--
The array is grouped with the alternative behind it, and the parameter is marked
as an enumeration.
-/
def boxesGroupedRight : TypeExpr :=
  .union .unknown
    [.primitive .unknown .int, .union .unknown [.array .unknown
      (.generic .unknown "Box" [.optional .unknown (.enumName .unknown "T")]),
        .enumName .unknown "T"]]

/--
Two groupings of one union have the same text, and they resolve to the same
type.
-/
theorem types_eq_of_text_eq_boxes :
    boxesGroupedLeft.text = "Int | [Box<T?>] | T" ∧
      boxesGroupedRight.text = "Int | [Box<T?>] | T" ∧
      ∃ leftType rightType,
        boxes.names.resolve (SchemaFields.typeVariables 0 ["T"])
          boxesGroupedLeft = .ok leftType ∧
        boxes.names.resolve (SchemaFields.typeVariables 0 ["T"])
          boxesGroupedRight = .ok rightType ∧
        leftType = rightType ∧
        ∀ widening, Ty.isSubtype widening leftType rightType = true ∧
          Ty.isSubtype widening rightType leftType = true := by
  have leftFound : (boxes.names.resolve (SchemaFields.typeVariables 0 ["T"])
      boxesGroupedLeft).toOption.any
      (fun type => type.text == "Int | [Box<T?>] | T") = true := by
    decide +kernel
  have rightFound : (boxes.names.resolve (SchemaFields.typeVariables 0 ["T"])
      boxesGroupedRight).toOption.any
      (fun type => type.text == "Int | [Box<T?>] | T") = true := by
    decide +kernel
  rcases exists_eq_ok_of_any leftFound with ⟨leftType, leftResolved, -⟩
  rcases exists_eq_ok_of_any rightFound with ⟨rightType, rightResolved, -⟩
  refine ⟨by decide +kernel, by decide +kernel, leftType, rightType,
    leftResolved, rightResolved, ?_⟩
  exact types_eq_of_text_eq boxes.names 0 ["T"] boxesGroupedLeft
    boxesGroupedRight (by decide +kernel)
    (by decide +kernel) (by decide +kernel) (by decide +kernel) leftType
    rightType leftResolved rightResolved

/--
An optional union and the union with an optional last member have the same text,
but do not take the same values.
-/
theorem exists_not_isSubtype_of_text_eq :
    ∃ left right : TypeExpr,
      left =
        .optional .unknown
          (.union .unknown
            [.primitive .unknown .int, .primitive .unknown .string]) ∧
      right =
        .union .unknown
          [.primitive .unknown .int,
            .optional .unknown (.primitive .unknown .string)] ∧
      (∀ name ∈ left.mentions ++ right.mentions, IsTypeName name) ∧
      (∀ node ∈ left.subexpressions ++ right.subexpressions,
        node.isQuantity = false) ∧ left.text = right.text ∧
      ∀ (names : Names) (parameters : List (String × Ty)) (widening : Bool),
        ∃ leftType rightType,
        names.resolve parameters left = .ok leftType ∧
          names.resolve parameters right = .ok rightType ∧
        Ty.isSubtype widening leftType rightType = false := by
  refine ⟨_, _, rfl, rfl, by decide, by decide,
    TypeExpr.text_optional_union _ _ _ _ [.primitive .unknown .int] _, ?_⟩
  intro names parameters widening
  refine ⟨.optional (.union [.int, .string]), .union [.int, .optional .string],
    ?_, ?_, ?_⟩
  · with_unfolding_all rfl
  · with_unfolding_all rfl
  · cases widening <;> decide +kernel

/--
The tuple without items and the tuple of an empty union have the same text as
well.
-/
example :
    (TypeExpr.tuple .unknown []).text =
      (TypeExpr.tuple .unknown [.union .unknown []]).text := rfl

end SchemaMap
