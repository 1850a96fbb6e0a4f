import SchemaMap.Builder
import SchemaMap.Proofs.Extension
import SchemaMap.Proofs.Ty.Normal

/-!
# Copying a schema

A transform may copy one schema into another, field by field.  If the two
declare the same fields, without parameters or parents, such a transform always
checks, whatever the types of the fields: an accepted program stays accepted
with it (`isAccepted_concat_copy`).

Fields are the same if they have the same names and the same type expressions,
wherever these stand.  Positions do not matter to what a type expression means
(`Denotes.unplaced_iff`), so that both schemas have the same types under the
same names, and every type accepts itself.
-/

namespace SchemaMap

/-! ## Expressions without positions -/

/-- The unit expression without its positions. -/
def UnitExpr.unplaced : UnitExpr → UnitExpr
  | .reference _ name => .reference .unknown name
  | .product _ left right => .product .unknown left.unplaced right.unplaced
  | .quotient _ left right => .quotient .unknown left.unplaced right.unplaced
  | .power _ base exponent => .power .unknown base.unplaced exponent
  | .one _ => .one .unknown

mutual

/-- The type expression without its positions. -/
def TypeExpr.unplaced : TypeExpr → TypeExpr
  | .primitive _ base => .primitive .unknown base
  | .schemaName _ name => .schemaName .unknown name
  | .enumName _ name => .enumName .unknown name
  | .array _ element => .array .unknown element.unplaced
  | .optional _ inner => .optional .unknown inner.unplaced
  | .quantity _ unit => .quantity .unknown unit.unplaced
  | .tuple _ items => .tuple .unknown (TypeExpr.unplacedAll items)
  | .union _ members => .union .unknown (TypeExpr.unplacedAll members)
  | .generic _ name arguments =>
      .generic .unknown name (TypeExpr.unplacedAll arguments)
termination_by structural expression => expression

def TypeExpr.unplacedAll : List TypeExpr → List TypeExpr
  | [] => []
  | expression :: rest => expression.unplaced :: TypeExpr.unplacedAll rest
termination_by structural expressions => expressions

end

/-- The field without its positions. -/
def FieldDeclaration.unplaced (field : FieldDeclaration) : FieldDeclaration :=
  { name := field.name, type := field.type.unplaced }

/-- Positions do not matter for the value of a unit expression. -/
theorem UnitExpr.Evaluates.unplaced_iff {value : String → PhysicalUnit → Prop}
    (expression : UnitExpr) {unit : PhysicalUnit} :
    expression.unplaced.Evaluates value unit ↔
      expression.Evaluates value unit := by
  induction expression generalizing unit with
  | reference span name =>
      constructor
      · rintro ⟨known⟩
        exact .reference known
      · rintro ⟨known⟩
        exact .reference known
  | product span left right ihLeft ihRight =>
      constructor
      · rintro (_ | ⟨first, second, combined⟩)
        exact .product (ihLeft.mp first) (ihRight.mp second) combined
      · rintro (_ | ⟨first, second, combined⟩)
        exact .product (ihLeft.mpr first) (ihRight.mpr second) combined
  | quotient span left right ihLeft ihRight =>
      constructor
      · rintro (_ | _ | ⟨first, second, combined⟩)
        exact .quotient (ihLeft.mp first) (ihRight.mp second) combined
      · rintro (_ | _ | ⟨first, second, combined⟩)
        exact .quotient (ihLeft.mpr first) (ihRight.mpr second) combined
  | power span base exponent ih =>
      constructor
      · rintro (_ | _ | _ | ⟨inner, raised⟩)
        exact .power (ih.mp inner) raised
      · rintro (_ | _ | _ | ⟨inner, raised⟩)
        exact .power (ih.mpr inner) raised
  | one span =>
      constructor
      · rintro (_ | _ | _ | _ | plain)
        exact .one plain
      · rintro (_ | _ | _ | _ | plain)
        exact .one plain

section

variable {declared : String → Kind → Prop} {unit : String → PhysicalUnit → Prop}
  {parameters : List (String × Ty)}

mutual

/-- Without its positions a type expression means the same. -/
theorem Denotes.unplaced_iff : (expression : TypeExpr) → {type : Ty} →
    (Denotes declared unit parameters expression.unplaced type ↔
      Denotes declared unit parameters expression type)
  | .primitive _ _, _ =>
      ⟨fun | .primitive => .primitive, fun | .primitive => .primitive⟩
  | .schemaName _ _, _ =>
      ⟨fun | .schemaName named => .schemaName named,
        fun | .schemaName named => .schemaName named⟩
  | .enumName _ _, _ =>
      ⟨fun | .enumName named => .enumName named,
        fun | .enumName named => .enumName named⟩
  | .array _ element, _ =>
      ⟨fun | .array inner => .array ((Denotes.unplaced_iff element).mp inner),
        fun | .array inner => .array ((Denotes.unplaced_iff element).mpr inner)⟩
  | .optional _ inner, _ =>
      ⟨fun | .optional present wrapped =>
             .optional ((Denotes.unplaced_iff inner).mp present) wrapped,
        fun | .optional present wrapped =>
              .optional ((Denotes.unplaced_iff inner).mpr present) wrapped⟩
  | .quantity _ expression, _ =>
      ⟨fun | .quantity evaluated =>
             .quantity
               ((UnitExpr.Evaluates.unplaced_iff expression).mp evaluated),
        fun | .quantity evaluated =>
              .quantity
                ((UnitExpr.Evaluates.unplaced_iff expression).mpr evaluated)⟩
  | .tuple _ items, _ =>
      ⟨fun | .tuple each => .tuple ((Denotes.unplacedAll_iff items).mp each),
        fun | .tuple each => .tuple ((Denotes.unplacedAll_iff items).mpr each)⟩
  | .union _ members, _ =>
      ⟨fun | .union each => .union ((Denotes.unplacedAll_iff members).mp each),
        fun | .union each =>
              .union ((Denotes.unplacedAll_iff members).mpr each)⟩
  | .generic _ _ arguments, _ =>
      ⟨fun | .generic each applied =>
             .generic ((Denotes.unplacedAll_iff arguments).mp each) applied,
        fun | .generic each applied =>
              .generic ((Denotes.unplacedAll_iff arguments).mpr each) applied⟩
termination_by structural expression => expression

theorem Denotes.unplacedAll_iff :
    (expressions : List TypeExpr) → {types : List Ty} →
    (List.Forall₂ (Denotes declared unit parameters)
      (TypeExpr.unplacedAll expressions) types ↔
      List.Forall₂ (Denotes declared unit parameters) expressions types)
  | [], _ => .rfl
  | expression :: rest, _ => by
      simp only [TypeExpr.unplacedAll, List.forall₂_cons_left_iff,
        Denotes.unplaced_iff expression, Denotes.unplacedAll_iff rest]
termination_by structural expressions => expressions

end

end

/-! ## Schemas without parameters -/

/-- The schema has neither parameters nor a parent. -/
structure SchemaDeclaration.IsPlain (declaration : SchemaDeclaration) :
    Prop where
  parameters : declaration.parameters = []
  parent : declaration.parent = none

section

variable {config : Config} {declared : Set Declaration}
  {number : String → Nat → Nat}

namespace SchemaDeclaration

variable {declaration other : SchemaDeclaration}

/-- A schema without parameters has no variables. -/
theorem IsPlain.typeVariables_eq (plain : declaration.IsPlain) :
    declaration.typeVariables number = [] := by
  rw [typeVariables, plain.parameters, List.mapIdx_nil]

/-- The name of a declared schema without parameters is a type. -/
theorem IsPlain.means (plain : declaration.IsPlain)
    (member : .schema declaration ∈ declared) (span : Span) :
    Means declared [] (.schemaName span declaration.name)
      (.handle declaration.name []) := by
  have known : Heads declared declaration.name
      (Declaration.schema declaration).head := ⟨_, member, rfl, rfl⟩
  have arity : ([] : List Ty).length = declaration.parameters.length := by
    rw [plain.parameters]; rfl
  exact .schemaName (.declared rfl (.schema known arity))

/-- What is declared in the same words has the same types. -/
theorem IsPlain.hasOwnFields (plain : declaration.IsPlain)
    (otherPlain : other.IsPlain)
    (same : other.fields.map FieldDeclaration.unplaced =
      declaration.fields.map FieldDeclaration.unplaced)
    {own : List (String × Ty)}
    (typed : declaration.HasOwnFields declared number own) :
    other.HasOwnFields declared number own := by
  rw [HasOwnFields, plain.typeVariables_eq] at typed
  rw [HasOwnFields, otherPlain.typeVariables_eq]
  have unplaced : ∀ fields : List FieldDeclaration,
      List.Forall₂ (fun field entry =>
        entry.1 = field.name ∧ Means declared [] field.type entry.2)
          (fields.map FieldDeclaration.unplaced) own ↔
        List.Forall₂ (fun field entry =>
          entry.1 = field.name ∧ Means declared [] field.type entry.2) fields
          own := by
    intro fields
    rw [List.forall₂_map_left_iff]
    simp only [FieldDeclaration.unplaced, Means, Denotes.unplaced_iff]
  rw [← unplaced, same, unplaced]
  exact typed

theorem HasOwnFields.map_fst {own : List (String × Ty)}
    (typed : declaration.HasOwnFields declared number own) :
    own.map Prod.fst = declaration.fields.map FieldDeclaration.name := by
  symm
  rw [← List.forall₂_eq_eq_eq, List.forall₂_map_left_iff,
    List.forall₂_map_right_iff]
  exact typed.imp fun _ _ meant => meant.1.symm

/--
The fields of a schema without parameters are seen with the types that they are
declared with.
-/
theorem IsPlain.hasField (plain : declaration.IsPlain)
    (member : .schema declaration ∈ declared) {own : List (String × Ty)}
    (typed : declaration.HasOwnFields declared number own)
    (distinct : (own.map Prod.fst).Nodup) (signature : Signature) (source : Ty)
    {entry : String × Ty} (listed : entry ∈ own) :
    (ruleEnvironment config declared number signature source).HasField
      (.handle declaration.name []) entry.1
      entry.2 := by
  have known : HasKind declared number declaration.name
      (.schema { name := declaration.name, parameters := declaration.parameters,
                 fields := putFields [] own }
        (declaration.parent.map Located.value)) :=
    ⟨_, member, rfl, _, .root member plain.parent typed, rfl⟩
  have found : (putFields [] own).lookup entry.1 = some entry.2 :=
    lookup_putFields_of_mem distinct listed
  have seen :=
    @Environment.HasField.schema
      (ruleEnvironment config declared number signature source) _ _ []
      [] [] _ _ _ known found
  rwa [List.zip_nil_right,
    show Dictionary.ofList [] = Dictionary.empty from rfl,
    Ty.substitute_empty] at seen

end SchemaDeclaration

/-! ## Transforms that copy -/

/--
The rule gives to a field of the target the field of the source that has its
name.
-/
inductive Rule.Copies (name : String) : Rule → Prop where
  | mk {targetSpan pathSpan stepSpan span : Span} :
      Copies name
        { target := [⟨name, targetSpan⟩],
          value := .path pathSpan .source [.field stepSpan name false], span :=
            span }

/--
The transform takes the first schema to the second, with one rule for each
field, which copies it, in any order.
-/
structure TransformDeclaration.Copies (copy : TransformDeclaration)
    (source target : SchemaDeclaration) : Prop where
  reads : ∃ name span,
    copy.sources = [{ name := name, type := .schemaName span source.name }]
  builds : ∃ span, copy.target = .schemaName span target.name
  rules : ∃ fields, fields.Perm target.fields ∧
    List.Forall₂ (fun rule field => rule.Copies field.name) copy.rules fields

theorem Rule.Copies.dottedTarget_eq {rule : Rule} {name : String}
    (copies : rule.Copies name) :
    rule.dottedTarget = name := by
  cases copies
  exact String.intercalate_singleton

/-- A rule that copies a field fits, since every type accepts itself. -/
theorem Rule.Copies.fits {rule : Rule} {name : String}
    (copies : rule.Copies name) {environment : Environment} {target type : Ty}
    (given : environment.HasField environment.source name type)
    (expected : environment.HasField target name type) :
    rule.Fits environment target := by
  cases copies
  refine ⟨type, type, .step expected .here, ?_, Ty.isSubtype_refl type⟩
  exact .path .source (.field .unmarked given .here) .unmarked

namespace TransformDeclaration

variable {copy : TransformDeclaration} {source target : SchemaDeclaration}

/-- A transform that copies a schema has one rule for each field. -/
theorem Copies.perm_map_dottedTarget (copies : copy.Copies source target) :
    (copy.rules.map Rule.dottedTarget).Perm
      (target.fields.map FieldDeclaration.name) := by
  rcases copies.rules with ⟨fields, permuted, each⟩
  have texts : copy.rules.map Rule.dottedTarget =
      fields.map FieldDeclaration.name := by
    rw [← List.forall₂_eq_eq_eq, List.forall₂_map_left_iff,
      List.forall₂_map_right_iff]
    exact each.imp fun _ _ copied => copied.dottedTarget_eq
  rw [texts]
  exact permuted.map FieldDeclaration.name

/--
A transform that copies a schema into one that has the same fields is well
typed.
-/
theorem Copies.wellTyped (copies : copy.Copies source target)
    (sourcePlain : source.IsPlain) (targetPlain : target.IsPlain)
    (sourceMember : .schema source ∈ declared)
    (targetMember : .schema target ∈ declared) {own : List (String × Ty)}
    (sourceTyped : source.HasOwnFields declared number own)
    (targetTyped : target.HasOwnFields declared number own)
    (distinct : (target.fields.map FieldDeclaration.name).Nodup) :
    copy.WellTyped config declared number := by
  rcases copies.reads with ⟨name, sourceSpan, reads⟩
  rcases copies.builds with ⟨targetSpan, builds⟩
  have names : own.map Prod.fst = target.fields.map FieldDeclaration.name :=
    targetTyped.map_fst
  have signature : copy.HasSignature declared
      ⟨[(name, .handle source.name [])], .handle target.name []⟩ := by
    rw [HasSignature, reads, builds]
    exact ⟨.cons ⟨rfl, sourcePlain.means sourceMember sourceSpan⟩ .nil,
      targetPlain.means targetMember targetSpan⟩
  refine ⟨?_, copies.perm_map_dottedTarget.nodup_iff.mpr distinct, _, _,
    signature, .single, ?_⟩
  · rw [reads]
    cases name <;> simp
  · intro rule listed
    rcases copies.rules with ⟨fields, -, each⟩
    rcases exists_forall₂_iff.mp ⟨fields, each⟩ rule listed with ⟨field, copied⟩
    have isField : field.name ∈ own.map Prod.fst := by
      rw [names, ← copies.perm_map_dottedTarget.mem_iff,
        ← copied.dottedTarget_eq]
      exact List.mem_map_of_mem listed
    rcases List.mem_map.mp isField with ⟨entry, found, named⟩
    rw [← named] at copied
    exact copied.fits (sourcePlain.hasField sourceMember sourceTyped
      (names ▸ distinct) _ _ found)
      (targetPlain.hasField targetMember targetTyped (names ▸ distinct) _ _
        found)

end TransformDeclaration

end

/--
Copying a schema always checks.  If an accepted program declares two schemas
with the same fields, without parameters and parents, then it is still accepted
with a transform of a new name that copies the one into the other, with one rule
for each field.
-/
theorem isAccepted_concat_copy {config : Config} {program : Program}
    (accepted : (analyze config program).isAccepted = true)
    {source target : SchemaDeclaration}
    (sourceMember : .schema source ∈ program)
    (targetMember : .schema target ∈ program) (sourcePlain : source.IsPlain)
    (targetPlain : target.IsPlain)
    (sameFields : target.fields.map FieldDeclaration.unplaced =
      source.fields.map FieldDeclaration.unplaced)
    {copy : TransformDeclaration} (copies : copy.Copies source target)
    (fresh : copy.name ∉ program.map Declaration.name) :
    (analyze config (program ++ [.transform copy])).isAccepted = true := by
  have faultless := (Analysis.isAccepted_analyze_iff config program).mp accepted
  rcases (Program.faults_eq_nil_iff_wellTyped config program).mp faultless with
    ⟨-, wellTyped⟩
  have adds := @Program.addsTransforms_concat program copy
  have fieldTypes := wellTyped.fieldTypes source sourceMember
  rcases exists_forall₂_iff.mpr fieldTypes with ⟨types, each⟩
  have sourceTyped : source.HasOwnFields program.declared program.number _ :=
    forall₂_key_iff.mpr ⟨types, each, rfl⟩
  have targetTyped :=
    sourcePlain.hasOwnFields targetPlain sameFields sourceTyped
  refine (Analysis.isAccepted_analyze_iff config _).mpr
    (Program.faults_concat_transform faultless fresh ?_)
  exact copies.wellTyped sourcePlain targetPlain (adds.subset sourceMember)
    (adds.subset targetMember)
    (adds.hasOwnFields sourceTyped) (adds.hasOwnFields targetTyped)
    (wellTyped.fields target targetMember)

/--
Fields of every sort: a quantity, enumerations, the schema `Draft`, and a union
with a generic schema.
-/
def itemFields (span : Span) : List FieldDeclaration :=
  [{ name := "weight",
     type :=
       .quantity span
         (.product span (.reference span "kg") (.reference span "kg")) },
    { name := "grades", type := .array span (.enumName span "Grade") },
    { name := "next", type := .optional span (.schemaName span "Draft") },
    { name := "labels"
      type := .union span
        [.primitive span .string,
          .generic span "Pair"
            [.schemaName span "Draft", .tuple span [.primitive span .int]]] }]

def draft : SchemaDeclaration :=
  { name := "Draft", fields := itemFields ⟨10, 20⟩ }

/--
The same fields at another position; the field `next` still leads to a draft.
-/
def published : SchemaDeclaration :=
  { name := "Published", fields := itemFields ⟨30, 40⟩ }

/--
A program in which two schemas have the same fields, and a third one takes a
parameter `A`.
-/
def items : Program :=
  [Builder.dimension "Mass", Builder.baseUnit "kg" "Mass",
    Builder.enumeration "Grade" ["low", "high"],
    Builder.genericSchema "Pair"
      ["A", "B"] [("first", .schemaName .unknown "A"),
        ("second", .schemaName .unknown "B")],
    .schema draft, .schema published]

/--
The transform that copies them, the last field first.  Its name is also that of
the parameter.
-/
def publish : TransformDeclaration :=
  { name := "A"
    sources := [{ name := some "draft", type := .schemaName .unknown "Draft" }]
    target := .schemaName .unknown "Published"
    rules := published.fields.reverse.map fun field =>
      { target := [⟨field.name, field.span⟩],
        value := .path .unknown .source [.field .unknown field.name false] } }

/-- The drafts can be published. -/
theorem isAccepted_items_publish :
    (analyze {} items).isAccepted = true ∧ publish.Copies draft published ∧
      (analyze {} (items ++ [.transform publish])).isAccepted = true := by
  have accepted : (analyze {} items).isAccepted = true := by decide +kernel
  have copies : publish.Copies draft published :=
    ⟨⟨_, _, rfl⟩, ⟨_, rfl⟩, _, published.fields.reverse_perm,
      .cons .mk (.cons .mk (.cons .mk (.cons .mk .nil)))⟩
  have isDraft : .schema draft ∈ items := by simp [items]
  have isPublished : .schema published ∈ items := by simp [items]
  have fresh : publish.name ∉ items.map Declaration.name := by decide
  exact ⟨accepted, copies,
    isAccepted_concat_copy accepted isDraft isPublished ⟨rfl, rfl⟩ ⟨rfl, rfl⟩
      rfl copies fresh⟩

end SchemaMap
