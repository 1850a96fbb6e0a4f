import Mathlib.Data.List.Forall2
import SchemaMap.Proofs.Units
import SchemaMap.Resolution

/-!
# What type expressions stand for

`Denotes` gives the type of a type expression by rules, one for each form of
expression; `resolve_eq_ok_iff` says that resolution finds exactly these types.

Of what a name stands for, resolution sees little: the number of parameters of a
schema, the variants of an enumeration, and what else is called.  Names that
look the same through this view (`SameTypes`) resolve alike, faults included.
-/

namespace SchemaMap

/-- The type with room for a missing value; a type that has it already stays. -/
inductive Ty.Wraps : Ty → Ty → Prop where
  | optional {inner : Ty} : Wraps (.optional inner) (.optional inner)
  | present {type : Ty} (there : ∀ inner, type ≠ .optional inner) :
      Wraps type (.optional type)

/--
The type of a declared name with arguments: a schema takes as many as it has
parameters, an enumeration none.
-/
inductive Applies (declared : String → Kind → Prop) :
    String → List Ty → Ty → Prop where
  | schema {name : String} {schema : Schema} {parent : Option String}
      {arguments : List Ty} (known : declared name (.schema schema parent))
      (arity : arguments.length = schema.parameters.length) :
      Applies declared name arguments (.schema name arguments [] [])
  | enumeration {name : String} {variants : List String}
      (known : declared name (.enumeration variants)) :
      Applies declared name [] (.enumeration name variants)

/--
The type of a bare name: a parameter in reach comes before a declared name.
-/
inductive NameDenotes (declared : String → Kind → Prop)
    (parameters : List (String × Ty)) : String → Ty → Prop where
  | parameter {name : String} {type : Ty}
      (bound : parameters.lookup name = some type) :
      NameDenotes declared parameters name type
  | declared {name : String} {type : Ty} (free : parameters.lookup name = none)
      (applied : Applies declared name [] type) :
      NameDenotes declared parameters name type

/--
The type of a type expression, where `declared` says what names stand for and
`unit` what the names of units do, inside a schema with the given parameters.
-/
inductive Denotes (declared : String → Kind → Prop)
    (unit : String → PhysicalUnit → Prop) (parameters : List (String × Ty)) :
    TypeExpr → Ty → Prop where
  | primitive {span : Span} {base : Primitive} :
      Denotes declared unit parameters (.primitive span base) (.primitive base)
  | schemaName {span : Span} {name : String} {type : Ty}
      (named : NameDenotes declared parameters name type) :
      Denotes declared unit parameters (.schemaName span name) type
  | enumName {span : Span} {name : String} {type : Ty}
      (named : NameDenotes declared parameters name type) :
      Denotes declared unit parameters (.enumName span name) type
  | array {span : Span} {element : TypeExpr} {type : Ty}
      (inner : Denotes declared unit parameters element type) :
      Denotes declared unit parameters (.array span element) (.array type)
  | optional {span : Span} {inner : TypeExpr} {type result : Ty}
      (present : Denotes declared unit parameters inner type)
      (wrapped : type.Wraps result) :
      Denotes declared unit parameters (.optional span inner) result
  | quantity {span : Span} {expression : UnitExpr} {value : PhysicalUnit}
      (evaluated : expression.Evaluates unit value) :
      Denotes declared unit parameters (.quantity span expression)
        (.quantity value)
  | tuple {span : Span} {items : List TypeExpr} {types : List Ty}
      (each : List.Forall₂ (Denotes declared unit parameters) items types) :
      Denotes declared unit parameters (.tuple span items) (.tuple types)
  | union {span : Span} {members : List TypeExpr} {types : List Ty}
      (each : List.Forall₂ (Denotes declared unit parameters) members types) :
      Denotes declared unit parameters (.union span members) (.unionOf types)
  | generic {span : Span} {name : String} {arguments : List TypeExpr}
      {types : List Ty} {type : Ty}
      (each : List.Forall₂ (Denotes declared unit parameters) arguments types)
      (applied : Applies declared name types type) :
      Denotes declared unit parameters (.generic span name arguments) type

/-- Optional types by rule are those that are computed. -/
theorem Ty.wraps_iff {type result : Ty} :
    type.Wraps result ↔ type.optionalOf = result := by
  constructor
  · intro wraps
    cases wraps with
    | optional => rfl
    | present there =>
        cases type with
        | optional inner => exact absurd rfl (there inner)
        | _ => rfl
  · rintro rfl
    cases type with
    | optional inner => exact .optional
    | _ => exact .present (by simp)

namespace Names

/-- What the names stand for, as a relation. -/
def declares (names : Names) (name : String) (kind : Kind) : Prop :=
  names.kind name = some kind

/-- What the names of units stand for, as a relation. -/
def measures (names : Names) (name : String) (unit : PhysicalUnit) : Prop :=
  names.unit name = .ok unit

variable {names : Names} {parameters : List (String × Ty)}

/-- A name with arguments resolves to the type that it stands for. -/
theorem named_eq_ok_iff {name : String} {arguments : List Ty} {span : Span}
    {type : Ty} :
    names.named name arguments span = .ok type ↔
      Applies names.declares name arguments type := by
  unfold named
  constructor
  · intro resolved
    split at resolved
    · contradiction
    · next known =>
        split at resolved
        · next arity =>
            cases resolved
            exact .schema known arity
        · contradiction
    · next known =>
        split at resolved
        · next none =>
            cases resolved
            rw [List.isEmpty_iff] at none
            subst none
            exact .enumeration known
        · contradiction
    · contradiction
  · intro applied
    cases applied with
    | schema known arity =>
        rw [show names.kind name = _ from known]
        simp [arity, Ty.handle]
    | enumeration known =>
        rw [show names.kind name = _ from known]
        simp

/-- A bare name resolves to the parameter or the type that it stands for. -/
theorem bare_eq_ok_iff {name : String} {span : Span} {type : Ty} :
    names.bare parameters name span = .ok type ↔
      NameDenotes names.declares parameters name type := by
  unfold bare
  cases bound : parameters.lookup name with
  | some parameter =>
      constructor
      · intro resolved
        cases resolved
        exact .parameter bound
      · intro named
        cases named with
        | parameter bound' =>
            rw [bound] at bound'
            cases bound'
            rfl
        | declared free =>
            rw [bound] at free
            contradiction
  | none =>
      simp only [named_eq_ok_iff]
      constructor
      · exact .declared bound
      · intro named
        cases named with
        | parameter bound' =>
            rw [bound] at bound'
            contradiction
        | declared _ applied => exact applied

/-- A quantity resolves to the value of its unit. -/
theorem quantity_eq_ok_iff {expression : UnitExpr} {type : Ty} :
    names.quantity expression = .ok type ↔
      ∃ unit, expression.Evaluates names.measures unit ∧
        .quantity unit = type := by
  rw [quantity, map_eq_ok_iff]
  exact exists_congr fun unit => and_congr_left' UnitExpr.run_evaluate_eq_ok_iff

mutual

/-- Resolution finds exactly the types that type expressions stand for. -/
theorem resolve_eq_ok_iff : (expression : TypeExpr) → {type : Ty} →
    (names.resolve parameters expression = .ok type ↔
      Denotes names.declares names.measures parameters expression type)
  | .primitive span base, type => by
      rw [resolve]
      constructor
      · rintro ⟨⟩
        exact .primitive
      · rintro ⟨⟩
        rfl
  | .schemaName span name, type => by
      rw [resolve, bare_eq_ok_iff]
      constructor
      · exact .schemaName
      · rintro ⟨⟩
        assumption
  | .enumName span name, type => by
      rw [resolve, bare_eq_ok_iff]
      constructor
      · exact .enumName
      · rintro ⟨⟩
        assumption
  | .array span element, type => by
      rw [resolve, map_eq_ok_iff]
      simp only [resolve_eq_ok_iff element]
      constructor
      · rintro ⟨inner, resolved, rfl⟩
        exact .array resolved
      · rintro ⟨⟩
        exact ⟨_, by assumption, rfl⟩
  | .optional span inner, type => by
      rw [resolve, map_eq_ok_iff]
      simp only [resolve_eq_ok_iff inner]
      constructor
      · rintro ⟨present, resolved, wrapped⟩
        exact .optional resolved (Ty.wraps_iff.mpr wrapped)
      · intro denotes
        cases denotes with
        | optional resolved wrapped =>
            exact ⟨_, resolved, Ty.wraps_iff.mp wrapped⟩
  | .quantity span expression, type => by
      rw [resolve, quantity_eq_ok_iff]
      constructor
      · rintro ⟨unit, evaluated, rfl⟩
        exact .quantity evaluated
      · rintro ⟨⟩
        exact ⟨_, by assumption, rfl⟩
  | .tuple span items, type => by
      rw [resolve, map_eq_ok_iff]
      simp only [resolveAll_eq_ok_iff items]
      constructor
      · rintro ⟨types, each, rfl⟩
        exact .tuple each
      · rintro ⟨⟩
        exact ⟨_, by assumption, rfl⟩
  | .union span members, type => by
      rw [resolve, map_eq_ok_iff]
      simp only [resolveAll_eq_ok_iff members]
      constructor
      · rintro ⟨types, each, rfl⟩
        exact .union each
      · rintro ⟨⟩
        exact ⟨_, by assumption, rfl⟩
  | .generic span name arguments, type => by
      rw [resolve, bind_eq_ok_iff]
      simp only [resolveAll_eq_ok_iff arguments, named_eq_ok_iff]
      constructor
      · rintro ⟨types, each, applied⟩
        exact .generic each applied
      · rintro ⟨⟩
        exact ⟨_, by assumption, by assumption⟩
termination_by structural expression => expression

theorem resolveAll_eq_ok_iff :
    (expressions : List TypeExpr) → {types : List Ty} →
    (names.resolveAll parameters expressions = .ok types ↔
      List.Forall₂ (Denotes names.declares names.measures parameters)
        expressions types)
  | [], types => by
      rw [resolveAll]
      constructor
      · rintro ⟨⟩
        exact .nil
      · rintro ⟨⟩
        rfl
  | expression :: rest, types => by
      rw [resolveAll, bind_eq_ok_iff]
      simp only [resolve_eq_ok_iff expression, bind_eq_ok_iff,
        resolveAll_eq_ok_iff rest]
      constructor
      · rintro ⟨first, resolved, others, each, ⟨⟩⟩
        exact .cons resolved each
      · rintro (_ | ⟨resolved, each⟩)
        exact ⟨_, resolved, _, each, rfl⟩
termination_by structural expressions => expressions

end

theorem exists_resolveAll_iff {expressions : List TypeExpr} :
    (∃ types, names.resolveAll parameters expressions = .ok types) ↔
      ∀ expression ∈ expressions,
        ∃ type, names.resolve parameters expression = .ok type := by
  simp only [resolveAll_eq_ok_iff, resolve_eq_ok_iff]
  exact exists_forall₂_iff

/-- A signature resolves when its types do. -/
theorem exists_signature_iff {declaration : TransformDeclaration} :
    (∃ signature, names.signature declaration = .ok signature) ↔
      (∀ source ∈ declaration.sources,
        ∃ type, names.resolve [] source.type = .ok type) ∧
        ∃ type, names.resolve [] declaration.target = .ok type := by
  have sources :
      (∃ types,
        names.resolveAll [] (declaration.sources.map SourceDeclaration.type) =
          .ok types) ↔
      ∀ source ∈ declaration.sources,
        ∃ type, names.resolve [] source.type = .ok type := by
    rw [exists_resolveAll_iff, List.forall_mem_map]
  rw [← sources]
  simp only [signature, bind_eq_ok_iff]
  constructor
  · rintro ⟨_, types, all, target, resolved, -⟩
    exact ⟨⟨types, all⟩, target, resolved⟩
  · rintro ⟨⟨types, all⟩, target, resolved⟩
    exact ⟨_, types, all, target, resolved, rfl⟩

end Names

/-! ## Types that are written are known -/

/-- What a type contributes to a union is known and not a union itself. -/
def Ty.IsKnown (type : Ty) : Prop :=
  ∀ part ∈ type.parts, part ≠ .unknown ∧ part.parts = [part]

namespace Ty

theorem IsKnown.ne_unknown {type : Ty} (known : type.IsKnown) :
    type ≠ .unknown := by
  rintro rfl
  exact (known .unknown List.mem_cons_self).1 rfl

theorem isKnown_of_parts_eq {type : Ty} (apart : type ≠ .unknown)
    (single : type.parts = [type]) : type.IsKnown := by
  intro part member
  rw [single] at member
  rw [List.mem_singleton.mp member]
  exact ⟨apart, single⟩

theorem mem_of_mem_foldl_addDistinct {types others : List Ty} {type : Ty}
    (member : type ∈ others.foldl addDistinct types) :
    type ∈ types ∨ type ∈ others := by
  induction others generalizing types with
  | nil => exact .inl member
  | cons other rest ih =>
      rcases ih member with earlier | later
      · rw [addDistinct] at earlier
        split at earlier
        · exact .inl earlier
        · rcases List.mem_append.mp earlier with old | new
          · exact .inl old
          · exact .inr (List.mem_singleton.mp new ▸ List.mem_cons_self)
      · exact .inr (List.mem_cons_of_mem _ later)

theorem isKnown_unionOf {types : List Ty}
    (known : ∀ type ∈ types, type.IsKnown) : (unionOf types).IsKnown := by
  have parts : ∀ part ∈ (types.flatMap Ty.parts).foldl addDistinct [],
      part ≠ .unknown ∧ part.parts = [part] := by
    intro part member
    rcases mem_of_mem_foldl_addDistinct member with none | listed
    · contradiction
    · rcases List.mem_flatMap.mp listed with ⟨type, present, contributed⟩
      exact known type present part contributed
  unfold unionOf
  split
  · exact isKnown_of_parts_eq (by simp) rfl
  · next single =>
      rw [single] at parts
      have only := parts _ List.mem_cons_self
      exact isKnown_of_parts_eq only.1 only.2
  · exact parts

theorem isKnown_optionalOf (type : Ty) : type.optionalOf.IsKnown := by
  cases type <;> exact isKnown_of_parts_eq (by simp [optionalOf]) rfl

end Ty

section

variable {declared : String → Kind → Prop} {unit : String → PhysicalUnit → Prop}
  {parameters : List (String × Ty)}

/-- A name with arguments never stands for the unknown type. -/
theorem Applies.isKnown {name : String} {arguments : List Ty} {type : Ty}
    (applied : Applies declared name arguments type) : type.IsKnown := by
  cases applied <;> exact Ty.isKnown_of_parts_eq (by simp) rfl

theorem NameDenotes.isKnown
    (known : ∀ name type, parameters.lookup name = some type → type.IsKnown)
    {name : String} {type : Ty}
    (named : NameDenotes declared parameters name type) : type.IsKnown := by
  cases named with
  | parameter bound => exact known name type bound
  | declared _ applied => exact applied.isKnown

mutual

/-- A type expression never stands for `unknown`, unless a parameter does. -/
theorem Denotes.isKnown
    (known : ∀ name type, parameters.lookup name = some type → type.IsKnown) :
    (expression : TypeExpr) → {type : Ty} →
      Denotes declared unit parameters expression type → type.IsKnown
  | .primitive _ _, _, .primitive => Ty.isKnown_of_parts_eq (by simp) rfl
  | .schemaName _ _, _, .schemaName named => named.isKnown known
  | .enumName _ _, _, .enumName named => named.isKnown known
  | .array _ _, _, .array _ => Ty.isKnown_of_parts_eq (by simp) rfl
  | .optional _ _, _, .optional _ wrapped => by
      rw [← Ty.wraps_iff.mp wrapped]
      exact Ty.isKnown_optionalOf _
  | .quantity _ _, _, .quantity _ => Ty.isKnown_of_parts_eq (by simp) rfl
  | .tuple _ _, _, .tuple _ => Ty.isKnown_of_parts_eq (by simp) rfl
  | .union _ members, _, .union each =>
      Ty.isKnown_unionOf (Denotes.areKnown known members each)
  | .generic _ _ _, _, .generic _ applied => applied.isKnown
termination_by structural expression => expression

theorem Denotes.areKnown
    (known : ∀ name type, parameters.lookup name = some type → type.IsKnown) :
    (expressions : List TypeExpr) → {types : List Ty} →
      List.Forall₂ (Denotes declared unit parameters) expressions types →
      ∀ type ∈ types, type.IsKnown
  | [], _, .nil => by simp
  | expression :: rest, _, .cons first further => by
      rw [List.forall_mem_cons]
      exact ⟨Denotes.isKnown known expression first,
        Denotes.areKnown known rest further⟩
termination_by structural expressions => expressions

end

end

/-! ## What resolution sees -/

/-- What type expressions see of what a name stands for. -/
def Kind.asType : Kind → Kind
  | .schema content _ =>
      .schema { name := content.name, parameters := content.parameters } none
  | .enumeration variants => .enumeration variants
  | .unit _ => .unit none
  | .dimension => .dimension
  | .lookup _ _ => .lookup [] .unknown
  | .transform _ => .transform ⟨[], .unknown⟩
  | .pipeline _ => .pipeline []
  | .binding _ => .binding .unknown

namespace Names

/-- Type expressions see the same in both. -/
structure SameTypes (names others : Names) : Prop where
  kind : ∀ name,
    (names.kind name).map Kind.asType = (others.kind name).map Kind.asType
  unit : names.unit = others.unit

theorem named_asType (names : Names) (name : String) (arguments : List Ty)
    (span : Span) :
    ({ names with kind := fun name => (names.kind name).map Kind.asType } :
      Names).named name arguments span =
      names.named name arguments span := by
  unfold named
  simp only
  cases names.kind name with
  | none => rfl
  | some kind => cases kind <;> rfl

namespace SameTypes

variable {names others : Names}

theorem named (same : names.SameTypes others) (name : String)
    (arguments : List Ty) (span : Span) :
    names.named name arguments span = others.named name arguments span := by
  rw [← named_asType names, ← named_asType others, funext same.kind, same.unit]

theorem bare (same : names.SameTypes others) (parameters : List (String × Ty))
    (name : String) (span : Span) :
    names.bare parameters name span = others.bare parameters name span := by
  unfold Names.bare
  rw [same.named]

theorem quantity (same : names.SameTypes others) (expression : UnitExpr) :
    names.quantity expression = others.quantity expression := by
  unfold Names.quantity
  rw [same.unit]

mutual

theorem resolve (same : names.SameTypes others)
    (parameters : List (String × Ty)) :
    (expression : TypeExpr) →
    names.resolve parameters expression = others.resolve parameters expression
  | .primitive _ _ => rfl
  | .schemaName span name => same.bare parameters name span
  | .enumName span name => same.bare parameters name span
  | .array _ element =>
      congrArg (Except.map Ty.array) (resolve same parameters element)
  | .optional _ inner =>
      congrArg (Except.map Ty.optionalOf) (resolve same parameters inner)
  | .quantity _ expression => same.quantity expression
  | .tuple _ items =>
      congrArg (Except.map Ty.tuple) (resolveAll same parameters items)
  | .union _ members =>
      congrArg (Except.map Ty.unionOf) (resolveAll same parameters members)
  | .generic span name arguments => by
      simp only [Names.resolve, resolveAll same parameters arguments,
        same.named]
termination_by structural expression => expression

theorem resolveAll (same : names.SameTypes others)
    (parameters : List (String × Ty)) :
    (expressions : List TypeExpr) →
    names.resolveAll parameters expressions =
      others.resolveAll parameters expressions
  | [] => rfl
  | expression :: rest => by
      simp only [Names.resolveAll, resolve same parameters expression,
        resolveAll same parameters rest]
termination_by structural expressions => expressions

end

theorem lookup (same : names.SameTypes others)
    (declaration : LookupDeclaration) :
    names.lookup declaration = others.lookup declaration := by
  simp only [Names.lookup, same.resolve, same.resolveAll]

theorem signature (same : names.SameTypes others)
    (declaration : TransformDeclaration) :
    names.signature declaration = others.signature declaration := by
  simp only [Names.signature, same.resolve, same.resolveAll]

end SameTypes

end Names

end SchemaMap
