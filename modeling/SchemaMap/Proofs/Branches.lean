import SchemaMap.Proofs.Analysis.Variables
import SchemaMap.Proofs.Ty.Normal

/-!
# Branches

The type of an `if` or of a `match` is put together from the types of its
branches, two at a time: where two types are equal one of them stands for both,
otherwise they become a union.  The type that comes out lies below another type
exactly when all branches do (`joinAll_isSubtype_iff`).  This needs types in
which every schema has the number of arguments that belongs to its name, as all
types have that a rule of a program comes upon.  So a rule takes an `if` or a
`match` for a field exactly when it takes each of the branches
(`unions_and_branches`).
-/

namespace SchemaMap

namespace Arm

def pattern : Arm → Pattern
  | .mk _ pattern _ => pattern

def body : Arm → Expr
  | .mk _ _ body => body

end Arm

namespace Context

variable {context : Context}

/-! ## The types of branches -/

/-- The type of an `if` is that of its two branches, joined. -/
theorem outcome_infer_conditional_iff {span : Span}
    {condition thenBranch elseBranch : Expr} {type : Ty} :
    (context.infer
      (.conditional span condition thenBranch elseBranch)).outcome = .ok type ↔
      (∃ conditionType, (context.infer condition).outcome = .ok conditionType) ∧
        ∃ thenType elseType, (context.infer thenBranch).outcome = .ok thenType ∧
          (context.infer elseBranch).outcome = .ok elseType ∧
          thenType.join elseType = type := by
  rw [infer, Inference.outcome_recorded]
  simp only [Inference.outcome_bind_eq_ok_iff, Inference.outcome_pure,
    Except.ok.injEq]
  constructor
  · rintro ⟨conditionType, decided, thenType, first, elseType, second, joined⟩
    exact ⟨⟨conditionType, decided⟩, thenType, elseType, first, second, joined⟩
  · rintro ⟨⟨conditionType, decided⟩, thenType, elseType, first, second, joined⟩
    exact ⟨conditionType, decided, thenType, first, elseType, second, joined⟩

/-- The pattern of an arm fits the subject, and its body has the type. -/
def ArmHasType (context : Context) (subject : Ty) (arm : Arm) (type : Ty) :
    Prop :=
  context.checkPattern subject arm.pattern = .ok () ∧
    (context.infer arm.body).outcome = .ok type

/-- The arms of a `match` have types one by one. -/
theorem outcome_inferArms_iff {subject : Ty} {arms : List Arm}
    {types : List Ty} :
    (context.inferArms subject arms).outcome = .ok types ↔
      List.Forall₂ (context.ArmHasType subject) arms types := by
  induction arms generalizing types with
  | nil =>
      rw [inferArms, Inference.outcome_pure, Except.ok.injEq,
        List.forall₂_nil_left_iff, eq_comm]
  | cons arm rest ih =>
      rcases arm with ⟨span, pattern, body⟩
      rw [inferArms]
      simp only [Inference.outcome_bind_eq_ok_iff, Inference.outcome_ofExcept,
        Inference.outcome_pure, Except.ok.injEq, ih]
      constructor
      · rintro ⟨⟨⟩, fits, type, first, others, further, rfl⟩
        exact .cons ⟨fits, first⟩ further
      · rintro (_ | ⟨⟨fits, first⟩, further⟩)
        exact ⟨(), fits, _, first, _, further, rfl⟩

/-- The type of a `match` is that of all its arms, joined. -/
theorem outcome_infer_matching_iff {span : Span} {subject : Expr}
    {arms : List Arm} {type : Ty} :
    (context.infer (.matching span subject arms)).outcome = .ok type ↔
      ∃ subjectType types, (context.infer subject).outcome = .ok subjectType ∧
        List.Forall₂ (context.ArmHasType subjectType) arms types ∧
        Ty.joinAll types = type := by
  rw [infer, Inference.outcome_recorded]
  simp only [Inference.outcome_bind_eq_ok_iff, Inference.outcome_pure,
    Except.ok.injEq, outcome_inferArms_iff]
  constructor
  · rintro ⟨subjectType, inspected, types, each, joined⟩
    exact ⟨subjectType, types, inspected, each, joined⟩
  · rintro ⟨subjectType, types, inspected, each, joined⟩
    exact ⟨subjectType, inspected, types, each, joined⟩

/-! ## Rules that take branches -/

/-- The rule is accepted with the given value in place of its own. -/
def Takes (context : Context) (target : Ty) (rule : Rule) (value : Expr) :
    Prop :=
  (context.checkRule target { rule with value := value }).outcome = .ok ()

/-- A rule takes a value exactly when its type fits the type of the field. -/
theorem takes_iff {target : Ty} {rule : Rule} {value : Expr} :
    context.Takes target rule value ↔
      ∃ expected found, context.walk target rule.target = .ok expected ∧
        (context.infer value).outcome = .ok found ∧
        context.accepts found expected = true := by
  simp only [Takes, checkRule, Inference.outcome_bind_eq_ok_iff,
    Inference.outcome_ofExcept]
  constructor
  · rintro ⟨expected, walked, found, inferred, outcome⟩
    split at outcome
    · next accepted => exact ⟨expected, found, walked, inferred, accepted⟩
    · contradiction
  · rintro ⟨expected, found, walked, inferred, accepted⟩
    exact ⟨expected, walked, found, inferred, by simp [accepted]⟩

section

variable {arity : String → Nat} {named : String → Nat → Prop}
  (orderly : context.Throughout (Ty.IsOrderly arity named))

include orderly

/--
Inference finds only types in which schemas have the right number of arguments.
-/
theorem respects_of_infer {expression : Expr} {type : Ty}
    (inferred : (context.infer expression).outcome = .ok type) :
    type.Respects arity :=
  Ty.respects_of_throughout
    ((keeps_infer Ty.inferable_isOrderly orderly expression).outcome type
      inferred)

variable {target : Ty}
  (targetOrderly : target.Throughout (Ty.IsOrderly arity named))

include targetOrderly

theorem respects_of_walk {fields : List (Located String)} {type : Ty}
    (walked : context.walk target fields = .ok type) :
    type.Respects arity :=
  Ty.respects_of_throughout (orderly.walk targetOrderly walked)

/--
A rule takes an `if` whose condition has a type exactly when it takes both
branches.
-/
theorem takes_conditional_iff {rule : Rule} {span : Span}
    {condition thenBranch elseBranch : Expr} :
    context.Takes target rule
      (.conditional span condition thenBranch elseBranch) ↔
      (∃ type, (context.infer condition).outcome = .ok type) ∧
        context.Takes target rule thenBranch ∧
        context.Takes target rule elseBranch := by
  simp only [takes_iff]
  constructor
  · rintro ⟨expected, found, walked, inferred, accepted⟩
    rcases outcome_infer_conditional_iff.mp inferred with
      ⟨decided, thenType, elseType, first, second, rfl⟩
    have both :=
      (Ty.join_isSubtype_iff (respects_of_infer orderly first)
        (respects_of_infer orderly second)
        (respects_of_walk orderly targetOrderly walked)).mp accepted
    exact ⟨decided, ⟨expected, thenType, walked, first, both.1⟩, expected,
      elseType, walked, second, both.2⟩
  · rintro ⟨decided, ⟨expected, thenType, walked, first, firstFits⟩, other,
      elseType, walked', second, secondFits⟩
    cases Except.ok.inj (walked.symm.trans walked')
    refine ⟨expected, thenType.join elseType, walked,
      outcome_infer_conditional_iff.mpr
        ⟨decided, thenType, elseType, first, second, rfl⟩, ?_⟩
    exact (Ty.join_isSubtype_iff (respects_of_infer orderly first)
      (respects_of_infer orderly second)
      (respects_of_walk orderly targetOrderly walked)).mpr
      ⟨firstFits, secondFits⟩

/--
A field takes the joined type of arms exactly when it takes the type of each.
-/
theorem joinAll_accepts_iff {subject expected : Ty}
    {fields : List (Located String)} {arms : List Arm} {types : List Ty}
    (walked : context.walk target fields = .ok expected)
    (each : List.Forall₂ (context.ArmHasType subject) arms types) :
    context.accepts (Ty.joinAll types) expected = true ↔
      ∀ type ∈ types, context.accepts type expected = true := by
  refine Ty.joinAll_isSubtype_iff (fun type member => ?_)
    (respects_of_walk orderly targetOrderly walked)
  rcases exists_of_mem_right each member with ⟨arm, -, typed⟩
  exact respects_of_infer orderly typed.2

/--
A rule whose field is there takes a `match` exactly when the subject has a type,
each pattern fits and it takes the bodies of all arms.
-/
theorem takes_matching_iff {rule : Rule} {span : Span} {subject : Expr}
    {arms : List Arm} :
    context.Takes target rule (.matching span subject arms) ↔
      (∃ expected, context.walk target rule.target = .ok expected) ∧
        ∃ subjectType, (context.infer subject).outcome = .ok subjectType ∧
          ∀ arm ∈ arms, context.checkPattern subjectType arm.pattern = .ok () ∧
            context.Takes target rule arm.body := by
  simp only [takes_iff]
  constructor
  · rintro ⟨expected, found, walked, inferred, accepted⟩
    rcases outcome_infer_matching_iff.mp inferred with
      ⟨subjectType, types, inspected, each, rfl⟩
    rw [joinAll_accepts_iff orderly targetOrderly walked each] at accepted
    refine ⟨⟨expected, walked⟩, subjectType, inspected, fun arm member => ?_⟩
    rcases exists_of_mem_left each member with ⟨type, listed, fits, typed⟩
    exact ⟨fits, expected, type, walked, typed, accepted type listed⟩
  · rintro ⟨⟨expected, walked⟩, subjectType, inspected, taken⟩
    have chosen : ∀ arm ∈ arms,
        ∃ type, context.ArmHasType subjectType arm type ∧
        context.accepts type expected = true := by
      intro arm member
      rcases taken arm member with ⟨fits, other, type, walked', typed, accepted⟩
      cases Except.ok.inj (walked.symm.trans walked')
      exact ⟨type, ⟨fits, typed⟩, accepted⟩
    rcases exists_forall₂_iff.mpr chosen with ⟨types, both⟩
    have each := both.imp fun _ _ pair => pair.1
    have accepted : ∀ type ∈ types, context.accepts type expected = true := by
      intro type listed
      rcases exists_of_mem_right both listed with ⟨_, -, -, accepted⟩
      exact accepted
    refine ⟨expected, Ty.joinAll types, walked,
      outcome_infer_matching_iff.mpr ⟨subjectType, types, inspected, each, rfl⟩,
      ?_⟩
    exact (joinAll_accepts_iff orderly targetOrderly walked each).mpr accepted

end

end Context

/--
The rules of a transform whose types resolve in the program are checked in the
context, for the target.
-/
inductive Program.ChecksRules (config : Config) (program : Program) :
    Context → Ty → Prop where
  | body {declaration : TransformDeclaration} {signature : Signature}
      (resolved : program.names.signature declaration = .ok signature) :
      ChecksRules config program
        (Analysis.bodyContext config program.kind? declaration signature)
        signature.target

/--
The types that rules of a program come upon give schemas the number of arguments
that belongs to their names.
-/
theorem Program.ChecksRules.orderly {config : Config} {program : Program}
    {context : Context} {target : Ty}
    (checks : program.ChecksRules config context target) :
    context.Throughout (Ty.IsOrderly program.names.arity fun _ _ => True) ∧
      target.Throughout (Ty.IsOrderly program.names.arity fun _ _ => True) := by
  rcases checks with ⟨resolved⟩
  have types :=
    (Program.supplies_isOrderly program fun _ _ => True).signature resolved
  exact ⟨Program.orderly_bodyContext config resolved,
    types _ (List.mem_append_right _ List.mem_cons_self)⟩

/--
Unions and the types of branches are least upper bounds, for both settings of
the widening of numbers and for types in which schemas of one name have the same
number of arguments.  A union, the type of an `if` and the type of a `match` lie
below another type exactly when all members or branches do; without arms a
`match` has the least type.  A rule of a program takes an `if` or a `match` for
a field exactly when it takes each of the branches, given that the field is
there, that condition and subject have a type and that the patterns fit.
-/
theorem unions_and_branches :
    (∀ (widening : Bool) (members : List Ty) (sup : Ty),
      Ty.Coherent (sup :: members) →
      (Ty.isSubtype widening (Ty.unionOf members) sup = true ↔
        ∀ member ∈ members, Ty.isSubtype widening member sup = true)) ∧
    (∀ (context : Context) (span : Span)
      (condition thenBranch elseBranch : Expr)
        (conditionType thenType elseType : Ty),
      (context.infer condition).outcome = .ok conditionType →
      (context.infer thenBranch).outcome = .ok thenType →
      (context.infer elseBranch).outcome = .ok elseType →
      ∃ type,
        (context.infer (.conditional span condition thenBranch
          elseBranch)).outcome = .ok type ∧
        ∀ (widening : Bool) (sup : Ty), Ty.Coherent [sup, thenType, elseType] →
          (Ty.isSubtype widening type sup = true ↔
            Ty.isSubtype widening thenType sup = true ∧
              Ty.isSubtype widening elseType sup = true)) ∧
    (∀ (context : Context) (span : Span) (subject : Expr) (arms : List Arm)
      (subjectType : Ty) (types : List Ty),
      (context.infer subject).outcome = .ok subjectType →
      List.Forall₂ (context.ArmHasType subjectType) arms types →
      ∃ type, (context.infer (.matching span subject arms)).outcome = .ok type ∧
        (arms = [] → type = .never) ∧
        ∀ (widening : Bool) (sup : Ty), Ty.Coherent (sup :: types) →
          (Ty.isSubtype widening type sup = true ↔
            ∀ branch ∈ types, Ty.isSubtype widening branch sup = true)) ∧
    ∀ (config : Config) (program : Program) (context : Context) (target : Ty),
      program.ChecksRules config context target → ∀ (rule : Rule) (span : Span),
        (∀ condition thenBranch elseBranch : Expr,
          context.Takes target rule
            (.conditional span condition thenBranch elseBranch) ↔
            (∃ type, (context.infer condition).outcome = .ok type) ∧
              context.Takes target rule thenBranch ∧
              context.Takes target rule elseBranch) ∧
        ∀ (subject : Expr) (arms : List Arm),
          context.Takes target rule (.matching span subject arms) ↔
            (∃ expected, context.walk target rule.target = .ok expected) ∧
              ∃ subjectType, (context.infer subject).outcome = .ok subjectType ∧
                ∀ arm ∈ arms,
                  context.checkPattern subjectType arm.pattern = .ok () ∧
                  context.Takes target rule arm.body := by
  refine ⟨?unions, ?conditionals, ?matchings, ?rules⟩
  case unions =>
    intro widening members sup coherent
    rcases coherent.exists_respects with ⟨arity, respects⟩
    rw [List.forall_mem_cons] at respects
    exact Ty.unionOf_isSubtype_iff respects.2 respects.1
  case conditionals =>
    intro context span condition thenBranch elseBranch conditionType thenType
      elseType decided first second
    refine ⟨thenType.join elseType, Context.outcome_infer_conditional_iff.mpr
      ⟨⟨conditionType, decided⟩, thenType, elseType, first, second, rfl⟩,
        fun widening sup coherent => ?_⟩
    rcases coherent.exists_respects with ⟨arity, respects⟩
    simp only [List.forall_mem_cons] at respects
    exact Ty.join_isSubtype_iff respects.2.1 respects.2.2.1 respects.1
  case matchings =>
    intro context span subject arms subjectType types inspected each
    refine ⟨Ty.joinAll types,
      Context.outcome_infer_matching_iff.mpr ⟨subjectType, types, inspected,
        each, rfl⟩, ?_, fun widening sup coherent => ?_⟩
    · rintro rfl
      cases each
      rfl
    · rcases coherent.exists_respects with ⟨arity, respects⟩
      rw [List.forall_mem_cons] at respects
      exact Ty.joinAll_isSubtype_iff respects.2 respects.1
  case rules =>
    intro config program context target checks rule span
    rcases checks.orderly with ⟨orderly, targetOrderly⟩
    exact ⟨fun condition thenBranch elseBranch =>
      Context.takes_conditional_iff orderly targetOrderly,
        fun subject arms => Context.takes_matching_iff orderly targetOrderly⟩

/--
A transform that labels small parcels with a number and others with a text.
-/
def labelling : TransformDeclaration :=
  { name := "Labelling"
    sources := [{ type := .schemaName .unknown "Parcel" }]
    target := .schemaName .unknown "Tag"
    rules :=
      [{ target := [⟨"label", .unknown⟩]
         value :=
           .matching .unknown
             (.path .unknown .source [.field .unknown "size" false])
             [.mk .unknown (.variant .unknown none "small")
               (.literal .unknown (.int 1)),
               .mk .unknown (.wildcard .unknown)
                 (.literal .unknown (.string "many"))] }] }

def parcels : Program :=
  [.enumeration
    { name := "Size", variants := [⟨"small", .unknown⟩, ⟨"large", .unknown⟩] },
    .schema { name := "Parcel",
              fields :=
                [{ name := "size", type := .schemaName .unknown "Size" }] },
    .schema
      { name := "Tag"
        fields :=
          [{ name := "label",
             type :=
               .union .unknown
                 [.primitive .unknown .string, .primitive .unknown .int] }] },
    .transform labelling]

def parcelSignature : Signature :=
  { sources := [(none, .handle "Parcel" [])], target := .handle "Tag" [] }

/--
A label may be a text or a number, so a rule takes both arms and the `match` as
a whole.
-/
theorem unions_and_branches_parcels :
    Ty.isSubtype true
      (Ty.unionOf [.int, .union [.float, .int], .array (.handle "Tag" [])])
        (.union [.array .unknown, .float]) = true ∧
    ∃ context target, parcels.ChecksRules {} context target ∧
      (∃ type,
        (context.infer (.conditional .unknown (.literal .unknown (.bool true))
          (.literal .unknown (.int 1))
          (.literal .unknown (.string "many")))).outcome = .ok type ∧
        Ty.isSubtype false type (.union [.string, .int]) = true) ∧
      (∃ type,
        (context.infer (.matching .unknown (.literal .unknown (.bool true))
          [.mk .unknown (.literal .unknown (.bool false))
            (.literal .unknown (.int 1)),
            .mk .unknown (.wildcard .unknown)
              (.literal .unknown (.string "many"))])).outcome = .ok type ∧
        Ty.isSubtype false type (.union [.string, .int]) = true) ∧
      ∀ rule ∈ labelling.rules, context.Takes target rule rule.value := by
  rcases unions_and_branches with ⟨unions, conditionals, matchings, rules⟩
  let context := Analysis.bodyContext {} parcels.kind? labelling parcelSignature
  let target := parcelSignature.target
  have checks : parcels.ChecksRules {} context target := .body rfl
  refine ⟨(unions true _ _ (by decide)).mpr (by decide +kernel), context,
    target, checks, ?conditional, ?matching, ?rule⟩
  case conditional =>
    rcases conditionals context .unknown (.literal .unknown (.bool true))
      (.literal .unknown (.int 1)) (.literal .unknown (.string "many")) .bool
      .int .string rfl rfl rfl
      with ⟨type, inferred, below⟩
    exact ⟨type, inferred, (below false _ (by decide)).mpr (by decide +kernel)⟩
  case matching =>
    rcases matchings context .unknown (.literal .unknown (.bool true))
      [.mk .unknown (.literal .unknown (.bool false))
        (.literal .unknown (.int 1)),
        .mk .unknown (.wildcard .unknown) (.literal .unknown (.string "many"))]
        .bool [.int, .string]
      rfl (.cons ⟨rfl, rfl⟩ (.cons ⟨rfl, rfl⟩ .nil)) with
        ⟨type, inferred, -, below⟩
    exact ⟨type, inferred, (below false _ (by decide)).mpr (by decide +kernel)⟩
  case rule =>
    rw [labelling, List.forall_mem_singleton]
    have walked : (context.walk target [⟨"label", .unknown⟩]).toOption.any
        (fun expected =>
          context.accepts .int expected && context.accepts .string expected) =
          true := by
      decide +kernel
    have inspected :
        (context.infer (.path .unknown .source
          [.field .unknown "size" false])).outcome.toOption.any
        (fun type =>
          (context.checkPattern type
            (.variant .unknown none "small")).toOption == some ()) = true := by
      decide +kernel
    simp only [Option.any_eq_true, toOption_eq_some_iff, Bool.and_eq_true,
      beq_iff_eq] at walked inspected
    rcases walked with ⟨expected, walked, numbers, texts⟩
    rcases inspected with ⟨subjectType, inspected, fits⟩
    refine ((rules {} parcels _ _ checks _ .unknown).2 _ _).mpr
      ⟨⟨expected, walked⟩, subjectType, inspected, ?_⟩
    simp only [List.forall_mem_cons]
    exact ⟨⟨fits, Context.takes_iff.mpr ⟨expected, .int, walked, rfl, numbers⟩⟩,
      ⟨rfl, Context.takes_iff.mpr ⟨expected, .string, walked, rfl, texts⟩⟩,
      List.forall_mem_nil _⟩

end SchemaMap
