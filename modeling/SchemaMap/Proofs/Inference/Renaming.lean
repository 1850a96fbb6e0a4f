import SchemaMap.Proofs.Inference.Typing
import SchemaMap.Proofs.Ty.Renaming

/-!
# Typing under other numbers

The types of expressions follow a renaming of type variables: what has a type in
one environment has the renamed type in the renamed environment
(`HasType.renamed`).
-/

namespace SchemaMap

variable {rename : Nat → Nat}

theorem Ty.HasElement.renamed {type element : Ty}
    (elements : type.HasElement element) :
    (type.renamed rename).HasElement (element.renamed rename) := by
  cases elements with
  | array => exact .array
  | unknown => exact .unknown

namespace Ty

theorem isQuantity_renamed_iff {type : Ty} :
    (type.renamed rename).IsQuantity ↔ type.IsQuantity := by
  cases type <;> simp [IsQuantity, renamed]

theorem Enters.renamed {optional : Bool} {start base : Ty}
    (enters : start.Enters optional base) :
    (start.renamed rename).Enters optional (base.renamed rename) := by
  cases optional with
  | false => rw [enters_false_iff.mp enters]; exact .unmarked
  | true => rw [enters_true_iff, present_renamed, enters_true_iff.mp enters]

theorem Ends.renamed {marked : Bool} {last type : Ty}
    (ends : last.Ends marked type) :
    (last.renamed rename).Ends marked (type.renamed rename) := by
  cases ends with
  | unmarked => exact .unmarked
  | marked wrapped =>
      apply Ends.marked
      rw [wraps_iff, optionalOf_renamed, wraps_iff.mp wrapped]

theorem Joins.renamed (injective : Function.Injective rename)
    {left right type : Ty} (joins : left.Joins right type) :
    (left.renamed rename).Joins (right.renamed rename)
      (type.renamed rename) := by
  rw [joins_iff, join_renamed injective, joins_iff.mp joins]

theorem JoinsAll.renamed (injective : Function.Injective rename)
    {types : List Ty} {type : Ty} (joins : JoinsAll types type) :
    JoinsAll (types.map (Ty.renamed rename)) (type.renamed rename) := by
  rw [joinsAll_iff, joinAll_renamed injective, joinsAll_iff.mp joins]

end Ty

theorem Literal.HasType.renamed {value : Literal} {type : Ty}
    (constant : value.HasType type) : value.HasType (type.renamed rename) := by
  cases constant <;> constructor

theorem UnaryOperator.Yields.renamed {operator : UnaryOperator}
    {operand type : Ty} (yields : operator.Yields operand type) :
    operator.Yields (operand.renamed rename) (type.renamed rename) := by
  cases yields <;> constructor

theorem Aggregate.Yields.renamed {function : Aggregate} {source body type : Ty}
    (yields : function.Yields source body type) :
    function.Yields (source.renamed rename) (body.renamed rename)
      (type.renamed rename) := by
  cases yields <;> constructor

/-- Operators yield the renamed type from renamed ones. -/
theorem Operator.Yields.renamed {operator : Operator} {left right type : Ty}
    (yields : operator.Yields left right type) :
    operator.Yields (left.renamed rename) (right.renamed rename)
      (type.renamed rename) := by
  cases yields with
  | quantities additive agree => exact .quantities additive agree
  | additive additive apart =>
      refine .additive additive ?_
      rwa [Ty.isQuantity_renamed_iff, Ty.isQuantity_renamed_iff]
  | product multiplies combined => exact .product multiplies combined
  | quotient divides combined => exact .quotient divides combined
  | multiplicative multiplicative apart =>
      refine .multiplicative multiplicative ?_
      rwa [Ty.isQuantity_renamed_iff, Ty.isQuantity_renamed_iff]
  | comparison compares => exact .comparison compares
  | logical connects => exact .logical connects
  | coalescing replaces => exact .coalescing replaces

namespace Environment

/--
The second environment is the first one with other numbers for type variables.
-/
structure Renames (rename : Nat → Nat) (environment other : Environment) :
    Prop where
  config : other.config = environment.config
  kind : ∀ name kind, environment.kind name kind →
    other.kind name (kind.renamed rename)
  source : other.source = environment.source.renamed rename
  scope : other.scope = environment.scope.map (Prod.map id (Ty.renamed rename))

namespace Renames

variable {environment other : Environment}

theorem bind (renames : Renames rename environment other)
    (bound : List (String × Ty)) :
    Renames rename (environment.bind bound)
      (other.bind (bound.map (Prod.map id (Ty.renamed rename)))) where
  config := renames.config
  kind := renames.kind
  source := renames.source
  scope := by
    rw [Environment.bind, Environment.bind, List.map_append, renames.scope]

theorem accepts (renames : Renames rename environment other)
    (injective : Function.Injective rename) {found expected : Ty}
    (accepted : environment.Accepts found expected) :
    other.Accepts (found.renamed rename) (expected.renamed rename) := by
  rw [Accepts, renames.config, Ty.isSubtype_renamed injective]
  exact accepted

theorem hasField (renames : Renames rename environment other) {base type : Ty}
    {field : String} (has : environment.HasField base field type) :
    other.HasField (base.renamed rename) field (type.renamed rename) := by
  cases has with
  | @schema name _ arguments _ _ schema _ written known found =>
      have renamedFound : (schema.renamed rename).fields.lookup field =
          some (written.renamed rename) := by
        show (schema.fields.map (Prod.map id (Ty.renamed rename))).lookup
            field = _
        rw [lookup_map_snd, found]
        rfl
      have renamed := Ty.renamesBindings_zip rename schema.parameters arguments
      rw [Ty.renamed, Ty.renamedAll_eq_map, ← Ty.substitute_renamed renamed]
      exact @HasField.schema other name field _ _ _ (schema.renamed rename) _ _
        (renames.kind _ _ known) renamedFound
  | unknown => exact .unknown

theorem leads (renames : Renames rename environment other) {base type : Ty}
    {names : List (Located String)}
    (walked : environment.Leads base names type) :
    other.Leads (base.renamed rename) names (type.renamed rename) := by
  induction walked with
  | here => exact .here
  | step first _ ih => exact .step (renames.hasField first) ih

theorem hasRoot (renames : Renames rename environment other) {root : PathRoot}
    {type : Ty} (starts : environment.HasRoot root type) :
    other.HasRoot root (type.renamed rename) := by
  cases starts with
  | source =>
      rw [← renames.source]
      exact .source
  | named bound =>
      apply HasRoot.named
      rw [renames.scope, lookup_map_snd, bound]
      rfl

theorem fits (renames : Renames rename environment other) {subject : Ty}
    {pattern : Pattern} (fitting : environment.Fits subject pattern) :
    other.Fits (subject.renamed rename) pattern := by
  cases fitting with
  | wildcard => exact .wildcard
  | literal => exact .literal
  | variant enumeration own known member =>
      exact .variant enumeration.renamed own (renames.kind _ _ known) member
  | unknown unknown => exact .unknown unknown.renamed

end Renames

end Environment

mutual

/-- The type of an expression follows a renaming of type variables. -/
theorem HasType.renamed (injective : Function.Injective rename) :
    (expression : Expr) →
    {environment other : Environment} → {type : Ty} →
    Environment.Renames rename environment other →
    HasType environment expression type →
    HasType other expression (type.renamed rename)
  | .literal _ _, _, _, _, _, .literal constant => .literal constant.renamed
  | .path _ _ segments, _, _, _, renames, .path starts walks ends =>
      .path (renames.hasRoot starts)
        (Walks.renamed injective segments renames walks)
        ends.renamed
  | .binary _ left _ right, _, _, _, renames, .binary first second yields =>
      .binary (HasType.renamed injective left renames first)
        (HasType.renamed injective right renames second) yields.renamed
  | .unary _ _ operand, _, _, _, renames, .unary inner yields =>
      .unary (HasType.renamed injective operand renames inner) yields.renamed
  | .conditional _ condition thenBranch elseBranch, _, _, _, renames,
      .conditional decided first second joins =>
      .conditional (HasType.renamed injective condition renames decided)
        (HasType.renamed injective thenBranch renames first)
        (HasType.renamed injective elseBranch renames second)
          (joins.renamed injective)
  | .matching _ subject arms, _, _, _, renames,
      .matching inspected each joins =>
      .matching (HasType.renamed injective subject renames inspected)
        (ArmsHaveTypes.renamed injective arms renames each)
        (joins.renamed injective)
  | .lambda _ parameters body, _, _, _, renames, .lambda distinct inner => by
      have bound :=
        renames.bind
          (parameters.map fun parameter => (parameter.value, .unknown))
      rw [List.map_map] at bound
      have typed := HasType.renamed injective body bound inner
      rw [Ty.renamed, Ty.renamedAll_eq_map, List.map_map]
      exact .lambda distinct typed
  | .aggregate _ _ source, _, _, _, renames,
      .aggregate collection elements yields =>
      .aggregate (HasType.renamed injective source renames collection)
        elements.renamed
        yields.renamed
  | .aggregateWith _ _ source _ [_] body, _, _, _, renames,
      .aggregateWith collection elements inner yields =>
      .aggregateWith (HasType.renamed injective source renames collection)
        elements.renamed
        (HasType.renamed injective body (renames.bind _) inner) yields.renamed
  | .lookup _ _ keys, _, _, _, renames, .lookup known each strict => by
      refine .lookup (renames.kind _ _ known)
        (HaveTypes.renamed injective keys renames each) ?_
      intro checked
      rw [List.forall₂_map_left_iff, List.forall₂_map_right_iff]
      rw [renames.config] at checked
      exact (strict checked).imp fun _ _ accepted =>
        renames.accepts injective accepted
termination_by structural expression => expression

theorem Walks.renamed (injective : Function.Injective rename) :
    (segments : List Segment) →
    {environment other : Environment} → {start last : Ty} → {marked : Bool} →
    Environment.Renames rename environment other →
    Walks environment start segments last marked →
    Walks other (start.renamed rename) segments (last.renamed rename) marked
  | [], _, _, _, _, _, _, .here => .here
  | .field _ _ _ :: rest, _, _, _, _, _, renames, .field enters first further =>
      .field enters.renamed (renames.hasField first)
        (Walks.renamed injective rest renames further)
  | .index _ position _ :: rest, _, _, _, _, _, renames,
      .index enters placed first further =>
      .index enters.renamed (HasType.renamed injective position renames placed)
        first.renamed (Walks.renamed injective rest renames further)
termination_by structural segments => segments

theorem ArmsHaveTypes.renamed (injective : Function.Injective rename) :
    (arms : List Arm) →
    {environment other : Environment} → {subject : Ty} → {types : List Ty} →
    Environment.Renames rename environment other →
    ArmsHaveTypes environment subject arms types →
    ArmsHaveTypes other (subject.renamed rename) arms
      (types.map (Ty.renamed rename))
  | [], _, _, _, _, _, .nil => .nil
  | .mk _ _ body :: rest, _, _, _, _, renames, .cons fits first further =>
      .cons (renames.fits fits) (HasType.renamed injective body renames first)
        (ArmsHaveTypes.renamed injective rest renames further)
termination_by structural arms => arms

/-- Expressions have the renamed types after renaming. -/
theorem HaveTypes.renamed (injective : Function.Injective rename) :
    (expressions : List Expr) →
    {environment other : Environment} → {types : List Ty} →
    Environment.Renames rename environment other →
    HaveTypes environment expressions types →
    HaveTypes other expressions (types.map (Ty.renamed rename))
  | [], _, _, _, _, .nil => .nil
  | expression :: rest, _, _, _, renames, .cons first further =>
      .cons (HasType.renamed injective expression renames first)
        (HaveTypes.renamed injective rest renames further)
termination_by structural expressions => expressions

end

/-- A rule that fits its target fits the renamed target. -/
theorem Rule.Fits.renamed (injective : Function.Injective rename)
    {environment other : Environment}
    (renames : environment.Renames rename other) {target : Ty} {rule : Rule}
    (fits : rule.Fits environment target) :
    rule.Fits other (target.renamed rename) := by
  rcases fits with ⟨expected, found, leads, typed, accepted⟩
  exact ⟨_, _, renames.leads leads, typed.renamed injective rule.value renames,
    renames.accepts injective accepted⟩

end SchemaMap
