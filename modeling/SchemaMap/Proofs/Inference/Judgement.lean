import SchemaMap.Inference.Basic
import SchemaMap.Proofs.Resolution

/-!
# Typing rules

`HasType` gives the type of an expression by rules, without a table, a trace or
an order of evaluation.  Each kind of constant, operator and aggregate has a
rule of its own, and so has each way to step along a path.

An environment says what declared names stand for, what the source of the
transform is, and which variables are in reach: the parameters of the enclosing
lambdas, innermost first, and then the named sources.
-/

namespace SchemaMap

/-- The type of a constant; `null` goes wherever a value is expected. -/
inductive Literal.HasType : Literal → Ty → Prop where
  | int {value : Int} : HasType (.int value) (.primitive .int)
  | float {value : Float} : HasType (.float value) (.primitive .float)
  | string {value : String} : HasType (.string value) (.primitive .string)
  | bool {value : Bool} : HasType (.bool value) (.primitive .bool)
  | null : HasType .null .never

/-- The type of an operator before an operand. -/
inductive UnaryOperator.Yields : UnaryOperator → Ty → Ty → Prop where
  | not {operand : Ty} : Yields .not operand (.primitive .bool)
  | negate {operand : Ty} : Yields .negate operand operand

/--
The type of an aggregate, given those of its source and of what is taken from
each element.
-/
inductive Aggregate.Yields (source body : Ty) : Aggregate → Ty → Prop where
  | sum : Yields source body .sum body
  | average : Yields source body .average body
  | maximum : Yields source body .maximum body
  | minimum : Yields source body .minimum body
  | count : Yields source body .count (.primitive .int)
  | collect : Yields source body .collect (.array body)
  | filter : Yields source body .filter source

namespace Ty

def IsQuantity (type : Ty) : Prop :=
  ∃ unit, type = .quantity unit

/-- The type of the elements of a value. -/
inductive HasElement : Ty → Ty → Prop where
  | array {element : Ty} : HasElement (.array element) element
  | unknown : HasElement .unknown .unknown

/--
What a step of a path starts from: a question mark leaves a missing value aside.
-/
inductive Enters : Bool → Ty → Ty → Prop where
  | unmarked {type : Ty} : Enters false type type
  | optional {inner : Ty} : Enters true (.optional inner) inner
  | present {type : Ty} (there : ∀ inner, type ≠ .optional inner) :
      Enters true type type

/--
The type of a whole path, which is optional if a step has a question mark.
-/
inductive Ends : Bool → Ty → Ty → Prop where
  | unmarked {type : Ty} : Ends false type type
  | marked {type result : Ty} (wrapped : type.Wraps result) :
      Ends true type result

/-- The type of a value that has one of two types. -/
inductive Joins (left right : Ty) : Ty → Prop where
  | same (equals : equal left right = true) : Joins left right left
  | union (differs : equal left right = false) :
      Joins left right (unionOf [left, right])

/--
The type of a value that has the first type or one of the others, joined from
the left.
-/
inductive JoinsOnto : Ty → List Ty → Ty → Prop where
  | nil {type : Ty} : JoinsOnto type [] type
  | cons {left right joined type : Ty} {rest : List Ty}
      (first : Joins left right joined) (further : JoinsOnto joined rest type) :
      JoinsOnto left (right :: rest) type

/-- The type of a value that has one of the given types. -/
inductive JoinsAll : List Ty → Ty → Prop where
  | nil : JoinsAll [] .never
  | cons {first type : Ty} {rest : List Ty}
      (joined : JoinsOnto first rest type) :
      JoinsAll (first :: rest) type

end Ty

/--
The type of an operator between operands of two types.  Quantities are added in
the same dimensions only; their products and quotients have units of their own.
-/
inductive Operator.Yields (operator : Operator) : Ty → Ty → Ty → Prop where
  | quantities {left right : PhysicalUnit} (additive : operator ∈ [plus, minus])
      (agree : left.dimensions = right.dimensions) :
      Yields operator (.quantity left) (.quantity right) (.quantity left)
  | additive {left right : Ty} (additive : operator ∈ [plus, minus])
      (apart : ¬ (left.IsQuantity ∧ right.IsQuantity)) :
      Yields operator left right left
  | product {left right unit : PhysicalUnit} (multiplies : operator = star)
      (combined : left.multiply? right = some unit) :
      Yields operator (.quantity left) (.quantity right) (.quantity unit)
  | quotient {left right unit : PhysicalUnit} (divides : operator = slash)
      (combined : left.divide? right = some unit) :
      Yields operator (.quantity left) (.quantity right) (.quantity unit)
  | multiplicative {left right : Ty} (multiplicative : operator ∈ [star, slash])
      (apart : ¬ (left.IsQuantity ∧ right.IsQuantity)) :
      Yields operator left right left
  | comparison {left right : Ty}
      (compares : operator ∈
        [equal, notEqual, less, lessEqual, greater, greaterEqual]) :
      Yields operator left right (.primitive .bool)
  -- `bang` is never written between operands, but would be logical there too.
  | logical {left right : Ty} (connects : operator ∈ [and, or, bang]) :
      Yields operator left right (.primitive .bool)
  | coalescing {left right : Ty} (replaces : operator = coalesce) :
      Yields operator left right right

/-- What the type of an expression depends on. -/
structure Environment where
  config : Config
  kind : String → Kind → Prop
  source : Ty
  scope : List (String × Ty)

namespace Environment

/-- The environment inside a lambda with the given parameters. -/
def bind (environment : Environment) (bound : List (String × Ty)) :
    Environment :=
  { environment with scope := bound ++ environment.scope }

/-- Whether a value of the first type may stand where the second is expected. -/
def Accepts (environment : Environment) (found expected : Ty) : Prop :=
  Ty.isSubtype environment.config.numericWidening found expected = true

/--
The type of a field of a value: a schema's parameters are replaced by the
arguments.
-/
inductive HasField (environment : Environment) : Ty → String → Ty → Prop where
  | schema {name field : String} {arguments : List Ty}
      {parameters : List String} {fields : List (String × Ty)} {schema : Schema}
      {parent : Option String} {written : Ty}
      (known : environment.kind name (.schema schema parent))
      (found : schema.fields.lookup field = some written) :
      HasField environment (.schema name arguments parameters fields) field
        (written.substitute (.ofList (schema.parameters.zip arguments)))
  | unknown {field : String} : HasField environment .unknown field .unknown

/-- A walk through fields leads from one type to another. -/
inductive Leads (environment : Environment) :
    Ty → List (Located String) → Ty → Prop where
  | here {type : Ty} : Leads environment type [] type
  | step {base type result : Ty} {field : Located String}
      {rest : List (Located String)}
      (first : environment.HasField base field.value type)
      (further : Leads environment type rest result) :
      Leads environment base (field :: rest) result

/-- The type at the start of a path. -/
inductive HasRoot (environment : Environment) : PathRoot → Ty → Prop where
  | source : HasRoot environment .source environment.source
  | named {name : String} {type : Ty}
      (bound : environment.scope.lookup name = some type) :
      HasRoot environment (.named name) type

/--
A pattern fits a subject: a variant must be one of the subject's enumeration.
-/
inductive Fits (environment : Environment) (subject : Ty) : Pattern → Prop where
  | wildcard {span : Span} : Fits environment subject (.wildcard span)
  | literal {span : Span} {value : Literal} :
      Fits environment subject (.literal span value)
  | variant {span : Span} {owner : Option String} {name choice : String}
      {shown variants : List String}
      (enumeration : subject.Enters true (.enumeration name shown))
      (own : ∀ written, owner = some written → written = name)
      (known : environment.kind name (.enumeration variants))
      (member : choice ∈ variants) :
      Fits environment subject (.variant span owner choice)
  | unknown {span : Span} {owner : Option String} {choice : String}
      (unknown : subject.Enters true .unknown) :
      Fits environment subject (.variant span owner choice)

end Environment

mutual

/-- The type of an expression. -/
inductive HasType : Environment → Expr → Ty → Prop where
  | literal {environment : Environment} {span : Span} {value : Literal}
      {type : Ty} (constant : value.HasType type) :
      HasType environment (.literal span value) type
  | path {environment : Environment} {span : Span} {root : PathRoot}
      {segments : List Segment} {start last type : Ty} {marked : Bool}
      (starts : environment.HasRoot root start)
      (walks : Walks environment start segments last marked)
      (ends : last.Ends marked type) :
      HasType environment (.path span root segments) type
  | binary {environment : Environment} {span : Span} {left right : Expr}
      {operator : Operator} {leftType rightType type : Ty}
      (first : HasType environment left leftType)
      (second : HasType environment right rightType)
      (yields : operator.Yields leftType rightType type) :
      HasType environment (.binary span left operator right) type
  | unary {environment : Environment} {span : Span} {operator : UnaryOperator}
      {operand : Expr} {operandType type : Ty}
      (inner : HasType environment operand operandType)
      (yields : operator.Yields operandType type) :
      HasType environment (.unary span operator operand) type
  | conditional {environment : Environment} {span : Span}
      {condition thenBranch elseBranch : Expr}
      {conditionType thenType elseType type : Ty}
      (decided : HasType environment condition conditionType)
      (first : HasType environment thenBranch thenType)
      (second : HasType environment elseBranch elseType)
      (joins : thenType.Joins elseType type) :
      HasType environment (.conditional span condition thenBranch elseBranch)
        type
  | matching {environment : Environment} {span : Span} {subject : Expr}
      {arms : List Arm} {subjectType type : Ty} {types : List Ty}
      (inspected : HasType environment subject subjectType)
      (each : ArmsHaveTypes environment subjectType arms types)
      (joins : Ty.JoinsAll types type) :
      HasType environment (.matching span subject arms) type
  | lambda {environment : Environment} {span : Span}
      {parameters : List (Located String)} {body : Expr} {type : Ty}
      (distinct : (parameters.map Located.value).Nodup)
      (inner : HasType
        (environment.bind
          (parameters.map fun parameter => (parameter.value, .unknown)))
        body type) :
      HasType environment (.lambda span parameters body)
        (.function (parameters.map fun _ => .unknown) type)
  -- Without a lambda an aggregate takes the elements as they are.
  | aggregate {environment : Environment} {span : Span} {function : Aggregate}
      {source : Expr} {sourceType element type : Ty}
      (collection : HasType environment source sourceType)
      (elements : sourceType.HasElement element)
      (yields : function.Yields sourceType element type) :
      HasType environment (.aggregate span function source) type
  | aggregateWith {environment : Environment} {span lambdaSpan : Span}
      {function : Aggregate} {source body : Expr} {parameter : Located String}
      {sourceType element bodyType type : Ty}
      (collection : HasType environment source sourceType)
      (elements : sourceType.HasElement element)
      (inner : HasType (environment.bind [(parameter.value, element)]) body
        bodyType)
      (yields : function.Yields sourceType bodyType type) :
      HasType environment
        (.aggregateWith span function source lambdaSpan [parameter] body) type
  | lookup {environment : Environment} {span : Span} {table : Located String}
      {keys : List Expr} {expected found : List Ty} {value : Ty}
      (known : environment.kind table.value (.lookup expected value))
      (each : HaveTypes environment keys found)
      (strict : environment.config.strictLookupKeys = true →
        List.Forall₂ environment.Accepts found expected) :
      HasType environment (.lookup span table keys) value

/--
Where a walk through the steps of a path ends, and whether one of them has a
question mark.
-/
inductive Walks : Environment → Ty → List Segment → Ty → Bool → Prop where
  | here {environment : Environment} {type : Ty} :
      Walks environment type [] type false
  | field {environment : Environment} {start base type last : Ty} {span : Span}
      {name : String} {optional marked : Bool} {rest : List Segment}
      (enters : start.Enters optional base)
      (first : environment.HasField base name type)
      (further : Walks environment type rest last marked) :
      Walks environment start (.field span name optional :: rest) last
        (optional || marked)
  | index {environment : Environment} {start base positionType type last : Ty}
      {span : Span} {position : Expr} {optional marked : Bool}
      {rest : List Segment} (enters : start.Enters optional base)
      (placed : HasType environment position positionType)
      (first : base.HasElement type)
      (further : Walks environment type rest last marked) :
      Walks environment start (.index span position optional :: rest) last
        (optional || marked)

/-- The types of the arms of a `match`, whose patterns fit the subject. -/
inductive ArmsHaveTypes : Environment → Ty → List Arm → List Ty → Prop where
  | nil {environment : Environment} {subject : Ty} :
      ArmsHaveTypes environment subject [] []
  | cons {environment : Environment} {subject type : Ty} {span : Span}
      {pattern : Pattern} {body : Expr} {rest : List Arm} {types : List Ty}
      (fits : environment.Fits subject pattern)
      (first : HasType environment body type)
      (further : ArmsHaveTypes environment subject rest types) :
      ArmsHaveTypes environment subject (.mk span pattern body :: rest)
        (type :: types)

/-- The types of some expressions. -/
inductive HaveTypes : Environment → List Expr → List Ty → Prop where
  | nil {environment : Environment} : HaveTypes environment [] []
  | cons {environment : Environment} {expression : Expr} {type : Ty}
      {rest : List Expr} {types : List Ty}
      (first : HasType environment expression type)
      (further : HaveTypes environment rest types) :
      HaveTypes environment (expression :: rest) (type :: types)

end

theorem HaveTypes.length_eq {environment : Environment}
    {expressions : List Expr} {types : List Ty}
    (each : HaveTypes environment expressions types) :
    expressions.length = types.length := by
  induction expressions generalizing types with
  | nil =>
      cases each
      rfl
  | cons expression rest ih =>
      cases each with
      | cons first further =>
          rw [List.length_cons, List.length_cons, ih further]

/--
A rule fits its target: the value's type is accepted by the field that the rule
names.
-/
def Rule.Fits (environment : Environment) (target : Ty) (rule : Rule) : Prop :=
  ∃ expected found, environment.Leads target rule.target expected ∧
    HasType environment rule.value found ∧ environment.Accepts found expected

/-! ## The rules as functions

Each rule that looks at types alone is met by one of the functions that
inference uses.
-/

namespace Ty

theorem enters_false_iff {start base : Ty} :
    start.Enters false base ↔ start = base := by
  constructor
  · rintro ⟨⟩
    rfl
  · rintro rfl
    exact .unmarked

/-- A question mark enters what is there of a value. -/
theorem enters_true_iff {start base : Ty} :
    start.Enters true base ↔ start.present = base := by
  constructor
  · intro enters
    cases enters with
    | optional => rfl
    | present there =>
        cases start with
        | optional inner => exact absurd rfl (there inner)
        | _ => rfl
  · rintro rfl
    cases start with
    | optional inner => exact .optional
    | _ => exact .present (by simp)

theorem joins_iff {left right type : Ty} :
    left.Joins right type ↔ left.join right = type := by
  rw [join]
  constructor
  · rintro (equals | differs)
    · exact if_pos equals
    · exact if_neg (by simp [differs])
  · rintro rfl
    split
    · next equals => exact .same equals
    · next differs => exact .union (by simpa using differs)

theorem joinsOnto_iff {first type : Ty} {rest : List Ty} :
    first.JoinsOnto rest type ↔ rest.foldl join first = type := by
  induction rest generalizing first with
  | nil =>
      constructor
      · rintro ⟨⟩
        rfl
      · rintro rfl
        exact .nil
  | cons second rest ih =>
      rw [List.foldl_cons, ← ih]
      constructor
      · intro joins
        cases joins with
        | cons joined further =>
            rw [joins_iff.mp joined]
            exact further
      · intro further
        exact .cons (joins_iff.mpr rfl) further

/-- Joining several types by rule is what is computed. -/
theorem joinsAll_iff {types : List Ty} {type : Ty} :
    JoinsAll types type ↔ joinAll types = type := by
  cases types with
  | nil =>
      constructor
      · rintro ⟨⟩
        rfl
      · rintro rfl
        exact .nil
  | cons first rest =>
      rw [joinAll, ← joinsOnto_iff]
      constructor
      · rintro ⟨⟩
        assumption
      · exact .cons

end Ty

namespace Walk

/-- A segment is entered by rule as it is computed. -/
theorem enters_iff {walk : Walk} {optional : Bool} {base : Ty} :
    walk.type.Enters optional base ↔ (walk.enter optional).type = base := by
  cases optional with
  | false => exact Ty.enters_false_iff
  | true => exact Ty.enters_true_iff

theorem chained_enter (walk : Walk) (optional : Bool) :
    (walk.enter optional).chained = (optional || walk.chained) := by
  cases optional <;> rfl

theorem ends_iff {walk : Walk} {type : Ty} :
    walk.type.Ends walk.chained type ↔ walk.result = type := by
  rcases walk with ⟨last, chained⟩
  cases chained with
  | false =>
      constructor
      · rintro ⟨⟩
        rfl
      · rintro rfl
        exact .unmarked
  | true =>
      constructor
      · rintro ⟨⟩
        exact Ty.wraps_iff.mp (by assumption)
      · intro wrapped
        exact .marked (Ty.wraps_iff.mpr wrapped)

end Walk

namespace Operator

variable {operator : Operator}

theorem category_eq_additive_iff :
    operator.category = .additive ↔ operator ∈ [plus, minus] := by
  cases operator <;> decide

theorem category_eq_multiplicative_iff :
    operator.category = .multiplicative ↔ operator ∈ [star, slash] := by
  cases operator <;> decide

theorem category_eq_comparison_iff :
    operator.category = .comparison ↔
      operator ∈ [equal, notEqual, less, lessEqual, greater, greaterEqual] := by
  cases operator <;> decide

theorem category_eq_logical_iff :
    operator.category = .logical ↔ operator ∈ [and, or, bang] := by
  cases operator <;> decide

theorem category_eq_coalescing_iff :
    operator.category = .coalescing ↔ operator = coalesce := by
  cases operator <;> decide

end Operator

namespace Context

theorem literalType_eq_iff {value : Literal} {type : Ty} :
    literalType value = type ↔ value.HasType type := by
  constructor
  · rintro rfl
    cases value <;> constructor
  · intro constant
    cases constant <;> rfl

/-- A unary operator yields the computed type by rule. -/
theorem unaryType_eq_iff {operator : UnaryOperator} {operand type : Ty} :
    unaryType operator operand = type ↔ operator.Yields operand type := by
  constructor
  · rintro rfl
    cases operator <;> constructor
  · intro yields
    cases yields <;> rfl

/-- An aggregate yields the computed type by rule. -/
theorem aggregateType_eq_iff {function : Aggregate} {source body type : Ty} :
    aggregateType function source body = type ↔
      function.Yields source body type := by
  constructor
  · rintro rfl
    cases function <;> constructor
  · intro yields
    cases yields <;> rfl

theorem elementType_eq_ok_iff {base type : Ty} {span : Span} :
    elementType base span = .ok type ↔ base.HasElement type := by
  constructor
  · intro found
    unfold elementType at found
    split at found
    · cases found
      exact .array
    · cases found
      exact .unknown
    · contradiction
  · rintro (_ | _) <;> rfl

theorem aggregateElement_eq_ok_iff {function : Aggregate} {source type : Ty}
    {span : Span} :
    aggregateElement function source span = .ok type ↔
      source.HasElement type := by
  rw [← @elementType_eq_ok_iff source type span]
  cases source <;> simp [aggregateElement, elementType]

/-- Two types that are not matched as quantities are not both quantities. -/
theorem not_isQuantity_and {left right : Ty}
    (apart : ∀ leftUnit rightUnit, left = .quantity leftUnit →
      right = .quantity rightUnit → False) :
    ¬ (left.IsQuantity ∧ right.IsQuantity) := by
  rintro ⟨⟨first, rfl⟩, second, rfl⟩
  exact apart first second rfl rfl

/-- Operators between operands are typed as the rules say. -/
theorem binaryType_eq_ok_iff {operator : Operator} {left right type : Ty}
    {span : Span} :
    binaryType operator left right span = .ok type ↔
      operator.Yields left right type := by
  constructor
  · intro found
    unfold binaryType at found
    split at found
    · next additive =>
        rw [Operator.category_eq_additive_iff] at additive
        split at found
        · split at found
          · next agree =>
              cases found
              exact .quantities additive (of_decide_eq_true agree)
          · contradiction
        · next apart =>
            cases found
            exact .additive additive (not_isQuantity_and apart)
    · next multiplicative =>
        rw [Operator.category_eq_multiplicative_iff] at multiplicative
        split at found
        · simp only at found
          split at found
          · next combined =>
              cases found
              split at combined
              · next divides => exact .quotient divides combined
              · next apart =>
                  refine .product ?_ combined
                  simpa [apart] using multiplicative
          · contradiction
        · next apart =>
            cases found
            exact .multiplicative multiplicative (not_isQuantity_and apart)
    · next comparison =>
        cases found
        exact .comparison (Operator.category_eq_comparison_iff.mp comparison)
    · next logical =>
        cases found
        exact .logical (Operator.category_eq_logical_iff.mp logical)
    · next coalescing =>
        cases found
        exact .coalescing (Operator.category_eq_coalescing_iff.mp coalescing)
  · intro yields
    unfold binaryType
    cases yields with
    | quantities additive agree =>
        simp [Operator.category_eq_additive_iff.mpr additive,
          PhysicalUnit.agrees, agree]
    | additive additive apart =>
        simp only [Operator.category_eq_additive_iff.mpr additive]
        split
        · exact absurd ⟨⟨_, rfl⟩, _, rfl⟩ apart
        · rfl
    | product multiplies combined =>
        subst multiplies
        simp [Operator.category, Operator.entry, combined]
    | quotient divides combined =>
        subst divides
        simp [Operator.category, Operator.entry, combined]
    | multiplicative multiplicative apart =>
        simp only [Operator.category_eq_multiplicative_iff.mpr multiplicative]
        split
        · exact absurd ⟨⟨_, rfl⟩, _, rfl⟩ apart
        · rfl
    | comparison compares =>
        simp only [Operator.category_eq_comparison_iff.mpr compares]
        rfl
    | logical connects =>
        simp only [Operator.category_eq_logical_iff.mpr connects]
        rfl
    | coalescing replaces =>
        simp only [Operator.category_eq_coalescing_iff.mpr replaces]

end Context

end SchemaMap
