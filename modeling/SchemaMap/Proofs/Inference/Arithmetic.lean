import SchemaMap.Proofs.Exponents
import SchemaMap.Proofs.Inference.Typing

/-!
# Dimensions of arithmetic

The type of an arithmetic expression over quantities is found from the inside
out, one operator at a time, and each operator looks at the units of its two
operands only.  `infer_arithmetic` says what this amounts to for expressions of
any depth: a type is found exactly when every operator can join its operands,
and the exponents of the result are those that the expression has as an
expression over vectors of whole numbers.
-/

namespace SchemaMap

/-- The operators between two quantities that give a quantity. -/
inductive ArithmeticOperator where
  | plus
  | minus
  | star
  | slash

namespace ArithmeticOperator

/-- The operator as it is written. -/
def operator : ArithmeticOperator → Operator
  | .plus => .plus
  | .minus => .minus
  | .star => .star
  | .slash => .slash

/--
The exponent of the result, from those of the operands; sums and differences
keep the one that both have.
-/
def combine : ArithmeticOperator → Int → Int → Int
  | .plus, left, _ => left
  | .minus, left, _ => left
  | .star, left, right => left + right
  | .slash, left, right => left - right

/-- The operator is defined between quantities of the two units. -/
def Joins : ArithmeticOperator → PhysicalUnit → PhysicalUnit → Prop
  | .plus, left, right => ∀ name, left.exponent name = right.exponent name
  | .minus, left, right => ∀ name, left.exponent name = right.exponent name
  | .star, left, right => (left.multiply? right).isSome
  | .slash, left, right => (left.divide? right).isSome

/--
The operator is defined between quantities whose units have the given exponents.
-/
def JoinsExponents : ArithmeticOperator → (String → Int) → (String → Int) → Prop
  | .plus, left, right => ∀ name, left name = right name
  | .minus, left, right => ∀ name, left name = right name
  | .star, left, right => ∀ name, Representable (left name + right name)
  | .slash, left, right =>
      ∀ name, Representable (-right name) ∧
        Representable (left name - right name)

/-- Whether an operator is defined is a matter of the exponents. -/
theorem joins_iff_joinsExponents {operator : ArithmeticOperator}
    {left right : PhysicalUnit} :
    operator.Joins left right ↔
      operator.JoinsExponents left.exponent right.exponent := by
  cases operator with
  | plus => exact Iff.rfl
  | minus => exact Iff.rfl
  | star =>
      have undefined :=
        not_congr (@PhysicalUnit.multiply?_eq_none_iff left right)
      simpa [Joins, JoinsExponents, Option.isSome_iff_ne_none] using undefined
  | slash =>
      have undefined := not_congr (@PhysicalUnit.divide?_eq_none_iff left right)
      simpa [Joins, JoinsExponents, Option.isSome_iff_ne_none, not_or] using
        undefined

/-- The unit of the result; sums and differences keep the unit on the left. -/
def result? :
    ArithmeticOperator → PhysicalUnit → PhysicalUnit → Option PhysicalUnit
  | .plus, left, right => if left.agrees right then some left else none
  | .minus, left, right => if left.agrees right then some left else none
  | .star, left, right => left.multiply? right
  | .slash, left, right => left.divide? right

/-- An operation on units has a result exactly when it joins them. -/
theorem isSome_result?_iff {operator : ArithmeticOperator}
    {left right : PhysicalUnit} :
    (operator.result? left right).isSome ↔ operator.Joins left right := by
  cases operator <;> simp [result?, Joins, ← PhysicalUnit.agrees_iff]

/-- The exponents of a result follow from those of the operands. -/
theorem exponent_of_result? {operator : ArithmeticOperator}
    {left right unit : PhysicalUnit}
    (found : operator.result? left right = some unit) (name : String) :
    unit.exponent name =
      operator.combine (left.exponent name) (right.exponent name) := by
  cases operator with
  | star => exact PhysicalUnit.exponent_of_multiply? found name
  | slash => exact PhysicalUnit.exponent_of_divide? found name
  | _ =>
      rcases Option.ite_none_right_eq_some.mp found with ⟨-, same⟩
      cases same
      rfl

/--
Between quantities the operator has a type exactly when there is a unit for the
result.
-/
theorem binaryType_quantity_eq_ok_iff {operator : ArithmeticOperator}
    {left right : PhysicalUnit} {span : Span} {type : Ty} :
    Context.binaryType operator.operator (.quantity left) (.quantity right)
      span = .ok type ↔
      ∃ unit, operator.result? left right = some unit ∧
        Ty.quantity unit = type := by
  cases operator with
  | star =>
      cases combined : left.multiply? right <;>
        simp [Context.binaryType, ArithmeticOperator.operator,
          Operator.category, Operator.entry, result?, combined]
  | slash =>
      cases combined : left.divide? right <;>
        simp [Context.binaryType, ArithmeticOperator.operator,
          Operator.category, Operator.entry, result?, combined]
  | _ =>
      cases agree : left.agrees right <;>
        simp [Context.binaryType, ArithmeticOperator.operator,
          Operator.category, Operator.entry, result?, agree]

end ArithmeticOperator

/--
Quantities joined by arithmetic.  A leaf is any expression, together with the
unit of its type.
-/
inductive Arithmetic where
  | leaf (expression : Expr) (unit : PhysicalUnit)
  | binary (span : Span) (left : Arithmetic) (operator : ArithmeticOperator)
      (right : Arithmetic)
  | negation (span : Span) (operand : Arithmetic)

namespace Arithmetic

/-- The expression as it is written. -/
def expression : Arithmetic → Expr
  | .leaf expression _ => expression
  | .binary span left operator right =>
      .binary span left.expression operator.operator right.expression
  | .negation span operand => .unary span .negate operand.expression

/-- The leaves, each with the unit of its type. -/
def leaves : Arithmetic → List (Expr × PhysicalUnit)
  | .leaf expression unit => [(expression, unit)]
  | .binary _ left _ right => left.leaves ++ right.leaves
  | .negation _ operand => operand.leaves

/-- All parts that are joined by arithmetic, the whole first. -/
def nodes : Arithmetic → List Arithmetic
  | .leaf expression unit => [.leaf expression unit]
  | .binary span left operator right =>
      .binary span left operator right :: (left.nodes ++ right.nodes)
  | .negation span operand => .negation span operand :: operand.nodes

/--
The exponent of a dimension, evaluated over whole numbers without a bound.
-/
def exponent : Arithmetic → String → Int
  | .leaf _ unit, name => unit.exponent name
  | .binary _ left operator right, name =>
      operator.combine (left.exponent name) (right.exponent name)
  | .negation _ operand, name => operand.exponent name

/-- The types of the leaves are quantities of the given units. -/
def Typed (context : Context) (tree : Arithmetic) : Prop :=
  ∀ leaf ∈ tree.leaves, (context.infer leaf.1).outcome = .ok (.quantity leaf.2)

/--
The operator at the top is defined between the units that are found for its
operands.
-/
def IsDefined (context : Context) : Arithmetic → Prop
  | .binary _ left operator right =>
      ∃ leftUnit rightUnit,
        (context.infer left.expression).outcome = .ok (.quantity leftUnit) ∧
        (context.infer right.expression).outcome = .ok (.quantity rightUnit) ∧
        operator.Joins leftUnit rightUnit
  | _ => True

/-- The operator at the top is defined between the exponents of its operands. -/
def IsExact : Arithmetic → Prop
  | .binary _ left operator right =>
      operator.JoinsExponents left.exponent right.exponent
  | _ => True

variable {context : Context} {tree : Arithmetic}

/--
An operation has a type exactly when its operands have types that yield it.
-/
theorem outcome_infer_binary_eq_ok_iff {left right : Expr} {operator : Operator}
    {span : Span} {type : Ty} :
    (context.infer (.binary span left operator right)).outcome = .ok type ↔
      ∃ leftType rightType, (context.infer left).outcome = .ok leftType ∧
        (context.infer right).outcome = .ok rightType ∧
        Context.binaryType operator leftType rightType span = .ok type := by
  simp [Context.infer, Inference.outcome_bind_eq_ok_iff]

theorem outcome_infer_negation (span : Span) (operand : Expr) :
    (context.infer (.unary span .negate operand)).outcome =
      (context.infer operand).outcome := by
  cases found : (context.infer operand).outcome <;>
    simp [Context.infer, Context.unaryType, bind, found, pure]

/-- The type of the whole is a quantity with the exponents of the whole. -/
theorem exponent_of_infer (typed : tree.Typed context) {type : Ty}
    (found : (context.infer tree.expression).outcome = .ok type) :
    ∃ unit, type = .quantity unit ∧
      ∀ name, unit.exponent name = tree.exponent name := by
  induction tree generalizing type with
  | leaf expression unit =>
      have known := typed (expression, unit) (List.mem_singleton_self _)
      exact ⟨unit, Except.ok.inj (found.symm.trans known), fun name => rfl⟩
  | binary span left operator right leftIH rightIH =>
      rcases List.forall_mem_append.mp typed with ⟨leftTyped, rightTyped⟩
      rcases outcome_infer_binary_eq_ok_iff.mp found with
        ⟨leftType, rightType, leftFound, rightFound, joined⟩
      rcases leftIH leftTyped leftFound with ⟨leftUnit, rfl, leftExponents⟩
      rcases rightIH rightTyped rightFound with ⟨rightUnit, rfl, rightExponents⟩
      rcases ArithmeticOperator.binaryType_quantity_eq_ok_iff.mp joined with
        ⟨unit, result, rfl⟩
      have exponents (name : String) : unit.exponent name =
          (binary span left operator right).exponent name := by
        rw [ArithmeticOperator.exponent_of_result? result, leftExponents,
          rightExponents, exponent]
      exact ⟨unit, rfl, exponents⟩
  | negation span operand ih =>
      rw [expression, outcome_infer_negation] at found
      exact ih typed found

/--
A type is found for an operator between quantities exactly when it is defined
between the units of its operands.
-/
theorem exists_infer_binary_iff {left right : Arithmetic}
    (leftTyped : left.Typed context) (rightTyped : right.Typed context)
    {operator : ArithmeticOperator} {span : Span} :
    (∃ type,
      (context.infer (binary span left operator right).expression).outcome =
        .ok type) ↔
      (binary span left operator right).IsDefined context := by
  constructor
  · rintro ⟨type, found⟩
    rcases outcome_infer_binary_eq_ok_iff.mp found with
      ⟨leftType, rightType, leftFound, rightFound, joined⟩
    rcases exponent_of_infer leftTyped leftFound with ⟨leftUnit, rfl, -⟩
    rcases exponent_of_infer rightTyped rightFound with ⟨rightUnit, rfl, -⟩
    rcases ArithmeticOperator.binaryType_quantity_eq_ok_iff.mp joined with
      ⟨unit, result, -⟩
    exact ⟨leftUnit, rightUnit, leftFound, rightFound,
      ArithmeticOperator.isSome_result?_iff.mp (Option.isSome_of_mem result)⟩
  · rintro ⟨leftUnit, rightUnit, leftFound, rightFound, joins⟩
    rcases Option.isSome_iff_exists.mp
      (ArithmeticOperator.isSome_result?_iff.mpr joins) with ⟨unit, result⟩
    exact ⟨.quantity unit,
      outcome_infer_binary_eq_ok_iff.mpr ⟨_, _, leftFound, rightFound,
        ArithmeticOperator.binaryType_quantity_eq_ok_iff.mpr
          ⟨unit, result, rfl⟩⟩⟩

/--
An operator is defined exactly when types are found for its operands and it is
defined between their exponents.
-/
theorem isDefined_binary_iff {left right : Arithmetic}
    (leftTyped : left.Typed context) (rightTyped : right.Typed context)
    {operator : ArithmeticOperator} {span : Span} :
    (binary span left operator right).IsDefined context ↔
      (binary span left operator right).IsExact ∧
        (∃ type, (context.infer left.expression).outcome = .ok type) ∧
        ∃ type, (context.infer right.expression).outcome = .ok type := by
  constructor
  · rintro ⟨leftUnit, rightUnit, leftFound, rightFound, joins⟩
    rcases exponent_of_infer leftTyped leftFound with ⟨_, ⟨⟩, leftExponents⟩
    rcases exponent_of_infer rightTyped rightFound with ⟨_, ⟨⟩, rightExponents⟩
    have joinsExponents := ArithmeticOperator.joins_iff_joinsExponents.mp joins
    rw [funext leftExponents, funext rightExponents] at joinsExponents
    exact ⟨joinsExponents, ⟨_, leftFound⟩, ⟨_, rightFound⟩⟩
  · rintro ⟨joinsExponents, ⟨leftType, leftFound⟩, ⟨rightType, rightFound⟩⟩
    rcases exponent_of_infer leftTyped leftFound with
      ⟨leftUnit, rfl, leftExponents⟩
    rcases exponent_of_infer rightTyped rightFound with
      ⟨rightUnit, rfl, rightExponents⟩
    have joins : operator.Joins leftUnit rightUnit := by
      rw [ArithmeticOperator.joins_iff_joinsExponents, funext leftExponents,
        funext rightExponents]
      exact joinsExponents
    exact ⟨leftUnit, rightUnit, leftFound, rightFound, joins⟩

/--
A type is found exactly when all parts are good, if those that are no operators
always are, and if a type is found for an operator exactly when it is good and
types are found for its operands.
-/
theorem exists_infer_iff_forall_mem_nodes {good : Arithmetic → Prop}
    (ofLeaf : ∀ written unit, good (leaf written unit))
    (ofNegation : ∀ span operand, good (negation span operand))
    (ofBinary : ∀ {left right : Arithmetic}, left.Typed context →
      right.Typed context → ∀ {operator span},
      (∃ type,
        (context.infer (binary span left operator right).expression).outcome =
          .ok type) ↔
        good (binary span left operator right) ∧
          (∃ type, (context.infer left.expression).outcome = .ok type) ∧
          ∃ type, (context.infer right.expression).outcome = .ok type)
    (typed : tree.Typed context) :
    (∃ type, (context.infer tree.expression).outcome = .ok type) ↔
      ∀ node ∈ tree.nodes, good node := by
  induction tree with
  | leaf expression unit =>
      have known := typed (expression, unit) (List.mem_singleton_self _)
      exact iff_of_true ⟨_, known⟩
        (List.forall_mem_singleton.mpr (ofLeaf expression unit))
  | binary span left operator right leftIH rightIH =>
      rcases List.forall_mem_append.mp typed with ⟨leftTyped, rightTyped⟩
      rw [ofBinary leftTyped rightTyped, nodes, List.forall_mem_cons,
        List.forall_mem_append, leftIH leftTyped, rightIH rightTyped]
  | negation span operand ih =>
      rw [nodes, List.forall_mem_cons, expression, outcome_infer_negation,
        ih typed]
      exact (and_iff_right (ofNegation span operand)).symm

/--
A type is found exactly when every operator is defined between the exponents of
its operands.
-/
theorem exists_infer_iff_isExact (typed : tree.Typed context) :
    (∃ type, (context.infer tree.expression).outcome = .ok type) ↔
      ∀ node ∈ tree.nodes, node.IsExact := by
  refine exists_infer_iff_forall_mem_nodes (fun _ _ => trivial)
    (fun _ _ => trivial) ?_ typed
  intro left right leftTyped rightTyped operator span
  rw [exists_infer_binary_iff leftTyped rightTyped,
    isDefined_binary_iff leftTyped rightTyped]

/--
A type is found exactly when every operator is defined between the units that
are found for its operands.
-/
theorem exists_infer_iff_isDefined (typed : tree.Typed context) :
    (∃ type, (context.infer tree.expression).outcome = .ok type) ↔
      ∀ node ∈ tree.nodes, node.IsDefined context := by
  refine exists_infer_iff_forall_mem_nodes (fun _ _ => trivial)
    (fun _ _ => trivial) ?_ typed
  intro left right leftTyped rightTyped operator span
  rw [exists_infer_binary_iff leftTyped rightTyped]
  exact (and_iff_left_of_imp fun defined =>
    ((isDefined_binary_iff leftTyped rightTyped).mp defined).2).symm

/--
Dimensions of arithmetic are checked and found exactly.  Given leaves that are
quantities, a type is found for the whole exactly when every operator is defined
between the units of its operands, which is a condition on the exponents of the
operands; and the type is then a quantity with the exponents of the whole.
-/
theorem infer_arithmetic (context : Context) (tree : Arithmetic)
    (typed : tree.Typed context) :
    ((∃ type, (context.infer tree.expression).outcome = .ok type) ↔
      ∀ node ∈ tree.nodes, node.IsDefined context) ∧
    ((∀ node ∈ tree.nodes, node.IsDefined context) ↔
      ∀ node ∈ tree.nodes, node.IsExact) ∧
    ∀ type, (context.infer tree.expression).outcome = .ok type →
      ∃ unit, type = .quantity unit ∧
        ∀ name, unit.exponent name = tree.exponent name :=
  ⟨exists_infer_iff_isDefined typed,
    (exists_infer_iff_isDefined typed).symm.trans
      (exists_infer_iff_isExact typed),
    fun _ found => exponent_of_infer typed found⟩

/-- A distance over a time, negated, less a distance over a time. -/
theorem infer_difference_of_speeds :
    let length := PhysicalUnit.base "length"
    let time := PhysicalUnit.base "time"
    let context : Context :=
      { config := {}, kind := fun _ => none, source := some (.quantity length),
        variableType := fun _ => some (.quantity time) }
    let speed : Arithmetic :=
      .binary .unknown (.leaf (.path .unknown .source []) length) .slash
        (.leaf (.path .unknown (.named "elapsed") []) time)
    let tree : Arithmetic :=
      .binary .unknown (.negation .unknown speed) .minus speed
    tree.Typed context ∧ (∀ node ∈ tree.nodes, node.IsExact) ∧
      ∃ unit, (context.infer tree.expression).outcome = .ok (.quantity unit) ∧
        unit.exponent "length" = 1 ∧
        unit.exponent "time" = -1 := by
  intro length time context speed tree
  have distance : (context.infer (.path .unknown .source [])).outcome =
      .ok (.quantity length) := rfl
  have elapsed : (context.infer
      (.path .unknown (.named "elapsed") [])).outcome = .ok (.quantity time) :=
    rfl
  have typed : tree.Typed context := by
    simp [tree, speed, Typed, leaves, distance, elapsed]
  have result := infer_arithmetic context tree typed
  have succeeds : ∃ type, (context.infer tree.expression).outcome = .ok type :=
    ⟨_, rfl⟩
  rcases succeeds with ⟨type, found⟩
  rcases result.2.2 type found with ⟨unit, rfl, exponents⟩
  exact ⟨typed, result.2.1.mp (result.1.mp ⟨_, found⟩), unit, found,
    exponents "length", exponents "time"⟩

end Arithmetic

end SchemaMap
