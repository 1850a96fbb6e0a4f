import SchemaMap.Proofs.Analysis.Evaluation
import SchemaMap.Proofs.Exponents
import SchemaMap.Proofs.UnitReader

/-!
# Units as text

A unit is written twice: in the program, as an expression, and in messages,
where a derived unit is labelled by the labels of what it is made of.  Both
texts are read in one way only (`UnitReader`), and what matters is whether the
reading is what the unit is.

Labels put every composed operand in parentheses, so they always are: units with
the same label have the same dimensions (`dimensions_eq_of_label_eq`).
Expressions put only composed divisors in parentheses.  The text of a product or
quotient that is raised to a power is read as if its last factor were raised,
and indeed other expressions have that text
(`exists_dimensions_ne_of_text_eq`).  Where only factors are raised, the text of
an expression determines its dimensions (`dimensions_eq_of_expression_text_eq`).
-/

namespace SchemaMap

namespace UnitExpr

/-! ## Exponents of expressions -/

/--
The exponent of an expression by the rules of whole numbers, given the exponents
of the names.
-/
def exponent (measure : String → Int) : UnitExpr → Int
  | .reference _ name => measure name
  | .product _ left right => left.exponent measure + right.exponent measure
  | .quotient _ left right => left.exponent measure - right.exponent measure
  | .power _ base times => times * base.exponent measure
  | .one _ => 0

/-- The value of an expression has the exponents of the expression. -/
theorem Evaluates.exponent_eq {value : String → PhysicalUnit → Prop}
    {measure : String → Int} {dimension : String}
    (measured : ∀ name unit, value name unit →
      unit.exponent dimension = measure name)
    {expression : UnitExpr} {unit : PhysicalUnit}
    (evaluated : expression.Evaluates value unit) :
    unit.exponent dimension = expression.exponent measure := by
  induction evaluated with
  | reference known => exact measured _ _ known
  | product _ _ combined left right =>
      rw [PhysicalUnit.exponent_of_multiply? combined, left, right, exponent]
  | quotient _ _ combined left right =>
      rw [PhysicalUnit.exponent_of_divide? combined, left, right, exponent]
  | power _ raised base =>
      rw [PhysicalUnit.exponent_of_power? raised, base, exponent]
  | one plain =>
      rw [PhysicalUnit.isPlain_nil_iff.mp plain]
      rfl

/--
The exponent of a dimension in the unit that a name stands for, if it stands for
one.
-/
def measureIn (reference : String → Except Fault PhysicalUnit)
    (dimension name : String) : Int :=
  (reference name).toOption.elim 0 fun unit => unit.exponent dimension

variable {reference : String → Except Fault PhysicalUnit}
  {leftUnit rightUnit unit : PhysicalUnit}

theorem exponent_of_evaluate {expression : UnitExpr}
    (value : (expression.evaluate (m := Id) reference).run = .ok unit)
    (dimension : String) :
    unit.exponent dimension =
      expression.exponent (measureIn reference dimension) := by
  refine (run_evaluate_eq_ok_iff.mp value).exponent_eq fun name unit known => ?_
  rw [measureIn, show reference name = .ok unit from known]
  rfl

/--
Two expressions with the same exponents, whatever those of the names are, have
values of the same dimensions.
-/
theorem dimensions_eq_of_exponent_eq {left right : UnitExpr}
    (same : ∀ measure, left.exponent measure = right.exponent measure)
    (leftValue : (left.evaluate (m := Id) reference).run = .ok leftUnit)
    (rightValue : (right.evaluate (m := Id) reference).run = .ok rightUnit) :
    leftUnit.dimensions = rightUnit.dimensions := by
  ext dimension
  have leftExponent := exponent_of_evaluate leftValue dimension
  have rightExponent := exponent_of_evaluate rightValue dimension
  exact leftExponent.trans ((same _).trans rightExponent.symm)

end UnitExpr

/-! ## Labels -/

/-- The text of a unit inside a larger one. -/
def Text.asOperand (text : String) : String :=
  if Text.mentions ['*', '/', '^'] text then "(" ++ text ++ ")" else text

namespace UnitReader

variable {measure : String → Int} {text : String} {exponent : Int}

theorem IsTerm.asOperand (term : IsTerm measure text exponent)
    (composed : Text.mentions ['*', '/', '^'] text = true) :
    IsFactor measure (Text.asOperand text) exponent := by
  rw [Text.asOperand, if_pos composed]
  exact term.grouped

theorem IsFactor.asOperand (factor : IsFactor measure text exponent) :
    IsFactor measure (Text.asOperand text) exponent := by
  rw [Text.asOperand]
  split
  · exact factor.isTerm.grouped
  · exact factor

end UnitReader

namespace UnitExpr

/--
The label of the unit that an expression stands for, where the names are the
labels of the declared units.
-/
def label : UnitExpr → String
  | .reference _ name => name
  | .product _ left right =>
      Text.asOperand left.label ++ "*" ++ Text.asOperand right.label
  | .quotient _ left right =>
      Text.asOperand left.label ++ "/" ++ Text.asOperand right.label
  | .power _ base times =>
      if times = 0 then
        "1"
      else
        Text.asOperand base.label ++ "^" ++ toString times
  | .one _ => "1"

/--
Where names are labelled with themselves, values are labelled as they are
written.
-/
theorem Evaluates.text_eq_label {value : String → PhysicalUnit → Prop}
    (labelled : ∀ name unit, value name unit → unit.label = some name)
    {expression : UnitExpr} {unit : PhysicalUnit}
    (evaluated : expression.Evaluates value unit) :
    unit.text = expression.label := by
  induction evaluated with
  | reference known =>
      rw [PhysicalUnit.text, labelled _ _ known, Option.getD_some, label]
  | product _ _ combined left right =>
      rcases Option.map_eq_some_iff.mp combined with ⟨dimensions, -, rfl⟩
      rw [label, ← left, ← right]
      rfl
  | quotient _ _ combined left right =>
      rcases Option.map_eq_some_iff.mp combined with ⟨dimensions, -, rfl⟩
      rw [label, ← left, ← right]
      rfl
  | power _ raised base =>
      rw [PhysicalUnit.power?] at raised
      rw [label]
      split at raised
      · next zero =>
          cases raised
          rw [if_pos zero]
          rfl
      · next nonzero =>
          rcases Option.map_eq_some_iff.mp raised with ⟨dimensions, -, rfl⟩
          rw [if_neg nonzero, ← base]
          rfl
  | one plain =>
      rw [PhysicalUnit.isPlain_nil_iff.mp plain]
      rfl

/-- A label is read as the expression, on its own and as an operand. -/
theorem isTerm_label (measure : String → Int) {expression : UnitExpr}
    (named : ∀ name ∈ expression.references, IsUnitName name) :
    UnitReader.IsTerm measure expression.label (expression.exponent measure) ∧
      UnitReader.IsFactor measure (Text.asOperand expression.label)
        (expression.exponent measure) := by
  induction expression with
  | reference span name =>
      have factor : UnitReader.IsFactor measure name (measure name) :=
        UnitReader.isFactor_name (named name List.mem_cons_self)
      exact ⟨factor.isTerm, factor.asOperand⟩
  | product span left right leftReads rightReads =>
      rw [references, List.forall_mem_append] at named
      have term :=
        (leftReads named.1).2.isTerm.product (rightReads named.2).2.isTerm
      exact ⟨term, term.asOperand (by simp [Text.mentions])⟩
  | quotient span left right leftReads rightReads =>
      rw [references, List.forall_mem_append] at named
      have term := (leftReads named.1).2.isTerm.quotient (rightReads named.2).2
      exact ⟨term, term.asOperand (by simp [Text.mentions])⟩
  | power span base times baseReads =>
      rw [label, exponent]
      split
      · next zero =>
          rw [zero, Int.zero_mul]
          exact ⟨UnitReader.isFactor_one.isTerm,
            UnitReader.isFactor_one.asOperand⟩
      · have factor := (baseReads named).2.power times
        exact ⟨factor.isTerm, factor.asOperand⟩
  | one span =>
      exact ⟨UnitReader.isFactor_one.isTerm, UnitReader.isFactor_one.asOperand⟩

end UnitExpr

/-- A declared unit is labelled by its name. -/
theorem HasUnit.label_eq {declared : UnitDeclaration → Prop}
    {isDimension : String → Prop} {name : String} {unit : PhysicalUnit}
    (value : HasUnit declared isDimension name unit) :
    unit.label = some name := by
  cases value with
  | derived _ _ _ finished => cases finished <;> rfl
  | base _ _ _ _ _ finished => cases finished <;> rfl
  | number _ _ _ _ finished => cases finished <;> rfl

/--
Labels are unambiguous.  If two expressions over declared units have values with
the same text, then these have the same dimensions, provided that the names in
them have none of the marks of expressions and are not the number one.
-/
theorem dimensions_eq_of_label_eq (program : Program) (left right : UnitExpr)
    (named : ∀ name ∈ left.references ++ right.references, IsUnitName name)
    (leftUnit rightUnit : PhysicalUnit)
    (leftValue : (left.evaluate (m := Id) program.units.find).run =
      .ok leftUnit)
    (rightValue : (right.evaluate (m := Id) program.units.find).run =
      .ok rightUnit)
    (same : leftUnit.text = rightUnit.text) :
    leftUnit.dimensions = rightUnit.dimensions := by
  have labelled : ∀ name unit, program.units.find name = .ok unit →
      unit.label = some name :=
    fun name unit found => (Program.find_units_eq_ok_iff.mp found).label_eq
  rw [(UnitExpr.run_evaluate_eq_ok_iff.mp leftValue).text_eq_label labelled,
    (UnitExpr.run_evaluate_eq_ok_iff.mp rightValue).text_eq_label
      labelled] at same
  rw [List.forall_mem_append] at named
  refine UnitExpr.dimensions_eq_of_exponent_eq (fun measure => ?_) leftValue
    rightValue
  have leftTerm := (UnitExpr.isTerm_label measure named.1).1
  rw [same] at leftTerm
  exact leftTerm.unique (UnitExpr.isTerm_label measure named.2).1

/-- Base units for lengths and times. -/
def lengthsAndTimes : Program :=
  [.dimension { name := "Length" }, .dimension { name := "Time" },
    .unit { name := "m", dimension := some ⟨"Length", .unknown⟩ },
    .unit { name := "s", dimension := some ⟨"Time", .unknown⟩ }]

/--
The power zero of a unit and the number one have the same label inside a larger
unit.
-/
theorem dimensions_eq_of_label_eq_quotient :
    ∃ leftUnit rightUnit,
      ((UnitExpr.quotient .unknown
        (.product .unknown (.reference .unknown "m")
          (.power .unknown (.reference .unknown "s") 0))
        (.reference .unknown "s")).evaluate (m :=
  Id) lengthsAndTimes.units.find).run = .ok leftUnit ∧
      ((UnitExpr.quotient ⟨0, 9⟩
        (.product ⟨0, 5⟩ (.reference ⟨0, 1⟩ "m") (.one ⟨2, 3⟩))
        (.reference ⟨6, 7⟩ "s")).evaluate (m :=
  Id) lengthsAndTimes.units.find).run = .ok rightUnit ∧
      leftUnit.text = "(m*1)/s" ∧ rightUnit.text = "(m*1)/s" ∧
        leftUnit.dimensions = rightUnit.dimensions := by
  have leftLabel : (((UnitExpr.quotient .unknown
      (.product .unknown (.reference .unknown "m")
        (.power .unknown (.reference .unknown "s") 0))
      (.reference .unknown "s")).evaluate (m := Id)
      lengthsAndTimes.units.find).run).toOption.any
        (fun unit => unit.text == "(m*1)/s") = true := by
    decide +kernel
  have rightLabel : (((UnitExpr.quotient ⟨0, 9⟩
      (.product ⟨0, 5⟩ (.reference ⟨0, 1⟩ "m") (.one ⟨2, 3⟩))
      (.reference ⟨6, 7⟩ "s")).evaluate (m := Id)
      lengthsAndTimes.units.find).run).toOption.any
        (fun unit => unit.text == "(m*1)/s") = true := by
    decide +kernel
  rcases exists_eq_ok_of_any leftLabel with ⟨leftUnit, leftValue, leftText⟩
  rcases exists_eq_ok_of_any rightLabel with ⟨rightUnit, rightValue, rightText⟩
  rw [beq_iff_eq] at leftText rightText
  exact ⟨leftUnit, rightUnit, leftValue, rightValue, leftText, rightText,
    dimensions_eq_of_label_eq lengthsAndTimes _ _ (by decide) leftUnit rightUnit
      leftValue rightValue
      (leftText.trans rightText.symm)⟩

/-! ## Expressions -/

namespace UnitExpr

/-- Whether the expression is a product or a quotient. -/
def isComposed : UnitExpr → Bool
  | .product _ _ _ => true
  | .quotient _ _ _ => true
  | _ => false

/--
Whether nothing is raised to a power that is itself a product or a quotient.
-/
def raisesFactors : UnitExpr → Bool
  | .reference _ _ => true
  | .product _ left right => left.raisesFactors && right.raisesFactors
  | .quotient _ left right => left.raisesFactors && right.raisesFactors
  | .power _ base _ => !base.isComposed && base.raisesFactors
  | .one _ => true

/--
A quotient puts its divisor into parentheses exactly when that is composed.
-/
theorem text_quotient (span : Span) (left right : UnitExpr) :
    (quotient span left right).text =
      left.text ++ "/" ++
        (if right.isComposed then "(" ++ right.text ++ ")" else
          right.text) := by
  cases right with
  | product => simp only [text, isComposed, if_true, String.append_assoc]; rfl
  | quotient => simp only [text, isComposed, if_true, String.append_assoc]; rfl
  | _ => rfl

/--
A product that is raised to a power has the text of another product, the last
factor of which is raised.
-/
theorem text_power_product (outer inner other last : Span)
    (left right : UnitExpr) (times : Int) :
    (power outer (product inner left right) times).text =
      (product other left (power last right times)).text := by
  simp only [text, String.append_assoc]

/--
The two have the same dimensions only where the power does nothing to the first
factor.
-/
theorem dimensions_power_product_iff
    {reference : String → Except Fault PhysicalUnit}
    {raised regrouped first : PhysicalUnit} {outer inner other last : Span}
    {left right : UnitExpr} {times : Int}
    (raisedValue : ((power outer (product inner left right) times).evaluate
      (m := Id) reference).run = .ok raised)
    (regroupedValue : ((product other left (power last right times)).evaluate
      (m := Id) reference).run = .ok regrouped)
    (firstValue : (left.evaluate (m := Id) reference).run = .ok first) :
    raised.dimensions = regrouped.dimensions ↔
      ∀ dimension, (times - 1) * first.exponent dimension = 0 := by
  rw [Dimensions.ext_exponent_iff]
  refine forall_congr' fun dimension => ?_
  have raisedExponent := exponent_of_evaluate raisedValue dimension
  have regroupedExponent := exponent_of_evaluate regroupedValue dimension
  have firstExponent := exponent_of_evaluate firstValue dimension
  simp only [exponent, ← firstExponent] at raisedExponent regroupedExponent
  have apart : raised.exponent dimension =
      regrouped.exponent dimension + (times - 1) *
        first.exponent dimension := by
    rw [raisedExponent, regroupedExponent]
    ring
  show raised.exponent dimension = regrouped.exponent dimension ↔ _
  omega

/-- Where only factors are raised, the text is read as the expression. -/
theorem isTerm_text (measure : String → Int) {expression : UnitExpr}
    (named : ∀ name ∈ expression.references, IsUnitName name)
    (simple : expression.raisesFactors = true) :
    UnitReader.IsTerm measure expression.text (expression.exponent measure) ∧
      (expression.isComposed = false →
        UnitReader.IsFactor measure expression.text
          (expression.exponent measure)) := by
  induction expression with
  | reference span name =>
      have factor : UnitReader.IsFactor measure name (measure name) :=
        UnitReader.isFactor_name (named name List.mem_cons_self)
      exact ⟨factor.isTerm, fun _ => factor⟩
  | product span left right leftReads rightReads =>
      rw [references, List.forall_mem_append] at named
      rw [raisesFactors, Bool.and_eq_true] at simple
      refine ⟨?_, fun single => by contradiction⟩
      exact (leftReads named.1 simple.1).1.product
        (rightReads named.2 simple.2).1
  | quotient span left right leftReads rightReads =>
      rw [references, List.forall_mem_append] at named
      rw [raisesFactors, Bool.and_eq_true] at simple
      refine ⟨?_, fun single => by contradiction⟩
      have divisor := rightReads named.2 simple.2
      rw [text_quotient, exponent]
      -- Only a factor may stand behind the slash: a composed divisor is one
      -- because of its parentheses.
      refine (leftReads named.1 simple.1).1.quotient ?_
      cases composed : right.isComposed with
      | true => exact divisor.1.grouped
      | false => exact divisor.2 composed
  | power span base times baseReads =>
      rw [raisesFactors, Bool.and_eq_true, Bool.not_eq_true'] at simple
      have factor := ((baseReads named simple.2).2 simple.1).power times
      exact ⟨factor.isTerm, fun _ => factor⟩
  | one span =>
      exact ⟨UnitReader.isFactor_one.isTerm, fun _ => UnitReader.isFactor_one⟩

end UnitExpr

/--
The text of a unit expression determines its dimensions, whatever the units are,
if nothing is raised in it that is itself a product or a quotient, and if the
names in it have none of the marks of expressions and are not the number one.
-/
theorem dimensions_eq_of_expression_text_eq (left right : UnitExpr)
    (named : ∀ name ∈ left.references ++ right.references, IsUnitName name)
    (leftSimple : left.raisesFactors = true)
    (rightSimple : right.raisesFactors = true) (same : left.text = right.text)
    (units : UnitTable) (leftUnit rightUnit : PhysicalUnit)
    (leftValue : (left.evaluate (m := Id) units.find).run = .ok leftUnit)
    (rightValue : (right.evaluate (m := Id) units.find).run = .ok rightUnit) :
    leftUnit.dimensions = rightUnit.dimensions := by
  rw [List.forall_mem_append] at named
  refine UnitExpr.dimensions_eq_of_exponent_eq (fun measure => ?_) leftValue
    rightValue
  have leftTerm := (UnitExpr.isTerm_text measure named.1 leftSimple).1
  rw [same] at leftTerm
  exact leftTerm.unique (UnitExpr.isTerm_text measure named.2 rightSimple).1

/-- A composed divisor. -/
def cubedTimes : UnitExpr :=
  .product .unknown (.reference .unknown "s")
    (.power .unknown (.reference .unknown "s") 2)

/-- A product, the last factor of which is a quotient. -/
def productOfQuotient : UnitExpr :=
  .product .unknown (.reference .unknown "m")
    (.quotient .unknown (.reference .unknown "m") cubedTimes)

/-- A quotient, the dividend of which is a product. -/
def quotientOfProduct : UnitExpr :=
  .quotient .unknown
    (.product .unknown (.reference .unknown "m") (.reference .unknown "m"))
    cubedTimes

/--
A product of a quotient and a quotient of a product have the same text and the
same dimensions.
-/
theorem dimensions_eq_of_expression_text_eq_quotient :
    productOfQuotient.text = "m*m/(s*s^2)" ∧
      quotientOfProduct.text = "m*m/(s*s^2)" ∧
      ∃ leftUnit rightUnit,
        (productOfQuotient.evaluate (m := Id) lengthsAndTimes.units.find).run =
          .ok leftUnit ∧
        (quotientOfProduct.evaluate (m := Id) lengthsAndTimes.units.find).run =
          .ok rightUnit ∧
        leftUnit.dimensions = rightUnit.dimensions := by
  have leftFound :
      ((productOfQuotient.evaluate (m := Id)
        lengthsAndTimes.units.find).run).toOption.any
      (fun unit => unit.exponent "Time" == -3) = true := by
    decide +kernel
  have rightFound :
      ((quotientOfProduct.evaluate (m := Id)
        lengthsAndTimes.units.find).run).toOption.any
      (fun unit => unit.exponent "Time" == -3) = true := by
    decide +kernel
  rcases exists_eq_ok_of_any leftFound with ⟨leftUnit, leftValue, -⟩
  rcases exists_eq_ok_of_any rightFound with ⟨rightUnit, rightValue, -⟩
  refine ⟨by decide +kernel, by decide +kernel, leftUnit, rightUnit, leftValue,
    rightValue, ?_⟩
  exact dimensions_eq_of_expression_text_eq productOfQuotient quotientOfProduct
    (by decide) (by decide) (by decide)
    (by decide +kernel) lengthsAndTimes.units leftUnit rightUnit leftValue
    rightValue

/--
The square of a product and the product with a squared factor have the same
text, but not the same dimensions.
-/
theorem exists_dimensions_ne_of_text_eq :
    ∃ left right : UnitExpr,
      left =
        .power .unknown
          (.product .unknown (.reference .unknown "m")
            (.reference .unknown "s")) 2 ∧
      right =
        .product .unknown (.reference .unknown "m")
          (.power .unknown (.reference .unknown "s") 2) ∧
      (∀ name ∈ left.references ++ right.references, IsUnitName name) ∧
      left.text = right.text ∧
      ∃ leftUnit rightUnit,
        (left.evaluate (m := Id) lengthsAndTimes.units.find).run =
          .ok leftUnit ∧
        (right.evaluate (m := Id) lengthsAndTimes.units.find).run =
          .ok rightUnit ∧
        leftUnit.dimensions ≠ rightUnit.dimensions := by
  have raisedFound :
      (((UnitExpr.power .unknown
        (.product .unknown (.reference .unknown "m") (.reference .unknown "s"))
      2).evaluate (m := Id) lengthsAndTimes.units.find).run).toOption.any
      (fun _ => true) = true := by
    decide +kernel
  have regroupedFound :
      (((UnitExpr.product .unknown (.reference .unknown "m") (.power .unknown
      (.reference .unknown "s") 2)).evaluate (m := Id)
      lengthsAndTimes.units.find).run).toOption.any
        (fun _ => true) = true := by
    decide +kernel
  have metreFound : (((UnitExpr.reference .unknown "m").evaluate (m := Id)
      lengthsAndTimes.units.find).run).toOption.any
      (fun unit => unit.exponent "Length" == 1) = true := by
    decide +kernel
  rcases exists_eq_ok_of_any raisedFound with ⟨raised, raisedValue, -⟩
  rcases exists_eq_ok_of_any regroupedFound with ⟨regrouped, regroupedValue, -⟩
  rcases exists_eq_ok_of_any metreFound with ⟨metre, metreValue, length⟩
  refine ⟨_, _, rfl, rfl, by decide, UnitExpr.text_power_product _ _ _ _ _ _ _,
    raised, regrouped, raisedValue, regroupedValue, fun same => ?_⟩
  have unchanged :=
    (UnitExpr.dimensions_power_product_iff raisedValue regroupedValue
      metreValue).mp same "Length"
  rw [beq_iff_eq] at length
  rw [length] at unchanged
  contradiction

end SchemaMap
