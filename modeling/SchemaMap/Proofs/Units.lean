import SchemaMap.Proofs.Prelude
import SchemaMap.UnitTable

/-!
# The values of units

A declared unit has a value when its definition can be unfolded in finitely many
steps: `HasUnit` is the least relation that the declarations give.  The
evaluation settles each unit once and remembers faults, also those of units on a
cycle.  The main theorem, `find_ofDeclarations_eq_ok_iff`, says that what it
remembers is exactly `HasUnit`: no unit that has a value is given up, and no
value is stored that cannot be unfolded.
-/

namespace SchemaMap

/--
A unit without a label, with the given exponents and in terms of the base units
of its dimensions.
-/
structure PhysicalUnit.IsPlain (unit : PhysicalUnit)
    (exponents : List (String × Int)) : Prop where
  label : unit.label = none
  exponents : unit.dimensions.exponents.entries = exponents
  scale : unit.scale = 1.0

/--
The value of a unit expression, where `value` says what the names in it stand
for.
-/
inductive UnitExpr.Evaluates (value : String → PhysicalUnit → Prop) :
    UnitExpr → PhysicalUnit → Prop where
  | reference {span : Span} {name : String} {unit : PhysicalUnit}
      (known : value name unit) :
      Evaluates value (.reference span name) unit
  | product {span : Span} {left right : UnitExpr}
      {leftUnit rightUnit unit : PhysicalUnit}
      (first : Evaluates value left leftUnit)
      (second : Evaluates value right rightUnit)
      (combined : leftUnit.multiply? rightUnit = some unit) :
      Evaluates value (.product span left right) unit
  | quotient {span : Span} {left right : UnitExpr}
      {leftUnit rightUnit unit : PhysicalUnit}
      (first : Evaluates value left leftUnit)
      (second : Evaluates value right rightUnit)
      (combined : leftUnit.divide? rightUnit = some unit) :
      Evaluates value (.quotient span left right) unit
  | power {span : Span} {base : UnitExpr} {exponent : Int}
      {baseUnit unit : PhysicalUnit} (inner : Evaluates value base baseUnit)
      (raised : baseUnit.power? exponent = some unit) :
      Evaluates value (.power span base exponent) unit
  | one {span : Span} {unit : PhysicalUnit} (plain : unit.IsPlain []) :
      Evaluates value (.one span) unit

/--
The scale of a declaration, if it has one, is finite and positive and is
multiplied in, and the name of the declaration is the label.
-/
inductive UnitDeclaration.Finishes (declaration : UnitDeclaration)
    (unit : PhysicalUnit) : PhysicalUnit → Prop where
  | unscaled (absent : declaration.scale = none) :
      Finishes declaration unit { unit with label := some declaration.name }
  | scaled {scale : Float} (written : declaration.scale = some scale)
      (finite : scale.isFinite = true) (positive : 0.0 < scale) :
      Finishes declaration unit
        { unit with
          scale := unit.scale * scale
          label := some declaration.name }

/--
The values that the names of units have by finitely many unfoldings of their
declarations.
-/
inductive HasUnit (declared : UnitDeclaration → Prop)
    (isDimension : String → Prop) :
    String → PhysicalUnit → Prop where
  | derived {declaration : UnitDeclaration} {definition : UnitExpr}
      {unit result : PhysicalUnit} (member : declared declaration)
      (written : declaration.definition = some definition)
      (evaluated : definition.Evaluates (HasUnit declared isDimension) unit)
      (finished : declaration.Finishes unit result) :
      HasUnit declared isDimension declaration.name result
  | base {declaration : UnitDeclaration} {dimension : Located String}
      {unit result : PhysicalUnit} (member : declared declaration)
      (undefined : declaration.definition = none)
      (written : declaration.dimension = some dimension)
      (known : isDimension dimension.value)
      (plain : unit.IsPlain [(dimension.value, 1)])
      (finished : declaration.Finishes unit result) :
      HasUnit declared isDimension declaration.name result
  | number {declaration : UnitDeclaration} {unit result : PhysicalUnit}
      (member : declared declaration)
      (undefined : declaration.definition = none)
      (dimensionless : declaration.dimension = none)
      (plain : unit.IsPlain [])
      (finished : declaration.Finishes unit result) :
      HasUnit declared isDimension declaration.name result

/-! ## Plain units -/

namespace PhysicalUnit

/-- A plain unit is determined by its exponents. -/
theorem IsPlain.unique {first second : PhysicalUnit}
    {exponents : List (String × Int)} (left : first.IsPlain exponents)
    (right : second.IsPlain exponents) : first = second := by
  rcases first with ⟨label, ⟨⟨entries, _⟩, _⟩, scale⟩
  rcases second with ⟨label', ⟨⟨entries', _⟩, _⟩, scale'⟩
  rcases left with ⟨rfl, rfl, rfl⟩
  rcases right with ⟨rfl, rfl, rfl⟩
  rfl

theorem isPlain_one : one.IsPlain [] := ⟨rfl, rfl, rfl⟩

theorem isPlain_base (dimension : String) :
    (base dimension).IsPlain [(dimension, 1)] := ⟨rfl, rfl, rfl⟩

/-- A plain unit without exponents is that of a pure number. -/
theorem isPlain_nil_iff {unit : PhysicalUnit} :
    unit.IsPlain [] ↔ unit = .one := by
  constructor
  · intro plain
    exact plain.unique isPlain_one
  · rintro rfl
    exact isPlain_one

/-- A plain unit with one exponent, which is one, is a base unit. -/
theorem isPlain_singleton_iff {unit : PhysicalUnit} {dimension : String} :
    unit.IsPlain [(dimension, 1)] ↔ unit = .base dimension := by
  constructor
  · intro plain
    exact plain.unique (isPlain_base dimension)
  · rintro rfl
    exact isPlain_base dimension

end PhysicalUnit

/-! ## Unit expressions -/

/-- Arithmetic succeeds exactly where it does not overflow. -/
theorem orOverflow_eq_ok_iff {unit? : Option PhysicalUnit} {expression : String}
    {span : Span} {unit : PhysicalUnit} :
    orOverflow unit? expression span = .ok unit ↔ unit? = some unit := by
  cases unit? <;> simp [orOverflow]

namespace UnitExpr

/-- The names that an expression mentions. -/
def references : UnitExpr → List String
  | .reference _ name => [name]
  | .product _ left right => left.references ++ right.references
  | .quotient _ left right => left.references ++ right.references
  | .power _ base _ => base.references
  | .one _ => []

/-- An expression has one value where each name has one. -/
theorem Evaluates.unique {value value' : String → PhysicalUnit → Prop}
    (functional : ∀ name first second, value name first → value' name second →
      first = second)
    {expression : UnitExpr} {first second : PhysicalUnit}
    (left : expression.Evaluates value first)
    (right : expression.Evaluates value' second) : first = second := by
  induction left generalizing second with
  | reference known =>
      cases right with
      | reference known' => exact functional _ _ _ known known'
  | product _ _ combined ihLeft ihRight =>
      cases right with
      | product first' second' combined' =>
          rw [ihLeft first', ihRight second', combined'] at combined
          exact (Option.some.inj combined).symm
  | quotient _ _ combined ihLeft ihRight =>
      cases right with
      | quotient first' second' combined' =>
          rw [ihLeft first', ihRight second', combined'] at combined
          exact (Option.some.inj combined).symm
  | power _ raised ih =>
      cases right with
      | power inner' raised' =>
          rw [ih inner', raised'] at raised
          exact (Option.some.inj raised).symm
  | one plain =>
      cases right with
      | one plain' => exact plain.unique plain'

section

variable {value : String → PhysicalUnit → Prop} {unit : PhysicalUnit}
  {span : Span}

theorem evaluates_reference_iff {name : String} :
    (reference span name).Evaluates value unit ↔ value name unit := by
  constructor
  · rintro ⟨known⟩
    exact known
  · exact .reference

theorem evaluates_product_iff {left right : UnitExpr} :
    (product span left right).Evaluates value unit ↔
      ∃ leftUnit rightUnit, left.Evaluates value leftUnit ∧
        right.Evaluates value rightUnit ∧
        leftUnit.multiply? rightUnit = some unit := by
  constructor
  · intro evaluated
    cases evaluated with
    | product first second combined => exact ⟨_, _, first, second, combined⟩
  · rintro ⟨_, _, first, second, combined⟩
    exact .product first second combined

theorem evaluates_quotient_iff {left right : UnitExpr} :
    (quotient span left right).Evaluates value unit ↔
      ∃ leftUnit rightUnit, left.Evaluates value leftUnit ∧
        right.Evaluates value rightUnit ∧
        leftUnit.divide? rightUnit = some unit := by
  constructor
  · intro evaluated
    cases evaluated with
    | quotient first second combined => exact ⟨_, _, first, second, combined⟩
  · rintro ⟨_, _, first, second, combined⟩
    exact .quotient first second combined

theorem evaluates_power_iff {base : UnitExpr} {exponent : Int} :
    (power span base exponent).Evaluates value unit ↔
      ∃ baseUnit, base.Evaluates value baseUnit ∧
        baseUnit.power? exponent = some unit := by
  constructor
  · intro evaluated
    cases evaluated with
    | power inner raised => exact ⟨_, inner, raised⟩
  · rintro ⟨_, inner, raised⟩
    exact .power inner raised

theorem evaluates_one_iff : (one span).Evaluates value unit ↔ unit = .one := by
  constructor
  · intro evaluated
    cases evaluated with
    | one plain => exact PhysicalUnit.isPlain_nil_iff.mp plain
  · rintro rfl
    exact .one PhysicalUnit.isPlain_one

end

/-- Every name that an expression with a value mentions has a value. -/
theorem Evaluates.exists_of_mem_references
    {value : String → PhysicalUnit → Prop} {expression : UnitExpr}
    {unit : PhysicalUnit} (evaluated : expression.Evaluates value unit)
    {name : String} (mentioned : name ∈ expression.references) :
    ∃ found, value name found := by
  induction evaluated with
  | reference known =>
      rw [references, List.mem_singleton] at mentioned
      subst mentioned
      exact ⟨_, known⟩
  | product _ _ _ ihLeft ihRight =>
      rcases List.mem_append.mp mentioned with inLeft | inRight
      · exact ihLeft inLeft
      · exact ihRight inRight
  | quotient _ _ _ ihLeft ihRight =>
      rcases List.mem_append.mp mentioned with inLeft | inRight
      · exact ihLeft inLeft
      · exact ihRight inRight
  | power _ _ ih => exact ih mentioned
  | one => simp [references] at mentioned

private theorem run_bind_eq_ok_iff {computation : ExceptT Fault Id PhysicalUnit}
    {next : PhysicalUnit → ExceptT Fault Id PhysicalUnit}
    {result : PhysicalUnit} :
    (computation >>= next).run = .ok result ↔
      ∃ unit, computation.run = .ok unit ∧ (next unit).run = .ok result := by
  change ExceptT.bindCont next computation.run = _ ↔ _
  cases found : computation.run with
  | ok unit =>
      constructor
      · exact fun run => ⟨unit, rfl, run⟩
      · rintro ⟨other, same, run⟩
        cases same
        exact run
  | error fault =>
      constructor
      · intro run
        have impossible : Except.error fault = Except.ok result := run
        contradiction
      · rintro ⟨other, impossible, -⟩
        contradiction

private theorem run_overflow_eq_ok_iff {unit? : Option PhysicalUnit}
    {expression : String} {span : Span} {unit : PhysicalUnit} :
    (ExceptT.mk (pure (orOverflow unit? expression span)) :
      ExceptT Fault Id PhysicalUnit).run = .ok unit ↔
      unit? = some unit :=
  orOverflow_eq_ok_iff

/-- An expression evaluates without a fault exactly when it has a value. -/
theorem run_evaluate_eq_ok_iff {reference : String → Except Fault PhysicalUnit}
    {expression : UnitExpr} {unit : PhysicalUnit} :
    (expression.evaluate (m := Id) reference).run = .ok unit ↔
      expression.Evaluates (fun name unit => reference name = .ok unit)
        unit := by
  induction expression generalizing unit with
  | reference span name =>
      rw [evaluates_reference_iff]
      change (reference name).mapError (·.orAt span) = .ok unit ↔ _
      cases reference name <;> simp [Except.mapError]
  | product span left right ihLeft ihRight =>
      rw [evaluates_product_iff, evaluate, run_bind_eq_ok_iff]
      simp only [ihLeft, run_bind_eq_ok_iff, ihRight, run_overflow_eq_ok_iff,
        exists_and_left]
  | quotient span left right ihLeft ihRight =>
      rw [evaluates_quotient_iff, evaluate, run_bind_eq_ok_iff]
      simp only [ihLeft, run_bind_eq_ok_iff, ihRight, run_overflow_eq_ok_iff,
        exists_and_left]
  | power span base exponent ih =>
      rw [evaluates_power_iff, evaluate, run_bind_eq_ok_iff]
      simp only [ih, run_overflow_eq_ok_iff]
  | one span =>
      rw [evaluates_one_iff]
      change Except.ok PhysicalUnit.one = .ok unit ↔ _
      simp [eq_comm]

end UnitExpr

/-! ## The least values -/

namespace HasUnit

variable {declared : UnitDeclaration → Prop} {isDimension : String → Prop}

/--
Induction over the unfoldings: the values that a definition mentions may be
assumed to satisfy the motive.
-/
@[elab_as_elim, induction_eliminator]
theorem inductionOn
    {motive : (name : String) → (unit : PhysicalUnit) →
      HasUnit declared isDimension name unit → Prop}
    {name : String} {unit : PhysicalUnit}
    (value : HasUnit declared isDimension name unit)
    (derived : ∀ {declaration : UnitDeclaration} {definition : UnitExpr}
      {unit result : PhysicalUnit}
      (member : declared declaration)
      (written : declaration.definition = some definition)
      (evaluated : definition.Evaluates (HasUnit declared isDimension) unit)
      (finished : declaration.Finishes unit result),
      definition.Evaluates (fun name unit => ∃ value, motive name unit value)
        unit →
      motive declaration.name result
        (.derived member written evaluated finished))
    (base : ∀ {declaration : UnitDeclaration} {dimension : Located String}
      {unit result : PhysicalUnit} (member : declared declaration)
      (undefined : declaration.definition = none)
      (written : declaration.dimension = some dimension)
      (known : isDimension dimension.value)
      (plain : unit.IsPlain [(dimension.value, 1)])
      (finished : declaration.Finishes unit result),
      motive declaration.name result
        (.base member undefined written known plain finished))
    (number : ∀ {declaration : UnitDeclaration} {unit result : PhysicalUnit}
      (member : declared declaration)
      (undefined : declaration.definition = none)
      (dimensionless : declaration.dimension = none)
      (plain : unit.IsPlain []) (finished : declaration.Finishes unit result),
      motive declaration.name result
        (.number member undefined dimensionless plain finished)) :
    motive name unit value :=
  @HasUnit.rec declared isDimension motive
    (fun expression unit _ =>
      expression.Evaluates (fun name unit => ∃ value, motive name unit value)
        unit)
    derived base number
    (fun known holds => .reference ⟨known, holds⟩)
    (fun _ _ combined first second => .product first second combined)
    (fun _ _ combined first second => .quotient first second combined)
    (fun _ raised inner => .power inner raised)
    (fun plain => .one plain)
    name unit value

/-- Only declared units have a value. -/
theorem exists_declared {name : String} {unit : PhysicalUnit}
    (value : HasUnit declared isDimension name unit) :
    ∃ declaration, declared declaration ∧ declaration.name = name := by
  cases value with
  | derived member => exact ⟨_, member, rfl⟩
  | base member => exact ⟨_, member, rfl⟩
  | number member => exact ⟨_, member, rfl⟩

end HasUnit

/-- The names that the definition of a declared unit mentions. -/
def UsesUnit (declared : UnitDeclaration → Prop) (user used : String) : Prop :=
  ∃ declaration definition, declared declaration ∧ declaration.name = user ∧
    declaration.definition = some definition ∧ used ∈ definition.references

/-- A declared unit uses the names in its own definition. -/
theorem UsesUnit.iff_of_declared {declared : UnitDeclaration → Prop}
    (distinct : ∀ first second, declared first → declared second →
      first.name = second.name → first = second)
    {declaration : UnitDeclaration} (member : declared declaration)
    {used : String} :
    UsesUnit declared declaration.name used ↔
      ∃ definition, declaration.definition = some definition ∧
        used ∈ definition.references := by
  constructor
  · rintro ⟨other, definition, otherMember, sameName, written, mentioned⟩
    cases distinct _ _ otherMember member sameName
    exact ⟨definition, written, mentioned⟩
  · rintro ⟨definition, written, mentioned⟩
    exact ⟨declaration, definition, member, rfl, written, mentioned⟩

namespace HasUnit

variable {declared : UnitDeclaration → Prop} {isDimension : String → Prop}
  (distinct : ∀ first second, declared first → declared second →
    first.name = second.name → first = second)
include distinct

/-- What a declared unit stands for is read off its own declaration. -/
theorem iff_of_declared {declaration : UnitDeclaration}
    (member : declared declaration) {result : PhysicalUnit} :
    HasUnit declared isDimension declaration.name result ↔
      match declaration.definition, declaration.dimension with
      | some definition, _ =>
          ∃ unit, definition.Evaluates (HasUnit declared isDimension) unit ∧
            declaration.Finishes unit result
      | none, some dimension =>
          isDimension dimension.value ∧
            declaration.Finishes (.base dimension.value) result
      | none, none => declaration.Finishes .one result := by
  constructor
  · intro value
    generalize sameName : declaration.name = name at value
    cases value with
    | derived other written evaluated finished =>
        have same := distinct _ _ member other sameName
        subst same
        rw [written]
        exact ⟨_, evaluated, finished⟩
    | base other undefined written known plain finished =>
        have same := distinct _ _ member other sameName
        subst same
        rw [undefined, written]
        rw [PhysicalUnit.isPlain_singleton_iff.mp plain] at finished
        exact ⟨known, finished⟩
    | number other undefined dimensionless plain finished =>
        have same := distinct _ _ member other sameName
        subst same
        rw [undefined, dimensionless]
        rw [PhysicalUnit.isPlain_nil_iff.mp plain] at finished
        exact finished
  · intro rule
    split at rule
    · next written =>
        rcases rule with ⟨unit, evaluated, finished⟩
        exact .derived member written evaluated finished
    · next dimension undefined written =>
        exact .base member undefined written rule.1
          (PhysicalUnit.isPlain_base dimension.value) rule.2
    · next undefined dimensionless =>
        exact .number member undefined dimensionless PhysicalUnit.isPlain_one
          rule

end HasUnit

theorem UnitDeclaration.Finishes.unique {declaration : UnitDeclaration}
    {unit first second : PhysicalUnit} (left : declaration.Finishes unit first)
    (right : declaration.Finishes unit second) : first = second := by
  cases left with
  | unscaled absent =>
      cases right with
      | unscaled => rfl
      | scaled written =>
          rw [absent] at written
          contradiction
  | scaled written =>
      cases right with
      | unscaled absent =>
          rw [absent] at written
          contradiction
      | scaled written' =>
          rw [written] at written'
          cases written'
          rfl

theorem UnitDeclaration.finish_eq_ok_iff {declaration : UnitDeclaration}
    {unit result : PhysicalUnit} :
    declaration.finish unit = .ok result ↔
      declaration.Finishes unit result := by
  unfold finish
  constructor
  · intro finished
    split at finished
    · next absent =>
        cases finished
        exact .unscaled absent
    · next scale written =>
        split at finished
        · next valid =>
            cases finished
            simp only [isScale, Bool.and_eq_true, decide_eq_true_eq] at valid
            exact .scaled written valid.1 valid.2
        · contradiction
  · intro finished
    cases finished with
    | unscaled absent =>
        rw [absent]
        rfl
    | scaled written finite positive =>
        simp [written, isScale, finite, positive, PhysicalUnit.scaled,
          PhysicalUnit.labelled]

namespace HasUnit

variable {declared : UnitDeclaration → Prop} {isDimension : String → Prop}
  (distinct : ∀ first second, declared first → declared second →
    first.name = second.name → first = second)
include distinct

/-- A unit has one value. -/
theorem unique {name : String} {first second : PhysicalUnit}
    (left : HasUnit declared isDimension name first)
    (right : HasUnit declared isDimension name second) :
    first = second := by
  induction left generalizing second with
  | derived member written _ finished evaluated =>
      have rule := (iff_of_declared distinct member).mp right
      rw [written] at rule
      rcases rule with ⟨unit, evaluated', finished'⟩
      have sameUnit :=
        evaluated.unique (fun _ _ _ left right => left.2 right) evaluated'
      subst sameUnit
      exact finished.unique finished'
  | base member undefined written known plain finished =>
      have rule := (iff_of_declared distinct member).mp right
      rw [undefined, written] at rule
      rw [PhysicalUnit.isPlain_singleton_iff.mp plain] at finished
      exact finished.unique rule.2
  | number member undefined dimensionless plain finished =>
      have rule := (iff_of_declared distinct member).mp right
      rw [undefined, dimensionless] at rule
      rw [PhysicalUnit.isPlain_nil_iff.mp plain] at finished
      exact finished.unique rule

/-- A unit with a value does not depend on itself. -/
theorem acc {name : String} {unit : PhysicalUnit}
    (value : HasUnit declared isDimension name unit) :
    Acc (Function.swap (UsesUnit declared)) name := by
  induction value with
  | derived member written _ _ evaluated =>
      apply Acc.intro
      intro used uses
      rcases (UsesUnit.iff_of_declared distinct member).mp uses with
        ⟨definition, written', mentioned⟩
      rw [written] at written'
      cases written'
      rcases evaluated.exists_of_mem_references mentioned with
        ⟨_, _, accessible⟩
      exact accessible
  | base member undefined | number member undefined =>
      apply Acc.intro
      intro used uses
      rcases (UsesUnit.iff_of_declared distinct member).mp uses with
        ⟨definition, written, _⟩
      rw [undefined] at written
      contradiction

end HasUnit

/-! ## Evaluation -/

section

variable {σ : Type} {computation : ExceptT Fault (StateM σ) PhysicalUnit}
  {state : σ}
  (next : PhysicalUnit → ExceptT Fault (StateM σ) PhysicalUnit)

theorem run_bind_of_ok {unit : PhysicalUnit}
    (found : (computation.run state).1 = .ok unit) :
    (computation >>= next).run state =
      (next unit).run (computation.run state).2 := by
  change ExceptT.bindCont next (computation.run state).1
    (computation.run state).2 = _
  rw [found]
  rfl

theorem run_bind_of_error {fault : Fault}
    (failed : (computation.run state).1 = .error fault) :
    (computation >>= next).run state =
      (.error fault, (computation.run state).2) := by
  change ExceptT.bindCont next (computation.run state).1
    (computation.run state).2 = _
  rw [failed]
  rfl

end

/--
An outcome decides a meaning: it is a unit with that meaning, or a fault where
there is none.
-/
def Decides (meaning : PhysicalUnit → Prop) : Except Fault PhysicalUnit → Prop
  | .ok unit => meaning unit
  | .error _ => ∀ unit, ¬ meaning unit

/--
A computation keeps an invariant of the table, and its outcome decides a
meaning.
-/
def Computes (invariant : UnitTable → Prop) (meaning : PhysicalUnit → Prop)
    (computation : ExceptT Fault (StateM UnitTable) PhysicalUnit) : Prop :=
  ∀ table, invariant table →
    invariant (computation.run table).2 ∧
      Decides meaning (computation.run table).1

namespace Computes

variable {invariant : UnitTable → Prop} {meaning : PhysicalUnit → Prop}

theorem outcome {outcome : Except Fault PhysicalUnit}
    (decided : Decides meaning outcome) :
    Computes invariant meaning (ExceptT.mk (pure outcome)) :=
  fun _ holds => ⟨holds, decided⟩

theorem adapt {computation : ExceptT Fault (StateM UnitTable) PhysicalUnit}
    (computes : Computes invariant meaning computation)
    (change : Fault → Fault) :
    Computes invariant meaning (computation.adapt change) := by
  intro table holds
  rcases computes table holds with ⟨kept, decided⟩
  have run : (computation.adapt change).run table =
      ((computation.run table).1.mapError change, (computation.run table).2) :=
        rfl
  rw [run]
  refine ⟨kept, ?_⟩
  cases found : (computation.run table).1 with
  | ok unit =>
      rw [found] at decided
      exact decided
  | error fault =>
      rw [found] at decided
      exact decided

/-- One computation after another, where the second meaning needs the first. -/
theorem bind {first : PhysicalUnit → Prop}
    {computation : ExceptT Fault (StateM UnitTable) PhysicalUnit}
    {next : PhysicalUnit → ExceptT Fault (StateM UnitTable) PhysicalUnit}
    (computes : Computes invariant first computation)
    (continues : ∀ unit, first unit → Computes invariant meaning (next unit))
    (needed : ∀ result, meaning result → ∃ unit, first unit) :
    Computes invariant meaning (computation >>= next) := by
  intro table holds
  rcases computes table holds with ⟨kept, decided⟩
  cases found : (computation.run table).1 with
  | ok unit =>
      rw [found] at decided
      rw [run_bind_of_ok next found]
      exact continues unit decided _ kept
  | error fault =>
      rw [found] at decided
      rw [run_bind_of_error next found]
      refine ⟨kept, ?_⟩
      intro result meant
      rcases needed result meant with ⟨unit, holds⟩
      exact decided unit holds

/-- The meaning can be replaced by an equivalent one. -/
theorem congr {other : PhysicalUnit → Prop}
    {computation : ExceptT Fault (StateM UnitTable) PhysicalUnit}
    (computes : Computes invariant meaning computation)
    (same : ∀ unit, other unit ↔ meaning unit) :
    Computes invariant other computation := by
  have equal : other = meaning := funext fun unit => propext (same unit)
  rw [equal]
  exact computes

theorem overflow (unit? : Option PhysicalUnit) (expression : String)
    (span : Span) :
    Computes invariant (fun unit => unit? = some unit)
      (ExceptT.mk (pure (orOverflow unit? expression span))) := by
  apply outcome
  cases unit? with
  | some unit => exact rfl
  | none =>
      intro unit impossible
      contradiction

/-- Two operands are computed one after the other and then combined. -/
theorem combined {left right : PhysicalUnit → Prop}
    {leftComputation rightComputation : ExceptT Fault (StateM UnitTable)
      PhysicalUnit}
    (inLeft : Computes invariant left leftComputation)
    (inRight : Computes invariant right rightComputation)
    (uniqueLeft : ∀ first second, left first → left second → first = second)
    (uniqueRight : ∀ first second, right first → right second → first = second)
    (combine : PhysicalUnit → PhysicalUnit → Option PhysicalUnit)
    (text : PhysicalUnit → PhysicalUnit → String) (span : Span) :
    Computes invariant
      (fun unit =>
        ∃ leftUnit rightUnit, left leftUnit ∧ right rightUnit ∧
          combine leftUnit rightUnit = some unit)
      (do
        let leftUnit ← leftComputation
        let rightUnit ← rightComputation
        ExceptT.mk
          (pure (orOverflow (combine leftUnit rightUnit)
            (text leftUnit rightUnit) span))) := by
  refine inLeft.bind (fun leftUnit leftMeant =>
    inRight.bind (fun rightUnit rightMeant => ?_) ?_) ?_
  · refine (overflow _ _ span).congr fun unit =>
      ⟨?_, fun found => ⟨_, _, leftMeant, rightMeant, found⟩⟩
    rintro ⟨otherLeft, otherRight, leftMeant', rightMeant', found⟩
    rw [uniqueLeft _ _ leftMeant leftMeant',
      uniqueRight _ _ rightMeant rightMeant']
    exact found
  · rintro result ⟨_, otherRight, _, rightMeant, _⟩
    exact ⟨otherRight, rightMeant⟩
  · rintro result ⟨otherLeft, _, leftMeant, _, _⟩
    exact ⟨otherLeft, leftMeant⟩

/-- An expression is computed where its references are. -/
theorem evaluate {value : String → PhysicalUnit → Prop}
    (functional : ∀ name first second, value name first → value name second →
      first = second)
    {reference : String → ExceptT Fault (StateM UnitTable) PhysicalUnit}
    {expression : UnitExpr}
    (references : ∀ name ∈ expression.references,
      Computes invariant (value name) (reference name)) :
    Computes invariant (expression.Evaluates value)
      (expression.evaluate reference) := by
  have unique : ∀ {part : UnitExpr} (first second : PhysicalUnit),
      part.Evaluates value first → part.Evaluates value second →
        first = second :=
    fun _ _ => UnitExpr.Evaluates.unique functional
  induction expression with
  | reference span name =>
      have known :=
        (references name (by simp [UnitExpr.references])).adapt (·.orAt span)
      exact known.congr fun unit => UnitExpr.evaluates_reference_iff
  | product span left right ihLeft ihRight =>
      have inLeft :=
        ihLeft fun name found => references name (List.mem_append_left _ found)
      have inRight :=
        ihRight fun name found =>
          references name (List.mem_append_right _ found)
      apply (combined inLeft inRight unique unique PhysicalUnit.multiply? _
        span).congr
      exact fun unit => UnitExpr.evaluates_product_iff
  | quotient span left right ihLeft ihRight =>
      have inLeft :=
        ihLeft fun name found => references name (List.mem_append_left _ found)
      have inRight :=
        ihRight fun name found =>
          references name (List.mem_append_right _ found)
      apply (combined inLeft inRight unique unique PhysicalUnit.divide? _
        span).congr
      exact fun unit => UnitExpr.evaluates_quotient_iff
  | power span base exponent ih =>
      refine (ih references).bind (fun baseUnit baseValue => ?_) ?_
      · refine (overflow (baseUnit.power? exponent) _ span).congr fun unit => ?_
        rw [UnitExpr.evaluates_power_iff]
        constructor
        · rintro ⟨other, inner, raised⟩
          rw [unique _ _ baseValue inner]
          exact raised
        · exact fun raised => ⟨baseUnit, baseValue, raised⟩
      · intro result evaluated
        rcases UnitExpr.evaluates_power_iff.mp evaluated with ⟨other, inner, -⟩
        exact ⟨other, inner⟩
  | one span => exact fun table holds => ⟨holds, .one PhysicalUnit.isPlain_one⟩

end Computes

/-! ## Settling units -/

section

variable {declarations : List UnitDeclaration} {isDimension : String → Bool}

/-- The values that a list of unit declarations gives. -/
abbrev UnitOf (isDimension : String → Bool)
    (declarations : List UnitDeclaration) :
    String → PhysicalUnit → Prop :=
  HasUnit (· ∈ declarations) (fun name => isDimension name = true)

/-- Of a declared unit the scale and the label come after the definition. -/
theorem Computes.declaration
    (distinct : ∀ first second, first ∈ declarations → second ∈ declarations →
      first.name = second.name →
      first = second)
    {invariant : UnitTable → Prop} {declaration : UnitDeclaration}
    (member : declaration ∈ declarations)
    {reference : String → ExceptT Fault (StateM UnitTable) PhysicalUnit}
    (references : ∀ definition, declaration.definition = some definition →
      ∀ name ∈ definition.references,
      Computes invariant (UnitOf isDimension declarations name)
        (reference name)) :
    Computes invariant (UnitOf isDimension declarations declaration.name)
      (declaration.evaluate isDimension reference) := by
  have functional : ∀ name first second,
      UnitOf isDimension declarations name first →
      UnitOf isDimension declarations name second → first = second :=
    fun _ _ _ => HasUnit.unique distinct
  have finish : ∀ unit, Computes invariant (declaration.Finishes unit)
      (ExceptT.mk (pure (declaration.finish unit))) := by
    intro unit
    apply Computes.outcome
    cases found : declaration.finish unit with
    | ok result => exact UnitDeclaration.finish_eq_ok_iff.mp found
    | error fault =>
        intro result finished
        rw [UnitDeclaration.finish_eq_ok_iff.mpr finished] at found
        contradiction
  unfold UnitDeclaration.evaluate
  refine Computes.congr ?_ fun result => HasUnit.iff_of_declared distinct member
  cases written : declaration.definition with
  | some definition =>
      refine (Computes.evaluate functional (references definition written)).bind
        (fun unit value => ?_) ?_
      · refine (finish unit).congr fun result =>
          ⟨?_, fun finished => ⟨unit, value, finished⟩⟩
        rintro ⟨other, value', finished⟩
        rw [value.unique functional value']
        exact finished
      · rintro result ⟨unit, value, -⟩
        exact ⟨unit, value⟩
  | none =>
      cases declaration.dimension with
      | some dimension =>
          simp only
          cases isDimension dimension.value with
          | true =>
              exact (finish (.base dimension.value)).congr fun result => by simp
          | false =>
              exact fun table holds =>
                ⟨holds, fun unit meant => absurd meant.1 Bool.false_ne_true⟩
      | none => exact finish .one

theorem Fault.orAt_orAt (fault : Fault) (span : Span) :
    (fault.orAt span).orAt span = fault.orAt span := by
  unfold Fault.orAt Span.orElse
  by_cases unplaced : fault.span = .unknown
  · simp only [unplaced, if_true]
    split
    · rfl
    · rfl
  · simp only [unplaced, if_false]

/-- A fault that was given a position keeps it. -/
theorem orAt_of_run_adapt_eq_error
    {computation : ExceptT Fault (StateM UnitTable) PhysicalUnit} {span : Span}
    {table : UnitTable} {fault : Fault}
    (failed : ((computation.adapt (·.orAt span)).run table).1 = .error fault) :
    fault.orAt span = fault := by
  change (computation.run table).1.mapError (·.orAt span) =
    .error fault at failed
  cases found : (computation.run table).1 with
  | ok unit => simp [found, Except.mapError] at failed
  | error original =>
      rw [found] at failed
      cases failed
      exact original.orAt_orAt span

namespace UnitTable

/--
A unit that is not settled yet is evaluated with its name on the stack, and its
outcome is noted.
-/
theorem run_settle_of_unsettled {unbegun : List UnitDeclaration}
    {stack : List String} {name : String} {table : UnitTable}
    {declaration : UnitDeclaration} (unsettled : table.lookup name = none)
    (fresh : name ∉ stack)
    (found : unbegun.find? (fun candidate => candidate.name == name) =
      some declaration) :
    let evaluated :=
      ((declaration.evaluate isDimension
        (settle isDimension (without UnitDeclaration.name unbegun name)
          (stack ++ [name]))).adapt
        (·.orAt declaration.span)).run table
    (settle isDimension unbegun stack name).run table =
      (evaluated.1, evaluated.2 ++ [(name, evaluated.1)]) := by
  rw [settle, run_get_bind]
  simp only [unsettled, fresh, if_false]
  split
  · next missing =>
      rw [found] at missing
      contradiction
  · next other found' =>
      rw [found] at found'
      cases found'
      rfl

theorem run_settle_of_settled {unbegun : List UnitDeclaration}
    {stack : List String} {name : String} {table : UnitTable}
    {outcome : Except Fault PhysicalUnit}
    (settled : table.lookup name = some outcome) :
    (settle isDimension unbegun stack name).run table = (outcome, table) := by
  rw [settle, run_get_bind, settled]
  rfl

/-- A unit on the stack closes a cycle. -/
theorem run_settle_of_mem_stack {unbegun : List UnitDeclaration}
    {stack : List String} {name : String} {table : UnitTable}
    (unsettled : table.lookup name = none) (open_ : name ∈ stack) :
    (settle isDimension unbegun stack name).run table =
      (.error ⟨.cyclicUnit (stack.dropWhile (· != name) ++ [name]), .unknown⟩,
        table) := by
  rw [settle, run_get_bind]
  simp only [unsettled, open_, if_true]
  rfl

theorem run_settle_of_undeclared {unbegun : List UnitDeclaration}
    {stack : List String} {name : String} {table : UnitTable}
    (unsettled : table.lookup name = none) (fresh : name ∉ stack)
    (missing : unbegun.find? (fun candidate => candidate.name == name) = none) :
    (settle isDimension unbegun stack name).run table =
      (.error ⟨.undeclaredUnit name, .unknown⟩, table) := by
  rw [settle, run_get_bind]
  simp only [unsettled, fresh, if_false]
  split
  · rfl
  · next found =>
      rw [missing] at found
      contradiction

/--
While `stack` is being settled, the table holds right outcomes, every fault in
it has the position of its declaration if it has none of its own, every declared
unit is settled, on the stack or not begun, and what was settled before stays
so.
-/
structure Consistent (isDimension : String → Bool)
    (declarations unbegun : List UnitDeclaration) (stack settled : List String)
    (table : UnitTable) : Prop where
  decided : ∀ {name outcome}, table.lookup name = some outcome →
    Decides (UnitOf isDimension declarations name) outcome
  placed : ∀ {name fault}, table.lookup name = some (.error fault) →
    ∃ declaration ∈ declarations, declaration.name = name ∧
      fault.orAt declaration.span = fault
  covered : ∀ declaration ∈ declarations,
    (table.lookup declaration.name).isSome ∨ declaration.name ∈ stack ∨
      declaration ∈ unbegun
  kept : ∀ name ∈ settled, (table.lookup name).isSome

namespace Consistent

variable {unbegun : List UnitDeclaration} {stack settled : List String}
  {name : String} {table : UnitTable}

theorem enter
    (consistent : Consistent isDimension declarations unbegun stack settled
      table)
    (name : String) :
    Consistent isDimension declarations
      (without UnitDeclaration.name unbegun name) (stack ++ [name]) settled
      table where
  decided := consistent.decided
  placed := consistent.placed
  covered := by
    intro declaration member
    rcases consistent.covered declaration member with
      isSettled | isOpen | isUnbegun
    · exact .inl isSettled
    · exact .inr (.inl (List.mem_append_left _ isOpen))
    · by_cases same : declaration.name = name
      · exact .inr (.inl (by simp [same]))
      · exact .inr (.inr (mem_without_iff.mpr ⟨isUnbegun, same⟩))
  kept := consistent.kept

/-- Entering a decided outcome keeps the table consistent. -/
theorem leave {outcome : Except Fault PhysicalUnit}
    (consistent : Consistent isDimension declarations
      (without UnitDeclaration.name unbegun name) (stack ++ [name]) settled
      table)
    (decided : Decides (UnitOf isDimension declarations name) outcome)
    (placed : ∀ fault, outcome = .error fault →
      ∃ declaration ∈ declarations, declaration.name = name ∧
        fault.orAt declaration.span = fault) :
    Consistent isDimension declarations unbegun stack settled
      (table ++ [(name, outcome)]) where
  decided := by
    intro other found known
    rw [lookup_concat, Option.or_eq_some_iff] at known
    rcases known with known | ⟨-, known⟩
    · exact consistent.decided known
    · split at known
      · next same =>
          cases known
          rw [same]
          exact decided
      · contradiction
  placed := by
    intro other fault known
    rw [lookup_concat, Option.or_eq_some_iff] at known
    rcases known with known | ⟨-, known⟩
    · exact consistent.placed known
    · split at known
      · next same =>
          rw [same]
          exact placed fault (Option.some.inj known)
      · contradiction
  covered := by
    intro declaration member
    rw [lookup_concat]
    rcases consistent.covered declaration member with
      isSettled | isOpen | isUnbegun
    · exact .inl (by simp [isSettled])
    · rcases List.mem_append.mp isOpen with older | newest
      · exact .inr (.inl older)
      · rw [List.mem_singleton] at newest
        exact .inl (by simp [newest])
    · exact .inr (.inr (mem_without_iff.mp isUnbegun).1)
  kept := by
    intro other known
    rw [lookup_concat]
    simp [consistent.kept other known]

end Consistent

/--
Settling a unit keeps the table consistent and decides what the unit stands for.
-/
theorem computes_settle
    (distinct : ∀ first second, first ∈ declarations → second ∈ declarations →
      first.name = second.name →
      first = second)
    (unbegun : List UnitDeclaration)
    (included : ∀ declaration ∈ unbegun, declaration ∈ declarations)
    (stack settled : List String) (name : String)
    (below : ∀ user ∈ stack,
      Relation.TransGen (UsesUnit (· ∈ declarations)) user name) :
    Computes (Consistent isDimension declarations unbegun stack settled)
      (UnitOf isDimension declarations name)
      (settle isDimension unbegun stack name) := by
  -- The induction is on the declarations that were not begun, of which each
  -- reference that is followed takes one.
  induction size : unbegun.length using Nat.strongRecOn
    generalizing unbegun stack name with
  | ind size ih =>
      intro table consistent
      cases known : table.lookup name with
      | some outcome =>
          rw [run_settle_of_settled known]
          exact ⟨consistent, consistent.decided known⟩
      | none =>
          by_cases onStack : name ∈ stack
          · rw [run_settle_of_mem_stack known onStack]
            refine ⟨consistent, fun unit value => ?_⟩
            exact not_transGen_self_of_acc (value.acc distinct)
              (below name onStack)
          · cases found : unbegun.find?
              (fun candidate => candidate.name == name) with
            | none =>
                rw [run_settle_of_undeclared known onStack found]
                refine ⟨consistent, fun unit value => ?_⟩
                rcases value.exists_declared with ⟨declaration, member, rfl⟩
                rcases consistent.covered declaration member with
                  isSettled | isOpen | isUnbegun
                · simp [known] at isSettled
                · exact onStack isOpen
                · have missing :=
                    List.find?_eq_none.mp found declaration isUnbegun
                  simp at missing
            | some declaration =>
                rw [run_settle_of_unsettled known onStack found]
                have unbegunMember : declaration ∈ unbegun :=
                  List.mem_of_find?_eq_some found
                have named : declaration.name = name := by
                  simpa using List.find?_some found
                have member := included declaration unbegunMember
                have references : ∀ definition,
                    declaration.definition = some definition →
                    ∀ used ∈ definition.references,
                      Computes
                        (Consistent isDimension declarations
                          (without UnitDeclaration.name unbegun name)
                          (stack ++ [name]) settled)
                        (UnitOf isDimension declarations used)
                        (settle isDimension
                          (without UnitDeclaration.name unbegun name)
                          (stack ++ [name]) used) := by
                  intro definition written used mentioned
                  have step : UsesUnit (· ∈ declarations) name used :=
                    named ▸
                      (UsesUnit.iff_of_declared distinct member).mpr
                        ⟨definition, written, mentioned⟩
                  apply ih _ (size ▸ length_without_lt found) _ _ _ _ _ rfl
                  · exact fun other kept =>
                      included other (mem_without_iff.mp kept).1
                  · intro user open_
                    rcases List.mem_append.mp open_ with older | newest
                    · exact (below user older).tail step
                    · rw [List.mem_singleton] at newest
                      exact newest ▸ .single step
                have evaluation :=
                  (Computes.declaration distinct member references).adapt
                    (·.orAt declaration.span)
                rw [named] at evaluation
                rcases evaluation table (consistent.enter name) with
                  ⟨kept, decided⟩
                refine ⟨kept.leave decided fun fault failed => ?_, decided⟩
                exact ⟨declaration, member, named,
                  orAt_of_run_adapt_eq_error failed⟩

/-- After its turn a declared unit is settled. -/
theorem Consistent.extend {settled : List String} {table : UnitTable}
    {declaration : UnitDeclaration}
    (distinct : ∀ first second, first ∈ declarations → second ∈ declarations →
      first.name = second.name →
      first = second)
    (consistent : Consistent isDimension declarations declarations [] settled
      table)
    (member : declaration ∈ declarations) :
    Consistent isDimension declarations declarations []
      (declaration.name :: settled)
      (UnitTable.extend isDimension declarations table declaration) := by
  rcases computes_settle distinct declarations (fun _ found => found) [] settled
    declaration.name (by simp)
    table consistent with ⟨kept, -⟩
  refine ⟨kept.decided, kept.placed, kept.covered, ?_⟩
  rw [List.forall_mem_cons]
  refine ⟨?_, kept.kept⟩
  unfold UnitTable.extend
  cases known : table.lookup declaration.name with
  | some outcome =>
      rw [run_settle_of_settled known, known]
      rfl
  | none =>
      cases found : declarations.find?
        (fun candidate => candidate.name == declaration.name) with
      | none =>
          have missing := List.find?_eq_none.mp found declaration member
          simp at missing
      | some other =>
          rw [run_settle_of_unsettled known (by simp) found, lookup_concat]
          simp

/-- After the turns of some declared units all of them are settled. -/
theorem Consistent.foldl_extend {settled : List String} {table : UnitTable}
    {turns : List UnitDeclaration}
    (distinct : ∀ first second, first ∈ declarations → second ∈ declarations →
      first.name = second.name →
      first = second)
    (consistent : Consistent isDimension declarations declarations [] settled
      table)
    (included : ∀ declaration ∈ turns, declaration ∈ declarations) :
    Consistent isDimension declarations declarations []
      (turns.map UnitDeclaration.name ++ settled)
      (turns.foldl (UnitTable.extend isDimension declarations) table) := by
  induction turns generalizing settled table with
  | nil => exact consistent
  | cons declaration rest ih =>
      rw [List.forall_mem_cons] at included
      have next := ih (consistent.extend distinct included.1) included.2
      refine ⟨next.decided, next.placed, next.covered, ?_⟩
      intro name found
      apply next.kept
      simp only [List.map_cons, List.cons_append, List.mem_cons,
        List.mem_append] at found ⊢
      tauto

/-- In the end every declared unit is settled. -/
theorem consistent_ofDeclarations
    (distinct : ∀ first second, first ∈ declarations → second ∈ declarations →
      first.name = second.name →
      first = second) :
    Consistent isDimension declarations declarations []
      (declarations.map UnitDeclaration.name)
      (ofDeclarations isDimension declarations) := by
  have start : Consistent isDimension declarations declarations [] [] [] :=
    ⟨by simp, by simp, fun declaration member => .inr (.inr member), by simp⟩
  have final := start.foldl_extend distinct fun _ member => member
  rw [List.append_nil] at final
  exact final

theorem find_of_lookup {table : UnitTable} {name : String}
    {outcome : Except Fault PhysicalUnit}
    (settled : table.lookup name = some outcome) :
    table.find name = outcome := by
  rw [find, settled, Option.getD_some]

/--
A unit that is not found is settled with its fault, or it is not declared.
-/
theorem lookup_of_find_eq_error {table : UnitTable} {name : String}
    {fault : Fault} (failed : table.find name = .error fault) :
    table.lookup name = some (.error fault) ∨
      table.lookup name = none ∧ fault = ⟨.undeclaredUnit name, .unknown⟩ := by
  cases known : table.lookup name with
  | some outcome =>
      rw [find_of_lookup known] at failed
      exact .inl (congrArg some failed)
  | none =>
      rw [find, known, Option.getD_none] at failed
      exact .inr ⟨rfl, (Except.error.inj failed).symm⟩

/--
The table of the declared units holds exactly the values that finite unfolding
gives.
-/
theorem find_ofDeclarations_eq_ok_iff
    (distinct : (declarations.map UnitDeclaration.name).Nodup) {name : String}
    {unit : PhysicalUnit} :
    (ofDeclarations isDimension declarations).find name = .ok unit ↔
      UnitOf isDimension declarations name unit := by
  have injective : ∀ first second, first ∈ declarations →
      second ∈ declarations → first.name = second.name →
      first = second :=
    fun _ _ left right => List.inj_on_of_nodup_map distinct left right
  have final := @consistent_ofDeclarations declarations isDimension injective
  unfold find
  constructor
  · intro found
    cases known : (ofDeclarations isDimension declarations).lookup name with
    | none => simp [known] at found
    | some outcome =>
        rw [known, Option.getD_some] at found
        subst found
        exact final.decided known
  · intro value
    rcases value.exists_declared with ⟨declaration, member, rfl⟩
    have settled := final.kept declaration.name (List.mem_map_of_mem member)
    rcases Option.isSome_iff_exists.mp settled with ⟨outcome, known⟩
    have decided := final.decided known
    rw [known, Option.getD_some]
    cases outcome with
    | ok other => rw [HasUnit.unique injective decided value]
    | error fault => exact absurd value (decided unit)

end UnitTable

end

end SchemaMap
