import SchemaMap.Config
import SchemaMap.Declaration
import SchemaMap.Inference.Trace
import SchemaMap.Ty.Subtype
import SchemaMap.Ty.Text
import SchemaMap.Ty.Union

/-!
# Contexts

Everything that the type of an expression depends on: the configuration, what
the declared names stand for, the type of `$`, and the types of the variables in
reach.  The rules that look at types alone, without a further expression, are
given here.
-/

namespace SchemaMap

/-- What the type of an expression depends on. -/
structure Context where
  config : Config
  kind : String → Option Kind
  source : Option Ty
  variableType : String → Option Ty

namespace Context

/-- The context inside a lambda with the given parameters. -/
def withVariables (context : Context) (bound : List (String × Ty)) : Context :=
  { context with
    variableType := fun name =>
      (bound.lookup name).orElse (fun _ => context.variableType name) }

/-- Whether a value of the first type may stand where the second is expected. -/
def accepts (context : Context) (found expected : Ty) : Bool :=
  Ty.isSubtype context.config.numericWidening found expected

/-- The fields behind a handle of a schema. -/
def fields (context : Context) (name : String) (arguments : List Ty) :
    List (String × Ty) :=
  match context.kind name with
  | some (.schema schema _) => schema.fieldsAt arguments
  | _ => []

/-- The type of a field of a value, at a step of a path. -/
def fieldType (context : Context) (base : Ty) (field : String) (span : Span) :
    Except Fault Ty :=
  match base with
  | .schema name arguments _ _ =>
      match (context.fields name arguments).lookup field with
      | some type => .ok type
      | none => .error ⟨.fieldNotFound base.text field, span⟩
  | .unknown => .ok .unknown
  | _ => .error ⟨.fieldOfNonSchema base.text field, span⟩

/--
The type that a target names: each of its names must be a field of a schema.
-/
def walk (context : Context) (target : Ty) :
    List (Located String) → Except Fault Ty
  | [] => .ok target
  | field :: rest =>
      match target with
      | .schema name arguments _ _ =>
          match (context.fields name arguments).lookup field.value with
          | some type => context.walk type rest
          | none => .error ⟨.fieldNotFound target.text field.value, field.span⟩
      | .unknown => context.walk .unknown rest
      | other => .error ⟨.fieldOfNonSchema other.text field.value, field.span⟩

/-- A target is walked as a path is, field by field. -/
theorem walk_cons (context : Context) (target : Ty) (field : Located String)
    (rest : List (Located String)) :
    context.walk target (field :: rest) =
      (do
        let type ← context.fieldType target field.value field.span
        context.walk type rest) := by
  cases target with
  | schema name arguments parameters fields =>
      rw [walk, fieldType]
      cases (context.fields name arguments).lookup field.value <;> rfl
  | _ => rfl

/-- The type of the elements of a value. -/
def elementType (base : Ty) (span : Span) : Except Fault Ty :=
  match base with
  | .array element => .ok element
  | .unknown => .ok .unknown
  | _ => .error ⟨.indexOfNonArray base.text, span⟩

/-- The type at the start of a path. -/
def rootType (context : Context) (root : PathRoot) (span : Span) :
    Except Fault Ty :=
  match root with
  | .source => .ok (context.source.getD .unknown)
  | .named name =>
      match context.variableType name with
      | some type => .ok type
      | none => .error ⟨.unknownName name, span⟩

/-- The type of an operator between operands of two types. -/
def binaryType (operator : Operator) (left right : Ty) (span : Span) :
    Except Fault Ty :=
  match operator.category with
  | .additive =>
      match left, right with
      | .quantity leftUnit, .quantity rightUnit =>
          if leftUnit.agrees rightUnit then
            .ok left
          else
            .error
              ⟨.unitMismatch operator.text leftUnit.text rightUnit.text, span⟩
      | _, _ => .ok left
  | .multiplicative =>
      match left, right with
      | .quantity leftUnit, .quantity rightUnit =>
          let combined :=
            if operator = .slash then
              leftUnit.divide? rightUnit
            else
              leftUnit.multiply? rightUnit
          match combined with
          | some unit => .ok (.quantity unit)
          | none =>
              .error ⟨.exponentOverflow
                (leftUnit.text ++ operator.text ++ rightUnit.text), span⟩
      | _, _ => .ok left
  | .comparison => .ok .bool
  | .logical => .ok .bool
  | .coalescing => .ok right

/-- The type of an operator before an operand. -/
def unaryType (operator : UnaryOperator) (operand : Ty) : Ty :=
  match operator with
  | .not => .bool
  | .negate => operand

/-- The type of a constant. -/
def literalType : Literal → Ty
  | .int _ => .int
  | .float _ => .float
  | .string _ => .string
  | .bool _ => .bool
  | .null => .never

/--
A pattern fits a subject: a variant must be one of the subject's enumeration.
-/
def checkPattern (context : Context) (subject : Ty) :
    Pattern → Except Fault Unit
  | .wildcard _ => .ok ()
  | .literal _ _ => .ok ()
  | .variant span owner choice =>
      match subject.present with
      | .enumeration name _ =>
          match owner.filter (fun written => written != name) with
          | some written => .error ⟨.foreignVariant written choice name, span⟩
          | none =>
              if (((context.kind name).bind Kind.variants?).getD []).contains
                choice then
                .ok ()
              else
                .error ⟨.unknownVariant name choice, span⟩
      | .unknown => .ok ()
      | other => .error ⟨.variantOfNonEnum other.text choice, span⟩

/-- The type of the elements that an aggregate runs over. -/
def aggregateElement (function : Aggregate) (source : Ty) (span : Span) :
    Except Fault Ty :=
  match source with
  | .array element => .ok element
  | .unknown => .ok .unknown
  | _ => .error ⟨.aggregateOfNonArray function.text source.text, span⟩

/--
The type of an aggregate, given those of its source and of what is taken from
each element.
-/
def aggregateType (function : Aggregate) (source body : Ty) : Ty :=
  match function.result with
  | .body => body
  | .arrayOfBody => .array body
  | .sourceArray => source
  | .int => .int

/-- The first key whose type the table does not accept is a fault. -/
def checkKeys (context : Context) (table : String) :
    List (Ty × Ty × Span) → Except Fault Unit
  | [] => .ok ()
  | (found, expected, span) :: rest =>
      if context.accepts found expected then
        context.checkKeys table rest
      else
        .error ⟨.lookupKeyMismatch table expected.text found.text, span⟩

/-- The keys of a lookup fit its declaration, in number and in type. -/
def checkLookup (context : Context) (table : Located String)
    (expected found : List Ty) (spans : List Span) : Except Fault Unit :=
  if found.length = expected.length then
    context.checkKeys table.value (found.zip (expected.zip spans))
  else
    .error ⟨.lookupArity table.value expected.length found.length, table.span⟩

end Context

end SchemaMap
