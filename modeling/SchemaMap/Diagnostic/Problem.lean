import SchemaMap.Decimal.Shortest
import SchemaMap.Diagnostic.Basic

/-!
# Problems

Everything that can be wrong with a program, and what is said about it.  A fault
is a problem at a position.
-/

namespace SchemaMap

/-- What is wrong. -/
inductive Problem where
  | duplicateDefinition (name : String)
  /-- A declaration of a name that a declaration of the given kind has taken. -/
  | alreadyDeclared (name kind : String)
  | unknownParent (schema parent : String)
  | cyclicInheritance (chain : List String)
  | duplicateField (schema field : String)
  | duplicateVariant (owner variant : String)
  | undeclaredUnit (name : String)
  | undeclaredDimension (name : String)
  | cyclicUnit (chain : List String)
  | unitMismatch (operator left right : String)
  /-- The unit expression is given as it is written. -/
  | exponentOverflow (expression : String)
  | invalidScale (unit : String) (scale : Float)
  | undeclaredType (name : String)
  | notAType (name kind : String)
  | genericArity (name : String) (expected found : Nat)
  | fieldNotFound (type field : String)
  | fieldOfNonSchema (type field : String)
  | indexOfNonArray (type : String)
  | unknownName (name : String)
  | aggregateOfNonArray (function found : String)
  | aggregateLambdaArity (function : String) (found : Nat)
  | lookupNotFound (name : String)
  | lookupArity (name : String) (expected found : Nat)
  | lookupKeyMismatch (name expected found : String)
  | unknownVariant (owner variant : String)
  /--
  A variant of the enumeration `written`, where the subject has the type
  `subject`.
  -/
  | foreignVariant (written variant subject : String)
  /-- A variant, where the subject is no enumeration. -/
  | variantOfNonEnum (subject variant : String)
  | typeMismatch (target expected found : String)
  | duplicateTarget (target : String)
  | notATransform (name kind : String)
  | unknownTransform (name : String)
  | stepMismatch (previous next produced expected : String)

namespace Problem

/-- The part of the analysis that finds the problem. -/
def phase : Problem → Phase
  | .duplicateDefinition _ => .resolve
  | .alreadyDeclared _ _ => .resolve
  | .unknownParent _ _ => .resolve
  | .cyclicInheritance _ => .resolve
  | .duplicateField _ _ => .resolve
  | .duplicateVariant _ _ => .resolve
  | _ => .type

/-- A name as it stands in a message. -/
def quoted (name : String) : String :=
  "'" ++ name ++ "'"

/-- What is said about a problem. -/
def message : Problem → String
  | .duplicateDefinition name => "Duplicate definition of " ++ quoted name
  | .alreadyDeclared name _ => "Duplicate definition of " ++ quoted name
  | .unknownParent schema parent =>
      "Schema " ++ quoted schema ++ " extends " ++ quoted parent ++
        ", which is not a declared schema"
  | .cyclicInheritance chain =>
      "Cyclic schema inheritance: " ++ Text.join " -> " chain
  | .duplicateField schema field =>
      "Field " ++ quoted field ++ " is declared twice in schema " ++
        quoted schema
  | .duplicateVariant owner variant =>
      "Variant " ++ quoted variant ++ " is declared twice in enum " ++
        quoted owner
  | .undeclaredUnit name => "Undeclared unit " ++ quoted name
  | .undeclaredDimension name => "Undeclared dimension " ++ quoted name
  | .cyclicUnit chain => "Cyclic unit definition: " ++ Text.join " -> " chain
  | .unitMismatch operator left right =>
      "Unit mismatch: cannot apply " ++ quoted operator ++ " to Quantity<" ++
        left ++
        "> and Quantity<" ++ right ++ ">"
  | .exponentOverflow expression =>
      "Dimension exponent out of range in unit " ++ quoted expression
  | .invalidScale unit scale =>
      "Unit " ++ quoted unit ++ " has scale " ++ Decimal.text scale ++
        ", but a scale must be a positive finite number"
  | .undeclaredType name => "Undeclared schema or enum " ++ quoted name
  | .notAType name kind =>
      quoted name ++ " is a " ++ kind ++ ", not a schema or enum"
  | .genericArity name expected found =>
      quoted name ++ " expects " ++ toString expected ++
        " type argument(s), found " ++ toString found
  | .fieldNotFound type field =>
      "Type " ++ quoted type ++ " has no field " ++ quoted field
  | .fieldOfNonSchema type field =>
      "Cannot access field " ++ quoted field ++ " on non-schema type " ++
        quoted type
  | .indexOfNonArray type => "Cannot index non-array type " ++ quoted type
  | .unknownName name => "Unknown name " ++ quoted name
  | .aggregateOfNonArray function found =>
      quoted function ++ " expects an array source, found " ++ quoted found
  | .aggregateLambdaArity function found =>
      "The lambda passed to " ++ quoted function ++
        " takes exactly one parameter, found " ++ toString found
  | .lookupNotFound name => "Lookup table " ++ quoted name ++ " not found"
  | .lookupArity name expected found =>
      "Lookup " ++ quoted name ++ " takes " ++ toString expected ++
        " key(s), found " ++ toString found
  | .lookupKeyMismatch name expected found =>
      "Lookup " ++ quoted name ++ " key mismatch: expected " ++
        quoted expected ++ ", found " ++ quoted found
  | .unknownVariant owner variant =>
      "Enum " ++ quoted owner ++ " has no variant " ++ quoted variant
  | .foreignVariant written variant _ =>
      "Enum " ++ quoted written ++ " has no variant " ++ quoted variant
  | .variantOfNonEnum subject variant =>
      "Enum " ++ quoted subject ++ " has no variant " ++ quoted variant
  | .typeMismatch target expected found =>
      "Type mismatch: cannot assign " ++ quoted found ++ " to " ++
        quoted target ++ " of type " ++ quoted expected
  | .duplicateTarget target =>
      "Target field " ++ quoted target ++ " is assigned more than once"
  | .notATransform name kind =>
      "Pipeline step " ++ quoted name ++ " is a " ++ kind ++ ", not a transform"
  | .unknownTransform name =>
      "Pipeline step " ++ quoted name ++ " is not a declared transform"
  | .stepMismatch previous next produced expected =>
      "Pipeline step " ++ quoted previous ++ " produces " ++ quoted produced ++
        " but " ++ quoted next ++
        " expects " ++ quoted expected

/-- Both types of a mismatch are quantities. -/
def betweenQuantities (expected found : String) : Bool :=
  Text.beginsWith "Quantity<" expected && Text.beginsWith "Quantity<" found

/-- A value that may be missing meets a field that may not. -/
def lacksFallback (expected found : String) : Bool :=
  Text.endsIn '?' found && !Text.endsIn '?' expected

/-- Remarks on a problem. -/
def notes : Problem → List String
  | .alreadyDeclared name kind =>
      [quoted name ++ " is already declared as a " ++ kind]
  | .unitMismatch _ _ _ =>
      ["Quantities can only be added or subtracted when they " ++
        "share the same dimensions"]
  | .foreignVariant _ _ subject => ["the subject has type " ++ quoted subject]
  | .variantOfNonEnum _ _ => ["variant patterns need an enum subject"]
  | .typeMismatch _ expected found =>
      if betweenQuantities expected found then
        ["Quantities are assignable only when their dimensions agree"]
      else
        []
  | _ => []

/-- What may mend a problem. -/
def hints : Problem → List String
  | .duplicateDefinition _ => ["Each name can be declared once per scope"]
  | .alreadyDeclared _ _ => ["Each name can be declared once per scope"]
  | .undeclaredUnit name =>
      ["Declare it first: unit " ++ name ++ ": <Dimension>"]
  | .undeclaredDimension name => ["Declare it first: dimension " ++ name]
  | .fieldOfNonSchema _ _ => ["Use '?.' to reach into an optional schema"]
  | .unknownName _ =>
      ["Paths start at '$' (the transform source), a named source, " ++
        "or a lambda parameter"]
  | .typeMismatch _ expected found =>
      if betweenQuantities expected found then
        []
      else if lacksFallback expected found then
        ["Provide a fallback: <expr> ?? <" ++ expected ++ ">"]
      else
        []
  | _ => []

end Problem

/-- A problem at a position. -/
structure Fault where
  problem : Problem
  span : Span := .unknown

namespace Fault

/-- The fault at the fallback position if it has none of its own. -/
def orAt (fault : Fault) (fallback : Span) : Fault :=
  { fault with span := fault.span.orElse fallback }

/-- What is told about a fault. -/
def diagnostic (fault : Fault) : Diagnostic :=
  { phase := fault.problem.phase
    message := fault.problem.message
    span := fault.span
    notes := fault.problem.notes
    hints := fault.problem.hints }

/-- The faults with one more, unless the same is told about one of them. -/
def report (faults : List Fault) (fault : Fault) : List Fault :=
  if faults.any (fun known => known.diagnostic = fault.diagnostic) then
    faults
  else
    faults ++ [fault]

end Fault

end SchemaMap
