import SchemaMap.Ty.Substitution

/-!
# Kinds of symbols

What a name stands for: something declared, or a variable of a transform or a
lambda.
-/

namespace SchemaMap

/-- What a transform takes and gives. -/
structure Signature where
  sources : List (Option String × Ty)
  target : Ty

namespace Signature

/--
The type of a transform's source: that of its only source, or the tuple of all.
-/
def source (signature : Signature) : Ty :=
  match signature.sources with
  | [single] => single.2
  | sources => .tuple (sources.map Prod.snd)

/-- Whether every type of the signature is known. -/
def isResolved (signature : Signature) : Bool :=
  !signature.target.isUnknown &&
    signature.sources.all (fun source => !source.2.isUnknown)

end Signature

/-- What a name stands for. -/
inductive Kind where
  | schema (schema : Schema) (parent : Option String)
  | enumeration (variants : List String)
  /-- A unit, with its value once it is known. -/
  | unit (value : Option PhysicalUnit)
  | dimension
  | lookup (keys : List Ty) (value : Ty)
  | transform (signature : Signature)
  | pipeline (steps : List String)
  /-- A named source or a parameter of a lambda. -/
  | binding (type : Ty)

namespace Kind

/-- What such a name is called. -/
def text : Kind → String
  | .schema _ _ => "schema"
  | .enumeration _ => "enum"
  | .unit _ => "unit"
  | .dimension => "dimension"
  | .lookup _ _ => "lookup"
  | .transform _ => "transform"
  | .pipeline _ => "pipeline"
  | .binding _ => "variable"

def schema? : Kind → Option (Schema × Option String)
  | .schema content parent => some (content, parent)
  | _ => none

def variants? : Kind → Option (List String)
  | .enumeration variants => some variants
  | _ => none

def unit? : Kind → Option (Option PhysicalUnit)
  | .unit value => some value
  | _ => none

def isDimension : Kind → Bool
  | .dimension => true
  | _ => false

def lookup? : Kind → Option (List Ty × Ty)
  | .lookup keys value => some (keys, value)
  | _ => none

def signature? : Kind → Option Signature
  | .transform signature => some signature
  | _ => none

def steps? : Kind → Option (List String)
  | .pipeline steps => some steps
  | _ => none

def binding? : Kind → Option Ty
  | .binding type => some type
  | _ => none

end Kind

end SchemaMap
