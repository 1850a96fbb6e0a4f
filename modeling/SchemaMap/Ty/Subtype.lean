import SchemaMap.Ty.Equality

/-!
# Subtypes

A value of a subtype may stand where the larger type is expected.  `never` lies
below and `unknown` above every type; a union lies below what all its members
lie below, and above what one of them lies above; a type lies below its optional
form, never the other way round; arrays and optional types follow their
contents.  With `widening`, `Int` lies below `Float`.
-/

namespace SchemaMap.Ty

mutual

/-- Whether the first type is a subtype of the second. -/
def isSubtype (widening : Bool) (sub sup : Ty) : Bool :=
  equal sub sup ||
    match sub, sup with
    | .never, _ => true
    | _, .unknown => true
    | .union members, sup => allSubtypes widening members sup
    | sub, .union members => anySupertype widening sub members
    | .optional sub, .optional sup => isSubtype widening sub sup
    | .optional _, _ => false
    | sub, .optional sup => isSubtype widening sub sup
    | .array sub, .array sup => isSubtype widening sub sup
    | .primitive .int, .primitive .float => widening
    | _, _ => false
termination_by sizeOf sub + sizeOf sup

/-- Whether every type of a list is a subtype of the given one. -/
def allSubtypes (widening : Bool) (subs : List Ty) (sup : Ty) : Bool :=
  match subs with
  | [] => true
  | sub :: rest => isSubtype widening sub sup && allSubtypes widening rest sup
termination_by sizeOf subs + sizeOf sup

/-- Whether the given type is a subtype of some type of a list. -/
def anySupertype (widening : Bool) (sub : Ty) (sups : List Ty) : Bool :=
  match sups with
  | [] => false
  | sup :: rest => isSubtype widening sub sup || anySupertype widening sub rest
termination_by sizeOf sub + sizeOf sups

end

theorem allSubtypes_eq_all (widening : Bool) (subs : List Ty) (sup : Ty) :
    allSubtypes widening subs sup =
      subs.all (fun sub => isSubtype widening sub sup) := by
  induction subs with
  | nil => simp [allSubtypes]
  | cons sub rest ih => simp [allSubtypes, ih]

theorem anySupertype_eq_any (widening : Bool) (sub : Ty) (sups : List Ty) :
    anySupertype widening sub sups =
      sups.any (fun sup => isSubtype widening sub sup) := by
  induction sups with
  | nil => simp [anySupertype]
  | cons sup rest ih => simp [anySupertype, ih]

end SchemaMap.Ty
