import SchemaMap.Ty.Basic

/-!
# Equality of types

Two types are equal when they have the same shape, except that schemas and
enumerations go by their names, quantities by the dimensions of their units,
unions by their members in any order, and type variables by their numbers.  The
arguments of two schemas of one name are compared only if both have some.
-/

namespace SchemaMap.Ty

mutual

/-- Whether two types are the same. -/
def equal : Ty → Ty → Bool
  | .primitive left, .primitive right => left = right
  | .schema leftName leftArguments _ _, .schema rightName rightArguments _ _ =>
      leftName == rightName &&
        (leftArguments.isEmpty || rightArguments.isEmpty ||
          equalAll leftArguments rightArguments)
  | .enumeration leftName _, .enumeration rightName _ => leftName == rightName
  | .array left, .array right => equal left right
  | .optional left, .optional right => equal left right
  | .quantity left, .quantity right => left.agrees right
  | .tuple left, .tuple right => equalAll left right
  | .union left, .union right =>
      allFound left right && right.all (fun type => anyEqual left type)
  | .function leftParameters leftResult,
      .function rightParameters rightResult =>
      equalAll leftParameters rightParameters && equal leftResult rightResult
  | .parameter _ left, .parameter _ right => left == right
  | .never, .never => true
  | .unknown, .unknown => true
  | _, _ => false
termination_by structural left => left

/-- Whether two lists of types are the same one by one. -/
def equalAll : List Ty → List Ty → Bool
  | [], [] => true
  | left :: lefts, right :: rights => equal left right && equalAll lefts rights
  | _, _ => false
termination_by structural lefts => lefts

/-- Whether some type of a list is the same as the given one. -/
def anyEqual : List Ty → Ty → Bool
  | [], _ => false
  | left :: lefts, right => equal left right || anyEqual lefts right
termination_by structural lefts => lefts

/--
Whether every type of the first list is the same as some type of the second.
-/
def allFound : List Ty → List Ty → Bool
  | [], _ => true
  | left :: lefts, rights =>
      rights.any (fun right => equal left right) && allFound lefts rights
termination_by structural lefts => lefts

end

theorem anyEqual_eq_any (types : List Ty) (right : Ty) :
    anyEqual types right = types.any (fun left => equal left right) := by
  induction types with
  | nil => rfl
  | cons type rest ih => simp [anyEqual, ih]

theorem allFound_eq_all (lefts rights : List Ty) :
    allFound lefts rights =
      lefts.all (fun left => rights.any (fun right => equal left right)) := by
  induction lefts with
  | nil => rfl
  | cons left rest ih => simp [allFound, ih]

end SchemaMap.Ty
