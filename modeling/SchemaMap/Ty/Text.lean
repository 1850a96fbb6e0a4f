import SchemaMap.Ty.Basic

/-!
# Text of a type

How a type is written in messages.
-/

namespace SchemaMap.Ty

mutual

/-- The type as it is written in messages. -/
def text : Ty → String
  | .primitive base => base.text
  | .schema name arguments _ _ =>
      if arguments.isEmpty then
        name
      else
        name ++ "<" ++ Text.join ", " (texts arguments) ++ ">"
  | .enumeration name _ => name
  | .array element => "[" ++ text element ++ "]"
  | .optional inner =>
      match inner with
      | .union _ | .function _ _ => "(" ++ text inner ++ ")?"
      | _ => text inner ++ "?"
  | .quantity unit => "Quantity<" ++ unit.text ++ ">"
  | .tuple items => "(" ++ Text.join ", " (texts items) ++ ")"
  | .union members => Text.join " | " (texts members)
  | .function parameters result =>
      "(" ++ Text.join ", " (texts parameters) ++ ") -> " ++ text result
  | .parameter name _ => name
  | .never => "Never"
  | .unknown => "Unknown"
termination_by structural type => type

/-- The types of a list, each as it is written. -/
def texts : List Ty → List String
  | [] => []
  | type :: rest => text type :: texts rest
termination_by structural types => types

end

end SchemaMap.Ty
