import SchemaMap.Expr.Basic
import SchemaMap.Text

/-!
# Path text

A path of fields is written with points between the names.  A question mark at
the end of a name says that the next step enters an optional value.  Indices are
shown, but cannot be read.
-/

namespace SchemaMap

/-- The start of a path as text. -/
def PathRoot.text : PathRoot → String
  | .source => "$"
  | .named name => name

/-- The start that a text stands for. -/
def PathRoot.ofText (text : String) : PathRoot :=
  if text = "$" then .source else .named text

/-- A step as text, with the mark of an optional value before it. -/
def Segment.text : Segment → String
  | .field _ name optional => (if optional then "?" else "") ++ "." ++ name
  | .index _ _ optional => (if optional then "?" else "") ++ "[..]"

namespace Path

/-- A path as text. -/
def text (root : PathRoot) (segments : List Segment) : String :=
  segments.foldl (fun written segment => written ++ segment.text) root.text

/--
The steps that some names stand for; `optional` is the mark that the name before
them carried.
-/
def readFields (optional : Bool) : List String → List Segment
  | [] => []
  | part :: rest =>
      .field .unknown (Text.dropTrailing '?' part) optional ::
        readFields (Text.endsIn '?' part) rest

/-- The path that a text stands for. -/
def read (text : String) : PathRoot × List Segment :=
  match Text.split '.' text with
  | [] => (.source, [])
  | root :: parts =>
      (.ofText (Text.dropTrailing '?' root),
        readFields (Text.endsIn '?' root) parts)

end Path

end SchemaMap
