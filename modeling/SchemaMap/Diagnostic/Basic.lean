import SchemaMap.Span
import SchemaMap.Text

/-!
# Diagnostics

A diagnostic is what a reader of a program is told about a problem: a message at
a position, with notes and hints.
-/

namespace SchemaMap

/-- The part of the analysis that found a problem. -/
inductive Phase where
  /-- A problem of names. -/
  | resolve
  /-- A problem of types or dimensions. -/
  | type
deriving DecidableEq, Repr

namespace Phase

/-- The code under which problems of this part are listed. -/
def code : Phase → String
  | .resolve => "metrica::resolve"
  | .type => "metrica::type"

/-- What problems of this part are called. -/
def text : Phase → String
  | .resolve => "resolve error"
  | .type => "type error"

end Phase

/-- What is told about a problem. -/
structure Diagnostic where
  phase : Phase
  message : String
  span : Span
  notes : List String := []
  hints : List String := []
deriving DecidableEq, Repr

namespace Diagnostic

/-- The diagnostic with one more note. -/
def withNote (diagnostic : Diagnostic) (note : String) : Diagnostic :=
  { diagnostic with notes := diagnostic.notes ++ [note] }

/-- The diagnostic with one more hint. -/
def withHint (diagnostic : Diagnostic) (hint : String) : Diagnostic :=
  { diagnostic with hints := diagnostic.hints ++ [hint] }

/-- The diagnostic at the fallback position if it has none of its own. -/
def orAt (diagnostic : Diagnostic) (fallback : Span) : Diagnostic :=
  { diagnostic with span := diagnostic.span.orElse fallback }

/-- The lines of advice: the hints, then the notes marked as such. -/
def helpLines (diagnostic : Diagnostic) : List String :=
  diagnostic.hints ++ diagnostic.notes.map (fun note => "note: " ++ note)

/-- The advice as one text, if there is any. -/
def help? (diagnostic : Diagnostic) : Option String :=
  if diagnostic.helpLines.isEmpty then
    none
  else
    some (Text.join "\n" diagnostic.helpLines)

end Diagnostic

end SchemaMap
