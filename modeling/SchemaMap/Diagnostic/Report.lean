import SchemaMap.Diagnostic.Basic

/-!
# Reports

A report shows a diagnostic beside the lines of the program it speaks about: the
line of its span between its two neighbours, the span underlined, and the advice
below.
-/

namespace SchemaMap

/-- The lines of a text; the end of the last line begins no further one. -/
def sourceLines (source : String) : List String :=
  match (Text.split '\n' source).reverse with
  | "" :: earlier => earlier.reverse
  | all => all.reverse

/-- A place in a text: the number of the line, from 0, and the byte in it. -/
structure Place where
  line : Nat
  column : Nat
deriving DecidableEq, Repr

/-- The place of a byte of a text that is given by its lines. -/
def Place.ofOffset? (offset : Nat) : List String → Option Place
  | [] => none
  | line :: rest =>
      if offset ≤ line.utf8ByteSize then
        some ⟨0, offset⟩
      else
        (ofOffset? (offset - line.utf8ByteSize - 1) rest).map fun place =>
          ⟨place.line + 1, place.column⟩

namespace Diagnostic

/-- A line of the program under its number. -/
def numberedLine (width number : Nat) (line : String) : String :=
  " " ++ Text.alignRight width (toString number) ++ " │ " ++ line ++ "\n"

/--
The two lines under the line of the span: the underline, and below its middle
what the phase calls its problems.
-/
def underline (diagnostic : Diagnostic) (width column : Nat) : String :=
  let stop := column + diagnostic.span.length
  let middle := (column + stop) / 2
  let margin := " " ++ Text.repeated width ' ' ++ " · "
  margin ++ Text.repeated column ' ' ++ Text.repeated (middle - column) '─' ++
      "┬" ++
      Text.repeated (stop - middle - 1) '─' ++ "\n" ++
    margin ++ Text.repeated middle ' ' ++ "╰── " ++ diagnostic.phase.text ++
      "\n"

/-- The part of a program around a place. -/
def excerpt (diagnostic : Diagnostic) (file : String) (lines : List String)
    (place : Place) : String :=
  let first := place.line - 1
  let last := min (place.line + 1) (lines.length - 1)
  let width := (toString (last + 1)).length
  let margin := Text.repeated (width + 2) ' '
  let shown := (lines.zipIdx.drop first).take (last + 1 - first)
  margin ++ "╭─[" ++ file ++ ":" ++ toString (place.line + 1) ++ ":" ++
    toString (place.column + 1) ++ "]\n" ++
    String.join
      (shown.map fun entry =>
        numberedLine width (entry.2 + 1) entry.1 ++
          (if entry.2 = place.line then diagnostic.underline width place.column
            else "")) ++
    margin ++ "╰────\n"

/--
What stands in the place of the excerpt when the span lies outside the program.
-/
def missingExcerpt (diagnostic : Diagnostic) : String :=
  "  [Failed to read contents for label `" ++ diagnostic.phase.text ++
    "` (offset: " ++
    toString diagnostic.span.start ++ ", length: " ++
    toString diagnostic.span.length ++ "): OutOfBounds]\n"

/-- The advice, its first line marked and the others aligned with it. -/
def advice (diagnostic : Diagnostic) : String :=
  match diagnostic.helpLines with
  | [] => ""
  | first :: rest =>
      "  help: " ++ first ++ "\n" ++
        String.join (rest.map fun line => "        " ++ line ++ "\n")

/-- The report on a diagnostic about a program. -/
def report (diagnostic : Diagnostic) (file source : String) : String :=
  let lines := sourceLines source
  let place? :=
    if diagnostic.span.stop ≤ source.utf8ByteSize then
      Place.ofOffset? diagnostic.span.start lines
    else
      none
  diagnostic.phase.code ++ "\n\n  × " ++ diagnostic.message ++ "\n" ++
    (match place? with
      | some place => diagnostic.excerpt file lines place
      | none => diagnostic.missingExcerpt) ++
    diagnostic.advice

/-- The reports on several diagnostics, with a line between them. -/
def reports (diagnostics : List Diagnostic) (file source : String) : String :=
  Text.join "\n"
    (diagnostics.map fun diagnostic => diagnostic.report file source)

end Diagnostic

end SchemaMap
