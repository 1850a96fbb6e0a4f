/-!
# Spans

A span is a range of bytes of a program's text.  The span from 0 to 0 stands for
"no position": a fault that carries it takes the position of the node around it.
-/

namespace SchemaMap

/-- A range of bytes, from `start` up to and without `stop`. -/
structure Span where
  start : Nat := 0
  stop : Nat := 0
deriving DecidableEq, Repr

namespace Span

instance : Inhabited Span := ⟨{}⟩

/-- The span of a node that has no position. -/
def unknown : Span := {}

/-- The smallest span around both. -/
def merge (left right : Span) : Span :=
  { start := min left.start right.start
    stop := max left.stop right.stop }

/-- The number of bytes; a span that stops before it starts has none. -/
def length (span : Span) : Nat :=
  span.stop - span.start

/-- Whether the span holds no byte. -/
def isEmpty (span : Span) : Bool :=
  span.length == 0

/-- The span itself, or the fallback if it is no position. -/
def orElse (span fallback : Span) : Span :=
  if span = unknown then fallback else span

/-- Spans are ordered by their start, then by their end. -/
instance : Ord Span where
  compare := compareLex (compareOn start) (compareOn stop)

instance : Std.TransOrd Span :=
  inferInstanceAs (Std.TransCmp (compareLex (compareOn start) (compareOn stop)))

instance : Std.LawfulEqOrd Span where
  eq_of_compare {left right} same := by
    have parts : compareLex (compareOn start) (compareOn stop) left right =
        .eq := same
    rw [compareLex_eq_eq] at parts
    obtain ⟨sameStart, sameStop⟩ := parts
    have startEqual : left.start = right.start :=
      Std.LawfulEqCmp.eq_of_compare sameStart
    have stopEqual : left.stop = right.stop :=
      Std.LawfulEqCmp.eq_of_compare sameStop
    cases left
    cases right
    simp_all

end Span

/-- A value with its position. -/
structure Located (α : Type) where
  value : α
  span : Span := .unknown
deriving DecidableEq, Repr

end SchemaMap
