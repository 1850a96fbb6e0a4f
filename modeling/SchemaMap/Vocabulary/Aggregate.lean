import SchemaMap.Vocabulary.Word

/-!
# Aggregates

Functions that run over an array, with an optional function applied to every
element.  The shape of the result depends on the aggregate alone.
-/

namespace SchemaMap

/-- Functions over arrays. -/
inductive Aggregate where
  | sum
  | average
  | maximum
  | minimum
  | count
  | collect
  | filter
deriving DecidableEq, Repr

namespace Aggregate

/-- Where the type of an aggregate's result comes from. -/
inductive Result where
  /-- The type of the function's body. -/
  | body
  /-- An array of the body's type. -/
  | arrayOfBody
  /-- The type of the source. -/
  | sourceArray
  /-- `Int`. -/
  | int
deriving DecidableEq, Repr

/-- Every aggregate, in the order of the vocabulary. -/
def all : List Aggregate :=
  [.sum, .average, .maximum, .minimum, .count, .collect, .filter]

/-- The entry of an aggregate. -/
def word : Aggregate → Vocabulary.Word
  | .sum => ⟨"sum", [], "Sum of the lambda body over every element."⟩
  | .average =>
      ⟨"avg", ["mean"],
        "Arithmetic mean of the lambda body over every element."⟩
  | .maximum => ⟨"max", [], "Largest lambda body value."⟩
  | .minimum => ⟨"min", [], "Smallest lambda body value."⟩
  | .count =>
      ⟨"count", [],
        "Number of elements (optionally those matching the lambda)."⟩
  | .collect =>
      ⟨"collect", ["map"], "Array of the lambda body for every element."⟩
  | .filter =>
      ⟨"filter", ["where"], "Elements for which the lambda body holds."⟩

/-- The name of an aggregate. -/
def text (aggregate : Aggregate) : String :=
  aggregate.word.name

/-- The aggregate that a text names. -/
def ofText? (text : String) : Option Aggregate :=
  all.find? (fun aggregate => aggregate.word.isSpelled text)

/-- Where the type of the result comes from. -/
def result : Aggregate → Result
  | .sum | .average | .maximum | .minimum => .body
  | .collect => .arrayOfBody
  | .filter => .sourceArray
  | .count => .int

end Aggregate

end SchemaMap
