import SchemaMap.Vocabulary.Word

/-!
# Primitive types

The types that need no declaration, with their spellings.
-/

namespace SchemaMap

/-- The types that need no declaration. -/
inductive Primitive where
  | string
  | int
  | float
  | bool
  | date
  | dateTime
  | void
deriving DecidableEq, Repr

namespace Primitive

/-- Every primitive type, in the order of the vocabulary. -/
def all : List Primitive :=
  [.string, .int, .float, .bool, .date, .dateTime, .void]

/-- The entry of a primitive type. -/
def word : Primitive → Vocabulary.Word
  | .string => ⟨"String", [], "UTF-8 text."⟩
  | .int => ⟨"Int", [], "Signed 64-bit integer."⟩
  | .float => ⟨"Float", ["Decimal"], "Double-precision floating point number."⟩
  | .bool => ⟨"Bool", ["Boolean"], "Boolean truth value."⟩
  | .date => ⟨"Date", [], "Calendar date without a time component."⟩
  | .dateTime =>
      ⟨"DateTime", ["Timestamp"], "Instant with date and time of day."⟩
  | .void => ⟨"Void", [], "The empty type of a value-less result."⟩

/-- The name of a primitive type. -/
def text (primitive : Primitive) : String :=
  primitive.word.name

/-- The primitive type that a text names. -/
def ofText? (text : String) : Option Primitive :=
  all.find? (fun primitive => primitive.word.isSpelled text)

end Primitive

end SchemaMap
