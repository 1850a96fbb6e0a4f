/-!
# Words

An entry of a fixed vocabulary: one name, the other spellings that stand for it,
and what it means.
-/

namespace SchemaMap.Vocabulary

/-- A named entry with its other spellings. -/
structure Word where
  name : String
  aliases : List String
  description : String
deriving DecidableEq, Repr

/-- Whether the text is the name or one of the other spellings; case counts. -/
def Word.isSpelled (word : Word) (text : String) : Bool :=
  word.name == text || word.aliases.contains text

end SchemaMap.Vocabulary
