/-!
# Text

Joining and splitting of texts, shared by the printers and the readers of this
library.  Everything is defined on lists of characters, so that each function
has an equation per shape of its input.
-/

namespace SchemaMap.Text

/-- The parts in order, with the separator between neighbours. -/
def join (separator : String) : List String → String
  | [] => ""
  | [part] => part
  | part :: rest => part ++ separator ++ join separator rest

/--
The pieces between the occurrences of a separator; there is one piece more than
there are separators.
-/
def splitChars (separator : Char) : List Char → List (List Char)
  | [] => [[]]
  | head :: rest =>
      if head = separator then
        [] :: splitChars separator rest
      else
        match splitChars separator rest with
        | [] => [[head]]
        | piece :: pieces => (head :: piece) :: pieces

/-- The pieces of a text between the occurrences of a separator. -/
def split (separator : Char) (text : String) : List String :=
  (splitChars separator text.toList).map String.ofList

/-- The text without the marks at its end, however many there are. -/
def dropTrailing (mark : Char) (text : String) : String :=
  String.ofList (text.toList.reverse.dropWhile (· == mark)).reverse

/-- Whether the text ends in the mark. -/
def endsIn (mark : Char) (text : String) : Bool :=
  text.toList.getLast? == some mark

/-- Whether the text begins with another text. -/
def beginsWith (beginning text : String) : Bool :=
  beginning.toList.isPrefixOf text.toList

/-- Whether one of the marks occurs in the text. -/
def mentions (marks : List Char) (text : String) : Bool :=
  text.toList.any marks.contains

/-- A text mentions none of the marks exactly when no letter of it is one. -/
theorem mentions_eq_false_iff {marks : List Char} {text : String} :
    mentions marks text = false ↔ ∀ letter ∈ text.toList, letter ∉ marks := by
  simp only [mentions, List.any_eq_false, List.contains_iff_mem]

theorem not_mem_of_mentions_eq_false {marks : List Char} {text : String}
    (unmarked : mentions marks text = false) {mark : Char}
    (listed : mark ∈ marks) : mark ∉ text.toList :=
  fun member => mentions_eq_false_iff.mp unmarked mark member listed

/-- A text of letters and digits has no other marks. -/
theorem mentions_eq_false_of_isAlphanum {marks : List Char} {text : String}
    (noLetter : marks.all (fun mark => !mark.isAlphanum) = true)
    (plain : ∀ letter ∈ text.toList, letter.isAlphanum = true) :
    mentions marks text = false := by
  rw [mentions_eq_false_iff]
  intro letter member listed
  have marked := List.all_eq_true.mp noLetter letter listed
  rw [plain letter member] at marked
  contradiction

/-- A character written a number of times. -/
def repeated (count : Nat) (character : Char) : String :=
  String.ofList (List.replicate count character)

/--
The text moved to the right until it takes at least the given number of
characters.
-/
def alignRight (width : Nat) (text : String) : String :=
  repeated (width - text.length) ' ' ++ text

end SchemaMap.Text
