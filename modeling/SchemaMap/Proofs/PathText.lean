import SchemaMap.Builder

/-!
# Paths as text

The text of a path through fields can be read back.  A mark for an optional
value stands at the end of the part before the point, and the reader hands it on
to the step after the point.  Names may be empty and may have marks inside; they
must not have points, and no mark at their end, where it would be taken for the
mark of the next step.

The reading of a path follows its steps: what is read up to a point is the name
before it, with the mark of the step that comes next
(`exists_split_append_steps`).
-/

namespace SchemaMap

namespace Text

variable {separator mark : Char} {text : String}

/-! ## Splitting -/

theorem splitChars_of_not_mem {piece : List Char} (absent : separator ∉ piece) :
    splitChars separator piece = [piece] := by
  induction piece with
  | nil => rfl
  | cons head rest ih =>
      rw [List.mem_cons, not_or] at absent
      rw [splitChars, if_neg (Ne.symm absent.1), ih absent.2]

/-- A piece without separators ends at the first separator. -/
theorem splitChars_append_cons {piece : List Char} (absent : separator ∉ piece)
    (rest : List Char) :
    splitChars separator (piece ++ separator :: rest) =
      piece :: splitChars separator rest := by
  induction piece with
  | nil => rw [List.nil_append, splitChars, if_pos rfl]
  | cons head tail ih =>
      rw [List.mem_cons, not_or] at absent
      rw [List.cons_append, splitChars, if_neg (Ne.symm absent.1), ih absent.2]

theorem split_of_not_mem (absent : separator ∉ text.toList) :
    split separator text = [text] := by
  rw [split, splitChars_of_not_mem absent, List.map_singleton,
    String.ofList_toList]

theorem split_append_append (absent : separator ∉ text.toList) (rest : String) :
    split separator (text ++ String.singleton separator ++ rest) =
      text :: split separator rest := by
  have chars : (text ++ String.singleton separator ++ rest).toList =
      text.toList ++ separator :: rest.toList := by
    simp
  rw [split, chars, splitChars_append_cons absent, List.map_cons,
    String.ofList_toList, split]

/-! ## Marks at the end -/

theorem dropTrailing_of_endsIn_eq_false (bare : endsIn mark text = false) :
    dropTrailing mark text = text := by
  have last : text.toList.reverse.head? ≠ some mark := by
    simpa [endsIn] using bare
  have unmarked : text.toList.reverse.dropWhile (· == mark) =
      text.toList.reverse := by
    cases reversed : text.toList.reverse with
    | nil => rfl
    | cons head rest =>
        have apart : (head == mark) = false := by simpa [reversed] using last
        rw [List.dropWhile_cons, apart, if_neg Bool.false_ne_true]
  rw [dropTrailing, unmarked, List.reverse_reverse, String.ofList_toList]

/-- However many marks stand at the end, all are dropped. -/
theorem dropTrailing_append_mark :
    dropTrailing mark (text ++ String.singleton mark) =
      dropTrailing mark text := by
  simp [dropTrailing]

theorem endsIn_append_mark :
    endsIn mark (text ++ String.singleton mark) = true := by
  simp [endsIn]

end Text

/--
A name that can be told apart from what stands around it in the text of a path.
-/
structure IsPathName (name : String) : Prop where
  unbroken : '.' ∉ name.toList
  unmarked : Text.endsIn '?' name = false

instance (name : String) : Decidable (IsPathName name) :=
  decidable_of_iff ('.' ∉ name.toList ∧ Text.endsIn '?' name = false)
    ⟨fun ⟨unbroken, unmarked⟩ => ⟨unbroken, unmarked⟩,
      fun named => ⟨named.unbroken, named.unmarked⟩⟩

/-- The mark of an optional step as text. -/
def Segment.markText (optional : Bool) : String :=
  if optional then "?" else ""

/-- The same step at another position. -/
def Segment.moved (target : Span) : Segment → Segment
  | .field _ name optional => .field target name optional
  | .index _ position optional => .index target position optional

namespace IsPathName

variable {name : String}

theorem not_mem_marked (legible : IsPathName name) (optional : Bool) :
    '.' ∉ (name ++ Segment.markText optional).toList := by
  have unbroken := legible.unbroken
  cases optional <;> simp [Segment.markText, unbroken]

/-- A step without its mark is its name. -/
theorem dropTrailing_marked (legible : IsPathName name) (optional : Bool) :
    Text.dropTrailing '?' (name ++ Segment.markText optional) = name := by
  have bare := Text.dropTrailing_of_endsIn_eq_false legible.unmarked
  cases optional with
  | false =>
      rwa [Segment.markText, if_neg Bool.false_ne_true, String.append_empty]
  | true => exact Text.dropTrailing_append_mark.trans bare

/-- A step ends in a mark exactly when it is optional. -/
theorem endsIn_marked (legible : IsPathName name) (optional : Bool) :
    Text.endsIn '?' (name ++ Segment.markText optional) = optional := by
  cases optional with
  | false =>
      rw [Segment.markText, if_neg Bool.false_ne_true, String.append_empty,
        legible.unmarked]
  | true => exact Text.endsIn_append_mark

end IsPathName

namespace Path

/-- The steps of a path as text. -/
def stepsText (segments : List Segment) : String :=
  segments.foldr (fun segment rest => segment.text ++ rest) ""

/-- The text of a path is that of its root with that of its steps. -/
theorem text_eq (root : PathRoot) (segments : List Segment) :
    text root segments = root.text ++ stepsText segments := by
  suffices written : ∀ start : String,
      segments.foldl (fun written segment => written ++ segment.text) start =
        start ++ stepsText segments from
    written root.text
  induction segments with
  | nil => exact fun start => String.append_empty.symm
  | cons segment rest ih =>
      intro start
      rw [List.foldl_cons, ih, String.append_assoc]
      rfl

/--
The name before some steps is read back, and so are the steps: the first part
holds the name with the mark of the first step, the further parts hold the names
of the steps with the marks of those after them.
-/
theorem exists_split_append_steps {segments : List Segment}
    (fields : ∀ segment ∈ segments,
      ∃ name, segment.name? = some name ∧ IsPathName name)
    {name : String} (legible : IsPathName name) :
    ∃ first others,
      Text.split '.' (name ++ stepsText segments) = first :: others ∧
      Text.dropTrailing '?' first = name ∧
      readFields (Text.endsIn '?' first) others =
        segments.map (Segment.moved .unknown) := by
  induction segments generalizing name with
  | nil =>
      refine ⟨name, [], ?_,
        Text.dropTrailing_of_endsIn_eq_false legible.unmarked, rfl⟩
      rw [stepsText, List.foldr_nil, String.append_empty,
        Text.split_of_not_mem legible.unbroken]
  | cons segment rest ih =>
      rw [List.forall_mem_cons] at fields
      rcases fields.1 with ⟨next, isNext, nextLegible⟩
      cases segment with
      | index => contradiction
      | field span step optional =>
          cases isNext
          rcases ih fields.2 nextLegible with
            ⟨first, others, split, named, read⟩
          -- The mark of this step belongs to the part before the point.
          have steps : name ++ stepsText (.field span next optional :: rest) =
              (name ++ Segment.markText optional) ++ String.singleton '.' ++
                (next ++ stepsText rest) := by
            simp only [stepsText, List.foldr_cons, Segment.text,
              String.append_assoc]
            rfl
          refine ⟨name ++ Segment.markText optional, first :: others, ?_,
            legible.dropTrailing_marked optional, ?_⟩
          · rw [steps,
              Text.split_append_append (legible.not_mem_marked optional), split]
          · rw [legible.endsIn_marked optional, readFields, named, read,
              List.map_cons, Segment.moved]

/-- The text of a path through fields is read as this path. -/
theorem read_text {root : PathRoot} {segments : List Segment}
    (fields : ∀ segment ∈ segments,
      ∃ name, segment.name? = some name ∧ IsPathName name)
    (named : ∀ name, root = .named name → IsPathName name ∧ name ≠ "$") :
    read (text root segments) =
      (root, segments.map (Segment.moved .unknown)) := by
  have legible : IsPathName root.text := by
    cases root with
    | source => decide
    | named name => exact (named name rfl).1
  have back : PathRoot.ofText root.text = root := by
    cases root with
    | source => rfl
    | named name => exact if_neg (named name rfl).2
  rcases exists_split_append_steps fields legible with
    ⟨first, others, split, isRoot, steps⟩
  rw [text_eq, read, split]
  simp only [isRoot, back, steps]

end Path

namespace Builder

/--
The text of a path through fields is read as this path, without positions and
with all its marks, if no name in it has a point or ends in a mark, and if a
named root is not called like the source.
-/
theorem path_text (root : PathRoot) (segments : List Segment)
    (fields : ∀ segment ∈ segments,
      ∃ name, segment.name? = some name ∧ IsPathName name)
    (named : ∀ name, root = .named name → IsPathName name ∧ name ≠ "$") :
    path (Path.text root segments) =
      .path .unknown root (segments.map (Segment.moved .unknown)) := by
  rw [path, Path.read_text fields named]

/--
Marks inside a name, an empty name and an optional first step do not get in the
way.
-/
theorem path_text_marked :
    Path.text (.named "order")
      [.field ⟨5, 11⟩ "li?nes" true, .field ⟨12, 12⟩ "" false,
        .field ⟨13, 18⟩ "total" true] =
        "order?.li?nes.?.total" ∧
      path "order?.li?nes.?.total" =
        .path .unknown (.named "order")
          [.field .unknown "li?nes" true, .field .unknown "" false,
            .field .unknown "total" true] := by
  refine ⟨by decide +kernel, ?_⟩
  refine path_text (.named "order")
    [.field ⟨5, 11⟩ "li?nes" true, .field ⟨12, 12⟩ "" false,
      .field ⟨13, 18⟩ "total" true] ?_ ?_
  · simp only [List.forall_mem_cons]
    exact ⟨⟨_, rfl, by decide⟩, ⟨_, rfl, by decide⟩, ⟨_, rfl, by decide⟩,
      List.forall_mem_nil _⟩
  · rintro name ⟨⟩
    exact ⟨by decide, by decide⟩

end Builder

end SchemaMap
