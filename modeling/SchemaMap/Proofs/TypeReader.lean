import SchemaMap.Proofs.Resolution

/-!
# Reading types

Types are written with brackets, commas, bars and question marks.  A reader goes
through such a text from left to right and finds the type that is written there,
given what the names stand for.  A bar separates the alternatives of a union, a
comma the items of a tuple or the arguments of a name; a question mark belongs
to the alternative right before it.

What a text gives is a list of alternatives (`Reads`): one for a name, for
brackets and for an empty text, and those of both sides where two texts stand
beside a bar.  Where commas are allowed it gives a list of items (`ReadsAll`),
each of which is the union of its alternatives.  Since the reader has but one
way to go through a text, a text gives one list of alternatives only
(`Reads.unique`).
-/

namespace SchemaMap

/-- The marks that types are written with, apart from names. -/
def TypeReader.marks : List Char :=
  ['[', ']', '(', ')', '<', '>', ',', '|', '?', ' ']

/--
A name that is told apart from what stands around it in the text of a type.
-/
structure IsTypeName (name : String) : Prop where
  unmarked : Text.mentions TypeReader.marks name = false
  written : name ≠ ""
  apart : Primitive.ofText? name = none

instance (name : String) : Decidable (IsTypeName name) :=
  decidable_of_iff (Text.mentions TypeReader.marks name = false ∧ name ≠ "" ∧
    Primitive.ofText? name = none)
    ⟨fun ⟨unmarked, written, apart⟩ => ⟨unmarked, written, apart⟩,
      fun named => ⟨named.unmarked, named.written, named.apart⟩⟩

/-- Letters and digits make a name, unless it is that of a primitive type. -/
theorem isTypeName_of_forall_isAlphanum {name : String}
    (plain : ∀ letter ∈ name.toList, letter.isAlphanum = true)
    (written : name ≠ "") (apart : Primitive.ofText? name = none) :
    IsTypeName name where
  unmarked := Text.mentions_eq_false_of_isAlphanum (by decide) plain
  written := written
  apart := apart

/-- The alternative in hand. -/
inductive TypeReader.Part where
  /-- Nothing is read of it yet. -/
  | nothing
  /-- A name, as far as it is read. -/
  | word (letters : List Char)
  /-- A type that is read to its end. -/
  | whole (type : Ty)

/-- What a bracket was opened for. -/
inductive TypeReader.Opening where
  | array
  | tuple
  | generic (name : String)

/--
An open bracket, with what was read before it since the bracket around it.
-/
structure TypeReader.Frame where
  opening : Opening
  items : List Ty
  members : List Ty

/--
The state of a reader: the items that are read since the last open bracket, the
alternatives of the item in hand, the alternative in hand, and all open
brackets, the innermost first.
-/
structure TypeReader where
  outer : List TypeReader.Frame := []
  items : List Ty := []
  members : List Ty := []
  part : TypeReader.Part := .nothing

namespace TypeReader

/-- The alternative with one more letter. -/
def Part.extended (letter : Char) : Part → Part
  | .nothing => .word [letter]
  | .word letters => .word (letters ++ [letter])
  | .whole type => .whole type

/-- The letters of a name. -/
def Part.letters : Part → List Char
  | .word letters => letters
  | _ => []

variable (names : Names) (parameters : List (String × Ty))

/--
The type of the alternative in hand; an empty text stands for a union without
members.
-/
def Part.typeIn : Part → Ty
  | .nothing => .never
  | .word letters =>
      (names.resolve parameters (.named (String.ofList letters))).toOption.getD
        .unknown
  | .whole type => type

/--
The type of a name with arguments.  An empty text between the brackets is no
argument, or an empty one if the name takes an argument.
-/
def applied (name : String) : List Ty → Ty
  | [] =>
      ((names.named name [] .unknown).toOption.or
        (names.named name [.never] .unknown).toOption).getD .unknown
  | arguments => (names.named name arguments .unknown).toOption.getD .unknown

/-- The type of the item in hand. -/
def item (reader : TypeReader) : Ty :=
  .unionOf (reader.members ++ [reader.part.typeIn names parameters])

/-- The items since the last open bracket; an empty text has none. -/
def contents (reader : TypeReader) : List Ty :=
  match reader.items, reader.members, reader.part with
  | [], [], .nothing => []
  | items, _, _ => items ++ [reader.item names parameters]

/-- Open a bracket. -/
def opened (reader : TypeReader) (opening : Opening) : TypeReader :=
  { outer := ⟨opening, reader.items, reader.members⟩ :: reader.outer }

/-- The type of what stands between brackets. -/
def Opening.typeOf (reader : TypeReader) : Opening → Ty
  | .array => .array (reader.item names parameters)
  | .tuple => .tuple (reader.contents names parameters)
  | .generic name => applied names name (reader.contents names parameters)

/--
Close the innermost bracket: what stands between the brackets is the alternative
in hand.
-/
def closed (reader : TypeReader) : TypeReader :=
  match reader.outer with
  | [] => reader
  | frame :: outer =>
      { outer := outer
        items := frame.items
        members := frame.members
        part := .whole (frame.opening.typeOf names parameters reader) }

/-- Read one character. -/
def step (reader : TypeReader) : Char → TypeReader
  | '[' => reader.opened .array
  | '(' => reader.opened .tuple
  | '<' => reader.opened (.generic (String.ofList reader.part.letters))
  | ']' => reader.closed names parameters
  | ')' => reader.closed names parameters
  | '>' => reader.closed names parameters
  | ',' =>
      { outer := reader.outer,
        items := reader.items ++ [reader.item names parameters] }
  | '|' =>
      { reader with
        members :=
          reader.members ++ [reader.part.typeIn names parameters], part :=
            .nothing }
  | '?' =>
      { reader with
        part := .whole (reader.part.typeIn names parameters).optionalOf }
  | ' ' => reader
  | letter => { reader with part := reader.part.extended letter }

variable {names parameters}

/-! ## Names -/

theorem step_of_not_mem {letter : Char} (plain : letter ∉ marks)
    (reader : TypeReader) :
    step names parameters reader letter =
      { reader with part := reader.part.extended letter } := by
  simp only [marks, List.mem_cons, List.not_mem_nil, not_or] at plain
  rcases plain with
    ⟨bracket, closing, parenthesis, closingParenthesis, angle, closingAngle,
      comma, bar, question, blank, -⟩
  unfold step
  split <;> first | contradiction | rfl

/-- A name without marks is read letter by letter. -/
theorem scan_name {name : String} (plain : Text.mentions marks name = false)
    (some : name ≠ "") {before : TypeReader} (blank : before.part = .nothing) :
    Text.scan (step names parameters) name before =
      { before with part := .word name.toList } := by
  refine (Text.scan_eq_of_forall_mem (fun part => { before with part := part })
    (fun letter member part =>
      step_of_not_mem (Text.mentions_eq_false_iff.mp plain letter member) _)
    before.part).trans ?_
  rw [blank]
  cases letters : name.toList with
  | nil => exact absurd (String.toList_eq_nil_iff.mp letters) some
  | cons letter rest =>
      rw [List.foldl_cons, Part.extended,
        foldl_eq_of_concat Part.word fun _ _ => rfl, List.singleton_append]

/-! ## Alternatives -/

/-- Two parts together are more than their last entry. -/
theorem ne_nil_of_concat_eq_append {before first second : List Ty} {last : Ty}
    (same : before ++ [last] = first ++ second) (firstSome : first ≠ [])
    (secondSome : second ≠ []) : before ≠ [] := by
  rintro rfl
  rcases List.append_eq_singleton_iff.mp same.symm with ⟨none, -⟩ | ⟨-, none⟩
  · exact firstSome none
  · exact secondSome none

variable (names parameters) in
/--
Where an alternative may start, the reader finds the given ones in the text, and
sees that there is a text.
-/
def Reads (text : String) (types : List Ty) : Prop :=
  ∀ before : TypeReader, before.part = .nothing →
    ∃ members part,
      Text.scan (step names parameters) text before =
        { before with members := members, part := part } ∧
      members ++ [part.typeIn names parameters] = before.members ++ types ∧
      (text ≠ "" → members ≠ [] ∨ part ≠ .nothing)

variable {text first second name : String} {types others : List Ty} {type : Ty}

theorem Reads.unique (reads : Reads names parameters text types)
    (alike : Reads names parameters text others) :
    types = others := by
  rcases reads {} rfl with ⟨members, part, after, found, -⟩
  rcases alike {} rfl with ⟨otherMembers, otherPart, otherAfter, otherFound, -⟩
  have same := after.symm.trans otherAfter
  rw [TypeReader.mk.injEq] at same
  rw [same.2.2.1, same.2.2.2, otherFound] at found
  exact found.symm

theorem Reads.ne_nil (reads : Reads names parameters text types) :
    types ≠ [] := by
  rcases reads {} rfl with ⟨members, part, -, found, -⟩
  rintro rfl
  simp at found

/--
A text at the end of which one alternative is in hand, of which there is
something.
-/
theorem reads_singleton (part : Part)
    (known : part.typeIn names parameters = type) (some : part ≠ .nothing)
    (after : ∀ before : TypeReader, before.part = .nothing →
      Text.scan (step names parameters) text before =
        { before with part := part }) : Reads names parameters text [type] :=
  fun before blank =>
    ⟨before.members, part, after before blank, by rw [known],
      fun _ => .inr some⟩

theorem reads_empty : Reads names parameters "" [.never] := by
  intro before blank
  refine ⟨before.members, .nothing, ?_, rfl, fun some => absurd rfl some⟩
  rw [← blank]
  rfl

theorem reads_name (plain : Text.mentions marks name = false) (some : name ≠ "")
    (resolved : names.resolve parameters (.named name) = .ok type) :
    Reads names parameters name [type] := by
  refine reads_singleton (.word name.toList) ?_ (by simp) fun before blank =>
    scan_name plain some blank
  rw [Part.typeIn, String.ofList_toList, resolved]
  rfl

theorem Reads.optional (reads : Reads names parameters text [type]) :
    Reads names parameters (text ++ "?") [type.optionalOf] := by
  refine reads_singleton (.whole type.optionalOf) rfl (by simp)
    fun before blank => ?_
  rcases reads before blank with ⟨members, part, after, found, -⟩
  rcases List.append_inj' found rfl with ⟨rfl, last⟩
  rw [List.cons.injEq] at last
  rw [Text.scan_append, after, ← last.1]
  rfl

/-- Beside a bar stand the alternatives of both sides. -/
theorem Reads.beside (reads : Reads names parameters first types)
    (further : Reads names parameters second others) :
    Reads names parameters (first ++ " | " ++ second) (types ++ others) := by
  intro before blank
  rcases reads before blank with ⟨members, part, after, found, -⟩
  -- What is in hand at the bar joins the alternatives before it.
  have bar : Text.scan (step names parameters) " | "
      { before with members := members, part := part } =
      { before with members := before.members ++ types, part := .nothing } := by
    rw [← found]
    rfl
  rcases further { before with members := before.members ++ types,
                               part := .nothing } rfl with
    ⟨allMembers, last, afterAll, foundAll, -⟩
  refine ⟨allMembers, last, ?_, ?_, fun _ => .inl ?_⟩
  · rw [Text.scan_append, Text.scan_append, after, bar, afterAll]
  · rw [foundAll, List.append_assoc]
  · exact ne_nil_of_concat_eq_append foundAll
      (List.append_ne_nil_of_right_ne_nil _ reads.ne_nil) further.ne_nil

/-- Between bars stand the alternatives of all texts. -/
theorem reads_join {texts : List String} {groups : List (List Ty)}
    (each : List.Forall₂ (Reads names parameters) texts groups)
    (some : texts ≠ []) :
    Reads names parameters (Text.join " | " texts) groups.flatten := by
  induction each with
  | nil => contradiction
  | @cons text types rest others reads further ih =>
      cases further with
      | nil =>
          rw [List.flatten_singleton]
          exact reads
      | cons => exact reads.beside (ih (List.cons_ne_nil _ _))

/-! ## Items -/

variable (names parameters) in
/--
Where an item may start, the reader finds the given items in the text, and sees
that there is a text.
-/
def ReadsAll (text : String) (types : List Ty) : Prop :=
  ∀ before : TypeReader, before.part = .nothing → before.members = [] →
    ∃ after : TypeReader,
      Text.scan (step names parameters) text before = after ∧
        after.outer = before.outer ∧
      after.items ++ [after.item names parameters] = before.items ++ types ∧
      (text ≠ "" →
        after.items ≠ [] ∨ after.members ≠ [] ∨ after.part ≠ .nothing)

theorem Reads.item (reads : Reads names parameters text types) :
    ReadsAll names parameters text [.unionOf types] := by
  intro before blank none
  rcases reads before blank with ⟨members, part, after, found, some⟩
  refine ⟨_, after, rfl, ?_, fun written => .inr (some written)⟩
  rw [TypeReader.item, found, none, List.nil_append]

theorem ReadsAll.ne_nil (reads : ReadsAll names parameters text types) :
    types ≠ [] := by
  rcases reads {} rfl rfl with ⟨after, -, -, found, -⟩
  rintro rfl
  simp at found

/-- Behind a comma stand further items. -/
theorem Reads.followed (reads : Reads names parameters first types)
    (further : ReadsAll names parameters second others) :
    ReadsAll names parameters (first ++ ", " ++ second)
      (.unionOf types :: others) := by
  intro before blank none
  rcases reads before blank with ⟨members, part, after, found, -⟩
  have comma : Text.scan (step names parameters) ", "
      { before with members := members, part := part } =
      { outer := before.outer, items := before.items ++ [.unionOf types] } := by
    rw [none, List.nil_append] at found
    rw [← found]
    rfl
  rcases further { outer := before.outer,
                   items := before.items ++ [.unionOf types] } rfl rfl with
    ⟨last, afterAll, sameOuter, foundAll, -⟩
  refine ⟨last, ?_, sameOuter, ?_, fun _ => .inl ?_⟩
  · rw [Text.scan_append, Text.scan_append, after, comma, afterAll]
  · rw [foundAll, List.append_assoc, List.singleton_append]
  · exact ne_nil_of_concat_eq_append foundAll (List.concat_ne_nil _ _)
      further.ne_nil

/-- Between commas stand the items, one for each text. -/
theorem readsAll_join {texts : List String} {groups : List (List Ty)}
    (each : List.Forall₂ (Reads names parameters) texts groups)
    (some : texts ≠ []) :
    ReadsAll names parameters (Text.join ", " texts)
      (groups.map Ty.unionOf) := by
  induction each with
  | nil => contradiction
  | @cons text types rest others reads further ih =>
      cases further with
      | nil => exact reads.item
      | cons => exact reads.followed (ih (List.cons_ne_nil _ _))

/-! ## Brackets -/

theorem closed_eq {opening : Opening} {before inside : TypeReader}
    (sameOuter : inside.outer = (before.opened opening).outer) :
    inside.closed names parameters =
      { before with
        part := .whole (opening.typeOf names parameters inside) } := by
  rw [closed, sameOuter]
  rfl

/--
A text between brackets: if the reader closes in it all that it opens, then it
comes back to where the bracket was opened, with the type of the whole in hand.
-/
theorem reads_bracketed {opens closes : String} (opening : Opening)
    (opened : ∀ before : TypeReader, before.part = .nothing →
      Text.scan (step names parameters) opens before = before.opened opening)
    (closed : ∀ inside : TypeReader,
      Text.scan (step names parameters) closes inside =
        inside.closed names parameters)
    (inside : ∀ outer,
      (Text.scan (step names parameters) text { outer := outer }).outer =
        outer ∧
      opening.typeOf names parameters
        (Text.scan (step names parameters) text { outer := outer }) = type) :
    Reads names parameters (opens ++ text ++ closes) [type] := by
  refine reads_singleton (.whole type) rfl (by simp) fun before blank => ?_
  rcases inside (before.opened opening).outer with ⟨sameOuter, known⟩
  rw [Text.scan_append, Text.scan_append, opened before blank, closed, ← known]
  exact closed_eq sameOuter

theorem Reads.array (reads : Reads names parameters text types) :
    Reads names parameters ("[" ++ text ++ "]") [.array (.unionOf types)] := by
  refine reads_bracketed .array (fun _ _ => rfl) (fun _ => rfl) fun outer => ?_
  rcases reads { outer := outer } rfl with ⟨members, part, after, found, -⟩
  rw [after, Opening.typeOf, TypeReader.item, found]
  exact ⟨rfl, rfl⟩

variable (names parameters) in
/-- Between brackets, the reader finds the given items in the text. -/
def Encloses (text : String) (types : List Ty) : Prop :=
  ∀ outer,
    (Text.scan (step names parameters) text { outer := outer }).outer = outer ∧
    (Text.scan (step names parameters) text { outer := outer }).contents names
      parameters = types

theorem encloses_empty : Encloses names parameters "" [] :=
  fun _ => ⟨rfl, rfl⟩

theorem ReadsAll.encloses (reads : ReadsAll names parameters text types)
    (some : text ≠ "") :
    Encloses names parameters text types := by
  intro outer
  rcases reads { outer := outer } rfl rfl with
    ⟨after, rfl, sameOuter, found, seen⟩
  refine ⟨sameOuter, ?_⟩
  rw [List.nil_append] at found
  rw [contents, ← found]
  -- There are no contents only where nothing is seen, and then the text is
  -- empty.
  split
  · next noItems noMembers nothing =>
      have something := seen some
      simp only [noItems, noMembers, nothing, ne_eq, not_true,
        or_false] at something
  · rfl

/--
Texts between brackets are read one by one, except that a single empty text is
not seen.
-/
theorem encloses_join {texts : List String} {groups : List (List Ty)}
    (each : List.Forall₂ (Reads names parameters) texts groups)
    (seen : texts ≠ [""]) :
    Encloses names parameters (Text.join ", " texts)
      (groups.map Ty.unionOf) := by
  cases each with
  | nil => exact encloses_empty
  | cons reads further =>
      refine (readsAll_join (.cons reads further)
        (List.cons_ne_nil _ _)).encloses fun empty => ?_
      cases further with
      | nil => exact seen (congrArg (fun text => [text]) empty)
      | cons =>
          have length := congrArg String.length empty
          simp [Text.join] at length

theorem Encloses.tuple (encloses : Encloses names parameters text types) :
    Reads names parameters ("(" ++ text ++ ")") [.tuple types] :=
  reads_bracketed .tuple (fun _ _ => rfl) (fun _ => rfl)
    fun outer => ⟨(encloses outer).1, congrArg Ty.tuple (encloses outer).2⟩

theorem Encloses.generic (encloses : Encloses names parameters text types)
    (plain : Text.mentions marks name = false) (some : name ≠ "") :
    Reads names parameters (name ++ "<" ++ text ++ ">")
      [applied names name types] := by
  refine reads_bracketed (.generic name) (fun before blank => ?_) (fun _ => rfl)
    fun outer =>
      ⟨(encloses outer).1, congrArg (applied names name) (encloses outer).2⟩
  rw [Text.scan_append, scan_name plain some blank]
  show before.opened (.generic (String.ofList name.toList)) = _
  rw [String.ofList_toList]

/-- A name takes the same number of arguments wherever it stands. -/
theorem length_eq_of_applies {arguments : List Ty} {other : Ty}
    (applies : Applies names.declares name types type)
    (otherApplies : Applies names.declares name arguments other) :
    types.length = arguments.length := by
  cases applies with
  | schema known arity =>
      cases otherApplies with
      | schema otherKnown otherArity =>
          cases Option.some.inj (known.symm.trans otherKnown)
          rw [arity, otherArity]
      | enumeration otherKnown =>
          cases Option.some.inj (known.symm.trans otherKnown)
  | enumeration known =>
      cases otherApplies with
      | schema otherKnown => cases Option.some.inj (known.symm.trans otherKnown)
      | enumeration => rfl

theorem applied_eq (applies : Applies names.declares name types type) :
    applied names name types = type := by
  have found : names.named name types .unknown = .ok type :=
    Names.named_eq_ok_iff.mpr applies
  cases types with
  | nil =>
      rw [applied, found]
      rfl
  | cons first rest =>
      exact congrArg (fun outcome => outcome.toOption.getD .unknown) found

/--
A name that takes an argument does not stand without, so an empty text between
its brackets is the argument.
-/
theorem applied_nil_eq (applies : Applies names.declares name [.never] type) :
    applied names name [] = type := by
  have missing : (names.named name [] .unknown).toOption = none := by
    rw [Option.eq_none_iff_forall_ne_some]
    intro other found
    have bare := Names.named_eq_ok_iff.mp (toOption_eq_some_iff.mp found)
    exact absurd (length_eq_of_applies applies bare) (by simp)
  rw [applied, missing, Names.named_eq_ok_iff.mpr applies]
  rfl

end TypeReader

end SchemaMap
