import SchemaMap.Proofs.Branches
import SchemaMap.Proofs.UnitText

/-!
# Advice on mismatches

Where the value of a rule does not fit its field, the reader gets advice: to
provide a fallback for a value that may be missing, or to mind the dimensions of
two quantities.  Which advice is given is decided on the texts of the two types,
by a question mark at the end and by the beginning of a quantity.

What a text ends and begins with is said here of the types themselves
(`endsIn_text`, `beginsWith_text`).  A function to an optional type and a union
with an optional last member end in a question mark as well, and an optional
quantity begins like a quantity.  The advice follows these looks
(`advice_on_mismatch`); it is right for types that are what they look like, and
wrong for an optional quantity in the place of a quantity
(`exists_mismatch_without_fallback`).
-/

namespace SchemaMap

/-! ## How texts begin and end -/

namespace Text

variable {mark : Char} {first second beginning : String}

/-- How a text ends is up to its last part that is not empty. -/
theorem endsIn_append_of_ne_empty (first : String) (written : second ≠ "") :
    endsIn mark (first ++ second) = endsIn mark second := by
  have some : second.toList ≠ [] := by simpa using written
  rw [endsIn, String.toList_append, List.getLast?_append_of_ne_nil _ some,
    endsIn]

theorem endsIn_append (bare : endsIn mark first = false) (second : String) :
    endsIn mark (first ++ second) = endsIn mark second := by
  by_cases written : second = ""
  · rw [written, String.append_empty, bare]
    rfl
  · exact endsIn_append_of_ne_empty first written

theorem endsIn_of_not_mem (absent : mark ∉ first.toList) :
    endsIn mark first = false := by
  rw [endsIn, beq_eq_false_iff_ne]
  exact fun last => absent (List.mem_of_getLast? last)

/--
A word without a letter does not reach beyond the first such letter of a text.
-/
theorem isPrefixOf_append_cons {word : List Char} {letter : Char}
    (absent : letter ∉ word) (start rest : List Char) :
    word.isPrefixOf (start ++ letter :: rest) = word.isPrefixOf start := by
  induction word generalizing start with
  | nil => rfl
  | cons head tail ih =>
      rw [List.mem_cons, not_or] at absent
      cases start with
      | nil => simp [List.isPrefixOf, Ne.symm absent.1]
      | cons other start =>
          simp only [List.cons_append, List.isPrefixOf, ih absent.2]

/--
A word that ends in a letter begins a text exactly when it is all that stands
before the first such letter.
-/
theorem isPrefixOf_concat_append_cons {word start : List Char} {letter : Char}
    (absent : letter ∉ word) (absentThere : letter ∉ start) (rest : List Char) :
    (word ++ [letter]).isPrefixOf (start ++ letter :: rest) =
      (word == start) := by
  induction word generalizing start with
  | nil =>
      cases start with
      | nil => simp [List.isPrefixOf]
      | cons other start =>
          rw [List.mem_cons, not_or] at absentThere
          simp [List.isPrefixOf, absentThere.1]
  | cons head tail ih =>
      rw [List.mem_cons, not_or] at absent
      cases start with
      | nil => simp [List.isPrefixOf, Ne.symm absent.1]
      | cons other start =>
          rw [List.mem_cons, not_or] at absentThere
          simp only [List.cons_append, List.isPrefixOf,
            ih absent.2 absentThere.2, List.cons_beq_cons]

/-- A beginning does not reach past a letter that it does not have. -/
theorem beginsWith_append {letter : Char}
    (next : second.toList.head? = some letter)
    (absent : letter ∉ beginning.toList) :
    beginsWith beginning (first ++ second) = beginsWith beginning first := by
  rcases List.head?_eq_some_iff.mp next with ⟨rest, letters⟩
  rw [beginsWith, String.toList_append, letters, isPrefixOf_append_cons absent,
    beginsWith]

/--
A word that ends in a mark is met by the word that stands before the mark.
-/
theorem beginsWith_append_mark {word : String} (absent : mark ∉ word.toList)
    (absentThere : mark ∉ first.toList) (rest : String) :
    beginsWith (word ++ String.singleton mark)
      (first ++ String.singleton mark ++ rest) = (first == word) := by
  have letters : (first ++ String.singleton mark ++ rest).toList =
      first.toList ++ mark :: rest.toList := by simp
  have wordLetters : (word ++ String.singleton mark).toList =
      word.toList ++ [mark] := by simp
  rw [beginsWith, letters, wordLetters,
    isPrefixOf_concat_append_cons absent absentThere, Bool.eq_iff_iff,
    beq_iff_eq, beq_iff_eq, String.toList_inj, eq_comm]

/-- A text does not begin with a letter that is not in it. -/
theorem beginsWith_of_not_mem {letter : Char}
    (written : letter ∈ beginning.toList) (absent : letter ∉ first.toList) :
    beginsWith beginning first = false := by
  rw [beginsWith, Bool.eq_false_iff, Ne, List.isPrefixOf_iff_prefix]
  exact fun begins => absent (begins.subset written)

end Text

/-- A name without the marks that advice looks for in the text of a type. -/
def IsPlainName (name : String) : Prop :=
  Text.mentions ['<', '?'] name = false

instance (name : String) : Decidable (IsPlainName name) :=
  inferInstanceAs (Decidable (Text.mentions ['<', '?'] name = false))

namespace IsPlainName

variable {name : String}

/-- Letters and digits make a plain name. -/
theorem of_forall_isAlphanum
    (plain : ∀ letter ∈ name.toList, letter.isAlphanum = true) :
    IsPlainName name :=
  Text.mentions_eq_false_of_isAlphanum (by decide) plain

/-- A plain name has neither of the marks that advice looks for. -/
theorem not_mem (plain : IsPlainName name) :
    '<' ∉ name.toList ∧ '?' ∉ name.toList :=
  ⟨Text.not_mem_of_mentions_eq_false plain (by decide),
    Text.not_mem_of_mentions_eq_false plain (by decide)⟩

theorem endsIn_eq_false (plain : IsPlainName name) :
    Text.endsIn '?' name = false :=
  Text.endsIn_of_not_mem plain.not_mem.2

theorem beginsWith_eq_false (plain : IsPlainName name) :
    Text.beginsWith "Quantity<" name = false :=
  Text.beginsWith_of_not_mem (by decide) plain.not_mem.1

end IsPlainName

/-! ## How types look -/

namespace Ty

mutual

/-- Whether the text of the type ends as that of an optional type. -/
def looksOptional : Ty → Bool
  | .optional _ => true
  | .union members => lastLooksOptional members
  | .function _ result => looksOptional result
  | _ => false
termination_by structural type => type

/-- Whether the last type of a list looks optional. -/
def lastLooksOptional : List Ty → Bool
  | [] => false
  | [type] => looksOptional type
  | _ :: rest => lastLooksOptional rest
termination_by structural types => types

end

/-- Whether a question mark behind the type needs parentheses around it. -/
def isEnclosed : Ty → Bool
  | .union _ => true
  | .function _ _ => true
  | _ => false

/-- Whether the text of the type begins as that of a quantity. -/
def looksMeasured : Ty → Bool
  | .quantity _ => true
  | .schema name arguments _ _ => name == "Quantity" && !arguments.isEmpty
  | .optional inner => !inner.isEnclosed && inner.looksMeasured
  | .union (first :: _) => first.looksMeasured
  | _ => false

/-- The name that stands in the text of the type, if there is one, is plain. -/
def IsNamedPlainly : Ty → Prop
  | .schema name _ _ _ => IsPlainName name
  | .enumeration name _ => IsPlainName name
  | .parameter name _ => IsPlainName name
  | _ => True

/--
An optional type is written with a question mark, behind parentheses where they
are needed.
-/
theorem text_optional (inner : Ty) :
    (Ty.optional inner).text = if inner.isEnclosed then
      "(" ++ inner.text ++ ")?" else inner.text ++ "?" := by
  cases inner <;> simp [text, isEnclosed]

/-- The text of a union ends as the text of its last member does. -/
theorem endsIn_join_texts {types : List Ty}
    (each : ∀ type ∈ types, Text.endsIn '?' type.text = type.looksOptional) :
    Text.endsIn '?' (Text.join " | " (texts types)) =
      lastLooksOptional types := by
  induction types with
  | nil => rfl
  | cons type rest ih =>
      rw [List.forall_mem_cons] at each
      cases rest with
      | nil => exact each.1
      | cons next rest =>
          show Text.endsIn '?'
              (type.text ++ " | " ++ Text.join " | " (texts (next :: rest))) = _
          rw [Text.endsIn_append (by simp [Text.endsIn])]
          exact ih each.2

/-- The text of a type ends in a question mark if the type looks optional. -/
theorem endsIn_text {type : Ty} (plain : type.Throughout IsNamedPlainly) :
    Text.endsIn '?' type.text = type.looksOptional := by
  induction type with
  | primitive base => cases base <;> decide
  | schema name arguments parameters fields _ _ =>
      have named : IsPlainName name := plain _ .self
      rw [text]
      split
      · exact named.endsIn_eq_false
      · exact Text.endsIn_append_of_ne_empty _ (by decide)
  | enumeration name variants =>
      exact IsPlainName.endsIn_eq_false (plain _ .self)
  | array element _ => exact Text.endsIn_append_of_ne_empty _ (by decide)
  | optional inner _ =>
      rw [text_optional]
      split <;> exact Text.endsIn_append_of_ne_empty _ (by decide)
  | quantity unit => exact Text.endsIn_append_of_ne_empty _ (by decide)
  | tuple items _ => exact Text.endsIn_append_of_ne_empty _ (by decide)
  | union members each =>
      rw [text, looksOptional]
      exact endsIn_join_texts fun member listed =>
        each member listed (plain.child listed)
  | function parameters result _ ends =>
      rw [text,
        Text.endsIn_append (Text.endsIn_append_of_ne_empty _ (by decide)),
        looksOptional]
      exact ends (plain.child (List.mem_append_right _ List.mem_cons_self))
  | parameter name id => exact IsPlainName.endsIn_eq_false (plain _ .self)
  | never => decide
  | unknown => decide

/--
The text of a type begins with that of a quantity if the type looks like one.
-/
theorem beginsWith_text {type : Ty} (plain : type.Throughout IsNamedPlainly) :
    Text.beginsWith "Quantity<" type.text = type.looksMeasured := by
  induction type with
  | primitive base => cases base <;> decide
  | schema name arguments parameters fields _ _ =>
      have named : IsPlainName name := plain _ .self
      rw [text, looksMeasured]
      split
      · next bare =>
          rw [named.beginsWith_eq_false, bare, Bool.not_true, Bool.and_false]
      · next applied =>
          rw [Bool.not_eq_true] at applied
          rw [applied, Bool.not_false, Bool.and_true, String.append_assoc]
          have letters : '<' ∉ "Quantity".toList := by decide
          exact Text.beginsWith_append_mark letters named.not_mem.1 _
  | enumeration name variants =>
      exact IsPlainName.beginsWith_eq_false (plain _ .self)
  | array element _ =>
      simp [text, Text.beginsWith, List.isPrefixOf, looksMeasured]
  | optional inner begins =>
      rw [text_optional, looksMeasured]
      split
      · next enclosed => simp [Text.beginsWith, List.isPrefixOf, enclosed]
      · next bare =>
          rw [Bool.not_eq_true] at bare
          rw [Text.beginsWith_append (show "?".toList.head? = some '?' from rfl)
            (by decide), bare]
          exact begins (plain.child List.mem_cons_self)
  | quantity unit =>
      simp [text, Text.beginsWith, List.isPrefixOf, looksMeasured]
  | tuple items _ =>
      simp [text, Text.beginsWith, List.isPrefixOf, looksMeasured]
  | union members each =>
      cases members with
      | nil => decide
      | cons first rest =>
          have begins :=
            each first List.mem_cons_self (plain.child List.mem_cons_self)
          cases rest with
          | nil => exact begins
          | cons next rest =>
              rw [looksMeasured, ← begins]
              show Text.beginsWith _
                  (first.text ++ " | " ++
                    Text.join " | " (texts (next :: rest))) = _
              rw [String.append_assoc]
              have next : (" | " ++
                  Text.join " | " (texts (next :: rest))).toList.head? =
                  some ' ' := by simp
              exact Text.beginsWith_append next (by decide)
  | function parameters result _ _ =>
      simp [text, Text.beginsWith, List.isPrefixOf, looksMeasured]
  | parameter name id => exact IsPlainName.beginsWith_eq_false (plain _ .self)
  | never => decide
  | unknown => decide

theorem structural_isNamedPlainly : Structural IsNamedPlainly := by
  constructor <;> intros <;> trivial

theorem inferable_isNamedPlainly : Inferable IsNamedPlainly where
  toStructural := structural_isNamedPlainly
  unknown := trivial
  multiply := fun _ _ _ _ _ _ => trivial
  divide := fun _ _ _ _ _ _ => trivial

/--
Replacing variables inside a type that is no variable keeps its plain name.
-/
theorem isNamedPlainly_substitute (bindings : Bindings) {type : Ty}
    (closed : ∀ name id, type ≠ .parameter name id)
    (named : type.IsNamedPlainly) :
    (type.substitute bindings).IsNamedPlainly := by
  cases type with
  | parameter name id => exact absurd rfl (closed name id)
  | schema name arguments parameters fields => exact named
  | enumeration name variants => exact named
  | _ => trivial

end Ty

/-! ## The names of types in a program -/

/-- The names that a declaration brings into the texts of types. -/
def Declaration.typeNames : Declaration → List String
  | .schema declaration => declaration.name :: declaration.parameters
  | .enumeration declaration => [declaration.name]
  | _ => []

/-- The names that stand in the texts of types. -/
def Program.typeNames (program : Program) : List String :=
  program.flatMap Declaration.typeNames

namespace Program

variable {program : Program} {name : String}

theorem mem_typeNames_of_owner? {declaration : Declaration}
    (owner : program.owner? name = some declaration) {listed : String}
    (member : listed ∈ declaration.typeNames) : listed ∈ program.typeNames :=
  List.mem_flatMap.mpr ⟨declaration, List.mem_of_find?_eq_some owner, member⟩

/-- A name that stands for a type is among the names of types. -/
theorem mem_typeNames_of_applies {type : Ty} {arguments : List Ty}
    (applied : Applies program.names.declares name arguments type) :
    name ∈ program.typeNames := by
  have owned : ∃ declaration, program.owner? name = some declaration ∧
      declaration.name ∈ declaration.typeNames := by
    cases applied with
    | schema known _ =>
        rcases Option.map_eq_some_iff.mp known with ⟨declaration, owner, head⟩
        refine ⟨declaration, owner, ?_⟩
        cases declaration with
        | schema declaration => exact List.mem_cons_self
        | _ => contradiction
    | enumeration known =>
        rcases Option.map_eq_some_iff.mp known with ⟨declaration, owner, head⟩
        refine ⟨declaration, owner, ?_⟩
        cases declaration with
        | enumeration declaration => exact List.mem_cons_self
        | _ => contradiction
  rcases owned with ⟨declaration, owner, member⟩
  rw [← name_of_owner? owner]
  exact mem_typeNames_of_owner? owner member

/-- The parameters of a declared schema are among the names of types. -/
theorem parameters_subset_typeNames {schema : Schema} {parent : Option String}
    (known : program.kind? name = some (.schema schema parent)) :
    schema.parameters ⊆ program.typeNames := by
  rcases Option.map_eq_some_iff.mp known with ⟨declaration, owner, complete⟩
  have same := Analysis.asType_kindOf owner
  rw [complete] at same
  cases declaration with
  | schema declaration =>
      simp only [Declaration.head, Kind.asType, Kind.schema.injEq,
        Schema.mk.injEq] at same
      rw [same.1.2.2.1]
      exact fun parameter listed =>
        mem_typeNames_of_owner? owner (List.mem_cons_of_mem _ listed)
  | _ => contradiction

variable (plain : ∀ name ∈ program.typeNames, IsPlainName name)

include plain

/-- All types that a program supplies are named plainly. -/
theorem supplies_isNamedPlainly : program.Supplies Ty.IsNamedPlainly where
  structural := Ty.structural_isNamedPlainly
  applied := by
    intro name arguments type applied
    have named := plain name (mem_typeNames_of_applies applied)
    cases applied <;> exact named
  measured := fun _ _ _ => trivial
  unknown := trivial

/--
The types of fields are named plainly, also where they are type variables.
-/
theorem namedPlainly_fields {schema : Schema} {parent : Option String}
    (known : program.kind? name = some (.schema schema parent)) :
    ∀ field ∈ schema.fields, field.2.Throughout Ty.IsNamedPlainly := by
  have supplies := supplies_isNamedPlainly plain
  have fields := @throughout_fields program
    (fun parameters type =>
      (∀ name ∈ parameters, IsPlainName name) → type.IsNamedPlainly)
    (fun _ =>
      { structural := by constructor <;> intros <;> trivial
        applied := fun name arguments type applied _ =>
          supplies.applied name arguments type applied
        measured := fun _ _ _ _ => trivial
        unknown := fun _ => trivial })
    (fun _ name _ listed given => given name listed)
    (fun _ parent _ declared _ _ named _ => named fun name listed =>
      plain name
        (List.mem_flatMap.mpr ⟨_, declared, List.mem_cons_of_mem _ listed⟩))
        name schema parent known
  exact fun field member part occurs =>
    fields field member part occurs fun parameter listed =>
      plain parameter (parameters_subset_typeNames known listed)

end Program

/--
The types that rules of a program come upon are named plainly, if the program
names its types plainly.
-/
theorem Program.ChecksRules.namedPlainly {config : Config} {program : Program}
    {context : Context} {target : Ty}
    (checks : program.ChecksRules config context target)
    (plain : ∀ name ∈ program.typeNames, IsPlainName name) :
    context.Throughout Ty.IsNamedPlainly ∧
      target.Throughout Ty.IsNamedPlainly := by
  have supplies := Program.supplies_isNamedPlainly plain
  rcases checks with ⟨resolved⟩
  constructor
  · refine supplies.throughout_bodyContext ?_ config resolved
    intro name schema parent known arguments parameters shown handle
    exact Schema.throughout_fieldsAt Ty.isNamedPlainly_substitute
      (Program.namedPlainly_fields plain known)
      fun argument member => handle.child (List.mem_append_left _ member)
  · exact supplies.signature resolved _
      (List.mem_append_right _ List.mem_cons_self)

/-! ## The advice -/

/-- The hint that a field needs a value that is always there. -/
def fallbackHint (field : Ty) : String :=
  "Provide a fallback: <expr> ?? <" ++ field.text ++ ">"

/-- The note on quantities that cannot be assigned. -/
def dimensionsNote : String :=
  "Quantities are assignable only when their dimensions agree"

/--
The hint is given where a value that may be missing meets a field that may not,
and the note only between quantities of different dimensions.
-/
structure Fault.AdvisesOn (fault : Fault) (field value : Ty) : Prop where
  fallback : fallbackHint field ∈ fault.diagnostic.hints ↔
    value.isOptional = true ∧ field.isOptional = false
  dimensions : dimensionsNote ∈ fault.diagnostic.notes →
    ∃ fieldUnit valueUnit, field = .quantity fieldUnit ∧
      value = .quantity valueUnit ∧
      fieldUnit.dimensions ≠ valueUnit.dimensions

/--
A value looks optional next to a field exactly when it is, and the two look like
quantities only if they are.
-/
structure Ty.AreTelling (field value : Ty) : Prop where
  optional : value.looksOptional = true ∧ field.looksOptional = false ↔
    value.isOptional = true ∧ field.isOptional = false
  quantities : field.looksMeasured = true → value.looksMeasured = true →
    field.unit?.isSome = true ∧ value.unit?.isSome = true

theorem Ty.unit?_isSome_iff {type : Ty} :
    type.unit?.isSome = true ↔ ∃ unit, type = .quantity unit := by
  cases type <;> simp [unit?]

/--
Advice that follows the looks of refused types suits the types exactly where the
looks are telling.
-/
theorem Fault.advisesOn_iff {fault : Fault} {field value : Ty}
    (apart : ∀ fieldUnit valueUnit, field = .quantity fieldUnit →
      value = .quantity valueUnit →
      fieldUnit.dimensions ≠ valueUnit.dimensions)
    (hint : fallbackHint field ∈ fault.diagnostic.hints ↔
      (value.looksOptional = true ∧ field.looksOptional = false) ∧
        ¬(field.looksMeasured = true ∧ value.looksMeasured = true))
    (note : dimensionsNote ∈ fault.diagnostic.notes ↔
      field.looksMeasured = true ∧ value.looksMeasured = true) :
    fault.AdvisesOn field value ↔ Ty.AreTelling field value := by
  constructor
  · rintro ⟨fallback, dimensions⟩
    have quantities : field.looksMeasured = true → value.looksMeasured = true →
        field.unit?.isSome = true ∧ value.unit?.isSome = true := by
      intro fieldLooks valueLooks
      rcases dimensions (note.mpr ⟨fieldLooks, valueLooks⟩) with
        ⟨fieldUnit, valueUnit, rfl, rfl, -⟩
      exact ⟨rfl, rfl⟩
    refine ⟨?_, quantities⟩
    -- Two quantities neither look optional nor are; otherwise no note stands in
    -- the way of the hint.
    by_cases both : field.looksMeasured = true ∧ value.looksMeasured = true
    · rcases Ty.unit?_isSome_iff.mp (quantities both.1 both.2).2 with
        ⟨valueUnit, rfl⟩
      simp [Ty.looksOptional, Ty.isOptional]
    · rw [← fallback, hint]
      exact ⟨fun looks => ⟨looks, both⟩, fun looks => looks.1⟩
  · rintro ⟨optional, quantities⟩
    constructor
    · rw [hint, optional]
      refine ⟨fun looks => looks.1, fun lacking => ⟨lacking, fun both => ?_⟩⟩
      rcases Ty.unit?_isSome_iff.mp (quantities both.1 both.2).2 with
        ⟨valueUnit, rfl⟩
      simp [Ty.isOptional] at lacking
    · intro noted
      have both := note.mp noted
      have measured := quantities both.1 both.2
      rcases Ty.unit?_isSome_iff.mp measured.1 with ⟨fieldUnit, fieldIs⟩
      rcases Ty.unit?_isSome_iff.mp measured.2 with ⟨valueUnit, valueIs⟩
      exact ⟨fieldUnit, valueUnit, fieldIs, valueIs,
        apart fieldUnit valueUnit fieldIs valueIs⟩

namespace Problem

variable {target expected found : String} {field : Ty}

/--
A mismatch comes with the advice to give a fallback, unless both types are
quantities.
-/
theorem hints_typeMismatch :
    (typeMismatch target field.text found).hints =
      if betweenQuantities field.text found then [] else
        if lacksFallback field.text found then [fallbackHint field] else [] :=
  rfl

/-- A mismatch comes with the note on dimensions exactly between quantities. -/
theorem notes_typeMismatch :
    (typeMismatch target expected found).notes =
      if betweenQuantities expected found then [dimensionsNote] else [] :=
  rfl

/-- Where the advice to give a fallback is given. -/
theorem mem_hints_typeMismatch_iff :
    fallbackHint field ∈ (typeMismatch target field.text found).hints ↔
      lacksFallback field.text found = true ∧
        betweenQuantities field.text found = false := by
  rw [hints_typeMismatch]
  cases betweenQuantities field.text found <;>
    cases lacksFallback field.text found <;> simp

theorem mem_notes_typeMismatch_iff :
    dimensionsNote ∈ (typeMismatch target expected found).notes ↔
      betweenQuantities expected found = true := by
  rw [notes_typeMismatch]
  cases betweenQuantities expected found <;> simp

end Problem

namespace Context

variable {context : Context} {target field value : Ty} {rule : Rule}

/--
A rule whose value does not fit its field fails with the texts of both types.
-/
theorem outcome_checkRule_of_refused
    (walked : context.walk target rule.target = .ok field)
    (inferred : (context.infer rule.value).outcome = .ok value)
    (refused : context.accepts value field = false) :
    (context.checkRule target rule).outcome =
      .error ⟨.typeMismatch rule.targetText field.text value.text,
        rule.value.span⟩ := by
  rw [checkRule, Inference.outcome_bind_of_ok _ walked,
    Inference.outcome_bind_of_ok _ inferred, refused]
  rfl

/-- Quantities that are refused have different dimensions. -/
theorem dimensions_ne_of_refused {fieldUnit valueUnit : PhysicalUnit}
    (refused : context.accepts (.quantity valueUnit) (.quantity fieldUnit) =
      false) :
    fieldUnit.dimensions ≠ valueUnit.dimensions := by
  intro same
  have equal : Ty.equal (.quantity valueUnit) (.quantity fieldUnit) = true := by
    rw [Ty.equal, PhysicalUnit.agrees, same, decide_eq_true rfl]
  rw [accepts, Ty.isSubtype_of_equal equal] at refused
  contradiction

end Context

/--
Whatever is assigned where it does not fit, the rule fails with a mismatch of
the two types.  In a program that names its types plainly, the fallback is
hinted at exactly when the value looks optional, the field does not, and not
both look like quantities; the note is there exactly when both do.  So the
advice suits the types exactly where their looks are telling.
-/
theorem advice_on_mismatch (config : Config) (program : Program)
    (plain : ∀ name ∈ program.typeNames, IsPlainName name) (context : Context)
    (target : Ty) (checks : program.ChecksRules config context target)
    (rule : Rule) (field value : Ty)
    (walked : context.walk target rule.target = .ok field)
    (inferred : (context.infer rule.value).outcome = .ok value)
    (refused : context.accepts value field = false) :
    ∃ fault, (context.checkRule target rule).outcome = .error fault ∧
      fault.problem = .typeMismatch rule.targetText field.text value.text ∧
      (fallbackHint field ∈ fault.diagnostic.hints ↔
        (value.looksOptional = true ∧ field.looksOptional = false) ∧
          ¬(field.looksMeasured = true ∧ value.looksMeasured = true)) ∧
      (dimensionsNote ∈ fault.diagnostic.notes ↔
        field.looksMeasured = true ∧ value.looksMeasured = true) ∧
      (fault.AdvisesOn field value ↔ Ty.AreTelling field value) := by
  have named := checks.namedPlainly plain
  have fieldPlain := named.1.walk named.2 walked
  have valuePlain :=
    (Context.keeps_infer Ty.inferable_isNamedPlainly named.1 rule.value).outcome
      value inferred
  have between : Problem.betweenQuantities field.text value.text =
      (field.looksMeasured && value.looksMeasured) := by
    rw [Problem.betweenQuantities, Ty.beginsWith_text fieldPlain,
      Ty.beginsWith_text valuePlain]
  have lacks : Problem.lacksFallback field.text value.text =
      (value.looksOptional && !field.looksOptional) := by
    rw [Problem.lacksFallback, Ty.endsIn_text fieldPlain,
      Ty.endsIn_text valuePlain]
  refine ⟨_, Context.outcome_checkRule_of_refused walked inferred refused, rfl,
    ?_⟩
  generalize
    faultIs : (⟨.typeMismatch rule.targetText field.text value.text,
      rule.value.span⟩ : Fault) = fault
  have hint : fallbackHint field ∈ fault.diagnostic.hints ↔
      (value.looksOptional = true ∧ field.looksOptional = false) ∧
        ¬(field.looksMeasured = true ∧ value.looksMeasured = true) := by
    rw [← faultIs, Fault.diagnostic, Problem.mem_hints_typeMismatch_iff, lacks,
      between]
    simp only [Bool.and_eq_true, Bool.not_eq_true', ← Bool.not_eq_true]
  have note : dimensionsNote ∈ fault.diagnostic.notes ↔
      field.looksMeasured = true ∧ value.looksMeasured = true := by
    rw [← faultIs, Fault.diagnostic, Problem.mem_notes_typeMismatch_iff,
      between, Bool.and_eq_true]
  refine ⟨hint, note, Fault.advisesOn_iff ?_ hint note⟩
  rintro fieldUnit valueUnit rfl rfl
  exact Context.dimensions_ne_of_refused refused

/-- The field named size takes the size of the source. -/
def sizeRule : Rule :=
  { target := [⟨"size", .unknown⟩],
    value := .path .unknown .source [.field .unknown "size" false] }

def sizeCopy : TransformDeclaration :=
  { name := "Copy"
    sources := [{ type := .schemaName .unknown "In" }]
    target := .schemaName .unknown "Out"
    rules := [sizeRule] }

/-- A size of one type is copied to a size of another one. -/
def sizes (given wanted : TypeExpr) : Program :=
  lengthsAndTimes ++
    [.schema { name := "In", fields := [{ name := "size", type := given }] },
      .schema { name := "Out", fields := [{ name := "size", type := wanted }] },
      .transform sizeCopy]

def sizeSignature : Signature :=
  { sources := [(none, .handle "In" [])], target := .handle "Out" [] }

/-- What the rule for the size depends on. -/
def sizeContext (given wanted : TypeExpr) : Context :=
  Analysis.bodyContext {} (sizes given wanted).kind? sizeCopy sizeSignature

theorem checksRules_sizes (given wanted : TypeExpr) :
    (sizes given wanted).ChecksRules {} (sizeContext given wanted)
      sizeSignature.target :=
  .body rfl

def metres : TypeExpr :=
  .quantity .unknown (.reference .unknown "m")

/--
The length that may be missing gets the hint in the place of a text, though it
begins like a quantity.
-/
theorem advice_on_mismatch_optional_length :
    let context :=
  sizeContext (.optional .unknown metres) (.primitive .unknown .string)
    ∃ field value fault,
      context.walk sizeSignature.target sizeRule.target = .ok field ∧
      (context.infer sizeRule.value).outcome = .ok value ∧
      context.accepts value field = false ∧
      value.looksMeasured = true ∧
      (context.checkRule sizeSignature.target sizeRule).outcome = .error fault ∧
      fallbackHint field ∈ fault.diagnostic.hints ∧
      fault.AdvisesOn field value := by
  intro context
  have tested : (context.walk sizeSignature.target sizeRule.target).toOption.any
      (fun field =>
        !field.looksOptional && !field.isOptional && !field.looksMeasured &&
          (context.infer sizeRule.value).outcome.toOption.any fun value =>
            value.looksOptional && value.isOptional && value.looksMeasured &&
              !context.accepts value field) = true := by
    decide +kernel
  rcases exists_eq_ok_of_any tested with ⟨field, walked, tested⟩
  simp only [Bool.and_eq_true, Bool.not_eq_true'] at tested
  rcases tested with ⟨⟨⟨fieldLooks, fieldIs⟩, unmeasured⟩, tested⟩
  rcases exists_eq_ok_of_any tested with ⟨value, inferred, tested⟩
  simp only [Bool.and_eq_true, Bool.not_eq_true'] at tested
  rcases tested with ⟨⟨⟨valueLooks, valueIs⟩, measured⟩, refused⟩
  have letters : (Program.typeNames
      (sizes (.optional .unknown metres) (.primitive .unknown .string))).all
      (fun name => name.toList.all Char.isAlphanum) = true := by
    decide
  have plain :
      ∀ name ∈ Program.typeNames (sizes (.optional .unknown metres)
        (.primitive .unknown .string)),
      IsPlainName name :=
    fun name listed =>
      .of_forall_isAlphanum
        (List.all_eq_true.mp (List.all_eq_true.mp letters name listed))
  rcases advice_on_mismatch {} _ plain context _ (checksRules_sizes _ _)
    sizeRule field value walked inferred refused
    with ⟨fault, failed, -, -, -, suits⟩
  have telling : Ty.AreTelling field value := by
    constructor <;> simp [fieldLooks, fieldIs, unmeasured, valueLooks, valueIs]
  have advises := suits.mpr telling
  have hinted := advises.fallback.mpr ⟨valueIs, fieldIs⟩
  exact ⟨field, value, fault, walked, inferred, refused, measured, failed,
    hinted, advises⟩

/--
A length that may be missing gets the note in the place of a length, but not the
hint.
-/
theorem exists_mismatch_without_fallback :
    let context := sizeContext (.optional .unknown metres) metres
    (∀ name ∈ (sizes (.optional .unknown metres) metres).map Declaration.name,
      ∀ letter ∈ name.toList, letter.isAlphanum = true) ∧
    ∃ field value fault,
      context.walk sizeSignature.target sizeRule.target = .ok field ∧
      (context.infer sizeRule.value).outcome = .ok value ∧
      context.accepts value field = false ∧
      value.isOptional = true ∧ field.isOptional = false ∧
      context.accepts value.present field = true ∧
      (context.checkRule sizeSignature.target sizeRule).outcome = .error fault ∧
      fault.diagnostic.hints = [] ∧
      fault.diagnostic.notes = [dimensionsNote] := by
  intro context
  have letters : ((sizes (.optional .unknown metres) metres).map
      Declaration.name).all
      (fun name => name.toList.all Char.isAlphanum) = true := by
    decide
  have tested : (context.walk sizeSignature.target sizeRule.target).toOption.any
      (fun field => !field.isOptional &&
      (context.infer sizeRule.value).outcome.toOption.any fun value =>
        value.isOptional && !context.accepts value field &&
          context.accepts value.present field &&
          Problem.betweenQuantities field.text value.text) = true := by
    decide +kernel
  rcases exists_eq_ok_of_any tested with ⟨field, walked, tested⟩
  simp only [Bool.and_eq_true, Bool.not_eq_true'] at tested
  rcases exists_eq_ok_of_any tested.2 with ⟨value, inferred, values⟩
  simp only [Bool.and_eq_true, Bool.not_eq_true'] at values
  rcases values with ⟨⟨⟨optional, refused⟩, fits⟩, between⟩
  refine ⟨fun name listed =>
    List.all_eq_true.mp (List.all_eq_true.mp letters name listed), field, value,
      _, walked, inferred, refused, optional, tested.1, fits,
      Context.outcome_checkRule_of_refused walked inferred refused, ?_, ?_⟩
  · rw [Fault.diagnostic, Problem.hints_typeMismatch, if_pos between]
  · rw [Fault.diagnostic, Problem.notes_typeMismatch, if_pos between]

end SchemaMap
