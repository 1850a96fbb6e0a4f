import SchemaMap.Proofs.Analysis.Known
import SchemaMap.Proofs.Analysis.Traces

/-!
# The units in an analysis

Units occur in many places of an analysis: noted under their names, with their
symbols, and in quantities at any depth of the types of symbols, variables and
expressions.  `unit_dimensions_analyze` says that wherever a unit occurs it is
made of dimensions that the program declares, and that the noted units are
exactly the values of the unit symbols.
-/

namespace SchemaMap

/--
The unit occurs in an analysis: it is noted, or a symbol or a type of a symbol
or an expression has it.
-/
inductive Analysis.MentionsUnit (analysis : Analysis) :
    PhysicalUnit → Prop where
  | noted {name : String} {unit : PhysicalUnit}
      (found : analysis.types.units.get? name = some unit) :
      MentionsUnit analysis unit
  | symbol {symbol : Symbol} {unit : PhysicalUnit}
      (member : symbol ∈ analysis.table.symbols)
      (value : symbol.kind = .unit (some unit)) : MentionsUnit analysis unit
  | symbolType {symbol : Symbol} {type : Ty} {unit : PhysicalUnit}
      (member : symbol ∈ analysis.table.symbols)
      (listed : type ∈ symbol.kind.types)
      (occurs : (Ty.quantity unit).OccursIn type) : MentionsUnit analysis unit
  | expression {span : Span} {type : Ty} {unit : PhysicalUnit}
      (found : analysis.types.expressions.get? span = some type)
      (occurs : (Ty.quantity unit).OccursIn type) :
      MentionsUnit analysis unit

/--
What all values of a dictionary have, they have with one more value that has it.
-/
theorem Dictionary.forall_get?_insert {κ ν : Type} [Ord κ] [Std.LawfulEqOrd κ]
    [Std.TransOrd κ] {good : ν → Prop} {dictionary : Dictionary κ ν}
    (before : ∀ key value, dictionary.get? key = some value → good value)
    (key : κ) {value : ν} (isGood : good value) :
    ∀ other found, (dictionary.insert key value).get? other = some found →
      good found := by
  intro other found lookup
  by_cases same : other = key
  · rw [same, Dictionary.get?_insert_self] at lookup
    cases lookup
    exact isGood
  · rw [Dictionary.get?_insert_of_ne same] at lookup
    exact before other found lookup

namespace Program

variable {program : Program} {analysis : Analysis}

/--
What an analysis holds mentions names and units of the program, and no others.
-/
structure KnowsAnalysis (program : Program) (analysis : Analysis) : Prop where
  symbols : ∀ id symbol, analysis.table.get? id = some symbol →
    program.KnowsKind symbol.kind
  units : ∀ name unit, analysis.types.units.get? name = some unit →
    program.KnowsUnit unit
  expressions : ∀ span type, analysis.types.expressions.get? span = some type →
    program.Knows type

theorem KnowsAnalysis.setKind (knows : program.KnowsAnalysis analysis)
    (id : Nat) {kind : Kind} (known : program.KnowsKind kind) :
    ∀ other symbol, (analysis.table.setKind id kind).get? other = some symbol →
      program.KnowsKind symbol.kind := by
  intro other symbol found
  rw [SymbolTable.get?_setKind] at found
  rcases Option.map_eq_some_iff.mp found with ⟨before, old, rfl⟩
  split
  · exact known
  · exact knows.symbols other before old

theorem KnowsAnalysis.bindVariable (knows : program.KnowsAnalysis analysis)
    (name : String) {type : Ty} (span : Span) (known : program.Knows type) :
    program.KnowsAnalysis (analysis.bindVariable name type span) := by
  cases bound : analysis.table.lookupLocal name with
  | some id =>
      rw [Analysis.bindVariable_of_bound bound]
      exact ⟨knows.symbols, knows.units, knows.expressions⟩
  | none =>
      rw [Analysis.bindVariable_of_free bound]
      refine ⟨?_, knows.units, knows.expressions⟩
      intro id symbol found
      rw [SymbolTable.get?_adding] at found
      split at found
      · cases found
        exact ⟨nofun, List.forall_mem_singleton.mpr known⟩
      · exact knows.symbols id symbol found

/-- A known change leads from known to known. -/
theorem KnowsAnalysis.change (knows : program.KnowsAnalysis analysis)
    {change : Change} (known : program.KnowsChange change) :
    program.KnowsAnalysis (analysis.change change) := by
  cases change with
  | noteUnit id name unit =>
      refine ⟨knows.setKind id ⟨?_, List.forall_mem_nil _⟩, ?_,
        knows.expressions⟩
      · rintro value ⟨⟩
        exact known
      · exact Dictionary.forall_get?_insert knows.units name known
  | setKind id kind =>
      exact ⟨knows.setKind id known, knows.units, knows.expressions⟩
  | bindVariable name type span => exact knows.bindVariable name span known
  | noteType span type =>
      exact ⟨knows.symbols, knows.units,
        Dictionary.forall_get?_insert knows.expressions span known⟩
  | _ => exact ⟨knows.symbols, knows.units, knows.expressions⟩

theorem knowsAnalysis_registered (program : Program) :
    program.KnowsAnalysis (Analysis.registered program) where
  symbols := by
    intro id symbol found
    rcases List.mem_map.mp (List.mem_of_getElem? found) with ⟨entry, -, rfl⟩
    exact knowsKind_placeholder entry.2
  units := nofun
  expressions := nofun

/-- An analysis mentions nothing that its program does not know. -/
theorem knowsAnalysis_analyze (config : Config) (program : Program) :
    program.KnowsAnalysis (analyze config program) := by
  rw [Analysis.analyze_eq_changed]
  refine Analysis.changed_induction ?_ (knowsAnalysis_registered program)
  intro change member before knows
  exact knows.change (program.knows_changes config change member)

/-- A unit that is mentioned is known. -/
theorem KnowsAnalysis.measures (knows : program.KnowsAnalysis analysis)
    {unit : PhysicalUnit} (mentions : analysis.MentionsUnit unit) :
    program.KnowsUnit unit := by
  cases mentions with
  | noted found => exact knows.units _ _ found
  | symbol member value =>
      rcases List.getElem?_of_mem member with ⟨id, found⟩
      exact (knows.symbols id _ found).unit unit value
  | symbolType member listed occurs =>
      rcases List.getElem?_of_mem member with ⟨id, found⟩
      exact (knows.symbols id _ found).types _ listed _ occurs
  | expression found occurs => exact knows.expressions _ _ found _ occurs

/-- A declaration has a unit exactly when it stands for it. -/
theorem unitOf_eq_some_iff {declaration : Declaration} {unit : PhysicalUnit} :
    program.unitOf declaration = some unit ↔
      program.kindOf declaration = .unit (some unit) := by
  cases declaration with
  | unit declaration =>
      simp only [unitOf, kindOf]
      cases program.units.find declaration.name <;> simp [Except.toOption]
  | schema declaration =>
      simp only [unitOf, kindOf]
      cases program.fields.completed.lookup declaration.name <;>
        simp [Declaration.placeholder]
  | lookup declaration =>
      simp only [unitOf, kindOf]
      cases program.names.lookup declaration <;> simp [Declaration.placeholder]
  | transform declaration =>
      simp only [unitOf, kindOf]
      cases program.names.signature declaration <;>
        simp [Declaration.placeholder]
  | _ => simp [unitOf, kindOf, Declaration.head]

end Program

/--
Wherever a unit occurs in an analysis, it has no exponent zero and is made of
declared dimensions; and a unit is noted under a name exactly when the global
symbol of that name stands for it.
-/
theorem unit_dimensions_analyze (config : Config) (program : Program) :
    (∀ unit, (analyze config program).MentionsUnit unit →
      ∀ entry ∈ unit.dimensions.entries,
      entry.2 ≠ 0 ∧
        (analyze config program).types.dimensions.get? entry.1 = some ()) ∧
    ∀ name unit, (analyze config program).types.units.get? name = some unit ↔
      (analyze config program).table.kind? name = some (.unit (some unit)) := by
  constructor
  · intro unit mentions entry member
    have declared :=
      (program.knowsAnalysis_analyze config).measures mentions entry member
    refine ⟨(unit.dimensions.stored entry member).1, ?_⟩
    rw [Analysis.dimension?_analyze, declared]
    rfl
  · intro name unit
    rw [Analysis.unit?_analyze, Analysis.kind?_analyze, Program.kind?,
      Option.bind_eq_some_iff, Option.map_eq_some_iff]
    simp only [Program.unitOf_eq_some_iff]

end SchemaMap
