import SchemaMap.Proofs.Analysis.Owners
import SchemaMap.Proofs.Faults
import SchemaMap.Proofs.Symbol.Places

/-!
# Repeated declarations

A name belongs to the first declaration of it.  A further declaration of the
name, wherever it stands behind the first one, adds to what is told about names
and changes nothing else: neither what any name stands for, nor a type, nor what
is told about types (`analyze_repeated`).
-/

namespace SchemaMap

/-- Where a declaration stands once another one is inserted at a position. -/
def placeAfterInsertion (position place : Nat) : Nat :=
  if place < position then place else place + 1

theorem strictMono_placeAfterInsertion (position : Nat) :
    StrictMono (placeAfterInsertion position) := by
  intro first second before
  unfold placeAfterInsertion
  split <;> split <;> omega

theorem placeAfterInsertion_of_lt {position place : Nat}
    (before : place < position) :
    placeAfterInsertion position place = place :=
  if_pos before

theorem placeAfterInsertion_of_le {position place : Nat}
    (behind : position ≤ place) :
    placeAfterInsertion position place = place + 1 :=
  if_neg (Nat.not_lt.mpr behind)

/-! ## Registration -/

namespace Program

variable {before : Program} {declaration : Declaration}
  (taken : declaration.name ∈ before.map Declaration.name)

include taken

/-- A declaration whose name is taken moves the owners behind it. -/
theorem ownersFrom_repeated (after : Program) :
    ownersFrom [] 0 (before ++ declaration :: after) =
      (ownersFrom [] 0 (before ++ after)).map
        (Prod.map (placeAfterInsertion before.length) id) := by
  rw [ownersFrom_append, ownersFrom_append, List.append_nil, Nat.zero_add,
    ownersFrom, if_pos taken, ownersFrom_succ, List.map_append]
  congr 1
  · conv_lhs => rw [← List.map_id (ownersFrom [] 0 before)]
    apply List.map_congr_left
    intro entry member
    have place := (place_of_mem_ownersFrom member).2
    rw [Nat.zero_add] at place
    simp [Prod.map, placeAfterInsertion_of_lt place]
  · apply List.map_congr_left
    intro entry member
    simp [Prod.map,
      placeAfterInsertion_of_le (place_of_mem_ownersFrom member).1]

/-- A repeated declaration changes no owner. -/
theorem owners_repeated (after : Program) :
    owners (before ++ declaration :: after) = owners (before ++ after) := by
  rw [owners, ownersFrom_repeated taken, List.map_map]
  rfl

/--
A repeated declaration moves the places behind it and changes nothing else in
the table.
-/
theorem ofProgram_repeated (after : Program) :
    SymbolTable.ofProgram (before ++ declaration :: after) =
      (SymbolTable.ofProgram (before ++ after)).withPlaces
        (placeAfterInsertion before.length) := by
  have symbols : ((ownersFrom [] 0 (before ++ declaration :: after)).map
      SymbolTable.registered) =
      ((ownersFrom [] 0 (before ++ after)).map SymbolTable.registered).map
        (Symbol.withPlace (placeAfterInsertion before.length)) := by
    rw [ownersFrom_repeated taken, List.map_map, List.map_map]
    rfl
  rw [SymbolTable.ofProgram, SymbolTable.ofProgram, symbols,
    SymbolTable.withPlaces]
  simp only [SymbolTable.ofGlobals, List.zipIdx_map, List.map_map]
  rfl

theorem owner?_concat_of_mem :
    owner? (before ++ [declaration]) = before.owner? := by
  funext name
  rw [owner?_append]
  cases found : before.owner? name with
  | some owner => rfl
  | none =>
      have apart : declaration.name ≠ name := by
        rintro rfl
        exact owner?_eq_none_iff.mp found taken
      simp [owner?, apart]

/-- A repeated declaration is reported, in its place. -/
theorem takenFaults_repeated (after : Program) : ∃ fault : Fault,
    takenFaults [] (before ++ declaration :: after) =
      takenFaults [] before ++ fault :: takenFaults before after := by
  rcases Option.isSome_iff_exists.mp (owner?_isSome_iff.mpr taken) with
    ⟨owner, found⟩
  refine ⟨⟨.alreadyDeclared declaration.name owner.placeholder.text,
    declaration.span⟩, ?_⟩
  rw [takenFaults_append, List.nil_append, takenFaults, takenFault?, found,
    takenFaults_congr (owner?_concat_of_mem taken)]
  rfl

end Program

theorem Program.isOfRegistration_takenFaults (earlier program : Program) :
    ∀ fault ∈ takenFaults earlier program,
      fault.problem.isOfRegistration = true := by
  induction program generalizing earlier with
  | nil => exact List.forall_mem_nil _
  | cons declaration rest ih =>
      rw [takenFaults, List.forall_mem_append]
      refine ⟨?_, ih _⟩
      intro fault member
      rcases Option.map_eq_some_iff.mp (Option.mem_toList.mp member) with
        ⟨owner, -, rfl⟩
      rfl

namespace SymbolTable

/-- What names alone show belongs to registration. -/
theorem isOfRegistration_nameFaults (table : SymbolTable) (place : Nat)
    (declaration : Declaration) :
    ∀ fault ∈ table.nameFaults place declaration,
      fault.problem.isOfRegistration = true := by
  cases declaration with
  | schema declaration =>
      simp only [nameFaults, schemaFaults, List.forall_mem_append,
        List.forall_mem_map]
      refine ⟨fun _ _ => rfl, ?_⟩
      split
      · exact List.forall_mem_nil _
      · split
        · exact List.forall_mem_singleton.mpr rfl
        · split
          · split
            · exact List.forall_mem_singleton.mpr rfl
            · exact List.forall_mem_nil _
          · exact List.forall_mem_nil _
  | enumeration declaration => exact List.forall_mem_map.mpr fun _ _ => rfl
  | _ => exact List.forall_mem_nil _

/-- Registration finds faults of registration. -/
theorem isOfRegistration_register (program : Program) :
    ∀ fault ∈ (empty.register program).2,
      fault.problem.isOfRegistration = true := by
  rw [register_snd, List.forall_mem_append, List.forall_mem_flatMap]
  exact ⟨Program.isOfRegistration_takenFaults [] program,
    fun _ _ => isOfRegistration_nameFaults _ _ _⟩

end SymbolTable

/-! ## Lists with insertions -/

/-- The longer list is the shorter one with some members inserted. -/
structure Inserts {α : Type} (added shorter longer : List α) : Prop where
  sublist : shorter.Sublist longer
  perm : longer.Perm (shorter ++ added)

namespace Inserts

variable {α β : Type}

theorem refl (list : List α) : Inserts [] list list :=
  ⟨.refl _, by rw [List.append_nil]⟩

theorem middle (first added second : List α) :
    Inserts added (first ++ second) (first ++ (added ++ second)) where
  sublist := (List.sublist_append_right added second).append_left first
  perm := by
    rw [List.append_assoc]
    exact List.perm_append_comm.append_left first

theorem append {added further shorter longer shorterEnd longerEnd : List α}
    (first : Inserts added shorter longer)
    (second : Inserts further shorterEnd longerEnd) :
    Inserts (added ++ further) (shorter ++ shorterEnd)
      (longer ++ longerEnd) where
  sublist := first.sublist.append second.sublist
  perm := by
    refine (first.perm.append second.perm).trans ?_
    rw [List.append_assoc, List.append_assoc]
    exact (List.perm_append_comm_assoc added shorterEnd further).append_left
      shorter

theorem map {added shorter longer : List α}
    (inserts : Inserts added shorter longer) (change : α → β) :
    Inserts (added.map change) (shorter.map change) (longer.map change) where
  sublist := inserts.sublist.map change
  perm := by
    rw [← List.map_append]
    exact inserts.perm.map change

end Inserts

/--
Its own faults apart, a declaration whose name is taken leaves what names show
of the others.
-/
theorem Program.nameFaults_repeated {before : Program}
    {declaration : Declaration}
    (taken : declaration.name ∈ before.map Declaration.name) (after : Program) :
    Inserts ((SymbolTable.ofProgram (before ++ declaration :: after)).nameFaults
      before.length declaration)
      ((before ++ after).zipIdx.flatMap fun entry =>
        (SymbolTable.ofProgram (before ++ after)).nameFaults entry.2 entry.1)
      ((before ++ declaration :: after).zipIdx.flatMap fun entry =>
        (SymbolTable.ofProgram (before ++ declaration :: after)).nameFaults
          entry.2 entry.1) := by
  have moved :=
    SymbolTable.nameFaults_withPlaces (SymbolTable.ofProgram (before ++ after))
      (strictMono_placeAfterInsertion before.length)
  rw [← ofProgram_repeated taken] at moved
  have first : (before.zipIdx.flatMap fun entry =>
        (SymbolTable.ofProgram (before ++ declaration :: after)).nameFaults
          entry.2 entry.1) =
      before.zipIdx.flatMap fun entry =>
        (SymbolTable.ofProgram (before ++ after)).nameFaults entry.2
          entry.1 := by
    apply List.flatMap_congr
    intro entry member
    have place : entry.2 < before.length := List.snd_lt_of_mem_zipIdx member
    rw [← moved, placeAfterInsertion_of_lt place]
  have second : ((after.zipIdx (before.length + 1)).flatMap fun entry =>
        (SymbolTable.ofProgram (before ++ declaration :: after)).nameFaults
          entry.2 entry.1) =
      (after.zipIdx before.length).flatMap fun entry =>
        (SymbolTable.ofProgram (before ++ after)).nameFaults entry.2
          entry.1 := by
    rw [List.zipIdx_succ, List.flatMap_map]
    apply List.flatMap_congr
    intro entry member
    rw [← moved, placeAfterInsertion_of_le (List.le_snd_of_mem_zipIdx member)]
  rw [List.zipIdx_append, List.zipIdx_append, List.zipIdx_cons,
    List.flatMap_append, List.flatMap_append, List.flatMap_cons, Nat.zero_add,
    first, second]
  exact .middle _ _ _

/-- A repeated declaration adds faults of registration. -/
theorem Program.register_repeated {before : Program} {declaration : Declaration}
    (taken : declaration.name ∈ before.map Declaration.name) (after : Program) :
    ∃ added, added ≠ [] ∧
      Inserts added (SymbolTable.empty.register (before ++ after)).2
        (SymbolTable.empty.register (before ++ declaration :: after)).2 := by
  rcases takenFaults_repeated taken after with ⟨fault, repeated⟩
  rw [SymbolTable.register_snd, SymbolTable.register_snd, repeated,
    takenFaults_append, List.nil_append]
  exact ⟨_, List.append_ne_nil_of_left_ne_nil (List.cons_ne_nil fault []) _,
    (Inserts.middle (takenFaults [] before) [fault]
      (takenFaults before after)).append
      (nameFaults_repeated taken after)⟩

/-! ## The changes after the registration -/

/-- A later fault is compared with the later ones. -/
theorem Fault.report_append {early : List Fault}
    (registration : ∀ fault ∈ early, fault.problem.isOfRegistration = true)
    (later : List Fault) {fault : Fault} (isLater : fault.IsLater) :
    Fault.report (early ++ later) fault =
      early ++ Fault.report later fault := by
  have apart : early.any (fun known => known.diagnostic = fault.diagnostic) =
      false := by
    rw [List.any_eq_false]
    intro known member same
    exact Fault.diagnostic_ne (registration known member) isLater
      (of_decide_eq_true same)
  rw [Fault.report, Fault.report, List.any_append, apart, Bool.false_or]
  split
  · rfl
  · rw [List.append_assoc]

theorem Fault.isLater_report {later : List Fault}
    (allLater : ∀ fault ∈ later, fault.IsLater) {fault : Fault}
    (isLater : fault.IsLater) :
    ∀ found ∈ Fault.report later fault, found.IsLater := by
  rw [Fault.report]
  split
  · exact allLater
  · rw [List.forall_mem_append, List.forall_mem_singleton]
    exact ⟨allLater, isLater⟩

namespace Analysis

/--
Two analyses that differ in the places of declarations and in the faults that
their registrations found.
-/
structure Parallel (move : Nat → Nat) (early others : List Fault)
    (analysis other : Analysis) : Prop where
  table : other.table = analysis.table.withPlaces move
  types : other.types = analysis.types
  faults : ∃ later, (∀ fault ∈ later, fault.IsLater) ∧
    analysis.faults = early ++ later ∧ other.faults = others ++ later

namespace Parallel

variable {move : Nat → Nat} {early others : List Fault}
  {analysis other : Analysis}
  (registration : ∀ fault ∈ early, fault.problem.isOfRegistration = true)
  (registrations : ∀ fault ∈ others, fault.problem.isOfRegistration = true)

include registration registrations

theorem report (parallel : Parallel move early others analysis other)
    {fault : Fault} (isLater : fault.IsLater) :
    Parallel move early others (analysis.report fault)
      (other.report fault) where
  table := parallel.table
  types := parallel.types
  faults := by
    rcases parallel.faults with ⟨later, allLater, first, second⟩
    refine ⟨Fault.report later fault, Fault.isLater_report allLater isLater, ?_,
      ?_⟩
    · rw [Analysis.report, first,
        Fault.report_append registration later isLater]
    · rw [Analysis.report, second,
        Fault.report_append registrations later isLater]

/-- A variable is bound in both analyses, or refused in both. -/
theorem bindVariable (parallel : Parallel move early others analysis other)
    (name : String) (type : Ty) (span : Span) :
    Parallel move early others (analysis.bindVariable name type span)
      (other.bindVariable name type span) := by
  simp only [Analysis.bindVariable, parallel.table]
  cases bound : analysis.table.lookupLocal name with
  | some id =>
      rw [SymbolTable.define_of_bound analysis.table bound,
        SymbolTable.define_of_bound _ bound]
      exact parallel.report registration registrations rfl
  | none =>
      rw [SymbolTable.define_of_free analysis.table bound,
        SymbolTable.define_of_free _ bound]
      exact ⟨SymbolTable.adding_withPlaces move analysis.table rfl,
        parallel.types, parallel.faults⟩

/-- A change that reports no fault of registration keeps analyses parallel. -/
theorem change (parallel : Parallel move early others analysis other)
    {change : Change} (isLater : change.IsLater) :
    Parallel move early others (analysis.change change)
      (other.change change) := by
  rcases parallel with ⟨table, types, faults⟩
  cases change with
  | noteDimension name =>
      exact ⟨table, by simp only [Analysis.change, noteDimension, types],
        faults⟩
  | noteType span type =>
      exact ⟨table, by simp only [Analysis.change, noteType, types], faults⟩
  | noteUnit id name unit =>
      refine ⟨?_, by simp only [Analysis.change, noteUnit, types], faults⟩
      simp only [Analysis.change, noteUnit, table,
        SymbolTable.setKind_withPlaces]
  | setKind id kind =>
      refine ⟨?_, types, faults⟩
      simp only [Analysis.change, setKind, table,
        SymbolTable.setKind_withPlaces]
  | enter kind =>
      exact ⟨by simp only [Analysis.change, enter, table,
        SymbolTable.enter_withPlaces], types, faults⟩
  | exit =>
      exact ⟨by simp only [Analysis.change, exit, table,
        SymbolTable.exit_withPlaces], types, faults⟩
  | bindVariable name type span =>
      exact Parallel.bindVariable registration registrations
        ⟨table, types, faults⟩ name type span
  | report fault =>
      exact Parallel.report registration registrations ⟨table, types, faults⟩
        isLater

/-- Changes keep analyses parallel. -/
theorem changed (parallel : Parallel move early others analysis other)
    {changes : List Change} (isLater : ∀ change ∈ changes, change.IsLater) :
    Parallel move early others (analysis.changed changes)
      (other.changed changes) := by
  induction changes generalizing analysis other with
  | nil => exact parallel
  | cons first rest ih =>
      rw [List.forall_mem_cons] at isLater
      exact ih (parallel.change registration registrations isLater.1) isLater.2

end Parallel

/--
The analysis of a program with one more declaration at a position differs in no
more than what is told of names.
-/
structure AddsNames (position : Nat) (original extended : Analysis) : Prop where
  table : extended.table =
    original.table.withPlaces (placeAfterInsertion position)
  types : extended.types = original.types
  typeDiagnostics :
    (extended.diagnostics.filter fun diagnostic => diagnostic.phase = .type) =
      original.diagnostics.filter fun diagnostic => diagnostic.phase = .type
  kept : original.diagnostics.Sublist extended.diagnostics
  added : ∃ added, added ≠ [] ∧
    (∀ diagnostic ∈ added, diagnostic.phase = .resolve) ∧
    extended.diagnostics.Perm (original.diagnostics ++ added)

theorem filter_diagnostics_of_registration {early : List Fault}
    (registration : ∀ fault ∈ early, fault.problem.isOfRegistration = true) :
    ((early.map Fault.diagnostic).filter fun diagnostic =>
      diagnostic.phase = .type) = [] := by
  rw [List.filter_eq_nil_iff, List.forall_mem_map]
  intro fault member
  rw [Fault.phase_eq_resolve (registration fault member)]
  decide

/--
The first declaration of a name counts, and any other one adds to what is told
of names.
-/
theorem analyze_repeated (config : Config) {before : Program}
    {declaration : Declaration}
    (taken : declaration.name ∈ before.map Declaration.name) (after : Program) :
    AddsNames before.length (analyze config (before ++ after))
      (analyze config (before ++ declaration :: after)) := by
  have registration := SymbolTable.isOfRegistration_register (before ++ after)
  have registrations :=
    SymbolTable.isOfRegistration_register (before ++ declaration :: after)
  have start : Parallel (placeAfterInsertion before.length)
      (SymbolTable.empty.register (before ++ after)).2
      (SymbolTable.empty.register (before ++ declaration :: after)).2
      (registered (before ++ after))
      (registered (before ++ declaration :: after)) :=
    ⟨Program.ofProgram_repeated taken after, rfl, [], List.forall_mem_nil _,
      (List.append_nil _).symm,
      (List.append_nil _).symm⟩
  have parallel :=
    start.changed registration registrations
      (Program.isLater_changes (before ++ after) config)
  rw [← analyze_eq_changed,
    ← Program.changes_eq_of_owners_eq (Program.owners_repeated taken after),
    ← analyze_eq_changed] at parallel
  rcases parallel with ⟨table, types, later, -, original, repeated⟩
  rcases Program.register_repeated taken after with ⟨added, nonempty, inserts⟩
  have diagnostics := (inserts.append (.refl later)).map Fault.diagnostic
  rw [← original, ← repeated, List.append_nil] at diagnostics
  refine ⟨table, types, ?_, diagnostics.sublist, added.map Fault.diagnostic, ?_,
    ?_, diagnostics.perm⟩
  · rw [Analysis.diagnostics, Analysis.diagnostics, original, repeated,
      List.map_append, List.map_append, List.filter_append, List.filter_append,
      filter_diagnostics_of_registration registration,
      filter_diagnostics_of_registration registrations]
  · exact mt List.map_eq_nil_iff.mp nonempty
  · rw [List.forall_mem_map]
    intro fault member
    have listed := inserts.perm.mem_iff.mpr (List.mem_append_right _ member)
    exact Fault.phase_eq_resolve (registrations fault listed)

/-- A unit of length, and a schema that measures in it. -/
def roads : Program :=
  [.dimension { name := "Length" },
    .unit { name := "metre", dimension := some ⟨"Length", .unknown⟩ },
    .schema
      { name := "Road"
        fields :=
          [{ name := "length",
             type := .quantity .unknown (.reference .unknown "metre") }] }]

/-- A transform that gives a length where it has none. -/
def paving : Declaration :=
  .transform
    { name := "Pave"
      sources := [{ type := .schemaName .unknown "Road" }]
      target := .schemaName .unknown "Road"
      rules :=
        [{ target := [⟨"length", .unknown⟩],
           value := .literal .unknown (.string "long") }] }

/-- An enumeration of the name of the unit, which repeats a variant. -/
def secondMetre : Declaration :=
  .enumeration
    { name := "metre", variants := [⟨"short", .unknown⟩, ⟨"short", .unknown⟩] }

theorem analyze_repeated_metre :
    secondMetre.name ∈ roads.map Declaration.name ∧
      (analyze {} (roads ++ [paving])).isAccepted = false ∧
      AddsNames 3 (analyze {} (roads ++ [paving]))
        (analyze {} (roads ++ [secondMetre, paving])) := by
  have taken : secondMetre.name ∈ roads.map Declaration.name := by decide
  exact ⟨taken, by decide +kernel, analyze_repeated {} taken [paving]⟩

end Analysis

end SchemaMap
