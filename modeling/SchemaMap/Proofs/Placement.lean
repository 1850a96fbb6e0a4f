import SchemaMap.Proofs.Analysis.Rules
import SchemaMap.Proofs.Faults

/-!
# Where faults are reported

Everything that is told about a program is told at the span of one of its nodes
(`span_mem_positions_of_mem_diagnostics`).  The faults of names point at
declarations, fields, variants and parents.  The others come from type
expressions, units and rules, and are found at their parts; a fault that has no
position when it is found gets that of the reference, the declaration or the
rule around it before it is reported.
-/

namespace SchemaMap

/-! ## Names -/

/-- A repeated name is one of the names. -/
theorem mem_of_mem_repeatedNames {seen : List String}
    {names : List (Located String)} {name : Located String}
    (found : name ∈ repeatedNames seen names) : name ∈ names := by
  induction names generalizing seen with
  | nil => contradiction
  | cons first rest ih =>
      rw [repeatedNames] at found
      split at found
      · rcases List.mem_cons.mp found with rfl | later
        · exact List.mem_cons_self
        · exact List.mem_cons_of_mem _ (ih later)
      · exact List.mem_cons_of_mem _ (ih found)

namespace SymbolTable

theorem span_takenName (table : SymbolTable) (declaration : Declaration) :
    (table.takenName declaration).span = declaration.span := by
  rw [takenName]
  split <;> rfl

/-- Names that are taken are told where they are declared. -/
theorem span_mem_positions_of_mem_registerFrom (table : SymbolTable)
    (place : Nat) (program : Program) :
    ∀ fault ∈ (table.registerFrom place program).2,
      fault.span ∈ program.positions := by
  induction program generalizing table place with
  | nil => exact List.forall_mem_nil _
  | cons declaration rest ih =>
      have later : ∀ (table : SymbolTable),
          ∀ fault ∈ (table.registerFrom (place + 1) rest).2,
          fault.span ∈ Program.positions (declaration :: rest) :=
        fun table fault member =>
          List.mem_append_right _ (ih table _ fault member)
      rw [registerFrom]
      split
      · exact later _
      · refine List.forall_mem_cons.mpr ⟨?_, later table⟩
        rw [span_takenName]
        exact List.mem_append_left _ declaration.span_mem_positions

/-- What the names of a schema show is told inside its declaration. -/
theorem span_mem_positions_of_mem_schemaFaults (table : SymbolTable)
    (place : Nat) (declaration : SchemaDeclaration) :
    ∀ fault ∈ table.schemaFaults place declaration,
      fault.span ∈ declaration.positions := by
  rw [schemaFaults, List.forall_mem_append, List.forall_mem_map]
  constructor
  · intro name again
    rcases List.mem_map.mp (mem_of_mem_repeatedNames again) with
      ⟨field, declared, rfl⟩
    refine List.mem_cons_of_mem _
      (List.mem_append_right _ (List.mem_flatMap.mpr ⟨field, declared, ?_⟩))
    exact List.mem_cons_self
  · split
    · exact List.forall_mem_nil _
    · next parent written =>
        have parentSpan : parent.span ∈ declaration.positions := by
          simp [SchemaDeclaration.positions, written]
        have own : declaration.span ∈ declaration.positions :=
          List.mem_cons_self
        split
        · exact List.forall_mem_singleton.mpr parentSpan
        · split
          · split
            · exact List.forall_mem_singleton.mpr own
            · exact List.forall_mem_nil _
          · exact List.forall_mem_nil _

theorem span_mem_positions_of_mem_nameFaults (table : SymbolTable) (place : Nat)
    (declaration : Declaration) :
    ∀ fault ∈ table.nameFaults place declaration,
      fault.span ∈ declaration.positions := by
  cases declaration with
  | schema declaration =>
      exact table.span_mem_positions_of_mem_schemaFaults place declaration
  | enumeration declaration =>
      rw [nameFaults, enumFaults, List.forall_mem_map]
      intro variant again
      exact List.mem_cons_of_mem _
        (List.mem_map_of_mem (mem_of_mem_repeatedNames again))
  | _ => exact List.forall_mem_nil _

/--
What registration finds, it finds at declarations, fields, variants and parents.
-/
theorem span_mem_positions_of_mem_register (table : SymbolTable)
    (program : Program) :
    ∀ fault ∈ (table.register program).2, fault.span ∈ program.positions := by
  rw [register, List.forall_mem_append, List.forall_mem_flatMap]
  refine ⟨table.span_mem_positions_of_mem_registerFrom 0 program,
    fun entry member fault found => ?_⟩
  refine List.mem_flatMap.mpr ⟨entry.1, List.fst_mem_of_mem_zipIdx member, ?_⟩
  exact span_mem_positions_of_mem_nameFaults _ _ _ fault found

end SymbolTable

/-! ## Transforms -/

section

variable {placed : Span → Prop}

theorem Context.placed_of_mem_ruleFaults (context : Context) (target : Ty)
    (assigned : List String) {rules : List Rule}
    (inside : ∀ rule ∈ rules, ∀ span ∈ rule.positions, placed span) :
    ∀ fault ∈ context.ruleFaults target assigned rules, placed fault.span := by
  intro fault member
  rcases (context.mem_ruleFaults_iff _).mp member with
    ⟨rule, listed, found⟩ | ⟨earlier, rule, later, rfl, -, rfl⟩
  · have parts := inside rule listed
    rw [ruleFault?] at found
    split at found
    · contradiction
    · next original failed =>
        cases found
        have fails := context.failsAt_checkRule target parts original failed
        exact Span.IsUnknownOr.orElse (.inr fails.2)
          (parts rule.span List.mem_cons_self)
  · exact inside rule (by simp) rule.span List.mem_cons_self

/-- A source whose name is taken is told where its type is written. -/
theorem Analysis.placed_of_mem_sourceFaults (taken : List String)
    {sources : List (SourceDeclaration × Ty)}
    (inside : ∀ source ∈ sources, placed source.1.type.span) :
    ∀ fault ∈ sourceFaults taken sources, placed fault.span := by
  rw [sourceFaults, List.forall_mem_map]
  intro name again
  rcases List.mem_map.mp (mem_of_mem_repeatedNames again) with
    ⟨named, listed, rfl⟩
  rcases List.mem_filterMap.mp listed with ⟨source, declared, given⟩
  rcases Option.map_eq_some_iff.mp given with ⟨name, -, rfl⟩
  exact inside source declared

/-- The body of a transform fails inside its declaration. -/
theorem Analysis.placed_of_mem_bodyFaults (config : Config)
    (kind : String → Option Kind) {declaration : TransformDeclaration}
    (signature : Signature)
    (inside : ∀ span ∈ declaration.positions, placed span) :
    ∀ fault ∈ bodyFaults config kind declaration signature,
      placed fault.span := by
  simp only [TransformDeclaration.positions, List.forall_mem_cons,
    List.forall_mem_append, List.forall_mem_flatMap,
    TypeExpr.positionsOfAll_eq_flatMap, List.forall_mem_map] at inside
  rcases inside with ⟨-, sources, -, rules⟩
  rw [bodyFaults, List.forall_mem_append]
  refine ⟨placed_of_mem_sourceFaults [] fun source listed => ?_,
    Context.placed_of_mem_ruleFaults _ _ _ rules⟩
  exact sources source.1 (List.of_mem_zip listed).1 _
    source.1.type.span_mem_positions

end

/-! ## Programs -/

/-- A declaration fails inside the program. -/
theorem Program.span_mem_positions_of_mem_declarationFaults (config : Config)
    {program : Program} {declaration : Declaration}
    (owns : declaration ∈ program.owners) :
    ∀ fault ∈ program.declarationFaults config declaration,
      fault.span ∈ program.positions := by
  have units : ∀ name,
      FailsAt (Span.IsUnknownOr (· ∈ program.positions))
        (program.names.unit name) :=
    failsAt_units fun _ member => member
  have inside := inside_of_mem_owners (fun _ member => member) owns
  have own := inside declaration.span declaration.span_mem_positions
  simp only [declarationFaults, List.forall_mem_append]
  cases declaration with
  | unit declaration =>
      refine ⟨⟨⟨?_, List.forall_mem_nil _⟩, List.forall_mem_nil _⟩,
        List.forall_mem_nil _⟩
      rw [unitFaults]
      split
      · exact List.forall_mem_nil _
      · next fault failed =>
          exact List.forall_mem_singleton.mpr
            ((units _ fault failed).2.orElse own)
  | lookup declaration =>
      refine ⟨⟨⟨List.forall_mem_nil _, ?_⟩, List.forall_mem_nil _⟩,
        List.forall_mem_nil _⟩
      rw [lookupFaults]
      split
      · exact List.forall_mem_nil _
      · next fault failed =>
          have found := Names.failsAt_lookup units inside fault failed
          exact List.forall_mem_singleton.mpr
            (Span.IsUnknownOr.orElse (.inr found.2) own)
  | transform declaration =>
      refine ⟨⟨⟨List.forall_mem_nil _, List.forall_mem_nil _⟩, ?_⟩,
        List.forall_mem_nil _⟩
      rw [transformFaults]
      split
      · exact Analysis.placed_of_mem_bodyFaults config program.kind? _ inside
      · next fault failed =>
          have found := Names.failsAt_signature units inside fault failed
          exact List.forall_mem_singleton.mpr
            (Span.IsUnknownOr.orElse (.inr found.2) own)
  | pipeline declaration =>
      refine ⟨⟨⟨List.forall_mem_nil _, List.forall_mem_nil _⟩,
        List.forall_mem_nil _⟩, fun fault member => ?_⟩
      have steps : ∀ step ∈ declaration.steps, step.span ∈ program.positions :=
        fun step listed =>
          inside _ (List.mem_cons_of_mem _ (List.mem_map_of_mem listed))
      exact ((program.pipelineContext config).placed_of_mem_stepFaults none
        steps fault member).2
  | _ =>
      exact ⟨⟨⟨List.forall_mem_nil _, List.forall_mem_nil _⟩,
        List.forall_mem_nil _⟩, List.forall_mem_nil _⟩

/-- The faults of a program are at the spans of its nodes. -/
theorem Program.span_mem_positions_of_mem_faults (config : Config)
    (program : Program) :
    ∀ fault ∈ program.faults config, fault.span ∈ program.positions := by
  intro fault member
  rcases program.mem_faults_iff.mp member with
    (registered | ofFields) | ⟨declaration, owns, found⟩
  · exact SymbolTable.empty.span_mem_positions_of_mem_register program fault
      registered
  · exact (placed_of_mem_faults_fields (fun _ part => part) fault ofFields).2
  · exact span_mem_positions_of_mem_declarationFaults config owns fault found

/--
Everything that is told about a program points at a node of it, under every
configuration.  Where all nodes have a position, nothing is told without one.
-/
theorem span_mem_positions_of_mem_diagnostics (config : Config)
    (program : Program) (diagnostic : Diagnostic)
    (told : diagnostic ∈ (analyze config program).diagnostics) :
    diagnostic.span ∈ program.positions ∧
      (Span.unknown ∉ program.positions → diagnostic.span ≠ .unknown) := by
  rw [Analysis.mem_diagnostics_analyze, List.mem_map] at told
  rcases told with ⟨fault, member, rfl⟩
  have placed : fault.diagnostic.span ∈ program.positions :=
    program.span_mem_positions_of_mem_faults config fault member
  exact ⟨placed, fun positioned missing => positioned (missing ▸ placed)⟩

/--
Two units that are defined by each other, and a schema and a transform that use
one of them.
-/
def gears : Program :=
  [.unit { name := "turn", definition := some (.reference ⟨14, 19⟩ "cycle"),
           span := ⟨1, 20⟩ },
    .unit { name := "cycle", definition := some (.reference ⟨36, 40⟩ "turn"),
            span := ⟨22, 41⟩ },
    .schema
      { name := "Gear"
        parent := some ⟨"Wheel", ⟨57, 62⟩⟩
        fields :=
          [{ name := "speed",
             type := .quantity ⟨72, 86⟩ (.reference ⟨81, 85⟩ "turn"), span :=
               ⟨65, 86⟩ }]
        span := ⟨43, 88⟩ },
    .transform
      { name := "Copy"
        sources := [{ type := .schemaName ⟨105, 109⟩ "Gear" }]
        target := .schemaName ⟨113, 117⟩ "Gear"
        rules :=
          [{ target := [⟨"speed", ⟨122, 127⟩⟩]
             value := .path ⟨130, 136⟩ .source [.field ⟨131, 136⟩ "teeth" false]
             span := ⟨122, 137⟩ }]
        span := ⟨90, 139⟩ }]

/--
The cycle of units in `gears`, which has no position of its own, is told where a
reference closes it.
-/
theorem span_mem_positions_of_mem_diagnostics_gears :
    Span.unknown ∉ gears.positions ∧
      ∃ diagnostic ∈ (analyze {} gears).diagnostics,
        diagnostic.span = ⟨36, 40⟩ ∧ diagnostic.span ∈ gears.positions ∧
          diagnostic.span ≠ .unknown := by
  have positioned : Span.unknown ∉ gears.positions := by decide
  have told : (⟨36, 40⟩ : Span) ∈
      (analyze {} gears).diagnostics.map Diagnostic.span := by decide +kernel
  rcases List.mem_map.mp told with ⟨diagnostic, member, there⟩
  rcases span_mem_positions_of_mem_diagnostics {} gears diagnostic member with
    ⟨placed, known⟩
  exact ⟨positioned, diagnostic, member, there, placed, known positioned⟩

end SchemaMap
