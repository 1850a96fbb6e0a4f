import SchemaMap.Proofs.Analysis.Phases

/-!
# Rules are checked in isolation

What is told about a program is made up of what is told about it without the
rules of a transform, what is told about it with each of these rules alone, and
what is told about rules that assign a field again
(`mem_diagnostics_iff_mem_diagnostics_single_rule`).  So no rule hides, adds or
changes what is told about another.

Everything that the analysis finds before it comes to the rules is the same
without any rule (`withoutRules`).
-/

namespace SchemaMap

/-! ## The rules of a transform -/

namespace Context

variable (context : Context) (target : Ty)

theorem ruleFaults_singleton (rule : Rule) :
    context.ruleFaults target [] [rule] =
      (context.ruleFault? target rule).toList := by
  simp [ruleFaults]

/--
The faults of some rules are those of each of them and those of the targets that
are assigned again.
-/
theorem mem_ruleFaults_iff {assigned : List String} {rules : List Rule}
    {fault : Fault} :
    fault ∈ context.ruleFaults target assigned rules ↔
      (∃ rule ∈ rules, context.ruleFault? target rule = some fault) ∨
        ∃ earlier rule later, rules = earlier ++ rule :: later ∧
          (rule.targetText ∈ assigned ∨
            rule.targetText ∈ earlier.map Rule.targetText) ∧
          fault = ⟨.duplicateTarget rule.targetText, rule.span⟩ := by
  induction rules generalizing assigned with
  | nil => simp [ruleFaults]
  | cons first rest ih =>
      have own : fault ∈ (context.ruleFault? target first).toList ↔
          context.ruleFault? target first = some fault := by
        rw [Option.mem_toList]
      have again : fault ∈ (if first.targetText ∈ assigned then
            [(⟨.duplicateTarget first.targetText, first.span⟩ : Fault)] else
              []) ↔
          first.targetText ∈ assigned ∧
            fault = ⟨.duplicateTarget first.targetText, first.span⟩ := by
        split <;> simp_all
      rw [ruleFaults, List.mem_append, List.mem_append, own, again, ih]
      constructor
      · rintro ((⟨taken, same⟩ | found) | ⟨rule, member, found⟩ |
          ⟨earlier, rule, later, split, taken, same⟩)
        · exact .inr ⟨[], first, rest, rfl, .inl taken, same⟩
        · exact .inl ⟨first, List.mem_cons_self, found⟩
        · exact .inl ⟨rule, List.mem_cons_of_mem _ member, found⟩
        · refine .inr
            ⟨first :: earlier, rule, later, by rw [split]; rfl, ?_, same⟩
          simp only [List.mem_cons, List.map_cons] at taken ⊢
          tauto
      · rintro (⟨rule, member, found⟩ |
          ⟨earlier, rule, later, split, taken, same⟩)
        · rcases List.mem_cons.mp member with rfl | inRest
          · exact .inl (.inr found)
          · exact .inr (.inl ⟨rule, inRest, found⟩)
        · cases earlier with
          | nil =>
              rw [List.nil_append, List.cons.injEq] at split
              rcases split with ⟨rfl, -⟩
              refine .inl (.inl ⟨?_, same⟩)
              simpa using taken
          | cons head earlier =>
              rw [List.cons_append, List.cons.injEq] at split
              rcases split with ⟨rfl, split⟩
              refine .inr (.inr ⟨earlier, rule, later, split, ?_, same⟩)
              simp only [List.mem_cons, List.map_cons] at taken ⊢
              tauto

end Context

/-! ## What does not depend on rules -/

/-- The declaration without the rules of a transform. -/
def Declaration.withoutRules : Declaration → Declaration
  | .transform declaration => .transform { declaration with rules := [] }
  | declaration => declaration

namespace Declaration

@[simp]
theorem name_withoutRules (declaration : Declaration) :
    declaration.withoutRules.name = declaration.name := by
  cases declaration <;> rfl

@[simp]
theorem span_withoutRules (declaration : Declaration) :
    declaration.withoutRules.span = declaration.span := by
  cases declaration <;> rfl

@[simp]
theorem placeholder_withoutRules (declaration : Declaration) :
    declaration.withoutRules.placeholder = declaration.placeholder := by
  cases declaration <;> rfl

@[simp]
theorem head_withoutRules (declaration : Declaration) :
    declaration.withoutRules.head = declaration.head := by
  cases declaration <;> rfl

@[simp]
theorem unit?_withoutRules (declaration : Declaration) :
    declaration.withoutRules.unit? = declaration.unit? := by
  cases declaration <;> rfl

@[simp]
theorem schema?_withoutRules (declaration : Declaration) :
    declaration.withoutRules.schema? = declaration.schema? := by
  cases declaration <;> rfl

end Declaration

namespace SymbolTable

/-- Registration does not read rules. -/
theorem registerFrom_withoutRules (table : SymbolTable) (place : Nat)
    (program : Program) :
    table.registerFrom place (program.map Declaration.withoutRules) =
      table.registerFrom place program := by
  induction program generalizing table place with
  | nil => rfl
  | cons declaration rest ih =>
      simp only [List.map_cons, registerFrom, Declaration.name_withoutRules,
        Declaration.placeholder_withoutRules, Declaration.span_withoutRules,
        takenName, ih]

theorem register_withoutRules (program : Program) :
    empty.register (program.map Declaration.withoutRules) =
      empty.register program := by
  have names : ∀ (table : SymbolTable) place (declaration : Declaration),
      table.nameFaults place declaration.withoutRules =
        table.nameFaults place declaration := by
    intro table place declaration
    cases declaration <;> rfl
  simp only [register, registerFrom_withoutRules, List.zipIdx_map,
    List.flatMap_map, Prod.map, names, id]

end SymbolTable

namespace Program

variable (program : Program)

/-- The program without the rules of its transforms. -/
def withoutRules : Program :=
  program.map Declaration.withoutRules

theorem owner?_withoutRules (name : String) :
    program.withoutRules.owner? name =
      (program.owner? name).map Declaration.withoutRules := by
  have sameName : (fun declaration : Declaration => declaration.name == name) ∘
      Declaration.withoutRules =
      fun declaration => declaration.name == name := by
    funext declaration
    rw [Function.comp_apply, Declaration.name_withoutRules]
  rw [owner?, owner?, withoutRules, List.find?_map, sameName]

theorem ownersFrom_withoutRules (taken : List String) (place : Nat) :
    program.withoutRules.ownersFrom taken place =
      (program.ownersFrom taken place).map
        (Prod.map id Declaration.withoutRules) := by
  induction program generalizing taken place with
  | nil => rfl
  | cons declaration rest ih =>
      simp only [withoutRules, List.map_cons, ownersFrom,
        Declaration.name_withoutRules] at ih ⊢
      split <;> simp [ih]

theorem owners_withoutRules :
    program.withoutRules.owners =
      program.owners.map Declaration.withoutRules := by
  simp [owners, ownersFrom_withoutRules, Function.comp_def]

theorem isDimension_withoutRules :
    program.withoutRules.isDimension = program.isDimension := by
  funext name
  simp [isDimension, owner?_withoutRules, Function.comp_def]

theorem units_withoutRules : program.withoutRules.units = program.units := by
  simp only [units, isDimension_withoutRules, owners_withoutRules,
    List.filterMap_map, Function.comp_def, Declaration.unit?_withoutRules]

theorem names_withoutRules : program.withoutRules.names = program.names := by
  simp only [names, owner?_withoutRules, units_withoutRules, Option.map_map,
    Function.comp_def, Declaration.head_withoutRules]

theorem fields_withoutRules : program.withoutRules.fields = program.fields := by
  simp only [fields, names_withoutRules, owners_withoutRules,
    List.filterMap_map, Function.comp_def, Declaration.schema?_withoutRules]

/-- What a declaration stands for does not depend on rules. -/
theorem kindOf_withoutRules : program.withoutRules.kindOf = program.kindOf := by
  funext declaration
  cases declaration <;>
    simp only [kindOf, units_withoutRules, names_withoutRules,
      fields_withoutRules]

theorem kind?_withoutRules : program.withoutRules.kind? = program.kind? := by
  have same : ∀ declaration : Declaration,
      program.kindOf declaration.withoutRules = program.kindOf declaration := by
    intro declaration
    cases declaration <;> rfl
  funext name
  simp only [kind?, owner?_withoutRules, kindOf_withoutRules, Option.map_map,
    Function.comp_def, same]

/-! ## The parts of a program's faults -/

/--
The faults of a declaration that owns its name, apart from those of names and
fields.
-/
def declarationFaults (config : Config) (declaration : Declaration) :
    List Fault :=
  program.unitFaults declaration ++ program.lookupFaults declaration ++
    program.transformFaults config declaration ++
    program.pipelineFaults config declaration

/-- The faults of a program are those of its phases. -/
theorem mem_faults_iff {config : Config} {fault : Fault} :
    fault ∈ program.faults config ↔
      (fault ∈ (SymbolTable.empty.register program).2 ∨
        fault ∈ program.fields.faults) ∨
        ∃ declaration ∈ program.owners,
          fault ∈ program.declarationFaults config declaration := by
  simp only [faults, declarationFaults, List.mem_append, List.mem_flatMap,
    and_or_left, exists_or]
  grind

/--
What is wrong with a declaration does not depend on the rules of another one.
-/
theorem declarationFaults_congr {other : Program}
    (same : program.withoutRules = other.withoutRules) (config : Config)
    (declaration : Declaration) :
    program.declarationFaults config declaration =
      other.declarationFaults config declaration := by
  have units : program.units = other.units := by
    rw [← units_withoutRules, same, units_withoutRules]
  have names : program.names = other.names := by
    rw [← names_withoutRules, same, names_withoutRules]
  have kinds : program.kind? = other.kind? := by
    rw [← kind?_withoutRules, same, kind?_withoutRules]
  cases declaration <;>
    simp only [declarationFaults, unitFaults, lookupFaults, transformFaults,
      pipelineFaults, pipelineContext, units, names, kinds]

end Program

/-! ## One transform among other declarations -/

section

variable {before after : Program} {declaration : TransformDeclaration}

/-- The program in which a transform has other rules. -/
def Program.withRules (before : Program) (declaration : TransformDeclaration)
    (after : Program) (rules : List Rule) : Program :=
  before ++ .transform { declaration with rules := rules } :: after

/--
Programs that differ in the rules of one transform are the same without rules.
-/
theorem withoutRules_withRules (rules others : List Rule) :
    (Program.withRules before declaration after rules).withoutRules =
      (Program.withRules before declaration after others).withoutRules := by
  simp [Program.withRules, Program.withoutRules, Declaration.withoutRules]

/--
With other rules a transform still owns its name, and every other owner is kept.
-/
theorem mem_owners_withRules
    (owns : ∀ other ∈ before, other.name ≠ declaration.name) {rules : List Rule}
    {other : Declaration} :
    other ∈ (Program.withRules before declaration after rules).owners ↔
      other = .transform { declaration with rules := rules } ∨
        other.name ≠ declaration.name ∧
          Program.owner? (before ++ after) other.name = some other := by
  have absent : before.find?
      (fun candidate => candidate.name == declaration.name) = none := by
    simpa using owns
  rw [Program.mem_owners_iff, Program.owner?, Program.owner?, Program.withRules,
    List.find?_append, List.find?_append]
  by_cases same : other.name = declaration.name
  · rw [same, absent, List.find?_cons_of_pos (by simp [Declaration.name])]
    simp [eq_comm]
  · have apart : ¬ (Declaration.transform
        { declaration with rules := rules }).name == other.name := by
      intro equal
      exact same (beq_iff_eq.mp equal).symm
    have different : other ≠
        .transform { declaration with rules := rules } := by
      rintro rfl
      exact same rfl
    have skipped : (Declaration.transform { declaration with rules := rules } ::
        after).find?
        (fun candidate => candidate.name == other.name) =
          after.find? fun candidate => candidate.name == other.name :=
      List.find?_cons_of_neg apart
    rw [skipped]
    simp [same, different]

/--
A transform whose signature resolves has the faults of its sources and those of
its rules.
-/
theorem declarationFaults_withRules (config : Config) {program : Program}
    {signature : Signature}
    (resolved : program.names.signature declaration = .ok signature)
    (rules : List Rule) :
    program.declarationFaults config
      (.transform { declaration with rules := rules }) =
      Analysis.sourceFaults []
        (declaration.sources.zip (signature.sources.map Prod.snd)) ++
        (Analysis.bodyContext config program.kind? declaration
          signature).ruleFaults signature.target [] rules := by
  have sameSignature : program.names.signature
      { declaration with rules := rules } = .ok signature := resolved
  simp only [Program.declarationFaults, Program.unitFaults,
    Program.lookupFaults, Program.pipelineFaults, Program.transformFaults,
    sameSignature, List.nil_append, List.append_nil]
  rfl

/--
The rules of a transform add their own faults to a part that does not depend on
them.
-/
theorem exists_mem_diagnostics_withRules (config : Config)
    (owns : ∀ other ∈ before, other.name ≠ declaration.name)
    {signature : Signature}
    (resolved : (before ++ .transform declaration :: after :
      Program).names.signature declaration = .ok signature) :
    ∃ (rest : Fault → Prop) (context : Context), ∀ rules diagnostic,
      diagnostic ∈
        (analyze config
          (Program.withRules before declaration after rules)).diagnostics ↔
        ∃ fault,
          (rest fault ∨ fault ∈ context.ruleFaults signature.target [] rules) ∧
          fault.diagnostic = diagnostic := by
  have sameProgram : ∀ rules,
      (Program.withRules before declaration after rules).withoutRules =
      (before ++ .transform declaration :: after : Program).withoutRules :=
    fun rules => withoutRules_withRules rules declaration.rules
  generalize (before ++ .transform declaration :: after : Program) =
    program at resolved sameProgram
  refine ⟨fun fault =>
      ((fault ∈ (SymbolTable.empty.register program).2 ∨
        fault ∈ program.fields.faults) ∨
        fault ∈
          Analysis.sourceFaults []
            (declaration.sources.zip (signature.sources.map Prod.snd))) ∨
      ∃ other,
        (other.name ≠ declaration.name ∧
          Program.owner? (before ++ after) other.name = some other) ∧
        fault ∈ program.declarationFaults config other,
    Analysis.bodyContext config program.kind? declaration signature, ?_⟩
  intro rules diagnostic
  have registered : SymbolTable.empty.register
      (Program.withRules before declaration after rules) =
      SymbolTable.empty.register program := by
    rw [← SymbolTable.register_withoutRules,
      ← SymbolTable.register_withoutRules program]
    exact congrArg SymbolTable.empty.register (sameProgram rules)
  have fields : (Program.withRules before declaration after rules).fields =
      program.fields := by
    rw [← Program.fields_withoutRules, sameProgram rules,
      Program.fields_withoutRules]
  rw [Analysis.mem_diagnostics_analyze, List.mem_map]
  refine exists_congr fun fault => and_congr_left' ?_
  simp only [Program.mem_faults_iff, registered, fields,
    mem_owners_withRules owns,
    Program.declarationFaults_congr _ (sameProgram rules)]
  simp only [or_and_right, exists_or, exists_eq_left,
    declarationFaults_withRules config resolved, List.mem_append]
  grind

/--
Rules are checked in isolation.  Let a transform own its name in a program, and
let the types of its sources and of its target resolve.  What is told about the
program is then what is told about it without the rules of the transform, what
is told about it with one of these rules alone, and that a rule assigns what an
earlier rule of the transform assigns.
-/
theorem mem_diagnostics_iff_mem_diagnostics_single_rule (config : Config)
    (owns : ∀ other ∈ before, other.name ≠ declaration.name)
    (sources : ∀ source ∈ declaration.sources, ∃ type,
      (before ++ .transform declaration :: after : Program).names.resolve []
        source.type = .ok type)
    (target : ∃ type,
      (before ++ .transform declaration :: after : Program).names.resolve []
        declaration.target = .ok type)
    (diagnostic : Diagnostic) :
    diagnostic ∈
      (analyze config (before ++ .transform declaration :: after)).diagnostics ↔
      diagnostic ∈
          (analyze config
            (before ++ .transform { declaration with rules := [] } ::
              after)).diagnostics ∨
        (∃ rule ∈ declaration.rules, diagnostic ∈
          (analyze config
            (before ++ .transform { declaration with rules := [rule] } ::
              after)).diagnostics) ∨
        ∃ earlier rule later, declaration.rules = earlier ++ rule :: later ∧
          (∃ other ∈ earlier, other.targetText = rule.targetText) ∧
          diagnostic =
            Fault.diagnostic ⟨.duplicateTarget rule.targetText, rule.span⟩ := by
  rcases Names.exists_signature_iff.mpr ⟨sources, target⟩ with
    ⟨signature, resolved⟩
  rcases exists_mem_diagnostics_withRules config owns resolved with
    ⟨rest, context, parts⟩
  have whole := parts declaration.rules diagnostic
  have empty := parts [] diagnostic
  have single := fun rule => parts [rule] diagnostic
  unfold Program.withRules at whole empty single
  rw [whole, empty]
  simp only [single]
  constructor
  · rintro ⟨fault, isRest | isRule, rfl⟩
    · exact .inl ⟨fault, .inl isRest, rfl⟩
    · rcases (context.mem_ruleFaults_iff _).mp isRule with
        ⟨rule, member, found⟩ | ⟨earlier, rule, later, split, taken, same⟩
      · refine .inr (.inl ⟨rule, member, fault, .inr ?_, rfl⟩)
        simp [Context.ruleFaults_singleton, found]
      · exact .inr (.inr
          ⟨earlier, rule, later, split, by simpa using taken, by rw [same]⟩)
  · rintro (⟨fault, isRest | isRule, rfl⟩ |
      ⟨rule, member, fault, isRest | isRule, rfl⟩ |
      ⟨earlier, rule, later, split, taken, rfl⟩)
    · exact ⟨fault, .inl isRest, rfl⟩
    · simp [Context.ruleFaults] at isRule
    · exact ⟨fault, .inl isRest, rfl⟩
    · rw [Context.ruleFaults_singleton, Option.mem_toList] at isRule
      exact ⟨fault,
        .inr ((context.mem_ruleFaults_iff _).mpr (.inl ⟨rule, member, isRule⟩)),
        rfl⟩
    · refine ⟨_,
        .inr ((context.mem_ruleFaults_iff _).mpr
          (.inr ⟨earlier, rule, later, split, ?_, rfl⟩)), rfl⟩
      simpa using taken

end

/-- A schema with one field. -/
def orderSchema : SchemaDeclaration :=
  { name := "Order",
    fields := [{ name := "id", type := .primitive .unknown .string }] }

/--
A transform that assigns its only field twice, the second time from a field that
its source does not have.
-/
def orderCopy : TransformDeclaration :=
  { name := "Copy"
    sources := [{ type := .schemaName .unknown "Order" }]
    target := .schemaName .unknown "Order"
    rules :=
      [{ target := [⟨"id", .unknown⟩]
         value := .path .unknown .source [.field .unknown "id" false]
         span := ⟨10, 20⟩ },
        { target := [⟨"id", .unknown⟩]
          value := .path .unknown .source [.field .unknown "number" false]
          span := ⟨30, 40⟩ }] }

/--
The second rule of `orderCopy` is told to assign again what the first one
assigns.
-/
theorem mem_diagnostics_analyze_orderCopy :
    Fault.diagnostic ⟨.duplicateTarget "id", ⟨30, 40⟩⟩ ∈
      (analyze {} [.schema orderSchema, .transform orderCopy]).diagnostics := by
  have owns : ∀ other ∈ [Declaration.schema orderSchema],
      other.name ≠ orderCopy.name := by decide
  have sources : ∀ source ∈ orderCopy.sources, ∃ type,
      ([.schema orderSchema] ++ .transform orderCopy :: [] :
        Program).names.resolve [] source.type = .ok type := by
    simp only [orderCopy, List.forall_mem_singleton]
    exact ⟨_, rfl⟩
  apply (mem_diagnostics_iff_mem_diagnostics_single_rule {} owns sources
    ⟨_, rfl⟩ _).mpr
  exact .inr (.inr ⟨[_], _, [], rfl, ⟨_, List.mem_cons_self, rfl⟩, rfl⟩)

end SchemaMap
