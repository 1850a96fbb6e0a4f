import SchemaMap.Proofs.Analysis.Known
import SchemaMap.Proofs.Faults
import SchemaMap.Proofs.Inference.Agreement
import SchemaMap.Proofs.Parts
import SchemaMap.Proofs.Symbol.Agreement

/-!
# Declarations that nothing mentions

A declaration at the end of a program, of a name that the program neither
declares nor mentions, leaves what was found about the others: their names stand
for the same, their units have the same values, and what is told about them is
still told, whatever is told about the new declaration (`analyze_unmentioned`).
-/

namespace SchemaMap

/-- The program neither declares nor mentions the name. -/
structure Program.Avoids (program : Program) (name : String) : Prop where
  undeclared : name ∉ program.map Declaration.name
  unmentioned : name ∉ program.flatMap Declaration.mentions

/-! ## The last unit and the last schema -/

section

variable {α : Type} {key : α → String} {members : List α} {last : α}

theorem find?_concat_last (apart : ∀ member ∈ members, key member ≠ key last) :
    (members ++ [last]).find? (fun member => key member == key last) =
      some last := by
  have absent : members.find? (fun member => key member == key last) =
      none := by
    rw [List.find?_eq_none]
    intro member listed same
    exact apart member listed (eq_of_beq same)
  rw [List.find?_append, absent, Option.none_or]
  simp

theorem find?_without_last {name : String}
    (apart : ∀ member ∈ members, key member ≠ name) :
    ((members ++ [last]).filter fun member => key member != key last).find?
      (fun member => key member == name) =
      none := by
  rw [List.find?_eq_none]
  intro member kept same
  rcases List.mem_filter.mp kept with ⟨listed, different⟩
  rcases List.mem_append.mp listed with declared | isLast
  · exact apart member declared (eq_of_beq same)
  · rw [List.mem_singleton.mp isLast] at different
    simp at different

end

namespace UnitTable

/-- In the end the units of the table are declared. -/
theorem Consistent.exists_declared {isDimension : String → Bool}
    {declarations unbegun : List UnitDeclaration} {stack settled : List String}
    {table : UnitTable}
    (consistent : Consistent isDimension declarations unbegun stack settled
      table)
    {name : String} {outcome : Except Fault PhysicalUnit}
    (known : table.lookup name = some outcome) :
    ∃ declaration ∈ declarations, declaration.name = name := by
  cases outcome with
  | ok unit => exact HasUnit.exists_declared (consistent.decided known)
  | error fault =>
      rcases consistent.placed known with ⟨declaration, member, named, -⟩
      exact ⟨declaration, member, named⟩

/-- Where all other units are settled, one more adds its own outcome. -/
theorem extend_last (isDimension : String → Bool)
    {declarations : List UnitDeclaration} {declaration : UnitDeclaration}
    {table : UnitTable} (failAt : table.FailAt fun _ => True)
    (settled : ∀ other ∈ declarations, (table.lookup other.name).isSome)
    (unsettled : table.lookup declaration.name = none) :
    ∃ outcome,
      extend isDimension (declarations ++ [declaration]) table declaration =
      table ++ [(declaration.name, outcome)] := by
  have apart : ∀ name, table.lookup name = none →
      ∀ other ∈ declarations, other.name ≠ name := by
    rintro _ unknown other member rfl
    exact Option.isSome_iff_ne_none.mp (settled other member) unknown
  have found := find?_concat_last (apart declaration.name unsettled)
  have references : ∀ name, MeetsAt (Span.IsUnknownOr fun _ => True) (· = table)
      (settle isDimension
        (without UnitDeclaration.name (declarations ++ [declaration])
          declaration.name) [declaration.name] name) := by
    intro name current same
    rw [show current = table from same]
    cases known : table.lookup name with
    | some outcome =>
        rw [run_settle_of_settled known]
        exact ⟨rfl, (failAt _ (mem_of_lookup_eq_some known)).orUnknown⟩
    | none =>
        by_cases own : name ∈ [declaration.name]
        · rw [run_settle_of_mem_stack known own]
          exact ⟨rfl, failsIn_error ⟨rfl, .inl rfl⟩⟩
        · have missing : (without UnitDeclaration.name
              (declarations ++ [declaration]) declaration.name).find?
              (fun candidate => candidate.name == name) = none :=
            find?_without_last (apart name known)
          rw [run_settle_of_undeclared known own missing]
          exact ⟨rfl, failsIn_error ⟨rfl, .inl rfl⟩⟩
  have evaluation :=
    @MeetsAt.declaration _ _ _ references isDimension declaration fun _ _ =>
      trivial
  rw [extend, run_settle_of_unsettled unsettled List.not_mem_nil found]
  exact ⟨_, congrArg (· ++ _) (evaluation.adapt trivial table rfl).1⟩

end UnitTable

/-- Where all other schemas are complete, one more is completed right away. -/
theorem SchemaFields.settle_last (names : Names)
    {declarations : List SchemaDeclaration} {declaration : SchemaDeclaration}
    {state : SchemaFields}
    (held : ∀ other ∈ declarations, state.Holds other.name)
    (absent : ¬ state.Holds declaration.name) :
    settle names (declarations ++ [declaration]) declaration.name state =
      state.complete names declaration := by
  have apart : ∀ name, ¬ state.Holds name →
      ∀ other ∈ declarations, other.name ≠ name := by
    rintro _ unheld other member rfl
    exact unheld (held other member)
  rw [settle_of_found absent
    (find?_concat_last (apart declaration.name absent))]
  cases declaration.parent with
  | none => rfl
  | some parent =>
      refine congrArg (complete names · declaration) ?_
      by_cases holds : state.Holds parent.value
      · exact settle_of_holds holds
      · exact settle_of_not_found
          (find?_without_last (apart parent.value holds))

/-! ## What is found about the others -/

theorem Declaration.name_of_unit? {declaration : Declaration}
    {content : UnitDeclaration} (selected : declaration.unit? = some content) :
    content.name = declaration.name := by
  rw [unit?_eq_some_iff.mp selected]
  rfl

theorem Declaration.name_of_schema? {declaration : Declaration}
    {content : SchemaDeclaration}
    (selected : declaration.schema? = some content) :
    content.name = declaration.name := by
  rw [schema?_eq_some_iff.mp selected]
  rfl

namespace Program

variable {program : Program} {declaration : Declaration}
  (avoids : program.Avoids declaration.name)

include avoids

/-- A program that avoids a name does not declare it. -/
theorem name_ne_of_mem {other : Declaration} (member : other ∈ program) :
    other.name ≠ declaration.name := by
  intro same
  exact avoids.undeclared (same ▸ List.mem_map_of_mem member)

/-- A program that avoids a name does not mention it. -/
theorem mention_ne_of_mem {other : Declaration} (member : other ∈ program) :
    ∀ name ∈ other.mentions, name ≠ declaration.name := by
  rintro name mentioned rfl
  exact avoids.unmentioned (List.mem_flatMap.mpr ⟨other, member, mentioned⟩)

/-- Of a sort of declarations there is at most one more. -/
theorem filterMap_owners_concat {α : Type} (select : Declaration → Option α) :
    (owners (program ++ [declaration])).filterMap select =
      program.owners.filterMap select ++ (select declaration).toList := by
  rw [owners_concat_of_not_mem avoids.undeclared, List.filterMap_append]
  rfl

omit avoids in
theorem owner?_concat_of_ne {name : String} (apart : name ≠ declaration.name) :
    owner? (program ++ [declaration]) name = program.owner? name := by
  have other : owner? [declaration] name = none := by
    simp [owner?, Ne.symm apart]
  rw [owner?_append, other, Option.or_none]

omit avoids in
theorem isDimension_concat_of_ne {name : String}
    (apart : name ≠ declaration.name) :
    isDimension (program ++ [declaration]) name = program.isDimension name := by
  rw [isDimension, isDimension, owner?_concat_of_ne apart]

/-! ### Units -/

/-- The units of the program are settled as before, and then the last one. -/
theorem units_concat :
    units (program ++ [declaration]) =
      declaration.unit?.toList.foldl
        (UnitTable.extend (isDimension (program ++ [declaration]))
          (program.owners.filterMap Declaration.unit? ++
            declaration.unit?.toList)) program.units := by
  have members : ∀ content ∈ program.owners.filterMap Declaration.unit?,
      .unit content ∈ program :=
    fun content listed => mem_of_mem_owners (mem_filterMap_unit?_iff.mp listed)
  have mentioned : ∀ content ∈ program.owners.filterMap Declaration.unit?,
      ∀ name ∈ content.mentions,
      name ≠ declaration.name :=
    fun content listed => mention_ne_of_mem avoids (members content listed)
  have named : ∀ content ∈ program.owners.filterMap Declaration.unit?,
      content.name ≠ declaration.name :=
    fun content listed => name_ne_of_mem avoids (members content listed)
  have foreign : ∀ content ∈ declaration.unit?.toList,
      ¬ content.name ≠ declaration.name :=
    fun content listed =>
      not_not.mpr (Declaration.name_of_unit? (Option.mem_toList.mp listed))
  have earlier := UnitTable.foldl_extend_append foreign
    (fun _ apart => @isDimension_concat_of_ne program declaration _ apart)
    mentioned _ named []
  rw [← UnitTable.ofDeclarations, ← units] at earlier
  rw [units, filterMap_owners_concat avoids, UnitTable.ofDeclarations,
    List.foldl_append, earlier]

/-- Every other unit has the same outcome. -/
theorem find_units_concat {name : String} (apart : name ≠ declaration.name) :
    (units (program ++ [declaration])).find name = program.units.find name := by
  rw [units_concat avoids]
  cases written : declaration.unit? with
  | none => rfl
  | some content =>
      have injective : ∀ first second,
          first ∈ program.owners.filterMap Declaration.unit? →
          second ∈ program.owners.filterMap Declaration.unit? →
          first.name = second.name → first = second :=
        fun _ _ left right =>
          List.inj_on_of_nodup_map nodup_names_units_owners left right
      have final :=
        @UnitTable.consistent_ofDeclarations _ program.isDimension injective
      rw [← units] at final
      have failAt : program.units.FailAt fun _ => True :=
        UnitTable.failAt_ofDeclarations program.isDimension fun _ _ _ _ =>
          trivial
      have own := Declaration.name_of_unit? written
      have unsettled : program.units.lookup content.name = none := by
        rw [← Option.not_isSome_iff_eq_none]
        intro known
        rcases Option.isSome_iff_exists.mp known with ⟨outcome, found⟩
        rcases final.exists_declared found with ⟨other, listed, same⟩
        have member := mem_of_mem_owners (mem_filterMap_unit?_iff.mp listed)
        exact name_ne_of_mem avoids member (same.trans own)
      rcases UnitTable.extend_last (isDimension (program ++ [declaration]))
        failAt
        (fun other listed => final.kept _ (List.mem_map_of_mem listed))
        unsettled with ⟨outcome, extended⟩
      rw [Option.toList_some, List.foldl_cons, List.foldl_nil, extended,
        UnitTable.find, UnitTable.find, lookup_concat, if_neg (own ▸ apart),
        Option.or_none]

/-! ### Types -/

/-- Other names stand for the same types as before. -/
theorem names_concat :
    (names (program ++ [declaration])).AgreesOn (· ≠ declaration.name)
      program.names where
  kind := fun _ apart =>
    congrArg (Option.map Declaration.head) (owner?_concat_of_ne apart)
  unit := fun _ apart => find_units_concat avoids apart

/--
The schemas of the program are completed as before, and then the last one.
-/
theorem fields_concat :
    fields (program ++ [declaration]) =
      match declaration.schema? with
      | none => program.fields
      | some content =>
          program.fields.complete (names (program ++ [declaration]))
            content := by
  have members : ∀ content ∈ program.owners.filterMap Declaration.schema?,
      .schema content ∈ program :=
    fun content listed =>
      mem_of_mem_owners (mem_filterMap_schema?_iff.mp listed)
  have mentioned : ∀ content ∈ program.owners.filterMap Declaration.schema?,
      ∀ name ∈ content.mentions,
      name ≠ declaration.name :=
    fun content listed => mention_ne_of_mem avoids (members content listed)
  have named : ∀ content ∈ program.owners.filterMap Declaration.schema?,
      content.name ≠ declaration.name :=
    fun content listed => name_ne_of_mem avoids (members content listed)
  have foreign : ∀ content ∈ declaration.schema?.toList,
      ¬ content.name ≠ declaration.name :=
    fun content listed =>
      not_not.mpr (Declaration.name_of_schema? (Option.mem_toList.mp listed))
  rw [fields, filterMap_owners_concat avoids, SchemaFields.ofDeclarations,
    List.foldl_append,
    SchemaFields.foldl_settle_append (names_concat avoids) foreign mentioned _
      named]
  cases written : declaration.schema? with
  | none => rfl
  | some content =>
      have own := Declaration.name_of_schema? written
      rcases SchemaFields.built_ofDeclarations program.names
        (program.owners.filterMap Declaration.schema?) with
        ⟨built, held⟩
      apply SchemaFields.settle_last _ held
      intro holds
      rcases Option.isSome_iff_exists.mp holds with ⟨schema, found⟩
      rcases built.declared found with ⟨other, listed, same, -⟩
      exact named other listed (same.trans own)

theorem lookup_fields_concat {name : String} (apart : name ≠ declaration.name) :
    (fields (program ++ [declaration])).completed.lookup name =
      program.fields.completed.lookup name := by
  rw [fields_concat avoids]
  split
  · rfl
  · next content written =>
      have own := Declaration.name_of_schema? written
      rw [SchemaFields.complete_eq, lookup_concat, if_neg (own ▸ apart),
        Option.or_none]

theorem faults_fields_subset :
    program.fields.faults ⊆ (fields (program ++ [declaration])).faults := by
  rw [fields_concat avoids]
  split
  · exact List.Subset.refl _
  · rw [SchemaFields.complete_eq]
    exact List.subset_append_left _ _

/-! ### Declarations -/

section

variable {other : Declaration} (member : other ∈ program)

include member

theorem kindOf_concat :
    kindOf (program ++ [declaration]) other = program.kindOf other := by
  have apart := name_ne_of_mem avoids member
  have mentioned := mention_ne_of_mem avoids member
  cases other with
  | schema content =>
      have same : (fields (program ++ [declaration])).completed.lookup
          content.name = _ :=
        lookup_fields_concat avoids apart
      rw [kindOf, kindOf, same]
  | unit content =>
      have same : (units (program ++ [declaration])).find content.name = _ :=
        find_units_concat avoids apart
      rw [kindOf, kindOf, same]
  | lookup content =>
      rw [kindOf, kindOf, (names_concat avoids).lookup mentioned]
  | transform content =>
      rw [kindOf, kindOf, (names_concat avoids).signature mentioned]
  | _ => rfl

theorem unitOf_concat :
    unitOf (program ++ [declaration]) other = program.unitOf other := by
  cases other with
  | unit content =>
      have same : (units (program ++ [declaration])).find content.name = _ :=
        find_units_concat avoids (name_ne_of_mem avoids member)
      rw [unitOf, unitOf, same]
  | _ => rfl

theorem unitFaults_concat :
    unitFaults (program ++ [declaration]) other = program.unitFaults other := by
  cases other with
  | unit content =>
      have same : (units (program ++ [declaration])).find content.name = _ :=
        find_units_concat avoids (name_ne_of_mem avoids member)
      rw [unitFaults, unitFaults, same]
  | _ => rfl

theorem lookupFaults_concat :
    lookupFaults (program ++ [declaration]) other =
      program.lookupFaults other := by
  cases other with
  | lookup content =>
      rw [lookupFaults, lookupFaults,
        (names_concat avoids).lookup (mention_ne_of_mem avoids member)]
  | _ => rfl

end

/-- Every other name stands for the same. -/
theorem kind?_concat {name : String} (apart : name ≠ declaration.name) :
    kind? (program ++ [declaration]) name = program.kind? name := by
  rw [kind?, kind?, owner?_concat_of_ne apart]
  cases owner : program.owner? name with
  | none => rw [Option.map_none, Option.map_none]
  | some other =>
      rw [Option.map_some, Option.map_some,
        kindOf_concat avoids (List.mem_of_find?_eq_some owner)]

theorem unitOf_owner_concat {name : String} (apart : name ≠ declaration.name) :
    (owner? (program ++ [declaration]) name).bind
      (unitOf (program ++ [declaration])) =
      (program.owner? name).bind program.unitOf := by
  rw [owner?_concat_of_ne apart]
  cases owner : program.owner? name with
  | none => rw [Option.bind_none, Option.bind_none]
  | some other =>
      rw [Option.bind_some, Option.bind_some,
        unitOf_concat avoids (List.mem_of_find?_eq_some owner)]

section

variable {other : Declaration} (member : other ∈ program)

include member

theorem pipelineFaults_concat (config : Config) :
    pipelineFaults config (program ++ [declaration]) other =
      program.pipelineFaults config other := by
  cases other with
  | pipeline content =>
      have agrees : (pipelineContext config (program ++ [declaration])).AgreesOn
          (· ≠ declaration.name)
          (program.pipelineContext config) :=
        ⟨⟨rfl, rfl, rfl⟩, fun _ apart => kind?_concat avoids apart⟩
      have steps : ∀ step ∈ content.steps, step.value ≠ declaration.name :=
        fun step listed =>
          mention_ne_of_mem avoids member step.value
            (List.mem_map_of_mem listed)
      exact agrees.stepFaults steps none
  | _ => rfl

end

theorem bodyFaults_concat {content : TransformDeclaration}
    (member : .transform content ∈ program) {signature : Signature}
    (resolved : program.names.signature content = .ok signature)
    (config : Config) :
    Analysis.bodyFaults config (kind? (program ++ [declaration])) content
      signature =
      Analysis.bodyFaults config program.kind? content signature := by
  have known := knowsKind_transform resolved
  have owned : ∀ name, program.Owns name → name ≠ declaration.name := by
    rintro name owner rfl
    exact avoids.undeclared (owner?_isSome_iff.mp owner)
  have within := (within_bodyContext config content known).mono owned
  have target : signature.target.Within (· ≠ declaration.name)
      program.KnowsUnit :=
    (known.types _ (List.mem_append_right _ List.mem_cons_self)).mono owned
  have agrees := Analysis.agrees_bodyContext config content signature
    fun name (apart : name ≠ declaration.name) =>
      (kind?_concat avoids apart).symm
  have rules : ∀ rule ∈ content.rules,
      ∀ name ∈ rule.value.mentions, name ≠ declaration.name := by
    have mentioned : ∀ name ∈ content.mentions, name ≠ declaration.name :=
      mention_ne_of_mem avoids member
    rw [TransformDeclaration.mentions, List.forall_mem_append,
      List.forall_mem_flatMap] at mentioned
    exact mentioned.2
  rw [Analysis.bodyFaults, Analysis.bodyFaults,
    agrees.ruleFaults PhysicalUnit.closedUnder_over within target rules]

theorem transformFaults_concat {other : Declaration} (member : other ∈ program)
    (config : Config) :
    transformFaults config (program ++ [declaration]) other =
      program.transformFaults config other := by
  cases other with
  | transform content =>
      rw [transformFaults, transformFaults,
        (names_concat avoids).signature (mention_ne_of_mem avoids member)]
      split
      · next signature resolved =>
          exact bodyFaults_concat avoids member resolved config
      · rfl
  | _ => simp only [transformFaults]

/-! ### Registration -/

omit avoids in
theorem append_subset_append {α : Type} {first second others further : List α}
    (left : first ⊆ others) (right : second ⊆ further) :
    first ++ second ⊆ others ++ further :=
  List.append_subset.mpr ⟨List.subset_append_of_subset_left _ left,
    List.subset_append_of_subset_right _ right⟩

theorem global?_ofProgram_concat {name : String}
    (apart : name ≠ declaration.name) :
    (SymbolTable.ofProgram (program ++ [declaration])).global? name =
      (SymbolTable.ofProgram program).global? name := by
  rw [SymbolTable.global?_ofProgram, SymbolTable.global?_ofProgram,
    ownersFrom_concat_of_not_mem avoids.undeclared, List.find?_append]
  simp [Ne.symm apart]

/-- At most the new name joins the names of schemas, behind the others. -/
theorem schemaNames_ofProgram_concat :
    (SymbolTable.ofProgram (program ++ [declaration])).schemaNames =
      (SymbolTable.ofProgram program).schemaNames ++
        [declaration.name].filter fun name =>
          ((SymbolTable.ofProgram (program ++ [declaration])).schema?
            name).isSome := by
  rw [SymbolTable.schemaNames, SymbolTable.schemaNames,
    SymbolTable.names_globals_ofProgram, SymbolTable.names_globals_ofProgram,
    owners_concat_of_not_mem avoids.undeclared, List.map_append,
    List.filter_append]
  congr 1
  apply List.filter_congr
  rw [List.forall_mem_map]
  intro other listed
  have apart := name_ne_of_mem avoids (mem_of_mem_owners listed)
  rw [SymbolTable.schema?, SymbolTable.schema?, SymbolTable.kind?,
    SymbolTable.kind?, global?_ofProgram_concat avoids apart]

theorem parent_ne {name parent : String}
    (written : (SymbolTable.ofProgram program).parentOf? name = some parent) :
    parent ≠ declaration.name := by
  rw [SymbolTable.parentOf?, SymbolTable.schema?,
    SymbolTable.kind?_ofProgram] at written
  cases owner : program.owner? name with
  | none =>
      rw [owner] at written
      contradiction
  | some other =>
      rw [owner] at written
      cases other with
      | schema content =>
          rcases Option.map_eq_some_iff.mp written with ⟨located, isParent, rfl⟩
          have mentioned : located.value ∈ content.mentions := by
            simp [SchemaDeclaration.mentions, isParent]
          exact mention_ne_of_mem avoids (List.mem_of_find?_eq_some owner) _
            mentioned
      | _ => contradiction

/-- The tables agree on all other names. -/
theorem agrees_ofProgram :
    (SymbolTable.ofProgram program).AgreesOn (· ≠ declaration.name)
      (SymbolTable.ofProgram (program ++ [declaration])) where
  global? := fun _ apart => global?_ofProgram_concat avoids apart
  parents := fun _ _ _ written => parent_ne avoids written
  schemaNames := by
    refine ⟨_, ?_, schemaNames_ofProgram_concat avoids⟩
    intro name listed
    exact not_not.mpr (List.mem_singleton.mp (List.mem_of_mem_filter listed))

/-- The faults of registration are found again. -/
theorem register_subset :
    (SymbolTable.empty.register program).2 ⊆
      (SymbolTable.empty.register (program ++ [declaration])).2 := by
  have names : (program.zipIdx.flatMap fun entry =>
        (SymbolTable.ofProgram (program ++ [declaration])).nameFaults entry.2
          entry.1) =
      program.zipIdx.flatMap fun entry =>
        (SymbolTable.ofProgram program).nameFaults entry.2 entry.1 := by
    apply List.flatMap_congr
    intro entry listed
    have member : entry.1 ∈ program := List.fst_mem_of_mem_zipIdx listed
    exact (agrees_ofProgram avoids).nameFaults (name_ne_of_mem avoids member)
      (mention_ne_of_mem avoids member) entry.2
  rw [SymbolTable.register_snd, SymbolTable.register_snd, takenFaults_append,
    List.zipIdx_append, List.flatMap_append, names]
  exact append_subset_append (List.subset_append_left _ _)
    (List.subset_append_left _ _)

/-- The faults of the owners are found again. -/
theorem flatMap_owners_subset {faults others : Declaration → List Fault}
    (same : ∀ other ∈ program, others other = faults other) :
    program.owners.flatMap faults ⊆
      (owners (program ++ [declaration])).flatMap others := by
  have found : program.owners.flatMap others = program.owners.flatMap faults :=
    List.flatMap_congr fun other listed => same other (mem_of_mem_owners listed)
  rw [owners_concat_of_not_mem avoids.undeclared, List.flatMap_append, found]
  exact List.subset_append_left _ _

/-- Everything that is wrong with the program is still wrong. -/
theorem faults_subset (config : Config) :
    program.faults config ⊆ faults config (program ++ [declaration]) := by
  have units :=
    flatMap_owners_subset avoids fun _ member => unitFaults_concat avoids member
  have lookups :=
    flatMap_owners_subset avoids fun _ member =>
      lookupFaults_concat avoids member
  have transforms :=
    flatMap_owners_subset avoids fun _ member =>
      transformFaults_concat avoids member config
  have pipelines :=
    flatMap_owners_subset avoids fun _ member =>
      pipelineFaults_concat avoids member config
  exact append_subset_append
    (append_subset_append (append_subset_append (append_subset_append
    (append_subset_append (register_subset avoids) units)
    (faults_fields_subset avoids)) lookups) transforms) pipelines

end Program

/--
A declaration that nothing mentions leaves what was found about the others.
-/
theorem analyze_unmentioned (config : Config) {program : Program}
    {declaration : Declaration} (avoids : program.Avoids declaration.name) :
    (analyze config program).diagnostics ⊆
      (analyze config (program ++ [declaration])).diagnostics ∧
      ∀ name ∈ program.map Declaration.name,
        (analyze config (program ++ [declaration])).table.kind? name =
          (analyze config program).table.kind? name ∧
          (analyze config (program ++ [declaration])).types.units.get? name =
            (analyze config program).types.units.get? name := by
  refine ⟨?_, ?_⟩
  · intro diagnostic told
    rw [Analysis.mem_diagnostics_analyze] at told ⊢
    exact List.map_subset _ (Program.faults_subset avoids config) told
  · intro name declared
    have apart : name ≠ declaration.name :=
      fun same => avoids.undeclared (same ▸ declared)
    rw [Analysis.kind?_analyze, Analysis.kind?_analyze, Analysis.unit?_analyze,
      Analysis.unit?_analyze]
    exact ⟨Program.kind?_concat avoids apart,
      Program.unitOf_owner_concat avoids apart⟩

/-- Crates with a weight, and a transform that gives a text for it. -/
def warehouse : Program :=
  [.dimension { name := "Mass" },
    .unit { name := "kilogram", dimension := some ⟨"Mass", .unknown⟩ },
    .schema
      { name := "Crate"
        fields :=
          [{ name := "weight",
             type := .quantity .unknown (.reference .unknown "kilogram") }] },
    .transform
      { name := "Weigh"
        sources := [{ type := .schemaName .unknown "Crate" }]
        target := .schemaName .unknown "Crate"
        rules :=
          [{ target := [⟨"weight", .unknown⟩],
             value := .literal .unknown (.string "heavy") }] }]

/-- A heir of the crates with a field of no known type. -/
def pallet : Declaration :=
  .schema
    { name := "Pallet"
      parent := some ⟨"Crate", .unknown⟩
      fields := [{ name := "owner", type := .schemaName .unknown "Carrier" }] }

/--
A program with a fault keeps it beside a declaration that it does not mention.
-/
theorem analyze_unmentioned_pallet :
    warehouse.Avoids pallet.name ∧ (analyze {} warehouse).isAccepted = false ∧
      (analyze {} warehouse).diagnostics ⊆
        (analyze {} (warehouse ++ [pallet])).diagnostics ∧
      ∀ name ∈ warehouse.map Declaration.name,
        (analyze {} (warehouse ++ [pallet])).table.kind? name =
          (analyze {} warehouse).table.kind? name ∧
          (analyze {} (warehouse ++ [pallet])).types.units.get? name =
            (analyze {} warehouse).types.units.get? name := by
  have avoids : warehouse.Avoids pallet.name := ⟨by decide, by decide⟩
  exact ⟨avoids, by decide +kernel, analyze_unmentioned {} avoids⟩

end SchemaMap
