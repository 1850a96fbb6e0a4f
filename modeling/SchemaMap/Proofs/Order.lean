import SchemaMap.Proofs.Renumbering

/-!
# The order of declarations

Units and schemas are worked out when they are first asked for, and type
variables are numbered on the way, so the order of the declarations decides what
the analysis does when.  It decides nothing about a program that is accepted,
apart from the numbers of type variables: `analyze_perm`.
-/

namespace SchemaMap

namespace Program

section

variable {program permuted : Program} (reordered : program.Perm permuted)

include reordered

/-- The order of a program does not matter for what is declared. -/
theorem declared_perm : permuted.declared = program.declared := by
  ext declaration
  exact reordered.mem_iff.symm

theorem nodup_names_perm (distinct : (program.map Declaration.name).Nodup) :
    (permuted.map Declaration.name).Nodup :=
  (reordered.map Declaration.name).nodup_iff.mp distinct

variable (distinct : (program.map Declaration.name).Nodup)

include distinct

/-- Without repetition a name has the same owner in any order. -/
theorem owner?_perm (name : String) :
    permuted.owner? name = program.owner? name := by
  ext declaration
  rw [owner?_eq_some_iff distinct,
    owner?_eq_some_iff (nodup_names_perm reordered distinct),
    declared_perm reordered]

theorem isDimension_perm (name : String) :
    permuted.isDimension name = program.isDimension name := by
  rw [isDimension, isDimension, owner?_perm reordered distinct]

theorem unitOf_perm (declaration : Declaration) :
    permuted.unitOf declaration = program.unitOf declaration := by
  cases declaration with
  | unit declaration =>
      ext unit
      have measured : permuted.names.measures declaration.name unit ↔
          program.names.measures declaration.name unit := by
        rw [measures_names distinct,
          measures_names (nodup_names_perm reordered distinct),
          declared_perm reordered]
      rw [unitOf, unitOf, toOption_eq_some_iff, toOption_eq_some_iff]
      exact measured
  | _ => rfl

/--
The numbers that a program gives to its type variables in two orders differ by a
renaming.
-/
theorem exists_renumbers_perm :
    ∃ rename, Function.Injective rename ∧
      Renumbers program.declared rename program.number permuted.number := by
  have apart := injOn_number (nodup_names_perm reordered distinct)
  rw [declared_perm reordered] at apart
  exact exists_renumbers program (injOn_number distinct) apart

variable {rename : Nat → Nat} (injective : Function.Injective rename)
  (renumbers : Renumbers program.declared rename program.number permuted.number)

include injective renumbers

/--
A name stands for the same in any order, up to the numbers of type variables.
-/
theorem kind?_perm (resolved : Resolved program.declared program.number)
    (name : String) :
    permuted.kind? name = (program.kind? name).map (Kind.renamed rename) := by
  have permutedResolved : Resolved permuted.declared permuted.number := by
    rw [declared_perm reordered]
    exact resolved.renumbered injective renumbers
  cases found : program.kind? name with
  | none =>
      rw [kind?, Option.map_eq_none_iff] at found
      rw [kind?, owner?_perm reordered distinct, found]
      rfl
  | some kind =>
      rw [kind?_eq_some_iff_hasKind distinct resolved] at found
      show permuted.kind? name = some (kind.renamed rename)
      rw [kind?_eq_some_iff_hasKind (nodup_names_perm reordered distinct)
        permutedResolved, declared_perm reordered]
      exact renumbers.hasKind injective found

end

end Program

/--
An accepted program stays accepted when its declarations are put in another
order.  It has the same dimensions and the same units, and its names stand for
the same, up to a renaming of type variables.
-/
theorem analyze_perm (config : Config) {program permuted : Program}
    (reordered : program.Perm permuted)
    (accepted : (analyze config program).isAccepted = true) :
    (analyze config permuted).isAccepted = true ∧
      (analyze config permuted).types.dimensions =
        (analyze config program).types.dimensions ∧
      (analyze config permuted).types.units =
        (analyze config program).types.units ∧
      ∃ rename : Nat → Nat, Function.Injective rename ∧
        ∀ name, (analyze config permuted).table.kind? name =
          ((analyze config program).table.kind? name).map
            (Kind.renamed rename) := by
  rw [Analysis.isAccepted_analyze_iff,
    Program.faults_eq_nil_iff_wellTyped] at accepted
  rcases accepted with ⟨distinct, wellTyped⟩
  rcases Program.exists_renumbers_perm reordered distinct with
    ⟨rename, injective, renumbers⟩
  refine ⟨?_, ?_, ?_, rename, injective, ?_⟩
  · rw [Analysis.isAccepted_analyze_iff, Program.faults_eq_nil_iff_wellTyped]
    refine ⟨Program.nodup_names_perm reordered distinct, ?_⟩
    rw [Program.declared_perm reordered]
    exact wellTyped.renumbered injective renumbers
  · apply Dictionary.ext_get?
    intro name
    rw [Analysis.dimension?_analyze, Analysis.dimension?_analyze,
      Program.isDimension_perm reordered distinct]
  · apply Dictionary.ext_get?
    intro name
    rw [Analysis.unit?_analyze, Analysis.unit?_analyze,
      Program.owner?_perm reordered distinct]
    exact Option.bind_congr fun declaration _ =>
      Program.unitOf_perm reordered distinct declaration
  · intro name
    rw [Analysis.kind?_analyze, Analysis.kind?_analyze]
    exact Program.kind?_perm reordered distinct injective renumbers
      wellTyped.toResolved name

/-- A unit and a schema with a parameter, each before what it is made from. -/
def crates : Program :=
  [.unit { name := "area",
           definition := some (.power .unknown (.reference .unknown "m") 2) },
    .unit { name := "m", dimension := some ⟨"length", .unknown⟩ },
    .dimension { name := "length" },
    .schema
      { name := "Crate"
        parameters := ["C"]
        parent := some ⟨"Box", .unknown⟩
        fields := [{ name := "load", type := .schemaName .unknown "C" }] },
    .schema
      { name := "Box"
        parameters := ["B"]
        fields :=
          [{ name := "base",
             type := .quantity .unknown (.reference .unknown "area") },
            { name := "content", type := .schemaName .unknown "B" }] }]

theorem analyze_reverse_crates :
    (analyze {} crates).isAccepted = true ∧
      (analyze {} crates.reverse).isAccepted = true ∧
      (analyze {} crates.reverse).types.units =
        (analyze {} crates).types.units ∧
      ∃ rename : Nat → Nat, Function.Injective rename ∧
        ∀ name, (analyze {} crates.reverse).table.kind? name =
          ((analyze {} crates).table.kind? name).map (Kind.renamed rename) := by
  have accepted : (analyze {} crates).isAccepted = true := by decide +kernel
  have reversed := analyze_perm {} (List.reverse_perm crates).symm accepted
  exact ⟨accepted, reversed.1, reversed.2.2⟩

end SchemaMap
