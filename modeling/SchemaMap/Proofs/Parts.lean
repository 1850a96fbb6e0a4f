import SchemaMap.Proofs.Registration

/-!
# Programs in two parts

The declarations that own their names in a program of two parts are those of the
first part, followed by those of the second part whose names the first part
leaves free (`ownersFrom_append`).  Registration compares every declaration with
those before it, so that the faults of taken names can be told part by part as
well (`takenFaults_append`).
-/

namespace SchemaMap

namespace Program

/-! ## Owners -/

theorem ownersFrom_congr {taken other : List String}
    (same : ∀ name, name ∈ taken ↔ name ∈ other) (place : Nat)
    (program : Program) :
    ownersFrom taken place program = ownersFrom other place program := by
  induction program generalizing taken other place with
  | nil => rfl
  | cons declaration rest ih =>
      have further : ∀ name, name ∈ declaration.name :: taken ↔
          name ∈ declaration.name :: other := by
        intro name
        rw [List.mem_cons, List.mem_cons, same]
      simp only [ownersFrom, same, ih same, ih further]

/--
The owners of the first part, then those of the second part whose names are
free.
-/
theorem ownersFrom_append (taken : List String) (place : Nat)
    (before after : Program) :
    ownersFrom taken place (before ++ after) =
      ownersFrom taken place before ++
        ownersFrom (before.map Declaration.name ++ taken)
          (place + before.length) after := by
  induction before generalizing taken place with
  | nil => rfl
  | cons declaration rest ih =>
      have places : place + 1 + rest.length =
          place + (declaration :: rest).length := by
        rw [List.length_cons, Nat.add_right_comm, Nat.add_assoc]
      rw [List.cons_append, ownersFrom, ownersFrom, ih, ih, places]
      split
      · next member =>
          congr 1
          apply ownersFrom_congr
          intro name
          simp only [List.map_cons, List.cons_append, List.mem_cons,
            List.mem_append]
          refine ⟨.inr, ?_⟩
          rintro (rfl | known)
          · exact .inr member
          · exact known
      · rw [List.cons_append]
        congr 2
        apply ownersFrom_congr
        intro name
        simp only [List.map_cons, List.cons_append, List.mem_cons,
          List.mem_append, or_left_comm]

/-- Counting the places from a later one moves them all. -/
theorem ownersFrom_succ (taken : List String) (place : Nat)
    (program : Program) :
    ownersFrom taken (place + 1) program =
      (ownersFrom taken place program).map (Prod.map (· + 1) id) := by
  induction program generalizing taken place with
  | nil => rfl
  | cons declaration rest ih =>
      simp only [ownersFrom]
      split
      · exact ih taken (place + 1)
      · rw [List.map_cons, ih]
        rfl

/-- An owner stands at a place of its program. -/
theorem place_of_mem_ownersFrom {taken : List String} {place : Nat}
    {program : Program} {entry : Nat × Declaration}
    (member : entry ∈ ownersFrom taken place program) :
    place ≤ entry.1 ∧ entry.1 < place + program.length := by
  induction program generalizing taken place with
  | nil => contradiction
  | cons declaration rest ih =>
      rw [ownersFrom] at member
      rw [List.length_cons]
      split at member
      · have bounds := ih member
        omega
      · rcases List.mem_cons.mp member with rfl | later
        · exact ⟨Nat.le_refl _, by omega⟩
        · have bounds := ih later
          omega

/-- The first part of a program comes first. -/
theorem owner?_append (before after : Program) (name : String) :
    owner? (before ++ after) name =
      (before.owner? name).or (after.owner? name) :=
  List.find?_append

/-- A name has an owner exactly when it is declared. -/
theorem owner?_isSome_iff {program : Program} {name : String} :
    (program.owner? name).isSome ↔ name ∈ program.map Declaration.name := by
  simp [owner?]

theorem owner?_eq_none_iff {program : Program} {name : String} :
    program.owner? name = none ↔ name ∉ program.map Declaration.name := by
  rw [← owner?_isSome_iff, Option.not_isSome_iff_eq_none]

/-- The owners of a program own all of its names. -/
theorem mem_names_owners_iff {program : Program} {name : String} :
    name ∈ program.owners.map Declaration.name ↔
      name ∈ program.map Declaration.name := by
  rw [← owner?_isSome_iff, ← owner?_isSome_iff, ← find?_owners program]
  rfl

/-- A declaration whose name is taken owns nothing. -/
theorem ownersFrom_concat_of_mem {program : Program} {declaration : Declaration}
    (taken : declaration.name ∈ program.map Declaration.name) :
    ownersFrom [] 0 (program ++ [declaration]) = ownersFrom [] 0 program := by
  rw [ownersFrom_append, List.append_nil, ownersFrom, if_pos taken, ownersFrom,
    List.append_nil]

/-- A declaration whose name is free owns it. -/
theorem ownersFrom_concat_of_not_mem {program : Program}
    {declaration : Declaration}
    (free : declaration.name ∉ program.map Declaration.name) :
    ownersFrom [] 0 (program ++ [declaration]) =
      ownersFrom [] 0 program ++ [(program.length, declaration)] := by
  rw [ownersFrom_append, List.append_nil, Nat.zero_add, ownersFrom, if_neg free,
    ownersFrom]

/-- A declaration of a new name is an owner. -/
theorem owners_concat_of_not_mem {program : Program} {declaration : Declaration}
    (free : declaration.name ∉ program.map Declaration.name) :
    owners (program ++ [declaration]) = program.owners ++ [declaration] := by
  rw [owners, ownersFrom_concat_of_not_mem free, List.map_append]
  rfl

/-! ## Taken names -/

/-- The fault of a declaration whose name belongs to one of those before it. -/
def takenFault? (earlier : Program) (declaration : Declaration) :
    Option Fault :=
  (earlier.owner? declaration.name).map fun owner =>
    ⟨.alreadyDeclared declaration.name owner.placeholder.text, declaration.span⟩

/-- The faults of the declarations whose names belong to earlier ones. -/
def takenFaults (earlier : Program) : Program → List Fault
  | [] => []
  | declaration :: rest =>
      (takenFault? earlier declaration).toList ++
        takenFaults (earlier ++ [declaration]) rest

/-- The names that are taken, part by part. -/
theorem takenFaults_append (earlier before after : Program) :
    takenFaults earlier (before ++ after) =
      takenFaults earlier before ++ takenFaults (earlier ++ before) after := by
  induction before generalizing earlier with
  | nil => simp [takenFaults]
  | cons declaration rest ih => simp [takenFaults, ih]

/-- Which names are taken depends on the owners. -/
theorem takenFaults_congr {earlier other : Program}
    (same : earlier.owner? = other.owner?) (program : Program) :
    takenFaults earlier program = takenFaults other program := by
  induction program generalizing earlier other with
  | nil => rfl
  | cons declaration rest ih =>
      have further : owner? (earlier ++ [declaration]) =
          owner? (other ++ [declaration]) := by
        funext name
        rw [owner?_append, owner?_append, same]
      rw [takenFaults, takenFaults, takenFault?, takenFault?, same, ih further]

end Program

namespace SymbolTable

theorem names_ofProgram (program : Program) :
    ((program.ownersFrom [] 0).map registered).map Symbol.name =
      program.owners.map Declaration.name := by
  rw [Program.owners, List.map_map, List.map_map]
  rfl

theorem names_globals_ofProgram (program : Program) :
    (ofProgram program).globals.map Symbol.name =
      program.owners.map Declaration.name := by
  have all : (ofProgram program).globals =
      (program.ownersFrom [] 0).map registered := by
    apply List.filter_eq_self.mpr
    rw [ofProgram, ofGlobals, List.forall_mem_map]
    exact fun _ _ => rfl
  rw [all, names_ofProgram]

/-- A name that is taken is told with the kind of its owner. -/
theorem takenName_ofProgram {program : Program}
    {declaration owner : Declaration}
    (taken : program.owner? declaration.name = some owner) :
    (ofProgram program).takenName declaration =
      ⟨.alreadyDeclared declaration.name owner.placeholder.text,
        declaration.span⟩ := by
  rw [takenName, kind?_ofProgram, taken]
  rfl

/-- Registering further declarations reports those whose names are taken. -/
theorem registerFrom_ofProgram_snd (earlier program : Program) :
    ((ofProgram earlier).registerFrom earlier.length program).2 =
      earlier.takenFaults program := by
  induction program generalizing earlier with
  | nil => rfl
  | cons declaration rest ih =>
      have next := ih (earlier ++ [declaration])
      rw [List.length_append, List.length_singleton] at next
      have names : declaration.name ∈
          ((earlier.ownersFrom [] 0).map registered).map Symbol.name ↔
          declaration.name ∈ earlier.map Declaration.name := by
        rw [names_ofProgram, Program.mem_names_owners_iff]
      rw [Program.takenFaults, Program.takenFault?]
      cases found : earlier.owner? declaration.name with
      | none =>
          have free := Program.owner?_eq_none_iff.mp found
          rw [ofProgram, Program.ownersFrom_concat_of_not_mem free,
            List.map_append] at next
          rw [ofProgram, registerFrom_cons_of_not_mem (mt names.mp free)]
          exact next
      | some owner =>
          have taken :=
            Program.owner?_isSome_iff.mp (Option.isSome_of_eq_some found)
          rw [ofProgram, Program.ownersFrom_concat_of_mem taken,
            ← ofProgram] at next
          rw [ofProgram, registerFrom_cons_of_mem (names.mpr taken),
            ← ofProgram, next, takenName_ofProgram found]
          rfl

/--
The faults of registration: the names that are taken, then what names show of
each declaration.
-/
theorem register_snd (program : Program) :
    (empty.register program).2 =
      Program.takenFaults [] program ++
        program.zipIdx.flatMap fun entry =>
          (ofProgram program).nameFaults entry.2 entry.1 := by
  have taken := registerFrom_ofProgram_snd [] program
  have table : (empty.registerFrom 0 program).1 = ofProgram program :=
    register_fst program
  change (empty.registerFrom 0 program).2 ++ _ = _
  rw [table]
  exact congrArg (· ++ _) taken

end SymbolTable

end SchemaMap
