import SchemaMap.Analysis.Program
import SchemaMap.Proofs.Prelude
import SchemaMap.Proofs.Symbol.Table

/-!
# The table after registration

A name belongs to the first declaration of it.  Registration leaves a table
whose symbols are exactly those first declarations, in the order of the program,
so looking a name up in the table is finding its first declaration in the
program (`kind?_ofProgram`), and the declarations that the later phases go
through are the owners of their names (`map_snd_ownedDeclarations`).
-/

namespace SchemaMap

namespace Program

/-- The declaration that a name belongs to. -/
def owner? (program : Program) (name : String) : Option Declaration :=
  program.find? fun declaration => declaration.name == name

/--
The first declarations of their names, with their places; the names in `taken`
have been declared before.
-/
def ownersFrom (taken : List String) (place : Nat) :
    Program → List (Nat × Declaration)
  | [] => []
  | declaration :: rest =>
      if declaration.name ∈ taken then
        ownersFrom taken (place + 1) rest
      else
        (place, declaration) ::
          ownersFrom (declaration.name :: taken) (place + 1) rest

/-- The declarations that own their names. -/
def owners (program : Program) : List Declaration :=
  (ownersFrom [] 0 program).map Prod.snd

theorem name_not_mem_of_mem_ownersFrom {taken : List String} {place : Nat}
    {program : Program} {entry : Nat × Declaration}
    (found : entry ∈ ownersFrom taken place program) :
    entry.2.name ∉ taken := by
  induction program generalizing taken place with
  | nil => simp [ownersFrom] at found
  | cons declaration rest ih =>
      unfold ownersFrom at found
      split at found
      · exact ih found
      · next free =>
          rcases List.mem_cons.mp found with same | later
          · subst same
            exact free
          · intro member
            exact ih later (List.mem_cons_of_mem _ member)

/-- Owners have distinct names. -/
theorem nodup_names_ownersFrom (taken : List String) (place : Nat)
    (program : Program) :
    ((ownersFrom taken place program).map fun entry => entry.2.name).Nodup := by
  induction program generalizing taken place with
  | nil => exact List.nodup_nil
  | cons declaration rest ih =>
      unfold ownersFrom
      split
      · exact ih taken (place + 1)
      · rw [List.map_cons, List.nodup_cons]
        refine ⟨?_, ih _ _⟩
        intro repeated
        rcases List.mem_map.mp repeated with ⟨entry, found, sameName⟩
        exact name_not_mem_of_mem_ownersFrom found (by simp [sameName])

/--
A name that is not taken is found among the owners where it is found in the
program.
-/
theorem find?_ownersFrom {taken : List String} (place : Nat) (program : Program)
    {name : String} (free : name ∉ taken) :
    ((ownersFrom taken place program).map Prod.snd).find?
      (fun declaration => declaration.name == name) =
      program.owner? name := by
  induction program generalizing taken place with
  | nil => rfl
  | cons declaration rest ih =>
      unfold ownersFrom
      by_cases same : declaration.name = name
      · subst same
        simp [owner?, free]
      · have apart : (declaration.name == name) = false := by simpa using same
        split
        · rw [ih (place + 1) free]
          simp [owner?, apart]
        · have stillFree : name ∉ declaration.name :: taken := by
            simp only [List.mem_cons, not_or]
            exact ⟨fun equality => same equality.symm, free⟩
          simpa [owner?, apart] using ih (place + 1) stillFree

theorem find?_owners (program : Program) (name : String) :
    program.owners.find? (fun declaration => declaration.name == name) =
      program.owner? name :=
  find?_ownersFrom 0 program (by simp)

theorem nodup_names_owners (program : Program) :
    (program.owners.map Declaration.name).Nodup := by
  simpa [owners, Function.comp_def] using nodup_names_ownersFrom [] 0 program

theorem name_of_owner? {program : Program} {name : String}
    {declaration : Declaration}
    (found : program.owner? name = some declaration) :
    declaration.name = name := by
  simpa using List.find?_some found

theorem eq_of_owner? {program : Program} {name : String}
    {declaration other : Declaration}
    (owner : program.owner? declaration.name = some declaration)
    (otherOwner : program.owner? name = some other)
    (same : other.name = declaration.name) : other = declaration := by
  rw [← name_of_owner? otherOwner, same, owner] at otherOwner
  exact (Option.some.inj otherOwner).symm

/-- The owners are those that own their own names. -/
theorem mem_owners_iff {program : Program} {declaration : Declaration} :
    declaration ∈ program.owners ↔
      program.owner? declaration.name = some declaration := by
  rw [← find?_owners, find?_key_eq_some_iff (nodup_names_owners program)]
  simp

theorem mem_of_mem_owners {program : Program} {declaration : Declaration}
    (owner : declaration ∈ program.owners) :
    declaration ∈ program :=
  List.mem_of_find?_eq_some (mem_owners_iff.mp owner)

/-- Where no name is declared twice, every declaration owns its name. -/
theorem ownersFrom_eq_of_nodup {taken : List String} (place : Nat)
    {program : Program} (distinct : (program.map Declaration.name).Nodup)
    (apart : ∀ declaration ∈ program, declaration.name ∉ taken) :
    program.ownersFrom taken place = (program.zipIdx place).map Prod.swap := by
  induction program generalizing taken place with
  | nil => rfl
  | cons declaration rest ih =>
      rw [List.map_cons, List.nodup_cons] at distinct
      rw [ownersFrom, if_neg (apart _ List.mem_cons_self), List.zipIdx_cons,
        List.map_cons, ih (place + 1) distinct.2]
      · rfl
      · intro other found repeated
        rcases List.mem_cons.mp repeated with same | older
        · exact distinct.1 (List.mem_map.mpr ⟨other, found, same⟩)
        · exact apart other (List.mem_cons_of_mem _ found) older

/-- Without repetition every declaration is an owner. -/
theorem owners_eq_of_nodup {program : Program}
    (distinct : (program.map Declaration.name).Nodup) :
    program.owners = program := by
  rw [owners, ownersFrom_eq_of_nodup 0 distinct (by simp), List.map_map]
  exact List.zipIdx_map_fst 0 program

end Program

namespace SymbolTable

/-! ## Tables of global symbols -/

/--
The table that binds some symbols in the global scope and has no other scope.
-/
def ofGlobals (symbols : List Symbol) : SymbolTable :=
  { symbols := symbols
    scopes :=
      [{ parent := none
         kind := .global
         names := symbols.zipIdx.map fun entry => (entry.1.name, entry.2) }]
    current := 0 }

@[simp]
theorem ofGlobals_nil : ofGlobals [] = empty := rfl

/-- The global symbol of a name is the first of that name. -/
theorem global?_ofGlobals (symbols : List Symbol) (name : String) :
    (ofGlobals symbols).global? name =
      symbols.find? fun symbol => symbol.name == name := by
  -- The numbers of the later symbols count the earlier ones, so these are kept
  -- in front.
  have general : ∀ earlier later : List Symbol,
      (((later.zipIdx earlier.length).map fun entry =>
        (entry.1.name, entry.2)).lookup name).bind
          (fun id => (earlier ++ later)[id]?) =
        later.find? fun symbol => symbol.name == name := by
    intro earlier later
    induction later generalizing earlier with
    | nil => rfl
    | cons symbol rest ih =>
        by_cases same : name = symbol.name
        · simp [same]
        · have apart : (name == symbol.name) = false := by simpa using same
          have apart' : (symbol.name == name) = false := by
            simpa using Ne.symm same
          simpa [List.zipIdx_cons, List.lookup_cons, apart, apart'] using
            ih (earlier ++ [symbol])
  exact general [] symbols

/-- In a global scope of some symbols exactly their names are bound. -/
theorem lookupGlobal_ofGlobals_isSome {symbols : List Symbol} {name : String} :
    ((ofGlobals symbols).lookupGlobal name).isSome ↔
      name ∈ symbols.map Symbol.name := by
  have names : (symbols.zipIdx.map fun entry => (entry.1.name, entry.2)).map
      Prod.fst =
      symbols.map Symbol.name := by
    conv_rhs => rw [← List.zipIdx_map_fst 0 symbols, List.map_map]
    rw [List.map_map]
    rfl
  rw [← names]
  exact lookup_isSome_iff

/-- A name that is bound cannot be defined again. -/
theorem define_ofGlobals_of_mem {symbols : List Symbol} (symbol : Symbol)
    (taken : symbol.name ∈ symbols.map Symbol.name) :
    (ofGlobals symbols).define symbol =
      .error ⟨.duplicateDefinition symbol.name, symbol.span⟩ := by
  rcases Option.isSome_iff_exists.mp
    (lookupGlobal_ofGlobals_isSome.mpr taken) with ⟨id, found⟩
  have bound : (ofGlobals symbols).lookupLocal symbol.name = some id := found
  simp [define, bound]

theorem define_ofGlobals_of_not_mem {symbols : List Symbol} (symbol : Symbol)
    (free : symbol.name ∉ symbols.map Symbol.name) :
    (ofGlobals symbols).define symbol =
      .ok { id := symbols.length,
            table := ofGlobals (symbols ++ [{ symbol with scope := 0 }]) } := by
  have absent : (ofGlobals symbols).lookupLocal symbol.name = none := by
    rw [← Option.not_isSome_iff_eq_none]
    exact fun found => free (lookupGlobal_ofGlobals_isSome.mp found)
  simp only [define, absent]
  simp [ofGlobals, List.zipIdx_append]

/-- The symbol of a declaration at a place of the program. -/
def registered (entry : Nat × Declaration) : Symbol :=
  { name := entry.2.name
    kind := entry.2.placeholder
    span := entry.2.span
    declaration := some entry.1 }

/-- A declaration whose name is taken is reported and left out. -/
theorem registerFrom_cons_of_mem {symbols : List Symbol}
    {declaration : Declaration}
    (taken : declaration.name ∈ symbols.map Symbol.name) (place : Nat)
    (rest : Program) :
    (ofGlobals symbols).registerFrom place (declaration :: rest) =
      (((ofGlobals symbols).registerFrom (place + 1) rest).1,
        (ofGlobals symbols).takenName declaration ::
          ((ofGlobals symbols).registerFrom (place + 1) rest).2) := by
  have refused :=
    define_ofGlobals_of_mem (registered (place, declaration)) taken
  simp only [registered] at refused
  simp [registerFrom, refused]

theorem registerFrom_cons_of_not_mem {symbols : List Symbol}
    {declaration : Declaration}
    (free : declaration.name ∉ symbols.map Symbol.name) (place : Nat)
    (rest : Program) :
    (ofGlobals symbols).registerFrom place (declaration :: rest) =
      (ofGlobals (symbols ++ [registered (place, declaration)])).registerFrom
        (place + 1) rest := by
  have defined :=
    define_ofGlobals_of_not_mem (registered (place, declaration)) free
  simp only [registered] at defined
  simp [registerFrom, defined, registered]

/-- Registration adds the symbols of the declarations whose names are free. -/
theorem registerFrom_ofGlobals (symbols : List Symbol) (place : Nat)
    (program : Program) (taken : List String)
    (same : ∀ name, name ∈ taken ↔ name ∈ symbols.map Symbol.name) :
    ((ofGlobals symbols).registerFrom place program).1 =
      ofGlobals
        (symbols ++ (program.ownersFrom taken place).map registered) := by
  induction program generalizing symbols place taken with
  | nil => simp [registerFrom, Program.ownersFrom]
  | cons declaration rest ih =>
      unfold Program.ownersFrom
      by_cases member : declaration.name ∈ taken
      · rw [registerFrom_cons_of_mem ((same _).mp member), if_pos member]
        exact ih symbols (place + 1) taken same
      · rw [registerFrom_cons_of_not_mem
          (fun found => member ((same _).mpr found)), if_neg member]
        rw [ih _ (place + 1) (declaration.name :: taken)]
        · simp
        · intro name
          simp [same, registered, or_comm]

/-! ## The registered program -/

/-- The table of a registered program. -/
def ofProgram (program : Program) : SymbolTable :=
  ofGlobals ((program.ownersFrom [] 0).map registered)

/-- Registration leads to the table of the program. -/
theorem register_fst (program : Program) :
    (empty.register program).1 = ofProgram program := by
  have registration := registerFrom_ofGlobals [] 0 program [] (by simp)
  simpa [register, ofProgram] using registration

theorem global?_ofProgram (program : Program) (name : String) :
    (ofProgram program).global? name =
      ((program.ownersFrom [] 0).find? fun entry => entry.2.name == name).map
        registered := by
  rw [ofProgram, global?_ofGlobals, List.find?_map]
  rfl

/-- A name stands for the placeholder of its owner. -/
theorem kind?_ofProgram (program : Program) (name : String) :
    (ofProgram program).kind? name =
      (program.owner? name).map Declaration.placeholder := by
  rw [kind?, global?_ofProgram, ← Program.find?_owners, Program.owners,
    List.find?_map, Option.map_map, Option.map_map]
  rfl

theorem placeholder_binding? (declaration : Declaration) :
    declaration.placeholder.binding? = none := by
  cases declaration <;> rfl

/-- The table of a program has its global scope open. -/
theorem rooted_ofProgram (program : Program) : (ofProgram program).Rooted where
  atRoot := rfl
  root := ⟨_, _, rfl⟩
  declared := by
    intro name id found
    have isGlobal : (ofProgram program).global? name =
        (ofProgram program).get? id := by
      simp [global?, found]
    have present : name ∈
        ((program.ownersFrom [] 0).map registered).map Symbol.name :=
      lookupGlobal_ofGlobals_isSome.mp
        (Option.isSome_iff_exists.mpr ⟨id, found⟩)
    rw [← isGlobal, global?_ofProgram]
    rcases List.mem_map.mp present with ⟨symbol, member, sameName⟩
    rcases List.mem_map.mp member with ⟨entry, entryMember, rfl⟩
    have owner :=
      (find?_key_eq_some_iff (Program.nodup_names_ownersFrom [] 0 program)).mpr
        ⟨entryMember, sameName⟩
    exact ⟨registered entry, by rw [owner]; rfl, sameName,
      placeholder_binding? entry.2⟩

/-- A declaration that owns its name is its owner in the table. -/
theorem owner?_ofProgram {program : Program} {entry : Nat × Declaration}
    (member : entry ∈ program.ownersFrom [] 0) :
    (ofProgram program).owner? entry.2.name = some entry.1 := by
  have owner :=
    (find?_key_eq_some_iff (Program.nodup_names_ownersFrom [] 0 program)).mpr
      ⟨member, rfl⟩
  rw [owner?, global?_ofProgram, owner]
  rfl

theorem exists_owned?_of_owner? {table : SymbolTable} {place : Nat}
    {name : String} (owner : table.owner? name = some place) :
    ∃ id, table.owned? place name = some id := by
  have bound : (table.lookupGlobal name).isSome := by
    rw [owner?, global?] at owner
    cases found : table.lookupGlobal name with
    | none => simp [found] at owner
    | some id => rfl
  rcases Option.isSome_iff_exists.mp bound with ⟨id, found⟩
  exact ⟨id, by simp only [owned?, owner, if_true, found]⟩

/--
Of a suffix of the program, where the names before it have owners before it, the
owners are gone through.
-/
theorem map_snd_filterMap_owned? {program : Program} (suffix : Program)
    (place : Nat) (taken : List String)
    (earlierOwners : ∀ name ∈ taken,
      ∃ earlier < place, (ofProgram program).owner? name = some earlier)
    (included : ∀ entry ∈ suffix.ownersFrom taken place,
      entry ∈ program.ownersFrom [] 0) :
    ((suffix.zipIdx place).filterMap fun entry =>
        ((ofProgram program).owned? entry.2 entry.1.name).map fun id =>
          (id, entry.1)).map Prod.snd =
      (suffix.ownersFrom taken place).map Prod.snd := by
  induction suffix generalizing place taken with
  | nil => rfl
  | cons declaration rest ih =>
      have stillEarlier : ∀ name ∈ taken,
          ∃ earlier < place + 1,
            (ofProgram program).owner? name = some earlier := by
        intro name found
        rcases earlierOwners name found with ⟨earlier, before, owner⟩
        exact ⟨earlier, by omega, owner⟩
      rw [List.zipIdx_cons]
      by_cases member : declaration.name ∈ taken
      · rcases earlierOwners _ member with ⟨earlier, before, owner⟩
        have foreign : (ofProgram program).owned? place declaration.name =
            none := by
          simp only [owned?, owner, Option.some.injEq]
          exact if_neg (by omega)
        simp only [Program.ownersFrom, if_pos member] at included ⊢
        rw [List.filterMap_cons_none (by simp [foreign])]
        exact ih (place + 1) taken stillEarlier included
      · simp only [Program.ownersFrom, if_neg member] at included ⊢
        rw [List.forall_mem_cons] at included
        have owner := owner?_ofProgram included.1
        rcases exists_owned?_of_owner? owner with ⟨id, own⟩
        rw [List.filterMap_cons_some (by simp only [own]; rfl), List.map_cons,
          List.map_cons]
        congr 1
        apply ih (place + 1) (declaration.name :: taken) _ included.2
        rw [List.forall_mem_cons]
        exact ⟨⟨place, by omega, owner⟩, stillEarlier⟩

/--
The declarations that the later phases go through are the owners, in the order
of the program.
-/
theorem map_snd_ownedDeclarations (program : Program) :
    ((ofProgram program).ownedDeclarations program).map Prod.snd =
      program.owners :=
  map_snd_filterMap_owned? program 0 [] (by simp) fun _ found => found

theorem lookupGlobal_of_mem_ownedDeclarations {table : SymbolTable}
    {program : Program} {entry : Nat × Declaration}
    (member : entry ∈ table.ownedDeclarations program) :
    table.lookupGlobal entry.2.name = some entry.1 := by
  rcases List.mem_filterMap.mp member with ⟨placed, -, owned⟩
  rcases Option.map_eq_some_iff.mp owned with ⟨id, found, rfl⟩
  unfold owned? at found
  split at found
  · exact found
  · contradiction

/-! ## Repeated names -/

/-- Registration finds a fault unless all names are distinct and free. -/
theorem registerFrom_snd_eq_nil_iff (symbols : List Symbol) (place : Nat)
    (program : Program) :
    ((ofGlobals symbols).registerFrom place program).2 = [] ↔
      (program.map Declaration.name).Nodup ∧
        ∀ declaration ∈ program,
          declaration.name ∉ symbols.map Symbol.name := by
  induction program generalizing symbols place with
  | nil => simp [registerFrom]
  | cons declaration rest ih =>
      by_cases taken : declaration.name ∈ symbols.map Symbol.name
      · rw [registerFrom_cons_of_mem taken]
        constructor
        · intro none
          contradiction
        · rintro ⟨-, free⟩
          exact absurd taken (free _ List.mem_cons_self)
      · rw [registerFrom_cons_of_not_mem taken, ih, List.map_cons,
          List.nodup_cons]
        simp only [List.map_append, List.map_singleton, List.mem_append,
          List.mem_singleton, not_or, List.forall_mem_cons, registered,
          List.mem_map, not_exists, not_and]
        constructor
        · rintro ⟨distinct, free⟩
          exact ⟨⟨fun other found => (free other found).2, distinct⟩,
            by simpa using taken, fun other found => (free other found).1⟩
        · rintro ⟨⟨fresh, distinct⟩, -, free⟩
          exact ⟨distinct,
            fun other found => ⟨free other found, fresh other found⟩⟩

end SymbolTable

/--
No name is repeated exactly when the names are distinct and none was seen
before.
-/
theorem repeatedNames_eq_nil_iff (seen : List String)
    (names : List (Located String)) :
    repeatedNames seen names = [] ↔
      (names.map Located.value).Nodup ∧ ∀ name ∈ names, name.value ∉ seen := by
  induction names generalizing seen with
  | nil => simp [repeatedNames]
  | cons name rest ih =>
      unfold repeatedNames
      split
      · next known =>
          constructor
          · intro none
            contradiction
          · rintro ⟨-, free⟩
            exact absurd known (free _ List.mem_cons_self)
      · next free =>
          rw [ih, List.map_cons, List.nodup_cons]
          simp only [List.mem_cons, not_or, List.mem_map, not_exists, not_and,
            forall_eq_or_imp]
          constructor
          · rintro ⟨distinct, apart⟩
            exact ⟨⟨fun other found => (apart other found).1, distinct⟩, free,
              fun other found => (apart other found).2⟩
          · rintro ⟨⟨fresh, distinct⟩, -, apart⟩
            exact ⟨distinct,
              fun other found => ⟨fresh other found, apart other found⟩⟩

end SchemaMap
