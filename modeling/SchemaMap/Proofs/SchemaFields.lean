import SchemaMap.Proofs.Resolution
import SchemaMap.SchemaFields

/-!
# The order in which schemas are completed

Completing the declared schemas on demand amounts to completing each of them
once, in some order in which parents come before their children (`Built`).  The
exceptions are parents that are not declared or that lie on a cycle.
-/

namespace SchemaMap

/-- The schema of the first name takes over the fields of the second. -/
def Inherits (declared : SchemaDeclaration → Prop) (child parent : String) :
    Prop :=
  ∃ declaration located, declared declaration ∧ declaration.name = child ∧
    declaration.parent = some located ∧ located.value = parent

theorem mem_putField {fields : List (String × Ty)} {name : String} {type : Ty}
    {entry : String × Ty} (member : entry ∈ putField fields name type) :
    entry ∈ fields ∨ entry = (name, type) := by
  induction fields with
  | nil => exact .inr (List.mem_singleton.mp member)
  | cons field rest ih =>
      rw [putField] at member
      split at member
      · rcases List.mem_cons.mp member with rfl | later
        · exact .inr rfl
        · exact .inl (List.mem_cons_of_mem _ later)
      · rcases List.mem_cons.mp member with rfl | later
        · exact .inl List.mem_cons_self
        · exact (ih later).imp_left (List.mem_cons_of_mem _)

namespace SchemaFields

/-- Whether the schema of a name is complete. -/
def Holds (state : SchemaFields) (name : String) : Prop :=
  (state.completed.lookup name).isSome

/-- The fields that a schema takes over. -/
def inherited (state : SchemaFields) (declaration : SchemaDeclaration) :
    List (String × Ty) :=
  match declaration.parent with
  | none => []
  | some parent =>
      ((state.completed.lookup parent.value).map Schema.fields).getD []

/-- The fields of a schema and the faults among their types. -/
def ownFields (names : Names) (state : SchemaFields)
    (declaration : SchemaDeclaration) :
    List (String × Ty) × List Fault :=
  declaredFields names (typeVariables state.nextVariable declaration.parameters)
    (state.inherited declaration)
    declaration.fields

/-- A schema is completed with its own fields and their faults. -/
theorem complete_eq (names : Names) (state : SchemaFields)
    (declaration : SchemaDeclaration) :
    state.complete names declaration =
      { completed :=
          state.completed ++
            [(declaration.name,
              { name := declaration.name
                parameters := declaration.parameters
                fields := (state.ownFields names declaration).1 })]
        faults := state.faults ++ (state.ownFields names declaration).2
        nextVariable :=
  state.nextVariable + declaration.parameters.length } := rfl

/-- Completing a schema adds it and takes none away. -/
theorem holds_complete_iff {names : Names} {state : SchemaFields}
    {declaration : SchemaDeclaration} {name : String} :
    (state.complete names declaration).Holds name ↔
      state.Holds name ∨ name = declaration.name := by
  rw [complete_eq, Holds, Holds, lookup_concat, Option.isSome_or,
    Bool.or_eq_true]
  by_cases same : name = declaration.name <;> simp [same]

/--
The schemas of a list were completed one by one, each after its parent where
that is possible.
-/
inductive Built (names : Names) (declarations : List SchemaDeclaration) :
    SchemaFields → Prop where
  | start : Built names declarations {}
  | complete {state : SchemaFields} {declaration : SchemaDeclaration}
      (before : Built names declarations state)
      (member : declaration ∈ declarations)
      (fresh : ¬ state.Holds declaration.name)
      (ready : ∀ parent, declaration.parent = some parent →
        state.Holds parent.value ∨
          (∀ other ∈ declarations, other.name ≠ parent.value) ∨
          Relation.TransGen (Inherits (· ∈ declarations)) parent.value
            parent.value) :
      Built names declarations (state.complete names declaration)

variable {names : Names} {declarations : List SchemaDeclaration}

theorem settle_of_holds {unbegun : List SchemaDeclaration} {name : String}
    {state : SchemaFields} (holds : state.Holds name) :
    settle names unbegun name state = state := by
  rw [settle]
  exact if_pos holds

theorem settle_of_not_found {unbegun : List SchemaDeclaration} {name : String}
    {state : SchemaFields}
    (missing : unbegun.find? (fun declaration => declaration.name == name) =
      none) :
    settle names unbegun name state = state := by
  rw [settle]
  split
  · rfl
  · split
    · rfl
    · next found =>
        rw [missing] at found
        contradiction

/-- A schema that is not complete is completed after its parent. -/
theorem settle_of_found {unbegun : List SchemaDeclaration} {name : String}
    {state : SchemaFields} {declaration : SchemaDeclaration}
    (absent : ¬ state.Holds name)
    (found : unbegun.find? (fun declaration => declaration.name == name) =
      some declaration) :
    settle names unbegun name state =
      (match declaration.parent with
        | none => state
        | some parent =>
            settle names (without SchemaDeclaration.name unbegun name)
              parent.value state).complete names declaration := by
  rw [settle]
  refine (if_neg absent).trans ?_
  split
  · next missing =>
      rw [found] at missing
      contradiction
  · next other found' =>
      rw [found] at found'
      cases found'
      cases declaration.parent <;> rfl

/-! ## Settling schemas -/

/--
The schema of a name is complete, or there is nothing to wait for: it is not
declared, or it is its own ancestor.
-/
def Ready (declarations : List SchemaDeclaration) (state : SchemaFields)
    (name : String) : Prop :=
  state.Holds name ∨ (∀ other ∈ declarations, other.name ≠ name) ∨
    Relation.TransGen (Inherits (· ∈ declarations)) name name

/--
While the schema of a name is being settled, a declared schema is complete, not
begun, or in hand.  The ancestors of one in hand lead to the schema that is
being settled.
-/
def Covered (declarations unbegun : List SchemaDeclaration)
    (state : SchemaFields) (name : String) : Prop :=
  ∀ declaration ∈ declarations, state.Holds declaration.name ∨
    declaration ∈ unbegun ∨
    Relation.TransGen (Inherits (· ∈ declarations)) declaration.name name

/-- One state leads to another by completing schemas that were not begun. -/
structure Advances (names : Names)
    (declarations unbegun : List SchemaDeclaration)
    (before after : SchemaFields) :
    Prop where
  built : Built names declarations after
  kept : ∀ name, before.Holds name → after.Holds name
  added : ∀ name, after.Holds name →
    before.Holds name ∨ ∃ declaration ∈ unbegun, declaration.name = name

section

variable {unbegun : List SchemaDeclaration} {state before after : SchemaFields}
  {declaration : SchemaDeclaration}
  {name parent : String}

/--
What is covered at a schema is covered at its parent, with one declaration less
to begin.
-/
theorem Covered.up (covered : Covered declarations unbegun state name)
    (step : Inherits (· ∈ declarations) name parent) :
    Covered declarations (without SchemaDeclaration.name unbegun name) state
      parent := by
  intro other member
  rcases covered other member with isComplete | isUnbegun | inHand
  · exact .inl isComplete
  · by_cases same : other.name = name
    · exact .inr (.inr (same ▸ .single step))
    · exact .inr (.inl (mem_without_iff.mpr ⟨isUnbegun, same⟩))
  · exact .inr (.inr (inHand.tail step))

theorem Covered.ready (covered : Covered declarations unbegun state name)
    (missing : unbegun.find? (fun declaration => declaration.name == name) =
      none) :
    Ready declarations state name := by
  by_cases declared : ∃ other ∈ declarations, other.name = name
  · rcases declared with ⟨other, member, rfl⟩
    rcases covered other member with isComplete | isUnbegun | inHand
    · exact .inl isComplete
    · have absent := List.find?_eq_none.mp missing other isUnbegun
      simp at absent
    · exact .inr (.inr inHand)
  · exact .inr (.inl fun other member same => declared ⟨other, member, same⟩)

theorem Advances.refl (built : Built names declarations state) :
    Advances names declarations unbegun state state :=
  ⟨built, fun _ holds => holds, fun _ holds => .inl holds⟩

/-- A schema is completed once its parent is ready. -/
theorem Advances.complete
    (advances : Advances names declarations
      (without SchemaDeclaration.name unbegun declaration.name) before after)
    (member : declaration ∈ declarations) (begun : declaration ∈ unbegun)
    (absent : ¬ before.Holds declaration.name)
    (ready : ∀ parent, declaration.parent = some parent →
      Ready declarations after parent.value) :
    Advances names declarations unbegun before
      (after.complete names declaration) where
  built := by
    apply Built.complete advances.built member _ ready
    intro holds
    rcases advances.added _ holds with older | ⟨other, unbegunOther, same⟩
    · exact absent older
    · exact (mem_without_iff.mp unbegunOther).2 same
  kept :=
    fun name holds => holds_complete_iff.mpr (.inl (advances.kept name holds))
  added := by
    intro name holds
    rcases holds_complete_iff.mp holds with older | rfl
    · rcases advances.added name older with oldest | ⟨other, unbegunOther, same⟩
      · exact .inl oldest
      · exact .inr ⟨other, (mem_without_iff.mp unbegunOther).1, same⟩
    · exact .inr ⟨declaration, begun, rfl⟩

end

/--
Settling a schema completes it with its ancestors, unless there is nothing to
complete.
-/
theorem advances_settle (unbegun : List SchemaDeclaration)
    (included : ∀ declaration ∈ unbegun, declaration ∈ declarations)
    (name : String) {state : SchemaFields}
    (built : Built names declarations state)
    (covered : Covered declarations unbegun state name) :
    Advances names declarations unbegun state
      (settle names unbegun name state) ∧
      Ready declarations (settle names unbegun name state) name := by
  -- The induction is on the schemas that were not begun, of which each parent
  -- that is followed takes one.
  induction size : unbegun.length using Nat.strongRecOn
    generalizing unbegun name with
  | ind size ih =>
      by_cases holds : state.Holds name
      · rw [settle_of_holds holds]
        exact ⟨.refl built, .inl holds⟩
      · cases found : unbegun.find?
          (fun declaration => declaration.name == name) with
        | none =>
            rw [settle_of_not_found found]
            exact ⟨.refl built, covered.ready found⟩
        | some declaration =>
            have begun : declaration ∈ unbegun :=
              List.mem_of_find?_eq_some found
            have member := included declaration begun
            have named : declaration.name = name := by
              simpa using List.find?_some found
            subst named
            rw [settle_of_found holds found]
            refine ⟨?_, .inl (holds_complete_iff.mpr (.inr rfl))⟩
            cases written : declaration.parent with
            | none =>
                exact (Advances.refl built).complete member begun holds
                  (by simp [written])
            | some parent =>
                have step : Inherits (· ∈ declarations) declaration.name
                    parent.value :=
                  ⟨declaration, parent, member, rfl, written, rfl⟩
                rcases ih _ (size ▸ length_without_lt found) _
                    (fun other kept =>
                      included other (mem_without_iff.mp kept).1) parent.value
                    (covered.up step) rfl with ⟨advances, ready⟩
                apply advances.complete member begun holds
                intro other otherWritten
                rw [written] at otherWritten
                cases otherWritten
                exact ready

/-- A declared schema is complete after its turn. -/
theorem holds_settle_of_mem {unbegun : List SchemaDeclaration}
    {declaration : SchemaDeclaration} (member : declaration ∈ unbegun)
    (state : SchemaFields) :
    (settle names unbegun declaration.name state).Holds declaration.name := by
  by_cases holds : state.Holds declaration.name
  · rw [settle_of_holds holds]
    exact holds
  · cases found : unbegun.find?
      (fun candidate => candidate.name == declaration.name) with
    | none =>
        have missing := List.find?_eq_none.mp found declaration member
        simp at missing
    | some other =>
        have named : other.name = declaration.name := by
          simpa using List.find?_some found
        rw [settle_of_found holds found]
        exact holds_complete_iff.mpr (.inr named.symm)

/-- Schemas are built turn by turn. -/
theorem built_foldl_settle {turns : List SchemaDeclaration}
    {state : SchemaFields}
    (included : ∀ declaration ∈ turns, declaration ∈ declarations)
    (built : Built names declarations state) :
    Built names declarations
        (turns.foldl (fun state declaration =>
          settle names declarations declaration.name state) state) ∧
      ∀ name, state.Holds name ∨
        (∃ declaration ∈ turns, declaration.name = name) →
        (turns.foldl (fun state declaration =>
          settle names declarations declaration.name state) state).Holds
          name := by
  induction turns generalizing state with
  | nil => exact ⟨built, fun name known => by simpa using known⟩
  | cons declaration rest ih =>
      rw [List.forall_mem_cons] at included
      have advances :=
        (advances_settle declarations (fun _ found => found) declaration.name
          built
          fun other found => .inr (.inl found)).1
      rcases ih included.2 advances.built with ⟨finalBuilt, final⟩
      refine ⟨finalBuilt, ?_⟩
      intro name known
      apply final
      rcases known with isComplete | ⟨other, found, rfl⟩
      · exact .inl (advances.kept name isComplete)
      · rcases List.mem_cons.mp found with rfl | later
        · exact .inl (holds_settle_of_mem included.1 state)
        · exact .inr ⟨other, later, rfl⟩

/-- Every declared schema is completed, in an order that follows the parents. -/
theorem built_ofDeclarations (names : Names)
    (declarations : List SchemaDeclaration) :
    Built names declarations (ofDeclarations names declarations) ∧
      ∀ declaration ∈ declarations,
        (ofDeclarations names declarations).Holds declaration.name := by
  rcases @built_foldl_settle names declarations declarations {}
    (fun _ member => member) .start with ⟨built, final⟩
  exact ⟨built,
    fun declaration member => final _ (.inr ⟨declaration, member, rfl⟩)⟩

/-- A complete schema has the name and the parameters of its declaration. -/
theorem Built.declared {state : SchemaFields}
    (built : Built names declarations state) {name : String} {schema : Schema}
    (found : state.completed.lookup name = some schema) :
    ∃ declaration ∈ declarations, declaration.name = name ∧
      schema =
        { name := declaration.name, parameters := declaration.parameters,
          fields := schema.fields } := by
  induction built with
  | start => simp at found
  | @complete state declaration _ member fresh _ ih =>
      rw [complete_eq, lookup_concat, Option.or_eq_some_iff] at found
      rcases found with older | ⟨-, newest⟩
      · exact ih older
      · split at newest
        · next same =>
            cases newest
            exact ⟨declaration, member, same.symm, rfl⟩
        · contradiction

/-! ## What completion sees of the names -/

section

variable {others : Names}

theorem declaredFields_congr (same : names.SameTypes others)
    (parameters fields : List (String × Ty))
    (declared : List FieldDeclaration) :
    declaredFields names parameters fields declared =
      declaredFields others parameters fields declared := by
  induction declared generalizing fields with
  | nil => rfl
  | cons declaration rest ih => simp only [declaredFields, same.resolve, ih]

theorem complete_congr (same : names.SameTypes others) (state : SchemaFields)
    (declaration : SchemaDeclaration) :
    state.complete names declaration = state.complete others declaration := by
  rw [complete_eq, complete_eq, ownFields, ownFields, declaredFields_congr same]

/-- Schemas are settled alike where names stand for the same types. -/
theorem settle_congr (same : names.SameTypes others)
    (unbegun : List SchemaDeclaration) (name : String) (state : SchemaFields) :
    settle names unbegun name state = settle others unbegun name state := by
  induction size : unbegun.length using Nat.strongRecOn
    generalizing unbegun name with
  | ind size ih =>
      by_cases holds : state.Holds name
      · rw [settle_of_holds holds, settle_of_holds holds]
      · cases found : unbegun.find?
          (fun declaration => declaration.name == name) with
        | none => rw [settle_of_not_found found, settle_of_not_found found]
        | some declaration =>
            rw [settle_of_found holds found, settle_of_found holds found,
              complete_congr same]
            cases declaration.parent with
            | none => rfl
            | some parent =>
                simp only
                rw [ih _ (size ▸ length_without_lt found) _ _ rfl]

theorem ofDeclarations_congr (same : names.SameTypes others)
    (declarations : List SchemaDeclaration) :
    ofDeclarations names declarations = ofDeclarations others declarations := by
  unfold ofDeclarations
  congr 1
  funext state declaration
  exact settle_congr same declarations declaration.name state

end

end SchemaFields

end SchemaMap
