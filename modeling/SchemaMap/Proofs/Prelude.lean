import Mathlib.Data.List.Forall2
import Mathlib.Data.List.Nodup
import Mathlib.Logic.Relation
import SchemaMap.Dictionary

/-!
# Preliminaries

Facts about data that the analysis uses everywhere.  Where the keys of a list
are distinct, a member is found under its key.  A dictionary that is made of a
list holds keys and values of the list.  A sequence of steps succeeds when each
of them does.  A text is read one letter after the other.  What can be unfolded
to the end does not lead back to itself.
-/

namespace SchemaMap

section Keys

variable {α β κ : Type} [BEq κ] [LawfulBEq κ]

/--
Where the keys are distinct a member is found under its key, and nothing else
is.
-/
theorem find?_key_eq_some_iff {key : α → κ} {members : List α}
    (distinct : (members.map key).Nodup) {wanted : κ} {member : α} :
    members.find? (fun candidate => key candidate == wanted) = some member ↔
      member ∈ members ∧ key member = wanted := by
  constructor
  · intro found
    exact ⟨List.mem_of_find?_eq_some found,
      by simpa using List.find?_some found⟩
  · rintro ⟨present, rfl⟩
    cases found : members.find?
      (fun candidate => key candidate == key member) with
    | none =>
        have absent := List.find?_eq_none.mp found member present
        simp at absent
    | some other =>
        have sameKey : key other = key member := by
          simpa using List.find?_some found
        exact congrArg some
          (List.inj_on_of_nodup_map distinct (List.mem_of_find?_eq_some found)
            present sameKey)

theorem mem_of_lookup_eq_some {pairs : List (κ × β)} {wanted : κ} {value : β}
    (found : pairs.lookup wanted = some value) : (wanted, value) ∈ pairs := by
  rcases List.lookup_eq_some_iff.mp found with ⟨before, after, split, -⟩
  simp [split]

theorem lookup_isSome_iff {pairs : List (κ × β)} {wanted : κ} :
    (pairs.lookup wanted).isSome ↔ wanted ∈ pairs.map Prod.fst := by
  rw [List.lookup_isSome_iff, List.mem_map]
  exact exists_congr fun pair =>
    and_congr_right fun _ => beq_iff_eq.trans eq_comm

theorem lookup_cons_eq (name wanted : String) (value : β)
    (rest : List (String × β)) :
    List.lookup wanted ((name, value) :: rest) = if name = wanted then
      some value else rest.lookup wanted := by
  by_cases same : name = wanted
  · simp [same]
  · have apart : (wanted == name) = false := by simpa using Ne.symm same
    simp [List.lookup_cons, apart, same]

/-- A pair at the end is found unless an earlier one has its key. -/
theorem lookup_concat (pairs : List (String × β)) (name other : String)
    (value : β) :
    List.lookup other (pairs ++ [(name, value)]) =
      (pairs.lookup other).or (if other = name then some value else none) := by
  rw [List.lookup_append]
  by_cases same : other = name
  · simp [same]
  · have apart : (other == name) = false := by simpa using same
    simp [List.lookup_cons, apart, same]

end Keys

namespace Dictionary

variable {κ ν : Type} [Ord κ] [Std.LawfulEqOrd κ] [Std.TransOrd κ]

theorem isSome_get?_foldl_insert (entries : List (κ × ν))
    (dictionary : Dictionary κ ν) (key : κ) :
    ((entries.foldl (fun known entry => known.insert entry.1 entry.2)
      dictionary).get? key).isSome ↔
      key ∈ entries.map Prod.fst ∨ (dictionary.get? key).isSome := by
  induction entries generalizing dictionary with
  | nil => simp
  | cons entry rest ih =>
      rw [List.foldl_cons, ih, List.map_cons, List.mem_cons]
      by_cases same : key = entry.1
      · rw [same, get?_insert_self]
        simp
      · rw [get?_insert_of_ne same]
        simp [same]

/-- The keys of the dictionary of a list are those of the list. -/
theorem get?_ofList_eq_none_iff {entries : List (κ × ν)} {key : κ} :
    (ofList entries).get? key = none ↔ key ∉ entries.map Prod.fst := by
  rw [← Option.not_isSome_iff_eq_none, ofList, isSome_get?_foldl_insert,
    get?_empty, Option.isSome_none]
  simp

/-- What a dictionary of a list holds is in the list. -/
theorem mem_of_get?_ofList {entries : List (κ × ν)} {key : κ} {value : ν}
    (found : (ofList entries).get? key = some value) :
    (key, value) ∈ entries := by
  refine List.foldlRecOn
    (motive := fun dictionary : Dictionary κ ν => ∀ key value,
    dictionary.get? key = some value → (key, value) ∈ entries) entries _
    (fun key value found => by simp at found) ?_ key value found
  intro dictionary kept entry member key value found
  by_cases same : key = entry.1
  · rw [same, get?_insert_self, Option.some.injEq] at found
    rwa [same, ← found]
  · rw [get?_insert_of_ne same] at found
    exact kept key value found

theorem get?_foldl_insert_of_not_mem {entries : List (κ × ν)} {key : κ}
    (absent : key ∉ entries.map Prod.fst) (dictionary : Dictionary κ ν) :
    (entries.foldl (fun known entry => known.insert entry.1 entry.2)
      dictionary).get? key = dictionary.get? key := by
  induction entries generalizing dictionary with
  | nil => rfl
  | cons entry rest ih =>
      rw [List.map_cons, List.mem_cons, not_or] at absent
      rw [List.foldl_cons, ih absent.2, get?_insert_of_ne absent.1]

/-- Where no key occurs twice, the dictionary of a list holds its entries. -/
theorem get?_ofList_eq_some_iff {entries : List (κ × ν)}
    (distinct : (entries.map Prod.fst).Nodup) {key : κ} {value : ν} :
    (ofList entries).get? key = some value ↔ (key, value) ∈ entries := by
  refine ⟨mem_of_get?_ofList, fun member => ?_⟩
  rcases List.append_of_mem member with ⟨before, after, rfl⟩
  have last : key ∉ after.map Prod.fst := by
    rw [List.map_append, List.map_cons] at distinct
    exact (List.nodup_cons.mp distinct.of_append_right).1
  rw [ofList, List.foldl_append, List.foldl_cons,
    get?_foldl_insert_of_not_mem last, get?_insert_self]

end Dictionary

/-- A changed value is found where the value was found. -/
theorem lookup_map_snd {β γ κ : Type} [BEq κ] (pairs : List (κ × β))
    (change : β → γ) (wanted : κ) :
    (pairs.map (Prod.map id change)).lookup wanted =
      (pairs.lookup wanted).map change := by
  induction pairs with
  | nil => rfl
  | cons pair rest ih =>
      rcases pair with ⟨key, value⟩
      simp only [List.map_cons, Prod.map_apply, id_eq, List.lookup_cons, ih]
      cases wanted == key <;> rfl

/--
Entries that carry the keys of some members are these keys, paired with values.
-/
theorem forall₂_key_iff {α β κ : Type} {key : α → κ} {relation : α → β → Prop}
    {members : List α} {entries : List (κ × β)} :
    List.Forall₂ (fun member entry =>
      entry.1 = key member ∧ relation member entry.2) members entries ↔
      ∃ values, List.Forall₂ relation members values ∧
        (members.map key).zip values = entries := by
  induction members generalizing entries with
  | nil =>
      constructor
      · rintro ⟨⟩
        exact ⟨[], .nil, rfl⟩
      · rintro ⟨_, ⟨⟩, rfl⟩
        exact .nil
  | cons member rest ih =>
      constructor
      · intro each
        cases each with
        | @cons _ entry _ others first further =>
            rcases ih.mp further with ⟨values, related, rfl⟩
            refine ⟨entry.2 :: values, .cons first.2 related, ?_⟩
            rw [List.map_cons, List.zip_cons_cons, ← first.1]
      · rintro ⟨_, related, rfl⟩
        cases related with
        | cons first further =>
            exact .cons ⟨rfl, first⟩ (ih.mpr ⟨_, further, rfl⟩)

section Related

variable {α β κ : Type} {relation : α → β → Prop} {lefts : List α}
  {rights : List β}

/-- Every member on the left has a partner on the right. -/
theorem exists_of_mem_left (related : List.Forall₂ relation lefts rights)
    {left : α} (member : left ∈ lefts) :
    ∃ right ∈ rights, relation left right := by
  induction related with
  | nil => contradiction
  | @cons _ right _ _ first _ ih =>
      rcases List.mem_cons.mp member with rfl | later
      · exact ⟨right, List.mem_cons_self, first⟩
      · rcases ih later with ⟨other, listed, holds⟩
        exact ⟨other, List.mem_cons_of_mem _ listed, holds⟩

theorem exists_of_mem_right (related : List.Forall₂ relation lefts rights)
    {right : β} (member : right ∈ rights) :
    ∃ left ∈ lefts, relation left right :=
  exists_of_mem_left related.flip member

/-- Related members stand under the same keys. -/
theorem exists_mem_zip_of_forall₂ (each : List.Forall₂ relation lefts rights)
    {keys : List κ} {key : κ} {left : α}
    (member : (key, left) ∈ keys.zip lefts) :
    ∃ right, (key, right) ∈ keys.zip rights ∧ relation left right := by
  induction each generalizing keys with
  | nil => simp at member
  | @cons _ other _ _ related _ ih =>
      cases keys with
      | nil => contradiction
      | cons here rest =>
          rw [List.zip_cons_cons, List.mem_cons] at member
          rcases member with ⟨⟨⟩⟩ | later
          · exact ⟨other, List.mem_cons_self, related⟩
          · rcases ih later with ⟨right, found, holds⟩
            exact ⟨right, List.mem_cons_of_mem _ found, holds⟩

/--
A member of the first part of a list may be replaced by one that is related as
it was.
-/
theorem exists_forall₂_modify (each : List.Forall₂ relation lefts rights)
    (rest : List α) {id : Nat} {partner : β}
    (found : rights[id]? = some partner) (change : α → α)
    (kept : ∀ value, relation value partner → relation (change value) partner) :
    ∃ next, (lefts ++ rest).modify id change = next ++ rest ∧
      List.Forall₂ relation next rights := by
  induction each generalizing id with
  | nil => contradiction
  | @cons value other lefts rights first later ih =>
      cases id with
      | zero =>
          cases found
          exact ⟨change value :: lefts, rfl, .cons (kept value first) later⟩
      | succ id =>
          rcases ih found with ⟨next, split, related⟩
          exact ⟨value :: next, congrArg (value :: ·) split,
            .cons first related⟩

end Related

/-- Related values can be chosen for all members when they can for each. -/
theorem exists_forall₂_iff {α β : Type} {relation : α → β → Prop}
    {members : List α} :
    (∃ values, List.Forall₂ relation members values) ↔
      ∀ member ∈ members, ∃ value, relation member value := by
  induction members with
  | nil =>
      constructor
      · simp
      · intro _
        exact ⟨[], .nil⟩
  | cons member rest ih =>
      rw [List.forall_mem_cons, ← ih]
      constructor
      · rintro ⟨_, related⟩
        cases related with
        | cons first further => exact ⟨⟨_, first⟩, _, further⟩
      · rintro ⟨⟨value, first⟩, values, further⟩
        exact ⟨value :: values, .cons first further⟩

section Outcomes

variable {ε α β : Type}

theorem bind_eq_ok_iff {outcome : Except ε α} {next : α → Except ε β}
    {result : β} :
    outcome >>= next = .ok result ↔
      ∃ value, outcome = .ok value ∧ next value = .ok result := by
  cases outcome <;> simp [bind, Except.bind]

theorem map_eq_ok_iff {outcome : Except ε α} {change : α → β} {result : β} :
    outcome.map change = .ok result ↔
      ∃ value, outcome = .ok value ∧ change value = result := by
  cases outcome <;> simp [Except.map]

theorem toOption_eq_some_iff {outcome : Except ε α} {result : α} :
    outcome.toOption = some result ↔ outcome = .ok result := by
  cases outcome <;> simp [Except.toOption]

theorem exists_eq_ok_of_any {outcome : Except ε α} {test : α → Bool}
    (passed : outcome.toOption.any test = true) :
    ∃ value, outcome = .ok value ∧ test value = true := by
  rcases (Option.any_eq_true _ _).mp passed with ⟨value, found, holds⟩
  exact ⟨value, toOption_eq_some_iff.mp found, holds⟩

end Outcomes

section Computations

variable {m : Type → Type} [Monad m] [LawfulMonad m] {ε σ α β : Type}

theorem run_get_bind (next : σ → ExceptT ε (StateT σ m) α) (state : σ) :
    (get >>= next).run state = (next state).run state := by
  change (pure (state, state) >>=
    fun result : σ × σ => (pure (Except.ok result.1, result.2) : m _)) >>=
    (fun result => ExceptT.bindCont next result.1 result.2) = _
  rw [pure_bind, pure_bind]
  rfl

/-- Changing the state goes on with the changed state. -/
theorem run_modify_bind (change : σ → σ)
    (next : PUnit → ExceptT ε (StateT σ m) α) (state : σ) :
    (modify change >>= next).run state = (next ⟨⟩).run (change state) := by
  change (pure (PUnit.unit, change state) >>=
    fun result : PUnit × σ => (pure (Except.ok result.1, result.2) : m _)) >>=
    (fun result => ExceptT.bindCont next result.1 result.2) = _
  rw [pure_bind, pure_bind]
  rfl

/-- A computation that cannot fail goes on with its result. -/
theorem run_lift_bind (computation : StateT σ m α)
    (next : α → ExceptT ε (StateT σ m) β) (state : σ) :
    (ExceptT.lift computation >>= next).run state =
      computation state >>= fun result => (next result.1).run result.2 := by
  change (computation state >>=
    fun result : α × σ => (pure (Except.ok result.1, result.2) : m _)) >>=
    (fun result => ExceptT.bindCont next result.1 result.2) = _
  rw [bind_assoc]
  simp only [pure_bind]
  rfl

end Computations

/--
What is put together from letters, one after the other, is put together from all
of them.
-/
theorem foldl_eq_of_concat {α β : Type} {extend : β → α → β} (make : List α → β)
    (step : ∀ letters letter,
      extend (make letters) letter = make (letters ++ [letter]))
    (letters start : List α) :
    letters.foldl extend (make start) = make (start ++ letters) := by
  induction letters generalizing start with
  | nil => rw [List.foldl_nil, List.append_nil]
  | cons letter rest ih =>
      rw [List.foldl_cons, step, ih, List.append_assoc, List.singleton_append]

namespace Text

variable {σ π : Type} {step : σ → Char → σ}

/-- The state after a text, of which one letter is read after the other. -/
def scan (step : σ → Char → σ) (text : String) (state : σ) : σ :=
  text.toList.foldl step state

/-- Two texts are read one after the other. -/
theorem scan_append (first second : String) (state : σ) :
    scan step (first ++ second) state =
      scan step second (scan step first state) := by
  rw [scan, String.toList_append, List.foldl_append]
  rfl

/-- Letters that change only a part of the state are read into this part. -/
theorem scan_eq_of_forall_mem (make : π → σ) {extend : π → Char → π}
    {text : String}
    (each : ∀ letter ∈ text.toList,
      ∀ part, step (make part) letter = make (extend part letter))
    (part : π) :
    scan step text (make part) = make (text.toList.foldl extend part) := by
  unfold scan
  generalize text.toList = letters at each ⊢
  induction letters generalizing part with
  | nil => rfl
  | cons letter rest ih =>
      rw [List.forall_mem_cons] at each
      rw [List.foldl_cons, List.foldl_cons, each.1]
      exact ih _ each.2

end Text

/-- What is accessible through a relation does not lead back to itself. -/
theorem not_transGen_self_of_acc {α : Type} {relation : α → α → Prop}
    {start : α} (accessible : Acc (Function.swap relation) start) :
    ¬ Relation.TransGen relation start start := by
  induction accessible with
  | intro start _ ih =>
      intro cycle
      rcases Relation.TransGen.head'_iff.mp cycle with ⟨next, step, back⟩
      exact ih next step (Relation.TransGen.tail' back step)

end SchemaMap
