/-!
# Dictionaries

A dictionary is a finite map kept as its list of entries in increasing order of
the keys.  Insertion replaces the entry of an equal key.  The order is part of
the type, so two dictionaries with the same look-ups are equal
(`Dictionary.ext_get?`).
-/

namespace SchemaMap

/-- Entries stand in strictly increasing order of their keys. -/
def Ascending {κ ν : Type} [Ord κ] (entries : List (κ × ν)) : Prop :=
  entries.Pairwise (fun earlier later => compare earlier.1 later.1 = .lt)

namespace Ascending

variable {κ ν : Type} [Ord κ]

/-- Put an entry in its place, replacing the entry of an equal key. -/
def insert (key : κ) (value : ν) : List (κ × ν) → List (κ × ν)
  | [] => [(key, value)]
  | (found, content) :: rest =>
      match compare key found with
      | .lt => (key, value) :: (found, content) :: rest
      | .eq => (key, value) :: rest
      | .gt => (found, content) :: insert key value rest

/-- The value of the first entry whose key is equal. -/
def get? (key : κ) : List (κ × ν) → Option ν
  | [] => none
  | (found, content) :: rest =>
      if compare key found = .eq then some content else get? key rest

/-- The entries whose key differs. -/
def erase (key : κ) (entries : List (κ × ν)) : List (κ × ν) :=
  entries.filter (fun entry => compare key entry.1 != .eq)

/--
An entry after an insertion is the one that was inserted or was there before.
-/
theorem mem_insert {key : κ} {value : ν} {entry : κ × ν}
    {entries : List (κ × ν)} (member : entry ∈ insert key value entries) :
    entry = (key, value) ∨ entry ∈ entries := by
  induction entries with
  | nil => simpa [insert] using member
  | cons head rest ih =>
      obtain ⟨found, content⟩ := head
      unfold insert at member
      split at member
      · simpa using member
      · simp only [List.mem_cons] at member ⊢
        rcases member with same | old
        · exact Or.inl same
        · exact Or.inr (Or.inr old)
      · simp only [List.mem_cons] at member ⊢
        rcases member with same | deeper
        · exact Or.inr (Or.inl same)
        · rcases ih deeper with same | old
          · exact Or.inl same
          · exact Or.inr (Or.inr old)

/-- Taking an entry away keeps the order. -/
theorem of_erase {key : κ} {entries : List (κ × ν)}
    (ascending : Ascending entries) :
    Ascending (erase key entries) :=
  List.Pairwise.sublist List.filter_sublist ascending

/-- A key that was taken away is not found. -/
theorem get?_erase_self (key : κ) (entries : List (κ × ν)) :
    get? key (erase key entries) = none := by
  induction entries with
  | nil => rfl
  | cons head rest ih =>
      obtain ⟨found, content⟩ := head
      unfold erase at ih ⊢
      by_cases same : compare key found = .eq
      · simpa [same] using ih
      · simpa [same, get?] using ih

theorem get?_eq_none_of_below {key : κ} {entries : List (κ × ν)}
    (below : ∀ entry ∈ entries, compare key entry.1 = .lt) :
    get? key entries = none := by
  induction entries with
  | nil => rfl
  | cons head rest ih =>
      obtain ⟨found, content⟩ := head
      have first : compare key found = .lt :=
        below (found, content) (List.mem_cons_self ..)
      have later :=
        ih (fun entry member => below entry (List.mem_cons_of_mem _ member))
      simp [get?, first, later]

variable [Std.LawfulEqOrd κ]

theorem get?_insert_self (key : κ) (value : ν) (entries : List (κ × ν)) :
    get? key (insert key value entries) = some value := by
  induction entries with
  | nil => simp [insert, get?]
  | cons head rest ih =>
      obtain ⟨found, content⟩ := head
      unfold insert
      split
      · simp [get?]
      · simp [get?]
      · next greater => simp [get?, greater, ih]

/-- An insertion does not change what stands under other keys. -/
theorem get?_insert_of_ne {key other : κ} (different : other ≠ key) (value : ν)
    (entries : List (κ × ν)) :
    get? other (insert key value entries) = get? other entries := by
  have apart : compare other key ≠ .eq :=
    fun same => different (Std.LawfulEqCmp.eq_of_compare same)
  induction entries with
  | nil => simp [insert, get?, apart]
  | cons head rest ih =>
      obtain ⟨found, content⟩ := head
      unfold insert
      split
      · simp [get?, apart]
      · next same =>
          have equality : key = found := Std.LawfulEqCmp.eq_of_compare same
          subst equality
          simp [get?, apart]
      · simp [get?, ih]

theorem get?_erase_of_ne {key other : κ} (different : other ≠ key)
    (entries : List (κ × ν)) :
    get? other (erase key entries) = get? other entries := by
  have apart : compare other key ≠ .eq :=
    fun same => different (Std.LawfulEqCmp.eq_of_compare same)
  induction entries with
  | nil => rfl
  | cons head rest ih =>
      obtain ⟨found, content⟩ := head
      unfold erase at ih ⊢
      by_cases same : compare key found = .eq
      · have equality : key = found := Std.LawfulEqCmp.eq_of_compare same
        subst equality
        simpa [get?, apart] using ih
      · by_cases hit : compare other found = .eq
        · simp [same, get?, hit]
        · simpa [same, get?, hit] using ih

/-- In an ordered list a key is found with the values that stand beside it. -/
theorem get?_eq_some_iff {key : κ} {value : ν} {entries : List (κ × ν)}
    (ascending : Ascending entries) :
    get? key entries = some value ↔ (key, value) ∈ entries := by
  induction entries with
  | nil => simp [get?]
  | cons head rest ih =>
      obtain ⟨found, content⟩ := head
      have above : ∀ entry ∈ rest, compare found entry.1 = .lt :=
        (List.pairwise_cons.mp ascending).1
      have tail : Ascending rest := (List.pairwise_cons.mp ascending).2
      by_cases same : compare key found = .eq
      · have equality : key = found := Std.LawfulEqCmp.eq_of_compare same
        subst equality
        have absent : (key, value) ∉ rest := by
          intro member
          have less := above (key, value) member
          simp at less
        simp only [get?, same, if_true, Option.some.injEq, List.mem_cons,
          Prod.mk.injEq, true_and, absent, or_false]
        exact eq_comm
      · have different : key ≠ found := by
          intro equality
          subst equality
          exact same Std.ReflCmp.compare_self
        simp [get?, same, ih tail, different]

variable [Std.TransOrd κ]

/-- An insertion keeps the order. -/
theorem of_insert {key : κ} {value : ν} {entries : List (κ × ν)}
    (ascending : Ascending entries) :
    Ascending (insert key value entries) := by
  induction entries with
  | nil => simp [insert, Ascending]
  | cons head rest ih =>
      obtain ⟨found, content⟩ := head
      have above : ∀ entry ∈ rest, compare found entry.1 = .lt :=
        (List.pairwise_cons.mp ascending).1
      have tail : Ascending rest := (List.pairwise_cons.mp ascending).2
      unfold insert
      split
      · next less =>
          refine List.pairwise_cons.mpr ⟨?_, ascending⟩
          intro entry member
          rcases List.mem_cons.mp member with same | old
          · subst same
            exact less
          · exact Std.TransCmp.lt_trans less (above entry old)
      · next same =>
          have equality : key = found := Std.LawfulEqCmp.eq_of_compare same
          subst equality
          exact List.pairwise_cons.mpr ⟨above, tail⟩
      · next greater =>
          refine List.pairwise_cons.mpr ⟨?_, ih tail⟩
          intro entry member
          rcases mem_insert member with same | old
          · subst same
            exact Std.OrientedCmp.lt_of_gt greater
          · exact above entry old

/-- Entries in order are determined by their look-ups. -/
theorem ext_get? {left right : List (κ × ν)}
    (leftAscending : Ascending left) (rightAscending : Ascending right)
    (agree : ∀ key, get? key left = get? key right) :
    left = right := by
  induction left generalizing right with
  | nil =>
      cases right with
      | nil => rfl
      | cons head rest =>
          have found := agree head.1
          simp [get?] at found
  | cons leftHead leftRest ih =>
      cases right with
      | nil =>
          have found := agree leftHead.1
          simp [get?] at found
      | cons rightHead rightRest =>
          obtain ⟨leftKey, leftValue⟩ := leftHead
          obtain ⟨rightKey, rightValue⟩ := rightHead
          have leftAbove : ∀ entry ∈ leftRest, compare leftKey entry.1 = .lt :=
            (List.pairwise_cons.mp leftAscending).1
          have rightAbove : ∀ entry ∈ rightRest,
              compare rightKey entry.1 = .lt :=
            (List.pairwise_cons.mp rightAscending).1
          have leftTail : Ascending leftRest :=
            (List.pairwise_cons.mp leftAscending).2
          have rightTail : Ascending rightRest :=
            (List.pairwise_cons.mp rightAscending).2
          have sameKey : leftKey = rightKey := by
            have first := agree leftKey
            have second := agree rightKey
            have notLess : ∀ {a b : κ} {v : ν} {rest : List (κ × ν)},
                compare a b = .lt → (∀ entry ∈ rest, compare b entry.1 = .lt) →
                get? a ((b, v) :: rest) = none := by
              intro a b v rest less above
              refine get?_eq_none_of_below ?_
              intro entry member
              rcases List.mem_cons.mp member with same | old
              · subst same
                exact less
              · exact Std.TransCmp.lt_trans less (above entry old)
            cases order : compare leftKey rightKey with
            | lt =>
                rw [notLess order rightAbove] at first
                simp [get?] at first
            | eq => exact Std.LawfulEqCmp.eq_of_compare order
            | gt =>
                rw [notLess (Std.OrientedCmp.lt_of_gt order)
                  leftAbove] at second
                simp [get?] at second
          subst sameKey
          have sameValue : leftValue = rightValue := by
            simpa [get?] using agree leftKey
          subst sameValue
          have rest : leftRest = rightRest := by
            refine ih leftTail rightTail ?_
            intro key
            by_cases same : compare key leftKey = .eq
            · have equality : key = leftKey :=
                Std.LawfulEqCmp.eq_of_compare same
              subst equality
              rw [get?_eq_none_of_below leftAbove,
                get?_eq_none_of_below rightAbove]
            · simpa [get?, same] using agree key
          rw [rest]

end Ascending

/-- A finite map, as its entries in increasing order of the keys. -/
structure Dictionary (κ ν : Type) [Ord κ] where
  entries : List (κ × ν)
  ascending : Ascending entries

namespace Dictionary

variable {κ ν : Type} [Ord κ]

/-- The map without entries. -/
def empty : Dictionary κ ν := ⟨[], List.Pairwise.nil⟩

/-- The value of a key, if it has one. -/
def get? (dictionary : Dictionary κ ν) (key : κ) : Option ν :=
  Ascending.get? key dictionary.entries

/-- Whether there is no entry. -/
def isEmpty (dictionary : Dictionary κ ν) : Bool :=
  dictionary.entries.isEmpty

/-- The keys, in increasing order. -/
def keys (dictionary : Dictionary κ ν) : List κ :=
  dictionary.entries.map Prod.fst

@[simp]
theorem get?_empty (key : κ) : (empty : Dictionary κ ν).get? key = none := rfl

instance [DecidableEq κ] [DecidableEq ν] : DecidableEq (Dictionary κ ν) :=
  fun left right =>
    match decEq left.entries right.entries with
    | isTrue same => isTrue (by cases left; cases right; cases same; rfl)
    | isFalse different =>
        isFalse (fun equality => different (congrArg entries equality))

/-- The map without a key. -/
def erase (dictionary : Dictionary κ ν) (key : κ) : Dictionary κ ν :=
  ⟨Ascending.erase key dictionary.entries,
    Ascending.of_erase dictionary.ascending⟩

@[simp]
theorem get?_erase_self (dictionary : Dictionary κ ν) (key : κ) :
    (dictionary.erase key).get? key = none :=
  Ascending.get?_erase_self key dictionary.entries

variable [Std.LawfulEqOrd κ]

theorem get?_erase_of_ne {key other : κ} (different : other ≠ key)
    (dictionary : Dictionary κ ν) :
    (dictionary.erase key).get? other = dictionary.get? other :=
  Ascending.get?_erase_of_ne different dictionary.entries

/-- A key is found with the values that stand beside it. -/
theorem get?_eq_some_iff {dictionary : Dictionary κ ν} {key : κ} {value : ν} :
    dictionary.get? key = some value ↔ (key, value) ∈ dictionary.entries :=
  Ascending.get?_eq_some_iff dictionary.ascending

variable [Std.TransOrd κ]

/-- The map with a value for a key, in place of the value it had. -/
def insert (dictionary : Dictionary κ ν) (key : κ) (value : ν) :
    Dictionary κ ν :=
  ⟨Ascending.insert key value dictionary.entries,
    Ascending.of_insert dictionary.ascending⟩

/--
The map of a list of entries; of two entries with one key the later counts.
-/
def ofList (entries : List (κ × ν)) : Dictionary κ ν :=
  entries.foldl (fun dictionary entry => dictionary.insert entry.1 entry.2)
    empty

@[simp]
theorem get?_insert_self (dictionary : Dictionary κ ν) (key : κ) (value : ν) :
    (dictionary.insert key value).get? key = some value :=
  Ascending.get?_insert_self key value dictionary.entries

theorem get?_insert_of_ne {key other : κ} (different : other ≠ key)
    (dictionary : Dictionary κ ν) (value : ν) :
    (dictionary.insert key value).get? other = dictionary.get? other :=
  Ascending.get?_insert_of_ne different value dictionary.entries

/-- Two dictionaries with the same look-ups are equal. -/
theorem ext_get? {left right : Dictionary κ ν}
    (agree : ∀ key, left.get? key = right.get? key) :
    left = right := by
  obtain ⟨leftEntries, leftAscending⟩ := left
  obtain ⟨rightEntries, rightAscending⟩ := right
  have same : leftEntries = rightEntries :=
    Ascending.ext_get? leftAscending rightAscending agree
  subst same
  rfl

end Dictionary

end SchemaMap
