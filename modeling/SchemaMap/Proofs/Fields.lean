import SchemaMap.Proofs.Meaning

/-!
# Lists of fields

Fields are put into a list one after the other.  A field takes the place of the
one of its name, if there is one, and goes to the end otherwise
(`putField_eq_override`), so names that are distinct stay so, and what is found
under a name is what was put last (`lookup_putFields`).
-/

namespace SchemaMap

/--
The fields with one more, which replaces the one of its name or is added at the
end.
-/
def override (fields : List (String × Ty)) (field : String × Ty) :
    List (String × Ty) :=
  if field.1 ∈ fields.map Prod.fst then
    fields.map fun entry => if entry.1 = field.1 then field else entry
  else
    fields ++ [field]

section

variable {fields further : List (String × Ty)} {name : String}

/-- A field of a new name is put at the end. -/
theorem putField_of_not_mem (absent : name ∉ fields.map Prod.fst) (type : Ty) :
    putField fields name type = fields ++ [(name, type)] := by
  induction fields with
  | nil => rfl
  | cons field rest ih =>
      rw [List.map_cons, List.mem_cons, not_or] at absent
      rw [putField, if_neg (Ne.symm absent.1), ih absent.2, List.cons_append]

/-- A field of a name that is there takes its place. -/
theorem putField_of_mem (distinct : (fields.map Prod.fst).Nodup)
    (present : name ∈ fields.map Prod.fst) (type : Ty) :
    putField fields name type =
      fields.map fun entry =>
        if entry.1 = name then (name, type) else entry := by
  induction fields with
  | nil => contradiction
  | cons field rest ih =>
      rw [List.map_cons, List.nodup_cons] at distinct
      by_cases same : field.1 = name
      · -- The name is not there a second time, so the rest stays as it is.
        have others : ∀ entry ∈ rest,
            (if entry.1 = name then (name, type) else entry) = entry := by
          intro entry member
          have apart : entry.1 ≠ name := fun again =>
            distinct.1 (List.mem_map.mpr ⟨entry, member, again.trans same.symm⟩)
          exact if_neg apart
        rw [putField, if_pos same, List.map_cons, if_pos same,
          List.map_congr_left others, List.map_id']
      · have later : name ∈ rest.map Prod.fst :=
          (List.mem_cons.mp present).resolve_left (Ne.symm same)
        rw [putField, if_neg same, List.map_cons, if_neg same,
          ih distinct.2 later]

/-- Putting a field is overriding. -/
theorem putField_eq_override (distinct : (fields.map Prod.fst).Nodup)
    (type : Ty) :
    putField fields name type = override fields (name, type) := by
  by_cases present : name ∈ fields.map Prod.fst
  · exact (putField_of_mem distinct present type).trans (if_pos present).symm
  · exact (putField_of_not_mem present type).trans (if_neg present).symm

/-! ## Names -/

/-- The names after a field is put. -/
theorem names_putField (type : Ty) :
    (putField fields name type).map Prod.fst =
      if name ∈ fields.map Prod.fst then fields.map Prod.fst else
        fields.map Prod.fst ++ [name] := by
  induction fields with
  | nil => rfl
  | cons field rest ih =>
      by_cases same : field.1 = name
      · simp [putField, same]
      · rw [putField, if_neg same, List.map_cons, ih]
        by_cases later : name ∈ rest.map Prod.fst
        · rw [if_pos later, List.map_cons,
            if_pos (List.mem_cons_of_mem _ later)]
        · have absent : name ∉ field.1 :: rest.map Prod.fst :=
            List.not_mem_cons_of_ne_of_not_mem (Ne.symm same) later
          rw [if_neg later, List.map_cons, if_neg absent, List.cons_append]

/-- Putting a field repeats no name. -/
theorem nodup_names_putField (distinct : (fields.map Prod.fst).Nodup)
    (type : Ty) :
    ((putField fields name type).map Prod.fst).Nodup := by
  rw [names_putField]
  split
  · exact distinct
  · next absent =>
      exact List.nodup_append_comm.mp (List.nodup_cons.mpr ⟨absent, distinct⟩)

/-- Names that are distinct stay so. -/
theorem nodup_names_putFields (distinct : (fields.map Prod.fst).Nodup) :
    ((putFields fields further).map Prod.fst).Nodup := by
  induction further generalizing fields with
  | nil => exact distinct
  | cons field rest ih => exact ih (nodup_names_putField distinct field.2)

/-- Fields of distinct names are overridden by those that are put. -/
theorem putFields_eq_foldl_override (distinct : (fields.map Prod.fst).Nodup) :
    putFields fields further = further.foldl override fields := by
  induction further generalizing fields with
  | nil => rfl
  | cons field rest ih =>
      calc
        putFields fields (field :: rest) =
          putFields (putField fields field.1 field.2) rest := rfl
        _ = rest.foldl override (putField fields field.1 field.2) :=
          ih (nodup_names_putField distinct field.2)
        _ = rest.foldl override (override fields field) := by
          rw [putField_eq_override distinct]

/-! ## Types -/

/-- The field that was put is found, and the others as before. -/
theorem lookup_putField (name wanted : String) (type : Ty) :
    (putField fields name type).lookup wanted = if name = wanted then some type
      else fields.lookup wanted := by
  induction fields with
  | nil => rw [putField, lookup_cons_eq]
  | cons field rest ih =>
      rw [putField]
      split
      · next same =>
          rw [lookup_cons_eq, lookup_cons_eq, same]
          split <;> rfl
      · next apart =>
          rw [lookup_cons_eq, lookup_cons_eq, ih]
          by_cases here : name = wanted
          · rw [if_neg (here ▸ apart), if_pos here, if_pos here]
          · rw [if_neg here, if_neg here]

theorem lookup_putFields_of_not_mem {further : List (String × Ty)}
    {wanted : String} (absent : wanted ∉ further.map Prod.fst) :
    (putFields fields further).lookup wanted = fields.lookup wanted := by
  induction further generalizing fields with
  | nil => rfl
  | cons field rest ih =>
      rw [List.map_cons, List.mem_cons, not_or] at absent
      exact (ih absent.2).trans
        ((lookup_putField _ _ _).trans (if_neg (Ne.symm absent.1)))

/-- Fields of distinct names are found under their names. -/
theorem lookup_putFields_of_mem {further : List (String × Ty)}
    (distinct : (further.map Prod.fst).Nodup) {field : String × Ty}
    (member : field ∈ further) :
    (putFields fields further).lookup field.1 = some field.2 := by
  rcases List.append_of_mem member with ⟨before, after, rfl⟩
  rw [List.map_append, List.map_cons] at distinct
  have last := (List.nodup_cons.mp distinct.of_append_right).1
  rw [putFields, List.foldl_append, List.foldl_cons]
  exact (lookup_putFields_of_not_mem last).trans
    ((lookup_putField _ _ _).trans (if_pos rfl))

/-- Under a name there is what was put last, or else what was there before. -/
theorem lookup_putFields (fields further : List (String × Ty))
    (wanted : String) :
    (putFields fields further).lookup wanted =
      (further.reverse.lookup wanted).or (fields.lookup wanted) := by
  induction further generalizing fields with
  | nil => rfl
  | cons field rest ih =>
      rw [List.reverse_cons, lookup_concat, Option.or_assoc]
      refine (ih _).trans (congrArg _ ?_)
      rw [lookup_putField]
      by_cases same : field.1 = wanted
      · simp [same]
      · simp [same, Ne.symm same]

end

/-! ## Members -/

/-- What is put together from two lists of fields is in one of them. -/
theorem mem_putFields {fields further : List (String × Ty)}
    {entry : String × Ty} (member : entry ∈ putFields fields further) :
    entry ∈ fields ∨ entry ∈ further := by
  induction further generalizing fields with
  | nil => exact .inl member
  | cons field rest ih =>
      rcases ih member with put | later
      · rcases mem_putField put with old | rfl
        · exact .inl old
        · exact .inr List.mem_cons_self
      · exact .inr (List.mem_cons_of_mem _ later)

theorem putField_map (change : Ty → Ty) (fields : List (String × Ty))
    (name : String) (type : Ty) :
    putField (fields.map (Prod.map id change)) name (change type) =
      (putField fields name type).map (Prod.map id change) := by
  induction fields with
  | nil => rfl
  | cons field rest ih =>
      rw [List.map_cons, putField, putField, ih]
      by_cases same : field.1 = name <;> simp [same]

/-- Fields may be changed before or after they are put together. -/
theorem putFields_map (change : Ty → Ty) (fields further : List (String × Ty)) :
    putFields (fields.map (Prod.map id change))
      (further.map (Prod.map id change)) =
      (putFields fields further).map (Prod.map id change) := by
  induction further generalizing fields with
  | nil => rfl
  | cons field rest ih =>
      have step := ih (putField fields field.1 field.2)
      rw [← putField_map] at step
      exact step

end SchemaMap
