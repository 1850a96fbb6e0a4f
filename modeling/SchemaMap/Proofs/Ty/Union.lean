import Mathlib.Data.List.Induction
import SchemaMap.Proofs.Resolution
import SchemaMap.Proofs.Ty.Subtype

/-!
# Unions without repetition

A union leaves out every type that equals an earlier one.  Where equality is
transitive, types may be left out early or late: what is left in the end is the
same (`foldl_addDistinct_flatMap_distinct`), also where the types are changed in
between, as long as the change takes equal types to equal ones.

A type is tidy when it is no union in disguise: its parts are no unions, no two
of them are equal, and a single part stands for itself.  Every union is tidy.  A
function that passes through unions, and gives nothing but tidy types, may as
well be applied to the members (`map_unionOf`).  Unions may be put together in
any grouping (`unionOf_map_unionOf`).

A union is the least of the types that lie above its members
(`unionOf_isSubtype_iff`), and so are types that are joined one after the other
(`joinAll_isSubtype_iff`).
-/

namespace SchemaMap.Ty

/-- The types of a list but for those that equal an earlier one. -/
def distinct (types : List Ty) : List Ty :=
  types.foldl addDistinct []

/-- The type with the given parts. -/
def ofParts : List Ty → Ty
  | [] => .never
  | [type] => type
  | types => .union types

/-- A union has the distinct parts of its members. -/
theorem unionOf_eq_ofParts (members : List Ty) :
    unionOf members = ofParts (distinct (members.flatMap parts)) := by
  rw [unionOf, distinct]
  cases (members.flatMap parts).foldl addDistinct [] with
  | nil => rfl
  | cons first rest => cases rest <;> rfl

theorem eq_union_or_parts_eq (type : Ty) :
    (∃ members, type = .union members) ∨ type.parts = [type] := by
  cases type with
  | union members => exact .inl ⟨members, rfl⟩
  | _ => exact .inr rfl

/-! ## Leaving out what is there -/

theorem addDistinct_of_found {kept : List Ty} {type : Ty}
    (found : ∃ other ∈ kept, equal other type = true) :
    addDistinct kept type = kept := by
  rw [addDistinct, anyEqual_eq_any, if_pos (List.any_eq_true.mpr found)]

theorem addDistinct_of_new {kept : List Ty} {type : Ty}
    (new : ¬ ∃ other ∈ kept, equal other type = true) :
    addDistinct kept type = kept ++ [type] := by
  rw [addDistinct, anyEqual_eq_any,
    if_neg fun found => new (List.any_eq_true.mp found)]

theorem mem_addDistinct_of_mem {kept : List Ty} {type other : Ty}
    (member : other ∈ kept) :
    other ∈ addDistinct kept type := by
  rw [addDistinct]
  split
  · exact member
  · exact List.mem_append_left _ member

theorem mem_foldl_addDistinct_of_mem {kept : List Ty} (types : List Ty)
    {type : Ty} (member : type ∈ kept) :
    type ∈ types.foldl addDistinct kept :=
  List.foldlRecOn types addDistinct member fun _ listed _ _ =>
    mem_addDistinct_of_mem listed

/-- Every type is there, or one that equals it. -/
theorem exists_mem_foldl_addDistinct (kept : List Ty) {types : List Ty}
    {type : Ty} (member : type ∈ types) :
    ∃ other ∈ types.foldl addDistinct kept, equal other type = true := by
  rcases List.append_of_mem member with ⟨before, after, rfl⟩
  rw [List.foldl_append, List.foldl_cons]
  by_cases found : ∃ other ∈ before.foldl addDistinct kept,
    equal other type = true
  · rw [addDistinct_of_found found]
    rcases found with ⟨other, listed, same⟩
    exact ⟨other, mem_foldl_addDistinct_of_mem after listed, same⟩
  · rw [addDistinct_of_new found]
    exact ⟨type,
      mem_foldl_addDistinct_of_mem after
        (List.mem_append_right _ List.mem_cons_self), equal_refl type⟩

theorem mem_of_mem_distinct {types : List Ty} {type : Ty}
    (member : type ∈ distinct types) : type ∈ types :=
  (mem_of_mem_foldl_addDistinct member).resolve_left List.not_mem_nil

/-- Every type has an equal one among the distinct ones. -/
theorem exists_mem_distinct {types : List Ty} {type : Ty}
    (member : type ∈ types) :
    ∃ other ∈ distinct types, equal other type = true :=
  exists_mem_foldl_addDistinct [] member

theorem foldl_addDistinct_of_found {kept types : List Ty}
    (found : ∀ type ∈ types, ∃ other ∈ kept, equal other type = true) :
    types.foldl addDistinct kept = kept := by
  induction types with
  | nil => rfl
  | cons type rest ih =>
      rw [List.forall_mem_cons] at found
      rw [List.foldl_cons, addDistinct_of_found found.1, ih found.2]

/-- No two types of the list are equal. -/
def Apart (types : List Ty) : Prop :=
  types.Pairwise fun left right => equal left right = false

/-- Distinct types are pairwise unequal. -/
theorem apart_distinct (types : List Ty) : Apart (distinct types) := by
  refine List.foldlRecOn types addDistinct List.Pairwise.nil
    fun kept apart type _ => ?_
  rw [addDistinct]
  split
  · exact apart
  · next new =>
      rw [anyEqual_eq_any, List.any_eq_true, not_exists] at new
      refine List.pairwise_append.mpr ⟨apart, List.pairwise_singleton _ _,
        fun other listed added isAdded => ?_⟩
      rw [List.mem_singleton.mp isAdded]
      exact Bool.eq_false_iff.mpr fun same => new other ⟨listed, same⟩

/-- Types that are pairwise unequal are all added. -/
theorem foldl_addDistinct_of_apart {kept types : List Ty}
    (apart : Apart (kept ++ types)) :
    types.foldl addDistinct kept = kept ++ types := by
  induction types generalizing kept with
  | nil => rw [List.foldl_nil, List.append_nil]
  | cons type rest ih =>
      have new : ¬ ∃ other ∈ kept, equal other type = true := by
        rintro ⟨other, listed, same⟩
        have different :=
          (List.pairwise_append.mp apart).2.2 other listed type
            List.mem_cons_self
        rw [same] at different
        contradiction
      rw [List.append_cons] at apart ⊢
      rw [List.foldl_cons, addDistinct_of_new new, ih apart]

section

variable {arity : String → Nat}

/--
What is left in the end does not depend on whether types are left out before a
change that keeps equality.
-/
theorem foldl_addDistinct_flatMap_distinct {kept types : List Ty}
    {change : Ty → List Ty} (keptRespects : ∀ type ∈ kept, type.Respects arity)
    (changedRespects : ∀ type ∈ types.flatMap change, type.Respects arity)
    (follows : ∀ left ∈ types, ∀ right ∈ types, equal left right = true →
      ∀ part ∈ change right, ∃ other ∈ change left, equal other part = true) :
    ((distinct types).flatMap change).foldl addDistinct kept =
      (types.flatMap change).foldl addDistinct kept := by
  -- The last type is the one to decide about, after all others.
  induction types using List.reverseRecOn with
  | nil => rfl
  | append_singleton types last ih =>
      rw [List.flatMap_append, List.forall_mem_append,
        List.flatMap_singleton] at changedRespects
      have before :=
        ih changedRespects.1 fun left leftMember right rightMember =>
          follows left (List.mem_append_left _ leftMember)
            right (List.mem_append_left _ rightMember)
      have step : distinct (types ++ [last]) =
          addDistinct (distinct types) last := by
        rw [distinct, List.foldl_append]
        rfl
      rw [step, List.flatMap_append, List.flatMap_singleton, List.foldl_append]
      by_cases found : ∃ other ∈ distinct types, equal other last = true
      · rw [addDistinct_of_found found, before, eq_comm]
        apply foldl_addDistinct_of_found
        intro part contributed
        rcases found with ⟨earlier, listed, same⟩
        have member := mem_of_mem_distinct listed
        rcases follows earlier (List.mem_append_left _ member) last
          (List.mem_append_right _ List.mem_cons_self) same part
          contributed with ⟨middle, earlierPart, toPart⟩
        have middleMember : middle ∈ types.flatMap change :=
          List.mem_flatMap.mpr ⟨earlier, member, earlierPart⟩
        rcases exists_mem_foldl_addDistinct kept middleMember with
          ⟨other, otherListed, toMiddle⟩
        have otherRespects : other.Respects arity :=
          (mem_of_mem_foldl_addDistinct otherListed).elim (keptRespects other)
            (changedRespects.1 other)
        exact ⟨other, otherListed,
          equal_trans otherRespects (changedRespects.1 middle middleMember)
          (changedRespects.2 part contributed) toMiddle toPart⟩
      · rw [addDistinct_of_new found, List.flatMap_append,
          List.flatMap_singleton, List.foldl_append, before]

/-- Adding the distinct ones is adding them all. -/
theorem foldl_addDistinct_distinct {kept types : List Ty}
    (keptRespects : ∀ type ∈ kept, type.Respects arity)
    (respects : ∀ type ∈ types, type.Respects arity) :
    (distinct types).foldl addDistinct kept = types.foldl addDistinct kept := by
  have unchanged : ((distinct types).flatMap fun type => [type]).foldl
      addDistinct kept =
      (types.flatMap fun type => [type]).foldl addDistinct kept :=
    foldl_addDistinct_flatMap_distinct keptRespects
      (by rwa [List.flatMap_singleton'])
      fun left _ right _ same part member =>
        ⟨left, List.mem_cons_self, List.mem_singleton.mp member ▸ same⟩
  rwa [List.flatMap_singleton', List.flatMap_singleton'] at unchanged

theorem foldl_addDistinct_flatMap_distinct_each {α : Type} {kept : List Ty}
    {sources : List α} {types : α → List Ty}
    (keptRespects : ∀ type ∈ kept, type.Respects arity)
    (respects : ∀ source ∈ sources,
      ∀ type ∈ types source, type.Respects arity) :
    (sources.flatMap fun source => distinct (types source)).foldl addDistinct
      kept =
      (sources.flatMap types).foldl addDistinct kept := by
  induction sources generalizing kept with
  | nil => rfl
  | cons source rest ih =>
      rw [List.forall_mem_cons] at respects
      rw [List.flatMap_cons, List.flatMap_cons, List.foldl_append,
        List.foldl_append, foldl_addDistinct_distinct keptRespects respects.1]
      refine ih (fun type member => ?_) respects.2
      exact (mem_of_mem_foldl_addDistinct member).elim (keptRespects type)
        (respects.1 type)

end

/-! ## Tidy types -/

/--
The type is what its parts make, which are no unions and of which no two are
equal.
-/
structure IsTidy (type : Ty) : Prop where
  flat : ∀ part ∈ type.parts, part.parts = [part]
  apart : Apart type.parts
  whole : ofParts type.parts = type

theorem isTidy_of_parts_eq {type : Ty} (single : type.parts = [type]) :
    type.IsTidy where
  flat := by rwa [single, List.forall_mem_singleton]
  apart := by rw [single]; exact List.pairwise_singleton _ _
  whole := by rw [single]; rfl

theorem IsTidy.parts_ne_nil {type : Ty} (tidy : type.IsTidy) :
    type.parts ≠ [] := by
  intro empty
  have isNever := tidy.whole
  rw [empty, ofParts] at isNever
  rw [← isNever] at empty
  contradiction

theorem IsTidy.distinct_parts {type : Ty} (tidy : type.IsTidy) :
    distinct type.parts = type.parts :=
  foldl_addDistinct_of_apart tidy.apart

theorem parts_ofParts {types : List Ty}
    (flat : ∀ type ∈ types, type.parts = [type]) (some : types ≠ []) :
    (ofParts types).parts = types := by
  cases types with
  | nil => contradiction
  | cons first rest =>
      cases rest with
      | nil => exact flat first List.mem_cons_self
      | cons second rest => rfl

section

variable {members : List Ty}
  (flat : ∀ member ∈ members, ∀ part ∈ member.parts, part.parts = [part])

include flat

/-- The parts of a union are the distinct parts of its members. -/
theorem parts_unionOf (some : members.flatMap parts ≠ []) :
    (unionOf members).parts = distinct (members.flatMap parts) := by
  rw [unionOf_eq_ofParts]
  apply parts_ofParts
  · intro part listed
    rcases List.mem_flatMap.mp (mem_of_mem_distinct listed) with
      ⟨member, present, contributed⟩
    exact flat member present part contributed
  · intro none
    rcases List.exists_mem_of_ne_nil _ some with ⟨part, listed⟩
    rcases exists_mem_distinct listed with ⟨other, present, -⟩
    rw [none] at present
    contradiction

/-- A union is tidy. -/
theorem isTidy_unionOf : (unionOf members).IsTidy := by
  by_cases none : members.flatMap parts = []
  · rw [unionOf_eq_ofParts, none]
    exact isTidy_of_parts_eq rfl
  · have parts := parts_unionOf flat none
    constructor
    · rw [parts]
      intro part listed
      rcases List.mem_flatMap.mp (mem_of_mem_distinct listed) with
        ⟨member, present, contributed⟩
      exact flat member present part contributed
    · rw [parts]
      exact apart_distinct _
    · rw [parts, unionOf_eq_ofParts]

end

/-- Equal types have equal parts. -/
theorem exists_mem_parts_of_equal {left right : Ty}
    (same : equal left right = true) :
    ∀ part ∈ right.parts, ∃ other ∈ left.parts, equal other part = true := by
  cases left with
  | union lefts =>
      cases right with
      | union rights => exact (equal_union_iff.mp same).2
      | _ => simp [equal] at same
  | _ =>
      cases right with
      | union rights => simp [equal] at same
      | _ => exact List.forall_mem_singleton.mpr ⟨_, List.mem_cons_self, same⟩

theorem respects_of_mem_parts {arity : String → Nat} {type part : Ty}
    (respects : type.Respects arity) (member : part ∈ type.parts) :
    part.Respects arity := by
  rcases eq_union_or_parts_eq type with ⟨members, rfl⟩ | single
  · exact respects_union_iff.mp respects part member
  · rw [single] at member
    rwa [List.mem_singleton.mp member]

theorem respects_of_mem_flatMap_parts {arity : String → Nat} {types : List Ty}
    (respects : ∀ type ∈ types, type.Respects arity) :
    ∀ part ∈ types.flatMap parts, part.Respects arity := by
  intro part listed
  rcases List.mem_flatMap.mp listed with ⟨type, member, contributed⟩
  exact respects_of_mem_parts (respects type member) contributed

/-! ## Unions of unions -/

section

variable {arity : String → Nat} {groups : List (List Ty)}

theorem unionOf_singleton {type : Ty} (single : type.parts = [type]) :
    unionOf [type] = type := by
  rw [unionOf_eq_ofParts, List.flatMap_singleton,
    (isTidy_of_parts_eq single).distinct_parts, single]
  rfl

theorem flatMap_parts_of_single {types : List Ty}
    (single : ∀ type ∈ types, type.parts = [type]) :
    types.flatMap parts = types := by
  rw [List.flatMap_congr single, List.flatMap_singleton']

/--
The types may be the parts of one type: there are some, none is a union, and
schemas have all their arguments.
-/
structure AreParts (arity : String → Nat) (types : List Ty) : Prop where
  some : types ≠ []
  single : ∀ type ∈ types, type.parts = [type]
  respects : ∀ type ∈ types, type.Respects arity

theorem areParts_singleton {type : Ty} (single : type.parts = [type])
    (respects : type.Respects arity) :
    AreParts arity [type] where
  some := List.cons_ne_nil _ _
  single := List.forall_mem_singleton.mpr single
  respects := List.forall_mem_singleton.mpr respects

theorem areParts_flatten (each : ∀ group ∈ groups, AreParts arity group)
    (some : groups ≠ []) :
    AreParts arity groups.flatten where
  some := by
    rcases List.exists_mem_of_ne_nil groups some with ⟨group, member⟩
    exact fun none =>
      (each group member).some (List.flatten_eq_nil_iff.mp none group member)
  single :=
    List.forall_mem_flatten.mpr fun group member => (each group member).single
  respects :=
    List.forall_mem_flatten.mpr fun group member => (each group member).respects

/-- A union of unions is the union of all their parts. -/
theorem unionOf_map_unionOf (each : ∀ group ∈ groups, AreParts arity group) :
    unionOf (groups.map unionOf) = unionOf groups.flatten := by
  have partsOf : ∀ group ∈ groups, (unionOf group).parts = distinct group := by
    intro group member
    have single := (each group member).single
    have whole := flatMap_parts_of_single single
    rw [parts_unionOf, whole]
    · intro type listed part contributed
      rw [single type listed, List.mem_singleton] at contributed
      rw [contributed, single type listed]
    · rw [whole]
      exact (each group member).some
  have merged := foldl_addDistinct_flatMap_distinct_each (List.forall_mem_nil _)
    fun group member => (each group member).respects
  rw [List.flatMap_id'] at merged
  rw [unionOf_eq_ofParts, unionOf_eq_ofParts, List.flatMap_map,
    List.flatMap_congr partsOf,
    flatMap_parts_of_single (List.forall_mem_flatten.mpr fun group member =>
      (each group member).single)]
  exact congrArg ofParts merged

end

/-! ## Functions that pass through unions -/

section

variable {arity : String → Nat} {change : Ty → Ty} {members : List Ty}

/--
A function that passes through unions, and gives tidy types, passes through the
building of unions.
-/
theorem map_unionOf (never : change .never = .never)
    (union : ∀ members, change (.union members) = unionOf (members.map change))
    (tidy : ∀ type, (change type).IsTidy)
    (membersTidy : ∀ member ∈ members, member.IsTidy)
    (respects : ∀ part ∈ members.flatMap parts, (change part).Respects arity)
    (follows : ∀ left ∈ members.flatMap parts,
      ∀ right ∈ members.flatMap parts, equal left right = true →
      equal (change left) (change right) = true) :
    change (unionOf members) = unionOf (members.map change) := by
  have partRespects : ∀ part ∈ members.flatMap parts,
      ∀ type ∈ (change part).parts, type.Respects arity :=
    fun part member type contributed =>
      respects_of_mem_parts (respects part member) contributed
  have nothing : ∀ type ∈ ([] : List Ty), type.Respects arity :=
    List.forall_mem_nil _
  have partsOf : ∀ member ∈ members,
      (change member).parts =
        distinct (member.parts.flatMap fun part => (change part).parts) := by
    intro member listed
    rcases eq_union_or_parts_eq member with ⟨inner, rfl⟩ | single
    · have flat : ∀ type ∈ inner.map change,
          ∀ part ∈ type.parts, part.parts = [part] :=
        List.forall_mem_map.mpr fun type _ => (tidy type).flat
      rw [union, parts_unionOf flat, List.flatMap_map]
      · rfl
      · rcases List.exists_mem_of_ne_nil _
          (membersTidy _ listed).parts_ne_nil with ⟨type, present⟩
        intro none
        rw [List.flatMap_eq_nil_iff, List.forall_mem_map] at none
        exact (tidy type).parts_ne_nil (none type present)
    · rw [single, List.flatMap_singleton, (tidy member).distinct_parts]
  have early : change (unionOf members) =
      ofParts
        (distinct ((distinct (members.flatMap parts)).flatMap fun part =>
          (change part).parts)) := by
    rw [unionOf_eq_ofParts]
    cases distinct (members.flatMap parts) with
    | nil => exact never
    | cons first rest =>
        cases rest with
        | nil =>
            rw [List.flatMap_singleton, (tidy first).distinct_parts,
              (tidy first).whole]
            rfl
        | cons second rest =>
            show change (.union (first :: second :: rest)) = _
            rw [union, unionOf_eq_ofParts, List.flatMap_map]
  have late : unionOf (members.map change) =
      ofParts (distinct
        ((members.flatMap parts).flatMap fun part => (change part).parts)) := by
    rw [unionOf_eq_ofParts, List.flatMap_map, List.flatMap_congr partsOf,
      List.flatMap_assoc]
    refine congrArg ofParts (foldl_addDistinct_flatMap_distinct_each nothing ?_)
    intro member listed type contributed
    rcases List.mem_flatMap.mp contributed with ⟨part, present, here⟩
    exact partRespects part (List.mem_flatMap.mpr ⟨member, listed, present⟩)
      type here
  rw [early, late]
  refine congrArg ofParts (foldl_addDistinct_flatMap_distinct nothing ?_ ?_)
  · intro type contributed
    rcases List.mem_flatMap.mp contributed with ⟨part, listed, here⟩
    exact partRespects part listed type here
  · intro left leftMember right rightMember same
    exact exists_mem_parts_of_equal
      (follows left leftMember right rightMember same)

end

section

variable {arity : String → Nat}

theorem not_apart_of_equal {first second common : Ty} {rest : List Ty}
    (respects : ∀ type ∈ first :: second :: rest, type.Respects arity)
    (commonRespects : common.Respects arity)
    (same : ∀ type ∈ first :: second :: rest, equal common type = true) :
    ¬ Apart (first :: second :: rest) := by
  rw [List.forall_mem_cons, List.forall_mem_cons] at respects same
  intro apart
  have different := List.rel_of_pairwise_cons apart List.mem_cons_self
  rw [equal_trans respects.1 commonRespects respects.2.1 (equal_symm same.1)
    same.2.1] at different
  contradiction

/-- Types with the same parts up to equality are equal. -/
theorem equal_ofParts {lefts rights : List Ty}
    (leftsRespect : ∀ left ∈ lefts, left.Respects arity)
    (rightsRespect : ∀ right ∈ rights, right.Respects arity)
    (leftsApart : Apart lefts) (rightsApart : Apart rights)
    (forward : ∀ left ∈ lefts, ∃ right ∈ rights, equal left right = true)
    (backward : ∀ right ∈ rights, ∃ left ∈ lefts, equal left right = true) :
    equal (ofParts lefts) (ofParts rights) = true := by
  match lefts, rights with
  | [], [] => rfl
  | [], right :: _ =>
      rcases backward right List.mem_cons_self with ⟨left, member, -⟩
      contradiction
  | left :: _, [] =>
      rcases forward left List.mem_cons_self with ⟨right, member, -⟩
      contradiction
  | [left], [right] =>
      rcases forward left List.mem_cons_self with ⟨other, member, same⟩
      rwa [List.mem_singleton.mp member] at same
  | [left], first :: second :: rest =>
      refine absurd rightsApart
        (not_apart_of_equal rightsRespect (leftsRespect left List.mem_cons_self)
          ?_)
      intro right member
      rcases backward right member with ⟨other, listed, same⟩
      rwa [List.mem_singleton.mp listed] at same
  | first :: second :: rest, [right] =>
      refine absurd leftsApart
        (not_apart_of_equal leftsRespect
          (rightsRespect right List.mem_cons_self) ?_)
      intro left member
      rcases forward left member with ⟨other, listed, same⟩
      rw [List.mem_singleton.mp listed] at same
      exact equal_symm same
  | _ :: _ :: _, _ :: _ :: _ => exact equal_union_iff.mpr ⟨forward, backward⟩

/--
Types that are there up to equality are there still when repetitions are left
out.
-/
theorem exists_mem_distinct_of_equal {lefts rights : List Ty}
    (leftsRespect : ∀ left ∈ lefts, left.Respects arity)
    (rightsRespect : ∀ right ∈ rights, right.Respects arity)
    (forward : ∀ left ∈ lefts, ∃ right ∈ rights, equal left right = true) :
    ∀ left ∈ distinct lefts,
      ∃ right ∈ distinct rights, equal left right = true := by
  intro left listed
  have member := mem_of_mem_distinct listed
  rcases forward left member with ⟨middle, middleMember, toMiddle⟩
  rcases exists_mem_distinct middleMember with ⟨right, kept, fromRight⟩
  exact ⟨right, kept,
    equal_trans (leftsRespect left member) (rightsRespect middle middleMember)
    (rightsRespect right (mem_of_mem_distinct kept)) toMiddle
    (equal_symm fromRight)⟩

/-- Unions of the same members up to equality are equal. -/
theorem equal_unionOf {lefts rights : List Ty}
    (leftsRespect : ∀ left ∈ lefts, left.Respects arity)
    (rightsRespect : ∀ right ∈ rights, right.Respects arity)
    (forward : ∀ left ∈ lefts, ∃ right ∈ rights, equal left right = true)
    (backward : ∀ right ∈ rights, ∃ left ∈ lefts, equal left right = true) :
    equal (unionOf lefts) (unionOf rights) = true := by
  have leftParts := respects_of_mem_flatMap_parts leftsRespect
  have rightParts := respects_of_mem_flatMap_parts rightsRespect
  have partForward : ∀ types others : List Ty,
      (∀ type ∈ types, ∃ other ∈ others, equal other type = true) →
      ∀ part ∈ types.flatMap parts,
        ∃ other ∈ others.flatMap parts, equal part other = true := by
    intro types others found part listed
    rcases List.mem_flatMap.mp listed with ⟨type, member, contributed⟩
    rcases found type member with ⟨other, otherMember, same⟩
    rcases exists_mem_parts_of_equal same part contributed with
      ⟨otherPart, otherContributed, samePart⟩
    exact ⟨otherPart,
      List.mem_flatMap.mpr ⟨other, otherMember, otherContributed⟩,
      equal_symm samePart⟩
  have there := exists_mem_distinct_of_equal leftParts rightParts
    (partForward lefts rights fun left member =>
      (forward left member).imp fun _ => And.imp_right equal_symm)
  have back :=
    exists_mem_distinct_of_equal rightParts leftParts
      (partForward rights lefts backward)
  rw [unionOf_eq_ofParts, unionOf_eq_ofParts]
  exact equal_ofParts
    (fun left listed => leftParts left (mem_of_mem_distinct listed))
    (fun right listed => rightParts right (mem_of_mem_distinct listed))
    (apart_distinct _)
    (apart_distinct _) there fun right listed =>
      (back right listed).imp fun _ => And.imp_right equal_symm

end

/-! ## Least upper bounds -/

section

variable {arity : String → Nat} {widening : Bool}

theorem ofParts_isSubtype_iff {types : List Ty} {sup : Ty} :
    isSubtype widening (ofParts types) sup = true ↔
      ∀ type ∈ types, isSubtype widening type sup = true := by
  cases types with
  | nil => exact iff_of_true (never_isSubtype sup) (List.forall_mem_nil _)
  | cons first rest =>
      cases rest with
      | nil => rw [List.forall_mem_singleton, ofParts]
      | cons second rest => exact isSubtype_union_left_iff

/-- A type is below another exactly when its parts are. -/
theorem isSubtype_iff_parts {type sup : Ty} :
    isSubtype widening type sup = true ↔
      ∀ part ∈ type.parts, isSubtype widening part sup = true := by
  rcases eq_union_or_parts_eq type with ⟨members, rfl⟩ | single
  · exact isSubtype_union_left_iff
  · rw [single, List.forall_mem_singleton]

/-- A union lies below what all its members lie below. -/
theorem unionOf_isSubtype_iff {members : List Ty} {sup : Ty}
    (respects : ∀ member ∈ members, member.Respects arity)
    (supRespects : sup.Respects arity) :
    isSubtype widening (unionOf members) sup = true ↔
      ∀ member ∈ members, isSubtype widening member sup = true := by
  have partRespects := respects_of_mem_flatMap_parts respects
  rw [unionOf_eq_ofParts, ofParts_isSubtype_iff]
  constructor
  · intro below member present
    rw [isSubtype_iff_parts]
    intro part contributed
    have listed : part ∈ members.flatMap parts :=
      List.mem_flatMap.mpr ⟨member, present, contributed⟩
    rcases exists_mem_distinct listed with ⟨other, kept, same⟩
    exact isSubtype_trans (partRespects part listed)
      (partRespects other (mem_of_mem_distinct kept)) supRespects
      (isSubtype_of_equal (equal_symm same)) (below other kept)
  · intro below part kept
    rcases List.mem_flatMap.mp (mem_of_mem_distinct kept) with
      ⟨member, present, contributed⟩
    exact isSubtype_iff_parts.mp (below member present) part contributed

/-- A union respects the arities that its members respect. -/
theorem respects_unionOf {members : List Ty}
    (respects : ∀ member ∈ members, member.Respects arity) :
    (unionOf members).Respects arity := by
  have kept : ∀ part ∈ distinct (members.flatMap parts), part.Respects arity :=
    fun part listed =>
      respects_of_mem_flatMap_parts respects part (mem_of_mem_distinct listed)
  rw [unionOf_eq_ofParts]
  cases found : distinct (members.flatMap parts) with
  | nil => exact List.forall_mem_nil _
  | cons first rest =>
      rw [found] at kept
      cases rest with
      | nil => exact kept first List.mem_cons_self
      | cons second rest => exact respects_union_iff.mpr kept

theorem respects_join {left right : Ty} (leftRespects : left.Respects arity)
    (rightRespects : right.Respects arity) :
    (left.join right).Respects arity := by
  rw [join]
  split
  · exact leftRespects
  · apply respects_unionOf
    simp only [List.forall_mem_cons]
    exact ⟨leftRespects, rightRespects, List.forall_mem_nil _⟩

/--
A join lies below what both its sides lie below, also where one side stands for
both.
-/
theorem join_isSubtype_iff {left right sup : Ty}
    (leftRespects : left.Respects arity) (rightRespects : right.Respects arity)
    (supRespects : sup.Respects arity) :
    isSubtype widening (left.join right) sup = true ↔
      isSubtype widening left sup = true ∧
        isSubtype widening right sup = true := by
  rw [join]
  split
  · next same =>
      refine ⟨fun below => ⟨below, ?_⟩, And.left⟩
      exact isSubtype_trans rightRespects leftRespects supRespects
        (isSubtype_of_equal (equal_symm same)) below
  · have respects : ∀ member ∈ [left, right], member.Respects arity := by
      simp only [List.forall_mem_cons]
      exact ⟨leftRespects, rightRespects, List.forall_mem_nil _⟩
    rw [unionOf_isSubtype_iff respects supRespects, List.forall_mem_cons,
      List.forall_mem_singleton]

/-- Types joined one after the other lie below what all of them lie below. -/
theorem joinAll_isSubtype_iff {types : List Ty} {sup : Ty}
    (respects : ∀ type ∈ types, type.Respects arity)
    (supRespects : sup.Respects arity) :
    isSubtype widening (joinAll types) sup = true ↔
      ∀ type ∈ types, isSubtype widening type sup = true := by
  cases types with
  | nil => exact iff_of_true (never_isSubtype sup) (List.forall_mem_nil _)
  | cons first rest =>
      rw [joinAll, List.forall_mem_cons]
      -- The type joined so far takes the place of the first type.
      induction rest generalizing first with
      | nil => simp
      | cons second rest ih =>
          simp only [List.forall_mem_cons] at respects
          rcases respects with ⟨firstRespects, secondRespects, restRespects⟩
          have joined := respects_join firstRespects secondRespects
          rw [List.foldl_cons,
            ih _ (List.forall_mem_cons.mpr ⟨joined, restRespects⟩),
            join_isSubtype_iff firstRespects secondRespects supRespects,
            List.forall_mem_cons, and_assoc]

end

end SchemaMap.Ty
