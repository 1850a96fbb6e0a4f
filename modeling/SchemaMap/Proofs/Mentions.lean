import SchemaMap.Proofs.SchemaFields

/-!
# The names that declarations mention

A declaration refers to others by name: to the parent of a schema, to the types
of fields, keys, sources and targets, to units and dimensions, to lookup tables
in expressions, and to the steps of a pipeline.  What the remaining names stand
for has no influence on how units are evaluated (`UnitTable.settle_append`), on
how type expressions are resolved (`Names.AgreesOn.resolve`) and on how schemas
are completed (`SchemaFields.settle_append`).
-/

namespace SchemaMap

/-! ## Mentioned names -/

mutual

/-- The names in a type expression. -/
def TypeExpr.mentions : TypeExpr → List String
  | .primitive _ _ => []
  | .schemaName _ name => [name]
  | .enumName _ name => [name]
  | .array _ element => element.mentions
  | .optional _ inner => inner.mentions
  | .quantity _ unit => unit.references
  | .tuple _ items => TypeExpr.mentionsAll items
  | .union _ members => TypeExpr.mentionsAll members
  | .generic _ name arguments => name :: TypeExpr.mentionsAll arguments
termination_by structural expression => expression

def TypeExpr.mentionsAll : List TypeExpr → List String
  | [] => []
  | expression :: rest => expression.mentions ++ TypeExpr.mentionsAll rest
termination_by structural expressions => expressions

end

mutual

/--
The names of the lookup tables in an expression.  A path starts at a variable,
which no declaration stands for.
-/
def Expr.mentions : Expr → List String
  | .literal _ _ => []
  | .path _ _ segments => Segment.mentionsAll segments
  | .binary _ left _ right => left.mentions ++ right.mentions
  | .unary _ _ operand => operand.mentions
  | .conditional _ condition thenBranch elseBranch =>
      condition.mentions ++ (thenBranch.mentions ++ elseBranch.mentions)
  | .matching _ subject arms => subject.mentions ++ Arm.mentionsAll arms
  | .lambda _ _ body => body.mentions
  | .aggregate _ _ source => source.mentions
  | .aggregateWith _ _ source _ _ body => source.mentions ++ body.mentions
  | .lookup _ table keys => table.value :: Expr.mentionsAll keys
termination_by structural expression => expression

def Segment.mentionsAll : List Segment → List String
  | [] => []
  | .field _ _ _ :: rest => Segment.mentionsAll rest
  | .index _ position _ :: rest => position.mentions ++ Segment.mentionsAll rest
termination_by structural segments => segments

def Arm.mentionsAll : List Arm → List String
  | [] => []
  | .mk _ _ body :: rest => body.mentions ++ Arm.mentionsAll rest
termination_by structural arms => arms

def Expr.mentionsAll : List Expr → List String
  | [] => []
  | expression :: rest => expression.mentions ++ Expr.mentionsAll rest
termination_by structural expressions => expressions

end

def SchemaDeclaration.mentions (declaration : SchemaDeclaration) :
    List String :=
  (declaration.parent.map Located.value).toList ++
    declaration.fields.flatMap fun field => field.type.mentions

def UnitDeclaration.mentions (declaration : UnitDeclaration) : List String :=
  (declaration.dimension.map Located.value).toList ++
    declaration.definition.toList.flatMap UnitExpr.references

def LookupDeclaration.mentions (declaration : LookupDeclaration) :
    List String :=
  TypeExpr.mentionsAll declaration.keys ++ declaration.value.mentions

def TransformDeclaration.mentions (declaration : TransformDeclaration) :
    List String :=
  TypeExpr.mentionsAll (declaration.sources.map SourceDeclaration.type) ++
    declaration.target.mentions ++
    declaration.rules.flatMap fun rule => rule.value.mentions

/-- The names of other declarations in a declaration. -/
def Declaration.mentions : Declaration → List String
  | .schema declaration => declaration.mentions
  | .enumeration _ => []
  | .dimension _ => []
  | .unit declaration => declaration.mentions
  | .lookup declaration => declaration.mentions
  | .transform declaration => declaration.mentions
  | .pipeline declaration => declaration.steps.map Located.value

/-! ## Lists with foreign members -/

section

variable {α : Type} {key : α → String} {relevant : String → Prop}
  {foreign : List α}
  (irrelevant : ∀ member ∈ foreign, ¬ relevant (key member)) {name : String}
  (isRelevant : relevant name)

include irrelevant isRelevant

/-- A name is not found among members of other names. -/
theorem find?_append_foreign (members : List α) :
    (members ++ foreign).find? (fun member => key member == name) =
      members.find? (fun member => key member == name) := by
  have absent : foreign.find? (fun member => key member == name) = none := by
    rw [List.find?_eq_none]
    intro member found same
    exact irrelevant member found (eq_of_beq same ▸ isRelevant)
  rw [List.find?_append, absent, Option.or_none]

theorem filter_append_foreign (members : List α) :
    (members ++ foreign).filter (fun member => key member != name) =
      members.filter (fun member => key member != name) ++ foreign := by
  rw [List.filter_append]
  congr 1
  rw [List.filter_eq_self]
  intro member found
  rw [bne_iff_ne]
  rintro rfl
  exact irrelevant member found isRelevant

end

/-! ## Units -/

/-- The value of a unit expression depends on its references only. -/
theorem UnitExpr.evaluate_congr {m : Type → Type} [Monad m]
    {reference other : String → ExceptT Fault m PhysicalUnit}
    (expression : UnitExpr)
    (same : ∀ name ∈ expression.references, reference name = other name) :
    expression.evaluate reference = expression.evaluate other := by
  induction expression with
  | reference span name => rw [evaluate, evaluate, same name List.mem_cons_self]
  | product span left right first second =>
      rw [references, List.forall_mem_append] at same
      rw [evaluate, evaluate, first same.1, second same.2]
  | quotient span left right first second =>
      rw [references, List.forall_mem_append] at same
      rw [evaluate, evaluate, first same.1, second same.2]
  | power span base exponent inner => rw [evaluate, evaluate, inner same]
  | one span => rfl

/--
The value of a declared unit depends on the names in its declaration only.
-/
theorem UnitDeclaration.evaluate_congr {m : Type → Type} [Monad m]
    {isDimension otherDimension : String → Bool}
    {reference other : String → ExceptT Fault m PhysicalUnit}
    {declaration : UnitDeclaration}
    (dimensions : ∀ name ∈ declaration.mentions,
      isDimension name = otherDimension name)
    (references : ∀ name ∈ declaration.mentions, reference name = other name) :
    declaration.evaluate isDimension reference =
      declaration.evaluate otherDimension other := by
  rw [mentions, List.forall_mem_append] at dimensions references
  rw [evaluate, evaluate]
  cases written : declaration.definition with
  | some definition =>
      rw [written, Option.toList_some, List.flatMap_singleton] at references
      simp only [definition.evaluate_congr references.2]
  | none =>
      cases measured : declaration.dimension with
      | some dimension =>
          rw [measured] at dimensions
          simp only [dimensions.1 dimension.value List.mem_cons_self]
      | none => rfl

namespace UnitTable

variable {isDimension otherDimension : String → Bool} {relevant : String → Prop}
  {foreign : List UnitDeclaration}
  (irrelevant : ∀ declaration ∈ foreign, ¬ relevant declaration.name)
  (dimensions : ∀ name, relevant name → otherDimension name = isDimension name)

include irrelevant dimensions

/--
Declarations of names that are not mentioned do not matter while a unit is
settled.
-/
theorem settle_append (unbegun : List UnitDeclaration)
    (mentioned : ∀ declaration ∈ unbegun,
      ∀ name ∈ declaration.mentions, relevant name)
    (stack : List String) {name : String} (isRelevant : relevant name) :
    settle otherDimension (unbegun ++ foreign) stack name =
      settle isDimension unbegun stack name := by
  induction size : unbegun.length using Nat.strongRecOn
    generalizing unbegun stack name with
  | ind size ih =>
      funext table
      have foundBoth := find?_append_foreign irrelevant isRelevant unbegun
      cases known : table.lookup name with
      | some outcome =>
          exact (run_settle_of_settled known).trans
            (run_settle_of_settled known).symm
      | none =>
          by_cases onStack : name ∈ stack
          · exact (run_settle_of_mem_stack known onStack).trans
              (run_settle_of_mem_stack known onStack).symm
          · cases found : unbegun.find?
              (fun candidate => candidate.name == name) with
            | none =>
                rw [found] at foundBoth
                exact (run_settle_of_undeclared known onStack foundBoth).trans
                  (run_settle_of_undeclared known onStack found).symm
            | some declaration =>
                rw [found] at foundBoth
                have inside :=
                  mentioned declaration (List.mem_of_find?_eq_some found)
                have evaluation : declaration.evaluate otherDimension
                      (settle otherDimension
                        (without UnitDeclaration.name (unbegun ++ foreign) name)
                        (stack ++ [name])) =
                    declaration.evaluate isDimension
                      (settle isDimension
                        (without UnitDeclaration.name unbegun name)
                        (stack ++ [name])) := by
                  rw [without, filter_append_foreign irrelevant isRelevant]
                  apply UnitDeclaration.evaluate_congr
                  · exact fun used member =>
                      dimensions used (inside used member)
                  · intro used member
                    refine ih _ (size ▸ length_without_lt found) _ ?_ _
                      (inside used member) rfl
                    exact fun other kept =>
                      mentioned other (mem_without_iff.mp kept).1
                refine (run_settle_of_unsettled known onStack foundBoth).trans
                  ?_
                rw [evaluation]
                exact (run_settle_of_unsettled known onStack found).symm

/-- The relevant units are settled alike, one after the other. -/
theorem foldl_extend_append {declarations : List UnitDeclaration}
    (mentioned : ∀ declaration ∈ declarations,
      ∀ name ∈ declaration.mentions, relevant name)
    (turns : List UnitDeclaration)
    (relevantTurns : ∀ declaration ∈ turns, relevant declaration.name)
    (table : UnitTable) :
    turns.foldl (extend otherDimension (declarations ++ foreign)) table =
      turns.foldl (extend isDimension declarations) table := by
  induction turns generalizing table with
  | nil => rfl
  | cons declaration rest ih =>
      rw [List.forall_mem_cons] at relevantTurns
      rw [List.foldl_cons, List.foldl_cons, extend, extend,
        settle_append irrelevant dimensions declarations mentioned []
          relevantTurns.1, ih relevantTurns.2]

end UnitTable

/-! ## Type expressions -/

/-- Both give the same for the relevant names. -/
structure Names.AgreesOn (relevant : String → Prop) (names others : Names) :
    Prop where
  kind : ∀ name, relevant name → names.kind name = others.kind name
  unit : ∀ name, relevant name → names.unit name = others.unit name

namespace Names.AgreesOn

variable {relevant : String → Prop} {names others : Names}

theorem named (agrees : names.AgreesOn relevant others) {name : String}
    (isRelevant : relevant name) (arguments : List Ty) (span : Span) :
    names.named name arguments span = others.named name arguments span := by
  rw [Names.named, Names.named, agrees.kind name isRelevant]

theorem bare (agrees : names.AgreesOn relevant others) {name : String}
    (isRelevant : relevant name) (parameters : List (String × Ty))
    (span : Span) :
    names.bare parameters name span = others.bare parameters name span := by
  rw [Names.bare, Names.bare, agrees.named isRelevant]

/-- A quantity depends on the units that it mentions. -/
theorem quantity (agrees : names.AgreesOn relevant others)
    {expression : UnitExpr}
    (mentioned : ∀ name ∈ expression.references, relevant name) :
    names.quantity expression = others.quantity expression := by
  rw [Names.quantity, Names.quantity,
    UnitExpr.evaluate_congr expression fun name member =>
      agrees.unit name (mentioned name member)]

mutual

/-- A type expression depends on the names in it. -/
theorem resolve (agrees : names.AgreesOn relevant others)
    (parameters : List (String × Ty)) :
    (expression : TypeExpr) → (∀ name ∈ expression.mentions, relevant name) →
      names.resolve parameters expression = others.resolve parameters expression
  | .primitive _ _, _ => rfl
  | .schemaName span name, mentioned =>
      agrees.bare (mentioned name List.mem_cons_self) parameters span
  | .enumName span name, mentioned =>
      agrees.bare (mentioned name List.mem_cons_self) parameters span
  | .array _ element, mentioned =>
      congrArg (Except.map Ty.array)
        (resolve agrees parameters element mentioned)
  | .optional _ inner, mentioned =>
      congrArg (Except.map Ty.optionalOf)
        (resolve agrees parameters inner mentioned)
  | .quantity _ _, mentioned => agrees.quantity mentioned
  | .tuple _ items, mentioned =>
      congrArg (Except.map Ty.tuple)
        (resolveAll agrees parameters items mentioned)
  | .union _ members, mentioned =>
      congrArg (Except.map Ty.unionOf)
        (resolveAll agrees parameters members mentioned)
  | .generic span name arguments, mentioned => by
      rw [TypeExpr.mentions, List.forall_mem_cons] at mentioned
      simp only [Names.resolve,
        resolveAll agrees parameters arguments mentioned.2,
        agrees.named mentioned.1]
termination_by structural expression => expression

theorem resolveAll (agrees : names.AgreesOn relevant others)
    (parameters : List (String × Ty)) :
    (expressions : List TypeExpr) →
      (∀ name ∈ TypeExpr.mentionsAll expressions, relevant name) →
      names.resolveAll parameters expressions =
        others.resolveAll parameters expressions
  | [], _ => rfl
  | expression :: rest, mentioned => by
      rw [TypeExpr.mentionsAll, List.forall_mem_append] at mentioned
      simp only [Names.resolveAll,
        resolve agrees parameters expression mentioned.1,
        resolveAll agrees parameters rest mentioned.2]
termination_by structural expressions => expressions

end

theorem lookup (agrees : names.AgreesOn relevant others)
    {declaration : LookupDeclaration}
    (mentioned : ∀ name ∈ declaration.mentions, relevant name) :
    names.lookup declaration = others.lookup declaration := by
  rw [LookupDeclaration.mentions, List.forall_mem_append] at mentioned
  rw [Names.lookup, Names.lookup, agrees.resolveAll [] _ mentioned.1,
    agrees.resolve [] _ mentioned.2]

/-- A signature depends on the names in its types. -/
theorem signature (agrees : names.AgreesOn relevant others)
    {declaration : TransformDeclaration}
    (mentioned : ∀ name ∈ declaration.mentions, relevant name) :
    names.signature declaration = others.signature declaration := by
  rw [TransformDeclaration.mentions, List.forall_mem_append,
    List.forall_mem_append] at mentioned
  rw [Names.signature, Names.signature, agrees.resolveAll [] _ mentioned.1.1,
    agrees.resolve [] _ mentioned.1.2]

end Names.AgreesOn

/-! ## Schemas -/

namespace SchemaFields

variable {relevant : String → Prop} {names others : Names}
  (agrees : names.AgreesOn relevant others)

include agrees

theorem declaredFields_agree {declared : List FieldDeclaration}
    (mentioned : ∀ field ∈ declared,
      ∀ name ∈ field.type.mentions, relevant name)
    (parameters fields : List (String × Ty)) :
    declaredFields names parameters fields declared =
      declaredFields others parameters fields declared := by
  induction declared generalizing fields with
  | nil => rfl
  | cons declaration rest ih =>
      rw [List.forall_mem_cons] at mentioned
      simp only [declaredFields,
        agrees.resolve parameters declaration.type mentioned.1, ih mentioned.2]

/-- A schema is completed alike where the names in it stand for the same. -/
theorem complete_agree {declaration : SchemaDeclaration}
    (mentioned : ∀ name ∈ declaration.mentions, relevant name)
    (state : SchemaFields) :
    state.complete names declaration = state.complete others declaration := by
  rw [SchemaDeclaration.mentions, List.forall_mem_append,
    List.forall_mem_flatMap] at mentioned
  rw [complete_eq, complete_eq, ownFields, ownFields,
    declaredFields_agree agrees mentioned.2]

variable {foreign : List SchemaDeclaration}
  (irrelevant : ∀ declaration ∈ foreign, ¬ relevant declaration.name)

include irrelevant

/--
Declarations of names that are not mentioned do not matter while a schema is
settled.
-/
theorem settle_append (unbegun : List SchemaDeclaration)
    (mentioned : ∀ declaration ∈ unbegun,
      ∀ name ∈ declaration.mentions, relevant name)
    {name : String} (isRelevant : relevant name) (state : SchemaFields) :
    settle names (unbegun ++ foreign) name state =
      settle others unbegun name state := by
  induction size : unbegun.length using Nat.strongRecOn
    generalizing unbegun name with
  | ind size ih =>
      have foundBoth := find?_append_foreign irrelevant isRelevant unbegun
      by_cases holds : state.Holds name
      · rw [settle_of_holds holds, settle_of_holds holds]
      · cases found : unbegun.find?
          (fun declaration => declaration.name == name) with
        | none =>
            rw [found] at foundBoth
            rw [settle_of_not_found foundBoth, settle_of_not_found found]
        | some declaration =>
            rw [found] at foundBoth
            have inside :=
              mentioned declaration (List.mem_of_find?_eq_some found)
            rw [settle_of_found holds foundBoth, settle_of_found holds found,
              complete_agree agrees inside]
            cases written : declaration.parent with
            | none => rfl
            | some parent =>
                have isParent : parent.value ∈ declaration.mentions := by
                  simp [SchemaDeclaration.mentions, written]
                simp only
                rw [without, filter_append_foreign irrelevant isRelevant]
                refine congrArg (complete others · declaration)
                  (ih _ (size ▸ length_without_lt found) _ ?_
                    (inside _ isParent) rfl)
                exact fun other kept =>
                  mentioned other (mem_without_iff.mp kept).1

/-- The relevant schemas are settled alike, one after the other. -/
theorem foldl_settle_append {declarations : List SchemaDeclaration}
    (mentioned : ∀ declaration ∈ declarations,
      ∀ name ∈ declaration.mentions, relevant name)
    (turns : List SchemaDeclaration)
    (relevantTurns : ∀ declaration ∈ turns, relevant declaration.name)
    (state : SchemaFields) :
    turns.foldl (fun state declaration =>
      settle names (declarations ++ foreign) declaration.name state) state =
      turns.foldl (fun state declaration =>
        settle others declarations declaration.name state) state := by
  induction turns generalizing state with
  | nil => rfl
  | cons declaration rest ih =>
      rw [List.forall_mem_cons] at relevantTurns
      rw [List.foldl_cons, List.foldl_cons,
        settle_append agrees irrelevant declarations mentioned relevantTurns.1,
        ih relevantTurns.2]

end SchemaFields

end SchemaMap
