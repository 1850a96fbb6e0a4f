import SchemaMap.Inference.Basic

/-!
# What inference sees of a context

Inference asks a context for the fields of schemas, the variants of enumerations
and the types of lookup tables, and for nothing else that is declared.  Contexts
that agree on these (`Alike`) give the same inference, with the same trace and
the same fault.
-/

namespace SchemaMap.Context

/-- Apart from what is declared, both contexts are the same. -/
structure SameReach (context other : Context) : Prop where
  config : context.config = other.config
  source : context.source = other.source
  variableType : context.variableType = other.variableType

namespace SameReach

variable {context other : Context} (same : context.SameReach other)

include same

theorem withVariables (bound : List (String × Ty)) :
    (context.withVariables bound).SameReach (other.withVariables bound) where
  config := same.config
  source := same.source
  variableType := by
    rw [Context.withVariables, Context.withVariables, same.variableType]

theorem accepts (found expected : Ty) :
    context.accepts found expected = other.accepts found expected := by
  rw [Context.accepts, Context.accepts, same.config]

/-- The start of a path has the same type within the same reach. -/
theorem rootType (root : PathRoot) (span : Span) :
    context.rootType root span = other.rootType root span := by
  simp only [Context.rootType, same.source, same.variableType]

theorem checkKeys (table : String) (keys : List (Ty × Ty × Span)) :
    context.checkKeys table keys = other.checkKeys table keys := by
  induction keys with
  | nil => rfl
  | cons key rest ih => simp only [Context.checkKeys, same.accepts, ih]

theorem checkLookup (table : Located String) (expected found : List Ty)
    (spans : List Span) :
    context.checkLookup table expected found spans =
      other.checkLookup table expected found spans := by
  simp only [Context.checkLookup, same.checkKeys]

end SameReach

/-- Inference sees the same in both contexts. -/
structure Alike (context other : Context) :
    Prop extends context.SameReach other where
  schema : ∀ name,
    (context.kind name).bind Kind.schema? = (other.kind name).bind Kind.schema?
  variants : ∀ name,
    (context.kind name).bind Kind.variants? =
      (other.kind name).bind Kind.variants?
  lookup : ∀ name,
    (context.kind name).bind Kind.lookup? = (other.kind name).bind Kind.lookup?

/-- The fields of a schema are those of its kind, with the arguments put in. -/
theorem fields_eq (context : Context) (name : String) (arguments : List Ty) :
    context.fields name arguments =
      (((context.kind name).bind Kind.schema?).map fun found =>
        found.1.fieldsAt arguments).getD [] := by
  unfold fields
  cases context.kind name with
  | none => rfl
  | some kind => cases kind <;> rfl

namespace Alike

variable {context other : Context}

theorem withVariables (alike : context.Alike other)
    (bound : List (String × Ty)) :
    (context.withVariables bound).Alike (other.withVariables bound) where
  toSameReach := alike.toSameReach.withVariables bound
  schema := alike.schema
  variants := alike.variants
  lookup := alike.lookup

theorem fieldType (alike : context.Alike other) (base : Ty) (field : String)
    (span : Span) :
    context.fieldType base field span = other.fieldType base field span := by
  simp only [Context.fieldType, fields_eq, alike.schema]

theorem walk (alike : context.Alike other) (base : Ty)
    (fields : List (Located String)) :
    context.walk base fields = other.walk base fields := by
  induction fields generalizing base with
  | nil => rfl
  | cons field rest ih => simp only [Context.walk_cons, alike.fieldType, ih]

theorem checkPattern (alike : context.Alike other) (subject : Ty)
    (pattern : Pattern) :
    context.checkPattern subject pattern =
      other.checkPattern subject pattern := by
  cases pattern <;> simp only [Context.checkPattern, alike.variants]

mutual

/-- Alike contexts give the same inference. -/
theorem infer {context other : Context} (alike : context.Alike other) :
    (expression : Expr) → context.infer expression = other.infer expression
  | .literal _ _ => rfl
  | .path _ _ segments => by
      simp only [Context.infer, alike.rootType, inferSegments alike _ segments]
  | .binary _ left _ right => by
      simp only [Context.infer, infer alike left, infer alike right]
  | .unary _ _ operand => by
      simp only [Context.infer, infer alike operand]
  | .conditional _ condition thenBranch elseBranch => by
      simp only [Context.infer, infer alike condition, infer alike thenBranch,
        infer alike elseBranch]
  | .matching _ subject arms => by
      simp only [Context.infer, infer alike subject, inferArms alike _ arms]
  | .lambda _ _ body => by
      simp only [Context.infer, infer (alike.withVariables _) body]
  | .aggregate _ _ source => by
      simp only [Context.infer, infer alike source]
  | .aggregateWith _ _ source _ _ body => by
      simp only [Context.infer, infer alike source,
        infer (alike.withVariables _) body]
  | .lookup _ _ keys => by
      simp only [Context.infer, alike.lookup, alike.config, alike.checkLookup,
        inferAll alike keys]
termination_by structural expression => expression

theorem inferSegments {context other : Context} (alike : context.Alike other)
    (walk : Walk) :
    (segments : List Segment) →
      context.inferSegments walk segments = other.inferSegments walk segments
  | [] => rfl
  | .field _ _ _ :: rest => by
      simp only [Context.inferSegments, alike.fieldType,
        inferSegments alike _ rest]
  | .index _ position _ :: rest => by
      simp only [Context.inferSegments, infer alike position,
        inferSegments alike _ rest]
termination_by structural segments => segments

theorem inferArms {context other : Context} (alike : context.Alike other)
    (subject : Ty) :
    (arms : List Arm) →
      context.inferArms subject arms = other.inferArms subject arms
  | [] => rfl
  | .mk _ _ body :: rest => by
      simp only [Context.inferArms, alike.checkPattern, infer alike body,
        inferArms alike subject rest]
termination_by structural arms => arms

theorem inferAll {context other : Context} (alike : context.Alike other) :
    (expressions : List Expr) →
      context.inferAll expressions = other.inferAll expressions
  | [] => rfl
  | expression :: rest => by
      simp only [Context.inferAll, infer alike expression, inferAll alike rest]
termination_by structural expressions => expressions

end

/-- Rules are checked alike. -/
theorem checkRule (alike : context.Alike other) (target : Ty) (rule : Rule) :
    context.checkRule target rule = other.checkRule target rule := by
  simp only [Context.checkRule, alike.walk, alike.infer, alike.accepts]

end Alike

end SchemaMap.Context
