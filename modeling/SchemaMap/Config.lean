/-!
# Configuration

Which of the optional rules the analysis follows.  All are off unless they are
asked for.
-/

namespace SchemaMap

/-- The optional rules of the analysis. -/
structure Config where
  /-- An `Int` is accepted where a `Float` is expected. -/
  numericWidening : Bool := false
  /-- The keys of a lookup are checked against its declaration. -/
  strictLookupKeys : Bool := false
  /-- Each step of a pipeline must accept what the step before it produces. -/
  pipelineChaining : Bool := false
deriving DecidableEq, Repr

namespace Config

def withNumericWidening (config : Config) (enabled : Bool) : Config :=
  { config with numericWidening := enabled }

def withStrictLookupKeys (config : Config) (enabled : Bool) : Config :=
  { config with strictLookupKeys := enabled }

def withPipelineChaining (config : Config) (enabled : Bool) : Config :=
  { config with pipelineChaining := enabled }

end Config

end SchemaMap
