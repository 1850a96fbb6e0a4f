/-!
# Operators

The operators with their spellings, how tightly they bind, and the family that
decides how they are typed.  `-` is listed once, as an operator between two
operands; where it stands before one it is `UnaryOperator.negate`.
-/

namespace SchemaMap

/-- Operators as they are written. -/
inductive Operator where
  | plus
  | minus
  | star
  | slash
  | equal
  | notEqual
  | less
  | lessEqual
  | greater
  | greaterEqual
  | and
  | or
  | coalesce
  | bang
deriving DecidableEq, Repr

namespace Operator

/-- Which operand of a chain is grouped first. -/
inductive Associativity where
  | left
  | right
deriving DecidableEq, Repr

/-- Where an operator stands. -/
inductive Fixity where
  /-- Between two operands. -/
  | between
  /-- Before one operand. -/
  | before
deriving DecidableEq, Repr

/-- The family of an operator, which decides how it is typed. -/
inductive Category where
  /-- The operands share their dimensions, which the result keeps. -/
  | additive
  /-- The result combines the dimensions of the operands. -/
  | multiplicative
  | comparison
  | logical
  /-- The second operand stands in for a missing first one. -/
  | coalescing
deriving DecidableEq, Repr

/-- The entry of an operator; a higher precedence binds tighter. -/
structure Entry where
  symbol : String
  aliases : List String
  precedence : Nat
  associativity : Associativity
  fixity : Fixity
  category : Category
deriving DecidableEq, Repr

/-- Every operator, in the order of the vocabulary. -/
def all : List Operator :=
  [.coalesce, .or, .and, .equal, .notEqual, .less, .lessEqual, .greater,
    .greaterEqual,
    .plus, .minus, .star, .slash, .bang]

/-- The entry of an operator. -/
def entry : Operator → Entry
  | .coalesce => ⟨"??", [], 10, .right, .between, .coalescing⟩
  | .or => ⟨"||", ["or"], 20, .left, .between, .logical⟩
  | .and => ⟨"&&", ["and"], 30, .left, .between, .logical⟩
  | .equal => ⟨"==", [], 40, .left, .between, .comparison⟩
  | .notEqual => ⟨"!=", [], 40, .left, .between, .comparison⟩
  | .less => ⟨"<", [], 40, .left, .between, .comparison⟩
  | .lessEqual => ⟨"<=", [], 40, .left, .between, .comparison⟩
  | .greater => ⟨">", [], 40, .left, .between, .comparison⟩
  | .greaterEqual => ⟨">=", [], 40, .left, .between, .comparison⟩
  | .plus => ⟨"+", [], 50, .left, .between, .additive⟩
  | .minus => ⟨"-", [], 50, .left, .between, .additive⟩
  | .star => ⟨"*", [], 60, .left, .between, .multiplicative⟩
  | .slash => ⟨"/", [], 60, .left, .between, .multiplicative⟩
  | .bang => ⟨"!", ["not"], 70, .right, .before, .logical⟩

/-- The first spelling of an operator. -/
def text (operator : Operator) : String :=
  operator.entry.symbol

/-- Every spelling of an operator. -/
def spellings (operator : Operator) : List String :=
  operator.entry.symbol :: operator.entry.aliases

/-- The family of an operator. -/
def category (operator : Operator) : Category :=
  operator.entry.category

/-- The operator that a text spells. -/
def ofText? (text : String) : Option Operator :=
  all.find? (fun operator => operator.spellings.contains text)

/-- The operator that a text spells between two operands. -/
def binaryOfText? (text : String) : Option Operator :=
  (ofText? text).filter (fun operator => operator.entry.fixity = .between)

end Operator

/-- Operators before a single operand. -/
inductive UnaryOperator where
  | not
  | negate
deriving DecidableEq, Repr

namespace UnaryOperator

/-- The operator that a text spells before an operand. -/
def ofText? (text : String) : Option UnaryOperator :=
  match Operator.ofText? text with
  | some .bang => some .not
  | some .minus => some .negate
  | _ => none

/-- The spelling of an operator. -/
def text : UnaryOperator → String
  | .not => "!"
  | .negate => "-"

end UnaryOperator

end SchemaMap
