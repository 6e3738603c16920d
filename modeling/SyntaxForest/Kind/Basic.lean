import SyntaxForest.Kind.Field
import SyntaxForest.Pool.Category
/-!
# Kinds

A kind is what a declaration yields: a name, a representation strategy, a field
table, the families it belongs to, and what a renderer or a pool needs to know.
Kinds are told apart by their ids, so two declarations of one name stay different
kinds.
-/

namespace SyntaxForest

/-- How the nodes of a kind are represented. -/
inductive Strategy where
  /-- One node per construction. -/
  | standard
  /-- As standard, with shortcuts for leaf kinds. -/
  | optimized
  /-- Leaf nodes shared through a pool. -/
  | pooled
  /-- Records without identity as a node, wrapped when they stand in a tree. -/
  | value
deriving DecidableEq, Inhabited

def Strategy.name : Strategy → String
  | .standard => "standard"
  | .optimized => "optimized"
  | .pooled => "pooled"
  | .value => "value"

/-- A named family of kinds. It has no instances; kinds join it. -/
structure AbstractKind where
  id : Nat
  name : String
deriving DecidableEq, Inhabited

structure KindId where
  index : Nat
deriving DecidableEq, Inhabited

structure Kind where
  id : KindId
  name : String
  strategy : Strategy
  table : FieldTable
  families : List AbstractKind
  /-- The scalar field a renderer shows beside the kind's name. -/
  displayName : Option String
  /-- Where a pooled kind's nodes are shared; none if they never are. -/
  poolCategory : Option PoolCategory
deriving Inhabited

def visitMethodName (kind : String) : String := "visit" ++ kind

namespace Kind

/-- No field can hold a node. -/
def isLeaf (k : Kind) : Bool := k.table.isLeaf

/-- Whether equality and the derived operations take shortcuts. -/
def isCompact (k : Kind) : Bool := k.strategy == .optimized || k.strategy == .pooled

def visitMethod (k : Kind) : String := visitMethodName k.name

/-- The display field's value in a record, if it is a scalar. -/
def displayField? (k : Kind) (fields : Fields) : Option (String × Scalar) := do
  let name ← k.displayName
  let value ← (Fields.read fields name).scalar?
  return (name, value)

end Kind

end SyntaxForest
