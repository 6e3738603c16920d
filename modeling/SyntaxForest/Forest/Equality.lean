import SyntaxForest.Forest.Walk
/-!
# Equality of nodes

Nodes are equal when they have the same kind, equal spans, the same scalars and
equal children one by one. Compact nodes are equal to themselves without a look;
value records are compared by content, or by being the same record; graph nodes
by name and span alone.
-/

namespace SyntaxForest

/-- Whether two value records agree, seen through a value kind. -/
def Kind.sameRecord (k : Kind) (a b : ValueRecord) : Bool :=
  a.id == b.id || (a.span.eqv b.span && k.table.sameScalars a.fields b.fields)

namespace Forest

/-- How the children of two nodes decide over their equality. -/
inductive Agreement where
  | equal
  | unequal
  /-- Equal when the children are. -/
  | ifChildren
deriving DecidableEq

/-- Compare two nodes without their children. -/
def agreement (f : Forest) (a b : NodeId) : Agreement :=
  match f.node? a, f.node? b with
  | some x, some y =>
    match x.shape, y.shape with
    | .schema k fs, .schema k' gs =>
      if k.isCompact && a == b then .equal
      else if k.id == k'.id && x.span.eqv y.span && k.table.sameScalars fs gs then .ifChildren
      else .unequal
    | .wrapped k r, .wrapped k' r' =>
      if k.id == k'.id && k.sameRecord r r' then .equal else .unequal
    | .graph n _, .graph n' _ =>
      if n == n' && x.span.eqv y.span then .equal else .unequal
    | _, _ => .unequal
  | _, _ => .unequal

/-- Equality of two nodes, looked into at most `steps` levels deep. Children are
compared one by one; lists of different lengths are unequal. -/
def equalWithin (f : Forest) : (steps : Nat) → NodeId → NodeId → Bool
  | 0, a, b => f.agreement a b != .unequal
  | steps + 1, a, b =>
    match f.agreement a b with
    | .equal => true
    | .unequal => false
    | .ifChildren =>
      let as := f.children a
      let bs := f.children b
      as.length == bs.length && as.isEqv bs (equalWithin f steps)

def equals (f : Forest) (a b : NodeId) : Bool := f.equalWithin f.size a b

end Forest

end SyntaxForest
