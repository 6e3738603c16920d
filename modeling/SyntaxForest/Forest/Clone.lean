import SyntaxForest.Forest.Walk
/-!
# Copies

A clone has fresh nodes for everything below a node. Pooled nodes are immutable
and shared, so they are their own clones; a value record is copied into a fresh
record.
-/

namespace SyntaxForest.Forest

/-- Copy a node, at most `steps` levels deep. The children are copied first, left
to right. -/
def cloneWithin : (steps : Nat) → NodeId → Act Forest NodeId
  | 0, id => pure id
  | steps + 1, id => do
    let f ← get
    match f.node? id with
    | none => return id
    | some n =>
      match n.shape with
      | .schema kind fields =>
        if n.isPooled then return id
        else
          let copies ← (kind.table.children fields).mapM (cloneWithin steps)
          let fields := kind.table.refill fields (copies.map .node)
          let f ← get
          Act.ofExcept (kind.table.check f.kindName kind.name fields)
          build kind n.span fields
      | .wrapped kind record => do
        let copy ← copyRecord kind record
        wrap kind copy
      | .graph name links => do
        let copies ← links.mapM (cloneWithin steps)
        make { span := n.span, shape := .graph name copies }

/-- Copy a node and everything below it. -/
def clone (id : NodeId) : Act Forest NodeId := do
  let f ← get
  cloneWithin (f.size + 1) id

end SyntaxForest.Forest
