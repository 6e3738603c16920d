import SyntaxForest.Visitor.Basic
/-!
# Rebuilding of trees

A transformer visits every child of a node and rebuilds the node when an answer
differs from the child. Answers are filed by child: where one node is held
several times, its last differing answer stands in all its places.
-/

namespace SyntaxForest

variable {σ : Type}

def lastAnswer? (answers : List (NodeId × Value)) (child : NodeId) : Option Value :=
  (answers.reverse.find? (·.1 == child)).map (·.2)

/-- What a child is replaced by, given the answers that differ from their child.
An answer of nothing leaves the child in place. -/
def replacement (answers : List (NodeId × Value)) (child : NodeId) : Value :=
  match lastAnswer? answers child with
  | none => .node child
  | some v => if v.isMissing then .node child else v

/-- Rebuild a schema node from an answer per child, or keep it when all answers
are the children themselves. The new record must fit the kind's table. -/
def Forest.mapChildren (kind : Kind) (id : NodeId) (span : Span) (fields : Fields)
    (answers : List (NodeId × Value)) : Act Forest NodeId := do
  let changed := answers.filter (fun a => !a.2.same (.node a.1))
  if changed.isEmpty then return id
  else
    let copy := kind.table.mapNodes (replacement changed) fields
    let f ← get
    Act.ofExcept (kind.table.check f.kindName kind.name copy)
    Forest.build kind span copy

/-- Visit the children of a schema node, left to right, and rebuild the node from
the answers. Nodes without a schema stay as they are. -/
def transformChildren (visit : Visit σ) (id : NodeId) : Act (World σ) NodeId := do
  let f ← Act.forest
  match f.node? id with
  | some { span, shape := .schema kind fields, .. } =>
    let answers ← (f.children id).mapM (fun c => do return (c, ← visit c))
    Act.onForest (Forest.mapChildren kind id span fields answers)
  | _ => return id

end SyntaxForest
