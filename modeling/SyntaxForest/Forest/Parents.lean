import SyntaxForest.Forest.Walk
/-!
# Parent links

A parent link is informational: it says which node holds this one as far as
anybody has told. A pooled node is shared between trees and has none.
-/

namespace SyntaxForest.Forest

/-- The node a node was told to be held by. -/
def parent? (f : Forest) (id : NodeId) : Option NodeId :=
  if f.isPooled id then none else (f.node? id).bind Node.parent

/-- Tell a node what holds it. Pooled nodes do not listen. -/
def setParent (f : Forest) (id : NodeId) (parent : Option NodeId) : Forest :=
  if f.isPooled id then f else f.update id (fun n => { n with parent })

def attachParents (f : Forest) (root : NodeId) : Forest :=
  (f.tree root).edges.foldl (fun f e => f.setParent e.2 (some e.1)) f

/-- Clear the links of the root and of everything below it. -/
def detachParents (f : Forest) (root : NodeId) : Forest :=
  (f.preorder root).foldl (fun f id => f.setParent id none) f

/-- Parent, parent's parent and so on, at most `steps` of them. -/
def ancestorsWithin (f : Forest) : (steps : Nat) → NodeId → List NodeId
  | 0, _ => []
  | steps + 1, id =>
    match f.parent? id with
    | none => []
    | some p => p :: ancestorsWithin f steps p

/-- Parent, parent's parent and so on, up to the top. -/
def ancestors (f : Forest) (id : NodeId) : List NodeId := f.ancestorsWithin f.size id

/-- The other nodes the parent holds, in order. -/
def siblings (f : Forest) (id : NodeId) : List NodeId :=
  match f.parent? id with
  | none => []
  | some p => (f.children p).filter (· != id)

def isAncestorOf (f : Forest) (a b : NodeId) : Bool := (f.ancestors b).contains a

def isDescendantOf (f : Forest) (a b : NodeId) : Bool := (f.ancestors a).contains b

end SyntaxForest.Forest
