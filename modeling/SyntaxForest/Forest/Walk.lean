import SyntaxForest.Forest.Basic
import SyntaxForest.Tree
/-!
# Walks and searches

`Forest.tree` unfolds a node into the tree of everything below it, with one
occurrence per path. On an acyclic forest no path is longer than the forest is
large, so the unfolding is complete. All walks, measures and searches are those
of the unfolding.
-/

namespace SyntaxForest

/-- A test for nodes: of one kind, or of any kind of a family. -/
inductive Matcher where
  | exactly (k : Kind)
  | within (a : AbstractKind)
deriving Inhabited

namespace Matcher

/-- The name of what is matched. -/
def name : Matcher → String
  | .exactly k => k.name
  | .within a => a.name

/-- Whether a node passes. Hand-written nodes belong to no kind and no family. -/
def accepts (f : Forest) (m : Matcher) (id : NodeId) : Bool :=
  match (f.node? id).bind Node.kind? with
  | none => false
  | some kind =>
    match m with
    | .exactly k => kind.id == k.id
    | .within a => kind.families.contains a

end Matcher

namespace Forest

/-- Unfold a node, at most `steps` levels deep. -/
def unfold (f : Forest) : (steps : Nat) → NodeId → Tree NodeId
  | 0, id => .node id []
  | steps + 1, id => .node id ((f.children id).map (unfold f steps))

/-- The node and everything below it. -/
def tree (f : Forest) (id : NodeId) : Tree NodeId := f.unfold f.size id

/-! ## Answers of a node about itself -/

def isLeaf (f : Forest) (id : NodeId) : Bool := f.isCompactLeaf id || (f.children id).isEmpty

def depth (f : Forest) (id : NodeId) : Nat := (f.tree id).depth f.isCompactLeaf

def count (f : Forest) (id : NodeId) : Nat := (f.tree id).count f.isCompactLeaf

def findAll (f : Forest) (m : Matcher) (id : NodeId) : List NodeId :=
  (f.tree id).findAll f.isCompactLeaf (m.accepts f)

def findFirst? (f : Forest) (m : Matcher) (id : NodeId) : Option NodeId :=
  (f.tree id).findFirst? f.isCompactLeaf (m.accepts f)

def contains (f : Forest) (m : Matcher) (id : NodeId) : Bool :=
  (f.tree id).contains f.isCompactLeaf (m.accepts f)

/-! ## Walks over what a node holds -/

def preorder (f : Forest) (id : NodeId) : List NodeId := (f.tree id).preorder

def postorder (f : Forest) (id : NodeId) : List NodeId := (f.tree id).postorder

def levelOrder (f : Forest) (id : NodeId) : List NodeId := (f.tree id).levelOrder

def withDepth (f : Forest) (start : Int) (id : NodeId) : List (Int × NodeId) :=
  (f.tree id).withDepth start

end Forest

end SyntaxForest
