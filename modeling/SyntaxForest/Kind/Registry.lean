import SyntaxForest.Kind.Basic
/-!
# Kind registries

A registry records kind names with the class of their nodes. A class must bring
the four kernel methods; a name is registered at most once.
-/

namespace SyntaxForest

/-- A class of nodes: its name, and its members with whether each can be called. -/
structure NodeClass where
  name : String
  members : List (String × Bool)
deriving DecidableEq, Inhabited

namespace NodeClass

/-- The methods every class of nodes must bring. -/
def kernelMethods : List String := ["children", "accept", "clone", "equals"]

def complete (name : String) : NodeClass := ⟨name, kernelMethods.map (·, true)⟩

/-- Whether the class has a method of the name. A later member replaces an earlier one. -/
def hasMethod (c : NodeClass) (method : String) : Bool :=
  (c.members.reverse.find? (·.1 == method)).any (·.2)

/-- The first kernel method the class lacks. -/
def missingMethod? (c : NodeClass) : Option String :=
  kernelMethods.find? (fun m => !c.hasMethod m)

/-- The class of hand-written nodes with mutable links. -/
def graph : NodeClass := complete "GraphNode"

end NodeClass

def Strategy.nodeClass : Strategy → NodeClass
  | .standard => .complete "StandardNode"
  | .optimized => .complete "OptimizedNode"
  | .pooled => .complete "PooledNode"
  | .value => .complete "ValueNodeWrapper"

/-- Registrations in the order in which they were made. -/
structure Registry where
  entries : List (String × NodeClass) := []
deriving DecidableEq, Inhabited

namespace Registry

def kinds (r : Registry) : List String := r.entries.map (·.1)

def size (r : Registry) : Nat := r.entries.length

def get? (r : Registry) (kind : String) : Option NodeClass := Fields.find? r.entries kind

def has (r : Registry) (kind : String) : Bool := Fields.has r.entries kind

def register (r : Registry) (kind : String) (c : NodeClass) : Except Fault Registry :=
  match c.missingMethod? with
  | some method => .error (.incompleteKind kind method)
  | none =>
    if r.has kind then .error (.duplicateKind kind)
    else .ok { entries := r.entries ++ [(kind, c)] }

end Registry

end SyntaxForest
