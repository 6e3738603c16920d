import SyntaxForest.World
/-!
# Visitors

A visitor gives a value for a node. It handles a node by the method named after
the node's kind, or by its fallback; a method is given a way to visit further
nodes, which leads back to the visitor itself.
-/

namespace SyntaxForest

variable {σ : Type}

abbrev Visit (σ : Type) := NodeId → Act (World σ) Value

abbrev VisitMethod (σ : Type) := (visit : Visit σ) → NodeId → Act (World σ) Value

structure Visitor (σ : Type) where
  /-- The methods there are, by name. -/
  method? : String → Option (VisitMethod σ)
  fallback : VisitMethod σ

namespace Visitor

/-- The handling of a node by its method, or by the fallback. -/
def dispatch (v : Visitor σ) (visit : Visit σ) (id : NodeId) : Act (World σ) Value := do
  let f ← Act.forest
  match (f.node? id).bind (fun n => v.method? n.visitMethod) with
  | some method => method visit id
  | none => v.fallback visit id

/-- Visit a node, at most `steps` levels deep. -/
def visitWithin (v : Visitor σ) : (steps : Nat) → Visit σ
  | 0, _ => Act.hostFault "the visit goes deeper than the forest"
  | steps + 1, id => v.dispatch (visitWithin v steps) id

/-- Visit a node. Methods go from a node to what it holds, so a visit is never
deeper than the forest was large at its start. -/
def visit (v : Visitor σ) (id : NodeId) : Act (World σ) Value := do
  let f ← Act.forest
  v.visitWithin (f.size + 2) id

/-- The fallback that refuses nodes without a method. -/
def refuse : VisitMethod σ := fun _ id => do
  let f ← Act.forest
  throw (.missingVisit (visitMethodName (f.kindName id)) (f.kindName id))

/-- The fallback that gives the node itself. -/
def keep : VisitMethod σ := fun _ id => return .node id

end Visitor

end SyntaxForest
