import SyntaxForest.Validation.Check
/-!
# The structural validator

A depth-first walk over a graph that may have cycles. A node is in progress while
the walk is below it, and done afterwards. Reaching a node in progress closes a
cycle, which is read off the stack of nodes in progress and reported once; a done
node is not walked again, so every check runs once.

Marks and stack belong to the validator and outlive a call; a walk that fails
leaves them as they are until the validator is cleared.
-/

namespace SyntaxForest

/-- How far the walk is with a node. -/
inductive Mark where
  | inProgress
  | done
deriving DecidableEq, Inhabited

structure StructuralValidator where
  /-- Findings of the nodes' checks. -/
  custom : List Diagnostic := []
  /-- One finding per cycle. -/
  structural : List Diagnostic := []
  /-- The cycles found: repeated node, every step, repeated node again. -/
  cycles : List (List NodeId) := []
  /-- Marks given so far, newest first; the newest of a node counts. -/
  marks : List (NodeId × Mark) := []
  /-- Nodes in progress, outermost first. -/
  stack : List NodeId := []
deriving Inhabited

namespace StructuralValidator

variable {σ : Type}

def cycleMessage : String := "Circular reference detected in AST"

def cycleHelp : String := "AST nodes should form a tree structure without cycles"

def mark? (v : StructuralValidator) (id : NodeId) : Option Mark :=
  (v.marks.find? (·.1 == id)).map (·.2)

/-- Begin with a node. -/
def enter (id : NodeId) (v : StructuralValidator) : StructuralValidator :=
  { v with marks := (id, .inProgress) :: v.marks, stack := v.stack ++ [id] }

/-- End with a node, the innermost one. -/
def leave (id : NodeId) (v : StructuralValidator) : StructuralValidator :=
  { v with marks := (id, .done) :: v.marks, stack := v.stack.dropLast }

def collect (ds : List Diagnostic) (v : StructuralValidator) : StructuralValidator :=
  { v with custom := v.custom ++ ds }

/-- The path of the cycle that a node in progress closes. -/
def cyclePath (v : StructuralValidator) (repeated : NodeId) : List NodeId :=
  v.stack.dropWhile (· != repeated) ++ [repeated]

/-- The finding for a cycle: a label on the repeated node and one per other step. -/
def describeCycle (f : Forest) (repeated : NodeId) (path : List NodeId) : Diagnostic :=
  let start : Draft :=
    ({ severity := .error, message := cycleMessage } : Draft).primary (f.span repeated)
      "cycle starts and ends here"
  let labelled := path.zipIdx.foldl
    (fun draft (id, i) =>
      if id == repeated then draft
      else draft.secondary (f.span id) s!"part of cycle (step {i + 1})") start
  (labelled.help cycleHelp).build

/-- Record a cycle. -/
def addCycle (f : Forest) (repeated : NodeId) (path : List NodeId)
    (v : StructuralValidator) : StructuralValidator :=
  { v with
    cycles := v.cycles ++ [path]
    structural := v.structural ++ [describeCycle f repeated path] }

/-- Report the cycle that a node in progress closes. -/
def reportCycle (f : Forest) (ins : Inspector σ) (repeated : NodeId) :
    Act (StructuralValidator × σ) Unit := do
  let path := (← get).1.cyclePath repeated
  modify (fun p => (p.1.addCycle f repeated path, p.2))
  (ins.onCycle path).beside

/-- Walk from a node, at most `steps` levels deep. -/
def visitWithin (f : Forest) (ins : Inspector σ) : (steps : Nat) → NodeId →
    Act (StructuralValidator × σ) Unit
  | 0, _ => pure ()
  | steps + 1, id => do
    match (← get).1.mark? id with
    | some .inProgress => reportCycle f ins id
    | some .done => pure ()
    | none =>
      modify (fun p => (p.1.enter id, p.2))
      ins.runCheck f collect id
      (f.children id).forM (visitWithin f ins steps)
      modify (fun p => (p.1.leave id, p.2))

/-- Walk from a node, adding to the findings. Each level of the walk holds a
different node in progress, so no walk goes deeper than the forest is large. -/
def visit (f : Forest) (ins : Inspector σ) (root : NodeId) :
    Act (StructuralValidator × σ) Unit :=
  visitWithin f ins (f.size + 2) root

/-- All findings: those of the checks, then the cycles. -/
def findings (v : StructuralValidator) : List Diagnostic := v.custom ++ v.structural

/-- Clear the validator, then visit. -/
def validate (f : Forest) (ins : Inspector σ) (root : NodeId) :
    Act (StructuralValidator × σ) (List Diagnostic) := do
  modify (fun p => ({}, p.2))
  visit f ins root
  return (← get).1.findings

end StructuralValidator

end SyntaxForest
