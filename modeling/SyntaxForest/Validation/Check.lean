import SyntaxForest.Diagnostic.Draft
import SyntaxForest.Forest.Walk
/-!
# Checks of nodes

A validator walks a forest and runs the check of every node that has one. What
the checks and the listeners do is up to the host: they run on its state and may
fail, which ends the walk.
-/

namespace SyntaxForest

/-- Whether a node has a check to run. The hand-written nodes have none. A validator asks a
node for its check and its children and for nothing else, so that a hand-written node with a
check is to it what a node of a kind with the same children is; what is proved of validators
is about forests of any shape, in which nodes of kinds may also be on cycles. -/
def Forest.isValidatable (f : Forest) (id : NodeId) : Bool :=
  ((f.node? id).bind Node.kind?).isSome

/-- What a validator asks and tells its host. -/
structure Inspector (σ : Type) where
  /-- Run the check of a node. -/
  check : NodeId → Act σ (List Diagnostic)
  /-- A node was checked, with these findings. -/
  onNode : NodeId → List Diagnostic → Act σ Unit
  /-- A cycle was found: the repeated node, every step, the repeated node again. -/
  onCycle : List NodeId → Act σ Unit

/-- Run an action of the host beside a state of one's own. -/
def Act.beside {τ σ α : Type} (action : Act σ α) : Act (τ × σ) α :=
  action.onPart (·.2) (fun s p => (p.1, s))

/-- Check one node: collect what its check finds, then tell the listener. -/
def Inspector.runCheck {τ σ : Type} (ins : Inspector σ) (f : Forest)
    (collect : List Diagnostic → τ → τ) (id : NodeId) : Act (τ × σ) Unit :=
  if f.isValidatable id then do
    let found ← (ins.check id).beside
    modify (fun p => (collect found p.1, p.2))
    (ins.onNode id found).beside
  else pure ()

/-! ## Questions about findings -/

namespace Diagnostic

def count (severity : Severity) (found : List Diagnostic) : Nat :=
  (ofSeverity severity found).length

/-- The names of the severities in a summary. -/
def summaryLabels : List (Severity × String) :=
  [(.error, "errors"), (.warning, "warnings"), (.hint, "hints"), (.info, "info")]

/-- Findings in one line. -/
def summary (found : List Diagnostic) : String :=
  if found.isEmpty then "Validation passed: no errors found"
  else
    let parts := summaryLabels.filterMap (fun (severity, label) =>
      let n := count severity found
      if 0 < n then some s!"{n} {label}" else none)
    "Validation failed: " ++ String.intercalate ", " parts

end Diagnostic

end SyntaxForest
