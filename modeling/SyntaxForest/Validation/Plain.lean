import SyntaxForest.Forest.Tour
import SyntaxForest.Validation.Check
/-!
# The plain validator

A walk in preorder over an acyclic structure. A node that is held twice is
checked twice.
-/

namespace SyntaxForest

/-- What a plain validator has found so far. -/
structure PlainValidator where
  found : List Diagnostic := []
deriving Inhabited

namespace PlainValidator

variable {σ : Type}

def collect (ds : List Diagnostic) (v : PlainValidator) : PlainValidator :=
  { v with found := v.found ++ ds }

/-- Check a node and everything below it, adding to the findings. -/
def visit (f : Forest) (ins : Inspector σ) (root : NodeId) : Act (PlainValidator × σ) Unit :=
  f.forPreorder (ins.runCheck f collect) root

/-- The checks run along the preorder walk. -/
theorem visit_eq (f : Forest) (ins : Inspector σ) (root : NodeId) :
    visit f ins root = (f.preorder root).forM (ins.runCheck f collect) :=
  f.forPreorder_eq _ root

/-- Forget all findings, then visit. -/
def validate (f : Forest) (ins : Inspector σ) (root : NodeId) :
    Act (PlainValidator × σ) (List Diagnostic) := do
  modify (fun p => ({}, p.2))
  visit f ins root
  return (← get).1.found

end PlainValidator

end SyntaxForest
