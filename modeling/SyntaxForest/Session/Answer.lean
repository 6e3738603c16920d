import SyntaxForest.Diagnostic.Basic
import SyntaxForest.Pool.Basic
import SyntaxForest.Session.Dump
/-!
# Answers

What a command is answered with.
-/

namespace SyntaxForest

inductive Answer where
  | nothing
  | flag (b : Bool)
  | number (n : Int)
  | text (s : String)
  | span (s : Span)
  | node (id : NodeId)
  | value (v : Value)
  | kind (k : Kind)
  | record (r : ValueRecord)
  | diagnostic (d : Diagnostic)
  | label (l : Label)
  | dump (d : Dump)
  | policy (p : PoolPolicy)
  /-- A number per pool category. -/
  | sizes (ns : List (PoolCategory × Nat))
  /-- A number of bytes per pool category, and in all. -/
  | memory (parts : List (PoolCategory × Nat)) (total : Nat)
  | stats (hits misses : Nat) (hitRate : String) (sizes : List (PoolCategory × Nat))
  | registration (kind : String) (c : NodeClass)
  /-- A registry, and what it has under some names. -/
  | registry (r : Registry) (lookups : List (Option Answer))
  /-- A field and its value. -/
  | field (name : String) (s : Scalar)
  /-- What a walk has seen, and why it stopped early. -/
  | walk (seen : List Answer) (stopped : Option String)
  | list (items : List Answer)

namespace Answer

instance : Inhabited Answer := ⟨.nothing⟩

def nodes (ids : List NodeId) : Answer := .list (ids.map .node)

def node? : Option NodeId → Answer
  | some id => .node id
  | none => .nothing

def diagnostics (ds : List Diagnostic) : Answer := .list (ds.map .diagnostic)

def grouped (groups : List (Severity × List Diagnostic)) : Answer :=
  .list (groups.map (fun g => .list [.text g.1.name, diagnostics g.2]))

end Answer

end SyntaxForest
