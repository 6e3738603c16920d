import SyntaxForest.Forest.Walk
/-!
# Dumps

A dump shows a node with everything below it, field by field. A node that stands
on its own path from the top is shown as a loop.
-/

namespace SyntaxForest

mutual

inductive Dump where
  | schema (id : NodeId) (fields : List (String × FieldDump))
  | graph (id : NodeId) (name : String) (links : List Dump)
  | loop (id : NodeId)

inductive FieldDump where
  | value (v : Value)
  | node (d : Dump)
  | nodes (ds : List Dump)

end

instance : Inhabited Dump := ⟨.loop default⟩

namespace Forest

def dumpField (inner : NodeId → Dump) : Value → FieldDump
  | .node id => .node (inner id)
  | .list items =>
    if items.all (fun v => v.node?.isSome) then .nodes ((items.filterMap Value.node?).map inner)
    else .value (.list items)
  | v => .value v

/-- Show a node below the given ones, at most `steps` levels deep. -/
def dumpWithin (f : Forest) : (steps : Nat) → (above : List NodeId) → NodeId → Dump
  | 0, _, id => .loop id
  | steps + 1, above, id =>
    if above.contains id then .loop id
    else
      let inner := dumpWithin f steps (id :: above)
      match f.node? id with
      | none => .loop id
      | some n =>
        match n.shape with
        | .graph name links => .graph id name (links.map inner)
        | .schema kind fields | .wrapped kind { fields, .. } =>
          .schema id (kind.table.map (fun e =>
            (e.name, dumpField inner (Fields.read fields e.name))))

/-- Show a node. Nodes on one path differ, so no path is longer than the forest is
large. -/
def dump (f : Forest) (id : NodeId) : Dump := f.dumpWithin (f.size + 1) [] id

end Forest

end SyntaxForest
