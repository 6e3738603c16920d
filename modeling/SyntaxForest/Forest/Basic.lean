import SyntaxForest.Kind.Declaration
import SyntaxForest.Span
import SyntaxForest.Act
/-!
# Forests

A forest holds the nodes in the order of their making; a `NodeId` is a position
in it. A node has a span, a shape and a link to the node that holds it. Schema
nodes and wrapped records hold nodes made earlier, so their links cannot form a
cycle; hand-written graph nodes may gain links to any node.
-/

namespace SyntaxForest

/-- A value-type node: a record with an identity of its own, but no node. -/
structure ValueRecord where
  id : Nat
  kind : String
  span : Span
  fields : Fields
deriving Inhabited

/-- What a node is. -/
inductive Shape where
  /-- A node described by the field table of its kind. -/
  | schema (kind : Kind) (fields : Fields)
  /-- A value record standing in a tree, seen through a value kind. -/
  | wrapped (kind : Kind) (record : ValueRecord)
  /-- A hand-written node: a name and a growing list of links. -/
  | graph (name : String) (links : List NodeId)
deriving Inhabited

structure Node where
  span : Span
  shape : Shape
  /-- The node that holds this one, as last told. -/
  parent : Option NodeId := none
deriving Inhabited

namespace Node

/-- The kind name a node goes by. A wrapped record keeps its own. -/
def kindName (n : Node) : String :=
  match n.shape with
  | .schema kind _ => kind.name
  | .wrapped _ record => record.kind
  | .graph _ _ => NodeClass.graph.name

/-- The kind a node was made by; hand-written nodes have none. -/
def kind? (n : Node) : Option Kind :=
  match n.shape with
  | .schema kind _ => some kind
  | .wrapped kind _ => some kind
  | .graph _ _ => none

/-- A schema node whose kind takes the leaf shortcuts. -/
def isCompactLeaf (n : Node) : Bool :=
  match n.shape with
  | .schema kind _ => kind.isCompact && kind.isLeaf
  | _ => false

/-- Shared between trees, so without a parent of its own. -/
def isPooled (n : Node) : Bool :=
  match n.shape with
  | .schema kind _ => kind.strategy == .pooled
  | _ => false

def children (n : Node) : List NodeId :=
  match n.shape with
  | .schema kind fields =>
    if kind.isCompact && kind.isLeaf then [] else kind.table.children fields
  | .wrapped _ _ => []
  | .graph _ links => links

def fields (n : Node) : Fields :=
  match n.shape with
  | .schema _ fields => fields
  | .wrapped _ record => record.fields
  | .graph name _ => [("name", .text name)]

/-- The method by which a visitor handles the node: named by the kind it was made by. -/
def visitMethod (n : Node) : String :=
  match n.kind? with
  | some kind => kind.visitMethod
  | none => visitMethodName n.kindName

/-- The debug form: kind and range. -/
def text (n : Node) : String := n.kindName ++ "[" ++ n.span.text ++ "]"

/-- The field a renderer shows beside the kind. -/
def displayField? (n : Node) : Option (String × Scalar) :=
  match n.kind? with
  | some kind => kind.displayField? n.fields
  | none => none

end Node

structure Forest where
  nodes : Array Node := #[]
  /-- How many value records were made. -/
  recordCount : Nat := 0
deriving Inhabited

namespace Forest

def size (f : Forest) : Nat := f.nodes.size

def node? (f : Forest) (id : NodeId) : Option Node := f.nodes[id.index]?

def children (f : Forest) (id : NodeId) : List NodeId :=
  ((f.node? id).map Node.children).getD []

def kindName (f : Forest) (id : NodeId) : String := ((f.node? id).map Node.kindName).getD ""

def span (f : Forest) (id : NodeId) : Span := ((f.node? id).map Node.span).getD .empty

/-- The debug form of a node. -/
def nodeText (f : Forest) (id : NodeId) : String := ((f.node? id).map Node.text).getD ""

/-- The field a renderer shows beside a node. -/
def displayField? (f : Forest) (id : NodeId) : Option (String × Scalar) :=
  (f.node? id).bind Node.displayField?

def isCompactLeaf (f : Forest) (id : NodeId) : Bool :=
  ((f.node? id).map Node.isCompactLeaf).getD false

def isPooled (f : Forest) (id : NodeId) : Bool := ((f.node? id).map Node.isPooled).getD false

/-- The value of a named field, absent where there is none. -/
def field (f : Forest) (id : NodeId) (name : String) : Value :=
  match f.node? id with
  | some n => Fields.read n.fields name
  | none => .absent

/-- Follow field names from a node; past anything but a node there is nothing. -/
def fieldAt (f : Forest) : Value → List String → Value
  | v, [] => v
  | .node id, name :: rest => fieldAt f (f.field id name) rest
  | _, _ :: _ => .absent

def add (f : Forest) (n : Node) : NodeId × Forest :=
  (⟨f.nodes.size⟩, { f with nodes := f.nodes.push n })

def update (f : Forest) (id : NodeId) (change : Node → Node) : Forest :=
  { f with nodes := f.nodes.modify id.index change }

@[simp] theorem size_add (f : Forest) (n : Node) : (f.add n).2.size = f.size + 1 := by
  simp [add, size]

/-- A new node is found under its identity. -/
@[simp] theorem node?_add_self (f : Forest) (n : Node) : (f.add n).2.node? (f.add n).1 = some n := by
  simp [add, node?]

/-- A new node leaves all others in place. -/
theorem node?_add_of_lt (f : Forest) (n : Node) {id : NodeId} (h : id.index < f.size) :
    (f.add n).2.node? id = f.node? id := by
  simp only [add, node?, size] at h ⊢
  rw [Array.getElem?_push_lt h, Array.getElem?_eq_getElem h]

@[simp] theorem size_update (f : Forest) (id : NodeId) (change : Node → Node) :
    (f.update id change).size = f.size := by
  simp [update, size]

theorem node?_update (f : Forest) (id other : NodeId) (change : Node → Node) :
    (f.update id change).node? other =
      if id = other then (f.node? other).map change else f.node? other := by
  rcases id with ⟨i⟩
  rcases other with ⟨j⟩
  simp only [update, node?, Array.getElem?_modify, NodeId.mk.injEq]

/-! ## Making nodes -/

def make (n : Node) : Act Forest NodeId := fun f =>
  let (id, f) := f.add n
  (.ok id, f)

/-- Store a record as a node of a kind, without the checks of a construction. -/
def build (kind : Kind) (span : Span) (fields : Fields) : Act Forest NodeId := do
  let f ← get
  let stored ← Act.ofExcept (kind.table.settle f.kindName kind.name fields)
  make { span, shape := .schema kind stored }

/-- Make a node of a schema kind; every field must fit. -/
def create (kind : Kind) (span : Span) (fields : Fields) : Act Forest NodeId := do
  let f ← get
  Act.ofExcept (kind.table.check f.kindName kind.name fields)
  build kind span fields

/-- Store a value record, without the checks of a construction. -/
def buildRecord (kind : Kind) (span : Span) (fields : Fields) : Act Forest ValueRecord := do
  let f ← get
  let stored ← Act.ofExcept (kind.table.settle f.kindName kind.name fields)
  set { f with recordCount := f.recordCount + 1 }
  return { id := f.recordCount, kind := kind.name, span, fields := stored }

/-- Make a record of a value kind; every field must fit. -/
def createRecord (kind : Kind) (span : Span) (fields : Fields) : Act Forest ValueRecord := do
  let f ← get
  Act.ofExcept (kind.table.check f.kindName kind.name fields)
  buildRecord kind span fields

/-- A fresh record with the content of another one. -/
def copyRecord (kind : Kind) (record : ValueRecord) : Act Forest ValueRecord :=
  buildRecord kind record.span record.fields

def wrap (kind : Kind) (record : ValueRecord) : Act Forest NodeId :=
  make { span := record.span, shape := .wrapped kind record }

def unwrap? (f : Forest) (kind : Kind) (id : NodeId) : Option ValueRecord := do
  let n ← f.node? id
  match n.shape with
  | .wrapped k record => if k.id = kind.id then some record else none
  | _ => none

/-- Make a graph node without links. -/
def createGraph (name : String) (span : Span) : Act Forest NodeId :=
  make { span, shape := .graph name [] }

/-- Append links to a graph node; other nodes stay as they are. -/
def link (f : Forest) (id : NodeId) (targets : List NodeId) : Forest :=
  f.update id (fun n => match n.shape with
    | .graph name links => { n with shape := .graph name (links ++ targets) }
    | _ => n)

end Forest

end SyntaxForest
