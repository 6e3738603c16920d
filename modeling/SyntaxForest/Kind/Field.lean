import SyntaxForest.Fault.Basic
/-!
# Field tables

A kind describes its fields by a table: a name and a type per field, in order. A
record of named values fits a table when every field's value has the field's
type. `FieldTable.children` lists the nodes a record holds, `FieldTable.mapNodes`
copies it with every node replaced, and `FieldTable.refill` does so one position
after the other; all three visit the node-holding fields in table order. A copy is
made by assigning its fields, and so has no field under the name of the root
(`Fields.assigned`).
-/

namespace SyntaxForest

/-- The types of leaf fields. A float holds any number, an int only integers. -/
inductive ScalarType where
  | int
  | float
  | string
  | bool
deriving DecidableEq, Inhabited

def ScalarType.name : ScalarType → String
  | .int => "int"
  | .float => "float"
  | .string => "string"
  | .bool => "bool"

def ScalarType.fits : ScalarType → Scalar → Bool
  | .int, .num n => n.isInteger
  | .float, .num _ => true
  | .string, .text _ => true
  | .bool, .bool _ => true
  | _, _ => false

/-- What a field holds: a scalar or null, a node or null, or a list of nodes. -/
inductive FieldType where
  | scalar (type : ScalarType) (optional : Bool)
  | node (optional : Bool)
  | nodes
deriving DecidableEq, Inhabited

namespace FieldType

def isScalar : FieldType → Bool
  | .scalar _ _ => true
  | _ => false

def isOptional : FieldType → Bool
  | .scalar _ optional => optional
  | .node optional => optional
  | .nodes => false

def categoryName : FieldType → String
  | .scalar _ _ => "primitive"
  | .node _ => "node"
  | .nodes => "node-list"

def scalarType? : FieldType → Option ScalarType
  | .scalar type _ => some type
  | _ => none

def fits (type : FieldType) : Value → Bool
  | .absent => false
  | .null => type.isOptional
  | .scalar s => match type with
    | .scalar t _ => t.fits s
    | _ => false
  | .node _ => match type with
    | .node _ => true
    | _ => false
  | .list items => match type with
    | .nodes => items.all (fun v => v.node?.isSome)
    | _ => false
  | .object _ _ | .builtin _ => false

/-- How a field type is called in a mismatch. -/
def describe (type : FieldType) : String :=
  let base := match type with
    | .scalar t _ => t.name
    | .node _ => "node"
    | .nodes => "node list"
  if type.isOptional then base ++ " or null" else base

def nodesOf : FieldType → Value → List NodeId
  | .node _, .node id => [id]
  | .nodes, .list items => items.filterMap Value.node?
  | _, _ => []

/-- Copy a value, each node in it replaced. Items of a list that are no nodes are
left out; scalar fields are copied as they are. -/
def mapNodes (f : NodeId → Value) : FieldType → Value → Value
  | .node _, .node id => f id
  | .nodes, .list items => .list ((items.filterMap Value.node?).map f)
  | _, v => v

/-- Copy a value, its nodes replaced by the first of the given answers. -/
def refill (answers : List Value) : FieldType → Value → Value
  | .node _, .node id => answers.headD (.node id)
  | .nodes, .list items => .list (answers.take (items.filterMap Value.node?).length)
  | _, v => v

end FieldType

structure FieldSpec where
  name : String
  type : FieldType
deriving DecidableEq, Inhabited

/-- The fields of a kind in order. -/
abbrev FieldTable := List FieldSpec

/-- How a value is called in a mismatch; `kindOf` names the kind of a node. -/
def Value.describe (kindOf : NodeId → String) : Value → String
  | .absent => "undefined"
  | .null => "null"
  | .scalar (.num _) => "number"
  | .scalar (.bool _) => "boolean"
  | .scalar (.text _) => "string"
  | .node id => "node " ++ kindOf id
  | .list _ => "array"
  | .object _ _ => "object"
  | .builtin name => if name = Fields.rootName then "object" else "function"

namespace FieldTable

/-- The table of a list of named types, in the listing order of records. -/
def ofPairs (pairs : List (String × FieldType)) : FieldTable :=
  (Fields.ofPairs pairs).map (fun p => ⟨p.1, p.2⟩)

/-- Names that a field may not have. -/
def reservedNames : List String :=
  ["span", "children", "accept", "clone", "kind", "fields", "parent"]

/-- No field can hold a node, so no instance has children. -/
def isLeaf (table : FieldTable) : Bool := table.all (fun e => e.type.isScalar)

/-- Whether every field of the table has a fitting value in the record. -/
def fits (table : FieldTable) (fields : Fields) : Bool :=
  table.all (fun e => e.type.fits (Fields.read fields e.name))

/-- The first field whose value does not fit. -/
def mismatch? (table : FieldTable) (fields : Fields) : Option FieldSpec :=
  table.find? (fun e => !e.type.fits (Fields.read fields e.name))

/-- Fail on the first field whose value does not fit. -/
def check (kindOf : NodeId → String) (kind : String) (table : FieldTable) (fields : Fields) :
    Except Fault Unit :=
  match table.mismatch? fields with
  | none => .ok ()
  | some e =>
    .error (.fieldMismatch e.name kind e.type.describe
      ((Fields.read fields e.name).describe kindOf))

def children (table : FieldTable) (fields : Fields) : List NodeId :=
  table.flatMap (fun e => e.type.nodesOf (Fields.read fields e.name))

def mapNodes (f : NodeId → Value) (table : FieldTable) (fields : Fields) : Fields :=
  table.map (fun e => (e.name, Fields.assigned e.name (e.type.mapNodes f (Fields.read fields e.name))))

/-- Copy the fields of the table, the nodes replaced position by position. -/
def refill : FieldTable → Fields → List Value → Fields
  | [], _, _ => []
  | e :: rest, fields, answers =>
    let v := Fields.read fields e.name
    (e.name, Fields.assigned e.name (e.type.refill answers v)) ::
      refill rest fields (answers.drop (e.type.nodesOf v).length)

def sameScalars (table : FieldTable) (a b : Fields) : Bool :=
  table.all (fun e => !e.type.isScalar || (Fields.read a e.name).same (Fields.read b e.name))

/-- The record to be stored: exactly the fields of the table, lists copied. It
must fit the table. -/
def settle (kindOf : NodeId → String) (kind : String) (table : FieldTable) (fields : Fields) :
    Except Fault Fields := do
  let copy := table.mapNodes .node fields
  table.check kindOf kind copy
  return copy

end FieldTable

end SyntaxForest
