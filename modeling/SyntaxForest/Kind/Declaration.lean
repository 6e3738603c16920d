import SyntaxForest.Kind.Registry
/-!
# Declarations

A declaration asks for a kind. `Declaration.accept` makes the kind and registers
its name, or fails with the first rule the declaration breaks. A `Catalog` holds
the registries and numbers the kinds.
-/

namespace SyntaxForest

/-- A letter followed by letters, digits and underscores, all ASCII. -/
def isKindName (name : String) : Bool :=
  match name.toList with
  | [] => false
  | c :: rest => c.isAlpha && rest.all (fun d => d.isAlphanum || d == '_')

/-- A family under a legal name. -/
def AbstractKind.declare (id : Nat) (name : String) : Except Fault AbstractKind :=
  if isKindName name then .ok { id, name } else .error (.invalidKindName name)

structure Declaration where
  name : String
  strategy : Strategy
  table : FieldTable
  families : List AbstractKind
  /-- The display field asked for. -/
  display : Option String
  /-- The pool category asked for; only pooled kinds look at it. -/
  category : Option String
deriving Inhabited

namespace Declaration

/-- Fields looked for, in this order, when no display field is asked for. -/
def displayCandidates : List String := ["value", "name", "operator"]

def checkName (d : Declaration) : Except Fault Unit :=
  if isKindName d.name then .ok () else .error (.invalidKindName d.name)

def checkReserved (d : Declaration) : Except Fault Unit :=
  match d.table.find? (fun e => FieldTable.reservedNames.contains e.name) with
  | none => .ok ()
  | some e => .error (.reservedField e.name d.name)

/-- Pooled and value kinds hold scalars only. -/
def checkLeaf (d : Declaration) : Except Fault Unit :=
  match d.table.find? (fun e => !e.type.isScalar) with
  | none => .ok ()
  | some e => .error (.unfitStrategy d.name d.strategy.name s!"field {e.name} holds nodes")

def hasScalarField (d : Declaration) (name : String) : Bool :=
  d.table.any (fun e => e.type.isScalar && e.name == name)

/-- The display field: the one asked for, or the first candidate there is. -/
def chooseDisplay (d : Declaration) : Except Fault (Option String) :=
  match d.display with
  | some name =>
    if d.hasScalarField name then .ok (some name)
    else .error (.fieldMismatch name d.name "a primitive field to display" "no such primitive field")
  | none => .ok (displayCandidates.find? d.hasScalarField)

def fieldTypeOf : PoolCategory → ScalarType
  | .int => .int
  | .bool => .bool
  | .string | .identifier => .string

/-- The category a scalar type is shared in when none is asked for. -/
def defaultCategory? : ScalarType → Option PoolCategory
  | .int => some .int
  | .bool => some .bool
  | .string => some .string
  | .float => none

/-- The pool category: only a single required scalar field can be shared by. -/
def chooseCategory (d : Declaration) : Except Fault (Option PoolCategory) :=
  match d.table with
  | [⟨field, .scalar type false⟩] =>
    match d.category with
    | none => .ok (defaultCategory? type)
    | some name =>
      match (PoolCategory.ofName? name).filter (fun c => fieldTypeOf c == type) with
      | some category => .ok (some category)
      | none =>
        .error (.unfitStrategy d.name d.strategy.name
          s!"pool category {name} does not fit {type.name} field {field}")
  | _ => .ok none

/-- What a strategy asks of a declaration before everything else; gives the pool
category. -/
def checkStrategy (d : Declaration) : Except Fault (Option PoolCategory) :=
  match d.strategy with
  | .standard | .optimized => .ok none
  | .value => do
    d.checkLeaf
    return none
  | .pooled => do
    d.checkLeaf
    d.checkReserved
    d.chooseCategory

def accept (d : Declaration) (id : KindId) (r : Registry) : Except Fault (Kind × Registry) := do
  let poolCategory ← d.checkStrategy
  d.checkName
  d.checkReserved
  let displayName ← d.chooseDisplay
  let kind : Kind :=
    { id, name := d.name, strategy := d.strategy, table := d.table, families := d.families,
      displayName, poolCategory }
  let r ← r.register d.name d.strategy.nodeClass
  return (kind, r)

end Declaration

/-- Registries by name, where no name stands for the default registry. -/
structure Catalog where
  registries : List (Option String × Registry) := []
  /-- How many kinds were made. -/
  kindCount : Nat := 0
deriving Inhabited

namespace Catalog

/-- The registry of a name; one never used is empty. -/
def registry (c : Catalog) (name : Option String) : Registry :=
  ((c.registries.find? (·.1 == name)).map (·.2)).getD {}

def setRegistry (c : Catalog) (name : Option String) (r : Registry) : Catalog :=
  { c with registries := (name, r) :: c.registries.filter (·.1 != name) }

/-- Accept a declaration in a registry. -/
def declare (c : Catalog) (name : Option String) (d : Declaration) :
    Except Fault Kind × Catalog :=
  match d.accept ⟨c.kindCount⟩ (c.registry name) with
  | .error fault => (.error fault, c)
  | .ok (kind, r) => (.ok kind, { c.setRegistry name r with kindCount := c.kindCount + 1 })

def register (c : Catalog) (name : Option String) (kind : String) (nodeClass : NodeClass) :
    Except Fault Unit × Catalog :=
  match (c.registry name).register kind nodeClass with
  | .error fault => (.error fault, c)
  | .ok r => (.ok (), c.setRegistry name r)

end Catalog

end SyntaxForest
