import SyntaxForest.Value.Basic
/-!
# Named fields

A record of named values is a list of pairs without repeated names. Names that
are array indices come first in ascending order, the others in the order in
which they were first given; `Fields.ofPairs` brings any list of pairs into this
form. Under some names a record that has no entry still has what all records inherit
(`Fields.inherited`), and an assignment to one of these names makes no entry
(`Fields.assigned`).
-/

namespace SyntaxForest

abbrev Fields := List (String × Value)

namespace Fields

/-- How many array indices there are. -/
def maxIndices : Nat := 0xFFFFFFFF

/-- The array index a name spells, if it does: canonical decimal below 2³² - 1. -/
def index? (name : String) : Option Nat :=
  let digits := name.toList
  if digits.isEmpty || !digits.all Char.isDigit then none
  else
    let n := digits.foldl (fun acc d => 10 * acc + (d.toNat - '0'.toNat)) 0
    if Nat.toDigits 10 n = digits ∧ n < maxIndices then some n else none

variable {α : Type}

/-- Give a name its value: in place if the name is there, at the end otherwise. -/
def put (name : String) (value : α) : List (String × α) → List (String × α)
  | [] => [(name, value)]
  | (n, v) :: rest => if n = name then (n, value) :: rest else (n, v) :: put name value rest

/-- Insert a pair named by an index before the first larger index. -/
def insertIndex (pair : String × α) (index : Nat) :
    List (Nat × (String × α)) → List (Nat × (String × α))
  | [] => [(index, pair)]
  | head :: rest =>
    if index < head.1 then (index, pair) :: head :: rest
    else head :: insertIndex pair index rest

/-- Indices first and ascending, then the other names in order. -/
def arrange (pairs : List (String × α)) : List (String × α) :=
  let indexed := pairs.foldl
    (fun acc p => match index? p.1 with
      | some i => insertIndex p i acc
      | none => acc) []
  indexed.map (·.2) ++ pairs.filter (fun p => (index? p.1).isNone)

/-- The record of a list of pairs: a repeated name keeps its first place and its
last value. -/
def ofPairs (pairs : List (String × α)) : List (String × α) :=
  arrange (pairs.foldl (fun acc p => put p.1 p.2 acc) [])

def find? (fields : List (String × α)) (name : String) : Option α :=
  (fields.find? (fun p => p.1 == name)).map (·.2)

@[simp] theorem find?_put_self (name : String) (value : α) (fields : List (String × α)) :
    find? (put name value fields) name = some value := by
  induction fields with
  | nil => simp [put, find?]
  | cons p rest ih =>
    simp only [put]
    split
    · next h => simp [find?, h]
    · next h => simpa [find?, List.find?_cons, h] using ih

theorem find?_put_of_ne {name other : String} (value : α) (fields : List (String × α))
    (h : other ≠ name) : find? (put name value fields) other = find? fields other := by
  induction fields with
  | nil => simp [put, find?, Ne.symm h]
  | cons p rest ih =>
    simp only [put]
    split
    · next hp => simp [find?, hp, Ne.symm h]
    · next hp =>
      simp only [find?, List.find?_cons] at ih ⊢
      split
      · rfl
      · exact ih

/-- The name of the object that a record inherits from. -/
def rootName : String := "__proto__"

/-- What records inherit, and the name under which they do. -/
def builtinNames : List String :=
  ["constructor", "hasOwnProperty", "isPrototypeOf", "propertyIsEnumerable", "toLocaleString", "toString",
    "valueOf", "__defineGetter__", "__defineSetter__", "__lookupGetter__", "__lookupSetter__", rootName]

/-- What a record has under a name of which it has no entry. -/
def inherited (name : String) : Value := if name ∈ builtinNames then .builtin name else .absent

/-- The value under a name: the record's own, or else what it takes from elsewhere. -/
def readOver (elsewhere : String → Value) (fields : Fields) (name : String) : Value :=
  (find? fields name).getD (elsewhere name)

def read (fields : Fields) (name : String) : Value := readOver inherited fields name

theorem read_cons_self (name : String) (v : Value) (fields : Fields) :
    read ((name, v) :: fields) name = v := by
  simp [read, readOver, find?]

theorem read_cons_of_ne {name other : String} (v : Value) (fields : Fields) (h : name ≠ other) :
    read ((name, v) :: fields) other = read fields other := by
  simp [read, readOver, find?, h]

/-- What is found under the name of the root when a value was assigned to it. An object,
a list or a node takes the place of the root, null removes it, and what is no object
leaves it there; below a bare object it is out of sight. -/
def rooted : Value → Value
  | .absent | .scalar _ => .builtin rootName
  | .null | .object true _ => .absent
  | v => v

/-- What a new record has under a name that was assigned a value. -/
def assigned (name : String) (v : Value) : Value := if name = rootName then rooted v else v

theorem assigned_of_ne {name : String} (h : name ≠ rootName) (v : Value) : assigned name v = v := if_neg h

@[simp] theorem assigned_node (name : String) (id : NodeId) : assigned name (.node id) = .node id :=
  ite_self _

@[simp] theorem assigned_list (name : String) (items : List Value) : assigned name (.list items) = .list items :=
  ite_self _

def has (fields : List (String × α)) (name : String) : Bool := fields.any (fun p => p.1 == name)

end Fields

end SyntaxForest
