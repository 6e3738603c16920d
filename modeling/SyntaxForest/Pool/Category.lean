import SyntaxForest.Value.Text
/-!
# Pool categories

The four kinds of values a pool shares nodes by.
-/

namespace SyntaxForest

inductive PoolCategory where
  | int
  | bool
  | string
  | identifier
deriving DecidableEq, Inhabited

namespace PoolCategory

/-- All categories, in the order in which they are listed and cleared. -/
def all : List PoolCategory := [.int, .bool, .string, .identifier]

def name : PoolCategory → String
  | .int => "int"
  | .bool => "bool"
  | .string => "string"
  | .identifier => "identifier"

def ofName? (name : String) : Option PoolCategory := all.find? (fun c => c.name == name)

/-- Whether a value is the name of a category. -/
def isName (v : Value) : Bool :=
  match v with
  | .scalar (.text name) => (ofName? name).isSome
  | _ => false

/-- Rough memory use of one cached node, in bytes. -/
def entryBytes : PoolCategory → Nat
  | .int => 96
  | .bool => 92
  | .string => 120
  | .identifier => 110

end PoolCategory

end SyntaxForest
