import SyntaxForest.Number.Decimal
/-!
# Values

What a field, a setting or the context of an error can hold. `Scalar` is the
part that is stored in leaf fields and cached by pools; `Value` adds the absent
value, null, node references, lists, objects and what records have built in.
-/

namespace SyntaxForest

structure NodeId where
  index : Nat
deriving DecidableEq, Inhabited

/-- A number, a truth value or a text. Equality as terms is sameness of values:
NaN is NaN, and the two zeros differ. -/
inductive Scalar where
  | num (n : Number)
  | bool (b : Bool)
  | text (s : String)
deriving DecidableEq, Inhabited

/-- Whether two scalars are one key: the two zeros are, and NaN and NaN. -/
def Scalar.sameKey : Scalar → Scalar → Bool
  | .num m, .num n => m == n || m.eqv n
  | a, b => a == b

inductive Value where
  /-- No value at all, as read from a name that is not there. -/
  | absent
  | null
  | scalar (s : Scalar)
  | node (id : NodeId)
  | list (items : List Value)
  /-- Named entries. A bare object has no text form. -/
  | object (bare : Bool) (entries : List (String × Value))
  /-- What records have under a name without an entry of their own: a function, or the
  root that all of them inherit from. -/
  | builtin (name : String)
deriving Inhabited

namespace Value

def num (n : Number) : Value := .scalar (.num n)
def bool (b : Bool) : Value := .scalar (.bool b)
def text (s : String) : Value := .scalar (.text s)

def scalar? : Value → Option Scalar
  | .scalar s => some s
  | _ => none

def node? : Value → Option NodeId
  | .node id => some id
  | _ => none

def number? : Value → Option Number
  | .scalar (.num n) => some n
  | _ => none

/-- Whether two values are the same one. Lists and objects have an identity of
their own, which a value does not carry, so they are never the same. -/
def same : Value → Value → Bool
  | .absent, .absent => true
  | .null, .null => true
  | .scalar a, .scalar b => a == b
  | .node a, .node b => a == b
  | .builtin a, .builtin b => a == b
  | _, _ => false

end Value

end SyntaxForest
