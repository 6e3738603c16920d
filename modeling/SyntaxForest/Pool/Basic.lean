import SyntaxForest.Pool.Category
import SyntaxForest.Pool.Policy
import SyntaxForest.Text.Units
/-!
# Pools

A pool remembers one node per category, kind name and value. Each category has a
shelf: its entries, a count of them kept beside, and a lock. Nothing is ever
evicted; once the policy lets no more in, further nodes are not kept. As keys the
two zeros are one, though node equality tells them apart, so negative zero is
neither looked up nor kept.
-/

namespace SyntaxForest

/-- A remembered node. Requests without a kind are filed under `PoolEntry.anyKind`. -/
structure PoolEntry where
  filedUnder : String
  value : Scalar
  node : NodeId
deriving DecidableEq, Inhabited

/-- The file name of requests without a kind; no kind can have it. -/
def PoolEntry.anyKind : String := "*"

/-- The state of one category. -/
structure Shelf where
  entries : List PoolEntry := []
  count : Nat := 0
  held : Bool := false
deriving DecidableEq, Inhabited

namespace Shelf

def filed (s : Shelf) (name : String) : List PoolEntry :=
  s.entries.filter (fun e => e.filedUnder == name)

def find? (s : Shelf) (name : String) (value : Scalar) : Option NodeId :=
  (s.entries.find? (fun e => e.filedUnder == name && e.value.sameKey value)).map (·.node)

/-- Remember a node. -/
def file (s : Shelf) (entry : PoolEntry) : Shelf :=
  { s with entries := s.entries ++ [entry], count := s.count + 1 }

/-- Forget every node. -/
def emptied (s : Shelf) : Shelf := { s with entries := [], count := 0 }

end Shelf

structure Pool where
  policy : PoolPolicy
  int : Shelf := {}
  bool : Shelf := {}
  string : Shelf := {}
  identifier : Shelf := {}
  hits : Nat := 0
  misses : Nat := 0
deriving Inhabited

inductive PoolEvent where
  | hit (category : PoolCategory) (filedUnder : String) (value : Value)
  /-- A node was made; `cached` tells whether it is remembered from now on. -/
  | miss (category : PoolCategory) (filedUnder : String) (value : Value) (cached : Bool)
  /-- All shelves were emptied of so many entries. -/
  | clear (entries : Nat)
deriving Inhabited

namespace Pool

def shelf (p : Pool) : PoolCategory → Shelf
  | .int => p.int
  | .bool => p.bool
  | .string => p.string
  | .identifier => p.identifier

def setShelf (p : Pool) (c : PoolCategory) (s : Shelf) : Pool :=
  match c with
  | .int => { p with int := s }
  | .bool => { p with bool := s }
  | .string => { p with string := s }
  | .identifier => { p with identifier := s }

@[simp] theorem shelf_setShelf (p : Pool) (c : PoolCategory) (s : Shelf) :
    (p.setShelf c s).shelf c = s := by
  cases c <;> rfl

theorem shelf_setShelf_of_ne (p : Pool) {c d : PoolCategory} (s : Shelf) (h : d ≠ c) :
    (p.setShelf c s).shelf d = p.shelf d := by
  cases c <;> cases d <;> simp_all [shelf, setShelf]

@[simp] theorem policy_setShelf (p : Pool) (c : PoolCategory) (s : Shelf) :
    (p.setShelf c s).policy = p.policy := by
  cases c <;> rfl

@[simp] theorem hits_setShelf (p : Pool) (c : PoolCategory) (s : Shelf) :
    (p.setShelf c s).hits = p.hits := by
  cases c <;> rfl

@[simp] theorem misses_setShelf (p : Pool) (c : PoolCategory) (s : Shelf) :
    (p.setShelf c s).misses = p.misses := by
  cases c <;> rfl

def isHeld (p : Pool) (c : PoolCategory) : Bool := (p.shelf c).held

def hold (p : Pool) (c : PoolCategory) (held : Bool) : Pool :=
  p.setShelf c { p.shelf c with held }

/-- Number of remembered nodes in a category, as counted. -/
def entryCount (p : Pool) (c : PoolCategory) : Nat := (p.shelf c).count

/-- The node remembered under a key. Only scalars are ever remembered. -/
def find? (p : Pool) (c : PoolCategory) (name : String) (value : Value) : Option NodeId :=
  match value with
  | .scalar s => if s = .num .negativeZero then none else (p.shelf c).find? name s
  | _ => none

def admitsText (limits : TextLimits) (count : Nat) (value : Scalar) : Bool :=
  match value with
  | .text s => limits.maxLength.coversCount (Text.length16 s) && limits.maxEntries.exceedsCount count
  | _ => false

/-- Whether the policy lets a new scalar into a category. Truth values are counted
per kind, texts over the whole category, integers not at all. -/
def admitsScalar (p : Pool) (c : PoolCategory) (name : String) (value : Scalar) : Bool :=
  match c with
  | .int =>
    match value with
    | .num n =>
      n.isInteger && n != .negativeZero && p.policy.int.min.atMost n && n.atMost p.policy.int.max
    | _ => false
  | .bool =>
    match value with
    | .bool _ => p.policy.boolEntries.exceedsCount ((p.shelf .bool).filed name).length
    | _ => false
  | .string => admitsText p.policy.string (p.entryCount .string) value
  | .identifier => admitsText p.policy.identifier (p.entryCount .identifier) value

/-- The key under which the policy lets a new value into a category: the value
itself, if it is a scalar that is admitted. -/
def admittedKey? (p : Pool) (c : PoolCategory) (name : String) (value : Value) : Option Scalar :=
  value.scalar?.filter (p.admitsScalar c name)

/-- Whether the policy lets a new value into a category. -/
def admits (p : Pool) (c : PoolCategory) (name : String) (value : Value) : Bool :=
  (p.admittedKey? c name value).isSome

@[simp] theorem admits_scalar (p : Pool) (c : PoolCategory) (name : String) (s : Scalar) :
    p.admits c name (.scalar s) = p.admitsScalar c name s := by
  simp [admits, admittedKey?, Value.scalar?, Option.filter]
  split <;> simp_all

def countHit (p : Pool) : Pool := { p with hits := p.hits + 1 }

def countMiss (p : Pool) : Pool := { p with misses := p.misses + 1 }

/-- Remember a node under a key. -/
def file (p : Pool) (c : PoolCategory) (entry : PoolEntry) : Pool :=
  p.setShelf c ((p.shelf c).file entry)

/-- Forget the nodes of a category. -/
def emptyShelf (p : Pool) (c : PoolCategory) : Pool := p.setShelf c (p.shelf c).emptied

/-- Start counting anew. -/
def resetCounters (p : Pool) : Pool := { p with hits := 0, misses := 0 }

/-! ## Statistics -/

def sizes (p : Pool) : List (PoolCategory × Nat) :=
  PoolCategory.all.map (fun c => (c, p.entryCount c))

/-- Share of requests served from the pool in hundredths of a percent, computed
and rounded in double precision, a half going up. -/
def hitRateHundredths (p : Pool) : Nat :=
  let total := p.hits + p.misses
  if total = 0 then 0
  else
    let hundred := Number.ofNat 100
    (((Number.ofRatio false p.hits total).mul hundred).mul hundred).roundToNat

def hitRateText (p : Pool) : String :=
  let h := p.hitRateHundredths
  let cents := h % 100
  toString (h / 100) ++ "." ++ (if cents < 10 then "0" else "") ++ toString cents

/-- Rough memory use per category, and in all. -/
def memory (p : Pool) : List (PoolCategory × Nat) × Nat :=
  let parts := PoolCategory.all.map (fun c => (c, p.entryCount c * c.entryBytes))
  (parts, parts.foldl (fun total part => total + part.2) 0)

end Pool

end SyntaxForest
