import SyntaxForest.Pool.Lock
import SyntaxForest.World
/-!
# Requests to a pool

A request runs under the lock of its category. A remembered node that passes the
request's matcher is a hit; otherwise the factory makes a node, which is kept if
nothing was remembered under the key and the policy admits the value by then.
`watch` is told about each outcome and may fail; so may the factory. Whatever was
changed up to that point stays.
-/

namespace SyntaxForest

/-- What is asked of a pool. Without a matcher any node will do. -/
structure PoolRequest where
  category : PoolCategory
  value : Value
  matcher : Option Matcher
deriving Inhabited

namespace PoolRequest

/-- The name the request's entry is filed under. -/
def filedUnder (r : PoolRequest) : String :=
  match r.matcher with
  | some m => m.name
  | none => PoolEntry.anyKind

def accepts (f : Forest) (r : PoolRequest) (id : NodeId) : Bool :=
  match r.matcher with
  | some m => m.accepts f id
  | none => true

end PoolRequest

/-- The request by which a record of a kind asks for a shared node, if the kind
shares its nodes and the record has a scalar to share by. -/
def Kind.sharing? (kind : Kind) (fields : Fields) : Option PoolRequest :=
  match kind.poolCategory, kind.table with
  | some category, [field] =>
    match Fields.read fields field.name with
    | .scalar s => some { category, value := .scalar s, matcher := some (.exactly kind) }
    | _ => none
  | _, _ => none

namespace World

variable {σ α : Type}

/-- What is told about a pool's events. -/
abbrev PoolWatch (σ : Type) := PoolId → PoolEvent → Act (World σ) Unit

def underLock (p : PoolId) (c : PoolCategory) (body : Act (World σ) α) : Act (World σ) α :=
  Act.locked c (fun w => (w.pool p).isHeld c)
    (fun held w => w.updatePool p (fun pool => pool.hold c held)) body

/-- The shared node for a value, made by the factory if there is none. -/
def request (watch : PoolWatch σ) (p : PoolId) (r : PoolRequest)
    (factory : Act (World σ) NodeId) : Act (World σ) NodeId :=
  underLock p r.category do
    let w ← get
    let found := (w.pool p).find? r.category r.filedUnder r.value
    match found.filter (r.accepts w.forest) with
    | some node =>
      modify (fun w => w.updatePool p Pool.countHit)
      watch p (.hit r.category r.filedUnder r.value)
      return node
    | none =>
      modify (fun w => w.updatePool p Pool.countMiss)
      let node ← factory
      let w ← get
      let key? :=
        if found.isNone then (w.pool p).admittedKey? r.category r.filedUnder r.value else none
      if let some value := key? then
        modify (fun w => w.updatePool p (fun pool =>
          pool.file r.category { filedUnder := r.filedUnder, value, node }))
      watch p (.miss r.category r.filedUnder r.value key?.isSome)
      return node

/-- A request by the name of a category. -/
def requestNamed (watch : PoolWatch σ) (p : PoolId) (category : String) (value : Value)
    (matcher : Option Matcher) (factory : Act (World σ) NodeId) : Act (World σ) NodeId :=
  match PoolCategory.ofName? category with
  | some category => request watch p { category, value, matcher } factory
  | none => throw (.unknownPoolCategory category)

/-- Forget every node and reset the counters, category by category; each shelf is
emptied under its lock. -/
def clearPool (watch : PoolWatch σ) (p : PoolId) : Act (World σ) Unit := do
  let dropped ← PoolCategory.all.mapM (fun c => underLock p c do
    let w ← get
    set (w.updatePool p (fun pool => pool.emptyShelf c))
    return (w.pool p).entryCount c)
  modify (fun w => w.updatePool p Pool.resetCounters)
  watch p (.clear (dropped.foldl (· + ·) 0))

/-- Make a node of a schema kind. Nodes of a pooled kind with a category come
from the pool, and cannot be made without one; all others are built fresh. -/
def createNode (watch : PoolWatch σ) (pool : Option PoolId) (kind : Kind) (span : Span)
    (fields : Fields) : Act (World σ) NodeId := do
  let f ← Act.forest
  Act.ofExcept (kind.table.check f.kindName kind.name fields)
  let build := Act.onForest (Forest.build kind span fields)
  match kind.sharing? fields, pool with
  | some r, some p => request watch p r build
  | some _, none => throw .missingPool
  | none, _ => build

end World

end SyntaxForest
