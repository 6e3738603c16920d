import SyntaxForest.Act
import SyntaxForest.Pool.Category
/-!
# Category locks

A lock is held while one action runs and is never entered again meanwhile: an
inner attempt is refused and the outer holder keeps the lock. It is free again
when the action ends, in whatever way.

A list of `LockStep`s is a program of nested uses of one lock, with a log of what
can be seen from inside.
-/

namespace SyntaxForest

/-- Run an action under a lock that is a part of the state. -/
def Act.locked {σ α : Type} (category : PoolCategory) (isHeld : σ → Bool) (hold : Bool → σ → σ)
    (body : Act σ α) : Act σ α := fun s =>
  if isHeld s then (.error (.poolReentered category.name), s)
  else
    let (outcome, s) := body.exec (hold true s)
    (outcome, hold false s)

section Locked

variable {σ α : Type} {category : PoolCategory} {isHeld : σ → Bool} {hold : Bool → σ → σ}
  {body : Act σ α} {s : σ}

/-- A lock that is held refuses the action and leaves everything as it is. -/
theorem Act.exec_locked_of_held (held : isHeld s = true) :
    (Act.locked category isHeld hold body).exec s = (.error (.poolReentered category.name), s) := by
  simp [Act.locked, Act.exec, held]

theorem Act.exec_locked_of_free (free : isHeld s = false) :
    (Act.locked category isHeld hold body).exec s =
      ((body.exec (hold true s)).1, hold false (body.exec (hold true s)).2) := by
  simp [Act.locked, Act.exec, free]

end Locked

inductive LockStep where
  /-- Log whether the lock is held. -/
  | observe
  /-- Fail with a host fault. -/
  | fail (message : String)
  /-- Run a program under the lock, then log the given result. -/
  | run (body : List LockStep) (result : Value)
  /-- Run a program and log the fault that leaves it, if any. -/
  | attempt (body : List LockStep)
deriving Inhabited

/-- What a lock program logs. -/
inductive LockEntry where
  | held (isHeld : Bool)
  | returned (result : Value)
  | caught (fault : Fault)
  | uncaught (fault : Fault)
deriving Inhabited

/-- A lock and the log of its use, oldest entry first. -/
structure LockState where
  held : Bool := false
  log : List LockEntry := []
deriving Inhabited

namespace LockState

def hold (isHeld : Bool) (s : LockState) : LockState := { s with held := isHeld }

def record (entry : LockEntry) (s : LockState) : LockState := { s with log := s.log ++ [entry] }

end LockState

namespace LockStep

mutual

def act (category : PoolCategory) : LockStep → Act LockState Unit
  | .observe => modify (fun s => s.record (.held s.held))
  | .fail message => Act.hostFault message
  | .run body result => do
    Act.locked category LockState.held LockState.hold (actAll category body)
    modify (LockState.record (.returned result))
  | .attempt body => do
    match ← (actAll category body).attempt with
    | .ok _ => pure ()
    | .error fault => modify (LockState.record (.caught fault))

/-- Run steps in order, up to the first that fails. -/
def actAll (category : PoolCategory) : List LockStep → Act LockState Unit
  | [] => pure ()
  | step :: rest => do
    act category step
    actAll category rest

end

/-- Run a whole program on a free lock; a fault that leaves it is logged last. -/
def trace (category : PoolCategory) (program : List LockStep) : LockState :=
  match (actAll category program).exec {} with
  | (.ok _, s) => s
  | (.error fault, s) => s.record (.uncaught fault)

end LockStep

end SyntaxForest
