import SyntaxForest.Fault.Basic
/-!
# Actions

An action runs on a state, may fail with a fault, and keeps what it changed
before failing: hooks, factories, callbacks and visitors are actions.
-/

namespace SyntaxForest

/-- A computation on a state `σ` that ends with a result or a fault, and with the
state it leaves behind in both cases. -/
abbrev Act (σ α : Type) := ExceptT Fault (StateM σ) α

namespace Act

variable {σ τ α : Type}

/-- Run an action from a state. -/
def exec (action : Act σ α) (s : σ) : Except Fault α × σ := action s

/-- The action of a state transition. -/
def ofStep (step : σ → Except Fault α × σ) : Act σ α := step

/-- The action that only reads. -/
def ofExcept (result : Except Fault α) : Act σ α := fun s => (result, s)

def hostFault (message : String) : Act σ α := throw (.host message)

/-- The outcome of an action, as a result that never fails. -/
def attempt (action : Act σ α) : Act σ (Except Fault α) := fun s =>
  let (outcome, s) := action.exec s
  (.ok outcome, s)

def onPart (get : σ → τ) (set : τ → σ → σ) (action : Act τ α) : Act σ α := fun s =>
  let (outcome, part) := action.exec (get s)
  (outcome, set part s)

/-! ## Running

One equation per way to build an action. In a sequence the state is handed on
from step to step, and a fault ends the sequence where it arises. -/

variable {β : Type}

@[simp] theorem exec_pure (a : α) (s : σ) : exec (pure a) s = (.ok a, s) := rfl

@[simp] theorem exec_throw (fault : Fault) (s : σ) :
    exec (throw fault : Act σ α) s = (.error fault, s) := rfl

@[simp] theorem exec_get (s : σ) : exec (get : Act σ σ) s = (.ok s, s) := rfl

@[simp] theorem exec_set (t s : σ) : exec (set t : Act σ PUnit) s = (.ok ⟨⟩, t) := rfl

@[simp] theorem exec_modify (f : σ → σ) (s : σ) :
    exec (modify f : Act σ PUnit) s = (.ok ⟨⟩, f s) := rfl

@[simp] theorem exec_ofStep (step : σ → Except Fault α × σ) (s : σ) :
    exec (ofStep step) s = step s := rfl

@[simp] theorem exec_ofExcept (result : Except Fault α) (s : σ) :
    exec (ofExcept result) s = (result, s) := rfl

@[simp] theorem exec_hostFault (message : String) (s : σ) :
    exec (hostFault message : Act σ α) s = (.error (.host message), s) := rfl

@[simp] theorem exec_attempt (action : Act σ α) (s : σ) :
    exec action.attempt s = (.ok (exec action s).1, (exec action s).2) := rfl

@[simp] theorem exec_onPart (get : σ → τ) (set : τ → σ → σ) (action : Act τ α) (s : σ) :
    exec (action.onPart get set) s =
      ((exec action (get s)).1, set (exec action (get s)).2 s) := rfl

/-- Actions are equal if they run alike from every state. -/
theorem ext {action other : Act σ α} (h : ∀ s, exec action s = exec other s) : action = other := funext h

theorem exec_bind (action : Act σ α) (next : α → Act σ β) (s : σ) :
    exec (action >>= next) s =
      match exec action s with
      | (.ok a, t) => exec (next a) t
      | (.error fault, t) => (.error fault, t) := by
  show (ExceptT.bind action next : Act σ β) s = _
  simp only [ExceptT.bind, ExceptT.mk, bind, StateT.bind, exec]
  rcases h : action s with ⟨_ | _, t⟩ <;> rfl

@[simp] theorem exec_forM_nil (action : β → Act σ PUnit) (s : σ) :
    exec ([].forM action) s = (.ok ⟨⟩, s) := rfl

theorem exec_forM_cons (action : β → Act σ PUnit) (b : β) (rest : List β) (s : σ) :
    exec ((b :: rest).forM action) s =
      match exec (action b) s with
      | (.ok _, t) => exec (rest.forM action) t
      | (.error fault, t) => (.error fault, t) := by
  rw [List.forM_eq_forM, List.forM_cons, exec_bind]
  rcases exec (action b) s with ⟨_ | _, t⟩ <;> rfl

@[simp] theorem exec_mapM_nil (action : β → Act σ α) (s : σ) :
    exec ([].mapM action) s = (.ok [], s) := rfl

theorem exec_mapM_cons (action : β → Act σ α) (b : β) (rest : List β) (s : σ) :
    exec ((b :: rest).mapM action) s =
      match exec (action b) s with
      | (.ok a, t) =>
        match exec (rest.mapM action) t with
        | (.ok more, u) => (.ok (a :: more), u)
        | (.error fault, u) => (.error fault, u)
      | (.error fault, t) => (.error fault, t) := by
  rw [List.mapM_cons, exec_bind]
  rcases exec (action b) s with ⟨_ | _, t⟩
  · rfl
  · simp only [exec_bind]
    rcases exec (rest.mapM action) t with ⟨_ | _, u⟩ <;> rfl

end Act

end SyntaxForest
