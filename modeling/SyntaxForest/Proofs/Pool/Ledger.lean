import SyntaxForest.Proofs.Kind.Table
import SyntaxForest.Proofs.Pool.Play
/-!
# Notes of a host about its pools

A host with all callbacks installed notes what it is told, and which factories failed.
`Reconciled` says how the counters of a pool agree with the notes since the pool was
cleared; while requests are under way, some misses are counted that nobody was told of
yet. Code of a client, its factories and listeners included, keeps all pools reconciled,
with whatever misses are pending around it: `Client.reconciled`.
-/

namespace SyntaxForest

inductive Note where
  | told (p : PoolId) (event : PoolEvent)
  -- The factory of a request failed.
  | threw (p : PoolId)

namespace Note

variable (p : PoolId)

def isClear : Note → Bool
  | told q (.clear _) => q == p
  | _ => false

def isHit : Note → Bool
  | told q (.hit ..) => q == p
  | _ => false

def isMiss : Note → Bool
  | told q (.miss ..) => q == p
  | _ => false

/-- A miss in a category whose node is remembered. -/
def isKept (c : PoolCategory) : Note → Bool
  | told q (.miss d _ _ cached) => q == p && d == c && cached
  | _ => false

def isThrow : Note → Bool
  | threw q => q == p
  | _ => false

end Note

/-- A host with its notes, newest first. -/
structure Ledger (τ : Type) where
  notes : List Note
  own : τ

variable {τ : Type}

/-- The notes since a pool was cleared, or all. -/
def since (p : PoolId) (notes : List Note) : List Note := notes.takeWhile (fun n => !n.isClear p)

namespace World

def noted (w : World (Ledger τ)) (n : Note) : World (Ledger τ) :=
  { w with host := { w.host with notes := n :: w.host.notes } }

@[simp] theorem pool_noted (w : World (Ledger τ)) (n : Note) (p : PoolId) :
    (w.noted n).pool p = w.pool p := rfl

/-- A listener of all events that notes each one first. -/
def noting (rest : PoolWatch (Ledger τ)) : PoolWatch (Ledger τ) := fun p event => do
  modify (fun w => w.noted (.told p event))
  rest p event

/-- A factory that notes its failure and passes it on. -/
def guarding (p : PoolId) (factory : Act (World (Ledger τ)) NodeId) : Act (World (Ledger τ)) NodeId := do
  match ← factory.attempt with
  | .ok node => return node
  | .error fault =>
    modify (fun w => w.noted (.threw p))
    throw fault

/-- A creation of a node whose own factory, should a pool start it, is guarded. -/
def creating (watch : PoolWatch (Ledger τ)) (pool : Option PoolId) (kind : Kind) (span : Span)
    (fields : Fields) : Act (World (Ledger τ)) NodeId := do
  let f ← Act.forest
  Act.ofExcept (kind.table.check f.kindName kind.name fields)
  let build := Act.onForest (Forest.build kind span fields)
  match kind.sharing? fields, pool with
  | some r, some p => request watch p r (guarding p build)
  | some _, none => throw .missingPool
  | none, _ => build

end World

/-- The counters of a pool agree with the notes, but for misses that are pending. -/
structure Reconciled (pending : Nat) (p : PoolId) (w : World (Ledger τ)) : Prop where
  opened : p.index < w.pools.size
  hits : (w.pool p).hits = (since p w.host.notes).countP (Note.isHit p)
  misses : (w.pool p).misses = (since p w.host.notes).countP (Note.isMiss p) +
    (since p w.host.notes).countP (Note.isThrow p) + pending
  kept : ∀ c, (w.pool p).entryCount c = (since p w.host.notes).countP (Note.isKept p c)

/-! ## Steps of a request -/

section Steps

variable {w : World (Ledger τ)} {p q : PoolId} {pending : Nat}

theorem since_cons {n : Note} {notes : List Note} (h : n.isClear p = false) :
    since p (n :: notes) = n :: since p notes := by
  simp [since, h]

/-- A miss of one pool is due for that pool only. -/
def due (q p : PoolId) : Nat := (q == p).toNat

/-- Counters that change by what one note says. -/
theorem Reconciled.counted {t : World (Ledger τ)} {n : Note} {later : Nat} (h : Reconciled pending p w)
    (hsize : t.pools.size = w.pools.size) (hnotes : t.host.notes = n :: w.host.notes)
    (hclear : n.isClear p = false) (hhits : (t.pool p).hits = (w.pool p).hits + (n.isHit p).toNat)
    (hmisses : (t.pool p).misses + pending =
      (w.pool p).misses + (n.isMiss p).toNat + (n.isThrow p).toNat + later)
    (hkept : ∀ c, (t.pool p).entryCount c = (w.pool p).entryCount c + (n.isKept p c).toNat) :
    Reconciled later p t := by
  have hcount : ∀ test : Note → Bool, (since p t.host.notes).countP test =
      (since p w.host.notes).countP test + (test n).toNat := by
    intro test
    rw [hnotes, since_cons hclear, List.countP_cons]
    cases test n <;> rfl
  refine ⟨hsize ▸ h.opened, ?_, ?_, fun c => ?_⟩
  · rw [hhits, hcount, h.hits]
  · have := h.misses
    rw [hcount, hcount]
    omega
  · rw [hkept, hcount, h.kept]

theorem Reconciled.hit (h : Reconciled pending p w) (q : PoolId) (c : PoolCategory) (name : String)
    (value : Value) :
    Reconciled pending p ((w.enter q c Pool.countHit).noted (.told q (.hit c name value))) := by
  have hpool := World.pool_enter q c Pool.countHit h.opened
  refine h.counted (by simp [World.noted, World.enter]) rfl rfl ?_ ?_ (fun d => ?_)
  all_goals
    rw [World.pool_noted, hpool]
    by_cases hq : q = p <;> simp [hq, Note.isHit, Note.isMiss, Note.isThrow, Note.isKept]

theorem Reconciled.threw (h : Reconciled (pending + due q p) p w) :
    Reconciled pending p (w.noted (.threw q)) := by
  refine h.counted rfl rfl rfl rfl ?_ (fun _ => rfl)
  simp [Note.isMiss, Note.isThrow, due]
  omega

/-- The node of a factory is kept or not, and the listener is told which. -/
theorem Reconciled.miss (h : Reconciled (pending + due q p) p w) (r : PoolRequest) (vacant : Bool)
    (node : NodeId) : Reconciled pending p ((w.keep q r vacant node).noted
      (.told q (.miss r.category r.filedUnder r.value (w.key? q r vacant).isSome))) := by
  have hpool := World.pool_keep q r vacant node h.opened
  have hnotes : ((w.keep q r vacant node).noted
      (.told q (.miss r.category r.filedUnder r.value (w.key? q r vacant).isSome))).host.notes =
      .told q (.miss r.category r.filedUnder r.value (w.key? q r vacant).isSome) :: w.host.notes := by
    simp [World.noted]
  refine h.counted (World.size_keep w q r vacant node) hnotes rfl ?_ ?_ (fun d => ?_)
  all_goals
    rw [World.pool_noted, hpool]
    rcases w.key? q r vacant with _ | value
    · simp [Note.isHit, Note.isMiss, Note.isThrow, Note.isKept, due] <;> omega
    · by_cases hq : q = p
      · simp [hq, Note.isHit, Note.isMiss, Note.isThrow, Note.isKept, due] <;> omega
      · simp [hq, Note.isHit, Note.isMiss, Note.isThrow, Note.isKept, due] <;> omega

/-- A change of the counters while nothing is told. -/
theorem Reconciled.of_pool {t : World (Ledger τ)} {later : Nat} (h : Reconciled pending p w)
    (hsize : t.pools.size = w.pools.size) (hnotes : t.host.notes = w.host.notes)
    (hhits : (t.pool p).hits = (w.pool p).hits)
    (hmisses : (t.pool p).misses + pending = (w.pool p).misses + later)
    (hkept : ∀ c, (t.pool p).entryCount c = (w.pool p).entryCount c) : Reconciled later p t := by
  refine ⟨hsize ▸ h.opened, ?_, ?_, fun c => ?_⟩
  · rw [hhits, hnotes, h.hits]
  · have := h.misses
    rw [hnotes]
    omega
  · rw [hkept, hnotes, h.kept]

theorem Reconciled.enter (h : Reconciled pending p w) (q : PoolId) (c : PoolCategory) :
    Reconciled (pending + due q p) p (w.enter q c Pool.countMiss) := by
  have hpool := World.pool_enter q c Pool.countMiss h.opened
  refine h.of_pool (by simp [World.enter]) rfl ?_ ?_ (fun d => ?_)
  all_goals
    rw [hpool]
    by_cases hq : q = p <;> simp [hq, due] <;> omega

theorem Reconciled.leave (h : Reconciled pending p w) (q : PoolId) (c : PoolCategory) :
    Reconciled pending p (w.leave q c) := by
  have hpool := World.pool_updatePool_cases w q (fun pool => pool.hold c false) p
  refine h.of_pool (World.size_updatePool w q _) rfl ?_ ?_ (fun d => ?_)
  all_goals
    rw [World.leave]
    rcases hpool with hp | ⟨-, -, hp⟩ <;> simp [hp]

/-- Nodes made and linked do not count. -/
theorem Reconciled.own {t : World (Ledger τ)} (h : Reconciled pending p w) (evolves : w.Evolves t)
    (hnotes : t.host.notes = w.host.notes) : Reconciled pending p t := by
  have hpool := evolves.pool p
  exact h.of_pool (by rw [evolves.pools]) hnotes (by rw [hpool]) (by rw [hpool]) (fun _ => by rw [hpool])

end Steps

/-! ## Calls -/

/-- An action that leaves every pool reconciled, with whatever is pending. -/
def Balanced {α : Type} (act : Act (World (Ledger τ)) α) : Prop :=
  ∀ pending p w, Reconciled pending p w → Reconciled pending p (act.exec w).2

section Calls

variable {rest : World.PoolWatch (Ledger τ)} {w : World (Ledger τ)} {p q : PoolId} {pending : Nat}
  {r : PoolRequest} {factory : Act (World (Ledger τ)) NodeId}

theorem exec_noting (rest : World.PoolWatch (Ledger τ)) (q : PoolId) (event : PoolEvent)
    (w : World (Ledger τ)) :
    (World.noting rest q event).exec w = (rest q event).exec (w.noted (.told q event)) := by
  rw [World.noting, Act.exec_bind, Act.exec_modify]

theorem exec_guarding (q : PoolId) (factory : Act (World (Ledger τ)) NodeId) (w : World (Ledger τ)) :
    (World.guarding q factory).exec w =
      match factory.exec w with
      | (.ok node, t) => (.ok node, t)
      | (.error fault, t) => (.error fault, t.noted (.threw q)) := by
  rw [World.guarding, Act.exec_bind, Act.exec_attempt]
  rcases factory.exec w with ⟨_ | _, t⟩
  · simp only [Act.exec_bind, Act.exec_modify, Act.exec_throw]
  · rfl

theorem reconciled_answer {c : PoolCategory} {event : PoolEvent} (hrest : Balanced (rest q event))
    (node : NodeId) (h : Reconciled pending p (w.noted (.told q event))) :
    Reconciled pending p (World.answer (World.noting rest) q c event node w).2 := by
  have htold := hrest pending p _ h
  unfold World.answer
  rw [exec_noting]
  rcases hrun : (rest q event).exec (w.noted (.told q event)) with ⟨_ | _, t⟩
  · rw [hrun] at htold
    exact htold.leave q c
  · rw [hrun] at htold
    exact htold.leave q c

/-- What a factory owes: the miss it was started for is due until it ends, and no longer if
it failed. -/
def Repays (pending : Nat) (p q : PoolId) (outcome : Except Fault NodeId × World (Ledger τ)) : Prop :=
  match outcome with
  | (.ok _, t) => Reconciled (pending + due q p) p t
  | (.error _, t) => Reconciled pending p t

theorem repays_guarding (hfactory : Balanced factory) (h : Reconciled (pending + due q p) p w) :
    Repays pending p q ((World.guarding q factory).exec w) := by
  have hmade := hfactory _ p w h
  rw [exec_guarding]
  rcases hrun : factory.exec w with ⟨_ | node, t⟩
  · rw [hrun] at hmade
    exact hmade.threw
  · rw [hrun] at hmade
    exact hmade

theorem reconciled_request (hrest : ∀ q event, Balanced (rest q event)) (h : Reconciled pending p w)
    (hfactory : Repays pending p q (factory.exec (w.enter q r.category Pool.countMiss))) :
    Reconciled pending p ((World.request (World.noting rest) q r factory).exec w).2 := by
  rcases hfree : (w.pool q).isHeld r.category with _ | _
  · rw [World.exec_request _ _ hfree]
    rcases w.served? q r with _ | node
    · rcases hrun : factory.exec (w.enter q r.category Pool.countMiss) with ⟨_ | node, t⟩
      · rw [hrun] at hfactory
        exact Reconciled.leave hfactory q r.category
      · rw [hrun] at hfactory
        exact reconciled_answer (hrest q _) node (Reconciled.miss hfactory r (w.vacant q r) node)
    · exact reconciled_answer (hrest q _) node (h.hit q r.category r.filedUnder r.value)
  · rw [World.request, World.exec_underLock_held hfree]
    exact h

variable {pool : Option PoolId} {kind : Kind} {span : Span} {fields : Fields}

theorem exec_creating (watch : World.PoolWatch (Ledger τ)) (w : World (Ledger τ)) :
    (World.creating watch pool kind span fields).exec w =
      match kind.table.check w.forest.kindName kind.name fields with
      | .error fault => (.error fault, w)
      | .ok _ =>
        let build := Act.onForest (Forest.build kind span fields)
        match kind.sharing? fields, pool with
        | some r, some q => (World.request watch q r (World.guarding q build)).exec w
        | some _, none => (.error .missingPool, w)
        | none, _ => build.exec w := by
  simp only [World.creating, Act.forest, Act.exec_bind, Act.exec_get, Act.exec_pure, Act.exec_ofExcept]
  rcases kind.table.check w.forest.kindName kind.name fields with fault | _
  · rfl
  · rcases kind.sharing? fields with _ | r <;> rcases pool with _ | q <;> rfl

/-- A kind that has no field by the name of the root builds what its table accepts, so there
is nothing to guard. -/
theorem creating_eq_createNode (plain : kind.table.Plain) (watch : World.PoolWatch (Ledger τ)) :
    World.creating watch pool kind span fields = World.createNode watch pool kind span fields := by
  refine Act.ext (fun w => ?_)
  rw [exec_creating, World.exec_createNode]
  rcases hcheck : kind.table.check w.forest.kindName kind.name fields with _ | _
  · rfl
  rcases hsharing : kind.sharing? fields with _ | r
  · rfl
  rcases pool with _ | q
  · rfl
  have hdistinct : kind.table.Distinct := by
    obtain ⟨e, -, htable, -⟩ := World.of_sharing? hsharing
    simp [FieldTable.Distinct, htable]
  have hstores : kind.table.Stores fields :=
    .of_plain plain (FieldTable.fits_iff.2 (FieldTable.fits_of_check hcheck).2)
  have hguard : ∀ t : World (Ledger τ), (World.guarding q (Act.onForest (Forest.build kind span fields))).exec t =
      (Act.onForest (Forest.build kind span fields)).exec t := by
    intro t
    rw [exec_guarding, World.exec_onForest, Forest.exec_build, hstores.settle_eq hdistinct]
  simp only
  rcases hfree : (w.pool q).isHeld r.category with _ | _
  · rw [World.exec_request _ _ hfree, World.exec_request _ _ hfree, hguard]
  · rw [World.request, World.request, World.exec_underLock_held hfree, World.exec_underLock_held hfree]

theorem reconciled_creating (hrest : ∀ q event, Balanced (rest q event)) :
    Balanced (World.creating (World.noting rest) pool kind span fields) := by
  intro pending p w h
  have hbuild : Balanced (Act.onForest (Forest.build kind span fields) : Act (World (Ledger τ)) NodeId) :=
    fun _ _ w h => h.own (evolves_onForest (Forest.keeps_build kind span fields w.forest)) rfl
  rw [exec_creating]
  rcases kind.table.check w.forest.kindName kind.name fields with _ | _
  · exact h
  rcases kind.sharing? fields with _ | r
  · exact hbuild pending p w h
  rcases pool with _ | q
  · exact h
  · exact reconciled_request hrest h (repays_guarding hbuild (h.enter q r.category))

end Calls

/-! ## Clients -/

/-- Code that uses pools through requests, by category or by making nodes of pooled kinds,
all callbacks installed; it may fail and recover, but clears no pool. -/
inductive Client : {α : Type} → Act (World (Ledger τ)) α → Prop
  | own {α : Type} {act : Act (World (Ledger τ)) α} :
      (∀ w, w.Evolves (act.exec w).2 ∧ (act.exec w).2.host.notes = w.host.notes) → Client act
  | bind {α β : Type} {act : Act (World (Ledger τ)) α} {next : α → Act (World (Ledger τ)) β} :
      Client act → (∀ a, Client (next a)) → Client (act >>= next)
  | attempt {α : Type} {act : Act (World (Ledger τ)) α} : Client act → Client act.attempt
  | request {rest : World.PoolWatch (Ledger τ)} {p category value matcher}
      {factory : Act (World (Ledger τ)) NodeId} : (∀ p event, Client (rest p event)) → Client factory →
      Client (World.requestNamed (World.noting rest) p category value matcher (World.guarding p factory))
  | creating {rest : World.PoolWatch (Ledger τ)} {pool kind span fields} :
      (∀ p event, Client (rest p event)) →
      Client (World.creating (World.noting rest) pool kind span fields)

/-- Creations of nodes of all kinds but those with a field by the name of the root. -/
theorem Client.createNode {rest : World.PoolWatch (Ledger τ)} {pool : Option PoolId} {kind : Kind} {span : Span}
    {fields : Fields} (plain : kind.table.Plain) (hrest : ∀ p event, Client (rest p event)) :
    Client (World.createNode (World.noting rest) pool kind span fields) := by
  rw [← creating_eq_createNode plain]
  exact .creating hrest

/-- Code of a client keeps the accounts, whatever misses are pending around it. -/
theorem Client.balanced {α : Type} {act : Act (World (Ledger τ)) α} (h : Client act) : Balanced act := by
  induction h with
  | own hown => exact fun _ _ w h => h.own (hown w).1 (hown w).2
  | @bind α β act next _ _ ihact ihnext =>
    intro pending p w h
    have hact := ihact pending p w h
    rw [Act.exec_bind]
    rcases hrun : act.exec w with ⟨_ | a, t⟩
    · rw [hrun] at hact
      exact hact
    · rw [hrun] at hact
      exact ihnext a pending p t hact
  | attempt _ ih => exact ih
  | @request rest q category value matcher factory _ _ ihrest ihfactory =>
    intro pending p w h
    unfold World.requestNamed
    split
    · next c _ => exact reconciled_request ihrest h (repays_guarding ihfactory (h.enter q c))
    · exact h
  | creating _ ihrest => exact reconciled_creating ihrest

end SyntaxForest
