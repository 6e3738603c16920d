import Mathlib.Logic.Relation
import SyntaxForest.Proofs.Pool.Request
/-!
# Plays: pools among host code

Factories and listeners are code of the host and may do anything, calls of the
same pools included. A play is the world at one moment together with the calls
that are open then, and `Step` says what can happen next; between two calls the
host moves freely. Every moment inside a factory or a listener is a play, so a
statement about all plays is one about all states a pool can be seen in.

`HostCode` are the actions that use pools through their calls only.
`HostCode.plays`: running one is a sequence of steps, whatever calls are open.
-/

namespace SyntaxForest

/-- A call that waits for code of the host. -/
inductive OpenCall where
  -- A factory makes the node; `vacant` tells whether its key was, at first.
  | making (p : PoolId) (r : PoolRequest) (vacant : Bool)
  -- The outcome is settled, and a listener is told if there is a node; the category is still locked.
  | telling (p : PoolId) (c : PoolCategory)

/-- A node that was built for a kind because its pool could not serve it. -/
structure Creation where
  pool : PoolId
  kind : Kind
  span : Span
  value : Scalar
  node : NodeId
  -- The pool remembers the node from now on.
  kept : Bool

structure Play (σ : Type) where
  world : World σ
  -- Calls under way, the innermost first.
  calls : List OpenCall
  -- What was created so far, oldest first.
  created : List Creation

/-- What the host asks of pools: requests it makes itself, and kinds it creates nodes of. -/
structure Scope where
  asks : PoolRequest → Prop
  makes : Kind → Prop

def Scope.any : Scope := ⟨fun _ => True, fun _ => True⟩

variable {σ : Type}

/-- What the host does without a pool: nodes are made and linked, pools are left alone. -/
structure World.Evolves (w t : World σ) : Prop where
  pools : t.pools = w.pools
  forest : w.forest.Keeps t.forest

/-- The world with one more node. -/
def World.grown (w : World σ) (n : Node) : World σ := { w with forest := (w.forest.add n).2 }

/-- What can happen next. -/
inductive Step (scope : Scope) : Play σ → Play σ → Prop
  -- The host does something of its own.
  | own {w t calls created} : w.Evolves t → Step scope ⟨w, calls, created⟩ ⟨t, calls, created⟩
  -- A request is served, and its listener begins.
  | hit {w calls created p r node} : (w.pool p).isHeld r.category = false → w.served? p r = some node →
      Step scope ⟨w, calls, created⟩
        ⟨w.enter p r.category Pool.countHit, .telling p r.category :: calls, created⟩
  -- A request is not served, and its factory begins.
  | miss {w calls created p r} : scope.asks r → (w.pool p).isHeld r.category = false →
      w.served? p r = none →
      Step scope ⟨w, calls, created⟩
        ⟨w.enter p r.category Pool.countMiss, .making p r (w.vacant p r) :: calls, created⟩
  -- The factory of a request gives some node, and the listener begins.
  | made {w calls created p r vacant} (node : NodeId) :
      Step scope ⟨w, .making p r vacant :: calls, created⟩
        ⟨w.keep p r vacant node, .telling p r.category :: calls, created⟩
  -- The factory of a request fails.
  | threw {w calls created p r vacant} :
      Step scope ⟨w, .making p r vacant :: calls, created⟩ ⟨w.leave p r.category, calls, created⟩
  -- A listener ends, in whatever way.
  | told {w calls created p c} :
      Step scope ⟨w, .telling p c :: calls, created⟩ ⟨w.leave p c, calls, created⟩
  -- A node of a kind is created that the pool cannot serve, and the listener begins.
  | built {w calls created p kind fields r value} (span : Span) : scope.makes kind →
      kind.table.check w.forest.kindName kind.name fields = .ok () →
      kind.sharing? fields = some r → r.value = .scalar value →
      (w.pool p).isHeld r.category = false → w.served? p r = none →
      Step scope ⟨w, calls, created⟩
        ⟨((w.enter p r.category Pool.countMiss).grown
            { span, shape := .schema kind (kind.table.listed fields) }).keep p r (w.vacant p r)
              ⟨w.forest.size⟩,
          .telling p r.category :: calls,
          created ++ [{ pool := p, kind, span, value, node := ⟨w.forest.size⟩
                        kept := ((w.enter p r.category Pool.countMiss).key? p r (w.vacant p r)).isSome }]⟩
  -- A node of a kind is asked for that the pool cannot serve, and cannot be stored either.
  | spoilt {w calls created p kind fields r fault} : scope.makes kind →
      kind.sharing? fields = some r →
      kind.table.settle w.forest.kindName kind.name fields = .error fault →
      (w.pool p).isHeld r.category = false → w.served? p r = none →
      Step scope ⟨w, calls, created⟩
        ⟨w.enter p r.category Pool.countMiss, .telling p r.category :: calls, created⟩
  -- A clearing empties one category.
  | emptied {w calls created p c} : (w.pool p).isHeld c = false →
      Step scope ⟨w, calls, created⟩ ⟨w.updatePool p (fun q => q.emptyShelf c), calls, created⟩
  -- A clearing that emptied all categories resets the counters.
  | reset {w calls created p} :
      Step scope ⟨w, calls, created⟩ ⟨w.updatePool p Pool.resetCounters, calls, created⟩

abbrev Plays (scope : Scope) : Play σ → Play σ → Prop := Relation.ReflTransGen (Step scope)

/-- Code that uses pools through their calls only, and makes only calls of the scope. -/
inductive HostCode (scope : Scope) : {α : Type} → Act (World σ) α → Prop
  | own {α : Type} {act : Act (World σ) α} : (∀ w : World σ, w.Evolves (act.exec w).2) →
      HostCode scope act
  | bind {α β : Type} {act : Act (World σ) α} {next : α → Act (World σ) β} : HostCode scope act →
      (∀ a, HostCode scope (next a)) → HostCode scope (act >>= next)
  | attempt {α : Type} {act : Act (World σ) α} : HostCode scope act → HostCode scope act.attempt
  | request {watch : World.PoolWatch σ} {p r} {factory : Act (World σ) NodeId} : scope.asks r →
      (∀ p event, HostCode scope (watch p event)) → HostCode scope factory →
      HostCode scope (World.request watch p r factory)
  | clearPool {watch : World.PoolWatch σ} {p} : (∀ p event, HostCode scope (watch p event)) →
      HostCode scope (World.clearPool watch p)
  | createNode {watch : World.PoolWatch σ} {pool kind span fields} : scope.makes kind →
      (∀ p event, HostCode scope (watch p event)) →
      HostCode scope (World.createNode watch pool kind span fields)

/-! ## Running host code -/

variable {scope : Scope}

theorem World.Evolves.refl (w : World σ) : w.Evolves w := ⟨rfl, .refl _⟩

theorem World.Evolves.pool {w t : World σ} (h : w.Evolves t) (p : PoolId) : t.pool p = w.pool p := by
  rw [World.pool, h.pools, World.pool]

theorem evolves_onForest {α : Type} {action : Act Forest α} {w : World σ}
    (h : w.forest.Keeps (action.exec w.forest).2) : w.Evolves ((Act.onForest action).exec w).2 := by
  rw [World.exec_onForest]
  exact ⟨rfl, h⟩

theorem plays_emptying (scope : Scope) (p : PoolId) (cs : List PoolCategory) (w : World σ) (calls : List OpenCall)
    (created : List Creation) :
    Plays scope ⟨w, calls, created⟩ ⟨((cs.mapM (World.emptying p)).exec w).2, calls, created⟩ := by
  induction cs generalizing w with
  | nil => exact .refl
  | cons c rest ih =>
    rw [Act.exec_mapM_cons]
    rcases hfree : (w.pool p).isHeld c with _ | _
    · rw [World.exec_emptying hfree]
      have hrest := ih (w.updatePool p (fun q => q.emptyShelf c))
      simp only
      rcases hrun : (rest.mapM (World.emptying p)).exec (w.updatePool p (fun q => q.emptyShelf c))
        with ⟨_ | _, u⟩
      · rw [hrun] at hrest
        exact .head (.emptied hfree) hrest
      · rw [hrun] at hrest
        exact .head (.emptied hfree) hrest
    · rw [World.emptying, World.exec_underLock_held hfree]

/-- A step of the host alone, or one by which a call begins or goes on or ends; what is left
are the steps of clearings. -/
def CallStep (scope : Scope) (a b : Play σ) : Prop :=
  Step scope a b ∧ (b.calls ≠ a.calls ∨ a.world.Evolves b.world)

/-- Running an action goes along certain steps, whatever calls are open around it. -/
def Moves (R : Play σ → Play σ → Prop) {α : Type} (act : Act (World σ) α) : Prop :=
  ∀ w calls created, ∃ later,
    Relation.ReflTransGen R ⟨w, calls, created⟩ ⟨(act.exec w).2, calls, later⟩

theorem Moves.bind {R : Play σ → Play σ → Prop} {α β : Type} {act : Act (World σ) α}
    {next : α → Act (World σ) β} (hact : Moves R act) (hnext : ∀ a, Moves R (next a)) :
    Moves R (act >>= next) := by
  intro w calls created
  obtain ⟨later, hfirst⟩ := hact w calls created
  rw [Act.exec_bind]
  rcases hrun : act.exec w with ⟨_ | a, t⟩
  · rw [hrun] at hfirst
    exact ⟨later, hfirst⟩
  · rw [hrun] at hfirst
    obtain ⟨last, hthen⟩ := hnext a t calls later
    exact ⟨last, hfirst.trans hthen⟩

section Calls

variable {R : Play σ → Play σ → Prop} (covers : ∀ a b, CallStep scope a b → R a b)
include covers

theorem moves_own {α : Type} {act : Act (World σ) α} (hown : ∀ w : World σ, w.Evolves (act.exec w).2) :
    Moves R act :=
  fun w _ created => ⟨created, .single (covers _ _ ⟨.own (hown w), .inr (hown w)⟩)⟩

theorem moves_answer {watch : World.PoolWatch σ} {p : PoolId} {event : PoolEvent} {calls : List OpenCall}
    {created later : List Creation} {w : World σ} (c : PoolCategory) (node : NodeId)
    (h : Relation.ReflTransGen R ⟨w, .telling p c :: calls, created⟩
      ⟨((watch p event).exec w).2, .telling p c :: calls, later⟩) :
    Relation.ReflTransGen R ⟨w, .telling p c :: calls, created⟩
      ⟨(World.answer watch p c event node w).2, calls, later⟩ := by
  have htold : ∀ t : World σ, R ⟨t, .telling p c :: calls, later⟩ ⟨t.leave p c, calls, later⟩ :=
    fun t => covers _ _ ⟨.told, .inl (List.cons_ne_self _ _).symm⟩
  unfold World.answer
  rcases hrun : (watch p event).exec w with ⟨_ | _, t⟩
  · rw [hrun] at h
    exact h.tail (htold t)
  · rw [hrun] at h
    exact h.tail (htold t)

section Request

variable {watch : World.PoolWatch σ} {p : PoolId} {r : PoolRequest} {w : World σ}
  {calls : List OpenCall} {created : List Creation}

omit covers in
theorem moves_request_held (watch : World.PoolWatch σ) (factory : Act (World σ) NodeId)
    (held : (w.pool p).isHeld r.category = true) :
    Relation.ReflTransGen R ⟨w, calls, created⟩
      ⟨((World.request watch p r factory).exec w).2, calls, created⟩ := by
  rw [World.request, World.exec_underLock_held held]

theorem moves_request_served {node : NodeId} (hwatch : ∀ p event, Moves R (watch p event))
    (factory : Act (World σ) NodeId) (free : (w.pool p).isHeld r.category = false)
    (hserved : w.served? p r = some node) : ∃ later,
      Relation.ReflTransGen R ⟨w, calls, created⟩
        ⟨((World.request watch p r factory).exec w).2, calls, later⟩ := by
  rw [World.exec_request watch factory free, hserved]
  obtain ⟨later, htell⟩ := hwatch p (.hit r.category r.filedUnder r.value)
    (w.enter p r.category Pool.countHit) (.telling p r.category :: calls) created
  exact ⟨later, .head (covers _ _ ⟨.hit free hserved, .inl (List.cons_ne_self _ _)⟩)
    (moves_answer covers _ node htell)⟩

end Request

/-- A request that is not served lets its factory make the node. -/
theorem moves_request {watch : World.PoolWatch σ} {p : PoolId} {r : PoolRequest}
    {factory : Act (World σ) NodeId} (asks : scope.asks r) (hwatch : ∀ p event, Moves R (watch p event))
    (hfactory : Moves R factory) : Moves R (World.request watch p r factory) := by
  intro w calls created
  rcases hfree : (w.pool p).isHeld r.category with _ | _
  · rcases hserved : w.served? p r with _ | node
    · have hmiss : R ⟨w, calls, created⟩
          ⟨w.enter p r.category Pool.countMiss, .making p r (w.vacant p r) :: calls, created⟩ :=
        covers _ _ ⟨.miss asks hfree hserved, .inl (List.cons_ne_self _ _)⟩
      rw [World.exec_request watch factory hfree, hserved]
      obtain ⟨later, hmake⟩ := hfactory (w.enter p r.category Pool.countMiss)
        (.making p r (w.vacant p r) :: calls) created
      simp only
      rcases hrun : factory.exec (w.enter p r.category Pool.countMiss) with ⟨_ | node, t⟩
      · rw [hrun] at hmake
        have hthrew : R ⟨t, .making p r (w.vacant p r) :: calls, later⟩
            ⟨t.leave p r.category, calls, later⟩ :=
          covers _ _ ⟨.threw, .inl (List.cons_ne_self _ _).symm⟩
        exact ⟨later, .head hmiss (hmake.tail hthrew)⟩
      · rw [hrun] at hmake
        have hmade : R ⟨t, .making p r (w.vacant p r) :: calls, later⟩
            ⟨t.keep p r (w.vacant p r) node, .telling p r.category :: calls, later⟩ :=
          covers _ _ ⟨.made node, .inl (by simp)⟩
        obtain ⟨last, htell⟩ := hwatch p
          (.miss r.category r.filedUnder r.value (t.key? p r (w.vacant p r)).isSome)
          (t.keep p r (w.vacant p r) node) (.telling p r.category :: calls) later
        exact ⟨last, .head hmiss ((hmake.tail hmade).trans (moves_answer covers _ node htell))⟩
    · exact moves_request_served covers hwatch factory hfree hserved
  · exact ⟨created, moves_request_held watch factory hfree⟩

/-- A node that has to be built for a shared kind is built in one step: it is stored as it was
given, or not at all. -/
theorem moves_createNode {watch : World.PoolWatch σ} {kind : Kind} (makes : scope.makes kind)
    (hwatch : ∀ p event, Moves R (watch p event)) (pool : Option PoolId) (span : Span) (fields : Fields) :
    Moves R (World.createNode watch pool kind span fields) := by
  intro w calls created
  have hown := moves_own covers
    (fun w => evolves_onForest (Forest.keeps_build kind span fields w.forest)) w calls created
  rw [World.exec_createNode]
  rcases hfits : kind.table.check w.forest.kindName kind.name fields with _ | _
  · exact ⟨created, .refl⟩
  rcases hsharing : kind.sharing? fields with _ | r
  · exact hown
  rcases pool with _ | p
  · exact ⟨created, .refl⟩
  simp only
  rcases hfree : (w.pool p).isHeld r.category with _ | _
  · rcases hserved : w.served? p r with _ | node
    · obtain ⟨e, value, -, -, -, hvalue, -⟩ := World.of_sharing? hsharing
      have hbuild := Forest.exec_build kind span fields w.forest
      rw [World.exec_request _ _ hfree, hserved]
      rcases hsettle : kind.table.settle w.forest.kindName kind.name fields with fault | stored
      · rw [hsettle] at hbuild
        simp only [World.exec_onForest, World.forest_enter, hbuild]
        have hspoilt : R ⟨w, calls, created⟩
            ⟨w.enter p r.category Pool.countMiss, .telling p r.category :: calls, created⟩ :=
          covers _ _ ⟨.spoilt makes hsharing hsettle hfree hserved, .inl (List.cons_ne_self _ _)⟩
        exact ⟨created, .head hspoilt (.single (covers _ _ ⟨.told, .inl (List.cons_ne_self _ _).symm⟩))⟩
      · obtain rfl := World.stored_of_sharing? hsharing hsettle
        rw [hsettle] at hbuild
        simp only [World.exec_onForest, World.forest_enter, hbuild]
        obtain ⟨later, htell⟩ := hwatch p _ _ _ _
        exact ⟨later, .head (covers _ _ ⟨.built span makes hfits hsharing hvalue hfree hserved,
          .inl (List.cons_ne_self _ _)⟩) (moves_answer covers _ _ htell)⟩
    · exact moves_request_served covers hwatch _ hfree hserved
  · exact ⟨created, moves_request_held watch _ hfree⟩

end Calls

theorem moves_clearPool {watch : World.PoolWatch σ} (hwatch : ∀ p event, Moves (Step scope) (watch p event))
    (p : PoolId) : Moves (Step scope) (World.clearPool watch p) := by
  intro w calls created
  rw [World.exec_clearPool]
  have hempty := plays_emptying scope p PoolCategory.all w calls created
  rcases hrun : (PoolCategory.all.mapM (World.emptying p)).exec w with ⟨_ | dropped, t⟩
  · rw [hrun] at hempty
    exact ⟨created, hempty⟩
  · rw [hrun] at hempty
    obtain ⟨later, htell⟩ := hwatch p (.clear (dropped.foldl (· + ·) 0))
      (t.updatePool p Pool.resetCounters) calls created
    exact ⟨later, (hempty.tail .reset).trans htell⟩

/-- Running host code takes steps, with any calls open around it. -/
theorem HostCode.plays {α : Type} {act : Act (World σ) α} (h : HostCode scope act) (w : World σ)
    (calls : List OpenCall) (created : List Creation) :
    ∃ later, Plays scope ⟨w, calls, created⟩ ⟨(act.exec w).2, calls, later⟩ := by
  have covers : ∀ a b : Play σ, CallStep scope a b → Step scope a b := fun _ _ h => h.1
  suffices hmoves : Moves (Step scope) act from hmoves w calls created
  induction h with
  | own hown => exact moves_own covers hown
  | bind _ _ ihact ihnext => exact ihact.bind ihnext
  | attempt _ ih => exact ih
  | request hasks _ _ ihwatch ihfactory => exact moves_request covers hasks ihwatch ihfactory
  | clearPool _ ihwatch => exact moves_clearPool ihwatch _
  | createNode hmakes _ ihwatch => exact moves_createNode covers hmakes ihwatch _ _ _

/-! ## What a step does to a pool -/

/-- A pool files a node, forgets those of a category, or only locks, releases and counts. -/
inductive Pool.Changes (q : Pool) : Pool → Prop
  | same {q' : Pool} : SameNodes q q' → Changes q q'
  | filed {q' : Pool} (c : PoolCategory) (e : PoolEntry) : SameNodes (q.file c e) q' → Changes q q'
  | emptied (c : PoolCategory) : Changes q (q.emptyShelf c)

theorem World.changes_keep {w t : World σ} {q : PoolId} (h : Pool.SameNodes (w.pool q) (t.pool q)) (p : PoolId)
    (r : PoolRequest) (vacant : Bool) (node : NodeId) :
    (w.pool q).Changes ((t.keep p r vacant node).pool q) := by
  rcases World.pool_keep_cases t p r vacant node q with hq | ⟨-, -, value, -, hq⟩
  · exact .same (hq ▸ h)
  · exact .filed r.category { filedUnder := r.filedUnder, value, node } (hq ▸ h.file _ _)

theorem Step.changes {a b : Play σ} (h : Step scope a b) (p : PoolId) :
    (a.world.pool p).Changes (b.world.pool p) := by
  cases h with
  | own evolves => exact .same (evolves.pool p ▸ .refl _)
  | hit => exact .same (World.sameNodes_enter _ _ _ Pool.countsOnly_countHit p)
  | miss => exact .same (World.sameNodes_enter _ _ _ Pool.countsOnly_countMiss p)
  | made node => exact World.changes_keep (.refl _) _ _ _ node
  | threw => exact .same (World.sameNodes_leave _ _ _ p)
  | told => exact .same (World.sameNodes_leave _ _ _ p)
  | @built w _ _ q _ _ r _ =>
    have hentered := World.sameNodes_enter w q r.category Pool.countsOnly_countMiss p
    exact World.changes_keep (t := (w.enter q r.category Pool.countMiss).grown _) hentered _ _ _ _
  | spoilt => exact .same (World.sameNodes_enter _ _ _ Pool.countsOnly_countMiss p)
  | @emptied w _ _ q c =>
    rcases World.pool_updatePool_cases w q (fun q => q.emptyShelf c) p with hp | ⟨-, -, hp⟩
    · exact .same (hp ▸ .refl _)
    · exact hp ▸ .emptied c
  | reset => exact .same (World.sameNodes_updatePool _ _ Pool.countsOnly_resetCounters.sameNodes p)

end SyntaxForest
