import SyntaxForest.Proofs.Forest.Content
import SyntaxForest.Proofs.Pool.Request
/-!
# Errands

An errand is a call of a pool at top level: a request or a clearing during which nothing
else is called, because factories and listeners are code beside the pools. One after the
other, errands leave the pool free, and `reply` is what becomes of a request: `exec_ask`
says so of its run, and `asked` what it leaves behind.
-/

namespace SyntaxForest

variable {σ : Type}

/-! ## Code beside the pools -/

/-- All nodes are still there, of the kinds they had. -/
structure Forest.KeepsKinds (f g : Forest) : Prop where
  size_le : f.size ≤ g.size
  kind?_eq : ∀ {id : NodeId}, id.index < f.size → g.kind? id = f.kind? id

theorem Forest.KeepsKinds.refl (f : Forest) : f.KeepsKinds f := ⟨le_rfl, fun _ => rfl⟩

theorem Forest.KeepsKinds.trans {f g h : Forest} (hf : f.KeepsKinds g) (hg : g.KeepsKinds h) : f.KeepsKinds h :=
  ⟨hf.size_le.trans hg.size_le,
    fun hid => (hg.kind?_eq (Nat.lt_of_lt_of_le hid hf.size_le)).trans (hf.kind?_eq hid)⟩

theorem Forest.KeepsKinds.accepts_eq {f g : Forest} (h : f.KeepsKinds g) {id : NodeId} (hid : id.index < f.size)
    (m : Matcher) : m.accepts g id = m.accepts f id :=
  accepts_eq_of_kind? m (h.kind?_eq hid)

theorem Forest.keepsKinds_add (f : Forest) (n : Node) : f.KeepsKinds (f.add n).2 := by
  refine ⟨by simp, fun hid => ?_⟩
  rw [kind?, kind?, node?_add_of_lt f n hid]

/-- Code of the host without access to pools: it sees the forest and the host's own state,
and nodes keep their kinds. -/
structure Code (σ α : Type) where
  act : Act (Forest × σ) α
  keeps : ∀ s : Forest × σ, s.1.KeepsKinds (act.exec s).2.1

/-- Code that gives a node of the forest. -/
structure Maker (σ : Type) extends Code σ NodeId where
  real : ∀ {s x t}, act.exec s = (.ok x, t) → x.index < t.1.size

namespace World

/-- What code beside the pools sees of a world. -/
def around (w : World σ) : Forest × σ := (w.forest, w.host)

/-- The world with other things around its pools. -/
def within (w : World σ) (s : Forest × σ) : World σ := { w with forest := s.1, host := s.2 }

@[simp] theorem pools_within (w : World σ) (s : Forest × σ) : (w.within s).pools = w.pools := rfl

end World

/-- Run code beside the pools of a world. -/
def Code.inWorld {α : Type} (code : Code σ α) : Act (World σ) α :=
  code.act.onPart World.around (fun s w => w.within s)

theorem Code.exec_inWorld {α : Type} (code : Code σ α) (w : World σ) :
    code.inWorld.exec w = ((code.act.exec w.around).1, w.within (code.act.exec w.around).2) := rfl

/-- The factory of a kind that shares its nodes: it builds a node from a record. -/
def Maker.building (kind : Kind) (span : Span) (fields : Fields) : Maker σ where
  act := (Forest.build kind span fields).onPart (·.1) (fun f s => (f, s.2))
  keeps s := by
    rw [Act.exec_onPart, Forest.exec_build]
    split
    · exact .refl _
    · exact Forest.keepsKinds_add _ _
  real := by
    intro s x t h
    rw [Act.exec_onPart, Forest.exec_build] at h
    split at h
    · cases h
    · cases h
      simp [Forest.add, Forest.size]

/-- To create a node of such a kind is to request one from this factory. -/
theorem createNode_eq_request {watch : World.PoolWatch σ} {p : PoolId} {kind : Kind} {fields : Fields}
    {r : PoolRequest} {w : World σ} (hshared : kind.sharing? fields = some r)
    (hfits : kind.table.check w.forest.kindName kind.name fields = .ok ()) (span : Span) :
    (World.createNode watch (some p) kind span fields).exec w =
      (World.request watch p r (Maker.building kind span fields).inWorld).exec w := by
  rw [World.exec_createNode, hfits, hshared]
  rfl

/-! ## Errands and replies -/

/-- A call of a pool at top level. -/
inductive Errand (σ : Type) where
  | ask (r : PoolRequest) (make : Maker σ)
  | clear

/-- What becomes of a request. -/
inductive Reply where
  -- It is served with a node that was filed before.
  | hit (node : NodeId)
  -- Its factory makes a node, which is filed from now on if it is cached.
  | miss (node : NodeId) (cached : Bool)
  -- Its factory fails.
  | failed
deriving DecidableEq

def World.reply (w : World σ) (p : PoolId) (r : PoolRequest) (make : Maker σ) : Reply :=
  match w.served? p r with
  | some node => .hit node
  | none =>
    match (make.act.exec w.around).1 with
    | .ok node => .miss node (w.key? p r (w.vacant p r)).isSome
    | .error _ => .failed

/-- The entry that a request files. -/
def Reply.filing? (r : PoolRequest) : Reply → Option PoolEntry
  | .miss node true => r.value.scalar?.map (fun value => { filedUnder := r.filedUnder, value, node })
  | _ => none

/-- Go on an errand to a pool, with a listener for its events. -/
def Errand.act (tell : PoolEvent → Code σ Unit) (p : PoolId) : Errand σ → Act (World σ) Unit
  | .ask r make => do
    let _ ← World.request (fun _ event => (tell event).inWorld) p r make.inWorld
    return ()
  | .clear => World.clearPool (fun _ event => (tell event).inWorld) p

/-- What an errand leaves behind, whether it fails or not. -/
def Errand.after (tell : PoolEvent → Code σ Unit) (p : PoolId) (w : World σ) (e : Errand σ) : World σ :=
  ((e.act tell p).exec w).2

section Runs

variable {tell : PoolEvent → Code σ Unit} {p : PoolId} {r : PoolRequest} {make : Maker σ} {w : World σ}

theorem key?_congr {t : World σ} (h : Pool.SameNodes (w.pool p) (t.pool p)) (vacant : Bool) :
    t.key? p r vacant = w.key? p r vacant := by
  rw [World.key?, World.key?, Pool.admittedKey?_congr h.policy (h.entries _) (h.count _)]

/-- A request, by what becomes of it: the listener is told with the category locked. -/
theorem exec_ask (free : (w.pool p).isHeld r.category = false) :
    (World.request (fun _ event => (tell event).inWorld) p r make.inWorld).exec w =
      match w.reply p r make with
      | .hit node =>
        World.answer (fun _ event => (tell event).inWorld) p r.category (.hit r.category r.filedUnder r.value) node
          (w.enter p r.category Pool.countHit)
      | .miss node cached =>
        World.answer (fun _ event => (tell event).inWorld) p r.category
          (.miss r.category r.filedUnder r.value cached) node
          (((w.enter p r.category Pool.countMiss).within (make.act.exec w.around).2).keep p r (w.vacant p r) node)
      | .failed =>
        ((make.act.exec w.around).1, ((w.enter p r.category Pool.countMiss).within (make.act.exec w.around).2).leave p r.category) := by
  rw [World.exec_request _ _ free, World.reply]
  rcases w.served? p r with _ | node
  · have haround : (w.enter p r.category Pool.countMiss).around = w.around := rfl
    have hkey : ∀ s, ((w.enter p r.category Pool.countMiss).within s).key? p r (w.vacant p r) =
        w.key? p r (w.vacant p r) := fun s =>
      key?_congr (World.sameNodes_enter w p r.category Pool.countsOnly_countMiss p) (w.vacant p r)
    simp only [Code.exec_inWorld, haround]
    rcases make.act.exec w.around with ⟨fault | node, s⟩
    · rfl
    · simp only [hkey]
  · rfl

/-! ## What a request leaves behind -/

/-- What a request does to its pool, and to the nodes around it. -/
structure Asked (w : World σ) (p : PoolId) (r : PoolRequest) (make : Maker σ) (t : World σ) : Prop where
  nodes : Pool.SameNodes
    (((w.reply p r make).filing? r).elim (w.pool p) ((w.pool p).file r.category)) (t.pool p)
  opened : p.index < t.pools.size
  free : ∀ c, (t.pool p).isHeld c = false
  kinds : w.forest.KeepsKinds t.forest
  /-- So are those of the factory, if it was asked. -/
  made : w.served? p r = none → (make.act.exec w.around).2.1.KeepsKinds t.forest

/-- When the category is the only one locked, the request ends by unlocking it. -/
theorem Asked.of_leave {u : World σ}
    (nodes : Pool.SameNodes
      (((w.reply p r make).filing? r).elim (w.pool p) ((w.pool p).file r.category)) (u.pool p))
    (opened : p.index < u.pools.size) (others : ∀ c, c ≠ r.category → (u.pool p).isHeld c = false)
    (kinds : w.forest.KeepsKinds u.forest)
    (made : w.served? p r = none → (make.act.exec w.around).2.1.KeepsKinds u.forest) :
    Asked w p r make (u.leave p r.category) where
  nodes := nodes.trans (World.sameNodes_leave u p r.category p)
  opened := by rwa [World.leave, World.size_updatePool]
  free c := by
    by_cases hc : c = r.category
    · subst hc
      exact World.isHeld_updatePool_hold opened r.category false
    · rw [World.leave, World.isHeld_updatePool_hold_of_ne _ false (fun h => hc h.2.symm)]
      exact others c hc
  kinds := kinds
  made := made

theorem after_answer (tell : PoolEvent → Code σ Unit) (c : PoolCategory) (event : PoolEvent) (node : NodeId)
    (u : World σ) :
    (World.answer (fun _ event => (tell event).inWorld) p c event node u).2 =
      (u.within ((tell event).act.exec u.around).2).leave p c := by
  rw [World.answer, Code.exec_inWorld]
  rcases (tell event).act.exec u.around with ⟨_ | _, s⟩ <;> rfl

/-- The listener in between sees no pool. -/
theorem Asked.of_answer {u : World σ} (event : PoolEvent) (node : NodeId)
    (nodes : Pool.SameNodes
      (((w.reply p r make).filing? r).elim (w.pool p) ((w.pool p).file r.category)) (u.pool p))
    (opened : p.index < u.pools.size) (others : ∀ c, c ≠ r.category → (u.pool p).isHeld c = false)
    (kinds : w.forest.KeepsKinds u.forest)
    (made : w.served? p r = none → (make.act.exec w.around).2.1.KeepsKinds u.forest) :
    Asked w p r make (World.answer (fun _ event => (tell event).inWorld) p r.category event node u).2 := by
  have htold : u.forest.KeepsKinds ((tell event).act.exec u.around).2.1 := (tell event).keeps u.around
  rw [after_answer]
  exact .of_leave nodes opened others (kinds.trans htold) (fun hserved => (made hserved).trans htold)

theorem isHeld_entered (free : ∀ c, (w.pool p).isHeld c = false) {count : Pool → Pool}
    (counts : Pool.CountsOnly count) {c d : PoolCategory} (hd : d ≠ c) :
    ((w.enter p c count).pool p).isHeld d = false := by
  rw [World.isHeld_enter_of_ne w counts (fun h => hd h.2.symm)]
  exact free d

theorem size_enter (w : World σ) (p : PoolId) (c : PoolCategory) (count : Pool → Pool) :
    (w.enter p c count).pools.size = w.pools.size := by
  simp [World.enter]

/-- What a reply files is what is kept. -/
theorem sameNodes_keep {t : World σ} (opened : p.index < t.pools.size)
    (h : Pool.SameNodes (w.pool p) (t.pool p)) (node : NodeId) :
    Pool.SameNodes
      (((Reply.miss node (w.key? p r (w.vacant p r)).isSome).filing? r).elim (w.pool p) ((w.pool p).file r.category))
      ((t.keep p r (w.vacant p r) node).pool p) := by
  rw [World.pool_keep _ _ _ _ opened, key?_congr h]
  rcases hkey : w.key? p r (w.vacant p r) with _ | value
  · exact h
  · obtain ⟨-, hvalue, -⟩ := World.of_key? hkey
    simp only [Option.isSome_some, Reply.filing?, hvalue, Value.scalar?, Option.map_some, Option.elim_some, if_true]
    exact h.file r.category _

/-- A request that nothing else is called during. -/
theorem asked (tell : PoolEvent → Code σ Unit) (r : PoolRequest) (make : Maker σ) (opened : p.index < w.pools.size)
    (free : ∀ c, (w.pool p).isHeld c = false) : Asked w p r make ((Errand.ask r make).after tell p w) := by
  have hafter : (Errand.ask r make).after tell p w =
      ((World.request (fun _ event => (tell event).inWorld) p r make.inWorld).exec w).2 := by
    rw [Errand.after, Errand.act, Act.exec_bind]
    rcases (World.request _ p r make.inWorld).exec w with ⟨_ | _, t⟩ <;> rfl
  have hmade : w.forest.KeepsKinds (make.act.exec w.around).2.1 := make.keeps w.around
  have hentered : ∀ count, p.index < (w.enter p r.category count).pools.size := fun count => by
    rwa [size_enter]
  have hothers : ∀ c, c ≠ r.category → ((w.enter p r.category Pool.countMiss).pool p).isHeld c = false :=
    fun c hc => isHeld_entered free Pool.countsOnly_countMiss hc
  have hmiss := World.sameNodes_enter w p r.category Pool.countsOnly_countMiss p
  rw [hafter, exec_ask (free r.category)]
  rcases hserved : w.served? p r with _ | node
  · rcases hrun : (make.act.exec w.around).1 with fault | node
    · have hreply : w.reply p r make = .failed := by rw [World.reply, hserved, hrun]
      rw [hreply]
      refine .of_leave ?_ (hentered _) hothers hmade (fun _ => .refl _)
      rw [hreply]
      exact hmiss
    · have hreply : w.reply p r make = .miss node (w.key? p r (w.vacant p r)).isSome := by
        rw [World.reply, hserved, hrun]
      rw [hreply]
      refine .of_answer _ node ?_ ?_ (fun c hc => ?_) ?_ (fun _ => ?_)
      · rw [hreply]
        exact sameNodes_keep (r := r) (t := (w.enter p r.category Pool.countMiss).within (make.act.exec w.around).2)
          (hentered _) hmiss node
      · rw [World.size_keep]
        exact hentered _
      · rw [World.isHeld_keep]
        exact hothers c hc
      · rwa [World.forest_keep]
      · rw [World.forest_keep]
        exact .refl _
  · have hreply : w.reply p r make = .hit node := by rw [World.reply, hserved]
    rw [hreply]
    refine .of_answer _ node ?_ (hentered _) ?_ (.refl _) (fun h => ?_)
    · rw [hreply]
      exact World.sameNodes_enter w p r.category Pool.countsOnly_countHit p
    · exact fun c hc => isHeld_entered free Pool.countsOnly_countHit hc
    · rw [hserved] at h
      cases h

/-- A clearing leaves a new pool with the old policy. -/
theorem cleared (tell : PoolEvent → Code σ Unit) (opened : p.index < w.pools.size)
    (free : ∀ c, (w.pool p).isHeld c = false) :
    ((Errand.clear.after tell p w).pool p = { policy := (w.pool p).policy }) ∧
      p.index < (Errand.clear.after tell p w).pools.size ∧
      w.forest.KeepsKinds (Errand.clear.after tell p w).forest := by
  rw [Errand.after, Errand.act, World.exec_clearPool_of_free _ free, Code.exec_inWorld]
  refine ⟨World.pool_updatePool_self _ opened, ?_, (tell _).keeps (World.around _)⟩
  rwa [World.pools_within, World.size_updatePool]

end Runs

end SyntaxForest
