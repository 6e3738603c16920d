import Mathlib.Algebra.GroupWithZero.Nat
import SyntaxForest.Pool.Request
import SyntaxForest.Proofs.Forest.Growth
import SyntaxForest.Proofs.Pool.Shelf
/-!
# Runs of pool calls

What a request and a clearing do to a world, in terms of a few changes: entering
and leaving a category, keeping a node, emptying a shelf. `exec_request` and
`exec_createNode` are the equations of the calls; everything said about whole
runs starts from them.
-/

namespace SyntaxForest

namespace World

variable {σ : Type}

/-! ## Worlds -/

@[simp] theorem forest_updatePool (w : World σ) (p : PoolId) (change : Pool → Pool) :
    (w.updatePool p change).forest = w.forest := rfl

@[simp] theorem size_updatePool (w : World σ) (p : PoolId) (change : Pool → Pool) :
    (w.updatePool p change).pools.size = w.pools.size := by
  simp [updatePool]

theorem pool_updatePool_self {w : World σ} {p : PoolId} (change : Pool → Pool)
    (h : p.index < w.pools.size) : (w.updatePool p change).pool p = change (w.pool p) := by
  simp [pool, updatePool, Array.getElem?_modify, Array.getElem?_eq_getElem h]

theorem pool_updatePool_of_ne (w : World σ) {p q : PoolId} (change : Pool → Pool) (h : q ≠ p) :
    (w.updatePool p change).pool q = w.pool q := by
  rcases p with ⟨i⟩
  rcases q with ⟨j⟩
  have hij : i ≠ j := fun e => h (by rw [e])
  simp [pool, updatePool, Array.getElem?_modify, hij]

theorem pool_of_unopened {w : World σ} {p : PoolId} (h : ¬p.index < w.pools.size) :
    w.pool p = { policy := PoolPolicy.standard } := by
  rw [pool, Array.getElem?_eq_none (Nat.le_of_not_lt h)]
  rfl

theorem pool_updatePool_of_unopened {w : World σ} {p : PoolId} (change : Pool → Pool)
    (h : ¬p.index < w.pools.size) (q : PoolId) : (w.updatePool p change).pool q = w.pool q := by
  rcases p with ⟨i⟩
  rcases q with ⟨j⟩
  by_cases hij : i = j
  · subst hij
    have hnone : w.pools[i]? = none := Array.getElem?_eq_none (Nat.le_of_not_lt h)
    simp [pool, updatePool, Array.getElem?_modify, hnone]
  · exact pool_updatePool_of_ne w change (fun e => hij (by cases e; rfl))

/-- A change to one pool leaves each pool as it was or changes it. -/
theorem pool_updatePool_cases (w : World σ) (p : PoolId) (change : Pool → Pool) (q : PoolId) :
    (w.updatePool p change).pool q = w.pool q ∨
      q = p ∧ p.index < w.pools.size ∧ (w.updatePool p change).pool q = change (w.pool q) := by
  by_cases hq : q = p
  · subst hq
    by_cases ho : q.index < w.pools.size
    · exact .inr ⟨rfl, ho, pool_updatePool_self change ho⟩
    · exact .inl (pool_updatePool_of_unopened change ho q)
  · exact .inl (pool_updatePool_of_ne w change hq)

theorem sameNodes_updatePool (w : World σ) (p : PoolId) {change : Pool → Pool}
    (h : ∀ q, Pool.SameNodes q (change q)) (q : PoolId) :
    Pool.SameNodes (w.pool q) ((w.updatePool p change).pool q) := by
  rcases pool_updatePool_cases w p change q with hq | ⟨-, -, hq⟩
  · rw [hq]
    exact .refl _
  · rw [hq]
    exact h _

theorem isHeld_updatePool (w : World σ) (p : PoolId) {change : Pool → Pool}
    (h : ∀ q c, (change q).isHeld c = q.isHeld c) (q : PoolId) (c : PoolCategory) :
    ((w.updatePool p change).pool q).isHeld c = (w.pool q).isHeld c := by
  rcases pool_updatePool_cases w p change q with hq | ⟨-, -, hq⟩
  · rw [hq]
  · rw [hq, h]

theorem isHeld_emptied (w : World σ) (p : PoolId) (c : PoolCategory) (q : PoolId) (d : PoolCategory) :
    ((w.updatePool p (fun q => q.emptyShelf c)).pool q).isHeld d = (w.pool q).isHeld d :=
  isHeld_updatePool w p (fun q d => Pool.isHeld_emptyShelf q c d) q d

theorem isHeld_updatePool_hold {w : World σ} {p : PoolId} (opened : p.index < w.pools.size)
    (c : PoolCategory) (held : Bool) :
    ((w.updatePool p (fun q => q.hold c held)).pool p).isHeld c = held := by
  rw [pool_updatePool_self _ opened, Pool.isHeld_hold, if_pos rfl]

theorem isHeld_updatePool_hold_of_ne (w : World σ) {p q : PoolId} {c d : PoolCategory} (held : Bool)
    (h : ¬(p = q ∧ c = d)) :
    ((w.updatePool p (fun q => q.hold c held)).pool q).isHeld d = (w.pool q).isHeld d := by
  rcases pool_updatePool_cases w p (fun q => q.hold c held) q with hq | ⟨hqp, -, hq⟩
  · rw [hq]
  · rw [hq, Pool.isHeld_hold, if_neg (fun hd => h ⟨hqp.symm, hd.symm⟩)]

/-! ## What a request changes -/

/-- The remembered node that serves a request, if there is one. -/
def served? (w : World σ) (p : PoolId) (r : PoolRequest) : Option NodeId :=
  ((w.pool p).find? r.category r.filedUnder r.value).filter (r.accepts w.forest)

/-- Nothing is remembered under the key of a request. -/
def vacant (w : World σ) (p : PoolId) (r : PoolRequest) : Bool :=
  ((w.pool p).find? r.category r.filedUnder r.value).isNone

/-- Lock a category of a pool and count what is going to happen. -/
def enter (w : World σ) (p : PoolId) (c : PoolCategory) (count : Pool → Pool) : World σ :=
  (w.updatePool p (fun q => q.hold c true)).updatePool p count

def leave (w : World σ) (p : PoolId) (c : PoolCategory) : World σ :=
  w.updatePool p (fun q => q.hold c false)

/-- The key under which the node made for a request is kept. -/
def key? (w : World σ) (p : PoolId) (r : PoolRequest) (vacant : Bool) : Option Scalar :=
  if vacant then (w.pool p).admittedKey? r.category r.filedUnder r.value else none

/-- Keep the node made for a request, if it has a key. -/
def keep (w : World σ) (p : PoolId) (r : PoolRequest) (vacant : Bool) (node : NodeId) : World σ :=
  match w.key? p r vacant with
  | some value =>
    w.updatePool p (fun q => q.file r.category { filedUnder := r.filedUnder, value, node })
  | none => w

/-- How a request ends that has its node: the outcome is told, then the category
is released, whatever the listener does. -/
def answer (watch : PoolWatch σ) (p : PoolId) (c : PoolCategory) (event : PoolEvent) (node : NodeId)
    (w : World σ) : Except Fault NodeId × World σ :=
  match (watch p event).exec w with
  | (.ok _, t) => (.ok node, t.leave p c)
  | (.error fault, t) => (.error fault, t.leave p c)

@[simp] theorem forest_enter (w : World σ) (p : PoolId) (c : PoolCategory) (count : Pool → Pool) :
    (w.enter p c count).forest = w.forest := rfl

@[simp] theorem forest_keep (w : World σ) (p : PoolId) (r : PoolRequest) (vacant : Bool) (node : NodeId) :
    (w.keep p r vacant node).forest = w.forest := by
  unfold keep
  split <;> rfl

@[simp] theorem host_keep (w : World σ) (p : PoolId) (r : PoolRequest) (vacant : Bool) (node : NodeId) :
    (w.keep p r vacant node).host = w.host := by
  unfold keep
  split <;> rfl

theorem of_key? {w : World σ} {p : PoolId} {r : PoolRequest} {vacant : Bool} {value : Scalar}
    (h : w.key? p r vacant = some value) : vacant = true ∧ r.value = .scalar value ∧
      (w.pool p).admitsScalar r.category r.filedUnder value = true := by
  obtain ⟨hvacant, hkey⟩ : vacant = true ∧
      (w.pool p).admittedKey? r.category r.filedUnder r.value = some value := by
    simpa [key?] using h
  obtain ⟨hscalar, hadmits⟩ := Option.filter_eq_some_iff.1 hkey
  exact ⟨hvacant, Value.eq_of_scalar? hscalar, hadmits⟩

/-- Keeping a node leaves each pool as it was or files the node in it. -/
theorem pool_keep_cases (w : World σ) (p : PoolId) (r : PoolRequest) (vacant : Bool) (node : NodeId)
    (q : PoolId) :
    (w.keep p r vacant node).pool q = w.pool q ∨
      q = p ∧ p.index < w.pools.size ∧ ∃ value, w.key? p r vacant = some value ∧
        (w.keep p r vacant node).pool q =
          (w.pool q).file r.category { filedUnder := r.filedUnder, value, node } := by
  unfold keep
  rcases w.key? p r vacant with _ | value
  · exact .inl rfl
  · rcases pool_updatePool_cases w p
      (fun q => q.file r.category { filedUnder := r.filedUnder, value, node }) q with h | ⟨hq, hopened, h⟩
    · exact .inl h
    · exact .inr ⟨hq, hopened, value, rfl, h⟩

theorem find?_of_vacant {w : World σ} {p : PoolId} {r : PoolRequest} (h : w.vacant p r = true) :
    (w.pool p).find? r.category r.filedUnder r.value = none :=
  Option.isNone_iff_eq_none.1 h

theorem size_keep (w : World σ) (p : PoolId) (r : PoolRequest) (vacant : Bool) (node : NodeId) :
    (w.keep p r vacant node).pools.size = w.pools.size := by
  unfold keep
  split <;> simp

theorem find?_hold (w : World σ) (p : PoolId) (c : PoolCategory) (held : Bool) (q : PoolId)
    (d : PoolCategory) (name : String) (v : Value) :
    ((w.updatePool p (fun q => q.hold c held)).pool q).find? d name v = (w.pool q).find? d name v :=
  (sameNodes_updatePool w p (fun q => Pool.sameNodes_hold q c held) q).find?_eq d name v

theorem pool_enter {w : World σ} {q : PoolId} (p : PoolId) (c : PoolCategory) (count : Pool → Pool)
    (opened : q.index < w.pools.size) :
    (w.enter p c count).pool q = if p = q then count ((w.pool q).hold c true) else w.pool q := by
  unfold enter
  split
  · next hpq =>
    subst hpq
    rw [pool_updatePool_self _ (by rwa [size_updatePool]), pool_updatePool_self _ opened]
  · next hpq =>
    rw [pool_updatePool_of_ne _ _ (Ne.symm hpq), pool_updatePool_of_ne _ _ (Ne.symm hpq)]

theorem pool_keep {w : World σ} {q : PoolId} (p : PoolId) (r : PoolRequest) (vacant : Bool) (node : NodeId)
    (opened : q.index < w.pools.size) : (w.keep p r vacant node).pool q =
      match w.key? p r vacant with
      | some value =>
        if p = q then (w.pool q).file r.category { filedUnder := r.filedUnder, value, node } else w.pool q
      | none => w.pool q := by
  unfold keep
  rcases w.key? p r vacant with _ | value
  · rfl
  · simp only
    split
    · next hpq =>
      subst hpq
      rw [pool_updatePool_self _ opened]
    · next hpq => rw [pool_updatePool_of_ne _ _ (Ne.symm hpq)]

theorem sameNodes_enter (w : World σ) (p : PoolId) (c : PoolCategory) {count : Pool → Pool}
    (h : Pool.CountsOnly count) (q : PoolId) : Pool.SameNodes (w.pool q) ((w.enter p c count).pool q) :=
  (sameNodes_updatePool w p (fun q => Pool.sameNodes_hold q c true) q).trans
    (sameNodes_updatePool _ p h.sameNodes q)

theorem sameNodes_leave (w : World σ) (p : PoolId) (c : PoolCategory) (q : PoolId) :
    Pool.SameNodes (w.pool q) ((w.leave p c).pool q) :=
  sameNodes_updatePool w p (fun q => Pool.sameNodes_hold q c false) q

theorem isHeld_enter {w : World σ} {p : PoolId} (opened : p.index < w.pools.size) (c : PoolCategory)
    {count : Pool → Pool} (h : Pool.CountsOnly count) : ((w.enter p c count).pool p).isHeld c = true := by
  rw [enter, isHeld_updatePool _ p h.isHeld, isHeld_updatePool_hold opened]

theorem isHeld_enter_of_ne (w : World σ) {p q : PoolId} {c d : PoolCategory} {count : Pool → Pool}
    (h : Pool.CountsOnly count) (hne : ¬(p = q ∧ c = d)) :
    ((w.enter p c count).pool q).isHeld d = (w.pool q).isHeld d := by
  rw [enter, isHeld_updatePool _ p h.isHeld, isHeld_updatePool_hold_of_ne w true hne]

theorem isHeld_keep (w : World σ) (p : PoolId) (r : PoolRequest) (vacant : Bool) (node : NodeId)
    (q : PoolId) (d : PoolCategory) :
    ((w.keep p r vacant node).pool q).isHeld d = (w.pool q).isHeld d := by
  unfold keep
  split
  · exact isHeld_updatePool w p (fun q c => Pool.isHeld_file q _ c _) q d
  · rfl

/-! ## The calls -/

variable {watch : PoolWatch σ} {p : PoolId} {r : PoolRequest} {factory : Act (World σ) NodeId}

theorem exec_underLock_held {α : Type} {c : PoolCategory} {body : Act (World σ) α} {w : World σ}
    (held : (w.pool p).isHeld c = true) :
    (underLock p c body).exec w = (.error (.poolReentered c.name), w) :=
  Act.exec_locked_of_held held

theorem exec_underLock {α : Type} {c : PoolCategory} {body : Act (World σ) α} {w : World σ}
    (free : (w.pool p).isHeld c = false) :
    (underLock p c body).exec w =
      ((body.exec (w.updatePool p (fun q => q.hold c true))).1,
        (body.exec (w.updatePool p (fun q => q.hold c true))).2.leave p c) :=
  Act.exec_locked_of_free free

theorem exec_request (watch : PoolWatch σ) (factory : Act (World σ) NodeId) {w : World σ}
    (free : (w.pool p).isHeld r.category = false) :
    (request watch p r factory).exec w =
      match w.served? p r with
      | some node =>
        answer watch p r.category (.hit r.category r.filedUnder r.value) node
          (w.enter p r.category Pool.countHit)
      | none =>
        match factory.exec (w.enter p r.category Pool.countMiss) with
        | (.error fault, t) => (.error fault, t.leave p r.category)
        | (.ok node, t) =>
          answer watch p r.category
            (.miss r.category r.filedUnder r.value (t.key? p r (w.vacant p r)).isSome) node
            (t.keep p r (w.vacant p r) node) := by
  rw [request, exec_underLock free]
  simp only [Act.exec_bind, Act.exec_get, find?_hold, forest_updatePool]
  unfold served? vacant
  generalize hf : (w.pool p).find? r.category r.filedUnder r.value = found
  rcases found.filter (r.accepts w.forest) with _ | node
  · simp only [Act.exec_bind, Act.exec_modify, enter]
    rcases factory.exec _ with ⟨_ | node, t⟩
    · rfl
    · simp only [Act.exec_get, keep, key?, answer]
      generalize (if found.isNone then (t.pool p).admittedKey? r.category r.filedUnder r.value
        else none) = kept
      rcases kept with _ | value
      · simp only [Act.exec_bind, Option.isSome_none]
        rcases (watch p _).exec t with ⟨_ | _, u⟩ <;> rfl
      · simp only [Act.exec_bind, Act.exec_modify, Option.isSome_some]
        rcases (watch p _).exec _ with ⟨_ | _, u⟩ <;> rfl
  · simp only [Act.exec_bind, Act.exec_modify, answer, enter]
    rcases (watch p _).exec _ with ⟨_ | _, t⟩ <;> rfl

theorem exec_request_of_served (watch : PoolWatch σ) (factory : Act (World σ) NodeId) {w : World σ}
    {node : NodeId} (free : (w.pool p).isHeld r.category = false) (served : w.served? p r = some node) :
    (request watch p r factory).exec w =
      answer watch p r.category (.hit r.category r.filedUnder r.value) node
        (w.enter p r.category Pool.countHit) := by
  rw [exec_request watch factory free, served]

/-- Empty a category under its lock; gives how many nodes it remembered. -/
def emptying (p : PoolId) (c : PoolCategory) : Act (World σ) Nat :=
  underLock p c do
    let w ← get
    set (w.updatePool p (fun q => q.emptyShelf c))
    return (w.pool p).entryCount c

theorem updatePool_updatePool (w : World σ) (p : PoolId) (f g : Pool → Pool) :
    (w.updatePool p f).updatePool p g = w.updatePool p (fun q => g (f q)) := by
  have harrays : (w.pools.modify p.index f).modify p.index g =
      w.pools.modify p.index (fun q => g (f q)) := by
    apply Array.ext_getElem?
    intro i
    simp only [Array.getElem?_modify]
    split
    · rw [Option.map_map]
      rfl
    · rfl
  simp only [updatePool, harrays]

theorem updatePool_id (w : World σ) (p : PoolId) : w.updatePool p (fun q => q) = w := by
  simp only [updatePool]
  congr 1
  apply Array.ext_getElem?
  intro i
  simp [Array.getElem?_modify]

/-- A change depends on what it does to the pool as it is. -/
theorem updatePool_congr {w : World σ} {p : PoolId} {f g : Pool → Pool}
    (h : f (w.pool p) = g (w.pool p)) : w.updatePool p f = w.updatePool p g := by
  have harrays : w.pools.modify p.index f = w.pools.modify p.index g := by
    apply Array.ext_getElem?
    intro i
    simp only [Array.getElem?_modify]
    split
    · next hi =>
      subst hi
      rcases hq : w.pools[p.index]? with _ | q
      · rfl
      · have hp : w.pool p = q := by rw [pool, hq]; rfl
        rw [hp] at h
        simp [h]
    · rfl
  simp only [updatePool, harrays]

theorem exec_emptying {c : PoolCategory} {w : World σ} (free : (w.pool p).isHeld c = false) :
    (emptying p c).exec w =
      (.ok ((w.pool p).entryCount c), w.updatePool p (fun q => q.emptyShelf c)) := by
  have hcount : ((w.updatePool p (fun q => q.hold c true)).pool p).entryCount c = (w.pool p).entryCount c :=
    (sameNodes_updatePool w p (fun q => Pool.sameNodes_hold q c true) p).count c
  have hworld : ((w.updatePool p (fun q => q.hold c true)).updatePool p (fun q => q.emptyShelf c)).leave p c =
      w.updatePool p (fun q => q.emptyShelf c) := by
    rw [leave, updatePool_updatePool, updatePool_updatePool]
    apply updatePool_congr
    rcases hq : w.pool p with ⟨policy, int, bool, string, identifier, hits, misses⟩
    rw [hq] at free
    cases c <;> simp_all [Pool.isHeld, Pool.hold, Pool.emptyShelf, Pool.shelf, Pool.setShelf, Shelf.emptied]
  rw [emptying, exec_underLock free]
  simp only [Act.exec_bind, Act.exec_get, Act.exec_set, Act.exec_pure, hcount, hworld]

theorem exec_clearPool (watch : PoolWatch σ) (p : PoolId) (w : World σ) :
    (clearPool watch p).exec w =
      match (PoolCategory.all.mapM (emptying p)).exec w with
      | (.error fault, t) => (.error fault, t)
      | (.ok dropped, t) =>
        (watch p (.clear (dropped.foldl (· + ·) 0))).exec (t.updatePool p Pool.resetCounters) := by
  change ((PoolCategory.all.mapM (emptying p)) >>= _ : Act (World σ) Unit).exec w = _
  rw [Act.exec_bind]
  rcases (PoolCategory.all.mapM (emptying p)).exec w with ⟨_ | dropped, t⟩
  · rfl
  · simp only [Act.exec_bind, Act.exec_modify]

theorem exec_mapM_emptying {cs : List PoolCategory} (apart : cs.Nodup) {w : World σ}
    (free : ∀ c ∈ cs, (w.pool p).isHeld c = false) :
    (cs.mapM (emptying p)).exec w =
      (.ok (cs.map (w.pool p).entryCount), w.updatePool p (fun q => cs.foldl Pool.emptyShelf q)) := by
  induction cs generalizing w with
  | nil =>
    rw [Act.exec_mapM_nil, List.map_nil]
    exact congrArg _ (updatePool_id w p).symm
  | cons c rest ih =>
    obtain ⟨hc, hrest⟩ := List.nodup_cons.1 apart
    have hfree : ∀ d ∈ rest, ((w.updatePool p (fun q => q.emptyShelf c)).pool p).isHeld d = false :=
      fun d hd => (isHeld_emptied w p c p d).trans (free d (List.mem_cons_of_mem _ hd))
    -- Another category counts what it counted before.
    have hcount : rest.map ((w.updatePool p (fun q => q.emptyShelf c)).pool p).entryCount =
        rest.map (w.pool p).entryCount := by
      refine List.map_congr_left (fun d hd => ?_)
      have hne : d ≠ c := fun heq => hc (heq ▸ hd)
      rcases pool_updatePool_cases w p (fun q => q.emptyShelf c) p with hp | ⟨-, -, hp⟩
      · rw [hp]
      · rw [hp, Pool.entryCount_emptyShelf, if_neg hne]
    rw [Act.exec_mapM_cons, exec_emptying (free c List.mem_cons_self)]
    simp only [ih hrest hfree, hcount, updatePool_updatePool]
    rfl

/-- Clearing a pool that nothing holds starts it anew, under the policy it has. The listener
is told how much it remembered. -/
theorem exec_clearPool_of_free (watch : PoolWatch σ) {w : World σ}
    (free : ∀ c, (w.pool p).isHeld c = false) :
    (clearPool watch p).exec w =
      (watch p (.clear ((w.pool p).sizes.map Prod.snd).sum)).exec
        (w.updatePool p (fun q => { policy := q.policy })) := by
  have htotal : (PoolCategory.all.map (w.pool p).entryCount).foldl (· + ·) 0 =
      ((w.pool p).sizes.map Prod.snd).sum := by
    rw [← List.sum_eq_foldl, Pool.sizes, List.map_map]
    rfl
  rw [exec_clearPool, exec_mapM_emptying (by decide) (fun c _ => free c)]
  simp only [htotal, updatePool_updatePool]
  congr 1
  exact updatePool_congr (Pool.emptied_anew free)

/-! ## Making nodes of a kind -/

variable {pool : Option PoolId} {kind : Kind} {span : Span} {fields : Fields}

theorem exec_onForest {α : Type} (action : Act Forest α) (w : World σ) :
    (Act.onForest action).exec w =
      ((action.exec w.forest).1, { w with forest := (action.exec w.forest).2 }) := rfl

theorem exec_createNode (watch : PoolWatch σ) (w : World σ) :
    (createNode watch pool kind span fields).exec w =
      match kind.table.check w.forest.kindName kind.name fields with
      | .error fault => (.error fault, w)
      | .ok _ =>
        match kind.sharing? fields, pool with
        | some r, some p => (request watch p r (Act.onForest (Forest.build kind span fields))).exec w
        | some _, none => (.error .missingPool, w)
        | none, _ => (Act.onForest (Forest.build kind span fields)).exec w := by
  simp only [createNode, Act.forest, Act.exec_bind, Act.exec_get, Act.exec_pure, Act.exec_ofExcept]
  rcases kind.table.check w.forest.kindName kind.name fields with fault | _
  · rfl
  · rcases kind.sharing? fields with _ | r <;> rcases pool with _ | p <;> rfl

/-- What sharing asks for: the kind's own nodes, by the scalar of its one field. -/
theorem of_sharing? (h : kind.sharing? fields = some r) :
    ∃ e s, kind.table = [e] ∧ Fields.read fields e.name = .scalar s ∧
      kind.poolCategory = some r.category ∧ r.value = .scalar s ∧ r.matcher = some (.exactly kind) := by
  unfold Kind.sharing? at h
  split at h
  · next category e hc ht =>
    split at h
    · next s hs =>
      cases h
      exact ⟨e, s, ht, hs, hc, rfl, rfl⟩
    · cases h
  · cases h

/-- A record that sharing asks for is stored as it is, if it is stored. -/
theorem stored_of_sharing? {kindOf : NodeId → String} {stored : Fields} (h : kind.sharing? fields = some r)
    (hsettle : kind.table.settle kindOf kind.name fields = .ok stored) : stored = kind.table.listed fields := by
  obtain ⟨e, s, ht, hs, -⟩ := of_sharing? h
  refine (FieldTable.of_settle_of_copy (fun d hd => ?_) hsettle).1
  rw [ht, List.mem_singleton] at hd
  subst hd
  rw [hs]
  rcases d.type with _ | _ | _ <;> rfl

end World
end SyntaxForest
