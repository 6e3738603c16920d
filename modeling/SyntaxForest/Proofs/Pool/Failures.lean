import SyntaxForest.Proofs.Pool.Admission
import SyntaxForest.Proofs.Pool.Errands
/-!
# Requests that fail

A request can fail at four points: its category is locked, its factory fails, or a listener
fails once the node is made or found. `FailsCleanly` says for each of them what is left
behind. The category is released every time, and its nodes are those that were there; only
when the listener for a made node fails, that node has come to them already, if the request
was to keep it. `requests_fail_cleanly`: so it is for all requests in all worlds.
-/

namespace SyntaxForest

variable {σ : Type}

/-! ## Counting alone -/

theorem Pool.hold_hold {q : Pool} {c : PoolCategory} (free : q.isHeld c = false) :
    (q.hold c true).hold c false = q := by
  have hshelf : { q.shelf c with held := false } = q.shelf c := by rw [← free]; rfl
  cases c <;> simp_all [hold, setShelf, shelf]

namespace World

variable {w t : World σ} {p : PoolId} {c : PoolCategory}

/-- Where nothing else happens in a call, it counts, and that is all. -/
theorem pools_leave {count : Pool → Pool} (commutes : ∀ q held, count (q.hold c held) = (count q).hold c held)
    (free : (w.pool p).isHeld c = false) (quiet : t.pools = (w.enter p c count).pools) :
    (t.leave p c).pools = (w.updatePool p count).pools := by
  have hback : (w.enter p c count).leave p c = w.updatePool p count := by
    rw [enter, leave, updatePool_updatePool, updatePool_updatePool]
    refine updatePool_congr ?_
    rw [← commutes, Pool.hold_hold free]
  rw [← hback, leave, updatePool, quiet]
  rfl

theorem countMiss_hold (q : Pool) (held : Bool) : (q.hold c held).countMiss = q.countMiss.hold c held := by
  cases c <;> rfl

theorem countHit_hold (q : Pool) (held : Bool) : (q.hold c held).countHit = q.countHit.hold c held := by
  cases c <;> rfl

end World

/-! ## As at first -/

section

variable {watch : World.PoolWatch σ} {p : PoolId} {r : PoolRequest} {factory : Act (World σ) NodeId}
  {w u : World σ}

/-- A request with a working factory takes the same course in `u` as in `w`: the node is made,
it is kept if `w` would have kept it, and that is all that happens to the category. -/
def World.AsksAs (w : World σ) (p : PoolId) (r : PoolRequest) (u : World σ) : Prop :=
  ∀ (watch : PoolWatch σ) (factory : Act (World σ) NodeId) (node : NodeId) (t : World σ),
    (∀ q event, HostCode .any (watch q event)) → HostCode .any factory →
    factory.exec (u.enter p r.category Pool.countMiss) = (.ok node, t) →
    (request watch p r factory).exec u =
      answer watch p r.category (.miss r.category r.filedUnder r.value (w.files p r)) node
        (t.keep p r (w.vacant p r) node) ∧
    (((request watch p r factory).exec u).2.pool p).shelf r.category =
      ((w.keep p r (w.vacant p r) node).pool p).shelf r.category

theorem World.asksAs_self (opened : p.index < w.pools.size) (free : (w.pool p).isHeld r.category = false)
    (unserved : w.served? p r = none) : w.AsksAs p r w := by
  intro watch factory node t hwatch hfactory made
  obtain ⟨hinside, hrun⟩ := exec_request_of_made watch hfactory opened free unserved made
  refine ⟨hrun, ?_⟩
  rw [hrun]
  exact hinside.answer (hwatch p _) ((World.isHeld_keep w p r _ node p _).trans free) node

theorem PoolRequest.accepts_eq {f g : Forest} (kinds : f.KeepsKinds g) {x : NodeId} (real : x.index < f.size)
    (r : PoolRequest) : r.accepts g x = r.accepts f x := by
  unfold accepts
  split
  · exact kinds.accepts_eq real _
  · rfl

/-- The course of a request is settled by the policy, by the shelf and by the kinds of nodes. -/
theorem World.AsksAs.of_shelf (opened : p.index < w.pools.size) (opened' : p.index < u.pools.size)
    (free : (w.pool p).isHeld r.category = false) (unserved : w.served? p r = none)
    (policy : (u.pool p).policy = (w.pool p).policy)
    (shelf : (u.pool p).shelf r.category = (w.pool p).shelf r.category)
    (kinds : w.forest.KeepsKinds u.forest)
    (real : ∀ x, (w.pool p).find? r.category r.filedUnder r.value = some x → x.index < w.forest.size) :
    w.AsksAs p r u := by
  have hfind : (u.pool p).find? r.category r.filedUnder r.value =
      (w.pool p).find? r.category r.filedUnder r.value :=
    Pool.find?_congr (congrArg Shelf.entries shelf) r.filedUnder r.value
  have hvacant : u.vacant p r = w.vacant p r := by rw [World.vacant, hfind, World.vacant]
  have hkey : ∀ vacant, u.key? p r vacant = w.key? p r vacant := by
    intro vacant
    rw [World.key?, World.key?, Pool.admittedKey?_congr policy (congrArg Shelf.entries shelf)
      (congrArg Shelf.count shelf)]
  have hfiles : u.files p r = w.files p r := by
    rw [← World.isSome_key?, ← World.isSome_key?, hvacant, hkey]
  have hunserved : u.served? p r = none := by
    rw [World.served?, hfind]
    rw [World.served?] at unserved
    rcases hfound : (w.pool p).find? r.category r.filedUnder r.value with _ | x
    · rfl
    · rw [hfound] at unserved
      rw [Option.filter_some, PoolRequest.accepts_eq kinds (real x hfound) r]
      exact unserved
  intro watch factory node t hwatch hfactory made
  obtain ⟨hrun, hshelf⟩ := World.asksAs_self opened' (by rw [Pool.isHeld, shelf]; exact free) hunserved
    watch factory node t hwatch hfactory made
  refine ⟨?_, ?_⟩
  · rw [hrun, hfiles, hvacant]
  · rw [hshelf, World.shelf_keep opened', World.shelf_keep opened, hvacant, hkey, shelf]

end

/-! ## The four points -/

/-- What a request leaves behind if it fails. -/
structure World.FailsCleanly (w : World σ) (p : PoolId) (r : PoolRequest) : Prop where
  /-- The category is locked: neither the factory nor a listener runs, and nothing changes. -/
  refused : (w.pool p).isHeld r.category = true → ∀ (watch : PoolWatch σ) (factory : Act (World σ) NodeId),
    (request watch p r factory).exec w = (.error (.poolReentered r.category.name), w)
  /-- The factory fails: beside what it did itself there is one more miss, and another
  factory takes the same course. -/
  unmade : (w.pool p).isHeld r.category = false → w.served? p r = none →
    ∀ (watch : PoolWatch σ) (factory : Act (World σ) NodeId) (fault : Fault) (t : World σ),
      HostCode .any factory → factory.exec (w.enter p r.category Pool.countMiss) = (.error fault, t) →
      (request watch p r factory).exec w = (.error fault, t.leave p r.category) ∧
      ((t.leave p r.category).pool p).shelf r.category = (w.pool p).shelf r.category ∧
      (t.pools = (w.enter p r.category Pool.countMiss).pools →
        (t.leave p r.category).pools = (w.updatePool p Pool.countMiss).pools) ∧
      w.AsksAs p r w ∧ (w.forest.KeepsKinds t.forest → w.AsksAs p r (t.leave p r.category))
  /-- The listener fails once the node is made: the node is kept as if it had not, and the
  next request that accepts it is served with it. -/
  untold : (w.pool p).isHeld r.category = false → w.served? p r = none →
    ∀ (watch : PoolWatch σ) (factory : Act (World σ) NodeId) (node : NodeId) (fault : Fault) (t u : World σ),
      (∀ q event, HostCode .any (watch q event)) → HostCode .any factory →
      factory.exec (w.enter p r.category Pool.countMiss) = (.ok node, t) →
      (watch p (.miss r.category r.filedUnder r.value (w.files p r))).exec
        (t.keep p r (w.vacant p r) node) = (.error fault, u) →
      (request watch p r factory).exec w = (.error fault, u.leave p r.category) ∧
      (w.files p r = false →
        ((u.leave p r.category).pool p).shelf r.category = (w.pool p).shelf r.category) ∧
      (w.files p r = true → (∃ value, r.value = .scalar value ∧
          ((u.leave p r.category).pool p).shelf r.category =
            ((w.pool p).shelf r.category).file { filedUnder := r.filedUnder, value, node }) ∧
        ∀ (watch : PoolWatch σ) (factory : Act (World σ) NodeId), r.accepts u.forest node = true →
          (request watch p r factory).exec (u.leave p r.category) =
            answer watch p r.category (.hit r.category r.filedUnder r.value) node
              ((u.leave p r.category).enter p r.category Pool.countHit))
  /-- The listener fails once a node is found: beside what it did itself there is one more hit. -/
  unheard : (w.pool p).isHeld r.category = false → ∀ node, w.served? p r = some node →
    ∀ (watch : PoolWatch σ) (factory : Act (World σ) NodeId) (fault : Fault) (u : World σ),
      (∀ q event, HostCode .any (watch q event)) →
      (watch p (.hit r.category r.filedUnder r.value)).exec (w.enter p r.category Pool.countHit) =
        (.error fault, u) →
      (request watch p r factory).exec w = (.error fault, u.leave p r.category) ∧
      ((u.leave p r.category).pool p).shelf r.category = (w.pool p).shelf r.category ∧
      (u.pools = (w.enter p r.category Pool.countHit).pools →
        (u.leave p r.category).pools = (w.updatePool p Pool.countHit).pools)

section Requests

variable {watch : World.PoolWatch σ} {p : PoolId} {r : PoolRequest} {factory : Act (World σ) NodeId}
  {w t u : World σ} {node : NodeId} {fault : Fault}

theorem World.answer_of_failed {event : PoolEvent} {c : PoolCategory}
    (failed : (watch p event).exec w = (.error fault, u)) (node : NodeId) :
    World.answer watch p c event node w = (.error fault, u.leave p c) := by
  rw [World.answer, failed]

/-- The next request after the listener failed. -/
theorem served_after_filing (shelf : (u.pool p).shelf r.category = (w.pool p).shelf r.category)
    (found : (w.pool p).find? r.category r.filedUnder r.value = some node)
    (accepted : r.accepts u.forest node = true) : u.served? p r = some node := by
  rw [World.served?, Pool.find?_congr (congrArg Shelf.entries shelf), found, Option.filter_some, if_pos accepted]

theorem World.find?_keep_of_files (opened : p.index < w.pools.size) (files : w.files p r = true) (node : NodeId) :
    ∃ value, r.value = .scalar value ∧ w.key? p r (w.vacant p r) = some value ∧
      ((w.keep p r (w.vacant p r) node).pool p).find? r.category r.filedUnder r.value = some node := by
  rw [← World.isSome_key?] at files
  obtain ⟨value, hkey⟩ := Option.isSome_iff_exists.1 files
  obtain ⟨hvacant, hvalue, -⟩ := World.of_key? hkey
  exact ⟨value, hvalue, hkey, World.find?_keep opened hkey (World.find?_of_vacant hvacant) node⟩

/-- However a request of an open pool fails, its category is left as it was found, but for the
node that was filed before its listener failed. -/
theorem requests_fail_cleanly (opened : p.index < w.pools.size)
    (real : ∀ x, (w.pool p).find? r.category r.filedUnder r.value = some x → x.index < w.forest.size) :
    w.FailsCleanly p r where
  refused held watch factory := by
    rw [World.request, World.exec_underLock_held held]
  unmade free unserved watch factory fault t hfactory failed := by
    have hinside : Inside p r.category w t := by
      have hrun := (Inside.enter opened r.category Pool.countsOnly_countMiss).run hfactory
      rwa [failed] at hrun
    have hshelf := hinside.leave free
    have hpolicy : ((t.leave p r.category).pool p).policy = (w.pool p).policy :=
      (World.sameNodes_leave t p r.category p).policy.trans hinside.policy
    have hopened : p.index < (t.leave p r.category).pools.size := by
      rw [World.leave, World.size_updatePool]
      exact hinside.opened
    refine ⟨?_, hshelf, World.pools_leave World.countMiss_hold free, World.asksAs_self opened free unserved,
      fun kinds => .of_shelf opened hopened free unserved hpolicy hshelf kinds real⟩
    rw [World.exec_request watch factory free, unserved, failed]
  untold free unserved watch factory node fault t u hwatch hfactory made failed := by
    obtain ⟨hinside, hrun⟩ := exec_request_of_made watch hfactory opened free unserved made
    have hfree : ((w.keep p r (w.vacant p r) node).pool p).isHeld r.category = false :=
      (World.isHeld_keep w p r _ node p _).trans free
    have hshelf : ((u.leave p r.category).pool p).shelf r.category =
        ((w.keep p r (w.vacant p r) node).pool p).shelf r.category := by
      have htold := hinside.answer (hwatch p (.miss r.category r.filedUnder r.value (w.files p r))) hfree node
      rwa [World.answer_of_failed failed] at htold
    refine ⟨?_, fun hfiles => ?_, fun hfiles => ?_⟩
    · rw [hrun, World.answer_of_failed failed]
    · have hnone : w.key? p r (w.vacant p r) = none := by
        rw [← Option.not_isSome_iff_eq_none, World.isSome_key?, hfiles]
        decide
      rw [hshelf, World.shelf_keep opened, hnone, Option.elim_none]
    · obtain ⟨value, hvalue, hkey, hfound⟩ := World.find?_keep_of_files opened hfiles node
      refine ⟨⟨value, hvalue, ?_⟩, fun watch factory accepted => ?_⟩
      · rw [hshelf, World.shelf_keep opened, hkey, Option.elim_some]
      · refine World.exec_request_of_served watch factory ?_ (served_after_filing hshelf hfound accepted)
        rw [Pool.isHeld, hshelf]
        exact hfree
  unheard free node served watch factory fault u hwatch failed := by
    have hinside := Inside.enter opened r.category Pool.countsOnly_countHit
    refine ⟨?_, ?_, World.pools_leave World.countHit_hold free⟩
    · rw [World.exec_request_of_served watch factory free served, World.answer_of_failed failed]
    · have htold := hinside.answer (hwatch p (.hit r.category r.filedUnder r.value)) free node
      rwa [World.answer_of_failed failed] at htold

end Requests

namespace Unkept

open Shared Nested Kept

/-- A listener that fails when a node is made. -/
def loud : World.PoolWatch Unit
  | _, .miss .. => Act.hostFault "not now"
  | _, _ => pure ()

/-- A node of one of the two kinds with the value five is created on the pool. -/
def create (watch : World.PoolWatch Unit) (index : Nat) : Act (World Unit) NodeId :=
  World.createNode watch (some pool) (lit index) (span index) Shared.five

/-- What makes it, where the pool has none to give. -/
def make (index : Nat) : Act (World Unit) NodeId :=
  (Maker.building (lit index) (span index) Shared.five).inWorld

/-- A factory that asks for a text, and fails. -/
def failing : Act (World Unit) NodeId := do
  let _ ← World.request quiet pool word leaf
  Act.hostFault "no node"

theorem hostCode_failing : HostCode .any failing :=
  .bind (.request trivial hostCode_quiet hostCode_leaf) (fun _ => .own (fun w => .refl w))

/-- A node of the first kind was made and is kept, though the listener failed. -/
def first : World Unit := ((create loud 0).exec Nested.world).2

/-- Then one of the second kind was made, which has the same name; and the listener failed. -/
def second : World Unit := ((create loud 1).exec first).2

/-- The second node is made and not kept, though its value is admitted and though it is the
listener that failed; the next request for it is not served. -/
theorem admitted_node_is_not_filed : (first.pool pool).admits .int "Lit" (.num (.ofNat 5)) = true ∧
    (create loud 1).exec first = (World.request loud pool (asking 1) (make 1)).exec first ∧
    ((make 1).exec (first.enter pool .int Pool.countMiss)).1.toOption = some ⟨1⟩ ∧
    ((create loud 1).exec first).1.toOption = none ∧
    (second.pool pool).find? .int "Lit" (.num (.ofNat 5)) = some ⟨0⟩ ∧
    (asking 1).accepts second.forest ⟨1⟩ = true ∧ second.served? pool (asking 1) = none ∧
    ((create quiet 1).exec second).1.toOption = some ⟨2⟩ :=
  ⟨by decide +kernel, createNode_eq_request rfl (FieldTable.check_of_fits _ _ (by decide +kernel)) _,
    by decide +kernel⟩

/-- A failed request for the second kind leaves the integers alone. The text that was asked
for in between stays. -/
theorem failing_factory_leaves_integers : pool.index < first.pools.size ∧
    (first.pool pool).find? .int "Lit" (.num (.ofNat 5)) = some ⟨0⟩ ∧ 0 < first.forest.size ∧
    (((World.request quiet pool (asking 1) failing).exec first).2.pool pool).shelf .int =
      (first.pool pool).shelf .int ∧
    (((World.request quiet pool (asking 1) failing).exec first).2.pool pool).sizes =
      [(.int, 1), (.bool, 0), (.string, 1), (.identifier, 0)] := by
  have hopened : pool.index < first.pools.size := by decide +kernel
  have hfound : (first.pool pool).find? .int "Lit" (.num (.ofNat 5)) = some ⟨0⟩ := by decide +kernel
  have hsize : 0 < first.forest.size := by decide +kernel
  have hfree : (first.pool pool).isHeld .int = false := by decide +kernel
  have hunserved : first.served? pool (asking 1) = none := by decide +kernel
  have hfails : (failing.exec (first.enter pool .int Pool.countMiss)).1.toOption = none := by decide +kernel
  have hreal : ∀ x, (first.pool pool).find? .int "Lit" (.num (.ofNat 5)) = some x →
      x.index < first.forest.size := by
    intro x hx
    rw [hfound] at hx
    cases hx
    exact hsize
  have hclean : first.FailsCleanly pool (asking 1) := requests_fail_cleanly hopened hreal
  refine ⟨hopened, hfound, hsize, ?_, by decide +kernel⟩
  rcases hrun : failing.exec (first.enter pool .int Pool.countMiss) with ⟨fault | node, t⟩
  · obtain ⟨hrequest, hshelf, -⟩ := hclean.unmade hfree hunserved quiet failing fault t hostCode_failing hrun
    rw [hrequest]
    exact hshelf
  · rw [hrun] at hfails
    cases hfails

end Unkept

end SyntaxForest
