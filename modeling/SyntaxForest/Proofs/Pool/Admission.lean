import SyntaxForest.Proofs.Pool.Lasting
/-!
# Admission

While code of the host runs inside a call of a pool, the category of the call is locked: its
shelf stays as it is (`HostCode.leavesLocked`), and policies stay anyway (`HostCode.policy`).
`Inside` says so of any moment inside the call. What a policy admits is decided by these two
alone, so a pool foretells which nodes it is going to keep: `admission_foretells_filing`.
-/

namespace SyntaxForest

variable {σ : Type}

/-! ## Policies stay -/

theorem Pool.Changes.policy {q q' : Pool} (h : q.Changes q') : q'.policy = q.policy := by
  cases h with
  | same hsame => exact hsame.policy
  | filed c e hsame => exact hsame.policy.trans (policy_setShelf _ _ _)
  | emptied c => exact policy_setShelf _ _ _

theorem HostCode.policy {scope : Scope} {α : Type} {act : Act (World σ) α} (h : HostCode scope act)
    (w : World σ) (p : PoolId) : ((act.exec w).2.pool p).policy = (w.pool p).policy := by
  obtain ⟨later, hplays⟩ := h.plays w [] []
  suffices hpolicy : ∀ play, Plays scope ⟨w, [], []⟩ play →
      (play.world.pool p).policy = (w.pool p).policy from hpolicy _ hplays
  intro play reached
  induction reached with
  | refl => rfl
  | tail _ hstep ih => exact (hstep.changes p).policy.trans ih

/-! ## Inside a call -/

/-- A moment inside a call of a category that began in a certain world, as far as the
category is concerned. -/
structure Inside (p : PoolId) (c : PoolCategory) (w t : World σ) : Prop where
  policy : (t.pool p).policy = (w.pool p).policy
  shelf : (t.pool p).shelf c = { (w.pool p).shelf c with held := true }

namespace Inside

variable {p : PoolId} {c : PoolCategory} {w t : World σ}

theorem held (h : Inside p c w t) : (t.pool p).isHeld c = true := by
  rw [Pool.isHeld, h.shelf]

theorem opened (h : Inside p c w t) : p.index < t.pools.size := World.opened_of_held h.held

theorem enter (opened : p.index < w.pools.size) (c : PoolCategory) {count : Pool → Pool}
    (counts : Pool.CountsOnly count) : Inside p c w (w.enter p c count) where
  policy := (World.sameNodes_enter w p c counts p).policy
  shelf := by
    rw [World.pool_enter p c count opened, if_pos rfl, (counts _).2, Pool.shelf_hold, if_pos rfl]

theorem run {scope : Scope} {α : Type} {act : Act (World σ) α} (h : Inside p c w t) (hact : HostCode scope act) :
    Inside p c w (act.exec t).2 where
  policy := (hact.policy t p).trans h.policy
  shelf := (hact.leavesLocked p c t h.held).trans h.shelf

theorem leave (h : Inside p c w t) (free : (w.pool p).isHeld c = false) :
    ((t.leave p c).pool p).shelf c = (w.pool p).shelf c := by
  rw [World.leave, World.pool_updatePool_self _ h.opened, Pool.shelf_hold, if_pos rfl, h.shelf, ← free]
  rfl

variable {r : PoolRequest}

/-- The key is the one that was foreseen before the call. -/
theorem key? (h : Inside p r.category w t) (vacant : Bool) : t.key? p r vacant = w.key? p r vacant := by
  have hadmitted := Pool.admittedKey?_congr (c := r.category) h.policy (by rw [h.shelf])
    (by rw [Pool.entryCount, h.shelf, Pool.entryCount]) r.filedUnder r.value
  rw [World.key?, World.key?, hadmitted]

theorem keep (h : Inside p r.category w t) (opened : p.index < w.pools.size) (vacant : Bool) (node : NodeId) :
    Inside p r.category (w.keep p r vacant node) (t.keep p r vacant node) := by
  have hwas := World.pool_keep p r vacant node opened
  have his := World.pool_keep p r vacant node h.opened
  rw [h.key?] at his
  rcases hkey : w.key? p r vacant with _ | value
  · rw [hkey] at hwas his
    refine ⟨?_, ?_⟩
    · rw [his, hwas, h.policy]
    · rw [his, hwas, h.shelf]
  · simp only [hkey, if_true] at hwas his
    refine ⟨?_, ?_⟩
    · rw [his, hwas, Pool.file, Pool.file, Pool.policy_setShelf, Pool.policy_setShelf, h.policy]
    · rw [his, hwas, Pool.shelf_file, Pool.shelf_file, if_pos rfl, if_pos rfl, h.shelf]
      rfl

/-- However the listener ends, the category is released as it was found. -/
theorem answer {scope : Scope} {watch : World.PoolWatch σ} {event : PoolEvent} (h : Inside p c w t)
    (hwatch : HostCode scope (watch p event)) (free : (w.pool p).isHeld c = false) (node : NodeId) :
    ((World.answer watch p c event node t).2.pool p).shelf c = (w.pool p).shelf c := by
  have htold := h.run hwatch
  unfold World.answer
  rcases hrun : (watch p event).exec t with ⟨_ | _, u⟩
  · rw [hrun] at htold
    exact htold.leave free
  · rw [hrun] at htold
    exact htold.leave free

end Inside

/-! ## What is kept -/

/-- Whether a request that is not served leaves its node in the pool. -/
def World.files (w : World σ) (p : PoolId) (r : PoolRequest) : Bool :=
  w.vacant p r && (w.pool p).admits r.category r.filedUnder r.value

theorem World.isSome_key? (w : World σ) (p : PoolId) (r : PoolRequest) :
    (w.key? p r (w.vacant p r)).isSome = w.files p r := by
  unfold World.key? World.files
  cases w.vacant p r <;> simp [Pool.admits]

section Requests

variable {watch : World.PoolWatch σ} {p : PoolId} {r : PoolRequest} {factory : Act (World σ) NodeId}
  {w t : World σ} {node : NodeId}

/-- A request whose factory makes a node: whether it is kept was settled when the request
began. -/
theorem exec_request_of_made (watch : World.PoolWatch σ) (hfactory : HostCode .any factory)
    (opened : p.index < w.pools.size) (free : (w.pool p).isHeld r.category = false)
    (unserved : w.served? p r = none)
    (made : factory.exec (w.enter p r.category Pool.countMiss) = (.ok node, t)) :
    Inside p r.category (w.keep p r (w.vacant p r) node) (t.keep p r (w.vacant p r) node) ∧
      (World.request watch p r factory).exec w =
        World.answer watch p r.category (.miss r.category r.filedUnder r.value (w.files p r)) node
          (t.keep p r (w.vacant p r) node) := by
  have hinside : Inside p r.category w t := by
    have hrun := (Inside.enter opened r.category Pool.countsOnly_countMiss).run hfactory
    rwa [made] at hrun
  refine ⟨hinside.keep opened _ node, ?_⟩
  rw [World.exec_request watch factory free, unserved]
  simp only [made, hinside.key?, World.isSome_key?]

/-- A request that finds nothing under its key, and whose factory makes a node: the listener
is told that the node is kept, and it is, exactly if the pool admitted the value when the
request began. Nothing else happens to the category. -/
theorem admission_foretells_filing (hwatch : ∀ q event, HostCode .any (watch q event))
    (hfactory : HostCode .any factory) (opened : p.index < w.pools.size)
    (free : (w.pool p).isHeld r.category = false)
    (vacant : (w.pool p).find? r.category r.filedUnder r.value = none)
    (made : factory.exec (w.enter p r.category Pool.countMiss) = (.ok node, t)) :
    (World.request watch p r factory).exec w =
      World.answer watch p r.category
        (.miss r.category r.filedUnder r.value ((w.pool p).admits r.category r.filedUnder r.value)) node
        (t.keep p r true node) ∧
    (((World.request watch p r factory).exec w).2.pool p).find? r.category r.filedUnder r.value =
      (if (w.pool p).admits r.category r.filedUnder r.value then some node else none) ∧
    (((World.request watch p r factory).exec w).2.pool p).shelf r.category =
      ((w.pool p).admittedKey? r.category r.filedUnder r.value).elim ((w.pool p).shelf r.category)
        (fun value => ((w.pool p).shelf r.category).file { filedUnder := r.filedUnder, value, node }) := by
  have hvacant : w.vacant p r = true := by rw [World.vacant, vacant]; rfl
  have hserved : w.served? p r = none := by rw [World.served?, vacant]; rfl
  have hfiles : w.files p r = (w.pool p).admits r.category r.filedUnder r.value := by
    rw [World.files, hvacant, Bool.true_and]
  have hkey : w.key? p r (w.vacant p r) = (w.pool p).admittedKey? r.category r.filedUnder r.value := by
    rw [World.key?, hvacant, if_pos rfl]
  obtain ⟨hinside, hrun⟩ := exec_request_of_made watch hfactory opened free hserved made
  have hshelf : (((World.request watch p r factory).exec w).2.pool p).shelf r.category =
      ((w.keep p r (w.vacant p r) node).pool p).shelf r.category := by
    rw [hrun]
    exact hinside.answer (hwatch p _) ((World.isHeld_keep w p r _ node p _).trans free) node
  refine ⟨?_, ?_, ?_⟩
  · rw [hrun, hfiles, hvacant]
  · rw [Pool.find?_congr (congrArg Shelf.entries hshelf), ← hfiles, ← World.isSome_key?]
    rcases hsome : w.key? p r (w.vacant p r) with _ | value
    · have hsame := World.shelf_keep (r := r) opened (w.vacant p r) node
      rw [hsome] at hsame
      rw [Pool.find?_congr (congrArg Shelf.entries hsame), vacant]
      rfl
    · rw [World.find?_keep opened hsome vacant]
      rfl
  · rw [hshelf, World.shelf_keep opened, hkey]

end Requests

namespace Foretold

open Nested

def pool : PoolId := ⟨0⟩

/-- An integer was asked for, and is remembered. -/
def world : World Unit := ((World.request quiet pool five leaf).exec Nested.world).2

/-- A factory that asks for another integer, which is kept; for its own category, which is
refused; and for a clearing, which fails half way. -/
def factory : Act (World Unit) NodeId := do
  let _ ← World.request quiet pool { category := .int, value := .num (.ofNat 6), matcher := none } leaf
  let _ ← (World.request quiet pool { word with value := .text "y" } leaf).attempt
  let _ ← (World.clearPool quiet pool).attempt
  leaf

theorem hostCode_factory : HostCode .any factory := by
  refine .bind (.request trivial hostCode_quiet hostCode_leaf) (fun _ => ?_)
  refine .bind (.attempt (.request trivial hostCode_quiet hostCode_leaf)) (fun _ => ?_)
  exact .bind (.attempt (.clearPool hostCode_quiet)) (fun _ => hostCode_leaf)

/-- The text is kept, as its pool foretold. -/
theorem word_is_filed : pool.index < world.pools.size ∧ (world.pool pool).isHeld .string = false ∧
    (world.pool pool).find? .string "*" (.text "x") = none ∧
    (factory.exec (world.enter pool .string Pool.countMiss)).1.toOption = some ⟨2⟩ ∧
    (((World.request quiet pool word factory).exec world).2.pool pool).find? .string "*" (.text "x") =
      some ⟨2⟩ := by
  have hopened : pool.index < world.pools.size := by decide +kernel
  have hfree : (world.pool pool).isHeld .string = false := by decide +kernel
  have hvacant : (world.pool pool).find? .string "*" (.text "x") = none := by decide +kernel
  have hmade : (factory.exec (world.enter pool .string Pool.countMiss)).1.toOption = some ⟨2⟩ := by
    decide +kernel
  have hadmits : (world.pool pool).admits .string "*" (.text "x") = true := by decide +kernel
  refine ⟨hopened, hfree, hvacant, hmade, ?_⟩
  rcases hrun : factory.exec (world.enter pool .string Pool.countMiss) with ⟨fault | node, t⟩
  · rw [hrun] at hmade
    cases hmade
  · rw [hrun] at hmade
    obtain ⟨-, hfound, -⟩ :=
      admission_foretells_filing (r := word) hostCode_quiet hostCode_factory hopened hfree hvacant hrun
    exact hfound.trans ((if_pos hadmits).trans hmade)

end Foretold

end SyntaxForest
