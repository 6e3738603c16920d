import SyntaxForest.Proofs.Pool.Reachable
/-!
# Clearings

A clearing empties one category after the other, each under its own lock, and goes no
further than the first one that is locked. A locked category belongs to a call under way
(`Play.Sound.isHeld_iff`), so where a clearing is called decides how it ends:
`clearing_stops_at_the_first_lock`. Beside such calls it leaves nothing; inside one it is
refused, with the categories before the locked one emptied already.
-/

namespace SyntaxForest

/-- The categories that are cleared before a given one. -/
def PoolCategory.before (c : PoolCategory) : List PoolCategory := all.takeWhile (fun d => d != c)

theorem PoolCategory.all_eq_append (c : PoolCategory) : ∃ after, all = c.before ++ c :: after := by
  cases c <;> exact ⟨_, rfl⟩

theorem PoolCategory.mem_all (c : PoolCategory) : c ∈ all := by
  cases c <;> decide

namespace Pool

theorem shelf_foldl_emptyShelf (cs : List PoolCategory) (q : Pool) (d : PoolCategory) :
    (cs.foldl emptyShelf q).shelf d = if d ∈ cs then (q.shelf d).emptied else q.shelf d := by
  induction cs generalizing q with
  | nil => rfl
  | cons c rest ih =>
    rw [List.foldl_cons, ih, shelf_emptyShelf]
    by_cases hd : d = c <;> simp [hd, Shelf.emptied]

theorem rest_foldl_emptyShelf (cs : List PoolCategory) (q : Pool) :
    (cs.foldl emptyShelf q).policy = q.policy ∧ (cs.foldl emptyShelf q).hits = q.hits ∧
      (cs.foldl emptyShelf q).misses = q.misses := by
  induction cs generalizing q with
  | nil => exact ⟨rfl, rfl, rfl⟩
  | cons c rest ih =>
    obtain ⟨hpolicy, hhits, hmisses⟩ := ih (q.emptyShelf c)
    exact ⟨hpolicy.trans (policy_setShelf _ _ _), hhits.trans (hits_setShelf _ _ _),
      hmisses.trans (misses_setShelf _ _ _)⟩

/-- The first locked category, in the order in which categories are cleared. -/
theorem free_or_first_held (q : Pool) : (∀ c, q.isHeld c = false) ∨
    ∃ c, q.isHeld c = true ∧ ∀ d ∈ c.before, q.isHeld d = false := by
  rcases hfirst : PoolCategory.all.find? q.isHeld with _ | c
  · exact .inl (fun c => by simpa using List.find?_eq_none.1 hfirst c c.mem_all)
  · obtain ⟨hheld, free, after, hall, hnot⟩ := List.find?_eq_some_iff_append.1 hfirst
    have hfree : ∀ d ∈ free, q.isHeld d = false := fun d hd => by simpa using hnot d hd
    have hne : ∀ d ∈ free, (d != c) = true := by
      intro d hd
      rw [bne_iff_ne]
      rintro rfl
      rw [hfree d hd] at hheld
      cases hheld
    have hbefore : c.before = free := by
      rw [PoolCategory.before, hall, List.takeWhile_append_of_pos hne]
      simp
    exact .inr ⟨c, hheld, hbefore ▸ hfree⟩

end Pool

namespace World

variable {σ : Type} {w : World σ} {p : PoolId}

/-! ## Stopping half way -/

/-- The emptying of categories ends at the first that is locked; those before it are empty
by then. -/
theorem exec_mapM_emptying_held {before after : List PoolCategory} {c : PoolCategory}
    (free : ∀ d ∈ before, (w.pool p).isHeld d = false) (held : (w.pool p).isHeld c = true) :
    ((before ++ c :: after).mapM (emptying p)).exec w =
      (.error (.poolReentered c.name), w.updatePool p (fun q => before.foldl Pool.emptyShelf q)) := by
  induction before generalizing w with
  | nil =>
    rw [List.nil_append, Act.exec_mapM_cons, emptying, exec_underLock_held held]
    simp only [List.foldl_nil, updatePool_id]
  | cons d rest ih =>
    obtain ⟨hd, hrest⟩ := List.forall_mem_cons.1 free
    rw [List.cons_append, Act.exec_mapM_cons, exec_emptying hd]
    simp only [ih (w := w.updatePool p (fun q => q.emptyShelf d))
      (fun e he => (isHeld_emptied w p d p e).trans (hrest e he)) ((isHeld_emptied w p d p c).trans held),
      updatePool_updatePool]
    rfl

theorem exec_clearPool_of_held (watch : PoolWatch σ) {c : PoolCategory} (held : (w.pool p).isHeld c = true)
    (free : ∀ d ∈ c.before, (w.pool p).isHeld d = false) :
    (clearPool watch p).exec w =
      (.error (.poolReentered c.name), w.updatePool p (fun q => c.before.foldl Pool.emptyShelf q)) := by
  obtain ⟨after, hall⟩ := c.all_eq_append
  rw [exec_clearPool, hall, exec_mapM_emptying_held free held]

/-! ## What a clearing leaves behind -/

/-- A change to one pool, in which its policy and its locks stay. -/
structure Touches (p : PoolId) (w t : World σ) : Prop where
  policy : (t.pool p).policy = (w.pool p).policy
  locks : ∀ c, (t.pool p).isHeld c = (w.pool p).isHeld c
  others : ∀ q, q ≠ p → t.pool q = w.pool q
  forest : t.forest = w.forest
  host : t.host = w.host

/-- A pool has forgotten all nodes and started counting anew. -/
structure Cleared (p : PoolId) (w t : World σ) : Prop extends Touches p w t where
  emptied : ∀ c, ((t.pool p).shelf c).entries = [] ∧ (t.pool p).entryCount c = 0
  hits : (t.pool p).hits = 0
  misses : (t.pool p).misses = 0

/-- A pool has forgotten the nodes of the categories before one, and nothing else. -/
structure ClearedUpTo (c : PoolCategory) (p : PoolId) (w t : World σ) : Prop extends Touches p w t where
  emptied : ∀ d ∈ c.before, ((t.pool p).shelf d).entries = [] ∧ (t.pool p).entryCount d = 0
  kept : ∀ d ∉ c.before, (t.pool p).shelf d = (w.pool p).shelf d
  hits : (t.pool p).hits = (w.pool p).hits
  misses : (t.pool p).misses = (w.pool p).misses

theorem touches_updatePool (opened : p.index < w.pools.size) {change : Pool → Pool}
    (hpolicy : (change (w.pool p)).policy = (w.pool p).policy)
    (hlocks : ∀ c, (change (w.pool p)).isHeld c = (w.pool p).isHeld c) :
    Touches p w (w.updatePool p change) := by
  refine ⟨?_, fun c => ?_, fun q hq => pool_updatePool_of_ne w change hq, rfl, rfl⟩
  · rw [pool_updatePool_self change opened, hpolicy]
  · rw [pool_updatePool_self change opened, hlocks]

theorem cleared_anew (opened : p.index < w.pools.size) (free : ∀ c, (w.pool p).isHeld c = false) :
    Cleared p w (w.updatePool p (fun q => { policy := q.policy })) := by
  have hpool := pool_updatePool_self (fun q => { policy := q.policy }) opened
  refine ⟨touches_updatePool opened rfl (fun c => ?_), fun c => ?_, ?_, ?_⟩
  · rw [free]
    cases c <;> rfl
  · rw [hpool]
    cases c <;> exact ⟨rfl, rfl⟩
  · rw [hpool]
  · rw [hpool]

theorem clearedUpTo (opened : p.index < w.pools.size) (c : PoolCategory) :
    ClearedUpTo c p w (w.updatePool p (fun q => c.before.foldl Pool.emptyShelf q)) := by
  have hpool := pool_updatePool_self (fun q => c.before.foldl Pool.emptyShelf q) opened
  obtain ⟨hpolicy, hhits, hmisses⟩ := (w.pool p).rest_foldl_emptyShelf c.before
  refine ⟨touches_updatePool opened hpolicy (fun d => ?_), fun d hd => ?_, fun d hd => ?_, ?_, ?_⟩
  · rw [Pool.isHeld, Pool.shelf_foldl_emptyShelf]
    split <;> rfl
  · rw [Pool.entryCount, hpool, Pool.shelf_foldl_emptyShelf, if_pos hd]
    exact ⟨rfl, rfl⟩
  · rw [hpool, Pool.shelf_foldl_emptyShelf, if_neg hd]
  · rw [hpool, hhits]
  · rw [hpool, hmisses]

end World

/-! ## At every moment -/

section Moments

variable {σ : Type} {p : PoolId} {c : PoolCategory}

/-- A category is locked exactly inside the calls that hold it. -/
theorem Play.Sound.isHeld_iff {play : Play σ} (h : play.Sound) (opened : p.index < play.world.pools.size) :
    (play.world.pool p).isHeld c = true ↔ ∃ call ∈ play.calls, call.lock = (p, c) := by
  have hheld := h.held p c opened
  rw [← List.mem_map, ← List.count_pos_iff]
  change _ ↔ 0 < play.locks.count (p, c)
  rw [hheld]
  cases (play.world.pool p).isHeld c <;> decide

/-- What a pool counts is there. -/
def Pool.Counted (q : Pool) : Prop := ∀ c, q.entryCount c = (q.shelf c).entries.length

theorem Pool.Counted.of_sameNodes {q q' : Pool} (h : q.Counted) (same : SameNodes q q') : q'.Counted := by
  intro c
  rw [entryCount, same.count, same.entries]
  exact h c

theorem Pool.Counted.file {q : Pool} (h : q.Counted) (c : PoolCategory) (e : PoolEntry) :
    (q.file c e).Counted := by
  intro d
  have hold := h d
  rw [entryCount] at hold
  rw [entryCount, shelf_file]
  split <;> simp [Shelf.file, hold]

theorem Pool.Counted.emptyShelf {q : Pool} (h : q.Counted) (c : PoolCategory) : (q.emptyShelf c).Counted := by
  intro d
  rw [entryCount, shelf_emptyShelf]
  split
  · rfl
  · exact h d

theorem Pool.Counted.changes {q q' : Pool} (h : q.Counted) (change : q.Changes q') : q'.Counted := by
  cases change with
  | same hsame => exact h.of_sameNodes hsame
  | filed c e hsame => exact (h.file c e).of_sameNodes hsame
  | emptied c => exact h.emptyShelf c

theorem Plays.counted {scope : Scope} {start : World σ} (fresh : start.Fresh) {play : Play σ}
    (reached : Plays scope ⟨start, [], []⟩ play) (p : PoolId) : (play.world.pool p).Counted := by
  induction reached with
  | refl =>
    intro c
    obtain ⟨policy, hp⟩ := fresh p
    rw [hp]
    cases c <;> rfl
  | tail _ hstep ih => exact ih.changes (hstep.changes p)

/-- Wherever a clearing of a pool is called. Where no call of the pool is under way, it
empties all categories, resets the counters and tells the listener how many nodes were
dropped. Inside a call of the pool, in a factory or a listener, it is refused for the first
category that is locked: the categories before that one are emptied, and all others and
the counters stay as they were. -/
theorem clearing_stops_at_the_first_lock {start : World σ} (fresh : start.Fresh) {play : Play σ}
    (reached : Plays .any ⟨start, [], []⟩ play) (opened : p.index < play.world.pools.size)
    (watch : World.PoolWatch σ) :
    ((∀ call ∈ play.calls, call.lock.1 ≠ p) → ∃ t, World.Cleared p play.world t ∧
      (World.clearPool watch p).exec play.world = (watch p (.clear
        (PoolCategory.all.map (fun c => ((play.world.pool p).shelf c).entries.length)).sum)).exec t) ∧
    ((∃ call ∈ play.calls, call.lock.1 = p) → ∃ c t, (∃ call ∈ play.calls, call.lock = (p, c)) ∧
      (∀ d ∈ c.before, ∀ call ∈ play.calls, call.lock ≠ (p, d)) ∧ World.ClearedUpTo c p play.world t ∧
      (World.clearPool watch p).exec play.world = (.error (.poolReentered c.name), t)) := by
  have hlocked : ∀ c, (play.world.pool p).isHeld c = true ↔ ∃ call ∈ play.calls, call.lock = (p, c) :=
    fun c => (reached.sound fresh.sound).isHeld_iff opened
  have hfree : ∀ c, (play.world.pool p).isHeld c = false ↔ ∀ call ∈ play.calls, call.lock ≠ (p, c) := by
    intro c
    rw [← Bool.not_eq_true, hlocked]
    simp
  rcases (play.world.pool p).free_or_first_held with hnone | ⟨c, hheld, hbefore⟩
  · refine ⟨fun _ => ⟨_, World.cleared_anew opened hnone, ?_⟩, fun ⟨call, hcall, hp⟩ => ?_⟩
    · have htotal : (play.world.pool p).sizes.map Prod.snd =
          PoolCategory.all.map (fun c => ((play.world.pool p).shelf c).entries.length) := by
        rw [Pool.sizes, List.map_map]
        exact List.map_congr_left (fun c _ => reached.counted fresh p c)
      rw [World.exec_clearPool_of_free watch hnone, htotal]
    · exact absurd (by rw [← hp]) ((hfree call.lock.2).1 (hnone _) call hcall)
  · refine ⟨fun hnone => ?_, fun _ => ⟨c, _, (hlocked c).1 hheld, fun d hd => (hfree d).1 (hbefore d hd),
      World.clearedUpTo opened c, World.exec_clearPool_of_held watch hheld hbefore⟩⟩
    obtain ⟨call, hcall, hlock⟩ := (hlocked c).1 hheld
    exact absurd (by rw [hlock]) (hnone call hcall)

end Moments

namespace Interrupted

open Nested

def pool : PoolId := ⟨0⟩

/-- An integer was asked for, and is remembered. -/
def filed : World Unit := ((World.request quiet pool five leaf).exec Nested.world).2

/-- Then a text is asked for, and its factory begins. -/
def world : World Unit := filed.enter pool .string Pool.countMiss

/-- What is left when the factory clears the pool. -/
def after : World Unit := ((World.clearPool quiet pool).exec world).2

theorem filed_reached : ∃ created, Plays .any ⟨Nested.world, [], []⟩ ⟨filed, [], created⟩ := by
  have hcode : HostCode .any (World.request quiet pool five leaf) :=
    .request trivial hostCode_quiet hostCode_leaf
  exact hcode.plays Nested.world [] []

theorem reached : ∃ created, Plays .any ⟨Nested.world, [], []⟩
    ⟨world, [.making pool word (filed.vacant pool word)], created⟩ := by
  obtain ⟨created, hfiled⟩ := filed_reached
  have hmiss : Step .any ⟨filed, [], created⟩
      ⟨world, [.making pool word (filed.vacant pool word)], created⟩ :=
    .miss (p := pool) (r := word) trivial (by decide +kernel) (by decide +kernel)
  exact ⟨created, hfiled.tail hmiss⟩

/-- The clearing is refused, but the integer is forgotten. -/
theorem clearing_loses_integers :
    (∃ t, (World.clearPool quiet pool).exec world = (.error (.poolReentered "string"), t)) ∧
    (world.pool pool).sizes = [(.int, 1), (.bool, 0), (.string, 0), (.identifier, 0)] ∧
    (after.pool pool).sizes = [(.int, 0), (.bool, 0), (.string, 0), (.identifier, 0)] ∧
    ((world.pool pool).misses, (after.pool pool).misses) = (2, 2) := by
  refine ⟨⟨_, World.exec_clearPool_of_held quiet (c := .string) (by decide +kernel) (by decide +kernel)⟩, ?_⟩
  decide +kernel

/-- In the factory of a text the clearing stops before the texts. Once nothing is under way,
it gets through. -/
theorem clearing_stops_in_a_factory : Nested.world.Fresh ∧ pool.index < world.pools.size ∧
    (∃ t, World.ClearedUpTo .string pool world t ∧
      (World.clearPool quiet pool).exec world = (.error (.poolReentered "string"), t)) ∧
    ∃ t, World.Cleared pool filed t ∧
      (World.clearPool quiet pool).exec filed = (quiet pool (.clear 1)).exec t := by
  obtain ⟨made, hreached⟩ := reached
  obtain ⟨earlier, hfiled⟩ := filed_reached
  have hopened : pool.index < world.pools.size := by decide +kernel
  have hopened' : pool.index < filed.pools.size := by decide +kernel
  have htotal : (PoolCategory.all.map (fun c => ((filed.pool pool).shelf c).entries.length)).sum = 1 := by
    decide +kernel
  obtain ⟨-, hinside⟩ := clearing_stops_at_the_first_lock fresh hreached hopened quiet
  obtain ⟨hbeside, -⟩ := clearing_stops_at_the_first_lock fresh hfiled hopened' quiet
  obtain ⟨c, t, ⟨call, hcall, hlock⟩, -, hcleared, hrun⟩ := hinside ⟨_, List.mem_cons_self, rfl⟩
  obtain rfl : .string = c := by
    rw [List.mem_singleton.1 hcall] at hlock
    exact congrArg Prod.snd hlock
  simp only [htotal] at hbeside
  obtain ⟨u, hall, hclear⟩ := hbeside (by simp)
  exact ⟨fresh, hopened, ⟨t, hcleared, hrun⟩, u, hall, hclear⟩

end Interrupted

end SyntaxForest
