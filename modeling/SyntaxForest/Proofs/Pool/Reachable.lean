import SyntaxForest.Proofs.Pool.Play
import SyntaxForest.Proofs.Pool.Sound
/-!
# Pools at every moment

`Play.Sound` is kept by every step: pools are sound, a category is locked exactly
while one call under way holds it, and a key that was vacant when a factory began
is still vacant, because its category is locked. `pools_stay_sound`: so pools are
sound at every moment of every play, and free between calls.
-/

namespace SyntaxForest

/-- The category that a call under way holds. -/
def OpenCall.lock : OpenCall → PoolId × PoolCategory
  | .making p r _ => (p, r.category)
  | .telling p c => (p, c)

namespace Play

variable {σ : Type} {w t : World σ} {calls : List OpenCall} {created later : List Creation}
  {p : PoolId} {c : PoolCategory} {r : PoolRequest}

/-- The categories held by calls under way. -/
def locks (play : Play σ) : List (PoolId × PoolCategory) := play.calls.map OpenCall.lock

structure Sound (play : Play σ) : Prop where
  pools : ∀ p, (play.world.pool p).policy.Capped → (play.world.pool p).Sound
  -- Of the pools there are, a category is held by one call if it is locked, else by none.
  held : ∀ p c, p.index < play.world.pools.size →
    play.locks.count (p, c) = ((play.world.pool p).isHeld c).toNat
  vacant : ∀ p r, .making p r true ∈ play.calls →
    (play.world.pool p).find? r.category r.filedUnder r.value = none

theorem Sound.own (h : Sound ⟨w, calls, created⟩) (evolves : w.Evolves t) :
    Sound ⟨t, calls, created⟩ := by
  constructor
  · intro p
    rw [evolves.pool]
    exact h.pools p
  · intro p c
    rw [evolves.pool, evolves.pools]
    exact h.held p c
  · intro p r
    rw [evolves.pool]
    exact h.vacant p r

theorem Sound.grown (h : Sound ⟨w, calls, created⟩) (n : Node) : Sound ⟨w.grown n, calls, created⟩ :=
  h.own ⟨rfl, Forest.keeps_add w.forest n⟩

theorem Sound.enter (h : Sound ⟨w, calls, created⟩) {call : OpenCall} {count : Pool → Pool}
    (hlock : call.lock = (p, c)) (free : (w.pool p).isHeld c = false) (counts : Pool.CountsOnly count)
    (hvacant : ∀ q r, call = .making q r true →
      (w.pool q).find? r.category r.filedUnder r.value = none) :
    Sound ⟨w.enter p c count, call :: calls, created⟩ := by
  have same := World.sameNodes_enter w p c counts
  constructor
  · intro q hcapped
    simp only [(same q).policy] at hcapped
    exact (h.pools q hcapped).of_sameNodes (same q)
  · intro q d hopened
    simp only [World.enter, World.size_updatePool] at hopened
    have hold := h.held q d hopened
    simp only [locks, List.map_cons, hlock] at hold ⊢
    by_cases heq : p = q ∧ c = d
    · obtain ⟨rfl, rfl⟩ := heq
      rw [List.count_cons_self, hold, free, World.isHeld_enter hopened c counts]
      rfl
    · rw [List.count_cons_of_ne (by simpa using heq), hold, World.isHeld_enter_of_ne w counts heq]
  · intro q s hs
    simp only [(same q).find?_eq]
    rcases List.mem_cons.1 hs with heq | hmem
    · exact hvacant q s heq.symm
    · exact h.vacant q s hmem

theorem Sound.misses (h : Sound ⟨w, calls, created⟩) (free : (w.pool p).isHeld r.category = false) :
    Sound ⟨w.enter p r.category Pool.countMiss, .making p r (w.vacant p r) :: calls, created⟩ := by
  refine h.enter rfl free Pool.countsOnly_countMiss (fun q s heq => ?_)
  obtain ⟨rfl, rfl, hvacant⟩ := OpenCall.making.inj heq
  exact World.find?_of_vacant hvacant

/-- A call that ends releases its category: no other call holds it. -/
theorem Sound.leave {call : OpenCall} (h : Sound ⟨w, call :: calls, created⟩) (hlock : call.lock = (p, c)) :
    Sound ⟨w.leave p c, calls, created⟩ := by
  have same := World.sameNodes_leave w p c
  constructor
  · intro q hcapped
    simp only [(same q).policy] at hcapped
    exact (h.pools q hcapped).of_sameNodes (same q)
  · intro q d hopened
    simp only [World.leave, World.size_updatePool] at hopened
    have hold := h.held q d hopened
    simp only [locks, List.map_cons, hlock] at hold ⊢
    by_cases heq : p = q ∧ c = d
    · obtain ⟨rfl, rfl⟩ := heq
      have hone := Bool.toNat_le ((w.pool p).isHeld c)
      rw [List.count_cons_self] at hold
      rw [World.leave, World.isHeld_updatePool_hold hopened, Bool.toNat_false]
      omega
    · rw [List.count_cons_of_ne (by simpa using heq)] at hold
      rw [hold, World.leave, World.isHeld_updatePool_hold_of_ne w false heq]
  · intro q s hs
    simp only [(same q).find?_eq]
    exact h.vacant q s (List.mem_cons_of_mem _ hs)

/-- The innermost call holds its category alone. -/
theorem Sound.lock_ne {call other : OpenCall} (h : Sound ⟨w, call :: calls, created⟩)
    (hlock : call.lock = (p, c)) (opened : p.index < w.pools.size) (hother : other ∈ calls) :
    other.lock ≠ (p, c) := by
  intro heq
  have hold := h.held p c opened
  have hone := Bool.toNat_le ((w.pool p).isHeld c)
  have hpos : 0 < (calls.map OpenCall.lock).count (p, c) :=
    List.count_pos_iff.2 (heq ▸ List.mem_map_of_mem hother)
  simp only [locks, List.map_cons, hlock, List.count_cons_self] at hold
  omega

/-- The node of a factory is kept under its key, which is vacant still: no other
factory under way asks for the same category. -/
theorem Sound.keep {vacant : Bool} (h : Sound ⟨w, .making p r vacant :: calls, created⟩) (node : NodeId) :
    Sound ⟨w.keep p r vacant node, .telling p r.category :: calls, later⟩ := by
  have hcases := World.pool_keep_cases w p r vacant node
  constructor
  · intro q hcapped
    rcases hcases q with hq | ⟨rfl, -, value, hkey, hq⟩
    · simp only [hq] at hcapped ⊢
      exact h.pools q hcapped
    · obtain ⟨rfl, hvalue, hadmits⟩ := World.of_key? hkey
      simp only [hq] at hcapped ⊢
      have hpolicy : (w.pool q).policy.Capped := by simpa [Pool.file] using hcapped
      have hfind := h.vacant q r List.mem_cons_self
      simp only [hvalue, Pool.find?, Pool.ne_negativeZero_of_admits hadmits, if_false] at hfind
      exact (h.pools q hpolicy).file hpolicy hadmits hfind
  · intro q d hopened
    simp only [World.size_keep] at hopened
    simp only [World.isHeld_keep]
    exact h.held q d hopened
  · intro q s hs
    have hmem : .making q s true ∈ calls := by simpa using hs
    have hold := h.vacant q s (List.mem_cons_of_mem _ hmem)
    rcases hcases q with hq | ⟨rfl, hopened, value, -, hq⟩
    · simp only [hq]
      exact hold
    · have hne := h.lock_ne rfl hopened hmem
      simp only [hq]
      rw [Pool.find?_file_of_ne]
      · exact hold
      · intro hcategory
        exact hne (by rw [OpenCall.lock, hcategory])

theorem Sound.emptied (h : Sound ⟨w, calls, created⟩) :
    Sound ⟨w.updatePool p (fun q => q.emptyShelf c), calls, created⟩ := by
  have hcases := World.pool_updatePool_cases w p (fun q => q.emptyShelf c)
  constructor
  · intro q hcapped
    rcases hcases q with hq | ⟨-, -, hq⟩
    · simp only [hq] at hcapped ⊢
      exact h.pools q hcapped
    · simp only [hq] at hcapped ⊢
      have hpolicy : (w.pool q).policy.Capped := by simpa [Pool.emptyShelf] using hcapped
      exact (h.pools q hpolicy).emptyShelf c
  · intro q d hopened
    simp only [World.size_updatePool] at hopened
    rw [World.isHeld_emptied]
    exact h.held q d hopened
  · intro q s hs
    rcases hcases q with hq | ⟨-, -, hq⟩
    · simp only [hq]
      exact h.vacant q s hs
    · simp only [hq]
      exact Pool.find?_emptyShelf _ c s.category (h.vacant q s hs)

theorem Sound.counted (h : Sound ⟨w, calls, created⟩) {count : Pool → Pool} (counts : Pool.CountsOnly count) :
    Sound ⟨w.updatePool p count, calls, created⟩ := by
  have same := World.sameNodes_updatePool w p counts.sameNodes
  constructor
  · intro q hcapped
    simp only [(same q).policy] at hcapped
    exact (h.pools q hcapped).of_sameNodes (same q)
  · intro q d hopened
    simp only [World.size_updatePool] at hopened
    rw [World.isHeld_updatePool w p counts.isHeld]
    exact h.held q d hopened
  · intro q s hs
    simp only [(same q).find?_eq]
    exact h.vacant q s hs

end Play

open Play

variable {σ : Type} {scope : Scope}

theorem Step.sound {a b : Play σ} (h : Step scope a b) (ha : a.Sound) : b.Sound := by
  cases h with
  | own evolves => exact ha.own evolves
  | hit free _ => exact ha.enter rfl free Pool.countsOnly_countHit (fun _ _ h => nomatch h)
  | miss _ free _ => exact ha.misses free
  | made node => exact ha.keep node
  | threw => exact ha.leave rfl
  | told => exact ha.leave rfl
  | built span _ _ _ _ free _ => exact ((ha.misses free).grown _).keep _
  | spoilt _ _ _ free _ => exact ha.enter rfl free Pool.countsOnly_countMiss (fun _ _ h => nomatch h)
  | emptied _ => exact ha.emptied
  | reset => exact ha.counted Pool.countsOnly_resetCounters

theorem Plays.sound {a b : Play σ} (h : Plays scope a b) (ha : a.Sound) : b.Sound := by
  induction h with
  | refl => exact ha
  | tail _ hstep ih => exact hstep.sound ih

/-- No pool was used yet. -/
def World.Fresh (w : World σ) : Prop := ∀ p, ∃ policy, w.pool p = { policy }

theorem World.Fresh.sound {w : World σ} (h : w.Fresh) : Sound ⟨w, [], []⟩ := by
  constructor
  · intro p hcapped
    obtain ⟨policy, hp⟩ := h p
    simp only [hp] at hcapped ⊢
    exact Pool.sound_fresh hcapped
  · intro p c _
    obtain ⟨policy, hp⟩ := h p
    simp only [hp]
    cases c <;> rfl
  · intro p r hr
    cases hr

theorem Play.Sound.free {play : Play σ} (h : play.Sound) (idle : play.calls = []) (p : PoolId)
    (c : PoolCategory) : (play.world.pool p).isHeld c = false := by
  by_cases hopened : p.index < play.world.pools.size
  · have hheld := h.held p c hopened
    rw [locks, idle] at hheld
    rcases hb : (play.world.pool p).isHeld c with _ | _
    · rfl
    · rw [hb] at hheld
      cases hheld
  · rw [World.pool_of_unopened hopened]
    cases c <;> rfl

/-- Pools that start empty are sound at every moment, whatever requests, creations and
clearings are made of them, inside factories and listeners too, and whatever of
this fails; and no category is locked when no call is under way. Running any code of
the host, from any such moment, leads to such a moment again. -/
theorem pools_stay_sound {w : World σ} (fresh : w.Fresh) {play : Play σ}
    (reached : Plays .any ⟨w, [], []⟩ play) :
    (∀ p, (play.world.pool p).policy.Configured → (play.world.pool p).Sound) ∧
      (play.calls = [] → ∀ p c, (play.world.pool p).isHeld c = false) ∧
      ∀ {α : Type} (act : Act (World σ) α), HostCode .any act →
        ∃ created, Plays .any ⟨w, [], []⟩ ⟨(act.exec play.world).2, play.calls, created⟩ := by
  have hsound : play.Sound := reached.sound fresh.sound
  refine ⟨fun p hp => hsound.pools p hp.capped, hsound.free, fun act hact => ?_⟩
  obtain ⟨created, hplays⟩ := hact.plays play.world play.calls play.created
  exact ⟨created, reached.trans hplays⟩

namespace Nested

/-- One unused pool. -/
def world : World Unit := { pools := #[{ policy := .standard }], host := () }

def quiet : World.PoolWatch Unit := fun _ _ => pure ()

def leaf : Act (World Unit) NodeId := Act.onForest (Forest.createGraph "leaf" .empty)

def five : PoolRequest := { category := .int, value := .num (.ofNat 5), matcher := none }

def word : PoolRequest := { category := .string, value := .text "x", matcher := none }

/-- While the node of a text is made, the text is asked for again, which is refused, and
the pool is cleared, which stops at the locked category. -/
def code : Act (World Unit) NodeId := do
  let _ ← World.request quiet ⟨0⟩ five leaf
  World.request quiet ⟨0⟩ word do
    let _ ← (World.request quiet ⟨0⟩ word leaf).attempt
    let _ ← (World.clearPool quiet ⟨0⟩).attempt
    leaf

theorem fresh : world.Fresh := by
  rintro ⟨_ | i⟩
  · exact ⟨.standard, rfl⟩
  · exact ⟨.standard, by simp [World.pool, world]⟩

theorem hostCode_quiet {scope : Scope} (p : PoolId) (event : PoolEvent) : HostCode scope (quiet p event) :=
  .own (fun w => .refl w)

theorem hostCode_leaf {scope : Scope} : HostCode scope leaf :=
  .own (fun w => evolves_onForest (Forest.keeps_add w.forest _))

theorem hostCode : HostCode .any code := by
  refine .bind (.request trivial hostCode_quiet hostCode_leaf)
    (fun _ => .request trivial hostCode_quiet ?_)
  refine .bind (.attempt (.request trivial hostCode_quiet hostCode_leaf)) (fun _ => ?_)
  exact .bind (.attempt (.clearPool hostCode_quiet)) (fun _ => hostCode_leaf)

theorem pools_stay_sound_code : world.Fresh ∧ (((code.exec world).2.pool ⟨0⟩).Sound ∧
    ((code.exec world).2.pool ⟨0⟩).isHeld .string = false) ∧
    ((code.exec world).2.pool ⟨0⟩).sizes = [(.int, 0), (.bool, 0), (.string, 1), (.identifier, 0)] := by
  have hpolicy : ((code.exec world).2.pool ⟨0⟩).policy = .standard := by decide +kernel
  have hsizes : ((code.exec world).2.pool ⟨0⟩).sizes =
      [(.int, 0), (.bool, 0), (.string, 1), (.identifier, 0)] := by decide +kernel
  obtain ⟨created, hplays⟩ := hostCode.plays world [] []
  have h := pools_stay_sound fresh hplays
  generalize (code.exec world).2 = after at hpolicy hsizes h ⊢
  have hconfigured : (after.pool ⟨0⟩).policy.Configured := by
    rw [hpolicy]
    exact .standard
  exact ⟨fresh, ⟨h.1 ⟨0⟩ hconfigured, h.2.1 rfl ⟨0⟩ .string⟩, hsizes⟩

end Nested

end SyntaxForest
