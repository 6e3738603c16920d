import SyntaxForest.Proofs.Pool.Meaning
/-!
# Remembered nodes last

A step does one of three things to a key: nothing, or it files a node where there was
none, or it empties the whole category (`Step.keyStep`). So a node that was filed is the
only one under its key until its category is emptied, and code that clears no pool never
comes to that. Whatever a request for the key does, its factory and listener included, the
node stays: while they run, the category is locked (`HostCode.leavesLocked`).
`filed_nodes_last` puts this together.
-/

namespace SyntaxForest

variable {σ : Type}

namespace World

/-- The nodes that a pool remembers under a key. -/
def under (w : World σ) (p : PoolId) (c : PoolCategory) (name : String) (v : Scalar) : List NodeId :=
  ((w.pool p).shelf c).under name v

theorem find?_eq_head?_under {v : Scalar} (hv : v ≠ .num .negativeZero) (w : World σ) (p : PoolId)
    (c : PoolCategory) (name : String) :
    (w.pool p).find? c name (.scalar v) = (w.under p c name v).head? := by
  simp only [Pool.find?, hv, if_false]
  exact Shelf.find?_eq_head?_under _ name v

theorem under_eq_nil {v : Scalar} (hv : v ≠ .num .negativeZero) {w : World σ} {p : PoolId}
    {c : PoolCategory} {name : String} (h : (w.pool p).find? c name (.scalar v) = none) :
    w.under p c name v = [] := by
  rw [find?_eq_head?_under hv] at h
  exact List.head?_eq_none_iff.1 h

theorem under_of_sameNodes {w t : World σ} (h : ∀ p, Pool.SameNodes (w.pool p) (t.pool p)) (p : PoolId)
    (c : PoolCategory) (name : String) (v : Scalar) : t.under p c name v = w.under p c name v := by
  rw [under, under, Shelf.under, Shelf.under, (h p).entries]

/-- Only a pool that was opened remembers something. -/
theorem opened_of_under {w : World σ} {p : PoolId} {c : PoolCategory} {name : String} {v : Scalar}
    {x : NodeId} (h : w.under p c name v = [x]) : p.index < w.pools.size := by
  by_contra hclosed
  rw [under, pool_of_unopened hclosed] at h
  cases c <;> cases h

/-- Only a pool that was opened is ever locked. -/
theorem opened_of_held {w : World σ} {p : PoolId} {c : PoolCategory} (h : (w.pool p).isHeld c = true) :
    p.index < w.pools.size := by
  by_contra hclosed
  rw [pool_of_unopened hclosed] at h
  cases c <;> cases h

/-- The shelf of a request once its node is made. -/
theorem shelf_keep {w : World σ} {p : PoolId} {r : PoolRequest} (opened : p.index < w.pools.size)
    (vacant : Bool) (node : NodeId) :
    ((w.keep p r vacant node).pool p).shelf r.category =
      (w.key? p r vacant).elim ((w.pool p).shelf r.category)
        (fun value => ((w.pool p).shelf r.category).file { filedUnder := r.filedUnder, value, node }) := by
  rw [pool_keep p r vacant node opened]
  rcases w.key? p r vacant with _ | value
  · rfl
  · simp only [if_true, Pool.shelf_file, Option.elim_some]

/-- A node that is filed under a vacant key is found there. -/
theorem find?_keep {w : World σ} {p : PoolId} {r : PoolRequest} {vacant : Bool} {value : Scalar}
    (opened : p.index < w.pools.size) (hkey : w.key? p r vacant = some value)
    (hnone : (w.pool p).find? r.category r.filedUnder r.value = none) (node : NodeId) :
    ((w.keep p r vacant node).pool p).find? r.category r.filedUnder r.value = some node := by
  obtain ⟨-, hvalue, hadmits⟩ := of_key? hkey
  have hv := Pool.ne_negativeZero_of_admits hadmits
  rw [hvalue] at hnone
  have hbefore : ((w.pool p).shelf r.category).under r.filedUnder value = [] := under_eq_nil hv hnone
  have hafter : (w.keep p r vacant node).under p r.category r.filedUnder value = [node] := by
    rw [under, shelf_keep opened, hkey, Option.elim_some]
    simp only [Shelf.under_file, hbefore, Scalar.sameKey_self, and_self, if_true, List.nil_append]
  rw [hvalue, find?_eq_head?_under hv, hafter]
  rfl

end World

/-! ## Steps -/

section Steps

variable {p : PoolId} {c : PoolCategory} {name : String} {v : Scalar}

/-- What happens to a key while its category is not emptied. -/
inductive KeyStep (p : PoolId) (c : PoolCategory) (name : String) (v : Scalar) (w t : World σ) : Prop
  | same : t.under p c name v = w.under p c name v → KeyStep p c name v w t
  | filed (x : NodeId) : w.under p c name v = [] → t.under p c name v = [x] → KeyStep p c name v w t

/-- The key of a factory under way is vacant, so keeping its node displaces no other. -/
theorem Play.Sound.keyStep_keep {w : World σ} {q : PoolId} {r : PoolRequest} {vacant : Bool}
    {calls : List OpenCall} {created : List Creation}
    (h : Play.Sound ⟨w, .making q r vacant :: calls, created⟩) (hv : v ≠ .num .negativeZero) (node : NodeId) :
    KeyStep p c name v w (w.keep q r vacant node) := by
  rcases World.pool_keep_cases w q r vacant node p with hp | ⟨rfl, -, value, hkey, hp⟩
  · exact .same (by rw [World.under, hp, World.under])
  obtain ⟨rfl, hvalue, hadmits⟩ := World.of_key? hkey
  by_cases hc : c = r.category
  · have hafter : (w.keep p r true node).under p c name v =
        w.under p c name v ++ if r.filedUnder = name ∧ value.sameKey v = true then [node] else [] := by
      rw [World.under, hp, Pool.shelf_file, if_pos hc, Shelf.under_file, World.under]
    by_cases hthis : r.filedUnder = name ∧ value.sameKey v = true
    · obtain ⟨hname, hsame⟩ := hthis
      have hvalue' : value = v := Scalar.eq_of_sameKey (Pool.ne_negativeZero_of_admits hadmits) hv hsame
      have hvacant := h.vacant p r List.mem_cons_self
      rw [hvalue, hvalue', ← hc, hname] at hvacant
      have hnone := World.under_eq_nil hv hvacant
      rw [hnone, if_pos ⟨hname, hsame⟩] at hafter
      exact .filed node hnone hafter
    · rw [if_neg hthis, List.append_nil] at hafter
      exact .same hafter
  · exact .same (by rw [World.under, hp, Pool.shelf_file, if_neg hc, World.under])

theorem KeyStep.of_sameNodes {w t : World σ} (h : ∀ q, Pool.SameNodes (w.pool q) (t.pool q)) :
    KeyStep p c name v w t :=
  .same (World.under_of_sameNodes h p c name v)

theorem Step.keyStep {a b : Play σ} (h : Step .any a b) (ha : a.Sound) (hv : v ≠ .num .negativeZero) :
    KeyStep p c name v a.world b.world ∨ b.world = a.world.updatePool p (fun q => q.emptyShelf c) ∧
      b.world.under p c name v = [] ∧ b.calls = a.calls := by
  cases h with
  | own evolves => exact .inl (.same (by rw [World.under, evolves.pool, World.under]))
  | hit => exact .inl (.of_sameNodes (World.sameNodes_enter _ _ _ Pool.countsOnly_countHit))
  | miss => exact .inl (.of_sameNodes (World.sameNodes_enter _ _ _ Pool.countsOnly_countMiss))
  | made node => exact .inl (ha.keyStep_keep hv node)
  | threw => exact .inl (.of_sameNodes (World.sameNodes_leave _ _ _))
  | told => exact .inl (.of_sameNodes (World.sameNodes_leave _ _ _))
  | @built w _ _ q kind fields r _ span _ _ _ _ free _ =>
    have hsame := World.under_of_sameNodes (World.sameNodes_enter w q r.category Pool.countsOnly_countMiss)
    have hgrown := (ha.misses free).grown { span, shape := .schema kind (kind.table.listed fields) }
    cases hgrown.keyStep_keep (p := p) (c := c) hv ⟨w.forest.size⟩ with
    | same h => exact .inl (.same (h.trans (hsame p c name v)))
    | filed x hnone hone => exact .inl (.filed x ((hsame p c name v).symm.trans hnone) hone)
  | spoilt => exact .inl (.of_sameNodes (World.sameNodes_enter _ _ _ Pool.countsOnly_countMiss))
  | @emptied w _ _ q d =>
    rcases World.pool_updatePool_cases w q (fun q => q.emptyShelf d) p with hp | ⟨rfl, -, hp⟩
    · exact .inl (.same (by rw [World.under, hp, World.under]))
    · by_cases hc : c = d
      · subst hc
        refine .inr ⟨rfl, ?_, rfl⟩
        rw [World.under, hp, Pool.shelf_emptyShelf, if_pos rfl]
        rfl
      · refine .inl (.same ?_)
        rw [World.under, hp, Pool.shelf_emptyShelf, if_neg hc, World.under]
  | reset => exact .inl (.of_sameNodes (World.sameNodes_updatePool _ _ Pool.countsOnly_resetCounters.sameNodes))

/-- A step by which a node comes to be remembered. -/
structure Files (p : PoolId) (c : PoolCategory) (name : String) (v : Scalar) (x : NodeId)
    (a b : Play σ) : Prop where
  step : Step .any a b
  before : (a.world.pool p).find? c name (.scalar v) = none
  after : (b.world.pool p).find? c name (.scalar v) = some x

/-- A request whose listener is told that its node is kept has filed it. -/
theorem Play.Sound.files_made {w : World σ} {r : PoolRequest} {vacant : Bool} {calls : List OpenCall}
    {created : List Creation} (h : Play.Sound ⟨w, .making p r vacant :: calls, created⟩)
    (opened : p.index < w.pools.size) (hkey : w.key? p r vacant = some v) (node : NodeId) :
    Files p r.category r.filedUnder v node ⟨w, .making p r vacant :: calls, created⟩
      ⟨w.keep p r vacant node, .telling p r.category :: calls, created⟩ := by
  obtain ⟨rfl, hvalue, -⟩ := World.of_key? hkey
  have hvacant := h.vacant p r List.mem_cons_self
  have hkept := World.find?_keep opened hkey hvacant node
  rw [hvalue] at hvacant hkept
  exact ⟨.made node, hvacant, hkept⟩

/-- A step that does not empty a category. -/
def Spares (p : PoolId) (c : PoolCategory) (a b : Play σ) : Prop :=
  Step .any a b ∧ b.world ≠ a.world.updatePool p (fun q => q.emptyShelf c)

variable {x : NodeId} {a b d : Play σ}

theorem Files.ne_negativeZero (h : Files p c name v x a b) : v ≠ .num .negativeZero := by
  obtain ⟨s, hs, hzero, -⟩ := Pool.scalar_of_find? h.after
  cases hs
  exact hzero

theorem Files.under (h : Files p c name v x a b) (ha : a.Sound) : b.world.under p c name v = [x] := by
  have hv := h.ne_negativeZero
  have hbefore := h.before
  have hafter := h.after
  rw [World.find?_eq_head?_under hv] at hbefore hafter
  rcases h.step.keyStep ha hv with hstep | ⟨-, hnone, -⟩
  · cases hstep with
    | same hsame =>
      rw [hsame, hbefore] at hafter
      cases hafter
    | filed y _ hone =>
      rw [hone] at hafter
      cases hafter
      exact hone
  · rw [hnone] at hafter
    cases hafter

theorem KeyStep.under {w t : World σ} (h : KeyStep p c name v w t) (hone : w.under p c name v = [x]) :
    t.under p c name v = [x] := by
  cases h with
  | same hsame => rw [hsame, hone]
  | filed y hnone _ =>
    rw [hone] at hnone
    cases hnone

theorem Spares.under (h : Spares p c a b) (ha : a.Sound) (hv : v ≠ .num .negativeZero)
    (hone : a.world.under p c name v = [x]) : b.world.under p c name v = [x] := by
  rcases h.1.keyStep ha hv with hstep | ⟨hemptied, -⟩
  · exact hstep.under hone
  · exact absurd hemptied h.2

/-- Whatever leaves a node under a key spares its category. -/
theorem Spares.of_under (h : Step .any a b) (hone : b.world.under p c name v = [x]) : Spares p c a b := by
  refine ⟨h, fun hemptied => ?_⟩
  rw [hemptied] at hone
  have hopened := World.opened_of_under hone
  rw [World.size_updatePool] at hopened
  rw [World.under, World.pool_updatePool_self _ hopened, Pool.shelf_emptyShelf, if_pos rfl] at hone
  cases hone

/-- On a way that spares a category its nodes stay, and stay alone under their keys. -/
theorem under_of_spares (way : Relation.ReflTransGen (Spares p c) a b) (ha : a.Sound)
    (hv : v ≠ .num .negativeZero) (hone : a.world.under p c name v = [x]) :
    b.Sound ∧ b.world.under p c name v = [x] := by
  induction way with
  | refl => exact ⟨ha, hone⟩
  | tail _ hstep ih => exact ⟨hstep.1.sound ih.1, hstep.under ih.1 hv ih.2⟩

end Steps

/-! ## Code without clearings -/

/-- Code of the host that clears no pool. -/
inductive ClearFree : {α : Type} → Act (World σ) α → Prop
  | own {α : Type} {act : Act (World σ) α} : (∀ w : World σ, w.Evolves (act.exec w).2) → ClearFree act
  | bind {α β : Type} {act : Act (World σ) α} {next : α → Act (World σ) β} : ClearFree act →
      (∀ a, ClearFree (next a)) → ClearFree (act >>= next)
  | attempt {α : Type} {act : Act (World σ) α} : ClearFree act → ClearFree act.attempt
  | request {watch : World.PoolWatch σ} {p r} {factory : Act (World σ) NodeId} :
      (∀ p event, ClearFree (watch p event)) → ClearFree factory →
      ClearFree (World.request watch p r factory)
  | createNode {watch : World.PoolWatch σ} {pool kind span fields} :
      (∀ p event, ClearFree (watch p event)) → ClearFree (World.createNode watch pool kind span fields)

theorem ClearFree.moves {α : Type} {act : Act (World σ) α} (h : ClearFree act) :
    Moves (CallStep .any) act := by
  have covers : ∀ a b : Play σ, CallStep .any a b → CallStep .any a b := fun _ _ h => h
  induction h with
  | own hown => exact moves_own covers hown
  | bind _ _ ihact ihnext => exact ihact.bind ihnext
  | attempt _ ih => exact ih
  | request _ _ ihwatch ihfactory => exact moves_request covers trivial ihwatch ihfactory
  | createNode _ ihwatch => exact moves_createNode covers trivial ihwatch _ _ _

section ClearFree

variable {p : PoolId} {c : PoolCategory} {name : String} {v : Scalar} {x : NodeId} {a b : Play σ}

theorem CallStep.keyStep (h : CallStep .any a b) (ha : a.Sound) (hv : v ≠ .num .negativeZero) :
    KeyStep p c name v a.world b.world := by
  rcases h.2 with hcalls | evolves
  · rcases h.1.keyStep ha hv with hstep | ⟨-, -, hsame⟩
    · exact hstep
    · exact absurd hsame hcalls
  · exact .same (by rw [World.under, evolves.pool, World.under])

/-- Where a node is filed, steps of calls spare its category. -/
theorem spares_of_callSteps (way : Relation.ReflTransGen (CallStep .any) a b) (ha : a.Sound)
    (hv : v ≠ .num .negativeZero) (hone : a.world.under p c name v = [x]) :
    Relation.ReflTransGen (Spares p c) a b := by
  suffices h : Relation.ReflTransGen (Spares p c) a b ∧ b.Sound ∧ b.world.under p c name v = [x] from h.1
  induction way with
  | refl => exact ⟨.refl, ha, hone⟩
  | @tail b d _ hstep ih =>
    obtain ⟨hway, hsound, hunder⟩ := ih
    have hlater := (hstep.keyStep hsound hv).under hunder
    exact ⟨hway.tail (.of_under hstep.1 hlater), hstep.1.sound hsound, hlater⟩

end ClearFree

/-! ## Locked categories -/

/-- An action that leaves the shelves of locked categories alone. -/
def LeavesLocked {α : Type} (act : Act (World σ) α) : Prop :=
  ∀ p c w, (w.pool p).isHeld c = true → ((act.exec w).2.pool p).shelf c = (w.pool p).shelf c

section Locked

variable {watch : World.PoolWatch σ} {p q : PoolId} {c d : PoolCategory} {w : World σ}
  {factory : Act (World σ) NodeId}

theorem shelf_updatePool {change : Pool → Pool} (h : q = p → ∀ pool, (change pool).shelf c = pool.shelf c) :
    ((w.updatePool q change).pool p).shelf c = (w.pool p).shelf c := by
  rcases World.pool_updatePool_cases w q change p with hp | ⟨rfl, -, hp⟩
  · rw [hp]
  · rw [hp, h rfl]

theorem shelf_hold_of_ne (hne : ¬(q = p ∧ d = c)) (held : Bool) :
    ((w.updatePool q (fun pool => pool.hold d held)).pool p).shelf c = (w.pool p).shelf c :=
  shelf_updatePool (fun hq pool => by rw [Pool.shelf_hold, if_neg (fun hc => hne ⟨hq, hc.symm⟩)])

theorem shelf_enter_of_ne (hne : ¬(q = p ∧ d = c)) {count : Pool → Pool} (counts : Pool.CountsOnly count) :
    ((w.enter q d count).pool p).shelf c = (w.pool p).shelf c := by
  rw [World.enter, shelf_updatePool (fun _ pool => (counts pool).2 c), shelf_hold_of_ne hne]

theorem shelf_keep_of_ne {r : PoolRequest} (hne : ¬(q = p ∧ r.category = c)) (vacant : Bool) (node : NodeId) :
    ((w.keep q r vacant node).pool p).shelf c = (w.pool p).shelf c := by
  unfold World.keep
  split
  · exact shelf_updatePool (fun hq pool => by rw [Pool.shelf_file, if_neg (fun hc => hne ⟨hq, hc.symm⟩)])
  · rfl

theorem ne_of_held (held : (w.pool p).isHeld c = true) (free : (w.pool q).isHeld d = false) :
    ¬(q = p ∧ d = c) := by
  rintro ⟨rfl, rfl⟩
  rw [held] at free
  cases free

theorem isHeld_of_shelf {t : World σ} (h : (t.pool p).shelf c = (w.pool p).shelf c)
    (held : (w.pool p).isHeld c = true) : (t.pool p).isHeld c = true := by
  rw [Pool.isHeld, h]
  exact held

theorem shelf_answer {event : PoolEvent} (hwatch : LeavesLocked (watch q event)) (hne : ¬(q = p ∧ d = c))
    (held : (w.pool p).isHeld c = true) (node : NodeId) :
    ((World.answer watch q d event node w).2.pool p).shelf c = (w.pool p).shelf c := by
  have htold := hwatch p c w held
  unfold World.answer
  rcases hrun : (watch q event).exec w with ⟨_ | _, t⟩
  · rw [hrun] at htold
    exact (shelf_hold_of_ne hne false).trans htold
  · rw [hrun] at htold
    exact (shelf_hold_of_ne hne false).trans htold

/-- What is locked is another category than the one a request works on. -/
theorem leavesLocked_request {r : PoolRequest} (hwatch : ∀ q event, LeavesLocked (watch q event))
    (hfactory : LeavesLocked factory) : LeavesLocked (World.request watch q r factory) := by
  intro p c w held
  rcases hfree : (w.pool q).isHeld r.category with _ | _
  · have hne := ne_of_held held hfree
    have hhit : ((w.enter q r.category Pool.countHit).pool p).shelf c = (w.pool p).shelf c :=
      shelf_enter_of_ne hne Pool.countsOnly_countHit
    have hmiss : ((w.enter q r.category Pool.countMiss).pool p).shelf c = (w.pool p).shelf c :=
      shelf_enter_of_ne hne Pool.countsOnly_countMiss
    rw [World.exec_request watch factory hfree]
    rcases w.served? q r with _ | node
    · have hmade := hfactory p c _ (isHeld_of_shelf hmiss held)
      rcases hrun : factory.exec (w.enter q r.category Pool.countMiss) with ⟨_ | node, t⟩
      · rw [hrun] at hmade
        exact (shelf_hold_of_ne hne false).trans (hmade.trans hmiss)
      · rw [hrun] at hmade
        have hkept : ((t.keep q r (w.vacant q r) node).pool p).shelf c = (w.pool p).shelf c :=
          (shelf_keep_of_ne hne _ node).trans (hmade.trans hmiss)
        exact (shelf_answer (hwatch q _) hne (isHeld_of_shelf hkept held) node).trans hkept
    · exact (shelf_answer (hwatch q _) hne (isHeld_of_shelf hhit held) node).trans hhit
  · rw [World.request, World.exec_underLock_held hfree]

theorem leavesLocked_emptying (q : PoolId) (cs : List PoolCategory) :
    LeavesLocked (cs.mapM (World.emptying q) : Act (World σ) (List Nat)) := by
  intro p c w held
  induction cs generalizing w with
  | nil => rfl
  | cons d rest ih =>
    rw [Act.exec_mapM_cons]
    rcases hfree : (w.pool q).isHeld d with _ | _
    · have hne := ne_of_held held hfree
      have hemptied : ((w.updatePool q (fun pool => pool.emptyShelf d)).pool p).shelf c =
          (w.pool p).shelf c :=
        shelf_updatePool (fun hq pool => by
          rw [Pool.shelf_emptyShelf, if_neg (fun hc => hne ⟨hq, hc.symm⟩)])
      have hrest := ih _ (isHeld_of_shelf hemptied held)
      rw [World.exec_emptying hfree]
      simp only
      rcases hrun : (rest.mapM (World.emptying q)).exec (w.updatePool q (fun pool => pool.emptyShelf d))
        with ⟨_ | _, t⟩
      · rw [hrun] at hrest
        exact hrest.trans hemptied
      · rw [hrun] at hrest
        exact hrest.trans hemptied
    · rw [World.emptying, World.exec_underLock_held hfree]

theorem leavesLocked_clearPool (hwatch : ∀ q event, LeavesLocked (watch q event)) (q : PoolId) :
    LeavesLocked (World.clearPool watch q) := by
  intro p c w held
  have hemptied := leavesLocked_emptying q PoolCategory.all p c w held
  rw [World.exec_clearPool]
  rcases hrun : (PoolCategory.all.mapM (World.emptying q)).exec w with ⟨_ | dropped, t⟩
  · rw [hrun] at hemptied
    exact hemptied
  · rw [hrun] at hemptied
    have hreset : ((t.updatePool q Pool.resetCounters).pool p).shelf c = (w.pool p).shelf c :=
      (shelf_updatePool (fun _ pool => (Pool.countsOnly_resetCounters pool).2 c)).trans hemptied
    exact (hwatch q _ p c _ (isHeld_of_shelf hreset held)).trans hreset

theorem leavesLocked_createNode (hwatch : ∀ q event, LeavesLocked (watch q event)) (pool : Option PoolId)
    (kind : Kind) (span : Span) (fields : Fields) :
    LeavesLocked (World.createNode watch pool kind span fields) := by
  have hbuild : LeavesLocked (Act.onForest (Forest.build kind span fields) : Act (World σ) NodeId) :=
    fun _ _ _ _ => rfl
  intro p c w held
  rw [World.exec_createNode]
  rcases kind.table.check w.forest.kindName kind.name fields with _ | _
  · rfl
  rcases kind.sharing? fields with _ | r
  · rfl
  rcases pool with _ | q
  · rfl
  exact leavesLocked_request hwatch hbuild p c w held

/-- Code of the host leaves locked categories alone, clearings included: a category is
emptied under its own lock. -/
theorem HostCode.leavesLocked {scope : Scope} {α : Type} {act : Act (World σ) α} (h : HostCode scope act) :
    LeavesLocked act := by
  induction h with
  | own hown =>
    intro p c w _
    rw [(hown w).pool]
  | @bind α β act next _ _ ihact ihnext =>
    intro p c w held
    have hact := ihact p c w held
    rw [Act.exec_bind]
    rcases hrun : act.exec w with ⟨_ | a, t⟩
    · rw [hrun] at hact
      exact hact
    · rw [hrun] at hact
      exact (ihnext a p c t (isHeld_of_shelf hact held)).trans hact
  | attempt _ ih => exact ih
  | request _ _ _ ihwatch ihfactory => exact leavesLocked_request ihwatch ihfactory
  | clearPool _ ihwatch => exact leavesLocked_clearPool ihwatch _
  | createNode _ _ ihwatch => exact leavesLocked_createNode ihwatch _ _ _ _

end Locked

/-! ## Requests for a filed node -/

section Request

variable {watch : World.PoolWatch σ} {factory : Act (World σ) NodeId} {p : PoolId} {c : PoolCategory}
  {r : PoolRequest} {name : String} {v : Scalar} {x : NodeId} {w : World σ}

theorem under_of_shelf {t : World σ} (h : (t.pool p).shelf c = (w.pool p).shelf c) :
    t.under p c name v = w.under p c name v := by
  rw [World.under, h, World.under]

/-- A filed node that a request accepts serves it. -/
theorem exec_request_of_accepted (hname : r.filedUnder = name) (hvalue : r.value = .scalar v)
    (filed : (w.pool p).find? r.category name (.scalar v) = some x)
    (free : (w.pool p).isHeld r.category = false) (accepted : r.accepts w.forest x = true) :
    (World.request watch p r factory).exec w =
      World.answer watch p r.category (.hit r.category name (.scalar v)) x
        (w.enter p r.category Pool.countHit) := by
  have hserved : w.served? p r = some x := by
    rw [World.served?, hname, hvalue, filed, Option.filter_some, if_pos accepted]
  rw [World.exec_request_of_served watch factory free hserved, hname, hvalue]

/-- If the request does not accept it, the factory makes a node, which is not kept. -/
theorem exec_request_of_rejected (hname : r.filedUnder = name) (hvalue : r.value = .scalar v)
    (filed : (w.pool p).find? r.category name (.scalar v) = some x)
    (free : (w.pool p).isHeld r.category = false) (rejected : r.accepts w.forest x = false) :
    (World.request watch p r factory).exec w =
      match factory.exec (w.enter p r.category Pool.countMiss) with
      | (.error fault, t) => (.error fault, t.leave p r.category)
      | (.ok node, t) => World.answer watch p r.category (.miss r.category name (.scalar v) false) node t := by
  have hserved : w.served? p r = none := by
    rw [World.served?, hname, hvalue, filed, Option.filter_some, if_neg (by simp [rejected])]
  have hvacant : w.vacant p r = false := by
    rw [World.vacant, hname, hvalue, filed]
    rfl
  rw [World.exec_request watch factory free, hserved, hname, hvalue, hvacant]
  rfl

theorem under_answer {event : PoolEvent} (hwatch : LeavesLocked (watch p event))
    (held : (w.pool p).isHeld c = true) (node : NodeId) :
    (World.answer watch p c event node w).2.under p c name v = w.under p c name v := by
  have htold : ((watch p event).exec w).2.under p c name v = w.under p c name v :=
    under_of_shelf (hwatch p c w held)
  unfold World.answer
  rcases hrun : (watch p event).exec w with ⟨_ | _, t⟩
  · rw [hrun] at htold
    exact (World.under_of_sameNodes (World.sameNodes_leave t p c) p c name v).trans htold
  · rw [hrun] at htold
    exact (World.under_of_sameNodes (World.sameNodes_leave t p c) p c name v).trans htold

/-- While a request for a filed node is served, its category is locked, so the node stays. -/
theorem under_request (hwatch : ∀ q event, LeavesLocked (watch q event)) (hfactory : LeavesLocked factory)
    (hname : r.filedUnder = name) (hvalue : r.value = .scalar v)
    (filed : (w.pool p).find? r.category name (.scalar v) = some x)
    (opened : p.index < w.pools.size) :
    ((World.request watch p r factory).exec w).2.under p r.category name v =
      w.under p r.category name v := by
  have henter : ∀ {count}, Pool.CountsOnly count →
      (w.enter p r.category count).under p r.category name v = w.under p r.category name v :=
    fun counts => World.under_of_sameNodes (World.sameNodes_enter w p r.category counts) p r.category name v
  rcases hfree : (w.pool p).isHeld r.category with _ | _
  · rcases haccepts : r.accepts w.forest x with _ | _
    · have hheld := World.isHeld_enter opened r.category Pool.countsOnly_countMiss
      have hmade := hfactory p r.category _ hheld
      rw [exec_request_of_rejected hname hvalue filed hfree haccepts]
      rcases hrun : factory.exec (w.enter p r.category Pool.countMiss) with ⟨_ | node, t⟩
      · rw [hrun] at hmade
        exact (World.under_of_sameNodes (World.sameNodes_leave t p r.category) p r.category name v).trans
          ((under_of_shelf hmade).trans (henter Pool.countsOnly_countMiss))
      · rw [hrun] at hmade
        exact (under_answer (hwatch p _) (isHeld_of_shelf hmade hheld) node).trans
          ((under_of_shelf hmade).trans (henter Pool.countsOnly_countMiss))
    · have hheld := World.isHeld_enter opened r.category Pool.countsOnly_countHit
      rw [exec_request_of_accepted hname hvalue filed hfree haccepts]
      exact (under_answer (hwatch p _) hheld x).trans (henter Pool.countsOnly_countHit)
  · rw [World.request, World.exec_underLock_held hfree]

/-- A node that a request filed stays, alone under its key, on every way on which its
category is not emptied; running code that clears no pool is such a way. At each moment of
the way a request for the key, unless it is refused, is a hit with that very node if it
accepts it, and makes a node of its own that is not kept if it does not; and the node
still stays. -/
theorem filed_nodes_last {start : World σ} (fresh : start.Fresh) {a b d : Play σ}
    (reached : Plays .any ⟨start, [], []⟩ a) (filing : Files p c name v x a b)
    (way : Relation.ReflTransGen (Spares p c) b d) :
    d.world.under p c name v = [x] ∧
    (∀ {α : Type} (act : Act (World σ) α), ClearFree act → ∃ later,
      Relation.ReflTransGen (Spares p c) b ⟨(act.exec d.world).2, d.calls, later⟩) ∧
    ∀ (watch : World.PoolWatch σ) (factory : Act (World σ) NodeId) (r : PoolRequest),
      r.category = c → r.filedUnder = name → r.value = .scalar v →
      ((d.world.pool p).isHeld c = false → r.accepts d.world.forest x = true →
        (World.request watch p r factory).exec d.world =
          World.answer watch p c (.hit c name (.scalar v)) x (d.world.enter p c Pool.countHit) ∧
        ((d.world.enter p c Pool.countHit).pool p).hits = (d.world.pool p).hits + 1 ∧
        ((d.world.enter p c Pool.countHit).pool p).misses = (d.world.pool p).misses) ∧
      ((d.world.pool p).isHeld c = false → r.accepts d.world.forest x = false →
        (World.request watch p r factory).exec d.world =
          (match factory.exec (d.world.enter p c Pool.countMiss) with
          | (.error fault, t) => (.error fault, t.leave p c)
          | (.ok node, t) => World.answer watch p c (.miss c name (.scalar v) false) node t) ∧
        ((d.world.enter p c Pool.countMiss).pool p).hits = (d.world.pool p).hits ∧
        ((d.world.enter p c Pool.countMiss).pool p).misses = (d.world.pool p).misses + 1) ∧
      ((∀ q event, HostCode .any (watch q event)) → HostCode .any factory →
        ((World.request watch p r factory).exec d.world).2.under p c name v = [x]) := by
  have hv := filing.ne_negativeZero
  have hsound : a.Sound := reached.sound fresh.sound
  obtain ⟨hlater, hunder⟩ := under_of_spares way (filing.step.sound hsound) hv (filing.under hsound)
  have hopened := World.opened_of_under hunder
  have hfiled : (d.world.pool p).find? c name (.scalar v) = some x := by
    rw [World.find?_eq_head?_under hv, hunder]
    rfl
  refine ⟨hunder, fun act hact => ?_, fun watch factory r hcategory hname hvalue => ?_⟩
  · obtain ⟨created, hmoves⟩ := hact.moves d.world d.calls d.created
    exact ⟨created, way.trans (spares_of_callSteps hmoves hlater hv hunder)⟩
  subst hcategory
  refine ⟨fun hfree haccepts => ⟨?_, ?_, ?_⟩, fun hfree hrejects => ⟨?_, ?_, ?_⟩, fun hwatch hfactory => ?_⟩
  · exact exec_request_of_accepted hname hvalue hfiled hfree haccepts
  · simp [World.pool_enter _ _ _ hopened]
  · simp [World.pool_enter _ _ _ hopened]
  · exact exec_request_of_rejected hname hvalue hfiled hfree hrejects
  · simp [World.pool_enter _ _ _ hopened]
  · simp [World.pool_enter _ _ _ hopened]
  · exact (under_request (fun q event => (hwatch q event).leavesLocked) hfactory.leavesLocked hname hvalue
      hfiled hopened).trans hunder

end Request

namespace Kept

open Shared Nested

def pool : PoolId := ⟨0⟩

/-- A request for the integer five, under the name that both kinds have. -/
def asking (index : Nat) : PoolRequest :=
  { category := .int, value := .num (.ofNat 5), matcher := some (.exactly (lit index)) }

/-- The factory of a request for the first kind has made its node. -/
def making : World Unit :=
  (Nested.world.enter pool .int Pool.countMiss).grown { span := span 0, shape := .schema (lit 0) Shared.five }

def filed : World Unit := making.keep pool (asking 0) true ⟨0⟩

/-- Then a text is asked for. Its factory clears the pool, which gets no further than the
truth values, and fails. -/
def nested : World Unit := (filed.leave pool .int).enter pool .string Pool.countMiss

def partly : World Unit := nested.updatePool pool (fun q => q.emptyShelf .bool)

def failed : World Unit := partly.leave pool .string

theorem reached : Plays .any ⟨Nested.world, [], []⟩ ⟨making, [.making pool (asking 0) true], []⟩ := by
  have hmiss : Step .any ⟨Nested.world, [], []⟩
      ⟨Nested.world.enter pool .int Pool.countMiss, [.making pool (asking 0) true], []⟩ :=
    .miss (r := asking 0) trivial rfl rfl
  exact .head hmiss (.single (.own ⟨rfl, Forest.keeps_add _ _⟩))

theorem filing : Files pool .int "Lit" (.num (.ofNat 5)) ⟨0⟩ ⟨making, [.making pool (asking 0) true], []⟩
    ⟨filed, [.telling pool .int], []⟩ :=
  (reached.sound Nested.fresh.sound).files_made (by decide) (by decide +kernel) ⟨0⟩

theorem way : Relation.ReflTransGen (Spares pool .int) ⟨filed, [.telling pool .int], []⟩ ⟨failed, [], []⟩ := by
  have hstays : ∀ w ∈ [filed.leave pool .int, nested, partly, failed],
      w.under pool .int "Lit" (.num (.ofNat 5)) = [⟨0⟩] := by decide +kernel
  have hmiss : Step .any ⟨filed.leave pool .int, [], []⟩
      ⟨nested, [.making pool word ((filed.leave pool .int).vacant pool word)], []⟩ :=
    .miss (p := pool) (r := word) trivial (by decide +kernel) (by decide +kernel)
  have hemptied : (nested.pool pool).isHeld .bool = false := by decide +kernel
  exact .head (.of_under .told (hstays _ (by simp)))
    (.head (.of_under hmiss (hstays _ (by simp)))
      (.head (.of_under (.emptied hemptied) (hstays partly (by simp)))
        (.head (.of_under .threw (hstays failed (by simp))) .refl)))

/-- The first kind is served with the node that was filed. The second, of the same name,
gets a node of its own. -/
theorem filed_nodes_last_failed : Nested.world.Fresh ∧
    Plays .any ⟨Nested.world, [], []⟩ ⟨making, [.making pool (asking 0) true], []⟩ ∧
    failed.under pool .int "Lit" (.num (.ofNat 5)) = [⟨0⟩] ∧
    ((World.request quiet pool (asking 0) leaf).exec failed).1.toOption = some ⟨0⟩ ∧
    ((World.request quiet pool (asking 1) leaf).exec failed).1.toOption = some ⟨1⟩ ∧
    ((World.request quiet pool (asking 1) leaf).exec failed).2.under pool .int "Lit" (.num (.ofNat 5)) =
      [⟨0⟩] := by
  obtain ⟨hunder, -, hrequest⟩ := filed_nodes_last Nested.fresh reached filing way
  have hfree : (failed.pool pool).isHeld .int = false := by decide +kernel
  obtain ⟨hserved, -, -⟩ := hrequest quiet leaf (asking 0) rfl rfl rfl
  obtain ⟨-, hown, hstays⟩ := hrequest quiet leaf (asking 1) rfl rfl rfl
  refine ⟨Nested.fresh, reached, hunder, ?_, ?_, hstays hostCode_quiet hostCode_leaf⟩
  · rw [(hserved hfree (by decide +kernel)).1]
    decide +kernel
  · rw [(hown hfree (by decide +kernel)).1]
    decide +kernel

end Kept

end SyntaxForest
