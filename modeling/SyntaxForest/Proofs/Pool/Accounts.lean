import SyntaxForest.Proofs.Pool.Ledger
import SyntaxForest.Proofs.Pool.Reachable
/-!
# Accounts of pools

Between calls nothing is pending, so the counters of a pool are what its host noted since
the pool was cleared last: `counters_reconcile`. A clearing there meets no lock, tells the
listener the sum of the sizes, and starts the accounts anew. What is refused changes
nothing.
-/

namespace SyntaxForest

variable {τ : Type}

/-! ## Clients are host code -/

theorem evolves_noted (w : World (Ledger τ)) (n : Note) : w.Evolves (w.noted n) :=
  ⟨rfl, .refl w.forest⟩

theorem hostCode_noting {rest : World.PoolWatch (Ledger τ)} (h : ∀ p event, HostCode .any (rest p event))
    (p : PoolId) (event : PoolEvent) : HostCode .any (World.noting rest p event) :=
  .bind (.own (fun w => evolves_noted w (.told p event))) (fun _ => h p event)

theorem hostCode_guarding {factory : Act (World (Ledger τ)) NodeId} (h : HostCode .any factory) (p : PoolId) :
    HostCode .any (World.guarding p factory) := by
  refine .bind (.attempt h) (fun outcome => ?_)
  rcases outcome with fault | node
  · exact .bind (.own (fun w => evolves_noted w (.threw p))) (fun _ => .own (fun w => .refl w))
  · exact .own (fun w => .refl w)

theorem hostCode_creating {watch : World.PoolWatch (Ledger τ)} (h : ∀ p event, HostCode .any (watch p event))
    (pool : Option PoolId) (kind : Kind) (span : Span) (fields : Fields) :
    HostCode .any (World.creating watch pool kind span fields) := by
  have hbuild : HostCode .any (Act.onForest (Forest.build kind span fields) : Act (World (Ledger τ)) NodeId) :=
    .own (fun w => evolves_onForest (Forest.keeps_build kind span fields w.forest))
  refine .bind (.own (fun w => .refl w)) (fun f => .bind (.own (fun w => .refl w)) (fun _ => ?_))
  rcases kind.sharing? fields with _ | r
  · exact hbuild
  rcases pool with _ | p
  · exact .own (fun w => .refl w)
  · exact .request trivial h (hostCode_guarding hbuild p)

theorem Client.hostCode {α : Type} {act : Act (World (Ledger τ)) α} (h : Client act) :
    HostCode .any act := by
  induction h with
  | own hown => exact .own (fun w => (hown w).1)
  | bind _ _ ihact ihnext => exact .bind ihact ihnext
  | attempt _ ih => exact .attempt ih
  | @request rest p category value matcher factory _ _ ihrest ihfactory =>
    unfold World.requestNamed
    split
    · exact .request trivial (hostCode_noting ihrest) (hostCode_guarding ihfactory p)
    · exact .own (fun w => .refl w)
  | creating _ ihrest => exact hostCode_creating (hostCode_noting ihrest) _ _ _ _

/-! ## Runs -/

/-- What a host does when no pool is in use: it runs code of a client, or clears a pool,
whose listener may use pools again. -/
inductive TopLevel : World (Ledger τ) → World (Ledger τ) → Prop
  | client {α : Type} {act : Act (World (Ledger τ)) α} {w : World (Ledger τ)} : Client act →
      TopLevel w (act.exec w).2
  | clear {rest : World.PoolWatch (Ledger τ)} {p : PoolId} {w : World (Ledger τ)} :
      (∀ q event, Client (rest q event)) → TopLevel w ((World.clearPool (World.noting rest) p).exec w).2

abbrev Runs : World (Ledger τ) → World (Ledger τ) → Prop := Relation.ReflTransGen TopLevel

section Runs

variable {w t : World (Ledger τ)} {p q : PoolId}

theorem TopLevel.plays (h : TopLevel w t) (created : List Creation) :
    ∃ later, Plays .any ⟨w, [], created⟩ ⟨t, [], later⟩ := by
  cases h with
  | client hclient => exact hclient.hostCode.plays w [] created
  | clear hrest =>
    have hcode : ∀ q event, HostCode .any (World.noting _ q event) :=
      hostCode_noting (fun q event => (hrest q event).hostCode)
    exact (HostCode.clearPool hcode).plays w [] created

theorem Runs.plays (h : Runs w t) : ∃ created, Plays .any ⟨w, [], []⟩ ⟨t, [], created⟩ := by
  induction h with
  | refl => exact ⟨[], .refl⟩
  | tail _ hstep ih =>
    obtain ⟨created, hplays⟩ := ih
    obtain ⟨later, hnext⟩ := hstep.plays created
    exact ⟨later, hplays.trans hnext⟩

/-- Between calls no category is locked. -/
theorem Runs.free (h : Runs w t) (fresh : w.Fresh) (p : PoolId) (c : PoolCategory) :
    (t.pool p).isHeld c = false := by
  obtain ⟨created, hplays⟩ := h.plays
  exact (hplays.sound fresh.sound).free rfl p c

theorem Reconciled.fresh (fresh : w.Fresh) (unnoted : w.host.notes = []) (opened : p.index < w.pools.size) :
    Reconciled 0 p w := by
  obtain ⟨policy, hp⟩ := fresh p
  refine ⟨opened, ?_, ?_, fun c => ?_⟩
  · rw [hp, unnoted]
    rfl
  · rw [hp, unnoted]
    rfl
  · rw [hp, unnoted]
    cases c <;> rfl

/-- A pool that starts anew has all its notes behind it. -/
theorem Reconciled.cleared (h : Reconciled 0 p w) (q : PoolId) (entries : Nat) :
    Reconciled 0 p ((w.updatePool q (fun pool => { policy := pool.policy })).noted
      (.told q (.clear entries))) := by
  by_cases hq : q = p
  · subst hq
    have hnone : since q (Note.told q (.clear entries) :: w.host.notes) = [] := by
      simp [since, Note.isClear]
    have hpool := World.pool_updatePool_self (fun pool => { policy := pool.policy }) h.opened
    refine ⟨by simp [World.noted, h.opened], ?_, ?_, fun c => ?_⟩
    all_goals rw [World.pool_noted, hpool, World.noted, World.updatePool, hnone]
    · rfl
    · rfl
    · cases c <;> rfl
  · have hpool := World.pool_updatePool_of_ne w (fun pool => { policy := pool.policy }) (Ne.symm hq)
    refine h.counted (by simp [World.noted]) rfl (by simp [Note.isClear, hq]) ?_ ?_ (fun c => ?_)
    all_goals
      rw [World.pool_noted, hpool]
      rfl

theorem TopLevel.reconciled (h : TopLevel w t) (free : ∀ p c, (w.pool p).isHeld c = false)
    (ok : Reconciled 0 p w) : Reconciled 0 p t := by
  cases h with
  | client hclient => exact hclient.balanced 0 p w ok
  | @clear rest q _ hrest =>
    rw [World.exec_clearPool_of_free _ (free q), exec_noting]
    exact (hrest q _).balanced 0 p _ (ok.cleared q _)

theorem Runs.reconciled (h : Runs w t) (fresh : w.Fresh) (unnoted : w.host.notes = [])
    (opened : p.index < w.pools.size) : Reconciled 0 p t := by
  induction h with
  | refl => exact .fresh fresh unnoted opened
  | tail hruns hstep ih => exact hstep.reconciled (Runs.free hruns fresh) ih

end Runs

/-! ## What is refused -/

section Refused

variable {watch : World.PoolWatch τ} {p : PoolId} {w : World τ}

theorem exec_requestNamed_unknown {category : String} (unknown : PoolCategory.ofName? category = none)
    (value : Value) (matcher : Option Matcher) (factory : Act (World τ) NodeId) :
    (World.requestNamed watch p category value matcher factory).exec w =
      (.error (.unknownPoolCategory category), w) := by
  rw [World.requestNamed, unknown]
  rfl

theorem exec_requestNamed_held {category : String} {c : PoolCategory}
    (known : PoolCategory.ofName? category = some c) (held : (w.pool p).isHeld c = true) (value : Value)
    (matcher : Option Matcher) (factory : Act (World τ) NodeId) :
    (World.requestNamed watch p category value matcher factory).exec w =
      (.error (.poolReentered c.name), w) := by
  rw [World.requestNamed, known]
  exact World.exec_underLock_held held

theorem exec_createNode_held {kind : Kind} {fields : Fields} {r : PoolRequest}
    (fits : kind.table.check w.forest.kindName kind.name fields = .ok ())
    (sharing : kind.sharing? fields = some r) (held : (w.pool p).isHeld r.category = true) (span : Span) :
    (World.createNode watch (some p) kind span fields).exec w =
      (.error (.poolReentered r.category.name), w) := by
  rw [World.exec_createNode, fits, sharing]
  exact World.exec_underLock_held held

end Refused

/-- From unused pools on, between any two calls: hits are the hits told since the last
clearing, misses are those told and those whose factory failed, and the size of a
category is the number of misses told there whose node is kept. A clearing tells the sum
of the sizes, and no listener runs before that one. A request that is refused, at any
moment, changes nothing, so nothing counts it. -/
theorem counters_reconcile {start w : World (Ledger τ)} (fresh : start.Fresh)
    (unnoted : start.host.notes = []) (run : Runs start w) :
    (∀ p, p.index < start.pools.size →
      (w.pool p).hits = (since p w.host.notes).countP (Note.isHit p) ∧
      (w.pool p).misses = (since p w.host.notes).countP (Note.isMiss p) +
        (since p w.host.notes).countP (Note.isThrow p) ∧
      (w.pool p).sizes =
        PoolCategory.all.map (fun c => (c, (since p w.host.notes).countP (Note.isKept p c)))) ∧
    (∀ (watch : World.PoolWatch (Ledger τ)) p, ∃ u, u.host = w.host ∧
      (World.clearPool watch p).exec w = (watch p (.clear ((w.pool p).sizes.map Prod.snd).sum)).exec u) ∧
    ∀ (watch : World.PoolWatch (Ledger τ)) (p : PoolId) (t : World (Ledger τ)),
      (∀ category value matcher factory, PoolCategory.ofName? category = none →
        (World.requestNamed watch p category value matcher factory).exec t =
          (.error (.unknownPoolCategory category), t)) ∧
      ∀ c, (t.pool p).isHeld c = true →
        (∀ category value matcher factory, PoolCategory.ofName? category = some c →
          (World.requestNamed watch p category value matcher factory).exec t =
            (.error (.poolReentered c.name), t)) ∧
        ∀ kind span fields r, kind.table.check t.forest.kindName kind.name fields = .ok () →
          kind.sharing? fields = some r → r.category = c →
          (World.createNode watch (some p) kind span fields).exec t =
            (.error (.poolReentered c.name), t) := by
  refine ⟨fun p hopened => ?_, fun watch p => ?_, fun watch p t => ⟨?_, fun c hheld => ⟨?_, ?_⟩⟩⟩
  · have hok := Runs.reconciled run fresh unnoted hopened
    refine ⟨hok.hits, hok.misses, ?_⟩
    rw [Pool.sizes]
    exact List.map_congr_left (fun c _ => by rw [hok.kept])
  · exact ⟨w.updatePool p (fun q => { policy := q.policy }), rfl,
      World.exec_clearPool_of_free watch (Runs.free run fresh p)⟩
  · intro category value matcher factory hunknown
    exact exec_requestNamed_unknown hunknown value matcher factory
  · intro category value matcher factory hknown
    exact exec_requestNamed_held hknown hheld value matcher factory
  · rintro kind span fields r hfits hsharing rfl
    exact exec_createNode_held hfits hsharing hheld span

namespace Counted

def world : World (Ledger Unit) := { pools := #[{ policy := .standard }], host := ⟨[], ()⟩ }

def pool : PoolId := ⟨0⟩

def quiet : World.PoolWatch (Ledger Unit) := fun _ _ => pure ()

/-- A listener that fails when a text was made. -/
def strict : World.PoolWatch (Ledger Unit) := fun _ event =>
  match event with
  | .miss .string .. => Act.hostFault "strict"
  | _ => pure ()

def leaf : Act (World (Ledger Unit)) NodeId := Act.onForest (Forest.createGraph "leaf" .empty)

def ask (rest : World.PoolWatch (Ledger Unit)) (category : String) (value : Value)
    (factory : Act (World (Ledger Unit)) NodeId) : Act (World (Ledger Unit)) NodeId :=
  World.requestNamed (World.noting rest) pool category value none (World.guarding pool factory)

/-- While the node of a text is made, the text is asked for again, which is refused, an
integer is made and shared, and another factory fails. The listener fails in the end. -/
def code : Act (World (Ledger Unit)) Unit := do
  let _ ← (ask strict "string" (.text "x") do
    let _ ← (ask quiet "string" (.text "x") leaf).attempt
    let _ ← ask quiet "int" (.num (.ofNat 5)) leaf
    let _ ← ask quiet "int" (.num (.ofNat 5)) leaf
    let _ ← (ask quiet "int" (.num (.ofNat 6)) (Act.hostFault "no node")).attempt
    leaf).attempt
  let _ ← (ask quiet "nothing" (.text "x") leaf).attempt
  return ()

/-- A listener that asks for an integer when the pool is cleared. -/
def refilling : World.PoolWatch (Ledger Unit) := fun _ event =>
  match event with
  | .clear _ => do
    let _ ← ask quiet "int" (.num (.ofNat 7)) leaf
    return ()
  | _ => pure ()

def after : World (Ledger Unit) := (code.exec world).2

def cleared : World (Ledger Unit) := ((World.clearPool (World.noting refilling) pool).exec after).2

theorem fresh : world.Fresh := by
  rintro ⟨_ | i⟩
  · exact ⟨.standard, rfl⟩
  · exact ⟨.standard, by simp [World.pool, world]⟩

theorem own {α : Type} {act : Act (World (Ledger Unit)) α} (h : ∀ w, (act.exec w).2 = w) : Client act :=
  .own (fun w => by rw [h w]; exact ⟨.refl w, rfl⟩)

theorem client_leaf : Client leaf :=
  .own (fun w => ⟨evolves_onForest (Forest.keeps_add w.forest _), rfl⟩)

theorem client_quiet (p : PoolId) (event : PoolEvent) : Client (quiet p event) := own (fun _ => rfl)

theorem client_strict (p : PoolId) (event : PoolEvent) : Client (strict p event) := by
  unfold strict
  split
  · exact own (fun _ => rfl)
  · exact own (fun _ => rfl)

theorem client_ask {rest : World.PoolWatch (Ledger Unit)} {category : String} {value : Value}
    {factory : Act (World (Ledger Unit)) NodeId} (hrest : ∀ p event, Client (rest p event))
    (hfactory : Client factory) : Client (ask rest category value factory) := .request hrest hfactory

theorem client_refilling (p : PoolId) (event : PoolEvent) : Client (refilling p event) := by
  unfold refilling
  split
  · exact .bind (client_ask client_quiet client_leaf) (fun _ => own (fun _ => rfl))
  · exact own (fun _ => rfl)

theorem client_code : Client code := by
  refine .bind (.attempt (client_ask client_strict ?_)) (fun _ => ?_)
  · refine .bind (.attempt (client_ask client_quiet client_leaf)) (fun _ => ?_)
    refine .bind (client_ask client_quiet client_leaf) (fun _ => ?_)
    refine .bind (client_ask client_quiet client_leaf) (fun _ => ?_)
    exact .bind (.attempt (client_ask client_quiet (own (fun _ => rfl)))) (fun _ => client_leaf)
  · exact .bind (.attempt (client_ask client_quiet client_leaf)) (fun _ => own (fun _ => rfl))

theorem run_after : Runs world after := .single (.client client_code)

theorem run_cleared : Runs world cleared := run_after.tail (.clear client_refilling)

/-- One hit, two misses told and one failure before the clearing; one miss after it. -/
theorem counters_reconcile_after_clearing : world.Fresh ∧ world.host.notes = [] ∧
    ((after.pool pool).hits, (after.pool pool).misses) = (1, 2 + 1) ∧
    (after.pool pool).sizes = [(.int, 1), (.bool, 0), (.string, 1), (.identifier, 0)] ∧
    ((cleared.pool pool).hits, (cleared.pool pool).misses) = (0, 1 + 0) ∧
    (∃ u, u.host = after.host ∧ (World.clearPool (World.noting refilling) pool).exec after =
      (World.noting refilling pool (.clear 2)).exec u) := by
  have hopened : pool.index < world.pools.size := by decide
  obtain ⟨hcounts, hclear, -⟩ := counters_reconcile fresh rfl run_after
  obtain ⟨hhits, hmisses, hsizes⟩ := hcounts pool hopened
  obtain ⟨hlater, -, -⟩ := counters_reconcile fresh rfl run_cleared
  obtain ⟨hhits', hmisses', -⟩ := hlater pool hopened
  obtain ⟨u, hhost, htold⟩ := hclear (World.noting refilling) pool
  have hsum : ((after.pool pool).sizes.map Prod.snd).sum = 2 := by decide +kernel
  rw [hsum] at htold
  refine ⟨fresh, rfl, ?_, ?_, ?_, u, hhost, htold⟩
  · rw [hhits, hmisses]
    decide +kernel
  · rw [hsizes]
    decide +kernel
  · rw [hhits', hmisses']
    decide +kernel

end Counted

end SyntaxForest
