import Mathlib.Data.Finset.Card
import SyntaxForest.Proofs.Forest.Links
import SyntaxForest.Validation.Structural
/-!
# The structural walk as rules

`Walked` says what a walk does, rule by rule and without a bound on its depth; a
derivation is finite, so a walk that has one ends. `visit_walked`: every walk of
the validator has one, from any marks and on any graph, because each level below
the first two marks a further node of the forest.
-/

namespace SyntaxForest

/-- Some check or listener fails with this fault. -/
inductive Inspector.Throws {σ : Type} (ins : Inspector σ) (fault : Fault) : Prop
  | check (id : NodeId) (s : σ) : ((ins.check id).exec s).1 = .error fault → Throws ins fault
  | onNode (id : NodeId) (found : List Diagnostic) (s : σ) :
      ((ins.onNode id found).exec s).1 = .error fault → Throws ins fault
  | onCycle (path : List NodeId) (s : σ) :
      ((ins.onCycle path).exec s).1 = .error fault → Throws ins fault

namespace StructuralValidator

variable {σ : Type} {f : Forest} {ins : Inspector σ}

/-- Walking from some nodes, one after the other, ends this way and leaves this
behind. A fault ends the walk where it arises. -/
inductive Walked (f : Forest) (ins : Inspector σ) :
    List NodeId → StructuralValidator × σ → Except Fault Unit → StructuralValidator × σ → Prop
  | nil {p} : Walked f ins [] p (.ok ()) p
  | closes {id ids p q out r} : p.1.mark? id = some .inProgress →
      (reportCycle f ins id).exec p = (.ok (), q) → Walked f ins ids q out r →
      Walked f ins (id :: ids) p out r
  | closesFails {id ids p q fault} : p.1.mark? id = some .inProgress →
      (reportCycle f ins id).exec p = (.error fault, q) →
      Walked f ins (id :: ids) p (.error fault) q
  | skips {id ids p out r} : p.1.mark? id = some .done → Walked f ins ids p out r →
      Walked f ins (id :: ids) p out r
  | enters {id ids p q r out t} : p.1.mark? id = none →
      (ins.runCheck f collect id).exec (p.1.enter id, p.2) = (.ok (), q) →
      Walked f ins (f.children id) q (.ok ()) r →
      Walked f ins ids (r.1.leave id, r.2) out t →
      Walked f ins (id :: ids) p out t
  | checkFails {id ids p q fault} : p.1.mark? id = none →
      (ins.runCheck f collect id).exec (p.1.enter id, p.2) = (.error fault, q) →
      Walked f ins (id :: ids) p (.error fault) q
  | belowFails {id ids p q r fault} : p.1.mark? id = none →
      (ins.runCheck f collect id).exec (p.1.enter id, p.2) = (.ok (), q) →
      Walked f ins (f.children id) q (.error fault) r →
      Walked f ins (id :: ids) p (.error fault) r

/-! ## Single steps -/

@[simp] theorem mark?_collect (ds : List Diagnostic) (v : StructuralValidator) (id : NodeId) :
    (v.collect ds).mark? id = v.mark? id := rfl

@[simp] theorem mark?_addCycle (v : StructuralValidator) (r id : NodeId) (path : List NodeId) :
    (v.addCycle f r path).mark? id = v.mark? id := rfl

theorem mark?_enter (v : StructuralValidator) (id other : NodeId) :
    (v.enter id).mark? other = if id = other then some .inProgress else v.mark? other := by
  by_cases h : id = other <;> simp [mark?, enter, h]

theorem mark?_leave (v : StructuralValidator) (id other : NodeId) :
    (v.leave id).mark? other = if id = other then some .done else v.mark? other := by
  by_cases h : id = other <;> simp [mark?, leave, h]

theorem exec_reportCycle (id : NodeId) (p : StructuralValidator × σ) :
    (reportCycle f ins id).exec p =
      (((ins.onCycle (p.1.cyclePath id)).exec p.2).1,
        p.1.addCycle f id (p.1.cyclePath id), ((ins.onCycle (p.1.cyclePath id)).exec p.2).2) := by
  simp [reportCycle, Act.exec_bind, Act.beside]

/-- A report files the cycle, whatever the listener does. -/
theorem addCycle_of_reportCycle {id : NodeId} {p q : StructuralValidator × σ} {out : Except Fault Unit}
    (h : (reportCycle f ins id).exec p = (out, q)) : q.1 = p.1.addCycle f id (p.1.cyclePath id) := by
  rw [exec_reportCycle, Prod.mk.injEq] at h
  rw [← h.2]

/-- A check only adds to the findings of checks, whatever becomes of it. -/
theorem collect_of_runCheck {id : NodeId} {p q : StructuralValidator × σ} {out : Except Fault Unit}
    (h : (ins.runCheck f collect id).exec p = (out, q)) : ∃ ds, q.1 = p.1.collect ds := by
  have nothing : p.1 = p.1.collect [] := by simp [collect]
  by_cases hv : f.isValidatable id
  · simp only [Inspector.runCheck, hv, if_true, Act.exec_bind, Act.beside, Act.exec_onPart] at h
    rcases hc : (ins.check id).exec p.2 with ⟨_ | found, s⟩
    · rw [hc] at h
      simp only [Prod.mk.injEq] at h
      exact ⟨[], by rw [← h.2]; exact nothing⟩
    · rw [hc] at h
      simp only [Act.exec_modify, Prod.mk.injEq] at h
      exact ⟨found, by rw [← h.2]⟩
  · simp only [Inspector.runCheck, hv, Act.exec_pure, Bool.false_eq_true, if_false, Prod.mk.injEq] at h
    exact ⟨[], by rw [← h.2]; exact nothing⟩

theorem throws_of_reportCycle {id : NodeId} {p q : StructuralValidator × σ} {fault : Fault}
    (h : (reportCycle f ins id).exec p = (.error fault, q)) : ins.Throws fault := by
  rw [exec_reportCycle, Prod.mk.injEq] at h
  exact .onCycle _ p.2 h.1

theorem throws_of_runCheck {id : NodeId} {p q : StructuralValidator × σ} {fault : Fault}
    (h : (ins.runCheck f collect id).exec p = (.error fault, q)) : ins.Throws fault := by
  by_cases hv : f.isValidatable id
  · simp only [Inspector.runCheck, hv, if_true, Act.exec_bind, Act.beside, Act.exec_onPart] at h
    rcases hc : (ins.check id).exec p.2 with ⟨e | found, s⟩
    · rw [hc] at h
      simp only [Prod.mk.injEq, Except.error.injEq] at h
      exact .check id p.2 (by rw [hc, h.1])
    · rw [hc] at h
      simp only [Act.exec_modify, Prod.mk.injEq] at h
      exact .onNode id found s h.1
  · simp [Inspector.runCheck, hv] at h

/-- One level of the walk. -/
theorem exec_visitWithin (f : Forest) (ins : Inspector σ) (steps : Nat) (id : NodeId)
    (p : StructuralValidator × σ) :
    (visitWithin f ins (steps + 1) id).exec p =
      match p.1.mark? id with
      | some .inProgress => (reportCycle f ins id).exec p
      | some .done => (.ok (), p)
      | none =>
        match (ins.runCheck f collect id).exec (p.1.enter id, p.2) with
        | (.error fault, q) => (.error fault, q)
        | (.ok _, q) =>
          match ((f.children id).forM (visitWithin f ins steps)).exec q with
          | (.error fault, r) => (.error fault, r)
          | (.ok _, r) => (.ok (), (r.1.leave id, r.2)) := by
  rw [visitWithin, Act.exec_bind, Act.exec_get]
  rcases hm : p.1.mark? id with _ | _ | _
  · simp only [hm, Act.exec_bind, Act.exec_modify]
    rcases (ins.runCheck f collect id).exec (p.1.enter id, p.2) with ⟨_ | _, q⟩
    · rfl
    · simp only
      rcases ((f.children id).forM (visitWithin f ins steps)).exec q with ⟨_ | _, r⟩ <;> rfl
  · simp only [hm]
  · simp only [hm, Act.exec_pure]

/-! ## The walk ends -/

/-- A walk that fails was failed by a check or a listener. -/
theorem Walked.throws {ids : List NodeId} {p q : StructuralValidator × σ} {out : Except Fault Unit}
    (h : Walked f ins ids p out q) {fault : Fault} (hout : out = .error fault) : ins.Throws fault := by
  induction h with
  | nil => cases hout
  | closes _ _ _ ih => exact ih hout
  | closesFails _ hr => cases hout; exact throws_of_reportCycle hr
  | skips _ _ ih => exact ih hout
  | enters _ _ _ _ _ ih => exact ih hout
  | checkFails _ hc => cases hout; exact throws_of_runCheck hc
  | belowFails _ _ _ ih => exact ih hout

/-- A node without a mark had none before. -/
theorem Walked.mark?_eq_none {ids : List NodeId} {p q : StructuralValidator × σ} {out : Except Fault Unit}
    (h : Walked f ins ids p out q) {id : NodeId} (hq : q.1.mark? id = none) : p.1.mark? id = none := by
  have unentered : ∀ {v : StructuralValidator} {x : NodeId}, (v.enter x).mark? id = none →
      v.mark? id = none := by
    intro v x h
    rw [mark?_enter] at h
    split at h
    · cases h
    · exact h
  induction h with
  | nil => exact hq
  | closes _ hr _ ih => simpa [addCycle_of_reportCycle hr] using ih hq
  | closesFails _ hr => simpa [addCycle_of_reportCycle hr] using hq
  | skips _ _ ih => exact ih hq
  | enters _ hc _ _ ihb ihr =>
    obtain ⟨ds, hds⟩ := collect_of_runCheck hc
    have hr := ihr hq
    rw [mark?_leave] at hr
    split at hr
    · cases hr
    · have hb := ihb hr
      rw [hds] at hb
      exact unentered hb
  | checkFails _ hc =>
    obtain ⟨ds, hds⟩ := collect_of_runCheck hc
    rw [hds] at hq
    exact unentered hq
  | belowFails _ hc _ ihb =>
    obtain ⟨ds, hds⟩ := collect_of_runCheck hc
    have hb := ihb hq
    rw [hds] at hb
    exact unentered hb

/-- How many nodes of the forest have no mark. -/
def unmarked (f : Forest) (v : StructuralValidator) : Nat :=
  ((Finset.range f.size).filter (fun i => v.mark? ⟨i⟩ = none)).card

theorem unmarked_le_size (f : Forest) (v : StructuralValidator) : unmarked f v ≤ f.size := by
  simpa [unmarked] using Finset.card_filter_le (Finset.range f.size) (fun i => v.mark? ⟨i⟩ = none)

theorem unmarked_le {v w : StructuralValidator}
    (h : ∀ id, w.mark? id = none → v.mark? id = none) : unmarked f w ≤ unmarked f v :=
  Finset.card_le_card (Finset.monotone_filter_right _ (fun i _ hi => h ⟨i⟩ hi))

/-- Beginning with a node of the forest uses one up. -/
theorem unmarked_enter {v : StructuralValidator} {id : NodeId} (h : v.mark? id = none)
    (hid : id.index < f.size) : unmarked f (v.enter id) < unmarked f v := by
  apply Finset.card_lt_card
  rw [Finset.ssubset_iff_of_subset]
  · exact ⟨id.index, by simp [hid, h], by simp [mark?_enter]⟩
  · intro i hi
    simp only [Finset.mem_filter, mark?_enter] at hi ⊢
    refine ⟨hi.1, ?_⟩
    have := hi.2
    split at this
    · cases this
    · exact this

/-- With a step for every unmarked node, one for a node outside the forest and one
for a node met again, the bound is never felt. -/
theorem walked_forM {steps : Nat} {ids : List NodeId} {p : StructuralValidator × σ}
    (h : unmarked f p.1 + 2 ≤ steps) :
    Walked f ins ids p ((ids.forM (visitWithin f ins steps)).exec p).1
      ((ids.forM (visitWithin f ins steps)).exec p).2 := by
  induction steps generalizing ids p with
  | zero => omega
  | succ steps below =>
    induction ids generalizing p with
    | nil => exact .nil
    | cons id rest ihr =>
      -- what follows a first node that ends well
      have onward : ∀ {q : StructuralValidator × σ}, (visitWithin f ins (steps + 1) id).exec p = (.ok (), q) →
          ((id :: rest).forM (visitWithin f ins (steps + 1))).exec p =
            (rest.forM (visitWithin f ins (steps + 1))).exec q := by
        intro q hq
        rw [Act.exec_forM_cons, hq]
      have stuck : ∀ {q : StructuralValidator × σ} {fault : Fault},
          (visitWithin f ins (steps + 1) id).exec p = (.error fault, q) →
          ((id :: rest).forM (visitWithin f ins (steps + 1))).exec p = (.error fault, q) := by
        intro q fault hq
        rw [Act.exec_forM_cons, hq]
      have hv := exec_visitWithin f ins steps id p
      rcases hm : p.1.mark? id with _ | _ | _ <;> rw [hm] at hv <;> simp only at hv
      · rcases hc : (ins.runCheck f collect id).exec (p.1.enter id, p.2) with ⟨fault | _, q⟩
        · rw [hc] at hv
          rw [stuck hv]
          exact .checkFails hm hc
        · rw [hc] at hv
          simp only at hv
          obtain ⟨ds, hds⟩ := collect_of_runCheck hc
          have hbelow : Walked f ins (f.children id) q
              (((f.children id).forM (visitWithin f ins steps)).exec q).1
              (((f.children id).forM (visitWithin f ins steps)).exec q).2 := by
            by_cases hid : id.index < f.size
            · apply below
              have := unmarked_enter hm hid
              rw [hds]
              show unmarked f (p.1.enter id) + 2 ≤ steps
              omega
            · rw [Forest.children_eq_nil (by omega)]
              exact .nil
          rcases hb : ((f.children id).forM (visitWithin f ins steps)).exec q with ⟨fault | _, r⟩
          · rw [hb] at hv hbelow
            rw [stuck hv]
            exact .belowFails hm hc hbelow
          · rw [hb] at hv hbelow
            rw [onward hv]
            refine .enters hm hc hbelow (ihr ?_)
            have hle : unmarked f (r.1.leave id) ≤ unmarked f p.1 := by
              refine unmarked_le (fun other ho => ?_)
              exact (Walked.enters hm hc hbelow .nil).mark?_eq_none ho
            simp only
            omega
      · rcases hr : (reportCycle f ins id).exec p with ⟨fault | _, q⟩
        · rw [hr] at hv
          rw [stuck hv]
          exact .closesFails hm hr
        · rw [hr] at hv
          rw [onward hv]
          refine .closes hm hr (ihr ?_)
          rw [addCycle_of_reportCycle hr]
          exact h
      · rw [onward hv]
        exact .skips hm (ihr h)

/-- A visit walks from its root to the end. -/
theorem visit_walked (f : Forest) (ins : Inspector σ) (root : NodeId) (p : StructuralValidator × σ) :
    Walked f ins [root] p ((visit f ins root).exec p).1 ((visit f ins root).exec p).2 := by
  have one : [root].forM (visitWithin f ins (f.size + 2)) = visit f ins root := by
    simp [visit]
  rw [← one]
  exact walked_forM (Nat.add_le_add_right (unmarked_le_size f p.1) 2)

/-- A validation is a walk from a cleared validator; it gives what the walk found. -/
theorem exec_validate (f : Forest) (ins : Inspector σ) (root : NodeId) (p : StructuralValidator × σ) :
    (validate f ins root).exec p =
      (((visit f ins root).exec ({}, p.2)).1.map (fun _ => ((visit f ins root).exec ({}, p.2)).2.1.findings),
        ((visit f ins root).exec ({}, p.2)).2) := by
  simp only [validate, Act.exec_bind, Act.exec_modify]
  rcases (visit f ins root).exec ({}, p.2) with ⟨_ | _, q⟩ <;> rfl

end StructuralValidator

end SyntaxForest
