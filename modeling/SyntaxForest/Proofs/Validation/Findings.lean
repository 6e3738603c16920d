import Mathlib.Data.List.Forall2
import SyntaxForest.Proofs.Validation.Stack
/-!
# Reported cycles

`validate_reports_real_cycles`: every path that a validation reports is a cycle
within reach of the root, and the structural findings describe the paths one by
one. This holds of a validation that fails, too.
-/

namespace SyntaxForest.StructuralValidator

variable {σ : Type} {f : Forest} {ins : Inspector σ} {root : NodeId}

/-! ## What a finding says -/

/-- The label of a step of a cycle, counted from 0. -/
def stepLabel (f : Forest) (step : NodeId × Nat) : Label :=
  { style := .secondary, span := f.span step.1, message := s!"part of cycle (step {step.2 + 1})" }

/-- An error about a cycle: the first label is on the repeated node, each further
one on the next step of the path. -/
structure Describes (f : Forest) (path : List NodeId) (d : Diagnostic) : Prop where
  isError : d.severity = .error
  message : d.message = cycleMessage
  count : d.labels.length + 1 = path.length
  primary : d.labels[0]? = path[0]?.map (fun id =>
    { style := .primary, span := f.span id, message := "cycle starts and ends here" })
  steps : ∀ k, 1 ≤ k → k + 2 ≤ path.length → d.labels[k]? = path[k]?.map (fun id =>
    { style := .secondary, span := f.span id, message := s!"part of cycle (step {k + 1})" })

/-- Going along a path adds a label for every step but the repeated node. -/
theorem foldl_stepLabels (f : Forest) (repeated : NodeId) (steps : List (NodeId × Nat)) (d : Draft) :
    steps.foldl (fun draft (id, i) =>
        if id == repeated then draft
        else draft.secondary (f.span id) s!"part of cycle (step {i + 1})") d =
      { d with secondaryLabels :=
          d.secondaryLabels ++ (steps.filter (·.1 != repeated)).map (stepLabel f) } := by
  induction steps generalizing d with
  | nil => simp
  | cons step rest ih =>
    rw [List.foldl_cons, ih]
    by_cases h : step.1 = repeated
    · simp [h]
    · simp [h, Draft.secondary, stepLabel]

/-- The labels of a finding: the repeated node, then the steps in between. -/
theorem labels_describeCycle {repeated : NodeId} {steps : List NodeId} (h : repeated ∉ steps) :
    (describeCycle f repeated (repeated :: steps ++ [repeated])).labels =
      { style := .primary, span := f.span repeated, message := "cycle starts and ends here" } ::
        (steps.zipIdx 1).map (stepLabel f) := by
  have kept : ((repeated :: steps ++ [repeated]).zipIdx).filter (·.1 != repeated) = steps.zipIdx 1 := by
    simp only [List.cons_append, List.zipIdx_cons, List.zipIdx_append, List.filter_cons, List.filter_append]
    simp only [bne_self_eq_false, Bool.false_eq_true, if_false, List.zipIdx_nil, List.filter_nil,
      List.append_nil, List.filter_eq_self]
    intro step hstep
    have : step.1 ∈ steps := List.fst_mem_of_mem_zipIdx hstep
    simp only [bne_iff_ne, ne_eq]
    rintro rfl
    exact h this
  simp only [describeCycle, foldl_stepLabels, kept]
  rfl

theorem describes_describeCycle {repeated : NodeId} {steps : List NodeId} (h : repeated ∉ steps) :
    Describes f (repeated :: steps ++ [repeated])
      (describeCycle f repeated (repeated :: steps ++ [repeated])) := by
  have hl := labels_describeCycle (f := f) h
  refine ⟨?_, ?_, by rw [hl]; simp, by rw [hl]; rfl, fun k h1 h2 => ?_⟩
  · simp only [describeCycle, foldl_stepLabels]; rfl
  · simp only [describeCycle, foldl_stepLabels]; rfl
  · obtain ⟨j, rfl⟩ : ∃ j, k = j + 1 := ⟨k - 1, by omega⟩
    have hj : j < steps.length := by simp at h2; omega
    rw [hl, List.getElem?_cons_succ, List.cons_append, List.getElem?_cons_succ,
      List.getElem?_append_left hj, List.getElem?_map, List.getElem?_zipIdx]
    simp [stepLabel, Nat.add_comm 1 j, Function.comp_def]

/-! ## Every report is real -/

/-- The paths reported are cycles, and the findings describe them in order. -/
def ReportsReal (f : Forest) (root : NodeId) (v : StructuralValidator) : Prop :=
  List.Forall₂ (fun path d => IsCycle f root path ∧ Describes f path d) v.cycles v.structural

theorem ReportsReal.addCycle {v : StructuralValidator} (h : ReportsReal f root v)
    (ho : InOrder f root v) {id : NodeId} (hm : v.mark? id = some .inProgress)
    (ht : ∀ top ∈ v.stack.getLast?, f.Holds top id) :
    ReportsReal f root (v.addCycle f id (v.cyclePath id)) := by
  have hid := (ho.on_stack id).2 hm
  have hcycle := ho.isCycle hid ht
  refine List.rel_append h (.cons ⟨hcycle, ?_⟩ .nil)
  obtain ⟨above, steps, -, hp⟩ := cyclePath_eq hid
  have hd := hcycle.distinct
  rw [hp] at hd ⊢
  rw [List.dropLast_concat] at hd
  exact describes_describeCycle (List.nodup_cons.1 hd).1

/-- Every walk adds real reports only, also one that fails. -/
theorem Walked.reportsReal {ids : List NodeId} {p q : StructuralValidator × σ} {out : Except Fault Unit}
    (h : Walked f ins ids p out q) (ho : InOrder f root p.1) (ha : Ahead f root p.1 ids)
    (hr : ReportsReal f root p.1) : ReportsReal f root q.1 := by
  induction h with
  | nil => exact hr
  | closes hm hrep _ ih =>
    have hq := addCycle_of_reportCycle hrep
    have hreal := hr.addCycle ho hm (ha _ (List.mem_cons_self ..)).2
    exact ih (hq ▸ ho.addCycle _ _) (ha.tail (by rw [hq]; rfl)) (hq ▸ hreal)
  | closesFails hm hrep =>
    rw [addCycle_of_reportCycle hrep]
    exact hr.addCycle ho hm (ha _ (List.mem_cons_self ..)).2
  | skips _ _ ih => exact ih ho (ha.tail rfl) hr
  | enters hm hc hbelow _ ihb ihr =>
    obtain ⟨ds, hds⟩ := collect_of_runCheck hc
    obtain ⟨hoq, haq, -⟩ := ho.enters ha hm hc
    obtain ⟨hor, har, -⟩ := ho.after_first ha (.enters hm hc hbelow .nil)
    exact ihr hor har (ihb hoq haq (by rw [hds]; exact hr))
  | checkFails _ hc =>
    obtain ⟨ds, hds⟩ := collect_of_runCheck hc
    rw [hds]
    exact hr
  | belowFails hm hc _ ihb =>
    obtain ⟨ds, hds⟩ := collect_of_runCheck hc
    obtain ⟨hoq, haq, -⟩ := ho.enters ha hm hc
    exact ihb hoq haq (by rw [hds]; exact hr)

/-- A walk from a cleared validator begins in order. -/
theorem ahead_root : Ahead f root {} [root] := by
  intro x hx
  rw [List.mem_singleton.1 hx]
  exact ⟨.refl, by simp⟩

/-- A visit by a cleared validator reports real cycles only. -/
theorem reportsReal_visit (f : Forest) (ins : Inspector σ) (root : NodeId) (s : σ) :
    ReportsReal f root ((visit f ins root).exec ({}, s)).2.1 :=
  (visit_walked f ins root ({}, s)).reportsReal inOrder_empty ahead_root .nil

theorem ReportsReal.isCycle {v : StructuralValidator} (h : ReportsReal f root v) :
    ∀ path ∈ v.cycles, IsCycle f root path :=
  ((List.forall₂_and_left _ _).1 h).1

/-- Every path a validation reports is a cycle that can be reached from the root,
and the structural findings describe the paths one by one. A check or a listener
may fail on the way. -/
theorem validate_reports_real_cycles (f : Forest) (ins : Inspector σ) (root : NodeId)
    (p : StructuralValidator × σ) :
    let w := ((validate f ins root).exec p).2.1
    (∀ path ∈ w.cycles, IsCycle f root path) ∧ List.Forall₂ (Describes f) w.cycles w.structural := by
  intro w
  have hreal : ReportsReal f root w := by
    simpa only [w, exec_validate] using reportsReal_visit f ins root p.2
  exact ⟨hreal.isCycle, ((List.forall₂_and_left _ _).1 hreal).2⟩

end SyntaxForest.StructuralValidator
