import SyntaxForest.Proofs.Forest.Walks
import SyntaxForest.Proofs.Validation.Findings
import SyntaxForest.Proofs.Validation.Order
import SyntaxForest.Session.Perform
/-!
# The two validators on structures without cycles

Below a root from which no cycle can be reached, the structural walk checks the nodes of
the preorder at their first places, and the plain walk checks them at every place. Main
statement: `validators_agree_without_cycles`, for hosts whose checks give the same
findings each time.
-/

namespace SyntaxForest

variable {σ : Type} {f : Forest} {ins : Inspector σ} {result : NodeId → List Diagnostic} {root : NodeId}

/-- Whatever state the host is in, each check gives these findings, and the listener for
nodes does not fail. Of the listener for cycles nothing is asked. -/
structure Inspector.Steady (ins : Inspector σ) (result : NodeId → List Diagnostic) : Prop where
  check : ∀ id s, ((ins.check id).exec s).1 = .ok (result id)
  onNode : ∀ id found s, ((ins.onNode id found).exec s).1 = .ok ()

/-- The same host without its listener for cycles. -/
def Inspector.deaf (ins : Inspector σ) : Inspector σ := { ins with onCycle := fun _ => pure () }

theorem Inspector.Steady.deaf_of_throws (h : ins.Steady result) {fault : Fault} : ¬ ins.deaf.Throws fault := by
  intro hthrows
  cases hthrows with
  | check id s hs => exact absurd ((h.check id s).symm.trans hs) nofun
  | onNode id found s hs => exact absurd ((h.onNode id found s).symm.trans hs) nofun
  | onCycle path s hs => cases hs

/-! ## The structural walk -/

namespace StructuralValidator

/-- A walk that fails and has no cycle to tell of was failed by a check, or by the
listener for nodes. -/
theorem Walked.deaf_throws {ids : List NodeId} {p q : StructuralValidator × σ} {out : Except Fault Unit}
    (h : Walked f ins ids p out q) {fault : Fault} (hout : out = .error fault) (hq : q.1.cycles = []) :
    ins.deaf.Throws fault := by
  induction h with
  | nil => cases hout
  | closes _ _ _ ih => exact ih hout hq
  | closesFails _ hr =>
    rw [addCycle_of_reportCycle hr] at hq
    simp [addCycle] at hq
  | skips _ _ ih => exact ih hout hq
  | enters _ _ _ _ _ ih => exact ih hout hq
  | checkFails _ hc =>
    cases hout
    exact @throws_of_runCheck _ f ins.deaf _ _ _ _ hc
  | belowFails _ _ _ ih => exact ih hout hq

/-- Where no cycle can be reached, none is reported. -/
theorem no_reports (ins : Inspector σ) (acyclic : ¬ f.HasCycle root) (s : σ) :
    ((visit f ins root).exec ({}, s)).2.1.cycles = [] ∧
      ((visit f ins root).exec ({}, s)).2.1.structural = [] := by
  have hreal := reportsReal_visit f ins root s
  have hcycles : ((visit f ins root).exec ({}, s)).2.1.cycles = [] := by
    refine List.eq_nil_iff_forall_not_mem.2 (fun path hpath => acyclic ?_)
    exact (hreal.isCycle path hpath).hasCycle
  refine ⟨hcycles, ?_⟩
  rw [ReportsReal, hcycles, List.forall₂_nil_left_iff] at hreal
  exact hreal

theorem exec_validate_of_acyclic (acyclic : ¬ f.HasCycle root) (steady : ins.Steady result)
    (p : StructuralValidator × σ) :
    ∃ w s, (validate f ins root).exec p =
        (.ok (((f.preorder root).eraseDups.filter f.isValidatable).flatMap result), w, s) ∧
      w.findings = ((f.preorder root).eraseDups.filter f.isValidatable).flatMap result := by
  have hwalk := visit_walked f ins root ({}, p.2)
  obtain ⟨hcycles, hstructural⟩ := no_reports ins acyclic p.2
  rw [exec_validate]
  generalize (visit f ins root).exec ({}, p.2) = run at hwalk hcycles hstructural
  obtain ⟨_ | _, w, s⟩ := run
  · exact absurd (hwalk.deaf_throws rfl hcycles) steady.deaf_of_throws
  · obtain ⟨checks, hchecked⟩ := hwalk.checked_all
    have hfound : ∀ e ∈ checks, e.2 = result e.1 := by
      intro e he
      obtain ⟨t, ht⟩ := hchecked.found e he
      exact Except.ok.inj (ht.symm.trans (steady.check e.1 t))
    have hfindings : w.findings = ((f.preorder root).eraseDups.filter f.isValidatable).flatMap result :=
      calc w.findings = checks.flatMap (·.2) := by
            rw [findings, show w.structural = [] from hstructural, List.append_nil]
            exact hchecked.custom
        _ = (checks.map (·.1)).flatMap result := by
            rw [List.flatMap_map]
            exact List.flatMap_congr hfound
        _ = _ := by rw [hchecked.nodes, Forest.discover_eq_eraseDups acyclic]
    exact ⟨w, s, by rw [← hfindings]; rfl, hfindings⟩

end StructuralValidator

/-! ## The plain walk -/

namespace PlainValidator

theorem exec_runCheck (steady : ins.Steady result) (id : NodeId) (v : PlainValidator) (s : σ) :
    ∃ t, (ins.runCheck f collect id).exec (v, s) =
      (.ok (), v.collect (([id].filter f.isValidatable).flatMap result), t) := by
  by_cases hv : f.isValidatable id
  · have hcheck := steady.check id s
    simp only [Inspector.runCheck, hv, if_true, Act.exec_bind, Act.beside, Act.exec_onPart]
    rcases hc : (ins.check id).exec s with ⟨out, t⟩
    rw [hc] at hcheck
    obtain rfl : out = .ok (result id) := hcheck
    refine ⟨((ins.onNode id (result id)).exec t).2, ?_⟩
    simp [hv, steady.onNode]
  · exact ⟨s, by simp [Inspector.runCheck, hv, collect]⟩

theorem collect_collect (first second : List Diagnostic) (v : PlainValidator) :
    (v.collect first).collect second = v.collect (first ++ second) := by
  simp [collect]

/-- Checks along a list add their findings in its order. -/
theorem exec_forM_runCheck (steady : ins.Steady result) (l : List NodeId) (v : PlainValidator) (s : σ) :
    ∃ t, (l.forM (ins.runCheck f collect)).exec (v, s) =
      (.ok (), v.collect ((l.filter f.isValidatable).flatMap result), t) := by
  induction l generalizing v s with
  | nil => exact ⟨s, by simp [collect]⟩
  | cons id rest ih =>
    obtain ⟨t, ht⟩ := exec_runCheck steady id v s
    obtain ⟨u, hu⟩ := ih (v.collect (([id].filter f.isValidatable).flatMap result)) t
    refine ⟨u, ?_⟩
    rw [Act.exec_forM_cons, ht]
    simp only [hu]
    rw [collect_collect, ← List.flatMap_append, ← List.filter_append, List.singleton_append]

theorem exec_validate (steady : ins.Steady result) (root : NodeId) (p : PlainValidator × σ) :
    ∃ v s, (validate f ins root).exec p =
        (.ok (((f.preorder root).filter f.isValidatable).flatMap result), v, s) ∧
      v.found = ((f.preorder root).filter f.isValidatable).flatMap result := by
  obtain ⟨s, hs⟩ := exec_forM_runCheck (f := f) steady (f.preorder root) {} p.2
  refine ⟨{ found := ((f.preorder root).filter f.isValidatable).flatMap result }, s, ?_, rfl⟩
  simp only [validate, visit_eq, Act.exec_bind, Act.exec_modify, hs]
  rfl

end PlainValidator

/-! ## Both -/

/-- To leave out items and to leave out repetitions can be done in either order. -/
theorem eraseDups_filter (keep : NodeId → Bool) (l : List NodeId) :
    (l.filter keep).eraseDups = l.eraseDups.filter keep := by
  induction l using List.reverseRecOn with
  | nil => rfl
  | append_singleton l a ih =>
    rw [List.filter_append, List.eraseDups_append, List.eraseDups_append, List.filter_append, ih]
    by_cases hkeep : keep a <;> by_cases hmem : a ∈ l <;>
      simp [List.removeAll, List.eraseDups_cons, hkeep, hmem]

theorem eraseDups_of_nodup {l : List NodeId} (h : l.Nodup) : l.eraseDups = l := by
  induction l with
  | nil => rfl
  | cons a rest ih =>
    obtain ⟨ha, hrest⟩ := List.nodup_cons.1 h
    have hkept : rest.filter (fun b => !b == a) = rest :=
      List.filter_eq_self.2 (fun b hb => by simpa using ne_of_mem_of_not_mem hb ha)
    rw [List.eraseDups_cons, hkept, ih hrest]

/-- Below a root from which no cycle can be reached, with checks that give the same
findings each time: the structural validator finds what the checks find along the
preorder, each node at its first place only, and the plain validator what they find at
every place. Both give one answer about validity, and where no node with a check has two
places, the same findings. -/
theorem validators_agree_without_cycles (acyclic : ¬ f.HasCycle root) (steady : ins.Steady result)
    (p : StructuralValidator × σ) (q : PlainValidator × σ) :
    ∃ w v s t,
      (StructuralValidator.validate f ins root).exec p =
        (.ok (((f.preorder root).eraseDups.filter f.isValidatable).flatMap result), w, s) ∧
      (PlainValidator.validate f ins root).exec q =
        (.ok (((f.preorder root).filter f.isValidatable).flatMap result), v, t) ∧
      (Session.ValidatorState.structural w).answer .isValid = (Session.ValidatorState.plain v).answer .isValid ∧
      (((f.preorder root).filter f.isValidatable).Nodup →
        ((StructuralValidator.validate f ins root).exec p).1 = ((PlainValidator.validate f ins root).exec q).1) := by
  obtain ⟨w, s, hw, hfindings⟩ := StructuralValidator.exec_validate_of_acyclic acyclic steady p
  obtain ⟨v, t, hv, hfound⟩ := PlainValidator.exec_validate (f := f) steady root q
  refine ⟨w, v, s, t, hw, hv, ?_, fun hdistinct => ?_⟩
  · simp only [Session.ValidatorState.answer, Session.ValidatorState.findings, hfindings, hfound]
    congr 1
    rw [Bool.eq_iff_iff, List.isEmpty_iff, List.isEmpty_iff]
    simp [List.flatMap_eq_nil_iff, List.mem_eraseDups]
  · rw [hw, hv, ← eraseDups_filter, eraseDups_of_nodup hdistinct]

namespace Mixed

/-- A remark on where a node stands. -/
def remark (id : NodeId) : List Diagnostic :=
  [{ severity := .hint, message := "stands here"
     labels := [{ style := .primary, span := forest.span id, message := "" }], help := none, note := none }]

/-- A host that counts its checks and cannot bear cycles. -/
def counting : Inspector Nat where
  check id := do
    modify (· + 1)
    return remark id
  onNode _ _ := pure ()
  onCycle _ := Act.hostFault "a cycle"

theorem counting_steady : counting.Steady remark := ⟨fun _ _ => rfl, fun _ _ _ => rfl⟩

/-- An item that holds another one twice: five checks or sixteen, none of them of the
hand-written node. -/
theorem checks_of_nested_items : ¬ forest.HasCycle ⟨6⟩ ∧ counting.Steady remark ∧ ∃ w v s t,
    (StructuralValidator.validate forest counting ⟨6⟩).exec ({}, 0) =
      (.ok ([6, 3, 0, 1, 2].flatMap (fun i => remark ⟨i⟩)), w, s) ∧
    (PlainValidator.validate forest counting ⟨6⟩).exec ({}, 0) =
      (.ok ([6, 3, 0, 1, 2, 0, 3, 0, 1, 2, 0, 3, 0, 1, 2, 0].flatMap (fun i => remark ⟨i⟩)), v, t) ∧
    (Session.ValidatorState.structural w).answer .isValid = (Session.ValidatorState.plain v).answer .isValid := by
  obtain ⟨w, v, s, t, hw, hv, hvalid, -⟩ :=
    validators_agree_without_cycles (acyclic ⟨6⟩) counting_steady ({}, 0) ({}, 0)
  have hfirst : (forest.preorder ⟨6⟩).eraseDups.filter forest.isValidatable =
      [6, 3, 0, 1, 2].map NodeId.mk := by decide
  have hevery : (forest.preorder ⟨6⟩).filter forest.isValidatable =
      [6, 3, 0, 1, 2, 0, 3, 0, 1, 2, 0, 3, 0, 1, 2, 0].map NodeId.mk := by decide
  rw [hfirst, List.flatMap_map] at hw
  rw [hevery, List.flatMap_map] at hv
  exact ⟨acyclic ⟨6⟩, counting_steady, w, v, s, t, hw, hv, hvalid⟩

end Mixed

end SyntaxForest
