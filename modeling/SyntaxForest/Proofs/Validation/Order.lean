import SyntaxForest.Proofs.Forest.Discovery
import SyntaxForest.Proofs.Validation.Calls
/-!
# Which checks run, and in which order

A host that notes its checks (`Inspector.noting`) does what it does without the notes,
so its notes tell which checks any host is asked for. Main statement:
`checks_run_once`. Visits one after the other, from any roots of any graph, check each
node within reach that has a check once and in the order of discovery, and the
findings are those of the checks in this order, ahead of the cycles.
-/

namespace SyntaxForest

/-- Checks that ran to their end, in order: the node and what was found. -/
abbrev CheckLog := List (NodeId × List Diagnostic)

namespace Inspector

variable {σ : Type}

/-- The same host, noting each check that ran to its end. -/
def noting (ins : Inspector σ) : Inspector (CheckLog × σ) where
  check id := do
    let found ← (ins.check id).beside
    modify (fun p => (p.1 ++ [(id, found)], p.2))
    return found
  onNode id found := (ins.onNode id found).beside
  onCycle path := (ins.onCycle path).beside

/-- The host's state tells which checks ran: a check adds what it found, and a
listener adds nothing. -/
structure Notes (ins : Inspector σ) (notes : σ → CheckLog) : Prop where
  check : ∀ {id s found t}, (ins.check id).exec s = (.ok found, t) → notes t = notes s ++ [(id, found)]
  onNode : ∀ {id found s t}, (ins.onNode id found).exec s = (.ok (), t) → notes t = notes s
  onCycle : ∀ {path s t}, (ins.onCycle path).exec s = (.ok (), t) → notes t = notes s

theorem exec_noting_check (ins : Inspector σ) (id : NodeId) (p : CheckLog × σ) :
    (ins.noting.check id).exec p =
      match (ins.check id).exec p.2 with
      | (.error fault, s) => (.error fault, p.1, s)
      | (.ok found, s) => (.ok found, p.1 ++ [(id, found)], s) := by
  simp only [noting, Act.exec_bind, Act.beside, Act.exec_onPart]
  rcases (ins.check id).exec p.2 with ⟨_ | _, s⟩ <;> rfl

theorem notes_noting (ins : Inspector σ) : ins.noting.Notes Prod.fst where
  check := by
    intro id p found q h
    rw [exec_noting_check] at h
    rcases hc : (ins.check id).exec p.2 with ⟨_ | found', s⟩ <;> rw [hc] at h <;> cases h
    rfl
  onNode := by
    intro id found p q h
    rw [show q = _ from (congrArg Prod.snd h).symm]
    rfl
  onCycle := by
    intro path p q h
    rw [show q = _ from (congrArg Prod.snd h).symm]
    rfl

end Inspector

namespace StructuralValidator

variable {σ τ : Type} {f : Forest} {ins : Inspector σ}

/-! ## Without the notes -/

/-- What is left of a state without the notes. -/
def forget (p : τ × CheckLog × σ) : τ × σ := (p.1, p.2.2)

/-- Notes apart, the first action does what the second does. -/
def Erases {α : Type} (noted : Act (τ × CheckLog × σ) α) (plain : Act (τ × σ) α) : Prop :=
  ∀ p, plain.exec (forget p) = ((noted.exec p).1, forget (noted.exec p).2)

theorem Erases.bind {α β : Type} {noted : Act (τ × CheckLog × σ) α} {plain : Act (τ × σ) α}
    {notedNext : α → Act (τ × CheckLog × σ) β} {plainNext : α → Act (τ × σ) β}
    (h : Erases noted plain) (hnext : ∀ a, Erases (notedNext a) (plainNext a)) :
    Erases (noted >>= notedNext) (plain >>= plainNext) := by
  intro p
  rw [Act.exec_bind, Act.exec_bind, h p]
  rcases noted.exec p with ⟨_ | a, q⟩
  · rfl
  · exact hnext a q

theorem Erases.forM {β : Type} {noted : β → Act (τ × CheckLog × σ) Unit} {plain : β → Act (τ × σ) Unit}
    (h : ∀ b, Erases (noted b) (plain b)) (l : List β) : Erases (l.forM noted) (l.forM plain) := by
  induction l with
  | nil => exact fun p => rfl
  | cons b rest ih =>
    intro p
    rw [Act.exec_forM_cons, Act.exec_forM_cons, h b p]
    rcases (noted b).exec p with ⟨_ | _, q⟩
    · rfl
    · exact ih q

theorem erases_modify (step : τ → τ) :
    Erases (modify (fun p => (step p.1, p.2))) (modify (fun p : τ × σ => (step p.1, p.2))) :=
  fun _ => rfl

theorem erases_runCheck (f : Forest) (ins : Inspector σ) (id : NodeId) :
    Erases (ins.noting.runCheck f collect id) (ins.runCheck f collect id) := by
  unfold Inspector.runCheck
  split
  · refine Erases.bind (fun p => ?_) (fun found => (erases_modify _).bind (fun _ p => rfl))
    simp only [Act.beside, Act.exec_onPart, Inspector.exec_noting_check, forget]
    rcases (ins.check id).exec p.2.2 with ⟨_ | _, s⟩ <;> rfl
  · exact fun p => rfl

theorem erases_visitWithin (f : Forest) (ins : Inspector σ) (steps : Nat) (id : NodeId) :
    Erases (visitWithin f ins.noting steps id) (visitWithin f ins steps id) := by
  induction steps generalizing id with
  | zero => exact fun p => rfl
  | succ steps ih =>
    intro p
    have hrest := (erases_runCheck f ins id).bind
      (fun _ => (Erases.forM ih (f.children id)).bind (fun _ => erases_modify (leave id)))
    simp only [visitWithin, Act.exec_bind, Act.exec_get]
    rcases hm : p.1.mark? id with _ | _ | _ <;> simp only [forget, hm]
    · exact hrest (p.1.enter id, p.2)
    · rfl
    · rfl

theorem erases_perform (f : Forest) (ins : Inspector σ) (call : Call) :
    Erases (perform f ins.noting call) (perform f ins call) := by
  cases call with
  | visit root => exact erases_visitWithin f ins _ root
  | validate root =>
    intro p
    rw [exec_perform_validate, exec_perform_validate]
    exact erases_visitWithin f ins _ root ({}, p.2)
  | clear => exact fun p => rfl

/-! ## What a walk checks -/

/-- What a walk adds that ends well: the nodes it came upon for the first time, and the
checks that ran for them. -/
structure Checked (f : Forest) (ins : Inspector σ) (order : List NodeId) (checks : CheckLog)
    (p q : StructuralValidator × σ) : Prop where
  nodes : checks.map (·.1) = order.filter f.isValidatable
  custom : q.1.custom = p.1.custom ++ checks.flatMap (·.2)
  /-- Each check did find this. -/
  found : ∀ e ∈ checks, ∃ s, ((ins.check e.1).exec s).1 = .ok e.2
  noted : ∀ notes, ins.Notes notes → notes q.2 = notes p.2 ++ checks
  marked : ∀ n, (q.1.mark? n).isSome ↔ n ∈ order ∨ (p.1.mark? n).isSome

theorem Checked.refl (p : StructuralValidator × σ) : Checked f ins [] [] p p :=
  ⟨rfl, by simp, by simp, by simp, by simp⟩

theorem Checked.trans {first second : List NodeId} {before after : CheckLog}
    {p q r : StructuralValidator × σ} (h : Checked f ins first before p q)
    (h' : Checked f ins second after q r) :
    Checked f ins (first ++ second) (before ++ after) p r where
  nodes := by rw [List.map_append, h.nodes, h'.nodes, List.filter_append]
  custom := by rw [h'.custom, h.custom, List.flatMap_append, List.append_assoc]
  found e he := (List.mem_append.1 he).elim (h.found e) (h'.found e)
  noted notes hnotes := by rw [h'.noted notes hnotes, h.noted notes hnotes, List.append_assoc]
  marked n := by
    rw [h'.marked, h.marked, List.mem_append]
    tauto

theorem checked_reportCycle {id : NodeId} {p q : StructuralValidator × σ}
    (h : (reportCycle f ins id).exec p = (.ok (), q)) : Checked f ins [] [] p q := by
  rw [exec_reportCycle, Prod.mk.injEq] at h
  obtain ⟨hout, rfl⟩ := h
  refine ⟨rfl, by simp [addCycle], by simp, fun notes hnotes => ?_, by simp⟩
  rw [hnotes.onCycle (Prod.ext hout rfl), List.append_nil]

/-- Beginning with a node runs its check, if it has one. -/
theorem checked_runCheck {id : NodeId} {p q : StructuralValidator × σ}
    (h : (ins.runCheck f collect id).exec (p.1.enter id, p.2) = (.ok (), q)) :
    ∃ checks, Checked f ins [id] checks p q := by
  have hmarked : ∀ {v : StructuralValidator}, (∀ n, v.mark? n = (p.1.enter id).mark? n) →
      ∀ n, (v.mark? n).isSome ↔ n ∈ [id] ∨ (p.1.mark? n).isSome := by
    intro v hv n
    rw [hv, mark?_enter]
    by_cases hn : id = n
    · simp [hn]
    · simp [hn, Ne.symm hn]
  by_cases hv : f.isValidatable id
  · simp only [Inspector.runCheck, hv, if_true, Act.exec_bind, Act.beside, Act.exec_onPart] at h
    rcases hc : (ins.check id).exec p.2 with ⟨_ | found, s⟩
    · rw [hc] at h
      cases h
    · rw [hc] at h
      simp only [Act.exec_modify] at h
      rcases ht : (ins.onNode id found).exec s with ⟨_ | _, t⟩ <;> rw [ht] at h <;> cases h
      refine ⟨[(id, found)], by simp [hv], by simp [collect, enter], ?_, ?_, hmarked (fun n => rfl)⟩
      · intro e he
        rw [List.mem_singleton.1 he]
        exact ⟨p.2, congrArg Prod.fst hc⟩
      · intro notes hnotes
        rw [hnotes.onNode ht, hnotes.check hc]
  · simp only [Inspector.runCheck, hv, Bool.false_eq_true, if_false, Act.exec_pure] at h
    cases h
    exact ⟨[], by simp [hv], by simp [enter], by simp, by simp, hmarked (fun n => rfl)⟩

/-- Ending with a node marks no further one. -/
theorem checked_leave {id : NodeId} {r : StructuralValidator × σ} (h : (r.1.mark? id).isSome) :
    Checked f ins [] [] r (r.1.leave id, r.2) := by
  refine ⟨rfl, by simp [leave], by simp, by simp, fun n => ?_⟩
  rw [mark?_leave]
  by_cases hn : id = n
  · simp [← hn, h]
  · simp [hn]

/-- A walk checks what it discovers. -/
theorem Walked.checked {ids : List NodeId} {p q : StructuralValidator × σ} {out : Except Fault Unit}
    (h : Walked f ins ids p out q) (hout : out = .ok ()) {seen : List NodeId}
    (hseen : ∀ n, n ∈ seen ↔ (p.1.mark? n).isSome) :
    ∃ checks, Checked f ins (f.discover seen ids) checks p q := by
  induction h generalizing seen with
  | @nil p => exact ⟨[], by rw [Forest.discover_nil]; exact .refl p⟩
  | @closes id ids p q _ r hm hr _ ih =>
    have hreport := checked_reportCycle hr
    obtain ⟨checks, hrest⟩ := ih hout (fun n => by rw [hseen, hreport.marked]; simp)
    rw [Forest.discover_of_mem ((hseen id).2 (by simp [hm]))]
    exact ⟨checks, hreport.trans hrest⟩
  | @skips id ids p _ r hm _ ih =>
    rw [Forest.discover_of_mem ((hseen id).2 (by simp [hm]))]
    exact ih hout hseen
  | @enters id ids p q r _ t hm hc _ _ ihb ihr =>
    obtain ⟨own, hown⟩ := checked_runCheck hc
    have hseen_id : ∀ n, n ∈ id :: seen ↔ (q.1.mark? n).isSome := fun n => by
      rw [hown.marked, ← hseen, List.mem_cons, List.mem_singleton]
    obtain ⟨below, hbelow⟩ := ihb rfl hseen_id
    have hleft : Checked f ins _ _ p (r.1.leave id, r.2) :=
      (hown.trans hbelow).trans (checked_leave ((hbelow.marked id).2
        (.inr ((hseen_id id).1 (List.mem_cons_self ..)))))
    have hseen_left : ∀ n, n ∈ (f.discover (id :: seen) (f.children id)).reverse ++ id :: seen ↔
        ((r.1.leave id).mark? n).isSome := fun n => by
      rw [hleft.marked, ← hseen]
      simp only [List.mem_append, List.mem_reverse, List.mem_cons, List.not_mem_nil]
      tauto
    obtain ⟨later, hlater⟩ := ihr hout hseen_left
    have hid : id ∉ seen := by
      intro hmem
      have hmarked := (hseen id).1 hmem
      rw [hm] at hmarked
      cases hmarked
    rw [Forest.discover_of_notMem hid, Forest.discover_append]
    exact ⟨_, by simpa using hleft.trans hlater⟩
  | closesFails => cases hout
  | checkFails => cases hout
  | belowFails => cases hout

/-- From no marks a walk discovers everything. -/
theorem Walked.checked_all {ids : List NodeId} {s : σ} {q : StructuralValidator × σ}
    (h : Walked f ins ids ({}, s) (.ok ()) q) :
    ∃ checks, Checked f ins (f.discover [] ids) checks ({}, s) q :=
  h.checked rfl (fun n => by simp [mark?])

/-! ## Visits since the last clearing -/

/-- To clear a validator and visit some roots is one walk from all of them. -/
theorem visits_walked (f : Forest) (ins : Inspector σ) (roots : List NodeId)
    (p : StructuralValidator × σ) :
    Walked f ins roots ({}, p.2) (((Call.clear :: roots.map .visit).forM (perform f ins)).exec p).1
      (((Call.clear :: roots.map .visit).forM (perform f ins)).exec p).2 := by
  have hmap : (roots.map Call.visit).forM (perform f ins) = roots.forM (visit f ins) := by
    simp only [List.forM_eq_forM, List.forM_map]
    rfl
  rw [Act.exec_forM_cons, hmap]
  exact walked_forM (Nat.add_le_add_right (unmarked_le_size f {}) 2)

/-- Visits from any roots of any graph, made since a clearing, come to an end. Unless a
check or a listener fails, the checks that ran are those of the nodes within reach that
have one, each run once, in the order in which a depth-first walk from left to right
first comes upon the nodes. The validator has their findings in this order, and ahead
of all findings of cycles. -/
theorem checks_run_once (f : Forest) (ins : Inspector σ) (roots : List NodeId)
    (p : StructuralValidator × CheckLog × σ) :
    ∃ out w log s, Walked f ins roots ({}, p.2.2) out (w, s) ∧
      ((Call.clear :: roots.map .visit).forM (perform f ins)).exec (forget p) = (out, w, s) ∧
      ((Call.clear :: roots.map .visit).forM (perform f ins.noting)).exec p = (out, w, log, s) ∧
      match out with
      | .error fault => ins.Throws fault
      | .ok _ => ∃ checks, log = p.2.1 ++ checks ∧
          checks.map (·.1) = (f.discover [] roots).filter f.isValidatable ∧
          (f.discover [] roots).Nodup ∧
          (∀ n, n ∈ f.discover [] roots ↔ ∃ r ∈ roots, f.Reaches r n) ∧
          w.custom = checks.flatMap (·.2) ∧
          w.findings = checks.flatMap (·.2) ++ w.structural := by
  have hwalk := visits_walked f ins roots (forget p)
  have hnoted := visits_walked f ins.noting roots p
  have hplain := Erases.forM (erases_perform f ins) (Call.clear :: roots.map .visit) p
  rw [hplain] at hwalk
  generalize ((Call.clear :: roots.map Call.visit).forM (perform f ins.noting)).exec p = run
    at hnoted hwalk hplain ⊢
  obtain ⟨out, w, log, s⟩ := run
  refine ⟨out, w, log, s, hwalk, hplain, rfl, ?_⟩
  cases out with
  | error fault => exact hwalk.throws rfl
  | ok _ =>
    obtain ⟨checks, hchecked⟩ := hnoted.checked_all
    have hcustom : w.custom = checks.flatMap (·.2) := hchecked.custom
    refine ⟨checks, hchecked.noted _ ins.notes_noting, hchecked.nodes, f.nodup_discover [] roots,
      f.mem_discover_iff roots, hcustom, ?_⟩
    rw [findings, hcustom]

end StructuralValidator

end SyntaxForest
