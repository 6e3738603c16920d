import SyntaxForest.Proofs.Validation.Stack
/-!
# Calls of one validator after another

Marks and stack outlive a call. A call that fails leaves the nodes it was below in
progress, and a later visit that comes upon one of them takes it for the end of a
cycle. `false_cycles_start_where_a_call_failed`: on a graph without cycles this is
the only way to a report. `visit_twice_reports_a_cycle` is the smallest such graph,
a single node whose check fails.
-/

namespace SyntaxForest.StructuralValidator

variable {σ : Type} {f : Forest} {ins : Inspector σ}

/-- A call of a validator. -/
inductive Call where
  | visit (root : NodeId)
  | validate (root : NodeId)
  | clear

/-- Make a call; what `validate` returns is left out. -/
def perform (f : Forest) (ins : Inspector σ) : Call → Act (StructuralValidator × σ) Unit
  | .visit root => visit f ins root
  | .validate root => do
    let _ ← validate f ins root
    return ()
  | .clear => modify (fun p => ({}, p.2))

/-- What calls leave behind, made one after another whether they fail or not. -/
def after (f : Forest) (ins : Inspector σ) (calls : List Call) (p : StructuralValidator × σ) :
    StructuralValidator × σ :=
  calls.foldl (fun p call => ((perform f ins call).exec p).2) p

theorem after_concat (calls : List Call) (call : Call) (p : StructuralValidator × σ) :
    after f ins (calls ++ [call]) p = ((perform f ins call).exec (after f ins calls p)).2 := by
  simp [after]

theorem exec_perform_validate (f : Forest) (ins : Inspector σ) (root : NodeId)
    (p : StructuralValidator × σ) :
    (perform f ins (.validate root)).exec p = (visit f ins root).exec ({}, p.2) := by
  rw [perform, Act.exec_bind, exec_validate]
  rcases (visit f ins root).exec ({}, p.2) with ⟨_ | _, q⟩ <;> rfl

/-! ## A walk above nodes left in progress -/

/-- The stack has some nodes that were left over, and above them those of the walk
under way, each held by the one before it. -/
structure Resumes (f : Forest) (left path : List NodeId) (v : StructuralValidator) : Prop where
  tracked : Tracked v
  stack : v.stack = left ++ path
  linked : path.IsChain f.Holds

/-- Nodes to walk from next: the innermost node of the walk under way holds them. -/
def Next (f : Forest) (path ids : List NodeId) : Prop :=
  ∀ id ∈ ids, ∀ top ∈ path.getLast?, f.Holds top id

variable {left path : List NodeId} {v : StructuralValidator}

theorem Next.tail {id : NodeId} {ids : List NodeId} (h : Next f path (id :: ids)) : Next f path ids :=
  fun x hx => h x (List.mem_cons_of_mem _ hx)

theorem next_children (f : Forest) (path : List NodeId) (id : NodeId) :
    Next f (path ++ [id]) (f.children id) := by
  intro x hx top ht
  rw [List.getLast?_concat, Option.mem_some_iff] at ht
  exact ht ▸ hx

/-- To a later walk all nodes in progress are left over. -/
theorem Tracked.resumes (h : Tracked v) : Resumes f v.stack [] v := ⟨h, by simp, .nil⟩

theorem Resumes.collect (h : Resumes f left path v) (ds : List Diagnostic) :
    Resumes f left path (v.collect ds) :=
  ⟨⟨h.tracked.on_stack, h.tracked.nodup⟩, h.stack, h.linked⟩

theorem Resumes.addCycle (h : Resumes f left path v) (r : NodeId) (reported : List NodeId) :
    Resumes f left path (v.addCycle f r reported) :=
  ⟨⟨h.tracked.on_stack, h.tracked.nodup⟩, h.stack, h.linked⟩

theorem Resumes.enter (h : Resumes f left path v) {id : NodeId} (hm : v.mark? id = none)
    (ht : ∀ top ∈ path.getLast?, f.Holds top id) : Resumes f left (path ++ [id]) (v.enter id) := by
  refine ⟨h.tracked.enter hm, ?_, ?_⟩
  · simp [StructuralValidator.enter, h.stack]
  · exact List.isChain_append.2 ⟨h.linked, .singleton id, by simpa using ht⟩

theorem Resumes.leave {id : NodeId} (h : Resumes f left (path ++ [id]) v) :
    Resumes f left path (v.leave id) := by
  have hbefore : v.stack = (left ++ path) ++ [id] := by rw [h.stack, List.append_assoc]
  refine ⟨h.tracked.leave hbefore, ?_, h.linked.left_of_append⟩
  simp [StructuralValidator.leave, hbefore]

/-- In a graph without cycles a walk meets no node of its own in progress. -/
theorem Resumes.mem_left (h : Resumes f left path v) (acyclic : ∀ n, ¬ Relation.TransGen f.Holds n n)
    {id : NodeId} (hm : v.mark? id = some .inProgress) (ht : ∀ top ∈ path.getLast?, f.Holds top id) :
    id ∈ left := by
  have hid : id ∈ left ++ path := h.stack ▸ (h.tracked.on_stack id).2 hm
  refine (List.mem_append.1 hid).resolve_right (fun hpath => ?_)
  obtain ⟨above, below, hsplit⟩ := List.append_of_mem hpath
  obtain ⟨top, htop⟩ : ∃ top, (id :: below).getLast? = some top :=
    ⟨_, List.getLast?_eq_some_getLast (by simp)⟩
  have hlast : path.getLast? = some top := by rw [hsplit, List.getLast?_append, htop]; rfl
  have hchain : (id :: below).IsChain f.Holds := by
    have := h.linked
    rw [hsplit] at this
    exact this.right_of_append
  have hreach := Forest.reaches_of_isChain hchain (List.mem_of_getLast? htop)
  exact acyclic id (Relation.TransGen.tail' hreach (ht top hlast))

/-- What a walk above left-over nodes leaves behind: reports about left-over nodes
only, and unless it fails, no further node in progress. -/
structure Outcome (f : Forest) (left path : List NodeId) (out : Except Fault Unit)
    (v w : StructuralValidator) : Prop where
  reported : ∀ cycle ∈ w.cycles, cycle ∈ v.cycles ∨ ∃ id ∈ left, cycle.head? = some id
  resumes : ∃ more, Resumes f left (path ++ more) w ∧ (out = .ok () → more = [])

theorem Walked.outcome {ids : List NodeId} {p q : StructuralValidator × σ} {out : Except Fault Unit}
    (h : Walked f ins ids p out q) (acyclic : ∀ n, ¬ Relation.TransGen f.Holds n n)
    (hr : Resumes f left path p.1) (hn : Next f path ids) : Outcome f left path out p.1 q.1 := by
  -- a node in progress that is met is a left-over one, and the report starts with it
  have closing : ∀ {path id v}, Resumes f left path v → v.mark? id = some .inProgress →
      (∀ top ∈ path.getLast?, f.Holds top id) →
      ∀ cycle ∈ (v.addCycle f id (v.cyclePath id)).cycles,
        cycle ∈ v.cycles ∨ ∃ id ∈ left, cycle.head? = some id := by
    intro path id v hr hm ht cycle hc
    rcases List.mem_append.1 hc with hold | hnew
    · exact .inl hold
    · obtain ⟨above, steps, -, hcycle⟩ := cyclePath_eq ((hr.tracked.on_stack id).2 hm)
      rw [List.mem_singleton.1 hnew, hcycle]
      exact .inr ⟨id, hr.mem_left acyclic hm ht, rfl⟩
  induction h generalizing path with
  | nil => exact ⟨fun _ hc => .inl hc, [], by simpa using hr, fun _ => rfl⟩
  | @closes id ids p q out r hm hrep _ ih =>
    have hq := addCycle_of_reportCycle hrep
    obtain ⟨hnew, hmore⟩ := ih (hq ▸ hr.addCycle _ _) hn.tail
    refine ⟨fun cycle hc => ?_, hmore⟩
    rcases hnew cycle hc with hold | hleft
    · rw [hq] at hold
      exact closing hr hm (hn id List.mem_cons_self) cycle hold
    · exact .inr hleft
  | @closesFails id ids p q fault hm hrep =>
    rw [addCycle_of_reportCycle hrep]
    exact ⟨closing hr hm (hn id List.mem_cons_self), [], by simpa using hr.addCycle _ _, fun _ => rfl⟩
  | skips _ _ ih => exact ih hr hn.tail
  | @enters id ids p q r out t hm hc _ _ ihb ihr =>
    obtain ⟨ds, hds⟩ := collect_of_runCheck hc
    have hq : Resumes f left (path ++ [id]) q.1 :=
      hds ▸ (hr.enter hm (hn id List.mem_cons_self)).collect ds
    have hbelow := ihb hq (next_children f path id)
    obtain ⟨more, hmore, hnone⟩ := hbelow.resumes
    rw [hnone rfl, List.append_nil] at hmore
    obtain ⟨hnew, hrest⟩ := ihr hmore.leave hn.tail
    refine ⟨fun cycle hcycle => ?_, hrest⟩
    rcases hnew cycle hcycle with hold | hleft
    · rcases hbelow.reported cycle hold with hq | hleft
      · exact .inl (by rw [hds] at hq; exact hq)
      · exact .inr hleft
    · exact .inr hleft
  | @checkFails id ids p q fault hm hc =>
    obtain ⟨ds, hds⟩ := collect_of_runCheck hc
    rw [hds]
    exact ⟨fun _ hcycle => .inl hcycle, [id], (hr.enter hm (hn id List.mem_cons_self)).collect ds,
      fun hout => (nomatch hout)⟩
  | @belowFails id ids p q r fault hm hc _ ihb =>
    obtain ⟨ds, hds⟩ := collect_of_runCheck hc
    have hq : Resumes f left (path ++ [id]) q.1 :=
      hds ▸ (hr.enter hm (hn id List.mem_cons_self)).collect ds
    have hbelow := ihb hq (next_children f path id)
    obtain ⟨more, hmore, -⟩ := hbelow.resumes
    refine ⟨fun cycle hcycle => ?_, id :: more, by simpa using hmore, fun hout => (nomatch hout)⟩
    rcases hbelow.reported cycle hcycle with hold | hleft
    · exact .inl (by rw [hds] at hold; exact hold)
    · exact .inr hleft

/-- There is one structural finding for each reported path. -/
theorem Walked.length_structural {ids : List NodeId} {p q : StructuralValidator × σ}
    {out : Except Fault Unit} (h : Walked f ins ids p out q)
    (hp : p.1.structural.length = p.1.cycles.length) : q.1.structural.length = q.1.cycles.length := by
  induction h with
  | nil => exact hp
  | closes _ hr _ ih => exact ih (by simp [addCycle_of_reportCycle hr, StructuralValidator.addCycle, hp])
  | closesFails _ hr => simp [addCycle_of_reportCycle hr, StructuralValidator.addCycle, hp]
  | skips _ _ ih => exact ih hp
  | enters _ hc _ _ ihb ihr =>
    obtain ⟨ds, hds⟩ := collect_of_runCheck hc
    exact ihr (ihb (by rw [hds]; exact hp))
  | checkFails _ hc =>
    obtain ⟨ds, hds⟩ := collect_of_runCheck hc
    rw [hds]
    exact hp
  | belowFails _ hc _ ihb =>
    obtain ⟨ds, hds⟩ := collect_of_runCheck hc
    exact ihb (by rw [hds]; exact hp)

/-! ## Sequences of calls -/

/-- Some call failed and left a node in progress; nothing but visits came after it. -/
def LeftOpen (f : Forest) (ins : Inspector σ) (calls : List Call) (p : StructuralValidator × σ)
    (roots : List NodeId) (id : NodeId) : Prop :=
  ∃ earlier failed fault, calls = earlier ++ failed :: roots.map .visit ∧
    ((perform f ins failed).exec (after f ins earlier p)).1 = .error fault ∧
    id ∈ (after f ins (earlier ++ [failed]) p).1.stack

theorem LeftOpen.visit {calls : List Call} {p : StructuralValidator × σ} {roots : List NodeId}
    {id : NodeId} (h : LeftOpen f ins calls p roots id) (root : NodeId) :
    LeftOpen f ins (calls ++ [.visit root]) p (roots ++ [root]) id := by
  obtain ⟨earlier, failed, fault, hcalls, hfails, hid⟩ := h
  exact ⟨earlier, failed, fault, by simp [hcalls], hfails, hid⟩

/-- What is known of a validator after some calls: every node in progress was left so
by a failed call, and what was reported are visits that came upon such nodes. -/
structure Traced (f : Forest) (ins : Inspector σ) (calls : List Call) (p : StructuralValidator × σ)
    (v : StructuralValidator) : Prop where
  tracked : Tracked v
  counted : v.structural.length = v.cycles.length
  left_open : ∀ id ∈ v.stack, ∃ roots, LeftOpen f ins calls p roots id
  reported : ∀ cycle ∈ v.cycles, ∃ id roots, roots ≠ [] ∧ cycle.head? = some id ∧
    LeftOpen f ins calls p roots id

theorem traced_empty (f : Forest) (ins : Inspector σ) (calls : List Call)
    (p : StructuralValidator × σ) : Traced f ins calls p {} :=
  ⟨⟨fun id => by simp [mark?], .nil⟩, rfl, fun _ hid => (nomatch hid), fun _ hc => (nomatch hc)⟩

/-- A walk that fails leaves open what it adds to the stack. -/
theorem traced_of_walked {calls : List Call} {call : Call} {p q r : StructuralValidator × σ}
    {out : Except Fault Unit} {root : NodeId}
    (acyclic : ∀ n, ¬ Relation.TransGen f.Holds n n)
    (hrun : (perform f ins call).exec (after f ins calls p) = (out, r))
    (hwalk : Walked f ins [root] q out r) (tracked : Tracked q.1)
    (counted : q.1.structural.length = q.1.cycles.length)
    (hleft : ∀ id ∈ q.1.stack, ∃ roots, roots ≠ [] ∧ LeftOpen f ins (calls ++ [call]) p roots id)
    (hold : ∀ cycle ∈ q.1.cycles, ∃ id roots, roots ≠ [] ∧ cycle.head? = some id ∧
      LeftOpen f ins (calls ++ [call]) p roots id) :
    Traced f ins (calls ++ [call]) p r.1 := by
  have hout := hwalk.outcome acyclic tracked.resumes (fun _ _ top ht => (nomatch ht))
  obtain ⟨more, hmore, hnone⟩ := hout.resumes
  refine ⟨hmore.tracked, hwalk.length_structural counted, fun id hid => ?_, fun cycle hc => ?_⟩
  · rw [hmore.stack, List.nil_append] at hid
    rcases List.mem_append.1 hid with hbefore | hadded
    · obtain ⟨roots, -, hopen⟩ := hleft id hbefore
      exact ⟨roots, hopen⟩
    · rcases out with fault | _
      · refine ⟨[], calls, call, fault, rfl, by rw [hrun], ?_⟩
        rw [after_concat, hrun, hmore.stack]
        exact List.mem_append_right _ hadded
      · rw [hnone rfl] at hadded
        cases hadded
  · rcases hout.reported cycle hc with hbefore | ⟨id, hid, hhead⟩
    · exact hold cycle hbefore
    · obtain ⟨roots, hroots, hopen⟩ := hleft id hid
      exact ⟨id, roots, hroots, hhead, hopen⟩

/-- One more call keeps the account of the calls. -/
theorem Traced.perform {calls : List Call} {p : StructuralValidator × σ} (call : Call)
    (acyclic : ∀ n, ¬ Relation.TransGen f.Holds n n)
    (h : Traced f ins calls p (after f ins calls p).1) :
    Traced f ins (calls ++ [call]) p (after f ins (calls ++ [call]) p).1 := by
  rw [after_concat]
  cases call with
  | clear => exact traced_empty f ins _ p
  | validate root =>
    have hrun := exec_perform_validate f ins root (after f ins calls p)
    have hwalk := visit_walked f ins root ({}, (after f ins calls p).2)
    obtain ⟨tracked, counted, -, -⟩ := traced_empty f ins calls p
    rw [hrun]
    exact traced_of_walked acyclic hrun hwalk tracked counted
      (fun _ hid => (nomatch hid)) (fun _ hc => (nomatch hc))
  | visit root =>
    have hwalk := visit_walked f ins root (after f ins calls p)
    refine traced_of_walked acyclic rfl hwalk h.tracked h.counted (fun id hid => ?_) (fun cycle hc => ?_)
    · obtain ⟨roots, hopen⟩ := h.left_open id hid
      exact ⟨roots ++ [root], by simp, hopen.visit root⟩
    · obtain ⟨id, roots, -, hhead, hopen⟩ := h.reported cycle hc
      exact ⟨id, roots ++ [root], by simp, hhead, hopen.visit root⟩

theorem traced_after (ins : Inspector σ) (acyclic : ∀ n, ¬ Relation.TransGen f.Holds n n)
    (calls : List Call) (s : σ) :
    Traced f ins calls ({}, s) (after f ins calls ({}, s)).1 := by
  induction calls using List.reverseRecOn with
  | nil => exact traced_empty f ins [] ({}, s)
  | append_singleton calls call ih => exact ih.perform call acyclic

/-- On a graph without cycles a validator that begins cleared reports a cycle only after
a failed call that nothing but visits followed, at least one of them: the reported path
starts at a node which that call left in progress. Otherwise, so whenever the call after a
failed one clears or validates, there are no paths and no structural findings. -/
theorem false_cycles_start_where_a_call_failed (acyclic : ∀ n, ¬ Relation.TransGen f.Holds n n)
    (calls : List Call) (s : σ) :
    let v := (after f ins calls ({}, s)).1
    v.structural.length = v.cycles.length ∧ ∀ cycle ∈ v.cycles, ∃ id earlier failed fault roots,
      cycle.head? = some id ∧ roots ≠ [] ∧ calls = earlier ++ failed :: roots.map .visit ∧
      ((perform f ins failed).exec (after f ins earlier ({}, s))).1 = .error fault ∧
      id ∈ (after f ins (earlier ++ [failed]) ({}, s)).1.stack := by
  intro v
  have h := traced_after ins acyclic calls s
  refine ⟨h.counted, fun cycle hc => ?_⟩
  obtain ⟨id, roots, hroots, hhead, earlier, failed, fault, hcalls, hfails, hid⟩ := h.reported cycle hc
  exact ⟨id, earlier, failed, fault, roots, hhead, hroots, hcalls, hfails, hid⟩

namespace Lone

/-- A single node of a kind without fields. -/
def kind : Kind :=
  { id := ⟨0⟩, name := "Item", strategy := .standard, table := [], families := [], displayName := none
    poolCategory := none }

def forest : Forest := { nodes := #[{ span := .empty, shape := .schema kind [] }] }

/-- The node's check fails. -/
def failing : Inspector Unit :=
  { check := fun _ => Act.hostFault "no check", onNode := fun _ _ => pure (), onCycle := fun _ => pure () }

theorem acyclic (n : NodeId) : ¬ Relation.TransGen forest.Holds n n := by
  intro hcycle
  obtain ⟨b, hb, -⟩ := Relation.TransGen.head'_iff.1 hcycle
  have hnone : forest.children n = [] := by
    rcases n with ⟨_ | i⟩
    · rfl
    · exact Forest.children_eq_nil (Nat.succ_le_succ (Nat.zero_le i))
  rw [Forest.Holds, hnone] at hb
  cases hb

/-- Two visits of a node whose check fails report a cycle, where no node leads anywhere. -/
theorem visit_twice_reports_a_cycle : (∀ n, ¬ Relation.TransGen forest.Holds n n) ∧
    let v := (after forest failing [.visit ⟨0⟩, .visit ⟨0⟩] ({}, ())).1
    v.cycles = [[⟨0⟩, ⟨0⟩]] ∧ v.structural.length = 1 :=
  ⟨acyclic, rfl, rfl⟩

/-- The first of the two visits failed and left its node in progress. -/
theorem false_cycle_of_failed_visit : ∃ id earlier failed fault roots,
    [(⟨0⟩ : NodeId), ⟨0⟩].head? = some id ∧ roots ≠ [] ∧
    [Call.visit ⟨0⟩, .visit ⟨0⟩] = earlier ++ failed :: roots.map .visit ∧
    ((perform forest failing failed).exec (after forest failing earlier ({}, ()))).1 = .error fault ∧
    id ∈ (after forest failing (earlier ++ [failed]) ({}, ())).1.stack :=
  (false_cycles_start_where_a_call_failed acyclic [.visit ⟨0⟩, .visit ⟨0⟩] ()).2 _ List.mem_cons_self

end Lone

end SyntaxForest.StructuralValidator
