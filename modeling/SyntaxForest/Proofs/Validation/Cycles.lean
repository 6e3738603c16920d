import SyntaxForest.Proofs.Validation.Findings
/-!
# No cycle is missed

`validate_finds_cycles`: a validation reports nothing only where there is no
cycle, and without the closing edges of the reported paths there is none left.

This rests on the order in which the walk is done with nodes: but for closing
edges, a node leads to nodes that were done before it (`Explored`). For a child
met while in progress, as many closing edges are reported as the child is held.
-/

namespace SyntaxForest.StructuralValidator

variable {σ : Type} {f : Forest} {ins : Inspector σ} {root : NodeId}

/-! ## Closing edges -/

/-- The edge that closes a reported path: from its last but one node to its last. -/
def closingEdge? (path : List NodeId) : Option (NodeId × NodeId) :=
  match path.reverse with
  | last :: before :: _ => some (before, last)
  | _ => none

/-- The closing edges of some paths, one for each. -/
def closingEdges (paths : List (List NodeId)) : List (NodeId × NodeId) := paths.filterMap closingEdge?

/-- What is left of a forest's links when each given edge is deleted once: a node
still holds another one if it held it more often. -/
def HoldsWithout (f : Forest) (edges : List (NodeId × NodeId)) (a b : NodeId) : Prop :=
  edges.count (a, b) < (f.children a).count b

theorem HoldsWithout.holds {edges : List (NodeId × NodeId)} {a b : NodeId}
    (h : HoldsWithout f edges a b) : f.Holds a b :=
  List.count_pos_iff.1 (Nat.zero_lt_of_lt h)

theorem HoldsWithout.of_append {edges more : List (NodeId × NodeId)} {a b : NodeId}
    (h : HoldsWithout f (edges ++ more) a b) : HoldsWithout f edges a b := by
  simp only [HoldsWithout, List.count_append] at h ⊢
  omega

/-- The edge a report adds: from the innermost node in progress to the repeated one. -/
theorem closingEdges_addCycle {v : StructuralValidator} {id top : NodeId} (hid : id ∈ v.stack)
    (ht : v.stack.getLast? = some top) :
    closingEdges (v.addCycle f id (v.cyclePath id)).cycles = closingEdges v.cycles ++ [(top, id)] := by
  obtain ⟨above, steps, hs, hp⟩ := cyclePath_eq hid
  have hlast : (id :: steps).getLast? = some top := by
    rw [hs, List.getLast?_append] at ht
    simpa using ht
  obtain ⟨front, hfront⟩ := List.getLast?_eq_some_iff.1 hlast
  have hedge : closingEdge? (v.cyclePath id) = some (top, id) := by
    rw [hp, hfront]
    simp [closingEdge?]
  simp [closingEdges, addCycle, hedge]

/-- Reports are only ever added. -/
theorem Walked.cycles_append {ids : List NodeId} {p q : StructuralValidator × σ} {out : Except Fault Unit}
    (h : Walked f ins ids p out q) : ∃ more, q.1.cycles = p.1.cycles ++ more := by
  induction h with
  | nil => exact ⟨[], by simp⟩
  | @closes id _ p _ _ _ _ hr _ ih =>
    obtain ⟨more, hmore⟩ := ih
    rw [addCycle_of_reportCycle hr] at hmore
    exact ⟨p.1.cyclePath id :: more, by rw [hmore]; simp [addCycle]⟩
  | closesFails _ hr => exact ⟨_, by rw [addCycle_of_reportCycle hr]; rfl⟩
  | skips _ _ ih => exact ih
  | enters _ hc _ _ ihb ihr =>
    obtain ⟨ds, hds⟩ := collect_of_runCheck hc
    obtain ⟨below, hbelow⟩ := ihb
    obtain ⟨more, hmore⟩ := ihr
    rw [hds] at hbelow
    refine ⟨below ++ more, ?_⟩
    rw [hmore, ← List.append_assoc]
    exact congrArg (· ++ more) hbelow
  | checkFails _ hc =>
    obtain ⟨ds, hds⟩ := collect_of_runCheck hc
    exact ⟨[], by rw [hds]; simp [collect, enter]⟩
  | belowFails _ hc _ ihb =>
    obtain ⟨ds, hds⟩ := collect_of_runCheck hc
    obtain ⟨below, hbelow⟩ := ihb
    rw [hds] at hbelow
    exact ⟨below, hbelow⟩

theorem Walked.count_closingEdges_le {ids : List NodeId} {p q : StructuralValidator × σ}
    {out : Except Fault Unit} (h : Walked f ins ids p out q) (e : NodeId × NodeId) :
    (closingEdges p.1.cycles).count e ≤ (closingEdges q.1.cycles).count e := by
  obtain ⟨more, hmore⟩ := h.cycles_append
  simp [hmore, closingEdges, List.filterMap_append, List.count_append]

/-! ## Nodes the walk is done with -/

/-- Nodes the walk is done with, the last one first. -/
def finished (v : StructuralValidator) : List NodeId :=
  (v.marks.filter (·.2 == .done)).map (·.1)

theorem mem_finished {v : StructuralValidator} {id : NodeId} (h : v.mark? id = some .done) :
    id ∈ v.finished := by
  obtain ⟨m, hm, hdone⟩ := Option.map_eq_some_iff.1 h
  have hid : m.1 = id := by simpa using List.find?_some hm
  exact List.mem_map.2 ⟨m, List.mem_filter.2 ⟨List.mem_of_find?_eq_some hm, by simp [hdone]⟩, hid⟩

/-- Done nodes stay done. -/
theorem Walked.done {ids : List NodeId} {p q : StructuralValidator × σ} {out : Except Fault Unit}
    (h : Walked f ins ids p out q) {id : NodeId} (hp : p.1.mark? id = some .done) :
    q.1.mark? id = some .done := by
  induction h with
  | nil => exact hp
  | closes _ hr _ ih => exact ih (by simpa [addCycle_of_reportCycle hr] using hp)
  | closesFails _ hr => simpa [addCycle_of_reportCycle hr] using hp
  | skips _ _ ih => exact ih hp
  | @enters x _ _ _ _ _ _ hm hc _ _ ihb ihr =>
    obtain ⟨ds, hds⟩ := collect_of_runCheck hc
    have hx : x ≠ id := by rintro rfl; rw [hm] at hp; cases hp
    have hb := ihb (by rw [hds, mark?_collect, mark?_enter, if_neg hx]; exact hp)
    exact ihr (by rw [mark?_leave, if_neg hx]; exact hb)
  | @checkFails x _ _ _ _ hm hc =>
    obtain ⟨ds, hds⟩ := collect_of_runCheck hc
    have hx : x ≠ id := by rintro rfl; rw [hm] at hp; cases hp
    rw [hds, mark?_collect, mark?_enter, if_neg hx]
    exact hp
  | @belowFails x _ _ _ _ _ hm hc _ ihb =>
    obtain ⟨ds, hds⟩ := collect_of_runCheck hc
    have hx : x ≠ id := by rintro rfl; rw [hm] at hp; cases hp
    exact ihb (by rw [hds, mark?_collect, mark?_enter, if_neg hx]; exact hp)

/-- Every node walked from is done afterwards, or it was in progress and as many
closing edges to it are reported as it was met. -/
theorem Walked.done_or_closed {ids : List NodeId} {p q : StructuralValidator × σ} {out : Except Fault Unit}
    (h : Walked f ins ids p out q) (hout : out = .ok ()) (ho : InOrder f root p.1)
    (ha : Ahead f root p.1 ids) {id : NodeId} (hid : id ∈ ids) :
    q.1.mark? id = some .done ∨ id ∈ p.1.stack ∧ ∀ top ∈ p.1.stack.getLast?,
      (closingEdges p.1.cycles).count (top, id) + ids.count id ≤
        (closingEdges q.1.cycles).count (top, id) := by
  induction h with
  | nil => cases hid
  | @closes x ids p q out r hm hr hw ih =>
    have hq := addCycle_of_reportCycle hr
    have hstack : q.1.stack = p.1.stack := by rw [hq]; rfl
    have hx := (ho.on_stack x).2 hm
    by_cases hrest : id ∈ ids
    · refine (ih hout (hq ▸ ho.addCycle _ _) (ha.tail hstack) hrest).imp_right (fun ⟨hmem, hcount⟩ => ?_)
      refine ⟨hstack ▸ hmem, fun top ht => ?_⟩
      have := hcount top (hstack ▸ ht)
      rw [hq, closingEdges_addCycle hx ht, List.count_append] at this
      by_cases hxid : x = id
      · subst hxid; simp at this ⊢; omega
      · simp [hxid] at this ⊢; omega
    · obtain rfl : id = x := (List.mem_cons.1 hid).resolve_right hrest
      refine .inr ⟨hx, fun top ht => ?_⟩
      have := hw.count_closingEdges_le (top, id)
      rw [hq, closingEdges_addCycle hx ht, List.count_append] at this
      simpa [List.count_eq_zero_of_not_mem hrest] using this
  | @skips x ids p out r hm hw ih =>
    by_cases hxid : x = id
    · subst hxid; exact .inl (hw.done hm)
    · have hrest := (List.mem_cons.1 hid).resolve_left (Ne.symm hxid)
      simpa [hxid] using ih hout ho (ha.tail rfl) hrest
  | @enters x ids p q r out t hm hc hbelow hw ihb ihr =>
    by_cases hxid : x = id
    · subst hxid; exact .inl (hw.done (by rw [mark?_leave, if_pos rfl]))
    · have hrest := (List.mem_cons.1 hid).resolve_left (Ne.symm hxid)
      have hfirst : Walked f ins [x] p (.ok ()) (r.1.leave x, r.2) := .enters hm hc hbelow .nil
      obtain ⟨hor, har, hleft⟩ := ho.after_first ha hfirst
      refine (ihr hout hor har hrest).imp_right (fun ⟨hmem, hcount⟩ => ?_)
      refine ⟨hleft ▸ hmem, fun top ht => ?_⟩
      have h1 := hcount top (hleft ▸ ht)
      have h2 := hfirst.count_closingEdges_le (top, id)
      simp [hxid]
      omega
  | closesFails => cases hout
  | checkFails => cases hout
  | belowFails => cases hout

/-- What the walk knows of the nodes it is done with: but for closing edges they
lead to nodes done before, and all they lead to is done or in progress. -/
structure Explored (f : Forest) (v : StructuralValidator) : Prop where
  settled : Settled (HoldsWithout f (closingEdges v.cycles)) v.finished
  covered : ∀ a ∈ v.finished, ∀ b, f.Holds a b → b ∈ v.finished ∨ b ∈ v.stack

theorem Walked.explored {ids : List NodeId} {p q : StructuralValidator × σ} {out : Except Fault Unit}
    (h : Walked f ins ids p out q) (hout : out = .ok ()) (ho : InOrder f root p.1)
    (ha : Ahead f root p.1 ids) (he : Explored f p.1) : Explored f q.1 := by
  induction h with
  | nil => exact he
  | @closes x ids p q out r hm hr hw ih =>
    have hq := addCycle_of_reportCycle hr
    refine ih hout (hq ▸ ho.addCycle _ _) (ha.tail (by rw [hq]; rfl)) ?_
    rw [hq]
    refine ⟨he.settled.mono (fun a b hab => ?_), he.covered⟩
    simp only [addCycle, closingEdges, List.filterMap_append] at hab
    exact hab.of_append
  | skips _ _ ih => exact ih hout ho (ha.tail rfl) he
  | @enters x ids p q r out t hm hc hbelow hw ihb ihr =>
    obtain ⟨ds, hds⟩ := collect_of_runCheck hc
    obtain ⟨hoq, haq, hqs⟩ := ho.enters ha hm hc
    have heq : Explored f q.1 := by
      rw [hds]
      exact ⟨he.settled, fun a hfa b hab => (he.covered a hfa b hab).imp_right (List.mem_append_left _)⟩
    have her := ihb rfl hoq haq heq
    obtain ⟨hor, hstack⟩ := hbelow.inOrder rfl hoq haq
    obtain ⟨hleft, hahead, hback⟩ := ho.after_first ha (.enters hm hc hbelow .nil)
    refine ihr hout hleft hahead ⟨⟨fun b hb => ?_, her.settled⟩, fun a hfa b hab => ?_⟩
    · -- a child in progress is met as often as it is held, so every edge to it is closing
      rcases hbelow.done_or_closed rfl hoq haq hb.holds with hdone | ⟨-, hcount⟩
      · exact mem_finished hdone
      · have hmet := hcount x (by rw [hqs]; simp)
        have hkept : (closingEdges r.1.cycles).count (x, b) < (f.children x).count b := hb
        omega
    · have hstill : ∀ b, b ∈ r.1.finished ∨ b ∈ r.1.stack →
          b ∈ (r.1.leave x).finished ∨ b ∈ (r.1.leave x).stack := by
        rintro b (hb | hb)
        · exact .inl (List.mem_cons_of_mem _ hb)
        · rw [hstack, hqs] at hb
          rcases List.mem_append.1 hb with hb | hb
          · exact .inr (hback ▸ hb)
          · exact .inl (by rw [List.mem_singleton.1 hb]; exact List.mem_cons_self ..)
      apply hstill
      rcases List.mem_cons.1 hfa with rfl | hfa
      · rcases hbelow.done_or_closed rfl hoq haq hab with hdone | ⟨hmem, -⟩
        · exact .inl (mem_finished hdone)
        · exact .inr (hstack ▸ hmem)
      · exact her.covered a hfa b hab
  | closesFails => cases hout
  | checkFails => cases hout
  | belowFails => cases hout

/-- A validation ends on every graph, whatever its validator was used for before.
Unless a check or a listener fails, it reports nothing exactly where no cycle can
be reached from the root, and each node within reach is on no cycle once the
closing edge of every reported path is deleted. -/
theorem validate_finds_cycles (f : Forest) (ins : Inspector σ) (root : NodeId)
    (p : StructuralValidator × σ) :
    ∃ out w s, Walked f ins [root] ({}, p.2) out (w, s) ∧
      (validate f ins root).exec p = (out.map (fun _ => w.findings), w, s) ∧
      match out with
      | .error fault => ins.Throws fault
      | .ok _ => (w.cycles = [] ↔ ¬ f.HasCycle root) ∧
          ∀ n, f.Reaches root n → ¬ Relation.TransGen (HoldsWithout f (closingEdges w.cycles)) n n := by
  have hwalk := visit_walked f ins root ({}, p.2)
  refine ⟨_, _, _, hwalk, exec_validate f ins root p, ?_⟩
  have hreal := (reportsReal_visit f ins root p.2).isCycle
  generalize (visit f ins root).exec ({}, p.2) = run at hwalk hreal ⊢
  obtain ⟨out, w, s⟩ := run
  cases out with
  | error fault => exact hwalk.throws rfl
  | ok _ =>
    have hexplored : Explored f w := hwalk.explored rfl inOrder_empty ahead_root
      ⟨trivial, by simp [finished]⟩
    obtain ⟨-, hstack⟩ := hwalk.inOrder rfl inOrder_empty ahead_root
    have hroot : root ∈ w.finished := by
      rcases hwalk.done_or_closed rfl inOrder_empty ahead_root (List.mem_cons_self ..) with hdone | ⟨hmem, -⟩
      · exact mem_finished hdone
      · cases hmem
    have hall : ∀ n, f.Reaches root n → n ∈ w.finished := by
      intro n hn
      induction hn with
      | refl => exact hroot
      | tail _ hstep ih => exact (hexplored.covered _ ih _ hstep).resolve_right (by rw [hstack]; simp)
    have hcut := fun n hn => hexplored.settled.acyclic (hall n hn)
    refine ⟨⟨?_, ?_⟩, hcut⟩
    · rintro hnone ⟨n, hn, hcycle⟩
      refine hcut n hn (Relation.TransGen.mono (fun a b hab => ?_) n n hcycle)
      have hcount : 0 < (f.children a).count b := List.count_pos_iff.2 hab
      have hedges : closingEdges w.cycles = [] := by rw [show w.cycles = [] from hnone]; rfl
      rw [HoldsWithout, hedges]
      exact hcount
    · intro hfree
      by_contra hsome
      obtain ⟨path, hpath⟩ := List.exists_mem_of_ne_nil _ hsome
      exact hfree (hreal path hpath).hasCycle

end SyntaxForest.StructuralValidator
