import SyntaxForest.Proofs.Validation.Walk
/-!
# The stack of a walk

`InOrder` ties marks and stack together: the nodes in progress are the stack, one
below the other. `Walked.inOrder`: a walk that ends well keeps it and gives the
stack back as it was. What is cut out of such a stack is a cycle.
-/

namespace SyntaxForest.StructuralValidator

variable {σ : Type} {f : Forest} {ins : Inspector σ} {root : NodeId}

/-- The nodes in progress are those on the stack, each on it once. -/
structure Tracked (v : StructuralValidator) : Prop where
  on_stack : ∀ id, id ∈ v.stack ↔ v.mark? id = some .inProgress
  nodup : v.stack.Nodup

theorem Tracked.enter {v : StructuralValidator} (h : Tracked v) {id : NodeId}
    (hm : v.mark? id = none) : Tracked (v.enter id) := by
  have hnew : id ∉ v.stack := fun hid => by
    rw [h.on_stack, hm] at hid
    cases hid
  refine ⟨fun x => ?_, ?_⟩
  · rw [mark?_enter]
    by_cases hx : id = x
    · subst hx; simp [StructuralValidator.enter]
    · simp [StructuralValidator.enter, hx, Ne.symm hx, h.on_stack x]
  · refine List.nodup_append.2 ⟨h.nodup, by simp, fun a ha b hb hab => hnew ?_⟩
    rw [← List.mem_singleton.1 hb, ← hab]
    exact ha

theorem Tracked.leave {v : StructuralValidator} (h : Tracked v) {id : NodeId}
    {below : List NodeId} (hs : v.stack = below ++ [id]) : Tracked (v.leave id) := by
  have hstack : (v.leave id).stack = below := by simp [StructuralValidator.leave, hs]
  have hn := h.nodup
  rw [hs] at hn
  obtain ⟨hbelow, -, hapart⟩ := List.nodup_append.1 hn
  refine ⟨fun x => ?_, hstack ▸ hbelow⟩
  rw [hstack, mark?_leave]
  by_cases hx : id = x
  · subst hx
    simp only [if_true, Option.some.injEq, reduceCtorEq, iff_false]
    exact fun hid => hapart id hid id (by simp) rfl
  · rw [if_neg hx, ← h.on_stack x, hs]
    simp [Ne.symm hx]

/-- The stack has every node in progress once, each held by the one before it,
and all of them can be reached from the root. -/
structure InOrder (f : Forest) (root : NodeId) (v : StructuralValidator) : Prop where
  on_stack : ∀ id, id ∈ v.stack ↔ v.mark? id = some .inProgress
  nodup : v.stack.Nodup
  linked : v.stack.IsChain f.Holds
  reached : ∀ id ∈ v.stack, f.Reaches root id

/-- Nodes to walk from next: the innermost node in progress holds them. -/
def Ahead (f : Forest) (root : NodeId) (v : StructuralValidator) (ids : List NodeId) : Prop :=
  ∀ id ∈ ids, f.Reaches root id ∧ ∀ top ∈ v.stack.getLast?, f.Holds top id

theorem inOrder_empty : InOrder f root {} := by
  refine ⟨fun id => ?_, .nil, .nil, ?_⟩ <;> simp [mark?]

theorem InOrder.collect {v : StructuralValidator} (h : InOrder f root v) (ds : List Diagnostic) :
    InOrder f root (v.collect ds) :=
  ⟨h.on_stack, h.nodup, h.linked, h.reached⟩

theorem InOrder.addCycle {v : StructuralValidator} (h : InOrder f root v) (r : NodeId)
    (path : List NodeId) : InOrder f root (v.addCycle f r path) :=
  ⟨h.on_stack, h.nodup, h.linked, h.reached⟩

theorem InOrder.tracked {v : StructuralValidator} (h : InOrder f root v) : Tracked v :=
  ⟨h.on_stack, h.nodup⟩

theorem InOrder.enter {v : StructuralValidator} (h : InOrder f root v) {id : NodeId}
    (hm : v.mark? id = none) (hr : f.Reaches root id) (ht : ∀ top ∈ v.stack.getLast?, f.Holds top id) :
    InOrder f root (v.enter id) := by
  obtain ⟨hon, hnodup⟩ := h.tracked.enter hm
  refine ⟨hon, hnodup, ?_, ?_⟩
  · exact List.isChain_append.2 ⟨h.linked, .singleton id, by simpa using ht⟩
  · intro x hx
    rcases List.mem_append.1 hx with hx | hx
    · exact h.reached x hx
    · rw [List.mem_singleton.1 hx]; exact hr

theorem InOrder.leave {v : StructuralValidator} (h : InOrder f root v) {id : NodeId}
    {below : List NodeId} (hs : v.stack = below ++ [id]) : InOrder f root (v.leave id) := by
  have hstack : (v.leave id).stack = below := by simp [StructuralValidator.leave, hs]
  have hl := h.linked
  rw [hs] at hl
  obtain ⟨hon, hnodup⟩ := h.tracked.leave hs
  refine ⟨hon, hnodup, hstack ▸ hl.left_of_append, fun x hx => ?_⟩
  exact h.reached x (by rw [hs]; exact List.mem_append_left _ (hstack ▸ hx))

theorem Ahead.tail {v w : StructuralValidator} {id : NodeId} {ids : List NodeId}
    (h : Ahead f root v (id :: ids)) (hs : w.stack = v.stack) : Ahead f root w ids := by
  intro x hx
  rw [hs]
  exact h x (List.mem_cons_of_mem _ hx)

/-- When a node was begun with and checked, the walk goes on to what it holds. -/
theorem InOrder.enters {p q : StructuralValidator × σ} {id : NodeId} {ids : List NodeId}
    {out : Except Fault Unit} (ho : InOrder f root p.1) (ha : Ahead f root p.1 (id :: ids))
    (hm : p.1.mark? id = none)
    (hc : (ins.runCheck f StructuralValidator.collect id).exec (p.1.enter id, p.2) = (out, q)) :
    InOrder f root q.1 ∧ Ahead f root q.1 (f.children id) ∧ q.1.stack = p.1.stack ++ [id] := by
  obtain ⟨ds, hds⟩ := collect_of_runCheck hc
  obtain ⟨hreach, htop⟩ := ha id (List.mem_cons_self ..)
  have hstack : q.1.stack = p.1.stack ++ [id] := by rw [hds]; rfl
  refine ⟨hds ▸ (ho.enter hm hreach htop).collect ds, fun x hx => ⟨hreach.tail hx, fun top ht => ?_⟩, hstack⟩
  rw [hstack, List.getLast?_concat, Option.mem_some_iff] at ht
  exact ht ▸ hx

/-- A walk that ends well leaves marks and stack in order, and the stack as it was. -/
theorem Walked.inOrder {ids : List NodeId} {p q : StructuralValidator × σ} {out : Except Fault Unit}
    (h : Walked f ins ids p out q) (hout : out = .ok ()) (ho : InOrder f root p.1)
    (ha : Ahead f root p.1 ids) : InOrder f root q.1 ∧ q.1.stack = p.1.stack := by
  induction h with
  | nil => exact ⟨ho, rfl⟩
  | closes _ hr _ ih =>
    have hq := addCycle_of_reportCycle hr
    obtain ⟨h1, h2⟩ := ih hout (hq ▸ ho.addCycle _ _) (ha.tail (by rw [hq]; rfl))
    exact ⟨h1, by rw [h2, hq]; rfl⟩
  | skips _ _ ih => exact ih hout ho (ha.tail rfl)
  | @enters id ids p q r out t hm hc _ _ ihb ihr =>
    obtain ⟨hoq, haq, hqs⟩ := ho.enters ha hm hc
    obtain ⟨hor, hrs⟩ := ihb rfl hoq haq
    have hback : (r.1.leave id).stack = p.1.stack := by
      simp [StructuralValidator.leave, hrs, hqs]
    obtain ⟨h1, h2⟩ := ihr hout (hor.leave (hrs.trans hqs)) (ha.tail hback)
    exact ⟨h1, h2.trans hback⟩
  | closesFails => cases hout
  | checkFails => cases hout
  | belowFails => cases hout

/-- After the first of some nodes the walk goes on to the others. -/
theorem InOrder.after_first {p q : StructuralValidator × σ} {id : NodeId} {ids : List NodeId}
    (ho : InOrder f root p.1) (ha : Ahead f root p.1 (id :: ids)) (h : Walked f ins [id] p (.ok ()) q) :
    InOrder f root q.1 ∧ Ahead f root q.1 ids ∧ q.1.stack = p.1.stack := by
  obtain ⟨hoq, hqs⟩ := h.inOrder rfl ho (fun x hx => ha x (by simp_all))
  exact ⟨hoq, ha.tail hqs, hqs⟩

/-! ## Cutting out a cycle -/

/-- The path of a cycle: the stack from the repeated node on, and that node again. -/
theorem cyclePath_eq {v : StructuralValidator} {id : NodeId} (h : id ∈ v.stack) :
    ∃ above steps, v.stack = above ++ id :: steps ∧ v.cyclePath id = id :: steps ++ [id] := by
  rw [cyclePath]
  generalize v.stack = l at h ⊢
  induction l with
  | nil => cases h
  | cons a rest ih =>
    by_cases ha : a = id
    · subst ha
      exact ⟨[], rest, rfl, by simp⟩
    · obtain ⟨above, steps, hs, hp⟩ := ih ((List.mem_cons.1 h).resolve_left (Ne.symm ha))
      refine ⟨a :: above, steps, by simp [hs], ?_⟩
      rw [List.dropWhile_cons_of_pos (by simpa using ha)]
      exact hp

/-- A path that runs along links from a node within reach back to that node, with
no other node twice. -/
structure IsCycle (f : Forest) (root : NodeId) (path : List NodeId) : Prop where
  two_le : 2 ≤ path.length
  closed : path.head? = path.getLast?
  distinct : path.dropLast.Nodup
  linked : path.IsChain f.Holds
  reached : ∀ first ∈ path.head?, f.Reaches root first

theorem IsCycle.hasCycle {path : List NodeId} (h : IsCycle f root path) : f.HasCycle root := by
  match path, h with
  | [], h => exact absurd h.two_le (by simp)
  | [_], h => exact absurd h.two_le (by simp)
  | a :: b :: rest, h =>
    obtain ⟨hab, hrest⟩ := List.isChain_cons_cons.1 h.linked
    have hlast : a ∈ b :: rest := by
      have := h.closed
      simp only [List.head?_cons, List.getLast?_cons_cons] at this
      exact List.mem_of_getLast? this.symm
    exact ⟨a, h.reached a rfl, .head' hab (Forest.reaches_of_isChain hrest hlast)⟩

/-- Reaching a node in progress closes a cycle. -/
theorem InOrder.isCycle {v : StructuralValidator} (h : InOrder f root v) {id : NodeId}
    (hid : id ∈ v.stack) (ht : ∀ top ∈ v.stack.getLast?, f.Holds top id) :
    IsCycle f root (v.cyclePath id) := by
  obtain ⟨above, steps, hs, hp⟩ := cyclePath_eq hid
  have hn := h.nodup
  have hl := h.linked
  rw [hs] at hn hl ht
  rw [hp]
  refine ⟨by simp, ?_, ?_, ?_, ?_⟩
  · rw [List.getLast?_append]; rfl
  · rw [List.dropLast_concat]
    exact (List.nodup_append.1 hn).2.1
  · refine hl.right_of_append.append (.singleton id) (fun x hx y hy => ?_)
    obtain rfl : id = y := by simpa using hy
    exact ht x (by rw [List.getLast?_append, hx]; rfl)
  · intro first hf
    obtain rfl : id = first := by simpa using hf
    exact h.reached id hid

end SyntaxForest.StructuralValidator
