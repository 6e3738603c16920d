import SyntaxForest.Forest.Tour
import SyntaxForest.Proofs.Forest.Walks
/-!
# Level by level

The walk by levels takes nodes from a queue that grows while it is read. Where no cycle can
be reached the loop ends (`ends`); while it runs, whole levels have been visited and a part
of the next one, the rest of which waits before what the part holds (`InLevels`). So the
walk lists the levels from the top down, which is the walk with distances sorted by
distance, nodes at one distance left in their order: `levelOrder_is_breadth_first`.
-/

namespace SyntaxForest

/-! ## Sorting by a key with few values -/

section Sorting
variable {α : Type} {key : α → Int} {l : List α}

/-- A list sorted by a key has the items with smaller keys first. -/
theorem filter_lt_succ_of_pairwise (h : l.Pairwise (fun a b => key a ≤ key b)) (n : Int) :
    l.filter (fun a => key a < n + 1) = l.filter (fun a => key a < n) ++ l.filter (fun a => key a = n) := by
  induction l with
  | nil => rfl
  | cons a rest ih =>
    obtain ⟨ha, hrest⟩ := List.pairwise_cons.1 h
    rcases lt_or_ge (key a) n with hlt | hge
    · have hlt' : key a < n + 1 := by omega
      simp only [List.filter_cons, decide_eq_true_eq, hlt, hlt', Int.ne_of_lt hlt, if_true, if_false, ih hrest,
        List.cons_append]
    · have hnone : rest.filter (fun b => key b < n) = [] := by
        simp only [List.filter_eq_nil_iff, decide_eq_true_eq, not_lt]
        exact fun b hb => hge.trans (ha b hb)
      have hih := ih hrest
      rw [hnone, List.nil_append] at hih
      have heq : key a < n + 1 ↔ key a = n := by omega
      simp only [List.filter_cons, decide_eq_true_eq, Int.not_lt.2 hge, heq, if_false, hnone, hih, List.nil_append]

/-- A list sorted by a key lists its items key by key. -/
theorem eq_flatMap_filter_of_pairwise (h : l.Pairwise (fun a b => key a ≤ key b)) {n : Nat}
    (hkeys : ∀ a ∈ l, 0 ≤ key a ∧ key a < n) :
    l = (List.range n).flatMap (fun d : Nat => l.filter (fun a => key a = d)) := by
  have hbelow : ∀ k : Nat, l.filter (fun a => key a < k) =
      (List.range k).flatMap (fun d : Nat => l.filter (fun a => key a = d)) := by
    intro k
    induction k with
    | zero =>
      -- no key is negative
      rw [List.filter_eq_nil_iff.2]
      · rfl
      · intro a ha
        simpa using (hkeys a ha).1
    | succ k ih =>
      rw [List.range_succ, List.flatMap_append, ← ih, Int.natCast_succ, filter_lt_succ_of_pairwise h]
      simp
  rw [← hbelow, List.filter_eq_self.2]
  intro a ha
  simpa using (hkeys a ha).2

theorem key_le_trans (a b c : α) (hab : decide (key a ≤ key b) = true) (hbc : decide (key b ≤ key c) = true) :
    decide (key a ≤ key c) = true := by
  simp only [decide_eq_true_eq] at *
  omega

theorem key_le_total (a b : α) : (decide (key a ≤ key b) || decide (key b ≤ key a)) = true := by
  simp only [Bool.or_eq_true, decide_eq_true_eq]
  omega

/-- Sorting leaves the items of one key in their order. -/
theorem filter_mergeSort (l : List α) (n : Int) :
    (l.mergeSort (fun a b => key a ≤ key b)).filter (fun a => key a = n) = l.filter (fun a => key a = n) := by
  have hsame : (l.filter (fun a => key a = n)).Pairwise (fun a b => decide (key a ≤ key b) = true) := by
    refine List.pairwise_of_forall_mem_list (fun a ha b hb => ?_)
    have hka := (List.mem_filter.1 ha).2
    have hkb := (List.mem_filter.1 hb).2
    simp only [decide_eq_true_eq] at hka hkb ⊢
    omega
  -- items of one key are sorted as they stand, so a stable sorting keeps them as a sublist
  have hsub := List.sublist_mergeSort key_le_trans key_le_total hsame List.filter_sublist
  have hsub' := hsub.filter (fun a => key a = n)
  rw [List.filter_filter] at hsub'
  simp only [Bool.and_self] at hsub'
  refine (hsub'.eq_of_length ?_).symm
  exact ((List.mergeSort_perm l _).filter (fun a => key a = n)).length_eq.symm

theorem mergeSort_eq_flatMap_filter {n : Nat} (hkeys : ∀ a ∈ l, 0 ≤ key a ∧ key a < n) :
    l.mergeSort (fun a b => key a ≤ key b) =
      (List.range n).flatMap (fun d : Nat => l.filter (fun a => key a = d)) := by
  have hsorted : (l.mergeSort (fun a b => key a ≤ key b)).Pairwise (fun a b => key a ≤ key b) :=
    (List.pairwise_mergeSort key_le_trans key_le_total l).imp of_decide_eq_true
  rw [eq_flatMap_filter_of_pairwise hsorted (fun a ha => hkeys a (List.mem_mergeSort.1 ha))]
  exact List.flatMap_congr (fun d _ => filter_mergeSort l d)

/-- Empty parts at the end add nothing. -/
theorem flatMap_range_of_nil {part : Nat → List α} {m n : Nat} (hmn : m ≤ n) (hnil : ∀ k, m ≤ k → part k = []) :
    (List.range n).flatMap part = (List.range m).flatMap part := by
  induction n, hmn using Nat.le_induction with
  | base => rfl
  | succ n hmn ih => rw [List.range_succ, List.flatMap_append, ih, List.flatMap_singleton, hnil n hmn, List.append_nil]

end Sorting

/-! ## Rows of a tree -/

namespace Tree

variable {α : Type}

/-- The nodes at a distance from the root, left to right. -/
def row : Nat → Tree α → List α
  | 0, t => [t.root]
  | d + 1, t => t.branches.flatMap (row d)

theorem le_of_mem_withDepth {start : Int} {t : Tree α} {p : Int × α} (hp : p ∈ t.withDepth start) :
    start ≤ p.1 := by
  refine induct (R := fun t => ∀ start, ∀ p ∈ t.withDepth start, start ≤ p.1) (fun a bs ih start p hp => ?_)
    t start p hp
  rw [withDepth, withDepthAll_eq] at hp
  rcases List.mem_cons.1 hp with rfl | hp
  · exact Int.le_refl _
  · obtain ⟨b, hb, hp⟩ := List.mem_flatMap.1 hp
    have := ih b hb (start + 1) p hp
    omega

/-- What the walk with distances reports at a distance is a row. -/
theorem filter_withDepth (start : Int) (d : Nat) (t : Tree α) :
    ((t.withDepth start).filter (fun p => p.1 = start + d)).map (·.2) = t.row d := by
  refine induct (R := fun t => ∀ (start : Int) (d : Nat),
    ((t.withDepth start).filter (fun p => p.1 = start + d)).map (·.2) = t.row d)
    (fun a bs ih start d => ?_) t start d
  rw [withDepth, withDepthAll_eq, List.filter_cons]
  cases d with
  | zero =>
    have hbelow : (bs.flatMap (withDepth (start + 1))).filter (fun p => p.1 = start + (0 : Nat)) = [] := by
      refine List.filter_eq_nil_iff.2 (fun p hp => ?_)
      obtain ⟨b, -, hp⟩ := List.mem_flatMap.1 hp
      have := le_of_mem_withDepth hp
      simp only [decide_eq_true_eq]
      omega
    rw [hbelow]
    simp [row, root]
  | succ d =>
    have hstart : start + ((d + 1 : Nat) : Int) = start + 1 + d := by omega
    have hne : start ≠ start + 1 + d := by omega
    simp only [hstart, hne, decide_false, Bool.false_eq_true, if_false, List.filter_flatMap, List.map_flatMap]
    rw [List.flatMap_congr (fun b hb => ih b hb (start + 1) d)]
    rfl

end Tree

namespace Forest

variable {f : Forest} {id a b : NodeId} {ids : List NodeId}

/-! ## Levels -/

/-- The nodes that the walk with distances reports at a distance, in the order of that walk. -/
def level (f : Forest) (id : NodeId) (d : Nat) : List NodeId :=
  ((f.withDepth 0 id).filter (fun p => p.1 = (d : Int))).map (·.2)

/-- The paths of a length from a node, each by the nodes on it: one for every place in
which each of them is held. -/
def paths (f : Forest) : (length : Nat) → NodeId → List (List NodeId)
  | 0, id => [[id]]
  | length + 1, id => (f.children id).flatMap (fun c => (f.paths length c).map (id :: ·))

theorem level_eq_row (f : Forest) (id : NodeId) (d : Nat) : f.level id d = (f.tree id).row d := by
  have hrow := Tree.filter_withDepth 0 d (f.tree id)
  rwa [Int.zero_add] at hrow

@[simp] theorem level_zero (f : Forest) (id : NodeId) : f.level id 0 = [id] := by
  rw [level_eq_row, Tree.row, root_tree]

/-- Levels further down begin with the children. -/
theorem level_succ_eq_children (acyclic : ¬ f.HasCycle id) (d : Nat) :
    f.level id (d + 1) = (f.children id).flatMap (fun c => f.level c d) := by
  rw [level_eq_row, tree_eq acyclic, Tree.row, Tree.branches, List.flatMap_map]
  exact List.flatMap_congr (fun c _ => (f.level_eq_row c d).symm)

/-- What the nodes of a level hold is the next level. -/
theorem level_succ (acyclic : ¬ f.HasCycle id) (d : Nat) :
    f.level id (d + 1) = (f.level id d).flatMap f.children := by
  induction d generalizing id with
  | zero => simp [level_succ_eq_children acyclic]
  | succ d ih =>
    rw [level_succ_eq_children acyclic, level_succ_eq_children acyclic, List.flatMap_assoc]
    exact List.flatMap_congr (fun c hc => ih (not_hasCycle_of_reaches acyclic (.single hc)))

theorem level_eq_nil (acyclic : ¬ f.HasCycle id) {d : Nat} (h : f.level id d = []) {k : Nat} (hk : d ≤ k) :
    f.level id k = [] := by
  induction k, hk using Nat.le_induction with
  | base => exact h
  | succ k _ ih => rw [level_succ acyclic, ih, List.flatMap_nil]

/-- No distance is greater than the depth. -/
theorem le_depth_of_mem_withDepth {p : Int × NodeId} (hp : p ∈ f.withDepth 0 id) : p.1 ≤ f.depth id := by
  have hle := (f.honest_tree id).le_depth hp
  rwa [Int.zero_add] at hle

theorem level_eq_nil_of_depth_lt {d : Nat} (h : f.depth id < d) : f.level id d = [] := by
  rw [level, List.map_eq_nil_iff, List.filter_eq_nil_iff]
  intro p hp
  have hle := le_depth_of_mem_withDepth hp
  simp only [decide_eq_true_eq]
  omega

/-- A level has the end of every path of its length, in order. -/
theorem map_getLast?_paths (acyclic : ¬ f.HasCycle id) (d : Nat) :
    (f.paths d id).map List.getLast? = (f.level id d).map some := by
  induction d generalizing id with
  | zero => simp [paths]
  | succ d ih =>
    rw [paths, level_succ_eq_children acyclic, List.map_flatMap, List.map_flatMap]
    refine List.flatMap_congr (fun c hc => ?_)
    have hends := ih (not_hasCycle_of_reaches acyclic (.single hc))
    calc ((f.paths d c).map (id :: ·)).map List.getLast?
      _ = ((f.paths d c).map List.getLast?).map (fun last => some (last.getD id)) := by
        simp [Function.comp_def, List.getLast?_cons]
      _ = (f.level c d).map some := by simp [hends]

/-! ## The loop -/

/-- The queue of a walk by levels: the nodes already visited, and those that wait behind them. -/
structure Queue where
  visited : List NodeId
  waiting : List NodeId

/-- One turn of the loop: the first node that waits is visited, and what it holds joins the
queue at its end. There is none when no node waits. -/
def Queue.turn? (f : Forest) (q : Queue) : Option Queue :=
  match q.waiting with
  | [] => none
  | a :: rest => some ⟨q.visited ++ [a], rest ++ f.children a⟩

def Queue.Turn (f : Forest) (q r : Queue) : Prop := q.turn? f = some r

/-- Where the loop stands: whole levels have been visited, and a part of the next one. The
rest of this level waits, and behind it what the visited part holds. -/
def Queue.InLevels (f : Forest) (id : NodeId) (q : Queue) : Prop :=
  ∃ d done rest, f.level id d = done ++ rest ∧ q.visited = (List.range d).flatMap (f.level id) ++ done ∧
    q.waiting = rest ++ done.flatMap f.children

theorem Queue.inLevels_first (f : Forest) (id : NodeId) : Queue.InLevels f id ⟨[], [id]⟩ :=
  ⟨0, [], [id], level_zero f id, rfl, rfl⟩

theorem Queue.InLevels.turn (acyclic : ¬ f.HasCycle id) {q r : Queue} (hq : q.InLevels f id)
    (hturn : q.Turn f r) : r.InLevels f id := by
  obtain ⟨visited, waiting⟩ := q
  obtain ⟨d, done, rest, hlevel, rfl, rfl⟩ := hq
  rcases rest with _ | ⟨a, rest⟩
  · -- the level is done, and the next one waits as a whole
    rw [List.append_nil] at hlevel
    have hnext : done.flatMap f.children = f.level id (d + 1) := by rw [level_succ acyclic, hlevel]
    simp only [Turn, turn?, List.nil_append, hnext] at hturn
    rcases hwaits : f.level id (d + 1) with _ | ⟨a, rest⟩
    · rw [hwaits] at hturn
      cases hturn
    · rw [hwaits] at hturn
      cases hturn
      exact ⟨d + 1, [a], rest, hwaits, by simp [List.range_succ, hlevel], by simp⟩
  · cases hturn
    exact ⟨d, done ++ [a], rest, by simp [hlevel], by simp, by simp⟩

theorem Queue.InLevels.run (acyclic : ¬ f.HasCycle id) {q r : Queue} (hq : q.InLevels f id)
    (hrun : Relation.ReflTransGen (Queue.Turn f) q r) : r.InLevels f id := by
  induction hrun with
  | refl => exact hq
  | tail _ hturn ih => exact ih.turn acyclic hturn

/-- The loop is over after as many levels as there are. -/
theorem Queue.InLevels.visited_eq (acyclic : ¬ f.HasCycle id) {visited : List NodeId}
    (h : Queue.InLevels f id ⟨visited, []⟩) :
    visited = (List.range (f.depth id + 1)).flatMap (f.level id) := by
  obtain ⟨d, done, rest, hlevel, rfl, hwaiting⟩ := h
  obtain ⟨rfl, hheld⟩ := List.append_eq_nil_iff.1 hwaiting.symm
  rw [List.append_nil] at hlevel
  have hlast : f.level id (d + 1) = [] := by rw [level_succ acyclic, hlevel, hheld]
  have hall : (List.range d).flatMap (f.level id) ++ done = (List.range (d + 1)).flatMap (f.level id) := by
    rw [List.range_succ, List.flatMap_append, List.flatMap_singleton, hlevel]
  rw [hall]
  rcases Nat.le_total (d + 1) (f.depth id + 1) with hle | hle
  · exact (flatMap_range_of_nil hle (fun k hk => level_eq_nil acyclic hlast hk)).symm
  · exact flatMap_range_of_nil hle (fun k hk => level_eq_nil_of_depth_lt hk)

/-- With each turn there is one node less in the unfoldings of those that wait, so the loop
ends. -/
theorem runs_to_queueOrder (acyclic : ∀ a ∈ ids, ¬ f.HasCycle a) (visited : List NodeId) :
    Relation.ReflTransGen (Queue.Turn f) ⟨visited, ids⟩
      ⟨visited ++ Tree.queueOrder (ids.map f.tree), []⟩ := by
  induction hsize : Tree.sizeAll (ids.map f.tree) using Nat.strong_induction_on generalizing ids visited with
  | _ size ih =>
    subst hsize
    rcases ids with _ | ⟨a, rest⟩
    · rw [List.map_nil, Tree.queueOrder, List.append_nil]
    · obtain ⟨ha, hrest⟩ := List.forall_mem_cons.1 acyclic
      have hthen : ∀ b ∈ rest ++ f.children a, ¬ f.HasCycle b := by
        intro b hb
        rcases List.mem_append.1 hb with hb | hb
        · exact hrest b hb
        · exact not_hasCycle_of_reaches ha (.single hb)
      have hless : Tree.sizeAll ((rest ++ f.children a).map f.tree) < Tree.sizeAll ((a :: rest).map f.tree) := by
        rw [List.map_append, Tree.sizeAll_append, List.map_cons, Tree.sizeAll, tree_eq ha, Tree.size]
        omega
      have horder : Tree.queueOrder ((a :: rest).map f.tree) =
          a :: Tree.queueOrder ((rest ++ f.children a).map f.tree) := by
        rw [List.map_cons, tree_eq ha, Tree.queueOrder, List.map_append]
      have hrun := ih _ hless hthen (visited ++ [a]) rfl
      rw [List.append_assoc, List.singleton_append, ← horder] at hrun
      exact .head rfl hrun

/-- What the walk by levels is. -/
structure BreadthFirst (f : Forest) (id : NodeId) : Prop where
  /-- The loop over the queue ends, and has visited these nodes. -/
  ends : Relation.ReflTransGen (Queue.Turn f) ⟨[], [id]⟩ ⟨f.levelOrder id, []⟩
  /-- A tour runs along them, in any monad, so also where it is stopped. -/
  tours : ∀ (M : Type → Type) [Monad M] [LawfulMonad M] (visit : NodeId → M Unit),
    f.forLevels visit id = (f.levelOrder id).forM visit
  sorted : f.levelOrder id = ((f.withDepth 0 id).mergeSort (fun p q => p.1 ≤ q.1)).map (·.2)
  levels : f.levelOrder id = (List.range (f.depth id + 1)).flatMap (f.level id)
  /-- A node is visited once for each path to it. -/
  paths : ∀ d, (f.paths d id).map List.getLast? = (f.level id d).map some

end Forest

open Forest

/-- Where no cycle can be reached, the walk by levels ends and visits the levels from the
node down, each from left to right: the walk with distances, sorted by distance. -/
theorem levelOrder_is_breadth_first {f : Forest} {id : NodeId} (acyclic : ¬ f.HasCycle id) :
    f.BreadthFirst id := by
  have hends : Relation.ReflTransGen (Queue.Turn f) ⟨[], [id]⟩ ⟨f.levelOrder id, []⟩ := by
    have honly : ∀ a ∈ [id], ¬ f.HasCycle a := by simpa using acyclic
    exact runs_to_queueOrder honly []
  have hlevels := ((Queue.inLevels_first f id).run acyclic hends).visited_eq acyclic
  have hkeys : ∀ p ∈ f.withDepth 0 id, 0 ≤ p.1 ∧ p.1 < (f.depth id + 1 : Nat) := by
    intro p hp
    have hge := Tree.le_of_mem_withDepth hp
    have hle := le_depth_of_mem_withDepth hp
    omega
  refine ⟨hends, fun M _ _ visit => f.forLevels_eq visit id, ?_, hlevels, map_getLast?_paths acyclic⟩
  rw [mergeSort_eq_flatMap_filter hkeys, List.map_flatMap, hlevels]
  rfl

/-- Below an item stand another one twice and a hand-written node that links to it, so the
nodes of that item are visited three times each, on two levels. -/
theorem Mixed.levels_of_nested_items : ¬ forest.HasCycle ⟨6⟩ ∧ forest.BreadthFirst ⟨6⟩ ∧
    forest.levelOrder ⟨6⟩ = [⟨6⟩, ⟨3⟩, ⟨5⟩, ⟨3⟩, ⟨0⟩, ⟨1⟩, ⟨2⟩, ⟨0⟩, ⟨3⟩, ⟨0⟩, ⟨1⟩, ⟨2⟩, ⟨0⟩,
      ⟨0⟩, ⟨1⟩, ⟨2⟩, ⟨0⟩] := by
  have breadth := levelOrder_is_breadth_first (acyclic ⟨6⟩)
  exact ⟨acyclic ⟨6⟩, breadth, breadth.levels.trans (by decide +kernel)⟩

end SyntaxForest
