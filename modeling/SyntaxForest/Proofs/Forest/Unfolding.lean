import Mathlib.Data.Set.Card
import SyntaxForest.Forest.Walk
import SyntaxForest.Proofs.Forest.Links
import SyntaxForest.Proofs.Forest.Trees
/-!
# Unfolding without a cycle

Where nothing that can be reached is below itself, an unfolding as deep as the forest
is large is complete: it follows the links all the way (`tree_eq`). Each step down a
link leaves one node fewer to be reached, which is what bounds the depth. Dangling links
and hand-written nodes are covered.
-/

namespace SyntaxForest.Forest

variable {f : Forest} {a b id : NodeId}

/-- How many nodes of the forest a node reaches, itself included. -/
noncomputable def reach (f : Forest) (a : NodeId) : Nat := {i | i < f.size ∧ f.Reaches a ⟨i⟩}.ncard

theorem reachable_subset (f : Forest) (a : NodeId) :
    {i | i < f.size ∧ f.Reaches a ⟨i⟩} ⊆ ↑(Finset.range f.size) :=
  fun _ hi => Finset.mem_coe.2 (Finset.mem_range.2 hi.1)

theorem finite_reachable (f : Forest) (a : NodeId) : {i | i < f.size ∧ f.Reaches a ⟨i⟩}.Finite :=
  (Finset.range f.size).finite_toSet.subset (f.reachable_subset a)

theorem reach_le_size (f : Forest) (a : NodeId) : f.reach a ≤ f.size := by
  have hle := Set.ncard_le_ncard (f.reachable_subset a) (Finset.range f.size).finite_toSet
  rwa [Set.ncard_coe_finset, Finset.card_range] at hle

theorem lt_size_of_holds (h : f.Holds a b) : a.index < f.size := by
  by_contra hge
  rw [Holds, children_eq_nil (Nat.le_of_not_lt hge)] at h
  cases h

theorem children_of_reach_eq_zero (h : f.reach a = 0) : f.children a = [] := by
  refine children_eq_nil (Nat.le_of_not_lt (fun hlt => ?_))
  have hempty := (Set.ncard_eq_zero (f.finite_reachable a)).1 h
  exact Set.notMem_empty a.index (hempty ▸ ⟨hlt, .refl⟩)

theorem not_hasCycle_of_reaches (acyclic : ¬ f.HasCycle a) (h : f.Reaches a b) : ¬ f.HasCycle b := by
  rintro ⟨n, hn, hcycle⟩
  exact acyclic ⟨n, h.trans hn, hcycle⟩

/-- A child does not reach back, so it reaches less. -/
theorem reach_lt (acyclic : ¬ f.HasCycle a) (h : f.Holds a b) : f.reach b < f.reach a := by
  refine Set.ncard_lt_ncard ⟨fun i hi => ⟨hi.1, .head h hi.2⟩, fun hsub => ?_⟩ (f.finite_reachable a)
  have hback : f.Reaches b a := (hsub ⟨lt_size_of_holds h, .refl⟩).2
  exact acyclic ⟨a, .refl, .head' h hback⟩

/-- Steps beyond what a node reaches unfold nothing more. -/
theorem unfold_eq_unfold (acyclic : ¬ f.HasCycle a) {n m : Nat} (hn : f.reach a ≤ n)
    (hm : f.reach a ≤ m) : f.unfold n a = f.unfold m a := by
  induction n generalizing a m with
  | zero =>
    have hnil := children_of_reach_eq_zero (Nat.le_zero.1 hn)
    cases m <;> simp [unfold, hnil]
  | succ n ih =>
    cases m with
    | zero =>
      have hnil := children_of_reach_eq_zero (Nat.le_zero.1 hm)
      simp [unfold, hnil]
    | succ m =>
      rw [unfold, unfold]
      congr 1
      refine List.map_congr_left (fun b hb => ?_)
      have hlt := reach_lt acyclic hb
      exact ih (not_hasCycle_of_reaches acyclic (.single hb)) (by omega) (by omega)

theorem root_unfold (f : Forest) (steps : Nat) (id : NodeId) : (f.unfold steps id).root = id := by
  cases steps <;> rfl

@[simp] theorem root_tree (f : Forest) (id : NodeId) : (f.tree id).root = id := root_unfold f f.size id

/-- The tree of a node is the node over the trees of its children. -/
theorem tree_eq (acyclic : ¬ f.HasCycle id) :
    f.tree id = .node id ((f.children id).map f.tree) := by
  have hsize := f.reach_le_size id
  calc f.tree id = f.unfold (f.size + 1) id := unfold_eq_unfold acyclic hsize (by omega)
    _ = .node id ((f.children id).map f.tree) := rfl

/-- Where no cycle can be reached, what holds of all children of a node and carries
over to the node holds of it. -/
theorem induct_acyclic {P : NodeId → Prop}
    (step : ∀ a, ¬ f.HasCycle a → (∀ b ∈ f.children a, P b) → P a) (acyclic : ¬ f.HasCycle id) : P id := by
  induction hr : f.reach id using Nat.strong_induction_on generalizing id with
  | _ r ih =>
    subst hr
    exact step id acyclic
      (fun b hb => ih (f.reach b) (reach_lt acyclic hb) (not_hasCycle_of_reaches acyclic (.single hb)) rfl)

/-- A walk lists a node, then what it lists from each child. -/
theorem preorder_eq (acyclic : ¬ f.HasCycle id) :
    f.preorder id = id :: (f.children id).flatMap f.preorder := by
  rw [preorder, tree_eq acyclic, Tree.preorder, Tree.preorderAll_eq, List.flatMap_map]
  rfl

/-- A walk lists exactly what can be reached. -/
theorem mem_preorder_iff (acyclic : ¬ f.HasCycle id) : b ∈ f.preorder id ↔ f.Reaches id b := by
  refine induct_acyclic (P := fun a => b ∈ f.preorder a ↔ f.Reaches a b) (fun a ha ih => ?_) acyclic
  rw [preorder_eq ha, List.mem_cons, List.mem_flatMap, Reaches, Relation.ReflTransGen.cases_head_iff]
  exact or_congr eq_comm (exists_congr (fun c => and_congr_right (fun hc => ih c hc)))

/-- Links that only lead to nodes of a lower rank form no cycle. -/
theorem not_hasCycle_of_rank (rank : NodeId → Nat)
    (down : ∀ a, f.Reaches id a → ∀ b ∈ f.children a, rank b < rank a) : ¬ f.HasCycle id := by
  rintro ⟨n, hn, hcycle⟩
  have hlower : ∀ b, Relation.TransGen f.Holds n b → rank b < rank n := by
    intro b hb
    induction hb with
    | single hstep => exact down n hn _ hstep
    | tail hpath hstep ih => exact (down _ (hn.trans hpath.to_reflTransGen) _ hstep).trans ih
  exact Nat.lt_irrefl _ (hlower n hcycle)

/-! ## Shortcuts for leaves -/

/-- The leaf shortcut is taken by nodes that hold nothing. -/
theorem children_of_isCompactLeaf (h : f.isCompactLeaf id = true) : f.children id = [] := by
  unfold isCompactLeaf at h
  unfold children
  rcases hn : f.node? id with _ | n
  · rfl
  · simp only [hn, Option.map_some, Option.getD_some, Node.isCompactLeaf] at h ⊢
    unfold Node.children
    split <;> simp_all

theorem isLeaf_eq (f : Forest) (id : NodeId) : f.isLeaf id = (f.children id).isEmpty := by
  rw [isLeaf]
  by_cases hleaf : f.isCompactLeaf id = true
  · rw [children_of_isCompactLeaf hleaf]
    simp
  · simp [hleaf]

theorem honest_unfold (f : Forest) (steps : Nat) (id : NodeId) :
    (f.unfold steps id).All (Tree.Honest f.isCompactLeaf) := by
  induction steps generalizing id with
  | zero => exact .node (fun _ => rfl) (fun _ hb => nomatch hb)
  | succ steps ih =>
    refine .node (fun hleaf => ?_) (fun t ht => ?_)
    · rw [children_of_isCompactLeaf hleaf, List.map_nil]
    · obtain ⟨b, -, rfl⟩ := List.mem_map.1 ht
      exact ih b

theorem honest_tree (f : Forest) (id : NodeId) : (f.tree id).All (Tree.Honest f.isCompactLeaf) :=
  f.honest_unfold f.size id

theorem contains_eq (f : Forest) (m : Matcher) (id : NodeId) :
    f.contains m id = (f.findFirst? m id).isSome := by
  have hhonest := f.honest_tree id
  rw [contains, findFirst?, hhonest.contains_eq, hhonest.findFirst?_eq, List.isSome_find?]

end SyntaxForest.Forest
