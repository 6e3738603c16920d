import SyntaxForest.Forest.Tour
import SyntaxForest.Session.Perform
import SyntaxForest.Proofs.Forest.Grown
import SyntaxForest.Proofs.Forest.Unfolding
/-!
# Nodes and walks give the same answers

A node answers questions about what is below it by recursions of its own; walks and
searches along them are others, and the tours of a walk may be stopped at any point.
`node_answers_agree_with_walks`: on acyclic structures of any nodes, all of them follow
the links (`Unrolls`) and tell the same (`WalksAgree`).
-/

namespace SyntaxForest

/-! ## Collecting -/

section Running
variable {α β ε σ : Type}

theorem run_bind (act : ExceptT ε (StateM σ) α) (next : α → ExceptT ε (StateM σ) β) (s : σ) :
    (act >>= next).run.run s =
      match act.run.run s with
      | (.ok a, s) => (next a).run.run s
      | (.error e, s) => (.error e, s) := by
  rw [ExceptT.run_bind, StateT.run_bind]
  rcases act.run.run s with ⟨_ | _, _⟩ <;> rfl

theorem run_get (s : σ) : (get : ExceptT ε (StateM σ) σ).run.run s = (.ok s, s) := rfl

/-- An action that passes over some items runs along the others. -/
theorem forM_filter {M : Type → Type} [Monad M] [LawfulMonad M] (test : α → Bool) (act : α → M Unit)
    (l : List α) : l.forM (fun a => if test a then act a else pure ()) = (l.filter test).forM act := by
  induction l with
  | nil => rfl
  | cons a rest ih =>
    simp only [List.forM_eq_forM, List.forM_cons, List.filter_cons] at ih ⊢
    by_cases ha : test a = true
    · rw [if_pos ha, if_pos ha, ih]
      simp
    · rw [if_neg ha, if_neg ha, ih]
      simp

/-- As many items as wanted, or all. -/
def upTo (wanted : Option Nat) (l : List α) : List α :=
  match wanted with
  | some k => l.take k
  | none => l

variable (enough : ε) (wanted : Option Nat)

theorem run_collect (next : α) (seen : Array α) :
    (Forest.collect enough wanted next).run.run seen =
      if wanted.any (· ≤ seen.size) then (.error enough, seen) else (.ok (), seen.push next) := by
  rw [Forest.collect, run_bind, run_get]
  dsimp only
  split <;> rfl

/-- Collecting along a list adds as many items as are still wanted; it ends with the list
or because there is enough. -/
theorem run_forM_collect (next : β → α) (l : List β) (seen : Array α) :
    ∃ outcome, (outcome = .ok () ∨ outcome = .error enough) ∧
      (l.forM (fun b => Forest.collect enough wanted (next b))).run.run seen =
        (outcome, seen ++ (upTo (wanted.map (· - seen.size)) (l.map next)).toArray) := by
  induction l generalizing seen with
  | nil =>
    refine ⟨.ok (), .inl rfl, ?_⟩
    rcases wanted with _ | k <;> simp [upTo] <;> rfl
  | cons b rest ih =>
    rw [List.forM_eq_forM, List.forM_cons, run_bind, run_collect]
    by_cases hfull : wanted.any (· ≤ seen.size) = true
    · refine ⟨.error enough, .inr rfl, ?_⟩
      rcases wanted with _ | k
      · cases hfull
      · have hk : k - seen.size = 0 := Nat.sub_eq_zero_of_le (by simpa using hfull)
        simp [hfull, upTo, hk]
    · obtain ⟨outcome, hend, hrest⟩ := ih (seen.push (next b))
      refine ⟨outcome, hend, ?_⟩
      rw [if_neg hfull]
      refine hrest.trans ?_
      rcases wanted with _ | k
      · simp [upTo]
      · have hk : k - seen.size = (k - (seen.size + 1)) + 1 := by
          simp at hfull
          omega
        simp [upTo, hk]

theorem run_forM_collect_nil (next : β → α) (l : List β) :
    ∃ outcome, (outcome = .ok () ∨ outcome = .error enough) ∧
      (l.forM (fun b => Forest.collect enough wanted (next b))).run.run #[] =
        (outcome, (upTo wanted (l.map next)).toArray) := by
  have hrun := run_forM_collect enough wanted next l #[]
  rcases wanted with _ | k <;> simpa using hrun

end Running

/-- A watcher that never fails only collects. -/
theorem Session.look_eq_collect (wanted : Option Nat) (next : Answer) :
    look wanted 0 next = Forest.collect .enough wanted next := by
  apply ExceptT.ext
  apply StateT.ext
  intro seen
  rw [look, run_bind, run_collect]
  by_cases hfull : wanted.any (· ≤ seen.size) = true
  · rw [if_pos hfull]
  · have hsize : (seen.push next).size ≠ 0 := by simp
    rw [if_neg hfull]
    dsimp only
    rw [run_bind, run_get]
    dsimp only
    rw [if_neg hsize]
    rfl

namespace Forest

variable {f : Forest} {id : NodeId}

/-! ## Searches and lazy walks -/

theorem search_eq (f : Forest) (m : Matcher) (wanted : Option Nat) (id : NodeId) :
    f.search m wanted id = upTo wanted ((f.preorder id).filter (m.accepts f)) := by
  obtain ⟨outcome, -, hrun⟩ :=
    run_forM_collect_nil () wanted (fun n => n) ((f.preorder id).filter (m.accepts f))
  unfold search
  rw [forPreorder_eq, forM_filter, hrun, List.map_id']

theorem searchFirst?_eq (f : Forest) (m : Matcher) (id : NodeId) :
    f.searchFirst? m id = (f.preorder id).find? (m.accepts f) := by
  unfold searchFirst?
  rw [forPreorder_eq]
  induction f.preorder id with
  | nil => rfl
  | cons n rest ih =>
    rw [List.find?_cons, List.forM_eq_forM, List.forM_cons]
    cases hn : m.accepts f n with
    | false => exact ih
    | true => rfl

theorem walk_lazily (f : Forest) (wanted : Option Nat) (id : NodeId) :
    Session.walk f id (.lazily wanted) 0 = .walk (upTo wanted ((f.preorder id).map .node)) none := by
  obtain ⟨outcome, hend, hrun⟩ :=
    run_forM_collect_nil Session.WalkEnd.enough wanted Answer.node (f.preorder id)
  unfold Session.walk Session.tour
  simp only [Session.look_eq_collect, forPreorder_eq, hrun]
  rcases hend with rfl | rfl <;> rfl

/-! ## Following the links -/

/-- What walking a node's record gives, without the shortcut for leaf kinds. -/
def held (f : Forest) (id : NodeId) : List NodeId :=
  match (f.node? id).map Node.shape with
  | some (.schema kind fields) => kind.table.children fields
  | some (.graph _ links) => links
  | _ => []

theorem children_eq_held (f : Forest) (id : NodeId) : f.children id = f.held id := by
  unfold children held
  rcases f.node? id with _ | ⟨span, shape, parent⟩
  · rfl
  · rcases shape with ⟨kind, fields⟩ | _ | _
    · simp only [Option.map_some, Option.getD_some, Node.children]
      by_cases hleaf : (kind.isCompact && kind.isLeaf) = true
      · rw [if_pos hleaf]
        rw [Bool.and_eq_true] at hleaf
        exact (FieldTable.children_of_isLeaf hleaf.2 fields).symm
      · rw [if_neg hleaf]
    · rfl
    · rfl

/-- How the recursions go on below a node: each asks the children, without a shortcut. -/
structure Unrolls (f : Forest) (m : Matcher) (id : NodeId) : Prop where
  preorder : f.preorder id = id :: (f.held id).flatMap f.preorder
  postorder : f.postorder id = (f.held id).flatMap f.postorder ++ [id]
  withDepth : ∀ start,
    f.withDepth start id = (start, id) :: (f.held id).flatMap (f.withDepth (start + 1))
  isLeaf : f.isLeaf id = (f.held id).isEmpty
  depth : f.depth id = if f.held id = [] then 0 else ((f.held id).map f.depth).foldr max 0 + 1
  count : f.count id = ((f.held id).map f.count).sum + 1
  findAll : f.findAll m id = (if m.accepts f id then [id] else []) ++ (f.held id).flatMap (f.findAll m)
  findFirst : f.findFirst? m id =
    if m.accepts f id then some id else (f.held id).findSome? (f.findFirst? m)
  contains : f.contains m id = (f.findFirst? m id).isSome

theorem unrolls (acyclic : ¬ f.HasCycle id) (m : Matcher) : f.Unrolls m id := by
  have htree := tree_eq acyclic
  have hhonest := f.honest_tree id
  rw [htree] at hhonest
  have hleaf : f.isCompactLeaf id = true → f.children id = [] := children_of_isCompactLeaf
  rw [children_eq_held] at htree hhonest hleaf
  refine ⟨?_, ?_, fun start => ?_, ?_, ?_, ?_, ?_, ?_, ?_⟩
  · rw [preorder, htree, Tree.preorder, Tree.preorderAll_eq, List.flatMap_map]
    rfl
  · rw [postorder, htree, Tree.postorder, Tree.postorderAll_eq, List.flatMap_map]
    rfl
  · rw [withDepth, htree, Tree.withDepth, Tree.withDepthAll_eq, List.flatMap_map]
    rfl
  · rw [isLeaf_eq, children_eq_held]
  · rw [depth, htree, hhonest.depth_node, Tree.deepest_eq, List.map_map]
    simp only [List.map_eq_nil_iff]
    rfl
  · rw [count, htree, Tree.count, Tree.countAll_eq, List.map_map]
    by_cases hcompact : f.isCompactLeaf id = true
    · simp [hleaf hcompact]
    · rw [if_neg hcompact]
      rfl
  · rw [findAll, htree, Tree.findAll, Tree.findAllIn_eq, List.flatMap_map]
    by_cases hcompact : f.isCompactLeaf id = true
    · simp [hleaf hcompact]
    · rw [if_neg hcompact]
      rfl
  · rw [findFirst?, htree, Tree.findFirst?, Tree.findFirstIn?_eq, List.findSome?_map]
    by_cases hcompact : f.isCompactLeaf id = true
    · simp [hleaf hcompact]
    · rw [if_neg hcompact]
      rfl
  · exact f.contains_eq m id

/-- What the walks from a node and the node's own answers have in common, in terms of the
nodes visited in preorder. -/
structure WalksAgree (f : Forest) (m : Matcher) (id : NodeId) : Prop where
  /-- Tours run along the lists, in any monad, so also where they are stopped. -/
  tours : ∀ (M : Type → Type) [Monad M] [LawfulMonad M],
    (∀ visit : NodeId → M Unit, f.forPreorder visit id = (f.preorder id).forM visit) ∧
    (∀ visit : NodeId → M Unit, f.forPostorder visit id = (f.postorder id).forM visit) ∧
    (∀ visit : Int × NodeId → M Unit, f.forDepths visit 0 id = (f.withDepth 0 id).forM visit)
  lazily : ∀ wanted,
    Session.walk f id (.lazily wanted) 0 = .walk (upTo wanted ((f.preorder id).map .node)) none
  withDepth : (f.withDepth 0 id).map (·.2) = f.preorder id
  postorder : (f.postorder id).Perm (f.preorder id)
  count : f.count id = (f.preorder id).length
  depth : ((f.withDepth 0 id).map (·.1)).max? = some (f.depth id : Int)
  findAll : f.findAll m id = (f.preorder id).filter (m.accepts f)
  search : ∀ wanted, f.search m wanted id = upTo wanted ((f.preorder id).filter (m.accepts f))
  findFirst : f.findFirst? m id = (f.preorder id).find? (m.accepts f)
  searchFirst : f.searchFirst? m id = (f.preorder id).find? (m.accepts f)
  contains : f.contains m id = true ↔ ∃ n ∈ f.preorder id, m.accepts f n = true

theorem walksAgree (f : Forest) (m : Matcher) (id : NodeId) : f.WalksAgree m id where
  tours _ _ _ := ⟨fun visit => f.forPreorder_eq visit id, fun visit => f.forPostorder_eq visit id,
    fun visit => f.forDepths_eq visit 0 id⟩
  lazily wanted := f.walk_lazily wanted id
  withDepth := Tree.map_snd_withDepth 0 (f.tree id)
  postorder := Tree.postorder_perm (f.tree id)
  count := (f.honest_tree id).count_eq
  depth := (f.honest_tree id).max?_withDepth
  findAll := (f.honest_tree id).findAll_eq
  search wanted := f.search_eq m wanted id
  findFirst := (f.honest_tree id).findFirst?_eq
  searchFirst := f.searchFirst?_eq m id
  contains := by
    rw [contains, (f.honest_tree id).contains_eq, List.any_eq_true]
    rfl

end Forest

/-- On an acyclic structure of any mix of nodes, hand-written ones included, the recursions
of a node and of the walks each follow the links all the way, and they give the same
answers to every matcher. -/
theorem node_answers_agree_with_walks {f : Forest} {id : NodeId} (acyclic : ¬ f.HasCycle id)
    (m : Matcher) : f.Unrolls m id ∧ f.WalksAgree m id :=
  ⟨Forest.unrolls acyclic m, f.walksAgree m id⟩

/-- Links of the mixed forest lead to older nodes, also those of the hand-written node. -/
theorem Mixed.acyclic (a : NodeId) : ¬ forest.HasCycle a := by
  have hdown : ∀ i < 7, ∀ b ∈ forest.children ⟨i⟩, b.index < i := by decide
  refine Forest.not_hasCycle_of_rank NodeId.index (fun n _ b hb => ?_)
  exact hdown n.index (Forest.lt_size_of_holds hb) b hb

/-- An item, a hand-written node below it, and nodes of all strategies below that:
seventeen visits, six of them to one pooled literal. -/
theorem Mixed.answers_about_nested_items : ¬ forest.HasCycle ⟨6⟩ ∧
    (forest.Unrolls (.exactly lit) ⟨6⟩ ∧ forest.WalksAgree (.exactly lit) ⟨6⟩) ∧
    forest.count ⟨6⟩ = 17 ∧ forest.findAll (.exactly lit) ⟨6⟩ = List.replicate 6 ⟨0⟩ :=
  ⟨acyclic ⟨6⟩, node_answers_agree_with_walks (acyclic ⟨6⟩) (.exactly lit), by decide, by decide⟩

end SyntaxForest
