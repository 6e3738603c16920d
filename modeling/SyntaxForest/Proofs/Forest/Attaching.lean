import SyntaxForest.Proofs.Forest.Ancestry
/-!
# Attaching and detaching a tree

Attaching tells every node of a structure what holds it; detaching clears what was told.
Both go through the structure while they change it, but only parent links change, and the
way does not depend on them (`Relinked`): each is the recursion over what a node holds, as
`attachParents_eq` and `detachParents_eq` say. In a tree no node but a pooled one stands
in two places (`IsTree`), so no node is told twice, and afterwards every climb goes up the
way by which the node is reached: `attaching_is_exact`.
-/

namespace SyntaxForest

namespace Tree

/-- Every node but the root is where one step leads. -/
theorem preorder_eq_edges {α : Type} (t : Tree α) : t.preorder = t.root :: t.edges.map (·.2) := by
  refine induct (R := fun t => t.preorder = t.root :: t.edges.map (·.2)) (fun a bs ih => ?_) t
  rw [preorder, preorderAll_eq, root, edges, edgesFrom_eq, List.map_flatMap, List.flatMap_congr ih]
  rfl

end Tree

namespace Forest

variable {f g h : Forest} {kinds : List Kind} {a b c id n p q root : NodeId} {above : List NodeId}

/-! ## Forests that differ in parent links -/

/-- Only parent links may differ. -/
structure Relinked (f g : Forest) : Prop where
  size : g.size = f.size
  children : g.children = f.children
  isPooled : g.isPooled = f.isPooled

theorem Relinked.refl (f : Forest) : f.Relinked f := ⟨rfl, rfl, rfl⟩

theorem Relinked.trans (hf : f.Relinked g) (hg : g.Relinked h) : f.Relinked h :=
  ⟨hg.size.trans hf.size, hg.children.trans hf.children, hg.isPooled.trans hf.isPooled⟩

theorem Relinked.holds (h : f.Relinked g) : g.Holds = f.Holds := by
  funext a b
  rw [Holds, Holds, h.children]

theorem Relinked.hasCycle_iff (h : f.Relinked g) : g.HasCycle a ↔ f.HasCycle a := by
  rw [HasCycle, HasCycle, Reaches, Reaches, h.holds]

theorem Relinked.unfold (h : f.Relinked g) (steps : Nat) (a : NodeId) :
    g.unfold steps a = f.unfold steps a := by
  induction steps generalizing a with
  | zero => rfl
  | succ steps ih => rw [Forest.unfold, Forest.unfold, h.children, List.map_congr_left (fun c _ => ih c)]

theorem Relinked.tree (h : f.Relinked g) (a : NodeId) : g.tree a = f.tree a := by
  rw [Forest.tree, Forest.tree, h.size, h.unfold]

theorem Relinked.preorder (h : f.Relinked g) (a : NodeId) : g.preorder a = f.preorder a := by
  rw [Forest.preorder, Forest.preorder, h.tree]

theorem node?_setParent (f : Forest) (id : NodeId) (parent : Option NodeId) (other : NodeId) :
    (f.setParent id parent).node? other =
      if id = other ∧ f.isPooled id = false then (f.node? other).map (fun n => { n with parent })
      else f.node? other := by
  rw [setParent]
  rcases hpooled : f.isPooled id
  · simp [node?_update]
  · simp

theorem relinked_setParent (f : Forest) (id : NodeId) (parent : Option NodeId) :
    f.Relinked (f.setParent id parent) := by
  refine ⟨?_, funext (children_setParent f id parent), funext (fun other => ?_)⟩
  · rw [setParent]
    split
    · rfl
    · exact size_update f id _
  · rw [isPooled, isPooled, node?_setParent]
    split
    · rcases f.node? other with _ | n <;> rfl
    · rfl

/-! ## Telling many nodes -/

/-- Tell nodes their parents, one after the other. -/
def tell (f : Forest) (news : List (NodeId × Option NodeId)) : Forest :=
  news.foldl (fun f told => f.setParent told.1 told.2) f

theorem attachParents_eq_tell (f : Forest) (root : NodeId) :
    f.attachParents root = f.tell ((f.tree root).edges.map (fun e => (e.2, some e.1))) := by
  rw [attachParents, tell, List.foldl_map]

theorem detachParents_eq_tell (f : Forest) (root : NodeId) :
    f.detachParents root = f.tell ((f.preorder root).map (fun id => (id, none))) := by
  rw [detachParents, tell, List.foldl_map]

theorem relinked_tell (f : Forest) (news : List (NodeId × Option NodeId)) : f.Relinked (f.tell news) := by
  induction news generalizing f with
  | nil => exact .refl f
  | cons told rest ih => exact (relinked_setParent f told.1 told.2).trans (ih _)

/-- A node that is told nothing, or does not listen, stays as it is. -/
theorem node?_tell_of_untold {news : List (NodeId × Option NodeId)}
    (h : f.isPooled id = true ∨ ∀ told ∈ news, told.1 ≠ id) : (f.tell news).node? id = f.node? id := by
  induction news generalizing f with
  | nil => rfl
  | cons told rest ih =>
    have hfirst : (f.setParent told.1 told.2).node? id = f.node? id := by
      rw [node?_setParent, if_neg]
      rintro ⟨rfl, hlistens⟩
      rcases h with hpooled | hne
      · rw [hlistens] at hpooled
        cases hpooled
      · exact hne told (List.mem_cons_self ..) rfl
    rw [← hfirst]
    refine ih (h.imp (fun hpooled => ?_) (fun hne other hother => hne other (List.mem_cons_of_mem _ hother)))
    rwa [(relinked_setParent f told.1 told.2).isPooled]

/-- A node that is told the same each time remembers it. -/
theorem node?_tell_of_told {news : List (NodeId × Option NodeId)} {parent : Option NodeId}
    (hlistens : f.isPooled id = false) (htold : ∃ told ∈ news, told.1 = id)
    (hsame : ∀ told ∈ news, told.1 = id → told.2 = parent) :
    (f.tell news).node? id = (f.node? id).map (fun n => { n with parent }) := by
  induction news generalizing f with
  | nil =>
    obtain ⟨told, hmem, -⟩ := htold
    cases hmem
  | cons told rest ih =>
    have hlistens' : (f.setParent told.1 told.2).isPooled id = false := by
      rwa [(relinked_setParent f told.1 told.2).isPooled]
    have hfirst := node?_setParent f told.1 told.2 id
    by_cases hagain : ∃ other ∈ rest, other.1 = id
    · -- whatever it is told first, it is told again
      refine (ih hlistens' hagain (fun other hother => hsame other (List.mem_cons_of_mem _ hother))).trans ?_
      rw [hfirst]
      split
      · rw [Option.map_map]
        rfl
      · rfl
    · have hhead : told.1 = id := by
        obtain ⟨other, hother, heq⟩ := htold
        rcases List.mem_cons.1 hother with rfl | hrest
        · exact heq
        · exact absurd ⟨other, hrest, heq⟩ hagain
      refine (node?_tell_of_untold (.inr (fun other hother heq => hagain ⟨other, hother, heq⟩))).trans ?_
      rw [hfirst, if_pos ⟨hhead, by rwa [hhead]⟩, hsame told (List.mem_cons_self ..) hhead]

/-! ## Two recursions -/

theorem Relinked.attachParents (h : f.Relinked g) (a : NodeId) :
    g.attachParents a = g.tell ((f.tree a).edges.map (fun e => (e.2, some e.1))) := by
  rw [attachParents_eq_tell, h.tree]

theorem Relinked.detachParents (h : f.Relinked g) (a : NodeId) :
    g.detachParents a = g.tell ((f.preorder a).map (fun id => (id, none))) := by
  rw [detachParents_eq_tell, h.preorder]

/-- News that come in parts are told part by part, by any steps that tell these parts in
forests that differ in links only. -/
theorem tell_flatMap {ids : List NodeId} {part : NodeId → List (NodeId × Option NodeId)}
    {step : Forest → NodeId → Forest} (hstep : ∀ g, f.Relinked g → ∀ c, step g c = g.tell (part c))
    (hg : f.Relinked g) : g.tell (ids.flatMap part) = ids.foldl step g := by
  induction ids generalizing g with
  | nil => rfl
  | cons c rest ih =>
    rw [List.flatMap_cons, List.foldl_cons, hstep g hg c, tell, List.foldl_append]
    exact ih (hg.trans (relinked_tell g (part c)))

/-- Attaching tells each child in turn, and attaches it before the next one is told. -/
theorem attachParents_eq (acyclic : ¬ f.HasCycle root) : f.attachParents root =
    (f.children root).foldl (fun g c => (g.setParent c (some root)).attachParents c) f := by
  have hnews : (f.tree root).edges.map (fun e => (e.2, some e.1)) = (f.children root).flatMap
      (fun c => (c, some root) :: (f.tree c).edges.map (fun e => (e.2, some e.1))) := by
    rw [tree_eq acyclic, Tree.edges, Tree.edgesFrom_eq, List.map_flatMap, List.flatMap_map]
    simp only [List.map_cons, root_tree]
  rw [attachParents_eq_tell, hnews]
  refine tell_flatMap (fun g hg c => ?_) (.refl f)
  exact (hg.trans (relinked_setParent g c (some root))).attachParents c

/-- Detaching clears the link of a node, then detaches what it holds. -/
theorem detachParents_eq (acyclic : ¬ f.HasCycle root) :
    f.detachParents root = (f.children root).foldl Forest.detachParents (f.setParent root none) := by
  rw [detachParents_eq_tell, preorder_eq acyclic, List.map_cons, List.map_flatMap]
  exact tell_flatMap (fun g hg c => hg.detachParents c) (relinked_setParent f root none)

/-! ## Trees -/

/-- A finite tree: no way leads back to where it began, and no node but a pooled one stands
in two places. -/
structure IsTree (f : Forest) (root : NodeId) : Prop where
  acyclic : ¬ f.HasCycle root
  once : ((f.preorder root).filter (fun n => !f.isPooled n)).Nodup

/-- The steps of a walk are those from a node that can be reached to one that it holds. -/
theorem mem_edges_iff (acyclic : ¬ f.HasCycle root) :
    (p, n) ∈ (f.tree root).edges ↔ f.Reaches root p ∧ f.Holds p n := by
  refine induct_acyclic (P := fun a => (p, n) ∈ (f.tree a).edges ↔ f.Reaches a p ∧ f.Holds p n)
    (fun a ha ih => ?_) acyclic
  rw [tree_eq ha, Tree.edges, Tree.mem_edgesFrom, Reaches, Relation.ReflTransGen.cases_head_iff]
  simp only [List.mem_map, exists_exists_and_eq_and, root_tree]
  constructor
  · rintro ⟨c, hc, heq | hbelow⟩
    · cases heq
      exact ⟨.inl rfl, hc⟩
    · obtain ⟨hway, hholds⟩ := (ih c hc).1 hbelow
      exact ⟨.inr ⟨c, hc, hway⟩, hholds⟩
  · rintro ⟨rfl | ⟨c, hc, hway⟩, hholds⟩
    · exact ⟨n, hholds, .inl rfl⟩
    · exact ⟨c, hc, .inr ((ih c hc).2 ⟨hway, hholds⟩)⟩

/-- In a tree, no two nodes hold the same one. -/
theorem IsTree.holder_eq (tree : f.IsTree root) (hn : f.isPooled n = false) (hp : f.Reaches root p)
    (hpn : f.Holds p n) (hq : f.Reaches root q) (hqn : f.Holds q n) : p = q := by
  have honce := tree.once
  rw [preorder, Tree.preorder_eq_edges] at honce
  -- steps that end at nodes that are not pooled end at different ones
  have hsteps : (((f.tree root).edges.filter (fun e => !f.isPooled e.2)).map (·.2)).Nodup := by
    have hsub := (List.sublist_cons_self (f.tree root).root ((f.tree root).edges.map (·.2))).filter
      (fun n => !f.isPooled n)
    rw [List.filter_map] at hsub
    exact honce.sublist hsub
  have hmem : ∀ {r}, f.Reaches root r → f.Holds r n →
      (r, n) ∈ (f.tree root).edges.filter (fun e => !f.isPooled e.2) := fun hr hrn =>
    List.mem_filter.2 ⟨(mem_edges_iff tree.acyclic).2 ⟨hr, hrn⟩, by simp [hn]⟩
  exact congrArg Prod.fst (List.inj_on_of_nodup_map hsteps (hmem hp hpn) (hmem hq hqn) rfl)

/-- The way from a root down to a node, as it is seen from the node: what holds it, what
holds that, and so on up to the root. -/
inductive Way (f : Forest) (root : NodeId) : NodeId → List NodeId → Prop
  | here : Way f root root []
  | down {p n : NodeId} {above} : Way f root p above → f.Holds p n → Way f root n (p :: above)

theorem exists_way (h : f.Reaches root n) : ∃ above, f.Way root n above := by
  induction h with
  | refl => exact ⟨[], .here⟩
  | @tail p n _ hholds ih =>
    obtain ⟨above, hway⟩ := ih
    exact ⟨p :: above, .down hway hholds⟩

theorem Way.reaches (h : f.Way root n above) : f.Reaches root n := by
  induction h with
  | here => exact .refl
  | down _ hholds ih => exact ih.tail hholds

/-- Each step down leaves fewer nodes to reach. -/
theorem Way.length_add_reach_le (h : f.Way root n above) (acyclic : ¬ f.HasCycle root) :
    above.length + f.reach n ≤ f.reach root := by
  induction h with
  | here => simp
  | down hway hholds ih =>
    have hlt := reach_lt (not_hasCycle_of_reaches acyclic hway.reaches) hholds
    rw [List.length_cons]
    omega

/-- Enough steps take a climb to its end. -/
theorem Climb.ancestorsWithin_eq (h : f.Climb a above) {steps : Nat} (hsteps : above.length ≤ steps) :
    f.ancestorsWithin steps a = above := by
  induction h generalizing steps with
  | top hp =>
    cases steps with
    | zero => rfl
    | succ steps => rw [ancestorsWithin, hp]
  | up hp _ ih =>
    cases steps with
    | zero => cases hsteps
    | succ steps =>
      rw [ancestorsWithin, hp]
      exact congrArg _ (ih (Nat.le_of_succ_le_succ hsteps))

/-- Shared nodes hold nothing. -/
theorem Typed.isPooled_of_holds {fitting : Prop} (declared : Declared kinds) (hf : f.Typed kinds fitting)
    (h : f.Holds p n) : f.isPooled p = false := by
  obtain ⟨m, hm, hn⟩ := holds_iff.1 h
  rw [isPooled, hm]
  cases hf.node p m hm with
  | @schema span parent kind fields hkind =>
    refine Bool.eq_false_iff.2 (fun hpooled => ?_)
    have hleaf := declared.isLeaf_of_pooled hkind (by simpa [Node.isPooled] using hpooled)
    rw [children_schema, FieldTable.children_of_isLeaf hleaf] at hn
    cases hn
  | wrapped => rfl
  | graph => rfl

/-! ## Attached trees -/

/-- What a node of an attached tree tells: its parent, and the way up to the root. Besides
its link it is as before. -/
structure Placed (f g : Forest) (n p : NodeId) (above : List NodeId) : Prop where
  node : g.node? n = (f.node? n).map (fun m => { m with parent := some p })
  parent : g.parent? n = some p
  climb : g.Climb n (p :: above)
  ancestors : g.ancestors n = p :: above
  siblings : g.siblings n = (f.children p).filter (· != n)
  isAncestorOf : ∀ a, g.isAncestorOf a n = true ↔ a ∈ p :: above

/-- What attaching a tree makes of a forest. -/
structure Attached (f : Forest) (root : NodeId) (g : Forest) : Prop where
  recursion : g = (f.children root).foldl (fun g c => (g.setParent c (some root)).attachParents c) f
  reached : ∀ n, f.Reaches root n → ∃ above, f.Way root n above
  placed : ∀ n p above, f.Way root n (p :: above) → f.isPooled n = false → f.Placed g n p above
  kept : ∀ n, n = root ∨ ¬ f.Reaches root n ∨ f.isPooled n = true → g.node? n = f.node? n

/-- What detaching a tree of a forest `g` makes of it; `f` is how the forest was before the
tree was attached. -/
structure Detached (f : Forest) (root : NodeId) (g h : Forest) : Prop where
  recursion : h = (g.children root).foldl Forest.detachParents (g.setParent root none)
  cleared : ∀ n, f.Reaches root n → h.parent? n = none
  kept : ∀ n, ¬ f.Reaches root n → h.node? n = f.node? n

theorem relinked_attachParents (f : Forest) (root : NodeId) : f.Relinked (f.attachParents root) := by
  rw [attachParents_eq_tell]
  exact relinked_tell f _

theorem IsTree.told (tree : f.IsTree root) (hn : f.isPooled n = false) (hp : f.Reaches root p)
    (hpn : f.Holds p n) :
    (f.attachParents root).node? n = (f.node? n).map (fun m => { m with parent := some p }) := by
  rw [attachParents_eq_tell]
  refine node?_tell_of_told hn ⟨(n, some p), ?_, rfl⟩ (fun told htold heq => ?_)
  · exact List.mem_map.2 ⟨(p, n), (mem_edges_iff tree.acyclic).2 ⟨hp, hpn⟩, rfl⟩
  · obtain ⟨⟨q, m⟩, he, rfl⟩ := List.mem_map.1 htold
    obtain rfl : m = n := heq
    obtain ⟨hq, hqm⟩ := (mem_edges_iff tree.acyclic).1 he
    rw [tree.holder_eq hn hp hpn hq hqm]

theorem IsTree.kept (tree : f.IsTree root) (h : n = root ∨ ¬ f.Reaches root n ∨ f.isPooled n = true) :
    (f.attachParents root).node? n = f.node? n := by
  rw [attachParents_eq_tell]
  refine node?_tell_of_untold (or_iff_not_imp_left.2 (fun hpooled told htold heq => ?_))
  obtain ⟨⟨q, m⟩, he, rfl⟩ := List.mem_map.1 htold
  obtain rfl : m = n := heq
  obtain ⟨hq, hqm⟩ := (mem_edges_iff tree.acyclic).1 he
  rcases h with rfl | hout | hyes
  · exact tree.acyclic ⟨_, .refl, .tail' hq hqm⟩
  · exact hout (hq.tail hqm)
  · exact hpooled hyes

theorem IsTree.parent? (typed : f.Typed kinds False) (tree : f.IsTree root)
    (hn : f.isPooled n = false) (hp : f.Reaches root p) (hpn : f.Holds p n) :
    (f.attachParents root).parent? n = some p := by
  obtain ⟨m, hm⟩ := exists_node?_of_lt (typed.lt_size_of_holds hpn)
  have hm' : m.isPooled = false := by simpa [isPooled, hm] using hn
  exact parent?_eq_some_iff.2 ⟨{ m with parent := some p }, by rw [tree.told hn hp hpn, hm]; rfl, hm', rfl⟩

/-- After a tree was attached, climbs go back the ways by which nodes are reached. -/
theorem IsTree.climb (declared : Declared kinds) (typed : f.Typed kinds False) (tree : f.IsTree root)
    (top : f.parent? root = none) (hway : f.Way root n above) (hn : f.isPooled n = false) :
    (f.attachParents root).Climb n above := by
  induction hway with
  | here =>
    refine .top ?_
    rw [Forest.parent?, (relinked_attachParents f root).isPooled, tree.kept (.inl rfl)]
    exact top
  | down hway hholds ih =>
    exact .up (tree.parent? typed hn hway.reaches hholds) (ih (typed.isPooled_of_holds declared hholds))

theorem IsTree.placed (declared : Declared kinds) (typed : f.Typed kinds False) (tree : f.IsTree root)
    (top : f.parent? root = none) (hway : f.Way root n (p :: above)) (hn : f.isPooled n = false) :
    f.Placed (f.attachParents root) n p above := by
  have hrelinked := relinked_attachParents f root
  have hclimb := tree.climb declared typed top hway hn
  -- a climb takes as many steps as there are nodes at most, and the way is no longer
  have hlength : (p :: above).length ≤ (f.attachParents root).size := by
    have hle := hway.length_add_reach_le tree.acyclic
    have hroot := f.reach_le_size root
    rw [hrelinked.size]
    omega
  have hancestors : (f.attachParents root).ancestors n = p :: above := hclimb.ancestorsWithin_eq hlength
  cases hway with
  | down hway hholds =>
    have hparent := tree.parent? typed hn hway.reaches hholds
    refine ⟨tree.told hn hway.reaches hholds, hparent, hclimb, hancestors, ?_, fun a => ?_⟩
    · rw [siblings, hparent, hrelinked.children]
    · rw [isAncestorOf, hancestors, List.contains_iff_mem]

end Forest

open Forest

/-- A tree whose root has no parent is attached, whatever its nodes were told before and
whatever else is in the forest: each node below the root that is not pooled then climbs the
way by which it is reached, and nothing changes at the root, at pooled nodes and outside
the tree. When it is detached again no node of it has a parent. -/
theorem attaching_is_exact {f : Forest} {kinds : List Kind} {root : NodeId} (declared : Declared kinds)
    (typed : f.Typed kinds False) (tree : f.IsTree root) (top : f.parent? root = none) :
    f.Attached root (f.attachParents root) ∧
    f.Detached root (f.attachParents root) ((f.attachParents root).detachParents root) := by
  have hrelinked := relinked_attachParents f root
  have hacyclic : ¬ (f.attachParents root).HasCycle root := by
    rw [hrelinked.hasCycle_iff]
    exact tree.acyclic
  have hlater := hrelinked.detachParents root
  refine ⟨⟨attachParents_eq tree.acyclic, fun n => exists_way, fun n p above => tree.placed declared typed top,
    fun n => tree.kept⟩, ⟨detachParents_eq hacyclic, fun n hn => ?_, fun n hn => ?_⟩⟩
  · rw [hlater, parent?, (relinked_tell _ _).isPooled]
    rcases hpooled : (f.attachParents root).isPooled n
    · -- detaching tells each node of the tree, and tells all the same
      have htold : ∃ told ∈ (f.preorder root).map (fun id => (id, (none : Option NodeId))), told.1 = n :=
        ⟨(n, none), List.mem_map.2 ⟨n, (mem_preorder_iff tree.acyclic).2 hn, rfl⟩, rfl⟩
      have hsame : ∀ told ∈ (f.preorder root).map (fun id => (id, (none : Option NodeId))), told.1 = n →
          told.2 = none := by
        intro told hmem _
        obtain ⟨m, -, rfl⟩ := List.mem_map.1 hmem
        rfl
      rw [node?_tell_of_told hpooled htold hsame]
      rcases (f.attachParents root).node? n with _ | m <;> rfl
    · rfl
  · rw [hlater, ← tree.kept (.inr (.inl hn))]
    refine node?_tell_of_untold (.inr (fun told htold heq => hn ?_))
    obtain ⟨m, hm, rfl⟩ := List.mem_map.1 htold
    exact heq ▸ (mem_preorder_iff tree.acyclic).1 hm

namespace Mixed

/-- An item was attached that holds two nodes of another one, and that one was told that one
of these holds it. -/
def muddled : Forest := (forest.attachParents ⟨4⟩).setParent ⟨3⟩ (some ⟨1⟩)

theorem tidy : (forest.attachParents ⟨4⟩).Tidy kinds := Tended.tidy declared (tended.tail (.attached ⟨4⟩))

theorem muddled_typed : muddled.Typed kinds False := tidy.typed.setParent ⟨3⟩ (some ⟨1⟩)

theorem muddled_isTree : muddled.IsTree ⟨5⟩ := by
  have hacyclic : muddled.Acyclic := by
    rw [Acyclic, muddled, holds_setParent]
    exact tidy.acyclic
  exact ⟨hacyclic.not_hasCycle ⟨5⟩, by decide +kernel⟩

/-- The hand-written node is the root of a tree in which the pooled literal occurs twice.
Attaching it sets the wrong link right, and detaching it clears all. -/
theorem loose_is_attached : muddled.IsTree ⟨5⟩ ∧ muddled.parent? ⟨5⟩ = none ∧
    muddled.ancestors ⟨3⟩ = [⟨1⟩, ⟨4⟩] ∧
    (muddled.attachParents ⟨5⟩).ancestors ⟨1⟩ = [⟨3⟩, ⟨5⟩] ∧
    (muddled.attachParents ⟨5⟩).siblings ⟨1⟩ = [⟨0⟩, ⟨2⟩, ⟨0⟩] ∧
    ((muddled.attachParents ⟨5⟩).detachParents ⟨5⟩).parent? ⟨1⟩ = none := by
  have top : muddled.parent? ⟨5⟩ = none := by decide +kernel
  obtain ⟨attached, detached⟩ := attaching_is_exact declared muddled_typed muddled_isTree top
  have hitem : (⟨3⟩ : NodeId) ∈ muddled.children ⟨5⟩ := by decide +kernel
  have hpart : (⟨1⟩ : NodeId) ∈ muddled.children ⟨3⟩ := by decide +kernel
  have hsize : muddled.Way ⟨5⟩ ⟨1⟩ [⟨3⟩, ⟨5⟩] := .down (.down .here hitem) hpart
  have placed := attached.placed _ _ _ hsize (by decide +kernel)
  refine ⟨muddled_isTree, top, by decide +kernel, placed.ancestors, ?_, detached.cleared _ hsize.reaches⟩
  rw [placed.siblings]
  decide +kernel

end Mixed

end SyntaxForest
