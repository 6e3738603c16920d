import SyntaxForest.Forest.Parents
import SyntaxForest.Proofs.Forest.Making
import SyntaxForest.Proofs.Forest.Unfolding
/-!
# Parents and ancestors

`Tended`: the forests that making nodes, linking hand-written ones without closing a
cycle, and attaching and detaching parents lead to. Attaching one structure may overwrite
what attaching another one told, and leave the links of nodes elsewhere; but no link ever
points to a node that does not hold this one (`Tidy.truthful`). So a climb along the links
goes against what nodes hold, and comes to an end: `parent_chains_are_truthful`.
-/

namespace SyntaxForest

namespace Forest

variable {f g : Forest} {kinds : List Kind} {a b c id p : NodeId}

/-- Nothing is somewhere below itself. -/
def Acyclic (f : Forest) : Prop := ∀ n, ¬ Relation.TransGen f.Holds n n

/-- Whatever a node was told is its parent holds it. -/
def Truthful (f : Forest) : Prop := ∀ id p, f.parent? id = some p → f.Holds p id

theorem Acyclic.not_hasCycle (h : f.Acyclic) (root : NodeId) : ¬ f.HasCycle root :=
  fun ⟨n, _, hcycle⟩ => h n hcycle

theorem holds_iff : f.Holds a b ↔ ∃ n, f.node? a = some n ∧ b ∈ n.children := by
  rw [Holds, children]
  rcases f.node? a with _ | n <;> simp

theorem parent?_eq_some_iff : f.parent? id = some p ↔
    ∃ n, f.node? id = some n ∧ n.isPooled = false ∧ n.parent = some p := by
  rw [parent?, isPooled]
  rcases f.node? id with _ | n
  · simp
  · rcases hpooled : n.isPooled <;> simp [hpooled]

/-! ## Making nodes -/

theorem Typed.lt_size_of_holds {fitting : Prop} (hf : f.Typed kinds fitting) (h : f.Holds a b) :
    b.index < f.size := by
  obtain ⟨n, hn, hb⟩ := holds_iff.1 h
  exact hf.closed a n hn b hb

theorem Sprouts.holds_iff (h : f.Sprouts g) (ha : a.index < f.size) : g.Holds a b ↔ f.Holds a b := by
  rw [Holds, Holds, children, children, h.kept.node?_eq ha]

theorem Sprouts.lt_of_holds (h : f.Sprouts g) (ha : f.size ≤ a.index) (hb : g.Holds a b) :
    b.index < a.index := by
  obtain ⟨n, hn, hmem⟩ := Forest.holds_iff.1 hb
  exact (h.fresh a n hn ha).2 b hmem

/-- Old nodes reach old ones only, by the same ways. -/
theorem Sprouts.transGen_of_lt {fitting : Prop} (h : f.Sprouts g) (hf : f.Typed kinds fitting)
    (ha : a.index < f.size) (hab : Relation.TransGen g.Holds a b) :
    Relation.TransGen f.Holds a b ∧ b.index < f.size := by
  induction hab with
  | single hstep =>
    have hold := (h.holds_iff ha).1 hstep
    exact ⟨.single hold, hf.lt_size_of_holds hold⟩
  | tail _ hstep ih =>
    obtain ⟨hway, hlt⟩ := ih
    have hold := (h.holds_iff hlt).1 hstep
    exact ⟨hway.tail hold, hf.lt_size_of_holds hold⟩

/-- From a new node, every way leads to older nodes. -/
theorem Sprouts.lt_of_transGen {fitting : Prop} (h : f.Sprouts g) (hf : f.Typed kinds fitting)
    (ha : f.size ≤ a.index) (hab : Relation.TransGen g.Holds a b) : b.index < a.index := by
  induction hab with
  | single hstep => exact h.lt_of_holds ha hstep
  | @tail b c _ hstep ih =>
    rcases Nat.lt_or_ge b.index f.size with hlt | hge
    · exact (hf.lt_size_of_holds ((h.holds_iff hlt).1 hstep)).trans_le ha
    · exact (h.lt_of_holds hge hstep).trans ih

theorem Acyclic.sprouts {fitting : Prop} (hacyclic : f.Acyclic) (hf : f.Typed kinds fitting)
    (h : f.Sprouts g) : g.Acyclic := by
  intro n hcycle
  rcases Nat.lt_or_ge n.index f.size with hlt | hge
  · exact hacyclic n (h.transGen_of_lt hf hlt hcycle).1
  · exact Nat.lt_irrefl _ (h.lt_of_transGen hf hge hcycle)

theorem Truthful.sprouts (htruthful : f.Truthful) (h : f.Sprouts g) : g.Truthful := by
  intro id p hp
  obtain ⟨n, hn, hpooled, hparent⟩ := parent?_eq_some_iff.1 hp
  rcases Nat.lt_or_ge id.index f.size with hlt | hge
  · rw [h.kept.node?_eq hlt] at hn
    have hold := htruthful id p (parent?_eq_some_iff.2 ⟨n, hn, hpooled, hparent⟩)
    exact (h.holds_iff (lt_size_of_holds hold)).2 hold
  · rw [(h.fresh id n hn hge).1] at hparent
    cases hparent

/-! ## Telling parents -/

@[simp] theorem children_setParent (f : Forest) (id : NodeId) (parent : Option NodeId) (other : NodeId) :
    (f.setParent id parent).children other = f.children other := by
  unfold setParent
  split
  · rfl
  · rw [children, children, node?_update]
    split
    · rcases f.node? other with _ | n <;> rfl
    · rfl

@[simp] theorem holds_setParent (f : Forest) (id : NodeId) (parent : Option NodeId) :
    (f.setParent id parent).Holds = f.Holds := by
  funext a b
  rw [Holds, Holds, children_setParent]

/-- A node says what it was told last, or what it said before. -/
theorem parent?_setParent {parent : Option NodeId} {other : NodeId}
    (h : (f.setParent id parent).parent? other = some p) :
    other = id ∧ parent = some p ∨ f.parent? other = some p := by
  unfold setParent at h
  split at h
  · exact .inr h
  · obtain ⟨n, hn, hpooled, hparent⟩ := parent?_eq_some_iff.1 h
    rw [node?_update] at hn
    split at hn
    · next heq =>
      obtain ⟨m, hm, rfl⟩ := Option.map_eq_some_iff.1 hn
      exact .inl ⟨heq.symm, hparent⟩
    · exact .inr (parent?_eq_some_iff.2 ⟨n, hn, hpooled, hparent⟩)

/-- Typed, without a cycle, and with true parent links only. -/
structure Tidy (kinds : List Kind) (f : Forest) : Prop where
  typed : f.Typed kinds False
  acyclic : f.Acyclic
  truthful : f.Truthful

theorem tidy_empty : Tidy kinds {} := by
  have hnone : ∀ id, ({} : Forest).node? id = none := fun id => by simp [node?]
  refine ⟨typed_empty, fun n hcycle => ?_, fun id p hp => ?_⟩
  · obtain ⟨b, hb, -⟩ := Relation.TransGen.head'_iff.1 hcycle
    obtain ⟨m, hm, -⟩ := holds_iff.1 hb
    rw [hnone] at hm
    cases hm
  · obtain ⟨m, hm, -⟩ := parent?_eq_some_iff.1 hp
    rw [hnone] at hm
    cases hm

theorem Tidy.sprouts (hf : f.Tidy kinds) (h : f.Sprouts g) (hg : g.Typed kinds False) : g.Tidy kinds :=
  ⟨hg, hf.acyclic.sprouts hf.typed h, hf.truthful.sprouts h⟩

/-- A node may be told of a node that holds it, or of none. -/
theorem Tidy.setParent (hf : f.Tidy kinds) {parent : Option NodeId}
    (hparent : ∀ p, parent = some p → f.Holds p id) : (f.setParent id parent).Tidy kinds := by
  refine ⟨hf.typed.setParent id parent, ?_, fun other p hp => ?_⟩
  · rw [Acyclic, holds_setParent]
    exact hf.acyclic
  · rw [holds_setParent]
    rcases parent?_setParent hp with ⟨rfl, heq⟩ | hold
    · exact hparent p heq
    · exact hf.truthful other p hold

end Forest

theorem Tree.edgesFrom_eq {α : Type} (parent : α) (ts : List (Tree α)) :
    Tree.edgesFrom parent ts = ts.flatMap (fun t => (parent, t.root) :: t.edges) := by
  induction ts with
  | nil => rfl
  | cons t rest ih => simp [Tree.edgesFrom, ih]

theorem Tree.mem_edgesFrom {α : Type} {parent : α} {ts : List (Tree α)} {e : α × α} :
    e ∈ Tree.edgesFrom parent ts ↔ ∃ t ∈ ts, e = (parent, t.root) ∨ e ∈ t.edges := by
  simp [Tree.edgesFrom_eq]

namespace Forest

variable {f g : Forest} {kinds : List Kind} {a b c id p : NodeId}

/-- Every step of an unfolding goes from a node to one that it holds. -/
theorem holds_of_mem_edges {steps : Nat} {e : NodeId × NodeId} (h : e ∈ (f.unfold steps id).edges) :
    f.Holds e.1 e.2 := by
  induction steps generalizing id with
  | zero => cases h
  | succ steps ih =>
    obtain ⟨t, ht, hcases⟩ := Tree.mem_edgesFrom.1 h
    obtain ⟨c, hc, rfl⟩ := List.mem_map.1 ht
    rcases hcases with rfl | hbelow
    · rwa [root_unfold]
    · exact ih hbelow

theorem Tidy.attachParents (hf : f.Tidy kinds) (root : NodeId) : (f.attachParents root).Tidy kinds := by
  -- along the list the links change, but not what nodes hold
  have attached : ∀ (edges : List (NodeId × NodeId)) (g : Forest), g.Tidy kinds →
      (∀ e ∈ edges, g.Holds e.1 e.2) →
      (edges.foldl (fun f e => f.setParent e.2 (some e.1)) g).Tidy kinds := by
    intro edges
    induction edges with
    | nil => exact fun g hg _ => hg
    | cons e rest ih =>
      intro g hg hholds
      obtain ⟨he, hrest⟩ := List.forall_mem_cons.1 hholds
      refine ih _ (hg.setParent (fun p hp => Option.some.inj hp ▸ he)) (fun d hd => ?_)
      rw [holds_setParent]
      exact hrest d hd
  exact attached _ f hf (fun e he => holds_of_mem_edges he)

theorem Tidy.detachParents (hf : f.Tidy kinds) (root : NodeId) : (f.detachParents root).Tidy kinds := by
  have detached : ∀ (ids : List NodeId) (g : Forest), g.Tidy kinds →
      (ids.foldl (fun f id => f.setParent id none) g).Tidy kinds := by
    intro ids
    induction ids with
    | nil => exact fun g hg => hg
    | cons id rest ih => exact fun g hg => ih _ (hg.setParent (fun p hp => nomatch hp))
  exact detached _ f hf

theorem Tidy.link (hf : f.Tidy kinds) (id : NodeId) {targets : List NodeId}
    (htargets : ∀ t ∈ targets, t.index < f.size) (hacyclic : (f.link id targets).Acyclic) :
    (f.link id targets).Tidy kinds := by
  refine ⟨hf.typed.link id htargets, hacyclic, fun other p hp => ?_⟩
  have hparent : f.parent? other = some p := by
    obtain ⟨n, hn, hpooled, hparent⟩ := parent?_eq_some_iff.1 hp
    rw [Forest.link, node?_update] at hn
    split at hn
    · obtain ⟨⟨span, _ | _ | _, parent⟩, hm, rfl⟩ := Option.map_eq_some_iff.1 hn <;>
        exact parent?_eq_some_iff.2 ⟨_, hm, hpooled, hparent⟩
    · exact parent?_eq_some_iff.2 ⟨n, hn, hpooled, hparent⟩
  obtain ⟨n, hn, hother⟩ := holds_iff.1 (hf.truthful other p hparent)
  refine holds_iff.2 ?_
  rw [Forest.link, node?_update]
  split
  · refine ⟨_, by rw [hn]; rfl, ?_⟩
    rcases n with ⟨span, _ | _ | _, _⟩
    · exact hother
    · exact hother
    · exact List.mem_append_left _ hother
  · exact ⟨n, hn, hother⟩

/-! ## Climbing -/

/-- The climb from a node along parent links, which ends at a node without one. No bound is
set to it: a climb that goes round is none. -/
inductive Climb (f : Forest) : NodeId → List NodeId → Prop
  | top {a : NodeId} : f.parent? a = none → Climb f a []
  | up {a p : NodeId} {rest} : f.parent? a = some p → Climb f p rest → Climb f a (p :: rest)

/-- A node reaches less than its parent. -/
theorem Tidy.reach_lt (hf : f.Tidy kinds) (h : f.parent? a = some p) : f.reach a < f.reach p :=
  Forest.reach_lt (hf.acyclic.not_hasCycle p) (hf.truthful a p h)

/-- With each step up more nodes are reached, so there are as many steps as a climb takes. -/
theorem Tidy.climb_ancestorsWithin (hf : f.Tidy kinds) {steps : Nat} (hsteps : f.size ≤ f.reach a + steps) :
    f.Climb a (f.ancestorsWithin steps a) := by
  induction steps generalizing a with
  | zero =>
    refine .top (Option.eq_none_iff_forall_ne_some.2 (fun p hp => ?_))
    have hlt := hf.reach_lt hp
    have hle := f.reach_le_size p
    omega
  | succ steps ih =>
    rw [ancestorsWithin]
    rcases hp : f.parent? a with _ | p
    · exact .top hp
    · have hlt := hf.reach_lt hp
      exact .up hp (ih (by omega))

theorem Tidy.climb_ancestors (hf : f.Tidy kinds) (a : NodeId) : f.Climb a (f.ancestors a) :=
  hf.climb_ancestorsWithin (by omega)

theorem Climb.isChain {l : List NodeId} (h : f.Climb a l) (htruthful : f.Truthful) :
    (a :: l).IsChain (fun b p => f.Holds p b) := by
  induction h with
  | top => exact .singleton _
  | up hp _ ih => exact .cons_cons (htruthful _ _ hp) ih

/-- Each node of a climb is above where it began. -/
theorem Climb.transGen {l : List NodeId} (h : f.Climb a l) (htruthful : f.Truthful) :
    ∀ b ∈ l, Relation.TransGen f.Holds b a := by
  induction h with
  | top => simp
  | up hp _ ih =>
    have hholds := htruthful _ _ hp
    refine List.forall_mem_cons.2 ⟨.single hholds, fun b hb => (ih b hb).tail hholds⟩

theorem Climb.nodup {l : List NodeId} (h : f.Climb a l) (htruthful : f.Truthful) (hacyclic : f.Acyclic) :
    (a :: l).Nodup := by
  induction h with
  | top => simp
  | @up a p rest hp hclimb ih =>
    refine List.nodup_cons.2 ⟨fun hmem => ?_, ih⟩
    exact hacyclic a ((hclimb.up hp).transGen htruthful a hmem)

/-! ## What calls lead to -/

/-- One call, whatever it ends with. Nodes are made, hand-written ones are linked to more
nodes as long as no cycle is closed, and parents are attached and detached; a parent link
is weak, so it may lapse at any time. -/
inductive Tends (kinds : List Kind) : Forest → Forest → Prop
  | made {f g : Forest} : Makes kinds False f g → Tends kinds f g
  | linked {f : Forest} (id : NodeId) {targets : List NodeId} : (∀ t ∈ targets, t.index < f.size) →
      (f.link id targets).Acyclic → Tends kinds f (f.link id targets)
  | attached {f : Forest} (root : NodeId) : Tends kinds f (f.attachParents root)
  | detached {f : Forest} (root : NodeId) : Tends kinds f (f.detachParents root)
  | lapsed {f : Forest} (id : NodeId) : Tends kinds f (f.setParent id none)

/-- A forest that such calls lead to. -/
def Tended (kinds : List Kind) : Forest → Prop := Relation.ReflTransGen (Tends kinds) {}

theorem Tends.tidy (declared : Declared kinds) (hf : f.Tidy kinds) (h : Tends kinds f g) : g.Tidy kinds := by
  cases h with
  | made hmakes =>
    obtain ⟨hsprouts, htyped⟩ := hmakes.sprouts_typed declared hf.typed
    exact hf.sprouts hsprouts htyped
  | linked id htargets hacyclic => exact hf.link id htargets hacyclic
  | attached root => exact hf.attachParents root
  | detached root => exact hf.detachParents root
  | lapsed id => exact hf.setParent (fun p hp => nomatch hp)

theorem Tended.tidy (declared : Declared kinds) (h : Tended kinds f) : f.Tidy kinds := by
  induction h with
  | refl => exact tidy_empty
  | tail _ hstep ih => exact hstep.tidy declared ih

/-- What the ancestors of a node are: the climb along the parent links, to its end. They
are distinct, and not the node itself; each holds the one before it. -/
structure Lineage (f : Forest) (n : NodeId) : Prop where
  climbs : f.Climb n (f.ancestors n)
  distinct : (n :: f.ancestors n).Nodup
  held : (n :: f.ancestors n).IsChain (fun c p => c ∈ f.children p)

/-- However parents were attached and detached, over structures that share nodes and among
calls that make and link nodes: every climb ends and is true to what nodes hold, pooled
nodes have no parent, and no two nodes are each other's ancestors. -/
theorem parent_chains_are_truthful (declared : Declared kinds) (tended : Tended kinds f) :
    (∀ n, f.Lineage n) ∧ (∀ n, f.isPooled n = true → f.parent? n = none) ∧
    (∀ a b, f.isAncestorOf a b = true ↔ f.isDescendantOf b a = true) ∧
    ∀ a b, ¬(f.isAncestorOf a b = true ∧ f.isAncestorOf b a = true) := by
  have hf := tended.tidy declared
  refine ⟨fun n => ?_, fun n hn => by rw [parent?, if_pos hn], fun a b => Iff.rfl, fun a b ⟨hab, hba⟩ => ?_⟩
  · have hclimb := hf.climb_ancestors n
    exact ⟨hclimb, hclimb.nodup hf.truthful hf.acyclic, hclimb.isChain hf.truthful⟩
  · have habove : ∀ a b, f.isAncestorOf a b = true → Relation.TransGen f.Holds a b := fun a b h =>
      (hf.climb_ancestors b).transGen hf.truthful a (List.contains_iff_mem.1 h)
    exact hf.acyclic a ((habove a b hab).trans (habove b a hba))

/-- Links that only lead to older nodes form no cycle. -/
theorem acyclic_of_lt (older : ∀ a b, f.Holds a b → b.index < a.index) : f.Acyclic := fun n hcycle =>
  not_hasCycle_of_rank NodeId.index (fun a _ b hb => older a b hb) ⟨n, .refl, hcycle⟩

end Forest

namespace Mixed

theorem tended : Forest.Tended kinds forest := by
  refine steps (fun f g hmakes => .made (hmakes.mono (fun h => nomatch h))) (.linked ⟨5⟩ (by decide) ?_)
  refine Forest.acyclic_of_lt (fun a b hb => ?_)
  have older : ∀ i < 6, ∀ c ∈ (unlinked.link ⟨5⟩ [⟨3⟩]).children ⟨i⟩, c.index < i := by decide
  exact older a.index (Forest.lt_size_of_holds hb) b hb

/-- Two structures that share three nodes are attached, one after the other. -/
def attached : Forest := (forest.attachParents ⟨4⟩).attachParents ⟨6⟩

/-- A shared node climbs through the structure that was attached last. -/
theorem shared_size_climbs : attached.ancestors ⟨1⟩ = [⟨3⟩, ⟨6⟩] ∧ attached.Lineage ⟨1⟩ ∧
    ¬(attached.isAncestorOf ⟨3⟩ ⟨6⟩ = true ∧ attached.isAncestorOf ⟨6⟩ ⟨3⟩ = true) := by
  obtain ⟨lineage, -, -, apart⟩ := Forest.parent_chains_are_truthful declared
    ((tended.tail (.attached ⟨4⟩)).tail (.attached ⟨6⟩))
  exact ⟨by decide +kernel, lineage ⟨1⟩, apart ⟨3⟩ ⟨6⟩⟩

end Mixed

end SyntaxForest
