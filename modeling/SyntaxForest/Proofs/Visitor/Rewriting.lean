import SyntaxForest.Proofs.Visitor.Visiting
/-!
# Rewriting whole trees

What is known of each visited node (`Faithful`) adds up: a subtree in which the rewrite
changes nothing comes back as it is, and under a rewrite that only looks below what it
is given, a node with a change below it is replaced. Together with the run of a visit
this says what visiting with a rewriter does to a structure.
-/

namespace SyntaxForest

variable {σ : Type}

namespace Rewriting

variable {R : Rewriting σ} {h : Forest} {below : List (Tree Visited)}

/-! ## Where nothing changes, and where something does -/

/-- Where every rewrite gives what it was given, a node comes back as itself. -/
theorem Faithful.quiet {u : Visited} (hu : R.Faithful h u below)
    (hbelow : ∀ b ∈ below, (∀ x ∈ b.preorder, x.answer = x.given) → b.root.answer = b.root.node)
    (hquiet : ∀ x ∈ (Tree.node u below).preorder, x.answer = x.given) : u.answer = u.node := by
  rw [Tree.preorder, List.forall_mem_cons] at hquiet
  rcases hu.kept_or_new with ⟨hgiven, -⟩ | ⟨-, b, hb, hne⟩
  · exact hquiet.1.trans hgiven
  · exact absurd (hbelow b hb (fun x hx => hquiet.2 x (Tree.mem_preorderAll.2 ⟨b, hb, hx⟩))) hne

/-- What is below a new node, handed to a local rewrite, was below the original. -/
theorem Faithful.of_below_given {u : Visited} (hu : R.Faithful h u below)
    (hbelow : ∀ b ∈ below, ∀ x, R.forest.Below R.root x → h.Below b.root.answer x →
      R.forest.Below b.root.node x)
    (hnew : R.forest.size ≤ u.given.index) {x : NodeId} (hx : R.forest.Below R.root x)
    (hgiven : h.Below u.given x) :
    ∃ b ∈ below, b.root.node ∈ R.forest.parts u.node ∧ R.forest.Below b.root.node x := by
  have hhandled : R.Handled u.node := by
    by_contra hnot
    obtain ⟨heq, -⟩ := hu.left hnot
    exact absurd (heq ▸ lt_size_of_below hu.input) (Nat.not_lt.2 hnew)
  rcases Relation.ReflTransGen.cases_head hgiven with rfl | ⟨c, hc, hcx⟩
  · exact absurd (lt_size_of_below hx) (Nat.not_lt.2 hnew)
  · obtain ⟨b, hb, rfl, hpart⟩ := hu.given_parts hhandled c hc
    exact ⟨b, hb, hpart, hbelow b hb x hx hcx⟩

/-- A local rewrite brings nothing of the input to a place above it. -/
theorem Faithful.local_below {u : Visited} (hh : R.forest.Extends h) (hu : R.Faithful h u below)
    (hlocal : StaysLocal R.kinds R.forest R.root R.apply)
    (hbelow : ∀ b ∈ below, ∀ x, R.forest.Below R.root x → h.Below b.root.answer x →
      R.forest.Below b.root.node x) :
    ∀ x, R.forest.Below R.root x → h.Below u.answer x → R.forest.Below u.node x := by
  obtain ⟨_, wf⟩ := R.wellFormed
  intro x hx hanswer
  have hgiven := hu.local_answer hlocal x hx hanswer
  rcases hu.kept_or_new with ⟨heq, -⟩ | ⟨hnew, -⟩
  · rw [heq, hh.below_iff wf (lt_size_of_below hu.input)] at hgiven
    exact hgiven
  · obtain ⟨b, -, hpart, hb⟩ := hu.of_below_given hbelow hnew hx hgiven
    exact .head hpart hb

/-- Under a local rewrite, a node with a change in it does not come back as itself. -/
theorem Faithful.changed {u : Visited} (hu : R.Faithful h u below)
    (hlocal : StaysLocal R.kinds R.forest R.root R.apply)
    (hbelow : ∀ b ∈ below, ∀ x, R.forest.Below R.root x → h.Below b.root.answer x →
      R.forest.Below b.root.node x)
    (hchanged : ∀ b ∈ below, (∃ x ∈ b.preorder, x.answer ≠ x.given) → b.root.answer ≠ b.root.node)
    (hchange : ∃ x ∈ (Tree.node u below).preorder, x.answer ≠ x.given) : u.answer ≠ u.node := by
  obtain ⟨_, wf⟩ := R.wellFormed
  intro heq
  rcases hu.kept_or_new with ⟨hgiven, hall⟩ | ⟨hnew, -⟩
  · obtain ⟨x, hx, hne⟩ := hchange
    rw [Tree.preorder, List.mem_cons, Tree.mem_preorderAll] at hx
    rcases hx with rfl | ⟨b, hb, hx⟩
    · exact hne (heq.trans hgiven.symm)
    · exact hchanged b hb ⟨x, hx, hne⟩ (hall b hb)
  · -- the node would be below one of its own parts
    have hself : h.Below u.answer u.node := heq ▸ .refl
    obtain ⟨b, -, hpart, hb⟩ :=
      hu.of_below_given hbelow hnew hu.input (hu.local_answer hlocal _ hu.input hself)
    exact absurd ((wf.index_lt hpart).trans_le (wf.index_le_of_below hb)) (Nat.lt_irrefl _)

/-- What is known of a visit as a whole. -/
structure Settles (R : Rewriting σ) (h : Forest) (t : Tree Visited) : Prop where
  quiet : (∀ x ∈ t.preorder, x.answer = x.given) → t.root.answer = t.root.node
  local_below : StaysLocal R.kinds R.forest R.root R.apply →
    ∀ x, R.forest.Below R.root x → h.Below t.root.answer x → R.forest.Below t.root.node x
  changed : StaysLocal R.kinds R.forest R.root R.apply →
    (∃ x ∈ t.preorder, x.answer ≠ x.given) → t.root.answer ≠ t.root.node

theorem Faithful.settles {u : Visited} (hh : R.forest.Extends h) (hu : R.Faithful h u below)
    (hbelow : ∀ b ∈ below, R.Settles h b) : R.Settles h (.node u below) where
  quiet := hu.quiet (fun b hb => (hbelow b hb).quiet)
  local_below hlocal := hu.local_below hh hlocal (fun b hb => (hbelow b hb).local_below hlocal)
  changed hlocal := hu.changed hlocal (fun b hb => (hbelow b hb).local_below hlocal)
    (fun b hb => (hbelow b hb).changed hlocal)

end Rewriting

/-- A node of a visit from a forest `f` to a forest `g`. -/
structure RewrittenAt (kinds : List Kind) (handles : String → Bool) (rule : Tree Content → Tree Content)
    (apply : NodeId → Act (World σ) NodeId) (f g : Forest) (root : NodeId) (u : Visited)
    (below : List (Tree Visited)) : Prop where
  /-- A node that is not handled comes back as itself, and nothing below it is visited. -/
  left : handles (f.content u.node).visitMethod = false → u.answer = u.node ∧ below = []
  /-- What the rewrite is given says what the node says, its children rewritten. -/
  given_contents : handles (f.content u.node).visitMethod = true → g.contents u.given =
    .node (f.content u.node) ((f.contents u.node).branches.map (Content.rewrite handles rule))
  /-- Where the rewrite changes nothing, the node comes back as itself. -/
  quiet : (∀ x ∈ (Tree.node u below).preorder, x.answer = x.given) → u.answer = u.node
  /-- The rewrite is given the node itself, or a new one where a child became another node. -/
  kept_or_new : (u.given = u.node ∧ ∀ b ∈ below, b.root.answer = b.root.node) ∨
    (f.node? u.given = none ∧ ∃ b ∈ below, b.root.answer ≠ b.root.node)
  /-- A local rewrite is given a new node wherever it changed something below. -/
  above_change : StaysLocal kinds f root apply → (∃ x ∈ Tree.preorderAll below, x.answer ≠ x.given) →
    f.node? u.given = none

/-- A node that does not come back as itself has a change in it. -/
theorem RewrittenAt.exists_change {kinds : List Kind} {handles : String → Bool}
    {rule : Tree Content → Tree Content} {apply : NodeId → Act (World σ) NodeId} {f g : Forest}
    {root : NodeId} {t : Tree Visited} (h : RewrittenAt kinds handles rule apply f g root t.root t.branches)
    (hne : t.root.answer ≠ t.root.node) : ∃ x ∈ t.preorder, x.answer ≠ x.given := by
  rcases t with ⟨u, below⟩
  by_contra hnone
  push Not at hnone
  exact hne (h.quiet hnone)

/-- Visiting any structure with a rewriter succeeds and gives what the reference recursion
gives; at every node of the visit the rewrite is given the node itself, or a new node that
stands for it; and the structure stays as it was. -/
theorem rewriting_follows_the_reference {kinds : List Kind} {handles : String → Bool}
    {rule : Tree Content → Tree Content} {apply : NodeId → Act (World σ) NodeId} {w : World σ}
    {root : NodeId} (declared : Declared kinds) (grown : w.forest.Grown kinds)
    (held : root.index < w.forest.size) (rewrites : Rewrites kinds w.forest rule apply) :
    ∃ trace v, ((rewriter handles apply).visit root).exec w = (.ok (.node trace.root.answer), v) ∧
      trace.root.node = root ∧ Visiting handles apply w trace v ∧
      v.forest.Grown kinds ∧ w.forest.Extends v.forest ∧
      v.forest.contents trace.root.answer = Content.rewrite handles rule (w.forest.contents root) ∧
      trace.All (RewrittenAt kinds handles rule apply w.forest v.forest root) := by
  let R : Rewriting σ :=
    { kinds, forest := w.forest, root, handles, rule, apply, declared, grown, held, rewrites }
  have hsteps : root.index < w.forest.size + 2 := by omega
  obtain ⟨trace, v, hrun, hnode, leads⟩ :=
    @Rewriting.exec_visitWithin σ R w root _ grown (.refl _) .refl hsteps
  have hvisit : ((rewriter handles apply).visit root).exec w = (.ok (.node trace.root.answer), v) := by
    rw [Visitor.visit, Act.exec_bind, Rewriting.exec_forest]
    exact hrun
  have hcontents := leads.faithful.root.answer_contents
  rw [hnode] at hcontents
  obtain ⟨hsettles, -⟩ :=
    leads.faithful.with_below (fun _ _ hu hbelow => hu.settles (h := v.forest) leads.kept hbelow)
  refine ⟨trace, v, hvisit, hnode, leads.visiting, leads.grown, leads.kept, hcontents, ?_⟩
  refine hsettles.imp (fun u below ⟨hu, hbelow⟩ => ?_)
  have hnode := hu.settles leads.kept hbelow
  have hfresh : R.forest.size ≤ u.given.index ↔ w.forest.node? u.given = none :=
    Forest.node?_eq_none_iff.symm
  refine ⟨fun hnot => (hu.left (Bool.eq_false_iff.1 hnot)).2, hu.given_contents, hnode.quiet,
    hu.kept_or_new.imp_right (And.imp_left hfresh.1), fun hlocal ⟨x, hx, hne⟩ => ?_⟩
  obtain ⟨b, hb, hx⟩ := Tree.mem_preorderAll.1 hx
  have hchanged := (hbelow b hb).changed hlocal ⟨x, hx, hne⟩
  rcases hu.kept_or_new with ⟨-, hall⟩ | ⟨hnew, -⟩
  · exact absurd (hall b hb) hchanged
  · exact hfresh.1 hnew

namespace Mixed

def zero : Fields := [("value", .num .zero)]

def isSize : Content → Bool
  | .ofKind kind _ _ => kind.id == size.id
  | .byHand _ => false

/-- A size becomes a size of zero in its place; everything else stays. -/
def reset (id : NodeId) : Act (World Unit) NodeId := do
  let f ← Act.forest
  if isSize (f.content id) then Act.onForest (Forest.build size (span 0 0) zero)
  else return id

def resetRule (t : Tree Content) : Tree Content :=
  if isSize t.root then .node (.ofKind size (span 0 0) (size.table.outline zero)) [] else t

/-- Every kind of the forest has a method. -/
def handles (method : String) : Bool := method != "visitGraphNode"

theorem exec_reset {w : World Unit} (hw : w.forest.Grown kinds) (id : NodeId) :
    if isSize (w.forest.content id) then
      ∃ g, (reset id).exec w = (.ok ⟨w.forest.size⟩, { w with forest := g }) ∧
        Forest.Adds kinds w.forest g (.ofKind size (span 0 0) (size.table.outline zero)) []
    else (reset id).exec w = (.ok id, w) := by
  split
  · next hsize =>
    have hchildren : ∀ c ∈ size.table.children zero, c.index < w.forest.size := by
      rw [show size.table.children zero = [] from rfl]
      simp
    obtain ⟨g, hrun, adds⟩ := hw.exec_build declared (show size ∈ kinds by simp [kinds]) (by decide)
      hchildren (.of_plain (by decide) (by decide)) (span 0 0)
    refine ⟨g, ?_, adds⟩
    rw [reset, Act.exec_bind, Rewriting.exec_forest]
    simp only [hsize, if_true, Act.onForest, Act.exec_onPart, hrun]
  · next hother =>
    rw [reset, Act.exec_bind, Rewriting.exec_forest]
    simp only [hother]
    rfl

theorem reset_rewrites : Rewrites kinds forest resetRule reset := by
  intro w id hw hf hid
  obtain ⟨_, wf⟩ := hw.wellFormed declared
  have hrun := exec_reset hw id
  rw [wf.contents_eq hid, resetRule, Tree.root]
  split at hrun
  · next hsize =>
    obtain ⟨g, hrun, adds⟩ := hrun
    obtain ⟨_, wg⟩ := adds.grown.wellFormed declared
    have hnew : (⟨w.forest.size⟩ : NodeId).index < g.size := adds.size_eq ▸ Nat.lt_succ_self _
    refine ⟨_, _, hrun, adds.grown, adds.kept, hnew, (wg.contents_eq hnew).trans ?_⟩
    rw [if_pos hsize, adds.content_eq, adds.parts_eq]
    rfl
  · next hother =>
    refine ⟨id, w, hrun, hw, .refl _, hid, ?_⟩
    rw [if_neg hother, wf.contents_eq hid]

theorem reset_stays_local (root : NodeId) (held : root.index < forest.size) :
    StaysLocal kinds forest root reset := by
  intro w id answer v hw hf happly x hx hanswer
  obtain ⟨_, wf⟩ := grown.wellFormed declared
  have hrun := exec_reset hw id
  split at hrun
  · obtain ⟨g, hrun, adds⟩ := hrun
    rw [hrun] at happly
    obtain ⟨hnew, rfl⟩ := Prod.mk.inj happly
    cases hnew
    rcases Relation.ReflTransGen.cases_head hanswer with rfl | ⟨c, hc, -⟩
    · have hlt := (wf.index_le_of_below hx).trans_lt held
      exact absurd (hlt.trans_le hf.size_le) (Nat.lt_irrefl _)
    · rw [adds.parts_eq] at hc
      cases hc
  · rw [hrun] at happly
    cases happly
    exact hanswer

/-- The span that a node of a kind says. -/
def spanIn : Content → Option Span
  | .ofKind _ span _ => some span
  | .byHand _ => none

/-- The spans in an item whose parts are rewritten are not the ones in the item. -/
theorem spans_are_reset : (Tree.node (forest.content ⟨6⟩)
      ((forest.contents ⟨6⟩).branches.map (Content.rewrite handles resetRule))).preorder.map spanIn ≠
    (forest.contents ⟨6⟩).preorder.map spanIn := by
  decide +kernel

/-- The item that holds another item twice and a hand-written node between: a size is
changed below it, and it reaches the rewrite as a new node. -/
theorem sizes_are_reset : StaysLocal kinds forest ⟨6⟩ reset ∧
    ∃ (trace : Tree Visited) (v : World Unit), ((rewriter handles reset).visit ⟨6⟩).exec { forest, host := () } =
        (.ok (.node trace.root.answer), v) ∧
      v.forest.contents trace.root.answer = Content.rewrite handles resetRule (forest.contents ⟨6⟩) ∧
      (∃ x ∈ Tree.preorderAll trace.branches, x.answer ≠ x.given) ∧
      forest.node? trace.root.given = none := by
  obtain ⟨trace, v, hrun, hnode, -, -, hkept, hcontents, hall⟩ :=
    @rewriting_follows_the_reference Unit kinds handles resetRule reset { forest, host := () } ⟨6⟩
      declared grown (by decide) reset_rewrites
  have hlocal := reset_stays_local ⟨6⟩ (by decide)
  obtain ⟨_, wf⟩ := grown.wellFormed declared
  have hroot := hall.root
  have hgiven := hroot.given_contents (by rw [hnode]; rfl)
  rw [hnode] at hgiven
  rcases hroot.kept_or_new with ⟨heq, -⟩ | ⟨-, b, hb, hne⟩
  · -- what the rewrite is given does not say what the item says
    rw [heq, hnode, hkept.contents_eq wf (by decide)] at hgiven
    exact absurd (congrArg (fun t => t.preorder.map spanIn) hgiven.symm) spans_are_reset
  · obtain ⟨x, hx, hchanged⟩ := (hall.branches b hb).root.exists_change hne
    have hchange : ∃ x ∈ Tree.preorderAll trace.branches, x.answer ≠ x.given :=
      ⟨x, Tree.mem_preorderAll.2 ⟨b, hb, hx⟩, hchanged⟩
    exact ⟨hlocal, trace, v, hrun, hcontents, hchange, hroot.above_change hlocal hchange⟩

/-! ## A change that is undone -/

/-- Whether this is an item of the first kind that has no name. -/
def isNameless : Content → Bool
  | .ofKind kind _ outline => kind.id == (item 0).id && (outline.read "name").isMissing
  | .byHand _ => false

/-- A size becomes a size of zero, and an item without a name becomes the one there was. -/
def undo (id : NodeId) : Act (World Unit) NodeId := do
  let f ← Act.forest
  if isNameless (f.content id) then return ⟨3⟩ else reset id

def undoRule (t : Tree Content) : Tree Content :=
  if isNameless t.root then forest.contents ⟨3⟩ else resetRule t

theorem undo_rewrites : Rewrites kinds forest undoRule undo := by
  intro w id hw hf hid
  obtain ⟨_, wf⟩ := hw.wellFormed declared
  have hrun : (undo id).exec w =
      (if isNameless (w.forest.content id) then pure ⟨3⟩ else reset id : Act (World Unit) NodeId).exec w := by
    rw [undo, Act.exec_bind, Rewriting.exec_forest]
  rw [hrun, wf.contents_eq hid, undoRule, Tree.root]
  split
  · obtain ⟨_, wf⟩ := grown.wellFormed declared
    exact ⟨⟨3⟩, w, rfl, hw, .refl _, Nat.lt_of_lt_of_le (by decide) hf.size_le, hf.contents_eq wf (by decide)⟩
  · rw [← wf.contents_eq hid]
    exact reset_rewrites w id hw hf hid

/-- The nameless item is rebuilt around a new size, and then given up for the old one. -/
def around (newSize : Nat) : Tree Visited :=
  .node ⟨⟨3⟩, ⟨newSize + 1⟩, ⟨3⟩⟩ [.node ⟨⟨0⟩, ⟨0⟩, ⟨0⟩⟩ [], .node ⟨⟨1⟩, ⟨1⟩, ⟨newSize⟩⟩ [],
    .node ⟨⟨2⟩, ⟨2⟩, ⟨2⟩⟩ [], .node ⟨⟨0⟩, ⟨0⟩, ⟨0⟩⟩ []]

def undoing : Tree Visited := .node ⟨⟨6⟩, ⟨6⟩, ⟨6⟩⟩ [around 7, .node ⟨⟨5⟩, ⟨5⟩, ⟨5⟩⟩ [], around 9]

/-- The rewrite depends on what a node says and gives back an item of the input: the size
below is changed, and the item above it reaches the rewrite as itself. -/
theorem undone_change_is_not_seen : Declared kinds ∧ forest.Grown kinds ∧ Rewrites kinds forest undoRule undo ∧
    ∃ (trace : Tree Visited) (v : World Unit), ((rewriter handles undo).visit ⟨6⟩).exec { forest, host := () } =
        (.ok (.node trace.root.answer), v) ∧
      Visiting handles undo { forest, host := () } trace v ∧ trace.root = ⟨⟨6⟩, ⟨6⟩, ⟨6⟩⟩ ∧
      ∃ x ∈ Tree.preorderAll trace.branches, x.node = ⟨1⟩ ∧ x.answer ≠ x.given := by
  refine ⟨declared, grown, undo_rewrites, undoing, _, rfl, ?_, rfl,
    ⟨⟨1⟩, ⟨1⟩, ⟨7⟩⟩, .tail _ (.tail _ (.head _)), rfl, by decide⟩
  -- the item is visited twice, and both times given up for the one there was
  exact .rewritten rfl rfl
    (.cons (.rewritten rfl rfl
        (.cons (.leaf rfl rfl rfl rfl) (.cons (.leaf rfl rfl rfl rfl)
          (.cons (.leaf rfl rfl rfl rfl) (.cons (.leaf rfl rfl rfl rfl) .nil)))) rfl rfl)
      (.cons (.left rfl)
      (.cons (.rewritten rfl rfl
        (.cons (.leaf rfl rfl rfl rfl) (.cons (.leaf rfl rfl rfl rfl)
          (.cons (.leaf rfl rfl rfl rfl) (.cons (.leaf rfl rfl rfl rfl) .nil)))) rfl rfl) .nil))) rfl rfl

end Mixed

end SyntaxForest
