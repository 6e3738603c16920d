import SyntaxForest.Proofs.Visitor.Rebuild
/-!
# Visits of rewriters

A `rewriter` handles a node by transforming its children and handing what comes of it
to a rewrite, which is any host code that gives a node and changes none. `Visiting`
follows a visit node by node, and `Faithful` says what is known of a visited node: what
the rewrite is given for it, and that the answer says what `Content.rewrite`, the
reference recursion on what nodes say, gives. `exec_visitWithin` runs a visit, by
induction on the steps that are left.
-/

namespace SyntaxForest

/-! ## The reference recursion -/

namespace Content

/-- The method by which a visitor handles a node that says this. -/
def visitMethod : Content → String
  | .ofKind kind _ _ => kind.visitMethod
  | .byHand _ => visitMethodName NodeClass.graph.name

mutual

/-- Rewrite what is below a handled node, then the node itself. -/
def rewrite (handles : String → Bool) (rule : Tree Content → Tree Content) : Tree Content → Tree Content
  | .node c bs =>
    if handles c.visitMethod then rule (.node c (rewriteAll handles rule bs)) else .node c bs

def rewriteAll (handles : String → Bool) (rule : Tree Content → Tree Content) :
    List (Tree Content) → List (Tree Content)
  | [] => []
  | t :: rest => rewrite handles rule t :: rewriteAll handles rule rest

end

theorem rewriteAll_eq_map (handles : String → Bool) (rule : Tree Content → Tree Content)
    (ts : List (Tree Content)) : rewriteAll handles rule ts = ts.map (rewrite handles rule) := by
  induction ts with
  | nil => rfl
  | cons t rest ih => rw [rewriteAll, ih, List.map_cons]

end Content

/-! ## Visits -/

variable {σ : Type}

/-- The transformer that hands every handled node, its children transformed, to a
rewrite. -/
def rewriter (handles : String → Bool) (apply : NodeId → Act (World σ) NodeId) : Visitor σ where
  method? name :=
    if handles name then
      some (fun visit id => do return .node (← apply (← transformChildren visit id)))
    else none
  fallback := Visitor.keep

/-- A node of a visit: what the rewrite was given for it, and what stands in its place
afterwards. -/
structure Visited where
  node : NodeId
  given : NodeId
  answer : NodeId

/-- A node rebuilt from the answers for its parts. -/
def Forest.rebuilt (f : Forest) (id : NodeId) (below : List (Tree Visited)) : Act Forest NodeId :=
  match f.node? id with
  | some { span, shape := .schema kind fields, .. } =>
    Forest.mapChildren kind id span fields (answered (below.map (fun t => (t.root.node, t.root.answer))))
  | _ => pure id

mutual

/-- A visit of a rewriter from one world to another, node by node. Nodes that are not
handled stay, and nothing below them is visited. -/
inductive Visiting (handles : String → Bool) (apply : NodeId → Act (World σ) NodeId) :
    World σ → Tree Visited → World σ → Prop
  | left {w id} : handles (w.forest.content id).visitMethod = false →
      Visiting handles apply w (.node ⟨id, id, id⟩ []) w
  | rewritten {w v v' id below given f answer} : handles (w.forest.content id).visitMethod = true →
      below.map (·.root.node) = w.forest.parts id → VisitingAll handles apply w below v →
      (w.forest.rebuilt id below).exec v.forest = (.ok given, f) →
      (apply given).exec { v with forest := f } = (.ok answer, v') →
      Visiting handles apply w (.node ⟨id, given, answer⟩ below) v'

/-- Visits one after the other. -/
inductive VisitingAll (handles : String → Bool) (apply : NodeId → Act (World σ) NodeId) :
    World σ → List (Tree Visited) → World σ → Prop
  | nil {w} : VisitingAll handles apply w [] w
  | cons {w v v' t rest} : Visiting handles apply w t v → VisitingAll handles apply v rest v' →
      VisitingAll handles apply w (t :: rest) v'

end

/-- A node without parts is handed to the rewrite as it is. -/
theorem Visiting.leaf {handles : String → Bool} {apply : NodeId → Act (World σ) NodeId} {w v : World σ}
    {id answer : NodeId} {f : Forest} (handled : handles (w.forest.content id).visitMethod = true)
    (hparts : w.forest.parts id = []) (hrebuilt : (w.forest.rebuilt id []).exec w.forest = (.ok id, f))
    (hrun : (apply id).exec { w with forest := f } = (.ok answer, v)) :
    Visiting handles apply w (.node ⟨id, id, answer⟩ []) v :=
  .rewritten handled hparts.symm .nil hrebuilt hrun

/-- Host code that rewrites as a rule says, from any later forest: on every node it gives
a node that says what the rule says of it. It may make nodes, and changes none. -/
def Rewrites (kinds : List Kind) (f : Forest) (rule : Tree Content → Tree Content)
    (apply : NodeId → Act (World σ) NodeId) : Prop :=
  ∀ (w : World σ) (given : NodeId), w.forest.Grown kinds → f.Extends w.forest →
    given.index < w.forest.size →
    ∃ answer v, (apply given).exec w = (.ok answer, v) ∧ v.forest.Grown kinds ∧
      w.forest.Extends v.forest ∧ answer.index < v.forest.size ∧
      v.forest.contents answer = rule (w.forest.contents given)

/-- In the slots of a node, or in those of what is there, and so on. -/
def Forest.Below (f : Forest) : NodeId → NodeId → Prop :=
  Relation.ReflTransGen (fun a b => b ∈ f.parts a)

/-- The rewrite finds the nodes of a structure only below what it is given. -/
def StaysLocal (kinds : List Kind) (f : Forest) (root : NodeId) (apply : NodeId → Act (World σ) NodeId) :
    Prop :=
  ∀ (w : World σ) given answer v, w.forest.Grown kinds → f.Extends w.forest →
    (apply given).exec w = (.ok answer, v) →
    ∀ x, f.Below root x → v.forest.Below answer x → w.forest.Below given x

namespace Forest

variable {f g : Forest} {kinds : List Kind} {records : List ValueRecord} {a b : NodeId}

theorem WellFormed.index_le_of_below (wf : WellFormed kinds f records) (h : f.Below a b) :
    b.index ≤ a.index := by
  induction h with
  | refl => exact le_rfl
  | tail _ hb ih => exact (wf.index_lt hb).le.trans ih

theorem Extends.below_iff (hf : f.Extends g) (wf : WellFormed kinds f records) (ha : a.index < f.size) :
    g.Below a b ↔ f.Below a b := by
  constructor
  · intro h
    induction h with
    | refl => exact .refl
    | tail _ hb ih =>
      rw [hf.parts_eq ((wf.index_le_of_below ih).trans_lt ha)] at hb
      exact ih.tail hb
  · intro h
    induction h with
    | refl => exact .refl
    | tail hac hb ih =>
      rw [← hf.parts_eq ((wf.index_le_of_below hac).trans_lt ha)] at hb
      exact ih.tail hb

end Forest

/-! ## What a visit leads to -/

/-- A rewrite of a structure in a forest. -/
structure Rewriting (σ : Type) where
  kinds : List Kind
  forest : Forest
  root : NodeId
  handles : String → Bool
  rule : Tree Content → Tree Content
  apply : NodeId → Act (World σ) NodeId
  declared : Declared kinds
  grown : forest.Grown kinds
  held : root.index < forest.size
  rewrites : Rewrites kinds forest rule apply

namespace Rewriting

/-- What is to stand for what is there. -/
def target (R : Rewriting σ) (t : Tree Content) : Tree Content := Content.rewrite R.handles R.rule t

def Handled (R : Rewriting σ) (id : NodeId) : Prop :=
  R.handles (R.forest.content id).visitMethod = true

/-- A visited node with the visits below it, seen from a forest after the visit. -/
structure Faithful (R : Rewriting σ) (h : Forest) (v : Visited) (below : List (Tree Visited)) : Prop where
  input : R.forest.Below R.root v.node
  held : v.given.index < h.size ∧ v.answer.index < h.size
  left : ¬ R.Handled v.node → v.given = v.node ∧ v.answer = v.node ∧ below = []
  kept_or_new : (v.given = v.node ∧ ∀ b ∈ below, b.root.answer = b.root.node) ∨
    (R.forest.size ≤ v.given.index ∧ ∃ b ∈ below, b.root.answer ≠ b.root.node)
  given_parts : R.Handled v.node → ∀ c ∈ h.parts v.given, ∃ b ∈ below, b.root.answer = c ∧
    b.root.node ∈ R.forest.parts v.node
  given_contents : R.Handled v.node →
    h.contents v.given = .node (R.forest.content v.node) ((R.forest.contents v.node).branches.map R.target)
  answer_contents : h.contents v.answer = R.target (R.forest.contents v.node)
  local_answer : StaysLocal R.kinds R.forest R.root R.apply →
    ∀ x, R.forest.Below R.root x → h.Below v.answer x → h.Below v.given x

/-- A visit from one world to another, and what is known of its nodes. -/
structure Leads (R : Rewriting σ) (w : World σ) (t : Tree Visited) (v : World σ) : Prop where
  visiting : Visiting R.handles R.apply w t v
  grown : v.forest.Grown R.kinds
  kept : w.forest.Extends v.forest
  faithful : t.All (R.Faithful v.forest)

variable {R : Rewriting σ} {h k : Forest} {w v : World σ} {id : NodeId} {below : List (Tree Visited)}

theorem wellFormed (R : Rewriting σ) : ∃ records, Forest.WellFormed R.kinds R.forest records :=
  R.grown.wellFormed R.declared

theorem lt_size_of_below {x : NodeId} (hx : R.forest.Below R.root x) : x.index < R.forest.size := by
  obtain ⟨_, wf⟩ := R.wellFormed
  exact (wf.index_le_of_below hx).trans_lt R.held

/-- What is known stays known. -/
theorem Faithful.later {u : Visited} (hu : R.Faithful h u below) (hh : h.Grown R.kinds)
    (hk : h.Extends k) : R.Faithful k u below := by
  obtain ⟨_, wh⟩ := hh.wellFormed R.declared
  obtain ⟨hgiven, hanswer⟩ := hu.held
  refine ⟨hu.input, ⟨hgiven.trans_le hk.size_le, hanswer.trans_le hk.size_le⟩, hu.left, hu.kept_or_new,
    ?_, ?_, ?_, ?_⟩
  · rw [hk.parts_eq hgiven]
    exact hu.given_parts
  · rw [hk.contents_eq wh hgiven]
    exact hu.given_contents
  · rw [hk.contents_eq wh hanswer]
    exact hu.answer_contents
  · intro hlocal x hx
    rw [hk.below_iff wh hanswer, hk.below_iff wh hgiven]
    exact hu.local_answer hlocal x hx

/-! ## Runs -/

/-- The visit of a list of nodes, one after the other. -/
theorem exec_visits {visit : Visit σ} {ids : List NodeId}
    (hvisit : ∀ w : World σ, w.forest.Grown R.kinds → R.forest.Extends w.forest → ∀ c ∈ ids,
      ∃ t v, (visit c).exec w = (.ok (.node t.root.answer), v) ∧ t.root.node = c ∧ R.Leads w t v)
    (hgrown : w.forest.Grown R.kinds) (hkept : R.forest.Extends w.forest) :
    ∃ below v, (ids.mapM (fun c => do return (c, ← visit c))).exec w =
        (.ok (answered (below.map (fun t => (t.root.node, t.root.answer)))), v) ∧
      below.map (·.root.node) = ids ∧ VisitingAll R.handles R.apply w below v ∧
      v.forest.Grown R.kinds ∧ w.forest.Extends v.forest ∧ ∀ t ∈ below, t.All (R.Faithful v.forest) := by
  induction ids generalizing w with
  | nil => exact ⟨[], w, rfl, rfl, .nil, hgrown, .refl _, by simp⟩
  | cons c rest ih =>
    obtain ⟨t, v, hrun, hnode, hlead⟩ := hvisit w hgrown hkept c (by simp)
    obtain ⟨below, v', hruns, hnodes, hvisits, hgrown', hkept', hall⟩ :=
      ih (fun w hg hk d hd => hvisit w hg hk d (by simp [hd])) hlead.grown (hkept.trans hlead.kept)
    refine ⟨t :: below, v', ?_, by simp [hnode, hnodes], .cons hlead.visiting hvisits, hgrown',
      hlead.kept.trans hkept', ?_⟩
    · rw [Act.exec_mapM_cons, Act.exec_bind, hrun]
      simp only [Act.exec_pure, hruns, answered, List.map_cons, hnode]
    · refine List.forall_mem_cons.2 ⟨hlead.faithful.imp (fun _ _ hu => hu.later hlead.grown hkept'), hall⟩

/-- What a handled node becomes before the rewrite is applied to it: the node itself or a
new one of its content, with the answers for its parts in their places. -/
structure Prepares (R : Rewriting σ) (id : NodeId) (below : List (Tree Visited)) (f g : Forest)
    (given : NodeId) : Prop where
  grown : g.Grown R.kinds
  kept : f.Extends g
  held : given.index < g.size
  content_eq : g.content given = R.forest.content id
  kept_or_new : (given = id ∧ ∀ b ∈ below, b.root.answer = b.root.node) ∨
    (R.forest.size ≤ given.index ∧ ∃ b ∈ below, b.root.answer ≠ b.root.node)
  parts_eq : ∃ place : NodeId → NodeId, g.parts given = (R.forest.parts id).map place ∧
    ∀ c ∈ R.forest.parts id, ∃ b ∈ below, b.root.node = c ∧ b.root.answer = place c

/-- A node that is handed on as it is. -/
theorem Prepares.same {f : Forest} (hgrown : f.Grown R.kinds) (hf : R.forest.Extends f)
    (hid : id.index < R.forest.size) (hnodes : below.map (·.root.node) = R.forest.parts id)
    (hall : ∀ b ∈ below, b.root.answer = b.root.node) : R.Prepares id below f f id := by
  refine ⟨hgrown, .refl _, hid.trans_le hf.size_le, hf.content_eq hid, .inl ⟨rfl, hall⟩,
    fun c => c, by rw [hf.parts_eq hid, List.map_id'], fun c hc => ?_⟩
  obtain ⟨t, ht, rfl⟩ := List.mem_map.1 (hnodes ▸ hc)
  exact ⟨t, ht, rfl, hall t ht⟩

theorem exec_rebuilt (hw : R.forest.Extends w.forest) (hv : w.forest.Extends v.forest)
    (hgrown : v.forest.Grown R.kinds) (hid : id.index < R.forest.size)
    (hnodes : below.map (·.root.node) = R.forest.parts id)
    (hanswers : ∀ t ∈ below, t.root.answer.index < v.forest.size) :
    ∃ given g, (w.forest.rebuilt id below).exec v.forest = (.ok given, g) ∧
      R.Prepares id below v.forest g given := by
  obtain ⟨_, wf⟩ := R.wellFormed
  obtain ⟨n, hn⟩ := Forest.exists_node?_of_lt hid
  have hparts : R.forest.parts id = n.parts := Forest.parts_of_node? hn
  have hcontent : R.forest.content id = n.content id := Forest.content_of_node? hn
  have hfv := hw.trans hv
  have hsame : (∀ b ∈ below, b.root.answer = b.root.node) → R.Prepares id below v.forest v.forest id :=
    .same hgrown hfv hid hnodes
  have hnone : n.parts = [] → below = [] := by
    intro hempty
    rw [hparts, hempty, List.map_eq_nil_iff] at hnodes
    exact hnodes
  rw [Forest.rebuilt, hw id n hn]
  cases wf.sound id n hn with
  | @schema span parent kind fields hkind hvalue hfits hold =>
    have hresults : (below.map (fun t => (t.root.node, t.root.answer))).map (·.1) =
        kind.table.children fields := by
      rw [List.map_map]
      exact hnodes.trans hparts
    have hheld : ∀ p ∈ below.map (fun t => (t.root.node, t.root.answer)), p.2.index < v.forest.size := by
      intro p hp
      obtain ⟨t, ht, rfl⟩ := List.mem_map.1 hp
      exact hanswers t ht
    rcases Forest.exec_mapChildren R.declared hgrown hkind hvalue hfits hresults hheld id span with
      ⟨hrun, hall⟩ | ⟨⟨p, hp, hne⟩, place, g, hrun, hplace, adds⟩
    · refine ⟨id, v.forest, hrun, hsame (fun b hb => ?_)⟩
      exact hall _ (List.mem_map_of_mem hb)
    · refine ⟨_, g, hrun, adds.grown, adds.kept, ?_, ?_, .inr ⟨hfv.size_le, ?_⟩, place, ?_, fun c hc => ?_⟩
      · rw [adds.size_eq]
        exact Nat.lt_succ_self _
      · rw [adds.content_eq, hcontent]
        rfl
      · obtain ⟨t, ht, rfl⟩ := List.mem_map.1 hp
        exact ⟨t, ht, hne⟩
      · rw [adds.parts_eq, hparts]
        rfl
      · rw [hparts] at hc
        obtain ⟨t, ht, heq⟩ := List.mem_map.1 (hplace c hc)
        exact ⟨t, ht, congrArg Prod.fst heq, congrArg Prod.snd heq⟩
  | wrapped =>
    rw [hnone rfl] at hsame ⊢
    exact ⟨id, v.forest, rfl, hsame (by simp)⟩
  | graph =>
    rw [hnone rfl] at hsame ⊢
    exact ⟨id, v.forest, rfl, hsame (by simp)⟩

theorem contents_eq (hid : id.index < R.forest.size) : R.forest.contents id =
    .node (R.forest.content id) ((R.forest.parts id).map R.forest.contents) := by
  obtain ⟨_, wf⟩ := R.wellFormed
  exact wf.contents_eq hid

theorem target_of_handled (hid : id.index < R.forest.size) (hhandled : R.Handled id) :
    R.target (R.forest.contents id) = R.rule
      (.node (R.forest.content id) ((R.forest.contents id).branches.map R.target)) := by
  rw [Handled] at hhandled
  rw [contents_eq hid, target, Content.rewrite, if_pos hhandled, Content.rewriteAll_eq_map]
  rfl

theorem target_of_not_handled (hid : id.index < R.forest.size) (hhandled : ¬ R.Handled id) :
    R.target (R.forest.contents id) = R.forest.contents id := by
  rw [Handled] at hhandled
  rw [contents_eq hid, target, Content.rewrite, if_neg hhandled]

/-- What is handed to the rewrite says what the node says, each part replaced by what is
to stand for it. -/
theorem Prepares.contents_eq {f g : Forest} {given : NodeId} (hf : f.Grown R.kinds)
    (hid : R.forest.Below R.root id) (hbelow : ∀ t ∈ below, t.All (R.Faithful f))
    (prepares : R.Prepares id below f g given) : g.contents given =
      .node (R.forest.content id) ((R.forest.contents id).branches.map R.target) := by
  obtain ⟨_, wg⟩ := prepares.grown.wellFormed R.declared
  obtain ⟨_, wf⟩ := hf.wellFormed R.declared
  obtain ⟨place, hparts, hplace⟩ := prepares.parts_eq
  rw [wg.contents_eq prepares.held, prepares.content_eq, hparts, Rewriting.contents_eq (lt_size_of_below hid),
    List.map_map, Tree.branches, List.map_map]
  congr 1
  refine List.map_congr_left (fun c hc => ?_)
  obtain ⟨t, ht, hnode, hanswer⟩ := hplace c hc
  have hfaithful := (hbelow t ht).root
  rw [Function.comp_apply, Function.comp_apply, ← hanswer, ← hnode, ← hfaithful.answer_contents]
  exact prepares.kept.contents_eq wf hfaithful.held.2

/-- A handled node, once its parts are visited. -/
theorem exec_apply {g : Forest} {given : NodeId} (hw : R.forest.Extends w.forest)
    (hv : w.forest.Extends v.forest) (hgrown : v.forest.Grown R.kinds) (hid : R.forest.Below R.root id)
    (hhandled : R.Handled id) (hnodes : below.map (·.root.node) = R.forest.parts id)
    (hvisits : VisitingAll R.handles R.apply w below v) (hbelow : ∀ t ∈ below, t.All (R.Faithful v.forest))
    (hrun : (w.forest.rebuilt id below).exec v.forest = (.ok given, g))
    (prepares : R.Prepares id below v.forest g given) :
    ∃ answer v', (R.apply given).exec { v with forest := g } = (.ok answer, v') ∧
      R.Leads w (.node ⟨id, given, answer⟩ below) v' := by
  have hlt := lt_size_of_below hid
  obtain ⟨_, wg⟩ := prepares.grown.wellFormed R.declared
  have hkept := hw.trans (hv.trans prepares.kept)
  have hcontents := prepares.contents_eq hgrown hid hbelow
  obtain ⟨answer, v', happly, hgrown', hkept', hheld, hrule⟩ :=
    R.rewrites { v with forest := g } given prepares.grown hkept prepares.held
  refine ⟨answer, v', happly, ?_, hgrown', hv.trans (prepares.kept.trans hkept'), .node ?_ (fun t ht => ?_)⟩
  · refine .rewritten ?_ ?_ hvisits hrun happly
    · rwa [hw.content_eq hlt]
    · rw [hnodes, hw.parts_eq hlt]
  · refine ⟨hid, ⟨prepares.held.trans_le hkept'.size_le, hheld⟩, fun hnot => absurd hhandled hnot,
      prepares.kept_or_new, fun _ => ?_, fun _ => ?_, ?_, fun hlocal x hx hbelow' => ?_⟩
    · obtain ⟨place, hparts, hplace⟩ := prepares.parts_eq
      rw [hkept'.parts_eq prepares.held, hparts]
      intro c hc
      obtain ⟨d, hd, rfl⟩ := List.mem_map.1 hc
      obtain ⟨t, ht, hnode, hanswer⟩ := hplace d hd
      exact ⟨t, ht, hanswer, hnode ▸ hd⟩
    · rw [hkept'.contents_eq wg prepares.held, hcontents]
    · rw [hrule, hcontents, target_of_handled hlt hhandled]
    · rw [hkept'.below_iff wg prepares.held]
      exact hlocal _ _ _ _ prepares.grown hkept happly x hx hbelow'
  · exact (hbelow t ht).imp (fun _ _ hu => hu.later hgrown (prepares.kept.trans hkept'))

/-- A node that is not handled. -/
theorem Leads.left (hgrown : w.forest.Grown R.kinds) (hw : R.forest.Extends w.forest)
    (hid : R.forest.Below R.root id) (hnot : ¬ R.Handled id) : R.Leads w (.node ⟨id, id, id⟩ []) w := by
  obtain ⟨_, wf⟩ := R.wellFormed
  have hlt := lt_size_of_below hid
  have hheld := hlt.trans_le hw.size_le
  refine ⟨.left ?_, hgrown, .refl _, .node ?_ (by simp)⟩
  · rw [hw.content_eq hlt]
    exact Bool.eq_false_iff.2 hnot
  · refine ⟨hid, ⟨hheld, hheld⟩, fun _ => ⟨rfl, rfl, rfl⟩, .inl ⟨rfl, by simp⟩, fun h => absurd h hnot,
      fun h => absurd h hnot, ?_, fun _ _ _ h => h⟩
    rw [target_of_not_handled hlt hnot]
    exact hw.contents_eq wf hlt

theorem visitMethod_content (n : Node) (id : NodeId) : (n.content id).visitMethod = n.visitMethod := by
  rcases n with ⟨_, _ | _ | _, _⟩ <;> rfl

theorem exec_forest (w : World σ) : Act.forest.exec w = (.ok w.forest, w) := rfl

theorem exec_dispatch {handles : String → Bool} {apply : NodeId → Act (World σ) NodeId} (visit : Visit σ)
    {n : Node} (hn : w.forest.node? id = some n) :
    ((rewriter handles apply).dispatch visit id).exec w =
      if handles n.visitMethod then
        ((do return .node (← apply (← transformChildren visit id))) : Act (World σ) Value).exec w
      else (.ok (.node id), w) := by
  rw [Visitor.dispatch, Act.exec_bind, exec_forest]
  simp only [hn, Option.bind_some, rewriter]
  rcases handles n.visitMethod <;> rfl

/-- The children of a node are transformed by visits of its parts, and by rebuilding it. -/
theorem exec_transformChildren {visit : Visit σ} {given : NodeId} {g : Forest}
    (hruns : ((w.forest.parts id).mapM (fun c => do return (c, ← visit c))).exec w =
      (.ok (answered (below.map (fun t => (t.root.node, t.root.answer)))), v))
    (hrun : (w.forest.rebuilt id below).exec v.forest = (.ok given, g)) :
    (transformChildren visit id).exec w = (.ok given, { v with forest := g }) := by
  -- a node without slots is handed on as it is, and nothing is visited
  have hwhole : w.forest.parts id = [] → (pure id : Act Forest NodeId).exec v.forest = (.ok given, g) →
      (pure id : Act (World σ) NodeId).exec w = (.ok given, { v with forest := g }) := by
    intro hparts hpure
    rw [hparts, Act.exec_mapM_nil] at hruns
    rw [Act.exec_pure] at hpure ⊢
    obtain ⟨hgiven, rfl⟩ := Prod.mk.inj hpure
    obtain ⟨-, rfl⟩ := Prod.mk.inj hruns
    exact Prod.ext hgiven rfl
  rw [transformChildren, Act.exec_bind, exec_forest]
  rw [Forest.rebuilt] at hrun
  rcases hn : w.forest.node? id with _ | ⟨span, ⟨kind, fields⟩ | ⟨kind, record⟩ | ⟨name, links⟩, parent⟩ <;>
    simp only [hn] at hrun ⊢
  · exact hwhole (by rw [Forest.parts, hn]; rfl) hrun
  · have hkind : (w.forest.kind? id).isSome = true := by rw [Forest.kind?_of_node? hn]; rfl
    rw [Act.exec_bind, Forest.children_eq_parts hkind, hruns]
    simp only [Act.onForest, Act.exec_onPart, hrun]
  · exact hwhole (Forest.parts_of_node? hn) hrun
  · exact hwhole (Forest.parts_of_node? hn) hrun

/-- A visit with enough steps left. -/
theorem exec_visitWithin {steps : Nat} (hgrown : w.forest.Grown R.kinds)
    (hw : R.forest.Extends w.forest) (hid : R.forest.Below R.root id) (hsteps : id.index < steps) :
    ∃ t v, ((rewriter R.handles R.apply).visitWithin steps id).exec w = (.ok (.node t.root.answer), v) ∧
      t.root.node = id ∧ R.Leads w t v := by
  induction steps generalizing w id with
  | zero => omega
  | succ steps ih =>
    obtain ⟨_, wf⟩ := R.wellFormed
    have hlt := lt_size_of_below hid
    obtain ⟨n, hn⟩ := Forest.exists_node?_of_lt hlt
    have hcontent : R.forest.content id = n.content id := Forest.content_of_node? hn
    have hmethod : R.Handled id ↔ R.handles n.visitMethod = true := by
      rw [Handled, hcontent, visitMethod_content]
    rw [Visitor.visitWithin, exec_dispatch _ (hw id n hn)]
    by_cases hhandled : R.Handled id
    · have hvisit : ∀ w : World σ, w.forest.Grown R.kinds → R.forest.Extends w.forest →
          ∀ c ∈ R.forest.parts id, ∃ t v, ((rewriter R.handles R.apply).visitWithin steps c).exec w =
            (.ok (.node t.root.answer), v) ∧ t.root.node = c ∧ R.Leads w t v := by
        intro w hgrown hw c hc
        have := wf.index_lt hc
        exact ih hgrown hw (hid.tail hc) (by omega)
      obtain ⟨below, v, hruns, hnodes, hvisits, hgrown', hkept', hbelow⟩ := exec_visits hvisit hgrown hw
      obtain ⟨given, g, hrun, prepares⟩ := exec_rebuilt hw hkept' hgrown' hlt hnodes
        (fun t ht => (hbelow t ht).root.held.2)
      obtain ⟨answer, v', happly, leads⟩ :=
        exec_apply hw hkept' hgrown' hid hhandled hnodes hvisits hbelow hrun prepares
      rw [← hw.parts_eq hlt] at hruns
      refine ⟨_, v', ?_, rfl, leads⟩
      rw [if_pos (hmethod.1 hhandled)]
      rw [Act.exec_bind, exec_transformChildren hruns hrun]
      simp only [Act.exec_bind, happly]
      rfl
    · rw [if_neg (mt hmethod.2 hhandled)]
      exact ⟨.node ⟨id, id, id⟩ [], w, rfl, rfl, .left hgrown hw hid hhandled⟩

end Rewriting

end SyntaxForest
