import SyntaxForest.Proofs.Forest.Equality
import SyntaxForest.Proofs.Forest.Walks
/-!
# Structures that mirror each other

Two structures mirror each other when in corresponding places stand nodes that say the
same, but for the kinds, which only describe the same data: a tree of pairs of nodes says
which places correspond. No question tells the two apart: `Mirror.alike`,
`Mirror.foundAlike` for searches, and `Mirror.equals_eq` for equality.
-/

namespace SyntaxForest

/-- The same name, fields, families and display field, under whatever representation. -/
structure Kind.Represents (l k : Kind) : Prop where
  name : l.name = k.name
  table : l.table = k.table
  families : l.families = k.families
  display : l.displayName = k.displayName

/-- A display field is a scalar, so the outline of a record has it. -/
theorem Kind.displayField?_outline {kinds : List Kind} {k : Kind} (declared : Declared kinds)
    (hk : k ∈ kinds) (fields : Fields) : k.displayField? (k.table.outline fields) = k.displayField? fields := by
  unfold displayField?
  rcases hname : k.displayName with _ | name
  · rfl
  · obtain ⟨e, he, hscalar, rfl⟩ := (declared.wellMade hk).display name hname
    have hread : Fields.read (k.table.outline fields) e.name = Fields.read fields e.name := by
      rw [FieldTable.outline, FieldTable.read_map_of_mem (declared.distinct k hk)
        (fun e => e.type.mapNodes (fun _ => .absent) (Fields.read fields e.name)) he,
        FieldType.mapNodes_of_isScalar hscalar]
    simp only [Option.bind_eq_bind, Option.bind_some, hread]

/-- Two nodes in one place. -/
abbrev Pairing := Tree (NodeId × NodeId)

namespace Pairing

def left (t : Pairing) : NodeId := t.root.1

def right (t : Pairing) : NodeId := t.root.2

end Pairing

namespace Forest

variable {f g h : Forest} {kinds : List Kind} {records more : List ValueRecord} {plan : NodeId → Kind}

/-- What stands in one place: a node, and one that says the same as a node of the kind
planned for it. The parts of both stand in the places below. -/
structure Mirrored (plan : NodeId → Kind) (f g : Forest) (p : NodeId × NodeId) (below : List Pairing) :
    Prop where
  content : ∃ k span outline, f.content p.1 = .ofKind k span outline ∧
    g.content p.2 = .ofKind (plan p.1) span outline ∧ (plan p.1).Represents k
  left : f.parts p.1 = below.map Pairing.left
  right : g.parts p.2 = below.map Pairing.right

/-- Two structures, place by place. -/
def Mirror (plan : NodeId → Kind) (f g : Forest) (t : Pairing) : Prop := t.All (Mirrored plan f g)

/-- Below every place of two structures that mirror each other, they do. -/
theorem Mirror.within {t : Pairing} (ht : f.Mirror plan g t) :
    t.All (fun p below => f.Mirror plan g (.node p below)) := Tree.All.within ht

theorem Mirrored.kind? {p : NodeId × NodeId} {below : List Pairing} (hp : Mirrored plan f g p below) :
    ∃ k, f.kind? p.1 = some k ∧ g.kind? p.2 = some (plan p.1) ∧ (plan p.1).Represents k := by
  obtain ⟨k, _, _, hf, hg, hrep⟩ := hp.content
  exact ⟨k, kind?_of_content hf, kind?_of_content hg, hrep⟩

theorem Mirror.schemaDefined {t : Pairing} (ht : f.Mirror plan g t) :
    f.SchemaDefined t.left ∧ g.SchemaDefined t.right := by
  induction ht with
  | @node p below hp _ ih =>
    obtain ⟨k, hk, hl, -⟩ := hp.kind?
    constructor
    · refine .of_parts (by simp [Pairing.left, Tree.root, hk]) (fun b hb => ?_)
      rw [Pairing.left, Tree.root, hp.left] at hb
      obtain ⟨s, hs, rfl⟩ := List.mem_map.1 hb
      exact (ih s hs).1
    · refine .of_parts (by simp [Pairing.right, Tree.root, hl]) (fun b hb => ?_)
      rw [Pairing.right, Tree.root, hp.right] at hb
      obtain ⟨s, hs, rfl⟩ := List.mem_map.1 hb
      exact (ih s hs).2

/-- The structures unfold into the two sides of the pairing. -/
theorem Mirror.tree_eq {t : Pairing} (wf : WellFormed kinds f records) (wg : WellFormed kinds g more)
    (ht : f.Mirror plan g t) : f.tree t.left = t.map (·.1) ∧ g.tree t.right = t.map (·.2) := by
  induction ht with
  | @node p below hp hbelow ih =>
    have hmirror : f.Mirror plan g (.node p below) := .node hp hbelow
    obtain ⟨hf, hg⟩ := hmirror.schemaDefined
    rw [Forest.tree_eq (hf.not_hasCycle wf), Forest.tree_eq (hg.not_hasCycle wg), hf.children_eq,
      hg.children_eq, Tree.map_node, Tree.map_node]
    simp only [Pairing.left, Pairing.right, Tree.root] at hp ⊢
    rw [hp.left, hp.right, List.map_map, List.map_map]
    exact ⟨congrArg (Tree.node p.1) (List.map_congr_left (fun s hs => (ih s hs).1)),
      congrArg (Tree.node p.2) (List.map_congr_left (fun s hs => (ih s hs).2))⟩

/-- What stands in the places stays there. -/
theorem Mirror.later {t : Pairing} (ht : f.Mirror plan g t) (hg : g.Extends h) : f.Mirror plan h t := by
  refine ht.imp (fun p below hp => ?_)
  obtain ⟨_, _, hl, -⟩ := hp.kind?
  have hlt := lt_size_of_kind? (show (g.kind? p.2).isSome = true by simp [hl])
  refine ⟨?_, hp.left, ?_⟩
  · rw [hg.content_eq hlt]
    exact hp.content
  · rw [hg.parts_eq hlt]
    exact hp.right

/-! ## What a node says, read off its content -/

section Content
variable {id : NodeId} {k : Kind} {span : Span} {outline : Fields}

theorem Grown.kindName_eq (grown : f.Grown kinds) (hk : f.kind? id = some k) : f.kindName id = k.name := by
  obtain ⟨_, grown⟩ := grown
  have hlt : id.index < f.size := lt_size_of_kind? (by simp [hk])
  obtain ⟨n, hn⟩ := exists_node?_of_lt hlt
  rw [kind?_of_node? hn] at hk
  rw [kindName, hn]
  exact grown.kindName_eq id n hn k hk

theorem span_of_content (h : f.content id = .ofKind k span outline) : f.span id = span := by
  have hkind : (f.kind? id).isSome = true := by simp [kind?_of_content h]
  obtain ⟨_, _, _, hcontent⟩ := content_of_kind? hkind
  rw [h, Content.ofKind.injEq] at hcontent
  exact hcontent.2.1.symm

theorem nodeText_eq (h : id.index < f.size) :
    f.nodeText id = f.kindName id ++ "[" ++ (f.span id).text ++ "]" := by
  obtain ⟨n, hn⟩ := exists_node?_of_lt h
  rw [nodeText, kindName, Forest.span, hn]
  rfl

theorem WellFormed.displayField?_eq (declared : Declared kinds) (wf : WellFormed kinds f records)
    (h : f.content id = .ofKind k span outline) : f.displayField? id = k.displayField? outline := by
  have hlt : id.index < f.size := lt_size_of_kind? (by simp [kind?_of_content h])
  obtain ⟨n, hn⟩ := exists_node?_of_lt hlt
  rw [content_of_node? hn] at h
  rw [displayField?, hn]
  cases wf.sound id n hn with
  | schema hkind =>
    cases h
    exact (Kind.displayField?_outline declared hkind _).symm
  | wrapped hkind =>
    cases h
    exact (Kind.displayField?_outline declared hkind _).symm
  | graph => cases h

end Content

/-! ## Answers -/

/-- Two structures, and all that can be asked about their nodes on top: what answers list
are the two sides of the same places. -/
structure Alike (f g : Forest) (t : Pairing) : Prop where
  kindName : g.kindName t.right = f.kindName t.left
  span : g.span t.right = f.span t.left
  text : g.nodeText t.right = f.nodeText t.left
  isLeaf : g.isLeaf t.right = f.isLeaf t.left
  depth : g.depth t.right = f.depth t.left
  count : g.count t.right = f.count t.left
  display : g.displayField? t.right = f.displayField? t.left
  children : f.children t.left = t.branches.map Pairing.left ∧
    g.children t.right = t.branches.map Pairing.right
  preorder : f.preorder t.left = t.preorder.map (·.1) ∧ g.preorder t.right = t.preorder.map (·.2)
  postorder : f.postorder t.left = t.postorder.map (·.1) ∧ g.postorder t.right = t.postorder.map (·.2)
  levelOrder : f.levelOrder t.left = t.levelOrder.map (·.1) ∧
    g.levelOrder t.right = t.levelOrder.map (·.2)

theorem Mirror.alike {t : Pairing} (declared : Declared kinds) (hf : f.Grown kinds) (hg : g.Grown kinds)
    (ht : f.Mirror plan g t) : f.Alike g t := by
  obtain ⟨_, wf⟩ := hf.wellFormed declared
  obtain ⟨_, wg⟩ := hg.wellFormed declared
  obtain ⟨hdefined, hdefined'⟩ := ht.schemaDefined
  obtain ⟨htree, htree'⟩ := ht.tree_eq wf wg
  obtain ⟨k, span, outline, hcontent, hcontent', hrep⟩ :
    ∃ k span outline, f.content t.left = .ofKind k span outline ∧
      g.content t.right = .ofKind (plan t.left) span outline ∧ (plan t.left).Represents k := ht.root.content
  have hkind := hf.kindName_eq (kind?_of_content hcontent)
  have hkind' := hg.kindName_eq (kind?_of_content hcontent')
  have hchildren : f.children t.left = t.branches.map Pairing.left :=
    hdefined.children_eq.trans ht.root.left
  have hchildren' : g.children t.right = t.branches.map Pairing.right :=
    hdefined'.children_eq.trans ht.root.right
  have hpreorder : f.preorder t.left = t.preorder.map (·.1) := by
    rw [preorder, htree, Tree.preorder_map]
  have hpreorder' : g.preorder t.right = t.preorder.map (·.2) := by
    rw [preorder, htree', Tree.preorder_map]
  have hname : g.kindName t.right = f.kindName t.left := by
    rw [hkind, hkind', hrep.name]
  have hspan : g.span t.right = f.span t.left :=
    (span_of_content hcontent').trans (span_of_content hcontent).symm
  have hhonest := f.honest_tree t.left
  have hhonest' := g.honest_tree t.right
  refine ⟨hname, hspan, ?_, ?_, ?_, ?_, ?_, ⟨hchildren, hchildren'⟩, ⟨hpreorder, hpreorder'⟩, ?_, ?_⟩
  · rw [nodeText_eq hdefined.lt_size, nodeText_eq hdefined'.lt_size, hname, hspan]
  · rw [isLeaf_eq, isLeaf_eq, hchildren, hchildren']
    simp
  · rw [htree] at hhonest
    rw [htree'] at hhonest'
    rw [depth, depth, htree, htree', Tree.depth_map _ hhonest (Tree.honest_false t),
      Tree.depth_map _ hhonest' (Tree.honest_false t)]
  · have hcount : f.count t.left = (f.preorder t.left).length := hhonest.count_eq
    have hcount' : g.count t.right = (g.preorder t.right).length := hhonest'.count_eq
    rw [hcount, hcount', hpreorder, hpreorder', List.length_map, List.length_map]
  · rw [wf.displayField?_eq declared hcontent, wg.displayField?_eq declared hcontent']
    unfold Kind.displayField?
    rw [hrep.display]
  · rw [postorder, postorder, htree, htree', Tree.postorder_map, Tree.postorder_map]
    exact ⟨rfl, rfl⟩
  · rw [levelOrder, levelOrder, htree, htree', Tree.levelOrder_map, Tree.levelOrder_map]
    exact ⟨rfl, rfl⟩

/-! ## Searches -/

/-- Matchers that ask the same of both structures: for one family, or for a kind on one
side and what is planned for its nodes on the other. -/
inductive Corresponds (plan : NodeId → Kind) (f : Forest) (id : NodeId) : Matcher → Matcher → Prop
  | within (a : AbstractKind) : Corresponds plan f id (.within a) (.within a)
  | exactly (k l : Kind) :
      (∀ n kind, f.Reaches id n → f.kind? n = some kind → (kind.id = k.id ↔ (plan n).id = l.id)) →
      Corresponds plan f id (.exactly k) (.exactly l)

/-- Searches find the two sides of the same places. -/
structure FoundAlike (m n : Matcher) (f g : Forest) (t : Pairing) : Prop where
  findAll : f.findAll m t.left = (t.preorder.filter (fun p => m.accepts f p.1)).map (·.1) ∧
    g.findAll n t.right = (t.preorder.filter (fun p => m.accepts f p.1)).map (·.2)
  findFirst : f.findFirst? m t.left = (t.preorder.find? (fun p => m.accepts f p.1)).map (·.1) ∧
    g.findFirst? n t.right = (t.preorder.find? (fun p => m.accepts f p.1)).map (·.2)
  contains : g.contains n t.right = f.contains m t.left

/-- Where in each place both nodes are accepted or none, searches find the same places. -/
theorem foundAlike_of_accepts {m n : Matcher} {t : Pairing} (hleft : f.preorder t.left = t.preorder.map (·.1))
    (hright : g.preorder t.right = t.preorder.map (·.2))
    (haccepts : ∀ p ∈ t.preorder, n.accepts g p.2 = m.accepts f p.1) : FoundAlike m n f g t := by
  -- every answer is about the list of the matches, and the two lists are those of the same places
  have hmatches : (f.preorder t.left).filter (m.accepts f) =
      (t.preorder.filter (fun p => m.accepts f p.1)).map (·.1) := by
    rw [hleft, List.filter_map]
    rfl
  have hmatches' : (g.preorder t.right).filter (n.accepts g) =
      (t.preorder.filter (fun p => m.accepts f p.1)).map (·.2) := by
    rw [hright, List.filter_map]
    exact congrArg _ (List.filter_congr haccepts)
  have hagree := f.walksAgree m t.left
  have hagree' := g.walksAgree n t.right
  have hfirst : f.findFirst? m t.left = (t.preorder.find? (fun p => m.accepts f p.1)).map (·.1) := by
    rw [hagree.findFirst, ← List.head?_filter, hmatches, List.head?_map, List.head?_filter]
  have hfirst' : g.findFirst? n t.right = (t.preorder.find? (fun p => m.accepts f p.1)).map (·.2) := by
    rw [hagree'.findFirst, ← List.head?_filter, hmatches', List.head?_map, List.head?_filter]
  refine ⟨⟨hagree.findAll.trans hmatches, hagree'.findAll.trans hmatches'⟩, ⟨hfirst, hfirst'⟩, ?_⟩
  rw [contains_eq, contains_eq, hfirst, hfirst', Option.isSome_map, Option.isSome_map]

/-- In each place, both nodes are accepted or none. -/
theorem Mirrored.accepts_eq {p : NodeId × NodeId} {below : List Pairing} (hp : Mirrored plan f g p below)
    {id : NodeId} (hreach : f.Reaches id p.1) {m n : Matcher} (hmn : f.Corresponds plan id m n) :
    n.accepts g p.2 = m.accepts f p.1 := by
  obtain ⟨k, hk, hl, hrep⟩ := hp.kind?
  unfold Forest.kind? at hk hl
  unfold Matcher.accepts
  rw [hk, hl]
  cases hmn with
  | within a => simp only [hrep.families]
  | exactly k' l' hplan =>
    have hiff := hplan p.1 k hreach hk
    rw [Bool.eq_iff_iff]
    simp only [beq_iff_eq, hiff]

theorem Mirror.foundAlike {t : Pairing} (declared : Declared kinds) (hf : f.Grown kinds)
    (hg : g.Grown kinds) (ht : f.Mirror plan g t) {id : NodeId} (hreach : f.Reaches id t.left)
    {m n : Matcher} (hmn : f.Corresponds plan id m n) : FoundAlike m n f g t := by
  obtain ⟨_, wf⟩ := hf.wellFormed declared
  obtain ⟨hpreorder, hpreorder'⟩ := (ht.alike declared hf hg).preorder
  refine foundAlike_of_accepts hpreorder hpreorder' (fun p hp => ?_)
  have hp' : p.1 ∈ f.preorder t.left := hpreorder ▸ List.mem_map_of_mem hp
  obtain ⟨below, hmirrored⟩ := ht.of_mem_preorder hp
  exact hmirrored.accepts_eq (hreach.trans ((ht.schemaDefined.1.mem_preorder_iff wf).1 hp')) hmn

/-! ## Equality -/

/-- Nodes of one kind get one kind, and nodes of different kinds different ones. -/
def Consistent (plan : NodeId → Kind) (f : Forest) (a b : NodeId) : Prop :=
  ∀ x y, f.Reaches a x → f.Reaches b y → (f.kind? x = f.kind? y ↔ plan x = plan y)

theorem Mirrored.facts?_eq_iff {p q : NodeId × NodeId} {below below' : List Pairing}
    (hp : Mirrored plan f g p below) (hq : Mirrored plan f g q below')
    (hplan : f.kind? p.1 = f.kind? q.1 ↔ plan p.1 = plan q.1) :
    g.facts? p.2 = g.facts? q.2 ↔ f.facts? p.1 = f.facts? q.1 := by
  obtain ⟨k, span, outline, hpf, hpg, hprep⟩ := hp.content
  obtain ⟨k', span', outline', hqf, hqg, hqrep⟩ := hq.content
  rw [kind?_of_content hpf, kind?_of_content hqf, Option.some.injEq] at hplan
  simp only [facts?, hpf, hpg, hqf, hqg, Content.facts?, Option.some.injEq, Facts.mk.injEq, hplan,
    hprep.table, hqrep.table]

theorem Mirror.key_eq_iff {t u : Pairing} (wf : WellFormed kinds f records) (wg : WellFormed kinds g more)
    (ht : f.Mirror plan g t) (hu : f.Mirror plan g u) (hplan : f.Consistent plan t.left u.left) :
    g.key t.right = g.key u.right ↔ f.key t.left = f.key u.left := by
  induction ht generalizing u with
  | @node p below hp hbelow ih =>
    cases hu with
    | @node q below' hq hbelow' =>
      have hmirror : f.Mirror plan g (.node p below) := .node hp hbelow
      have hmirror' : f.Mirror plan g (.node q below') := .node hq hbelow'
      obtain ⟨hdefined, hdefined_g⟩ := hmirror.schemaDefined
      obtain ⟨hdefined', hdefined_g'⟩ := hmirror'.schemaDefined
      have hfacts : g.facts? p.2 = g.facts? q.2 ↔ f.facts? p.1 = f.facts? q.1 :=
        hp.facts?_eq_iff hq (hplan p.1 q.1 .refl .refl)
      rw [wg.key_eq_iff hdefined_g.lt_size hdefined_g'.lt_size, wf.key_eq_iff hdefined.lt_size hdefined'.lt_size]
      simp only [Pairing.left, Pairing.right, Tree.root] at hdefined hdefined' hplan ⊢
      rw [hfacts, hp.left, hq.left, hp.right, hq.right]
      simp only [List.forall₂_map_left_iff, List.forall₂_map_right_iff]
      refine and_congr_right (fun _ => forall₂_congr_mem (fun s hs u hu => ?_))
      have hs' : s.left ∈ f.parts p.1 := hp.left ▸ List.mem_map_of_mem hs
      have hu' : u.left ∈ f.parts q.1 := hq.left ▸ List.mem_map_of_mem hu
      exact ih s hs (hbelow' u hu) (fun x y hx hy =>
        hplan x y (.head (hdefined.holds hs') hx) (.head (hdefined'.holds hu') hy))

/-- Equality gives the same answer on both sides. -/
theorem Mirror.equals_eq {t u : Pairing} (declared : Declared kinds) (hf : f.Grown kinds)
    (hg : g.Grown kinds) (ht : f.Mirror plan g t) (hu : f.Mirror plan g u)
    (hfree : f.NaNFree t.left) (hplan : f.Consistent plan t.left u.left) :
    g.equals t.right u.right = f.equals t.left u.left := by
  obtain ⟨_, wf⟩ := hf.wellFormed declared
  obtain ⟨_, wg⟩ := hg.wellFormed declared
  obtain ⟨hdefined, hdefined_g⟩ := ht.schemaDefined
  obtain ⟨hdefined', hdefined_g'⟩ := hu.schemaDefined
  have hpreorder := (ht.alike declared hf hg).preorder
  have hfree' : g.NaNFree t.right := by
    intro y hy
    have hy' := (hdefined_g.mem_preorder_iff wg).2 hy
    rw [hpreorder.2] at hy'
    obtain ⟨p, hp, rfl⟩ := List.mem_map.1 hy'
    obtain ⟨_, hmirrored⟩ := ht.of_mem_preorder hp
    obtain ⟨k, span, outline, hcontent, hcontent', -⟩ := hmirrored.content
    have hreach := (hdefined.mem_preorder_iff wf).1 (hpreorder.1 ▸ List.mem_map_of_mem hp)
    rw [span_of_content hcontent', ← span_of_content hcontent]
    exact hfree p.1 hreach
  rw [Bool.eq_iff_iff, wg.equals_iff_key declared hdefined_g hfree' hdefined_g',
    wf.equals_iff_key declared hdefined hfree hdefined']
  exact ht.key_eq_iff wf wg hu hplan

end Forest

end SyntaxForest
