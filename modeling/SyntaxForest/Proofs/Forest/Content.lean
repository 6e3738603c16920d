import SyntaxForest.Proofs.Forest.Grown
import SyntaxForest.Proofs.Forest.Unfolding
/-!
# What a node means

`Forest.contents` unfolds a node into the tree of what it and everything below it
says: kinds, spans, scalars, and which slots hold something. Nodes made from a kind
hold older nodes only, so the unfolding is complete, it has one equation
(`contents_eq`), and it stays as it is while the forest is extended. Below a
hand-written node it does not look.
-/

namespace SyntaxForest

namespace Tree

variable {α β : Type}

/-- Unfold a graph from a node, at most `steps` levels deep: `next` gives what a node
leads to. -/
def grow (label : α → β) (next : α → List α) : (steps : Nat) → α → Tree β
  | 0, a => .node (label a) []
  | steps + 1, a => .node (label a) ((next a).map (grow label next steps))

/-- Two graphs that agree from a node on, where every step goes down in rank, unfold
alike, whatever number of steps beyond the rank is allowed. -/
theorem grow_congr {label label' : α → β} {next next' : α → List α} {P : α → Prop} {rank : α → Nat}
    (same : ∀ a, P a → label a = label' a ∧ next a = next' a)
    (below : ∀ a, P a → ∀ b ∈ next a, P b ∧ rank b < rank a) {a : α} (ha : P a) {n m : Nat}
    (hn : rank a < n) (hm : rank a < m) : grow label next n a = grow label' next' m a := by
  induction n generalizing a m with
  | zero => omega
  | succ n ih =>
    obtain ⟨m, rfl⟩ : ∃ k, m = k + 1 := ⟨m - 1, by omega⟩
    obtain ⟨hlabel, hnext⟩ := same a ha
    rw [grow, grow, ← hlabel, ← hnext]
    congr 1
    refine List.map_congr_left (fun b hb => ?_)
    obtain ⟨hPb, hrank⟩ := below a ha b hb
    exact ih hPb (by omega) (by omega)

theorem mem_preorderAll {a : α} {ts : List (Tree α)} : a ∈ preorderAll ts ↔ ∃ t ∈ ts, a ∈ t.preorder := by
  rw [preorderAll_eq, List.mem_flatMap]

end Tree

/-- What a node says apart from what it holds. A hand-written node only says which one
it is. -/
inductive Content where
  | ofKind (kind : Kind) (span : Span) (outline : Fields)
  | byHand (id : NodeId)

namespace Node

/-- The nodes in the slots of a node's record. Hand-written nodes have links instead. -/
def parts (n : Node) : List NodeId :=
  match n.shape with
  | .schema kind fields => kind.table.children fields
  | _ => []

def content (n : Node) (id : NodeId) : Content :=
  match n.shape with
  | .schema kind fields => .ofKind kind n.span (kind.table.outline fields)
  | .wrapped kind record => .ofKind kind n.span (kind.table.outline record.fields)
  | .graph _ _ => .byHand id

/-- A node of a kind has its slots for children. -/
theorem children_eq_parts {n : Node} (h : n.kind?.isSome = true) : n.children = n.parts := by
  rcases n with ⟨span, _ | _ | _, parent⟩
  · simp only [children, parts]
    split
    · next hleaf =>
      rw [Bool.and_eq_true] at hleaf
      exact (FieldTable.children_of_isLeaf hleaf.2 _).symm
    · rfl
  · rfl
  · cases h

theorem Sound.index_lt {kinds : List Kind} {records : List ValueRecord} {id : NodeId} {n : Node}
    (h : n.Sound kinds records id) {c : NodeId} (hc : c ∈ n.parts) : c.index < id.index := by
  cases h with
  | schema _ _ _ hold => exact hold c hc
  | wrapped => cases hc
  | graph => cases hc

/-- What a node of a kind has: a record with scalars that are the same as themselves, and
with the parts in its slots. The record of a wrapper need not fit the kind, which has no
slots. -/
structure Shows (n : Node) (id : NodeId) (k : Kind) : Prop where
  slots : k.table.SlotsFit n.fields
  scalars : k.table.sameScalars n.fields n.fields = true
  parts : n.parts = k.table.children n.fields
  content : n.content id = .ofKind k n.span (k.table.outline n.fields)

end Node

namespace Forest

variable {f g : Forest} {kinds : List Kind} {records : List ValueRecord} {a b id : NodeId}

/-- The kind a node was made by. -/
def kind? (f : Forest) (id : NodeId) : Option Kind := (f.node? id).bind Node.kind?

def parts (f : Forest) (id : NodeId) : List NodeId := ((f.node? id).map Node.parts).getD []

def content (f : Forest) (id : NodeId) : Content :=
  ((f.node? id).map (Node.content · id)).getD (.byHand id)

/-- The node and what is in its slots, all the way down, each node under a label. -/
def sketch {β : Type} (f : Forest) (label : NodeId → β) (id : NodeId) : Tree β :=
  Tree.grow label f.parts f.size id

/-- What a node and everything below it says, down to the hand-written nodes. -/
def contents (f : Forest) : NodeId → Tree Content := f.sketch f.content

theorem parts_of_node? {n : Node} (hn : f.node? id = some n) : f.parts id = n.parts := by
  rw [parts, hn]
  rfl

theorem content_of_node? {n : Node} (hn : f.node? id = some n) : f.content id = n.content id := by
  rw [content, hn]
  rfl

theorem children_of_node? {n : Node} (hn : f.node? id = some n) : f.children id = n.children := by
  rw [children, hn]
  rfl

theorem kind?_of_node? {n : Node} (hn : f.node? id = some n) : f.kind? id = n.kind? := by
  rw [kind?, hn]
  rfl

/-- A test of kinds and families cannot tell nodes of one kind apart. -/
theorem accepts_eq_of_kind? (m : Matcher) (h : f.kind? a = g.kind? b) : m.accepts f a = m.accepts g b := by
  unfold Forest.kind? at h
  rw [Matcher.accepts, Matcher.accepts, h]

theorem lt_size_of_kind? (h : (f.kind? id).isSome = true) : id.index < f.size := by
  rcases hn : f.node? id with _ | n
  · rw [kind?, hn] at h
    cases h
  · exact lt_size_of_node? hn

theorem children_eq_parts (h : (f.kind? id).isSome = true) : f.children id = f.parts id := by
  obtain ⟨n, hn⟩ := exists_node?_of_lt (lt_size_of_kind? h)
  rw [kind?_of_node? hn] at h
  rw [children_of_node? hn, parts_of_node? hn, Node.children_eq_parts h]

theorem mem_of_kind? (wf : WellFormed kinds f records) {k : Kind} (hk : f.kind? a = some k) : k ∈ kinds := by
  obtain ⟨n, hn⟩ := exists_node?_of_lt (lt_size_of_kind? (by simp [hk] : (f.kind? a).isSome = true))
  rw [kind?_of_node? hn] at hk
  cases wf.sound a n hn with
  | schema hmem => cases hk; exact hmem
  | wrapped hmem => cases hk; exact hmem
  | graph => cases hk

theorem WellFormed.shows (declared : Declared kinds) (wf : WellFormed kinds f records) {n : Node}
    {k : Kind} (hn : f.node? id = some n) (hk : n.kind? = some k) : n.Shows id k := by
  cases wf.sound id n hn with
  | schema hkind hvalue hstores hold =>
    cases hk
    exact ⟨fun e he _ => FieldTable.fits_iff.1 hstores.fits e he,
      FieldTable.sameScalars_self_of_fits hstores.fits, rfl, rfl⟩
  | wrapped hkind hvalue hrecord =>
    cases hk
    have hleaf := (declared.wellMade hkind).isLeaf hvalue
    exact ⟨FieldTable.slotsFit_of_isLeaf hleaf _, (wf.stored _ hrecord).sameScalars_self declared _,
      (FieldTable.children_of_isLeaf hleaf _).symm, rfl⟩
  | graph => cases hk

/-- The content of a node of a kind tells its kind and its span. -/
theorem content_of_kind? (h : (f.kind? id).isSome = true) :
    ∃ k outline, f.kind? id = some k ∧ f.content id = .ofKind k (f.span id) outline := by
  obtain ⟨⟨span, shape, parent⟩, hn⟩ := exists_node?_of_lt (lt_size_of_kind? h)
  have hspan : f.span id = span := by rw [Forest.span, hn]; rfl
  rw [kind?_of_node? hn] at h ⊢
  rw [content_of_node? hn, hspan]
  rcases shape with ⟨k, fields⟩ | ⟨k, record⟩ | _
  · exact ⟨k, _, rfl, rfl⟩
  · exact ⟨k, _, rfl, rfl⟩
  · cases h

theorem kind?_of_content {k : Kind} {span : Span} {outline : Fields}
    (h : f.content id = .ofKind k span outline) : f.kind? id = some k := by
  rcases hn : f.node? id with _ | ⟨_, _ | _ | _, _⟩
  · simp [content, hn] at h
  · simp_all [content_of_node? hn, kind?_of_node? hn, Node.content, Node.kind?]
  · simp_all [content_of_node? hn, kind?_of_node? hn, Node.content, Node.kind?]
  · simp_all [content_of_node? hn, Node.content]

/-- Nodes of one content, one of them of a kind, have one kind and one span. -/
theorem of_content_eq (ha : (f.kind? a).isSome = true) (h : g.content b = f.content a) :
    g.kind? b = f.kind? a ∧ g.span b = f.span a := by
  obtain ⟨k, outline, hkind, hcontent⟩ := content_of_kind? ha
  have hb := kind?_of_content (h.trans hcontent)
  have hb' : (g.kind? b).isSome = true := by simp [hb]
  obtain ⟨_, _, _, hcontent'⟩ := content_of_kind? hb'
  rw [h, hcontent, Content.ofKind.injEq] at hcontent'
  exact ⟨hb.trans hkind.symm, hcontent'.2.1.symm⟩

/-! ## Older parts -/

theorem WellFormed.index_lt (wf : WellFormed kinds f records) (hb : b ∈ f.parts a) :
    b.index < a.index := by
  rcases hn : f.node? a with _ | n
  · rw [parts, hn] at hb
    cases hb
  · rw [parts_of_node? hn] at hb
    exact (wf.sound a n hn).index_lt hb

theorem WellFormed.part_lt_size (wf : WellFormed kinds f records) (ha : a.index < f.size)
    (hb : b ∈ f.parts a) : b.index < f.size :=
  (wf.index_lt hb).trans ha

theorem WellFormed.sketch_eq {β : Type} (wf : WellFormed kinds f records) (label : NodeId → β)
    (hid : id.index < f.size) :
    f.sketch label id = .node (label id) ((f.parts id).map (f.sketch label)) := by
  obtain ⟨n, hn⟩ : ∃ n, f.size = n + 1 := ⟨f.size - 1, by omega⟩
  rw [sketch, hn, Tree.grow]
  congr 1
  refine List.map_congr_left (fun b hb => ?_)
  have hlt := wf.index_lt hb
  exact Tree.grow_congr (P := fun _ => True) (fun _ _ => ⟨rfl, rfl⟩)
    (fun _ _ _ hc => ⟨trivial, wf.index_lt hc⟩) trivial (by omega) (by omega)

theorem WellFormed.contents_eq (wf : WellFormed kinds f records) (hid : id.index < f.size) :
    f.contents id = .node (f.content id) ((f.parts id).map f.contents) := wf.sketch_eq f.content hid

section Extends
variable (hf : f.Extends g)
include hf

theorem Extends.parts_eq (hid : id.index < f.size) : g.parts id = f.parts id := by
  rw [parts, parts, hf.node?_eq hid]

theorem Extends.content_eq (hid : id.index < f.size) : g.content id = f.content id := by
  rw [content, content, hf.node?_eq hid]

theorem Extends.kind?_eq (hid : id.index < f.size) : g.kind? id = f.kind? id := by
  rw [kind?, kind?, hf.node?_eq hid]

theorem Extends.children_eq (hid : id.index < f.size) : g.children id = f.children id := by
  rw [children, children, hf.node?_eq hid]

theorem Extends.span_eq (hid : id.index < f.size) : g.span id = f.span id := by
  rw [span, span, hf.node?_eq hid]

theorem Extends.isPooled_eq (hid : id.index < f.size) : g.isPooled id = f.isPooled id := by
  rw [isPooled, isPooled, hf.node?_eq hid]

theorem Extends.contents_eq (wf : WellFormed kinds f records) (hid : id.index < f.size) :
    g.contents id = f.contents id := by
  refine (Tree.grow_congr (P := fun a => a.index < f.size) (fun a ha => ?_) (fun a ha b hb => ?_)
    hid hid ?_).symm
  · exact ⟨(hf.content_eq ha).symm, (hf.parts_eq ha).symm⟩
  · exact ⟨wf.part_lt_size ha hb, wf.index_lt hb⟩
  · exact Nat.lt_of_lt_of_le hid hf.size_le

end Extends

/-! ## Schema-defined structures -/

/-- Nodes made from kinds all the way down. -/
def SchemaDefined (f : Forest) (id : NodeId) : Prop := ∀ n, f.Reaches id n → (f.kind? n).isSome = true

theorem SchemaDefined.of_parts (hkind : (f.kind? id).isSome = true)
    (hparts : ∀ b ∈ f.parts id, f.SchemaDefined b) : f.SchemaDefined id := by
  intro n hn
  rcases Relation.ReflTransGen.cases_head hn with rfl | ⟨b, hb, hn⟩
  · exact hkind
  · exact hparts b (children_eq_parts hkind ▸ hb) n hn

section SchemaDefined
variable (h : f.SchemaDefined id)
include h

theorem SchemaDefined.isSome : (f.kind? id).isSome = true := h id .refl

theorem SchemaDefined.lt_size : id.index < f.size := lt_size_of_kind? h.isSome

theorem SchemaDefined.children_eq : f.children id = f.parts id := children_eq_parts h.isSome

theorem SchemaDefined.holds (hb : b ∈ f.parts id) : f.Holds id b := by
  rwa [Holds, h.children_eq]

theorem SchemaDefined.part (hb : b ∈ f.parts id) : f.SchemaDefined b :=
  fun n hn => h n (.head (h.holds hb) hn)

/-- What is made from kinds holds older nodes only. -/
theorem SchemaDefined.not_hasCycle (wf : WellFormed kinds f records) : ¬ f.HasCycle id := by
  refine not_hasCycle_of_rank NodeId.index (fun a ha b hb => ?_)
  rw [children_eq_parts (h a ha)] at hb
  exact wf.index_lt hb

/-- A walk lists a node, then what it lists from each of the node's parts. -/
theorem SchemaDefined.preorder_eq (wf : WellFormed kinds f records) :
    f.preorder id = id :: (f.parts id).flatMap f.preorder := by
  rw [Forest.preorder_eq (h.not_hasCycle wf), h.children_eq]

end SchemaDefined

/-- Along the parts of a schema-defined structure, what holds of all parts of a node
and carries over to the node holds everywhere. -/
theorem SchemaDefined.induct (wf : WellFormed kinds f records) {P : NodeId → Prop}
    (step : ∀ a, f.SchemaDefined a → (∀ b ∈ f.parts a, P b) → P a) (h : f.SchemaDefined id) : P id := by
  induction hi : id.index using Nat.strong_induction_on generalizing id with
  | _ i ih =>
    subst hi
    exact step id h (fun b hb => ih b.index (wf.index_lt hb) (h.part hb) rfl)

/-- Nothing younger can be reached, if no older node is hand-written. -/
theorem WellFormed.index_le_of_reaches (wf : WellFormed kinds f records)
    (h : ∀ n : NodeId, n.index ≤ id.index → (f.kind? n).isSome = true) (hb : f.Reaches id b) :
    b.index ≤ id.index := by
  induction hb with
  | refl => exact le_rfl
  | @tail c d _ hstep ih =>
    rw [Holds, children_eq_parts (h c ih)] at hstep
    exact (wf.index_lt hstep).le.trans ih

/-- A walk lists exactly what can be reached. -/
theorem SchemaDefined.mem_preorder_iff (wf : WellFormed kinds f records) (h : f.SchemaDefined id) :
    b ∈ f.preorder id ↔ f.Reaches id b :=
  Forest.mem_preorder_iff (h.not_hasCycle wf)

theorem SchemaDefined.lt_size_of_mem (wf : WellFormed kinds f records) (h : f.SchemaDefined id)
    (hb : b ∈ f.preorder id) : b.index < f.size :=
  lt_size_of_kind? (h b ((h.mem_preorder_iff wf).1 hb))

theorem Extends.schemaDefined (hf : f.Extends g) (h : f.SchemaDefined id) : g.SchemaDefined id := by
  have hback : ∀ n, g.Reaches id n → f.Reaches id n := by
    intro n hn
    induction hn with
    | refl => exact .refl
    | tail _ hstep ih =>
      refine ih.tail ?_
      have hlt := lt_size_of_kind? (h _ ih)
      rwa [Holds, hf.children_eq hlt] at hstep
  intro n hn
  rw [hf.kind?_eq (lt_size_of_kind? (h n (hback n hn)))]
  exact h n (hback n hn)

theorem Extends.preorder_eq {more : List ValueRecord} (hf : f.Extends g)
    (wf : WellFormed kinds f records) (wg : WellFormed kinds g more) (h : f.SchemaDefined id) : g.preorder id = f.preorder id := by
  refine SchemaDefined.induct wf (P := fun a => g.preorder a = f.preorder a) (fun a ha ih => ?_) h
  rw [(hf.schemaDefined ha).preorder_eq wg, ha.preorder_eq wf, hf.parts_eq ha.lt_size,
    List.flatMap_congr ih]

/-! ## New nodes -/

theorem Grown.wellFormed (declared : Declared kinds) (hf : f.Grown kinds) :
    ∃ records, WellFormed kinds f records := by
  obtain ⟨records, grown⟩ := hf
  exact ⟨records, grown.wellFormed declared⟩

/-- One node more: what it says and what is in its slots. -/
structure Adds (kinds : List Kind) (f g : Forest) (content : Content) (parts : List NodeId) : Prop where
  grown : g.Grown kinds
  kept : f.Extends g
  size_eq : g.size = f.size + 1
  content_eq : g.content ⟨f.size⟩ = content
  parts_eq : g.parts ⟨f.size⟩ = parts

/-- A record that can be stored becomes a node that says what the record says. -/
theorem Grown.exec_build (declared : Declared kinds) (hf : f.Grown kinds) {kind : Kind} {fields : Fields}
    (hkind : kind ∈ kinds) (hvalue : kind.strategy ≠ .value)
    (hold : ∀ c ∈ kind.table.children fields, c.index < f.size) (hstores : kind.table.Stores fields)
    (span : Span) : ∃ g, (build kind span fields).exec f = (.ok ⟨f.size⟩, g) ∧
      Adds kinds f g (.ofKind kind span (kind.table.outline fields)) (kind.table.children fields) := by
  obtain ⟨records, hf⟩ := hf
  have hdistinct := declared.distinct kind hkind
  have hbuild := exec_build_of_stores hdistinct hstores span f
  have hnew : (f.add { span, shape := .schema kind (kind.table.mapNodes .node fields) }).2.node? ⟨f.size⟩ =
      some { span, shape := .schema kind (kind.table.mapNodes .node fields) } := node?_add_self f _
  refine ⟨_, hbuild, ⟨records, hf.built hkind hvalue hold hbuild⟩, extends_add f _, size_add f _, ?_, ?_⟩
  · rw [content_of_node? hnew]
    exact congrArg (Content.ofKind kind span) (hstores.keeps.outline_stored hdistinct)
  · rw [parts_of_node? hnew]
    exact FieldTable.children_stored hdistinct fields

/-- The value record that a record becomes when it is made next. -/
def nextRecord (f : Forest) (kind : Kind) (span : Span) (fields : Fields) : ValueRecord :=
  { id := f.recordCount, kind := kind.name, span, fields := kind.table.mapNodes .node fields }

/-- A record that can be stored becomes a wrapper around a new value record. -/
theorem Grown.exec_wrap (declared : Declared kinds) (hf : f.Grown kinds) {kind : Kind} {fields : Fields}
    (hkind : kind ∈ kinds) (hvalue : kind.strategy = .value) (hstores : kind.table.Stores fields)
    (span : Span) : ∃ g, (buildRecord kind span fields >>= wrap kind).exec f = (.ok ⟨f.size⟩, g) ∧
      Adds kinds f g (.ofKind kind span (kind.table.outline fields)) [] ∧
      g.node? ⟨f.size⟩ = some { span, shape := .wrapped kind (f.nextRecord kind span fields) } := by
  obtain ⟨records, gf⟩ := hf
  have hdistinct := declared.distinct kind hkind
  let record := f.nextRecord kind span fields
  let g : Forest := { f with recordCount := f.recordCount + 1 }
  have hrecord : (buildRecord kind span fields).exec f = (.ok record, g) :=
    exec_buildRecord_of_stores hdistinct hstores span f
  have gg : GrownWith kinds g (record :: records) := gf.recorded hkind hvalue hrecord
  have hwrap : (wrap kind record).exec g =
      (.ok ⟨f.size⟩, (g.add { span, shape := .wrapped kind record }).2) := rfl
  have gh := gg.wrapped hkind hvalue (.head _) rfl hwrap
  have hnew : (g.add { span, shape := .wrapped kind record }).2.node? ⟨f.size⟩ =
      some { span, shape := .wrapped kind record } := node?_add_self g _
  refine ⟨_, by rw [Act.exec_bind, hrecord]; exact hwrap, ⟨⟨_, gh⟩, extends_add g _, size_add g _, ?_,
    parts_of_node? hnew⟩, hnew⟩
  rw [content_of_node? hnew]
  exact congrArg (Content.ofKind kind span) (hstores.keeps.outline_stored hdistinct)

end Forest

end SyntaxForest
