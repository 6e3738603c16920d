import SyntaxForest.Proofs.Forest.Equality
import SyntaxForest.Forest.Clone
/-!
# Clones are deep copies

`Copies` is what a run of copying leads to, for a list of nodes and the list of their
copies: which nodes are new, that each new one stands in one place, that the copies say
what the originals say, and when they are equal. It holds of nothing (`Copies.nil`), of
one more node after others (`Copies.cons`), and of a node made from copies of its parts
(`Copies.made`); so it holds of every clone of a node that can be cloned (`Clonable`): a
wrapper is cloned only if its kind takes the record, which wrapping does not ask.
-/

namespace SyntaxForest

namespace Forest

variable {f g h : Forest} {kinds : List Kind} {records more : List ValueRecord} {a b id c : NodeId}
  {ids copies : List NodeId}

/-- What stands in a copy for a node: a node that says the same. Pooled nodes stand for
themselves, for any other there is a new node. -/
structure StandsFor (f g : Forest) (a b : NodeId) : Prop where
  held : a.index < f.size ∧ b.index < g.size
  alike : g.content b = f.content a
  placed : if f.isPooled a then b = a else f.size ≤ b.index

/-- Only pooled nodes have spans with NaN. -/
def Steady (f : Forest) (ids : List NodeId) : Prop :=
  ∀ id ∈ ids, ∀ a ∈ f.preorder id, f.isPooled a = false → (f.span a).NaNFree

/-- A structure made from kinds, in which every wrapped record fits the kind it is seen as. -/
structure Clonable (f : Forest) (id : NodeId) : Prop where
  defined : f.SchemaDefined id
  fits : ∀ a ∈ f.preorder id, ∀ k r, f.kind? a = some k → f.record? a = some r → k.table.fits r.fields = true

/-- Nodes and their copies, made while the forest grew from `f` to `g`. -/
structure Copies (kinds : List Kind) (f g : Forest) (ids copies : List NodeId) : Prop where
  grown : g.Grown kinds
  kept : f.Extends g
  length_eq : copies.length = ids.length
  defined : ∀ c ∈ copies, g.SchemaDefined c
  standing : List.Forall₂ (StandsFor f g) (ids.flatMap f.preorder) (copies.flatMap g.preorder)
  once : ((copies.flatMap g.preorder).filter (fun b => f.size ≤ b.index)).Nodup
  equal : List.Forall₂ (fun c a => g.equals c a = true) copies ids ↔ f.Steady ids
  equal' : List.Forall₂ (fun a c => g.equals a c = true) ids copies ↔ f.Steady ids

theorem Copies.nil (grown : g.Grown kinds) (kept : f.Extends g) : Copies kinds f g [] [] where
  grown := grown
  kept := kept
  length_eq := rfl
  defined := by simp
  standing := .nil
  once := by simp
  equal := by simp [Steady]
  equal' := by simp [Steady]

/-! ## One more node -/

theorem StandsFor.later (hab : StandsFor f g a b) (hg : g.Extends h) : StandsFor f h a b :=
  ⟨⟨hab.held.1, Nat.lt_of_lt_of_le hab.held.2 hg.size_le⟩, (hg.content_eq hab.held.2).trans hab.alike,
    hab.placed⟩

theorem StandsFor.earlier (hab : StandsFor g h a b) (hf : f.Extends g) (ha : a.index < f.size) :
    StandsFor f h a b := by
  refine ⟨⟨ha, hab.held.2⟩, hab.alike.trans (hf.content_eq ha), ?_⟩
  have hplaced := hab.placed
  rw [hf.isPooled_eq ha] at hplaced
  split at hplaced
  · next hpooled => rwa [if_pos hpooled]
  · next hpooled =>
    rw [if_neg hpooled]
    exact hf.size_le.trans hplaced

theorem steady_cons : f.Steady (id :: ids) ↔ f.Steady [id] ∧ f.Steady ids := by
  simp [Steady]

theorem Extends.steady_iff (hf : f.Extends g) (wf : WellFormed kinds f records)
    (wg : WellFormed kinds g more) (hids : ∀ id ∈ ids, f.SchemaDefined id) :
    g.Steady ids ↔ f.Steady ids := by
  refine forall₂_congr (fun id hid => ?_)
  rw [hf.preorder_eq wf wg (hids id hid)]
  refine forall₂_congr (fun a ha => ?_)
  have hlt := (hids id hid).lt_size_of_mem wf ha
  rw [hf.isPooled_eq hlt, hf.span_eq hlt]

theorem Clonable.part (wf : WellFormed kinds f records) (h : f.Clonable id) (ha : a ∈ f.parts id) :
    f.Clonable a := by
  refine ⟨h.defined.part ha, fun b hb => h.fits b ?_⟩
  rw [h.defined.preorder_eq wf]
  exact List.mem_cons_of_mem _ (List.mem_flatMap_of_mem ha hb)

theorem Extends.clonable (hf : f.Extends g) (wf : WellFormed kinds f records)
    (wg : WellFormed kinds g more) (h : f.Clonable id) : g.Clonable id := by
  refine ⟨hf.schemaDefined h.defined, fun a ha k r hk hr => ?_⟩
  rw [hf.preorder_eq wf wg h.defined] at ha
  have hlt := h.defined.lt_size_of_mem wf ha
  rw [hf.kind?_eq hlt] at hk
  rw [hf.record?_eq hlt] at hr
  exact h.fits a ha k r hk hr

theorem Extends.flatMap_preorder_eq (hf : f.Extends g) (wf : WellFormed kinds f records)
    (wg : WellFormed kinds g more) (hids : ∀ id ∈ ids, f.SchemaDefined id) :
    ids.flatMap g.preorder = ids.flatMap f.preorder :=
  List.flatMap_congr (fun id hid => hf.preorder_eq wf wg (hids id hid))

theorem forall_right_of_forall₂ {α β : Type} {R : α → β → Prop} {P : β → Prop} {as : List α}
    {bs : List β} (hR : List.Forall₂ R as bs) (h : ∀ a b, R a b → P b) : ∀ b ∈ bs, P b := by
  induction hR with
  | nil => simp
  | cons hab _ ih => exact List.forall_mem_cons.2 ⟨h _ _ hab, ih⟩

theorem Copies.cons (declared : Declared kinds) (hf : f.Grown kinds)
    (hids : ∀ a ∈ id :: ids, f.SchemaDefined a) (first : Copies kinds f g [id] [c])
    (rest : Copies kinds g h ids copies) : Copies kinds f h (id :: ids) (c :: copies) := by
  obtain ⟨_, wf⟩ := hf.wellFormed declared
  obtain ⟨_, wg⟩ := first.grown.wellFormed declared
  obtain ⟨_, wh⟩ := rest.grown.wellFormed declared
  obtain ⟨hid, hrest⟩ := List.forall_mem_cons.1 hids
  have hc := first.defined c (by simp)
  have hcopy : h.preorder c = g.preorder c := rest.kept.preorder_eq wg wh hc
  have hsteady := first.kept.steady_iff wf wg hrest
  have hfirst : List.Forall₂ (StandsFor f g) (f.preorder id) (g.preorder c) := by
    simpa using first.standing
  have hmore : List.Forall₂ (fun a b => a.index < f.size ∧ StandsFor g h a b)
      (ids.flatMap f.preorder) (copies.flatMap h.preorder) := by
    rw [← first.kept.flatMap_preorder_eq wf wg hrest]
    refine forall₂_imp_mem (fun a ha b _ hab => ⟨?_, hab⟩) rest.standing
    obtain ⟨i, hi, ha⟩ := List.mem_flatMap.1 ha
    rw [first.kept.preorder_eq wf wg (hrest i hi)] at ha
    exact (hrest i hi).lt_size_of_mem wf ha
  -- a node in a later copy is pooled and old, or newer than all of the first copy
  have hnew : ∀ b ∈ copies.flatMap h.preorder, f.size ≤ b.index → g.size ≤ b.index := by
    refine forall_right_of_forall₂ hmore (fun a b ⟨ha, hab⟩ hb => ?_)
    have hplaced := hab.placed
    split at hplaced
    · rw [hplaced] at hb
      exact absurd ha (Nat.not_lt.2 hb)
    · exact hplaced
  have hequal : h.equals c id = g.equals c id :=
    rest.kept.equals_eq wg wh hc (first.kept.schemaDefined hid)
  have hequal' : h.equals id c = g.equals id c :=
    rest.kept.equals_eq wg wh (first.kept.schemaDefined hid) hc
  have heq := first.equal
  have heq' := first.equal'
  simp only [List.forall₂_cons, List.Forall₂.nil, and_true] at heq heq'
  refine ⟨rest.grown, first.kept.trans rest.kept, by simp [rest.length_eq], ?_, ?_, ?_, ?_, ?_⟩
  · exact List.forall_mem_cons.2 ⟨rest.kept.schemaDefined hc, rest.defined⟩
  · rw [List.flatMap_cons, List.flatMap_cons, hcopy]
    exact List.rel_append (hfirst.imp (fun _ _ hab => hab.later rest.kept))
      (hmore.imp (fun _ _ hab => hab.2.earlier first.kept hab.1))
  · have hfresh : (copies.flatMap h.preorder).filter (fun b => f.size ≤ b.index) =
        (copies.flatMap h.preorder).filter (fun b => g.size ≤ b.index) := by
      refine List.filter_congr (fun b hb => ?_)
      exact decide_eq_decide.2 ⟨hnew b hb, first.kept.size_le.trans⟩
    rw [List.flatMap_cons, hcopy, List.filter_append, hfresh, List.nodup_append]
    refine ⟨by simpa using first.once, rest.once, fun a ha b hb heq => ?_⟩
    subst heq
    have hlt := hc.lt_size_of_mem wg (List.mem_filter.1 ha).1
    exact absurd hlt (Nat.not_lt.2 (of_decide_eq_true (List.mem_filter.1 hb).2))
  · rw [List.forall₂_cons, hequal, heq, rest.equal, hsteady, ← steady_cons]
  · rw [List.forall₂_cons, hequal', heq', rest.equal', hsteady, ← steady_cons]

/-! ## A node from copies of its parts -/

theorem WellFormed.of_isPooled (declared : Declared kinds) (wf : WellFormed kinds f records)
    (h : f.isPooled id = true) : (∃ k, f.kind? id = some k ∧ k.isCompact = true) ∧ f.parts id = [] := by
  rcases hn : f.node? id with _ | n
  · simp [isPooled, hn] at h
  · have hpooled : n.isPooled = true := by simpa [isPooled, hn] using h
    rw [kind?_of_node? hn, parts_of_node? hn]
    cases wf.sound id n hn with
    | @schema _ _ k _ hk =>
      have hstrategy : k.strategy = .pooled := by simpa [Node.isPooled] using hpooled
      exact ⟨⟨k, rfl, by simp [Kind.isCompact, hstrategy]⟩,
        FieldTable.children_of_isLeaf (declared.isLeaf_of_pooled hk hstrategy) _⟩
    | wrapped => cases hpooled
    | graph => cases hpooled

theorem Copies.of_pooled (declared : Declared kinds) (hf : f.Grown kinds) (hid : f.SchemaDefined id)
    (hpooled : f.isPooled id = true) : Copies kinds f f [id] [id] := by
  obtain ⟨_, wf⟩ := hf.wellFormed declared
  obtain ⟨hcompact, hparts⟩ := wf.of_isPooled declared hpooled
  have hpreorder : f.preorder id = [id] := by rw [hid.preorder_eq wf, hparts]; rfl
  have hequal : f.equals id id = true :=
    (wf.equals_iff declared hid.isSome hid.isSome).2 (.inl ⟨rfl, .inl ⟨rfl, hcompact⟩⟩)
  have hsteady : f.Steady [id] := by
    simp [Steady, hpreorder, hpooled]
  refine ⟨hf, .refl f, rfl, by simpa using hid, ?_, ?_, ?_, ?_⟩
  · have hstands : StandsFor f f id id := ⟨⟨hid.lt_size, hid.lt_size⟩, rfl, by rw [if_pos hpooled]⟩
    simpa [hpreorder] using hstands
  · simp [hpreorder, Nat.not_le.2 hid.lt_size]
  · simp [hequal, hsteady]
  · simp [hequal, hsteady]

theorem steady_singleton (wf : WellFormed kinds f records) (hid : f.SchemaDefined id)
    (hpooled : f.isPooled id = false) :
    f.Steady [id] ↔ (f.span id).NaNFree ∧ f.Steady (f.parts id) := by
  simp only [Steady, List.forall_mem_singleton, hid.preorder_eq wf, List.forall_mem_cons, hpooled,
    forall_const, List.mem_flatMap]
  exact and_congr_right (fun _ => ⟨fun h b hb a ha => h a ⟨b, hb, ha⟩, fun h a ⟨b, hb, ha⟩ => h b hb a ha⟩)

/-- A new node of the content of an older one, whose parts are copies of the parts. -/
theorem Copies.made (declared : Declared kinds) (hf : f.Grown kinds) (hid : f.SchemaDefined id)
    (hpooled : f.isPooled id = false) (parts : Copies kinds f g (f.parts id) copies)
    (hh : h.Grown kinds) (hg : g.Extends h) (hc : c.index < h.size) (hnew : g.size ≤ c.index)
    (halike : h.content c = f.content id) (hparts : h.parts c = copies)
    (hrecord : ∀ r, h.record? c = some r → f.record? id ≠ some r) : Copies kinds f h [id] [c] := by
  obtain ⟨_, wf⟩ := hf.wellFormed declared
  obtain ⟨_, wg⟩ := parts.grown.wellFormed declared
  obtain ⟨_, wh⟩ := hh.wellFormed declared
  have hfh := parts.kept.trans hg
  have hcopies := hg.flatMap_preorder_eq wg wh parts.defined
  obtain ⟨hkind, hspan⟩ := of_content_eq hid.isSome halike
  have hdefined : h.SchemaDefined c :=
    .of_parts (hkind ▸ hid.isSome) (hparts ▸ fun b hb => hg.schemaDefined (parts.defined b hb))
  have hpreorder : h.preorder c = c :: copies.flatMap g.preorder := by
    rw [hdefined.preorder_eq wh, hparts, hcopies]
  have hold : id.index < c.index := hid.lt_size.trans_le (parts.kept.size_le.trans hnew)
  have hfacts : h.facts? c = h.facts? id := by
    rw [facts?, facts?, halike, hfh.content_eq hid.lt_size]
  have hother : ¬ h.Identical c id := by
    rintro ⟨-, ⟨heq, -⟩ | ⟨r, hr, hs⟩⟩
    · exact absurd (heq ▸ hold) (Nat.lt_irrefl _)
    · rw [hfh.record?_eq hid.lt_size] at hs
      exact hrecord r hr hs
  have hsteady := steady_singleton wf hid hpooled
  have hstable : ∀ x ∈ copies, ∀ a ∈ f.parts id, h.equals x a = g.equals x a ∧ h.equals a x = g.equals a x :=
    fun x hx a ha =>
      have hxg := parts.defined x hx
      have hag := parts.kept.schemaDefined (hid.part ha)
      ⟨hg.equals_eq wg wh hxg hag, hg.equals_eq wg wh hag hxg⟩
  refine ⟨hh, hfh, rfl, by simpa using hdefined, ?_, ?_, ?_, ?_⟩
  · simp only [List.flatMap_cons, List.flatMap_nil, List.append_nil, hpreorder, hid.preorder_eq wf]
    have hstands : StandsFor f h id c :=
      ⟨⟨hid.lt_size, hc⟩, halike, by rw [hpooled]; exact parts.kept.size_le.trans hnew⟩
    exact .cons hstands (parts.standing.imp (fun _ _ hab => hab.later hg))
  · have hc' : f.size ≤ c.index := parts.kept.size_le.trans hnew
    have hlt : ∀ b ∈ copies.flatMap g.preorder, b.index < g.size :=
      forall_right_of_forall₂ parts.standing (fun _ _ hab => hab.held.2)
    simp only [List.flatMap_cons, List.flatMap_nil, List.append_nil, hpreorder, List.filter_cons, hc',
      decide_true, if_true]
    refine List.nodup_cons.2 ⟨fun hmem => ?_, parts.once⟩
    exact absurd (hlt c (List.mem_filter.1 hmem).1) (Nat.not_lt.2 hnew)
  · simp only [List.forall₂_cons, List.Forall₂.nil, and_true]
    rw [wh.equals_iff declared hdefined.isSome (hfh.schemaDefined hid).isSome,
      comparison_iff_of_facts hfacts hother, hspan, hparts, hfh.parts_eq hid.lt_size, hsteady, ← parts.equal,
      forall₂_congr_mem (fun x hx a ha => by rw [(hstable x hx a ha).1])]
  · simp only [List.forall₂_cons, List.Forall₂.nil, and_true]
    rw [wh.equals_iff declared (hfh.schemaDefined hid).isSome hdefined.isSome,
      comparison_iff_of_facts hfacts.symm (fun hsame => hother hsame.symm), hfh.span_eq hid.lt_size, hparts,
      hfh.parts_eq hid.lt_size, hsteady, ← parts.equal',
      forall₂_congr_mem (fun a ha x hx => by rw [(hstable x hx a ha).2])]

/-! ## Runs -/

/-- Copying nodes one after the other, each step giving a copy. -/
theorem exec_mapM_copies (declared : Declared kinds) {copy : NodeId → Act Forest NodeId}
    (hcopy : ∀ f : Forest, f.Grown kinds → ∀ a ∈ ids, f.Clonable a →
      ∃ c g, (copy a).exec f = (.ok c, g) ∧ Copies kinds f g [a] [c])
    (hf : f.Grown kinds) (hids : ∀ a ∈ ids, f.Clonable a) :
    ∃ copies g, (ids.mapM copy).exec f = (.ok copies, g) ∧ Copies kinds f g ids copies := by
  induction ids generalizing f with
  | nil => exact ⟨[], f, rfl, .nil hf (.refl f)⟩
  | cons a rest ih =>
    obtain ⟨_, wf⟩ := hf.wellFormed declared
    obtain ⟨c, g, hfirst, first⟩ := hcopy f hf a (by simp) (hids a (by simp))
    obtain ⟨_, wg⟩ := first.grown.wellFormed declared
    obtain ⟨copies, h, hrest, more⟩ := ih (fun f hf b hb => hcopy f hf b (by simp [hb])) first.grown
      (fun b hb => first.kept.clonable wf wg (hids b (by simp [hb])))
    refine ⟨c :: copies, h, ?_, .cons declared hf (fun b hb => (hids b hb).defined) first more⟩
    rw [Act.exec_mapM_cons, hfirst]
    simp only [hrest]

/-- The node of a clone, built from the copies of what the record held. -/
theorem exec_rebuild (declared : Declared kinds) (hf : f.Grown kinds) (hid : f.SchemaDefined id)
    (hpooled : f.isPooled id = false) {span : Span} {kind : Kind} {fields : Fields} {parent : Option NodeId}
    (hn : f.node? id = some ⟨span, .schema kind fields, parent⟩) (hkind : kind ∈ kinds)
    (hvalue : kind.strategy ≠ .value) (hstores : kind.table.Stores fields)
    (made : Copies kinds f g (kind.table.children fields) copies) :
    let refilled := kind.table.refill fields (copies.map .node)
    kind.table.check g.kindName kind.name refilled = .ok () ∧
      ∃ c h, (build kind span refilled).exec g = (.ok c, h) ∧ Copies kinds f h [id] [c] := by
  intro refilled
  have hdistinct := declared.distinct kind hkind
  have hrefilled : kind.table.Stores refilled := hstores.refill hdistinct made.length_eq
  have hchildren : kind.table.children refilled = copies :=
    FieldTable.children_refill hdistinct made.length_eq
  obtain ⟨h, hbuild, adds⟩ := made.grown.exec_build declared hkind hvalue
    (fun c hc => (made.defined c (hchildren ▸ hc)).lt_size) hrefilled span
  have hparts : f.parts id = kind.table.children fields := parts_of_node? hn
  have hcontent : f.content id = .ofKind kind span (kind.table.outline fields) := content_of_node? hn
  refine ⟨FieldTable.check_of_fits _ _ hrefilled.fits, _, h, hbuild, ?_⟩
  refine .made declared hf hid hpooled (hparts ▸ made) adds.grown adds.kept ?_ (Nat.le_refl _) ?_ ?_ ?_
  · rw [adds.size_eq]
    exact Nat.lt_succ_self _
  · rw [adds.content_eq, hcontent, hstores.keeps.outline_refill hdistinct made.length_eq]
  · rw [adds.parts_eq, hchildren]
  · intro r _ hr
    rw [record?_of_node? hn] at hr
    cases hr

/-- The wrapper of a clone, around a new record. -/
theorem exec_rewrap (declared : Declared kinds) (hf : f.Grown kinds) (hid : f.SchemaDefined id)
    {span : Span} {kind : Kind} {record : ValueRecord} {parent : Option NodeId}
    (hn : f.node? id = some ⟨span, .wrapped kind record, parent⟩) (hspan : span = record.span)
    (hkind : kind ∈ kinds) (hvalue : kind.strategy = .value)
    (hstores : kind.table.Stores record.fields) (hold : record.id < f.recordCount) :
    ∃ c h, (copyRecord kind record >>= wrap kind).exec f = (.ok c, h) ∧ Copies kinds f h [id] [c] := by
  obtain ⟨g, hrun, adds, hnew⟩ := hf.exec_wrap declared hkind hvalue hstores record.span
  have hpooled : f.isPooled id = false := by rw [isPooled, hn]; rfl
  have hnone : Copies kinds f f (f.parts id) [] := by
    rw [show f.parts id = [] from parts_of_node? hn]
    exact .nil hf (.refl f)
  refine ⟨_, g, hrun, .made declared hf hid hpooled hnone adds.grown adds.kept ?_ (Nat.le_refl _) ?_
    adds.parts_eq ?_⟩
  · rw [adds.size_eq]
    exact Nat.lt_succ_self _
  · rw [adds.content_eq, content_of_node? hn, hspan]
    rfl
  · intro r hr hr'
    rw [record?_of_node? hnew] at hr
    rw [record?_of_node? hn, ← hr] at hr'
    exact absurd hold ((congrArg ValueRecord.id (Option.some.inj hr')) ▸ Nat.lt_irrefl _)

/-- A clone of a node of a structure that can be cloned, whatever its strategy. -/
theorem exec_cloneWithin (declared : Declared kinds) {steps : Nat} (hf : f.Grown kinds)
    (hid : f.Clonable id) (hsteps : id.index < steps) :
    ∃ c g, (cloneWithin steps id).exec f = (.ok c, g) ∧ Copies kinds f g [id] [c] := by
  induction steps generalizing f id with
  | zero => omega
  | succ steps ih =>
    obtain ⟨_, wf⟩ := hf.wellFormed declared
    obtain ⟨n, hn⟩ := exists_node?_of_lt hid.defined.lt_size
    have hpooled : f.isPooled id = n.isPooled := by rw [isPooled, hn]; rfl
    simp only [cloneWithin, Act.exec_bind, Act.exec_get, hn]
    cases wf.sound id n hn with
    | @schema span parent k fields hk hvalue hstores hold =>
      simp only
      split
      · next hself =>
        exact ⟨id, f, rfl, .of_pooled declared hf hid.defined (hpooled.trans hself)⟩
      · next hself =>
        have hparts : f.parts id = k.table.children fields := parts_of_node? hn
        obtain ⟨copies, g, hrun, made⟩ := exec_mapM_copies declared
          (fun f hf a ha ha' => ih hf ha' (by have := hold a ha; omega)) hf
          (fun a ha => hid.part wf (hparts ▸ ha))
        obtain ⟨hcheck, c, h, hbuild, copied⟩ :=
          exec_rebuild declared hf hid.defined (hpooled.trans (Bool.eq_false_iff.2 hself)) hn hk hvalue
            hstores made
        refine ⟨c, h, ?_, copied⟩
        rw [Act.exec_bind, hrun]
        simp only [Act.exec_bind, Act.exec_get, Act.exec_ofExcept, hcheck, hbuild]
    | wrapped hk hvalue hr =>
      have hself : id ∈ f.preorder id := by
        rw [hid.defined.preorder_eq wf]
        exact List.mem_cons_self
      have hfits := hid.fits id hself _ _ (kind?_of_node? hn) (record?_of_node? hn)
      exact exec_rewrap declared hf hid.defined hn rfl hk hvalue
        ((wf.stored _ hr).stores_of_fits declared hfits) (wf.counted _ hr)
    | graph =>
      have hkind := hid.defined.isSome
      rw [kind?_of_node? hn] at hkind
      cases hkind

end Forest

/-- Cloning a schema-defined structure in which every wrapped record fits the kind it is seen
as, whatever the strategies in it and however its parts are shared, gives a copy in which
every node says what the original says. Pooled nodes are themselves; for every other place
there is a node that was not there before and stands nowhere else. The copy equals the
original, both ways round, exactly if no node but a pooled one has a span with NaN.
Everything that was there stays as it was. -/
theorem clone_is_a_deep_copy {kinds : List Kind} {f : Forest} {n : NodeId} (declared : Declared kinds)
    (grown : f.Grown kinds) (defined : f.SchemaDefined n)
    (fits : ∀ a ∈ f.preorder n, ∀ k r, f.kind? a = some k → f.record? a = some r →
      k.table.fits r.fields = true) :
    ∃ copy g, (Forest.clone n).exec f = (.ok copy, g) ∧ g.Grown kinds ∧ f.Extends g ∧
      (g.equals copy n = true ↔ ∀ a ∈ f.preorder n, f.isPooled a = false → (f.span a).NaNFree) ∧
      (g.equals n copy = true ↔ ∀ a ∈ f.preorder n, f.isPooled a = false → (f.span a).NaNFree) ∧
      List.Forall₂ (fun a b => g.content b = f.content a ∧
          if f.isPooled a then b = a
          else f.node? b = none ∧ (g.preorder copy).count b = 1 ∧ b ∉ f.preorder n)
        (f.preorder n) (g.preorder copy) := by
  obtain ⟨_, wf⟩ := grown.wellFormed declared
  obtain ⟨copy, g, hrun, copies⟩ := Forest.exec_cloneWithin declared grown ⟨defined, fits⟩
    (defined.lt_size.trans (Nat.lt_succ_self f.size))
  have hclone : (Forest.clone n).exec f = (.ok copy, g) := by
    rw [Forest.clone, Act.exec_bind, Act.exec_get]
    exact hrun
  have hequal := copies.equal
  have hequal' := copies.equal'
  have honce := copies.once
  have hstanding := copies.standing
  simp only [List.forall₂_cons, List.Forall₂.nil, and_true, Forest.Steady, List.forall_mem_singleton,
    List.flatMap_cons, List.flatMap_nil, List.append_nil] at hequal hequal' honce hstanding
  refine ⟨copy, g, hclone, copies.grown, copies.kept, hequal, hequal', ?_⟩
  refine Forest.forall₂_imp_mem (fun a _ b hb hab => ⟨hab.alike, ?_⟩) hstanding
  have hplaced := hab.placed
  split at hplaced
  · next hpooled => rwa [if_pos hpooled]
  · next hpooled =>
    rw [if_neg hpooled]
    refine ⟨Forest.node?_eq_none_iff.2 hplaced, ?_, fun hmem => ?_⟩
    · have hnew : decide (f.size ≤ b.index) = true := decide_eq_true hplaced
      rw [← List.count_filter (p := fun b : NodeId => decide (f.size ≤ b.index)) hnew]
      exact List.count_eq_one_of_mem honce (List.mem_filter.2 ⟨hb, hnew⟩)
    · exact absurd (defined.lt_size_of_mem wf hmem) (Nat.not_lt.2 hplaced)

/-- An item that holds one pooled node twice, a node with a NaN in a field, and a value. -/
theorem Mixed.clone_of_item : ∃ copy g, (Forest.clone ⟨3⟩).exec forest = (.ok copy, g) ∧
    g.equals copy ⟨3⟩ = true ∧ ∃ a b c, g.preorder copy = [a, ⟨0⟩, b, c, ⟨0⟩] ∧
      forest.node? a = none ∧ forest.node? b = none ∧ forest.node? c = none := by
  obtain ⟨hdefined, hfree⟩ := @comparable ⟨3⟩ (by decide)
  obtain ⟨_, wf⟩ := grown.wellFormed declared
  have hwalk : forest.preorder ⟨3⟩ = [⟨3⟩, ⟨0⟩, ⟨1⟩, ⟨2⟩, ⟨0⟩] := by decide +kernel
  have hfits : ∀ a ∈ forest.preorder ⟨3⟩, ∀ k r, forest.kind? a = some k → forest.record? a = some r →
      k.table.fits r.fields = true := by
    intro a ha k r hk hr
    rw [hwalk] at ha
    simp only [List.mem_cons, List.not_mem_nil, or_false] at ha
    -- the value is the one node with a record
    rcases ha with rfl | rfl | rfl | rfl | rfl <;> cases hr
    cases hk
    rfl
  obtain ⟨copy, g, hclone, -, -, hequal, -, hplaced⟩ := clone_is_a_deep_copy declared grown hdefined hfits
  have hsteady : ∀ a ∈ forest.preorder ⟨3⟩, forest.isPooled a = false → (forest.span a).NaNFree :=
    fun a ha _ => hfree a ((hdefined.mem_preorder_iff wf).1 ha)
  refine ⟨copy, g, hclone, hequal.2 hsteady, ?_⟩
  generalize g.preorder copy = walk at hplaced ⊢
  rw [hwalk] at hplaced
  match walk, hplaced with
  | [a, lit, b, c, lit'], .cons ha (.cons hlit (.cons hb (.cons hc (.cons hlit' .nil)))) =>
    obtain rfl : lit = ⟨0⟩ := hlit.2
    obtain rfl : lit' = ⟨0⟩ := hlit'.2
    exact ⟨a, b, c, rfl, ha.2.1, hb.2.1, hc.2.1⟩

/-- A record is wrapped whatever kind of that name it was made for. A wrapper whose kind does
not take the record is a node like any other, and is not cloned: the copy of the record is
refused, though no span has NaN. -/
theorem Foreign.wrapper_is_not_cloned : Declared kinds ∧ forest.Grown kinds ∧
    forest.SchemaDefined ⟨0⟩ ∧ forest.NaNFree ⟨0⟩ ∧
    (Forest.clone ⟨0⟩).exec forest = (.error (.fieldMismatch "value" "Num" "int" "number"), forest) := by
  have hkinds : forest.SchemaDefined ⟨0⟩ := .of_parts rfl (fun _ hb => (nomatch hb))
  refine ⟨declared, grown, hkinds, fun n hn => ?_, rfl⟩
  rcases Relation.ReflTransGen.cases_head hn with rfl | ⟨b, hb, -⟩
  · decide +kernel
  · cases hb

end SyntaxForest
