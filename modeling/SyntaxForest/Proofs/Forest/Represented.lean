import SyntaxForest.Proofs.Forest.Alike
/-!
# Representations do not matter

`Forest.rebuild` makes a structure anew, from the bottom up, each node as one of the kind
planned for its place. Where the planned kinds describe the same data, whatever their
strategies, what comes of it mirrors the structure it was made from, so it gives the same
answers in all places: `representations_are_interchangeable`.
-/

namespace SyntaxForest

namespace Forest

variable {f g h : Forest} {kinds : List Kind} {records : List ValueRecord} {plan : NodeId → Kind}
  {id : NodeId} {ids : List NodeId}

/-! ## Making structures anew -/

/-- Make a node of a kind of any strategy; a value kind wraps a new record. -/
def construct (kind : Kind) (span : Span) (fields : Fields) : Act Forest NodeId :=
  if kind.strategy = .value then do
    let record ← createRecord kind span fields
    wrap kind record
  else create kind span fields

/-- Make a node anew as one of the planned kind, its children first, at most `steps` levels
deep. -/
def rebuildWithin (plan : NodeId → Kind) : (steps : Nat) → NodeId → Act Forest NodeId
  | 0, id => pure id
  | steps + 1, id => do
    let f ← get
    match f.node? id with
    | none => return id
    | some n =>
      let parts ← n.children.mapM (rebuildWithin plan steps)
      construct (plan id) n.span ((plan id).table.refill n.fields (parts.map .node))

def rebuild (plan : NodeId → Kind) (id : NodeId) : Act Forest NodeId := do
  let f ← get
  rebuildWithin plan (f.size + 1) id

/-- Every node below is of a kind, and a declared kind that describes the same data is
planned for it. If it wraps a record, the record fits its kind. -/
def Planned (kinds : List Kind) (plan : NodeId → Kind) (f : Forest) (id : NodeId) : Prop :=
  ∀ n, f.Reaches id n → ∃ k, f.kind? n = some k ∧ plan n ∈ kinds ∧ (plan n).Represents k ∧
    ∀ r, f.record? n = some r → k.table.fits r.fields = true

theorem Planned.schemaDefined (hid : f.Planned kinds plan id) : f.SchemaDefined id := by
  intro n hn
  obtain ⟨k, hk, -⟩ := hid n hn
  simp [hk]

theorem Planned.part (hid : f.Planned kinds plan id) {c : NodeId} (hc : c ∈ f.parts id) :
    f.Planned kinds plan c :=
  fun n hn => hid n (.head (hid.schemaDefined.holds hc) hn)

/-! ## One node -/

theorem exec_construct (declared : Declared kinds) (hf : f.Grown kinds) {kind : Kind} {fields : Fields}
    (hkind : kind ∈ kinds) (hold : ∀ c ∈ kind.table.children fields, c.index < f.size)
    (hstores : kind.table.Stores fields) (span : Span) :
    ∃ g, (construct kind span fields).exec f = (.ok ⟨f.size⟩, g) ∧
      Adds kinds f g (.ofKind kind span (kind.table.outline fields)) (kind.table.children fields) := by
  have hcheck : kind.table.check f.kindName kind.name fields = .ok () :=
    FieldTable.check_of_fits _ _ hstores.fits
  unfold construct
  by_cases hvalue : kind.strategy = .value
  · obtain ⟨g, hrun, adds, -⟩ := hf.exec_wrap declared hkind hvalue hstores span
    have hnone : kind.table.children fields = [] :=
      FieldTable.children_of_isLeaf ((declared.wellMade hkind).isLeaf hvalue) _
    refine ⟨g, ?_, hnone ▸ adds⟩
    rw [if_pos hvalue, ← hrun, createRecord]
    simp only [Act.exec_bind, Act.exec_get, Act.exec_ofExcept, hcheck]
  · obtain ⟨g, hrun, adds⟩ := hf.exec_build declared hkind hvalue hold hstores span
    refine ⟨g, ?_, adds⟩
    rw [if_neg hvalue, ← hrun, create]
    simp only [Act.exec_bind, Act.exec_get, Act.exec_ofExcept, hcheck]

/-! ## Whole structures -/

/-- What comes of making nodes anew while the forest grew from `g` to `h`: structures that
mirror those in `f`. -/
structure Rebuilt (kinds : List Kind) (plan : NodeId → Kind) (f g h : Forest) (ids : List NodeId)
    (ts : List Pairing) : Prop where
  left : ts.map Pairing.left = ids
  mirror : ∀ t ∈ ts, f.Mirror plan h t
  grown : h.Grown kinds
  kept : g.Extends h

/-- One node after the other. -/
theorem exec_mapM_rebuild {act : NodeId → Act Forest NodeId}
    (hact : ∀ g : Forest, g.Grown kinds → f.Extends g → ∀ a ∈ ids,
      ∃ t h, (act a).exec g = (.ok t.right, h) ∧ Rebuilt kinds plan f g h [a] [t])
    (hg : g.Grown kinds) (hfg : f.Extends g) :
    ∃ ts h, (ids.mapM act).exec g = (.ok (ts.map Pairing.right), h) ∧ Rebuilt kinds plan f g h ids ts := by
  induction ids generalizing g with
  | nil => exact ⟨[], g, rfl, rfl, by simp, hg, .refl g⟩
  | cons a rest ih =>
    obtain ⟨t, g', hfirst, first⟩ := hact g hg hfg a (by simp)
    obtain ⟨ts, h, hrest, more⟩ := ih (fun g hg hfg b hb => hact g hg hfg b (by simp [hb])) first.grown
      (hfg.trans first.kept)
    have hleft : t.left = a := by simpa using first.left
    refine ⟨t :: ts, h, ?_, ?_, ?_, more.grown, first.kept.trans more.kept⟩
    · rw [Act.exec_mapM_cons, hfirst]
      simp only [hrest, List.map_cons]
    · rw [List.map_cons, hleft, more.left]
    · intro u hu
      rcases List.mem_cons.1 hu with rfl | hu
      · exact (first.mirror u (by simp)).later more.kept
      · exact more.mirror u hu

theorem exec_rebuildWithin (declared : Declared kinds) (hf : f.Grown kinds) {steps : Nat}
    (hid : f.Planned kinds plan id) (hsteps : id.index < steps) (hg : g.Grown kinds) (hfg : f.Extends g) :
    ∃ t h, (rebuildWithin plan steps id).exec g = (.ok t.right, h) ∧ Rebuilt kinds plan f g h [id] [t] := by
  induction steps generalizing g id with
  | zero => omega
  | succ steps ih =>
    obtain ⟨_, wf⟩ := hf.wellFormed declared
    obtain ⟨k, hk, hplan, hrep, hfits⟩ := hid id .refl
    have hdefined := hid.schemaDefined
    obtain ⟨n, hn⟩ := exists_node?_of_lt hdefined.lt_size
    have hkn : n.kind? = some k := by rwa [kind?_of_node? hn] at hk
    have shows := wf.shows declared hn hkn
    have hstores : (plan id).table.Stores n.fields := hrep.table ▸ wf.stores declared hn hkn hfits
    have hfparts : f.parts id = k.table.children n.fields := (parts_of_node? hn).trans shows.parts
    have hchildren : n.children = f.parts id := by
      rw [← children_of_node? hn, hdefined.children_eq]
    -- the parts first, each of them lower in the forest
    have hpart : ∀ g : Forest, g.Grown kinds → f.Extends g → ∀ c ∈ f.parts id,
        ∃ t h, (rebuildWithin plan steps c).exec g = (.ok t.right, h) ∧
          Rebuilt kinds plan f g h [c] [t] := by
      intro g hg hfg c hc
      have hlt := wf.index_lt hc
      exact ih (hid.part hc) (by omega) hg hfg
    obtain ⟨ts, g', hrun, rebuilt⟩ := exec_mapM_rebuild hpart hg hfg
    have hlength : (ts.map Pairing.right).length = ((plan id).table.children n.fields).length := by
      rw [hrep.table, ← hfparts, ← rebuilt.left, List.length_map, List.length_map]
    have hdistinct := declared.distinct (plan id) hplan
    have hrefilled : (plan id).table.children
        ((plan id).table.refill n.fields ((ts.map Pairing.right).map .node)) = ts.map Pairing.right :=
      FieldTable.children_refill hdistinct hlength
    have hthere : ∀ c ∈ ts.map Pairing.right, c.index < g'.size := by
      intro c hc
      obtain ⟨t, ht, rfl⟩ := List.mem_map.1 hc
      exact (rebuilt.mirror t ht).schemaDefined.2.lt_size
    -- then the node, around the new parts
    obtain ⟨h, hmade, adds⟩ := exec_construct declared rebuilt.grown hplan (by rwa [hrefilled])
      (hstores.refill hdistinct hlength) n.span
    refine ⟨.node (id, ⟨g'.size⟩) ts, h, ?_, rfl, ?_, adds.grown, rebuilt.kept.trans adds.kept⟩
    · simp only [rebuildWithin, Act.exec_bind, Act.exec_get, hfg _ _ hn, hchildren, hrun]
      exact hmade
    · intro t ht
      obtain rfl := List.mem_singleton.1 ht
      refine .node ⟨⟨k, n.span, k.table.outline n.fields, ?_, ?_, hrep⟩, ?_, ?_⟩
        (fun t ht => (rebuilt.mirror t ht).later adds.kept)
      · rw [content_of_node? hn, shows.content]
      · rw [adds.content_eq, hstores.keeps.outline_refill hdistinct hlength, hrep.table]
      · exact rebuilt.left.symm
      · rw [adds.parts_eq, hrefilled]

theorem exec_rebuild_of_planned (declared : Declared kinds) (hf : f.Grown kinds)
    (hid : f.Planned kinds plan id) (hg : g.Grown kinds) (hfg : f.Extends g) :
    ∃ t h, (rebuild plan id).exec g = (.ok t.right, h) ∧ Rebuilt kinds plan f g h [id] [t] := by
  have hlt : id.index < g.size + 1 :=
    Nat.lt_succ_of_lt (Nat.lt_of_lt_of_le hid.schemaDefined.lt_size hfg.size_le)
  unfold rebuild
  rw [Act.exec_bind, Act.exec_get]
  exact exec_rebuildWithin declared hf hid hlt hg hfg

end Forest

/-- Structures of nodes of any kinds, made anew with every kind replaced by one of the same
name, fields, families and display field, whatever its strategy and whichever nodes it is
planned for: in all places the old and the new node are alike, searches for corresponding
kinds and for families find the same places, and, if one of two structures has no NaN in a
span, comparing the two before and after gives the same answer. -/
theorem representations_are_interchangeable {kinds : List Kind} {f : Forest} {plan : NodeId → Kind}
    {roots : List NodeId} (declared : Declared kinds) (grown : f.Grown kinds)
    (planned : ∀ a ∈ roots, f.Planned kinds plan a) :
    ∃ (ts : List Pairing) (g : Forest),
      (roots.mapM (Forest.rebuild plan)).exec f = (.ok (ts.map Pairing.right), g) ∧
      ts.map Pairing.left = roots ∧ g.Grown kinds ∧ f.Extends g ∧
      (∀ t ∈ ts, ∀ p ∈ t.preorder, g.kind? p.2 = some (plan p.1)) ∧
      (∀ t ∈ ts, t.All (fun p below => f.Alike g (.node p below))) ∧
      (∀ t ∈ ts, ∀ m n, f.Corresponds plan t.left m n →
        t.All (fun p below => Forest.FoundAlike m n f g (.node p below))) ∧
      (∀ t ∈ ts, ∀ u ∈ ts, f.NaNFree t.left → f.Consistent plan t.left u.left →
        g.equals t.right u.right = f.equals t.left u.left) := by
  obtain ⟨_, wf⟩ := grown.wellFormed declared
  obtain ⟨ts, g, hrun, rebuilt⟩ := Forest.exec_mapM_rebuild
    (fun g hg hfg a ha => Forest.exec_rebuild_of_planned declared grown (planned a ha) hg hfg)
    grown (.refl f)
  have hg := rebuilt.grown
  refine ⟨ts, g, hrun, rebuilt.left, hg, rebuilt.kept, fun t ht p hp => ?_, fun t ht => ?_,
    fun t ht m n hmn => ?_, fun t ht u hu hfree hplan => ?_⟩
  · obtain ⟨_, hmirrored⟩ := (rebuilt.mirror t ht).of_mem_preorder hp
    obtain ⟨_, _, hplanned, -⟩ := hmirrored.kind?
    exact hplanned
  · exact (rebuilt.mirror t ht).within.imp (fun _ _ hmirror => hmirror.alike declared grown hg)
  · have hmirror := rebuilt.mirror t ht
    refine hmirror.within.imp_of_mem (fun p below hp hbelow => ?_)
    have hp' : p.1 ∈ f.preorder t.left :=
      (hmirror.alike declared grown hg).preorder.1 ▸ List.mem_map_of_mem hp
    have hreach := (hmirror.schemaDefined.1.mem_preorder_iff wf).1 hp'
    exact hbelow.foundAlike declared grown hg hreach hmn
  · exact (rebuilt.mirror t ht).equals_eq declared grown hg (rebuilt.mirror u hu) hfree hplan

/-! ## Two equal lists -/

namespace Replaced

def leaf : Kind :=
  { id := ⟨0⟩, name := "Leaf", strategy := .standard, table := [⟨"value", .scalar .int false⟩]
    families := [], displayName := some "value", poolCategory := none }

def list : Kind :=
  { id := ⟨1⟩, name := "List", strategy := .standard, table := [⟨"items", .nodes⟩]
    families := [], displayName := none, poolCategory := none }

def compactList : Kind := { list with id := ⟨2⟩, strategy := .optimized }

def valueLeaf : Kind := { leaf with id := ⟨3⟩, strategy := .value }

/-- The lists and leaves of two registries. -/
def kinds : List Kind := [valueLeaf, compactList, list, leaf]

def number (n : Nat) : Fields := [("value", .num (.ofNat n))]

def items (parts : List Nat) : Fields := [("items", .list (parts.map (fun i => .node ⟨i⟩)))]

def kindOf (n : NodeId) : Kind := if n.index % 3 = 2 then list else leaf

def plan (n : NodeId) : Kind := if n.index % 3 = 2 then compactList else valueLeaf

/-- Two lists of leaves of their own. -/
def forest : Forest :=
  { nodes := #[
      { span := Mixed.span 0 1, shape := .schema leaf (number 1) },
      { span := Mixed.span 1 2, shape := .schema leaf (number 2) },
      { span := Mixed.span 0 2, shape := .schema list (items [0, 1]) },
      { span := Mixed.span 0 1, shape := .schema leaf (number 1) },
      { span := Mixed.span 1 2, shape := .schema leaf (number 2) },
      { span := Mixed.span 0 2, shape := .schema list (items [3, 4]) }] }

theorem declared : Declared kinds := by
  have first := @Catalog.Made.declared _ _ none (Mixed.declaration leaf) leaf .empty rfl
  have second := @Catalog.Made.declared _ _ none (Mixed.declaration list) list first rfl
  have third := @Catalog.Made.declared _ _ (some "other") (Mixed.declaration compactList) compactList
    second rfl
  have fourth := @Catalog.Made.declared _ _ (some "other") (Mixed.declaration valueLeaf) valueLeaf
    third rfl
  exact ⟨⟨_, fourth⟩, by simp [kinds, FieldTable.Distinct, leaf, list, compactList, valueLeaf]⟩

theorem grown : Forest.Grown kinds forest := by
  have h0 := Forest.GrownWith.made declared leaf (Mixed.span 0 1) (number 1) .empty
    (by simp [kinds]) (by decide) (by decide) (.of_plain (by decide) (by decide +kernel))
  have h1 := Forest.GrownWith.made declared leaf (Mixed.span 1 2) (number 2) h0
    (by simp [kinds]) (by decide) (by decide) (.of_plain (by decide) (by decide +kernel))
  have h2 := Forest.GrownWith.made declared list (Mixed.span 0 2) (items [0, 1]) h1
    (by simp [kinds]) (by decide) (by decide) (.of_plain (by decide) (by decide))
  have h3 := Forest.GrownWith.made declared leaf (Mixed.span 0 1) (number 1) h2
    (by simp [kinds]) (by decide) (by decide) (.of_plain (by decide) (by decide +kernel))
  have h4 := Forest.GrownWith.made declared leaf (Mixed.span 1 2) (number 2) h3
    (by simp [kinds]) (by decide) (by decide) (.of_plain (by decide) (by decide +kernel))
  have h5 := Forest.GrownWith.made declared list (Mixed.span 0 2) (items [3, 4]) h4
    (by simp [kinds]) (by decide) (by decide) (.of_plain (by decide) (by decide))
  exact ⟨_, h5⟩

theorem kind?_eq {n : NodeId} (hn : n.index < 6) : forest.kind? n = some (kindOf n) := by
  rcases n with ⟨i⟩
  match i, hn with
  | 0, _ | 1, _ | 2, _ | 3, _ | 4, _ | 5, _ => rfl

theorem lt_of_reaches {a n : NodeId} (ha : a.index < 6) (hn : forest.Reaches a n) : n.index < 6 := by
  obtain ⟨_, wf⟩ := grown.wellFormed declared
  have hle := wf.index_le_of_reaches (fun m hm => by simp [kind?_eq (Nat.lt_of_le_of_lt hm ha)]) hn
  exact Nat.lt_of_le_of_lt hle ha

theorem planned {a : NodeId} (ha : a.index < 6) : forest.Planned kinds plan a := by
  intro n hn
  have hlt := lt_of_reaches ha hn
  refine ⟨kindOf n, kind?_eq hlt, ?_, ?_, fun r hr => ?_⟩
  · unfold plan
    split <;> simp [kinds]
  · unfold plan kindOf
    split <;> exact ⟨rfl, rfl, rfl, rfl⟩
  · rw [(by decide : ∀ i < 6, forest.record? ⟨i⟩ = none) n.index hlt] at hr
    cases hr

/-- Lists become lists and leaves become leaves. -/
theorem consistent {a b : NodeId} (ha : a.index < 6) (hb : b.index < 6) :
    Forest.Consistent plan forest a b := by
  intro x y hx hy
  rw [kind?_eq (lt_of_reaches ha hx), kind?_eq (lt_of_reaches hb hy), Option.some.injEq]
  have hkinds : list ≠ leaf := fun h => absurd (congrArg Kind.id h) (by decide)
  have hplans : compactList ≠ valueLeaf := fun h => absurd (congrArg Kind.id h) (by decide)
  unfold kindOf plan
  split <;> split <;> simp [hkinds, hkinds.symm, hplans, hplans.symm]

end Replaced

/-- Both lists become compact lists of value leaves, and stay equal. -/
theorem Replaced.lists_stay_equal : ∃ a b g,
    ([⟨2⟩, ⟨5⟩].mapM (Forest.rebuild plan)).exec forest = (.ok [a, b], g) ∧
      g.kind? a = some compactList ∧ g.count a = 3 ∧ g.equals a b = true := by
  have hplanned : ∀ a ∈ [(⟨2⟩ : NodeId), ⟨5⟩], forest.Planned kinds plan a := by
    intro a ha
    refine planned ?_
    rcases List.mem_cons.1 ha with rfl | ha
    · decide
    · obtain rfl := List.mem_singleton.1 ha
      decide
  obtain ⟨ts, g, hrun, hleft, -, -, hkinds, halike, -, hequals⟩ :=
    representations_are_interchangeable declared grown hplanned
  obtain ⟨t, rest, rfl, ht, hrest⟩ := List.map_eq_cons_iff.1 hleft
  obtain ⟨u, rest', rfl, hu, hnil⟩ := List.map_eq_cons_iff.1 hrest
  obtain rfl := List.map_eq_nil_iff.1 hnil
  have hroot : (t.left, t.right) ∈ t.preorder := by
    rcases t with ⟨p, below⟩
    exact .head _
  have hfree : forest.NaNFree t.left := by
    intro n hn
    have hlt : n.index < 6 := lt_of_reaches (by rw [ht]; decide) hn
    exact (by decide +kernel : ∀ i < 6, (forest.span ⟨i⟩).NaNFree) n.index hlt
  have hconsistent : Forest.Consistent plan forest t.left u.left := by
    rw [ht, hu]
    exact consistent (by decide) (by decide)
  refine ⟨t.right, u.right, g, hrun, ?_, ?_, ?_⟩
  · rw [hkinds t (.head _) _ hroot, ht]
    rfl
  · have hcount : g.count t.right = forest.count t.left := (halike t (.head _)).root.count
    rw [hcount, ht]
    decide +kernel
  · rw [hequals t (.head _) u (.tail _ (.head _)) hfree hconsistent, ht, hu]
    decide +kernel

end SyntaxForest
