import SyntaxForest.Proofs.Forest.Equality
import SyntaxForest.Proofs.Kind.Slots
/-!
# Equality and slots

Equality compares the scalars of two nodes field by field, but their parts along the list of
all parts, whichever slots they are in. `SameField` is the comparison in place. The two agree
for kinds with at most one elastic field, and come apart for every other kind, as long as no
field has the name of the root: `equality_sees_slots`.
-/

namespace SyntaxForest

namespace Forest

variable {f : Forest} {kinds : List Kind} {records : List ValueRecord} {a b id : NodeId}

/-! ## Comparison in place -/

/-- A field agrees in two records: the same scalar, two nodes that are equal or none, lists
of nodes that are equal one by one. -/
inductive SameField (f : Forest) : FieldType → Value → Value → Prop
  | scalar {type optional v w} : v.same w = true → SameField f (.scalar type optional) v w
  | null {optional} : SameField f (.node optional) .null .null
  | node {optional c d} : f.equals c d = true → SameField f (.node optional) (.node c) (.node d)
  | nodes {cs ds} : List.Forall₂ (fun c d => f.equals c d = true) cs ds →
      SameField f .nodes (.list (cs.map .node)) (.list (ds.map .node))

theorem sameField_iff {type : FieldType} {v w : Value} (hv : type.isScalar = false → type.fits v = true)
    (hw : type.isScalar = false → type.fits w = true) :
    f.SameField type v w ↔ (type.isScalar = true → v.same w = true) ∧
      List.Forall₂ (fun c d => f.equals c d = true) (type.nodesOf v) (type.nodesOf w) := by
  cases type with
  | scalar type optional =>
    constructor
    · rintro ⟨hsame⟩
      exact ⟨fun _ => hsame, .nil⟩
    · rintro ⟨hsame, -⟩
      exact .scalar (hsame rfl)
  | node optional =>
    generalize hcs : (FieldType.node optional).nodesOf v = cs
    generalize hds : (FieldType.node optional).nodesOf w = ds
    cases FieldType.takes_iff.2 ⟨hv rfl, hcs⟩ with
    | null =>
      cases FieldType.takes_iff.2 ⟨hw rfl, hds⟩ with
      | null => exact iff_of_true .null ⟨nofun, .nil⟩
      | node => exact iff_of_false nofun (fun h => nomatch h.2)
    | node =>
      cases FieldType.takes_iff.2 ⟨hw rfl, hds⟩ with
      | null => exact iff_of_false nofun (fun h => nomatch h.2)
      | @node _ d =>
        constructor
        · rintro (_ | _ | hequal)
          exact ⟨nofun, .cons hequal .nil⟩
        · rintro ⟨-, _ | ⟨hequal, -⟩⟩
          exact .node hequal
  | nodes =>
    generalize hcs : FieldType.nodes.nodesOf v = cs
    generalize hds : FieldType.nodes.nodesOf w = ds
    cases FieldType.takes_iff.2 ⟨hv rfl, hcs⟩ with
    | null h => cases h
    | nodes =>
      cases FieldType.takes_iff.2 ⟨hw rfl, hds⟩ with
      | null h => cases h
      | nodes =>
        constructor
        · intro h
          generalize hx : Value.list (cs.map .node) = x at h
          generalize hy : Value.list (ds.map .node) = y at h
          cases h with
          | nodes hequal =>
            have hinj : Function.Injective Value.node := fun _ _ h => by cases h; rfl
            obtain rfl := List.map_injective_iff.2 hinj (Value.list.inj hx)
            obtain rfl := List.map_injective_iff.2 hinj (Value.list.inj hy)
            exact ⟨nofun, hequal⟩
        · rintro ⟨-, hequal⟩
          exact .nodes hequal

/-! ## Equality without NaN -/

theorem equals_of_agreement (h : f.agreement a b = .equal) : f.equals a b = true := by
  rw [equals]
  rcases f.size with _ | n
  · rw [equalWithin, h]
    rfl
  · rw [equalWithin, h]

/-- Without NaN in spans a node equals itself. -/
theorem WellFormed.equals_self (declared : Declared kinds) (wf : WellFormed kinds f records)
    (hid : id.index < f.size) (hfree : f.NaNFree id) : f.equals id id = true := by
  induction hi : id.index using Nat.strong_induction_on generalizing id with
  | _ i ih =>
    subst hi
    rcases hkind : f.kind? id with _ | k
    · obtain ⟨n, hn⟩ := exists_node?_of_lt hid
      have hspan := hfree id .refl
      rw [kind?_of_node? hn] at hkind
      rw [span_of_node? hn] at hspan
      refine equals_of_agreement ?_
      cases wf.sound id n hn with
      | schema => cases hkind
      | wrapped => cases hkind
      | graph => simp [agreement, hn, Span.eqv_iff.2 ⟨hspan, rfl⟩]
    · have hsome : (f.kind? id).isSome = true := by simp [hkind]
      refine (wf.equals_iff declared hsome hsome).2 (.inr ⟨rfl, hfree id .refl, ?_⟩)
      refine List.forall₂_same.2 (fun c hc => ?_)
      have hholds : f.Holds id c := by rwa [Holds, children_eq_parts hsome]
      exact ih c.index (wf.index_lt hc) (wf.part_lt_size hid hc) (fun n hn => hfree n (.head hholds hn)) rfl

/-- What equality of two nodes comes to without NaN in spans, whether they are one object
or not. -/
theorem WellFormed.equals_iff_of_free (declared : Declared kinds) (wf : WellFormed kinds f records)
    (ha : (f.kind? a).isSome = true) (hb : (f.kind? b).isSome = true) (hfree : f.NaNFree a) :
    f.equals a b = true ↔ (f.facts? a = f.facts? b ∧ (f.span a).NaNFree) ∧
      List.Forall₂ (fun c d => f.equals c d = true) (f.parts a) (f.parts b) := by
  rw [wf.equals_iff declared ha hb, Comparison, ← and_assoc, or_iff_right_of_imp]
  rintro ⟨hkind, ⟨rfl, -⟩ | ⟨r, hra, hrb⟩⟩
  · refine ⟨⟨rfl, hfree a .refl⟩, List.forall₂_same.2 (fun c hc => ?_)⟩
    have hholds : f.Holds a c := by rwa [Holds, children_eq_parts ha]
    exact wf.equals_self declared (wf.part_lt_size (lt_size_of_kind? ha) hc)
      (fun n hn => hfree n (.head hholds hn))
  · refine ⟨⟨wf.facts?_eq_of_record? hkind hra hrb, hfree a .refl⟩, ?_⟩
    rw [parts_of_record? hra, parts_of_record? hrb]
    exact .nil

/-- Two nodes of a kind with at most one elastic field are equal exactly if their spans are and
every field agrees. -/
theorem WellFormed.equals_iff_fields (declared : Declared kinds) (wf : WellFormed kinds f records) {k : Kind}
    (hone : k.table.elastic.length ≤ 1) (ha : f.kind? a = some k) (hb : f.kind? b = some k)
    (hfree : f.NaNFree a) : f.equals a b = true ↔ (f.span a).eqv (f.span b) = true ∧
      ∀ e ∈ k.table, f.SameField e.type (f.field a e.name) (f.field b e.name) := by
  have ha' : (f.kind? a).isSome = true := by simp [ha]
  have hb' : (f.kind? b).isSome = true := by simp [hb]
  have hk : k ∈ kinds := mem_of_kind? wf ha
  obtain ⟨n, hn⟩ := exists_node?_of_lt (lt_size_of_kind? ha')
  obtain ⟨m, hm⟩ := exists_node?_of_lt (lt_size_of_kind? hb')
  have shows := wf.shows declared hn ((kind?_of_node? hn).symm.trans ha)
  have shows' := wf.shows declared hm ((kind?_of_node? hm).symm.trans hb)
  have hfield : ∀ name, f.field a name = Fields.read n.fields name := fun name => by rw [field, hn]
  have hfield' : ∀ name, f.field b name = Fields.read m.fields name := fun name => by rw [field, hm]
  have hfacts := facts?_eq_iff declared hk hk shows.scalars ((content_of_node? hn).trans shows.content)
    ((content_of_node? hm).trans shows'.content) (span_of_node? hn)
  have hsame : (∀ e ∈ k.table, f.SameField e.type (f.field a e.name) (f.field b e.name)) ↔
      k.table.sameScalars n.fields m.fields = true ∧ ∀ e ∈ k.table,
        List.Forall₂ (fun c d => f.equals c d = true) (e.type.nodesOf (Fields.read n.fields e.name))
          (e.type.nodesOf (Fields.read m.fields e.name)) := by
    rw [FieldTable.sameScalars, List.all_eq_true, ← forall₂_and]
    refine forall₂_congr (fun e he => ?_)
    rw [hfield, hfield', sameField_iff (shows.slots e he) (shows'.slots e he)]
    cases e.type.isScalar <;> simp
  rw [wf.equals_iff_of_free declared ha' hb' hfree, hfacts, parts_of_node? hn, parts_of_node? hm, shows.parts,
    shows'.parts, FieldTable.forall₂_children_iff hone shows.slots shows'.slots, hsame, span_of_node? hn,
    span_of_node? hm]
  simp only [true_and, and_assoc]

/-! ## Confused slots -/

/-- Two nodes of a kind that are equal, and list the same children, though a child is in
different slots of the two. -/
structure Confused (f : Forest) (table : FieldTable) (a b : NodeId) : Prop where
  children : f.children a = f.children b
  equal : f.equals a b = true
  moved : ∃ d ∈ table, ∃ e ∈ table, ∃ x,
    d.type.nodesOf (f.field a d.name) = [x] ∧ d.type.nodesOf (f.field b d.name) = [] ∧
    e.type.nodesOf (f.field a e.name) = [] ∧ e.type.nodesOf (f.field b e.name) = [x] ∧
    ¬ f.SameField d.type (f.field a d.name) (f.field b d.name)

section Confused

variable {k : Kind} {span : Span} {x : NodeId} {d e : FieldSpec} {parent parent' : Option NodeId}

theorem field_of_node? {fields : Fields} (hn : f.node? a = some ⟨span, .schema k fields, parent⟩)
    (name : String) : f.field a name = Fields.read fields name := by
  rw [field, hn]
  rfl

/-- Two nodes that hold one node each, in different elastic slots, are confused. -/
theorem WellFormed.confused (declared : Declared kinds) (wf : WellFormed kinds f records) (hk : k ∈ kinds)
    (hd : d ∈ k.table.elastic) (he : e ∈ k.table.elastic) (hne : d ≠ e) (hspan : span.NaNFree)
    (hx : f.equals x x = true) (ha : f.node? a = some ⟨span, .schema k (k.table.single x d), parent⟩)
    (hb : f.node? b = some ⟨span, .schema k (k.table.single x e), parent'⟩) : f.Confused k.table a b := by
  have hdistinct := declared.distinct k hk
  have hfits : ∀ slot, k.table.fits (k.table.single x slot) = true := fun _ => FieldTable.fits_single hdistinct
  have hka : (f.kind? a).isSome = true := by simp [kind?_of_node? ha, Node.kind?]
  have hkb : (f.kind? b).isSome = true := by simp [kind?_of_node? hb, Node.kind?]
  have hparts : f.parts a = f.parts b := by
    rw [parts_of_node? ha, parts_of_node? hb]
    exact FieldTable.children_single_eq hdistinct x hd he
  have hslot : ∀ {c}, c ∈ k.table.elastic → ∀ slot,
      c.type.nodesOf (Fields.read (k.table.single x slot) c.name) = if c = slot then [x] else [] :=
    fun hc slot => FieldTable.nodesOf_single_of_elastic hdistinct x slot hc
  refine ⟨?_, ?_, d, (List.mem_filter.1 hd).1, e, (List.mem_filter.1 he).1, x, ?_, ?_, ?_, ?_, fun hsame => ?_⟩
  · rw [children_eq_parts hka, children_eq_parts hkb, hparts]
  · have hself := FieldTable.sameScalars_self_of_fits (hfits d)
    obtain ⟨hfacts, hfree⟩ := (facts?_eq_iff declared hk hk hself (content_of_node? ha) (content_of_node? hb)
      (span_of_node? ha)).2 ⟨rfl, Span.eqv_iff.2 ⟨hspan, rfl⟩, FieldTable.sameScalars_single hdistinct x d e⟩
    refine (wf.equals_iff declared hka hkb).2 (.inr ⟨hfacts, hfree, ?_⟩)
    rw [← hparts, parts_of_node? ha]
    refine List.forall₂_same.2 (fun c hc => ?_)
    replace hc : c ∈ k.table.children (k.table.single x d) := hc
    rw [FieldTable.children_single hdistinct] at hc
    rw [List.eq_of_mem_replicate hc]
    exact hx
  · rw [field_of_node? ha, hslot hd, if_pos rfl]
  · rw [field_of_node? hb, hslot hd, if_neg hne]
  · rw [field_of_node? ha, hslot he, if_neg hne.symm]
  · rw [field_of_node? hb, hslot he, if_pos rfl]
  · rw [field_of_node? ha, field_of_node? hb] at hsame
    have hmem := (List.mem_filter.1 hd).1
    have hfit : ∀ slot, d.type.fits (Fields.read (k.table.single x slot) d.name) = true :=
      fun slot => FieldTable.fits_iff.1 (hfits slot) d hmem
    have hlength := ((sameField_iff (fun _ => hfit d) (fun _ => hfit e)).1 hsame).2.length_eq
    rw [hslot hd d, hslot hd e, if_pos rfl, if_neg hne] at hlength
    cases hlength

/-- A record with a node in one elastic slot is accepted. -/
theorem GrownWith.exec_create_single (declared : Declared kinds) (h : GrownWith kinds f records) (hk : k ∈ kinds)
    (hplain : k.table.Plain) (hd : d ∈ k.table.elastic) (hx : x.index < f.size) (span : Span) :
    ∃ g, (create k span (k.table.single x d)).exec f = (.ok ⟨f.size⟩, g) ∧ GrownWith kinds g records ∧
      g.node? ⟨f.size⟩ = some ⟨span, .schema k (k.table.single x d), none⟩ ∧ f.Extends g := by
  have hdistinct := declared.distinct k hk
  have hstores : k.table.Stores (k.table.single x d) := FieldTable.stores_single hdistinct hplain
  obtain ⟨hmem, helastic⟩ := List.mem_filter.1 hd
  have hvalue : k.strategy ≠ .value := by
    intro hvalue
    have hscalar := List.all_eq_true.1 ((declared.wellMade hk).isLeaf hvalue) d hmem
    rcases d with ⟨name, _ | _ | _⟩
    · cases helastic
    · cases hscalar
    · cases hscalar
  have hold : ∀ c ∈ k.table.children (k.table.single x d), c.index < f.size := by
    intro c hc
    rw [FieldTable.children_single hdistinct] at hc
    rw [List.eq_of_mem_replicate hc]
    exact hx
  have hrun : (create k span (k.table.single x d)).exec f =
      (.ok ⟨f.size⟩, (f.add ⟨span, .schema k (k.table.single x d), none⟩).2) := by
    have hbuild := exec_build_of_stores hdistinct hstores span f
    rw [FieldTable.mapNodes_single hdistinct hplain] at hbuild
    exact (exec_checked_of_fits hstores.fits _ f).trans hbuild
  have hmade := h.made declared k span _ hk hvalue hold hstores
  rw [FieldTable.mapNodes_single hdistinct hplain] at hmade
  exact ⟨_, hrun, hmade, node?_add_self f _, extends_add f _⟩

end Confused

end Forest

/-- Equality sees in which slot a node is exactly for kinds with at most one elastic field.
For such a kind, two nodes without NaN below them are equal exactly if their spans are and
every field agrees in place. For any other kind, unless it has a field by the name of the
root, there are two records that differ in place, a node being in different slots, whose
nodes are equal, and list the same children. -/
theorem equality_sees_slots {kinds : List Kind} {f : Forest} {k : Kind} (declared : Declared kinds)
    (grown : f.Grown kinds) (hk : k ∈ kinds) :
    (k.table.elastic.length ≤ 1 → ∀ a b, f.kind? a = some k → f.kind? b = some k → f.NaNFree a → f.NaNFree b →
      (f.equals a b = true ↔ (f.span a).eqv (f.span b) = true ∧
        ∀ e ∈ k.table, f.SameField e.type (f.field a e.name) (f.field b e.name))) ∧
    (2 ≤ k.table.elastic.length → k.table.Plain → ∀ span : Span, span.NaNFree →
      ∃ (one two : Fields) (a b : NodeId) (g h : Forest),
        (Forest.create k span one).exec (f.add { span, shape := .graph "leaf" [] }).2 = (.ok a, g) ∧
        (Forest.create k span two).exec g = (.ok b, h) ∧ h.Confused k.table a b) := by
  obtain ⟨records, hgrown⟩ := grown
  have wf := hgrown.wellFormed declared
  refine ⟨fun hone a b ha hb hfree _ => wf.equals_iff_fields declared hone ha hb hfree,
    fun htwo hplain span hspan => ?_⟩
  have hnodup : k.table.elastic.Nodup := (declared.distinct k hk).of_map.filter _
  obtain ⟨d, e, rest, helastic⟩ : ∃ d e rest, k.table.elastic = d :: e :: rest := by
    rcases hlist : k.table.elastic with _ | ⟨d, _ | ⟨e, rest⟩⟩
    · simp [hlist] at htwo
    · simp [hlist] at htwo
    · exact ⟨d, e, rest, rfl⟩
  have hd : d ∈ k.table.elastic := by simp [helastic]
  have he : e ∈ k.table.elastic := by simp [helastic]
  have hne : d ≠ e := by
    rintro rfl
    rw [helastic] at hnodup
    exact (List.nodup_cons.1 hnodup).1 List.mem_cons_self
  -- a hand-written leaf, so that there is a node at all
  let leaf : Node := { span, shape := .graph "leaf" [] }
  have hstart : Forest.GrownWith kinds (f.add leaf).2 records := hgrown.byHand "leaf" span [] (by simp)
  have hleaf : (f.add leaf).2.node? ⟨f.size⟩ = some leaf := f.node?_add_self leaf
  have hlt : f.size < (f.add leaf).2.size := Forest.lt_size_of_node? hleaf
  obtain ⟨g, hfirst, hg, ha, hfg⟩ := hstart.exec_create_single declared hk hplain hd (x := ⟨f.size⟩) hlt span
  have hlt' : f.size < g.size := Nat.lt_of_lt_of_le hlt hfg.size_le
  obtain ⟨h, hsecond, hh, hb, hgh⟩ := hg.exec_create_single declared hk hplain he (x := ⟨f.size⟩) hlt' span
  have hx : h.equals ⟨f.size⟩ ⟨f.size⟩ = true := by
    have hthere : h.node? ⟨f.size⟩ = some leaf := (hfg.trans hgh) _ _ hleaf
    have heqv : span.eqv span = true := Span.eqv_iff.2 ⟨hspan, rfl⟩
    exact Forest.equals_of_agreement (by simp [Forest.agreement, hthere, leaf, heqv])
  exact ⟨_, _, _, _, g, h, hfirst, hsecond,
    (hh.wellFormed declared).confused declared hk hd he hne hspan hx (hgh _ _ ha) hb⟩

namespace Sides

/-- A kind with two optional nodes. -/
def pair : Kind :=
  { id := ⟨0⟩, name := "Pair", strategy := .standard
    table := [⟨"left", .node true⟩, ⟨"right", .node true⟩]
    families := [], displayName := none, poolCategory := none }

theorem declared : Declared [pair] :=
  ⟨⟨_, @Catalog.Made.declared _ _ none (Mixed.declaration pair) pair .empty rfl⟩,
    by simp [FieldTable.Distinct, pair]⟩

/-- A leaf on the left is as good as one on the right. The parts of an item, which has one
list of nodes, are compared in place. -/
theorem sides_are_confused : pair.table.elastic.length = 2 ∧
    (∃ (one two : Fields) (a b : NodeId) (g h : Forest),
      (Forest.create pair .empty one).exec (Forest.add {} { span := .empty, shape := .graph "leaf" [] }).2 =
        (.ok a, g) ∧
      (Forest.create pair .empty two).exec g = (.ok b, h) ∧ h.Confused pair.table a b) ∧
    Mixed.forest.SameField .nodes (Mixed.forest.field ⟨3⟩ "parts") (Mixed.forest.field ⟨3⟩ "parts") := by
  have htwo : pair.table.elastic.length = 2 := by decide
  have hgrown : Forest.Grown [pair] {} := ⟨[], .empty⟩
  obtain ⟨-, hconfused⟩ := equality_sees_slots declared hgrown (List.mem_singleton_self pair)
  obtain ⟨hinplace, -⟩ :=
    equality_sees_slots (k := Mixed.item 0) Mixed.declared Mixed.grown (by simp [Mixed.kinds])
  obtain ⟨-, hfree⟩ := @Mixed.comparable ⟨3⟩ (by decide)
  have hfields := (hinplace (by decide) ⟨3⟩ ⟨3⟩ rfl rfl hfree hfree).1 (by decide +kernel)
  exact ⟨htwo, hconfused htwo.ge (by decide) .empty (by decide +kernel), hfields.2 ⟨"parts", .nodes⟩ (by simp [Mixed.item])⟩

/-- A pair with an integer under the name of the root. -/
def rooted : Kind := { pair with table := ⟨Fields.rootName, .scalar .int false⟩ :: pair.table }

/-- Two sides are not confused where nothing is accepted: no record of the rooted pair is
stored, since its integer is lost. -/
theorem rooted_pair_is_never_created : Declared [rooted] ∧ rooted.table.elastic.length = 2 ∧
    ∀ (f : Forest) (span : Span) (fields : Fields) (id : NodeId) (g : Forest),
      (Forest.create rooted span fields).exec f ≠ (.ok id, g) := by
  have hdistinct : rooted.table.Distinct := by simp [FieldTable.Distinct, rooted, pair, Fields.rootName]
  refine ⟨⟨⟨_, @Catalog.Made.declared _ _ none (Mixed.declaration rooted) rooted .empty rfl⟩, by simpa⟩,
    by decide, fun f span fields id g hrun => ?_⟩
  rcases hcheck : rooted.table.check f.kindName rooted.name fields with fault | _
  · rw [Forest.create, Forest.exec_checked_of_refused hcheck] at hrun
    cases hrun
  · rw [Forest.create, Forest.exec_checked_of_fits (FieldTable.fits_iff.2 (FieldTable.fits_of_check hcheck).2),
      Forest.exec_build] at hrun
    rcases hsettle : rooted.table.settle f.kindName rooted.name fields with _ | stored
    · simp [hsettle] at hrun
    · obtain ⟨-, hstores, -⟩ := FieldTable.of_settle hdistinct hsettle
      exact hstores.name_ne_root List.mem_cons_self rfl rfl

end Sides

end SyntaxForest
