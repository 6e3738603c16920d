import SyntaxForest.Proofs.Kind.Made
import SyntaxForest.Proofs.Kind.Table
/-!
# Forests that calls lead to

`Grown`: the forests that making, wrapping, linking and telling parents lead to, with
nodes of declared kinds. `GrownWith.wellFormed` says what holds in all of them: a node
of a kind has a record that fits the kind's table and holds older nodes only, a wrapper
has the span of its record, and a record is known by its number. `Extends`: one forest
has every node of another one as it was.
-/

namespace SyntaxForest

/-- Kinds that declarations made, each from a table with distinct names. -/
structure Declared (kinds : List Kind) : Prop where
  made : ∃ catalog, Catalog.Made catalog kinds
  distinct : ∀ k ∈ kinds, k.table.Distinct

section Declared
variable {kinds : List Kind}

theorem Declared.eq_of_id (h : Declared kinds) {k l : Kind} (hk : k ∈ kinds) (hl : l ∈ kinds)
    (hid : k.id = l.id) : k = l := by
  obtain ⟨_, hmade⟩ := h.made
  exact hmade.eq_of_id hk hl hid

theorem Declared.isLeaf_of_pooled (h : Declared kinds) {k : Kind} (hk : k ∈ kinds)
    (hpooled : k.strategy = .pooled) : k.isLeaf = true := by
  obtain ⟨_, hmade⟩ := h.made
  exact (hmade.legal k hk).2 hpooled

theorem Declared.wellMade (h : Declared kinds) {k : Kind} (hk : k ∈ kinds) : k.WellMade := by
  obtain ⟨_, hmade⟩ := h.made
  obtain ⟨_, _, _, _, haccept⟩ := hmade.accepted k hk
  exact Declaration.wellMade haccept

end Declared

theorem FieldTable.children_of_isLeaf {table : FieldTable} (h : table.isLeaf = true) (fields : Fields) :
    table.children fields = [] := by
  rw [children, List.flatMap_eq_nil_iff]
  intro e he
  have hscalar := List.all_eq_true.1 h e he
  rcases e with ⟨name, _ | _ | _⟩
  · rfl
  · cases hscalar
  · cases hscalar

namespace Forest

variable {f g h : Forest}

/-! ## Extensions -/

/-- Every node is in the other forest too, unchanged: its span, its record or links, and
its parent link. -/
def Extends (f g : Forest) : Prop := ∀ id n, f.node? id = some n → g.node? id = some n

theorem Extends.refl (f : Forest) : f.Extends f := fun _ _ hn => hn

theorem Extends.trans (hf : f.Extends g) (hg : g.Extends h) : f.Extends h :=
  fun id n hn => hg id n (hf id n hn)

theorem extends_add (f : Forest) (n : Node) : f.Extends (f.add n).2 := by
  intro id m hm
  rw [node?_add_of_lt f n (lt_size_of_node? hm)]
  exact hm

theorem exists_node?_of_lt {id : NodeId} (hid : id.index < f.size) : ∃ n, f.node? id = some n :=
  ⟨_, Array.getElem?_eq_getElem hid⟩

theorem node?_eq_none_iff {id : NodeId} : f.node? id = none ↔ f.size ≤ id.index :=
  Array.getElem?_eq_none_iff

theorem Extends.node?_eq (hf : f.Extends g) {id : NodeId} (hid : id.index < f.size) :
    g.node? id = f.node? id := by
  obtain ⟨n, hn⟩ := exists_node?_of_lt hid
  rw [hn, hf id n hn]

theorem Extends.size_le (hf : f.Extends g) : f.size ≤ g.size := by
  rcases Nat.eq_zero_or_pos f.size with hzero | hpos
  · omega
  · obtain ⟨n, hn⟩ := @exists_node?_of_lt f ⟨f.size - 1⟩ (Nat.sub_lt hpos Nat.one_pos)
    have hlast : f.size - 1 < g.size := lt_size_of_node? (hf _ n hn)
    omega

/-- A node of a forest with one more node is an old one or the new one. -/
theorem node?_add_cases {n m : Node} {id : NodeId} (hm : (f.add n).2.node? id = some m) :
    f.node? id = some m ∨ id = ⟨f.size⟩ ∧ m = n := by
  rcases Nat.lt_or_ge id.index f.size with hlt | hge
  · rw [node?_add_of_lt f n hlt] at hm
    exact .inl hm
  · have hid : id = ⟨f.size⟩ := by
      have := lt_size_of_node? hm
      rw [size_add] at this
      rcases id with ⟨i⟩
      simp only at hge this
      rw [NodeId.mk.injEq]
      omega
    subst hid
    have hself : (f.add n).2.node? ⟨f.size⟩ = some n := node?_add_self f n
    rw [hself] at hm
    exact .inr ⟨rfl, (Option.some.inj hm).symm⟩

/-! ## Growing -/

theorem exec_buildRecord (kind : Kind) (span : Span) (fields : Fields) (f : Forest) :
    (buildRecord kind span fields).exec f =
      match kind.table.settle f.kindName kind.name fields with
      | .error fault => (.error fault, f)
      | .ok stored =>
        (.ok { id := f.recordCount, kind := kind.name, span, fields := stored },
          { f with recordCount := f.recordCount + 1 }) := by
  rw [buildRecord, Act.exec_bind, Act.exec_get]
  simp only [Act.exec_bind, Act.exec_ofExcept]
  rcases kind.table.settle f.kindName kind.name fields with _ | _ <;> rfl

/-- A record that can be stored is. -/
theorem exec_build_of_stores {kind : Kind} {fields : Fields} (h : kind.table.Distinct)
    (hstores : kind.table.Stores fields) (span : Span) (f : Forest) :
    (build kind span fields).exec f = (.ok ⟨f.size⟩,
      (f.add { span, shape := .schema kind (kind.table.mapNodes .node fields) }).2) := by
  rw [exec_build, hstores.settle_eq h]
  rfl

theorem exec_buildRecord_of_stores {kind : Kind} {fields : Fields} (h : kind.table.Distinct)
    (hstores : kind.table.Stores fields) (span : Span) (f : Forest) :
    (buildRecord kind span fields).exec f =
      (.ok { id := f.recordCount, kind := kind.name, span, fields := kind.table.mapNodes .node fields },
        { f with recordCount := f.recordCount + 1 }) := by
  rw [exec_buildRecord, hstores.settle_eq h]

/-- What comes after the check of a record is done if the record fits. -/
theorem exec_checked_of_fits {α : Type} {kind : Kind} {fields : Fields} (hfits : kind.table.fits fields = true)
    (next : Act Forest α) (f : Forest) :
    (do let g ← get; Act.ofExcept (kind.table.check g.kindName kind.name fields); next : Act Forest α).exec f =
      next.exec f := by
  rw [Act.exec_bind, Act.exec_get]
  simp only [Act.exec_bind, Act.exec_ofExcept, FieldTable.check_of_fits _ _ hfits]

/-- Nothing is done if the record is refused. -/
theorem exec_checked_of_refused {α : Type} {kind : Kind} {fields : Fields} {fault : Fault}
    (hcheck : kind.table.check f.kindName kind.name fields = .error fault) (next : Act Forest α) :
    (do let g ← get; Act.ofExcept (kind.table.check g.kindName kind.name fields); next : Act Forest α).exec f =
      (.error fault, f) := by
  rw [Act.exec_bind, Act.exec_get]
  simp only [Act.exec_bind, Act.exec_ofExcept, hcheck]

/-- A forest that calls lead to, with the value records that were made on the way. Nodes
of all kinds hold nodes that are there; a record is wrapped by any value kind of its name,
whether it fits the kind's table or was made by another kind. -/
inductive GrownWith (kinds : List Kind) : Forest → List ValueRecord → Prop
  | empty : GrownWith kinds {} []
  | built {f g records kind span fields id} : GrownWith kinds f records → kind ∈ kinds →
      kind.strategy ≠ .value → (∀ c ∈ kind.table.children fields, c.index < f.size) →
      (build kind span fields).exec f = (.ok id, g) → GrownWith kinds g records
  | recorded {f g records kind span fields record} : GrownWith kinds f records → kind ∈ kinds →
      kind.strategy = .value → (buildRecord kind span fields).exec f = (.ok record, g) → GrownWith kinds g (record :: records)
  | wrapped {f g records kind record id} : GrownWith kinds f records → kind ∈ kinds →
      kind.strategy = .value → record ∈ records → record.kind = kind.name →
      (wrap kind record).exec f = (.ok id, g) → GrownWith kinds g records
  | byHand {f records} (name : String) (span : Span) (links : List NodeId) : GrownWith kinds f records →
      (∀ l ∈ links, l.index < f.size) →
      GrownWith kinds (f.add { span, shape := .graph name links }).2 records
  | linked {f records} (id : NodeId) (targets : List NodeId) : GrownWith kinds f records →
      (∀ t ∈ targets, t.index < f.size) → GrownWith kinds (f.link id targets) records
  | told {f records} (id : NodeId) (parent : Option NodeId) : GrownWith kinds f records →
      GrownWith kinds (f.setParent id parent) records

/-- One node more, of a record that can be stored. -/
theorem GrownWith.made {kinds : List Kind} (declared : Declared kinds) {records : List ValueRecord}
    (kind : Kind) (span : Span) (fields : Fields) (h : GrownWith kinds f records) (hkind : kind ∈ kinds)
    (hvalue : kind.strategy ≠ .value) (hold : ∀ c ∈ kind.table.children fields, c.index < f.size)
    (hstores : kind.table.Stores fields) : GrownWith kinds
      (f.add { span, shape := .schema kind (kind.table.mapNodes .node fields) }).2 records :=
  h.built hkind hvalue hold (exec_build_of_stores (declared.distinct kind hkind) hstores span f)

/-- A forest that calls lead to. -/
def Grown (kinds : List Kind) (f : Forest) : Prop := ∃ records, GrownWith kinds f records

end Forest

/-! ## What holds in every grown forest -/

/-- What a node is made of: a record that its table stores, with older nodes only, or a
value record that is known, seen through a value kind. -/
inductive Node.Sound (kinds : List Kind) (records : List ValueRecord) (id : NodeId) : Node → Prop
  | schema {span parent kind fields} : kind ∈ kinds → kind.strategy ≠ .value →
      kind.table.Stores fields → (∀ c ∈ kind.table.children fields, c.index < id.index) →
      Sound kinds records id ⟨span, .schema kind fields, parent⟩
  | wrapped {parent kind record} : kind ∈ kinds → kind.strategy = .value → record ∈ records →
      Sound kinds records id ⟨record.span, .wrapped kind record, parent⟩
  | graph {span parent name links} : Sound kinds records id ⟨span, .graph name links, parent⟩

theorem Node.Sound.more {kinds : List Kind} {records more : List ValueRecord} {id : NodeId} {n : Node}
    (h : n.Sound kinds records id) (hmore : ∀ r ∈ records, r ∈ more) : n.Sound kinds more id := by
  cases h with
  | schema hkind hvalue hstores hold => exact .schema hkind hvalue hstores hold
  | wrapped hkind hvalue hrecord => exact .wrapped hkind hvalue (hmore _ hrecord)
  | graph => exact .graph

/-- A record that some value kind made: it has the fields of that kind and no others. -/
def ValueRecord.Made (kinds : List Kind) (r : ValueRecord) : Prop :=
  ∃ k ∈ kinds, k.strategy = .value ∧ k.table.Stores r.fields ∧
    r.fields.map (·.1) = k.table.map FieldSpec.name

section Made
variable {kinds : List Kind} {r : ValueRecord}

/-- What a record of scalars has under a name is a scalar of its own, or inherited. -/
theorem ValueRecord.Made.read_cases (h : r.Made kinds) (declared : Declared kinds) (name : String) :
    (∃ type : FieldType, type.isScalar = true ∧ type.fits (Fields.read r.fields name) = true ∧
      Fields.assigned name (Fields.read r.fields name) = Fields.read r.fields name) ∨
    Fields.read r.fields name = Fields.inherited name := by
  obtain ⟨k, hk, hvalue, hstores, hnames⟩ := h
  by_cases hname : name ∈ r.fields.map (·.1)
  · rw [hnames, List.mem_map] at hname
    obtain ⟨e, he, rfl⟩ := hname
    have hscalar := List.all_eq_true.1 ((declared.wellMade hk).isLeaf hvalue) e he
    exact .inl ⟨e.type, hscalar, FieldTable.fits_iff.1 hstores.fits e he, hstores.keeps e he⟩
  · exact .inr (Fields.read_of_not_mem hname)

/-- Whatever is read from a record is the same as itself. -/
theorem ValueRecord.Made.sameScalars_self (h : r.Made kinds) (declared : Declared kinds) (table : FieldTable) :
    table.sameScalars r.fields r.fields = true := by
  refine List.all_eq_true.2 (fun e _ => Bool.or_eq_true_iff.2 (.inr ?_))
  rcases h.read_cases declared e.name with ⟨type, hscalar, hfits, -⟩ | hread
  · exact FieldTable.same_of_fits hscalar hfits
  · rw [hread]
    exact Fields.same_inherited e.name

/-- A record has the root where every record has it, so a table that it fits stores it. -/
theorem ValueRecord.Made.stores_of_fits (h : r.Made kinds) (declared : Declared kinds) {table : FieldTable}
    (hfits : table.fits r.fields = true) : table.Stores r.fields := by
  refine ⟨hfits, fun e he => ?_⟩
  rcases h.read_cases declared e.name with ⟨_, _, _, hkeeps⟩ | hread
  · exact hkeeps
  · refine Fields.assigned_of_ne (fun hroot => ?_) _
    have he := FieldTable.fits_iff.1 hfits e he
    rw [hread, hroot] at he
    cases he

end Made

namespace Forest

variable {f g : Forest} {kinds : List Kind} {records : List ValueRecord}

structure WellFormed (kinds : List Kind) (f : Forest) (records : List ValueRecord) : Prop where
  sound : ∀ id n, f.node? id = some n → n.Sound kinds records id
  stored : ∀ r ∈ records, r.Made kinds
  counted : ∀ r ∈ records, r.id < f.recordCount
  identified : ∀ r ∈ records, ∀ s ∈ records, r.id = s.id → r = s

/-- A property of all nodes, after one node more. -/
theorem forall_node_add {P : NodeId → Node → Prop} (h : ∀ id m, f.node? id = some m → P id m) {n : Node}
    (hn : P ⟨f.size⟩ n) : ∀ id m, (f.add n).2.node? id = some m → P id m := by
  intro id m hm
  rcases node?_add_cases hm with hold | ⟨rfl, rfl⟩
  · exact h id m hold
  · exact hn

/-- A property of all nodes, after a change of one. -/
theorem forall_node_update {P : NodeId → Node → Prop} (h : ∀ id m, f.node? id = some m → P id m)
    (id : NodeId) {change : Node → Node} (hchange : ∀ n, P id n → P id (change n)) :
    ∀ other m, (f.update id change).node? other = some m → P other m := by
  intro other m hm
  rw [node?_update] at hm
  split at hm
  · next heq =>
    subst heq
    obtain ⟨n, hn, rfl⟩ := Option.map_eq_some_iff.1 hm
    exact hchange n (h id n hn)
  · exact h other m hm

theorem WellFormed.add (h : WellFormed kinds f records) {n : Node}
    (hn : n.Sound kinds records ⟨f.size⟩) : WellFormed kinds (f.add n).2 records :=
  ⟨forall_node_add h.sound hn, h.stored, h.counted, h.identified⟩

/-- A change in place that keeps what a node is made of. -/
theorem WellFormed.update (h : WellFormed kinds f records) (id : NodeId) {change : Node → Node}
    (hchange : ∀ n, n.Sound kinds records id → (change n).Sound kinds records id) :
    WellFormed kinds (f.update id change) records :=
  ⟨forall_node_update h.sound id hchange, h.stored, h.counted, h.identified⟩

theorem WellFormed.record (h : WellFormed kinds f records) {r : ValueRecord} (hmade : r.Made kinds)
    (hr : r.id = f.recordCount) : WellFormed kinds { f with recordCount := f.recordCount + 1 } (r :: records) := by
  refine ⟨fun id n hn => (h.sound id n hn).more (fun _ hs => List.mem_cons_of_mem _ hs),
    List.forall_mem_cons.2 ⟨hmade, h.stored⟩, ?_, ?_⟩
  · intro s hs
    rcases List.mem_cons.1 hs with rfl | hold
    · rw [hr]
      exact Nat.lt_succ_self _
    · exact Nat.lt_succ_of_lt (h.counted s hold)
  · have hnew : ∀ s ∈ records, s.id ≠ r.id := fun s hs => Nat.ne_of_lt (hr ▸ h.counted s hs)
    intro s hs t ht hid
    rcases List.mem_cons.1 hs with rfl | hs' <;> rcases List.mem_cons.1 ht with rfl | ht'
    · rfl
    · exact absurd hid.symm (hnew t ht')
    · exact absurd hid (hnew s hs')
    · exact h.identified s hs' t ht' hid

/-- What calls lead to is well formed. -/
theorem GrownWith.wellFormed (declared : Declared kinds) (h : GrownWith kinds f records) :
    WellFormed kinds f records := by
  induction h with
  | empty =>
    exact ⟨fun _ _ hn => by simp [node?] at hn, fun _ hr => (nomatch hr), fun _ hr => (nomatch hr),
      fun _ hr => (nomatch hr)⟩
  | @built f g records kind span fields id _ hkind hvalue hold hbuild ih =>
    rw [exec_build] at hbuild
    rcases hsettle : kind.table.settle f.kindName kind.name fields with _ | stored
    · simp [hsettle] at hbuild
    · simp only [hsettle, Prod.mk.injEq] at hbuild
      obtain ⟨rfl, hstores, -⟩ := FieldTable.of_settle (declared.distinct kind hkind) hsettle
      rw [← hbuild.2]
      refine ih.add (.schema hkind hvalue hstores ?_)
      rwa [FieldTable.children_stored (declared.distinct kind hkind)]
  | @recorded f g records kind span fields record _ hkind hvalue hrecord ih =>
    rw [exec_buildRecord] at hrecord
    rcases hsettle : kind.table.settle f.kindName kind.name fields with _ | stored
    · simp [hsettle] at hrecord
    · simp only [hsettle, Prod.mk.injEq, Except.ok.injEq] at hrecord
      obtain ⟨hcopy, hstores, -⟩ := FieldTable.of_settle (declared.distinct kind hkind) hsettle
      rw [← hrecord.1, ← hrecord.2]
      refine ih.record ⟨kind, hkind, hvalue, hstores, ?_⟩ rfl
      rw [hcopy, FieldTable.names_mapNodes]
  | @wrapped f g records kind record id _ hkind hvalue hrecord _ hwrap ih =>
    rw [← (Prod.mk.inj hwrap).2]
    exact ih.add (.wrapped hkind hvalue hrecord)
  | byHand name span links _ _ ih => exact ih.add .graph
  | linked id targets _ _ ih =>
    refine ih.update id (fun n hn => ?_)
    cases hn with
    | schema hkind hvalue hstores hold => exact .schema hkind hvalue hstores hold
    | wrapped hkind hvalue hrecord => exact .wrapped hkind hvalue hrecord
    | graph => exact .graph
  | told id parent _ ih =>
    unfold setParent
    split
    · exact ih
    · refine ih.update id (fun n hn => ?_)
      cases hn with
      | schema hkind hvalue hstores hold => exact .schema hkind hvalue hstores hold
      | wrapped hkind hvalue hrecord => exact .wrapped hkind hvalue hrecord
      | graph => exact .graph

/-- A node goes by the name of the kind it was made by, a wrapped record too. -/
theorem GrownWith.kindName_eq (h : GrownWith kinds f records) :
    ∀ id n, f.node? id = some n → ∀ kind, n.kind? = some kind → n.kindName = kind.name := by
  induction h with
  | empty => simp [node?]
  | @built f g records kind span fields id _ _ _ _ hbuild ih =>
    rw [exec_build] at hbuild
    rcases hsettle : kind.table.settle f.kindName kind.name fields with _ | stored
    · simp [hsettle] at hbuild
    · simp only [hsettle, Prod.mk.injEq] at hbuild
      rw [← hbuild.2]
      exact forall_node_add ih (by simp [Node.kind?, Node.kindName])
  | @recorded f g records kind span fields record _ _ _ hrecord ih =>
    rw [exec_buildRecord] at hrecord
    rcases hsettle : kind.table.settle f.kindName kind.name fields with _ | stored
    · simp [hsettle] at hrecord
    · simp only [hsettle, Prod.mk.injEq] at hrecord
      rw [← hrecord.2]
      exact ih
  | wrapped _ _ _ _ hname hwrap ih =>
    rw [← (Prod.mk.inj hwrap).2]
    exact forall_node_add ih (by simp [Node.kind?, Node.kindName, hname])
  | byHand name span links _ _ ih => exact forall_node_add ih (by simp [Node.kind?])
  | linked id targets _ _ ih =>
    refine forall_node_update ih id (fun n hn => ?_)
    rcases n with ⟨_, _ | _ | _, _⟩ <;> exact hn
  | told id parent _ ih =>
    unfold setParent
    split
    · exact ih
    · exact forall_node_update ih id (fun _ hn => hn)

end Forest

/-! ## A forest of every strategy -/

namespace Mixed

def item (index : Nat) : Kind :=
  { id := ⟨index⟩, name := "Item", strategy := .standard
    table := [⟨"name", .scalar .string true⟩, ⟨"parts", .nodes⟩]
    families := [], displayName := some "name", poolCategory := none }

def size : Kind :=
  { id := ⟨1⟩, name := "Size", strategy := .optimized, table := [⟨"value", .scalar .float false⟩]
    families := [], displayName := some "value", poolCategory := none }

def lit : Kind :=
  { id := ⟨2⟩, name := "Lit", strategy := .pooled, table := [⟨"value", .scalar .int false⟩]
    families := [], displayName := some "value", poolCategory := some .int }

def flag : Kind :=
  { id := ⟨3⟩, name := "Flag", strategy := .value, table := [⟨"value", .scalar .bool false⟩]
    families := [], displayName := some "value", poolCategory := none }

/-- Two of the kinds have one name and one table, in different registries. -/
def kinds : List Kind := [item 4, flag, lit, size, item 0]

def span (start stop : Nat) : Span := ⟨.zero, .ofNat start, .ofNat stop⟩

def yes : ValueRecord :=
  { id := 0, kind := "Flag", span := span 3 4, fields := [("value", .bool true)] }

def list (name : Value) (parts : List Nat) : Fields :=
  [("name", name), ("parts", .list (parts.map (fun i => .node ⟨i⟩)))]

/-- Two items hold the same nodes, one of them twice; a third holds the first item twice,
beside a hand-written node that links to it as well. -/
def forest : Forest :=
  { nodes := #[
      { span := span 0 1, shape := .schema lit [("value", .num (.ofNat 5))] },
      { span := span 1 3, shape := .schema size [("value", .num .nan)] },
      { span := span 3 4, shape := .wrapped flag yes },
      { span := span 0 4, shape := .schema (item 0) (list .null [0, 1, 2, 0]) },
      { span := span 0 4, shape := .schema (item 4) (list .null [0, 1, 2, 0]) },
      { span := span 4 5, shape := .graph "loose" [⟨3⟩] },
      { span := span 0 5, shape := .schema (item 0) (list (.text "all") [3, 5, 3]) }]
    recordCount := 1 }

/-- What was asked for to get a kind. -/
def declaration (kind : Kind) : Declaration :=
  { name := kind.name, strategy := kind.strategy, table := kind.table, families := []
    display := none, category := none }

theorem declared : Declared kinds := by
  have first := @Catalog.Made.declared _ _ none (declaration (item 0)) (item 0) .empty rfl
  have second := @Catalog.Made.declared _ _ none (declaration size) size first rfl
  have third := @Catalog.Made.declared _ _ none (declaration lit) lit second rfl
  have fourth := @Catalog.Made.declared _ _ none (declaration flag) flag third rfl
  have fifth := @Catalog.Made.declared _ _ (some "other") (declaration (item 4)) (item 4) fourth rfl
  exact ⟨⟨_, fifth⟩, by simp [kinds, FieldTable.Distinct, item, flag, lit, size]⟩

theorem grown : Forest.Grown kinds forest := by
  have h0 := Forest.GrownWith.made declared lit (span 0 1) [("value", .num (.ofNat 5))] .empty
    (by simp [kinds]) (by decide) (by decide) (.of_plain (by decide) (by decide +kernel))
  have h1 := Forest.GrownWith.made declared size (span 1 3) [("value", .num .nan)] h0
    (by simp [kinds]) (by decide) (by decide) (.of_plain (by decide) (by decide))
  have h2 := @Forest.GrownWith.recorded kinds _ _ _ flag (span 3 4) [("value", .bool true)] yes h1
    (by simp [kinds]) rfl rfl
  have h3 := h2.wrapped (show flag ∈ kinds by simp [kinds]) rfl (.head _) rfl rfl
  have h4 := Forest.GrownWith.made declared (item 0) (span 0 4) (list .null [0, 1, 2, 0]) h3
    (by simp [kinds]) (by decide) (by decide) (.of_plain (by decide) (by decide))
  have h5 := Forest.GrownWith.made declared (item 4) (span 0 4) (list .null [0, 1, 2, 0]) h4
    (by simp [kinds]) (by decide) (by decide) (.of_plain (by decide) (by decide))
  have h6 := h5.byHand "loose" (span 4 5) [⟨3⟩] (by decide)
  have h7 := Forest.GrownWith.made declared (item 0) (span 0 5) (list (.text "all") [3, 5, 3]) h6
    (by simp [kinds]) (by decide) (by decide) (.of_plain (by decide) (by decide))
  exact ⟨_, h7⟩

end Mixed

/-! ## A record of another kind -/

namespace Foreign

/-- Two value kinds of one name, in different registries. -/
def whole : Kind :=
  { id := ⟨0⟩, name := "Num", strategy := .value, table := [⟨"value", .scalar .int false⟩]
    families := [], displayName := some "value", poolCategory := none }

def part : Kind := { whole with id := ⟨1⟩, table := [⟨"value", .scalar .float false⟩] }

def kinds : List Kind := [part, whole]

theorem declared : Declared kinds := by
  have first := @Catalog.Made.declared _ _ none (Mixed.declaration whole) whole .empty rfl
  have second := @Catalog.Made.declared _ _ (some "other") (Mixed.declaration part) part first rfl
  exact ⟨⟨_, second⟩, by simp [kinds, FieldTable.Distinct, part, whole]⟩

def record : ValueRecord :=
  { id := 0, kind := "Num", span := Mixed.span 0 3, fields := [("value", .num .nan)] }

/-- The record of one kind, wrapped as the other. -/
def forest : Forest := { nodes := #[⟨record.span, .wrapped whole record, none⟩], recordCount := 1 }

theorem grown : Forest.Grown kinds forest := by
  have made := @Forest.GrownWith.recorded kinds _ _ _ part record.span record.fields record .empty
    (by simp [kinds]) rfl rfl
  exact ⟨_, made.wrapped (show whole ∈ kinds by simp [kinds]) rfl (.head _) rfl rfl⟩

end Foreign

end SyntaxForest
