import SyntaxForest.Forest.Clone
import SyntaxForest.Proofs.Kind.Fit
import SyntaxForest.Proofs.Visitor.Rebuild
/-!
# Making nodes, whether or not it succeeds

`Makes`: what one call that makes nodes or records does to a forest: creating, wrapping,
copying a record, cloning, and rebuilding a node from answers. A call may fail midway, and
leaves what it had made by then. `Sprouts`: such a call only adds nodes, which have been
told no parent and hold older nodes only. `Forest.Typed`: it leaves every node with a
record that the table of its kind stores. `Brings` is what is known of a run that makes
nodes, with one lemma for a sequence (`Brings.bind`) and one for a list
(`brings_mapM`); so a clone is one induction (`brings_cloneWithin`).
-/

namespace SyntaxForest

/-! ## What a node is made of -/

/-- A node of a declared kind has a record with the names of the kind's table, and the table
stores it. A wrapped record may be one of another kind, unless only records that their tables
store are wrapped. A record that was made is stored by every table that it fits
(`ValueRecord.Made.stores_of_fits`). -/
inductive Node.Typed (kinds : List Kind) (fitting : Prop) : Node → Prop
  | schema {span parent kind fields} : kind ∈ kinds → kind.strategy ≠ .value →
      fields.map (·.1) = kind.table.map FieldSpec.name → kind.table.Stores fields →
      Typed kinds fitting ⟨span, .schema kind fields, parent⟩
  | wrapped {span parent kind record} : kind ∈ kinds → kind.strategy = .value →
      (fitting → kind.table.Stores record.fields) →
      Typed kinds fitting ⟨span, .wrapped kind record, parent⟩
  | graph {span parent name links} : Typed kinds fitting ⟨span, .graph name links, parent⟩

namespace Forest

variable {f g h : Forest} {kinds : List Kind} {fitting : Prop} {α β : Type}

/-- Every node is typed, and what it holds is there. -/
structure Typed (kinds : List Kind) (fitting : Prop) (f : Forest) : Prop where
  node : ∀ id n, f.node? id = some n → n.Typed kinds fitting
  closed : ∀ id n, f.node? id = some n → ∀ c ∈ n.children, c.index < f.size

theorem typed_empty : Typed kinds fitting {} :=
  ⟨fun id n hn => by simp [node?] at hn, fun id n hn => by simp [node?] at hn⟩

theorem Typed.add (hf : f.Typed kinds fitting) {n : Node} (hn : n.Typed kinds fitting)
    (hold : ∀ c ∈ n.children, c.index < f.size) : (f.add n).2.Typed kinds fitting := by
  refine ⟨forall_node_add hf.node hn, forall_node_add (fun id m hm c hc => ?_) (fun c hc => ?_)⟩
  · exact (hf.closed id m hm c hc).trans (by simp)
  · exact (hold c hc).trans (by simp)

/-- A change in place that leaves what nodes are made of, and leads to nodes that are there. -/
theorem Typed.update (hf : f.Typed kinds fitting) (id : NodeId) {change : Node → Node}
    (hchange : ∀ n, n.Typed kinds fitting → (change n).Typed kinds fitting)
    (hheld : ∀ n, (∀ c ∈ n.children, c.index < f.size) → ∀ c ∈ (change n).children, c.index < f.size) :
    (f.update id change).Typed kinds fitting := by
  refine ⟨forall_node_update hf.node id hchange, ?_⟩
  rw [size_update]
  exact forall_node_update hf.closed id hheld

theorem Typed.link (hf : f.Typed kinds fitting) (id : NodeId) {targets : List NodeId}
    (htargets : ∀ t ∈ targets, t.index < f.size) : (f.link id targets).Typed kinds fitting := by
  refine hf.update id (fun n hn => ?_) (fun n hheld c hc => ?_)
  · cases hn with
    | schema hkind hvalue hnames hstores => exact .schema hkind hvalue hnames hstores
    | wrapped hkind hvalue hstores => exact .wrapped hkind hvalue hstores
    | graph => exact .graph
  · rcases n with ⟨span, _ | _ | ⟨name, links⟩, parent⟩
    · exact hheld c hc
    · exact hheld c hc
    · rcases List.mem_append.1 hc with hold | hnew
      · exact hheld c hold
      · exact htargets c hnew

theorem Typed.setParent (hf : f.Typed kinds fitting) (id : NodeId) (parent : Option NodeId) :
    (f.setParent id parent).Typed kinds fitting := by
  unfold Forest.setParent
  split
  · exact hf
  · refine hf.update id (fun n hn => ?_) (fun n hheld => hheld)
    cases hn with
    | schema hkind hvalue hnames hstores => exact .schema hkind hvalue hnames hstores
    | wrapped hkind hvalue hstores => exact .wrapped hkind hvalue hstores
    | graph => exact .graph

/-! ## New nodes -/

/-- Every node is there as it was. New ones hold only what is older than they are, and have
been told no parent. -/
structure Sprouts (f g : Forest) : Prop where
  kept : f.Extends g
  fresh : ∀ id n, g.node? id = some n → f.size ≤ id.index →
    n.parent = none ∧ ∀ c ∈ n.children, c.index < id.index

theorem Sprouts.refl (f : Forest) : f.Sprouts f :=
  ⟨.refl f, fun _ _ hn hge => absurd (lt_size_of_node? hn) (Nat.not_lt.2 hge)⟩

theorem Sprouts.trans (hf : f.Sprouts g) (hg : g.Sprouts h) : f.Sprouts h := by
  refine ⟨hf.kept.trans hg.kept, fun id n hn hge => ?_⟩
  rcases Nat.lt_or_ge id.index g.size with hlt | hge'
  · rw [hg.kept.node?_eq hlt] at hn
    exact hf.fresh id n hn hge
  · exact hg.fresh id n hn hge'

theorem sprouts_add {n : Node} (hparent : n.parent = none) (hold : ∀ c ∈ n.children, c.index < f.size) :
    f.Sprouts (f.add n).2 := by
  refine ⟨extends_add f n, fun id m hm hge => ?_⟩
  rcases node?_add_cases hm with hm | ⟨rfl, rfl⟩
  · exact absurd (lt_size_of_node? hm) (Nat.not_lt.2 hge)
  · exact ⟨hparent, hold⟩

/-! ## Runs that make nodes -/

/-- What a run that makes nodes leads to, whether or not it fails. It does not fail if only
records that their tables store are wrapped. -/
structure Brings (kinds : List Kind) (fitting : Prop) (f : Forest) (post : α → Forest → Prop)
    (outcome : Except Fault α × Forest) : Prop where
  sprouts : f.Sprouts outcome.2
  typed : outcome.2.Typed kinds fitting
  post : ∀ a, outcome.1 = .ok a → post a outcome.2
  ok : fitting → ∃ a, outcome.1 = .ok a

theorem brings_pure {post : α → Forest → Prop} (hf : f.Typed kinds fitting) {a : α} (ha : post a f) :
    Brings kinds fitting f post (.ok a, f) :=
  ⟨.refl f, hf, fun _ heq => Except.ok.inj heq ▸ ha, fun _ => ⟨a, rfl⟩⟩

theorem Brings.bind {act : Act Forest α} {next : α → Act Forest β} {post : α → Forest → Prop}
    {post' : β → Forest → Prop} (h : Brings kinds fitting f post (act.exec f))
    (hnext : ∀ a g, f.Sprouts g → g.Typed kinds fitting → post a g →
      Brings kinds fitting g post' ((next a).exec g)) :
    Brings kinds fitting f post' ((act >>= next).exec f) := by
  rw [Act.exec_bind]
  rcases hrun : act.exec f with ⟨fault | a, g⟩
  · rw [hrun] at h
    exact ⟨h.sprouts, h.typed, fun _ heq => (nomatch heq),
      fun hfitting => (nomatch (h.ok hfitting).choose_spec)⟩
  · rw [hrun] at h
    have hthen := hnext a g h.sprouts h.typed (h.post a rfl)
    exact ⟨h.sprouts.trans hthen.sprouts, hthen.typed, hthen.post, hthen.ok⟩

/-- A node is there. -/
abbrev Held (id : NodeId) (f : Forest) : Prop := id.index < f.size

theorem Typed.brings_add (hf : f.Typed kinds fitting) {n : Node} (hn : n.Typed kinds fitting)
    (hparent : n.parent = none) (hold : ∀ c ∈ n.children, c.index < f.size) :
    Brings kinds fitting f Held (.ok ⟨f.size⟩, (f.add n).2) := by
  refine ⟨sprouts_add hparent hold, hf.add hn hold, fun id heq => ?_, fun _ => ⟨_, rfl⟩⟩
  rw [← Except.ok.inj heq]
  simp

/-- Runs for the nodes of a list, one after the other. -/
theorem brings_mapM {ids : List NodeId} {act : NodeId → Act Forest NodeId} (hf : f.Typed kinds fitting)
    (hact : ∀ g, f.Sprouts g → g.Typed kinds fitting → ∀ id ∈ ids,
      Brings kinds fitting g Held ((act id).exec g)) :
    Brings kinds fitting f (fun copies g => copies.length = ids.length ∧ ∀ c ∈ copies, Held c g)
      ((ids.mapM act).exec f) := by
  induction ids generalizing f with
  | nil => exact brings_pure hf ⟨rfl, by simp⟩
  | cons id rest ih =>
    rw [List.mapM_cons]
    refine (hact f (.refl f) hf id (by simp)).bind (fun copy g hfg hg hcopy => ?_)
    have hrest := ih hg (fun h hgh hh d hd => hact h (hfg.trans hgh) hh d (by simp [hd]))
    refine hrest.bind (fun copies h hgh hh ⟨hlen, hcopies⟩ => brings_pure hh ⟨by simp [hlen], ?_⟩)
    exact List.forall_mem_cons.2 ⟨hcopy.trans_le hgh.kept.size_le, hcopies⟩

/-! ## Building a record -/

theorem children_schema (span : Span) (kind : Kind) (fields : Fields) (parent : Option NodeId) :
    (⟨span, .schema kind fields, parent⟩ : Node).children = kind.table.children fields :=
  Node.children_eq_parts rfl

/-- A record that can be stored is built into a node. -/
theorem Typed.brings_build (hf : f.Typed kinds fitting) (declared : Declared kinds) {kind : Kind}
    (hkind : kind ∈ kinds) (hvalue : kind.strategy ≠ .value) {fields : Fields}
    (hstores : kind.table.Stores fields) (hold : ∀ c ∈ kind.table.children fields, c.index < f.size)
    (span : Span) : Brings kinds fitting f Held ((build kind span fields).exec f) := by
  have hdistinct := declared.distinct kind hkind
  rw [exec_build_of_stores hdistinct hstores]
  refine hf.brings_add (.schema hkind hvalue ?_ ?_) rfl ?_
  · exact FieldTable.names_mapNodes _ _ _
  · exact hstores.mapNodes hdistinct id
  · rwa [children_schema, FieldTable.children_stored hdistinct]

/-- A record that fits is built into a node of the fields as they are given, or cannot be
stored. -/
theorem exec_build_cases {kind : Kind} {fields : Fields} (h : kind.table.Distinct)
    (hfits : kind.table.fits fields = true) (span : Span) (f : Forest) :
    (kind.table.Stores fields ∧ (build kind span fields).exec f =
      (.ok ⟨f.size⟩, (f.add ⟨span, .schema kind (kind.table.listed fields), none⟩).2)) ∨
    ¬ kind.table.Stores fields ∧ ∃ fault, (build kind span fields).exec f = (.error fault, f) := by
  rcases FieldTable.stores_or_refused h hfits f.kindName kind.name with hstores | ⟨hnot, fault, hrefused⟩
  · exact .inl ⟨hstores, by rw [exec_build_of_stores h hstores, hstores.mapNodes_eq]⟩
  · exact .inr ⟨hnot, fault, by rw [exec_build, hrefused]⟩

/-- One more record leaves the nodes alone. -/
theorem Typed.record (hf : f.Typed kinds fitting) :
    f.Sprouts { f with recordCount := f.recordCount + 1 } ∧
      Typed kinds fitting { f with recordCount := f.recordCount + 1 } :=
  ⟨⟨.refl f, (Sprouts.refl f).fresh⟩, hf.node, hf.closed⟩

/-- A copy of a record can be stored again, also where the record could not. -/
theorem exec_copyRecord_cases {kind : Kind} (h : kind.table.Distinct) (record : ValueRecord) (f : Forest) :
    (∃ copy, (copyRecord kind record).exec f = (.ok copy, { f with recordCount := f.recordCount + 1 }) ∧
      kind.table.Stores copy.fields) ∨
    ∃ fault, (copyRecord kind record).exec f = (.error fault, f) ∧ ¬ kind.table.Stores record.fields := by
  rw [copyRecord, exec_buildRecord]
  rcases hsettle : kind.table.settle f.kindName kind.name record.fields with fault | stored
  · refine .inr ⟨fault, rfl, fun hstores => ?_⟩
    rw [hstores.settle_eq h] at hsettle
    cases hsettle
  · exact .inl ⟨_, rfl, (FieldTable.of_settle h hsettle).2.1⟩

theorem Typed.brings_copyRecord (hf : f.Typed kinds fitting) (declared : Declared kinds) {kind : Kind}
    (hkind : kind ∈ kinds) {record : ValueRecord} (hstores : fitting → kind.table.Stores record.fields) :
    Brings kinds fitting f (fun copy _ => kind.table.Stores copy.fields)
      ((copyRecord kind record).exec f) := by
  rcases exec_copyRecord_cases (declared.distinct kind hkind) record f with
    ⟨copy, hrun, hcopy⟩ | ⟨fault, hrun, hrefused⟩
  · rw [hrun]
    exact ⟨hf.record.1, hf.record.2, fun _ heq => Except.ok.inj heq ▸ hcopy, fun _ => ⟨copy, rfl⟩⟩
  · rw [hrun]
    exact ⟨.refl f, hf, fun _ heq => (nomatch heq), fun h => absurd (hstores h) hrefused⟩

/-! ## Clones -/

theorem brings_cloneWithin (declared : Declared kinds) (hf : f.Typed kinds fitting) {id : NodeId}
    (hid : id.index < f.size) (steps : Nat) :
    Brings kinds fitting f Held ((cloneWithin steps id).exec f) := by
  induction steps generalizing f id with
  | zero => exact brings_pure hf hid
  | succ steps ih =>
    obtain ⟨n, hn⟩ := exists_node?_of_lt hid
    have hclosed := hf.closed id n hn
    have hcopies : Brings kinds fitting f
        (fun copies g => copies.length = n.children.length ∧ ∀ c ∈ copies, Held c g)
        ((n.children.mapM (cloneWithin steps)).exec f) :=
      brings_mapM hf (fun g hfg hg c hc => ih hg ((hclosed c hc).trans_le hfg.kept.size_le))
    rw [cloneWithin, Act.exec_bind, Act.exec_get]
    simp only [hn]
    cases hf.node id n hn with
    | @schema span parent kind fields hkind hvalue hnames hstores =>
      have hdistinct := declared.distinct kind hkind
      simp only
      split
      · exact brings_pure hf hid
      · rw [children_schema] at hcopies
        refine hcopies.bind (fun copies g _ hg hheld => ?_)
        obtain ⟨hlen, hheld⟩ := hheld
        have hrefilled := hstores.refill hdistinct hlen
        rw [exec_checked_of_fits hrefilled.fits]
        refine hg.brings_build declared hkind hvalue hrefilled ?_ span
        rwa [FieldTable.children_refill hdistinct hlen]
    | wrapped hkind hvalue hstores =>
      exact (hf.brings_copyRecord declared hkind hstores).bind (fun copy g _ hg hcopy =>
        hg.brings_add (.wrapped hkind hvalue (fun _ => hcopy)) rfl (by simp [Node.children]))
    | graph =>
      exact hcopies.bind (fun copies g _ hg hheld => hg.brings_add .graph rfl hheld.2)

theorem brings_clone (declared : Declared kinds) (hf : f.Typed kinds fitting) {id : NodeId}
    (hid : id.index < f.size) : Brings kinds fitting f Held ((clone id).exec f) :=
  brings_cloneWithin declared hf hid (f.size + 1)

/-! ## Nodes from answers -/

/-- A node is rebuilt from nodes for its children. -/
theorem brings_mapChildren (declared : Declared kinds) (hf : f.Typed kinds fitting) {id : NodeId} {span : Span}
    {kind : Kind} {fields : Fields} {parent : Option NodeId}
    (hnode : f.node? id = some ⟨span, .schema kind fields, parent⟩) {results : List (NodeId × NodeId)}
    (hresults : results.map (·.1) = kind.table.children fields) (hheld : ∀ p ∈ results, p.2.index < f.size) :
    Brings kinds fitting f Held ((mapChildren kind id span fields (answered results)).exec f) := by
  cases hf.node id _ hnode with
  | schema hkind hvalue hnames hstores =>
    have hdistinct := declared.distinct kind hkind
    rw [exec_mapChildren_eq hdistinct hstores]
    split
    · exact brings_pure hf (lt_size_of_node? hnode)
    · refine hf.brings_build declared hkind hvalue (hstores.mapNodes hdistinct _) ?_ span
      rw [FieldTable.children_mapNodes hdistinct]
      intro d hd
      obtain ⟨c, hc, rfl⟩ := List.mem_map.1 hd
      exact hheld _ (mem_lastOther (hresults ▸ hc))

/-! ## Creating -/

section Creating

variable {kind : Kind} {fields : Fields}

theorem exec_create_of_fits (hfits : kind.table.fits fields = true) (span : Span) (f : Forest) :
    (create kind span fields).exec f = (build kind span fields).exec f :=
  exec_checked_of_fits hfits _ f

theorem exec_create_of_refused {fault : Fault}
    (hcheck : kind.table.check f.kindName kind.name fields = .error fault) (span : Span) :
    (create kind span fields).exec f = (.error fault, f) :=
  exec_checked_of_refused hcheck _

theorem exec_createRecord_of_fits (hfits : kind.table.fits fields = true) (span : Span) (f : Forest) :
    (createRecord kind span fields).exec f = (buildRecord kind span fields).exec f :=
  exec_checked_of_fits hfits _ f

theorem exec_createRecord_of_refused {fault : Fault}
    (hcheck : kind.table.check f.kindName kind.name fields = .error fault) (span : Span) :
    (createRecord kind span fields).exec f = (.error fault, f) :=
  exec_checked_of_refused hcheck _

end Creating

/-! ## One call -/

/-- What a call that makes nodes or records does to a forest, whatever it ends with. The
nodes that it is given are there. Rebuilding is given an answer for every child. -/
inductive Makes (kinds : List Kind) (fitting : Prop) : Forest → Forest → Prop
  | created {f : Forest} {kind fields} (span : Span) : kind ∈ kinds → kind.strategy ≠ .value →
      (∀ c ∈ kind.table.children fields, c.index < f.size) →
      Makes kinds fitting f ((create kind span fields).exec f).2
  | recorded {f : Forest} {kind} (span : Span) (fields : Fields) : kind ∈ kinds →
      Makes kinds fitting f ((createRecord kind span fields).exec f).2
  | copied {f : Forest} {kind} (record : ValueRecord) : kind ∈ kinds →
      Makes kinds fitting f ((copyRecord kind record).exec f).2
  | wrapped {f : Forest} {kind record} : kind ∈ kinds → kind.strategy = .value →
      (fitting → kind.table.Stores record.fields) → Makes kinds fitting f ((wrap kind record).exec f).2
  | byHand {f : Forest} (name : String) (span : Span) : Makes kinds fitting f ((createGraph name span).exec f).2
  | cloned {f : Forest} {id} : id.index < f.size → Makes kinds fitting f ((clone id).exec f).2
  | rebuilt {f : Forest} {id span kind fields parent results} :
      f.node? id = some ⟨span, .schema kind fields, parent⟩ →
      results.map (·.1) = kind.table.children fields → (∀ p ∈ results, p.2.index < f.size) →
      Makes kinds fitting f ((mapChildren kind id span fields (answered results)).exec f).2

theorem Makes.sprouts_typed (declared : Declared kinds) (hf : f.Typed kinds fitting)
    (h : Makes kinds fitting f g) : f.Sprouts g ∧ g.Typed kinds fitting := by
  cases h with
  | @created kind fields span hkind hvalue hold =>
    rcases kind.table.check_cases f.kindName kind.name fields with ⟨-, hfits⟩ | ⟨fault, hcheck, -⟩
    · rw [exec_create_of_fits hfits]
      rcases exec_build_cases (declared.distinct kind hkind) hfits span f with
        ⟨hstores, -⟩ | ⟨-, fault, hrefused⟩
      · have hbuild := hf.brings_build declared hkind hvalue hstores hold span
        exact ⟨hbuild.sprouts, hbuild.typed⟩
      · rw [hrefused]
        exact ⟨.refl f, hf⟩
    · rw [exec_create_of_refused hcheck]
      exact ⟨.refl f, hf⟩
  | @recorded kind span fields hkind =>
    rcases kind.table.check_cases f.kindName kind.name fields with ⟨-, hfits⟩ | ⟨fault, hcheck, -⟩
    · rw [exec_createRecord_of_fits hfits, exec_buildRecord]
      rcases kind.table.settle f.kindName kind.name fields with _ | _
      · exact ⟨.refl f, hf⟩
      · exact hf.record
    · rw [exec_createRecord_of_refused hcheck]
      exact ⟨.refl f, hf⟩
  | @copied kind record hkind =>
    rcases exec_copyRecord_cases (declared.distinct kind hkind) record f with ⟨_, hrun, -⟩ | ⟨_, hrun, -⟩
    · rw [hrun]
      exact hf.record
    · rw [hrun]
      exact ⟨.refl f, hf⟩
  | @wrapped kind record hkind hvalue hstores =>
    have hadd := hf.brings_add (n := ⟨record.span, .wrapped kind record, none⟩)
      (.wrapped hkind hvalue hstores) rfl (by simp [Node.children])
    exact ⟨hadd.sprouts, hadd.typed⟩
  | byHand name span =>
    have hadd := hf.brings_add (n := ⟨span, .graph name [], none⟩) .graph rfl (by simp [Node.children])
    exact ⟨hadd.sprouts, hadd.typed⟩
  | cloned hid => exact ⟨(brings_clone declared hf hid).sprouts, (brings_clone declared hf hid).typed⟩
  | rebuilt hnode hresults hheld =>
    have hrun := brings_mapChildren declared hf hnode hresults hheld
    exact ⟨hrun.sprouts, hrun.typed⟩

/-- What is done where only some records are wrapped may be done where any are. -/
theorem Makes.mono {fitting' : Prop} (h : Makes kinds fitting f g) (hfitting : fitting' → fitting) :
    Makes kinds fitting' f g := by
  cases h with
  | created span hkind hvalue hold => exact .created span hkind hvalue hold
  | recorded span fields hkind => exact .recorded span fields hkind
  | copied record hkind => exact .copied record hkind
  | wrapped hkind hvalue hstores => exact .wrapped hkind hvalue (fun h => hstores (hfitting h))
  | byHand name span => exact .byHand name span
  | cloned hid => exact .cloned hid
  | rebuilt hnode hresults hheld => exact .rebuilt hnode hresults hheld

/-- Creating from a record that can be stored adds one node. -/
theorem makes_add (declared : Declared kinds) {kind : Kind} (span : Span) (fields : Fields)
    (hkind : kind ∈ kinds) (hvalue : kind.strategy ≠ .value)
    (hold : ∀ c ∈ kind.table.children fields, c.index < f.size) (hstores : kind.table.Stores fields) :
    Makes kinds fitting f (f.add ⟨span, .schema kind (kind.table.listed fields), none⟩).2 := by
  have hrun : ((create kind span fields).exec f).2 =
      (f.add ⟨span, .schema kind (kind.table.listed fields), none⟩).2 := by
    rw [exec_create_of_fits hstores.fits, exec_build_of_stores (declared.distinct kind hkind) hstores,
      hstores.mapNodes_eq]
  rw [← hrun]
  exact .created span hkind hvalue hold

end Forest

namespace Mixed

/-- The forest when it had so many nodes. The record was made before it was wrapped. -/
def first (count : Nat) : Forest :=
  { nodes := (forest.nodes.toList.take count).toArray, recordCount := if count < 3 then 0 else 1 }

/-- The forest before the hand-written node is linked. -/
def unlinked : Forest := ((first 5).add ⟨span 4 5, .graph "loose" [], none⟩).2

/-- The forest is made call by call, with one link between. -/
theorem steps {R : Forest → Forest → Prop} (makes : ∀ f g, Forest.Makes kinds True f g → R f g)
    (links : R unlinked (unlinked.link ⟨5⟩ [⟨3⟩])) : Relation.ReflTransGen R {} forest := by
  have literal : R {} (first 1) := makes _ _ (Forest.makes_add declared (span 0 1) [("value", .num (.ofNat 5))]
    (show lit ∈ kinds by simp [kinds]) (by decide) (by decide) (.of_plain (by decide) (by decide +kernel)))
  have size : R (first 1) (first 2) := makes _ _ (Forest.makes_add declared (span 1 3) [("value", .num .nan)]
    (show size ∈ kinds by simp [kinds]) (by decide) (by decide) (.of_plain (by decide) (by decide)))
  have recorded : R (first 2) { first 2 with recordCount := 1 } :=
    makes _ _ (.recorded (span 3 4) [("value", .bool true)] (show flag ∈ kinds by simp [kinds]))
  have wrapped : R { first 2 with recordCount := 1 } (first 3) := makes _ _ (@Forest.Makes.wrapped
    kinds True { first 2 with recordCount := 1 } flag yes (by simp [kinds]) rfl (fun _ => .of_plain (by decide) (by decide)))
  have item₀ : R (first 3) (first 4) := makes _ _ (Forest.makes_add declared (span 0 4)
    (list .null [0, 1, 2, 0]) (show item 0 ∈ kinds by simp [kinds]) (by decide) (by decide)
    (.of_plain (by decide) (by decide)))
  have item₄ : R (first 4) (first 5) := makes _ _ (Forest.makes_add declared (span 0 4)
    (list .null [0, 1, 2, 0]) (show item 4 ∈ kinds by simp [kinds]) (by decide) (by decide)
    (.of_plain (by decide) (by decide)))
  have loose : R (first 5) unlinked := makes _ _ (.byHand "loose" (span 4 5))
  have all : R (unlinked.link ⟨5⟩ [⟨3⟩]) forest := makes _ _ (Forest.makes_add declared (span 0 5)
    (list (.text "all") [3, 5, 3]) (show item 0 ∈ kinds by simp [kinds]) (by decide) (by decide)
    (.of_plain (by decide) (by decide)))
  have records := ((Relation.ReflTransGen.single literal).tail size).tail recorded
  exact (((((records.tail wrapped).tail item₀).tail item₄).tail loose).tail links).tail all

end Mixed

end SyntaxForest
