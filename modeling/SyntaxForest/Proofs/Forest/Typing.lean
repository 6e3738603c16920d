import SyntaxForest.Proofs.Forest.Making
import SyntaxForest.Proofs.Pool.Meaning
import SyntaxForest.Proofs.Visitor.Places
/-!
# Every node is well typed

`Works`: what the calls that make and change nodes do to a forest, one after the other.
Creating a node by a pool and transforming the children of one run code of the host, in
listeners and visits; that takes such steps too (`exec_createNode_creates`,
`exec_transformChildren_of_works`). In a forest that calls lead to, every record matches
the table of its kind, and no check fails that is made again when a node is copied or
rebuilt (`nodes_are_well_typed`).
-/

namespace SyntaxForest

variable {σ : Type} {kinds : List Kind}

namespace Forest

variable {f g h : Forest}

/-! ## Calls in a row -/

/-- One call: nodes are made, with records wrapped that their tables store; hand-written nodes are linked
to nodes that are there; a node is told a parent. -/
inductive Work (kinds : List Kind) : Forest → Forest → Prop
  | made {f g : Forest} : Makes kinds True f g → Work kinds f g
  | linked {f : Forest} (id : NodeId) {targets : List NodeId} : (∀ t ∈ targets, t.index < f.size) →
      Work kinds f (f.link id targets)
  | told {f : Forest} (id : NodeId) (parent : Option NodeId) : Work kinds f (f.setParent id parent)

abbrev Works (kinds : List Kind) : Forest → Forest → Prop := Relation.ReflTransGen (Work kinds)

/-- A forest that calls lead to. -/
def Worked (kinds : List Kind) (f : Forest) : Prop := Works kinds {} f

theorem Extends.keeps (hf : f.Extends g) : f.Keeps g :=
  fun id n hn => ⟨n, hf id n hn, rfl, fun _ => rfl⟩

theorem Work.keeps_typed (declared : Declared kinds) (hf : f.Typed kinds True) (h : Work kinds f g) :
    f.Keeps g ∧ g.Typed kinds True := by
  cases h with
  | made hmakes =>
    obtain ⟨hsprouts, htyped⟩ := hmakes.sprouts_typed declared hf
    exact ⟨hsprouts.kept.keeps, htyped⟩
  | linked id htargets => exact ⟨keeps_link f id _, hf.link id htargets⟩
  | told id parent => exact ⟨keeps_setParent f id parent, hf.setParent id parent⟩

theorem Works.keeps_typed (declared : Declared kinds) (hf : f.Typed kinds True) (h : Works kinds f g) :
    f.Keeps g ∧ g.Typed kinds True := by
  induction h with
  | refl => exact ⟨.refl f, hf⟩
  | tail _ hstep ih =>
    obtain ⟨hkeeps, htyped⟩ := ih
    obtain ⟨hkeeps', htyped'⟩ := hstep.keeps_typed declared htyped
    exact ⟨hkeeps.trans hkeeps', htyped'⟩

theorem Worked.typed (declared : Declared kinds) (h : f.Worked kinds) : f.Typed kinds True :=
  (Works.keeps_typed declared typed_empty h).2

/-- What a record of a kind says: every field takes its value, and the nodes are those of
the fields, in the order of the table. -/
theorem Typed.takes (declared : Declared kinds) (hf : f.Typed kinds True) {id : NodeId} {n : Node} {kind : Kind}
    (hn : f.node? id = some n) (hkind : n.kind? = some kind) :
    kind ∈ kinds ∧ kind.table.Takes n.fields n.children := by
  cases hf.node id n hn with
  | schema hmem _ _ hstores =>
    cases hkind
    exact ⟨hmem, FieldTable.takes_iff.2 ⟨hstores.fits, (children_schema _ _ _ _).symm⟩⟩
  | wrapped hmem hvalue hstores =>
    cases hkind
    have hleaf : kind.table.isLeaf = true := (declared.wellMade hmem).isLeaf hvalue
    exact ⟨hmem, FieldTable.takes_iff.2 ⟨(hstores trivial).fits, FieldTable.children_of_isLeaf hleaf _⟩⟩
  | graph => cases hkind

theorem Keeps.lt_size (hf : f.Keeps g) {id : NodeId} (hid : id.index < f.size) : id.index < g.size := by
  obtain ⟨n, hn⟩ := exists_node?_of_lt hid
  obtain ⟨m, hm, -⟩ := hf id n hn
  exact lt_size_of_node? hm

end Forest

/-! ## Creating nodes from a pool -/

open Forest

/-- A listener that does not fail, and does to the forest only what such calls do. -/
def Listens (kinds : List Kind) (watch : World.PoolWatch σ) : Prop :=
  ∀ p event (w : World σ), ∃ v, (watch p event).exec w = (.ok (), v) ∧ Works kinds w.forest v.forest

/-- What is filed under the name of a kind says the scalar it is filed under, if it is of
the kind. A request with a factory of its own may file another node there. -/
def World.Honest (w : World σ) (p : PoolId) (kind : Kind) : Prop :=
  ∀ c, ∀ e ∈ ((w.pool p).shelf c).entries, e.filedUnder = kind.name → e.value ≠ .num .negativeZero ∧
    ∀ n record, w.forest.node? e.node = some n → n.shape = .schema kind record →
      record = kind.table.map (fun field => (field.name, .scalar e.value))

/-- Pools that only creations file in are honest. -/
theorem Play.Faithful.honest {play : Play σ} (h : play.Faithful kinds) (declared : Declared kinds) {kind : Kind}
    (hkind : kind ∈ kinds) (p : PoolId) : play.world.Honest p kind := by
  obtain ⟨_, made⟩ := declared.made
  intro c e he hname
  have hnamed : e.filedUnder ≠ PoolEntry.anyKind := by
    intro heq
    have hlegal := (made.legal kind hkind).1
    rw [← hname, heq, isKindName_anyKind] at hlegal
    cases hlegal
  obtain ⟨hzero, m, hm, -, -, hvalue, hnode⟩ := h.filed p c e he hnamed
  refine ⟨hzero, fun n record hn hshape => ?_⟩
  obtain ⟨-, field, n', htable, hn', -, hshape'⟩ := h.stands m hm
  rw [hnode, hn] at hn'
  cases hn'
  rw [hshape] at hshape'
  cases hshape'
  rw [htable, hvalue]
  rfl

section Create

variable {w : World σ} {pool : Option PoolId} {p : PoolId} {r : PoolRequest} {kind : Kind}
  {fields : Fields} {id : NodeId} {watch : World.PoolWatch σ}

/-- A node that serves a creation is of the kind asked for. -/
theorem served_shape (declared : Declared kinds) (hw : w.forest.Typed kinds True) (hkind : kind ∈ kinds)
    (hvalue : kind.strategy ≠ .value) (sharing : kind.sharing? fields = some r)
    (hserved : w.served? p r = some id) :
    ∃ n record, w.forest.node? id = some n ∧ n.shape = .schema kind record := by
  obtain ⟨field, v, -, -, -, -, hmatcher⟩ := World.of_sharing? sharing
  obtain ⟨-, haccepts⟩ := Option.filter_eq_some_iff.1 hserved
  rcases hn : w.forest.node? id with _ | n
  · simp [PoolRequest.accepts, hmatcher, Matcher.accepts, hn] at haccepts
  · cases hw.node id n hn with
    | @schema _ _ other record hother =>
      have hid : other.id = kind.id := by
        simpa [PoolRequest.accepts, hmatcher, Matcher.accepts, hn, Node.kind?] using haccepts
      rw [declared.eq_of_id hother hkind hid]
      exact ⟨_, record, rfl, rfl⟩
    | @wrapped _ _ other _ hother hothervalue =>
      have hid : other.id = kind.id := by
        simpa [PoolRequest.accepts, hmatcher, Matcher.accepts, hn, Node.kind?] using haccepts
      exact absurd (declared.eq_of_id hother hkind hid ▸ hothervalue) hvalue
    | graph => simp [PoolRequest.accepts, hmatcher, Matcher.accepts, hn, Node.kind?] at haccepts

/-- From an honest pool it also has the value asked for. -/
theorem served_record (honest : w.Honest p kind) (sharing : kind.sharing? fields = some r)
    (hserved : w.served? p r = some id) {n : Node} {record : Fields} (hn : w.forest.node? id = some n)
    (hshape : n.shape = .schema kind record) : record = kind.table.listed fields := by
  obtain ⟨field, v, htable, hread, -, hv, hmatcher⟩ := World.of_sharing? sharing
  obtain ⟨hfind, -⟩ := Option.filter_eq_some_iff.1 hserved
  obtain ⟨s, hs, hzero, hfind⟩ := Pool.scalar_of_find? hfind
  rw [hv] at hs
  cases hs
  obtain ⟨e, he, hname, hkey, rfl⟩ := Shelf.mem_of_find? hfind
  have hnamed : e.filedUnder = kind.name := by
    rw [hname, PoolRequest.filedUnder, hmatcher]
    rfl
  obtain ⟨hezero, hmeans⟩ := honest _ e he hnamed
  rw [hmeans n record hn hshape, Scalar.eq_of_sameKey hezero hzero hkey]
  simp [FieldTable.listed, htable, hread]

/-- Where the node of a creation comes from, and the forest in which it then is: it is
built, or a pool has it. -/
inductive Given (w : World σ) (pool : Option PoolId) (kind : Kind) (span : Span) (fields : Fields) :
    NodeId → Forest → Prop
  | built : kind.table.Stores fields → Given w pool kind span fields ⟨w.forest.size⟩
      (w.forest.add ⟨span, .schema kind (kind.table.listed fields), none⟩).2
  | served {p : PoolId} {r : PoolRequest} {id : NodeId} : kind.sharing? fields = some r → pool = some p →
      w.served? p r = some id → Given w pool kind span fields id w.forest

theorem exec_answer_of_listens (listens : Listens kinds watch) (p : PoolId) (c : PoolCategory)
    (event : PoolEvent) (node : NodeId) (w : World σ) :
    ∃ v, World.answer watch p c event node w = (.ok node, v) ∧ Works kinds w.forest v.forest := by
  obtain ⟨v, hrun, hworks⟩ := listens p event w
  exact ⟨v.leave p c, by rw [World.answer, hrun], hworks⟩

/-- A creation that is given a pool where its kind shares nodes, and finds the category free. -/
def Provided (w : World σ) (pool : Option PoolId) (kind : Kind) (fields : Fields) : Prop :=
  ∀ r, kind.sharing? fields = some r → ∃ p, pool = some p ∧ (w.pool p).isHeld r.category = false

/-- What creating from a record that fits leads to: a node, after which the listener takes its
steps; or none, if the record cannot be stored, and then no node was made. -/
inductive Attempted (kinds : List Kind) (w : World σ) (pool : Option PoolId) (kind : Kind) (span : Span)
    (fields : Fields) : Except Fault NodeId × World σ → Prop
  | gave {id f v} : Given w pool kind span fields id f → Works kinds f v.forest →
      Attempted kinds w pool kind span fields (.ok id, v)
  | refused {fault v} : ¬ kind.table.Stores fields → v.forest = w.forest →
      Attempted kinds w pool kind span fields (.error fault, v)

theorem exec_createNode_of_fits (declared : Declared kinds) (hkind : kind ∈ kinds)
    (hfits : kind.table.fits fields = true) (listens : Listens kinds watch)
    (provided : Provided w pool kind fields) (span : Span) :
    Attempted kinds w pool kind span fields ((World.createNode watch pool kind span fields).exec w) := by
  have hbuild := exec_build_cases (declared.distinct kind hkind) hfits span w.forest
  rw [World.exec_createNode, FieldTable.check_of_fits _ _ hfits]
  rcases hsharing : kind.sharing? fields with _ | r
  · rcases hbuild with ⟨hstores, hrun⟩ | ⟨hrefused, fault, hrun⟩
    · simp only [World.exec_onForest, hrun]
      exact .gave (.built hstores) .refl
    · simp only [World.exec_onForest, hrun]
      exact .refused hrefused rfl
  · obtain ⟨p, rfl, free⟩ := provided r hsharing
    rcases hserved : w.served? p r with _ | node
    · simp only [World.exec_request _ _ free, hserved, World.exec_onForest, World.forest_enter]
      rcases hbuild with ⟨hstores, hrun⟩ | ⟨hrefused, fault, hrun⟩
      · simp only [hrun]
        obtain ⟨v, htold, hworks⟩ := exec_answer_of_listens listens p r.category _ ⟨w.forest.size⟩ _
        rw [World.forest_keep] at hworks
        rw [htold]
        exact .gave (.built hstores) hworks
      · simp only [hrun]
        exact .refused hrefused rfl
    · simp only [World.exec_request _ _ free, hserved]
      obtain ⟨v, htold, hworks⟩ := exec_answer_of_listens listens p r.category _ node _
      rw [htold]
      exact .gave (.served hsharing rfl hserved) hworks

variable {span : Span}

theorem Given.works (declared : Declared kinds) (hkind : kind ∈ kinds) (hvalue : kind.strategy ≠ .value)
    (hold : ∀ c ∈ kind.table.children fields, c.index < w.forest.size)
    {f : Forest} (given : Given w pool kind span fields id f) : Works kinds w.forest f := by
  cases given with
  | built hstores => exact .single (.made (makes_add declared span fields hkind hvalue hold hstores))
  | served => exact .refl

/-- The node given is of the kind, and says what was asked for if pools are honest. -/
theorem Given.shape (declared : Declared kinds) (hw : w.forest.Typed kinds True) (hkind : kind ∈ kinds)
    (hvalue : kind.strategy ≠ .value) {f : Forest} (given : Given w pool kind span fields id f) :
    ∃ n record, f.node? id = some n ∧ n.shape = .schema kind record ∧
      ((∀ r p, kind.sharing? fields = some r → pool = some p → w.Honest p kind) →
        record = kind.table.listed fields) := by
  cases given with
  | built _ => exact ⟨_, _, node?_add_self w.forest _, rfl, fun _ => rfl⟩
  | served sharing hpool hserved =>
    obtain ⟨n, record, hn, hshape⟩ := served_shape declared hw hkind hvalue sharing hserved
    exact ⟨n, record, hn, hshape,
      fun honest => served_record (honest _ _ sharing hpool) sharing hserved hn hshape⟩

/-- What creating a node does. The record alone settles whether it succeeds, unless it fits and
a field has the name of the root; if it succeeds, the node is of the kind, has a record that
its table takes, with the values given if what the pool has filed for the kind is what it is
filed under. -/
structure Creates (kinds : List Kind) (w : World σ) (pool : Option PoolId) (kind : Kind) (fields : Fields)
    (outcome : Except Fault NodeId × World σ) : Prop where
  settles : (kind.table.fits fields = true → kind.table.Plain) →
    kind.table.Settles w.forest.kindName kind.name fields w outcome
  worked : outcome.2.forest.Worked kinds
  made : ∀ id, outcome.1 = .ok id → ∃ n record, outcome.2.forest.node? id = some n ∧
    n.shape = .schema kind record ∧ kind.table.Takes record n.children ∧
    ((∀ r p, kind.sharing? fields = some r → pool = some p → w.Honest p kind) →
      record = kind.table.listed fields)

theorem exec_createNode_creates (declared : Declared kinds) (worked : w.forest.Worked kinds)
    (hkind : kind ∈ kinds) (hvalue : kind.strategy ≠ .value) (hold : ∀ c ∈ kind.table.children fields, c.index < w.forest.size)
    (listens : Listens kinds watch) (provided : Provided w pool kind fields) :
    Creates kinds w pool kind fields ((World.createNode watch pool kind span fields).exec w) := by
  rcases kind.table.check_cases w.forest.kindName kind.name fields with ⟨-, hfits⟩ | ⟨fault, hcheck, -⟩
  · have attempted := exec_createNode_of_fits declared hkind hfits listens provided span
    generalize (World.createNode watch pool kind span fields).exec w = outcome at attempted ⊢
    cases attempted with
    | @gave id f v given hworks =>
      have hf : f.Worked kinds := worked.trans (given.works declared hkind hvalue hold)
      have hv : v.forest.Worked kinds := hf.trans hworks
      refine ⟨fun _ => FieldTable.settles_of_fits hfits ⟨id, rfl⟩, hv, fun id' hid' => ?_⟩
      cases hid'
      obtain ⟨n, record, hn, hshape, hrecord⟩ := given.shape declared (worked.typed declared) hkind hvalue
      obtain ⟨hkeeps, -⟩ := hworks.keeps_typed declared (hf.typed declared)
      obtain ⟨m, hm, -, hmshape⟩ := hkeeps.of_shape hn hshape
      have hmkind : m.kind? = some kind := by rw [Node.kind?, hmshape]
      obtain ⟨-, htakes⟩ := (hv.typed declared).takes declared hm hmkind
      rw [Node.fields, hmshape] at htakes
      exact ⟨m, record, hm, hmshape, htakes, hrecord⟩
    | refused hrefused hforest =>
      exact ⟨fun plain => absurd (.of_plain (plain hfits) hfits) hrefused, hforest.symm ▸ worked, by simp⟩
  · rw [World.exec_createNode, hcheck]
    exact ⟨fun _ => FieldTable.settles_of_refused hcheck, worked, by simp⟩

end Create

/-! ## Records -/

/-- What creating a value record does. -/
structure CreatesRecord (f : Forest) (kind : Kind) (span : Span) (fields : Fields)
    (outcome : Except Fault ValueRecord × Forest) : Prop where
  settles : (kind.table.fits fields = true → kind.table.Plain) →
    kind.table.Settles f.kindName kind.name fields f outcome
  made : ∀ record, outcome.1 = .ok record → record.kind = kind.name ∧ record.span = span ∧
    record.fields = kind.table.listed fields ∧ kind.table.Stores record.fields

theorem exec_createRecord_creates (declared : Declared kinds) {kind : Kind} (hkind : kind ∈ kinds) (span : Span)
    (fields : Fields) (f : Forest) :
    CreatesRecord f kind span fields ((createRecord kind span fields).exec f) := by
  rcases kind.table.check_cases f.kindName kind.name fields with ⟨-, hfits⟩ | ⟨fault, hcheck, -⟩
  · have hdistinct := declared.distinct kind hkind
    rw [exec_createRecord_of_fits hfits]
    rcases FieldTable.stores_or_refused hdistinct hfits f.kindName kind.name with
      hstores | ⟨hnot, fault, hrefused⟩
    · rw [exec_buildRecord_of_stores hdistinct hstores]
      refine ⟨fun _ => FieldTable.settles_of_fits hfits ⟨_, rfl⟩, fun record hrecord => ?_⟩
      cases hrecord
      exact ⟨rfl, rfl, hstores.mapNodes_eq, hstores.mapNodes hdistinct id⟩
    · rw [exec_buildRecord, hrefused]
      exact ⟨fun plain => absurd (.of_plain (plain hfits) hfits) hnot, by simp⟩
  · rw [exec_createRecord_of_refused hcheck]
    exact ⟨fun _ => FieldTable.settles_of_refused hcheck, by simp⟩

/-! ## Copying and rebuilding -/

/-- No check fails that is made again when a node or a record is copied, and when a node is
rebuilt from nodes for its children. A clone comes to an end where there is no cycle. -/
structure Forest.ChecksPass (kinds : List Kind) (f : Forest) : Prop where
  clone : ∀ id, id.index < f.size → ¬ f.HasCycle id →
    ∃ copy g, (clone id).exec f = (.ok copy, g) ∧ g.Worked kinds
  copyRecord : ∀ kind ∈ kinds, ∀ record : ValueRecord, kind.table.Stores record.fields →
    ∃ copy g, (copyRecord kind record).exec f = (.ok copy, g) ∧ g.Worked kinds ∧
      copy.fields = kind.table.listed record.fields
  mapChildren : ∀ id span kind fields parent results,
    f.node? id = some ⟨span, .schema kind fields, parent⟩ → results.map (·.1) = f.children id →
    (∀ p ∈ results, p.2.index < f.size) →
    ∃ copy g, (mapChildren kind id span fields (answered results)).exec f = (.ok copy, g) ∧ g.Worked kinds

theorem Forest.Worked.checksPass (declared : Declared kinds) {f : Forest} (worked : f.Worked kinds) :
    f.ChecksPass kinds := by
  have typed := worked.typed declared
  refine ⟨fun id hid _ => ?_, fun kind hkind record hstores => ?_,
    fun id span kind fields parent results hn hresults hheld => ?_⟩
  · obtain ⟨copy, hcopy⟩ := (brings_clone declared typed hid).ok trivial
    exact ⟨copy, _, Prod.ext hcopy rfl, worked.tail (.made (.cloned hid))⟩
  · have hcopied := worked.tail (.made (.copied record hkind))
    rw [copyRecord, exec_buildRecord_of_stores (declared.distinct kind hkind) hstores] at hcopied ⊢
    exact ⟨_, _, rfl, hcopied, hstores.mapNodes_eq⟩
  · rw [children_of_node? hn, children_schema] at hresults
    obtain ⟨copy, hcopy⟩ := (brings_mapChildren declared typed hn hresults hheld).ok trivial
    exact ⟨copy, _, Prod.ext hcopy rfl, worked.tail (.made (.rebuilt hn hresults hheld))⟩

/-- A node is rebuilt in the forest that the visits of its children lead to, in which it may
have been told another parent. -/
theorem exec_transformChildren_of_works (declared : Declared kinds) {w v : World σ}
    (worked : w.forest.Worked kinds) {id : NodeId} {span : Span} {kind : Kind} {fields : Fields}
    {parent : Option NodeId} (hnode : w.forest.node? id = some ⟨span, .schema kind fields, parent⟩)
    {visit : Visit σ} {results : List (NodeId × NodeId)} (hvisits : VisitsEach visit w results v)
    (hchildren : results.map (·.1) = w.forest.children id) (works : Works kinds w.forest v.forest)
    (hheld : ∀ p ∈ results, p.2.index < v.forest.size) :
    ∃ copy u, (transformChildren visit id).exec w = (.ok copy, u) ∧ u.forest.Worked kinds := by
  obtain ⟨hkeeps, -⟩ := works.keeps_typed declared (worked.typed declared)
  obtain ⟨⟨_, _, told⟩, hm, rfl, rfl⟩ := hkeeps.of_shape hnode rfl
  have hresults : results.map (·.1) = v.forest.children id := by
    rw [hchildren, children_of_node? hnode, children_of_node? hm, children_schema, children_schema]
  obtain ⟨copy, g, hrun, hg⟩ :=
    (Worked.checksPass declared (worked.trans works)).mapChildren id _ kind fields told results hm hresults hheld
  refine ⟨copy, { v with forest := g }, ?_, hg⟩
  rw [hvisits.exec_transformChildren hnode hchildren, World.exec_onForest, hrun]

/-! ## Every node, however it was made -/

/-- In a world where nodes come from calls only. -/
structure World.WellTyped (kinds : List Kind) (w : World σ) : Prop where
  /-- A record settles whether a node can be created from it. Its pool is there if need be, and
  not at work. -/
  creates : ∀ kind ∈ kinds, kind.strategy ≠ .value → ∀ span fields pool watch,
    (∀ c ∈ kind.table.children fields, c.index < w.forest.size) → Listens kinds watch →
    Provided w pool kind fields →
    Creates kinds w pool kind fields ((World.createNode watch pool kind span fields).exec w)
  createsRecord : ∀ kind ∈ kinds, ∀ span fields,
    CreatesRecord w.forest kind span fields ((createRecord kind span fields).exec w.forest)
  /-- Pools that have only been used by creations, and by requests without a kind. -/
  honest : ∀ start calls created, start.Fresh → Plays (.direct kinds) ⟨start, [], []⟩ ⟨w, calls, created⟩ →
    ∀ p, ∀ kind ∈ kinds, w.Honest p kind
  /-- Every record matches its table, and the children are its nodes in order. -/
  takes : ∀ id n kind, w.forest.node? id = some n → n.kind? = some kind →
    kind ∈ kinds ∧ kind.table.Takes n.fields n.children
  /-- A stored record has the fields of its table and no others. -/
  named : ∀ id n kind record, w.forest.node? id = some n → n.shape = .schema kind record →
    record.map (·.1) = kind.table.map FieldSpec.name
  checksPass : w.forest.ChecksPass kinds
  /-- Nor does a check fail when a visitor transforms the children of a node. -/
  transforms : ∀ id span kind fields parent (visit : Visit σ) results v,
    w.forest.node? id = some ⟨span, .schema kind fields, parent⟩ → VisitsEach visit w results v →
    results.map (·.1) = w.forest.children id → Works kinds w.forest v.forest →
    (∀ p ∈ results, p.2.index < v.forest.size) →
    ∃ copy u, (transformChildren visit id).exec w = (.ok copy, u) ∧ u.forest.Worked kinds

/-- However calls made the nodes of a world, the world is well typed. -/
theorem nodes_are_well_typed (declared : Declared kinds) {w : World σ} (worked : w.forest.Worked kinds) :
    w.WellTyped kinds := by
  have typed := worked.typed declared
  constructor
  case creates =>
    exact fun kind hkind hvalue span fields pool watch hold listens provided =>
      exec_createNode_creates declared worked hkind hvalue hold listens provided
  case createsRecord =>
    exact fun kind hkind span fields => exec_createRecord_creates declared hkind span fields _
  case honest =>
    intro start calls created fresh plays p kind hkind
    exact (plays.faithful fresh.faithful).honest declared hkind p
  case takes => exact fun id n kind hn hkind => typed.takes declared hn hkind
  case named =>
    intro id n kind record hn hshape
    cases typed.node id n hn with
    | schema _ _ hnames _ =>
      cases hshape
      exact hnames
    | _ => cases hshape
  case checksPass => exact worked.checksPass declared
  case transforms =>
    intro id span kind fields parent visit results v hn hvisits hchildren works hheld
    exact exec_transformChildren_of_works declared worked hn hvisits hchildren works hheld

namespace Mixed

theorem worked : forest.Worked Mixed.kinds := steps (fun _ _ hmakes => .made hmakes) (.linked ⟨5⟩ (by decide))

def world : World Unit := { forest, pools := #[{ policy := .standard }], host := () }

/-- A literal is not created from a text, and an item that holds one node twice lists it twice. -/
theorem mixed_world_is_well_typed :
    (World.createNode Nested.quiet (some ⟨0⟩) lit (span 0 1) [("value", .text "5")]).exec world =
      (.error (.fieldMismatch "value" "Lit" "int" "string"), world) ∧
    (item 0).table.Takes (list .null [0, 1, 2, 0]) [⟨0⟩, ⟨1⟩, ⟨2⟩, ⟨0⟩] := by
  have typed := nodes_are_well_typed (w := world) declared worked
  have creates := typed.creates lit (by simp [Mixed.kinds]) (by decide) (span 0 1) [("value", .text "5")]
    (some ⟨0⟩) Nested.quiet (by decide) (fun _ _ w => ⟨w, rfl, .refl⟩)
    (fun r _ => ⟨⟨0⟩, rfl, by rcases r.category <;> rfl⟩)
  refine ⟨(creates.settles (fun _ => by decide)).refused [] ⟨"value", .scalar .int false⟩ [] rfl (by simp) ?_, ?_⟩
  · rintro ⟨_, ⟨⟩⟩
  · exact (typed.takes ⟨3⟩ _ (item 0) rfl rfl).2

end Mixed

/-! ## Records of other kinds, and what a pool was told -/

namespace Foreign

/-- Two unused pools. -/
def world : World Unit := { pools := #[{ policy := .standard }, { policy := .standard }], host := () }

/-- A request for a five whose factory gives a seven, from another pool; then a creation of
a five. -/
def code : Act (World Unit) NodeId := do
  let five : PoolRequest :=
    { category := .int, value := .num (.ofNat 5), matcher := some (.exactly (Shared.lit 0)) }
  let _ ← World.request Nested.quiet ⟨0⟩ five
    (World.createNode Nested.quiet (some ⟨1⟩) (Shared.lit 0) (Shared.span 0) [("value", .num (.ofNat 7))])
  World.createNode Nested.quiet (some ⟨0⟩) (Shared.lit 0) (Shared.span 1) Shared.five

/-- A kind with an integer under the name of the root. -/
def rooted : Kind :=
  { id := ⟨0⟩, name := "Rooted", strategy := .standard, table := [⟨Fields.rootName, .scalar .int false⟩]
    families := [], displayName := some Fields.rootName, poolCategory := none }

/-- A record is wrapped whatever kind it was created for, and is refused when the wrapper is
cloned. The pool serves the node it was given. A record with an integer under the name of the
root fits, and is refused once it is copied. -/
theorem records_and_factories_are_trusted : Declared Foreign.kinds ∧
    ((createRecord part (Mixed.span 0 3) [("value", .num .nan)]).exec {} = (.ok record, { recordCount := 1 }) ∧
      (wrap whole record).exec { recordCount := 1 } = (.ok ⟨0⟩, forest) ∧
      whole.table.fits record.fields = false ∧
      (clone ⟨0⟩).exec forest = (.error (.fieldMismatch "value" "Num" "int" "number"), forest)) ∧
    ((code.exec world).1.toOption = some ⟨0⟩ ∧
      ((code.exec world).2.forest.field ⟨0⟩ "value").scalar? = some (.num (.ofNat 7))) ∧
    (rooted.table.fits [(Fields.rootName, .num (.ofNat 3))] = true ∧
      (create rooted (Mixed.span 0 1) [(Fields.rootName, .num (.ofNat 3))]).exec {} =
        (.error (.fieldMismatch Fields.rootName "Rooted" "int" "object"), {})) := by
  have hfits : rooted.table.fits [(Fields.rootName, .num (.ofNat 3))] = true := by decide +kernel
  refine ⟨declared, ⟨rfl, rfl, rfl, rfl⟩, ⟨by decide +kernel, by decide +kernel⟩, hfits, ?_⟩
  rw [exec_create_of_fits hfits, exec_build]
  rfl

end Foreign

end SyntaxForest
