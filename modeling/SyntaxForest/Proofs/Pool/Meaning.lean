import SyntaxForest.Proofs.Kind.Made
import SyntaxForest.Proofs.Pool.Reachable
/-!
# What a shared node means

Pools find nodes by a key that is coarser than the meaning of a node: kinds of one
name share entries, and the two zeros are one key. `Play.Faithful`: what is filed
under the name of a kind was created for a kind of that name, from the very value
that is its key. `createNode_means_what_was_asked`: so creating a node of a kind from
a pool gives a node of that kind with the fields asked for; only its span may be the
one of the creation that filed it.
-/

namespace SyntaxForest

theorem isKindName_anyKind : isKindName PoolEntry.anyKind = false := by decide

/-! ## Faithful plays -/

/-- The host makes requests without a kind only, and creates nodes of these kinds. -/
def Scope.direct (kinds : List Kind) : Scope := ⟨fun r => r.matcher = none, fun k => k ∈ kinds⟩

/-- The node of a creation is as it was asked for. -/
def Creation.Stands (m : Creation) (f : Forest) : Prop :=
  ∃ field n, m.kind.table = [field] ∧ f.node? m.node = some n ∧ n.span = m.span ∧
    n.shape = .schema m.kind [(field.name, .scalar m.value)]

theorem Creation.Stands.mono {m : Creation} {f g : Forest} (h : m.Stands f) (keeps : f.Keeps g) :
    m.Stands g := by
  obtain ⟨field, n, htable, hn, hspan, hshape⟩ := h
  obtain ⟨k, hk, hkspan, hkshape⟩ := keeps.of_shape hn hshape
  exact ⟨field, k, htable, hk, hkspan.trans hspan, hkshape⟩

namespace Play

variable {σ : Type} {kinds : List Kind} {w t : World σ} {calls : List OpenCall} {created : List Creation}
  {p : PoolId} {c : PoolCategory} {r : PoolRequest}

structure Faithful (kinds : List Kind) (play : Play σ) : Prop where
  direct : ∀ p r vacant, .making p r vacant ∈ play.calls → r.matcher = none
  filed : ∀ p c, ∀ e ∈ ((play.world.pool p).shelf c).entries, e.filedUnder ≠ PoolEntry.anyKind →
    e.value ≠ .num .negativeZero ∧ ∃ m ∈ play.created,
      m.pool = p ∧ m.kept = true ∧ m.value = e.value ∧ m.node = e.node
  stands : ∀ m ∈ play.created, m.kind ∈ kinds ∧ m.Stands play.world.forest

/-- Locking, releasing, emptying and what the host does alone: no entry is new, and
nodes stay. -/
theorem Faithful.of_entries (h : Faithful kinds ⟨w, calls, created⟩) {later : List OpenCall}
    (hentries : ∀ p c, ∀ e ∈ ((t.pool p).shelf c).entries, e ∈ ((w.pool p).shelf c).entries)
    (keeps : w.forest.Keeps t.forest)
    (hcalls : ∀ p r vacant, .making p r vacant ∈ later → .making p r vacant ∈ calls ∨ r.matcher = none) :
    Faithful kinds ⟨t, later, created⟩ := by
  constructor
  · intro p r vacant hmem
    rcases hcalls p r vacant hmem with hold | hnone
    · exact h.direct p r vacant hold
    · exact hnone
  · exact fun p c e he => h.filed p c e (hentries p c e he)
  · exact fun m hm => ⟨(h.stands m hm).1, (h.stands m hm).2.mono keeps⟩

theorem Faithful.of_sameNodes (h : Faithful kinds ⟨w, calls, created⟩) {later : List OpenCall}
    (same : ∀ p, Pool.SameNodes (w.pool p) (t.pool p)) (keeps : w.forest.Keeps t.forest)
    (hcalls : ∀ p r vacant, .making p r vacant ∈ later → .making p r vacant ∈ calls ∨ r.matcher = none) :
    Faithful kinds ⟨t, later, created⟩ := by
  refine h.of_entries (fun p c e he => ?_) keeps hcalls
  rw [(same p).entries] at he
  exact he

/-- A node that is kept under the name of a kind comes from a creation. -/
theorem Faithful.keep (h : Faithful kinds ⟨w, calls, created⟩) {later : List Creation} {vacant : Bool}
    {node : NodeId} {inner : List OpenCall}
    (hinner : ∀ q s v, .making q s v ∈ inner → .making q s v ∈ calls)
    (hlater : ∀ m ∈ created, m ∈ later)
    (hstands : ∀ m ∈ later, m.kind ∈ kinds ∧ m.Stands w.forest)
    (hnew : ∀ value, w.key? p r vacant = some value → r.filedUnder ≠ PoolEntry.anyKind →
      ∃ m ∈ later, m.pool = p ∧ m.kept = true ∧ m.value = value ∧ m.node = node) :
    Faithful kinds ⟨w.keep p r vacant node, inner, later⟩ := by
  have hold : ∀ q d, ∀ e ∈ ((w.pool q).shelf d).entries, e.filedUnder ≠ PoolEntry.anyKind →
      e.value ≠ .num .negativeZero ∧ ∃ m ∈ later,
        m.pool = q ∧ m.kept = true ∧ m.value = e.value ∧ m.node = e.node := by
    intro q d e he hname
    obtain ⟨hzero, m, hm, hfacts⟩ := h.filed q d e he hname
    exact ⟨hzero, m, hlater m hm, hfacts⟩
  refine ⟨fun q s v hmem => h.direct q s v (hinner q s v hmem), ?_, ?_⟩
  · intro q d e he hname
    rcases World.pool_keep_cases w p r vacant node q with hq | ⟨rfl, -, value, hkey, hq⟩
    · simp only [hq] at he
      exact hold q d e he hname
    · simp only [hq] at he
      rcases Pool.mem_file.1 he with hmem | ⟨-, rfl⟩
      · exact hold q d e hmem hname
      · exact ⟨Pool.ne_negativeZero_of_admits (World.of_key? hkey).2.2, hnew value hkey hname⟩
  · simp only [World.forest_keep]
    exact hstands

end Play

open Play

variable {σ : Type} {kinds : List Kind}

theorem PoolRequest.filedUnder_of_none {r : PoolRequest} (h : r.matcher = none) :
    r.filedUnder = PoolEntry.anyKind := by
  rw [PoolRequest.filedUnder, h]

/-- Every step keeps a play faithful. Only a creation files under the name of a kind. -/
theorem Step.faithful {a b : Play σ} (h : Step (.direct kinds) a b) (ha : a.Faithful kinds) :
    b.Faithful kinds := by
  cases h with
  | own evolves =>
    refine ha.of_sameNodes (fun p => ?_) evolves.forest (fun _ _ _ hmem => .inl hmem)
    rw [evolves.pool]
    exact .refl _
  | @hit w _ _ p r =>
    refine ha.of_sameNodes (World.sameNodes_enter w p r.category Pool.countsOnly_countHit) (.refl _) ?_
    intro q s v hmem
    exact .inl (by simpa using hmem)
  | @miss w _ _ p r asks =>
    refine ha.of_sameNodes (World.sameNodes_enter w p r.category Pool.countsOnly_countMiss) (.refl _) ?_
    intro q s v hmem
    rcases List.mem_cons.1 hmem with heq | hold
    · obtain ⟨rfl, rfl, -⟩ := OpenCall.making.inj heq
      exact .inr asks
    · exact .inl hold
  | @made w calls created p r vacant node =>
    refine ha.keep (fun q s v hmem => ?_) (fun _ hm => hm) ha.stands (fun value _ hname => ?_)
    · exact List.mem_cons_of_mem _ (by simpa using hmem)
    · exact absurd (PoolRequest.filedUnder_of_none (ha.direct p r vacant List.mem_cons_self)) hname
  | @threw w _ _ p r =>
    exact ha.of_sameNodes (World.sameNodes_leave w p r.category) (.refl _)
      (fun _ _ _ hmem => .inl (List.mem_cons_of_mem _ hmem))
  | @told w _ _ p c =>
    exact ha.of_sameNodes (World.sameNodes_leave w p c) (.refl _)
      (fun _ _ _ hmem => .inl (List.mem_cons_of_mem _ hmem))
  | @built w calls created p kind fields r value span makes fits sharing hvalue free served =>
    obtain ⟨field, v, htable, hread, -, hv, -⟩ := World.of_sharing? sharing
    have hrecord : kind.table.listed fields = [(field.name, .scalar value)] := by
      rw [hvalue] at hv
      cases hv
      simp [FieldTable.listed, htable, hread]
    have hgrown : Faithful kinds ⟨(w.enter p r.category Pool.countMiss).grown
        { span, shape := .schema kind (kind.table.listed fields) }, calls, created⟩ :=
      ha.of_sameNodes (World.sameNodes_enter w p r.category Pool.countsOnly_countMiss)
        (Forest.keeps_add w.forest _) (fun _ _ _ hmem => .inl hmem)
    refine hgrown.keep (fun q s v hmem => by simpa using hmem)
      (fun m hm => List.mem_append_left _ hm) (fun m hm => ?_) (fun key hkey _ => ?_)
    · rcases List.mem_append.1 hm with hold | hnew
      · exact hgrown.stands m hold
      · rw [List.mem_singleton.1 hnew]
        refine ⟨makes, field, _, htable, Forest.node?_add_self w.forest _, rfl, ?_⟩
        rw [hrecord]
    · obtain ⟨-, hkeyValue, -⟩ := World.of_key? hkey
      rw [hvalue] at hkeyValue
      cases hkeyValue
      refine ⟨_, List.mem_append_right _ (List.mem_singleton_self _), rfl, ?_, rfl, rfl⟩
      exact Option.isSome_iff_exists.2 ⟨_, hkey⟩
  | @spoilt w _ _ p _ _ r =>
    refine ha.of_sameNodes (World.sameNodes_enter w p r.category Pool.countsOnly_countMiss) (.refl _) ?_
    intro q s v hmem
    exact .inl (by simpa using hmem)
  | @emptied w _ _ p c =>
    refine ha.of_entries (fun q d e he => ?_) (.refl _) (fun _ _ _ hmem => .inl hmem)
    rcases World.pool_updatePool_cases w p (fun q => q.emptyShelf c) q with hq | ⟨-, -, hq⟩
    · rw [hq] at he
      exact he
    · rw [hq, Pool.shelf_emptyShelf] at he
      split at he
      · cases he
      · exact he
  | @reset w _ _ p =>
    exact ha.of_sameNodes (World.sameNodes_updatePool w p Pool.countsOnly_resetCounters.sameNodes) (.refl _)
      (fun _ _ _ hmem => .inl hmem)

theorem Plays.faithful {a b : Play σ} (h : Plays (.direct kinds) a b) (ha : a.Faithful kinds) :
    b.Faithful kinds := by
  induction h with
  | refl => exact ha
  | tail _ hstep ih => exact hstep.faithful ih

theorem World.Fresh.faithful {w : World σ} (h : w.Fresh) : Faithful kinds ⟨w, [], []⟩ := by
  refine ⟨fun p r v hmem => (nomatch hmem), fun p c e he => ?_, fun m hm => (nomatch hm)⟩
  obtain ⟨policy, hp⟩ := h p
  simp only [hp] at he
  cases c <;> cases he

/-! ## Creating nodes -/

theorem Step.keeps {scope : Scope} {a b : Play σ} (h : Step scope a b) :
    a.world.forest.Keeps b.world.forest := by
  cases h with
  | own evolves => exact evolves.forest
  | made node =>
    rw [World.forest_keep]
    exact .refl _
  | built =>
    rw [World.forest_keep]
    exact Forest.keeps_add _ _
  | _ => exact .refl _

theorem Plays.keeps {scope : Scope} {a b : Play σ} (h : Plays scope a b) :
    a.world.forest.Keeps b.world.forest := by
  induction h with
  | refl => exact .refl _
  | tail _ hstep ih => exact ih.trans hstep.keeps

section Create

variable {scope : Scope} {catalog : Catalog} {watch : World.PoolWatch σ} {p : PoolId} {r : PoolRequest}
  {kind : Kind} {span : Span} {fields : Fields} {id node : NodeId}

/-- An answer is the node that is there, and listeners leave nodes as they are. -/
theorem of_answer (hosted : ∀ p event, HostCode scope (watch p event)) {c : PoolCategory}
    {event : PoolEvent} {w t : World σ} (h : World.answer watch p c event node w = (.ok id, t)) :
    id = node ∧ w.forest.Keeps t.forest := by
  obtain ⟨_, hplays⟩ := (hosted p event).plays w [] []
  unfold World.answer at h
  rcases hrun : (watch p event).exec w with ⟨_ | _, u⟩
  · simp [hrun] at h
  · simp only [hrun, Prod.mk.injEq, Except.ok.injEq] at h hplays
    rw [← h.1, ← h.2]
    exact ⟨rfl, hplays.keeps⟩

/-- A node that serves a kind was created for it, from the value asked for. -/
theorem Play.Faithful.served {play : Play σ} (h : play.Faithful kinds) (made : Catalog.Made catalog kinds)
    (hkind : kind ∈ kinds) (sharing : kind.sharing? fields = some r)
    (hserved : play.world.served? p r = some node) : ∃ n, ∃ m ∈ play.created,
      play.world.forest.node? node = some n ∧ n.shape = .schema kind (kind.table.listed fields) ∧
      n.span = m.span ∧ m.pool = p ∧ m.kind = kind ∧ m.kept = true ∧ m.node = node ∧
      ∃ e, kind.table = [e] ∧ Fields.read fields e.name = .scalar m.value := by
  obtain ⟨field, v, htable, hread, -, hv, hmatcher⟩ := World.of_sharing? sharing
  obtain ⟨hfind, haccepts⟩ := Option.filter_eq_some_iff.1 hserved
  obtain ⟨s, hs, hzero, hfind⟩ := Pool.scalar_of_find? hfind
  rw [hv] at hs
  cases hs
  obtain ⟨e, he, hname, hkey, rfl⟩ := Shelf.mem_of_find? hfind
  have hnamed : e.filedUnder ≠ PoolEntry.anyKind := by
    rw [hname, PoolRequest.filedUnder, hmatcher]
    intro heq
    have hlegal := (made.legal kind hkind).1
    rw [show kind.name = PoolEntry.anyKind from heq, isKindName_anyKind] at hlegal
    cases hlegal
  obtain ⟨hezero, m, hm, hpool, hkept, hvalue, hnode⟩ := h.filed p _ e he hnamed
  obtain ⟨hmkind, field', n, htable', hn, hspan, hshape⟩ := h.stands m hm
  rw [hnode] at hn
  -- Kinds of one name share entries; what tells them apart is the id the matcher looks at.
  have hid : m.kind.id = kind.id := by
    simpa [PoolRequest.accepts, hmatcher, Matcher.accepts, hn, Node.kind?, hshape] using haccepts
  have hsame : m.kind = kind := made.eq_of_id hmkind hkind hid
  have hmvalue : m.value = v := by
    rw [hvalue]
    exact Scalar.eq_of_sameKey hezero hzero hkey
  rw [hsame, htable] at htable'
  cases htable'
  refine ⟨n, m, hm, hn, ?_, hspan, hpool, hsame, hkept, hnode, field, htable, by rw [hmvalue]; exact hread⟩
  rw [hshape, hsame, hmvalue]
  simp [FieldTable.listed, htable, hread]

/-- A node that is built holds the record asked for. -/
theorem of_build {f g : Forest} (hleaf : kind.isLeaf = true)
    (h : (Forest.build kind span fields).exec f = (.ok id, g)) :
    ∃ n, g.node? id = some n ∧ n.shape = .schema kind (kind.table.listed fields) ∧ n.span = span := by
  rw [Forest.exec_build] at h
  rcases hsettle : kind.table.settle f.kindName kind.name fields with _ | stored
  · simp [hsettle] at h
  · obtain ⟨rfl, -⟩ := FieldTable.of_settle_of_isLeaf hleaf hsettle
    simp only [hsettle, Prod.mk.injEq, Except.ok.injEq] at h
    rw [← h.1, ← h.2]
    exact ⟨_, Forest.node?_add_self f _, rfl, rfl⟩

/-- A node of a shared kind that a request gave is the node asked for, built just now or
by an earlier creation that the pool kept. -/
theorem Play.Faithful.request {play : Play σ} (h : play.Faithful kinds) (made : Catalog.Made catalog kinds)
    (hosted : ∀ p event, HostCode scope (watch p event)) (hkind : kind ∈ kinds)
    (hleaf : kind.isLeaf = true)
    (sharing : kind.sharing? fields = some r) {after : World σ}
    (gave : (World.request watch p r (Act.onForest (Forest.build kind span fields))).exec play.world =
      (.ok id, after)) :
    ∃ n, after.forest.node? id = some n ∧ n.shape = .schema kind (kind.table.listed fields) ∧
      (n.span = span ∨ ∃ m ∈ play.created, m.pool = p ∧ m.kind = kind ∧ m.kept = true ∧ m.node = id ∧
        n.span = m.span ∧ ∃ e, kind.table = [e] ∧ Fields.read fields e.name = .scalar m.value) := by
  rcases hfree : (play.world.pool p).isHeld r.category with _ | _
  · rw [World.exec_request watch _ hfree] at gave
    rcases hserved : play.world.served? p r with _ | node
    · rcases hbuild : (Forest.build kind span fields).exec play.world.forest with ⟨_ | node, f⟩
      · simp [hserved, World.exec_onForest, hbuild] at gave
      · simp only [hserved, World.exec_onForest, World.forest_enter, hbuild] at gave
        obtain ⟨rfl, hkeeps⟩ := of_answer hosted gave
        rw [World.forest_keep] at hkeeps
        obtain ⟨n, hn, hshape, hspan⟩ := of_build hleaf hbuild
        obtain ⟨k, hk, hkspan, hkshape⟩ := hkeeps.of_shape hn hshape
        exact ⟨k, hk, hkshape, .inl (hkspan.trans hspan)⟩
    · simp only [hserved] at gave
      obtain ⟨rfl, hkeeps⟩ := of_answer hosted gave
      obtain ⟨n, m, hm, hn, hshape, hspan, hfacts⟩ := h.served made hkind sharing hserved
      obtain ⟨k, hk, hkspan, hkshape⟩ := hkeeps.of_shape hn hshape
      obtain ⟨hpool, hmkind, hkept, hnode, hvalue⟩ := hfacts
      exact ⟨k, hk, hkshape, .inr ⟨m, hm, hpool, hmkind, hkept, hnode, hkspan.trans hspan, hvalue⟩⟩
  · rw [World.request, World.exec_underLock_held hfree] at gave
    simp at gave

/-- Creating a node of a kind from a pool, at any moment, gives a node of that very kind
whose fields are the ones asked for. Its span is the one asked for, or that of an
earlier creation of the kind from the same value, whose node the pool kept. The
moment after is one of the same play. -/
theorem createNode_means_what_was_asked (made : Catalog.Made catalog kinds) {w : World σ} (fresh : w.Fresh)
    {play : Play σ} (reached : Plays (.direct kinds) ⟨w, [], []⟩ play)
    (hosted : ∀ p event, HostCode (.direct kinds) (watch p event)) (hkind : kind ∈ kinds)
    (pooled : kind.strategy = .pooled) {after : World σ}
    (created : (World.createNode watch (some p) kind span fields).exec play.world = (.ok id, after)) :
    (∃ n, after.forest.node? id = some n ∧ n.kind? = some kind ∧
      (∀ e ∈ kind.table, (Fields.read n.fields e.name).same (Fields.read fields e.name) = true) ∧
      (n.span = span ∨ ∃ m ∈ play.created, m.pool = p ∧ m.kind = kind ∧ m.kept = true ∧ m.node = id ∧
        n.span = m.span ∧ ∃ e, kind.table = [e] ∧ Fields.read fields e.name = .scalar m.value)) ∧
    ∃ later, Plays (.direct kinds) ⟨w, [], []⟩ ⟨after, play.calls, later⟩ := by
  have hleaf : kind.isLeaf = true := (made.legal kind hkind).2 pooled
  have hfaithful : play.Faithful kinds := reached.faithful fresh.faithful
  constructor
  · rw [World.exec_createNode] at created
    rcases hfits : kind.table.check play.world.forest.kindName kind.name fields with fault | _
    · simp [hfits] at created
    simp only [hfits] at created
    obtain ⟨n, hn, hshape, hspan⟩ : ∃ n, after.forest.node? id = some n ∧
        n.shape = .schema kind (kind.table.listed fields) ∧ (n.span = span ∨ _) := by
      rcases hsharing : kind.sharing? fields with _ | r
      · simp only [hsharing, World.exec_onForest, Prod.mk.injEq] at created
        obtain ⟨n, hn, hshape, hspan⟩ := of_build hleaf (Prod.ext created.1 rfl)
        rw [← created.2]
        exact ⟨n, hn, hshape, .inl hspan⟩
      · simp only [hsharing] at created
        exact hfaithful.request made hosted hkind hleaf hsharing created
    refine ⟨n, hn, by rw [Node.kind?, hshape], fun e he => ?_, hspan⟩
    rw [Node.fields, hshape, FieldTable.read_listed fields he]
    exact FieldTable.same_of_fits (List.all_eq_true.1 hleaf e he)
      ((FieldTable.fits_of_check hfits).2 e he)
  · have hcode : HostCode (.direct kinds) (World.createNode watch (some p) kind span fields) :=
      .createNode hkind hosted
    obtain ⟨later, hplays⟩ := hcode.plays play.world play.calls play.created
    rw [created] at hplays
    exact ⟨later, reached.trans hplays⟩

end Create

namespace Shared

/-- A kind of integers, declared under one name in two registries. -/
def declaration : Declaration :=
  { name := "Lit", strategy := .pooled, table := [⟨"value", .scalar .int false⟩], families := []
    display := none, category := none }

def lit (index : Nat) : Kind :=
  { id := ⟨index⟩, name := "Lit", strategy := .pooled, table := [⟨"value", .scalar .int false⟩]
    families := [], displayName := some "value", poolCategory := some .int }

def five : Fields := [("value", .num (.ofNat 5))]

def span (start : Nat) : Span := ⟨.zero, .ofNat start, .ofNat (start + 1)⟩

/-- Both kinds ask for the same value. -/
def code : Act (World Unit) NodeId := do
  let _ ← World.createNode Nested.quiet (some ⟨0⟩) (lit 0) (span 0) five
  World.createNode Nested.quiet (some ⟨0⟩) (lit 1) (span 1) five

theorem made : ∃ catalog, Catalog.Made catalog [lit 1, lit 0] := by
  have hfirst : (Catalog.declare {} none declaration).1 = .ok (lit 0) := rfl
  have hsecond : ((Catalog.declare {} none declaration).2.declare (some "other") declaration).1 =
      .ok (lit 1) := rfl
  exact ⟨_, .declared (.declared .empty hfirst) hsecond⟩

theorem hosted (p : PoolId) (event : PoolEvent) :
    HostCode (.direct [lit 1, lit 0]) (Nested.quiet p event) := Nested.hostCode_quiet p event

theorem hostCode : HostCode (.direct [lit 1, lit 0]) code :=
  .bind (.createNode (by simp [Scope.direct]) hosted) (fun _ => .createNode (by simp [Scope.direct]) hosted)

/-- A third creation is served with the node of the first, its span included. -/
theorem createNode_means_what_was_asked_code : ∃ after n,
    (World.createNode Nested.quiet (some ⟨0⟩) (lit 0) (span 2) five).exec (code.exec Nested.world).2 =
      (.ok ⟨0⟩, after) ∧ after.forest.node? ⟨0⟩ = some n ∧ n.kind? = some (lit 0) ∧ n.span = span 0 := by
  obtain ⟨catalog, hmade⟩ := made
  obtain ⟨created, hplays⟩ := hostCode.plays Nested.world [] []
  have hok : ((World.createNode Nested.quiet (some ⟨0⟩) (lit 0) (span 2) five).exec
      (code.exec Nested.world).2).1.toOption = some ⟨0⟩ := by decide +kernel
  have hspan : ((World.createNode Nested.quiet (some ⟨0⟩) (lit 0) (span 2) five).exec
      (code.exec Nested.world).2).2.forest.span ⟨0⟩ = span 0 := by decide +kernel
  generalize (code.exec Nested.world).2 = w at hplays hok hspan ⊢
  rcases hcreated : (World.createNode Nested.quiet (some ⟨0⟩) (lit 0) (span 2) five).exec w
    with ⟨_ | id, after⟩
  · rw [hcreated] at hok
    cases hok
  · rw [hcreated] at hok hspan
    cases hok
    have hpooled : (lit 0).strategy = .pooled := rfl
    obtain ⟨⟨n, hn, hkind, -, -⟩, -⟩ := createNode_means_what_was_asked hmade Nested.fresh hplays hosted
      (by simp) hpooled hcreated
    simp only [Forest.span, hn, Option.map_some, Option.getD_some] at hspan
    exact ⟨after, n, rfl, hn, hkind, hspan⟩

end Shared

end SyntaxForest
