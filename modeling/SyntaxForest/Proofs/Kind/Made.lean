import SyntaxForest.Kind.Declaration
/-!
# Kinds that declarations make

`Declaration.Accepted`: the checks that an accepted declaration has passed, with what they
chose. `Made`: the kinds a catalog has made, by any declarations and registrations in any
of its registries. Two of them with one id are one kind, though their names may
repeat from registry to registry; and every one has a legal name.
-/

namespace SyntaxForest

namespace Declaration

theorem isLeaf_of_checkLeaf {d : Declaration} {done : Unit} (h : d.checkLeaf = .ok done) :
    d.table.isLeaf = true := by
  unfold checkLeaf at h
  split at h
  · next hnone => simpa [FieldTable.isLeaf, List.find?_eq_none] using hnone
  · cases h

/-- A display field is a scalar field of the table. -/
theorem mem_table_of_chooseDisplay {d : Declaration} {display : Option String} {name : String}
    (h : d.chooseDisplay = .ok display) (hname : display = some name) :
    ∃ e ∈ d.table, e.type.isScalar = true ∧ e.name = name := by
  have hfield : d.hasScalarField name = true := by
    unfold chooseDisplay at h
    rcases hdisplay : d.display with _ | asked
    · simp only [hdisplay, Except.ok.injEq] at h
      exact List.find?_some (h.trans hname)
    · simp only [hdisplay] at h
      split at h
      · next hasked =>
        cases h
        cases hname
        exact hasked
      · cases h
  simpa [hasScalarField] using hfield

end Declaration

/-- An accepted declaration has passed all checks; the kind has what it asked for and what the
checks have chosen. -/
structure Declaration.Accepted (d : Declaration) (id : KindId) (r : Registry) (kind : Kind) (s : Registry) :
    Prop where
  id : kind.id = id
  name : kind.name = d.name
  strategy : kind.strategy = d.strategy
  table : kind.table = d.table
  checkStrategy : d.checkStrategy = .ok kind.poolCategory
  checkName : d.checkName = .ok ()
  chooseDisplay : d.chooseDisplay = .ok kind.displayName
  register : r.register d.name d.strategy.nodeClass = .ok s

theorem Declaration.accepted {d : Declaration} {id : KindId} {r s : Registry} {kind : Kind}
    (h : d.accept id r = .ok (kind, s)) : d.Accepted id r kind s := by
  obtain ⟨category, hstrategy, h⟩ := Fault.of_bind_eq_ok h
  obtain ⟨_, hname, h⟩ := Fault.of_bind_eq_ok h
  obtain ⟨_, -, h⟩ := Fault.of_bind_eq_ok h
  obtain ⟨display, hdisplay, h⟩ := Fault.of_bind_eq_ok h
  obtain ⟨_, hregister, h⟩ := Fault.of_bind_eq_ok h
  cases h
  exact ⟨rfl, rfl, rfl, rfl, hstrategy, hname, hdisplay, hregister⟩

/-- Kinds that are shared or made of records hold scalars only. -/
theorem Declaration.Accepted.isLeaf {d : Declaration} {id : KindId} {r s : Registry} {kind : Kind}
    (h : d.Accepted id r kind s) (hstrategy : d.strategy = .pooled ∨ d.strategy = .value) : kind.isLeaf = true := by
  have hchecked := h.checkStrategy
  have hleaf : ∃ done, d.checkLeaf = .ok done := by
    rcases hstrategy with hpooled | hvalue
    · rw [Declaration.checkStrategy, hpooled] at hchecked
      obtain ⟨done, hleaf, -⟩ := Fault.of_bind_eq_ok hchecked
      exact ⟨done, hleaf⟩
    · rw [Declaration.checkStrategy, hvalue] at hchecked
      obtain ⟨done, hleaf, -⟩ := Fault.of_bind_eq_ok hchecked
      exact ⟨done, hleaf⟩
  obtain ⟨_, hleaf⟩ := hleaf
  rw [Kind.isLeaf, h.table]
  exact isLeaf_of_checkLeaf hleaf

/-- What an accepted declaration says about its kind. -/
theorem Declaration.of_accept {d : Declaration} {id : KindId} {r s : Registry} {kind : Kind}
    (h : d.accept id r = .ok (kind, s)) : kind.id = id ∧ isKindName kind.name = true ∧
      (kind.strategy = .pooled → kind.isLeaf = true) := by
  have haccepted := accepted h
  refine ⟨haccepted.id, ?_, fun hpooled => haccepted.isLeaf (.inl (haccepted.strategy ▸ hpooled))⟩
  have hname := haccepted.checkName
  unfold checkName at hname
  split at hname
  · rwa [haccepted.name]
  · cases hname

/-- What a kind needs for its representation: a value kind holds scalars only, and what is
shown beside a node is one of its scalars. -/
structure Kind.WellMade (kind : Kind) : Prop where
  isLeaf : kind.strategy = .value → kind.isLeaf = true
  display : ∀ name, kind.displayName = some name →
    ∃ e ∈ kind.table, e.type.isScalar = true ∧ e.name = name

theorem Declaration.wellMade {d : Declaration} {id : KindId} {r s : Registry} {kind : Kind}
    (h : d.accept id r = .ok (kind, s)) : kind.WellMade := by
  have haccepted := accepted h
  refine ⟨fun hvalue => haccepted.isLeaf (.inr (haccepted.strategy ▸ hvalue)), fun name hname => ?_⟩
  rw [haccepted.table]
  exact mem_table_of_chooseDisplay haccepted.chooseDisplay hname

namespace Catalog

/-- A catalog, and the kinds it has made. -/
inductive Made : Catalog → List Kind → Prop
  | empty : Made {} []
  | declared {c kinds registry d kind} : Made c kinds → (c.declare registry d).1 = .ok kind →
      Made (c.declare registry d).2 (kind :: kinds)
  | refused {c kinds registry d fault} : Made c kinds → (c.declare registry d).1 = .error fault →
      Made (c.declare registry d).2 kinds
  | registered {c kinds} (registry : Option String) (name : String) (nodeClass : NodeClass) :
      Made c kinds → Made (c.register registry name nodeClass).2 kinds

variable {c : Catalog} {kinds : List Kind}

theorem of_declare {registry : Option String} {d : Declaration} {kind : Kind}
    (h : (c.declare registry d).1 = .ok kind) : kind.id = ⟨c.kindCount⟩ ∧
      isKindName kind.name = true ∧ (kind.strategy = .pooled → kind.isLeaf = true) ∧
      (c.declare registry d).2.kindCount = c.kindCount + 1 := by
  unfold declare at h ⊢
  rcases haccept : d.accept ⟨c.kindCount⟩ (c.registry registry) with fault | ⟨k, r⟩
  · simp [haccept] at h
  · simp only [haccept, Except.ok.injEq] at h ⊢
    subst h
    obtain ⟨hid, hname, hleaf⟩ := Declaration.of_accept haccept
    exact ⟨hid, hname, hleaf, trivial⟩

theorem kindCount_of_refused {registry : Option String} {d : Declaration} {fault : Fault}
    (h : (c.declare registry d).1 = .error fault) : (c.declare registry d).2 = c := by
  unfold declare at h ⊢
  rcases haccept : d.accept ⟨c.kindCount⟩ (c.registry registry) with _ | _
  · rfl
  · simp [haccept] at h

theorem kindCount_register (c : Catalog) (registry : Option String) (name : String)
    (nodeClass : NodeClass) : (c.register registry name nodeClass).2.kindCount = c.kindCount := by
  unfold register
  split <;> rfl

/-- Every kind comes from a declaration that was accepted. -/
theorem Made.accepted (h : Made c kinds) :
    ∀ k ∈ kinds, ∃ (d : Declaration) (id : KindId) (r s : Registry), d.accept id r = .ok (k, s) := by
  induction h with
  | empty => simp
  | @declared c _ registry d kind _ hdeclare ih =>
    intro k hk
    rcases List.mem_cons.1 hk with rfl | hold
    · unfold declare at hdeclare
      rcases haccept : d.accept ⟨c.kindCount⟩ (c.registry registry) with _ | ⟨l, r⟩
      · simp [haccept] at hdeclare
      · simp only [haccept, Except.ok.injEq] at hdeclare
        subst hdeclare
        exact ⟨d, _, _, r, haccept⟩
    · exact ih k hold
  | refused _ _ ih => exact ih
  | registered _ _ _ _ ih => exact ih

/-- Kinds are numbered as they are made. -/
theorem Made.id_lt (h : Made c kinds) : ∀ k ∈ kinds, k.id.index < c.kindCount := by
  induction h with
  | empty => simp
  | declared _ hdeclare ih =>
    obtain ⟨hid, -, -, hcount⟩ := of_declare hdeclare
    intro k hk
    rcases List.mem_cons.1 hk with rfl | hold
    · rw [hid, hcount]
      exact Nat.lt_succ_self _
    · rw [hcount]
      exact Nat.lt_succ_of_lt (ih k hold)
  | refused _ hdeclare ih =>
    rw [kindCount_of_refused hdeclare]
    exact ih
  | registered registry name nodeClass _ ih =>
    rw [kindCount_register]
    exact ih

theorem Made.eq_of_id (h : Made c kinds) {k l : Kind} (hk : k ∈ kinds) (hl : l ∈ kinds)
    (hid : k.id = l.id) : k = l := by
  induction h with
  | empty => cases hk
  | declared hmade hdeclare ih =>
    obtain ⟨hnew, -⟩ := of_declare hdeclare
    rcases List.mem_cons.1 hk with rfl | hk'
    · rcases List.mem_cons.1 hl with rfl | hl'
      · rfl
      · have := hmade.id_lt l hl'
        rw [← hid, hnew] at this
        exact absurd this (Nat.lt_irrefl _)
    · rcases List.mem_cons.1 hl with rfl | hl'
      · have := hmade.id_lt k hk'
        rw [hid, hnew] at this
        exact absurd this (Nat.lt_irrefl _)
      · exact ih hk' hl'
  | refused _ _ ih => exact ih hk hl
  | registered _ _ _ _ ih => exact ih hk hl

/-- Every kind has a legal name, and shared ones hold scalars only. -/
theorem Made.legal (h : Made c kinds) :
    ∀ k ∈ kinds, isKindName k.name = true ∧ (k.strategy = .pooled → k.isLeaf = true) := by
  induction h with
  | empty => simp
  | declared _ hdeclare ih =>
    obtain ⟨-, hname, hleaf, -⟩ := of_declare hdeclare
    intro k hk
    rcases List.mem_cons.1 hk with rfl | hold
    · exact ⟨hname, hleaf⟩
    · exact ih k hold
  | refused _ _ ih => exact ih
  | registered _ _ _ _ ih => exact ih

end Catalog

end SyntaxForest
