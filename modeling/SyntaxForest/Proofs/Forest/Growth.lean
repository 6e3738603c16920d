import SyntaxForest.Forest.Parents
/-!
# Growing forests

`Keeps`: what one forest says about its nodes, a later one still says. Nodes made
from a kind never change; hand-written nodes may gain links, and any node may be
told another parent. Making nodes, linking and setting parents all keep.
-/

namespace SyntaxForest

namespace Forest

variable {f g h : Forest}

/-- Every node is still there, with its span, and with its shape if it has a kind. -/
def Keeps (f g : Forest) : Prop :=
  ∀ id n, f.node? id = some n →
    ∃ m, g.node? id = some m ∧ m.span = n.span ∧ (n.kind?.isSome = true → m.shape = n.shape)

theorem Keeps.refl (f : Forest) : f.Keeps f := fun _ n hn => ⟨n, hn, rfl, fun _ => rfl⟩

theorem Keeps.trans (hf : f.Keeps g) (hg : g.Keeps h) : f.Keeps h := by
  intro id n hn
  obtain ⟨m, hm, hspan, hshape⟩ := hf id n hn
  obtain ⟨k, hk, hspan', hshape'⟩ := hg id m hm
  refine ⟨k, hk, hspan'.trans hspan, fun hkind => ?_⟩
  have hmkind : m.kind? = n.kind? := by rw [Node.kind?, Node.kind?, hshape hkind]
  rw [hshape' (by rw [hmkind]; exact hkind), hshape hkind]

/-- A node of a kind stays as it is. -/
theorem Keeps.of_shape (h : f.Keeps g) {id : NodeId} {n : Node} {kind : Kind} {fields : Fields}
    (hn : f.node? id = some n) (hshape : n.shape = .schema kind fields) :
    ∃ m, g.node? id = some m ∧ m.span = n.span ∧ m.shape = .schema kind fields := by
  obtain ⟨m, hm, hspan, hkeeps⟩ := h id n hn
  have hkind : n.kind?.isSome = true := by simp [Node.kind?, hshape]
  exact ⟨m, hm, hspan, (hkeeps hkind).trans hshape⟩

theorem lt_size_of_node? {id : NodeId} {n : Node} (hn : f.node? id = some n) : id.index < f.size :=
  (Array.getElem?_eq_some_iff.1 hn).1

theorem keeps_add (f : Forest) (n : Node) : f.Keeps (f.add n).2 := by
  intro id m hm
  rw [node?_add_of_lt f n (lt_size_of_node? hm)]
  exact ⟨m, hm, rfl, fun _ => rfl⟩

/-- A change in place keeps if it leaves spans alone, and shapes that have a kind. -/
theorem keeps_update (f : Forest) (id : NodeId) {change : Node → Node}
    (hspan : ∀ n, (change n).span = n.span)
    (hshape : ∀ n, n.kind?.isSome = true → (change n).shape = n.shape) : f.Keeps (f.update id change) := by
  intro other n hn
  rw [node?_update]
  split
  · exact ⟨change n, by rw [hn]; rfl, hspan n, hshape n⟩
  · exact ⟨n, hn, rfl, fun _ => rfl⟩

theorem keeps_link (f : Forest) (id : NodeId) (targets : List NodeId) : f.Keeps (f.link id targets) := by
  apply keeps_update
  · intro n
    rcases n with ⟨span, _ | _ | _, parent⟩ <;> rfl
  · intro n hkind
    rcases n with ⟨span, _ | _ | _, parent⟩
    · rfl
    · rfl
    · cases hkind

theorem keeps_setParent (f : Forest) (id : NodeId) (parent : Option NodeId) :
    f.Keeps (f.setParent id parent) := by
  unfold setParent
  split
  · exact .refl f
  · exact keeps_update f id (fun _ => rfl) (fun _ _ => rfl)

/-! ## Making nodes -/

theorem exec_build (kind : Kind) (span : Span) (fields : Fields) (f : Forest) :
    (build kind span fields).exec f =
      match kind.table.settle f.kindName kind.name fields with
      | .error fault => (.error fault, f)
      | .ok stored =>
        (.ok (f.add { span, shape := .schema kind stored }).1,
          (f.add { span, shape := .schema kind stored }).2) := by
  rw [build, Act.exec_bind, Act.exec_get]
  simp only [Act.exec_bind, Act.exec_ofExcept]
  rcases kind.table.settle f.kindName kind.name fields with _ | _ <;> rfl

/-- Building only adds. -/
theorem keeps_build (kind : Kind) (span : Span) (fields : Fields) (f : Forest) :
    f.Keeps ((build kind span fields).exec f).2 := by
  rw [exec_build]
  split
  · exact .refl f
  · exact keeps_add f _

end Forest

namespace FieldTable

/-- Assigning what the record says is finding it again: what it has under the name of
the root, if the table has that name, is an object. -/
def Keeps (table : FieldTable) (fields : Fields) : Prop :=
  ∀ e ∈ table, Fields.assigned e.name (Fields.read fields e.name) = Fields.read fields e.name

/-- The record that lists the fields of a table as they are given. -/
def listed (table : FieldTable) (fields : Fields) : Fields :=
  table.map (fun e => (e.name, Fields.read fields e.name))

/-- A record made under the names of a table says under each what it was made with. -/
theorem read_map_names {table : FieldTable} {e : FieldSpec} (value : String → Value) (he : e ∈ table) :
    Fields.read (table.map (fun e => (e.name, value e.name))) e.name = value e.name := by
  induction table with
  | nil => cases he
  | cons d rest ih =>
    rw [List.map_cons]
    by_cases hd : d.name = e.name
    · rw [hd, Fields.read_cons_self]
    · rw [Fields.read_cons_of_ne _ _ hd]
      rcases List.mem_cons.1 he with rfl | hr
      · exact absurd rfl hd
      · exact ih hr

theorem read_listed {table : FieldTable} {e : FieldSpec} (fields : Fields) (he : e ∈ table) :
    Fields.read (table.listed fields) e.name = Fields.read fields e.name :=
  read_map_names (Fields.read fields) he

theorem fits_of_check {table : FieldTable} {fields : Fields} {kindOf : NodeId → String} {kind : String}
    (h : table.check kindOf kind fields = .ok ()) :
    table.mismatch? fields = none ∧ ∀ e ∈ table, e.type.fits (Fields.read fields e.name) = true := by
  have hnone : table.mismatch? fields = none := by
    unfold check at h
    split at h
    · assumption
    · cases h
  refine ⟨hnone, fun e he => ?_⟩
  simpa using List.find?_eq_none.1 hnone e he

/-- What fits after it was assigned is what was assigned: no field holds the root itself. -/
theorem assigned_of_fits {type : FieldType} {name : String} {v : Value}
    (h : type.fits (Fields.assigned name v) = true) : Fields.assigned name v = v := by
  by_cases hname : name = Fields.rootName
  · rw [Fields.assigned, if_pos hname] at h ⊢
    cases v with
    | absent => cases h
    | null => cases h
    | scalar s => cases h
    | object bare entries => cases bare <;> cases h
    | node | list | builtin => rfl
  · exact Fields.assigned_of_ne hname v

/-- A record that a copy leaves alone is stored as it is, if it is stored. -/
theorem of_settle_of_copy {table : FieldTable} {fields stored : Fields} {kindOf : NodeId → String} {kind : String}
    (hcopy : ∀ e ∈ table, e.type.mapNodes .node (Fields.read fields e.name) = Fields.read fields e.name)
    (h : table.settle kindOf kind fields = .ok stored) : stored = table.listed fields ∧ table.Keeps fields := by
  obtain ⟨_, hcheck, hstored⟩ := Fault.of_bind_eq_ok h
  cases hstored
  have hmap : table.mapNodes .node fields =
      table.map (fun e => (e.name, Fields.assigned e.name (Fields.read fields e.name))) :=
    List.map_congr_left (fun e he => by rw [hcopy e he])
  have hkeeps : table.Keeps fields := by
    intro e he
    have hfits := (fits_of_check hcheck).2 e he
    rw [hmap, read_map_names (fun name => Fields.assigned name (Fields.read fields name)) he] at hfits
    exact assigned_of_fits hfits
  exact ⟨hmap.trans (List.map_congr_left (fun e he => by rw [hkeeps e he])), hkeeps⟩

theorem of_settle_of_isLeaf {table : FieldTable} {fields stored : Fields} {kindOf : NodeId → String} {kind : String}
    (hleaf : table.isLeaf = true) (h : table.settle kindOf kind fields = .ok stored) :
    stored = table.listed fields ∧ table.Keeps fields := by
  refine of_settle_of_copy (fun e he => ?_) h
  have hscalar := List.all_eq_true.1 hleaf e he
  rcases e with ⟨name, _ | _ | _⟩
  · rfl
  · cases hscalar
  · cases hscalar

/-- A value of a scalar field is one that is the same as itself. -/
theorem same_of_fits {type : FieldType} {v : Value} (hscalar : type.isScalar = true)
    (hfits : type.fits v = true) : v.same v = true := by
  cases v with
  | null => rfl
  | scalar s => simp [Value.same]
  | absent => cases hfits
  | node id => cases type <;> simp_all [FieldType.fits, FieldType.isScalar]
  | list items => cases type <;> simp_all [FieldType.fits, FieldType.isScalar]
  | object bare entries => cases hfits
  | builtin name => cases hfits

end FieldTable

end SyntaxForest
