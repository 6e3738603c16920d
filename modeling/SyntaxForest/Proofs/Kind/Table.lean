import Mathlib.Data.List.Nodup
import SyntaxForest.Proofs.Forest.Growth
/-!
# Records of a field table

How listing a record's nodes, copying a record and refilling it go together, for
tables whose names are distinct, as those of records are (`distinct_ofPairs`). A copy
whose nodes are replaced lists the replacements in order (`children_mapNodes`,
`children_refill`). `Stores` are the records that can be stored as they are given; of
these a copy can be stored as well, and has the same outline: its scalars, and which of
its slots hold how many nodes. Every record that fits is one of them where no field has
the name of the root (`Plain`).
-/

namespace SyntaxForest

/-! ## Single fields -/

namespace FieldType

variable {type : FieldType} {v : Value}

@[simp] theorem filterMap_node? {α : Type} (g : α → NodeId) (l : List α) :
    (l.map (fun a => Value.node (g a))).filterMap Value.node? = l.map g := by
  induction l with
  | nil => rfl
  | cons a rest ih => simp [Value.node?, ih]

@[simp] theorem filterMap_node?_nodes (ids : List NodeId) :
    (ids.map Value.node).filterMap Value.node? = ids := by
  simpa using filterMap_node? id ids

theorem nodesOf_mapNodes (g : NodeId → NodeId) (type : FieldType) (v : Value) :
    type.nodesOf (type.mapNodes (fun c => .node (g c)) v) = (type.nodesOf v).map g := by
  cases type with
  | scalar => rfl
  | node => cases v <;> rfl
  | nodes =>
    cases v with
    | list items => exact filterMap_node? g _
    | _ => rfl

theorem mapNodes_mapNodes (f : NodeId → Value) (g : NodeId → NodeId) (type : FieldType) (v : Value) :
    type.mapNodes f (type.mapNodes (fun c => .node (g c)) v) = type.mapNodes (fun c => f (g c)) v := by
  cases type with
  | scalar => rfl
  | node => cases v <;> rfl
  | nodes =>
    cases v with
    | list items =>
      simp only [mapNodes, filterMap_node?, List.map_map]
      rfl
    | _ => rfl

/-- Assigning neither adds nor loses nodes. -/
theorem nodesOf_assigned (type : FieldType) (name : String) (v : Value) :
    type.nodesOf (Fields.assigned name v) = type.nodesOf v := by
  by_cases hname : name = Fields.rootName
  · rw [Fields.assigned, if_pos hname]
    cases v with
    | object bare => cases bare <;> cases type <;> rfl
    | node | list | builtin => rfl
    | _ => cases type <;> rfl
  · rw [Fields.assigned_of_ne hname]

/-- What is found again when it is assigned is so with its nodes replaced, too. -/
theorem assigned_mapNodes {name : String} (h : Fields.assigned name v = v) (g : NodeId → NodeId) :
    Fields.assigned name (type.mapNodes (fun c => .node (g c)) v) = type.mapNodes (fun c => .node (g c)) v := by
  cases v with
  | node id => cases type <;> exact Fields.assigned_node name _
  | list items => cases type <;> exact Fields.assigned_list name _
  | _ => cases type <;> exact h

theorem assigned_refill {name : String} (h : Fields.assigned name v = v) (answers : List NodeId) :
    Fields.assigned name (type.refill (answers.map .node) v) = type.refill (answers.map .node) v := by
  cases v with
  | node id => cases type <;> cases answers <;> exact Fields.assigned_node name _
  | list items => cases type <;> exact Fields.assigned_list name _
  | _ => cases type <;> exact h

/-- A copy that fits was made of something that is found again. -/
theorem assigned_of_fits_mapNodes {name : String}
    (h : type.fits (Fields.assigned name (type.mapNodes .node v)) = true) : Fields.assigned name v = v := by
  have hcopy := FieldTable.assigned_of_fits h
  cases v with
  | node id => exact Fields.assigned_node name _
  | list items => exact Fields.assigned_list name _
  | _ => cases type <;> exact hcopy

theorem mapNodes_of_isScalar (h : type.isScalar = true) (f : NodeId → Value) (v : Value) :
    type.mapNodes f v = v := by
  cases type with
  | scalar => rfl
  | node => cases h
  | nodes => cases h

theorem fits_mapNodes (g : NodeId → NodeId) (h : type.fits v = true) :
    type.fits (type.mapNodes (fun c => .node (g c)) v) = true := by
  cases type with
  | scalar => exact h
  | node => cases v <;> exact h
  | nodes =>
    cases v with
    | list items =>
      simp only [mapNodes, fits, List.all_map, List.all_eq_true]
      exact fun _ _ => rfl
    | _ => exact h

theorem nodesOf_refill {answers : List NodeId} (h : (type.nodesOf v).length ≤ answers.length) :
    type.nodesOf (type.refill (answers.map .node) v) = answers.take (type.nodesOf v).length := by
  cases type with
  | scalar => rfl
  | node =>
    cases v with
    | node id =>
      obtain ⟨a, rest, rfl⟩ := List.exists_cons_of_length_pos (show 0 < answers.length from h)
      rfl
    | _ => rfl
  | nodes =>
    cases v with
    | list items =>
      simp only [refill, nodesOf, ← List.map_take, filterMap_node?_nodes]
    | _ => rfl

/-- Refilling a field looks at no more answers than it held nodes. -/
theorem refill_take {answers : List NodeId} (h : (type.nodesOf v).length ≤ answers.length) :
    type.refill ((answers.take (type.nodesOf v).length).map .node) v =
      type.refill (answers.map .node) v := by
  cases type with
  | scalar => rfl
  | node =>
    cases v with
    | node id =>
      obtain ⟨a, rest, rfl⟩ := List.exists_cons_of_length_pos (show 0 < answers.length from h)
      rfl
    | _ => rfl
  | nodes =>
    cases v with
    | list items =>
      simp only [refill, nodesOf, ← List.map_take, List.take_take, Nat.min_self]
    | _ => rfl

/-- A field that is refilled has as many nodes as before. -/
theorem mapNodes_refill {answers : List NodeId} (w : Value)
    (h : (type.nodesOf v).length ≤ answers.length) :
    type.mapNodes (fun _ => w) (type.refill (answers.map .node) v) = type.mapNodes (fun _ => w) v := by
  cases type with
  | scalar => rfl
  | node =>
    cases v with
    | node id =>
      obtain ⟨a, rest, rfl⟩ := List.exists_cons_of_length_pos (show 0 < answers.length from h)
      rfl
    | _ => rfl
  | nodes =>
    cases v with
    | list items =>
      have hlen : (items.filterMap Value.node?).length ≤ answers.length := h
      simp only [refill, mapNodes, ← List.map_take, filterMap_node?_nodes, List.map_const',
        List.length_take, Nat.min_eq_left hlen]
    | _ => rfl

theorem fits_refill {answers : List NodeId} (hlen : (type.nodesOf v).length ≤ answers.length)
    (h : type.fits v = true) : type.fits (type.refill (answers.map .node) v) = true := by
  cases type with
  | scalar => exact h
  | node =>
    cases v with
    | node id =>
      obtain ⟨a, rest, rfl⟩ := List.exists_cons_of_length_pos (show 0 < answers.length from hlen)
      rfl
    | _ => exact h
  | nodes =>
    cases v with
    | list items =>
      simp only [refill, fits, ← List.map_take, List.all_map, List.all_eq_true]
      exact fun _ _ => rfl
    | _ => exact h

end FieldType

/-! ## Names of a record -/

namespace Fields

variable {α : Type}

theorem read_of_not_mem {name : String} {fields : Fields} (h : name ∉ fields.map (·.1)) :
    read fields name = inherited name := by
  induction fields with
  | nil => rfl
  | cons p rest ih =>
    rw [List.map_cons, List.mem_cons, not_or] at h
    rw [read_cons_of_ne _ _ (Ne.symm h.1), ih h.2]

theorem same_inherited (name : String) : (inherited name).same (inherited name) = true := by
  unfold inherited
  split
  · exact beq_self_eq_true name
  · rfl

end Fields

/-! ## Tables -/

namespace FieldTable

variable {table : FieldTable} {a b fields : Fields}

/-- No two fields share a name. -/
def Distinct (table : FieldTable) : Prop := (table.map FieldSpec.name).Nodup

theorem Distinct.tail {e : FieldSpec} (h : Distinct (e :: table)) : table.Distinct :=
  (List.nodup_cons.1 h).2

theorem Distinct.name_ne {e : FieldSpec} (h : Distinct (e :: table)) :
    ∀ d ∈ table, e.name ≠ d.name := by
  intro d hd heq
  exact (List.nodup_cons.1 h).1 (heq ▸ List.mem_map_of_mem hd)

theorem fits_iff : table.fits fields = true ↔
    ∀ e ∈ table, e.type.fits (Fields.read fields e.name) = true := List.all_eq_true

/-- A record made field by field says about a field what it was made with. -/
theorem read_map_of_mem (h : table.Distinct) (value : FieldSpec → Value) {e : FieldSpec}
    (he : e ∈ table) : Fields.read (table.map (fun e => (e.name, value e))) e.name = value e := by
  induction table with
  | nil => cases he
  | cons d rest ih =>
    rw [List.map_cons]
    rcases List.mem_cons.1 he with rfl | hrest
    · exact Fields.read_cons_self _ _ _
    · rw [Fields.read_cons_of_ne _ _ (h.name_ne e hrest)]
      exact ih h.tail hrest

theorem read_mapNodes (h : table.Distinct) (f : NodeId → Value) (fields : Fields) {e : FieldSpec}
    (he : e ∈ table) : Fields.read (table.mapNodes f fields) e.name =
      Fields.assigned e.name (e.type.mapNodes f (Fields.read fields e.name)) :=
  read_map_of_mem h (fun e => Fields.assigned e.name (e.type.mapNodes f (Fields.read fields e.name))) he

theorem names_mapNodes (f : NodeId → Value) (table : FieldTable) (fields : Fields) :
    (table.mapNodes f fields).map (·.1) = table.map FieldSpec.name := by
  rw [mapNodes, List.map_map]
  rfl

/-- A copy lists the replaced nodes in order. -/
theorem children_mapNodes (h : table.Distinct) (g : NodeId → NodeId) (fields : Fields) :
    table.children (table.mapNodes (fun c => .node (g c)) fields) = (table.children fields).map g := by
  rw [children, children, List.map_flatMap]
  exact List.flatMap_congr (fun e he => by
    rw [read_mapNodes h _ fields he, FieldType.nodesOf_assigned, FieldType.nodesOf_mapNodes])

/-! ## Records that can be stored -/

/-- No field has the name of the root. -/
def Plain (table : FieldTable) : Prop := ∀ e ∈ table, e.name ≠ Fields.rootName

instance : Decidable table.Plain := inferInstanceAs (Decidable (∀ e ∈ table, e.name ≠ Fields.rootName))

/-- A record that can be stored as it is given: its values fit, and are found again when they
are assigned. -/
structure Stores (table : FieldTable) (fields : Fields) : Prop where
  fits : table.fits fields = true
  keeps : table.Keeps fields

theorem Plain.keeps (h : table.Plain) (fields : Fields) : table.Keeps fields :=
  fun e he => Fields.assigned_of_ne (h e he) _

theorem Stores.of_plain (h : table.Plain) (hfits : table.fits fields = true) : table.Stores fields :=
  ⟨hfits, h.keeps fields⟩

theorem Keeps.read_mapNodes (hkeeps : table.Keeps fields) (h : table.Distinct) (g : NodeId → NodeId)
    {e : FieldSpec} (he : e ∈ table) : Fields.read (table.mapNodes (fun c => .node (g c)) fields) e.name =
      e.type.mapNodes (fun c => .node (g c)) (Fields.read fields e.name) := by
  rw [FieldTable.read_mapNodes h _ fields he, FieldType.assigned_mapNodes (hkeeps e he)]

theorem Keeps.mapNodes_mapNodes (hkeeps : table.Keeps fields) (h : table.Distinct) (f : NodeId → Value)
    (g : NodeId → NodeId) : table.mapNodes f (table.mapNodes (fun c => .node (g c)) fields) =
      table.mapNodes (fun c => f (g c)) fields :=
  List.map_congr_left (fun e he => by
    rw [hkeeps.read_mapNodes h _ he, FieldType.mapNodes_mapNodes])

theorem Keeps.mapNodes (hkeeps : table.Keeps fields) (h : table.Distinct) (g : NodeId → NodeId) :
    table.Keeps (table.mapNodes (fun c => .node (g c)) fields) := by
  intro e he
  rw [hkeeps.read_mapNodes h g he]
  exact FieldType.assigned_mapNodes (hkeeps e he) g

theorem Stores.mapNodes (hstores : table.Stores fields) (h : table.Distinct) (g : NodeId → NodeId) :
    table.Stores (table.mapNodes (fun c => .node (g c)) fields) := by
  refine ⟨fits_iff.2 (fun e he => ?_), hstores.keeps.mapNodes h g⟩
  rw [hstores.keeps.read_mapNodes h g he]
  exact FieldType.fits_mapNodes g (fits_iff.1 hstores.fits e he)

/-- A scalar is not stored under the name of the root. -/
theorem Stores.name_ne_root (h : table.Stores fields) {e : FieldSpec} (he : e ∈ table)
    (hscalar : e.type.isScalar = true) : e.name ≠ Fields.rootName := by
  intro hroot
  have hfits := fits_iff.1 h.fits e he
  have hkeeps := h.keeps e he
  rw [Fields.assigned, if_pos hroot] at hkeeps
  rcases htype : e.type with ⟨t, optional⟩ | _ | _
  · rw [htype] at hfits
    cases hv : Fields.read fields e.name with
    | null =>
      rw [hv] at hkeeps
      cases hkeeps
    | scalar s =>
      rw [hv] at hkeeps
      cases hkeeps
    | _ =>
      rw [hv] at hfits
      cases hfits
  all_goals
    rw [htype] at hscalar
    cases hscalar

/-- The fields that may hold nodes have values that fit, whatever the scalars are. -/
def SlotsFit (table : FieldTable) (fields : Fields) : Prop :=
  ∀ e ∈ table, e.type.isScalar = false → e.type.fits (Fields.read fields e.name) = true

theorem slotsFit_of_isLeaf (h : table.isLeaf = true) (fields : Fields) : table.SlotsFit fields := by
  intro e he hslot
  rw [List.all_eq_true.1 h e he] at hslot
  cases hslot

/-! ## Refilling -/

theorem children_cons (e : FieldSpec) (table : FieldTable) (fields : Fields) :
    children (e :: table) fields =
      e.type.nodesOf (Fields.read fields e.name) ++ table.children fields := by
  simp [children]

/-- Refilling takes the answers apart: each field gets as many as it held nodes, in order. -/
theorem read_refill (h : table.Distinct) {answers : List NodeId}
    (hlen : answers.length = (table.children fields).length) :
    ∃ share : FieldSpec → List NodeId, table.flatMap share = answers ∧ ∀ e ∈ table,
      (share e).length = (e.type.nodesOf (Fields.read fields e.name)).length ∧
      Fields.read (table.refill fields (answers.map .node)) e.name =
        Fields.assigned e.name (e.type.refill ((share e).map .node) (Fields.read fields e.name)) := by
  induction table generalizing answers with
  | nil => exact ⟨fun _ => [], (List.length_eq_zero_iff.1 hlen).symm, fun _ he => absurd he List.not_mem_nil⟩
  | cons e rest ih =>
    rw [children_cons, List.length_append] at hlen
    let count := (e.type.nodesOf (Fields.read fields e.name)).length
    obtain ⟨share, hshare, hread⟩ := @ih h.tail (answers.drop count) (by rw [List.length_drop]; omega)
    have hne : ∀ d ∈ rest, d ≠ e := fun d hd heq => h.name_ne d hd (congrArg FieldSpec.name heq.symm)
    refine ⟨fun d => if d = e then answers.take count else share d, ?_, ?_⟩
    · have hrest : rest.flatMap (fun d => if d = e then answers.take count else share d) =
          rest.flatMap share := List.flatMap_congr (fun d hd => if_neg (hne d hd))
      rw [List.flatMap_cons, if_pos rfl, hrest, hshare, List.take_append_drop]
    · rw [refill, ← List.map_drop, List.forall_mem_cons]
      refine ⟨⟨?_, ?_⟩, fun d hd => ?_⟩
      · simp only [if_true, List.length_take]
        omega
      · simp only [if_true, Fields.read_cons_self]
        exact congrArg (Fields.assigned e.name) (FieldType.refill_take (by omega)).symm
      · simp only [if_neg (hne d hd), Fields.read_cons_of_ne _ _ (h.name_ne d hd)]
        exact hread d hd

/-- A refilled record lists the answers, one for each node it held. -/
theorem children_refill (h : table.Distinct) {answers : List NodeId}
    (hlen : answers.length = (table.children fields).length) :
    table.children (table.refill fields (answers.map .node)) = answers := by
  obtain ⟨share, hshare, hread⟩ := read_refill h hlen
  rw [children, ← hshare]
  refine List.flatMap_congr (fun e he => ?_)
  obtain ⟨hcount, hvalue⟩ := hread e he
  rw [hshare, hvalue, FieldType.nodesOf_assigned, FieldType.nodesOf_refill (Nat.le_of_eq hcount.symm),
    ← hcount, List.take_length]

theorem Keeps.read_refill (hkeeps : table.Keeps fields) (h : table.Distinct) {answers : List NodeId}
    (hlen : answers.length = (table.children fields).length) {e : FieldSpec} (he : e ∈ table) :
    ∃ share : List NodeId, share.length = (e.type.nodesOf (Fields.read fields e.name)).length ∧
      Fields.read (table.refill fields (answers.map .node)) e.name =
        e.type.refill (share.map .node) (Fields.read fields e.name) := by
  obtain ⟨share, -, hread⟩ := FieldTable.read_refill h hlen
  obtain ⟨hcount, hvalue⟩ := hread e he
  exact ⟨share e, hcount, hvalue.trans (FieldType.assigned_refill (hkeeps e he) _)⟩

theorem Stores.refill (hstores : table.Stores fields) (h : table.Distinct) {answers : List NodeId}
    (hlen : answers.length = (table.children fields).length) :
    table.Stores (table.refill fields (answers.map .node)) := by
  refine ⟨fits_iff.2 (fun e he => ?_), fun e he => ?_⟩
  · obtain ⟨share, hcount, hvalue⟩ := hstores.keeps.read_refill h hlen he
    rw [hvalue]
    exact FieldType.fits_refill (Nat.le_of_eq hcount.symm) (fits_iff.1 hstores.fits e he)
  · obtain ⟨share, -, hvalue⟩ := hstores.keeps.read_refill h hlen he
    rw [hvalue]
    exact FieldType.assigned_refill (hstores.keeps e he) share

/-! ## Scalars and outlines -/

/-- What a record says apart from its nodes: scalars as they are, and a mark for each
node in a slot. -/
def outline (table : FieldTable) (fields : Fields) : Fields :=
  table.map (fun e => (e.name, e.type.mapNodes (fun _ => .absent) (Fields.read fields e.name)))

/-- The values of the scalar fields, in order. -/
def scalars (table : FieldTable) (fields : Fields) : List Value :=
  (table.filter (·.type.isScalar)).map (fun e => Fields.read fields e.name)

theorem Keeps.outline_mapNodes (hkeeps : table.Keeps fields) (h : table.Distinct) (g : NodeId → NodeId) :
    table.outline (table.mapNodes (fun c => .node (g c)) fields) = table.outline fields :=
  List.map_congr_left (fun e he => by
    rw [hkeeps.read_mapNodes h g he, FieldType.mapNodes_mapNodes])

theorem Keeps.outline_refill (hkeeps : table.Keeps fields) (h : table.Distinct) {answers : List NodeId}
    (hlen : answers.length = (table.children fields).length) :
    table.outline (table.refill fields (answers.map .node)) = table.outline fields := by
  refine List.map_congr_left (fun e he => ?_)
  obtain ⟨share, hcount, hvalue⟩ := hkeeps.read_refill h hlen he
  rw [hvalue, FieldType.mapNodes_refill .absent (Nat.le_of_eq hcount.symm)]

/-- A value that is the same as itself is the same as no other one. -/
theorem same_iff_of_same {v w : Value} (hv : v.same v = true) : v.same w = true ↔ v = w := by
  constructor
  · intro hsame
    cases v <;> cases w <;> simp_all [Value.same]
  · rintro rfl
    exact hv

theorem sameScalars_self_of_fits (hfits : table.fits a = true) : table.sameScalars a a = true := by
  refine List.all_eq_true.2 (fun e he => ?_)
  rcases hscalar : e.type.isScalar with _ | _
  · rfl
  · exact same_of_fits hscalar (fits_iff.1 hfits e he)

/-- A record whose scalars are the same as themselves agrees with those that have the same
scalars. -/
theorem sameScalars_iff (hself : table.sameScalars a a = true) :
    table.sameScalars a b = true ↔ table.scalars a = table.scalars b := by
  rw [sameScalars, List.all_eq_true] at hself
  rw [sameScalars, List.all_eq_true, scalars, scalars, List.map_inj_left]
  constructor
  · intro h e he
    obtain ⟨hmem, hscalar⟩ := List.mem_filter.1 he
    have hsame := h e hmem
    have hread := hself e hmem
    simp only [hscalar, Bool.not_true, Bool.false_or] at hsame hread
    exact (same_iff_of_same hread).1 hsame
  · intro h e hmem
    have hread := hself e hmem
    rcases hscalar : e.type.isScalar with _ | _
    · rfl
    · rw [← h e (List.mem_filter.2 ⟨hmem, hscalar⟩)]
      simpa [hscalar] using hread

/-! ## Storing -/

theorem check_of_fits (kindOf : NodeId → String) (kind : String) (h : table.fits fields = true) :
    table.check kindOf kind fields = .ok () := by
  have hnone : table.mismatch? fields = none := by
    rw [mismatch?, List.find?_eq_none]
    intro e he
    simp [fits_iff.1 h e he]
  rw [check, hnone]

/-- What is stored is the copy. -/
theorem Stores.settle_eq (hstores : table.Stores fields) (h : table.Distinct) (kindOf : NodeId → String)
    (kind : String) : table.settle kindOf kind fields = .ok (table.mapNodes .node fields) := by
  have hcopy : table.fits (table.mapNodes .node fields) = true := (hstores.mapNodes h id).fits
  rw [settle, check_of_fits kindOf kind hcopy]
  rfl

/-- What is stored is a copy that fits; what it was made from is found again. -/
theorem of_settle (hdistinct : table.Distinct) {kindOf : NodeId → String} {kind : String} {stored : Fields}
    (h : table.settle kindOf kind fields = .ok stored) :
    stored = table.mapNodes .node fields ∧ table.Stores stored ∧ table.Keeps fields := by
  obtain ⟨_, hcheck, hstored⟩ := Fault.of_bind_eq_ok h
  cases hstored
  have hfits := (fits_of_check hcheck).2
  have hkeeps : table.Keeps fields := by
    intro e he
    have hcopy := hfits e he
    rw [read_mapNodes hdistinct _ fields he] at hcopy
    exact FieldType.assigned_of_fits_mapNodes hcopy
  exact ⟨rfl, ⟨fits_iff.2 hfits, hkeeps.mapNodes hdistinct id⟩, hkeeps⟩

/-- A record that fits can be stored, or is refused once it is copied. -/
theorem stores_or_refused (h : table.Distinct) (hfits : table.fits fields = true) (kindOf : NodeId → String)
    (kind : String) : table.Stores fields ∨
      ¬ table.Stores fields ∧ ∃ fault, table.settle kindOf kind fields = .error fault := by
  rcases hsettle : table.settle kindOf kind fields with fault | stored
  · refine .inr ⟨fun hstores => ?_, fault, rfl⟩
    rw [hstores.settle_eq h] at hsettle
    cases hsettle
  · exact .inl ⟨hfits, (of_settle h hsettle).2.2⟩

theorem children_stored (h : table.Distinct) (fields : Fields) :
    table.children (table.mapNodes .node fields) = table.children fields := by
  rw [show table.mapNodes .node fields = table.mapNodes (fun c => .node (id c)) fields from rfl,
    children_mapNodes h, List.map_id]

theorem Keeps.outline_stored (hkeeps : table.Keeps fields) (h : table.Distinct) :
    table.outline (table.mapNodes .node fields) = table.outline fields :=
  hkeeps.outline_mapNodes h id

end FieldTable

end SyntaxForest
