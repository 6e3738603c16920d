import Mathlib.Algebra.GroupWithZero.Nat
import Mathlib.Data.List.Forall2
import SyntaxForest.Proofs.Kind.Fit
/-!
# Slots of a table

A record lists its nodes without a word about their slots. A required node takes one place in
the list; an optional node and a list of nodes are elastic. With at most one elastic field in a
table, the list tells which node is in which slot (`forall₂_children_iff`). With two it does
not: `single` records hold one node in an elastic slot, and list the same nodes whichever slot
that is (`children_single_eq`).
-/

namespace SyntaxForest

/-- Lists in two parts are related part by part if the first parts are of one length. -/
theorem forall₂_append_iff {α β : Type} {R : α → β → Prop} {as bs : List α} {cs ds : List β}
    (hlength : as.length = cs.length) :
    List.Forall₂ R (as ++ bs) (cs ++ ds) ↔ List.Forall₂ R as cs ∧ List.Forall₂ R bs ds := by
  constructor
  · intro h
    have hfirst := List.forall₂_take_append _ _ _ h
    have hsecond := List.forall₂_drop_append _ _ _ h
    rw [← hlength, List.take_left] at hfirst
    rw [← hlength, List.drop_left] at hsecond
    exact ⟨hfirst, hsecond⟩
  · rintro ⟨hfirst, hsecond⟩
    exact List.rel_append hfirst hsecond

namespace FieldType

variable {type : FieldType} {v w : Value}

/-- Whether the values of a field differ in how many nodes they hold. -/
def isElastic : FieldType → Bool
  | .scalar _ _ => false
  | .node optional => optional
  | .nodes => true

theorem length_nodesOf_eq (hfixed : type.isElastic = false) (hv : type.isScalar = false → type.fits v = true)
    (hw : type.isScalar = false → type.fits w = true) : (type.nodesOf v).length = (type.nodesOf w).length := by
  have hone : ∀ u, (type.isScalar = false → type.fits u = true) →
      (type.nodesOf u).length = if type.isScalar then 0 else 1 := by
    intro u hu
    cases type with
    | scalar => rfl
    | node optional =>
      obtain rfl : optional = false := hfixed
      obtain ⟨ids, htakes⟩ : ∃ ids, Takes (.node false) u ids := ⟨_, takes_iff.2 ⟨hu rfl, rfl⟩⟩
      cases htakes with
      | null hoptional => cases hoptional
      | node => rfl
    | nodes => cases hfixed
  rw [hone v hv, hone w hw]

/-- How many nodes a field holds: as few as it can, or one if it is elastic and full. -/
def room (type : FieldType) (full : Bool) : Nat :=
  match type with
  | .scalar _ _ => 0
  | .node false => 1
  | .node true => full.toNat
  | .nodes => full.toNat

theorem room_of_elastic (h : type.isElastic = true) (full : Bool) : type.room full = full.toNat := by
  cases type with
  | scalar => cases h
  | node optional =>
    obtain rfl : optional = true := h
    rfl
  | nodes => rfl

/-- A value that holds so many nodes, each of them the same. -/
def sample (x : NodeId) (type : FieldType) (full : Bool) : Value :=
  match type with
  | .scalar .int _ => .num (.ofNat 0)
  | .scalar .float _ => .num (.ofNat 0)
  | .scalar .string _ => .text ""
  | .scalar .bool _ => .bool false
  | .node false => .node x
  | .node true => if full then .node x else .null
  | .nodes => if full then .list [.node x] else .list []

theorem sample_of_isScalar (h : type.isScalar = true) (x : NodeId) (full full' : Bool) :
    type.sample x full = type.sample x full' := by
  cases type with
  | scalar t => cases t <;> rfl
  | _ => cases h

theorem takes_sample (x : NodeId) (type : FieldType) (full : Bool) :
    type.Takes (type.sample x full) (List.replicate (type.room full) x) := by
  cases type with
  | scalar t =>
    cases t with
    | int => exact .int (by decide +kernel)
    | float => exact .float
    | string => exact .string
    | bool => exact .bool
  | node optional =>
    cases optional with
    | false => exact .node
    | true => cases full with
      | false => exact .null rfl
      | true => exact .node
  | nodes => cases full with
    | false => exact @Takes.nodes []
    | true => exact @Takes.nodes [x]

end FieldType

namespace FieldTable

variable {table : FieldTable} {a b : Fields}

/-- The fields of a table that may hold more nodes or fewer. -/
def elastic (table : FieldTable) : List FieldSpec := table.filter (·.type.isElastic)

/-- Without such fields all records list equally many nodes. -/
theorem length_children_eq (hfixed : table.elastic = []) (ha : table.SlotsFit a)
    (hb : table.SlotsFit b) : (table.children a).length = (table.children b).length := by
  rw [children, children, List.length_flatMap, List.length_flatMap]
  congr 1
  refine List.map_congr_left (fun e he => ?_)
  have hnot : e.type.isElastic = false := by simpa using List.filter_eq_nil_iff.1 hfixed e he
  exact FieldType.length_nodesOf_eq hnot (ha e he) (hb e he)

/-- With at most one such field, the nodes of two records are related one by one exactly if
those of each field are: all other fields hold as many nodes in one record as in the other,
and so the elastic one must, too. -/
theorem forall₂_children_iff {R : NodeId → NodeId → Prop} (hone : table.elastic.length ≤ 1)
    (ha : table.SlotsFit a) (hb : table.SlotsFit b) :
    List.Forall₂ R (table.children a) (table.children b) ↔ ∀ e ∈ table,
      List.Forall₂ R (e.type.nodesOf (Fields.read a e.name)) (e.type.nodesOf (Fields.read b e.name)) := by
  induction table with
  | nil => exact iff_of_true .nil (fun _ he => absurd he List.not_mem_nil)
  | cons e rest ih =>
    obtain ⟨hea, ha⟩ := List.forall_mem_cons.1 ha
    obtain ⟨heb, hb⟩ := List.forall_mem_cons.1 hb
    rw [children_cons, children_cons, List.forall_mem_cons]
    cases helastic : e.type.isElastic with
    | false =>
      have hrest : elastic rest = elastic (e :: rest) := by simp [elastic, helastic]
      rw [forall₂_append_iff (FieldType.length_nodesOf_eq helastic hea heb), ih (hrest ▸ hone) ha hb]
    | true =>
      have hrest : elastic rest = [] := by
        simpa [elastic, helastic] using hone
      have hlength := length_children_eq hrest ha hb
      have hih := ih (by rw [hrest]; exact Nat.zero_le 1) ha hb
      constructor
      · intro h
        have htotal := h.length_eq
        rw [List.length_append, List.length_append] at htotal
        obtain ⟨hfirst, hsecond⟩ := (forall₂_append_iff (by omega)).1 h
        exact ⟨hfirst, hih.1 hsecond⟩
      · rintro ⟨hfirst, hsecond⟩
        exact (forall₂_append_iff hfirst.length_eq).2 ⟨hfirst, hih.2 hsecond⟩

/-! ## One node in one of several slots -/

/-- The record that holds a node wherever it must, and in one slot besides. -/
def single (table : FieldTable) (x : NodeId) (slot : FieldSpec) : Fields :=
  table.map (fun e => (e.name, e.type.sample x (e == slot)))

variable {x : NodeId} {slot : FieldSpec}

theorem takes_single (h : table.Distinct) {e : FieldSpec} (he : e ∈ table) :
    e.type.Takes (Fields.read (table.single x slot) e.name)
      (List.replicate (e.type.room (e == slot)) x) := by
  rw [single, read_map_of_mem h (fun e => e.type.sample x (e == slot)) he]
  exact FieldType.takes_sample x e.type (e == slot)

theorem fits_single (h : table.Distinct) : table.fits (table.single x slot) = true :=
  fits_iff_takes.2 (fun _ he => ⟨_, takes_single h he⟩)

theorem nodesOf_single (h : table.Distinct) {e : FieldSpec} (he : e ∈ table) :
    e.type.nodesOf (Fields.read (table.single x slot) e.name) =
      List.replicate (e.type.room (e == slot)) x :=
  (FieldType.takes_iff.1 (takes_single h he)).2

theorem children_single (h : table.Distinct) : table.children (table.single x slot) =
    List.replicate (table.map (fun e => e.type.room (e == slot))).sum x := by
  rw [children, List.eq_replicate_iff]
  constructor
  · rw [List.length_flatMap]
    congr 1
    exact List.map_congr_left (fun e he => by rw [nodesOf_single h he, List.length_replicate])
  · intro y hy
    obtain ⟨e, he, hmem⟩ := List.mem_flatMap.1 hy
    rw [nodesOf_single h he] at hmem
    exact List.eq_of_mem_replicate hmem

theorem sum_room (h : table.Distinct) (hslot : slot ∈ table.elastic) :
    (table.map (fun e => e.type.room (e == slot))).sum = (table.map (fun e => e.type.room false)).sum + 1 := by
  induction table with
  | nil => cases hslot
  | cons e rest ih =>
    obtain ⟨hmem, helastic⟩ := List.mem_filter.1 hslot
    rw [List.map_cons, List.map_cons, List.sum_cons, List.sum_cons]
    by_cases he : e = slot
    · subst he
      have hrest : rest.map (fun d => d.type.room (d == e)) = rest.map (fun d => d.type.room false) := by
        refine List.map_congr_left (fun d hd => ?_)
        rw [beq_false_of_ne (fun heq => h.name_ne d hd (congrArg FieldSpec.name heq.symm))]
      rw [hrest, beq_self_eq_true, FieldType.room_of_elastic helastic, FieldType.room_of_elastic helastic,
        Bool.toNat_true, Bool.toNat_false]
      omega
    · have hrest : slot ∈ elastic rest :=
        List.mem_filter.2 ⟨(List.mem_cons.1 hmem).resolve_left (Ne.symm he), helastic⟩
      rw [ih h.tail hrest, beq_false_of_ne he]
      omega

theorem stores_single (h : table.Distinct) (hplain : table.Plain) : table.Stores (table.single x slot) :=
  .of_plain hplain (fits_single h)

/-- Such a record is stored as it is. -/
theorem mapNodes_single (h : table.Distinct) (hplain : table.Plain) :
    table.mapNodes .node (table.single x slot) = table.single x slot := by
  rw [(stores_single h hplain).mapNodes_eq, listed]
  refine List.map_congr_left (fun e he => ?_)
  rw [single, read_map_of_mem h (fun e => e.type.sample x (e == slot)) he]

/-- No scalar tells the slot. -/
theorem sameScalars_single (h : table.Distinct) (x : NodeId) (d e : FieldSpec) :
    table.sameScalars (table.single x d) (table.single x e) = true := by
  rw [sameScalars_iff (sameScalars_self_of_fits (fits_single h))]
  refine List.map_congr_left (fun c hc => ?_)
  obtain ⟨hmem, hscalar⟩ := List.mem_filter.1 hc
  rw [single, single, read_map_of_mem h (fun e' => e'.type.sample x (e' == d)) hmem,
    read_map_of_mem h (fun e' => e'.type.sample x (e' == e)) hmem]
  exact FieldType.sample_of_isScalar hscalar x _ _

/-- Nor does the list of nodes. -/
theorem children_single_eq (h : table.Distinct) (x : NodeId) {d e : FieldSpec} (hd : d ∈ table.elastic)
    (he : e ∈ table.elastic) : table.children (table.single x d) = table.children (table.single x e) := by
  rw [children_single h, children_single h, sum_room h hd, sum_room h he]

/-- An elastic slot holds the node, or nothing. -/
theorem nodesOf_single_of_elastic (h : table.Distinct) (x : NodeId) (slot : FieldSpec) {e : FieldSpec}
    (he : e ∈ table.elastic) : e.type.nodesOf (Fields.read (table.single x slot) e.name) =
      if e = slot then [x] else [] := by
  obtain ⟨hmem, helastic⟩ := List.mem_filter.1 he
  rw [nodesOf_single h hmem, FieldType.room_of_elastic helastic]
  by_cases heq : e = slot <;> simp [heq]

end FieldTable

end SyntaxForest
