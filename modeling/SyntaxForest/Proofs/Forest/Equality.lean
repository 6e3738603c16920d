import SyntaxForest.Proofs.Forest.Content
import SyntaxForest.Forest.Equality
/-!
# Equality is an equivalence

What equality looks at in a node are its facts: the kind, the numbers of the span and
the scalars. `equals_iff` says how two nodes of kinds are compared: they are one object
that is known to equal itself, or they have the same facts, a span without NaN, and
parts that are equal one by one. Where no span holds NaN, equality is sameness of the
trees of facts (`equals_iff_key`), whatever the representations are.
-/

namespace SyntaxForest

/-! ## Numbers and spans -/

theorem Number.eqv_iff {x y : Number} : x.eqv y = true ↔ x ≠ .nan ∧ x.rank? = y.rank? := by
  cases x <;> cases y <;> simp [eqv, compareBy, rank?]

namespace Span

variable {a b : Span}

/-- No part of the span is NaN. -/
def NaNFree (s : Span) : Prop := s.source ≠ .nan ∧ s.start ≠ .nan ∧ s.stop ≠ .nan

instance : DecidablePred NaNFree := fun s =>
  inferInstanceAs (Decidable (s.source ≠ .nan ∧ s.start ≠ .nan ∧ s.stop ≠ .nan))

/-- The numbers a span stands for; the two zeros are one number. -/
def ranks (s : Span) : List (Option Int) := [s.source.rank?, s.start.rank?, s.stop.rank?]

/-- Spans are equal when they stand for the same numbers and hold no NaN. -/
theorem eqv_iff : a.eqv b = true ↔ a.NaNFree ∧ a.ranks = b.ranks := by
  simp only [eqv, Bool.and_eq_true, Number.eqv_iff, NaNFree, ranks, List.cons.injEq, and_true]
  tauto

end Span

/-! ## Facts -/

/-- What equality looks at in a node of a kind, apart from its children. -/
structure Facts where
  kind : Kind
  ranks : List (Option Int)
  scalars : List Value

def Content.facts? : Content → Option Facts
  | .ofKind kind span outline => some ⟨kind, span.ranks, kind.table.scalars outline⟩
  | .byHand _ => none

/-- Facts tell the kind. -/
theorem Node.map_kind_facts? (n : Node) (id : NodeId) :
    (n.content id).facts?.map Facts.kind = n.kind? := by
  rcases n with ⟨_, _ | _ | _, _⟩ <;> rfl

theorem FieldTable.scalars_outline {table : FieldTable} (h : table.Distinct) (fields : Fields) :
    table.scalars (table.outline fields) = table.scalars fields := by
  refine List.map_congr_left (fun e he => ?_)
  obtain ⟨hmem, hscalar⟩ := List.mem_filter.1 he
  rw [outline, read_map_of_mem h _ hmem, FieldType.mapNodes_of_isScalar hscalar]

namespace Forest

variable {f g : Forest} {kinds : List Kind} {records more : List ValueRecord} {a b id : NodeId}

def facts? (f : Forest) (id : NodeId) : Option Facts := (f.content id).facts?

/-- The value record behind a wrapper. -/
def record? (f : Forest) (id : NodeId) : Option ValueRecord :=
  (f.node? id).bind (fun n => match n.shape with
    | .wrapped _ record => some record
    | _ => none)

theorem record?_of_node? {n : Node} (hn : f.node? id = some n) :
    f.record? id = match n.shape with
      | .wrapped _ record => some record
      | _ => none := by
  rw [record?, hn]
  rfl

/-- The record of a node can be stored again, a wrapped one if it fits the kind it is seen as. -/
theorem WellFormed.stores (declared : Declared kinds) (wf : WellFormed kinds f records) {id : NodeId} {n : Node}
    {k : Kind} (hn : f.node? id = some n) (hk : n.kind? = some k)
    (hfits : ∀ r, f.record? id = some r → k.table.fits r.fields = true) : k.table.Stores n.fields := by
  rw [record?_of_node? hn] at hfits
  cases wf.sound id n hn with
  | schema _ _ hstores =>
    cases hk
    exact hstores
  | wrapped _ _ hrecord =>
    cases hk
    exact (wf.stored _ hrecord).stores_of_fits declared (hfits _ rfl)
  | graph => cases hk

theorem span_of_node? {n : Node} (hn : f.node? id = some n) : f.span id = n.span := by
  rw [span, hn]
  rfl

theorem Extends.record?_eq (hf : f.Extends g) (hid : id.index < f.size) : g.record? id = f.record? id := by
  rw [record?, record?, hf.node?_eq hid]

/-- One object that is equal to itself without a look: a compact node, or a record seen
twice through one kind. -/
def Identical (f : Forest) (a b : NodeId) : Prop :=
  f.kind? a = f.kind? b ∧
    ((a = b ∧ ∃ k, f.kind? a = some k ∧ k.isCompact = true) ∨
      ∃ r, f.record? a = some r ∧ f.record? b = some r)

theorem Identical.symm (h : f.Identical a b) : f.Identical b a := by
  obtain ⟨hkind, ⟨rfl, hcompact⟩ | ⟨r, ha, hb⟩⟩ := h
  · exact ⟨rfl, .inl ⟨rfl, hcompact⟩⟩
  · exact ⟨hkind.symm, .inr ⟨r, hb, ha⟩⟩

/-! ## One level of a comparison -/

theorem isEqv_iff_forall₂ {α : Type} {eqv : α → α → Bool} {as bs : List α} :
    as.isEqv bs eqv = true ↔ List.Forall₂ (fun a b => eqv a b = true) as bs := by
  induction as generalizing bs with
  | nil => cases bs <;> simp [List.isEqv]
  | cons a as ih => cases bs <;> simp [List.isEqv, ih]

theorem forall₂_imp_mem {α β : Type} {R S : α → β → Prop} {as : List α} {bs : List β}
    (h : ∀ a ∈ as, ∀ b ∈ bs, R a b → S a b) (hR : List.Forall₂ R as bs) : List.Forall₂ S as bs := by
  induction hR with
  | nil => exact .nil
  | cons hab _ ih =>
    exact .cons (h _ (by simp) _ (by simp) hab)
      (ih (fun a ha b hb => h a (List.mem_cons_of_mem _ ha) b (List.mem_cons_of_mem _ hb)))

theorem forall₂_congr_mem {α β : Type} {R S : α → β → Prop} {as : List α} {bs : List β}
    (h : ∀ a ∈ as, ∀ b ∈ bs, (R a b ↔ S a b)) : List.Forall₂ R as bs ↔ List.Forall₂ S as bs :=
  ⟨forall₂_imp_mem (fun a ha b hb => (h a ha b hb).1), forall₂_imp_mem (fun a ha b hb => (h a ha b hb).2)⟩

theorem map_eq_map_iff_forall₂ {α β : Type} {g : α → β} {as bs : List α} :
    as.map g = bs.map g ↔ List.Forall₂ (fun a b => g a = g b) as bs := by
  rw [← List.forall₂_eq_eq_eq, List.forall₂_map_left_iff, List.forall₂_map_right_iff]

/-- Only nodes that have slots are compared by their children. -/
theorem kind?_of_ifChildren (h : f.agreement a b = .ifChildren) :
    (f.kind? a).isSome = true ∧ (f.kind? b).isSome = true := by
  unfold agreement at h
  split at h
  · next n m hn hm =>
    rw [kind?_of_node? hn, kind?_of_node? hm]
    split at h
    · next hx hy => exact ⟨by simp [Node.kind?, hx], by simp [Node.kind?, hy]⟩
    · split at h <;> cases h
    · split at h <;> cases h
    · cases h
  · cases h

theorem equalWithin_eq (wf : WellFormed kinds f records) {n m : Nat} (hn : a.index < n)
    (hm : a.index < m) : f.equalWithin n a b = f.equalWithin m a b := by
  induction n generalizing m a b with
  | zero => omega
  | succ n ih =>
    obtain ⟨m, rfl⟩ : ∃ k, m = k + 1 := ⟨m - 1, by omega⟩
    rw [equalWithin, equalWithin]
    rcases hag : f.agreement a b with _ | _ | _
    · rfl
    · rfl
    · have hparts : f.children a = f.parts a := children_eq_parts (kind?_of_ifChildren hag).1
      have hsteps : (f.children a).isEqv (f.children b) (f.equalWithin n) =
          (f.children a).isEqv (f.children b) (f.equalWithin m) := by
        rw [Bool.eq_iff_iff, isEqv_iff_forall₂, isEqv_iff_forall₂]
        refine forall₂_congr_mem (fun c hc d _ => ?_)
        have hlt := wf.index_lt (hparts ▸ hc)
        rw [ih (show c.index < n by omega) (show c.index < m by omega)]
      simp only [hsteps]

/-- Nodes agree by themselves, or as their children do. -/
theorem WellFormed.equals_eq_true_iff (wf : WellFormed kinds f records) (ha : a.index < f.size) :
    f.equals a b = true ↔ f.agreement a b = .equal ∨ f.agreement a b = .ifChildren ∧
      List.Forall₂ (fun c d => f.equals c d = true) (f.parts a) (f.parts b) := by
  obtain ⟨n, hn⟩ : ∃ n, f.size = n + 1 := ⟨f.size - 1, by omega⟩
  rw [equals, hn, equalWithin]
  rcases hag : f.agreement a b with _ | _ | _
  · simp
  · simp
  · obtain ⟨hka, hkb⟩ := kind?_of_ifChildren hag
    have hparts : List.Forall₂ (fun c d => f.equals c d = true) (f.parts a) (f.parts b) ↔
        List.Forall₂ (fun c d => f.equalWithin n c d = true) (f.parts a) (f.parts b) := by
      refine forall₂_congr_mem (fun c hc d _ => ?_)
      have hlt := wf.index_lt hc
      rw [equals, equalWithin_eq wf (show c.index < f.size by omega) (show c.index < n by omega)]
    simp only [reduceCtorEq, false_or, true_and, Bool.and_eq_true, beq_iff_eq, isEqv_iff_forall₂,
      children_eq_parts hka, children_eq_parts hkb, hparts]
    exact ⟨And.right, fun h => ⟨h.length_eq, h⟩⟩

theorem map_kind_facts? (f : Forest) (id : NodeId) : (f.facts? id).map Facts.kind = f.kind? id := by
  rcases hn : f.node? id with _ | n
  · rw [facts?, content, kind?, hn]
    rfl
  · rw [facts?, content_of_node? hn, kind?_of_node? hn, Node.map_kind_facts?]

/-- One object, or two nodes with the same facts, a span without NaN and parts that
compare as `parts` says. -/
def Comparison (f : Forest) (a b : NodeId) (parts : Prop) : Prop :=
  f.Identical a b ∨ (f.facts? a = f.facts? b ∧ (f.span a).NaNFree ∧ parts)

theorem Comparison.kind?_eq {parts : Prop} (h : f.Comparison a b parts) : f.kind? a = f.kind? b := by
  rcases h with ⟨hkind, -⟩ | ⟨hfacts, -⟩
  · exact hkind
  · rw [← f.map_kind_facts? a, ← f.map_kind_facts? b, hfacts]

theorem comparison_iff_of_facts {parts : Prop} (hfacts : f.facts? a = f.facts? b)
    (hother : ¬ f.Identical a b) : f.Comparison a b parts ↔ (f.span a).NaNFree ∧ parts := by
  rw [Comparison, or_iff_right hother, and_iff_right hfacts]

/-! ### Two nodes by their shapes -/

section Pairs

variable {k l : Kind} {fs gs : Fields} {r s : ValueRecord} {span span' : Span} {parent parent' : Option NodeId}

/-- The comparison of two records of declared kinds, read as one of facts. -/
theorem facts?_eq_iff (declared : Declared kinds) (hk : k ∈ kinds) (hl : l ∈ kinds)
    (hself : k.table.sameScalars fs fs = true) (ha : f.content a = .ofKind k span (k.table.outline fs))
    (hb : f.content b = .ofKind l span' (l.table.outline gs)) (hspan : f.span a = span) :
    f.facts? a = f.facts? b ∧ (f.span a).NaNFree ↔
      k.id = l.id ∧ span.eqv span' = true ∧ k.table.sameScalars fs gs = true := by
  rw [facts?, facts?, ha, hb, hspan, FieldTable.sameScalars_iff hself, Span.eqv_iff, Content.facts?,
    Content.facts?, FieldTable.scalars_outline (declared.distinct k hk),
    FieldTable.scalars_outline (declared.distinct l hl), Option.some.injEq, Facts.mk.injEq]
  constructor
  · rintro ⟨⟨rfl, hranks, hscalars⟩, hfree⟩
    exact ⟨rfl, ⟨hfree, hranks⟩, hscalars⟩
  · rintro ⟨hid, ⟨hfree, hranks⟩, hscalars⟩
    obtain rfl := declared.eq_of_id hk hl hid
    exact ⟨⟨rfl, hranks, hscalars⟩, hfree⟩

theorem agreement_schema_iff (declared : Declared kinds) (hk : k ∈ kinds) (hl : l ∈ kinds)
    (hself : k.table.sameScalars fs fs = true) (ha : f.node? a = some ⟨span, .schema k fs, parent⟩)
    (hb : f.node? b = some ⟨span', .schema l gs, parent'⟩) (parts : Prop) :
    f.agreement a b = .equal ∨ f.agreement a b = .ifChildren ∧ parts ↔ f.Comparison a b parts := by
  have hfacts := facts?_eq_iff declared hk hl hself (content_of_node? ha) (content_of_node? hb)
    (span_of_node? ha)
  have hidentical : f.Identical a b ↔ k.isCompact = true ∧ a = b := by
    rw [Identical, kind?_of_node? ha, kind?_of_node? hb, record?_of_node? ha]
    constructor
    · rintro ⟨-, ⟨hab, _, hk', hcompact⟩ | ⟨_, hr, -⟩⟩
      · cases hk'
        exact ⟨hcompact, hab⟩
      · cases hr
    · rintro ⟨hcompact, rfl⟩
      exact ⟨congrArg Node.kind? (Option.some.inj (ha.symm.trans hb)), .inl ⟨rfl, k, rfl, hcompact⟩⟩
  rw [Comparison, hidentical, ← and_assoc, hfacts, agreement, ha, hb]
  simp only [Bool.and_eq_true, beq_iff_eq, ← and_assoc]
  split
  · next hself => simp [hself]
  · next hother =>
    split
    · next hsame => simp [hother, hsame]
    · next hdiffer => simp [hother, hdiffer]

/-- Wrappers are compared without a look below them: there is nothing. -/
theorem agreement_wrapped_iff (declared : Declared kinds) (wf : WellFormed kinds f records) (hk : k ∈ kinds)
    (hl : l ∈ kinds) (hr : r ∈ records) (hs : s ∈ records)
    (ha : f.node? a = some ⟨r.span, .wrapped k r, parent⟩)
    (hb : f.node? b = some ⟨s.span, .wrapped l s, parent'⟩) {parts : Prop} (hparts : parts) :
    f.agreement a b = .equal ∨ f.agreement a b = .ifChildren ∧ parts ↔ f.Comparison a b parts := by
  have hkinds : k.id = l.id ↔ k = l := ⟨declared.eq_of_id hk hl, congrArg Kind.id⟩
  have hrecords : r.id = s.id ↔ r = s := ⟨wf.identified r hr s hs, congrArg ValueRecord.id⟩
  have hself := (wf.stored r hr).sameScalars_self declared k.table
  have hfacts := facts?_eq_iff declared hk hl hself (content_of_node? ha) (content_of_node? hb)
    (span_of_node? ha)
  have hidentical : f.Identical a b ↔ k = l ∧ r = s := by
    rw [Identical, kind?_of_node? ha, kind?_of_node? hb, record?_of_node? ha, record?_of_node? hb]
    constructor
    · rintro ⟨hkl, ⟨rfl, -⟩ | ⟨_, hr, hs⟩⟩
      · obtain ⟨-, ⟨-, hrs⟩, -⟩ := by simpa using ha.symm.trans hb
        exact ⟨Option.some.inj hkl, hrs⟩
      · exact ⟨Option.some.inj hkl, (Option.some.inj hr).trans (Option.some.inj hs).symm⟩
    · rintro ⟨rfl, rfl⟩
      exact ⟨rfl, .inr ⟨r, rfl, rfl⟩⟩
  have hagree : (k.id == l.id && k.sameRecord r s) = true ↔ k = l ∧ r = s ∨
      k.id = l.id ∧ r.span.eqv s.span = true ∧ k.table.sameScalars r.fields s.fields = true := by
    simp only [Kind.sameRecord, Bool.and_eq_true, Bool.or_eq_true, beq_iff_eq, hkinds, hrecords]
    exact and_or_left
  rw [Comparison, hidentical, ← and_assoc, hfacts, and_iff_left hparts, and_iff_left hparts, ← hagree,
    agreement, ha, hb]
  simp only
  split
  · next hsame => simp [hsame]
  · next hdiffer => simp [hdiffer]

/-- A node of a value kind is a wrapper, and one of another kind is not. -/
theorem agreement_mixed_iff (hkind : f.kind? a ≠ f.kind? b) (hag : f.agreement a b = .unequal) (parts : Prop) :
    f.agreement a b = .equal ∨ f.agreement a b = .ifChildren ∧ parts ↔ f.Comparison a b parts := by
  rw [hag]
  exact iff_of_false (by simp) (fun h => hkind h.kind?_eq)

end Pairs

/-- How nodes of kinds are compared. -/
theorem WellFormed.equals_iff (declared : Declared kinds) (wf : WellFormed kinds f records)
    (ha : (f.kind? a).isSome = true) (hb : (f.kind? b).isSome = true) :
    f.equals a b = true ↔
      f.Comparison a b (List.Forall₂ (fun c d => f.equals c d = true) (f.parts a) (f.parts b)) := by
  rw [wf.equals_eq_true_iff (lt_size_of_kind? ha)]
  obtain ⟨n, hn⟩ := exists_node?_of_lt (lt_size_of_kind? ha)
  obtain ⟨m, hm⟩ := exists_node?_of_lt (lt_size_of_kind? hb)
  rw [kind?_of_node? hn] at ha
  rw [kind?_of_node? hm] at hb
  -- the kinds of a wrapper and of a node with slots differ in their strategies
  have hmixed : n.kind? ≠ m.kind? → f.agreement a b = .unequal → _ := fun hkind hag =>
    agreement_mixed_iff (f := f) (a := a) (b := b)
      (by rwa [kind?_of_node? hn, kind?_of_node? hm]) hag
  cases wf.sound a n hn with
  | schema hk hvalue hstores =>
    cases wf.sound b m hm with
    | schema hl =>
      exact agreement_schema_iff declared hk hl (FieldTable.sameScalars_self_of_fits hstores.fits) hn hm _
    | wrapped _ hvalue' =>
      refine hmixed (fun h => ?_) (by rw [agreement, hn, hm]) _
      cases h
      exact hvalue hvalue'
    | graph => cases hb
  | wrapped hk hvalue hr =>
    cases wf.sound b m hm with
    | schema _ hvalue' =>
      refine hmixed (fun h => ?_) (by rw [agreement, hn, hm]) _
      cases h
      exact hvalue' hvalue
    | wrapped hl _ hs =>
      refine agreement_wrapped_iff declared wf hk hl hr hs hn hm ?_
      rw [parts_of_node? hn, parts_of_node? hm]
      exact .nil
    | graph => cases hb
  | graph => cases ha

/-- Equality is settled once the nodes are there. -/
theorem Extends.equals_eq (hf : f.Extends g) (wf : WellFormed kinds f records)
    (wg : WellFormed kinds g more) (ha : f.SchemaDefined a) (hb : f.SchemaDefined b) :
    g.equals a b = f.equals a b := by
  rw [Bool.eq_iff_iff]
  refine SchemaDefined.induct wf
    (P := fun a => ∀ b, f.SchemaDefined b → (g.equals a b = true ↔ f.equals a b = true))
    (fun a ha ih b hb => ?_) ha b hb
  have hagree : g.agreement a b = f.agreement a b := by
    rw [agreement, agreement, hf.node?_eq ha.lt_size, hf.node?_eq hb.lt_size]
  rw [wg.equals_eq_true_iff (hf.schemaDefined ha).lt_size, wf.equals_eq_true_iff ha.lt_size, hagree,
    hf.parts_eq ha.lt_size, hf.parts_eq hb.lt_size]
  exact or_congr_right (and_congr_right (fun _ =>
    forall₂_congr_mem (fun c hc d hd => ih c hc d (hb.part hd))))

/-! ## Equality by facts -/

/-- Nodes of different kinds are never equal. -/
theorem WellFormed.equals_of_kind?_ne (declared : Declared kinds) (wf : WellFormed kinds f records)
    (ha : (f.kind? a).isSome = true) (hb : (f.kind? b).isSome = true) (h : f.kind? a ≠ f.kind? b) :
    f.equals a b = false := by
  rw [Bool.eq_false_iff, Ne, wf.equals_iff declared ha hb]
  exact fun hequal => h hequal.kind?_eq

/-- What equality compares: the facts of a node and of everything below it. -/
def key (f : Forest) : NodeId → Tree (Option Facts) := f.sketch f.facts?

/-- Keys agree when the facts on top and the keys of the parts do. -/
theorem WellFormed.key_eq_iff (wf : WellFormed kinds f records) (ha : a.index < f.size)
    (hb : b.index < f.size) : f.key a = f.key b ↔ f.facts? a = f.facts? b ∧
      List.Forall₂ (fun c d => f.key c = f.key d) (f.parts a) (f.parts b) := by
  rw [← map_eq_map_iff_forall₂, ← Tree.node.injEq]
  rw [key, wf.sketch_eq _ ha, wf.sketch_eq _ hb]

theorem parts_of_record? {r : ValueRecord} (h : f.record? a = some r) : f.parts a = [] := by
  rcases hn : f.node? a with _ | n
  · rw [parts, hn]
    rfl
  · rw [record?_of_node? hn] at h
    rw [parts_of_node? hn, Node.parts]
    rcases n with ⟨_, _ | _ | _, _⟩ <;> simp_all

/-- A record seen twice through one kind shows the same facts. -/
theorem WellFormed.facts?_eq_of_record? (wf : WellFormed kinds f records) {r : ValueRecord}
    (hkind : f.kind? a = f.kind? b) (ha : f.record? a = some r) (hb : f.record? b = some r) :
    f.facts? a = f.facts? b := by
  rcases hn : f.node? a with _ | n
  · simp [record?, hn] at ha
  · rcases hm : f.node? b with _ | m
    · simp [record?, hm] at hb
    · rw [record?_of_node? hn] at ha
      rw [record?_of_node? hm] at hb
      rw [kind?_of_node? hn, kind?_of_node? hm] at hkind
      rw [facts?, facts?, content_of_node? hn, content_of_node? hm]
      cases wf.sound a n hn <;> cases wf.sound b m hm <;>
        simp_all [Node.kind?, Node.content, Content.facts?]

theorem Identical.key_eq (wf : WellFormed kinds f records) (ha : a.index < f.size)
    (hb : b.index < f.size) (h : f.Identical a b) : f.key a = f.key b := by
  obtain ⟨hkind, ⟨rfl, -⟩ | ⟨r, hra, hrb⟩⟩ := h
  · rfl
  · rw [key, wf.sketch_eq _ ha, wf.sketch_eq _ hb, wf.facts?_eq_of_record? hkind hra hrb,
      parts_of_record? hra, parts_of_record? hrb]

/-- No span in a structure holds NaN. -/
def NaNFree (f : Forest) (id : NodeId) : Prop := ∀ n, f.Reaches id n → (f.span n).NaNFree

/-- Equal nodes have the same facts all the way down, whatever their spans are. -/
theorem WellFormed.key_eq_of_equals (declared : Declared kinds) (wf : WellFormed kinds f records)
    (ha : f.SchemaDefined a) (hb : f.SchemaDefined b) (h : f.equals a b = true) : f.key a = f.key b := by
  refine SchemaDefined.induct wf
    (P := fun a => ∀ b, f.SchemaDefined b → f.equals a b = true → f.key a = f.key b)
    (fun a ha ih b hb h => ?_) ha b hb h
  rcases (wf.equals_iff declared ha.isSome hb.isSome).1 h with hidentical | ⟨hfacts, -, hbelow⟩
  · exact hidentical.key_eq wf ha.lt_size hb.lt_size
  · refine (wf.key_eq_iff ha.lt_size hb.lt_size).2 ⟨hfacts, ?_⟩
    exact forall₂_imp_mem (fun c hc d hd hcd => ih c hc d (hb.part hd) hcd) hbelow

/-- Without NaN in spans, equality is sameness of facts all the way down. -/
theorem WellFormed.equals_iff_key (declared : Declared kinds) (wf : WellFormed kinds f records)
    (ha : f.SchemaDefined a) (hfree : f.NaNFree a) (hb : f.SchemaDefined b) :
    f.equals a b = true ↔ f.key a = f.key b := by
  refine ⟨wf.key_eq_of_equals declared ha hb, ?_⟩
  refine SchemaDefined.induct wf
    (P := fun a => f.NaNFree a → ∀ b, f.SchemaDefined b → f.key a = f.key b → f.equals a b = true)
    (fun a ha ih hfree b hb h => ?_) ha hfree b hb
  obtain ⟨hfacts, hbelow⟩ := (wf.key_eq_iff ha.lt_size hb.lt_size).1 h
  refine (wf.equals_iff declared ha.isSome hb.isSome).2 (.inr ⟨hfacts, hfree a .refl, ?_⟩)
  exact forall₂_imp_mem (fun c hc d hd hcd =>
    ih c hc (fun n hn => hfree n (.head (ha.holds hc) hn)) d (hb.part hd) hcd) hbelow

/-- The nodes whose equality is decided by what they say: schema-defined structures
without NaN in a span. -/
def Comparable (f : Forest) : Type := {n : NodeId // f.SchemaDefined n ∧ f.NaNFree n}

end Forest

/-- Equality is an equivalence on schema-defined structures of any mix of strategies, with
shared parts or without, as long as no span holds NaN; and nodes of different kinds are
never equal. -/
theorem equals_is_an_equivalence {kinds : List Kind} {f : Forest} (declared : Declared kinds)
    (grown : f.Grown kinds) :
    Equivalence (fun a b : f.Comparable => f.equals a.1 b.1 = true) ∧
      ∀ a b, f.SchemaDefined a → f.SchemaDefined b → f.kind? a ≠ f.kind? b → f.equals a b = false := by
  obtain ⟨_, wf⟩ := grown.wellFormed declared
  have hkey : ∀ a b : f.Comparable, f.equals a.1 b.1 = true ↔ f.key a.1 = f.key b.1 :=
    fun a b => wf.equals_iff_key declared a.2.1 a.2.2 b.2.1
  refine ⟨?_, fun a b ha hb hne => wf.equals_of_kind?_ne declared ha.isSome hb.isSome hne⟩
  simp only [hkey]
  exact ⟨fun _ => rfl, Eq.symm, Eq.trans⟩

/-- Up to the items, the mixed forest has nodes of kinds only, and no NaN in a span. -/
theorem Mixed.comparable {a : NodeId} (ha : a.index ≤ 4) : forest.SchemaDefined a ∧ forest.NaNFree a := by
  obtain ⟨_, wf⟩ := grown.wellFormed declared
  have hkinds : ∀ n : NodeId, n.index ≤ 4 → (forest.kind? n).isSome = true := by
    rintro ⟨i⟩ hi
    exact (by decide : ∀ i ≤ 4, (forest.kind? ⟨i⟩).isSome = true) i hi
  have hspans : ∀ n : NodeId, n.index ≤ 4 → (forest.span n).NaNFree := by
    rintro ⟨i⟩ hi
    exact (by decide +kernel : ∀ i ≤ 4, (forest.span ⟨i⟩).NaNFree) i hi
  have hbelow : ∀ n, forest.Reaches a n → n.index ≤ 4 := fun n hn =>
    (wf.index_le_of_reaches (fun m hm => hkinds m (hm.trans ha)) hn).trans ha
  exact ⟨fun n hn => hkinds n (hbelow n hn), fun n hn => hspans n (hbelow n hn)⟩

/-- The two items say the same and hold the same nodes, but their kinds come from different
registries. -/
theorem Mixed.items_are_unequal : Equivalence (fun a b : forest.Comparable => forest.equals a.1 b.1 = true) ∧
    (∃ a : forest.Comparable, a.1 = ⟨3⟩) ∧ (∃ b : forest.Comparable, b.1 = ⟨4⟩) ∧
    forest.equals ⟨3⟩ ⟨4⟩ = false := by
  obtain ⟨hequivalence, hkind⟩ := equals_is_an_equivalence declared grown
  have h3 := @comparable ⟨3⟩ (by decide)
  have h4 := @comparable ⟨4⟩ (by decide)
  have hne : forest.kind? ⟨3⟩ ≠ forest.kind? ⟨4⟩ := fun h =>
    absurd (congrArg (Option.map Kind.id) h) (by decide)
  exact ⟨hequivalence, ⟨⟨⟨3⟩, h3⟩, rfl⟩, ⟨⟨⟨4⟩, h4⟩, rfl⟩, hkind _ _ h3.1 h4.1 hne⟩

end SyntaxForest
