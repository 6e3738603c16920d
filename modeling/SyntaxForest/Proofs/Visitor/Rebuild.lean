import SyntaxForest.Proofs.Forest.Content
import SyntaxForest.Visitor.Transform
/-!
# Rebuilding a node from answers

What `Forest.mapChildren` does when every answer is a node: it keeps a node whose
answers are all the children themselves, and otherwise makes a new node of the same
content, in which each child is replaced by the last answer for it that is another
node, `lastOther`.
-/

namespace SyntaxForest

/-- Every child beside the node it was answered with. -/
def answered (results : List (NodeId × NodeId)) : List (NodeId × Value) :=
  results.map (fun p => (p.1, .node p.2))

/-- The answers that differ from their child. -/
def differing (results : List (NodeId × NodeId)) : List (NodeId × Value) :=
  (answered results).filter (fun a => !a.2.same (.node a.1))

theorem mem_differing {results : List (NodeId × NodeId)} {c : NodeId} {v : Value} :
    (c, v) ∈ differing results ↔ ∃ b, v = .node b ∧ b ≠ c ∧ (c, b) ∈ results := by
  constructor
  · intro h
    obtain ⟨hmem, hdiffers⟩ := List.mem_filter.1 h
    obtain ⟨⟨a, b⟩, hab, heq⟩ := List.mem_map.1 hmem
    cases heq
    exact ⟨b, rfl, by simpa [Value.same] using hdiffers, hab⟩
  · rintro ⟨b, rfl, hne, hmem⟩
    exact List.mem_filter.2 ⟨List.mem_map.2 ⟨(c, b), hmem, rfl⟩, by simpa [Value.same] using hne⟩

theorem isEmpty_differing {results : List (NodeId × NodeId)} :
    (differing results).isEmpty = true ↔ ∀ p ∈ results, p.2 = p.1 := by
  rw [List.isEmpty_iff, List.eq_nil_iff_forall_not_mem]
  constructor
  · intro hnone p hp
    by_contra hne
    exact hnone (p.1, .node p.2) (mem_differing.2 ⟨p.2, rfl, hne, hp⟩)
  · rintro hall ⟨c, v⟩ hv
    obtain ⟨b, -, hne, hb⟩ := mem_differing.1 hv
    exact hne (hall (c, b) hb)

/-! ## The last answer that is another node -/

def lastOther? (results : List (NodeId × NodeId)) (child : NodeId) : Option NodeId :=
  (results.reverse.find? (fun p => p.1 == child && p.2 != child)).map (·.2)

/-- The last answer for a child that is another node; the child itself if there is none. -/
def lastOther (results : List (NodeId × NodeId)) (child : NodeId) : NodeId :=
  (lastOther? results child).getD child

theorem lastAnswer?_differing (results : List (NodeId × NodeId)) (child : NodeId) :
    lastAnswer? (differing results) child = (lastOther? results child).map .node := by
  have hdiffers : (fun p : NodeId × NodeId => !(Value.node p.2).same (.node p.1) && p.1 == child) =
      fun p => p.1 == child && p.2 != child := by
    funext p
    by_cases hp : p.1 = child
    · simp [Value.same, bne, hp]
    · simp [beq_eq_false_iff_ne.2 hp]
  rw [lastAnswer?, differing, answered, ← List.filter_reverse, ← List.map_reverse, List.filter_map,
    List.find?_map, List.find?_filter, lastOther?]
  simp only [Function.comp_def, Bool.decide_and, Bool.decide_eq_true, hdiffers, Option.map_map]

theorem replacement_differing (results : List (NodeId × NodeId)) (child : NodeId) :
    replacement (differing results) child = .node (lastOther results child) := by
  rw [replacement, lastAnswer?_differing, lastOther]
  rcases lastOther? results child with _ | r <;> rfl

/-- No answer for a child is another node, or the last one that is. -/
theorem lastOther_cases {results : List (NodeId × NodeId)} (child : NodeId) :
    (∀ p ∈ results, p.1 = child → p.2 = child) ∧ lastOther results child = child ∨
      ∃ p ∈ results, p.1 = child ∧ lastOther results child = p.2 := by
  rcases hfind : results.reverse.find? (fun p => p.1 == child && p.2 != child) with _ | p
  · refine .inl ⟨fun p hp hchild => ?_, by rw [lastOther, lastOther?, hfind]; rfl⟩
    have hnone := List.find?_eq_none.1 hfind p (List.mem_reverse.2 hp)
    simpa [hchild] using hnone
  · have hchild := List.find?_some hfind
    simp only [Bool.and_eq_true, beq_iff_eq] at hchild
    exact .inr ⟨p, List.mem_reverse.1 (List.mem_of_find?_eq_some hfind), hchild.1,
      by rw [lastOther, lastOther?, hfind]; rfl⟩

/-- What stands for a child is one of the answers for it. -/
theorem mem_lastOther {results : List (NodeId × NodeId)} {child : NodeId}
    (h : child ∈ results.map (·.1)) : (child, lastOther results child) ∈ results := by
  rcases @lastOther_cases results child with ⟨hsame, hlast⟩ | ⟨⟨c, r⟩, hp, rfl, hlast⟩
  · obtain ⟨⟨c, r⟩, hp, rfl⟩ := List.mem_map.1 h
    obtain rfl : r = c := hsame _ hp rfl
    rwa [hlast]
  · rwa [hlast]

namespace Forest

variable {f : Forest} {kinds : List Kind}

/-- Rebuilding a node from nodes keeps it, or builds a copy in which the last other answer
stands for each child. -/
theorem exec_mapChildren_eq {kind : Kind} {fields : Fields} (h : kind.table.Distinct)
    (hstores : kind.table.Stores fields) (results : List (NodeId × NodeId)) (id : NodeId) (span : Span)
    (f : Forest) : (mapChildren kind id span fields (answered results)).exec f =
      if ∀ p ∈ results, p.2 = p.1 then (.ok id, f)
      else (build kind span (kind.table.mapNodes (fun c => .node (lastOther results c)) fields)).exec f := by
  have hchanged : (answered results).filter (fun a => !a.2.same (.node a.1)) = differing results := rfl
  have hplace : replacement (differing results) = fun c => .node (lastOther results c) :=
    funext (replacement_differing results)
  rw [mapChildren]
  simp only [hchanged, isEmpty_differing, hplace]
  split
  · rfl
  · exact exec_checked_of_fits (hstores.mapNodes h (lastOther results)).fits _ f

/-- Rebuilding a node from nodes never fails. -/
theorem exec_mapChildren (declared : Declared kinds) (hf : f.Grown kinds) {kind : Kind} {fields : Fields}
    (hkind : kind ∈ kinds) (hvalue : kind.strategy ≠ .value) (hstores : kind.table.Stores fields)
    {results : List (NodeId × NodeId)} (hresults : results.map (·.1) = kind.table.children fields)
    (hheld : ∀ p ∈ results, p.2.index < f.size) (id : NodeId) (span : Span) :
    ((mapChildren kind id span fields (answered results)).exec f = (.ok id, f) ∧ ∀ p ∈ results, p.2 = p.1) ∨
    (∃ p ∈ results, p.2 ≠ p.1) ∧ ∃ (r : NodeId → NodeId) (g : Forest),
      (mapChildren kind id span fields (answered results)).exec f = (.ok ⟨f.size⟩, g) ∧
      (∀ c ∈ kind.table.children fields, (c, r c) ∈ results) ∧
      Adds kinds f g (.ofKind kind span (kind.table.outline fields)) ((kind.table.children fields).map r) := by
  have hdistinct := declared.distinct kind hkind
  rw [exec_mapChildren_eq hdistinct hstores]
  by_cases hsame : ∀ p ∈ results, p.2 = p.1
  · exact .inl ⟨if_pos hsame, hsame⟩
  · have hchildren := FieldTable.children_mapNodes hdistinct (lastOther results) fields
    have hanswer : ∀ c ∈ kind.table.children fields, (c, lastOther results c) ∈ results :=
      fun c hc => mem_lastOther (hresults ▸ hc)
    have hold : ∀ d ∈ (kind.table.children fields).map (lastOther results), d.index < f.size := by
      intro d hd
      obtain ⟨c, hc, rfl⟩ := List.mem_map.1 hd
      exact hheld _ (hanswer c hc)
    obtain ⟨g, hbuild, adds⟩ := hf.exec_build declared hkind hvalue (hchildren.symm ▸ hold)
      (hstores.mapNodes hdistinct _) span
    rw [hchildren, hstores.keeps.outline_mapNodes hdistinct] at adds
    exact .inr ⟨by simpa using hsame, lastOther results, g, (if_neg hsame).trans hbuild, hanswer, adds⟩

end Forest

end SyntaxForest
