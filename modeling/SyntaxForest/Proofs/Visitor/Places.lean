import SyntaxForest.Proofs.Visitor.Rebuild
/-!
# What stands in each place of a rebuilt node

`transformChildren` asks for an answer per place, left to right, so that a visitor may
answer differently for one child held in several places. The answers are kept by child:
the rebuilt node holds in every place of a child the last answer for it that is another
node, `lastOther`. `answers_are_kept_by_child` says so for every visitor, and that the
places get their own answers exactly if no two answers for one child disagree.
-/

namespace SyntaxForest

variable {σ : Type}

/-- The visits of nodes, one after the other, each giving a node. Whatever else a visit
does to the world is left to it. -/
inductive VisitsEach (visit : Visit σ) : World σ → List (NodeId × NodeId) → World σ → Prop
  | nil {w : World σ} : VisitsEach visit w [] w
  | cons {w v u : World σ} {c r rest} : (visit c).exec w = (.ok (.node r), v) → VisitsEach visit v rest u →
      VisitsEach visit w ((c, r) :: rest) u

theorem VisitsEach.exec_mapM {visit : Visit σ} {w v : World σ} {results : List (NodeId × NodeId)}
    (h : VisitsEach visit w results v) {ids : List NodeId} (hids : results.map (·.1) = ids) :
    (ids.mapM (fun c => do return (c, ← visit c))).exec w = (.ok (answered results), v) := by
  subst hids
  induction h with
  | nil => rfl
  | cons hvisit _ ih =>
    rw [List.map_cons, Act.exec_mapM_cons, Act.exec_bind, hvisit]
    simp only [Act.exec_pure, ih]
    rfl

/-- Every place has its own answer exactly if no two answers for one child disagree. -/
theorem map_lastOther_eq_iff {results : List (NodeId × NodeId)} :
    results.map (fun p => lastOther results p.1) = results.map (·.2) ↔
      ∀ p ∈ results, ∀ q ∈ results, p.1 = q.1 → p.2 = q.2 := by
  rw [List.map_inj_left]
  constructor
  · intro h p hp q hq heq
    rw [← h p hp, ← h q hq, heq]
  · intro agree p hp
    rcases @lastOther_cases results p.1 with ⟨hsame, hlast⟩ | ⟨q, hq, hchild, hlast⟩
    · rw [hlast, hsame p hp rfl]
    · rw [hlast, agree q hq p hp hchild]

/-! ## Transforming the children of a node -/

variable {kinds : List Kind} {w v : World σ}

/-- The children of a schema node are visited in order, and the node is rebuilt once. -/
theorem VisitsEach.exec_transformChildren {visit : Visit σ} {results : List (NodeId × NodeId)}
    (hvisits : VisitsEach visit w results v) {id : NodeId} {span : Span} {kind : Kind} {fields : Fields}
    {parent : Option NodeId} (hnode : w.forest.node? id = some ⟨span, .schema kind fields, parent⟩)
    (hchildren : results.map (·.1) = w.forest.children id) :
    (transformChildren visit id).exec w =
      (Act.onForest (Forest.mapChildren kind id span fields (answered results))).exec v := by
  rw [transformChildren, Act.exec_bind, show Act.forest.exec w = (.ok w.forest, w) from rfl]
  simp only [hnode, Act.exec_bind, hvisits.exec_mapM hchildren]

/-- Transforming the children of a node visits them once for each place, in order. If all
answers are the children themselves, the node is given back. Otherwise there is one new
node of the same kind and span and with the same values in all fields that hold no nodes;
in the place of each child stands the last answer for it that is another node. The places
hold their own answers exactly if the answers for one child agree. -/
theorem answers_are_kept_by_child (declared : Declared kinds) (hgrown : w.forest.Grown kinds)
    {id : NodeId} {span : Span} {kind : Kind} {fields : Fields} {parent : Option NodeId}
    (hnode : w.forest.node? id = some ⟨span, .schema kind fields, parent⟩) {visit : Visit σ}
    {results : List (NodeId × NodeId)} (hvisits : VisitsEach visit w results v)
    (hchildren : results.map (·.1) = w.forest.children id) :
    ((∀ p ∈ results, p.2 = p.1) → (transformChildren visit id).exec w = (.ok id, v)) ∧
    ((∃ p ∈ results, p.2 ≠ p.1) → ∃ record,
      (transformChildren visit id).exec w = (.ok ⟨v.forest.size⟩,
        { v with forest := (v.forest.add ⟨span, .schema kind record, none⟩).2 }) ∧
      kind.table.outline record = kind.table.outline fields ∧
      kind.table.children record = results.map (fun p => lastOther results p.1) ∧
      (kind.table.children record = results.map (·.2) ↔
        ∀ p ∈ results, ∀ q ∈ results, p.1 = q.1 → p.2 = q.2)) := by
  obtain ⟨_, wf⟩ := hgrown.wellFormed declared
  obtain ⟨hkind, hstores⟩ : kind ∈ kinds ∧ kind.table.Stores fields := by
    cases wf.sound id _ hnode with
    | schema hkind _ hstores _ => exact ⟨hkind, hstores⟩
  have hdistinct := declared.distinct kind hkind
  have hresults : results.map (·.1) = kind.table.children fields := by
    rw [hchildren, Forest.children_eq_parts (by rw [Forest.kind?_of_node? hnode]; rfl),
      Forest.parts_of_node? hnode]
    rfl
  have hrun := hvisits.exec_transformChildren hnode hchildren
  rw [Act.onForest, Act.exec_onPart, Forest.exec_mapChildren_eq hdistinct hstores] at hrun
  have hplaced : kind.table.children (kind.table.mapNodes (fun c => .node (lastOther results c)) fields) =
      results.map (fun p => lastOther results p.1) := by
    rw [FieldTable.children_mapNodes hdistinct, ← hresults, List.map_map]
    rfl
  refine ⟨fun hsame => ?_, fun ⟨p, hp, hne⟩ => ?_⟩
  · rw [hrun, if_pos hsame]
  · refine ⟨kind.table.mapNodes (fun c => .node (lastOther results c)) fields, ?_,
      hstores.keeps.outline_mapNodes hdistinct _, hplaced, by rw [hplaced, map_lastOther_eq_iff]⟩
    rw [hrun, if_neg (fun hsame => hne (hsame p hp)),
      Forest.exec_build_of_stores hdistinct (hstores.mapNodes hdistinct _),
      hstores.keeps.mapNodes_mapNodes hdistinct]

namespace Mixed

/-- A visitor that has a literal replaced by a size when it comes to it for the first
time, and leaves everything else. -/
def replaceOnce : Visit Bool := fun c => Act.ofStep (fun w =>
  if c = ⟨0⟩ ∧ w.host = false then (.ok (.node ⟨1⟩), { w with host := true }) else (.ok (.node c), w))

def answers : List (NodeId × NodeId) := [(⟨0⟩, ⟨1⟩), (⟨1⟩, ⟨1⟩), (⟨2⟩, ⟨2⟩), (⟨0⟩, ⟨0⟩)]

theorem replaced_once : VisitsEach replaceOnce { forest, host := false } answers { forest, host := true } :=
  .cons rfl (.cons rfl (.cons rfl (.cons rfl .nil)))

/-- The record made for the item: the size stands in both places of the literal. -/
theorem literal_is_replaced : ∃ record,
    (transformChildren replaceOnce ⟨3⟩).exec { forest, host := false } = (.ok ⟨7⟩,
      { forest := (forest.add ⟨span 0 4, .schema (item 0) record, none⟩).2, host := true }) ∧
    (item 0).table.children record = answers.map (fun p => lastOther answers p.1) := by
  have hnode : forest.node? ⟨3⟩ = some ⟨span 0 4, .schema (item 0) (list .null [0, 1, 2, 0]), none⟩ := rfl
  obtain ⟨record, hrun, -, hchildren, -⟩ :=
    (answers_are_kept_by_child declared grown hnode replaced_once (by decide)).2
      ⟨(⟨0⟩, ⟨1⟩), by decide, by decide⟩
  exact ⟨record, hrun, hchildren⟩

/-- The visitor gave the literal back where it came to it again, and the size stands there
all the same. -/
theorem second_answer_is_lost : VisitsEach replaceOnce { forest, host := false } answers
      { forest, host := true } ∧
    ∃ f, (transformChildren replaceOnce ⟨3⟩).exec { forest, host := false } =
        (.ok ⟨7⟩, { forest := f, host := true }) ∧
      answers.map (·.1) = forest.children ⟨3⟩ ∧
      answers.map (·.2) = [⟨1⟩, ⟨1⟩, ⟨2⟩, ⟨0⟩] ∧ f.children ⟨7⟩ = [⟨1⟩, ⟨1⟩, ⟨2⟩, ⟨1⟩] :=
  ⟨replaced_once, _, rfl, by decide, by decide, by decide⟩

end Mixed

end SyntaxForest
