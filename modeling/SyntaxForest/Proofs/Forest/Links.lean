import Mathlib.Data.List.Chain
import Mathlib.Logic.Relation
import SyntaxForest.Forest.Basic
/-!
# Links between nodes

A forest as a directed graph: a node leads to what it holds. `Settled.acyclic`
is how a walk shows that a graph has no cycle: it lists nodes so that each one
leads to earlier listed ones only.
-/

namespace SyntaxForest

/-! ## Settled lists -/

section Settled
variable {α : Type} {R S : α → α → Prop}

/-- Every item leads only to items further back in the list. -/
def Settled (R : α → α → Prop) : List α → Prop
  | [] => True
  | a :: rest => (∀ b, R a b → b ∈ rest) ∧ Settled R rest

theorem Settled.mono {l : List α} (h : Settled R l) (hs : ∀ a b, S a b → R a b) : Settled S l := by
  induction l with
  | nil => trivial
  | cons a rest ih => exact ⟨fun b hb => h.1 b (hs a b hb), ih h.2⟩

theorem Settled.mem_of_step {l : List α} (h : Settled R l) {a b : α} (ha : a ∈ l) (hr : R a b) :
    b ∈ l := by
  induction l with
  | nil => cases ha
  | cons c rest ih =>
    rcases List.mem_cons.1 ha with rfl | ha
    · exact List.mem_cons_of_mem _ (h.1 b hr)
    · exact List.mem_cons_of_mem _ (ih h.2 ha)

theorem Settled.mem_of_path {l : List α} (h : Settled R l) {a b : α} (ha : a ∈ l)
    (hr : Relation.ReflTransGen R a b) : b ∈ l := by
  induction hr with
  | refl => exact ha
  | tail _ hstep ih => exact h.mem_of_step ih hstep

/-- No settled item leads back to itself. -/
theorem Settled.acyclic {l : List α} (h : Settled R l) {a : α} (ha : a ∈ l) :
    ¬ Relation.TransGen R a a := by
  induction l with
  | nil => cases ha
  | cons c rest ih =>
    by_cases hr : a ∈ rest
    · exact ih h.2 hr
    · obtain rfl : a = c := (List.mem_cons.1 ha).resolve_right hr
      -- the first step already leaves for `rest`, and nothing leads out of `rest`
      intro hcycle
      obtain ⟨b, hstep, hback⟩ := Relation.TransGen.head'_iff.1 hcycle
      exact hr (h.2.mem_of_path (h.1 b hstep) hback)

end Settled

/-! ## Reaching nodes -/

namespace Forest

/-- A node holds another one. -/
def Holds (f : Forest) (a b : NodeId) : Prop := b ∈ f.children a

/-- A node is another one or somewhere below it. -/
def Reaches (f : Forest) : NodeId → NodeId → Prop := Relation.ReflTransGen f.Holds

/-- Some node that can be reached is below itself. -/
def HasCycle (f : Forest) (root : NodeId) : Prop :=
  ∃ n, f.Reaches root n ∧ Relation.TransGen f.Holds n n

/-- A node outside the forest holds nothing. -/
theorem children_eq_nil {f : Forest} {id : NodeId} (h : f.size ≤ id.index) : f.children id = [] := by
  simp only [children, node?, size] at h ⊢
  rw [Array.getElem?_eq_none h]
  rfl

/-- Along a chain every node reaches the last one. -/
theorem reaches_of_isChain {f : Forest} {l : List NodeId} {a b : NodeId}
    (h : (a :: l).IsChain f.Holds) (hb : b ∈ a :: l) : f.Reaches a b := by
  induction l generalizing a with
  | nil =>
    obtain rfl : b = a := by simpa using hb
    exact .refl
  | cons c rest ih =>
    obtain ⟨hac, hrest⟩ := List.isChain_cons_cons.1 h
    rcases List.mem_cons.1 hb with rfl | hb
    · exact .refl
    · exact .head hac (ih hrest hb)

end Forest

end SyntaxForest
