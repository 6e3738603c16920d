import Mathlib.Algebra.GroupWithZero.Nat
import Mathlib.Data.List.Perm.Basic
import Mathlib.Order.Nat
import SyntaxForest.Tree
/-!
# Trees and questions about them

The measures and searches of a tree, each a recursion of its own, answer questions
about the list of its preorder walk: `All.count_eq`, `All.findAll_eq`,
`All.findFirst?_eq`, `All.contains_eq`, `All.max?_withDepth` for the depth, and
`postorder_perm`. Shortcuts for leaves change nothing as long as only leaves take
them (`Honest`). The walks of a relabelled tree are the relabelled walks.
-/

namespace SyntaxForest.Tree

variable {α : Type}

/-- Every node of a tree has a property, seen with the trees below it. -/
inductive All (P : α → List (Tree α) → Prop) : Tree α → Prop
  | node {a bs} : P a bs → (∀ b ∈ bs, All P b) → All P (.node a bs)

section All
variable {P Q : α → List (Tree α) → Prop} {t : Tree α}

theorem All.imp (h : t.All P) (hPQ : ∀ a bs, P a bs → Q a bs) : t.All Q := by
  induction h with
  | node hP _ ih => exact .node (hPQ _ _ hP) ih

theorem All.root (h : t.All P) : P t.root t.branches := by
  cases h with
  | node hP _ => exact hP

theorem All.branches (h : t.All P) : ∀ b ∈ t.branches, b.All P := by
  cases h with
  | node _ hbelow => exact hbelow

/-- What a tree takes over from its branches, all trees below a node have. -/
theorem All.with_below {R : Tree α → Prop} (h : t.All P)
    (step : ∀ a bs, P a bs → (∀ b ∈ bs, R b) → R (.node a bs)) :
    t.All (fun a bs => P a bs ∧ ∀ b ∈ bs, R b) ∧ R t := by
  induction h with
  | node hP _ ih =>
    have hR := fun b hb => (ih b hb).2
    exact ⟨.node ⟨hP, hR⟩ (fun b hb => (ih b hb).1), step _ _ hP hR⟩

/-- A property of all nodes of a tree is one of all nodes of the trees in it. -/
theorem All.within (h : t.All P) : t.All (fun a bs => (Tree.node a bs).All P) :=
  (h.with_below (fun _ _ => All.node)).1.imp (fun _ _ h => .node h.1 h.2)

mutual

/-- What holds of all nodes and lists holds all over a tree. -/
theorem All.of_forall (h : ∀ a bs, P a bs) : (t : Tree α) → t.All P
  | .node a bs => .node (h a bs) (All.of_forall_mem h bs)

theorem All.of_forall_mem (h : ∀ a bs, P a bs) : (ts : List (Tree α)) → ∀ t ∈ ts, t.All P
  | [], _, ht => nomatch ht
  | t :: rest, _, ht =>
    match List.mem_cons.1 ht with
    | .inl heq => heq ▸ All.of_forall h t
    | .inr hrest => All.of_forall_mem h rest _ hrest

end

/-- What a tree takes over from its branches, every tree has. -/
theorem induct {R : Tree α → Prop} (step : ∀ a bs, (∀ b ∈ bs, R b) → R (.node a bs)) (t : Tree α) :
    R t :=
  ((All.of_forall (P := fun _ _ => True) (fun _ _ => trivial) t).with_below
    (fun a bs _ => step a bs)).2

end All

/-! ## Lists of trees -/

theorem preorderAll_eq (ts : List (Tree α)) : preorderAll ts = ts.flatMap preorder := by
  induction ts with
  | nil => rfl
  | cons t rest ih => simp [preorderAll, ih]

theorem postorderAll_eq (ts : List (Tree α)) : postorderAll ts = ts.flatMap postorder := by
  induction ts with
  | nil => rfl
  | cons t rest ih => simp [postorderAll, ih]

theorem withDepthAll_eq (start : Int) (ts : List (Tree α)) :
    withDepthAll start ts = ts.flatMap (withDepth start) := by
  induction ts with
  | nil => rfl
  | cons t rest ih => simp [withDepthAll, ih]

section
variable (leaf test : α → Bool)

theorem countAll_eq (ts : List (Tree α)) : countAll leaf ts = (ts.map (count leaf)).sum := by
  induction ts with
  | nil => rfl
  | cons t rest ih => simp [countAll, ih]

theorem deepest_eq (ts : List (Tree α)) :
    deepest leaf ts = (ts.map (depth leaf)).foldr max 0 := by
  induction ts with
  | nil => rfl
  | cons t rest ih => simp [deepest, ih]

theorem findAllIn_eq (ts : List (Tree α)) :
    findAllIn leaf test ts = ts.flatMap (findAll leaf test) := by
  induction ts with
  | nil => rfl
  | cons t rest ih => simp [findAllIn, ih]

theorem findFirstIn?_eq (ts : List (Tree α)) :
    findFirstIn? leaf test ts = ts.findSome? (findFirst? leaf test) := by
  induction ts with
  | nil => rfl
  | cons t rest ih =>
    rw [findFirstIn?, ih, List.findSome?_cons]
    rcases findFirst? leaf test t with _ | _ <;> rfl

theorem depth_le_deepest {ts : List (Tree α)} {t : Tree α} (ht : t ∈ ts) :
    depth leaf t ≤ deepest leaf ts := by
  induction ts with
  | nil => cases ht
  | cons u rest ih =>
    rw [deepest]
    rcases List.mem_cons.1 ht with rfl | hrest
    · exact Nat.le_max_left _ _
    · exact (ih hrest).trans (Nat.le_max_right _ _)

/-- Some tree of a list is as deep as the deepest. -/
theorem exists_depth_eq_deepest {ts : List (Tree α)} (h : ts ≠ []) :
    ∃ t ∈ ts, depth leaf t = deepest leaf ts := by
  induction ts with
  | nil => exact absurd rfl h
  | cons t rest ih =>
    rw [deepest]
    by_cases hle : deepest leaf rest ≤ depth leaf t
    · exact ⟨t, .head _, (Nat.max_eq_left hle).symm⟩
    · have hrest : rest ≠ [] := by
        intro hnil
        simp [hnil, deepest] at hle
      obtain ⟨u, hu, hdeep⟩ := ih hrest
      refine ⟨u, .tail _ hu, ?_⟩
      rw [hdeep, Nat.max_eq_right (by omega)]

end

/-! ## Questions and the preorder walk -/

theorem preorder_subset {a : α} {bs : List (Tree α)} {b : Tree α} (hb : b ∈ bs) :
    ∀ c ∈ b.preorder, c ∈ (Tree.node a bs).preorder := by
  intro c hc
  rw [preorder, preorderAll_eq]
  exact List.mem_cons_of_mem _ (List.mem_flatMap.2 ⟨b, hb, hc⟩)

theorem All.imp_of_mem {P Q : α → List (Tree α) → Prop} {t : Tree α} (h : t.All P)
    (hPQ : ∀ a bs, a ∈ t.preorder → P a bs → Q a bs) : t.All Q := by
  induction h with
  | @node a bs hP _ ih =>
    refine .node (hPQ a bs (by simp [preorder]) hP) (fun b hb => ih b hb (fun c cs hc => ?_))
    exact hPQ c cs (preorder_subset hb c hc)

theorem All.of_mem_preorder {P : α → List (Tree α) → Prop} {t : Tree α} (h : t.All P) {a : α}
    (ha : a ∈ t.preorder) : ∃ bs, P a bs := by
  induction h with
  | @node b bs hP _ ih =>
    rw [preorder, preorderAll_eq] at ha
    rcases List.mem_cons.1 ha with rfl | ha
    · exact ⟨bs, hP⟩
    · obtain ⟨t, ht, ha⟩ := List.mem_flatMap.1 ha
      exact ih t ht ha

theorem postorder_perm (t : Tree α) : t.postorder.Perm t.preorder := by
  refine induct (R := fun t => t.postorder.Perm t.preorder) (fun a bs ih => ?_) t
  rw [postorder, preorder, postorderAll_eq, preorderAll_eq]
  have hbelow : (bs.flatMap postorder).Perm (bs.flatMap preorder) := List.Perm.flatMap_left bs ih
  exact (List.perm_append_singleton a _).trans (hbelow.cons a)

theorem findSome?_congr {β : Type} {f g : α → Option β} {l : List α} (h : ∀ a ∈ l, f a = g a) :
    l.findSome? f = l.findSome? g := by
  induction l with
  | nil => rfl
  | cons a rest ih =>
    rw [List.findSome?_cons, List.findSome?_cons, h a (.head _), ih (fun b hb => h b (.tail _ hb))]

/-- Only nodes without branches are taken for leaves. -/
def Honest (leaf : α → Bool) (a : α) (bs : List (Tree α)) : Prop := leaf a = true → bs = []

section Honest
variable {leaf test : α → Bool} {t : Tree α}

/-- Without shortcuts there is nothing to be honest about. -/
theorem honest_false (t : Tree α) : t.All (Honest (fun _ => false)) :=
  .of_forall (fun _ _ h => nomatch h) t

theorem All.count_eq (h : t.All (Honest leaf)) : t.count leaf = t.preorder.length := by
  induction h with
  | @node a bs hleaf _ ih =>
    rw [count, preorder, List.length_cons, countAll_eq, preorderAll_eq, List.length_flatMap,
      List.map_congr_left ih]
    by_cases ha : leaf a = true
    · simp [hleaf ha]
    · rw [if_neg ha]

theorem All.findAll_eq (h : t.All (Honest leaf)) : t.findAll leaf test = t.preorder.filter test := by
  induction h with
  | @node a bs hleaf _ ih =>
    have hhere : (a :: preorderAll bs).filter test =
        (if test a = true then [a] else []) ++ (preorderAll bs).filter test := by
      rw [List.filter_cons]
      split <;> rfl
    rw [findAll, preorder, hhere, findAllIn_eq, preorderAll_eq, List.filter_flatMap,
      List.flatMap_congr ih]
    by_cases ha : leaf a = true
    · simp [hleaf ha]
    · simp [ha]

theorem All.findFirst?_eq (h : t.All (Honest leaf)) :
    t.findFirst? leaf test = t.preorder.find? test := by
  induction h with
  | @node a bs hleaf _ ih =>
    have hbelow : bs.findSome? (findFirst? leaf test) = (preorderAll bs).find? test := by
      rw [preorderAll_eq, List.find?_flatMap]
      exact findSome?_congr ih
    rw [findFirst?, preorder, List.find?_cons, findFirstIn?_eq, hbelow]
    by_cases ha : leaf a = true
    · cases test a <;> simp [hleaf ha, preorderAll]
    · cases test a <;> simp [ha]

theorem All.contains_eq (h : t.All (Honest leaf)) : t.contains leaf test = t.preorder.any test := by
  have hfirst : (t.findFirst? leaf test).isSome = t.preorder.any test := by
    rw [h.findFirst?_eq, List.isSome_find?]
  rw [contains, hfirst]
  split
  · next hleaf =>
    rcases t with ⟨a, bs⟩
    obtain rfl : bs = [] := h.root hleaf
    simp [Tree.root, preorder, preorderAll]
  · rfl

/-- Only trees without branches have depth 0; others are one deeper than their branches. -/
theorem All.depth_node {a : α} {bs : List (Tree α)} (h : (Tree.node a bs).All (Honest leaf)) :
    (Tree.node a bs).depth leaf = if bs = [] then 0 else deepest leaf bs + 1 := by
  have hleaf : leaf a = true → bs = [] := h.root
  rw [depth]
  by_cases hbs : bs = []
  · simp [hbs]
  · have ha : leaf a = false := by
      rw [Bool.eq_false_iff]
      exact fun ha => hbs (hleaf ha)
    simp [ha, hbs]

theorem All.le_depth (h : t.All (Honest leaf)) {start : Int} {p : Int × α}
    (hp : p ∈ t.withDepth start) : p.1 ≤ start + t.depth leaf := by
  induction h generalizing start p with
  | @node a bs hleaf hbelow ih =>
    rw [withDepth, withDepthAll_eq] at hp
    rcases List.mem_cons.1 hp with rfl | hp
    · exact Int.le_add_of_nonneg_right (Int.natCast_nonneg _)
    · obtain ⟨b, hb, hp⟩ := List.mem_flatMap.1 hp
      have hstep := ih b hb hp
      have hdeep := depth_le_deepest leaf hb
      rw [All.depth_node (.node hleaf hbelow), if_neg (List.ne_nil_of_mem hb)]
      omega

theorem All.exists_eq_depth (h : t.All (Honest leaf)) (start : Int) :
    ∃ p ∈ t.withDepth start, p.1 = start + t.depth leaf := by
  induction h generalizing start with
  | @node a bs hleaf hbelow ih =>
    rw [All.depth_node (.node hleaf hbelow), withDepth, withDepthAll_eq]
    by_cases hbs : bs = []
    · exact ⟨(start, a), .head _, by simp [hbs]⟩
    · obtain ⟨b, hb, hdeep⟩ := exists_depth_eq_deepest leaf hbs
      obtain ⟨p, hp, heq⟩ := ih b hb (start + 1)
      refine ⟨p, .tail _ (List.mem_flatMap.2 ⟨b, hb, hp⟩), ?_⟩
      rw [if_neg hbs]
      omega

/-- The depth is the largest distance that the walk with distances reports. -/
theorem All.max?_withDepth (h : t.All (Honest leaf)) :
    ((t.withDepth 0).map (·.1)).max? = some (t.depth leaf : Int) := by
  rw [List.max?_eq_some_iff]
  constructor
  · obtain ⟨p, hp, heq⟩ := h.exists_eq_depth 0
    exact List.mem_map.2 ⟨p, hp, by omega⟩
  · intro d hd
    obtain ⟨p, hp, rfl⟩ := List.mem_map.1 hd
    have := h.le_depth hp
    omega

end Honest

/-! ## Relabelled trees -/

section Relabelled
variable {β : Type} (f : α → β)

mutual

/-- The tree with other labels. -/
def map : Tree α → Tree β
  | .node a bs => .node (f a) (mapAll bs)

def mapAll : List (Tree α) → List (Tree β)
  | [] => []
  | t :: rest => map t :: mapAll rest

end

theorem mapAll_eq (ts : List (Tree α)) : mapAll f ts = ts.map (map f) := by
  induction ts with
  | nil => rfl
  | cons t rest ih => rw [mapAll, ih, List.map_cons]

theorem map_node (a : α) (bs : List (Tree α)) : (Tree.node a bs).map f = .node (f a) (bs.map (map f)) := by
  rw [map, mapAll_eq]

theorem preorder_map (t : Tree α) : (t.map f).preorder = t.preorder.map f := by
  refine induct (R := fun t => (t.map f).preorder = t.preorder.map f) (fun a bs ih => ?_) t
  rw [map_node, preorder, preorder, preorderAll_eq, preorderAll_eq, List.map_cons, List.map_flatMap,
    List.flatMap_map, List.flatMap_congr ih]

theorem postorder_map (t : Tree α) : (t.map f).postorder = t.postorder.map f := by
  refine induct (R := fun t => (t.map f).postorder = t.postorder.map f) (fun a bs ih => ?_) t
  rw [map_node, postorder, postorder, postorderAll_eq, postorderAll_eq, List.map_append, List.map_flatMap,
    List.flatMap_map, List.flatMap_congr ih]
  rfl

theorem withDepth_map (start : Int) (t : Tree α) :
    (t.map f).withDepth start = (t.withDepth start).map (fun p => (p.1, f p.2)) := by
  refine induct (R := fun t => ∀ start, (t.map f).withDepth start =
    (t.withDepth start).map (fun p => (p.1, f p.2))) (fun a bs ih start => ?_) t start
  rw [map_node, withDepth, withDepth, withDepthAll_eq, withDepthAll_eq, List.map_cons, List.map_flatMap,
    List.flatMap_map, List.flatMap_congr (fun b hb => ih b hb (start + 1))]

theorem queueOrder_map (ts : List (Tree α)) : queueOrder (ts.map (map f)) = (queueOrder ts).map f := by
  fun_induction queueOrder ts with
  | case1 => simp [queueOrder]
  | case2 a bs rest ih =>
    rw [List.map_cons, map_node, queueOrder, ← List.map_append, ih, List.map_cons]

theorem levelOrder_map (t : Tree α) : (t.map f).levelOrder = t.levelOrder.map f :=
  queueOrder_map f [t]

/-- Shortcuts and labels do not matter for the depth. -/
theorem depth_map {leaf : β → Bool} {leaf' : α → Bool} {t : Tree α} (h : (t.map f).All (Honest leaf))
    (h' : t.All (Honest leaf')) : (t.map f).depth leaf = t.depth leaf' := by
  have hmax := h.max?_withDepth
  have hmax' := h'.max?_withDepth
  rw [withDepth_map, List.map_map] at hmax
  exact Int.ofNat_inj.1 (Option.some.inj (hmax.symm.trans hmax'))

end Relabelled

/-! ## Trees side by side -/

variable {β γ : Type} {f : α → γ} {g : β → γ}

end SyntaxForest.Tree
