import SyntaxForest.Forest.Walk
/-!
# Tours

A tour runs an action at every node of a walk. Where the action ends the
computation the tour ends too, so nothing behind that point is unfolded; this
matters where nodes are shared, because the unfolding of a small forest can be
huge. Searches are tours in preorder that collect what matches, or stop at it.
Main statements: a tour runs its action along the list of the walk
(`forPreorder_eq` and its kin).
-/

namespace SyntaxForest.Forest

variable {m : Type → Type} [Monad m]

/-- Run an action at a node, then at what it holds, at most `steps` levels deep. -/
def forPreorderWithin (f : Forest) (visit : NodeId → m Unit) : (steps : Nat) → NodeId → m Unit
  | 0, id => visit id
  | steps + 1, id => do
    visit id
    (f.children id).forM (forPreorderWithin f visit steps)

/-- Run an action along the preorder walk. -/
def forPreorder (f : Forest) (visit : NodeId → m Unit) (id : NodeId) : m Unit :=
  f.forPreorderWithin visit f.size id

/-- Run an action at what a node holds, then at the node, at most `steps` levels deep. -/
def forPostorderWithin (f : Forest) (visit : NodeId → m Unit) : (steps : Nat) → NodeId → m Unit
  | 0, id => visit id
  | steps + 1, id => do
    (f.children id).forM (forPostorderWithin f visit steps)
    visit id

/-- Run an action along the postorder walk. -/
def forPostorder (f : Forest) (visit : NodeId → m Unit) (id : NodeId) : m Unit :=
  f.forPostorderWithin visit f.size id

/-- Run an action at a node with its distance from the top, then below it, at most
`steps` levels deep. -/
def forDepthsWithin (f : Forest) (visit : Int × NodeId → m Unit) :
    (steps : Nat) → (depth : Int) → NodeId → m Unit
  | 0, depth, id => visit (depth, id)
  | steps + 1, depth, id => do
    visit (depth, id)
    (f.children id).forM (forDepthsWithin f visit steps (depth + 1))

/-- Run an action along the preorder walk with distances counted from `start`. -/
def forDepths (f : Forest) (visit : Int × NodeId → m Unit) (start : Int) (id : NodeId) : m Unit :=
  f.forDepthsWithin visit f.size start id

/-- Run an action at the nodes of a level, then of the levels below, at most `steps`
levels deep. -/
def forLevelsWithin (f : Forest) (visit : NodeId → m Unit) : (steps : Nat) → List NodeId → m Unit
  | 0, level => level.forM visit
  | steps + 1, level => do
    level.forM visit
    forLevelsWithin f visit steps (level.flatMap f.children)

def forLevels (f : Forest) (visit : NodeId → m Unit) (id : NodeId) : m Unit :=
  f.forLevelsWithin visit f.size [id]

/-! ## Searches -/

/-- Collect what comes next, unless as much as wanted is there; then the tour ends. -/
def collect {α ε : Type} (enough : ε) (wanted : Option Nat) (next : α) :
    ExceptT ε (StateM (Array α)) Unit := do
  let seen ← get
  if wanted.any (· ≤ seen.size) then throw enough
  set (seen.push next)

/-- Matching nodes in preorder, as many as wanted. -/
def search (f : Forest) (m : Matcher) (wanted : Option Nat) (id : NodeId) : List NodeId :=
  let (_, seen) := (f.forPreorder (fun n =>
    if m.accepts f n then collect () wanted n else pure ()) id).run.run #[]
  seen.toList

/-- The first match in preorder. -/
def searchFirst? (f : Forest) (m : Matcher) (id : NodeId) : Option NodeId :=
  let outcome : Except NodeId Unit := f.forPreorder (fun n =>
    if m.accepts f n then throw n else pure ()) id
  match outcome with
  | .error found => some found
  | .ok () => none

/-! ## Tours and lists -/

variable [LawfulMonad m]

theorem forPreorderWithin_eq (f : Forest) (visit : NodeId → m Unit) (steps : Nat) (id : NodeId) :
    f.forPreorderWithin visit steps id = (f.unfold steps id).preorder.forM visit := by
  induction steps generalizing id with
  | zero => simp [forPreorderWithin, unfold, Tree.preorder, Tree.preorderAll]
  | succ steps ih =>
    have below (ids : List NodeId) :
        ids.forM (f.forPreorderWithin visit steps) =
          (Tree.preorderAll (ids.map (f.unfold steps))).forM visit := by
      induction ids with
      | nil => rfl
      | cons c rest ihl => simp_all [Tree.preorderAll]
    simp_all [forPreorderWithin, unfold, Tree.preorder]

/-- A tour in preorder runs along the list of the walk. -/
theorem forPreorder_eq (f : Forest) (visit : NodeId → m Unit) (id : NodeId) :
    f.forPreorder visit id = (f.preorder id).forM visit :=
  f.forPreorderWithin_eq visit f.size id

theorem forPostorderWithin_eq (f : Forest) (visit : NodeId → m Unit) (steps : Nat) (id : NodeId) :
    f.forPostorderWithin visit steps id = (f.unfold steps id).postorder.forM visit := by
  induction steps generalizing id with
  | zero => simp [forPostorderWithin, unfold, Tree.postorder, Tree.postorderAll]
  | succ steps ih =>
    have below (ids : List NodeId) :
        ids.forM (f.forPostorderWithin visit steps) =
          (Tree.postorderAll (ids.map (f.unfold steps))).forM visit := by
      induction ids with
      | nil => rfl
      | cons c rest ihl => simp_all [Tree.postorderAll]
    simp_all [forPostorderWithin, unfold, Tree.postorder]

/-- A tour in postorder runs along the list of the walk. -/
theorem forPostorder_eq (f : Forest) (visit : NodeId → m Unit) (id : NodeId) :
    f.forPostorder visit id = (f.postorder id).forM visit :=
  f.forPostorderWithin_eq visit f.size id

theorem forDepthsWithin_eq (f : Forest) (visit : Int × NodeId → m Unit) (steps : Nat)
    (start : Int) (id : NodeId) :
    f.forDepthsWithin visit steps start id = ((f.unfold steps id).withDepth start).forM visit := by
  induction steps generalizing start id with
  | zero => simp [forDepthsWithin, unfold, Tree.withDepth, Tree.withDepthAll]
  | succ steps ih =>
    have below (ids : List NodeId) :
        ids.forM (f.forDepthsWithin visit steps (start + 1)) =
          (Tree.withDepthAll (start + 1) (ids.map (f.unfold steps))).forM visit := by
      induction ids with
      | nil => rfl
      | cons c rest ihl => simp_all [Tree.withDepthAll]
    simp_all [forDepthsWithin, unfold, Tree.withDepth]

/-- A tour with distances runs along the list of the walk. -/
theorem forDepths_eq (f : Forest) (visit : Int × NodeId → m Unit) (start : Int) (id : NodeId) :
    f.forDepths visit start id = (f.withDepth start id).forM visit :=
  f.forDepthsWithin_eq visit f.size start id

theorem forLevelsWithin_eq (f : Forest) (visit : NodeId → m Unit) (steps : Nat)
    (level : List NodeId) :
    f.forLevelsWithin visit steps level =
      (Tree.queueOrder (level.map (f.unfold steps))).forM visit := by
  induction steps generalizing level with
  | zero =>
    have leaves : Tree.queueOrder (level.map (f.unfold 0)) = level := by
      induction level with
      | nil => simp [Tree.queueOrder]
      | cons c rest ihl => simp_all [unfold, Tree.queueOrder]
    rw [forLevelsWithin, leaves]
  | succ steps ih =>
    have next : (level.map (f.unfold (steps + 1))).flatMap Tree.branches =
        (level.flatMap f.children).map (f.unfold steps) := by
      simp [List.flatMap_map, List.map_flatMap, unfold, Tree.branches]
    have roots : (level.map (f.unfold (steps + 1))).map Tree.root = level := by
      simp [unfold, Tree.root, Function.comp_def]
    rw [Tree.queueOrder_eq, next, roots, forLevelsWithin, ih]
    simp

/-- A tour by levels runs along the list of the walk. -/
theorem forLevels_eq (f : Forest) (visit : NodeId → m Unit) (id : NodeId) :
    f.forLevels visit id = (f.levelOrder id).forM visit :=
  f.forLevelsWithin_eq visit f.size [id]

end SyntaxForest.Forest
