/-!
# Rose trees

The finite unfolding of a node and everything below it, with one occurrence per
path. The walks are lists of what they visit, in order of visit.
-/

namespace SyntaxForest

/-- A root and the trees below it, in order. -/
inductive Tree (α : Type) where
  | node (root : α) (branches : List (Tree α))
deriving Inhabited

namespace Tree

variable {α : Type}

def root : Tree α → α
  | .node a _ => a

def branches : Tree α → List (Tree α)
  | .node _ bs => bs

/-! ## Walks -/

mutual

/-- A node before its branches, branches left to right. -/
def preorder : Tree α → List α
  | .node a bs => a :: preorderAll bs

def preorderAll : List (Tree α) → List α
  | [] => []
  | t :: rest => preorder t ++ preorderAll rest

end

mutual

/-- Branches left to right, then the node. -/
def postorder : Tree α → List α
  | .node a bs => postorderAll bs ++ [a]

def postorderAll : List (Tree α) → List α
  | [] => []
  | t :: rest => postorder t ++ postorderAll rest

end

mutual

/-- Preorder, each node with its distance from the top, counted from `start`. -/
def withDepth (start : Int) : Tree α → List (Int × α)
  | .node a bs => (start, a) :: withDepthAll (start + 1) bs

def withDepthAll (start : Int) : List (Tree α) → List (Int × α)
  | [] => []
  | t :: rest => withDepth start t ++ withDepthAll start rest

end

mutual

/-- Every step from a node to a branch, in the order of a preorder walk. -/
def edges : Tree α → List (α × α)
  | .node a bs => edgesFrom a bs

def edgesFrom (parent : α) : List (Tree α) → List (α × α)
  | [] => []
  | t :: rest => (parent, t.root) :: edges t ++ edgesFrom parent rest

end

mutual

/-- Number of nodes. -/
def size : Tree α → Nat
  | .node _ bs => sizeAll bs + 1

def sizeAll : List (Tree α) → Nat
  | [] => 0
  | t :: rest => size t + sizeAll rest

end

theorem sizeAll_append (xs ys : List (Tree α)) : sizeAll (xs ++ ys) = sizeAll xs + sizeAll ys := by
  induction xs with
  | nil => simp [sizeAll]
  | cons t rest ih => simp [sizeAll, ih, Nat.add_assoc]

mutual

theorem length_preorder : (t : Tree α) → t.preorder.length = t.size
  | .node a bs => by simp [preorder, size, length_preorderAll bs]

theorem length_preorderAll : (ts : List (Tree α)) → (preorderAll ts).length = sizeAll ts
  | [] => rfl
  | t :: rest => by simp [preorderAll, sizeAll, length_preorder t, length_preorderAll rest]

end

mutual

/-- Distances aside, the walk is the preorder walk. -/
theorem map_snd_withDepth (start : Int) : (t : Tree α) →
    (t.withDepth start).map (·.2) = t.preorder
  | .node a bs => by simp [withDepth, preorder, map_snd_withDepthAll (start + 1) bs]

theorem map_snd_withDepthAll (start : Int) : (ts : List (Tree α)) →
    (withDepthAll start ts).map (·.2) = preorderAll ts
  | [] => rfl
  | t :: rest => by
    simp [withDepthAll, preorderAll, map_snd_withDepth start t, map_snd_withDepthAll start rest]

end

/-- Level by level: visit the trees of a queue in order, the branches of each
joining the queue at its end. -/
def queueOrder : List (Tree α) → List α
  | [] => []
  | .node a bs :: rest => a :: queueOrder (rest ++ bs)
termination_by queue => sizeAll queue
decreasing_by
  simp only [sizeAll_append, sizeAll, size]
  omega

theorem queueOrder_append (ts us : List (Tree α)) :
    queueOrder (ts ++ us) = ts.map root ++ queueOrder (us ++ ts.flatMap branches) := by
  induction ts generalizing us with
  | nil => simp
  | cons t rest ih =>
    rcases t with ⟨a, bs⟩
    rw [List.cons_append, queueOrder, List.append_assoc, ih]
    simp [root, branches]

/-- A queue is visited as a level, and what its trees branch into comes next. -/
theorem queueOrder_eq (ts : List (Tree α)) :
    queueOrder ts = ts.map root ++ queueOrder (ts.flatMap branches) := by
  simpa using queueOrder_append ts []

def levelOrder (t : Tree α) : List α := queueOrder [t]

/-! ## Derived measures

These answer a question about the tree without listing it. `leaf` tells the nodes
that are known to have no branches; they are answered without a look at them. -/

mutual

/-- Number of nodes. -/
def count (leaf : α → Bool) : Tree α → Nat
  | .node a bs => if leaf a then 1 else countAll leaf bs + 1

def countAll (leaf : α → Bool) : List (Tree α) → Nat
  | [] => 0
  | t :: rest => count leaf t + countAll leaf rest

end

mutual

/-- 0 without branches, otherwise one more than the deepest branch. -/
def depth (leaf : α → Bool) : Tree α → Nat
  | .node a bs => if leaf a || bs.isEmpty then 0 else deepest leaf bs + 1

def deepest (leaf : α → Bool) : List (Tree α) → Nat
  | [] => 0
  | t :: rest => max (depth leaf t) (deepest leaf rest)

end

mutual

/-- Every node that passes the test, in preorder. -/
def findAll (leaf : α → Bool) (test : α → Bool) : Tree α → List α
  | .node a bs =>
    let here := if test a then [a] else []
    if leaf a then here else here ++ findAllIn leaf test bs

def findAllIn (leaf : α → Bool) (test : α → Bool) : List (Tree α) → List α
  | [] => []
  | t :: rest => findAll leaf test t ++ findAllIn leaf test rest

end

mutual

/-- The first node in preorder that passes the test. -/
def findFirst? (leaf : α → Bool) (test : α → Bool) : Tree α → Option α
  | .node a bs =>
    if test a then some a
    else if leaf a then none
    else findFirstIn? leaf test bs

def findFirstIn? (leaf : α → Bool) (test : α → Bool) : List (Tree α) → Option α
  | [] => none
  | t :: rest =>
    match findFirst? leaf test t with
    | some a => some a
    | none => findFirstIn? leaf test rest

end

/-- Whether some node passes the test. -/
def contains (leaf : α → Bool) (test : α → Bool) (t : Tree α) : Bool :=
  if leaf t.root then test t.root else (t.findFirst? leaf test).isSome

end Tree

end SyntaxForest
