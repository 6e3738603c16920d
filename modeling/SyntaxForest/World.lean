import SyntaxForest.Forest.Walk
import SyntaxForest.Pool.Basic
/-!
# Worlds

A world is what actions of pools and visitors run on: the forest, the pools, and
a state of the host for everything else.
-/

namespace SyntaxForest

structure PoolId where
  index : Nat
deriving DecidableEq, Inhabited

structure World (σ : Type) where
  forest : Forest := {}
  pools : Array Pool := #[]
  host : σ
deriving Inhabited

namespace World

variable {σ : Type}

/-- A pool of the world. A pool that was never opened keeps nothing. -/
def pool (w : World σ) (p : PoolId) : Pool :=
  (w.pools[p.index]?).getD { policy := PoolPolicy.standard }

def updatePool (w : World σ) (p : PoolId) (change : Pool → Pool) : World σ :=
  { w with pools := w.pools.modify p.index change }

def openPool (w : World σ) (policy : PoolPolicy) : PoolId × World σ :=
  (⟨w.pools.size⟩, { w with pools := w.pools.push { policy } })

end World

namespace Act

variable {σ α : Type}

def onForest (action : Act Forest α) : Act (World σ) α :=
  action.onPart World.forest (fun f w => { w with forest := f })

/-- The forest as it is now. -/
def forest : Act (World σ) Forest := do return (← get).forest

end Act

end SyntaxForest
