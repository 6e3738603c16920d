import SyntaxForest.Pool.Basic
/-!
# Shelves of a pool

What each change of a pool does to its shelves, and what can be found on them.
Locking and counting keep the nodes of a pool (`SameNodes`), so whatever is said
about its nodes is still true afterwards.
-/

namespace SyntaxForest

namespace Pool

variable {p q : Pool} {c : PoolCategory}

/-! ## Changes -/

theorem shelf_setShelf_apply (p : Pool) (c d : PoolCategory) (change : Shelf → Shelf) :
    (p.setShelf c (change (p.shelf c))).shelf d = if d = c then change (p.shelf d) else p.shelf d := by
  by_cases h : d = c
  · subst h
    rw [shelf_setShelf, if_pos rfl]
  · rw [shelf_setShelf_of_ne p _ h, if_neg h]

theorem shelf_hold (p : Pool) (c d : PoolCategory) (held : Bool) :
    (p.hold c held).shelf d = if d = c then { p.shelf d with held } else p.shelf d :=
  shelf_setShelf_apply p c d (fun s => { s with held })

theorem shelf_file (p : Pool) (c d : PoolCategory) (e : PoolEntry) :
    (p.file c e).shelf d = if d = c then (p.shelf d).file e else p.shelf d :=
  shelf_setShelf_apply p c d (fun s => s.file e)

theorem shelf_emptyShelf (p : Pool) (c d : PoolCategory) :
    (p.emptyShelf c).shelf d = if d = c then (p.shelf d).emptied else p.shelf d :=
  shelf_setShelf_apply p c d Shelf.emptied

theorem isHeld_hold (p : Pool) (c d : PoolCategory) (held : Bool) :
    (p.hold c held).isHeld d = if d = c then held else p.isHeld d := by
  rw [isHeld, shelf_hold]
  split <;> rfl

theorem isHeld_file (p : Pool) (c d : PoolCategory) (e : PoolEntry) :
    (p.file c e).isHeld d = p.isHeld d := by
  rw [isHeld, shelf_file]
  split <;> rfl

theorem isHeld_emptyShelf (p : Pool) (c d : PoolCategory) :
    (p.emptyShelf c).isHeld d = p.isHeld d := by
  rw [isHeld, shelf_emptyShelf]
  split <;> rfl

theorem mem_file {e d : PoolEntry} {k : PoolCategory} :
    d ∈ ((p.file c e).shelf k).entries ↔ d ∈ (p.shelf k).entries ∨ k = c ∧ d = e := by
  rw [shelf_file]
  split <;> simp_all [Shelf.file]

/-! ## Counts -/

@[simp] theorem hits_hold (p : Pool) (c : PoolCategory) (held : Bool) : (p.hold c held).hits = p.hits :=
  hits_setShelf _ _ _

@[simp] theorem misses_hold (p : Pool) (c : PoolCategory) (held : Bool) :
    (p.hold c held).misses = p.misses :=
  misses_setShelf _ _ _

@[simp] theorem entryCount_hold (p : Pool) (c d : PoolCategory) (held : Bool) :
    (p.hold c held).entryCount d = p.entryCount d := by
  rw [entryCount, shelf_hold]
  split <;> rfl

@[simp] theorem hits_file (p : Pool) (c : PoolCategory) (e : PoolEntry) : (p.file c e).hits = p.hits :=
  hits_setShelf _ _ _

@[simp] theorem misses_file (p : Pool) (c : PoolCategory) (e : PoolEntry) :
    (p.file c e).misses = p.misses :=
  misses_setShelf _ _ _

@[simp] theorem hits_countHit (p : Pool) : p.countHit.hits = p.hits + 1 := rfl

@[simp] theorem misses_countHit (p : Pool) : p.countHit.misses = p.misses := rfl

@[simp] theorem entryCount_countHit (p : Pool) (c : PoolCategory) :
    p.countHit.entryCount c = p.entryCount c := by
  cases c <;> rfl

@[simp] theorem hits_countMiss (p : Pool) : p.countMiss.hits = p.hits := rfl

@[simp] theorem misses_countMiss (p : Pool) : p.countMiss.misses = p.misses + 1 := rfl

@[simp] theorem entryCount_countMiss (p : Pool) (c : PoolCategory) :
    p.countMiss.entryCount c = p.entryCount c := by
  cases c <;> rfl

@[simp] theorem entryCount_file (p : Pool) (c d : PoolCategory) (e : PoolEntry) :
    (p.file c e).entryCount d = p.entryCount d + (c == d).toNat := by
  rw [entryCount, shelf_file]
  by_cases hd : d = c
  · simp [hd, Shelf.file, entryCount]
  · simp [hd, Ne.symm hd, entryCount]

theorem entryCount_emptyShelf (p : Pool) (c d : PoolCategory) :
    (p.emptyShelf c).entryCount d = if d = c then 0 else p.entryCount d := by
  rw [entryCount, shelf_emptyShelf]
  split <;> rfl

/-- A pool that nothing holds is a new one once all categories are emptied. -/
theorem emptied_anew (free : ∀ c, p.isHeld c = false) :
    (PoolCategory.all.foldl emptyShelf p).resetCounters = { policy := p.policy } := by
  have hint := free .int
  have hbool := free .bool
  have hstring := free .string
  have hidentifier := free .identifier
  simp_all [isHeld, shelf, PoolCategory.all, emptyShelf, setShelf, Shelf.emptied, resetCounters]

/-! ## Pools with the same nodes -/

/-- Two pools remember the same nodes under the same policy. Locks and counters may differ. -/
structure SameNodes (p q : Pool) : Prop where
  policy : q.policy = p.policy
  entries : ∀ c, (q.shelf c).entries = (p.shelf c).entries
  count : ∀ c, (q.shelf c).count = (p.shelf c).count

theorem SameNodes.refl (p : Pool) : SameNodes p p := ⟨rfl, fun _ => rfl, fun _ => rfl⟩

theorem SameNodes.trans {r : Pool} (hp : SameNodes p q) (hq : SameNodes q r) : SameNodes p r :=
  ⟨hq.policy.trans hp.policy, fun c => (hq.entries c).trans (hp.entries c),
    fun c => (hq.count c).trans (hp.count c)⟩

theorem sameNodes_hold (p : Pool) (c : PoolCategory) (held : Bool) : SameNodes p (p.hold c held) := by
  constructor
  · exact policy_setShelf _ _ _
  · intro d
    rw [shelf_hold]
    split <;> rfl
  · intro d
    rw [shelf_hold]
    split <;> rfl

/-- What is admitted to a category depends on the policy and on the nodes there. -/
theorem admittedKey?_congr (policy : q.policy = p.policy) (entries : (q.shelf c).entries = (p.shelf c).entries)
    (count : q.entryCount c = p.entryCount c) (name : String) (v : Value) :
    q.admittedKey? c name v = p.admittedKey? c name v := by
  have hadmits : ∀ value, q.admitsScalar c name value = p.admitsScalar c name value := by
    intro value
    cases c <;> simp only [admitsScalar, Shelf.filed, policy, entries, count]
  rw [admittedKey?, admittedKey?, funext hadmits]

/-- The same entry can be filed in both. -/
theorem SameNodes.file (h : SameNodes p q) (c : PoolCategory) (e : PoolEntry) :
    SameNodes (p.file c e) (q.file c e) := by
  constructor
  · rw [Pool.file, Pool.file, policy_setShelf, policy_setShelf, h.policy]
  · intro d
    rw [shelf_file, shelf_file]
    split <;> simp [Shelf.file, h.entries]
  · intro d
    rw [shelf_file, shelf_file]
    split <;> simp [Shelf.file, h.count]

/-- A change of the counters only. -/
def CountsOnly (change : Pool → Pool) : Prop :=
  ∀ p, (change p).policy = p.policy ∧ ∀ c, (change p).shelf c = p.shelf c

theorem countsOnly_set (hits misses : Pool → Nat) :
    CountsOnly (fun p => { p with hits := hits p, misses := misses p }) := by
  intro p
  refine ⟨rfl, fun c => ?_⟩
  cases c <;> rfl

theorem countsOnly_countHit : CountsOnly countHit := countsOnly_set (fun p => p.hits + 1) misses

theorem countsOnly_countMiss : CountsOnly countMiss := countsOnly_set hits (fun p => p.misses + 1)

theorem countsOnly_resetCounters : CountsOnly resetCounters := countsOnly_set (fun _ => 0) (fun _ => 0)

theorem CountsOnly.sameNodes {change : Pool → Pool} (h : CountsOnly change) (p : Pool) :
    SameNodes p (change p) :=
  ⟨(h p).1, fun c => by rw [(h p).2], fun c => by rw [(h p).2]⟩

theorem CountsOnly.isHeld {change : Pool → Pool} (h : CountsOnly change) (p : Pool) (c : PoolCategory) :
    (change p).isHeld c = p.isHeld c := by
  rw [Pool.isHeld, (h p).2, Pool.isHeld]

end Pool

/-! ## Keys -/

theorem Number.eq_negativeZero {size : Fin (topSize + 1)} (h : size.val = 0) :
    real true size = .negativeZero := by
  have hsize : size = ⟨min 0 topSize, by omega⟩ := Fin.ext (h.trans (Nat.zero_min _).symm)
  rw [hsize]
  rfl

theorem Number.eq_of_eqv {m n : Number} (hm : m ≠ .negativeZero) (hn : n ≠ .negativeZero)
    (h : m.eqv n = true) : m = n := by
  rcases m with _ | ⟨a, x⟩
  · cases h
  rcases n with _ | ⟨b, y⟩
  · cases h
  have hrank : (if a then -(x.val : Int) else x.val) = if b then -(y.val : Int) else y.val := by
    simpa [eqv, compareBy, rank?] using h
  -- Of opposite signs only the zeros are equal, and then one of them is negative zero.
  rcases a with _ | _ <;> rcases b with _ | _ <;> simp only [Bool.false_eq_true, if_true, if_false] at hrank
  · rw [Fin.ext (by omega : x.val = y.val)]
  · exact absurd (eq_negativeZero (by omega)) hn
  · exact absurd (eq_negativeZero (by omega)) hm
  · rw [Fin.ext (by omega : x.val = y.val)]

/-- Away from negative zero a key is a value. -/
theorem Scalar.eq_of_sameKey {a b : Scalar} (ha : a ≠ .num .negativeZero) (hb : b ≠ .num .negativeZero)
    (h : a.sameKey b = true) : a = b := by
  cases a with
  | num m =>
    cases b with
    | num n =>
      simp only [sameKey, Bool.or_eq_true, beq_iff_eq] at h
      rcases h with rfl | heqv
      · rfl
      · rw [Number.eq_of_eqv (fun hm => ha (by rw [hm])) (fun hn => hb (by rw [hn])) heqv]
    | _ => cases h
  | _ => simpa [sameKey] using h

theorem Scalar.sameKey_self (a : Scalar) : a.sameKey a = true := by
  cases a <;> simp [sameKey]

/-! ## Finding -/

theorem Value.eq_of_scalar? {v : Value} {s : Scalar} (h : v.scalar? = some s) : v = .scalar s := by
  cases v with
  | scalar t =>
    cases h
    rfl
  | _ => cases h

theorem Shelf.find?_eq_none_iff {s : Shelf} {name : String} {v : Scalar} :
    s.find? name v = none ↔ ∀ e ∈ s.entries, e.filedUnder = name → e.value.sameKey v = false := by
  simp [Shelf.find?, List.find?_eq_none]

theorem Shelf.mem_of_find? {s : Shelf} {name : String} {v : Scalar} {id : NodeId}
    (h : s.find? name v = some id) :
    ∃ e ∈ s.entries, e.filedUnder = name ∧ e.value.sameKey v = true ∧ e.node = id := by
  obtain ⟨e, he, rfl⟩ := Option.map_eq_some_iff.1 h
  have hk := List.find?_some he
  simp only [Bool.and_eq_true, beq_iff_eq] at hk
  exact ⟨e, List.mem_of_find?_eq_some he, hk.1, hk.2, rfl⟩

/-- The nodes remembered under a key. -/
def Shelf.under (s : Shelf) (name : String) (v : Scalar) : List NodeId :=
  (s.entries.filter (fun e => e.filedUnder == name && e.value.sameKey v)).map (·.node)

theorem Shelf.find?_eq_head?_under (s : Shelf) (name : String) (v : Scalar) :
    s.find? name v = (s.under name v).head? := by
  rw [find?, under, List.head?_map, List.head?_filter]

theorem Shelf.under_file (s : Shelf) (e : PoolEntry) (name : String) (v : Scalar) :
    (s.file e).under name v =
      s.under name v ++ if e.filedUnder = name ∧ e.value.sameKey v = true then [e.node] else [] := by
  unfold under file
  by_cases h : e.filedUnder = name ∧ e.value.sameKey v = true
  · simp [h]
  · simp [h]

namespace Pool

variable {p q : Pool} {c : PoolCategory}

/-- A remembered node is found under a scalar other than negative zero. -/
theorem scalar_of_find? {name : String} {v : Value} {id : NodeId} (h : p.find? c name v = some id) :
    ∃ s, v = .scalar s ∧ s ≠ .num .negativeZero ∧ (p.shelf c).find? name s = some id := by
  cases v with
  | scalar s =>
    by_cases hs : s = .num .negativeZero
    · simp [find?, hs] at h
    · simp only [find?, hs, if_false] at h
      exact ⟨s, rfl, hs, h⟩
  | _ => cases h

theorem find?_congr (h : (q.shelf c).entries = (p.shelf c).entries) (name : String) (v : Value) :
    q.find? c name v = p.find? c name v := by
  cases v <;> simp [find?, Shelf.find?, h]

theorem SameNodes.find?_eq (h : SameNodes p q) (c : PoolCategory) (name : String) (v : Value) :
    q.find? c name v = p.find? c name v := find?_congr (h.entries c) name v

theorem find?_emptyShelf (p : Pool) (c d : PoolCategory) {name : String} {v : Value}
    (h : p.find? d name v = none) : (p.emptyShelf c).find? d name v = none := by
  by_cases hd : d = c
  · cases v <;> simp [find?, shelf_emptyShelf, hd, Shelf.emptied, Shelf.find?]
  · cases v <;> simp_all [find?, shelf_emptyShelf]

theorem find?_file_of_ne (p : Pool) {c d : PoolCategory} (e : PoolEntry) (h : d ≠ c) (name : String)
    (v : Value) : (p.file c e).find? d name v = p.find? d name v := by
  cases v <;> simp [find?, shelf_file, h]

end Pool

end SyntaxForest
