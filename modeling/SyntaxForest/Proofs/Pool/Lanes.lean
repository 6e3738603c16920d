import Mathlib.Data.List.Forall2
import SyntaxForest.Proofs.Pool.Errands
/-!
# Lanes of a pool

A lane is a category, or the integers or truth values under one name. What is requested
in other lanes does not matter to it: `lanes_are_independent` compares errands with those
that are left when all requests of other lanes are deleted. The nodes of the two runs are
different ones, so they are compared by the requests that filed them; `Twin` is what the
pools of the two runs have in common throughout.
-/

namespace SyntaxForest

variable {σ : Type}

structure Lane where
  category : PoolCategory
  /-- Only what is filed under this name, if there is one. -/
  name? : Option String
  /-- Texts are counted over their whole category. -/
  counted : name?.isSome = true → category = .int ∨ category = .bool

namespace Lane

def covers (l : Lane) (name : String) : Bool := l.name?.all (· == name)

def has (l : Lane) (r : PoolRequest) : Bool := r.category == l.category && l.covers r.filedUnder

/-- What a pool remembers in the lane. -/
def entries (l : Lane) (q : Pool) : List PoolEntry :=
  (q.shelf l.category).entries.filter (fun e => l.covers e.filedUnder)

/-- The size of the lane: that of the category as the pool counts it, or the number of
entries under the name. -/
def size (l : Lane) (q : Pool) : Nat :=
  if l.name?.isNone then q.entryCount l.category else (l.entries q).length

/-- What is left of errands without the requests of other lanes. -/
def keeps (l : Lane) : Errand σ → Bool
  | .ask r _ => l.has r
  | .clear => true

/-! ## Changes of a pool -/

variable {l : Lane} {q q' : Pool} {r : PoolRequest}

theorem has_iff : l.has r = true ↔ r.category = l.category ∧ l.covers r.filedUnder = true := by
  simp [has]

theorem entries_of_sameNodes (h : Pool.SameNodes q q') : l.entries q' = l.entries q := by
  rw [entries, h.entries, entries]

theorem size_of_sameNodes (h : Pool.SameNodes q q') : l.size q' = l.size q := by
  rw [size, size, entries_of_sameNodes h, Pool.entryCount, h.count, Pool.entryCount]

/-- A request of the lane files in it. -/
theorem entries_file (hr : l.has r = true) (e : PoolEntry) (he : e.filedUnder = r.filedUnder) :
    l.entries (q.file r.category e) = l.entries q ++ [e] := by
  obtain ⟨hcategory, hcovers⟩ := has_iff.1 hr
  rw [entries, Pool.shelf_file, if_pos hcategory.symm, Shelf.file, List.filter_append, entries]
  simp [he, hcovers]

theorem size_file (hr : l.has r = true) (e : PoolEntry) (he : e.filedUnder = r.filedUnder) :
    l.size (q.file r.category e) = l.size q + 1 := by
  rw [size, size, entries_file hr e he, Pool.entryCount_file, (has_iff.1 hr).1]
  split <;> simp

/-- A request of another lane files elsewhere. -/
theorem entries_file_of_not (hr : l.has r = false) (e : PoolEntry) (he : e.filedUnder = r.filedUnder) :
    l.entries (q.file r.category e) = l.entries q := by
  rw [entries, Pool.shelf_file]
  split
  · next hcategory =>
    have hcovers : l.covers e.filedUnder = false := by
      rw [he, ← Bool.not_eq_true]
      intro hcovers
      rw [has_iff.2 ⟨hcategory.symm, hcovers⟩] at hr
      cases hr
    rw [Shelf.file, List.filter_append, entries]
    simp [hcovers]
  · rfl

theorem size_file_of_not (hr : l.has r = false) (e : PoolEntry) (he : e.filedUnder = r.filedUnder) :
    l.size (q.file r.category e) = l.size q := by
  rw [size, size, entries_file_of_not hr e he, Pool.entryCount_file]
  split
  · next hnone =>
    -- a lane without a name covers every name, so the request is of another category
    have hcategory : (r.category == l.category) = false := by
      rw [has, covers, Option.isNone_iff_eq_none.1 hnone] at hr
      simpa using hr
    rw [hcategory]
    rfl
  · rfl

/-! ## What a request of the lane depends on -/

theorem find?_eq (hr : l.has r = true) {s : Scalar} (hs : s ≠ .num .negativeZero) :
    q.find? r.category r.filedUnder (.scalar s) =
      ((l.entries q).find? (fun e => e.filedUnder == r.filedUnder && e.value.sameKey s)).map (·.node) := by
  obtain ⟨hcategory, hcovers⟩ := has_iff.1 hr
  have hkey : ∀ e : PoolEntry, decide (l.covers e.filedUnder = true ∧
      (e.filedUnder == r.filedUnder && e.value.sameKey s) = true) =
        (e.filedUnder == r.filedUnder && e.value.sameKey s) := by
    intro e
    by_cases he : e.filedUnder = r.filedUnder
    · simp [he, hcovers]
    · simp [he]
  simp only [Pool.find?, hs, if_false, Shelf.find?, entries, List.find?_filter, hkey, hcategory]

theorem length_filed (hr : l.has r = true) :
    ((q.shelf r.category).filed r.filedUnder).length = ((l.entries q).map (·.filedUnder)).count r.filedUnder := by
  obtain ⟨hcategory, hcovers⟩ := has_iff.1 hr
  rw [Shelf.filed, hcategory, entries, List.count_eq_length_filter, List.filter_map, List.length_map,
    List.filter_filter]
  congr 1
  refine List.filter_congr (fun e _ => ?_)
  by_cases he : e.filedUnder = r.filedUnder
  · simp [he, hcovers]
  · simp [he]

/-- What is admitted depends on the policy and on what is in the lane. -/
theorem admittedKey?_eq (hr : l.has r = true) (hpolicy : q'.policy = q.policy)
    (hnames : (l.entries q').map (·.filedUnder) = (l.entries q).map (·.filedUnder))
    (hsize : l.size q' = l.size q) :
    q'.admittedKey? r.category r.filedUnder r.value = q.admittedKey? r.category r.filedUnder r.value := by
  obtain ⟨hcategory, -⟩ := has_iff.1 hr
  have hfiled : ((q'.shelf r.category).filed r.filedUnder).length =
      ((q.shelf r.category).filed r.filedUnder).length := by rw [length_filed hr, length_filed hr, hnames]
  have hcount : r.category ≠ .int → r.category ≠ .bool → q'.entryCount r.category = q.entryCount r.category := by
    intro hint hbool
    have hnone : l.name?.isNone = true := by
      by_contra hsome
      rcases l.counted (by simpa [Option.isSome_iff_ne_none] using hsome) with h | h
      · exact hint (hcategory.trans h)
      · exact hbool (hcategory.trans h)
    rw [size, size, if_pos hnone, if_pos hnone] at hsize
    rwa [hcategory]
  have hadmits : ∀ value, q'.admitsScalar r.category r.filedUnder value =
      q.admitsScalar r.category r.filedUnder value := by
    intro value
    rcases hc : r.category with _ | _ | _ | _ <;> rw [hc] at hfiled hcount
    · simp only [Pool.admitsScalar, hpolicy]
    · simp only [Pool.admitsScalar, hpolicy, hfiled]
    · simp only [Pool.admitsScalar, hpolicy, hcount (by simp) (by simp)]
    · simp only [Pool.admitsScalar, hpolicy, hcount (by simp) (by simp)]
  simp only [Pool.admittedKey?, funext hadmits]

end Lane

/-! ## Two runs -/

/-- A kept request becomes the same in both runs, seen from the ones before it: it is
served with the nodes that one earlier request filed, or it is not served. -/
inductive Agrees (before : List (Reply × Reply)) : Reply × Reply → Prop
  | hit {x y : NodeId} : (.miss x true, .miss y true) ∈ before → Agrees before (.hit x, .hit y)
  | miss {x y : NodeId} {cached : Bool} : Agrees before (.miss x cached, .miss y cached)
  | failed : Agrees before (.failed, .failed)

/-- One earlier request filed both entries, and no test of kinds tells the nodes apart. -/
structure Tied (before : List (Reply × Reply)) (f f' : Forest) (e e' : PoolEntry) : Prop where
  name : e'.filedUnder = e.filedUnder
  value : e'.value = e.value
  origin : (.miss e.node true, .miss e'.node true) ∈ before
  accepted : ∀ m : Matcher, m.accepts f e.node = m.accepts f' e'.node
  real : e.node.index < f.size ∧ e'.node.index < f'.size

/-- Two runs of a factory both fail, or give nodes that no test of kinds tells apart. -/
inductive MadeAlike : Except Fault NodeId × (Forest × σ) → Except Fault NodeId × (Forest × σ) → Prop
  | failed {fault fault' s s'} : MadeAlike (.error fault, s) (.error fault', s')
  | made {x y s s'} : (∀ m : Matcher, m.accepts s.1 x = m.accepts s'.1 y) → MadeAlike (.ok x, s) (.ok y, s')

/-- Where a request is served in neither of two worlds, its factory does the same in both. -/
def Maker.Alike (make : Maker σ) (p : PoolId) (r : PoolRequest) (w w' : World σ) : Prop :=
  w.served? p r = none → w'.served? p r = none → MadeAlike (make.act.exec w.around) (make.act.exec w'.around)

namespace Lane

section Runs
variable (l : Lane) (tell : PoolEvent → Code σ Unit) (p : PoolId)

/-- The replies to the requests of the lane along errands that start in a world. -/
def heard : List (Errand σ) → World σ → List Reply
  | [], _ => []
  | .clear :: rest, w => heard rest (Errand.clear.after tell p w)
  | .ask r make :: rest, w =>
    if l.has r then w.reply p r make :: heard rest ((Errand.ask r make).after tell p w)
    else heard rest ((Errand.ask r make).after tell p w)

/-- What errands leave behind, one after the other. -/
def final (errands : List (Errand σ)) (w : World σ) : World σ := errands.foldl (Errand.after tell p) w

/-- Each time both runs come to ask a factory of the lane, it does the same in both. The
first run goes on all errands, the second only on those that are kept. -/
def MakesAlike : List (Errand σ) → World σ → World σ → Prop
  | [], _, _ => True
  | .clear :: rest, w, w' => MakesAlike rest (Errand.clear.after tell p w) (Errand.clear.after tell p w')
  | .ask r make :: rest, w, w' =>
    if l.has r then
      make.Alike p r w w' ∧
        MakesAlike rest ((Errand.ask r make).after tell p w) ((Errand.ask r make).after tell p w')
    else MakesAlike rest ((Errand.ask r make).after tell p w) w'

end Runs

/-- What the pools of the two runs have in common, given the replies so far. -/
structure Twin (l : Lane) (p : PoolId) (before : List (Reply × Reply)) (w w' : World σ) : Prop where
  opened : p.index < w.pools.size ∧ p.index < w'.pools.size
  free : ∀ c, (w.pool p).isHeld c = false ∧ (w'.pool p).isHeld c = false
  policy : (w'.pool p).policy = (w.pool p).policy
  entries : List.Forall₂ (Tied before w.forest w'.forest) (l.entries (w.pool p)) (l.entries (w'.pool p))
  size : l.size (w'.pool p) = l.size (w.pool p)

end Lane

section Twin

variable {l : Lane} {tell : PoolEvent → Code σ Unit} {p : PoolId} {before more : List (Reply × Reply)}
  {r : PoolRequest} {make : Maker σ} {w w' t t' : World σ} {f f' g g' : Forest} {e e' : PoolEntry}

/-- Ties last: replies are only added, and nodes keep their kinds. -/
theorem Tied.later (h : Tied before f f' e e') (hbefore : ∀ pair ∈ before, pair ∈ more) (hf : f.KeepsKinds g)
    (hf' : f'.KeepsKinds g') : Tied more g g' e e' where
  name := h.name
  value := h.value
  origin := hbefore _ h.origin
  accepted m := by rw [hf.accepts_eq h.real.1, hf'.accepts_eq h.real.2, h.accepted]
  real := ⟨Nat.lt_of_lt_of_le h.real.1 hf.size_le, Nat.lt_of_lt_of_le h.real.2 hf'.size_le⟩

/-- A search by name and key stops at the same place in both lists. -/
theorem find?_tied {es es' : List PoolEntry} (h : List.Forall₂ (Tied before f f') es es') (name : String)
    (key : Scalar) :
    (es.find? (fun e => e.filedUnder == name && e.value.sameKey key) = none ∧
      es'.find? (fun e => e.filedUnder == name && e.value.sameKey key) = none) ∨
    ∃ e e', Tied before f f' e e' ∧ es.find? (fun e => e.filedUnder == name && e.value.sameKey key) = some e ∧
      es'.find? (fun e => e.filedUnder == name && e.value.sameKey key) = some e' := by
  induction h with
  | nil => exact .inl ⟨rfl, rfl⟩
  | @cons e e' _ _ htied _ ih =>
    rw [List.find?_cons, List.find?_cons, htied.name, htied.value]
    rcases (e.filedUnder == name && e.value.sameKey key) with _ | _
    · exact ih
    · exact .inr ⟨e, e', htied, rfl, rfl⟩

namespace Lane.Twin

theorem names (h : l.Twin p before w w') :
    (l.entries (w'.pool p)).map (·.filedUnder) = (l.entries (w.pool p)).map (·.filedUnder) := by
  rw [← List.forall₂_eq_eq_eq, List.forall₂_map_left_iff, List.forall₂_map_right_iff]
  exact h.entries.flip.imp (fun _ _ htied => htied.name)

/-- A request of the lane finds nothing in both runs, or nodes with one origin. -/
theorem find? (h : l.Twin p before w w') (hr : l.has r = true) :
    ((w.pool p).find? r.category r.filedUnder r.value = none ∧
      (w'.pool p).find? r.category r.filedUnder r.value = none) ∨
    ∃ e e', Tied before w.forest w'.forest e e' ∧
      (w.pool p).find? r.category r.filedUnder r.value = some e.node ∧
      (w'.pool p).find? r.category r.filedUnder r.value = some e'.node := by
  rcases hvalue : r.value with _ | _ | s | _ | _ | _
  case scalar =>
    by_cases hs : s = .num .negativeZero
    · exact .inl ⟨by simp [Pool.find?, hs], by simp [Pool.find?, hs]⟩
    · rw [Lane.find?_eq hr hs, Lane.find?_eq hr hs]
      rcases find?_tied h.entries r.filedUnder s with ⟨hnone, hnone'⟩ | ⟨e, e', htied, hsome, hsome'⟩
      · exact .inl ⟨by rw [hnone]; rfl, by rw [hnone']; rfl⟩
      · exact .inr ⟨e, e', htied, by rw [hsome]; rfl, by rw [hsome']; rfl⟩
  all_goals exact .inl ⟨rfl, rfl⟩

theorem key?_eq (h : l.Twin p before w w') (hr : l.has r = true) (vacant : Bool) :
    w'.key? p r vacant = w.key? p r vacant := by
  rw [World.key?, World.key?, Lane.admittedKey?_eq hr h.policy h.names h.size]

/-- A kept request becomes the same in both runs. -/
theorem agrees (h : l.Twin p before w w') (hr : l.has r = true)
    (hmade : make.Alike p r w w') : Agrees before (w.reply p r make, w'.reply p r make) := by
  -- without a hit, all depends on the factory and on whether the key is vacant
  have unserved : w.served? p r = none → w'.served? p r = none → w'.vacant p r = w.vacant p r →
      Agrees before (w.reply p r make, w'.reply p r make) := by
    intro hserved hserved' hvacant
    have hmade := hmade hserved hserved'
    rw [World.reply, World.reply, hserved, hserved', hvacant, h.key?_eq hr]
    generalize make.act.exec w.around = run at hmade
    generalize make.act.exec w'.around = run' at hmade
    cases hmade with
    | failed => exact .failed
    | made => exact .miss
  rcases h.find? hr with ⟨hnone, hnone'⟩ | ⟨e, e', htied, hsome, hsome'⟩
  · refine unserved ?_ ?_ ?_
    · rw [World.served?, hnone, Option.filter_none]
    · rw [World.served?, hnone', Option.filter_none]
    · rw [World.vacant, World.vacant, hnone, hnone']
  · have haccepts : r.accepts w.forest e.node = r.accepts w'.forest e'.node := by
      unfold PoolRequest.accepts
      split
      · exact htied.accepted _
      · rfl
    rcases hyes : r.accepts w.forest e.node with _ | _
    · refine unserved ?_ ?_ ?_
      · rw [World.served?, hsome, Option.filter_some, if_neg (by simp [hyes])]
      · rw [World.served?, hsome', Option.filter_some, if_neg (by simp [← haccepts, hyes])]
      · rw [World.vacant, World.vacant, hsome, hsome']
        rfl
    · have hserved : w.served? p r = some e.node := by
        rw [World.served?, hsome, Option.filter_some, if_pos hyes]
      have hserved' : w'.served? p r = some e'.node := by
        rw [World.served?, hsome', Option.filter_some, if_pos (haccepts ▸ hyes)]
      rw [World.reply, World.reply, hserved, hserved']
      exact .hit htied.origin

end Lane.Twin

/-! ### What errands do to a lane -/

theorem Reply.filedUnder_filing? {reply : Reply} (h : reply.filing? r = some e) : e.filedUnder = r.filedUnder := by
  unfold filing? at h
  split at h
  · obtain ⟨_, -, rfl⟩ := Option.map_eq_some_iff.1 h
    rfl
  · cases h

theorem Asked.policy (h : Asked w p r make t) : (t.pool p).policy = (w.pool p).policy := by
  rw [h.nodes.policy]
  rcases (w.reply p r make).filing? r with _ | e
  · rfl
  · exact Pool.policy_setShelf _ _ _

theorem Asked.entries (h : Asked w p r make t) (hr : l.has r = true) :
    l.entries (t.pool p) = l.entries (w.pool p) ++ ((w.reply p r make).filing? r).toList := by
  rw [Lane.entries_of_sameNodes h.nodes]
  rcases he : (w.reply p r make).filing? r with _ | e
  · exact (List.append_nil _).symm
  · exact Lane.entries_file hr e (Reply.filedUnder_filing? he)

theorem Asked.size (h : Asked w p r make t) (hr : l.has r = true) :
    l.size (t.pool p) = l.size (w.pool p) + ((w.reply p r make).filing? r).toList.length := by
  rw [Lane.size_of_sameNodes h.nodes]
  rcases he : (w.reply p r make).filing? r with _ | e
  · rfl
  · exact Lane.size_file hr e (Reply.filedUnder_filing? he)

theorem Asked.aside (h : Asked w p r make t) (hr : l.has r = false) :
    l.entries (t.pool p) = l.entries (w.pool p) ∧ l.size (t.pool p) = l.size (w.pool p) := by
  rw [Lane.entries_of_sameNodes h.nodes, Lane.size_of_sameNodes h.nodes]
  rcases he : (w.reply p r make).filing? r with _ | e
  · exact ⟨rfl, rfl⟩
  · have hname := Reply.filedUnder_filing? he
    exact ⟨Lane.entries_file_of_not hr e hname, Lane.size_file_of_not hr e hname⟩

theorem World.of_reply_miss {x : NodeId} {cached : Bool} (h : w.reply p r make = .miss x cached) :
    w.served? p r = none ∧ ∃ s, make.act.exec w.around = (.ok x, s) := by
  unfold World.reply at h
  split at h
  · cases h
  · next hserved =>
    rcases hrun : make.act.exec w.around with ⟨fault | node, s⟩ <;> rw [hrun] at h <;> cases h
    exact ⟨hserved, s, rfl⟩

/-- What a kept request files in the two runs is tied. -/
theorem tied_of_asked (ht : Asked w p r make t) (ht' : Asked w' p r make t')
    (hmade : make.Alike p r w w')
    (hagrees : Agrees before (w.reply p r make, w'.reply p r make)) :
    List.Forall₂ (Tied (before ++ [(w.reply p r make, w'.reply p r make)]) t.forest t'.forest)
      ((w.reply p r make).filing? r).toList ((w'.reply p r make).filing? r).toList := by
  generalize hreply : w.reply p r make = reply at hagrees ⊢
  generalize hreply' : w'.reply p r make = reply' at hagrees ⊢
  cases hagrees with
  | hit => exact .nil
  | failed => exact .nil
  | @miss x y cached =>
    obtain ⟨hserved, s, hrun⟩ := World.of_reply_miss hreply
    obtain ⟨hserved', s', hrun'⟩ := World.of_reply_miss hreply'
    have hkinds := ht.made hserved
    have hkinds' := ht'.made hserved'
    have hmade := hmade hserved hserved'
    rw [hrun] at hkinds hmade
    rw [hrun'] at hkinds' hmade
    cases hmade with
    | made haccepts =>
      have hreal := make.real hrun
      have hreal' := make.real hrun'
      rcases cached with _ | _
      · exact .nil
      · simp only [Reply.filing?]
        rcases r.value.scalar? with _ | value
        · exact .nil
        · refine .cons ⟨rfl, rfl, by simp, fun m => ?_, ?_⟩ .nil
          · rw [hkinds.accepts_eq hreal, hkinds'.accepts_eq hreal']
            exact haccepts m
          · exact ⟨Nat.lt_of_lt_of_le hreal hkinds.size_le, Nat.lt_of_lt_of_le hreal' hkinds'.size_le⟩

namespace Lane.Twin

/-- A request of the lane, made in both runs. -/
theorem kept (h : l.Twin p before w w') (hr : l.has r = true) (ht : Asked w p r make t)
    (ht' : Asked w' p r make t') (hmade : make.Alike p r w w') :
    l.Twin p (before ++ [(w.reply p r make, w'.reply p r make)]) t t' := by
  have hnew := tied_of_asked ht ht' hmade (h.agrees hr hmade)
  refine ⟨⟨ht.opened, ht'.opened⟩, fun c => ⟨ht.free c, ht'.free c⟩, ?_, ?_, ?_⟩
  · rw [ht.policy, ht'.policy, h.policy]
  · rw [ht.entries hr, ht'.entries hr]
    refine List.rel_append (h.entries.imp (fun e e' htied => ?_)) hnew
    exact htied.later (fun pair hpair => List.mem_append_left _ hpair) ht.kinds ht'.kinds
  · rw [ht.size hr, ht'.size hr, h.size, hnew.length_eq]

/-- A request of another lane, made in the first run only. -/
theorem dropped (h : l.Twin p before w w') (hr : l.has r = false) (ht : Asked w p r make t) :
    l.Twin p before t w' := by
  obtain ⟨hentries, hsize⟩ := ht.aside hr
  refine ⟨⟨ht.opened, h.opened.2⟩, fun c => ⟨ht.free c, (h.free c).2⟩, ?_, ?_, ?_⟩
  · rw [ht.policy, h.policy]
  · rw [hentries]
    exact h.entries.imp (fun e e' htied => htied.later (fun _ hpair => hpair) ht.kinds (.refl _))
  · rw [hsize, h.size]

/-- Two new pools. -/
theorem anew {policy : PoolPolicy} (opened : p.index < w.pools.size ∧ p.index < w'.pools.size)
    (new : w.pool p = { policy }) (new' : w'.pool p = { policy }) : l.Twin p before w w' := by
  refine ⟨opened, fun c => ?_, ?_, ?_, ?_⟩
  · rw [new, new']
    cases c <;> exact ⟨rfl, rfl⟩
  · rw [new, new']
  · rw [new, new']
    have hempty : l.entries { policy } = [] := by
      rcases l with ⟨_ | _ | _ | _, name?, counted⟩ <;> rfl
    rw [hempty]
    exact .nil
  · rw [new, new']

/-- Errands keep what the pools have in common, and the replies agree one by one. -/
theorem run (errands : List (Errand σ)) (h : l.Twin p before w w')
    (hmade : l.MakesAlike tell p errands w w') :
    ∃ pairs, l.heard tell p errands w = pairs.map (·.1) ∧
      l.heard tell p (errands.filter l.keeps) w' = pairs.map (·.2) ∧
      (∀ front pair back, pairs = front ++ pair :: back → Agrees (before ++ front) pair) ∧
      l.Twin p (before ++ pairs) (final tell p errands w) (final tell p (errands.filter l.keeps) w') := by
  induction errands generalizing before w w' with
  | nil => exact ⟨[], rfl, rfl, by simp, by simpa [final] using h⟩
  | cons errand rest ih =>
    cases errand with
    | clear =>
      obtain ⟨hnew, hopened, -⟩ := cleared tell h.opened.1 (fun c => (h.free c).1)
      obtain ⟨hnew', hopened', -⟩ := cleared tell h.opened.2 (fun c => (h.free c).2)
      rw [h.policy] at hnew'
      exact ih (.anew ⟨hopened, hopened'⟩ hnew hnew') hmade
    | ask r make =>
      have hasked := asked tell r make h.opened.1 (fun c => (h.free c).1)
      have hasked' := asked tell r make h.opened.2 (fun c => (h.free c).2)
      rcases hr : l.has r with _ | _
      · simp only [MakesAlike, hr] at hmade
        have hkeeps : (Errand.ask r make :: rest).filter l.keeps = rest.filter l.keeps := by
          simp [keeps, hr]
        obtain ⟨pairs, hheard, hheard', hagrees, htwin⟩ := ih (h.dropped hr hasked) hmade
        rw [hkeeps]
        exact ⟨pairs, by simpa [heard, hr] using hheard, hheard', hagrees, htwin⟩
      · simp only [MakesAlike, hr, if_true] at hmade
        have hkeeps : (Errand.ask r make :: rest).filter l.keeps = .ask r make :: rest.filter l.keeps := by
          simp [keeps, hr]
        obtain ⟨pairs, hheard, hheard', hagrees, htwin⟩ := ih (h.kept hr hasked hasked' hmade.1) hmade.2
        rw [hkeeps]
        refine ⟨(w.reply p r make, w'.reply p r make) :: pairs, ?_, ?_, fun front pair back hsplit => ?_, ?_⟩
        · simp [heard, hr, hheard]
        · simp [heard, hr, hheard']
        · cases front with
          | nil =>
            obtain ⟨rfl, -⟩ := List.cons.inj hsplit
            simpa using h.agrees hr hmade.1
          | cons first front =>
            obtain ⟨rfl, htail⟩ := List.cons.inj hsplit
            simpa using hagrees front pair back htail
        · simpa [final] using htwin

end Lane.Twin

end Twin

/-- From a new pool, whatever its policy: errands are compared with those that are left
when all requests of other lanes are deleted, both runs asking factories that do the same.
Each request of the lane becomes the same in both runs, a hit on the node of one earlier
request or a miss that is cached in both or in none, and in the end the lane has the same
entries, filed by the same requests, and the same size. -/
theorem lanes_are_independent (l : Lane) (tell : PoolEvent → Code σ Unit) (errands : List (Errand σ))
    {w : World σ} {p : PoolId} {policy : PoolPolicy} (opened : p.index < w.pools.size)
    (new : w.pool p = { policy }) (alike : l.MakesAlike tell p errands w w) :
    ∃ pairs, l.heard tell p errands w = pairs.map (·.1) ∧
      l.heard tell p (errands.filter l.keeps) w = pairs.map (·.2) ∧
      (∀ front pair back, pairs = front ++ pair :: back → Agrees front pair) ∧
      List.Forall₂
        (Tied pairs (Lane.final tell p errands w).forest (Lane.final tell p (errands.filter l.keeps) w).forest)
        (l.entries ((Lane.final tell p errands w).pool p))
        (l.entries ((Lane.final tell p (errands.filter l.keeps) w).pool p)) ∧
      l.size ((Lane.final tell p (errands.filter l.keeps) w).pool p) =
        l.size ((Lane.final tell p errands w).pool p) := by
  have hstart : l.Twin p [] w w := .anew ⟨opened, opened⟩ new new
  obtain ⟨pairs, hheard, hheard', hagrees, htwin⟩ := hstart.run errands alike
  exact ⟨pairs, hheard, hheard', hagrees, htwin.entries, htwin.size⟩

/-! ## Factories that do the same each time -/

/-- Whatever is around the factory, it fails, or it gives nodes that no test of kinds tells
apart. -/
def Maker.Steady (make : Maker σ) : Prop := ∀ s s', MadeAlike (make.act.exec s) (make.act.exec s')

theorem Lane.makesAlike_of_steady {l : Lane} {tell : PoolEvent → Code σ Unit} {p : PoolId}
    {errands : List (Errand σ)} (h : ∀ r make, .ask r make ∈ errands → l.has r = true → make.Steady)
    (w w' : World σ) : l.MakesAlike tell p errands w w' := by
  induction errands generalizing w w' with
  | nil => trivial
  | cons errand rest ih =>
    have hrest := ih (fun r make hmem => h r make (List.mem_cons_of_mem _ hmem))
    cases errand with
    | clear => exact hrest _ _
    | ask r make =>
      unfold MakesAlike
      split
      · next hr => exact ⟨fun _ _ => h r make (List.mem_cons_self ..) hr _ _, hrest _ _⟩
      · exact hrest _ _

/-- Whether a record fits does not depend on the names of kinds around, nor does what is stored. -/
theorem FieldTable.settle_alike (table : FieldTable) (kindOf kindOf' : NodeId → String) (kind : String)
    (fields : Fields) :
    (∃ fault fault', table.settle kindOf kind fields = .error fault ∧
      table.settle kindOf' kind fields = .error fault') ∨
    ∃ stored, table.settle kindOf kind fields = .ok stored ∧ table.settle kindOf' kind fields = .ok stored := by
  simp only [settle, check]
  rcases table.mismatch? (table.mapNodes .node fields) with _ | e
  · exact .inr ⟨_, rfl, rfl⟩
  · exact .inl ⟨_, _, rfl, rfl⟩

theorem Maker.steady_building (kind : Kind) (span : Span) (fields : Fields) :
    (Maker.building kind span fields : Maker σ).Steady := by
  have hadded : ∀ (f : Forest) (n : Node), (f.add n).2.kind? (f.add n).1 = n.kind? := by
    intro f n
    rw [Forest.kind?, Forest.node?_add_self]
    rfl
  intro s s'
  simp only [building, Act.exec_onPart, Forest.exec_build]
  rcases kind.table.settle_alike s.1.kindName s'.1.kindName kind.name fields with
    ⟨fault, fault', hs, hs'⟩ | ⟨stored, hs, hs'⟩
  · rw [hs, hs']
    exact .failed
  · rw [hs, hs']
    refine .made (fun m => Forest.accepts_eq_of_kind? m ?_)
    rw [hadded, hadded]

/-! ## Kinds that share truth values -/

namespace Crowded

/-- Kinds of one field share truth values. -/
def flag (index : Nat) (name : String) : Kind :=
  { id := ⟨index⟩, name, strategy := .pooled, table := [⟨"value", .scalar .bool false⟩], families := []
    displayName := none, poolCategory := some .bool }

/-- Every kind may keep one truth value. -/
def policy : PoolPolicy := { PoolPolicy.standard with boolEntries := .ofNat 1 }

def world : World Nat := { pools := #[{ policy }], host := 0 }

/-- The listener counts events. -/
def counting (_ : PoolEvent) : Code Nat Unit where
  act := modify (fun s => (s.1, s.2 + 1))
  keeps s := .refl s.1

def getting (kind : Kind) (value : Bool) : Errand Nat :=
  .ask { category := .bool, value := .bool value, matcher := some (.exactly kind) }
    (.building kind .empty [("value", .bool value)])

def errands : List (Errand Nat) :=
  [getting (flag 0 "On") true, getting (flag 1 "Off") true, getting (flag 0 "On") false,
    getting (flag 1 "Off") true, getting (flag 1 "Off") false]

def lane : Lane := { category := .bool, name? := some "Off", counted := fun _ => .inr rfl }

theorem alike : lane.MakesAlike counting ⟨0⟩ errands world world := by
  refine Lane.makesAlike_of_steady (fun r make hmem _ => ?_) world world
  simp only [errands, getting, List.mem_cons, Errand.ask.injEq, List.not_mem_nil, or_false] at hmem
  rcases hmem with ⟨-, rfl⟩ | ⟨-, rfl⟩ | ⟨-, rfl⟩ | ⟨-, rfl⟩ | ⟨-, rfl⟩ <;> exact Maker.steady_building _ _ _

/-- One kind has used up its truth values and another one does not notice: its first value
is kept, asked for again it is served, and its second value is one too many. -/
theorem off_has_its_own_values : 0 < world.pools.size ∧ world.pool ⟨0⟩ = { policy } ∧
    lane.MakesAlike counting ⟨0⟩ errands world world ∧ ∃ pairs,
      [.miss ⟨1⟩ true, .hit ⟨1⟩, .miss ⟨3⟩ false] = pairs.map (·.1) ∧
      [.miss ⟨0⟩ true, .hit ⟨0⟩, .miss ⟨1⟩ false] = pairs.map (·.2) ∧
      (∀ front pair back, pairs = front ++ pair :: back → Agrees front pair) ∧
      lane.size ((Lane.final counting ⟨0⟩ (errands.filter lane.keeps) world).pool ⟨0⟩) =
        lane.size ((Lane.final counting ⟨0⟩ errands world).pool ⟨0⟩) := by
  obtain ⟨pairs, hheard, hheard', hagrees, -, hsize⟩ :=
    lanes_are_independent lane counting errands (w := world) (p := ⟨0⟩) (by decide) rfl alike
  have hfull : lane.heard counting ⟨0⟩ errands world = [.miss ⟨1⟩ true, .hit ⟨1⟩, .miss ⟨3⟩ false] := by
    decide +kernel
  have hkept : lane.heard counting ⟨0⟩ (errands.filter lane.keeps) world =
      [.miss ⟨0⟩ true, .hit ⟨0⟩, .miss ⟨1⟩ false] := by decide +kernel
  rw [hfull] at hheard
  rw [hkept] at hheard'
  exact ⟨by decide, rfl, alike, pairs, hheard, hheard', hagrees, hsize⟩

end Crowded

end SyntaxForest
