import SyntaxForest.Proofs.Forest.Unfolding
/-!
# The order of discovery

`Forest.discover` lists the nodes of any graph in the order in which a depth-first
walk from left to right first comes upon them: a node that was seen before is passed
over, together with all that is below it. Main statements: nothing is listed twice,
what is listed is what can be reached (`mem_discover_iff`), and where no cycle can be
reached the list is the preorder with each node kept at its first place
(`discover_eq_eraseDups`).
-/

namespace SyntaxForest.Forest

variable {f : Forest} {id n : NodeId} {seen todo ids : List NodeId}

/-- How many nodes of the forest are not in a list. -/
def unseen (f : Forest) (seen : List NodeId) : Nat :=
  ((Finset.range f.size).filter (fun i => (⟨i⟩ : NodeId) ∉ seen)).card

theorem unseen_cons_lt (h : id ∉ seen) (hid : id.index < f.size) : f.unseen (id :: seen) < f.unseen seen := by
  apply Finset.card_lt_card
  rw [Finset.ssubset_iff_of_subset]
  · exact ⟨id.index, by simp [hid, h], by simp⟩
  · exact Finset.monotone_filter_right _ (fun i _ hi hmem => hi (List.mem_cons_of_mem _ hmem))

theorem unseen_cons_eq (hid : f.size ≤ id.index) : f.unseen (id :: seen) = f.unseen seen := by
  refine congrArg Finset.card (Finset.filter_congr (fun i hi => ?_))
  have hne : (⟨i⟩ : NodeId) ≠ id := by
    rintro rfl
    exact absurd (Finset.mem_range.1 hi) (Nat.not_lt.2 hid)
  simp [hne]

/-- The nodes that a walk comes upon first, with these nodes seen before and these
still to be walked from. -/
def discover (f : Forest) : (seen todo : List NodeId) → List NodeId
  | _, [] => []
  | seen, id :: rest =>
    if id ∈ seen then discover f seen rest
    else id :: discover f (id :: seen) (f.children id ++ rest)
termination_by seen todo => (f.unseen seen, todo.length)
decreasing_by
  · exact Prod.Lex.right _ (Nat.lt_succ_self _)
  · next h =>
    by_cases hid : id.index < f.size
    · exact Prod.Lex.left _ _ (unseen_cons_lt h hid)
    · -- outside the forest there is nothing below
      have hout : f.size ≤ id.index := Nat.le_of_not_lt hid
      rw [unseen_cons_eq hout, children_eq_nil hout]
      exact Prod.Lex.right _ (Nat.lt_succ_self _)

@[simp] theorem discover_nil (f : Forest) (seen : List NodeId) : f.discover seen [] = [] := by
  rw [discover]

theorem discover_of_mem (h : id ∈ seen) : f.discover seen (id :: todo) = f.discover seen todo := by
  rw [discover, if_pos h]

theorem discover_of_notMem (h : id ∉ seen) :
    f.discover seen (id :: todo) = id :: f.discover (id :: seen) (f.children id ++ todo) := by
  rw [discover, if_neg h]

/-- A walk goes on from where it stands after a first part. -/
theorem discover_append (f : Forest) (seen todo more : List NodeId) :
    f.discover seen (todo ++ more) =
      f.discover seen todo ++ f.discover ((f.discover seen todo).reverse ++ seen) more := by
  fun_induction f.discover seen todo with
  | case1 seen => simp
  | case2 seen id rest h ih => rw [List.cons_append, discover_of_mem h, ih]
  | case3 seen id rest h ih =>
    rw [List.cons_append, discover_of_notMem h, ← List.append_assoc, ih]
    simp

/-! ## What is listed -/

theorem notMem_of_mem_discover (h : n ∈ f.discover seen todo) : n ∉ seen := by
  fun_induction f.discover seen todo with
  | case1 => cases h
  | case2 _ _ _ _ ih => exact ih h
  | case3 seen id rest hid ih =>
    rcases List.mem_cons.1 h with rfl | h
    · exact hid
    · exact fun hn => ih h (List.mem_cons_of_mem _ hn)

theorem nodup_discover (f : Forest) (seen todo : List NodeId) : (f.discover seen todo).Nodup := by
  fun_induction f.discover seen todo with
  | case1 => exact .nil
  | case2 _ _ _ _ ih => exact ih
  | case3 seen id rest _ ih =>
    exact List.nodup_cons.2 ⟨fun h => notMem_of_mem_discover h (List.mem_cons_self ..), ih⟩

theorem reaches_of_mem_discover (h : n ∈ f.discover seen todo) : ∃ r ∈ todo, f.Reaches r n := by
  fun_induction f.discover seen todo with
  | case1 => cases h
  | case2 _ id rest _ ih =>
    obtain ⟨r, hr, hreach⟩ := ih h
    exact ⟨r, List.mem_cons_of_mem _ hr, hreach⟩
  | case3 seen id rest _ ih =>
    rcases List.mem_cons.1 h with rfl | h
    · exact ⟨n, List.mem_cons_self .., .refl⟩
    · obtain ⟨r, hr, hreach⟩ := ih h
      rcases List.mem_append.1 hr with hr | hr
      · exact ⟨id, List.mem_cons_self .., .head hr hreach⟩
      · exact ⟨r, List.mem_cons_of_mem _ hr, hreach⟩

/-- What was to be walked from ends up seen. -/
theorem seen_of_mem_todo (h : n ∈ todo) : n ∈ seen ∨ n ∈ f.discover seen todo := by
  fun_induction f.discover seen todo with
  | case1 => cases h
  | case2 seen id rest hid ih =>
    rcases List.mem_cons.1 h with rfl | h
    · exact .inl hid
    · exact ih h
  | case3 seen id rest _ ih =>
    rcases List.mem_cons.1 h with rfl | h
    · exact .inr (List.mem_cons_self ..)
    · rcases ih (List.mem_append_right _ h) with hn | hn
      · exact (List.mem_cons.1 hn).elim (fun he => .inr (he ▸ List.mem_cons_self ..)) .inl
      · exact .inr (List.mem_cons_of_mem _ hn)

/-- Each listed node has all it holds seen in the end. -/
theorem seen_of_holds (h : n ∈ f.discover seen todo) {b : NodeId} (hb : f.Holds n b) :
    b ∈ seen ∨ b ∈ f.discover seen todo := by
  fun_induction f.discover seen todo with
  | case1 => cases h
  | case2 _ _ _ _ ih => exact ih h
  | case3 seen id rest _ ih =>
    have hseen : b ∈ id :: seen ∨ b ∈ f.discover (id :: seen) (f.children id ++ rest) := by
      rcases List.mem_cons.1 h with rfl | h
      · exact seen_of_mem_todo (List.mem_append_left _ hb)
      · exact ih h
    rcases hseen with hb | hb
    · exact (List.mem_cons.1 hb).elim (fun he => .inr (he ▸ List.mem_cons_self ..)) .inl
    · exact .inr (List.mem_cons_of_mem _ hb)

/-- A walk with nothing seen before lists exactly what can be reached. -/
theorem mem_discover_iff (f : Forest) (todo : List NodeId) (n : NodeId) :
    n ∈ f.discover [] todo ↔ ∃ r ∈ todo, f.Reaches r n := by
  refine ⟨reaches_of_mem_discover, ?_⟩
  rintro ⟨r, hr, hreach⟩
  induction hreach with
  | refl => exact (seen_of_mem_todo hr).resolve_left List.not_mem_nil
  | tail _ hstep ih => exact (seen_of_holds ih hstep).resolve_left List.not_mem_nil

/-! ## Without cycles -/

/-- The items of a list at their first places, apart from those seen before. -/
def firsts (seen l : List NodeId) : List NodeId := (l.filter (· ∉ seen)).eraseDups

theorem mem_firsts {l : List NodeId} : n ∈ firsts seen l ↔ n ∈ l ∧ n ∉ seen := by
  simp [firsts, List.mem_eraseDups]

theorem firsts_nil_seen (l : List NodeId) : firsts [] l = l.eraseDups := by
  simp [firsts]

theorem firsts_eq_nil {l : List NodeId} (h : ∀ n ∈ l, n ∈ seen) : firsts seen l = [] := by
  rw [firsts, List.filter_eq_nil_iff.2 (by simpa using h), List.eraseDups_nil]

theorem firsts_append (seen l more : List NodeId) :
    firsts seen (l ++ more) = firsts seen l ++ firsts ((firsts seen l).reverse ++ seen) more := by
  rw [firsts, List.filter_append, List.eraseDups_append]
  refine congrArg (fun rest => firsts seen l ++ List.eraseDups rest) ?_
  rw [List.removeAll, List.filter_filter]
  refine List.filter_congr (fun n _ => ?_)
  by_cases hl : n ∈ l <;> by_cases hs : n ∈ seen <;> simp [hl, hs, mem_firsts]

theorem firsts_cons (h : id ∉ seen) (l : List NodeId) :
    firsts seen (id :: l) = id :: firsts (id :: seen) l := by
  have hone : firsts seen [id] = [id] := by simp [firsts, h, List.eraseDups_cons]
  rw [← List.singleton_append, firsts_append, hone]
  rfl

/-- Of the nodes within reach, those seen before have everything below them seen. -/
def SeenBelow (f : Forest) (seen ids : List NodeId) : Prop :=
  ∀ r ∈ ids, ∀ n ∈ seen, f.Reaches r n → ∀ b, f.Reaches n b → b ∈ seen

/-- What a walk skips has been listed in full, so it lists what the preorder walk lists,
without the repetitions. -/
theorem discover_eq_firsts (acyclic : ∀ r ∈ ids, ¬ f.HasCycle r) (hseen : f.SeenBelow seen ids) :
    f.discover seen ids = firsts seen (ids.flatMap f.preorder) := by
  -- by induction on how far the nodes reach, then along the list
  obtain ⟨bound, hbound⟩ : ∃ bound, ∀ r ∈ ids, f.reach r < bound :=
    ⟨f.size + 1, fun r _ => Nat.lt_succ_of_le (f.reach_le_size r)⟩
  induction bound generalizing seen ids with
  | zero =>
    obtain rfl : ids = [] := List.eq_nil_iff_forall_not_mem.2 (fun r hr => Nat.not_lt_zero _ (hbound r hr))
    simp [firsts]
  | succ bound below =>
    induction ids generalizing seen with
    | nil => simp [firsts]
    | cons id rest ihr =>
      obtain ⟨hid, hrest⟩ := List.forall_mem_cons.1 acyclic
      obtain ⟨hbid, hbrest⟩ := List.forall_mem_cons.1 hbound
      rw [List.flatMap_cons]
      by_cases hmem : id ∈ seen
      · have hskipped : firsts seen (f.preorder id) = [] := firsts_eq_nil (fun n hn =>
          hseen id (List.mem_cons_self ..) id hmem .refl n ((mem_preorder_iff hid).1 hn))
        rw [discover_of_mem hmem, firsts_append, hskipped]
        exact ihr hrest (fun r hr => hseen r (List.mem_cons_of_mem _ hr)) hbrest
      · have hchildren : f.discover (id :: seen) (f.children id) =
            firsts (id :: seen) ((f.children id).flatMap f.preorder) := by
          refine below (fun b hb => not_hasCycle_of_reaches hid (.single hb)) ?_
            (fun b hb => Nat.lt_of_lt_of_le (reach_lt hid hb) (Nat.le_of_lt_succ hbid))
          intro b hb n hn hbn c hnc
          rcases List.mem_cons.1 hn with rfl | hn
          · -- nothing below a node leads back to it
            exact absurd ⟨n, .refl, .head' hb hbn⟩ hid
          · exact List.mem_cons_of_mem _
              (hseen id (List.mem_cons_self ..) n hn (.head hb hbn) c hnc)
        have hnode : f.discover seen [id] = firsts seen (f.preorder id) := by
          rw [discover_of_notMem hmem, List.append_nil, hchildren, preorder_eq hid, firsts_cons hmem]
        rw [← List.singleton_append, discover_append, hnode, firsts_append]
        refine congrArg _ (ihr hrest ?_ hbrest)
        intro r hr n hn hrn c hnc
        rw [List.mem_append, List.mem_reverse, mem_firsts] at hn ⊢
        by_cases hc : c ∈ seen
        · exact .inr hc
        · rcases hn with ⟨hn, -⟩ | hn
          · exact .inl ⟨(mem_preorder_iff hid).2 (((mem_preorder_iff hid).1 hn).trans hnc), hc⟩
          · exact absurd (hseen r (List.mem_cons_of_mem _ hr) n hn hrn c hnc) hc

theorem discover_eq_eraseDups {root : NodeId} (acyclic : ¬ f.HasCycle root) :
    f.discover [] [root] = (f.preorder root).eraseDups := by
  rw [discover_eq_firsts (by simpa using acyclic) (fun _ _ n hn => absurd hn List.not_mem_nil),
    firsts_nil_seen]
  simp

end SyntaxForest.Forest
