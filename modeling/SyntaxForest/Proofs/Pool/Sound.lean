import Mathlib.Data.List.Pairwise
import SyntaxForest.Proofs.Pool.Policy
import SyntaxForest.Proofs.Pool.Shelf
/-!
# Sound pools

A pool is sound when its counts are right, its keys are apart, and every entry is
one its policy allows. Emptying a category keeps this, and so does filing a new
key that the policy admits (`Sound.file`); locks and counters do not matter.
-/

namespace SyntaxForest

/-- Two entries that are one entry of a map: the same name, and values that are one key. -/
def PoolEntry.Clash (a b : PoolEntry) : Prop :=
  a.filedUnder = b.filedUnder ∧ a.value.sameKey b.value = true

/-- Texts that are not too long, and not too many. -/
structure Shelf.WithinLimits (s : Shelf) (limits : TextLimits) : Prop where
  lengths : ∀ e ∈ s.entries, ∃ t, e.value = .text t ∧ limits.maxLength.coversCount (Text.length16 t) = true
  number : limits.maxEntries.coversCount s.entries.length = true

/-- What a pool remembers is counted and within its policy. -/
structure Pool.Sound (p : Pool) : Prop where
  counted : ∀ c, p.entryCount c = (p.shelf c).entries.length
  apart : ∀ c, (p.shelf c).entries.Pairwise (fun a b => ¬a.Clash b)
  ints : ∀ e ∈ (p.shelf .int).entries, ∃ n, e.value = .num n ∧ n.isInteger = true ∧
    p.policy.int.min.atMost n = true ∧ n.atMost p.policy.int.max = true
  truths : ∀ e ∈ (p.shelf .bool).entries, ∃ b, e.value = .bool b
  bools : ∀ name, p.policy.boolEntries.coversCount ((p.shelf .bool).filed name).length = true
  strings : (p.shelf .string).WithinLimits p.policy.string
  identifiers : (p.shelf .identifier).WithinLimits p.policy.identifier

namespace Pool

variable {p q : Pool} {c : PoolCategory}

theorem sound_fresh {policy : PoolPolicy} (h : policy.Capped) : Sound { policy } := by
  constructor
  · intro c
    cases c <;> rfl
  · intro c
    cases c <;> exact .nil
  · intro e he
    cases he
  · intro e he
    cases he
  · intro name
    exact h.boolEntries.coversCount_zero
  · exact ⟨fun e he => (nomatch he), h.string.coversCount_zero⟩
  · exact ⟨fun e he => (nomatch he), h.identifier.coversCount_zero⟩

/-- A pool that remembers no more than a sound one, and counts it, is sound. -/
theorem Sound.of_sublist (h : p.Sound) (hpolicy : q.policy = p.policy)
    (hcount : ∀ c, q.entryCount c = (q.shelf c).entries.length)
    (hsub : ∀ c, (q.shelf c).entries.Sublist (p.shelf c).entries) : q.Sound := by
  have hlimits : ∀ {c limits}, (p.shelf c).WithinLimits limits → (q.shelf c).WithinLimits limits := by
    intro c limits hc
    exact ⟨fun e he => hc.lengths e ((hsub c).subset he),
      Number.coversCount_of_le hc.number (hsub c).length_le⟩
  constructor
  · exact hcount
  · exact fun c => (h.apart c).sublist (hsub c)
  · rw [hpolicy]
    exact fun e he => h.ints e ((hsub .int).subset he)
  · exact fun e he => h.truths e ((hsub .bool).subset he)
  · intro name
    rw [hpolicy]
    exact Number.coversCount_of_le (h.bools name) ((hsub .bool).filter _).length_le
  · rw [hpolicy]
    exact hlimits h.strings
  · rw [hpolicy]
    exact hlimits h.identifiers

/-- Locks and counters do not matter. -/
theorem Sound.of_sameNodes (h : p.Sound) (same : SameNodes p q) : q.Sound := by
  refine h.of_sublist same.policy (fun c => ?_) (fun c => ?_)
  · rw [entryCount, same.count, same.entries]
    exact h.counted c
  · simp [same.entries]

theorem Sound.emptyShelf (h : p.Sound) (c : PoolCategory) : (p.emptyShelf c).Sound := by
  refine h.of_sublist (policy_setShelf _ _ _) (fun d => ?_) (fun d => ?_)
  · rw [entryCount, shelf_emptyShelf]
    split
    · rfl
    · exact h.counted d
  · rw [shelf_emptyShelf]
    split
    · exact List.nil_sublist _
    · exact .refl _

/-! ## Filing a node -/

theorem int_of_admits {name : String} {v : Scalar} (h : p.admitsScalar .int name v = true) :
    ∃ n, v = .num n ∧ n.isInteger = true ∧ n ≠ .negativeZero ∧ p.policy.int.min.atMost n = true ∧
      n.atMost p.policy.int.max = true := by
  cases v with
  | num n =>
    simp only [admitsScalar, Bool.and_eq_true, bne_iff_ne] at h
    exact ⟨n, rfl, h.1.1.1, h.1.1.2, h.1.2, h.2⟩
  | _ => cases h

theorem bool_of_admits {name : String} {v : Scalar} (h : p.admitsScalar .bool name v = true) :
    (∃ b, v = .bool b) ∧ p.policy.boolEntries.exceedsCount ((p.shelf .bool).filed name).length = true := by
  cases v with
  | bool b => exact ⟨⟨b, rfl⟩, h⟩
  | _ => cases h

theorem text_of_admits {limits : TextLimits} {count : Nat} {v : Scalar}
    (h : admitsText limits count v = true) : (∃ t, v = .text t ∧
      limits.maxLength.coversCount (Text.length16 t) = true) ∧ limits.maxEntries.exceedsCount count = true := by
  cases v with
  | text t =>
    simp only [admitsText, Bool.and_eq_true] at h
    exact ⟨⟨t, rfl, h.1⟩, h.2⟩
  | _ => cases h

/-- No category admits negative zero. -/
theorem ne_negativeZero_of_admits {name : String} {v : Scalar} (h : p.admitsScalar c name v = true) :
    v ≠ .num .negativeZero := by
  rintro rfl
  cases c with
  | int =>
    obtain ⟨n, hn, -, hne, -⟩ := int_of_admits h
    cases hn
    exact hne rfl
  | _ => cases h

/-- A text shelf that admits one more text is still within its limits with it. -/
theorem withinLimits_file {limits : TextLimits} {s : Shelf} {e : PoolEntry} (h : s.WithinLimits limits)
    (cap : limits.maxEntries.IsCap) (admitted : admitsText limits s.entries.length e.value = true) :
    (s.file e).WithinLimits limits := by
  obtain ⟨htext, hroom⟩ := text_of_admits admitted
  constructor
  · intro d hd
    rcases List.mem_append.1 hd with hold | hnew
    · exact h.lengths d hold
    · rw [List.mem_singleton.1 hnew]
      exact htext
  · have hlength : (s.file e).entries.length = s.entries.length + 1 := by simp [Shelf.file]
    rw [hlength]
    exact Number.coversCount_succ cap.isInteger hroom

/-- Filing a new key that the policy admits. Each cap was checked against the number
of entries before, so it holds for one more. -/
theorem Sound.file (h : p.Sound) (capped : p.policy.Capped) {e : PoolEntry}
    (admitted : p.admitsScalar c e.filedUnder e.value = true)
    (new : (p.shelf c).find? e.filedUnder e.value = none) : (p.file c e).Sound := by
  have hpolicy : (p.file c e).policy = p.policy := policy_setShelf _ _ _
  constructor
  · intro d
    rw [entryCount, shelf_file]
    split
    · simp only [Shelf.file, List.length_append, List.length_singleton, Nat.add_right_cancel_iff]
      exact h.counted d
    · exact h.counted d
  · intro d
    rw [shelf_file]
    split
    · next hd =>
      subst hd
      refine List.pairwise_append.2 ⟨h.apart d, List.pairwise_singleton _ _, ?_⟩
      intro a ha b hb hclash
      rw [List.mem_singleton.1 hb] at hclash
      have hdiffer := Shelf.find?_eq_none_iff.1 new a ha hclash.1
      rw [hclash.2] at hdiffer
      cases hdiffer
    · exact h.apart d
  · intro d hd
    rw [hpolicy]
    rcases mem_file.1 hd with hold | ⟨rfl, rfl⟩
    · exact h.ints d hold
    · obtain ⟨n, hn, hint, -, hmin, hmax⟩ := int_of_admits admitted
      exact ⟨n, hn, hint, hmin, hmax⟩
  · intro d hd
    rcases mem_file.1 hd with hold | ⟨rfl, rfl⟩
    · exact h.truths d hold
    · exact (bool_of_admits admitted).1
  · intro name
    rw [hpolicy, shelf_file]
    split
    · next hc =>
      subst hc
      by_cases hname : e.filedUnder = name
      · subst hname
        have hroom := (bool_of_admits admitted).2
        have := Number.coversCount_succ capped.boolEntries.isInteger hroom
        simpa [Shelf.filed, Shelf.file] using this
      · simpa [Shelf.filed, Shelf.file, hname] using h.bools name
    · exact h.bools name
  · rw [hpolicy, shelf_file]
    split
    · next hc =>
      subst hc
      refine withinLimits_file h.strings capped.string ?_
      rw [← h.counted .string]
      exact admitted
    · exact h.strings
  · rw [hpolicy, shelf_file]
    split
    · next hc =>
      subst hc
      refine withinLimits_file h.identifiers capped.identifier ?_
      rw [← h.counted .identifier]
      exact admitted
    · exact h.identifiers

end Pool

end SyntaxForest
