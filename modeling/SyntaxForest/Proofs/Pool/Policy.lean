import SyntaxForest.Proofs.Settings.Resolving
/-!
# Caps of pool policies

A pool checks a cap before it keeps one more node. `coversCount_succ`: where the
cap is a whole number, as `Configured` policies have them, the nodes are still
within the cap afterwards.
-/

namespace SyntaxForest

namespace Number

variable {x : Number} {n : Nat}

/-- Zero of something is within every cap. -/
theorem IsCap.coversCount_zero (h : x.IsCap) : x.coversCount 0 = true := by
  rcases x with _ | ⟨negative, size⟩
  · exact absurd h.isInteger (by simp [Number.isInteger])
  · rcases negative with _ | _
    · simp [coversCount]
    · have hbelow := h.notBelow
      simp [below, compareBy, rank?, zero, ofSize] at hbelow
      simp [coversCount, hbelow]

/-- What is within a bound stays within it when there is less of it. -/
theorem coversCount_of_le {m : Nat} (h : x.coversCount n = true) (hle : m ≤ n) : x.coversCount m = true := by
  rcases x with _ | ⟨negative, size⟩
  · cases h
  · rcases negative with _ | _
    · simp only [coversCount, Bool.false_eq_true, if_false, Bool.or_eq_true, beq_iff_eq,
        decide_eq_true_eq] at h ⊢
      rcases h with htop | hcovers
      · exact .inl htop
      · exact .inr (Nat.le_trans (Nat.mul_le_mul_right _ hle) hcovers)
    · simp only [coversCount, if_true, Bool.and_eq_true, beq_iff_eq] at h ⊢
      exact ⟨by omega, h.2⟩

/-- Below a whole number there is room for one more. -/
theorem coversCount_succ (h : x.isInteger = true) (room : x.exceedsCount n = true) :
    x.coversCount (n + 1) = true := by
  rcases x with _ | ⟨negative, size⟩
  · cases h
  · rcases negative with _ | _
    · simp only [isInteger, Bool.and_eq_true, decide_eq_true_eq, beq_iff_eq] at h
      simp only [exceedsCount, Bool.not_false, Bool.true_and, Bool.or_eq_true, beq_iff_eq,
        decide_eq_true_eq] at room
      have hroom : n * unitsPerOne < units size.val := by
        rcases room with htop | hlt
        · omega
        · exact hlt
      obtain ⟨whole, hwhole⟩ := Nat.dvd_of_mod_eq_zero h.2
      have hlt : n < whole := by
        rw [hwhole, Nat.mul_comm n] at hroom
        exact Nat.lt_of_mul_lt_mul_left hroom
      simp only [coversCount, Bool.false_eq_true, if_false, Bool.or_eq_true, decide_eq_true_eq]
      right
      rw [hwhole, Nat.mul_comm unitsPerOne]
      exact Nat.mul_le_mul_right _ hlt
    · simp [exceedsCount] at room

end Number

namespace PoolPolicy

/-- A policy as it comes about: the standard one, or one resolved from settings. -/
inductive Configured : PoolPolicy → Prop
  | standard : Configured .standard
  | resolved {data : Value} {policy : PoolPolicy} : resolve data = .ok policy → Configured policy

/-- Every number of entries a policy allows is a cap. -/
structure Capped (policy : PoolPolicy) : Prop where
  boolEntries : policy.boolEntries.IsCap
  string : policy.string.maxEntries.IsCap
  identifier : policy.identifier.maxEntries.IsCap

theorem Consistent.capped {policy : PoolPolicy} (h : policy.Consistent) : policy.Capped :=
  ⟨h.boolEntries, h.stringEntries, h.identifierEntries⟩

theorem Configured.capped {policy : PoolPolicy} (h : policy.Configured) : policy.Capped := by
  cases h with
  | standard => exact standard_consistent.capped
  | resolved h => exact (consistent_of_resolve h).capped

end PoolPolicy

end SyntaxForest
