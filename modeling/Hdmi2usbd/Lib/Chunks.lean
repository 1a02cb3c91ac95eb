import Mathlib.Algebra.Order.Floor.Div

/-!
# Chunks — sizes in whole chunks

A size that grows by whole chunks, as little as a need allows, is `roundUp` of the largest need so
far (`roundUp_max`).
-/

namespace Chunks

/-- The least number of chunks, but at least one, that holds `need`. -/
def roundUp (chunk need : Nat) : Nat := chunk * max 1 (need ⌈/⌉ chunk)

variable {chunk need n : Nat}

@[simp] theorem roundUp_zero (chunk : Nat) : roundUp chunk 0 = chunk := by
  simp [roundUp]

theorem le_roundUp (hchunk : 0 < chunk) (need : Nat) : need ≤ roundUp chunk need := by
  have hle : need ≤ chunk * (need ⌈/⌉ chunk) := (ceilDiv_le_iff_le_mul hchunk).mp (Nat.le_refl _)
  exact Nat.le_trans hle (Nat.mul_le_mul_left chunk (Nat.le_max_right _ _))

/-- A whole number of chunks holds `need` exactly if it is not below. -/
theorem roundUp_le_iff (hchunk : 0 < chunk) :
    roundUp chunk need ≤ chunk * n ↔ 0 < n ∧ need ≤ chunk * n := by
  rw [roundUp, Nat.mul_le_mul_left_iff hchunk, max_le_iff, ceilDiv_le_iff_le_mul hchunk]
  exact Iff.rfl

/-- The chunk that makes `need` fit is the last one. -/
theorem roundUp_eq (hchunk : 0 < chunk) (hlow : chunk * n < need) (hhigh : need ≤ chunk * (n + 1)) :
    roundUp chunk need = chunk * (n + 1) := by
  refine Nat.le_antisymm ((roundUp_le_iff hchunk).mpr ⟨Nat.succ_pos n, hhigh⟩) ?_
  have hlt := Nat.lt_of_lt_of_le hlow (le_roundUp hchunk need)
  exact Nat.mul_le_mul_left chunk (Nat.lt_of_mul_lt_mul_left hlt)

/-- Fewer chunks than hold `need` are not too many. -/
theorem mul_le_roundUp (hchunk : 0 < chunk) :
    chunk * (n + 1) ≤ roundUp chunk need ↔ n = 0 ∨ chunk * n < need := by
  rw [roundUp, Nat.mul_le_mul_left_iff hchunk, Nat.succ_le_iff, lt_max_iff, Nat.lt_one_iff,
    ← not_le, ceilDiv_le_iff_le_mul hchunk, not_le]

/-- What is left when whole chunks are taken away is rounded up alike. -/
theorem add_roundUp_sub (hchunk : 0 < chunk) (h : chunk * n < need) :
    chunk * n + roundUp chunk (need - chunk * n) = roundUp chunk need := by
  obtain ⟨k, hk⟩ : ∃ k, max 1 ((need - chunk * n) ⌈/⌉ chunk) = k + 1 :=
    Nat.exists_eq_succ_of_ne_zero (by omega)
  have hround : roundUp chunk (need - chunk * n) = chunk * (k + 1) := by rw [roundUp, hk]
  have hlow : chunk * k < need - chunk * n := by
    rcases (mul_le_roundUp hchunk).mp (Nat.le_of_eq hround.symm) with rfl | hlow
    · omega
    · exact hlow
  have hhigh := le_roundUp hchunk (need - chunk * n)
  rw [hround] at hhigh ⊢
  rw [← Nat.mul_add, ← Nat.add_assoc]
  refine (roundUp_eq hchunk ?_ ?_).symm
  · rw [Nat.mul_add]
    omega
  · rw [Nat.add_assoc, Nat.mul_add]
    omega

/-- What fits into rounded space still fits when it is rounded. -/
theorem roundUp_le_roundUp (hchunk : 0 < chunk) {need need' : Nat} (h : need ≤ roundUp chunk need') :
    roundUp chunk need ≤ roundUp chunk need' :=
  (roundUp_le_iff hchunk).mpr ⟨Nat.lt_of_lt_of_le Nat.zero_lt_one (Nat.le_max_left _ _), h⟩

theorem roundUp_mono (chunk : Nat) : Monotone (roundUp chunk) := by
  intro need need' h
  rcases Nat.eq_zero_or_pos chunk with rfl | hchunk
  · simp [roundUp]
  · exact roundUp_le_roundUp hchunk (Nat.le_trans h (le_roundUp hchunk need'))

theorem roundUp_max (chunk need need' : Nat) :
    roundUp chunk (max need need') = max (roundUp chunk need) (roundUp chunk need') :=
  (roundUp_mono chunk).map_max

end Chunks
