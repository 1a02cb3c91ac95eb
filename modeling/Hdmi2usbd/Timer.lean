import Mathlib.Data.List.Basic

/-!
# Timer — the egg timer of `timer.c`

Times are 64-bit microsecond counts; `0` doubles as "now" for a start and as
"never" for an end. The functions that call `timer_getmillitime` take the reading
it returned as an argument.
-/

namespace Hdmi2usbd

/-- `utime_t`. -/
abbrev UTime := UInt64

def rightNow : UTime := 0

def never : UTime := 0

/-- `struct microtimer_s`. -/
structure Microtimer where
  tStarted : UTime
  tEnding : UTime
deriving DecidableEq, Repr

/-- The raw difference between two time stamps, as a signed 64-bit value. At a difference of exactly
-2^63 the negation of the source overflows, which is undefined; here it is 2^63. -/
def timerCalcDifference (now then' : UTime) : Int :=
  if now ≥ then' then (now - then').toBitVec.toInt else -(then' - now).toBitVec.toInt

/-- `timer_init` when the clock reads `now`. -/
def timerInit (now start duration : UTime) : Microtimer :=
  let started := if start ≠ rightNow then start else now
  { tStarted := started
    tEnding := if duration ≠ 0 then started + duration else never }

def timerReset (now duration : UTime) : Microtimer := timerInit now rightNow duration

def timerExpired (t : Microtimer) (now : UTime) : Bool :=
  if t.tEnding = never then true else timerCalcDifference t.tEnding now ≤ 0

/-! ## While the clock stays below 2^63 -/

/-- Half the range of `utime_t`: below it signed and unsigned differences agree. -/
def utimeHalf : Nat := 0x8000000000000000

theorem timerCalcDifference_eq {a b : UTime} (ha : a.toNat < utimeHalf) (hb : b.toNat < utimeHalf) :
    timerCalcDifference a b = (a.toNat : Int) - b.toNat := by
  have hsub : ∀ x y : UTime, y ≤ x → x.toNat < utimeHalf →
      (x - y).toBitVec.toInt = (x.toNat : Int) - y.toNat := by
    intro x y hle hx
    have hle' : y.toNat ≤ x.toNat := UInt64.le_iff_toNat_le.mp hle
    have hn : (x - y).toBitVec.toNat = x.toNat - y.toNat := UInt64.toNat_sub_of_le x y hle
    simp only [utimeHalf] at hx
    rw [BitVec.toInt_eq_toNat_cond, hn]
    split <;> omega
  unfold timerCalcDifference
  by_cases hle : b ≤ a
  · rw [if_pos hle, hsub a b hle ha]
  · have hba : a ≤ b := by
      rw [UInt64.le_iff_toNat_le] at hle ⊢
      omega
    rw [if_neg hle, hsub b a hba hb]
    omega

/-- A running timer has expired once the clock has reached its end. -/
theorem timerExpired_iff {t : Microtimer} {now : UTime} (hrun : t.tEnding ≠ never)
    (he : t.tEnding.toNat < utimeHalf) (hn : now.toNat < utimeHalf) :
    timerExpired t now ↔ t.tEnding.toNat ≤ now.toNat := by
  unfold timerExpired
  rw [if_neg hrun, timerCalcDifference_eq he hn, decide_eq_true_eq]
  omega

/-- A timer reset with a positive duration runs, and ends that much later. -/
theorem timerReset_tEnding {now duration : UTime} (hd : duration ≠ 0)
    (hlt : now.toNat + duration.toNat < utimeHalf) :
    (timerReset now duration).tEnding ≠ never ∧
      (timerReset now duration).tEnding.toNat = now.toNat + duration.toNat := by
  have hsum : (now + duration).toNat = now.toNat + duration.toNat := by
    simp only [utimeHalf] at hlt
    rw [UInt64.toNat_add, Nat.mod_eq_of_lt (by omega)]
  have hpos : 0 < duration.toNat := by
    have : duration.toNat ≠ 0 := fun h => hd (UInt64.toNat_inj.mp h)
    omega
  simp only [timerReset, timerInit, rightNow, hd, ne_eq, not_true_eq_false, not_false_eq_true,
    if_true, if_false]
  refine ⟨?_, hsum⟩
  intro h
  rw [h] at hsum
  simp only [never, UInt64.toNat_zero] at hsum
  omega

/-! ## While the clock does not go back -/

/-- A timer that was reset and is found expired later has run its time, also where its end has
wrapped around. -/
theorem le_of_timerExpired {start now duration : UTime} (hd : duration.toNat < utimeHalf)
    (hle : start.toNat ≤ now.toNat) (hrun : (timerReset start duration).tEnding ≠ never)
    (hexp : timerExpired (timerReset start duration) now) :
    start.toNat + duration.toNat ≤ now.toNat := by
  have hzero : duration ≠ 0 := by
    intro h
    simp [timerReset, timerInit, h] at hrun
  have hend : (timerReset start duration).tEnding = start + duration := by
    simp [timerReset, timerInit, rightNow, hzero]
  unfold timerExpired at hexp
  rw [if_neg hrun, hend, decide_eq_true_eq] at hexp
  by_contra hlt
  have hsum := UInt64.toNat_add start duration
  have hstart := start.toNat_lt
  have hnow := now.toNat_lt
  simp only [utimeHalf] at hd
  by_cases hwrap : start.toNat + duration.toNat < 0x10000000000000000
  · -- the end is ahead
    have hahead : now ≤ start + duration := by
      rw [UInt64.le_iff_toNat_le]
      omega
    have hdiff := UInt64.toNat_sub_of_le _ _ hahead
    rw [timerCalcDifference, if_pos hahead, BitVec.toInt_eq_toNat_cond] at hexp
    simp only [UInt64.toNat_toBitVec] at hexp
    split at hexp <;> omega
  · -- the end has wrapped around: it is behind, by more than half the range
    have hbehind : start + duration ≤ now := by
      rw [UInt64.le_iff_toNat_le]
      omega
    have hpast : ¬ now ≤ start + duration := by
      rw [UInt64.le_iff_toNat_le]
      omega
    have hdiff := UInt64.toNat_sub_of_le _ _ hbehind
    rw [timerCalcDifference, if_neg hpast, BitVec.toInt_eq_toNat_cond] at hexp
    simp only [UInt64.toNat_toBitVec] at hexp
    split at hexp <;> omega

end Hdmi2usbd
