import Mathlib.Algebra.GroupWithZero.Nat
import Mathlib.Data.List.Basic

/-!
# Slots — properties of a table of numbered slots

A table is a list; a slot is overwritten with `List.set` and a new one appended.
`Each` is a property of every slot, which may depend on its number, and `Apart` one of
every two different slots. Both are kept by an update if the new content has them.
-/

namespace Slots

variable {α : Type*}

/-- Every slot has `P`. -/
def Each (P : Nat → α → Prop) (l : List α) : Prop := ∀ (i : Nat) x, l[i]? = some x → P i x

/-- Every two different slots have `R`. -/
def Apart (R : α → α → Prop) (l : List α) : Prop :=
  ∀ (i j : Nat) x y, i ≠ j → l[i]? = some x → l[j]? = some y → R x y

variable {P Q : Nat → α → Prop} {R : α → α → Prop} {l : List α} {i : Nat} {x : α}

theorem Each.mono (h : Each P l) (hPQ : ∀ (i : Nat) x, l[i]? = some x → P i x → Q i x) : Each Q l := by
  intro i x hx
  exact hPQ i x hx (h i x hx)

/-- A slot of an updated table is the new content, or an old slot. -/
theorem getElem?_set_cases {j : Nat} {y : α} (h : (l.set i x)[j]? = some y) :
    (j = i ∧ y = x) ∨ (j ≠ i ∧ l[j]? = some y) := by
  rw [List.getElem?_set] at h
  split at h
  · next hij =>
    split at h
    · exact .inl ⟨hij.symm, (Option.some.inj h).symm⟩
    · cases h
  · next hij => exact .inr ⟨fun hji => hij hji.symm, h⟩

theorem getElem?_append_cases {j : Nat} {y : α} (h : (l ++ [x])[j]? = some y) :
    (j = l.length ∧ y = x) ∨ (j < l.length ∧ l[j]? = some y) := by
  rcases Nat.lt_or_ge j l.length with hlt | hge
  · rw [List.getElem?_append_left hlt] at h
    exact .inr ⟨hlt, h⟩
  · rw [List.getElem?_append_right hge] at h
    rcases Nat.eq_zero_or_pos (j - l.length) with hz | hpos
    · rw [hz] at h
      simp only [List.getElem?_cons_zero, Option.some.injEq] at h
      exact .inl ⟨by omega, h.symm⟩
    · rw [List.getElem?_eq_none (by simp; omega)] at h
      cases h

/-- A slot is overwritten with what it holds. -/
theorem set_self (h : l[i]? = some x) : l.set i x = l := by
  rcases List.getElem?_eq_some_iff.mp h with ⟨hlt, rfl⟩
  exact List.set_getElem_self hlt

theorem Each.set (h : Each P l) (hx : P i x) : Each P (l.set i x) := by
  intro j y hy
  rcases getElem?_set_cases hy with ⟨rfl, rfl⟩ | ⟨-, hy⟩
  · exact hx
  · exact h j y hy

theorem Each.append (h : Each P l) (hx : P l.length x) : Each P (l ++ [x]) := by
  intro j y hy
  rcases getElem?_append_cases hy with ⟨rfl, rfl⟩ | ⟨-, hy⟩
  · exact hx
  · exact h j y hy

theorem Apart.set (h : Apart R l)
    (hx : ∀ (j : Nat) y, j ≠ i → l[j]? = some y → R x y ∧ R y x) : Apart R (l.set i x) := by
  intro j k y z hjk hy hz
  rcases getElem?_set_cases hy with ⟨rfl, rfl⟩ | ⟨hj, hy'⟩
  · rcases getElem?_set_cases hz with ⟨rfl, rfl⟩ | ⟨hk, hz'⟩
    · exact absurd rfl hjk
    · exact (hx k z hk hz').1
  · rcases getElem?_set_cases hz with ⟨rfl, rfl⟩ | ⟨-, hz'⟩
    · exact (hx j y hj hy').2
    · exact h j k y z hjk hy' hz'

theorem Apart.append (h : Apart R l)
    (hx : ∀ (j : Nat) y, l[j]? = some y → R x y ∧ R y x) : Apart R (l ++ [x]) := by
  intro j k y z hjk hy hz
  rcases getElem?_append_cases hy with ⟨rfl, rfl⟩ | ⟨-, hy'⟩
  · rcases getElem?_append_cases hz with ⟨rfl, rfl⟩ | ⟨-, hz'⟩
    · exact absurd rfl hjk
    · exact (hx k z hz').1
  · rcases getElem?_append_cases hz with ⟨rfl, rfl⟩ | ⟨-, hz'⟩
    · exact (hx j y hy').2
    · exact h j k y z hjk hy' hz'

theorem Apart.pairwise (h : Apart R l) : l.Pairwise R := by
  rw [List.pairwise_iff_getElem]
  intro i j hi hj hij
  exact h i j _ _ (Nat.ne_of_lt hij) (List.getElem?_eq_getElem hi) (List.getElem?_eq_getElem hj)

/-! ## Totals -/

/-- The sum of what the slots count for. -/
def total (f : α → Nat) (l : List α) : Nat := (l.map f).sum

/-- The new content counts for the old one. -/
theorem total_set (f : α → Nat) {old : α} (hget : l[i]? = some old) (x : α) :
    total f (l.set i x) + f old = total f l + f x := by
  induction l generalizing i with
  | nil => cases hget
  | cons a l ih =>
    cases i with
    | zero =>
      cases Option.some.inj hget
      simp only [total, List.set_cons_zero, List.map_cons, List.sum_cons]
      omega
    | succ i =>
      have hrest := ih hget
      simp only [total, List.set_cons_succ, List.map_cons, List.sum_cons] at hrest ⊢
      omega

theorem total_append (f : α → Nat) (l : List α) (x : α) : total f (l ++ [x]) = total f l + f x := by
  simp [total]

end Slots
