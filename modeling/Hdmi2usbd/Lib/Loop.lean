import Mathlib.Logic.Relation

/-!
# Loop — a loop that may not end

A loop is a body `σ → σ ⊕ ρ`: one turn goes on with a new state or ends with a result. A loop
ends when a measure of its state goes down at every turn (`halts_of_measure`), and it does not
end when it comes back again and again to states of one kind (`not_halts_of_returns`).
-/

namespace Loop

open Relation (ReflTransGen TransGen)

variable {σ ρ : Type*} (body : σ → σ ⊕ ρ)

/-- At most that many turns. -/
def iterate : Nat → σ → Option ρ
  | 0, _ => none
  | n + 1, s =>
    match body s with
    | .inl s' => iterate n s'
    | .inr r => some r

/-- The loop ends with this result. -/
def Ends (s : σ) (r : ρ) : Prop := ∃ n, iterate body n s = some r

def Halts (s : σ) : Prop := ∃ r, Ends body s r

/-- One turn goes on. -/
def Steps (s s' : σ) : Prop := body s = .inl s'

/-- Some turns go on. -/
def Reaches : σ → σ → Prop := ReflTransGen (Steps body)

/-- So many turns go on, and the next one ends the loop. -/
inductive EndsAfter : Nat → σ → ρ → Prop
  | now {s : σ} {r : ρ} (h : body s = .inr r) : EndsAfter 0 s r
  | turn {n : Nat} {s s' : σ} {r : ρ} (h : Steps body s s') (hrest : EndsAfter n s' r) :
      EndsAfter (n + 1) s r

variable {body} {s s' : σ} {r r' : ρ}

theorem ends_of_inr (h : body s = .inr r) : Ends body s r := ⟨1, by rw [iterate, h]⟩

theorem ends_iff_of_steps (h : Steps body s s') : Ends body s r ↔ Ends body s' r := by
  constructor
  · rintro ⟨n, hn⟩
    cases n with
    | zero => cases hn
    | succ n =>
      rw [iterate, h] at hn
      exact ⟨n, hn⟩
  · rintro ⟨n, hn⟩
    refine ⟨n + 1, ?_⟩
    rw [iterate, h]
    exact hn

theorem EndsAfter.ends {n : Nat} (h : EndsAfter body n s r) : Ends body s r := by
  induction h with
  | now h => exact ends_of_inr h
  | turn h _ ih => exact (ends_iff_of_steps h).mpr ih

/-- Induction over a loop that ends, from its last turn back. -/
theorem ends_induction {P : σ → ρ → Prop} (hend : ∀ s r, body s = .inr r → P s r)
    (hstep : ∀ s s' r, Steps body s s' → P s' r → P s r) (h : Ends body s r) : P s r := by
  rcases h with ⟨n, hn⟩
  induction n generalizing s with
  | zero => cases hn
  | succ n ih =>
    rw [iterate] at hn
    cases hb : body s with
    | inl s' =>
      rw [hb] at hn
      exact hstep s s' r hb (ih hn)
    | inr r' =>
      rw [hb] at hn
      cases hn
      exact hend s _ hb

theorem ends_of_reaches (hreach : Reaches body s s') (h : Ends body s' r) : Ends body s r := by
  induction hreach with
  | refl => exact h
  | tail _ hstep ih => exact ih ((ends_iff_of_steps hstep).mpr h)

/-- A loop that ends reaches the turn that ends it. -/
theorem last_turn (h : Ends body s r) : ∃ t, Reaches body s t ∧ body t = .inr r := by
  refine ends_induction (P := fun s r => ∃ t, Reaches body s t ∧ body t = .inr r) ?_ ?_ h
  · exact fun s r hend => ⟨s, .refl, hend⟩
  · rintro s s' r hstep ⟨t, hreach, hend⟩
    exact ⟨t, .head hstep hreach, hend⟩

/-- A loop has one result. -/
theorem ends_unique (h : Ends body s r) (h' : Ends body s r') : r = r' := by
  revert h'
  refine ends_induction (P := fun s r => Ends body s r' → r = r') ?_ ?_ h
  · rintro s r hb ⟨n, hn⟩
    cases n with
    | zero => cases hn
    | succ n =>
      rw [iterate, hb] at hn
      exact Option.some.inj hn
  · intro s s' r hstep ih h'
    exact ih ((ends_iff_of_steps hstep).mp h')

/-- A loop ends if some measure goes down at every turn, in the states that can be reached. -/
theorem halts_of_measure (measure : σ → Nat) (s : σ)
    (hdown : ∀ t t', Reaches body s t → Steps body t t' → measure t' < measure t) :
    Halts body s := by
  have hfrom : ∀ n t, Reaches body s t → measure t < n → Halts body t := by
    intro n
    induction n with
    | zero =>
      intro t _ hlt
      exact absurd hlt (Nat.not_lt_zero _)
    | succ n ih =>
      intro t hreach hlt
      cases hb : body t with
      | inr r => exact ⟨r, ends_of_inr hb⟩
      | inl t' =>
        have hless := hdown t t' hreach hb
        rcases ih t' (hreach.tail hb) (by omega) with ⟨r, hr⟩
        exact ⟨r, (ends_iff_of_steps hb).mpr hr⟩
  exact hfrom (measure s + 1) s .refl (Nat.lt_succ_self _)

/-- The turns of a loop are determined: what is reached on the way lies on the way. -/
theorem iterate_of_transGen (h : TransGen (Steps body) s s') :
    ∃ k, 0 < k ∧ ∀ n, iterate body (k + n) s = iterate body n s' := by
  induction h with
  | single hstep =>
    refine ⟨1, by omega, fun n => ?_⟩
    rw [Nat.add_comm, iterate, hstep]
  | tail _ hstep ih =>
    rcases ih with ⟨k, hk, hiter⟩
    refine ⟨k + 1, by omega, fun n => ?_⟩
    rw [Nat.add_assoc, hiter, Nat.add_comm, iterate, hstep]

theorem iterate_mono {m n : Nat} (h : iterate body m s = some r) (hle : m ≤ n) :
    iterate body n s = some r := by
  induction m generalizing s n with
  | zero => cases h
  | succ m ih =>
    rcases n with - | n
    · omega
    rw [iterate] at h ⊢
    cases hb : body s with
    | inl s' =>
      rw [hb] at h
      exact ih h (by omega)
    | inr r' =>
      rw [hb] at h
      exact h

/-- A loop that always comes back to states of one kind does not end. -/
theorem not_halts_of_returns (I : σ → Prop)
    (hback : ∀ t, I t → ∃ t', TransGen (Steps body) t t' ∧ I t') (hs : I s) : ¬ Halts body s := by
  have hnone : ∀ n t r, I t → iterate body n t ≠ some r := by
    intro n
    induction n using Nat.strongRecOn with
    | ind n ih =>
      intro t r ht hn
      rcases hback t ht with ⟨t', htrans, ht'⟩
      rcases iterate_of_transGen htrans with ⟨k, hk, hiter⟩
      by_cases hle : k ≤ n
      · -- the result comes after the return, so in fewer turns from there
        have hrest := hiter (n - k)
        rw [Nat.add_sub_cancel' hle, hn] at hrest
        exact ih (n - k) (by omega) t' r ht' hrest.symm
      · have hk' := iterate_mono hn (show n ≤ k by omega)
        have hreturn := hiter 0
        rw [Nat.add_zero, hk'] at hreturn
        cases hreturn
  rintro ⟨r, n, hn⟩
  exact hnone n s r hs hn

end Loop
