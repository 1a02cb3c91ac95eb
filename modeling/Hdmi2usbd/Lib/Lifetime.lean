import Mathlib.Data.Finset.Basic
import Mathlib.Data.Finset.Insert
import Mathlib.Data.Finset.Erase

/-!
# Lifetime — leases of resources in a history of events

A resource is acquired under a key, used and released; a key is never issued twice. `replay` runs
through a history and fails at the first event that is out of order. In a history that it accepts
(`Lawful`), every use and release of a lease comes after its acquisition, with no release in between
and no other acquisition of the resource (`Lawful.exclusive`).
-/

namespace Lifetime

variable {κ ρ ε : Type*}

/-- What an event does. A use need not name the resource. -/
inductive Act (κ ρ : Type*)
  | acquire (key : κ) (r : ρ)
  | use (key : κ)
  | release (key : κ) (r : ρ)
  | other
deriving DecidableEq

/-- The lease has been acquired, and since then the resource has neither been released nor acquired
again. -/
def Holding (act : ε → Act κ ρ) (history : List ε) (key : κ) (r : ρ) : Prop :=
  ∃ before e since, history = before ++ e :: since ∧ act e = .acquire key r ∧
    ∀ e' ∈ since, act e' ≠ .release key r ∧ ∀ key', act e' ≠ .acquire key' r

/-- Another event leaves a lease as it is, unless it releases or acquires the resource. -/
theorem holding_snoc {act : ε → Act κ ρ} {history : List ε} {key : κ} {r : ρ} {e : ε} :
    Holding act (history ++ [e]) key r ↔ act e = .acquire key r ∨
      Holding act history key r ∧ act e ≠ .release key r ∧ ∀ key', act e ≠ .acquire key' r := by
  constructor
  · rintro ⟨before, first, since, hsplit, hfirst, hsince⟩
    rcases List.eq_nil_or_concat since with rfl | ⟨since, last, rfl⟩
    · rw [List.append_singleton_inj] at hsplit
      rw [hsplit.2]
      exact .inl hfirst
    · rw [List.concat_eq_append, ← List.cons_append, ← List.append_assoc,
        List.append_singleton_inj] at hsplit
      obtain ⟨rfl, rfl⟩ := hsplit
      refine .inr ⟨⟨before, first, since, rfl, hfirst, ?_⟩, hsince e (by simp)⟩
      intro e' he'
      exact hsince e' (by simp [he'])
  · rintro (hacquire | ⟨⟨before, first, since, rfl, hfirst, hsince⟩, hkeeps⟩)
    · exact ⟨history, e, [], rfl, hacquire, by simp⟩
    · refine ⟨before, first, since ++ [e], by simp, hfirst, ?_⟩
      intro e' he'
      rcases List.mem_append.mp he' with he' | he'
      · exact hsince e' he'
      · rw [List.mem_singleton.mp he']
        exact hkeeps

/-- What a lawful history says of an event and of those before it. -/
def Exclusive (act : ε → Act κ ρ) (history : List ε) : Prop :=
  ∀ past e future, history = past ++ e :: future → match act e with
    | .acquire key r => (∀ e' ∈ past, ∀ r', act e' ≠ .acquire key r') ∧
        ∀ key', ¬ Holding act past key' r
    | .use key => ∃ r, Holding act past key r
    | .release key r => Holding act past key r
    | .other => True

/-- The keys that have been issued, and the leases that are held. -/
structure Leases (κ ρ : Type*) where
  issued : Finset κ
  live : Finset (κ × ρ)

variable [DecidableEq κ] [DecidableEq ρ]

namespace Leases

def none : Leases κ ρ := ⟨∅, ∅⟩

def apply (l : Leases κ ρ) : Act κ ρ → Option (Leases κ ρ)
  | .acquire key r =>
    if key ∉ l.issued ∧ ∀ lease ∈ l.live, lease.2 ≠ r then
      some ⟨insert key l.issued, insert (key, r) l.live⟩
    else Option.none
  | .use key => if ∃ lease ∈ l.live, lease.1 = key then some l else Option.none
  | .release key r =>
    if (key, r) ∈ l.live then some { l with live := l.live.erase (key, r) } else Option.none
  | .other => some l

end Leases

variable (act : ε → Act κ ρ)

def replay (history : List ε) : Option (Leases κ ρ) :=
  history.foldlM (fun l e => l.apply (act e)) .none

/-- Every event is in order. -/
def Lawful (history : List ε) : Prop := (replay act history).isSome

variable {act} {history : List ε} {l : Leases κ ρ}

theorem replay_append (h : replay act history = some l) (events : List ε) :
    replay act (history ++ events) = events.foldlM (fun l e => l.apply (act e)) l := by
  rw [replay, List.foldlM_append]
  rw [replay] at h
  rw [h]
  rfl

theorem replay_snoc (h : replay act history = some l) (e : ε) :
    replay act (history ++ [e]) = l.apply (act e) := by
  rw [replay_append h, List.foldlM_cons]
  cases l.apply (act e) with
  | none => rfl
  | some l' => rfl

/-- Events that are about something else. -/
theorem replay_others (h : replay act history = some l) {events : List ε}
    (hevents : ∀ e ∈ events, act e = .other) : replay act (history ++ events) = some l := by
  rw [replay_append h]
  clear h
  induction events with
  | nil => rfl
  | cons e events ih =>
    rw [List.foldlM_cons, hevents e List.mem_cons_self, Leases.apply]
    exact ih fun e' he' => hevents e' (List.mem_cons_of_mem e he')

/-- The beginning of a lawful history is lawful. -/
theorem Lawful.beginning {events : List ε} (h : Lawful act (history ++ events)) :
    Lawful act history := by
  unfold Lawful at h ⊢
  rw [replay, List.foldlM_append] at h
  rw [replay]
  cases hreplay : history.foldlM (fun l e => l.apply (act e)) (.none : Leases κ ρ) with
  | none =>
    rw [hreplay] at h
    cases h
  | some l => rfl

/-! ## What the leases stand for -/

/-- The leases that a replay ends with are the ones held, and the keys those that were acquired. -/
structure Meaning (act : ε → Act κ ρ) (history : List ε) (l : Leases κ ρ) : Prop where
  live : ∀ key r, (key, r) ∈ l.live ↔ Holding act history key r
  issued : ∀ key, key ∈ l.issued ↔ ∃ e ∈ history, ∃ r, act e = .acquire key r
  apart : ∀ a ∈ l.live, ∀ b ∈ l.live, a.2 = b.2 → a = b

omit [DecidableEq κ] [DecidableEq ρ] in
theorem Meaning.nil : Meaning act [] (.none : Leases κ ρ) := by
  constructor
  · simp [Leases.none, Holding]
  · simp [Leases.none]
  · simp [Leases.none]

theorem Meaning.step (h : Meaning act history l) {e : ε} {l' : Leases κ ρ}
    (happly : l.apply (act e) = some l') : Meaning act (history ++ [e]) l' := by
  cases hact : act e with
  | other =>
    rw [hact] at happly
    cases happly
    refine ⟨?_, ?_, h.apart⟩
    · simp [holding_snoc, h.live, hact]
    · simp [h.issued, or_and_right, exists_or, hact]
  | use key =>
    rw [hact, Leases.apply] at happly
    split at happly
    · cases happly
      refine ⟨?_, ?_, h.apart⟩
      · simp [holding_snoc, h.live, hact]
      · simp [h.issued, or_and_right, exists_or, hact]
    · cases happly
  | release key r =>
    rw [hact, Leases.apply] at happly
    split at happly
    · cases happly
      constructor
      · intro key' r'
        rw [holding_snoc, Finset.mem_erase, h.live, hact]
        simp [and_comm, eq_comm]
      · simp [h.issued, or_and_right, exists_or, hact]
      · intro a ha b hb
        exact h.apart a (Finset.mem_of_mem_erase ha) b (Finset.mem_of_mem_erase hb)
    · cases happly
  | acquire key r =>
    rw [hact, Leases.apply] at happly
    split at happly
    · next hfree =>
      cases happly
      constructor
      · intro key' r'
        rw [holding_snoc, Finset.mem_insert, ← h.live, hact]
        constructor
        · rintro (heq | hlive)
          · cases heq
            exact .inl rfl
          · refine .inr ⟨hlive, by simp, ?_⟩
            rintro key'' ⟨⟩
            exact hfree.2 _ hlive rfl
        · rintro (heq | ⟨hlive, -, -⟩)
          · cases heq
            exact .inl rfl
          · exact .inr hlive
      · intro key'
        rw [Finset.mem_insert, h.issued]
        constructor
        · rintro (rfl | ⟨e', he', r', hact'⟩)
          · exact ⟨e, by simp, r, hact⟩
          · exact ⟨e', by simp [he'], r', hact'⟩
        · rintro ⟨e', he', r', hact'⟩
          rcases List.mem_append.mp he' with he' | he'
          · exact .inr ⟨e', he', r', hact'⟩
          · rw [List.mem_singleton.mp he', hact] at hact'
            cases hact'
            exact .inl rfl
      · intro a ha b hb hab
        rcases Finset.mem_insert.mp ha with rfl | ha
        · rcases Finset.mem_insert.mp hb with rfl | hb
          · rfl
          · exact absurd hab.symm (hfree.2 b hb)
        · rcases Finset.mem_insert.mp hb with rfl | hb
          · exact absurd hab (hfree.2 a ha)
          · exact h.apart a ha b hb hab
    · cases happly

theorem meaning_of_replay (h : replay act history = some l) : Meaning act history l := by
  induction history using List.reverseRecOn generalizing l with
  | nil =>
    cases h
    exact Meaning.nil
  | append_singleton history e ih =>
    have hlawful : Lawful act (history ++ [e]) := by
      rw [Lawful, h]
      rfl
    obtain ⟨before, hbefore⟩ := Option.isSome_iff_exists.mp hlawful.beginning
    rw [replay_snoc hbefore] at h
    exact (ih hbefore).step h

/-- In a lawful history every event finds its lease. -/
theorem Lawful.exclusive (h : Lawful act history) : Exclusive act history := by
  rintro past e future rfl
  rw [List.append_cons] at h
  have hnext := h.beginning
  obtain ⟨l, hl⟩ := Option.isSome_iff_exists.mp hnext.beginning
  have hmeaning := meaning_of_replay hl
  rw [Lawful, replay_snoc hl] at hnext
  cases hact : act e with
  | other => trivial
  | use key =>
    rw [hact, Leases.apply] at hnext
    split at hnext
    · next hused =>
      obtain ⟨⟨_, r⟩, hmem, rfl⟩ := hused
      exact ⟨r, (hmeaning.live _ r).mp hmem⟩
    · cases hnext
  | release key r =>
    rw [hact, Leases.apply] at hnext
    split at hnext
    · next hmem => exact (hmeaning.live key r).mp hmem
    · cases hnext
  | acquire key r =>
    rw [hact, Leases.apply] at hnext
    split at hnext
    · next hfree =>
      constructor
      · intro e' he' r' hact'
        exact hfree.1 ((hmeaning.issued key).mpr ⟨e', he', r', hact'⟩)
      · intro key' hheld
        exact hfree.2 (key', r) ((hmeaning.live key' r).mpr hheld) rfl
    · cases hnext

end Lifetime
