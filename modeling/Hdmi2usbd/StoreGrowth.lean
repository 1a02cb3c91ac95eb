import Hdmi2usbd.StoreEdits

/-!
# StoreGrowth — the capacity of the string store

Without a resize, the capacity of a store is the least number of chunks that holds the largest need
so far, where the need of a call is the bytes in use and those requested
(`capacity_least_chunks`). It is what the loop of `stringstore_store` arrives at from any number of
chunks, and no other call touches it. Whether the blocks are granted makes no difference to it.
-/

namespace Hdmi2usbd

open Chunks (roundUp)

/-- The calls that do not resize the block themselves. -/
def StoreOp.Plain : StoreOp → Prop
  | .store _ _ | .append _ | .consume _ | .clear => True
  | .resize _ | .compact => False

/-- What a call needs: for a store the bytes in use and those requested. -/
def StoreOp.need (p : StringStore) : StoreOp → Nat
  | .store v _ | .append v => p.ssUsed + v.length
  | .consume _ | .clear | .resize _ | .compact => 0

/-- The largest need of a run of calls. -/
def peak (p : StringStore) : List (StoreOp × Bool) → Nat
  | [] => 0
  | (op, grants) :: calls =>
    max (op.need p) ((op.apply (.machine grants) p).elim 0 fun r => peak r.2 calls)

/-! ## One call -/

/-- A store with a chunk size whose largest need so far was `need`. -/
structure Grown (chunk need : Nat) (p : StringStore) : Prop where
  pos : 0 < chunk
  inc : p.ssInc = chunk
  size : p.ssSize = roundUp chunk need
  used_le : p.ssUsed ≤ p.ssSize

section Calls

variable {chunk need : Nat} {p : StringStore} {m : Memory} (h : Grown chunk need p)
include h

/-- From a number of chunks that does not do, the growth takes the least one that does. -/
theorem Grown.grow {length : Nat} (hfits : p.ssSize < p.ssUsed + length → m.Fits (p.grownSize length))
    {q : StringStore} (hq : strstoreGrow m p length = some q) :
    q.ssInc = chunk ∧ q.ssSize = roundUp chunk (max need (p.ssUsed + length)) ∧
      q.ssUsed = p.ssUsed := by
  have hused := h.used_le
  by_cases hneed : p.ssSize < p.ssUsed + length
  · have hfit := hfits hneed
    have hle := StringStore.le_grownSize (h.inc ▸ h.pos) length
    have hgrows : p.Grows m length := by
      show p.ssSize < m.sizeT (length + p.ssUsed)
      rwa [Nat.add_comm, hfit.sizeT hle]
    have hsize : p.grownSize length = roundUp chunk (p.ssUsed + length) := by
      rw [StringStore.grownSize, h.inc]
      rw [h.size] at hneed ⊢
      exact Chunks.add_roundUp_sub h.pos hneed
    rw [strstoreGrow, if_pos hgrows] at hq
    obtain ⟨k, hk, hq⟩ := Option.bind_eq_some_iff.mp hq
    cases (StringStore.increment_eq (h.inc ▸ h.pos) hneed hfit).symm.trans hk
    obtain ⟨⟨toLength, grown⟩, hresize, hgrown⟩ := Option.bind_eq_some_iff.mp hq
    cases hgrown
    rcases strstoreResize_size hresize with ⟨hsize', hinc, hused'⟩
    refine ⟨hinc.trans h.inc, ?_, hused'⟩
    rw [Chunks.roundUp_max, ← h.size, ← hsize]
    refine hsize'.trans ?_
    show max (m.sizeT (p.grownSize length)) p.ssUsed = _
    rw [hfit.sizeT (Nat.le_refl _)]
    omega
  · have hgrows : ¬ p.Grows m length := by
      intro hgrows
      have hmore : p.ssSize < m.sizeT (length + p.ssUsed) := hgrows
      have hle := m.sizeT_le (length + p.ssUsed)
      omega
    rw [strstoreGrow, if_neg hgrows] at hq
    cases hq
    refine ⟨h.inc, ?_, rfl⟩
    have hle : roundUp chunk (p.ssUsed + length) ≤ roundUp chunk need :=
      Chunks.roundUp_le_roundUp h.pos (h.size ▸ Nat.le_of_not_lt hneed)
    rw [Chunks.roundUp_max, h.size, Nat.max_eq_left hle]

theorem Grown.store {v : StoreValue} (at' : Nat) (hfits : (StoreOp.store v at').Fitting m p)
    {r : Nat × StringStore} (hr : stringstoreStore m p v.bytes v.length at' = some r) :
    Grown chunk (max need (p.ssUsed + v.length)) r.2 := by
  rcases stringstoreStore_size hr with ⟨q, hq, hsize, hinc, -, hused⟩
  rcases h.grow hfits hq with ⟨hinc', hsize', hused'⟩
  refine ⟨h.pos, hinc.trans hinc', hsize.trans hsize', ?_⟩
  rw [hsize, hsize', Chunks.roundUp_max]
  have hle := Chunks.le_roundUp h.pos (p.ssUsed + v.length)
  omega

theorem Grown.consume {bytes : Nat} {p' : StringStore} (hp' : stringstoreConsume p bytes = some p') :
    Grown chunk (max need 0) p' := by
  rcases stringstoreConsume_size hp' with ⟨hsize, hinc, hused⟩
  rw [Nat.max_zero]
  exact ⟨h.pos, hinc.trans h.inc, hsize.trans h.size, hsize ▸ hused.trans h.used_le⟩

theorem Grown.apply {op : StoreOp} (hplain : op.Plain) (hfits : op.Fitting m p)
    {r : Option Nat × StringStore} (hr : op.apply m p = some r) :
    Grown chunk (max need (op.need p)) r.2 := by
  cases op with
  | store v at' =>
    obtain ⟨r', hr', rfl⟩ := Option.map_eq_some_iff.mp hr
    exact h.store at' hfits hr'
  | append v =>
    obtain ⟨r', hr', rfl⟩ := Option.map_eq_some_iff.mp hr
    exact h.store ssEnd hfits hr'
  | consume bytes =>
    obtain ⟨p', hp', rfl⟩ := Option.map_eq_some_iff.mp hr
    exact h.consume hp'
  | clear =>
    obtain ⟨p', hp', rfl⟩ := Option.map_eq_some_iff.mp hr
    exact h.consume hp'
  | resize toLength => exact hplain.elim
  | compact => exact hplain.elim

/-! ## Runs -/

theorem Grown.run {calls : List (StoreOp × Bool)} (hplain : ∀ call ∈ calls, call.1.Plain)
    (hfits : StoreAlong StoreOp.Fitting p calls) {outs : List (Option Nat)} {q : StringStore}
    (hq : storeRun p calls = some (outs, q)) : Grown chunk (max need (peak p calls)) q := by
  induction calls generalizing p need outs with
  | nil =>
    cases hq
    rw [peak, Nat.max_zero]
    exact h
  | cons call calls ih =>
    rcases call with ⟨op, grants⟩
    rcases hfits with ⟨hfit, hfits⟩
    obtain ⟨r, hr, hrest⟩ := Option.bind_eq_some_iff.mp hq
    obtain ⟨⟨outs', q'⟩, hrun, heq⟩ := Option.bind_eq_some_iff.mp hrest
    cases heq
    have hgrown := ih (h.apply (hplain _ List.mem_cons_self) hfit hr)
      (fun call hcall => hplain call (List.mem_cons_of_mem _ hcall)) (hfits r hr) hrun
    rw [peak, hr, Option.elim_some, ← Nat.max_assoc]
    exact hgrown

/-- Every growth loop of the run ends. -/
theorem Grown.ends {calls : List (StoreOp × Bool)} (hplain : ∀ call ∈ calls, call.1.Plain)
    (hfits : StoreAlong StoreOp.Fitting p calls) :
    StoreAlong (fun m p op => ¬ op.Hangs m p) p calls := by
  induction calls generalizing p need with
  | nil => trivial
  | cons call calls ih =>
    rcases call with ⟨op, grants⟩
    rcases hfits with ⟨hfit, hfits⟩
    refine ⟨hfit.ends (h.inc ▸ h.pos), fun r hr => ?_⟩
    exact ih (h.apply (hplain _ List.mem_cons_self) hfit hr)
      (fun call hcall => hplain call (List.mem_cons_of_mem _ hcall)) (hfits r hr)

end Calls

/-- What holds along a run holds along its parts. -/
theorem StoreAlong.split {P : Memory → StringStore → StoreOp → Prop} {p : StringStore}
    {fs gs : List (StoreOp × Bool)} (h : StoreAlong P p (fs ++ gs)) :
    StoreAlong P p fs ∧ ∀ outs q, storeRun p fs = some (outs, q) → StoreAlong P q gs := by
  induction fs generalizing p with
  | nil =>
    refine ⟨trivial, fun outs q hq => ?_⟩
    cases hq
    exact h
  | cons call fs ih =>
    rcases call with ⟨op, grants⟩
    rcases h with ⟨hop, hrest⟩
    refine ⟨⟨hop, fun r hr => (ih (hrest r hr)).1⟩, fun outs q hq => ?_⟩
    obtain ⟨r, hr, hq⟩ := Option.bind_eq_some_iff.mp hq
    obtain ⟨⟨outs', q'⟩, hrun, heq⟩ := Option.bind_eq_some_iff.mp hq
    cases heq
    exact (ih (hrest r hr)).2 outs' q hrun

theorem storeRun_append {p q p' : StringStore} {fs gs : List (StoreOp × Bool)}
    {outs outs' : List (Option Nat)} (hfs : storeRun p fs = some (outs, q))
    (hall : storeRun p (fs ++ gs) = some (outs', p')) :
    ∃ outs'', storeRun q gs = some (outs'', p') := by
  induction fs generalizing p outs outs' with
  | nil =>
    cases hfs
    exact ⟨_, hall⟩
  | cons call fs ih =>
    rcases call with ⟨op, grants⟩
    obtain ⟨r, hr, hfs⟩ := Option.bind_eq_some_iff.mp hfs
    obtain ⟨⟨outs₁, q₁⟩, hrun, heq⟩ := Option.bind_eq_some_iff.mp hfs
    cases heq
    obtain ⟨r', hr', hall⟩ := Option.bind_eq_some_iff.mp hall
    obtain ⟨⟨outs₂, q₂⟩, hrun', heq⟩ := Option.bind_eq_some_iff.mp hall
    cases heq
    cases hr.symm.trans hr'
    exact ih hrun hrun'

theorem stringstoreInitN_grown {m : Memory} {size : Nat} (hsize : 1 ≤ size) :
    Grown size 0 (stringstoreInitN m size) := by
  have hne : size ≠ 0 := by omega
  refine ⟨hsize, ?_, ?_, Nat.zero_le _⟩
  · simp [stringstoreInitN, hne]
  · simp [stringstoreInitN, hne]

/-- From any initial size but 0, and with any calls but a resize whose sums stay below 2^64: the
growth loop ends each time, the capacity after each call is the least number of chunks for the
largest need so far, and it never becomes smaller. If all blocks are granted, every call comes
back. -/
theorem capacity_least_chunks {size : Nat} (hsize : 1 ≤ size) {grants : Bool}
    {calls : List (StoreOp × Bool)} (hplain : ∀ call ∈ calls, call.1.Plain)
    (hfits : StoreAlong StoreOp.Fitting (stringstoreInitN (.machine grants) size) calls) :
    let p := stringstoreInitN (.machine grants) size
    StoreAlong (fun m p op => ¬ op.Hangs m p) p calls ∧
    (∀ fs, fs <+: calls → ∀ outs q, storeRun p fs = some (outs, q) →
      q.ssSize = size * max 1 (peak p fs ⌈/⌉ size)) ∧
    (∀ fs gs, fs <+: gs → gs <+: calls → ∀ outs q outs' q', storeRun p fs = some (outs, q) →
      storeRun p gs = some (outs', q') → q.ssSize ≤ q'.ssSize) ∧
    ((Memory.machine grants).Grants size → StoreAlong StoreOp.Granted p calls →
      ∃ outs q, storeRun p calls = some (outs, q)) := by
  intro p
  have hinit : Grown size 0 p := stringstoreInitN_grown hsize
  refine ⟨hinit.ends hplain hfits, ?_, ?_, ?_⟩
  · rintro fs ⟨gs, rfl⟩ outs q hq
    have hgrown := hinit.run (fun call hcall => hplain call (List.mem_append_left _ hcall))
      hfits.split.1 hq
    rw [hgrown.size, Nat.zero_max, roundUp]
  · rintro fs gs ⟨hs, rfl⟩ ⟨is, rfl⟩ outs q outs' q' hq hq'
    have hplain' : ∀ call ∈ fs ++ hs, call.1.Plain := fun call hcall =>
      hplain call (List.mem_append_left _ hcall)
    have hgrown := hinit.run (fun call hcall => hplain' call (List.mem_append_left _ hcall))
      hfits.split.1.split.1 hq
    rcases storeRun_append hq hq' with ⟨outs'', hrest⟩
    have hmore := hgrown.run (fun call hcall => hplain' call (List.mem_append_right _ hcall))
      (hfits.split.1.split.2 outs q hq) hrest
    rw [hgrown.size, hmore.size]
    exact Chunks.roundUp_mono size (Nat.le_max_left _ _)
  · intro hgrants hgranted
    rcases storeRun_spec (stringstoreInitN_backed (Nat.ne_of_gt hsize) hgrants) hfits hgranted with
      ⟨outs, q, hq, -⟩
    exact ⟨outs, q, hq⟩

/-- The need is largest at the first call: five bytes in chunks of two. -/
def fiveBytes : List (StoreOp × Bool) :=
  [(.append (.of [1, 2, 3, 4, 5] (by decide)), true), (.consume 4, true),
    (.store (.of [6, 7, 8] (by decide)) 0, true), (.clear, true)]

theorem capacity_fiveBytes :
    ∃ outs q, storeRun (stringstoreInitN (.machine true) 2) fiveBytes = some (outs, q) ∧
      q.ssSize = 6 := by
  have hplain : ∀ call ∈ fiveBytes, call.1.Plain := by simp [fiveBytes, StoreOp.Plain]
  rcases @capacity_least_chunks 2 (by decide) true fiveBytes hplain (by decide +kernel) with
    ⟨-, hsize, -, hall⟩
  rcases hall (by decide) (by decide +kernel) with ⟨outs, q, hq⟩
  have hpeak : 2 * max 1 (peak (stringstoreInitN (.machine true) 2) fiveBytes ⌈/⌉ 2) = 6 := by
    decide +kernel
  exact ⟨outs, q, hq, (hsize fiveBytes (List.prefix_refl _) outs q hq).trans hpeak⟩

end Hdmi2usbd
