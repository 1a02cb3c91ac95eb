import Hdmi2usbd.Actions
import Hdmi2usbd.Daemon

/-!
# Dispatch — the pointers that `selector_dispatch` uses

A turn of the dispatch loop takes one pointer into the device array and reads the device
through it for each of the three events. The read handler of a listener may add a device
and so replace the storage block; the turn then goes on with a pointer into the old one.
The pointers of a dispatch are never stale if and only if no accept in it makes the array
grow (`pointers_current`).
-/

namespace Hdmi2usbd

open Machine (Along run)

/-! ## Handlers -/

/-- Events of a read or a write. -/
def Ev.IsTransfer : Ev → Prop
  | .received .. | .sent .. => True
  | _ => False

/-- What a handler leaves of a device: it keeps its descriptor, or it is closed. -/
def Handled (dev : Iodev) (w : World) (r : Iodev × World) : Prop :=
  r.1.session = dev.session ∧ r.1.driver = dev.driver ∧ r.2.opens = w.opens ∧
    ((r.1.fd = dev.fd ∧ r.2.fds = w.fds ∧ Adds Ev.IsTransfer w.log r.2.log) ∨
      (r.1.fd = -1 ∧ r.2.log = w.log ++ [.closed dev.session dev.fd]))

theorem handled_same (dev : Iodev) (w : World) : Handled dev w (dev, w) :=
  ⟨rfl, rfl, rfl, .inl ⟨rfl, rfl, Adds.refl _⟩⟩

theorem iodevClose_handled (dev : Iodev) {flags : Nat} (hflags : flags &&& ioflagFlush = 0)
    (w : World) : Handled dev w (iodevClose dev flags w) := by
  by_cases h : dev.state.holds
  · rw [iodevClose_holds h hflags]
    exact ⟨rfl, rfl, rfl, .inr ⟨rfl, rfl⟩⟩
  · rw [iodevClose_not_holds h]
    split
    · exact handled_same dev w
    · exact handled_same dev w

theorem iodevReadHandler_handled (answer : Option (List UInt8)) (dev : Iodev) (w : World) :
    Handled dev w (iodevReadHandler answer dev w) := by
  rcases iodevReadHandler_cases answer dev w with h | ⟨-, -, h⟩ | ⟨bytes, -, -, -, h⟩
  · rw [h]
    exact handled_same dev w
  · rw [h]
    exact iodevClose_handled (flushBuffers dev) rfl w
  · rw [h]
    exact ⟨rfl, rfl, rfl, .inl ⟨rfl, rfl, Adds.single trivial _⟩⟩

theorem iodevWriteHandler_handled (answer : Option Nat) (dev : Iodev) (w : World) :
    Handled dev w (iodevWriteHandler answer dev w) := by
  unfold iodevWriteHandler
  split
  · exact handled_same dev w
  · dsimp only
    split
    · exact handled_same dev w
    · cases answer with
      | none => exact iodevClose_handled (flushBuffers dev) rfl w
      | some rc => exact ⟨rfl, rfl, rfl, .inl ⟨rfl, rfl, Adds.single trivial _⟩⟩

theorem serialWriteHandler_handled (clock : Nat → UTime) (answer : Option Nat) (dev : Iodev) (w : World) :
    Handled dev w (serialWriteHandler clock answer dev w) := by
  -- the check of the pacer takes at most a reading of the clock
  have hcheck : ∀ r, Handled dev (w.expired clock dev.pacer).2 r → Handled dev w r := by
    intro r h
    simpa [Handled] using h
  unfold serialWriteHandler
  split
  · exact handled_same dev w
  · split
    · exact handled_same dev w
    · refine hcheck _ ?_
      dsimp only
      split
      · exact handled_same dev _
      · cases answer with
        | none => exact iodevClose_handled dev rfl _
        | some rc => exact ⟨rfl, rfl, rfl, .inl ⟨rfl, rfl, Adds.single trivial _⟩⟩

theorem iodevHandler_handled (clock : Nat → UTime) (event : IoEvent) (answer : IoAnswer)
    (dev : Iodev) (w : World) : Handled dev w (iodevHandler clock event answer dev w) := by
  cases event with
  | read => exact iodevReadHandler_handled answer.read dev w
  | write =>
    unfold iodevHandler
    cases dev.driver with
    | serial => exact serialWriteHandler_handled clock answer.write dev w
    | listen | accepted => exact iodevWriteHandler_handled answer.write dev w
  | except => exact iodevClose_handled dev rfl w

/-! ## Pointers -/

/-- A use of a pointer is into the storage block of the array. -/
def Ev.IsCurrent : Ev → Prop
  | .deref pointer block => pointer = block
  | _ => True

/-- The handler of an event uses no pointer of the loop. -/
theorem runHandler_current (clock : Nat → UTime) (event : IoEvent) (answer : IoAnswer)
    (ptr index : Nat) (dev : Iodev) (sel : Selector) (w : World) :
    Adds Ev.IsCurrent w.log (runHandler clock event answer ptr index dev sel w).2.log := by
  by_cases haccept : event = .read ∧ dev.driver = .listen
  · rw [runHandler_accept haccept]
    rcases tcpAcceptHandler_cases answer dev sel w with ⟨-, h⟩ | ⟨fd, -, -, h⟩
    · rw [h]
      exact Adds.refl _
    · rw [h]
      exact Adds.single trivial _
  · rw [runHandler_other haccept]
    rcases iodevHandler_handled clock event answer dev w with
      ⟨-, -, -, ⟨-, -, hlog⟩ | ⟨-, hlog⟩⟩
    · exact hlog.mono fun ev hev => by cases ev <;> trivial
    · simp only [hlog]
      exact Adds.single trivial _

section Pointers

variable {clock : Nat → UTime} {sets : FdSets} {answer : IoAnswer} {ptr : Nat} {s : DispatchState}
  {event : IoEvent} {dev : Iodev}

/-- A test uses the pointer it is given. -/
theorem dispatchEvent_current (hget : s.selector.toList[s.index]? = some dev) :
    Adds Ev.IsCurrent s.world.log (dispatchEvent clock sets answer ptr s event).world.log ↔
      ptr = s.selector.devs.block := by
  have hfirst : Adds Ev.IsCurrent s.world.log (s.deref ptr).log ↔ ptr = s.selector.devs.block := by
    constructor
    · rintro ⟨evs, hlog, hevs⟩
      have heq : evs = [.deref ptr s.selector.devs.block] :=
        List.append_cancel_left hlog.symm
      exact hevs (.deref ptr s.selector.devs.block) (by rw [heq]; exact List.mem_singleton.mpr rfl)
    · intro heq
      exact Adds.single heq _
  by_cases hset : iodevIsSet dev (sets.get event)
  · rw [dispatchEvent_set hget hset]
    have hcall : (s.deref ptr).log <+: (s.call ptr event dev).log :=
      ⟨[.deref ptr s.selector.devs.block, .called event dev.session dev.fd],
        by simp [DispatchState.call]⟩
    have hrun := runHandler_current clock event answer ptr s.index dev s.selector
      (s.call ptr event dev)
    constructor
    · intro h
      exact hfirst.mp ((Adds.split ⟨_, rfl⟩ (hcall.trans hrun.extended)).mp h).1
    · intro heq
      exact (((hfirst.mpr heq).trans (Adds.single heq _)).trans (Adds.single trivial _)).trans hrun
  · rw [dispatchEvent_unset hget hset]
    exact hfirst

/-- The log only grows. -/
theorem dispatchEvent_extended : s.world.log <+:
    (dispatchEvent clock sets answer ptr s event).world.log := by
  cases hget : s.selector.toList[s.index]? with
  | none =>
    rw [← selectorGetDevice_eq] at hget
    simp [dispatchEvent, hget]
  | some dev =>
    by_cases hset : iodevIsSet dev (sets.get event)
    · rw [dispatchEvent_set hget hset]
      have hcall : s.world.log <+: (s.call ptr event dev).log :=
        ⟨[.deref ptr s.selector.devs.block, .deref ptr s.selector.devs.block,
            .called event dev.session dev.fd],
          by simp [DispatchState.call, DispatchState.deref]⟩
      exact hcall.trans (runHandler_current clock event answer ptr s.index dev s.selector
        (s.call ptr event dev)).extended
    · rw [dispatchEvent_unset hget hset]
      exact List.prefix_append _ _

/-- A turn uses current pointers exactly when its accept does not make the array grow. -/
theorem dispatchStep_current :
    Adds Ev.IsCurrent s.world.log (dispatchStep clock sets s answer).world.log ↔
      (s.More → ¬ Grows sets s answer) := by
  unfold dispatchStep
  by_cases hmore : s.More
  swap
  · rw [if_neg hmore]
    exact iff_of_true (Adds.refl _) (fun h => absurd h hmore)
  rw [if_pos hmore]
  simp only [hmore, forall_const]
  -- the three tests, with the pointer taken at the head of the turn
  generalize hr : dispatchEvent clock sets answer s.selector.devs.block s .read = s₁
  generalize hw : dispatchEvent clock sets answer s.selector.devs.block s₁ .write = s₂
  generalize hx : dispatchEvent clock sets answer s.selector.devs.block s₂ .except = s₃
  have hlt : s.index < selectorDeviceCount s.selector := hmore.2
  have hlt₁ : s₁.index < selectorDeviceCount s₁.selector := by
    rw [← hr, dispatchEvent_index]
    exact hlt.trans_le dispatchEvent_count
  have hlt₂ : s₂.index < selectorDeviceCount s₂.selector := by
    rw [← hw, dispatchEvent_index]
    exact hlt₁.trans_le dispatchEvent_count
  have hfirst : Adds Ev.IsCurrent s.world.log s₁.world.log := by
    rw [← hr]
    exact (dispatchEvent_current (getElem?_index hlt)).mpr rfl
  have hsecond : Adds Ev.IsCurrent s₁.world.log s₂.world.log ↔ ¬ Grows sets s answer := by
    rw [← hw, dispatchEvent_current (getElem?_index hlt₁), eq_comm, ← hr]
    exact dispatchEvent_grows
  have hthird : Adds Ev.IsCurrent s₂.world.log s₃.world.log ↔ ¬ Grows sets s answer := by
    have hblock : s₂.selector.devs.block = s₁.selector.devs.block := by
      rw [← hw]
      exact dispatchEvent_block (by simp)
    rw [← hx, dispatchEvent_current (getElem?_index hlt₂), eq_comm, hblock, ← hr]
    exact dispatchEvent_grows
  have hext₂ : s₁.world.log <+: s₂.world.log := by
    rw [← hw]
    exact dispatchEvent_extended
  have hext₃ : s₂.world.log <+: s₃.world.log := by
    rw [← hx]
    exact dispatchEvent_extended
  rw [Adds.split hfirst.extended (hext₂.trans hext₃), Adds.split hext₂ hext₃, hsecond, hthird]
  constructor
  · rintro ⟨-, hnone, -⟩
    exact hnone
  · intro hnone
    exact ⟨hfirst, hnone, hnone⟩

end Pointers

/-- What is logged in a run has `P` exactly when what is logged in each step has. -/
theorem adds_run {σ ε : Type} {step : σ → ε → σ} (log : σ → List Ev) {P : Ev → Prop}
    (hext : ∀ s e, log s <+: log (step s e)) (s : σ) (es : List ε) :
    Adds P (log s) (log (run step s es)) ↔
      Along step (fun s e => Adds P (log s) (log (step s e))) s es := by
  have hrun : ∀ (s : σ) (es : List ε), log s <+: log (run step s es) := by
    intro s es
    exact Machine.run_invariant (fun t => log s <+: log t) (fun t e ht => ht.trans (hext t e))
      (List.prefix_refl _) es
  induction es generalizing s with
  | nil => exact iff_of_true (Adds.refl _) trivial
  | cons e es ih =>
    rw [Machine.run_cons, Adds.split (hext s e) (hrun (step s e) es)]
    exact and_congr_right fun _ => ih (step s e)

theorem dispatchStep_extended (clock : Nat → UTime) (sets : FdSets) (s : DispatchState)
    (answer : IoAnswer) : s.world.log <+: (dispatchStep clock sets s answer).world.log := by
  unfold dispatchStep
  split
  · exact (dispatchEvent_extended.trans dispatchEvent_extended).trans dispatchEvent_extended
  · exact List.prefix_refl _

/-- The device pointers of a dispatch are never stale, in whatever state it starts, if and only
if no accept in it makes the device array grow. -/
theorem pointers_current (clock : Nat → UTime) (sets : FdSets) (ios : Nat → IoAnswer) (ready : Int)
    (sel : Selector) (w : World) :
    Adds Ev.IsCurrent w.log (selectorDispatch clock sets ios ready sel w).world.log ↔
      Along (dispatchStep clock sets) (fun s answer => s.More → ¬ Grows sets s answer)
        ⟨0, ready, sel, w⟩ ((List.range (dispatchTurns ready sel)).map ios) := by
  have hrun := adds_run (P := Ev.IsCurrent) (fun s : DispatchState => s.world.log)
    (dispatchStep_extended clock sets) ⟨0, ready, sel, w⟩
    ((List.range (dispatchTurns ready sel)).map ios)
  exact hrun.trans (Machine.along_congr fun _ _ => dispatchStep_current)

/-- The daemon with five connections, and so with seven devices in an array for eight. -/
def crowded : Daemon :=
  run (Daemon.step fun _ => 0) (Daemon.start (fun _ => 0) 64 Daemon.oneAddress)
    (Daemon.firstConnection ++
      [6, 7, 8, 9].map fun fd => Daemon.turn ⟨{4}, ∅, ∅⟩ ⟨none, some fd, none⟩)

/-- Its dispatch when the listener is ready and a sixth connection comes. -/
def sixthConnection : DispatchState :=
  selectorDispatch (fun _ => 0) ⟨{4}, ∅, ∅⟩ (fun _ => ⟨none, some 10, none⟩) 1
    crowded.app.selector crowded.world

theorem sixth_connection_stale :
    ¬ Adds Ev.IsCurrent crowded.world.log sixthConnection.world.log := by
  rintro ⟨evs, hlog, hevs⟩
  -- the write test of the listener reads through the pointer into the old block
  have hstale : .deref 1 2 ∈ sixthConnection.world.log.drop crowded.world.log.length := by
    decide +kernel
  rw [hlog, List.drop_left] at hstale
  have hcurrent : (1 : Nat) = 2 := hevs _ hstale
  cases hcurrent

end Hdmi2usbd
