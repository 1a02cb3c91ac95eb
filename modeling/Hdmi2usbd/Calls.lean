import Hdmi2usbd.Dispatch
import Hdmi2usbd.Effects

/-!
# Calls — the turns of the two loops, taken apart

A round of the select loop is a sequence of calls: `set_masks` for each device, then for each
device the three tests of the dispatch loop (`selectorRound_calls`). Nothing ties a call to a
round, so a run of calls is any interleaving of opens, accepts, reads, writes, exceptions and
closes, with any answers of the system. Devices are opened by `set_masks` alone, which is the
only caller of `open`. The pointer of a test is current, but for the write and the except test
of a listener whose accept has made the array grow (`Pointed`).
-/

namespace Hdmi2usbd

open Machine (Reaches run)

inductive Call
  | setMasks (index : Nat) (answer : OpenAnswer) (sets : FdSets)
  | test (index pointer : Nat) (sets : FdSets) (event : IoEvent) (answer : IoAnswer)
  | close (index flags : Nat)

/-- Replace the device in a slot, if there is one. -/
def onDevice (index : Nat) (f : Iodev → World → Iodev × World) (s : Selector × World) :
    Selector × World :=
  match selectorGetDevice s.1 index with
  | none => s
  | some dev => (s.1.store index (f dev s.2).1, (f dev s.2).2)

def Call.apply (clock : Nat → UTime) (s : Selector × World) : Call → Selector × World
  | .setMasks index answer sets =>
    onDevice index (fun dev w =>
      ((Hdmi2usbd.setMasks clock answer dev sets w).dev,
        (Hdmi2usbd.setMasks clock answer dev sets w).world)) s
  | .test index pointer sets event answer =>
    let d := dispatchEvent clock sets answer pointer ⟨index, 0, s.1, s.2⟩ event
    (d.selector, d.world)
  | .close index flags => onDevice index (fun dev w => iodevClose dev flags w) s

/-- The calls that the loops make, and whether actions may be lost in them. -/
def Call.IsLoop (lose : Prop) (s : Selector × World) : Call → Prop
  | .setMasks .. => True
  | .test index ptr sets event _ => Pointed (.losing lose) sets ptr ⟨index, 0, s.1, s.2⟩ event
  | .close .. => False

theorem onDevice_none {index : Nat} {f : Iodev → World → Iodev × World} {s : Selector × World}
    (h : s.1.toList[index]? = none) : onDevice index f s = s := by
  simp [onDevice, selectorGetDevice_eq, h]

theorem onDevice_some {index : Nat} {s : Selector × World} {dev : Iodev}
    (h : s.1.toList[index]? = some dev) (f : Iodev → World → Iodev × World) :
    onDevice index f s = (s.1.store index (f dev s.2).1, (f dev s.2).2) := by
  simp [onDevice, selectorGetDevice_eq, h]

/-! ## A round -/

/-- The calls that the loops make, when the handlers are called under the condition `Q`. -/
def Call.Meets (lose : Prop) (Q : IoEvent → IoAnswer → Iodev → World → Prop)
    (s : Selector × World) : Call → Prop
  | .setMasks .. => True
  | .test index ptr sets event answer =>
    Pointed (.losing lose) sets ptr ⟨index, 0, s.1, s.2⟩ event ∧
      ∀ dev, selectorGetDevice s.1 index = some dev →
        iodevIsSet dev (sets.get event) → Q event answer dev s.2
  | .close .. => False

/-- The condition for a test of the dispatch loop. -/
def OnCalls (Q : IoEvent → IoAnswer → Iodev → World → Prop) (sets : FdSets) (answer : IoAnswer)
    (t : DispatchState) (event : IoEvent) : Prop :=
  ∀ dev, selectorGetDevice t.selector t.index = some dev → iodevIsSet dev (sets.get event) →
    Q event answer dev t.world

instance (Q : IoEvent → IoAnswer → Iodev → World → Prop)
    [∀ event answer dev w, Decidable (Q event answer dev w)] (sets : FdSets) (answer : IoAnswer)
    (t : DispatchState) (event : IoEvent) : Decidable (OnCalls Q sets answer t event) := by
  delta OnCalls
  infer_instance

variable (clock : Nat → UTime) {lose : Prop} {Q : IoEvent → IoAnswer → Iodev → World → Prop}

theorem iosetStep_call (opens : Nat → OpenAnswer) (s : IosetState) (index : Nat) :
    Reaches (Call.apply clock) (Call.Meets lose Q) (s.selector, s.world)
      ((iosetStep clock opens s index).selector, (iosetStep clock opens s index).world) := by
  have hcall : Call.apply clock (s.selector, s.world) (.setMasks index (opens index) s.sets) =
      ((iosetStep clock opens s index).selector, (iosetStep clock opens s index).world) := by
    cases hget : selectorGetDevice s.selector index with
    | none => simp only [Call.apply, onDevice, iosetStep, hget]
    | some dev => simp only [Call.apply, onDevice, iosetStep, hget]
  rw [← hcall]
  exact Reaches.single trivial

theorem selectorIoset_calls (opens : Nat → OpenAnswer) (sets : FdSets) (sel : Selector) (w : World) :
    Reaches (Call.apply clock) (Call.Meets lose Q) (sel, w)
      ((selectorIoset clock opens sets sel w).selector,
        (selectorIoset clock opens sets sel w).world) :=
  Machine.run_simulates (fun s : IosetState => (s.selector, s.world)) (iosetStep_call clock opens)
    ⟨sel, sets, w, 0, 0⟩ _

/-- A test does to the devices and the world what it does with any other count. -/
theorem dispatchEvent_call {sets : FdSets} {answer : IoAnswer} {pointer : Nat} {s : DispatchState}
    {event : IoEvent} (hptr : Pointed (.losing lose) sets pointer s event)
    (h : OnCalls Q sets answer s event) :
    Reaches (Call.apply clock) (Call.Meets lose Q) (s.selector, s.world)
      ((dispatchEvent clock sets answer pointer s event).selector,
        (dispatchEvent clock sets answer pointer s event).world) := by
  have hcall : Call.apply clock (s.selector, s.world) (.test s.index pointer sets event answer) =
      ((dispatchEvent clock sets answer pointer s event).selector,
        (dispatchEvent clock sets answer pointer s event).world) := by
    cases hget : selectorGetDevice s.selector s.index with
    | none => simp only [Call.apply, dispatchEvent, hget]
    | some dev =>
      simp only [Call.apply, dispatchEvent, hget]
      split
      · rfl
      · rfl
  rw [← hcall]
  exact Reaches.single ⟨hptr, h⟩

theorem dispatchStep_calls {sets : FdSets} {s : DispatchState} {answer : IoAnswer}
    (h : TurnAll (OnCalls Q sets) clock sets s answer) (hlose : lose ∨ LosesNothing sets s answer) :
    Reaches (Call.apply clock) (Call.Meets lose Q) (s.selector, s.world)
      ((dispatchStep clock sets s answer).selector, (dispatchStep clock sets s answer).world) := by
  unfold dispatchStep
  split
  · next hmore =>
    rcases h hmore with ⟨hr, hw, hx⟩
    rcases turn_pointed (p := .losing lose) clock hmore hlose with ⟨hpw, hpx⟩
    exact ((dispatchEvent_call clock (.inl rfl) hr).trans
      (dispatchEvent_call clock hpw hw)).trans (dispatchEvent_call clock hpx hx)
  · exact Reaches.refl _

/-- A round of the select loop is a sequence of calls. -/
theorem selectorRound_meets {a : RoundAnswers} {sets : FdSets} {sel : Selector} {w : World}
    (h : RoundAll (OnCalls Q) clock a sets sel w)
    (hlose : lose ∨ RoundTurns LosesNothing clock a sets sel w) :
    Reaches (Call.apply clock) (Call.Meets lose Q) (sel, w)
      ((selectorRound clock a sets sel w).2.2.1, (selectorRound clock a sets sel w).2.2.2) := by
  have hioset : Reaches (Call.apply clock) (Call.Meets lose Q) _ _ :=
    selectorIoset_calls clock a.opens sets sel w
  have hboth := RoundTurns.and h (RoundTurns.or_left hlose)
  unfold selectorRound
  dsimp only
  split
  · exact hioset
  · next hactive =>
    split
    · next hrdy =>
      exact hioset.trans (Machine.run_simulates_along
        (fun s : DispatchState => (s.selector, s.world))
        (fun _ _ h => dispatchStep_calls clock h.1 h.2) (hboth hactive hrdy))
    · exact hioset

/-- The devices and the world reached by calls of the loops. -/
abbrev LoopReaches (lose : Prop) (clock : Nat → UTime) :
    Selector × World → Selector × World → Prop :=
  Reaches (Call.apply clock) (fun s call => call.IsLoop lose s)

theorem Call.Meets.isLoop {s : Selector × World} {call : Call} (h : call.Meets lose Q s) :
    call.IsLoop lose s := by
  cases call with
  | setMasks _ _ _ => trivial
  | test _ _ _ _ _ => exact h.1
  | close _ _ => exact h

theorem loopReaches_of_meets {s s' : Selector × World}
    (h : Reaches (Call.apply clock) (Call.Meets lose Q) s s') : LoopReaches lose clock s s' :=
  h.mono fun _ _ hmeets => hmeets.isLoop

/-- The handler of a listener with nothing to write transfers nothing. -/
theorem iodevHandler_listener {event : IoEvent} {answer : IoAnswer} {dev : Iodev}
    (hevent : event ≠ .read) (hlisten : dev.driver = .listen) (hused : dev.tbuf.used = 0) (w : World) :
    (iodevHandler clock event answer dev w).2.opens = w.opens ∧
      Adds (fun ev => ¬ ev.IsTransfer) w.log (iodevHandler clock event answer dev w).2.log := by
  refine ⟨(iodevHandler_handled clock event answer dev w).2.2.1, ?_⟩
  cases event with
  | read => exact absurd rfl hevent
  | write =>
    have hsame : (iodevHandler clock .write answer dev w).2 = w := by
      simp only [iodevHandler, hlisten, iodevWriteHandler, hused, if_true]
      split <;> rfl
    rw [hsame]
    exact Adds.refl _
  | except =>
    refine (iodevClose_setUp dev DevState.iodevNone.toNat w).2.mono fun ev hev => ?_
    cases ev <;> first | exact id | cases hev

/-- What a call of the loops does, when no listener has anything to write: no more than a note or a
close in the log; a connection is accepted and placed; `set_masks` is called for a device; or a
handler is. -/
theorem loopCall_cases (s : Selector × World) {call : Call} (hloop : call.IsLoop lose s)
    (hsilent : ∀ dev ∈ s.1.toList, dev.driver = .listen → dev.tbuf.used = 0) :
    ((call.apply clock s).1 = s.1 ∧ (call.apply clock s).2.opens = s.2.opens ∧
      Adds (fun ev => ¬ ev.IsTransfer) s.2.log (call.apply clock s).2.log) ∨
    (0 < s.1.toList.length ∧ (∃ dev, (call.apply clock s).1 = selectorPlace s.1 dev) ∧
      (call.apply clock s).2.opens = s.2.opens + 1 ∧
      Adds (fun ev => ¬ ev.IsTransfer) s.2.log (call.apply clock s).2.log) ∨
    (∃ index answer sets dev, call = .setMasks index answer sets ∧ s.1.toList[index]? = some dev ∧
      call.apply clock s = (s.1.store index (setMasks clock answer dev sets s.2).dev,
        (setMasks clock answer dev sets s.2).world)) ∨
    (∃ index ptr sets event answer dev, call = .test index ptr sets event answer ∧
      s.1.toList[index]? = some dev ∧ iodevIsSet dev (sets.get event) ∧
      call.apply clock s =
        (s.1.store index (iodevHandler clock event answer dev
            (DispatchState.call ⟨index, 0, s.1, s.2⟩ ptr event dev)).1,
          (iodevHandler clock event answer dev
            (DispatchState.call ⟨index, 0, s.1, s.2⟩ ptr event dev)).2)) := by
  have hnote : ∀ (ev : Ev) log, ¬ ev.IsTransfer → Adds (fun ev => ¬ ev.IsTransfer) log (log ++ [ev]) :=
    fun ev log hev => Adds.single hev log
  cases call with
  | close index flags => exact absurd hloop id
  | setMasks index answer sets =>
    cases hget : s.1.toList[index]? with
    | none =>
      rw [Call.apply, onDevice_none hget]
      exact .inl ⟨rfl, rfl, Adds.refl _⟩
    | some dev =>
      refine .inr (.inr (.inl ⟨index, answer, sets, dev, rfl, hget, ?_⟩))
      rw [Call.apply, onDevice_some hget]
  | test index ptr sets event answer =>
    cases hget : s.1.toList[index]? with
    | none =>
      have happly : (Call.test index ptr sets event answer).apply clock s = s := by
        simp only [Call.apply, dispatchEvent, selectorGetDevice_eq, hget]
      rw [happly]
      exact .inl ⟨rfl, rfl, Adds.refl _⟩
    | some dev =>
      by_cases hset : iodevIsSet dev (sets.get event)
      · have hcall : Adds (fun ev => ¬ ev.IsTransfer) s.2.log
            (DispatchState.call ⟨index, 0, s.1, s.2⟩ ptr event dev).log :=
          ((hnote _ _ id).trans (hnote _ _ id)).trans (hnote (.called event dev.session dev.fd) _ id)
        by_cases haccept : event = .read ∧ dev.driver = .listen
        · simp only [Call.apply, dispatchEvent_set (s := ⟨index, 0, s.1, s.2⟩) hget hset,
            runHandler_accept haccept]
          rcases tcpAcceptHandler_cases answer dev s.1
            (DispatchState.call ⟨index, 0, s.1, s.2⟩ ptr event dev) with ⟨-, heq⟩ | ⟨fd, -, -, heq⟩
          · rw [heq]
            exact .inl ⟨rfl, rfl, hcall⟩
          · rw [heq]
            have hlt := (List.getElem?_eq_some_iff.mp hget).1
            exact .inr (.inl ⟨by omega, ⟨_, rfl⟩, rfl,
              hcall.trans (hnote (.opened .accepted _ fd) _ id)⟩)
        · by_cases hblock : ptr = s.1.devs.block
          · refine .inr (.inr (.inr ⟨index, ptr, sets, event, answer, dev, rfl, hget, hset, ?_⟩))
            simp only [Call.apply, dispatchEvent_set (s := ⟨index, 0, s.1, s.2⟩) hget hset,
              runHandler_other haccept, if_pos hblock]
          · -- the listener stays as it is
            rcases hloop.resolve_left hblock with ⟨hevent, hlisten⟩
            have hlisten := (hlisten dev hget).1
            rcases iodevHandler_listener clock hevent hlisten
              (hsilent dev (List.mem_of_getElem? hget) hlisten)
              (DispatchState.call ⟨index, 0, s.1, s.2⟩ ptr event dev) with ⟨hopens, hlog⟩
            simp only [Call.apply, dispatchEvent_set (s := ⟨index, 0, s.1, s.2⟩) hget hset,
              runHandler_other haccept, if_neg hblock]
            exact .inl ⟨trivial, hopens, hcall.trans hlog⟩
      · have happly : (Call.test index ptr sets event answer).apply clock s =
            (s.1, DispatchState.deref ⟨index, 0, s.1, s.2⟩ ptr) := by
          simp only [Call.apply, dispatchEvent_unset (s := ⟨index, 0, s.1, s.2⟩) hget hset]
        rw [happly]
        exact .inl ⟨rfl, rfl, hnote _ _ id⟩

theorem setMasksCall_reaches {p : Policy} (s : Selector × World) (index : Nat) (answer : OpenAnswer)
    (sets : FdSets) :
    NetReaches p (netOf s.1 s.2) (netOf ((Call.setMasks index answer sets).apply clock s).1
      ((Call.setMasks index answer sets).apply clock s).2) := by
  cases hget : s.1.toList[index]? with
  | none =>
    rw [Call.apply, onDevice_none hget]
    exact Reaches.refl _
  | some dev =>
    rw [Call.apply, onDevice_some hget, netOf, netOf, Selector.store_toList]
    exact dev_reaches hget (setMasks_reaches answer sets s.2)

/-- A call of the loops is a sequence of actions. -/
theorem call_reaches (s : Selector × World) {call : Call} (hloop : call.IsLoop lose s) :
    NetReaches (.losing lose) (netOf s.1 s.2) (netOf (call.apply clock s).1 (call.apply clock s).2) := by
  cases call with
  | close index flags => exact absurd hloop id
  | test index pointer sets event answer =>
    exact dispatchEvent_reaches (s := ⟨index, 0, s.1, s.2⟩) clock
      (eventKeeps_losing sets answer _ event) hloop
  | setMasks index answer sets => exact setMasksCall_reaches clock s index answer sets

theorem selectorRound_calls {a : RoundAnswers} {sets : FdSets} {sel : Selector} {w : World}
    (hlose : lose ∨ RoundTurns LosesNothing clock a sets sel w) :
    LoopReaches lose clock (sel, w)
      ((selectorRound clock a sets sel w).2.2.1, (selectorRound clock a sets sel w).2.2.2) := by
  refine loopReaches_of_meets clock
    (selectorRound_meets (Q := fun _ _ _ _ => True) clock ?_ hlose)
  intro _ _
  refine Machine.along_of_forall ?_ _
  intro s answer _
  exact ⟨fun _ _ _ => trivial, fun _ _ _ => trivial, fun _ _ _ => trivial⟩

/-- A round, whatever is lost in it. -/
theorem selectorRound_loop (a : RoundAnswers) (sets : FdSets) (sel : Selector) (w : World) :
    LoopReaches True clock (sel, w)
      ((selectorRound clock a sets sel w).2.2.1, (selectorRound clock a sets sel w).2.2.2) :=
  selectorRound_calls clock (.inl trivial)

end Hdmi2usbd
