import Hdmi2usbd.CommandGaps

/-!
# Loops — what a round of the select loop keeps

An action may write without a descriptor, but no function of a round does: a handler writes only
for an open device. So a property of the devices and the world is kept by a round if the actions
that do not write keep it, and a write of an open device does (`LoopKeeps`).
-/

namespace Hdmi2usbd

open Machine (Reaches Along run)

def NetAct.Sends : NetAct → Prop
  | .device _ (.sent _) | .lost _ (.sent _) => True
  | _ => False

/-- A write is logged. -/
theorem netAct_not_sends {p : Policy} {n : Net} {a : NetAct} (hok : a.Ok p n)
    (hlog : Adds (fun ev => ¬ ev.IsSent) n.world.log (a.apply n).world.log) : ¬ a.Sends := by
  intro hsends
  rcases hlog with ⟨evs, hlog, hevs⟩
  have hwritten : ∀ {session bytes tick}, evs ≠ [.sent session bytes tick] := by
    rintro session bytes tick rfl
    exact hevs _ List.mem_cons_self (show Ev.IsSent (.sent ..) from trivial)
  cases a with
  | note | accept => exact hsends
  | device index a =>
    cases a with
    | sent k =>
      rcases hok with ⟨dev, hget, -⟩
      simp only [NetAct.apply, hget, DevAct.apply, advance, World.record_log,
        List.append_cancel_left_eq] at hlog
      exact hwritten hlog.symm
    | _ => exact hsends
  | lost index a =>
    rcases netAct_lost hok with ⟨dev, w, ev, -, -, heq, -, -, hlost, ⟨rfl, -⟩ | ⟨k, rfl, rfl⟩⟩
    · exact hsends
    · rw [heq] at hlog
      simp only [hlost, List.append_cancel_left_eq] at hlog
      exact hwritten hlog.symm

/-- What is kept by the actions that do not write, and by a write of an open device, when the devices
are where they belong. -/
structure LoopKeeps (lose : Prop) (I : Net → Prop) : Prop where
  act : ∀ {n : Net} {a : NetAct}, I n → Seated n → Seated (a.apply n) → a.Ok (.losing lose) n →
    ¬ a.Sends → I (a.apply n)
  sent : ∀ {n : Net} {w : World} {index k : Nat} {dev : Iodev} {r : Iodev × World}, I n → Seated n →
    Seated ⟨n.devs.set index r.1, r.2⟩ → n.devs[index]? = some dev → iodevIsOpen dev →
    Adds Ev.IsNote n.world.log w.log → w.fds = n.world.fds → w.opens = n.world.opens →
    Sent dev k w r → I ⟨n.devs.set index r.1, r.2⟩

namespace LoopKeeps

variable {lose : Prop} {I : Net → Prop} (h : LoopKeeps lose I) {clock : Nat → UTime} {room : Nat}
include h

/-- Actions that write nothing. -/
theorem unsent {n n' : Net} (hn : I n) (hseated : Seated n) (hreach : NetReaches (.losing lose) n n')
    (hlog : Adds (fun ev => ¬ ev.IsSent) n.world.log n'.world.log) : I n' := by
  rcases hreach with ⟨acts, halong, rfl⟩
  induction acts generalizing n with
  | nil => exact hn
  | cons a acts ih =>
    rcases halong with ⟨hok, halong⟩
    have hrest : NetReaches (.losing lose) (a.apply n) (run NetAct.apply (a.apply n) acts) :=
      ⟨acts, halong, rfl⟩
    rcases (Adds.split (netAct_log n a hok).extended (netReaches_log hrest).extended).mp hlog with
      ⟨hfirst, hlast⟩
    have hafter := netAct_seated n a hseated hok
    exact ih (h.act hn hseated hafter hok (netAct_not_sends hok hfirst)) hafter halong hlast

theorem call {s : Selector × World} (hs : I (netOf s.1 s.2)) (hseated : Seated (netOf s.1 s.2))
    (hsteady : AllSteady room s.1) {call : Call} (hloop : call.IsLoop lose s) :
    I (netOf (call.apply clock s).1 (call.apply clock s).2) := by
  have hreach := call_reaches clock s hloop
  -- unless a handler writes, nothing is sent
  have hsilent : ∀ {log}, Adds (fun ev => ¬ ev.IsSent) s.2.log log →
      (call.apply clock s).2.log = log →
        I (netOf (call.apply clock s).1 (call.apply clock s).2) := by
    rintro log hadds rfl
    exact h.unsent hs hseated hreach hadds
  rcases loopCall_cases clock s hloop hseated.silent with ⟨-, -, hadds⟩ |
    ⟨-, -, -, hadds⟩ |
    ⟨index, answer, sets, dev, -, -, heq⟩ |
    ⟨index, ptr, sets, event, answer, dev, -, hget, hset, heq⟩
  · exact hsilent (hadds.mono fun _ => Ev.not_sent_of_not_transfer) rfl
  · exact hsilent (hadds.mono fun _ => Ev.not_sent_of_not_transfer) rfl
  · have hadds := (setMasks_setUp clock answer dev sets s.2).2
    refine hsilent (hadds.mono fun _ => Ev.IsSetup.not_sent) ?_
    rw [heq]
  · have hnote : Adds Ev.IsNote s.2.log
        (DispatchState.call ⟨index, 0, s.1, s.2⟩ ptr event dev).log :=
      ⟨[.deref ptr s.1.devs.block, .deref ptr s.1.devs.block, .called event dev.session dev.fd],
        by simp [DispatchState.call, DispatchState.deref], by simp [Ev.IsNote]⟩
    have hquiet : Adds (fun ev => ¬ ev.IsSent) s.2.log
        (DispatchState.call ⟨index, 0, s.1, s.2⟩ ptr event dev).log := by
      refine hnote.mono fun ev hev => ?_
      cases ev with
      | registered | deref | called => exact id
      | _ => exact absurd hev id
    generalize hw : DispatchState.call ⟨index, 0, s.1, s.2⟩ ptr event dev = w at heq hnote hquiet
    have hworld := congrArg Prod.snd heq
    rcases iodevHandler_cases clock event answer dev w with ⟨-, hlog, -, -⟩ |
      ⟨bytes, -, -, -, hreceived⟩ | ⟨k, -, -, hsent⟩ | ⟨-, -, hfail⟩ | ⟨-, hfail⟩
    · exact hsilent hquiet (by rw [hworld, hlog])
    · rw [hreceived] at hworld
      refine hsilent (hquiet.trans (Adds.single ?_ _)) (congrArg World.log hworld)
      exact fun h => h
    · have hopen := (hsteady dev (List.mem_of_getElem? hget)).1
        ((hseated.devs index dev hget).held.mp (iodevIsSet_iff.mp hset).1)
      have hafter := netReaches_seated hseated hreach
      rw [heq, netOf, Selector.store_toList] at hafter ⊢
      exact h.sent hs hseated hafter hget hopen hnote (by rw [← hw]; rfl) (by rw [← hw]; rfl) hsent
    · have hadds := hfail.setUp.2
      exact hsilent (hquiet.trans (hadds.mono fun _ => Ev.IsSetup.not_sent)) (by rw [hworld])
    · have hadds := hfail.setUp.2
      exact hsilent (hquiet.trans (hadds.mono fun _ => Ev.IsSetup.not_sent)) (by rw [hworld])

/-- A round of the select loop. -/
theorem round {d : Daemon} (hd : I (netOf d.app.selector d.world)) (horderly : Orderly room d)
    {a : RoundAnswers} (hlose : lose ∨ NoStaleClose clock a d.sets d.app.selector d.world) :
    I (netOf (d.round clock a).app.selector (d.round clock a).world) := by
  have hreach : LoopReaches lose clock _ _ :=
    selectorRound_calls clock (hlose.imp_right fun h => h.losesNothing clock horderly.seated)
  refine (hreach.preserves
    (fun s => I (netOf s.1 s.2) ∧ Seated (netOf s.1 s.2) ∧ AllSteady room s.1) ?_
    ⟨hd, horderly.seated, horderly.steady⟩).1
  intro s call hs hloop
  exact ⟨h.call hs.1 hs.2.1 hs.2.2 hloop, netReaches_seated hs.2.1 (call_reaches clock s hloop),
    call_steady clock hs.2.2 hloop⟩

end LoopKeeps

/-! ## The log -/

/-- A step only adds to the log. -/
theorem Daemon.step_log (clock : Nat → UTime) (d : Daemon) (i : Input) :
    d.world.log <+: (d.step clock i).world.log := by
  refine d.step_keeps clock (I := fun _ w => d.world.log <+: w.log) (List.prefix_refl _)
    (fun ev _ => List.prefix_append _ [ev]) (fun a _ _ => ?_) ?_ ?_
  · exact (netReaches_log (selectorRound_any clock a d.sets d.app.selector d.world)).extended
  · intro a rc app w hinit
    rcases hdmi2usbInit_spec hinit with ⟨-, -, -, -, -, -, hlog⟩
    rw [hlog]
    exact List.prefix_append _ _
  · exact (List.prefix_append _ _).trans
      (hdmi2usbProcess_log clock d.app 0 (d.world.record .processed)).extended

end Hdmi2usbd
