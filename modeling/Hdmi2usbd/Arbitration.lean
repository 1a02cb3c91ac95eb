import Hdmi2usbd.CommandGaps
import Hdmi2usbd.Lib.Flow
import Hdmi2usbd.Pacing
import Hdmi2usbd.Wire

/-!
# Arbitration — whose command a process cycle hands on

The turns of a cycle go through the connections in the order of their slots, and all look at one
timer. So a cycle serves slots in order, each at most once, and passes over one that waits with a
command only for an earlier one (`run_arbitrated`); no cycle that finds the timer expired and a
connection waiting goes by without a command (`run_work_conserving`); and as long as no time passes
within a cycle, a connection that always waits starves those in later slots (`run_starves`).
-/

namespace Hdmi2usbd

open Machine (Along run)

/-- There is a command to hand on. -/
def Iodev.Waiting (dev : Iodev) : Prop :=
  iodevIsListener dev = false ∧ dev.linebuf.isSome ∧ (Lines.next isEol dev.stored).isSome

instance (dev : Iodev) : Decidable dev.Waiting :=
  inferInstanceAs (Decidable (iodevIsListener dev = false ∧ _ ∧ _))

/-- The commands that have been handed on with the session they are from, in order. -/
def handsOf (log : List Ev) : List (Nat × List UInt8) :=
  log.filterMap fun
    | .handed session command _ _ => some (session, command)
    | _ => none

@[simp] theorem handsOf_append (log log' : List Ev) :
    handsOf (log ++ log') = handsOf log ++ handsOf log' := List.filterMap_append

/-- The slot, which is not that of the serial device, holds a connection whose first command this
is. -/
def Offers (devs : List Iodev) (index : Nat) (hand : Nat × List UInt8) : Prop :=
  1 ≤ index ∧ ∃ dev rest, devs[index]? = some dev ∧ dev.Waiting ∧ dev.session = hand.1 ∧
    Lines.next isEol dev.stored = some (hand.2, rest)

/-- All readings between two states of the world are the same. -/
def StandsStill (clock : Nat → UTime) (w w' : World) : Prop :=
  ∀ n < w'.tick, w.tick ≤ n → clock n = clock w.tick

/-- Between two states of the world the slots `served` handed on their first commands; the timer was
`timer` at the start. -/
structure Arbitrated (clock : Nat → UTime) (devs : List Iodev) (timer : Microtimer) (w w' : World)
    (served : List Nat) : Prop where
  order : served.Pairwise (· < ·)
  hands : ∃ evs, w'.log = w.log ++ evs ∧ List.Forall₂ (Offers devs) served (handsOf evs)
  passed : (w.expired clock timer).1 = true → ∀ index dev, 1 ≤ index → devs[index]? = some dev →
    dev.Waiting → index ∉ served → ∃ i ∈ served, i < index
  single : StandsStill clock w w' →
    served.length ≤ 1 ∧ (served ≠ [] → (w.expired clock timer).1 = true)

/-! ## The timer -/

variable {clock : Nat → UTime}

/-- The end of the timer is one that the clock can be compared with. -/
def Microtimer.Bounded (t : Microtimer) : Prop := t.tEnding.toNat < utimeHalf

theorem bounded_timerReset (hclock : ClockBounded clock) (n : Nat) :
    (timerReset (clock n) commandPace).Bounded := by
  rw [Microtimer.Bounded, (timerReset_tEnding (by decide) (hclock n)).2]
  exact hclock n

/-- Between two states of the world the clock does not go back. -/
def RunsForward (clock : Nat → UTime) (w w' : World) : Prop :=
  ∀ m n, w.tick ≤ m → m ≤ n → n < w'.tick → (clock m).toNat ≤ (clock n).toNat

theorem NonDecreasing.runsForward (h : NonDecreasing clock) (w w' : World) :
    RunsForward clock w w' := fun m n _ hmn _ => h m n hmn

theorem StandsStill.runsForward {w w' : World} (h : StandsStill clock w w') :
    RunsForward clock w w' := by
  intro m n hm hmn hn
  rw [h m (hmn.trans_lt hn) hm, h n hn (hm.trans hmn)]

/-- A timer that has expired stays so until it is reset. -/
theorem expired_later (hclock : ClockBounded clock) {t : Microtimer} (ht : t.Bounded) {w w' : World}
    (hle : (clock w.tick).toNat ≤ (clock w'.tick).toNat)
    (hexp : (w.expired clock t).1 = true) : (w'.expired clock t).1 = true := by
  by_cases hnever : t.tEnding = never
  · simp [World.expired, hnever]
  · have hnow : ∀ v : World, (v.expired clock t).1 = timerExpired t (clock v.tick) := by
      intro v
      simp [World.expired, hnever, World.now]
    have hbound : ∀ n, (clock n).toNat < utimeHalf := fun n => by
      have := hclock n
      omega
    rw [hnow, timerExpired_iff hnever ht (hbound _)] at hexp ⊢
    exact hexp.trans hle

/-- While the clock stands still, a timer is expired where it is expired later. -/
theorem expired_sooner {t : Microtimer} {w w' : World} (heq : clock w'.tick = clock w.tick)
    (hexp : (w'.expired clock t).1 = true) : (w.expired clock t).1 = true := by
  unfold World.expired at hexp ⊢
  split at hexp
  · next hnever => rw [if_pos hnever]
  · next hnever =>
    rw [if_neg hnever]
    simp only [World.now] at hexp ⊢
    rwa [← heq]

/-! ## The turns of a cycle -/

namespace Arbitrated

variable {devs : List Iodev} {timer : Microtimer} {w w' w'' : World} {served : List Nat}
  {index : Nat}

theorem lt_of_mem (h : Arbitrated clock (devs.take index) timer w w' served) :
    ∀ i ∈ served, i < index := by
  rcases h.hands with ⟨evs, -, hands⟩
  intro i hi
  rcases List.forall₂_iff_get.mp hands with ⟨hlen, hget⟩
  rcases List.mem_iff_get.mp hi with ⟨⟨k, hk⟩, rfl⟩
  rcases hget k hk (hlen ▸ hk) with ⟨-, dev, -, hdev, -⟩
  have hlt := (List.getElem?_eq_some_iff.mp hdev).1
  rw [List.length_take] at hlt
  exact hlt.trans_le (min_le_left _ _)

theorem stands_still (htick : w'.tick ≤ w''.tick) (h : StandsStill clock w w'') :
    StandsStill clock w w' := fun n hn => h n (hn.trans_le htick)

/-- What the turns so far have handed on is offered by the slots so far. -/
theorem offers_take {hands : List (Nat × List UInt8)}
    (h : List.Forall₂ (Offers (devs.take index)) served hands) :
    List.Forall₂ (Offers (devs.take (index + 1))) served hands := by
  refine h.imp fun i hand ⟨hpos, dev, rest, hdev, hoffer⟩ => ⟨hpos, dev, rest, ?_, hoffer⟩
  rw [List.getElem?_take] at hdev ⊢
  split at hdev
  · next hlt => rw [if_pos (hlt.trans (Nat.lt_succ_self index)), hdev]
  · cases hdev

/-- A turn that hands nothing on. -/
theorem skip (h : Arbitrated clock (devs.take index) timer w w' served) {evs : List Ev}
    (hlog : w''.log = w'.log ++ evs) (hevs : handsOf evs = []) (htick : w'.tick ≤ w''.tick)
    (hskip : (w.expired clock timer).1 = true → ∀ dev, devs[index]? = some dev → dev.Waiting →
      served ≠ []) :
    Arbitrated clock (devs.take (index + 1)) timer w w'' served := by
  constructor
  · exact h.order
  · rcases h.hands with ⟨evs', hlog', hands⟩
    refine ⟨evs' ++ evs, by rw [hlog, hlog', List.append_assoc], ?_⟩
    rw [handsOf_append, hevs, List.append_nil]
    exact offers_take hands
  · intro hexp i dev hpos hdev hwaiting hnot
    rw [List.getElem?_take] at hdev
    split at hdev
    · next hlt =>
      rcases Nat.lt_succ_iff_lt_or_eq.mp hlt with hlt | rfl
      · exact h.passed hexp i dev hpos (by rw [List.getElem?_take, if_pos hlt, hdev]) hwaiting hnot
      · rcases List.exists_mem_of_ne_nil _ (hskip hexp dev hdev hwaiting) with ⟨j, hj⟩
        exact ⟨j, hj, h.lt_of_mem j hj⟩
    · cases hdev
  · exact fun hstill => h.single (stands_still htick hstill)

/-- A turn that hands on the first command of its connection. -/
theorem serve (h : Arbitrated clock (devs.take index) timer w w' served) {evs : List Ev}
    {hand : Nat × List UInt8} (hlog : w''.log = w'.log ++ evs) (hevs : handsOf evs = [hand])
    (hoffer : Offers devs index hand)
    (hsingle : StandsStill clock w w'' → served = [] ∧ (w.expired clock timer).1 = true) :
    Arbitrated clock (devs.take (index + 1)) timer w w'' (served ++ [index]) := by
  constructor
  · refine List.pairwise_append.mpr ⟨h.order, List.pairwise_singleton _ _, ?_⟩
    intro i hi j hj
    rw [List.mem_singleton.mp hj]
    exact h.lt_of_mem i hi
  · rcases h.hands with ⟨evs', hlog', hands⟩
    refine ⟨evs' ++ evs, by rw [hlog, hlog', List.append_assoc], ?_⟩
    rw [handsOf_append, hevs]
    refine List.rel_append (offers_take hands) (List.Forall₂.cons ?_ List.Forall₂.nil)
    rcases hoffer with ⟨hpos, dev, rest, hdev, hoffer⟩
    refine ⟨hpos, dev, rest, ?_, hoffer⟩
    rw [List.getElem?_take, if_pos (Nat.lt_succ_self index), hdev]
  · intro hexp i dev hpos hdev hwaiting hnot
    rw [List.mem_append, not_or, List.mem_singleton] at hnot
    rw [List.getElem?_take] at hdev
    split at hdev
    · next hlt =>
      have hlt : i < index := lt_of_le_of_ne (Nat.lt_succ_iff.mp hlt) hnot.2
      rcases h.passed hexp i dev hpos (by rw [List.getElem?_take, if_pos hlt, hdev]) hwaiting hnot.1
        with ⟨j, hj, hji⟩
      exact ⟨j, List.mem_append_left _ hj, hji⟩
    · cases hdev
  · intro hstill
    rcases hsingle hstill with ⟨rfl, hexp⟩
    exact ⟨le_rfl, fun _ => hexp⟩

end Arbitrated

/-- What the turns before `index` have done to the state in which the turns began. -/
structure Scanned (clock : Nat → UTime) (s₀ : ProcessState) (served : List Nat) (index : Nat)
    (s : ProcessState) : Prop where
  arbitrated : Arbitrated clock (s₀.app.selector.toList.take index) s₀.app.lastCommand s₀.world
    s.world served
  later : ∀ j, index ≤ j → s.app.selector.toList[j]? = s₀.app.selector.toList[j]?
  serial : ∃ serial, s.app.selector.toList[0]? = some serial
  tick : s₀.world.tick ≤ s.world.tick
  idle : served = [] → s.app.lastCommand = s₀.app.lastCommand
  reset : served ≠ [] → ∃ n, s₀.world.tick ≤ n ∧ n < s.world.tick ∧
    s.app.lastCommand = timerReset (clock n) commandPace

theorem handsOf_copied {copied : List Ev} {session : Nat} {part : List UInt8}
    (h : copied = [.copied session part] ∨ (part = [] ∧ copied = [])) : handsOf copied = [] := by
  rcases h with rfl | ⟨-, rfl⟩
  · rfl
  · rfl

/-- At most one command is handed on while the clock stands still, and none if the timer has not
expired. -/
theorem Scanned.hands_once {s₀ s : ProcessState} {served : List Nat} {index : Nat} {w' : World}
    (h : Scanned clock s₀ served index s) (hclock : KeepsPace clock) (hlt : s.world.tick < w'.tick)
    (hexp : (s.world.expired clock s.app.lastCommand).1 = true)
    (hstill : StandsStill clock s₀.world w') :
    served = [] ∧ (s₀.world.expired clock s₀.app.lastCommand).1 = true := by
  have hnow : clock s.world.tick = clock s₀.world.tick := hstill _ hlt h.tick
  by_cases hnone : served = []
  · refine ⟨hnone, expired_sooner hnow ?_⟩
    rwa [← h.idle hnone]
  · -- the timer was reset at the same reading
    rcases h.reset hnone with ⟨n, hfrom, hn, hreset⟩
    have hsame : clock n = clock s₀.world.tick := hstill n (hn.trans hlt) hfrom
    have hruns := hclock.runs n
    rw [hreset] at hexp
    simp only [World.expired, if_neg hruns, World.now] at hexp
    have hpace := hclock.expires n s.world.tick hn hexp
    rw [hsame, hnow] at hpace
    have hpos : 0 < commandPace.toNat := by decide
    omega

/-- One turn. -/
theorem Scanned.step (hclock : ClockBounded clock) {s₀ s : ProcessState}
    (hbound : s₀.app.lastCommand.Bounded) {served : List Nat} {index : Nat} (hpos : 1 ≤ index)
    (h : Scanned clock s₀ served index s) (sBytes : Nat)
    (hforward : RunsForward clock s₀.world (processStep clock sBytes s index).world) :
    ∃ served', Scanned clock s₀ served' (index + 1) (processStep clock sBytes s index) := by
  have htick := processStep_tick clock sBytes s index
  have hslot := h.later index le_rfl
  rcases processStep_cases clock sBytes s index with
    ⟨happ, hw, hlisten⟩ | ⟨serial, dev, hserial, hdev, hconn⟩
  · -- a listener, which never waits
    refine ⟨served, ?_⟩
    have hlog : (processStep clock sBytes s index).world.log = s.world.log ++ [] := by
      rw [hw, List.append_nil]
    constructor
    · refine h.arbitrated.skip hlog rfl htick fun _ dev hdev hwaiting => ?_
      rcases h.serial with ⟨serial, hserial⟩
      have := hlisten serial dev hserial (hslot.trans hdev)
      rw [hwaiting.1] at this
      cases this
    · rw [happ]
      exact fun j hj => h.later j (by omega)
    · rw [happ]
      exact h.serial
    · exact h.tick.trans htick
    · rw [happ]
      exact h.idle
    · rw [happ, hw]
      exact h.reset
  · rcases processStep_turn clock sBytes hserial hdev hconn with
      ⟨serial', dev', copied, handed, hturn⟩
    rcases hturn.copies with ⟨part, -, hcopied⟩
    have hnocopy := handsOf_copied hcopied
    have hlen := (List.getElem?_eq_some_iff.mp hserial).1
    have hlater : ∀ j, index + 1 ≤ j →
        (processStep clock sBytes s index).app.selector.toList[j]? =
          s₀.app.selector.toList[j]? := by
      intro j hj
      rw [hturn.devs, List.getElem?_set_ne (by omega), List.getElem?_set_ne (by omega)]
      exact h.later j (by omega)
    have hserial' : ∃ serial, (processStep clock sBytes s index).app.selector.toList[0]? =
        some serial := by
      rw [hturn.devs, List.getElem?_set_ne (by omega), List.getElem?_set_self hlen]
      exact ⟨serial', rfl⟩
    rcases hturn.hands with ⟨rfl, -, -, hidle⟩ | ⟨line, pass, reset, rfl, -, hexp, hlinebuf, hnext⟩
    · refine ⟨served, ?_, hlater, hserial', h.tick.trans htick, ?_, ?_⟩
      · refine h.arbitrated.skip hturn.log ?_ htick fun hstart dev₀ hdev₀ hwaiting hnone => ?_
        · rw [handsOf_append, hnocopy]
          rfl
        · have heq : dev₀ = dev := Option.some.inj (hdev₀.symm.trans (hslot.symm.trans hdev))
          subst heq
          rcases hidle with hidle | hidle | hidle
          · -- nothing has reset the timer
            have hread := processStep_reads clock sBytes hserial hdev hconn hidle
            have hle := hforward s₀.world.tick s.world.tick le_rfl h.tick hread
            have hstill := expired_later hclock hbound hle hstart
            rw [← h.idle hnone, hidle] at hstill
            cases hstill
          · exact absurd hwaiting.2.1 (by simp [hidle])
          · exact absurd hwaiting.2.2 (by simp [hidle])
      · rcases hturn.timer with ⟨-, hsame⟩ | ⟨hne, -⟩
        · rw [hsame]
          exact h.idle
        · exact absurd rfl hne
      · rcases hturn.timer with ⟨-, hsame⟩ | ⟨hne, -⟩
        · intro hnone
          rcases h.reset hnone with ⟨n, hfrom, hn, hreset⟩
          exact ⟨n, hfrom, hn.trans_le htick, hsame.trans hreset⟩
        · exact absurd rfl hne
    · rcases hturn.timer with ⟨hne, -⟩ | ⟨-, n, hfrom, hn, hreset⟩
      · cases hne
      · refine ⟨served ++ [index], ?_, hlater, hserial', h.tick.trans htick, by simp, fun _ =>
          ⟨n, h.tick.trans hfrom, hn, hreset⟩⟩
        have hoffer : Offers s₀.app.selector.toList index (dev.session, line) := by
          refine ⟨hpos, dev, dev'.stored, hslot.symm.trans hdev, ⟨hconn, hlinebuf, ?_⟩, rfl, hnext⟩
          rw [hnext]
          rfl
        refine h.arbitrated.serve hturn.log ?_ hoffer fun hstill => ?_
        · rw [handsOf_append, hnocopy]
          rfl
        · exact h.hands_once hclock.keepsPace (hfrom.trans_lt hn) hexp hstill

/-! ## Cycles -/

/-- The same turns, seen from a state in which only the serial device and the log were others. -/
theorem Arbitrated.earlier {devs devs' : List Iodev} {timer : Microtimer} {w₀ w w' : World}
    {served : List Nat} (h : Arbitrated clock devs timer w₀ w' served)
    (hdevs : ∀ j, 1 ≤ j → devs[j]? = devs'[j]?) {evs : List Ev} (hlog : w₀.log = w.log ++ evs)
    (hevs : handsOf evs = []) (htick : w₀.tick = w.tick) :
    Arbitrated clock devs' timer w w' served := by
  have hexp : (w₀.expired clock timer).1 = (w.expired clock timer).1 :=
    World.expired_tick htick timer
  constructor
  · exact h.order
  · rcases h.hands with ⟨evs', hlog', hands⟩
    refine ⟨evs ++ evs', by rw [hlog', hlog, List.append_assoc], ?_⟩
    rw [handsOf_append, hevs, List.nil_append]
    exact hands.imp fun i hand ⟨hpos, dev, rest, hdev, hoffer⟩ =>
      ⟨hpos, dev, rest, (hdevs i hpos).symm.trans hdev, hoffer⟩
  · intro hstart index dev hpos hdev
    exact h.passed (hexp.trans hstart) index dev hpos ((hdevs index hpos).trans hdev)
  · intro hstill
    rw [StandsStill, ← htick] at hstill
    rw [← hexp]
    exact h.single hstill

/-- Before the first turn. -/
theorem Scanned.start {s : ProcessState} (h : ∃ serial, s.app.selector.toList[0]? = some serial) :
    Scanned clock s [] 1 s := by
  refine ⟨⟨List.Pairwise.nil, ⟨[], (List.append_nil _).symm, .nil⟩, ?_, ?_⟩, fun _ _ => rfl, h,
    le_rfl, fun _ => rfl, fun hne => absurd rfl hne⟩
  · intro _ index dev hpos hdev
    have hlt := (List.getElem?_eq_some_iff.mp hdev).1
    rw [List.length_take] at hlt
    omega
  · exact fun _ => ⟨Nat.zero_le _, fun hne => absurd rfl hne⟩

/-- The turns of a cycle; what one of them has seen of the clock, all have seen. -/
theorem scanned_turns (hclock : ClockBounded clock) {s₀ : ProcessState}
    (hbound : s₀.app.lastCommand.Bounded) (hserial : ∃ serial, s₀.app.selector.toList[0]? = some serial)
    (sBytes n : Nat) (hforward : RunsForward clock s₀.world
      (run (processStep clock sBytes) s₀ (List.range' 1 n)).world) :
    ∃ served, Scanned clock s₀ served (1 + n) (run (processStep clock sBytes) s₀ (List.range' 1 n)) := by
  refine Machine.run_range' (fun index s => RunsForward clock s₀.world s.world →
    ∃ served, Scanned clock s₀ served index s) ?_ (fun _ => ⟨[], .start hserial⟩) n hforward
  intro index s hpos hs hforward
  have hle := processStep_tick clock sBytes s index
  rcases hs fun m n hm hmn hn => hforward m n hm hmn (hn.trans_le hle) with ⟨_, hs⟩
  exact hs.step hclock hbound hpos sBytes hforward

/-- A cycle with an active serial device. -/
theorem hdmi2usbProcess_arbitrated (hclock : ClockBounded clock) {app : Hdmi2usb}
    (hbound : app.lastCommand.Bounded) (rc : Int) (w : World)
    (hforward : RunsForward clock w (hdmi2usbProcess clock app rc w).2.2) {serial : Iodev}
    (hserial : app.selector.toList[0]? = some serial) (hactive : serial.state ≠ .iodevInactive) :
    ∃ served, Arbitrated clock app.selector.toList app.lastCommand w
      (hdmi2usbProcess clock app rc w).2.2 served := by
  rcases hdmi2usbProcess_cases clock app rc w with ⟨-, -, hinactive⟩ |
    ⟨serial', hs, -, final, hfinal, -, hw⟩
  · exact absurd (hinactive serial hserial) hactive
  · have hlen := (List.getElem?_eq_some_iff.mp hserial).1
    have hdevs : (cycleStart app serial' w).app.selector.toList = app.selector.toList.set 0
        (hdmi2usbProcessSerialData app.copy serial' w).2.2.1 := Selector.store_toList ..
    have hstart : ∃ serial, (cycleStart app serial' w).app.selector.toList[0]? = some serial := by
      rw [hdevs]
      exact ⟨_, List.getElem?_set_self hlen⟩
    -- moving the serial data leaves the connections alone and hands nothing on
    rcases processSerialData_shape app.copy serial' w with ⟨rbuf, moved, -, hworld, hmoved⟩
    have htick : (cycleStart app serial' w).world.tick = w.tick := by
      rw [cycleStart, hworld]
    rw [RunsForward, hw, hfinal, ← htick] at hforward
    rcases scanned_turns hclock hbound hstart _ _ hforward with ⟨served, hscanned⟩
    refine ⟨served, ?_⟩
    have hall := hscanned.arbitrated
    rw [List.take_of_length_le] at hall
    · have hhands : handsOf moved = [] := by
        refine List.filterMap_eq_nil_iff.mpr fun ev hev => ?_
        rcases hmoved ev hev with ⟨bytes, rfl⟩
        rfl
      have hlog : (cycleStart app serial' w).world.log = w.log ++ moved := congrArg World.log hworld
      rw [hw, hfinal]
      refine hall.earlier (fun j hj => ?_) hlog hhands htick
      rw [hdevs]
      exact List.getElem?_set_ne (by omega)
    · rw [hdevs, List.length_set, Selector.length_toList]
      omega

/-! ## Runs -/

theorem hdmi2usbProcess_bounded (hclock : ClockBounded clock) {app : Hdmi2usb}
    (h : app.lastCommand.Bounded) (rc : Int) (w : World) :
    (hdmi2usbProcess clock app rc w).2.1.lastCommand.Bounded := by
  refine hdmi2usbProcess_keeps clock (I := fun app _ => app.lastCommand.Bounded) h
    (fun _ _ _ h => h) (fun _ _ => h) (fun sBytes s index _ hs => ?_) rc
  rcases processStep_cases clock sBytes s index with ⟨happ, -⟩ | ⟨serial, dev, hserial, hdev, hconn⟩
  · rw [happ]
    exact hs
  · rcases processStep_turn clock sBytes hserial hdev hconn with ⟨_, _, _, _, hturn⟩
    rcases hturn.timer with ⟨-, hsame⟩ | ⟨-, n, -, -, hreset⟩
    · rw [hsame]
      exact hs
    · rw [hreset]
      exact bounded_timerReset hclock n

theorem step_bounded (hclock : ClockBounded clock) {d : Daemon} (h : d.app.lastCommand.Bounded)
    (i : Input) : (d.step clock i).app.lastCommand.Bounded := by
  refine d.step_keeps clock (I := fun app _ => app.lastCommand.Bounded) h (fun _ _ => h)
    (fun _ _ _ => h) ?_ (hdmi2usbProcess_bounded hclock h 0 _)
  intro a rc app w hinit
  rcases hdmi2usbInit_spec hinit with ⟨-, -, -, hlast, -⟩
  rw [hlast]
  exact h

/-- The timer of the daemon starts as one that never ends. -/
theorem start_bounded (iobufsize : Nat) (a : InitAnswers) :
    (Daemon.start clock iobufsize a).app.lastCommand.Bounded := by
  have hzero : (⟨0, 0⟩ : Microtimer).Bounded := by
    rw [Microtimer.Bounded, utimeHalf]
    decide
  rcases Daemon.initialise_cases clock _ 0 a with ⟨happ, -⟩ | ⟨rc, app, w, hinit, happ, -⟩
  · rw [Daemon.start, happ]
    exact hzero
  · rcases hdmi2usbInit_spec hinit with ⟨-, -, -, hlast, -⟩
    rw [Daemon.start, happ, hlast]
    exact hzero

theorem run_bounded (hclock : ClockBounded clock) (iobufsize : Nat) (a : InitAnswers)
    (inputs : List Input) :
    (run (Daemon.step clock) (Daemon.start clock iobufsize a) inputs).app.lastCommand.Bounded :=
  Machine.run_invariant (fun d : Daemon => d.app.lastCommand.Bounded)
    (fun _ i h => step_bounded hclock h i) (start_bounded iobufsize a) inputs

/-- The daemon is about to run a process cycle with an active serial device. -/
def Daemon.Cycles (d : Daemon) : Prop :=
  d.pc = .check ∧ NoSignal d.signalReceived ∧
    ∃ serial ∈ d.serial, serial.state ≠ .iodevInactive

instance (d : Daemon) : Decidable d.Cycles :=
  inferInstanceAs (Decidable (d.pc = .check ∧ NoSignal d.signalReceived ∧ _))

theorem step_arbitrated (hclock : ClockBounded clock) {d : Daemon}
    (hbound : d.app.lastCommand.Bounded) (hcycles : d.Cycles) (a : InitAnswers)
    (hforward : RunsForward clock d.world (d.step clock (.check a)).world) :
    ∃ served, Arbitrated clock d.app.selector.toList d.app.lastCommand d.world
      (d.step clock (.check a)).world served := by
  rcases hcycles with ⟨hpc, hno, serial, hserial, hactive⟩
  rw [Daemon.serial, selectorGetDevice_eq, Option.mem_def] at hserial
  rw [(d.step_process clock hpc hno).2] at hforward ⊢
  rcases hdmi2usbProcess_arbitrated hclock hbound 0 (d.world.record .processed) hforward hserial
    hactive with ⟨served, h⟩
  refine ⟨served, ?_⟩
  exact h.earlier (fun _ _ => rfl) rfl rfl rfl

/-- In every run, a process cycle hands on the first commands of slots in their order, of each at
most one; if the timer had expired, it passes over a waiting connection only for an earlier one; and
if the clock stands still it hands on at most one command, and none unless the timer had expired. -/
theorem run_arbitrated (hclock : ClockBounded clock) (hmono : NonDecreasing clock)
    (iobufsize : Nat) (a b : InitAnswers) (inputs : List Input) :
    let d := run (Daemon.step clock) (Daemon.start clock iobufsize a) inputs
    d.Cycles → ∃ served, Arbitrated clock d.app.selector.toList d.app.lastCommand d.world
      (d.step clock (.check b)).world served :=
  fun hcycles => step_arbitrated hclock (run_bounded hclock iobufsize a inputs) hcycles b
    (hmono.runsForward _ _)

/-- A clock that stands still in each of the first two cycles; 0.6 s pass between them. -/
def cyclesClock (n : Nat) : UTime := if n < 3 then 1 else 600001

theorem cyclesClock_bounded : ClockBounded cyclesClock := fun n => by
  rw [cyclesClock, utimeHalf]
  split
  · decide
  · decide

theorem cyclesClock_nonDecreasing : NonDecreasing cyclesClock := fun m n hle => by
  unfold cyclesClock
  split
  · split
    · exact le_rfl
    · decide
  · rw [if_neg (by omega)]

/-- Two clients connect, and each sends a command. -/
def twoClients : List Input :=
  Daemon.firstConnection ++ [Daemon.turn ⟨{4}, ∅, ∅⟩ ⟨none, some 6, none⟩,
    Daemon.turn ⟨{5, 6}, ∅, ∅⟩ ⟨some [97, 10], none, none⟩, Daemon.quietTurn]

def bothWaiting : Daemon :=
  run (Daemon.step cyclesClock) (Daemon.start cyclesClock 16 Daemon.oneAddress) twoClients

theorem run_arbitrated_two_clients :
    ∃ served, Arbitrated cyclesClock bothWaiting.app.selector.toList bothWaiting.app.lastCommand
      bothWaiting.world (bothWaiting.step cyclesClock (.check Daemon.oneAddress)).world served :=
  run_arbitrated cyclesClock_bounded cyclesClock_nonDecreasing 16 Daemon.oneAddress
    Daemon.oneAddress twoClients (by decide +kernel)

/-! ## No cycle is wasted -/

theorem handsOf_eq_nil {evs : List Ev} (h : ∀ ev ∈ evs, ev.IsIo ∨ ev.isMark = true) :
    handsOf evs = [] := by
  refine List.filterMap_eq_nil_iff.mpr fun ev hev => ?_
  cases ev with
  | handed => rcases h _ hev with h | h <;> cases h
  | _ => rfl

/-- Nothing is handed on outside of a cycle. -/
theorem step_hands_nothing {d : Daemon} {i : Input} (h : ∀ a, i = .check a → ¬ d.Cycles) :
    ∃ evs, (d.step clock i).world.log = d.world.log ++ evs ∧ handsOf evs = [] := by
  rcases d.step_cases clock i with ⟨-, hw⟩ | ⟨a, -, -, hd⟩ | ⟨a, -, -, -, hd⟩ |
    ⟨a, rfl, hpc, hno, -, hw⟩ | ⟨sig, -, -, hw⟩
  · exact ⟨[], by rw [hw, List.append_nil], rfl⟩
  · rcases netReaches_log (selectorRound_any clock a d.sets d.app.selector d.world) with
      ⟨evs, hlog, hevs⟩
    rw [hd]
    exact ⟨evs, hlog, handsOf_eq_nil fun ev hev => .inl (hevs ev hev)⟩
  · refine ⟨[.reloaded], ?_, rfl⟩
    rw [hd]
    rcases Daemon.initialise_cases clock { d with world := d.world.record .reloaded }
      exSuccess a with ⟨-, hw⟩ | ⟨rc, app, w, hinit, -, hw⟩
    · rw [hw]
      rfl
    · rcases hdmi2usbInit_spec hinit with ⟨-, -, -, -, -, -, hlog⟩
      rw [hw, hlog]
      rfl
  · -- the serial device is not active
    refine ⟨[.processed], ?_, rfl⟩
    rw [hw]
    rcases hdmi2usbProcess_cases clock d.app 0 (d.world.record .processed) with ⟨-, hsame, -⟩ |
      ⟨serial, hs, hactive, -⟩
    · rw [hsame]
      rfl
    · refine absurd ⟨hpc, hno, serial, ?_, hactive⟩ (h a rfl)
      rw [Daemon.serial, selectorGetDevice_eq, hs]
      rfl
  · exact ⟨[.signalled sig.toNat], by rw [hw]; rfl, rfl⟩

/-- A process cycle is about to run with the timer expired and a connection waiting. -/
def Daemon.Due (clock : Nat → UTime) (d : Daemon) : Input → Prop
  | .check _ => d.Cycles ∧ (d.world.expired clock d.app.lastCommand).1 = true ∧
      ∃ dev ∈ d.app.selector.toList.tail, dev.Waiting
  | _ => False

instance (clock : Nat → UTime) (d : Daemon) : DecidablePred (d.Due clock)
  | .round _ | .signal _ => .isFalse id
  | .check _ => inferInstanceAs (Decidable (d.Cycles ∧ _ ∧ _))

/-- The number of such cycles in a run. -/
def dueCycles (clock : Nat → UTime) (d : Daemon) (inputs : List Input) : Nat :=
  (Flow.total (Daemon.step clock) (fun d i => if d.Due clock i then [i] else []) d inputs).length

/-- Such a cycle hands on a command. -/
theorem step_due (hclock : ClockBounded clock) (hmono : NonDecreasing clock) {d : Daemon}
    (hbound : d.app.lastCommand.Bounded) {i : Input} (hdue : d.Due clock i) :
    (handsOf d.world.log).length + 1 ≤ (handsOf (d.step clock i).world.log).length := by
  cases i with
  | round | signal => exact hdue.elim
  | check a =>
    rcases hdue with ⟨hcycles, hexp, dev, hdev, hwaiting⟩
    rcases step_arbitrated hclock hbound hcycles a (hmono.runsForward _ _) with ⟨served, h⟩
    rcases h.hands with ⟨evs, hlog, hands⟩
    -- the waiting connection is served, or an earlier one
    have hne : served ≠ [] := by
      rintro rfl
      rcases List.mem_iff_getElem?.mp hdev with ⟨index, hget⟩
      rw [List.getElem?_tail] at hget
      rcases h.passed hexp (index + 1) dev (Nat.le_add_left 1 index) hget hwaiting
        List.not_mem_nil with ⟨j, hj, -⟩
      cases hj
    have hlen := hands.length_eq
    have hpos := List.length_pos_iff.mpr hne
    rw [hlog, handsOf_append, List.length_append]
    omega

/-- In every run at least as many commands are handed on as there are process cycles that begin with
the timer expired and a connection waiting. -/
theorem run_work_conserving (hclock : ClockBounded clock) (hmono : NonDecreasing clock)
    (iobufsize : Nat) (a : InitAnswers) (inputs : List Input) :
    let d := Daemon.start clock iobufsize a
    dueCycles clock d inputs ≤ (handsOf (run (Daemon.step clock) d inputs).world.log).length := by
  have hgrow := Flow.length_total_le (fun d : Daemon => d.app.lastCommand.Bounded)
    (fun d => (handsOf d.world.log).length) (fun d i => if d.Due clock i then [i] else [])
    (fun _ i h => step_bounded hclock h i) (fun d i h => ?_)
    (@start_bounded clock iobufsize a) inputs
  · exact (Nat.le_add_left _ _).trans hgrow
  · split
    · next hdue => exact step_due hclock hmono h hdue
    · rcases d.step_log clock i with ⟨evs, hlog⟩
      rw [← hlog, handsOf_append, List.length_append]
      exact Nat.le_add_right _ _

/-- After the first cycle one of the clients sends another command. -/
def rivals : List Input :=
  [.check Daemon.oneAddress, Daemon.turn ⟨{5}, ∅, ∅⟩ ⟨some [98, 10], none, none⟩,
    Daemon.quietTurn, .check Daemon.oneAddress]

theorem run_work_conserving_two_clients :
    let d := Daemon.start cyclesClock 16 Daemon.oneAddress
    dueCycles cyclesClock d (twoClients ++ rivals) ≤
      (handsOf (run (Daemon.step cyclesClock) d (twoClients ++ rivals)).world.log).length :=
  run_work_conserving cyclesClock_bounded cyclesClock_nonDecreasing 16 Daemon.oneAddress _

/-! ## Starvation -/

/-- If a process cycle runs, the clock stands still in it, and the connection waits in a slot before
those of all others that wait. -/
def Foremost (clock : Nat → UTime) (session : Nat) (d : Daemon) : Input → Prop
  | .check a => d.Cycles → StandsStill clock d.world (d.step clock (.check a)).world ∧
      ∃ index < d.app.selector.toList.length, 1 ≤ index ∧
        (∃ dev ∈ d.app.selector.toList[index]?, dev.session = session ∧ dev.Waiting) ∧
        ∀ dev ∈ (d.app.selector.toList.take index).tail, ¬ dev.Waiting
  | _ => True

/-- All commands that were handed on are from one session. -/
def ServesOnly (session : Nat) (log : List Ev) : Prop := ∀ hand ∈ handsOf log, hand.1 = session

theorem ServesOnly.append {session : Nat} {log log' : List Ev} (h : ServesOnly session log)
    (h' : ServesOnly session log') : ServesOnly session (log ++ log') := by
  intro hand hmem
  rw [handsOf_append] at hmem
  rcases List.mem_append.mp hmem with hmem | hmem
  · exact h hand hmem
  · exact h' hand hmem

theorem servesOnly_of_nil {session : Nat} {log : List Ev} (h : handsOf log = []) :
    ServesOnly session log := by
  rw [ServesOnly, h]
  exact fun _ hmem => absurd hmem List.not_mem_nil

/-- Only the foremost connection is served. -/
theorem Arbitrated.foremost {devs : List Iodev} {timer : Microtimer} {w w' : World}
    {served : List Nat} (h : Arbitrated clock devs timer w w' served)
    (hstill : StandsStill clock w w') {index : Nat} {dev : Iodev} (hpos : 1 ≤ index)
    (hdev : devs[index]? = some dev) (hwaiting : dev.Waiting)
    (hfirst : ∀ dev ∈ (devs.take index).tail, ¬ dev.Waiting) : served = [] ∨ served = [index] := by
  rcases h.single hstill with ⟨hone, hexp⟩
  match served, hone with
  | [], _ => exact .inl rfl
  | [k], _ =>
    refine .inr ?_
    by_contra hne
    have hnot : index ∉ [k] := by
      rw [List.mem_singleton]
      rintro rfl
      exact hne rfl
    rcases h.passed (hexp (by simp)) index dev hpos hdev hwaiting hnot with ⟨j, hj, hlt⟩
    rw [List.mem_singleton.mp hj] at hlt
    -- the slot that was served is an earlier one with a waiting connection
    rcases h.hands with ⟨evs, -, hands⟩
    rcases List.forall₂_cons_left_iff.mp hands with ⟨hand, -, ⟨hk, dev', -, hdev', hoffer, -⟩, -⟩
    refine hfirst dev' (List.mem_iff_getElem?.mpr ⟨k - 1, ?_⟩) hoffer
    rw [List.getElem?_tail, Nat.sub_add_cancel hk, List.getElem?_take, if_pos hlt, hdev']

theorem step_foremost (hclock : ClockBounded clock) {d : Daemon}
    (hbound : d.app.lastCommand.Bounded) {session : Nat} {i : Input}
    (hfirst : Foremost clock session d i) :
    ∃ evs, (d.step clock i).world.log = d.world.log ++ evs ∧ ServesOnly session evs := by
  by_cases hcheck : ∃ b, i = .check b ∧ d.Cycles
  · rcases hcheck with ⟨b, rfl, hcycles⟩
    rcases hfirst hcycles with ⟨hstill, index, -, hpos, ⟨dev, hdev, hsession, hwaiting⟩, hbefore⟩
    rcases step_arbitrated hclock hbound hcycles b hstill.runsForward with ⟨served, harb⟩
    rcases harb.hands with ⟨evs, hlog, hands⟩
    refine ⟨evs, hlog, ?_⟩
    rcases harb.foremost hstill hpos hdev hwaiting hbefore with rfl | rfl
    · exact servesOnly_of_nil (List.forall₂_nil_left_iff.mp hands)
    · rcases List.forall₂_cons_left_iff.mp hands with
        ⟨hand, rest, ⟨-, dev', -, hdev', -, hsame, -⟩, hnil, heq⟩
      rw [ServesOnly, heq, List.forall₂_nil_left_iff.mp hnil]
      intro hand' hmem
      rw [List.mem_singleton.mp hmem, ← hsame, ← hsession]
      exact congrArg Iodev.session (Option.some.inj (hdev'.symm.trans hdev))
  · rcases @step_hands_nothing clock d i fun b hb hcycles => hcheck ⟨b, hb, hcycles⟩ with
      ⟨evs, hlog, hevs⟩
    exact ⟨evs, hlog, servesOnly_of_nil hevs⟩

/-- As long as one connection waits, in every process cycle, before all others that wait, and the
clock stands still in each cycle, no other connection is served. -/
theorem run_starves (hclock : ClockBounded clock) (iobufsize : Nat) (a : InitAnswers)
    (past future : List Input) (session : Nat) :
    let d := run (Daemon.step clock) (Daemon.start clock iobufsize a) past
    let d' := run (Daemon.step clock) d future
    Along (Daemon.step clock) (Foremost clock session) d future →
    ServesOnly session (d.world.since d'.world) := by
  intro d d' hfirst
  have hkept := Machine.run_invariant_along
    (fun d' : Daemon => d'.app.lastCommand.Bounded ∧
      ∃ evs, d'.world.log = d.world.log ++ evs ∧ ServesOnly session evs)
    (fun e i ⟨hbound, evs, hlog, hands⟩ hi => ?_)
    ⟨run_bounded hclock iobufsize a past, [], (List.append_nil _).symm, servesOnly_of_nil rfl⟩ hfirst
  · rcases hkept.2 with ⟨evs, hlog, hands⟩
    rw [World.since_eq hlog]
    exact hands
  · refine ⟨step_bounded hclock hbound i, ?_⟩
    rcases step_foremost hclock hbound hi with ⟨evs', hlog', hands'⟩
    exact ⟨evs ++ evs', by rw [hlog', hlog, List.append_assoc], hands.append hands'⟩

instance (clock : Nat → UTime) (w w' : World) : Decidable (StandsStill clock w w') :=
  inferInstanceAs (Decidable (∀ n < w'.tick, w.tick ≤ n → clock n = clock w.tick))

instance (clock : Nat → UTime) (session : Nat) (d : Daemon) :
    DecidablePred (Foremost clock session d)
  | .check _ => inferInstanceAs (Decidable (_ → _ ∧ _))
  | .round _ | .signal _ => .isTrue trivial

theorem run_starves_rivals :
    ServesOnly 3 (bothWaiting.world.since
      (run (Daemon.step cyclesClock) bothWaiting rivals).world) :=
  run_starves cyclesClock_bounded 16 Daemon.oneAddress twoClients
    rivals 3 (by decide +kernel)

end Hdmi2usbd
