import Mathlib.Data.List.Chain
import Hdmi2usbd.Readings

/-!
# Pacing — commands are rate limited across all clients

One timer paces the commands of all connections. The log records for each command the
reading at which the timer check passed and the reading at which the timer was reset.
The invariant `Paced` says that consecutive commands keep `COMMAND_PACE` apart and
that the timer is the one that the last command has reset; no function but
`hdmi2usb_process_client_commands` hands on a command or touches the timer.
-/

namespace Hdmi2usbd

variable (clock : Nat → UTime)

/-- For each command in the log: the reading it passed the check at, and the reading the
timer was reset at. -/
def handedTimes (log : List Ev) : List (Option UTime × UTime) :=
  log.filterMap fun
    | .handed _ _ pass reset => some (pass, reset)
    | _ => none

@[simp] theorem handedTimes_append (log log' : List Ev) :
    handedTimes (log ++ log') = handedTimes log ++ handedTimes log' := by
  simp [handedTimes]

theorem handedTimes_io {evs : List Ev} (h : ∀ ev ∈ evs, ev.IsIo) : handedTimes evs = [] := by
  refine List.filterMap_eq_nil_iff.mpr ?_
  intro ev hev
  have hio := h ev hev
  cases ev <;> first | rfl | exact hio.elim

/-- The later command passes the check at least `COMMAND_PACE` after the reset for the
earlier one. -/
def PaceApart (earlier later : Option UTime × UTime) : Prop :=
  ∃ pass, later.1 = some pass ∧ earlier.2.toNat + commandPace.toNat ≤ pass.toNat

/-- What the pacing asks of a clock: a timer that is reset runs, and a later reading that finds
it expired is a pace after the reset. -/
structure KeepsPace : Prop where
  runs : ∀ n, (timerReset (clock n) commandPace).tEnding ≠ never
  expires : ∀ m n, m < n → timerExpired (timerReset (clock m) commandPace) (clock n) = true →
    (clock m).toNat + commandPace.toNat ≤ (clock n).toNat

/-- Commands are apart, the timer runs since the last one, and the readings of the resets have
been taken. -/
structure Paced (lastCommand : Microtimer) (w : World) : Prop where
  apart : (handedTimes w.log).IsChain PaceApart
  timer : ∀ last, (handedTimes w.log).getLast? = some last →
    lastCommand = timerReset last.2 commandPace
  taken : ∀ times ∈ handedTimes w.log, ∃ n < w.tick, times.2 = clock n

variable {clock}

theorem Paced.later {lastCommand : Microtimer} {w w' : World} (h : Paced clock lastCommand w)
    {evs : List Ev} (hlog : w'.log = w.log ++ evs) (hevs : handedTimes evs = [])
    (htick : w.tick ≤ w'.tick) : Paced clock lastCommand w' := by
  have hsame : handedTimes w'.log = handedTimes w.log := by
    rw [hlog, handedTimes_append, hevs, List.append_nil]
  refine ⟨by rw [hsame]; exact h.apart, by rw [hsame]; exact h.timer, ?_⟩
  intro times htimes
  rw [hsame] at htimes
  rcases h.taken times htimes with ⟨n, hn, hreset⟩
  exact ⟨n, hn.trans_le htick, hreset⟩

/-! ## One call -/

/-- A check that passes on a running timer passes at a reading past its end. -/
theorem checkedAt_of_expired (hclock : KeepsPace clock) {w : World} {m : Nat} (hm : m < w.tick)
    (hexp : (w.expired clock (timerReset (clock m) commandPace)).1 = true) :
    ∃ pass, w.checkedAt clock (timerReset (clock m) commandPace) = some pass ∧
      (clock m).toNat + commandPace.toNat ≤ pass.toNat := by
  have hrun := hclock.runs m
  simp only [World.expired, if_neg hrun] at hexp
  exact ⟨(w.now clock).1, if_neg hrun, hclock.expires m w.tick hm hexp⟩

theorem clientCommands_paced (hclock : KeepsPace clock) {lastCommand : Microtimer}
    (serial dev : Iodev) {w : World} (h : Paced clock lastCommand w) :
    Paced clock (hdmi2usbProcessClientCommands clock lastCommand serial dev w).1
      (hdmi2usbProcessClientCommands clock lastCommand serial dev w).2.2.2 := by
  have hlater := World.tick_le_expired clock lastCommand w
  rcases clientCommands_cases clock lastCommand serial dev w with
    ⟨-, heq⟩ | ⟨line, rest, dev', hexp, -, heq, -, -⟩
  · rw [heq]
    have hlog : (w.expired clock lastCommand).2.log = w.log ++ [] := by simp
    exact h.later hlog rfl hlater
  · rw [heq]
    -- the reset takes the next reading
    have hlog : handedTimes (((w.expired clock lastCommand).2.reset clock commandPace).2.record
        (.handed dev.session line (w.checkedAt clock lastCommand)
          ((w.expired clock lastCommand).2.reset clock commandPace).1.tStarted)).log =
        handedTimes w.log ++ [(w.checkedAt clock lastCommand,
          clock (w.expired clock lastCommand).2.tick)] := by
      simp [handedTimes, World.reset, timerReset, timerInit, World.now]
    refine ⟨?_, ?_, ?_⟩
    · -- the timer that has expired is the one that the last command has reset
      rw [hlog, List.isChain_append]
      refine ⟨h.apart, List.isChain_singleton _, ?_⟩
      intro last hlast times htimes
      simp only [List.head?_cons, Option.mem_def, Option.some.injEq] at htimes
      have hrun := h.timer last hlast
      rcases h.taken last (List.mem_of_mem_getLast? hlast) with ⟨m, hm, hreset⟩
      rw [hrun, hreset] at hexp
      rcases checkedAt_of_expired hclock hm hexp with ⟨pass, hpass, hle⟩
      rw [← htimes, hrun]
      dsimp only [PaceApart]
      rw [hreset]
      exact ⟨pass, hpass, hle⟩
    · intro last hlast
      rw [hlog, List.getLast?_concat, Option.some.injEq] at hlast
      rw [← hlast]
      simp only [World.reset, World.now]
    · intro times hmem
      have htick : (w.expired clock lastCommand).2.tick <
          (w.expired clock lastCommand).2.tick + 1 := Nat.lt_succ_self _
      rw [hlog] at hmem
      rcases List.mem_append.mp hmem with hmem | hmem
      · rcases h.taken times hmem with ⟨n, hn, hreset⟩
        exact ⟨n, (hn.trans_le hlater).trans htick, hreset⟩
      · rw [List.mem_singleton.mp hmem]
        exact ⟨(w.expired clock lastCommand).2.tick, htick, rfl⟩

/-! ## A cycle -/

theorem copySerialData_log (copy : RingBuffer) (sBytes : Nat) (dev : Iodev) (w : World) :
    ∃ evs, (copySerialData copy sBytes dev w).2.log = w.log ++ evs ∧ handedTimes evs = [] := by
  unfold copySerialData
  split
  · exact ⟨_, rfl, rfl⟩
  · exact ⟨[], (List.append_nil _).symm, rfl⟩

theorem processStep_paced (hclock : KeepsPace clock) (sBytes : Nat) (s : ProcessState)
    (index : Nat) (h : Paced clock s.app.lastCommand s.world) :
    Paced clock (processStep clock sBytes s index).app.lastCommand
      (processStep clock sBytes s index).world := by
  unfold processStep
  split
  · split
    · exact h
    · next serial dev _ _ _ =>
      rcases copySerialData_log s.app.copy sBytes dev s.world with ⟨evs, hlog, hevs⟩
      have hcopied : Paced clock s.app.lastCommand
          (copySerialData s.app.copy sBytes dev s.world).2 :=
        h.later hlog hevs (copySerialData_tick _ _ _ _).ge
      exact clientCommands_paced hclock serial _ hcopied
  · exact h

theorem hdmi2usbProcess_paced (hclock : KeepsPace clock) (app : Hdmi2usb) (rc : Int) {w : World}
    (h : Paced clock app.lastCommand w) :
    Paced clock (hdmi2usbProcess clock app rc w).2.1.lastCommand
      (hdmi2usbProcess clock app rc w).2.2 := by
  refine hdmi2usbProcess_keeps clock (I := fun app w => Paced clock app.lastCommand w) h
    (fun _ _ _ h => h) ?_ (fun _ s index _ h => processStep_paced hclock _ s index h) rc
  intro serial _
  have hmoved : ∀ bytes, handedTimes [.moved bytes] = [] := fun _ => rfl
  unfold hdmi2usbProcessSerialData
  generalize (if iodevIsOpen serial then serial.rbuf.used else 0) = sBytes
  dsimp only
  split
  · exact h.later rfl (hmoved _) le_rfl
  · exact h

/-! ## A run -/

theorem step_paced (hclock : KeepsPace clock) (d : Daemon) (i : Input)
    (h : Paced clock d.app.lastCommand d.world) :
    Paced clock (d.step clock i).app.lastCommand (d.step clock i).world := by
  have hmark : ∀ ev, ev.isMark = true → Paced clock d.app.lastCommand (d.world.record ev) := by
    intro ev hev
    have hnone : handedTimes [ev] = [] := by cases ev <;> first | rfl | cases hev
    exact h.later rfl hnone le_rfl
  refine d.step_keeps clock (I := fun app w => Paced clock app.lastCommand w) h hmark ?_ ?_
    (hdmi2usbProcess_paced hclock d.app 0 (hmark .processed rfl))
  · -- a turn of the select loop hands on nothing
    intro a _ _
    rcases netReaches_log (selectorRound_any clock a d.sets d.app.selector d.world) with
      ⟨evs, hlog, hevs⟩
    exact h.later hlog (handedTimes_io hevs) (selectorRound_tick clock a _ _ _)
  · -- a reload keeps the timer
    intro a rc app w hinit
    have htick := hdmi2usbInit_tick clock hinit
    rcases hdmi2usbInit_spec hinit with ⟨-, -, -, htimer, -, -, hlog⟩
    rw [htimer]
    exact (hmark .reloaded rfl).later (by rw [hlog, List.append_nil]) rfl htick

/-- A clock that keeps the pace keeps commands apart. -/
theorem run_paced (hclock : KeepsPace clock) {d : Daemon} (hnone : handedTimes d.world.log = [])
    (inputs : List Input) :
    (handedTimes (Machine.run (Daemon.step clock) d inputs).world.log).IsChain PaceApart := by
  have hstart : Paced clock d.app.lastCommand d.world :=
    ⟨by rw [hnone]; exact List.isChain_nil, by simp [hnone], by simp [hnone]⟩
  exact (Machine.run_invariant (fun d : Daemon => Paced clock d.app.lastCommand d.world)
    (fun d i => step_paced hclock d i) hstart inputs).apart

/-- The clock never comes within `COMMAND_PACE` of half the range of `utime_t`. -/
def ClockBounded (clock : Nat → UTime) : Prop :=
  ∀ n, (clock n).toNat + commandPace.toNat < utimeHalf

theorem ClockBounded.keepsPace (hclock : ClockBounded clock) : KeepsPace clock := by
  have htimer := fun n => timerReset_tEnding (show commandPace ≠ 0 by decide) (hclock n)
  constructor
  · exact fun n => (htimer n).1
  · intro m n _ hexp
    have hnow := hclock n
    rwa [timerExpired_iff (htimer m).1 (by rw [(htimer m).2]; exact hclock m) (by omega),
      (htimer m).2] at hexp

/-- A daemon in any state, with its log empty. -/
def Daemon.unlogged (d : Daemon) : Daemon := { d with world := { d.world with log := [] } }

/-- Commands are rate limited: whatever the devices and their line buffers, along every run
(process cycles, select rounds, reloads) in which the clock stays below its bound, each
command passes the timer check at least `COMMAND_PACE` after the timer was reset for the
command before it, whichever connections they come from. -/
theorem commands_paced (hclock : ClockBounded clock) (d : Daemon) (inputs : List Input) :
    (handedTimes (Machine.run (Daemon.step clock) d.unlogged inputs).world.log).IsChain
      PaceApart :=
  run_paced hclock.keepsPace rfl inputs

/-- A clock that advances by 400 ms with each of its first ten readings. -/
def slowClock (n : Nat) : UTime := UInt64.ofNat (400000 * min n 10)

theorem slowClock_bounded : ClockBounded slowClock := by
  intro n
  have hle : 400000 * min n 10 ≤ 4000000 := by omega
  have hpace : commandPace.toNat = 500000 := by decide
  simp only [slowClock, UInt64.toNat_ofNat', utimeHalf, hpace]
  rw [Nat.mod_eq_of_lt (by omega)]
  omega

/-- A client sends two commands at once; five process cycles follow. -/
def twoCommands : List Input :=
  Daemon.firstConnection ++
    [Daemon.turn ⟨{5}, ∅, ∅⟩ ⟨some [97, 10, 98, 10], none, none⟩,
      Daemon.quietTurn, .check Daemon.oneAddress, Daemon.quietTurn, .check Daemon.oneAddress,
      Daemon.quietTurn, .check Daemon.oneAddress]

/-- The times of the commands in that run. -/
def twoCommandsTimes : List (Option UTime × UTime) :=
  handedTimes (Machine.run (Daemon.step slowClock)
    (Daemon.start slowClock 64 Daemon.oneAddress).unlogged twoCommands).world.log

theorem commands_paced_two : twoCommandsTimes = [(none, 400000), (some 1200000, 1600000)] ∧
    twoCommandsTimes.IsChain PaceApart :=
  ⟨by decide +kernel, commands_paced slowClock_bounded _ twoCommands⟩

end Hdmi2usbd
