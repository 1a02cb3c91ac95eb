import Hdmi2usbd.Cycle
import Hdmi2usbd.Actions
import Hdmi2usbd.Daemon

/-!
# Reload — what a SIGHUP does, once and for all

`signal_received` is written by the handler and read by the switch of `hdmi2usb_main`;
nothing clears it. The log tells what the flag is: the last *mark* in it is a signal, a
reload or a process cycle (`FlagTold`), and after a reload the flag is still SIGHUP.

A reload fills in new devices and closes nothing: what was open before stays open, and
no device holds it.
-/

namespace Hdmi2usbd

open Machine (Along run)

variable (clock : Nat → UTime)

/-! ## Marks -/

/-- The last mark of a log. -/
def lastMark (log : List Ev) : Option Ev := (log.filter Ev.isMark).getLast?

/-- How often `hdmi2usb_init` has been run again. -/
def reloads (log : List Ev) : Nat := log.count .reloaded

/-- How many SIGHUPs have been delivered. -/
def hangups (log : List Ev) : Nat := log.count (.signalled sighup)

@[simp] theorem lastMark_snoc {ev : Ev} (h : ev.isMark) (log : List Ev) :
    lastMark (log ++ [ev]) = some ev := by
  simp [lastMark, h]

/-- Events that are no marks. -/
def Ev.IsPlain (ev : Ev) : Prop := ev.isMark = false

theorem Ev.IsIo.isPlain {ev : Ev} (h : ev.IsIo) : ev.IsPlain := by
  cases ev <;> first | rfl | exact h.elim

theorem Ev.IsCycle.isPlain {ev : Ev} (h : ev.IsCycle) : ev.IsPlain := by
  cases ev <;> first | rfl | exact h.elim

section Plain

variable {log log' : List Ev} (h : Adds Ev.IsPlain log log')
include h

theorem lastMark_plain : lastMark log' = lastMark log := by
  rcases h with ⟨evs, rfl, hevs⟩
  have hnone : evs.filter Ev.isMark = [] := by
    rw [List.filter_eq_nil_iff]
    intro ev hev
    rw [hevs ev hev]
    exact Bool.false_ne_true
  rw [lastMark, List.filter_append, hnone, List.append_nil, lastMark]

theorem count_plain {mark : Ev} (hmark : mark.isMark) : log'.count mark = log.count mark := by
  rcases h with ⟨evs, rfl, hevs⟩
  have hzero : evs.count mark = 0 := by
    rw [List.count_eq_zero]
    intro hmem
    have hplain := hevs mark hmem
    rw [Ev.IsPlain, hmark] at hplain
    cases hplain
  rw [List.count_append, hzero, Nat.add_zero]

end Plain

/-! ## The flag -/

namespace Daemon

variable (d : Daemon)

/-- A turn of the select loop makes no mark. -/
theorem round_marks (a : RoundAnswers) : Adds Ev.IsPlain d.world.log (d.round clock a).world.log := by
  rcases netReaches_log (selectorRound_any clock a d.sets d.app.selector d.world) with
    ⟨evs, hlog, hevs⟩
  exact ⟨evs, hlog, fun ev hev => (hevs ev hev).isPlain⟩

/-- A signal is in the flag afterwards, also the second SIGINT, which ends the program. -/
theorem signal_marks (sig : Signal) : (d.signal sig).signalReceived = sig.toNat ∧
    (d.signal sig).world.log = d.world.log ++ [.signalled sig.toNat] := by
  unfold signal breakHandler
  by_cases hagain : sig.toNat = sigint ∧ d.signalReceived = sigint
  · simp [hagain]
  · simp only [if_neg hagain]
    refine ⟨?_, rfl⟩
    cases sig <;> rfl

/-- The switch reloads, or ends the loop, or runs a process cycle. -/
theorem check_marks (a : InitAnswers) :
    (d.check clock a).signalReceived = d.signalReceived ∧
    ((d.signalReceived = sighup ∧ (d.check clock a).world.log = d.world.log ++ [.reloaded]) ∨
      (d.signalReceived ≠ sighup ∧ ¬ NoSignal d.signalReceived ∧
        (d.check clock a).world.log = d.world.log) ∨
      (NoSignal d.signalReceived ∧
        Adds Ev.IsPlain (d.world.log ++ [.processed]) (d.check clock a).world.log)) := by
  unfold check
  by_cases hhup : d.signalReceived = sighup
  · rw [if_pos hhup]
    refine ⟨by simp, .inl ?_⟩
    -- whether `hdmi2usb_init` succeeds or not, it logs nothing of its own
    rcases initialise_cases clock { d with world := d.world.record .reloaded }
      (hdmi2usbClose exSuccess) a with ⟨-, hw⟩ | ⟨rc', app, w, hinit, -, hw⟩
    · exact ⟨hhup, by rw [hw]; rfl⟩
    · rcases hdmi2usbInit_spec hinit with ⟨-, -, -, -, -, -, hlog⟩
      exact ⟨hhup, by rw [hw, hlog]; rfl⟩
  · rw [if_neg hhup]
    by_cases hquit : d.signalReceived = sigint ∨ d.signalReceived = sigquit ∨
        d.signalReceived = sigterm
    · rw [if_pos hquit]
      exact ⟨by simp, .inr (.inl ⟨hhup, fun h => h.2 hquit, by simp⟩)⟩
    · rw [if_neg hquit]
      refine ⟨by simp, .inr (.inr ⟨⟨hhup, hquit⟩, ?_⟩)⟩
      rcases hdmi2usbProcess_log clock d.app 0 (d.world.record .processed) with ⟨evs, hlog, hevs⟩
      refine ⟨evs, ?_, fun ev hev => (hevs ev hev).isPlain⟩
      rw [proceed_world]
      exact hlog

/-! ## What the log tells about the flag -/

/-- The flag is the last signal; a reload leaves it at SIGHUP, and where the last mark is a
process cycle the switch has found nothing in it. -/
def FlagTold : Prop :=
  match lastMark d.world.log with
  | some (.signalled sig) => d.signalReceived = sig
  | some .reloaded => d.signalReceived = sighup
  | _ => NoSignal d.signalReceived

variable {clock d}

theorem flagTold_plain {d' : Daemon} (h : FlagTold d) (hflag : d'.signalReceived = d.signalReceived)
    (hlog : Adds Ev.IsPlain d.world.log d'.world.log) : FlagTold d' := by
  unfold FlagTold at h ⊢
  rw [lastMark_plain hlog, hflag]
  exact h

theorem step_flagTold (i : Input) (h : FlagTold d) : FlagTold (d.step clock i) := by
  cases i with
  | round a =>
    simp only [step]
    split
    · exact flagTold_plain h rfl (d.round_marks clock a)
    · exact h
  | signal sig =>
    have hsignal : FlagTold (d.signal sig) := by
      rcases d.signal_marks sig with ⟨hflag, hlog⟩
      unfold FlagTold
      rw [hlog, lastMark_snoc rfl]
      exact hflag
    simp only [step]
    split
    · exact h
    · exact hsignal
  | check a =>
    simp only [step]
    split
    swap
    · exact h
    rcases d.check_marks clock a with ⟨hflag, ⟨hhup, hlog⟩ | ⟨-, -, hlog⟩ | ⟨hno, hlog⟩⟩
    · unfold FlagTold
      rw [hlog, lastMark_snoc rfl, hflag]
      exact hhup
    · exact flagTold_plain h hflag (by rw [hlog]; exact Adds.refl _)
    · unfold FlagTold
      rw [lastMark_plain hlog, lastMark_snoc rfl, hflag]
      exact hno

/-- Where the flag is SIGHUP, the last mark is its signal or a reload. -/
theorem FlagTold.sighup (h : FlagTold d) (hhup : d.signalReceived = sighup) :
    lastMark d.world.log = some .reloaded ∨ lastMark d.world.log = some (.signalled sighup) := by
  unfold FlagTold at h
  split at h
  · next sig hmark =>
    rw [hmark, ← h, hhup]
    exact .inr rfl
  · next hmark => exact .inl hmark
  · exact absurd hhup h.1

/-! ## One reload per hangup -/

/-- No signal has been delivered since the last reload or process cycle. -/
def Quiet (log : List Ev) : Prop := ∀ sig, lastMark log ≠ some (.signalled sig)

/-- A signal check to which no new signal has come runs a process cycle. -/
def CheckLaw (clock : Nat → UTime) (d : Daemon) (i : Input) : Prop :=
  ∀ a, i = .check a → d.pc = .check → Quiet d.world.log →
    Adds Ev.IsPlain (d.world.log ++ [.processed]) (d.step clock i).world.log

/-- A reload is followed by another signal before the next signal check. -/
def Resignalled (d : Daemon) (i : Input) : Prop :=
  ∀ a, i = .check a → d.pc = .check → lastMark d.world.log ≠ some .reloaded

/-- A SIGHUP that the switch has not seen yet. -/
def unseen (log : List Ev) : Nat := if lastMark log = some (.signalled sighup) then 1 else 0

/-- Reloads do not outnumber the SIGHUPs that the switch has seen. -/
def Counted (d : Daemon) : Prop :=
  FlagTold d ∧ reloads d.world.log + unseen d.world.log ≤ hangups d.world.log

theorem counted_plain {log log' : List Ev} (h : Adds Ev.IsPlain log log') :
    reloads log' = reloads log ∧ unseen log' = unseen log ∧ hangups log' = hangups log :=
  ⟨count_plain h rfl, by rw [unseen, lastMark_plain h, unseen], count_plain h rfl⟩

theorem reloads_snoc (log : List Ev) (ev : Ev) :
    reloads (log ++ [ev]) = reloads log + if ev = .reloaded then 1 else 0 := by
  simp [reloads, List.count_append, List.count_singleton]

theorem hangups_snoc (log : List Ev) (ev : Ev) :
    hangups (log ++ [ev]) = hangups log + if ev = .signalled sighup then 1 else 0 := by
  simp [hangups, List.count_append, List.count_singleton]

theorem unseen_snoc (log : List Ev) {ev : Ev} (h : ev.isMark) :
    unseen (log ++ [ev]) = if ev = .signalled sighup then 1 else 0 := by
  simp [unseen, lastMark_snoc h]

theorem step_counted (i : Input) (h : Counted d) (hcond : Resignalled d i) :
    Counted (d.step clock i) := by
  refine ⟨step_flagTold i h.1, ?_⟩
  have hcount := h.2
  cases i with
  | round a =>
    simp only [step]
    split
    · -- a round neither reloads nor brings a signal
      rcases counted_plain (d.round_marks clock a) with ⟨hr, hu, hh⟩
      rw [hr, hu, hh]
      exact hcount
    · exact hcount
  | signal sig =>
    simp only [step]
    split
    · exact hcount
    · -- a SIGHUP is counted on both sides
      rcases d.signal_marks sig with ⟨-, hlog⟩
      rw [hlog, reloads_snoc, hangups_snoc, unseen_snoc _ rfl, if_neg (by simp)]
      omega
  | check a =>
    simp only [step]
    split
    swap
    · exact hcount
    next hpc =>
    rcases d.check_marks clock a with ⟨-, ⟨hhup, hlog⟩ | ⟨-, -, hlog⟩ | ⟨-, hlog⟩⟩
    · -- the SIGHUP that is reloaded for is a new one
      have hsignal : lastMark d.world.log = some (.signalled sighup) :=
        (h.1.sighup hhup).resolve_left (hcond a rfl hpc)
      have hone : unseen d.world.log = 1 := if_pos hsignal
      rw [hlog, reloads_snoc, hangups_snoc, unseen_snoc _ rfl, if_pos rfl, if_neg (by simp)]
      omega
    · rw [hlog]
      exact hcount
    · -- a process cycle is no reload
      rcases counted_plain hlog with ⟨hr, hu, hh⟩
      rw [hr, hu, hh, reloads_snoc, hangups_snoc, unseen_snoc _ rfl, if_neg (by simp),
        if_neg (by simp)]
      omega

/-- With the flag told, a quiet check processes if it does not come right after a reload. -/
theorem checkLaw_of_resignalled (i : Input) (h : FlagTold d) (hcond : Resignalled d i) :
    CheckLaw clock d i := by
  rintro a rfl hpc hquiet
  have hno : NoSignal d.signalReceived := by
    unfold FlagTold at h
    split at h
    · next sig hmark => exact absurd hmark (hquiet sig)
    · next hmark => exact absurd hmark (hcond a rfl hpc)
    · exact h
  simp only [step, if_pos hpc]
  rcases d.check_marks clock a with ⟨-, ⟨hhup, -⟩ | ⟨-, hstop, -⟩ | ⟨-, hlog⟩⟩
  · exact absurd hhup hno.1
  · exact absurd hno hstop
  · exact hlog

/-- A check right after a reload reloads again, although it is quiet. -/
theorem resignalled_of_checkLaw (i : Input) (h : FlagTold d) (hlaw : CheckLaw clock d i) :
    Resignalled d i := by
  rintro a rfl hpc hmark
  have hquiet : Quiet d.world.log := by
    intro sig hsig
    rw [hmark] at hsig
    cases hsig
  have hhup : d.signalReceived = sighup := by
    unfold FlagTold at h
    rwa [hmark] at h
  have hprocess := hlaw a rfl hpc hquiet
  simp only [step, if_pos hpc] at hprocess
  rcases d.check_marks clock a with ⟨-, ⟨-, hlog⟩ | ⟨hne, -⟩ | ⟨hno, -⟩⟩
  · have hlast := lastMark_plain hprocess
    rw [hlog, lastMark_snoc rfl, lastMark_snoc rfl] at hlast
    cases hlast
  · exact hne hhup
  · exact hno.1 hhup

theorem start_counted (clock : Nat → UTime) (iobufsize : Nat) (a : InitAnswers) :
    Counted (start clock iobufsize a) := by
  rcases start_spec clock iobufsize a with ⟨-, -, -, -, hlog, hflag⟩
  constructor
  · unfold FlagTold
    rw [hlog, hflag]
    exact ⟨by decide, by decide⟩
  · rw [hlog]
    exact Nat.le_refl 0

end Daemon

/-- One reload per hangup: along a run the quiet signal checks process and the reloads never
outnumber the SIGHUPs, if and only if each reload is followed by another signal before the
next signal check. -/
theorem one_reload_per_hangup (iobufsize : Nat) (a : InitAnswers) (inputs : List Input) :
    (Along (Daemon.step clock) (Daemon.CheckLaw clock) (Daemon.start clock iobufsize a) inputs ∧
      ∀ past, past <+: inputs →
        reloads (run (Daemon.step clock) (Daemon.start clock iobufsize a) past).world.log ≤
          hangups (run (Daemon.step clock) (Daemon.start clock iobufsize a) past).world.log) ↔
    Along (Daemon.step clock) Daemon.Resignalled (Daemon.start clock iobufsize a) inputs := by
  have hstart := Daemon.start_counted clock iobufsize a
  constructor
  · rintro ⟨hlaw, -⟩
    exact hlaw.of_invariant Daemon.FlagTold (fun _ i h _ => Daemon.step_flagTold i h)
      (fun _ i h hlaw => Daemon.resignalled_of_checkLaw i h hlaw) hstart.1
  · intro hcond
    constructor
    · exact hcond.of_invariant Daemon.FlagTold (fun _ i h _ => Daemon.step_flagTold i h)
        (fun _ i h hcond => Daemon.checkLaw_of_resignalled i h hcond) hstart.1
    · intro past hpast
      have hcounted := Machine.run_invariant_along Daemon.Counted
        (fun _ i h hcond => Daemon.step_counted i h hcond) hstart (hcond.beginning hpast)
      exact (Nat.le_add_right _ _).trans hcounted.2

/-- One SIGHUP, and two signal checks after it. -/
def oneHangup : List Input :=
  [Daemon.quietTurn, .signal .sighup, .check Daemon.oneAddress, Daemon.quietTurn,
    .check Daemon.oneAddress]

/-- The log of that run. -/
def oneHangupLog : List Ev :=
  (run (Daemon.step fun _ => 0) (Daemon.start (fun _ => 0) 64 Daemon.oneAddress) oneHangup).world.log

theorem one_hangup_two_reloads : reloads oneHangupLog = 2 ∧ hangups oneHangupLog = 1 ∧
    ¬ ∀ past, past <+: oneHangup →
      reloads (run (Daemon.step fun _ => 0)
          (Daemon.start (fun _ => 0) 64 Daemon.oneAddress) past).world.log ≤
        hangups (run (Daemon.step fun _ => 0)
          (Daemon.start (fun _ => 0) 64 Daemon.oneAddress) past).world.log := by
  have hreloads : reloads oneHangupLog = 2 := by decide +kernel
  have hhangups : hangups oneHangupLog = 1 := by decide +kernel
  refine ⟨hreloads, hhangups, ?_⟩
  intro h
  have hle : reloads oneHangupLog ≤ hangups oneHangupLog := h oneHangup (List.prefix_refl _)
  omega

/-! ## What a reload leaves open -/

namespace Daemon

/-- The next step is a reload, which does not use a missing address list. -/
def Reloads (d : Daemon) (i : Input) : Prop :=
  ∃ a, i = .check a ∧ d.pc = .check ∧ d.signalReceived = sighup ∧
    (a.port.isSome → a.addrs.isSome)

/-- All that was open is closed, and all that is open is held by a device. -/
def Releases (d d' : Daemon) : Prop :=
  (∀ fd ∈ d.world.fds, fd ∉ d'.world.fds) ∧
    ∀ fd, fd ∈ d'.world.fds ↔ ∃ dev ∈ d'.app.selector.toList, dev.fd ≠ -1 ∧ dev.fd = fd

theorem hdmi2usbInit_isSome {a : InitAnswers} (h : a.port.isSome → a.addrs.isSome) (app : Hdmi2usb)
    (rc : Int) (w : World) : ∃ rc' app' w', hdmi2usbInit clock a app rc w = some (rc', app', w') := by
  unfold hdmi2usbInit
  cases hport : a.port with
  | none => exact ⟨_, _, _, rfl⟩
  | some port =>
    rcases Option.isSome_iff_exists.mp (h (by rw [hport]; rfl)) with ⟨addrs, haddrs⟩
    rw [haddrs]
    exact ⟨_, _, _, rfl⟩

/-- A reload closes nothing, and its devices hold nothing. -/
theorem step_reloads {d : Daemon} {i : Input} (h : d.Reloads i) :
    (d.step clock i).world.fds = d.world.fds ∧
      ∀ dev ∈ (d.step clock i).app.selector.toList, dev.fd = -1 := by
  rcases h with ⟨a, rfl, hpc, hhup, haddrs⟩
  rcases hdmi2usbInit_isSome clock haddrs d.app (hdmi2usbClose exSuccess)
    (d.world.record .reloaded) with ⟨rc, app, w, hinit⟩
  rcases hdmi2usbInit_spec hinit with ⟨hdevs, -, -, -, hfds, -, -⟩
  have hstep : d.step clock (.check a) =
      ({ d with world := w, app := app } : Daemon).proceed rc := by
    simp [step, hpc, check, hhup, initialise, hinit]
  rw [hstep, proceed_app, proceed_world]
  exact ⟨hfds, fun dev hdev => (hdevs.1 dev hdev).fd⟩

theorem releases_iff {d : Daemon} {i : Input} (h : d.Reloads i) :
    Releases d (d.step clock i) ↔ d.world.fds = ∅ := by
  rcases step_reloads clock h with ⟨hfds, hnone⟩
  unfold Releases
  rw [hfds]
  constructor
  · rintro ⟨hclosed, -⟩
    exact Finset.eq_empty_of_forall_notMem fun fd hfd => hclosed fd hfd hfd
  · intro hempty
    rw [hempty]
    constructor
    · intro fd hfd
      exact absurd hfd (Finset.notMem_empty fd)
    · intro fd
      -- the new devices hold nothing
      refine iff_of_false (Finset.notMem_empty fd) ?_
      rintro ⟨dev, hdev, hholds, -⟩
      exact hholds (hnone dev hdev)

end Daemon

/-- A reload releases what it replaces, in a run in which it happens only when no descriptor
is open, and in no other run. -/
theorem reload_releases (iobufsize : Nat) (a : InitAnswers) (inputs : List Input) :
    Along (Daemon.step clock) (fun d i => d.Reloads i → d.Releases (d.step clock i))
        (Daemon.start clock iobufsize a) inputs ↔
      Along (Daemon.step clock) (fun d i => d.Reloads i → d.world.fds = ∅)
        (Daemon.start clock iobufsize a) inputs := by
  refine Machine.along_congr ?_
  intro d i
  exact imp_congr_right fun h => Daemon.releases_iff clock h

/-- The descriptor of the serial device is open before the reload and after it. -/
theorem reload_leaks_serial :
    ¬ Along (Daemon.step fun _ => 0)
      (fun d i => d.Reloads i → d.Releases (d.step (fun _ => 0) i))
      (Daemon.start (fun _ => 0) 64 Daemon.oneAddress)
      [Daemon.quietTurn, .signal .sighup, .check Daemon.oneAddress] := by
  intro h
  have hreleases := h.2.2.1 ⟨Daemon.oneAddress, rfl, by decide +kernel, by decide +kernel, by decide⟩
  exact hreleases.1 3 (by decide +kernel) (by decide +kernel)

end Hdmi2usbd
