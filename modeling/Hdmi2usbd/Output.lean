import Hdmi2usbd.Dispatch
import Hdmi2usbd.Effects
import Hdmi2usbd.Lib.Flow

/-!
# Output — what a device writes

What `write` takes in a session, followed by what is left in the send buffer, is what was in
the buffer and what has been put into it since, for every interleaving of puts and writes and
every count that the system takes (`output_stream`). The writes of the serial device are
paced: from one to the next, `CHARACTER_PACING` has passed.
-/

namespace Hdmi2usbd

open Machine (Along run)

/-! ## The stream -/

/-- The calls that fill and empty the send buffer. -/
def DeviceCall.IsOutput : DeviceCall → Prop
  | .put _ | .handler .write _ => True
  | _ => False

instance (call : DeviceCall) : Decidable call.IsOutput := by
  unfold DeviceCall.IsOutput
  split <;> infer_instance

/-- The bytes that a call puts into the send buffer. -/
def putBytes (s : Iodev × World) : DeviceCall → List UInt8
  | .put bytes => bytes.take s.1.tbuf.available
  | _ => []

variable {clock : Nat → UTime}

/-- The bytes that `write` takes in a call, if it is in the given session. -/
def sentBytes (clock : Nat → UTime) (session : Nat) (s : Iodev × World) (call : DeviceCall) :
    List UInt8 :=
  sentOf session (s.2.since (call.apply clock s).2)

/-- What a write leaves: all as it was, or the bytes that were taken have left the buffer, or the
device is closed. -/
theorem writeCall_cases (clock : Nat → UTime) (s : Iodev × World) (answer : IoAnswer) :
    (((DeviceCall.handler .write answer).apply clock s).1 = s.1 ∧
      ((DeviceCall.handler .write answer).apply clock s).2.log = s.2.log) ∨
    (∃ n, Sent s.1 n s.2 ((DeviceCall.handler .write answer).apply clock s)) ∨
    ∃ dev, dev.state = s.1.state ∧
      FailClosed dev s.2 ((DeviceCall.handler .write answer).apply clock s) := by
  rw [DeviceCall.apply_write]
  rcases iodevHandler_cases clock .write answer s.1 s.2 with ⟨hdev, hlog, -, -⟩ | ⟨_, hread, -⟩ |
    ⟨n, -, -, hsent⟩ | ⟨-, -, hfail⟩ | ⟨-, hfail⟩
  · exact .inl ⟨hdev, hlog⟩
  · cases hread
  · exact .inr (.inl ⟨n, hsent⟩)
  · exact .inr (.inr ⟨flushBuffers s.1, rfl, hfail⟩)
  · exact .inr (.inr ⟨s.1, rfl, hfail⟩)

/-- A call writes to the end of the log, and the session stays. -/
theorem outputCall_log (clock : Nat → UTime) {s : Iodev × World} {call : DeviceCall}
    (h : call.IsOutput) : s.2.log <+: (call.apply clock s).2.log ∧ (call.apply clock s).1.session = s.1.session := by
  cases call with
  | setMasks _ _ | other _ => cases h
  | put bytes => exact ⟨List.prefix_refl _, rfl⟩
  | handler event answer =>
    cases event with
    | read | except => cases h
    | write =>
      rw [DeviceCall.apply_write]
      rcases iodevHandler_handled clock .write answer s.1 s.2 with ⟨hsession, -, -, hlog⟩
      refine ⟨?_, hsession⟩
      rcases hlog with ⟨-, -, hlog⟩ | ⟨-, hlog⟩
      · exact hlog.extended
      · rw [hlog]
        exact List.prefix_append _ _

/-- A device that holds a descriptor after a call has held it before. -/
theorem outputCall_holds {s : Iodev × World} {call : DeviceCall} (h : call.IsOutput)
    (hend : (call.apply clock s).1.state.holds) : s.1.state.holds := by
  cases call with
  | setMasks _ _ | other _ => cases h
  | put bytes => exact hend
  | handler event answer =>
    cases event with
    | read | except => cases h
    | write =>
      rcases writeCall_cases clock s answer with ⟨hdev, -⟩ | ⟨n, hsent⟩ | ⟨dev, -, hfail⟩
      · rwa [hdev] at hend
      · rcases hsent.body with ⟨pacer, hbody⟩
        rwa [hbody] at hend
      · exact absurd hend hfail.not_holds

/-- The conservation law of one call. -/
theorem outputCall_conserved {s : Iodev × World} {call : DeviceCall} (h : call.IsOutput)
    (hend : (call.apply clock s).1.state.holds) :
    sentBytes clock s.1.session s call ++ (call.apply clock s).1.tbuf.contents =
      s.1.tbuf.contents ++ putBytes s call := by
  cases call with
  | setMasks _ _ | other _ => cases h
  | put bytes =>
    have hlog : s.2.since s.2 = [] := World.since_eq (List.append_nil _).symm
    simp [sentBytes, DeviceCall.apply, putBytes, hlog]
  | handler event answer =>
    cases event with
    | read | except => cases h
    | write =>
      show _ = s.1.tbuf.contents ++ []
      rw [List.append_nil]
      unfold sentBytes
      rcases writeCall_cases clock s answer with ⟨hdev, hlog⟩ | ⟨n, hsent⟩ | ⟨dev, -, hfail⟩
      · rw [hdev, World.since_eq (by rw [hlog, List.append_nil])]
        rfl
      · -- the bytes taken are the first of the buffer
        rcases hsent.body with ⟨pacer, hbody⟩
        rcases hsent.log with ⟨tick, hlog⟩
        rw [hbody, World.since_eq hlog]
        simp [sentOf]
      · exact absurd hend hfail.not_holds

/-- What a run of calls has logged as sent is what its calls have sent. -/
theorem outputRun_sent {dev : Iodev} {w : World} {calls : List DeviceCall}
    (h : Along (DeviceCall.apply clock) (fun _ call => call.IsOutput) (dev, w) calls) (session : Nat) :
    sentOf session (w.since (run (DeviceCall.apply clock) (dev, w) calls).2) =
      Flow.total (DeviceCall.apply clock) (sentBytes clock session) (dev, w) calls := by
  have hprefix : w.log <+: (run (DeviceCall.apply clock) (dev, w) calls).2.log :=
    Machine.run_invariant_along (fun s : Iodev × World => w.log <+: s.2.log)
      (fun s call hs hcall => hs.trans (outputCall_log clock hcall).1) (List.prefix_refl _) h
  have htotal := Flow.total_logged (fun s : Iodev × World => sentOf session s.2.log)
    (sentBytes clock session) ?_ h
  · rcases hprefix with ⟨evs, hevs⟩
    rw [World.since_eq hevs.symm]
    rw [← hevs, sentOf_append] at htotal
    exact List.append_cancel_left htotal
  · intro s call hcall
    rcases (outputCall_log clock (s := s) hcall).1 with ⟨evs, hevs⟩
    rw [sentBytes, World.since_eq hevs.symm, ← hevs, sentOf_append]

/-- While the device is not closed, what has been sent, followed by what is in the buffer, is what
was in it followed by what has been put. -/
theorem outputRun_conserved {dev : Iodev} {w : World} {calls : List DeviceCall}
    (h : Along (DeviceCall.apply clock) (fun _ call => call.IsOutput) (dev, w) calls)
    (hend : (run (DeviceCall.apply clock) (dev, w) calls).1.state.holds) :
    sentOf dev.session (w.since (run (DeviceCall.apply clock) (dev, w) calls).2) ++
        (run (DeviceCall.apply clock) (dev, w) calls).1.tbuf.contents =
      dev.tbuf.contents ++ Flow.total (DeviceCall.apply clock) putBytes (dev, w) calls := by
  have hsession : (run (DeviceCall.apply clock) (dev, w) calls).1.session = dev.session :=
    Machine.run_invariant_along (fun s : Iodev × World => s.1.session = dev.session)
      (fun s call hs hcall => (outputCall_log clock hcall).2.trans hs) rfl h
  rw [outputRun_sent h dev.session]
  refine (Flow.conserved_until
    (fun s : Iodev × World => s.1.state.holds ∧ s.1.session = dev.session) putBytes
    (sentBytes clock dev.session) (fun s : Iodev × World => s.1.tbuf.contents)
    ?_ ?_ h ⟨hend, hsession⟩).2
  · rintro s call hcall ⟨hholds, hs⟩
    exact ⟨outputCall_holds hcall hholds, (outputCall_log clock hcall).2.symm.trans hs⟩
  · rintro s call hcall ⟨hholds, hs⟩
    rw [← hs, (outputCall_log clock hcall).2]
    exact outputCall_conserved hcall hholds

/-! ## The pace -/

/-- The clock never goes back, and stays below 2^62. -/
def ClockSteady (clock : Nat → UTime) : Prop :=
  (∀ m n, m ≤ n → (clock m).toNat ≤ (clock n).toNat) ∧ ∀ n, (clock n).toNat < 0x4000000000000000

/-- The writes of a session that took a byte: for each the reading at which the pacer was reset. -/
def writeTicks (session : Nat) (log : List Ev) : List Nat :=
  log.filterMap fun
    | .sent s bytes tick => if s = session ∧ bytes ≠ [] then some tick else none
    | _ => none

@[simp] theorem writeTicks_append (session : Nat) (log log' : List Ev) :
    writeTicks session (log ++ log') = writeTicks session log ++ writeTicks session log' := by
  simp [writeTicks]

/-- A write comes between the reading that finds the pacer expired and the one that resets it: from
the reset of the earlier write to the check of the later one, the pace has passed. -/
def WritesApart (clock : Nat → UTime) (earlier later : Nat) : Prop :=
  0 < later ∧ (clock earlier).toNat + characterPacing.toNat ≤ (clock (later - 1)).toNat

/-- The writes in `evs` are apart, and the pacer runs since a reading that is not before the last. -/
structure PacedOut (clock : Nat → UTime) (session : Nat) (evs : List Ev) (s : Iodev × World) :
    Prop where
  driver : s.1.driver = .serial
  own : s.1.session = session
  apart : (writeTicks session evs).Pairwise (WritesApart clock)
  pacer : ∀ tick ∈ writeTicks session evs, ∃ reset, tick ≤ reset ∧ reset < s.2.tick ∧
    s.1.pacer = timerReset (clock reset) characterPacing

/-- A pacer that was reset and has expired was checked a pace later. -/
theorem expired_after_reset (hclock : ClockSteady clock) {w : World} {reset : Nat}
    (hexp : (w.expired clock (timerReset (clock reset) characterPacing)).1 = true) :
    (w.expired clock (timerReset (clock reset) characterPacing)).2.tick = w.tick + 1 ∧
      (clock reset).toNat + characterPacing.toNat ≤ (clock w.tick).toNat := by
  have hpace : characterPacing.toNat = 5000 := by decide
  have hreset := hclock.2 reset
  have hnow := hclock.2 w.tick
  rcases timerReset_tEnding (show characterPacing ≠ 0 by decide)
    (show (clock reset).toNat + characterPacing.toNat < utimeHalf by
      rw [hpace, utimeHalf]
      omega) with ⟨hrun, hend⟩
  have hbound : (timerReset (clock reset) characterPacing).tEnding.toNat < utimeHalf := by
    rw [hend, hpace, utimeHalf]
    omega
  simp only [World.expired, if_neg hrun] at hexp ⊢
  refine ⟨rfl, ?_⟩
  rwa [timerExpired_iff hrun hbound (by simp only [World.now, utimeHalf]; omega), hend] at hexp

/-- A call that neither sends a byte nor touches the pacer. -/
theorem PacedOut.still {session : Nat} {evs new : List Ev} {s s' : Iodev × World}
    (h : PacedOut clock session evs s) (hnew : writeTicks session new = [])
    (hdriver : s'.1.driver = s.1.driver) (hsession : s'.1.session = s.1.session)
    (hpacer : s'.1.pacer = s.1.pacer) (htick : s.2.tick ≤ s'.2.tick) :
    PacedOut clock session (evs ++ new) s' := by
  refine ⟨hdriver.trans h.driver, hsession.trans h.own, ?_, ?_⟩
  · rw [writeTicks_append, hnew, List.append_nil]
    exact h.apart
  · intro tick hmem
    rw [writeTicks_append, hnew, List.append_nil] at hmem
    rcases h.pacer tick hmem with ⟨reset, hle, hlt, hreset⟩
    exact ⟨reset, hle, hlt.trans_le htick, hpacer.trans hreset⟩

/-- A write that is made: the pacer has expired, and is reset. -/
theorem PacedOut.write (hclock : ClockSteady clock) {session : Nat} {evs : List Ev} {dev : Iodev}
    {w : World} (h : PacedOut clock session evs (dev, w))
    (hexp : (w.expired clock dev.pacer).1 = true) (tbuf : RingBuffer) (bytes : List UInt8)
    (log : List Ev) :
    PacedOut clock session (evs ++ [.sent dev.session bytes (w.expired clock dev.pacer).2.tick])
      ({ dev with
          tbuf := tbuf
          pacer := timerReset (clock (w.expired clock dev.pacer).2.tick) characterPacing },
        { (w.expired clock dev.pacer).2 with
          tick := (w.expired clock dev.pacer).2.tick + 1
          log := log }) := by
  have hle := World.tick_le_expired clock dev.pacer w
  have hnew : ∀ tick ∈ writeTicks session [.sent dev.session bytes (w.expired clock dev.pacer).2.tick],
      tick = (w.expired clock dev.pacer).2.tick := by
    intro tick hmem
    simp only [writeTicks, List.mem_filterMap, List.mem_singleton, exists_eq_left] at hmem
    split at hmem
    · exact (Option.some.inj hmem).symm
    · cases hmem
  refine ⟨h.driver, h.own, ?_, ?_⟩
  · rw [writeTicks_append, List.pairwise_append]
    refine ⟨h.apart, ?_, ?_⟩
    · simp only [writeTicks, List.filterMap_cons]
      split <;> simp
    · intro earlier hearlier later hlater
      rw [hnew later hlater]
      -- the pacer runs since the last write, and the earlier one is not after it
      rcases h.pacer earlier hearlier with ⟨reset, hreset, -, hpacer⟩
      dsimp only at hpacer
      rw [hpacer] at hexp ⊢
      rcases expired_after_reset hclock hexp with ⟨htick, hpace⟩
      have hearly := hclock.1 earlier reset hreset
      rw [htick]
      exact ⟨Nat.succ_pos _, by rw [Nat.add_sub_cancel]; omega⟩
  · intro tick hmem
    refine ⟨(w.expired clock dev.pacer).2.tick, ?_, Nat.lt_succ_self _, rfl⟩
    rw [writeTicks_append] at hmem
    rcases List.mem_append.mp hmem with hmem | hmem
    · rcases h.pacer tick hmem with ⟨reset, hreset, hlt, -⟩
      dsimp only at hlt
      omega
    · rw [hnew tick hmem]

theorem outputCall_paced (hclock : ClockSteady clock) {session : Nat} {w : World}
    (s : Iodev × World) (call : DeviceCall)
    (h : ∃ evs, s.2.log = w.log ++ evs ∧ PacedOut clock session evs s) (hcall : call.IsOutput) :
    ∃ evs, (call.apply clock s).2.log = w.log ++ evs ∧
      PacedOut clock session evs (call.apply clock s) := by
  rcases h with ⟨evs, hlog, h⟩
  have hstill : ∀ new s', s'.2.log = s.2.log ++ new → writeTicks session new = [] →
      s'.1.driver = s.1.driver → s'.1.session = s.1.session → s'.1.pacer = s.1.pacer →
      s.2.tick ≤ s'.2.tick → ∃ evs, s'.2.log = w.log ++ evs ∧ PacedOut clock session evs s' := by
    intro new s' hlog' hnew hdriver hsession hpacer htick
    refine ⟨evs ++ new, ?_, h.still hnew hdriver hsession hpacer htick⟩
    rw [hlog', hlog, List.append_assoc]
  cases call with
  | setMasks _ _ | other _ => cases hcall
  | put bytes => exact hstill [] _ (List.append_nil _).symm rfl rfl rfl rfl le_rfl
  | handler event answer =>
    cases event with
    | read | except => cases hcall
    | write =>
      have happly : (DeviceCall.handler .write answer).apply clock s =
          serialWriteHandler clock answer.write s.1 s.2 := by
        rw [DeviceCall.apply_write]
        simp only [iodevHandler, h.driver]
      rw [happly]
      have htick := World.tick_le_expired clock s.1.pacer s.2
      rcases serialWriteHandler_cases clock answer.write s.1 s.2 with heq | heq |
        ⟨rc, -, hexp, heq⟩ | ⟨-, -, -, -, heq⟩
      · rw [heq]
        exact hstill [] _ (List.append_nil _).symm rfl rfl rfl rfl le_rfl
      · rw [heq]
        exact hstill [] _ (by simp) rfl rfl rfl rfl htick
      · rw [heq]
        exact ⟨_, by rw [hlog, List.append_assoc], PacedOut.write hclock h hexp _ _ _⟩
      · -- a write that fails closes the device
        rw [heq]
        by_cases hholds : s.1.state.holds
        · rw [iodevClose_holds hholds rfl]
          exact hstill [.closed s.1.session s.1.fd] _ (by simp) rfl rfl rfl rfl htick
        · rw [iodevClose_not_holds hholds]
          split
          · exact hstill [] _ (by simp) rfl rfl rfl rfl htick
          · exact hstill [] _ (by simp) rfl rfl rfl rfl htick

/-- The output of a device is an exact stream: along every interleaving of puts and writes, and
whatever the system takes of each write, what has been sent in the session and what is in the
buffer are, as long as the device is not closed, what was in it and what has been put. The bytes
of the serial device are sent a pace apart. -/
theorem output_stream (clock : Nat → UTime) (dev : Iodev) (w : World) (calls : List DeviceCall)
    (hcalls : ∀ call ∈ calls, call.IsOutput) :
    let s := run (DeviceCall.apply clock) (dev, w) calls
    (s.1.state.holds → sentOf dev.session (w.since s.2) ++ s.1.tbuf.contents =
      dev.tbuf.contents ++ Flow.total (DeviceCall.apply clock) putBytes (dev, w) calls) ∧
    (dev.driver = .serial → ClockSteady clock →
      (writeTicks dev.session (w.since s.2)).Pairwise (WritesApart clock)) := by
  have halong : Along (DeviceCall.apply clock) (fun _ call => call.IsOutput) (dev, w) calls :=
    Machine.along_of_mem hcalls
  refine ⟨outputRun_conserved halong, ?_⟩
  intro hserial hclock
  rcases Machine.run_invariant_along
    (fun s : Iodev × World => ∃ evs, s.2.log = w.log ++ evs ∧ PacedOut clock dev.session evs s)
    (fun s call => outputCall_paced hclock s call)
    ⟨[], (List.append_nil _).symm, hserial, rfl, List.Pairwise.nil, by simp [writeTicks]⟩ halong
    with ⟨evs, hlog, h⟩
  rw [World.since_eq hlog]
  exact h.apart

/-- A clock that advances by 2.5 ms with each of its first hundred readings. -/
def steadyClock (n : Nat) : UTime := UInt64.ofNat (2500 * min n 100)

theorem steadyClock_steady : ClockSteady steadyClock := by
  have hvalue : ∀ n, (steadyClock n).toNat = 2500 * min n 100 := by
    intro n
    simp only [steadyClock, UInt64.toNat_ofNat']
    rw [Nat.mod_eq_of_lt (by omega)]
  constructor
  · intro m n hle
    rw [hvalue, hvalue]
    omega
  · intro n
    rw [hvalue]
    omega

/-- An open serial device with nothing to send. -/
def openSerial : Iodev := { iodevInit .serial 8 with state := .iodevConnected, fd := 3, session := 1 }

/-- Two puts and three writes, the second of which the pacer vetoes. -/
def vetoedWrite : List DeviceCall :=
  [.put [97, 98], .handler .write ⟨none, none, some 1⟩, .handler .write ⟨none, none, some 1⟩,
    .put [99], .handler .write ⟨none, none, some 1⟩]

/-- The serial device and the world after these calls. -/
def afterVeto : Iodev × World :=
  run (DeviceCall.apply steadyClock) (openSerial, World.init) vetoedWrite

theorem output_stream_vetoed :
    sentOf 1 (World.init.since afterVeto.2) = [97, 98] ∧ afterVeto.1.tbuf.contents = [99] ∧
      sentOf 1 (World.init.since afterVeto.2) ++ afterVeto.1.tbuf.contents = openSerial.tbuf.contents ++
        Flow.total (DeviceCall.apply steadyClock) putBytes (openSerial, World.init) vetoedWrite ∧
      (writeTicks 1 (World.init.since afterVeto.2)).Pairwise (WritesApart steadyClock) := by
  have hstream := output_stream steadyClock openSerial World.init vetoedWrite (by decide)
  refine ⟨by decide +kernel, by decide +kernel, ?_, ?_⟩
  · exact hstream.1 (by decide +kernel)
  · exact hstream.2 rfl steadyClock_steady

end Hdmi2usbd
