import Hdmi2usbd.Dispatch
import Hdmi2usbd.Effects

/-!
# Closing — what is left of a device after a close

A close with `IOFLAG_INACTIVE` is meant to be final. The close functions do not look at the
flag: a connection is never opened again after any close, the serial device and a listener
are after every close (`final_close_iff`).

A close with `IOFLAG_FLUSH` is meant to wait until all that is queued is sent. It waits while
there is room in the send buffer, so it loses a buffer that is exactly full, and nothing else
(`flush_close_iff`).
-/

namespace Hdmi2usbd

open Machine (run)

variable {clock : Nat → UTime}

/-! ## The final close -/

/-- A connection that holds a descriptor or is inactive stays as it is, or becomes inactive. -/
def Retires (dev dev' : Iodev) : Prop :=
  dev'.driver = .accepted ∧ (dev'.state = dev.state ∨ dev'.state = .iodevInactive)

/-- A connection on its way out. -/
def Retiring (dev : Iodev) : Prop :=
  dev.driver = .accepted ∧ (dev.state.holds ∨ dev.state = .iodevInactive)

theorem Retiring.refl {dev : Iodev} (h : Retiring dev) : Retires dev dev := ⟨h.1, .inl rfl⟩

theorem Retiring.step {dev dev' : Iodev} (h : Retiring dev) (h' : Retires dev dev') :
    Retiring dev' := by
  refine ⟨h'.1, ?_⟩
  rcases h'.2 with hstate | hstate
  · rw [hstate]
    exact h.2
  · exact .inr hstate

theorem iodevClose_retires {dev : Iodev} (h : Retiring dev) {flags : Nat}
    (hflags : flags &&& ioflagFlush = 0) (w : World) : Retires dev (iodevClose dev flags w).1 := by
  rcases h with ⟨hdriver, hholds | hstate⟩
  · rw [iodevClose_holds hholds hflags]
    exact ⟨hdriver, .inr (by simp [Iodev.released, hdriver])⟩
  · rw [iodevClose_not_holds (by simp [hstate, DevState.holds, DevState.toNat])]
    simp [Retires, hdriver, hstate]

theorem setMasks_retires {dev : Iodev} (h : Retiring dev) (answer : OpenAnswer) (sets : FdSets)
    (w : World) : Retires dev (setMasks clock answer dev sets w).dev := by
  have hd : dev.driver ≠ .listen := by simp [h.1]
  have hclose := iodevClose_retires h (show ioflagNone &&& ioflagFlush = 0 from rfl) w
  rw [setMasks_generic clock hd]
  unfold iodevSetMasks
  cases hs : dev.state with
  | iodevNone | iodevClosed =>
    -- it would be opened again, but is in neither state
    have := h.2
    simp [hs, DevState.holds, DevState.toNat] at this
  | iodevClosing =>
    dsimp only
    split
    · exact h.refl
    · exact hclose
  | iodevInactive | iodevPending | iodevOpen | iodevConnected | iodevActive => exact h.refl

theorem iodevHandler_retires {dev : Iodev} (h : Retiring dev) (event : IoEvent) (answer : IoAnswer)
    (w : World) : Retires dev (iodevHandler clock event answer dev w).1 := by
  rcases iodevHandler_cases clock event answer dev w with ⟨heq, -⟩ | ⟨bytes, -, -, -, heq⟩ |
    ⟨n, -, -, hsent⟩ | ⟨-, -, flags, w', hflags, -, -, -, heq⟩ | ⟨-, flags, w', hflags, -, -, -, heq⟩
  · rw [heq]
    exact h.refl
  · rw [heq]
    exact h.refl
  · rcases hsent.body with ⟨pacer, hbody⟩
    rw [hbody]
    exact h.refl
  · rw [heq]
    exact iodevClose_retires (show Retiring (flushBuffers dev) from h) hflags w'
  · rw [heq]
    exact iodevClose_retires h hflags w'

theorem deviceCall_retires (clock : Nat → UTime) {s : Iodev × World} (h : Retiring s.1)
    (call : DeviceCall) : Retires s.1 (call.apply clock s).1 := by
  cases call with
  | put bytes | other w => exact h.refl
  | setMasks answer sets => exact setMasks_retires h answer sets s.2
  | handler event answer =>
    by_cases haccept : event = .read ∧ s.1.driver = .listen
    · rw [DeviceCall.apply, if_pos haccept]
      exact h.refl
    · rw [DeviceCall.apply, if_neg haccept]
      exact iodevHandler_retires h event answer s.2

/-- Once the descriptor is released, the device is inactive and stays so, whatever is called and
whatever the world is. -/
def Final (clock : Nat → UTime) (s : Iodev × World) : Prop :=
  ∀ past future, ¬ (run (DeviceCall.apply clock) s past).1.state.holds →
    (run (DeviceCall.apply clock) s (past ++ future)).1.state = .iodevInactive

theorem final_of_retiring {s : Iodev × World} (h : Retiring s.1) : Final clock s := by
  intro past future hreleased
  have hpast : Retiring (run (DeviceCall.apply clock) s past).1 :=
    Machine.run_invariant (fun s : Iodev × World => Retiring s.1)
      (fun s call hs => hs.step (deviceCall_retires clock hs call)) h past
  rw [Machine.run_append]
  -- from here on the device is inactive
  refine (Machine.run_invariant
    (fun s : Iodev × World => Retiring s.1 ∧ s.1.state = .iodevInactive) ?_
    ⟨hpast, hpast.2.resolve_left hreleased⟩ future).2
  rintro s call ⟨hs, hstate⟩
  have hstep := deviceCall_retires clock hs call
  refine ⟨hs.step hstep, ?_⟩
  rcases hstep.2 with hsame | hinactive
  · exact hsame.trans hstate
  · exact hinactive

/-- A close of a device with a descriptor, with any flags, is final if and only if the device is an
accepted connection. -/
theorem final_close_iff (clock : Nat → UTime) {dev : Iodev} (h : dev.state.holds) (flags : Nat)
    (w : World) : Final clock (iodevClose dev flags w) ↔ dev.driver = .accepted := by
  constructor
  · intro hfinal
    by_contra hdriver
    have hclosed : dev.released.state = .iodevClosed := by simp [Iodev.released, hdriver]
    rcases iodevClose_cases h flags w with heq | ⟨-, -, heq⟩
    · -- the descriptor is released at once, and the device is to be opened again
      have := hfinal [] [] (by rw [heq]; exact dev.released_not_holds)
      rw [heq] at this
      exact absurd (this.symm.trans hclosed) (by decide)
    · -- it is released when an exception is reported for the closing device
      have hexcept : (run (DeviceCall.apply clock) (iodevClose dev flags w)
          [.handler .except ⟨none, none, none⟩]).1 = dev.released := by
        rw [heq]
        simp only [Machine.run_cons, Machine.run_nil, DeviceCall.apply, iodevHandler,
          iodevExceptHandler, reduceCtorEq, false_and, if_false]
        rw [iodevClose_holds (by simp [DevState.holds, DevState.toNat]) rfl]
        rfl
      have := hfinal [.handler .except ⟨none, none, none⟩] [] (by
        rw [hexcept]
        exact dev.released_not_holds)
      rw [List.append_nil, hexcept] at this
      exact absurd (this.symm.trans hclosed) (by decide)
  · intro hdriver
    refine final_of_retiring ?_
    rcases iodevClose_cases h flags w with heq | ⟨-, -, heq⟩
    · rw [heq]
      exact ⟨hdriver, .inr (by simp [Iodev.released, hdriver])⟩
    · rw [heq]
      exact ⟨hdriver, .inl (by simp [DevState.holds, DevState.toNat])⟩

/-- A listener on descriptor 4. -/
def openListener : Iodev :=
  { tcpCreateListen ⟨.inet, 0x7f000001⟩ 64 with state := .iodevConnected, fd := 4, session := 1 }

/-- A world in which descriptor 4 is open. -/
def listening : World := ⟨{4}, 0, 1, [.opened .listen 1 4]⟩

theorem listener_reopened :
    ¬ Final (fun _ => 0) (iodevClose openListener ioflagInactive listening) ∧
      (run (DeviceCall.apply fun _ => 0) (iodevClose openListener ioflagInactive listening)
        [.setMasks ⟨some 4, true, true, true, true⟩ .zero]).1.state = .iodevConnected := by
  refine ⟨?_, by decide +kernel⟩
  intro hfinal
  have := hfinal [] [] (by decide)
  exact absurd this (by decide)

/-- A connection on descriptor 5. -/
def openConnection : Iodev := tcpCreateAccepted 2 5 64

theorem connection_close_final :
    Final (fun _ => 0) (iodevClose openConnection ioflagInactive ⟨{5}, 0, 2, []⟩) :=
  (final_close_iff (fun _ => 0) (show openConnection.state.holds by decide) ioflagInactive
    ⟨{5}, 0, 2, []⟩).mpr rfl

/-! ## The flushing close -/

/-- The rounds that set masks, and the writes that succeed, be they short. -/
def DeviceCall.Drains : DeviceCall → Prop
  | .setMasks _ _ => True
  | .handler .write answer => answer.write.isSome
  | _ => False

/-- Whenever the descriptor of `dev` is closed in `evs`, all that `dev` had queued has been sent
before. -/
def SentBeforeClose (dev : Iodev) (evs : List Ev) : Prop :=
  ∀ before after, evs = before ++ .closed dev.session dev.fd :: after →
    sentOf dev.session before = dev.tbuf.contents

/-- Nothing that `dev` had queued is lost: it is closing as long as there is something left, and is
closed after all has been sent. -/
structure FlushedOut (dev : Iodev) (w : World) (s : Iodev × World) : Prop where
  closing : s.1.tbuf.contents ≠ [] → s.1.state = .iodevClosing ∧ s.1.fd = dev.fd
  closed : SentBeforeClose dev (w.since s.2)

/-- More events, in which the descriptor is closed only where all has been sent. -/
theorem SentBeforeClose.append {dev : Iodev} {evs new : List Ev} (h : SentBeforeClose dev evs)
    (hnew : ∀ before after, new = before ++ .closed dev.session dev.fd :: after →
      sentOf dev.session (evs ++ before) = dev.tbuf.contents) : SentBeforeClose dev (evs ++ new) := by
  intro before after heq
  rcases List.append_eq_append_iff.mp heq with ⟨mid, hbefore, hmid⟩ | ⟨mid, hevs, hmid⟩
  · rw [hbefore]
    exact hnew mid after hmid
  · rcases mid with - | ⟨ev, mid⟩
    · -- the close is the first of the new events
      rw [List.append_nil] at hevs
      rw [← hevs]
      have := hnew [] after hmid.symm
      rwa [List.append_nil] at this
    · rw [List.cons_append, List.cons.injEq] at hmid
      refine h before mid ?_
      rw [hevs, ← hmid.1]

/-- The flush of `dev`, when `evs` has been logged: what has been sent and what is left are what was
queued. -/
structure Flushing (dev : Iodev) (evs : List Ev) (s : Iodev × World) : Prop where
  sent : sentOf dev.session evs ++ s.1.tbuf.contents = dev.tbuf.contents
  closing : s.1.tbuf.contents ≠ [] →
    s.1.state = .iodevClosing ∧ s.1.fd = dev.fd ∧ s.1.session = dev.session
  closed : SentBeforeClose dev evs

/-- Events of setting up send nothing. -/
theorem sentOf_setup {evs : List Ev} (h : ∀ ev ∈ evs, ev.IsSetup) (session : Nat) :
    sentOf session evs = [] := by
  refine List.flatMap_eq_nil_iff.mpr ?_
  intro ev hev
  have hsetup := h ev hev
  cases ev <;> first | rfl | exact hsetup.elim

/-- A closing device with something left registers and stays closing. -/
theorem setMasks_closing {dev : Iodev} (hstate : dev.state = .iodevClosing) (hused : dev.tbuf.used > 0)
    (clock : Nat → UTime) (answer : OpenAnswer) (sets : FdSets) (w : World) :
    (setMasks clock answer dev sets w).dev = dev ∧ ∃ evs,
      (setMasks clock answer dev sets w).world.log = w.log ++ evs ∧
        ∀ session fd, .closed session fd ∉ evs := by
  have hsend : (iodevSendok clock dev w).2.log = w.log := by
    unfold iodevSendok
    split
    · exact World.expired_log w clock _
    · rfl
  unfold setMasks
  cases dev.driver with
  | listen =>
    simp only [tcpSetMasksListen, hstate]
    exact ⟨trivial, [], (List.append_nil _).symm, by simp⟩
  | serial | accepted =>
    simp only [iodevSetMasks, hstate, hused, if_true]
    split
    · refine ⟨trivial, [.registered .write dev.session dev.fd, .registered .except dev.session dev.fd],
        ?_, by simp⟩
      simp [fdSet, hsend]
    · exact ⟨trivial, [], by rw [hsend, List.append_nil], by simp⟩

theorem Flushing.masks {dev : Iodev} {evs : List Ev} {s : Iodev × World} (h : Flushing dev evs s)
    (clock : Nat → UTime) (answer : OpenAnswer) (sets : FdSets) :
    ∃ new, (setMasks clock answer s.1 sets s.2).world.log = s.2.log ++ new ∧
      Flushing dev (evs ++ new) ((setMasks clock answer s.1 sets s.2).dev,
        (setMasks clock answer s.1 sets s.2).world) := by
  rcases setMasks_setUp clock answer s.1 sets s.2 with ⟨hbody, new, hlog, hnew⟩
  have htbuf : (setMasks clock answer s.1 sets s.2).dev.tbuf = s.1.tbuf := hbody.tbuf
  have hsent : sentOf dev.session (evs ++ new) ++
      (setMasks clock answer s.1 sets s.2).dev.tbuf.contents = dev.tbuf.contents := by
    rw [htbuf, sentOf_append, sentOf_setup hnew, List.append_nil]
    exact h.sent
  refine ⟨new, hlog, hsent, ?_, h.closed.append ?_⟩
  · intro hleft
    rw [htbuf] at hleft
    rcases h.closing hleft with ⟨hstate, hfd, hsession⟩
    have hused : s.1.tbuf.used > 0 := by
      rw [← s.1.tbuf.length_contents]
      exact List.length_pos_iff.mpr hleft
    rw [(setMasks_closing hstate hused clock answer sets s.2).1]
    exact ⟨hstate, hfd, hsession⟩
  · intro before after hsplit
    by_cases hleft : s.1.tbuf.contents = []
    · -- nothing was left, and nothing is sent here
      have hbefore : sentOf dev.session before = [] :=
        sentOf_setup (fun ev hev => hnew ev (by rw [hsplit]; exact List.mem_append_left _ hev)) _
      have hall := h.sent
      rw [hleft, List.append_nil] at hall
      rw [sentOf_append, hbefore, List.append_nil, hall]
    · -- something is left, so nothing is closed
      have hused : s.1.tbuf.used > 0 := by
        rw [← s.1.tbuf.length_contents]
        exact List.length_pos_iff.mpr hleft
      rcases (setMasks_closing (h.closing hleft).1 hused clock answer sets s.2).2 with
        ⟨new', hlog', hnone⟩
      rw [hlog, List.append_cancel_left_eq] at hlog'
      rw [← hlog', hsplit] at hnone
      exact absurd (List.mem_append_right before List.mem_cons_self) (hnone dev.session dev.fd)

theorem Flushing.write {dev : Iodev} {evs : List Ev} {s : Iodev × World} (h : Flushing dev evs s)
    (clock : Nat → UTime) {answer : IoAnswer} (hans : answer.write.isSome) :
    ∃ new, (iodevHandler clock .write answer s.1 s.2).2.log = s.2.log ++ new ∧
      Flushing dev (evs ++ new) (iodevHandler clock .write answer s.1 s.2) := by
  have hnone : ¬ writeFails clock answer.write s.1 s.2 := by
    rintro ⟨-, -, heq⟩
    rw [heq] at hans
    cases hans
  rcases iodevHandler_cases clock .write answer s.1 s.2 with ⟨hdev, hlog, -, -⟩ |
    ⟨bytes, hread, -⟩ | ⟨n, -, -, hsent⟩ | ⟨-, hread | ⟨-, -, hfails⟩, -⟩ | ⟨hx | ⟨-, -, -, hfails⟩, -⟩
  · refine ⟨[], by rw [hlog, List.append_nil], ?_⟩
    rw [List.append_nil]
    exact ⟨by rw [hdev]; exact h.sent, by rw [hdev]; exact h.closing, h.closed⟩
  · cases hread
  · rcases hsent.body with ⟨pacer, hbody⟩
    rcases hsent.log with ⟨tick, hlog⟩
    have hall := h.sent
    refine ⟨_, hlog, ?_, ?_, h.closed.append ?_⟩
    · rw [hbody]
      by_cases hleft : s.1.tbuf.contents = []
      · simpa [sentOf, hleft] using hall
      · -- the first bytes go from the buffer to the log
        rw [sentOf_append, List.append_assoc, RingBuffer.get_contents]
        simp only [sentOf, (h.closing hleft).2.2, List.flatMap_cons, List.flatMap_nil, if_true,
          List.append_nil, List.take_append_drop]
        exact hall
    · rw [hbody]
      intro hleft
      refine h.closing ?_
      intro hnil
      rw [RingBuffer.get_contents, hnil, List.drop_nil] at hleft
      exact hleft rfl
    · intro before after hsplit
      rcases before with - | ⟨ev, before⟩
      · cases hsplit
      · simp at hsplit
  · cases hread.1
  · exact absurd hfails hnone
  · cases hx
  · exact absurd hfails hnone

theorem drainCall_flushing {dev : Iodev} {w : World} (s : Iodev × World) (call : DeviceCall)
    (h : ∃ evs, s.2.log = w.log ++ evs ∧ Flushing dev evs s) (hcall : call.Drains) :
    ∃ evs, (call.apply clock s).2.log = w.log ++ evs ∧ Flushing dev evs (call.apply clock s) := by
  rcases h with ⟨evs, hlog, h⟩
  cases call with
  | put _ | other _ => cases hcall
  | setMasks answer sets =>
    rcases h.masks clock answer sets with ⟨new, hnew, h'⟩
    exact ⟨evs ++ new, by rw [← List.append_assoc, ← hlog]; exact hnew, h'⟩
  | handler event answer =>
    cases event with
    | read | except => cases hcall
    | write =>
      rcases h.write clock hcall with ⟨new, hnew, h'⟩
      rw [DeviceCall.apply_write]
      exact ⟨evs ++ new, by rw [← List.append_assoc, ← hlog]; exact hnew, h'⟩

/-- A flushing close of an open device loses nothing, whatever rounds and successful writes follow,
if and only if its send buffer has room or is empty: a buffer that is exactly full is lost. -/
theorem flush_close_iff (clock : Nat → UTime) {dev : Iodev} (h : iodevIsOpen dev) (w : World) :
    (∀ calls, (∀ call ∈ calls, call.Drains) →
      FlushedOut dev w (run (DeviceCall.apply clock) (iodevClose dev ioflagFlush w) calls)) ↔
    dev.tbuf.available ≠ 0 ∨ dev.tbuf.used = 0 := by
  have hempty : dev.tbuf.used = 0 ↔ dev.tbuf.contents = [] := by
    rw [← dev.tbuf.length_contents, List.length_eq_zero_iff]
  constructor
  · intro hflushed
    by_contra hfull
    rw [not_or, not_not, hempty] at hfull
    -- the full buffer is taken to be drained
    have hclosing := (hflushed [] (by simp)).closing
    rw [Machine.run_nil, iodevClose_flush h, if_neg (not_not.mpr hfull.1)] at hclosing
    have hholds : dev.released.state.holds := by
      rw [(hclosing hfull.2).1]
      rfl
    exact dev.released_not_holds hholds
  · intro hroom calls hcalls
    have hstart : ∃ evs, (iodevClose dev ioflagFlush w).2.log = w.log ++ evs ∧
        Flushing dev evs (iodevClose dev ioflagFlush w) := by
      rw [iodevClose_flush h]
      split
      · exact ⟨[], (List.append_nil _).symm, rfl, fun _ => ⟨rfl, rfl, rfl⟩, by
          intro before after hsplit
          cases before <;> cases hsplit⟩
      · next hnone =>
        have hnil := hempty.mp (hroom.resolve_left hnone)
        refine ⟨[.closed dev.session dev.fd], rfl, ?_, ?_, ?_⟩
        · exact rfl
        · intro hleft
          exact absurd hnil hleft
        · intro before after hsplit
          rcases before with - | ⟨ev, before⟩
          · exact hnil.symm
          · simp at hsplit
    rcases Machine.run_invariant_mem
      (fun s : Iodev × World => ∃ evs, s.2.log = w.log ++ evs ∧ Flushing dev evs s)
      (fun s call hcall hs => drainCall_flushing s call hs (hcalls call hcall)) hstart
      with ⟨evs, hlog, hflushing⟩
    refine ⟨fun hleft => ?_, ?_⟩
    · rcases hflushing.closing hleft with ⟨hstate, hfd, -⟩
      exact ⟨hstate, hfd⟩
    · rw [World.since_eq hlog]
      exact hflushing.closed

/-- The connection, whose send buffer has room for three bytes, with `bytes` queued. -/
def queued (bytes : List UInt8) : Iodev :=
  { openConnection with tbuf := ((RingBuffer.init 4).put bytes).2 }

theorem full_buffer_lost : ¬ ∀ calls, (∀ call ∈ calls, call.Drains) →
    FlushedOut (queued [97, 98, 10]) ⟨{5}, 0, 2, []⟩ (run (DeviceCall.apply fun _ => 0)
      (iodevClose (queued [97, 98, 10]) ioflagFlush ⟨{5}, 0, 2, []⟩) calls) := by
  intro h
  have hclosing := (h [] (by simp)).closing (by decide)
  exact absurd hclosing.1 (by decide)

/-- Two short writes, each with a round after it. -/
def shortWrites : List DeviceCall :=
  [.handler .write ⟨none, none, some 1⟩, .setMasks ⟨none, false, false, false, false⟩ .zero,
    .handler .write ⟨none, none, some 1⟩, .setMasks ⟨none, false, false, false, false⟩ .zero]

theorem two_bytes_flushed :
    (run (DeviceCall.apply fun _ => 0) (iodevClose (queued [97, 10]) ioflagFlush ⟨{5}, 0, 2, []⟩)
      shortWrites).1.state = .iodevInactive ∧
    FlushedOut (queued [97, 10]) ⟨{5}, 0, 2, []⟩ (run (DeviceCall.apply fun _ => 0)
      (iodevClose (queued [97, 10]) ioflagFlush ⟨{5}, 0, 2, []⟩) shortWrites) := by
  constructor
  · decide +kernel
  · refine (flush_close_iff (fun _ => 0) (show iodevIsOpen (queued [97, 10]) by decide)
      ⟨{5}, 0, 2, []⟩).mpr (by decide) shortWrites ?_
    simp [shortWrites, DeviceCall.Drains]

end Hdmi2usbd
