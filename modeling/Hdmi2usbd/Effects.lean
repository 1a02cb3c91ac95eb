import Hdmi2usbd.Handlers

/-!
# Effects — what the functions of a device change

Opening, closing and registering a device change its descriptor, session and state, and
nothing else of its record (`SetUp`). A handler does one of five things: nothing, store
what was read, send what was queued, close the device with its buffers flushed, or close it
as it is (`iodevHandler_cases`). The life of a device is a run of `DeviceCall`s.
-/

namespace Hdmi2usbd

/-! ## Set-up -/

/-- Two records that differ in descriptor, session and state only. -/
def SameBody (dev dev' : Iodev) : Prop :=
  dev' = { dev with fd := dev'.fd, session := dev'.session, state := dev'.state }

theorem SameBody.refl (dev : Iodev) : SameBody dev dev := rfl

theorem SameBody.trans {dev dev' dev'' : Iodev} (h : SameBody dev dev') (h' : SameBody dev' dev'') :
    SameBody dev dev'' := by
  unfold SameBody at h h' ⊢
  rw [h', h]

namespace SameBody

variable {dev dev' : Iodev} (h : SameBody dev dev')

include h

theorem driver : dev'.driver = dev.driver := by
  unfold SameBody at h
  rw [h]

theorem listener : dev'.listener = dev.listener := by
  unfold SameBody at h
  rw [h]

theorem rbuf : dev'.rbuf = dev.rbuf := by
  unfold SameBody at h
  rw [h]

theorem tbuf : dev'.tbuf = dev.tbuf := by
  unfold SameBody at h
  rw [h]

end SameBody

/-- Events of opening, closing and registering. -/
def Ev.IsSetup : Ev → Prop
  | .opened .. | .closed .. | .registered .. => True
  | _ => False

/-- The device keeps its body, and nothing but set-up is logged. -/
def SetUp (s s' : Iodev × World) : Prop := SameBody s.1 s'.1 ∧ Adds Ev.IsSetup s.2.log s'.2.log

theorem SetUp.refl (s : Iodev × World) : SetUp s s := ⟨SameBody.refl _, Adds.refl _⟩

theorem SetUp.trans {s s' s'' : Iodev × World} (h : SetUp s s') (h' : SetUp s' s'') : SetUp s s'' :=
  ⟨h.1.trans h'.1, h.2.trans h'.2⟩

variable (clock : Nat → UTime)

theorem iodevClose_setUp (dev : Iodev) (flags : Nat) (w : World) :
    SetUp (dev, w) (iodevClose dev flags w) := by
  have hrelease : ∀ state, SetUp (dev, w) (release { dev with state := state } w) :=
    fun state => ⟨rfl, Adds.single trivial _⟩
  have hclose : SetUp (dev, w) (closeDevice dev flags w) := by
    unfold closeDevice
    cases dev.state with
    | iodevNone | iodevInactive | iodevClosed => exact SetUp.refl _
    | iodevPending => exact ⟨rfl, Adds.single trivial _⟩
    | _ =>
      dsimp only
      split
      · exact ⟨rfl, Adds.refl _⟩
      · exact hrelease _
  unfold iodevClose
  cases dev.driver with
  | serial | listen => exact hclose
  | accepted =>
    have htcp : SetUp (dev, w) (tcpClose dev flags w) := hclose
    unfold tcpCloseAccept
    generalize tcpClose dev flags w = s at htcp
    dsimp only
    split
    · exact htcp.trans ⟨rfl, Adds.refl _⟩
    · exact htcp

theorem closeIfOpen_setUp (dev : Iodev) (w : World) : SetUp (dev, w) (closeIfOpen dev w) := by
  unfold closeIfOpen
  split
  · exact iodevClose_setUp dev ioflagNone w
  · exact SetUp.refl _

/-- A failed open makes the device inactive, a new descriptor begins a session. -/
theorem openFd_setUp (driver : Driver) (fd? : Option Nat) (dev : Iodev) (w : World) (session : Nat)
    (state : DevState) :
    SetUp (dev, w) ({ dev with fd := (w.openFd driver fd?).1, session := session, state := state },
      (w.openFd driver fd?).2) := by
  refine ⟨rfl, ?_⟩
  rcases w.openFd_cases driver fd? with h | ⟨fd, -, -, h⟩
  · rw [h]
    exact Adds.refl _
  · rw [h]
    exact Adds.single trivial _

theorem serialOpen_setUp (answer : OpenAnswer) (dev : Iodev) (w : World) :
    SetUp (dev, w) (serialOpen answer dev w) := by
  refine (closeIfOpen_setUp dev w).trans ?_
  unfold serialOpen
  generalize closeIfOpen dev w = s
  dsimp only
  have hopen := openFd_setUp .serial answer.fd s.1 s.2
  split
  · exact hopen s.1.session .iodevInactive
  · split
    · exact hopen _ .iodevConnected
    · exact (hopen _ .iodevOpen).trans (iodevClose_setUp _ _ _)

theorem tcpOpenListen_setUp (answer : OpenAnswer) (dev : Iodev) (w : World) :
    SetUp (dev, w) (tcpOpenListen answer dev w) := by
  refine (closeIfOpen_setUp dev w).trans ?_
  unfold tcpOpenListen
  generalize closeIfOpen dev w = s
  dsimp only
  have hopen := openFd_setUp .listen answer.fd s.1 s.2
  split
  · split
    · exact hopen s.1.session .iodevInactive
    · have hclosed := (hopen (s.2.openFd .listen answer.fd).2.opens .iodevOpen).trans
        (iodevClose_setUp _ ioflagInactive _)
      split
      · exact hclosed
      split
      · exact hclosed
      · exact hopen _ .iodevConnected
  · exact SetUp.refl _

theorem iodevOpenDevice_setUp (answer : OpenAnswer) (dev : Iodev) (w : World) :
    SetUp (dev, w) (iodevOpenDevice answer dev w) := by
  unfold iodevOpenDevice
  cases dev.driver with
  | serial => exact serialOpen_setUp answer dev w
  | listen => exact tcpOpenListen_setUp answer dev w
  | accepted => exact closeIfOpen_setUp dev w

/-! ## Before select -/

theorem fdSet_setUp (event : IoEvent) (dev : Iodev) (s : FdSets × World) :
    SetUp (dev, s.2) (dev, (fdSet event dev s).2) := ⟨rfl, Adds.single trivial _⟩

theorem fdSet_if_setUp (b : Prop) [Decidable b] (event : IoEvent) (dev : Iodev)
    (s : FdSets × World) : SetUp (dev, s.2) (dev, (if b then fdSet event dev s else s).2) := by
  split
  · exact fdSet_setUp event dev s
  · exact SetUp.refl _

theorem iodevSendok_setUp (dev : Iodev) (w : World) :
    SetUp (dev, w) (dev, (iodevSendok clock dev w).2) := by
  refine ⟨rfl, ?_⟩
  unfold iodevSendok
  split
  · rw [World.expired_log]
    exact Adds.refl _
  · exact Adds.refl _

/-- The serial device and the connections share `iodev_set_masks`. -/
theorem setMasks_generic {dev : Iodev} (hd : dev.driver ≠ .listen) (answer : OpenAnswer)
    (sets : FdSets) (w : World) :
    setMasks clock answer dev sets w = iodevSetMasks clock answer dev sets w := by
  unfold setMasks
  split
  · next hlisten => exact absurd hlisten hd
  · rfl

theorem setMasks_setUp (answer : OpenAnswer) (dev : Iodev) (sets : FdSets) (w : World) :
    SetUp (dev, w) ((setMasks clock answer dev sets w).dev,
      (setMasks clock answer dev sets w).world) := by
  have hopen := iodevOpenDevice_setUp answer dev w
  unfold setMasks
  cases dev.driver with
  | serial | accepted =>
    dsimp only
    unfold iodevSetMasks
    generalize clearMasks dev sets = sets'
    cases dev.state with
    | iodevInactive => exact SetUp.refl _
    | iodevNone | iodevClosed => exact hopen
    | iodevPending => exact fdSet_setUp .read dev (sets', w)
    | iodevClosing =>
      dsimp only
      split
      · have hsend := iodevSendok_setUp clock dev w
        split
        · exact (hsend.trans (fdSet_setUp .write dev (sets', _))).trans (fdSet_setUp .except dev _)
        · exact hsend
      · exact iodevClose_setUp dev ioflagNone w
    | iodevOpen | iodevConnected | iodevActive =>
      exact ((fdSet_if_setUp _ .read dev (sets', w)).trans
        (fdSet_if_setUp _ .write dev _)).trans (fdSet_setUp .except dev _)
  | listen =>
    dsimp only
    unfold tcpSetMasksListen
    generalize clearMasks dev sets = sets'
    cases dev.state with
    | iodevInactive | iodevClosing => exact SetUp.refl _
    | iodevNone | iodevClosed => exact hopen
    | iodevPending | iodevOpen | iodevConnected | iodevActive =>
      exact (fdSet_setUp .read dev (sets', w)).trans (fdSet_setUp .except dev _)

/-- A device that `set_masks` opens. -/
def ToBeOpened (dev : Iodev) : Prop := dev.state = .iodevNone ∨ dev.state = .iodevClosed

instance (dev : Iodev) : Decidable (ToBeOpened dev) := inferInstanceAs (Decidable (_ ∨ _))

theorem ToBeOpened.not_isOpen {dev : Iodev} (h : ToBeOpened dev) : ¬ iodevIsOpen dev := by
  rcases h with h | h <;> simp [iodevIsOpen, h, DevState.toNat]

theorem setMasks_opens {dev : Iodev} (hd : dev.driver = .serial) (h : ToBeOpened dev)
    (answer : OpenAnswer) (sets : FdSets) (w : World) :
    (setMasks clock answer dev sets w).dev = (serialOpen answer dev w).1 := by
  rcases h with h | h <;> simp [setMasks, iodevSetMasks, hd, h, iodevOpenDevice]

/-! ## After select -/

/-- A write that fails: it is made, and the system has an error for it. -/
def writeFails (clock : Nat → UTime) (answer : Option Nat) (dev : Iodev) (w : World) : Prop :=
  dev.tbuf.used ≠ 0 ∧ (dev.driver = .serial → (w.expired clock dev.pacer).1 = true) ∧ answer = none

/-- The device and the world after `n` queued bytes have been written: they leave the buffer,
and the pacer of a serial device starts again. -/
structure Sent (dev : Iodev) (n : Nat) (w : World) (r : Iodev × World) : Prop where
  body : ∃ pacer, r.1 = { dev with tbuf := (dev.tbuf.get false n).2.2, pacer := pacer }
  log : ∃ tick, r.2.log = w.log ++ [.sent dev.session (dev.tbuf.contents.take n) tick]
  fds : r.2.fds = w.fds
  opens : r.2.opens = w.opens

theorem iodevWriteHandler_cases (answer : Option Nat) (dev : Iodev) (w : World) :
    iodevWriteHandler answer dev w = (dev, w) ∨
    (∃ n, answer.isSome ∧ Sent dev n w (iodevWriteHandler answer dev w)) ∨
    (dev.fd ≠ -1 ∧ dev.tbuf.used ≠ 0 ∧ answer = none ∧ iodevWriteHandler answer dev w =
      iodevClose (flushBuffers dev) DevState.iodevNone.toNat w) := by
  unfold iodevWriteHandler
  split
  · exact .inl rfl
  · next hfd =>
    dsimp only
    split
    · exact .inl rfl
    · next hused =>
      cases answer with
      | none => exact .inr (.inr ⟨hfd, hused, rfl, rfl⟩)
      | some rc =>
        refine .inr (.inl ⟨min rc dev.tbuf.used, rfl, ⟨dev.pacer, rfl⟩, ⟨w.tick, ?_⟩, rfl, rfl⟩)
        simp [advance]

/-- What the serial device does: nothing, but perhaps a reading of the clock; or, when the pacer
lets it, at most one byte is written and the pacer starts again, or the write fails. -/
theorem serialWriteHandler_cases (answer : Option Nat) (dev : Iodev) (w : World) :
    serialWriteHandler clock answer dev w = (dev, w) ∨
    serialWriteHandler clock answer dev w = (dev, (w.expired clock dev.pacer).2) ∨
    (∃ rc, answer = some rc ∧ (w.expired clock dev.pacer).1 = true ∧
      serialWriteHandler clock answer dev w =
        ({ dev with
            tbuf := (dev.tbuf.get false (min rc 1)).2.2
            pacer := timerReset (clock (w.expired clock dev.pacer).2.tick) characterPacing },
          { (w.expired clock dev.pacer).2 with
            tick := (w.expired clock dev.pacer).2.tick + 1
            log := w.log ++ [.sent dev.session (dev.tbuf.contents.take (min rc 1))
              (w.expired clock dev.pacer).2.tick] })) ∨
    (dev.fd ≠ -1 ∧ dev.tbuf.used ≠ 0 ∧ (w.expired clock dev.pacer).1 = true ∧ answer = none ∧
      serialWriteHandler clock answer dev w =
        iodevClose dev DevState.iodevNone.toNat (w.expired clock dev.pacer).2) := by
  unfold serialWriteHandler
  split
  · exact .inl rfl
  · next hfd =>
    split
    · exact .inl rfl
    · next hused =>
      dsimp only
      split
      · exact .inr (.inl rfl)
      · next hexp =>
        rw [not_not] at hexp
        cases answer with
        | none => exact .inr (.inr (.inr ⟨hfd, hused, hexp, rfl, rfl⟩))
        | some rc =>
          refine .inr (.inr (.inl ⟨rc, rfl, hexp, ?_⟩))
          simp [advance, World.reset, World.now, World.record]

theorem serialWriteHandler_effect (answer : Option Nat) (dev : Iodev) (w : World) :
    ((serialWriteHandler clock answer dev w).1 = dev ∧
      (serialWriteHandler clock answer dev w).2.log = w.log ∧
      (serialWriteHandler clock answer dev w).2.fds = w.fds ∧
      (serialWriteHandler clock answer dev w).2.opens = w.opens) ∨
    (∃ n, answer.isSome ∧ Sent dev n w (serialWriteHandler clock answer dev w)) ∨
    (dev.fd ≠ -1 ∧ dev.tbuf.used ≠ 0 ∧ (w.expired clock dev.pacer).1 = true ∧ answer = none ∧
      serialWriteHandler clock answer dev w =
        iodevClose dev DevState.iodevNone.toNat (w.expired clock dev.pacer).2) := by
  rcases serialWriteHandler_cases clock answer dev w with h | h | ⟨rc, rfl, -, h⟩ | h
  · exact .inl (by simp [h])
  · exact .inl (by simp [h])
  · refine .inr (.inl ⟨min rc 1, rfl, ?_⟩)
    rw [h]
    exact ⟨⟨_, rfl⟩, ⟨_, rfl⟩, World.expired_fds _ _ _, World.expired_opens _ _ _⟩
  · exact .inr (.inr h)

/-- A close for an I/O failure: without the flush flag, in a world that has at most read the
clock. -/
def FailClosed (dev : Iodev) (w : World) (r : Iodev × World) : Prop :=
  ∃ flags w', flags &&& ioflagFlush = 0 ∧ w'.log = w.log ∧ w'.fds = w.fds ∧ w'.opens = w.opens ∧
    r = iodevClose dev flags w'

namespace FailClosed

variable {dev : Iodev} {w : World} {r : Iodev × World}

theorem setUp (h : FailClosed dev w r) : SetUp (dev, w) r := by
  rcases h with ⟨flags, w', -, hlog, -, -, rfl⟩
  rcases iodevClose_setUp dev flags w' with ⟨hbody, hadds⟩
  rw [hlog] at hadds
  exact ⟨hbody, hadds⟩

/-- The device holds its descriptor no longer. -/
theorem not_holds (h : FailClosed dev w r) : ¬ r.1.state.holds := by
  rcases h with ⟨flags, w', hflags, -, -, -, rfl⟩
  by_cases hholds : dev.state.holds
  · rw [iodevClose_holds hholds hflags]
    exact dev.released_not_holds
  · rw [iodevClose_not_holds hholds]
    dsimp only
    split
    · simp [DevState.holds, DevState.toNat]
    · exact hholds

end FailClosed

/-- What a handler does. -/
theorem iodevHandler_cases (event : IoEvent) (answer : IoAnswer) (dev : Iodev) (w : World) :
    ((iodevHandler clock event answer dev w).1 = dev ∧
      (iodevHandler clock event answer dev w).2.log = w.log ∧
      (iodevHandler clock event answer dev w).2.fds = w.fds ∧
      (iodevHandler clock event answer dev w).2.opens = w.opens) ∨
    (∃ bytes, event = .read ∧ bytes.length ≤ dev.rbuf.available ∧ iodevIsOpen dev ∧
      iodevHandler clock event answer dev w = ({ dev with rbuf := (dev.rbuf.put bytes).2 },
        w.record (.received dev.session bytes))) ∨
    (∃ n, event = .write ∧ answer.write.isSome ∧ Sent dev n w (iodevHandler clock event answer dev w)) ∨
    (dev.fd ≠ -1 ∧ ((event = .read ∧ readFails answer.read dev) ∨
        (event = .write ∧ dev.driver ≠ .serial ∧ writeFails clock answer.write dev w)) ∧
      FailClosed (flushBuffers dev) w (iodevHandler clock event answer dev w)) ∨
    ((event = .except ∨ (event = .write ∧ dev.driver = .serial ∧ dev.fd ≠ -1 ∧
        writeFails clock answer.write dev w)) ∧
      FailClosed dev w (iodevHandler clock event answer dev w)) := by
  cases event with
  | read =>
    rcases iodevReadHandler_cases answer.read dev w with h | ⟨hfd, hfails, h⟩ |
      ⟨bytes, -, hroom, hopen, h⟩
    · exact .inl (by simp [iodevHandler, h])
    · exact .inr (.inr (.inr (.inl ⟨hfd, .inl ⟨rfl, hfails⟩, _, w, rfl, rfl, rfl, rfl, h⟩)))
    · exact .inr (.inl ⟨bytes, rfl, hroom, hopen, h⟩)
  | write =>
    have hgeneric : dev.driver ≠ .serial →
        iodevHandler clock .write answer dev w = iodevWriteHandler answer.write dev w := by
      intro hd
      unfold iodevHandler
      cases h : dev.driver with
      | serial => exact absurd h hd
      | listen | accepted => rfl
    by_cases hd : dev.driver = .serial
    · have hserial : iodevHandler clock .write answer dev w =
          serialWriteHandler clock answer.write dev w := by
        simp only [iodevHandler, hd]
      rw [hserial]
      rcases serialWriteHandler_effect clock answer.write dev w with h | ⟨n, hans, h⟩ |
        ⟨hfd, hused, hexp, hnone, h⟩
      · exact .inl h
      · exact .inr (.inr (.inl ⟨n, rfl, hans, h⟩))
      · exact .inr (.inr (.inr (.inr ⟨.inr ⟨rfl, hd, hfd, hused, fun _ => hexp, hnone⟩, _, _, rfl,
          World.expired_log _ _ _, World.expired_fds _ _ _, World.expired_opens _ _ _, h⟩)))
    · rw [hgeneric hd]
      rcases iodevWriteHandler_cases answer.write dev w with h | ⟨n, hans, h⟩ | ⟨hfd, hused, hnone, h⟩
      · exact .inl (by simp [h])
      · exact .inr (.inr (.inl ⟨n, rfl, hans, h⟩))
      · exact .inr (.inr (.inr (.inl ⟨hfd, .inr ⟨rfl, hd, hused, fun hs => absurd hs hd, hnone⟩, _, w,
          rfl, rfl, rfl, rfl, h⟩)))
  | except => exact .inr (.inr (.inr (.inr ⟨.inl rfl, _, w, rfl, rfl, rfl, rfl, rfl⟩)))

/-! ## A device by itself -/

/-- The calls on a device: `buffer_put` on its send buffer, a turn of `selector_ioset`, a handler;
or other devices have run, and the world is a different one. -/
inductive DeviceCall
  | put (bytes : List UInt8)
  | setMasks (answer : OpenAnswer) (sets : FdSets)
  | handler (event : IoEvent) (answer : IoAnswer)
  | other (w : World)

/-- What is left of the device and the world. The read handler of a listener does nothing to the
listener. -/
def DeviceCall.apply (s : Iodev × World) : DeviceCall → Iodev × World
  | .put bytes => ({ s.1 with tbuf := (s.1.tbuf.put bytes).2 }, s.2)
  | .setMasks answer sets =>
    let m := Hdmi2usbd.setMasks clock answer s.1 sets s.2
    (m.dev, m.world)
  | .handler event answer =>
    if event = .read ∧ s.1.driver = .listen then s else iodevHandler clock event answer s.1 s.2
  | .other w => (s.1, w)

theorem DeviceCall.apply_write (s : Iodev × World) (answer : IoAnswer) :
    (DeviceCall.handler .write answer).apply clock s = iodevHandler clock .write answer s.1 s.2 := by
  simp [DeviceCall.apply]

end Hdmi2usbd
