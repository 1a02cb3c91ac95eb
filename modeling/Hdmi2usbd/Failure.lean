import Hdmi2usbd.Steady

/-!
# Failure — what a failed session leaves in the buffers

When an I/O failure closes a device, the handlers of `iodev.c` flush both of its buffers, but
`serial_write_handler` and `iodev_except_handler` do not (`failure_flushes_iff`). What they leave is
there when the device is opened again.

An `Account` of the serial device says what is in its buffers, from what has been queued and moved
in its session. A round of the select loop in which no failure leaves anything behind keeps it
(`selectorRound_kept`).
-/

namespace Hdmi2usbd

/-! ## The failures -/

/-- The handler of the event meets an I/O failure: an error or the end of the file, a failed write,
an exception. -/
def IoFails (clock : Nat → UTime) (event : IoEvent) (answer : IoAnswer) (dev : Iodev) (w : World) :
    Prop :=
  dev.fd ≠ -1 ∧ match event with
    | .read => dev.driver ≠ .listen ∧ readFails answer.read dev
    | .write => writeFails clock answer.write dev w
    | .except => True

instance (clock : Nat → UTime) (event : IoEvent) (answer : IoAnswer) (dev : Iodev) (w : World) :
    Decidable (IoFails clock event answer dev w) := by
  unfold IoFails writeFails
  cases event <;> infer_instance

/-- The failure is one that the handler does not flush for, and there is something to flush. -/
def Unflushed (event : IoEvent) (dev : Iodev) : Prop :=
  (event = .except ∨ (event = .write ∧ dev.driver = .serial)) ∧
    (dev.rbuf.contents ≠ [] ∨ dev.tbuf.contents ≠ [])

instance (event : IoEvent) (dev : Iodev) : Decidable (Unflushed event dev) :=
  inferInstanceAs (Decidable (_ ∧ _))

/-- Nothing is buffered. -/
def Iodev.Clean (dev : Iodev) : Prop := dev.rbuf.contents = [] ∧ dev.tbuf.contents = []

instance (dev : Iodev) : Decidable dev.Clean := inferInstanceAs (Decidable (_ ∧ _))

variable {clock : Nat → UTime} {log log' : List Ev}

/-- A close leaves the buffers as they are. -/
theorem iodevClose_clean (dev : Iodev) (flags : Nat) (w : World) :
    (iodevClose dev flags w).1.Clean ↔ dev.Clean := by
  have hbody := (iodevClose_setUp dev flags w).1
  unfold Iodev.Clean
  rw [hbody.rbuf, hbody.tbuf]

theorem flushBuffers_clean (dev : Iodev) : (flushBuffers dev).Clean :=
  ⟨RingBuffer.flush_contents _, RingBuffer.flush_contents _⟩

/-- After an I/O failure both buffers are empty, unless it is a failed write of the serial device or
an exception and there was something in them. -/
theorem failure_flushes_iff {event : IoEvent} {answer : IoAnswer} {dev : Iodev} {w : World}
    (h : IoFails clock event answer dev w) :
    (iodevHandler clock event answer dev w).1.Clean ↔ ¬ Unflushed event dev := by
  rcases h with ⟨hfd, h⟩
  cases event with
  | read =>
    refine iff_of_true ?_ (by simp [Unflushed])
    show (iodevReadHandler answer.read dev w).1.Clean
    have hfails := h.2
    unfold iodevReadHandler
    rw [if_neg hfd]
    cases hread : iodevRead answer.read dev dev.rbuf.available with
    | none => exact (iodevClose_clean _ _ _).mpr (flushBuffers_clean dev)
    | some bytes =>
      rcases bytes with - | ⟨b, bs⟩
      · exact (iodevClose_clean _ _ _).mpr (flushBuffers_clean dev)
      · simp [readFails, hread] at hfails
  | write =>
    rcases h with ⟨hused, hexpired, hanswer⟩
    by_cases hd : dev.driver = .serial
    · -- what could not be written is still there
      have hleft : dev.tbuf.contents ≠ [] := by
        rw [← List.length_pos_iff, RingBuffer.length_contents]
        exact Nat.pos_of_ne_zero hused
      refine iff_of_false ?_ (not_not.mpr ⟨.inr ⟨rfl, hd⟩, .inr hleft⟩)
      have hclosed : iodevHandler clock .write answer dev w =
          iodevClose dev DevState.iodevNone.toNat (w.expired clock dev.pacer).2 := by
        simp [iodevHandler, hd, serialWriteHandler, hfd, hused, hexpired hd, hanswer]
      rw [hclosed, iodevClose_clean]
      exact fun hclean => hleft hclean.2
    · refine iff_of_true ?_ (by simp [Unflushed, hd])
      have hclosed : iodevHandler clock .write answer dev w =
          iodevClose (flushBuffers dev) DevState.iodevNone.toNat w := by
        unfold iodevHandler
        cases hdriver : dev.driver with
        | serial => exact absurd hdriver hd
        | listen | accepted => simp [iodevWriteHandler, hfd, hused, hanswer]
      rw [hclosed]
      exact (iodevClose_clean _ _ _).mpr (flushBuffers_clean dev)
  | except =>
    show (iodevClose dev DevState.iodevNone.toNat w).1.Clean ↔ _
    rw [iodevClose_clean]
    simp [Unflushed, Iodev.Clean]

/-! ## The bytes of a session -/

/-- The bytes that process cycles have moved out of the serial device. -/
def movedOf (log : List Ev) : List UInt8 :=
  log.flatMap fun
    | .moved bytes => bytes
    | _ => []

@[simp] theorem movedOf_append (log log' : List Ev) :
    movedOf (log ++ log') = movedOf log ++ movedOf log' := by
  simp [movedOf]

/-- Nothing is read or written but in the session. -/
def Ev.Within (session : Nat) : Ev → Prop
  | .received s _ => s = session
  | .sent s _ _ => s = session
  | _ => True

/-- Two logs with the same bytes of a session. -/
def SameBytes (session : Nat) (log log' : List Ev) : Prop :=
  sentOf session log' = sentOf session log ∧ receivedOf session log' = receivedOf session log

/-- Another session has read and written nothing. -/
theorem Adds.sameBytes {session other : Nat} (h : Adds (Ev.Within other) log log')
    (hne : session ≠ other) : SameBytes session log log' := by
  rcases h with ⟨evs, rfl, hevs⟩
  have hsent : sentOf session evs = [] := by
    refine List.flatMap_eq_nil_iff.mpr ?_
    intro ev hev
    have hwithin := hevs ev hev
    cases ev with
    | sent s bytes tick =>
      have hother : s = other := hwithin
      exact if_neg fun heq => hne (heq.symm.trans hother)
    | _ => rfl
  have hreceived : receivedOf session evs = [] := by
    refine List.flatMap_eq_nil_iff.mpr ?_
    intro ev hev
    have hwithin := hevs ev hev
    cases ev with
    | received s bytes =>
      have hother : s = other := hwithin
      exact if_neg fun heq => hne (heq.symm.trans hother)
    | _ => rfl
  exact ⟨by rw [sentOf_append, hsent, List.append_nil],
    by rw [receivedOf_append, hreceived, List.append_nil]⟩

theorem Ev.within_of_not_transfer {ev : Ev} (h : ¬ ev.IsTransfer) (session : Nat) :
    ev.Within session := by
  cases ev with
  | received s bytes | sent s bytes tick => exact absurd trivial h
  | _ => trivial

theorem Ev.IsSetup.not_transfer {ev : Ev} (h : ev.IsSetup) : ¬ ev.IsTransfer := by
  cases ev with
  | received s bytes | sent s bytes tick => exact h.elim
  | _ => exact id

theorem Ev.IsCycle.not_transfer {ev : Ev} (h : ev.IsCycle) : ¬ ev.IsTransfer := by
  cases ev with
  | received s bytes | sent s bytes tick => exact h.elim
  | _ => exact id

/-- Nothing is read or written. -/
theorem Adds.silent (h : Adds (fun ev => ¬ ev.IsTransfer) log log') (session : Nat) :
    SameBytes session log log' :=
  (h.mono fun _ hev => Ev.within_of_not_transfer hev (session + 1)).sameBytes
    (Nat.ne_of_lt (Nat.lt_succ_self session))

/-! ## The account of the serial device -/

/-- The account of a device, when `queued` has been put into its send buffer and `moved` has been
taken out of its receive buffer in its session. After the session both buffers are empty. -/
structure Account (queued moved : List UInt8) (dev : Iodev) (log : List Ev) : Prop where
  during : dev.state.holds → dev.session ≠ 0 ∧
    sentOf dev.session log ++ dev.tbuf.contents = queued ∧
    moved ++ dev.rbuf.contents = receivedOf dev.session log
  after : ¬ dev.state.holds → dev.Clean ∧ (dev.session ≠ 0 →
    sentOf dev.session log <+: queued ∧ moved <+: receivedOf dev.session log)

variable {queued moved : List UInt8} {dev : Iodev}

/-- What is sent and moved, in every state. -/
theorem Account.prefixes (h : Account queued moved dev log) (hsession : dev.session ≠ 0) :
    sentOf dev.session log <+: queued ∧ moved <+: receivedOf dev.session log := by
  by_cases hholds : dev.state.holds
  · rcases h.during hholds with ⟨-, hsent, hmoved⟩
    exact ⟨⟨_, hsent⟩, ⟨_, hmoved⟩⟩
  · exact (h.after hholds).2 hsession

/-- The log has the same bytes of the session. -/
theorem Account.of_log (h : Account queued moved dev log)
    (hsame : dev.session ≠ 0 → SameBytes dev.session log log') : Account queued moved dev log' := by
  constructor
  · intro hholds
    rcases h.during hholds with ⟨hne, hsent, hmoved⟩
    rw [(hsame hne).1, (hsame hne).2]
    exact ⟨hne, hsent, hmoved⟩
  · intro hholds
    refine ⟨(h.after hholds).1, fun hne => ?_⟩
    rw [(hsame hne).1, (hsame hne).2]
    exact (h.after hholds).2 hne

/-- The device is closed with empty buffers. -/
theorem Account.close (h : Account queued moved dev log) {dev' : Iodev}
    (hsession : dev'.session = dev.session) (hclosed : ¬ dev'.state.holds) (hclean : dev'.Clean)
    (hsame : SameBytes dev.session log log') : Account queued moved dev' log' := by
  refine ⟨fun hholds => absurd hholds hclosed, fun _ => ⟨hclean, fun hne => ?_⟩⟩
  rw [hsession] at hne ⊢
  rw [hsame.1, hsame.2]
  exact h.prefixes hne

/-- What `set_masks` does to the serial device: nothing, or it opens the closed device. -/
theorem setMasks_serial_cases (clock : Nat → UTime) (hd : dev.driver = .serial)
    (hsettled : dev.Settled) (answer : OpenAnswer) (sets : FdSets) (w : World) :
    (setMasks clock answer dev sets w).dev = dev ∨
    (¬ dev.state.holds ∧ (setMasks clock answer dev sets w).dev = (serialOpen answer dev w).1) := by
  by_cases hopen : ToBeOpened dev
  · refine .inr ⟨?_, setMasks_opens clock hd hopen answer sets w⟩
    exact fun hholds => hopen.not_isOpen (hsettled hholds)
  · left
    rw [setMasks_generic clock (by simp [hd])]
    unfold iodevSetMasks
    cases hs : dev.state with
    | iodevNone => exact absurd (.inl hs) hopen
    | iodevClosed => exact absurd (.inr hs) hopen
    | iodevClosing =>
      -- a settled device is not closing
      have hopen := hsettled (by rw [hs]; rfl)
      rw [iodevIsOpen, hs] at hopen
      cases hopen
    | iodevInactive | iodevPending | iodevOpen | iodevConnected | iodevActive => rfl

/-- The account in a round: a session that begins in the round begins with nothing. -/
def RoundAccount (base : Nat) (queued moved : List UInt8) (dev : Iodev) (log : List Ev) : Prop :=
  Account (if dev.session = base then queued else []) (if dev.session = base then moved else [])
    dev log

/-- Sessions that are not yet opened have read and written nothing. -/
def NoneAhead (w : World) : Prop :=
  ∀ session, w.opens < session → sentOf session w.log = [] ∧ receivedOf session w.log = []

variable {base : Nat} {w : World}

theorem RoundAccount.setMasks (h : RoundAccount base queued moved dev w.log)
    (hd : dev.driver = .serial) (hsettled : dev.Settled) (hbase : base ≤ w.opens)
    (hahead : NoneAhead w) (answer : OpenAnswer) (sets : FdSets) :
    RoundAccount base queued moved (Hdmi2usbd.setMasks clock answer dev sets w).dev
      (Hdmi2usbd.setMasks clock answer dev sets w).world.log := by
  have hsame : ∀ session,
      SameBytes session w.log (Hdmi2usbd.setMasks clock answer dev sets w).world.log :=
    ((setMasks_setUp clock answer dev sets w).2.mono fun _ hev => hev.not_transfer).silent
  generalize (Hdmi2usbd.setMasks clock answer dev sets w).world.log = log at hsame
  rcases setMasks_serial_cases clock hd hsettled answer sets w with hkept | ⟨hclosed, heq⟩
  · rw [hkept]
    exact h.of_log fun _ => hsame dev.session
  · rw [heq]
    have hclean := (h.after hclosed).1
    -- the session after the last one is new
    have hnew : ∀ fd state, RoundAccount base queued moved
        { dev with fd := fd, session := w.opens + 1, state := state } log := by
      intro fd state
      rcases hahead (w.opens + 1) (Nat.lt_succ_self _) with ⟨hsent, hreceived⟩
      have hne : w.opens + 1 ≠ base := by omega
      unfold RoundAccount
      rw [if_neg hne, if_neg hne]
      refine ⟨fun _ => ⟨Nat.succ_ne_zero _, ?_, ?_⟩, fun _ => ⟨hclean, fun _ => ⟨?_, ?_⟩⟩⟩
      · show sentOf (w.opens + 1) log ++ dev.tbuf.contents = []
        rw [(hsame _).1, hsent, hclean.2]
        rfl
      · show [] ++ dev.rbuf.contents = receivedOf (w.opens + 1) log
        rw [(hsame _).2, hreceived, hclean.1]
        rfl
      · show sentOf (w.opens + 1) log <+: []
        rw [(hsame _).1, hsent]
      · exact List.nil_prefix
    rcases serialOpen_cases hd (fun hopen => hclosed (holds_of_isOpen hopen)) answer w with
      hrefused | hundone | ⟨fd, -, -, -, -, hopened⟩
    · rw [hrefused]
      exact Account.close h rfl (by simp [DevState.holds, DevState.toNat]) hclean (hsame _)
    · rw [hundone]
      exact hnew _ _
    · rw [hopened]
      exact hnew _ _

/-- A handler of the serial device that does not leave anything behind. -/
theorem Account.handler (h : Account queued moved dev w.log) (hfd : dev.fd ≠ -1)
    (hholds : dev.state.holds) (event : IoEvent) (answer : IoAnswer)
    (hflushed : IoFails clock event answer dev w → ¬ Unflushed event dev) :
    Account queued moved (iodevHandler clock event answer dev w).1
      (iodevHandler clock event answer dev w).2.log := by
  rcases h.during hholds with ⟨hne, hsent, hmoved⟩
  have hclose : ∀ {dev' : Iodev}, dev'.Clean →
      FailClosed dev' w (iodevHandler clock event answer dev w) →
      Account queued moved (iodevHandler clock event answer dev w).1
        (iodevHandler clock event answer dev w).2.log := by
    intro dev' hclean hclosed
    rcases hclosed.setUp with ⟨hbody, hadds⟩
    refine h.close (iodevHandler_handled clock event answer dev w).1 hclosed.not_holds ?_
      ((hadds.mono fun _ hev => hev.not_transfer).silent dev.session)
    rw [Iodev.Clean, hbody.rbuf, hbody.tbuf]
    exact hclean
  rcases iodevHandler_cases clock event answer dev w with ⟨hdev, hlog, -⟩ |
    ⟨bytes, rfl, hroom, -, heq⟩ | ⟨n, -, -, hsend⟩ | ⟨-, -, hclosed⟩ | ⟨hfails, hclosed⟩
  · rw [hdev, hlog]
    exact h
  · rw [heq]
    refine ⟨fun _ => ⟨hne, ?_, ?_⟩, fun hno => absurd hholds hno⟩
    · rw [← hsent]
      simp [sentOf]
    · -- all that was read has room
      show moved ++ (dev.rbuf.put bytes).2.contents = receivedOf dev.session (w.log ++ [_])
      rw [RingBuffer.put_contents, List.take_of_length_le hroom, ← List.append_assoc, hmoved]
      simp [receivedOf]
  · rcases hsend.body with ⟨pacer, hbody⟩
    rcases hsend.log with ⟨tick, hlog⟩
    rw [hbody, hlog]
    refine ⟨fun _ => ⟨hne, ?_, ?_⟩, fun hno => absurd hholds hno⟩
    · -- the bytes that are sent leave the buffer
      show sentOf dev.session (w.log ++ [_]) ++ (dev.tbuf.get false n).2.2.contents = queued
      rw [RingBuffer.get_contents, sentOf_append, List.append_assoc, ← hsent]
      simp [sentOf]
    · show moved ++ dev.rbuf.contents = receivedOf dev.session (w.log ++ [_])
      rw [hmoved]
      simp [receivedOf]
  · exact hclose (flushBuffers_clean dev) hclosed
  · have hio : IoFails clock event answer dev w := by
      refine ⟨hfd, ?_⟩
      rcases hfails with rfl | ⟨rfl, -, -, hwrite⟩
      · trivial
      · exact hwrite
    have hunflushed := hflushed hio
    refine hclose ?_ hclosed
    -- this failure is not flushed, so there was nothing to flush
    by_contra hdirty
    refine hunflushed ⟨?_, ?_⟩
    · rcases hfails with rfl | ⟨rfl, hserial, -⟩
      · exact .inl rfl
      · exact .inr ⟨rfl, hserial⟩
    · exact not_and_or.mp hdirty

/-! ## A round -/

/-- Only the reading of the clock decides whether the handler fails. -/
theorem IoFails.of_tick {event : IoEvent} {answer : IoAnswer} {w' : World}
    (h : IoFails clock event answer dev w') (htick : w'.tick = w.tick) :
    IoFails clock event answer dev w := by
  unfold IoFails writeFails at h ⊢
  cases event with
  | read | except => exact h
  | write => rwa [World.expired_tick htick] at h

/-- A handler reads and writes in the session of its device. -/
theorem iodevHandler_within (clock : Nat → UTime) (event : IoEvent) (answer : IoAnswer) (dev : Iodev)
    (w : World) : Adds (Ev.Within dev.session) w.log (iodevHandler clock event answer dev w).2.log := by
  have hclose : ∀ {dev' r}, FailClosed dev' w r → Adds (Ev.Within dev.session) w.log r.2.log :=
    fun hclosed => hclosed.setUp.2.mono fun _ hev => Ev.within_of_not_transfer hev.not_transfer _
  rcases iodevHandler_cases clock event answer dev w with ⟨-, hlog, -⟩ | ⟨bytes, -, -, -, heq⟩ |
    ⟨n, -, -, hsend⟩ | ⟨-, -, hclosed⟩ | ⟨-, hclosed⟩
  · rw [hlog]
    exact Adds.refl _
  · rw [heq]
    have hwithin : (Ev.received dev.session bytes).Within dev.session := rfl
    exact Adds.single hwithin _
  · rcases hsend.log with ⟨tick, hlog⟩
    rw [hlog]
    have hwithin : (Ev.sent dev.session (dev.tbuf.contents.take n) tick).Within dev.session := rfl
    exact Adds.single hwithin _
  · exact hclose hclosed
  · exact hclose hclosed

/-- The condition on the calls of the handlers: they leave nothing behind when the serial device
fails. -/
def FlushesSerial (clock : Nat → UTime) (event : IoEvent) (answer : IoAnswer) (dev : Iodev)
    (w : World) : Prop :=
  dev.driver = .serial → IoFails clock event answer dev w → ¬ Unflushed event dev

instance (clock : Nat → UTime) (event : IoEvent) (answer : IoAnswer) (dev : Iodev) (w : World) :
    Decidable (FlushesSerial clock event answer dev w) := inferInstanceAs (Decidable (_ → _ → _))

/-- The invariant of a round that began with the session `base` of the serial device. -/
structure RoundKept (base : Nat) (queued moved : List UInt8) (s : Selector × World) : Prop where
  seated : Seated (netOf s.1 s.2)
  steady : AllSteady 0 s.1
  ahead : NoneAhead s.2
  begun : base ≤ s.2.opens
  account : ∀ dev, s.1.toList[0]? = some dev → RoundAccount base queued moved dev s.2.log

/-- What is read and written in an old session. -/
theorem NoneAhead.adds (h : NoneAhead w) {w' : World} {session : Nat} (hsession : session ≤ w.opens)
    (hopens : w.opens ≤ w'.opens) (hadds : Adds (Ev.Within session) w.log w'.log) : NoneAhead w' := by
  intro other hlt
  have hsame : SameBytes other w.log w'.log := hadds.sameBytes (by omega)
  rw [hsame.1, hsame.2]
  exact h other (hopens.trans_lt hlt)

namespace RoundKept

variable {s s' : Selector × World}

/-- A call that is not made for the serial device. -/
theorem elsewhere (h : RoundKept base queued moved s) (hseated : Seated (netOf s'.1 s'.2))
    (hsteady : AllSteady 0 s'.1) (hslot : s'.1.toList[0]? = s.1.toList[0]?)
    (hopens : s.2.opens ≤ s'.2.opens) {session : Nat} (hsession : session ≤ s.2.opens)
    (hother : ∀ dev, s.1.toList[0]? = some dev → dev.session ≠ 0 → dev.session ≠ session)
    (hadds : Adds (Ev.Within session) s.2.log s'.2.log) : RoundKept base queued moved s' := by
  refine ⟨hseated, hsteady, h.ahead.adds hsession hopens hadds, h.begun.trans hopens, ?_⟩
  intro dev hdev
  rw [hslot] at hdev
  exact (h.account dev hdev).of_log fun hne => hadds.sameBytes (hother dev hdev hne)

/-- A call that is made for the serial device. -/
theorem here (h : RoundKept base queued moved s) {dev dev' : Iodev} {w' : World}
    (hget : s.1.toList[0]? = some dev) (hseated : Seated (netOf (s.1.store 0 dev') w'))
    (hsteady : AllSteady 0 (s.1.store 0 dev')) (hopens : s.2.opens ≤ w'.opens) {session : Nat}
    (hsession : session ≤ s.2.opens) (hadds : Adds (Ev.Within session) s.2.log w'.log)
    (haccount : RoundAccount base queued moved dev' w'.log) :
    RoundKept base queued moved (s.1.store 0 dev', w') := by
  refine ⟨hseated, hsteady, h.ahead.adds hsession hopens hadds, h.begun.trans hopens, ?_⟩
  intro x hx
  rw [Selector.store_toList, List.getElem?_set_self (List.getElem?_eq_some_iff.mp hget).1] at hx
  cases hx
  exact haccount

/-- `set_masks` is called for a device. -/
theorem masks (h : RoundKept base queued moved s) {index : Nat} {dev : Iodev}
    (hget : s.1.toList[index]? = some dev) (answer : OpenAnswer) (sets : FdSets)
    (hseated : Seated (netOf (s.1.store index (setMasks clock answer dev sets s.2).dev)
      (setMasks clock answer dev sets s.2).world))
    (hsteady : AllSteady 0 (s.1.store index (setMasks clock answer dev sets s.2).dev)) :
    RoundKept base queued moved (s.1.store index (setMasks clock answer dev sets s.2).dev,
      (setMasks clock answer dev sets s.2).world) := by
  have hadds := (setMasks_setUp clock answer dev sets s.2).2.mono
    fun _ hev => Ev.within_of_not_transfer hev.not_transfer 0
  rcases setMasks_masked (h.seated.devs index dev hget) clock answer sets with ⟨_, hmasked⟩
  by_cases hindex : index = 0
  · subst hindex
    refine h.here hget hseated hsteady hmasked.opens (Nat.zero_le _) hadds ?_
    exact (h.account dev hget).setMasks ((h.seated.devs 0 dev hget).serial.mp rfl)
      (h.steady dev (List.mem_of_getElem? hget)).1 h.begun h.ahead answer sets
  · refine h.elsewhere hseated hsteady ?_ hmasked.opens (Nat.zero_le _) (fun _ _ hne => hne) hadds
    rw [Selector.store_toList, List.getElem?_set_ne hindex]

/-- A handler is called for a device, in a world that differs in the log. -/
theorem handler (h : RoundKept base queued moved s) {index : Nat} {dev : Iodev}
    (hget : s.1.toList[index]? = some dev) (hfd : dev.fd ≠ -1) (event : IoEvent) (answer : IoAnswer)
    {w : World} (hnote : Adds (fun ev => ¬ ev.IsTransfer) s.2.log w.log)
    (htick : w.tick = s.2.tick) (hopens : w.opens = s.2.opens)
    (hflushes : FlushesSerial clock event answer dev s.2)
    (hseated : Seated (netOf (s.1.store index (iodevHandler clock event answer dev w).1)
      (iodevHandler clock event answer dev w).2))
    (hsteady : AllSteady 0 (s.1.store index (iodevHandler clock event answer dev w).1)) :
    RoundKept base queued moved (s.1.store index (iodevHandler clock event answer dev w).1,
      (iodevHandler clock event answer dev w).2) := by
  have hdev := h.seated.devs index dev hget
  have hadds := (hnote.mono fun _ hev => Ev.within_of_not_transfer hev dev.session).trans
    (iodevHandler_within clock event answer dev w)
  rcases iodevHandler_handled clock event answer dev w with ⟨hsession, -, hkept, -⟩
  have hkept := Nat.le_of_eq (hkept.trans hopens).symm
  by_cases hindex : index = 0
  · subst hindex
    refine h.here hget hseated hsteady hkept hdev.session hadds ?_
    unfold RoundAccount
    rw [hsession]
    exact ((h.account dev hget).of_log fun _ => hnote.silent dev.session).handler hfd
      (hdev.held.mp hfd) event answer
      fun hfails => hflushes (hdev.serial.mp rfl) (hfails.of_tick htick)
  · refine h.elsewhere hseated hsteady ?_ hkept hdev.session ?_ hadds
    · rw [Selector.store_toList, List.getElem?_set_ne hindex]
    · -- two devices have different sessions
      intro serial hserial hne heq
      exact hne (h.seated.distinct 0 index serial dev (fun h => hindex h.symm) hserial hget heq)

/-- A call that meets the condition. -/
theorem call (h : RoundKept base queued moved s) {call : Call}
    (hcall : call.Meets True (FlushesSerial clock) s) :
    RoundKept base queued moved (call.apply clock s) := by
  have hseated := netReaches_seated h.seated (call_reaches clock s hcall.isLoop)
  have hsteady := call_steady clock h.steady hcall.isLoop
  rcases loopCall_cases clock s hcall.isLoop h.seated.silent with
    ⟨hsel, hopens, hadds⟩ |
    ⟨hpos, ⟨new, hsel⟩, hopens, hadds⟩ | ⟨index, answer, sets, dev, rfl, hget, heq⟩ |
    ⟨index, ptr, sets, event, answer, dev, rfl, hget, hset, heq⟩
  · exact h.elsewhere hseated hsteady (by rw [hsel]) (Nat.le_of_eq hopens.symm) (Nat.zero_le _)
      (fun _ _ hne => hne) (hadds.mono fun _ hev => Ev.within_of_not_transfer hev 0)
  · exact h.elsewhere hseated hsteady (by rw [hsel, selectorPlace_first hpos]) (by omega)
      (Nat.zero_le _) (fun _ _ hne => hne)
      (hadds.mono fun _ hev => Ev.within_of_not_transfer hev 0)
  · rw [heq] at hseated hsteady ⊢
    exact h.masks hget answer sets hseated hsteady
  · have hnote : Adds (fun ev => ¬ ev.IsTransfer) s.2.log
        (DispatchState.call ⟨index, 0, s.1, s.2⟩ ptr event dev).log :=
      ⟨[.deref ptr s.1.devs.block, .deref ptr s.1.devs.block, .called event dev.session dev.fd],
        by simp [DispatchState.call, DispatchState.deref], by simp [Ev.IsTransfer]⟩
    rw [heq] at hseated hsteady ⊢
    exact h.handler hget (iodevIsSet_iff.mp hset).1 event answer hnote rfl rfl
      (hcall.2 dev (by rw [selectorGetDevice_eq, hget]) hset) hseated hsteady

end RoundKept

theorem selectorRound_kept (clock : Nat → UTime) {a : RoundAnswers} {sets : FdSets} {sel : Selector}
    (h : RoundKept base queued moved (sel, w))
    (hround : RoundAll (OnCalls (FlushesSerial clock)) clock a sets sel w) :
    RoundKept base queued moved
      ((selectorRound clock a sets sel w).2.2.1, (selectorRound clock a sets sel w).2.2.2) :=
  (selectorRound_meets clock hround (.inl trivial)).preserves (RoundKept base queued moved)
    (fun _ _ hs hcall => hs.call hcall) h

end Hdmi2usbd
