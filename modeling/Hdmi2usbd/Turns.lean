import Hdmi2usbd.Failure

/-!
# Turns — all that a turn of a process cycle does

`processStep_turn` says what a turn does to the buffers of a connection and of the serial device:
the part of the chunk that is copied, and either that there was nothing to hand on or which line
went, with what is left of it in the send buffer of the serial device.
-/

namespace Hdmi2usbd

variable (clock : Nat → UTime)

/-- Bytes are put behind the ones that wait to be sent. -/
theorem copySerialData_puts (copy : RingBuffer) (sBytes : Nat) (dev : Iodev) (w : World) :
    ∃ tbuf part copied, copySerialData copy sBytes dev w =
        ({ dev with tbuf := tbuf }, { w with log := w.log ++ copied }) ∧
      tbuf.contents = dev.tbuf.contents ++ part ∧
      ((copied = [.copied dev.session part] ∧ sBytes ≠ 0 ∧ part <+: copy.contents) ∨
        (part = [] ∧ copied = [])) := by
  unfold copySerialData
  by_cases hzero : sBytes = 0
  · exact ⟨dev.tbuf, [], [], by simp [hzero], by simp, .inr ⟨rfl, rfl⟩⟩
  · refine ⟨(dev.tbuf.copymove copy false sBytes).2.1,
      copy.contents.take (dev.tbuf.copymove copy false sBytes).1, _,
      by simp [hzero, World.record]; rfl, ?_, .inl ⟨?_, hzero, List.take_prefix _ _⟩⟩
    · simp
    · simp

/-- Gathering leaves nothing in the receive buffer of a device with a line buffer. -/
theorem clientData_gathers {dev : Iodev} (h : dev.linebuf.isSome) :
    (hdmi2usbProcessClientData dev).lineContents = dev.stored := by
  have hstored := (clientData_spec dev).1
  have hnone : (hdmi2usbProcessClientData dev).rbuf.contents = [] := by
    unfold hdmi2usbProcessClientData
    by_cases hused : dev.rbuf.used = 0
    · rw [← RingBuffer.length_contents, List.length_eq_zero_iff] at hused
      simp [hused, ← RingBuffer.length_contents]
    · rcases Option.isSome_iff_exists.mp h with ⟨linebuf, hl⟩
      have hall : dev.rbuf.contents.drop dev.rbuf.used = [] := by
        rw [← RingBuffer.length_contents, List.drop_length]
      simp [hused, hl, hall]
  rw [← hstored, Iodev.stored, hnone, List.append_nil]

/-- Without a line buffer there is no line. -/
theorem clientData_linebuf {dev : Iodev} {next : List UInt8 × List UInt8}
    (h : Lines.next isEol (hdmi2usbProcessClientData dev).lineContents = some next) :
    dev.linebuf.isSome := by
  rw [Option.isSome_iff_ne_none]
  intro hnone
  have hkept : hdmi2usbProcessClientData dev = dev := by
    unfold hdmi2usbProcessClientData
    simp [hnone]
  rw [hkept, Iodev.lineContents, hnone] at h
  cases h

/-- What a turn does for a connection. -/
structure Turn (sBytes : Nat) (s : ProcessState) (index : Nat) (serial dev serial' dev' : Iodev)
    (copied handed : List Ev) : Prop where
  devs : (processStep clock sBytes s index).app.selector.toList =
    (s.app.selector.toList.set 0 serial').set index dev'
  log : (processStep clock sBytes s index).world.log = s.world.log ++ (copied ++ handed)
  shell : dev'.shell = dev.shell
  copies : ∃ part, dev'.tbuf.contents = dev.tbuf.contents ++ part ∧
    (copied = [.copied dev.session part] ∨ (part = [] ∧ copied = []))
  chunk : ∀ part, copied = [.copied dev.session part] → sBytes ≠ 0 ∧ part <+: s.app.copy.contents
  hands : (handed = [] ∧ serial' = serial ∧ dev'.stored = dev.stored ∧
      ((s.world.expired clock s.app.lastCommand).1 = false ∨
        dev.linebuf = none ∨ Lines.next isEol dev.stored = none)) ∨
    ∃ line pass reset, handed = [.handed dev.session line pass reset] ∧
      serial' = (iodevWrite serial line).2 ∧ (s.world.expired clock s.app.lastCommand).1 = true ∧
      dev.linebuf.isSome ∧ Lines.next isEol dev.stored = some (line, dev'.stored)
  timer : (handed = [] ∧ (processStep clock sBytes s index).app.lastCommand = s.app.lastCommand) ∨
    handed ≠ [] ∧ ∃ n, s.world.tick ≤ n ∧ n < (processStep clock sBytes s index).world.tick ∧
      (processStep clock sBytes s index).app.lastCommand = timerReset (clock n) commandPace

theorem processStep_turn (sBytes : Nat) {s : ProcessState} {index : Nat} {serial dev : Iodev}
    (hserial : s.app.selector.toList[0]? = some serial)
    (hdev : s.app.selector.toList[index]? = some dev) (hconn : iodevIsListener dev = false) :
    ∃ serial' dev' copied handed, Turn clock sBytes s index serial dev serial' dev' copied handed := by
  rcases copySerialData_puts s.app.copy sBytes dev s.world with
    ⟨tbuf, part, copied, hcopy, htbuf, hcopied⟩
  have hcopies : copied = [.copied dev.session part] ∨ (part = [] ∧ copied = []) :=
    hcopied.imp_left And.left
  have hchunk : ∀ part', copied = [.copied dev.session part'] →
      sBytes ≠ 0 ∧ part' <+: s.app.copy.contents := by
    intro part' heq
    rcases hcopied with ⟨rfl, hchunk⟩ | ⟨-, rfl⟩
    · cases heq
      exact hchunk
    · cases heq
  rcases clientData_spec { dev with tbuf := tbuf } with ⟨hstored, rbuf, linebuf, hdata⟩
  have hsame : ({ dev with tbuf := tbuf } : Iodev).stored = dev.stored := rfl
  rw [hsame] at hstored
  -- the timer does not look at the log
  have htimer : (({ s.world with log := s.world.log ++ copied } : World).expired clock
      s.app.lastCommand).1 = (s.world.expired clock s.app.lastCommand).1 := by
    apply World.expired_tick
    rfl
  rw [← selectorGetDevice_eq] at hserial hdev
  rcases clientCommands_cases clock s.app.lastCommand serial
      (hdmi2usbProcessClientData { dev with tbuf := tbuf })
      { s.world with log := s.world.log ++ copied } with
    ⟨hidle, heq⟩ | ⟨line, rest, dev', hexp, hnext, heq, ⟨linebuf', hdev'⟩, hrest⟩
  · refine ⟨serial, hdmi2usbProcessClientData { dev with tbuf := tbuf }, copied, [], ?_⟩
    constructor
    · simp [processStep, hserial, hdev, hconn, hcopy, heq]
    · simp [processStep, hserial, hdev, hconn, hcopy, heq]
    · rw [hdata]
      rfl
    · rw [hdata]
      exact ⟨part, htbuf, hcopies⟩
    · exact hchunk
    · refine .inl ⟨rfl, rfl, hstored, ?_⟩
      rw [htimer] at hidle
      rcases hidle with hidle | hidle
      · exact .inl hidle
      · cases hl : dev.linebuf with
        | none => exact .inr (.inl rfl)
        | some lines =>
          have hsome : ({ dev with tbuf := tbuf } : Iodev).linebuf.isSome := by simp [hl]
          rw [clientData_gathers hsome] at hidle
          exact .inr (.inr hidle)
    · exact .inl ⟨rfl, by simp [processStep, hserial, hdev, hconn, hcopy, heq]⟩
  · refine ⟨(iodevWrite serial line).2, dev', copied, [.handed dev.session line
      (World.checkedAt clock s.app.lastCommand { s.world with log := s.world.log ++ copied })
      ((World.expired clock s.app.lastCommand
        { s.world with log := s.world.log ++ copied }).2.reset clock commandPace).1.tStarted], ?_⟩
    have hsession : (hdmi2usbProcessClientData { dev with tbuf := tbuf }).session = dev.session := by
      rw [hdata]
    constructor
    · simp [processStep, hserial, hdev, hconn, hcopy, heq]
    · simp [processStep, hserial, hdev, hconn, hcopy, heq, hsession]
    · rw [hdev', hdata]
      rfl
    · rw [hdev', hdata]
      exact ⟨part, htbuf, hcopies⟩
    · exact hchunk
    · have hlinebuf : ({ dev with tbuf := tbuf } : Iodev).linebuf.isSome := clientData_linebuf hnext
      refine .inr ⟨line, _, _, rfl, rfl, by rw [← htimer]; exact hexp, hlinebuf, ?_⟩
      rcases Lines.next_spec hnext with ⟨hline, hcat⟩
      have hleft : dev'.stored =
          rest ++ (hdmi2usbProcessClientData { dev with tbuf := tbuf }).rbuf.contents := by
        rw [Iodev.stored, hrest, hdev']
      rw [← hstored, hleft, Iodev.stored, hcat, List.append_assoc, Lines.next_line_append hline]
    · refine .inr ⟨by simp, (World.expired clock s.app.lastCommand
        { s.world with log := s.world.log ++ copied }).2.tick, ?_, ?_, ?_⟩
      · exact World.tick_le_expired clock s.app.lastCommand
          { s.world with log := s.world.log ++ copied }
      · simp [processStep, hserial, hdev, hconn, hcopy, heq, World.record, World.reset, World.now]
      · simp [processStep, hserial, hdev, hconn, hcopy, heq, World.reset, World.now]

/-- A write changes the send buffer alone. -/
theorem iodevWrite_body (dev : Iodev) (buf : List UInt8) :
    ∃ tbuf, (iodevWrite dev buf).2 = { dev with tbuf := tbuf } := by
  unfold iodevWrite
  split
  · exact ⟨dev.tbuf, rfl⟩
  split
  · exact ⟨_, rfl⟩
  · exact ⟨dev.tbuf, rfl⟩

namespace Turn

variable {clock} {sBytes index : Nat} {s : ProcessState} {serial dev serial' dev' : Iodev}
  {copied handed : List Ev}
  (h : Turn clock sBytes s index serial dev serial' dev' copied handed)
include h

theorem serial_body : ∃ tbuf, serial' = { serial with tbuf := tbuf } := by
  rcases h.hands with ⟨-, rfl, -⟩ | ⟨line, -, -, -, rfl, -⟩
  · exact ⟨serial'.tbuf, rfl⟩
  · exact iodevWrite_body serial line

theorem session : dev'.session = dev.session := show dev'.shell.session = dev.shell.session by
  rw [h.shell]

theorem driver : dev'.driver = dev.driver := show dev'.shell.driver = dev.shell.driver by
  rw [h.shell]

theorem isOpen : iodevIsOpen dev' = iodevIsOpen dev :=
  show iodevIsOpen dev'.shell = iodevIsOpen dev.shell by rw [h.shell]

/-- A turn writes nothing to a descriptor. -/
theorem unsent (session : Nat) : sentOf session (copied ++ handed) = [] := by
  rcases h.copies with ⟨part, -, rfl | ⟨-, rfl⟩⟩
  · rcases h.hands with ⟨rfl, -⟩ | ⟨line, pass, reset, rfl, -⟩ <;> rfl
  · rcases h.hands with ⟨rfl, -⟩ | ⟨line, pass, reset, rfl, -⟩ <;> rfl

/-- It logs events about the connection alone. -/
theorem log_mem {ev : Ev} (hev : ev ∈ copied ++ handed) :
    (∃ part, ev = .copied dev.session part) ∨
      ∃ line pass reset, ev = .handed dev.session line pass reset := by
  rcases List.mem_append.mp hev with hev | hev
  · rcases h.copies with ⟨part, -, rfl | ⟨-, rfl⟩⟩
    · exact .inl ⟨part, List.mem_singleton.mp hev⟩
    · cases hev
  · rcases h.hands with ⟨rfl, -⟩ | ⟨line, pass, reset, rfl, -⟩
    · cases hev
    · exact .inr ⟨line, pass, reset, List.mem_singleton.mp hev⟩

end Turn

end Hdmi2usbd
