import Hdmi2usbd.Process

/-!
# Forwarding — from what a client sends to the commands handed on

What one call of `hdmi2usb_process_client_commands` does to the line buffer and to the
serial device; when it forwards a line whole or not at all (`forward_all_or_nothing`);
and that over any sequence of reads and calls the commands handed on are the lines of
the byte stream, in order (`client_framing`).
-/

namespace Hdmi2usbd

open Lines (IsLine)

variable (clock : Nat → UTime)

/-! ## One call -/

@[simp] theorem iodevWrite_closed {dev : Iodev} (h : ¬ iodevIsOpen dev) (buf : List UInt8) :
    (iodevWrite dev buf).2 = dev := by
  simp [iodevWrite, h]

theorem iodevWrite_tbuf {dev : Iodev} (h : iodevIsOpen dev) (buf : List UInt8) :
    (iodevWrite dev buf).2.tbuf.contents = dev.tbuf.contents ++ buf.take dev.tbuf.available := by
  rcases List.eq_nil_or_concat buf with rfl | ⟨init, last, rfl⟩
  · simp [iodevWrite, h]
  · simp [iodevWrite, h]

/-- Nothing is done before the timer has expired, or without a complete line. -/
theorem clientCommands_idle {lastCommand : Microtimer} {dev : Iodev} {w : World} (serial : Iodev)
    (h : (w.expired clock lastCommand).1 = false ∨ Lines.next isEol dev.lineContents = none) :
    hdmi2usbProcessClientCommands clock lastCommand serial dev w =
      (lastCommand, serial, dev, (w.expired clock lastCommand).2) := by
  unfold hdmi2usbProcessClientCommands
  rcases h with h | h
  · simp [h]
  · cases hl : dev.linebuf with
    | none => simp
    | some linebuf =>
      have hnext : linebuf.nextstr 0 = (none, 0, 0) := by
        rw [LineBuffer.nextstr_eq]
        simp only [Iodev.lineContents, hl] at h
        simp [h]
      simp [hnext]

/-- Else the first line goes: it is written to the serial device, removed from the line
buffer, and the timer is reset. -/
theorem clientCommands_forward {lastCommand : Microtimer} {dev : Iodev} {w : World}
    (serial : Iodev) {line rest : List UInt8} (hexp : (w.expired clock lastCommand).1 = true)
    (hnext : Lines.next isEol dev.lineContents = some (line, rest)) :
    ∃ dev', hdmi2usbProcessClientCommands clock lastCommand serial dev w =
        ((((w.expired clock lastCommand).2).reset clock commandPace).1, (iodevWrite serial line).2,
          dev', ((((w.expired clock lastCommand).2).reset clock commandPace).2).record
            (.handed dev.session line (w.checkedAt clock lastCommand)
              (((w.expired clock lastCommand).2).reset clock commandPace).1.tStarted)) ∧
      (∃ linebuf, dev' = { dev with linebuf := some linebuf }) ∧ dev'.lineContents = rest := by
  rcases Lines.next_spec hnext with ⟨hline, hcat⟩
  cases hl : dev.linebuf with
  | none =>
    -- without a line buffer there is no line
    simp only [Iodev.lineContents, hl] at hnext
    cases hnext
  | some linebuf =>
    have hc : dev.lineContents = linebuf.contents := by simp [Iodev.lineContents, hl]
    rw [hc] at hnext hcat
    have hpos : 0 < line.length := List.length_pos_iff.mpr hline.ne_nil
    have hlen : 0 < linebuf.length := by
      rw [LineBuffer.length_eq, hcat, List.length_append]
      omega
    have htoken : linebuf.nextstr 0 = (some line, line.length, line.length) := by
      rw [LineBuffer.nextstr_eq, hnext]
    refine ⟨{ dev with linebuf := some (linebuf.consume line.length) }, ?_, ⟨_, rfl⟩, ?_⟩
    · simp [hdmi2usbProcessClientCommands, hexp, hl, hlen, htoken, hpos]
    · simp [Iodev.lineContents, hcat]

/-- All that a call can do: nothing, or the first line goes. -/
theorem clientCommands_cases (lastCommand : Microtimer) (serial dev : Iodev) (w : World) :
    (((w.expired clock lastCommand).1 = false ∨ Lines.next isEol dev.lineContents = none) ∧
      hdmi2usbProcessClientCommands clock lastCommand serial dev w =
        (lastCommand, serial, dev, (w.expired clock lastCommand).2)) ∨
    ∃ line rest dev', (w.expired clock lastCommand).1 = true ∧
      Lines.next isEol dev.lineContents = some (line, rest) ∧
      hdmi2usbProcessClientCommands clock lastCommand serial dev w =
        ((((w.expired clock lastCommand).2).reset clock commandPace).1, (iodevWrite serial line).2,
          dev', ((((w.expired clock lastCommand).2).reset clock commandPace).2).record
            (.handed dev.session line (w.checkedAt clock lastCommand)
              (((w.expired clock lastCommand).2).reset clock commandPace).1.tStarted)) ∧
      (∃ linebuf, dev' = { dev with linebuf := some linebuf }) ∧ dev'.lineContents = rest := by
  cases hexp : (w.expired clock lastCommand).1 with
  | false => exact .inl ⟨.inl rfl, clientCommands_idle clock serial (.inl hexp)⟩
  | true =>
    cases hnext : Lines.next isEol dev.lineContents with
    | none => exact .inl ⟨.inr rfl, clientCommands_idle clock serial (.inr hnext)⟩
    | some next =>
      obtain ⟨line, rest⟩ := next
      obtain ⟨dev', heq, hdev', hrest⟩ := clientCommands_forward clock serial hexp hnext
      exact .inr ⟨line, rest, dev', rfl, rfl, heq, hdev', hrest⟩

/-- Gathering moves everything to the line buffer, if there is one. -/
theorem clientData_spec (dev : Iodev) :
    (hdmi2usbProcessClientData dev).stored = dev.stored ∧
      ∃ rbuf linebuf, hdmi2usbProcessClientData dev =
        { dev with rbuf := rbuf, linebuf := linebuf } := by
  unfold hdmi2usbProcessClientData
  by_cases hused : dev.rbuf.used = 0
  · simp only [hused]
    exact ⟨rfl, _, _, rfl⟩
  · cases hl : dev.linebuf with
    | none => exact ⟨by simp [hused], dev.rbuf, none, by simp [hused, ← hl]⟩
    | some linebuf =>
      refine ⟨?_, (dev.rbuf.get true dev.rbuf.used).2.2,
        some (linebuf.append (dev.rbuf.get true dev.rbuf.used).2.1), by simp [hused]⟩
      have hall : dev.rbuf.contents.take dev.rbuf.used = dev.rbuf.contents := by
        rw [← RingBuffer.length_contents, List.take_length]
      have hnone : dev.rbuf.contents.drop dev.rbuf.used = [] := by
        rw [← RingBuffer.length_contents, List.drop_length]
      simp [hused, Iodev.stored, Iodev.lineContents, hl, hall, hnone]

/-! ## All or nothing -/

/-- The next line has been appended to the transmit buffer of the serial device and
removed from the line buffer, or neither buffer has changed. -/
def AllOrNothing (serial dev serial' dev' : Iodev) : Prop :=
  (∃ line rest, Lines.next isEol dev.lineContents = some (line, rest) ∧
    serial'.tbuf.contents = serial.tbuf.contents ++ line ∧ dev'.lineContents = rest) ∨
  (serial'.tbuf.contents = serial.tbuf.contents ∧ dev'.lineContents = dev.lineContents)

/-- A call is all or nothing exactly when it has nothing to forward, or the serial device
is open with room for the whole line. -/
theorem forward_all_or_nothing (lastCommand : Microtimer) (serial dev : Iodev) (w : World) :
    AllOrNothing serial dev (hdmi2usbProcessClientCommands clock lastCommand serial dev w).2.1
        (hdmi2usbProcessClientCommands clock lastCommand serial dev w).2.2.1 ↔
      ((w.expired clock lastCommand).1 = true →
        ∀ line rest, Lines.next isEol dev.lineContents = some (line, rest) →
          iodevIsOpen serial ∧ line.length ≤ serial.tbuf.available) := by
  -- nothing is due: neither buffer changes, and there is nothing to ask for
  rcases clientCommands_cases clock lastCommand serial dev w with
    ⟨hidle, heq⟩ | ⟨line, rest, dev', hexp, hnext, heq, -, hrest⟩
  · rw [heq]
    refine ⟨?_, fun _ => .inr ⟨rfl, rfl⟩⟩
    intro _ hexp line rest hnext
    rcases hidle with h | h
    · rw [h] at hexp
      cases hexp
    · rw [h] at hnext
      cases hnext
  · rcases Lines.next_spec hnext with ⟨hline, hcat⟩
    have hne := hline.ne_nil
    rw [heq]
    constructor
    · -- the line is gone, so it must be the whole of it that was appended
      intro h _ line' rest' hnext'
      rw [hnext, Option.some.injEq, Prod.mk.injEq] at hnext'
      rcases hnext' with ⟨rfl, rfl⟩
      rcases h with ⟨line', rest', hnext', htbuf, -⟩ | ⟨-, hsame⟩
      · rw [hnext, Option.some.injEq, Prod.mk.injEq] at hnext'
        rcases hnext' with ⟨rfl, rfl⟩
        by_cases hopen : iodevIsOpen serial
        · refine ⟨hopen, ?_⟩
          rw [iodevWrite_tbuf hopen, List.append_cancel_left_eq, List.take_eq_self_iff] at htbuf
          exact htbuf
        · rw [iodevWrite_closed hopen, List.self_eq_append_right] at htbuf
          exact absurd htbuf hne
      · -- the line buffer has changed, since a line is never empty
        rw [hrest, hcat, List.self_eq_append_left] at hsame
        exact absurd hsame hne
    · intro h
      rcases h hexp line rest hnext with ⟨hopen, hroom⟩
      exact .inl ⟨line, rest, hnext, by rw [iodevWrite_tbuf hopen, List.take_of_length_le hroom],
        hrest⟩

/-- An open serial device whose transmit buffer takes three bytes. -/
def smallSerial : Iodev := { iodevInit .serial 4 with fd := 3, session := 1, state := .iodevConnected }

/-- A connection whose line buffer holds a command of five bytes. -/
def waitingClient : Iodev :=
  { tcpCreateAccepted 2 4 16 with linebuf := some (LineBuffer.init.append [97, 98, 99, 100, 10]) }

/-- The command is removed from the line buffer, but only three of its bytes are queued. -/
theorem truncated_command : ¬ AllOrNothing smallSerial waitingClient
    (hdmi2usbProcessClientCommands (fun _ => 0) ⟨0, 0⟩ smallSerial waitingClient .init).2.1
    (hdmi2usbProcessClientCommands (fun _ => 0) ⟨0, 0⟩ smallSerial waitingClient .init).2.2.1 := by
  have hqueued : (hdmi2usbProcessClientCommands (fun _ => 0) ⟨0, 0⟩ smallSerial waitingClient
      .init).2.1.tbuf.contents = [97, 98, 99] := by decide +kernel
  have hleft : (hdmi2usbProcessClientCommands (fun _ => 0) ⟨0, 0⟩ smallSerial waitingClient
      .init).2.2.1.lineContents = [] := by decide +kernel
  have hempty : smallSerial.tbuf.contents = [] := by decide +kernel
  have hline : waitingClient.lineContents = [97, 98, 99, 100, 10] := by decide +kernel
  rintro (⟨line, rest, hnext, htbuf, -⟩ | ⟨-, hsame⟩)
  · -- what is queued is no line
    rw [hqueued, hempty, List.nil_append] at htbuf
    rw [hline, ← htbuf] at hnext
    revert hnext
    simp [Lines.next, isEol, isDelim]
  · rw [hleft, hline] at hsame
    cases hsame

/-! ## The stream of a connection -/

/-- What happens to a connection: `read` has bytes for it (or fails), or one of the two
functions of the process cycle runs, with any timer and serial device. -/
inductive ClientOp
  | read (answer : Option (List UInt8))
  | data
  | commands (lastCommand : Microtimer) (serial : Iodev)

/-- The connection and the world after an operation. -/
def clientStep (s : Iodev × World) : ClientOp → Iodev × World
  | .read answer => iodevReadHandler answer s.1 s.2
  | .data => (hdmi2usbProcessClientData s.1, s.2)
  | .commands lastCommand serial =>
    let (_, _, dev, w) := hdmi2usbProcessClientCommands clock lastCommand serial s.1 s.2
    (dev, w)

/-- A connection just accepted. -/
def clientStart (session : Nat) (fd : Int) (bufsize : Nat) (w : World) : Iodev × World :=
  (tcpCreateAccepted session fd bufsize, { w with log := [] })

/-- A connection as a framer: the commands handed on, and what is stored. -/
def framerOf (s : Iodev × World) : Lines.Framer UInt8 :=
  ⟨handedOf s.1.session s.2.log, s.1.stored⟩

/-- One operation that leaves the connection open is matched by the framer. -/
theorem clientStep_framer (s : Iodev × World) (op : ClientOp)
    (hopen : iodevIsOpen (clientStep clock s op).1) :
    iodevIsOpen s.1 ∧ (clientStep clock s op).1.session = s.1.session ∧
      ∃ es, framerOf (clientStep clock s op) =
          Machine.run (Lines.Framer.step isEol) (framerOf s) es ∧
        receivedOf s.1.session (clientStep clock s op).2.log =
          receivedOf s.1.session s.2.log ++ es.flatMap Lines.FramerEv.chunk := by
  rcases s with ⟨dev, w⟩
  cases op with
  | read answer =>
    simp only [clientStep] at hopen ⊢
    rcases iodevReadHandler_cases answer dev w with h | ⟨-, -, h⟩ | ⟨bytes, -, hroom, hwas, h⟩
    · rw [h] at hopen ⊢
      exact ⟨hopen, rfl, [], rfl, by simp⟩
    · -- the close has ended the connection
      rw [h] at hopen
      exact absurd hopen (iodevClose_not_isOpen _ (by decide) w)
    · -- the bytes that were read fit into the receive buffer
      rw [h]
      refine ⟨hwas, rfl, [.recv bytes], ?_, ?_⟩
      · simp [framerOf, Lines.Framer.step, Iodev.stored, Iodev.lineContents,
          List.take_of_length_le hroom, handedOf]
      · simp [receivedOf, Lines.FramerEv.chunk]
  | data =>
    rcases clientData_spec dev with ⟨hstored, rbuf, linebuf, heq⟩
    simp only [clientStep] at hopen ⊢
    refine ⟨?_, ?_, [], ?_, by simp⟩
    · rw [heq] at hopen
      exact hopen
    · rw [heq]
    · simp only [framerOf, hstored]
      rw [heq]
      rfl
  | commands lastCommand serial =>
    simp only [clientStep] at hopen ⊢
    rcases clientCommands_cases clock lastCommand serial dev w with
      ⟨-, heq⟩ | ⟨line, rest, dev', -, hnext, heq, ⟨linebuf, hdev'⟩, hrest⟩
    · rw [heq] at hopen ⊢
      exact ⟨hopen, rfl, [], by simp [framerOf], by simp⟩
    · rcases Lines.next_spec hnext with ⟨hline, hcat⟩
      rw [heq] at hopen ⊢
      -- the first line of the line buffer is the first line of all that is stored
      have hpending : Lines.next isEol dev.stored = some (line, rest ++ dev.rbuf.contents) := by
        rw [Iodev.stored, hcat, List.append_assoc, Lines.next_line_append hline]
      have hleft : dev'.stored = rest ++ dev.rbuf.contents := by
        rw [Iodev.stored, hrest, hdev']
      have hsession : dev'.session = dev.session := by rw [hdev']
      refine ⟨?_, hsession, [.hand], ?_, ?_⟩
      · rw [hdev'] at hopen
        exact hopen
      · simp [framerOf, Lines.Framer.step, hpending, hleft, hsession, handedOf]
      · simp [receivedOf, Lines.FramerEv.chunk]

/-- The framer of a connection holds what has been received, and has handed out lines. -/
def FramerInv (s : Iodev × World) : Prop :=
  (framerOf s).stream = receivedOf s.1.session s.2.log ∧
    ∀ command ∈ (framerOf s).handed, IsLine isEol command

theorem clientStep_inv (s : Iodev × World) (op : ClientOp)
    (h : iodevIsOpen s.1 → FramerInv s) (hopen : iodevIsOpen (clientStep clock s op).1) :
    FramerInv (clientStep clock s op) := by
  rcases clientStep_framer clock s op hopen with ⟨hwas, hsession, es, hframer, hrecv⟩
  rcases h hwas with ⟨hstream, hlines⟩
  unfold FramerInv
  rw [hframer, hsession, hrecv, ← hstream]
  clear hframer hrecv hstream
  generalize framerOf s = f at hlines ⊢
  induction es generalizing f with
  | nil => simpa using hlines
  | cons e es ih =>
    have := ih (f.step isEol e) (Lines.Framer.lines_step hlines e)
    rw [Lines.Framer.stream_step] at this
    simpa using this

/-- Client line framing: over any reads and calls, as long as the connection is open, the
commands handed on, the line buffer and the receive buffer make up the bytes received;
each command is one line; and the commands are the first lines of the stream, however it
goes on. -/
theorem client_framing (session : Nat) (fd : Int) (bufsize : Nat) (w : World)
    (ops : List ClientOp)
    (hopen : iodevIsOpen (Machine.run (clientStep clock) (clientStart session fd bufsize w) ops).1) :
    let s := Machine.run (clientStep clock) (clientStart session fd bufsize w) ops
    let commands := handedOf s.1.session s.2.log
    let received := receivedOf s.1.session s.2.log
    commands.flatten ++ s.1.lineContents ++ s.1.rbuf.contents = received ∧
      (∀ command ∈ commands, IsLine isEol command) ∧
      ∀ future, commands <+: Lines.lines isEol (received ++ future) := by
  have hstart : iodevIsOpen (clientStart session fd bufsize w).1 →
      FramerInv (clientStart session fd bufsize w) := by
    intro _
    simp [FramerInv, framerOf, clientStart, Lines.Framer.stream, Iodev.stored, Iodev.lineContents,
      tcpCreateAccepted, tcpAccept, tcpCreate, iodevInit]
  have hinv := Machine.run_invariant (fun s => iodevIsOpen s.1 → FramerInv s)
    (clientStep_inv clock) hstart ops hopen
  rcases hinv with ⟨hstream, hlines⟩
  refine ⟨?_, hlines, ?_⟩
  · rw [← hstream]
    simp [framerOf, Lines.Framer.stream, Iodev.stored]
  · intro future
    have := Lines.Framer.handed_prefix hlines future
    rw [hstream] at this
    exact this

/-- Two reads, the second of which ends a command that the first has begun. -/
def twoReads : List ClientOp :=
  [.read (some [97, 10, 98]), .data, .commands ⟨0, 0⟩ smallSerial, .read (some [99, 0])]

theorem client_framing_two_reads :
    let s := Machine.run (clientStep fun _ => 0) (clientStart 2 4 16 .init) twoReads
    handedOf s.1.session s.2.log = [[97, 10]] ∧
      ∀ future, handedOf s.1.session s.2.log <+:
        Lines.lines isEol (receivedOf s.1.session s.2.log ++ future) :=
  ⟨by decide +kernel,
    (client_framing (fun _ => 0) 2 4 16 .init twoReads (by decide +kernel)).2.2⟩

end Hdmi2usbd
