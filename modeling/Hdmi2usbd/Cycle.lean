import Hdmi2usbd.Forwarding

/-!
# Cycle — what a process cycle does

The spec lemmas of the functions of `hdmi2usb_process`: the serial data moved, the copy
made for a connection, and one turn of the loop (`processStep_spec`), which says
everything that the turn does to the devices and logs.
-/

namespace Hdmi2usbd

variable (clock : Nat → UTime)

/-- Events that a process cycle logs. -/
def Ev.IsCycle : Ev → Prop
  | .moved .. | .copied .. | .handed .. => True
  | _ => False

/-! ## The serial data -/

/-- How many bytes a cycle moves out of the serial device. -/
def movedCount (copy : RingBuffer) (serial : Iodev) : Nat :=
  if iodevIsOpen serial then min serial.rbuf.used copy.available else 0

/-- The chunk is moved to the copy buffer, which was empty before. -/
theorem processSerialData_spec {copy : RingBuffer} (hempty : copy.contents = []) (serial : Iodev)
    (w : World) :
    ∃ copy' rbuf, (hdmi2usbProcessSerialData copy serial w).1 = movedCount copy serial ∧
      (hdmi2usbProcessSerialData copy serial w).2.1 = copy' ∧
      (hdmi2usbProcessSerialData copy serial w).2.2.1 = { serial with rbuf := rbuf } ∧
      copy'.contents = serial.rbuf.contents.take (movedCount copy serial) ∧ copy'.size = copy.size ∧
      ∃ evs, (hdmi2usbProcessSerialData copy serial w).2.2.2 = { w with log := w.log ++ evs } ∧
        (evs = [.moved copy'.contents] ∨ (evs = [] ∧ copy'.contents = [])) := by
  unfold hdmi2usbProcessSerialData movedCount
  by_cases hopen : iodevIsOpen serial
  · by_cases hused : serial.rbuf.used = 0
    · refine ⟨copy, serial.rbuf, ?_, ?_, ?_, ?_, rfl, [], ?_, .inr ⟨rfl, hempty⟩⟩ <;>
        simp [hopen, hused, hempty]
    · refine ⟨(copy.copymove serial.rbuf true serial.rbuf.used).2.1,
        (copy.copymove serial.rbuf true serial.rbuf.used).2.2, ?_, ?_, ?_, ?_, ?_,
        [.moved (copy.copymove serial.rbuf true serial.rbuf.used).2.1.contents], ?_, .inl rfl⟩ <;>
        simp [hopen, hused, hempty, World.record]
  · refine ⟨copy, serial.rbuf, ?_, ?_, ?_, ?_, rfl, [], ?_, .inr ⟨rfl, hempty⟩⟩ <;>
      simp [hopen, hempty]

/-- Whatever the copy buffer holds, only the receive buffer of the serial device changes. -/
theorem processSerialData_shape (copy : RingBuffer) (serial : Iodev) (w : World) :
    ∃ rbuf evs, (hdmi2usbProcessSerialData copy serial w).2.2.1 = { serial with rbuf := rbuf } ∧
      (hdmi2usbProcessSerialData copy serial w).2.2.2 = { w with log := w.log ++ evs } ∧
      ∀ ev ∈ evs, ∃ bytes, ev = .moved bytes := by
  unfold hdmi2usbProcessSerialData
  generalize (if iodevIsOpen serial then serial.rbuf.used else 0) = sBytes
  dsimp only
  split
  · refine ⟨_, _, rfl, rfl, ?_⟩
    intro ev hev
    exact ⟨_, List.mem_singleton.mp hev⟩
  · exact ⟨serial.rbuf, [], rfl, by simp, by simp⟩

/-- A connection gets the part of the chunk that its transmit buffer has room for. -/
theorem copySerialData_spec (copy : RingBuffer) (sBytes : Nat) (dev : Iodev) (w : World) :
    ∃ tbuf evs, copySerialData copy sBytes dev w =
        ({ dev with tbuf := tbuf }, { w with log := w.log ++ evs }) ∧
      ((sBytes = 0 ∧ evs = []) ∨ (sBytes ≠ 0 ∧
        evs = [.copied dev.session (copy.contents.take (min sBytes dev.tbuf.available))])) := by
  unfold copySerialData
  by_cases hzero : sBytes = 0
  · exact ⟨dev.tbuf, [], by simp [hzero], .inl ⟨hzero, rfl⟩⟩
  · refine ⟨(dev.tbuf.copymove copy false sBytes).2.1, _, by simp [hzero, World.record]; rfl,
      .inr ⟨hzero, ?_⟩⟩
    have hall : copy.contents.take (min sBytes (min dev.tbuf.available copy.used)) =
        copy.contents.take (min sBytes dev.tbuf.available) := by
      rw [← Nat.min_assoc, ← RingBuffer.length_contents, ← List.take_take, List.take_length]
    rw [hall]

/-- What is logged as moved is what leaves the receive buffer and gets into the copy buffer. -/
theorem processSerialData_logged (copy : RingBuffer) (serial : Iodev) (w : World) :
    ∃ bytes,
      serial.rbuf.contents = bytes ++ (hdmi2usbProcessSerialData copy serial w).2.2.1.rbuf.contents ∧
      (hdmi2usbProcessSerialData copy serial w).2.1.contents = copy.contents ++ bytes ∧
      ((hdmi2usbProcessSerialData copy serial w).2.2.2.log = w.log ++ [.moved bytes] ∨
        bytes = [] ∧ (hdmi2usbProcessSerialData copy serial w).2.2.2 = w) := by
  unfold hdmi2usbProcessSerialData
  generalize (if iodevIsOpen serial then serial.rbuf.used else 0) = sBytes
  dsimp only
  split
  · refine ⟨serial.rbuf.contents.take (copy.copymove serial.rbuf true sBytes).1, ?_, ?_, .inl ?_⟩
    · simp
    · simp
    · simp
  · exact ⟨[], rfl, by simp, .inr ⟨rfl, rfl⟩⟩

/-! ## One turn -/

/-- The commands of a connection: none is handed on and nothing stored changes, or the first
line of what is stored is handed on. -/
theorem clientCommands_spec (lastCommand : Microtimer) (serial dev : Iodev) (w : World) :
    ∃ tbuf linebuf evs,
      (hdmi2usbProcessClientCommands clock lastCommand serial dev w).2.1 =
        { serial with tbuf := tbuf } ∧
      (hdmi2usbProcessClientCommands clock lastCommand serial dev w).2.2.1 =
        { dev with linebuf := linebuf } ∧
      (hdmi2usbProcessClientCommands clock lastCommand serial dev w).2.2.2.log = w.log ++ evs ∧
      (hdmi2usbProcessClientCommands clock lastCommand serial dev w).2.2.2.fds = w.fds ∧
      (hdmi2usbProcessClientCommands clock lastCommand serial dev w).2.2.2.opens = w.opens ∧
      ((evs = [] ∧ ({ dev with linebuf := linebuf } : Iodev).stored = dev.stored) ∨
        ∃ line pass reset, evs = [.handed dev.session line pass reset] ∧
          Lines.next isEol dev.stored =
            some (line, ({ dev with linebuf := linebuf } : Iodev).stored)) := by
  rcases clientCommands_cases clock lastCommand serial dev w with
    ⟨-, heq⟩ | ⟨line, rest, dev', -, hnext, heq, ⟨linebuf, hdev'⟩, hrest⟩
  · rw [heq]
    exact ⟨serial.tbuf, dev.linebuf, [], rfl, rfl, by simp, by simp, by simp, .inl ⟨rfl, rfl⟩⟩
  · -- the first line is handed on, whether the serial device takes it or not
    rcases Lines.next_spec hnext with ⟨hline, hcat⟩
    have hwrite : ∃ tbuf, (iodevWrite serial line).2 = { serial with tbuf := tbuf } := by
      unfold iodevWrite
      split
      · exact ⟨serial.tbuf, rfl⟩
      split
      · exact ⟨_, rfl⟩
      · exact ⟨serial.tbuf, rfl⟩
    rcases hwrite with ⟨tbuf, hwrite⟩
    rw [heq]
    refine ⟨tbuf, linebuf, [.handed dev.session line (w.checkedAt clock lastCommand)
      ((w.expired clock lastCommand).2.reset clock commandPace).1.tStarted], hwrite, hdev',
      by simp, by simp, by simp, .inr ⟨line, _, _, rfl, ?_⟩⟩
    have hstored : ({ dev with linebuf := linebuf } : Iodev).stored = rest ++ dev.rbuf.contents := by
      rw [← hdev', Iodev.stored, hrest, hdev']
    rw [hstored, Iodev.stored, hcat, List.append_assoc, Lines.next_line_append hline]

/-- What a turn of the loop does for a connection: its transmit buffer gets the chunk as far
as there is room, and at most the first line of what it has stored is handed on. -/
theorem processStep_spec (sBytes : Nat) {s : ProcessState} {index : Nat} {serial dev : Iodev}
    (hserial : s.app.selector.toList[0]? = some serial)
    (hdev : s.app.selector.toList[index]? = some dev) (hconn : iodevIsListener dev = false) :
    ∃ stbuf rbuf tbuf linebuf copied handed,
      (processStep clock sBytes s index).app.selector.toList =
        (s.app.selector.toList.set 0 { serial with tbuf := stbuf }).set index
          { dev with rbuf := rbuf, tbuf := tbuf, linebuf := linebuf } ∧
      (processStep clock sBytes s index).app.copy = s.app.copy ∧
      (processStep clock sBytes s index).app.opts = s.app.opts ∧
      (processStep clock sBytes s index).world.log = s.world.log ++ (copied ++ handed) ∧
      (processStep clock sBytes s index).world.fds = s.world.fds ∧
      (processStep clock sBytes s index).world.opens = s.world.opens ∧
      ((sBytes = 0 ∧ copied = []) ∨ (sBytes ≠ 0 ∧ copied =
        [.copied dev.session (s.app.copy.contents.take (min sBytes dev.tbuf.available))])) ∧
      ((handed = [] ∧ ({ dev with rbuf := rbuf, tbuf := tbuf, linebuf := linebuf } : Iodev).stored =
          dev.stored) ∨
        ∃ line pass reset, handed = [.handed dev.session line pass reset] ∧
          Lines.next isEol dev.stored = some (line,
            ({ dev with rbuf := rbuf, tbuf := tbuf, linebuf := linebuf } : Iodev).stored)) := by
  rcases copySerialData_spec s.app.copy sBytes dev s.world with ⟨tbuf, copied, hcopy, hcopied⟩
  rcases clientData_spec { dev with tbuf := tbuf } with ⟨hstored, rbuf, linebuf, hdata⟩
  rcases clientCommands_spec clock s.app.lastCommand serial
      (hdmi2usbProcessClientData { dev with tbuf := tbuf })
      { s.world with log := s.world.log ++ copied } with
    ⟨stbuf, linebuf', handed, hs, hd, hlog, hfds, hopens, hhanded⟩
  have hsame : ({ dev with tbuf := tbuf } : Iodev).stored = dev.stored := rfl
  rw [hstored, hsame] at hhanded
  rw [hdata] at hs hd hlog hfds hopens hhanded
  -- the three functions of the turn, one after the other
  refine ⟨stbuf, rbuf, tbuf, linebuf', copied, handed, ?_, ?_, ?_, ?_, ?_, ?_, hcopied, hhanded⟩
  all_goals
    rw [← selectorGetDevice_eq] at hserial hdev
    simp [processStep, hserial, hdev, hconn, hcopy, hs, hd, hlog, hfds, hopens, hdata]

/-- A turn leaves everything at a listener, or does what `processStep_spec` says. -/
theorem processStep_cases (sBytes : Nat) (s : ProcessState) (index : Nat) :
    ((processStep clock sBytes s index).app = s.app ∧
      (processStep clock sBytes s index).world = s.world ∧
      ∀ serial dev, s.app.selector.toList[0]? = some serial →
        s.app.selector.toList[index]? = some dev → iodevIsListener dev = true) ∨
    ∃ serial dev, s.app.selector.toList[0]? = some serial ∧
      s.app.selector.toList[index]? = some dev ∧ iodevIsListener dev = false := by
  unfold processStep
  simp only [selectorGetDevice_eq]
  split
  · next serial dev hserial hdev =>
    by_cases hl : iodevIsListener dev
    · refine .inl ⟨by simp [hl], by simp [hl], ?_⟩
      intro _ dev' _ hdev'
      cases hdev.symm.trans hdev'
      exact hl
    · exact .inr ⟨serial, dev, hserial, hdev, by simpa using hl⟩
  · next hnone =>
    refine .inl ⟨rfl, rfl, ?_⟩
    intro serial dev hserial hdev
    exact (hnone serial dev hserial hdev).elim

/-- A cycle stops at once, or is a run of turns after the serial data has been moved. -/
theorem hdmi2usbProcess_cases (app : Hdmi2usb) (rc : Int) (w : World) :
    ((hdmi2usbProcess clock app rc w).2.1 = app ∧ (hdmi2usbProcess clock app rc w).2.2 = w ∧
      ∀ serial, app.selector.toList[0]? = some serial → serial.state = .iodevInactive) ∨
    ∃ serial, app.selector.toList[0]? = some serial ∧ serial.state ≠ .iodevInactive ∧
      ∃ final : ProcessState, final =
          Machine.run (processStep clock (hdmi2usbProcessSerialData app.copy serial w).1)
            ⟨{ app with
                selector := app.selector.store 0 (hdmi2usbProcessSerialData app.copy serial w).2.2.1
                copy := (hdmi2usbProcessSerialData app.copy serial w).2.1 },
              (hdmi2usbProcessSerialData app.copy serial w).2.2.2, 0, 0⟩
            (List.range' 1 (selectorDeviceCount app.selector - 1)) ∧
        (hdmi2usbProcess clock app rc w).2.1 = { final.app with copy := final.app.copy.flush } ∧
        (hdmi2usbProcess clock app rc w).2.2 = final.world := by
  unfold hdmi2usbProcess
  rw [selectorGetDevice_eq]
  cases hserial : app.selector.toList[0]? with
  | none => exact .inl ⟨rfl, rfl, by simp⟩
  | some serial =>
    dsimp only
    by_cases hinactive : serial.state = .iodevInactive
    · refine .inl ⟨by rw [if_pos hinactive], by rw [if_pos hinactive], ?_⟩
      intro serial' heq
      rwa [← Option.some.inj heq]
    · refine .inr ⟨serial, rfl, hinactive, _, rfl, ?_, ?_⟩
      · rw [if_neg hinactive]
        rfl
      · rw [if_neg hinactive]
        rfl

/-- A cycle keeps what the moving of the serial data and the turns keep. -/
theorem hdmi2usbProcess_keeps {I : Hdmi2usb → World → Prop} {app : Hdmi2usb} {w : World}
    (h : I app w) (hcopy : ∀ app copy w, I app w → I { app with copy := copy } w)
    (hmoved : ∀ serial, app.selector.toList[0]? = some serial →
      I { app with
            selector := app.selector.store 0 (hdmi2usbProcessSerialData app.copy serial w).2.2.1 }
        (hdmi2usbProcessSerialData app.copy serial w).2.2.2)
    (hturn : ∀ sBytes s index, 1 ≤ index → I s.app s.world →
      I (processStep clock sBytes s index).app (processStep clock sBytes s index).world)
    (rc : Int) : I (hdmi2usbProcess clock app rc w).2.1 (hdmi2usbProcess clock app rc w).2.2 := by
  rcases hdmi2usbProcess_cases clock app rc w with ⟨happ, hw, -⟩ |
    ⟨serial, hs, -, final, hfinal, happ, hw⟩
  · rw [happ, hw]
    exact h
  · have hstart := hcopy _ (hdmi2usbProcessSerialData app.copy serial w).2.1 _ (hmoved serial hs)
    rw [happ, hw, hfinal]
    refine hcopy _ _ _ ?_
    exact Machine.run_range' (fun _ (s : ProcessState) => I s.app s.world)
      (fun index s hpos hs => hturn _ s index hpos hs) hstart _

theorem processStep_log (sBytes : Nat) (s : ProcessState) (index : Nat) :
    Adds Ev.IsCycle s.world.log (processStep clock sBytes s index).world.log := by
  rcases processStep_cases clock sBytes s index with
    ⟨-, hw, -⟩ | ⟨serial, dev, hserial, hdev, hconn⟩
  · rw [hw]
    exact Adds.refl _
  · rcases processStep_spec clock sBytes hserial hdev hconn with
      ⟨_, _, _, _, copied, handed, -, -, -, hlog, -, -, hcopied, hhanded⟩
    rw [hlog]
    refine ⟨_, rfl, ?_⟩
    intro ev hmem
    rcases List.mem_append.mp hmem with hmem | hmem
    · rcases hcopied with ⟨-, h⟩ | ⟨-, h⟩
      · rw [h] at hmem
        cases hmem
      · rw [h] at hmem
        rw [List.mem_singleton.mp hmem]
        trivial
    · rcases hhanded with ⟨h, -⟩ | ⟨_, _, _, h, -⟩
      · rw [h] at hmem
        cases hmem
      · rw [h] at hmem
        rw [List.mem_singleton.mp hmem]
        trivial

theorem hdmi2usbProcess_log (app : Hdmi2usb) (rc : Int) (w : World) :
    Adds Ev.IsCycle w.log (hdmi2usbProcess clock app rc w).2.2.log := by
  refine hdmi2usbProcess_keeps clock (I := fun _ w' => Adds Ev.IsCycle w.log w'.log) (Adds.refl _)
    (fun _ _ _ h => h) ?_ (fun _ s index _ h => h.trans (processStep_log clock _ s index)) rc
  intro serial _
  rcases processSerialData_shape app.copy serial w with ⟨_, evs, -, hlog, hevs⟩
  rw [hlog]
  refine ⟨evs, rfl, ?_⟩
  intro ev hev
  rcases hevs ev hev with ⟨bytes, rfl⟩
  trivial

/-! ## What a cycle leaves alone -/

/-- A device without what it has buffered. -/
def Iodev.shell (dev : Iodev) : Iodev :=
  { dev with rbuf := .init 0, tbuf := .init 0, linebuf := none }

/-- A slot whose device changes in its buffers only. -/
theorem map_shell_set {devs : List Iodev} {index : Nat} {dev dev' : Iodev}
    (hget : devs[index]? = some dev) (hshell : dev'.shell = dev.shell) :
    (devs.set index dev').map Iodev.shell = devs.map Iodev.shell := by
  rcases List.getElem?_eq_some_iff.mp hget with ⟨hlt, hdev⟩
  rw [List.map_set, hshell, ← hdev, ← List.getElem_map Iodev.shell, List.set_getElem_self]
  simpa using hlt

/-- What the turns of a cycle leave alone: all but the buffers of the devices, and the log. -/
structure SameShell (devs : List Iodev) (w : World) (devs' : List Iodev) (w' : World) : Prop where
  devs : devs'.map Iodev.shell = devs.map Iodev.shell
  fds : w'.fds = w.fds
  opens : w'.opens = w.opens

theorem SameShell.trans {devs devs' devs'' : List Iodev} {w w' w'' : World}
    (h : SameShell devs w devs' w') (h' : SameShell devs' w' devs'' w'') :
    SameShell devs w devs'' w'' :=
  ⟨h'.devs.trans h.devs, h'.fds.trans h.fds, h'.opens.trans h.opens⟩

/-- A slot holds a device with the same shell. -/
theorem SameShell.slot {devs devs' : List Iodev} {w w' : World} (h : SameShell devs w devs' w')
    {index : Nat} {dev' : Iodev} (hget : devs'[index]? = some dev') :
    ∃ dev, devs[index]? = some dev ∧ dev'.shell = dev.shell := by
  have hmap : (devs.map Iodev.shell)[index]? = some dev'.shell := by
    rw [← h.devs, List.getElem?_map, hget]
    rfl
  rw [List.getElem?_map, Option.map_eq_some_iff] at hmap
  rcases hmap with ⟨dev, hdev, hshell⟩
  exact ⟨dev, hdev, hshell.symm⟩

theorem processStep_shell (sBytes : Nat) (s : ProcessState) {index : Nat} (hpos : 1 ≤ index) :
    SameShell s.app.selector.toList s.world (processStep clock sBytes s index).app.selector.toList
      (processStep clock sBytes s index).world := by
  rcases processStep_cases clock sBytes s index with ⟨happ, hw, -⟩ | ⟨serial, dev, hs, hd, hconn⟩
  · rw [happ, hw]
    exact ⟨rfl, rfl, rfl⟩
  · rcases processStep_spec clock sBytes hs hd hconn with
      ⟨stbuf, rbuf, tbuf, linebuf, _, _, hdevs, -, -, -, hfds, hopens, -, -⟩
    refine ⟨?_, hfds, hopens⟩
    have hslot : (s.app.selector.toList.set 0 { serial with tbuf := stbuf })[index]? = some dev := by
      rw [List.getElem?_set_ne (by omega)]
      exact hd
    have hdev : ({ dev with rbuf := rbuf, tbuf := tbuf, linebuf := linebuf } : Iodev).shell =
        dev.shell := rfl
    have hserial : ({ serial with tbuf := stbuf } : Iodev).shell = serial.shell := rfl
    rw [hdevs, map_shell_set hslot hdev, map_shell_set hs hserial]

/-- A cycle changes what devices have buffered, and the log. -/
theorem hdmi2usbProcess_shell (app : Hdmi2usb) (rc : Int) (w : World) :
    SameShell app.selector.toList w (hdmi2usbProcess clock app rc w).2.1.selector.toList
      (hdmi2usbProcess clock app rc w).2.2 := by
  refine hdmi2usbProcess_keeps clock
    (I := fun app' w' => SameShell app.selector.toList w app'.selector.toList w') ⟨rfl, rfl, rfl⟩
    (fun _ _ _ h => h) ?_ (fun _ s _ hpos h => h.trans (processStep_shell clock _ s hpos)) rc
  intro serial hs
  rcases processSerialData_shape app.copy serial w with ⟨rbuf, evs, hserial, hworld, -⟩
  have hshell : ({ serial with rbuf := rbuf } : Iodev).shell = serial.shell := rfl
  rw [hserial, hworld, Selector.store_toList]
  exact ⟨map_shell_set hs hshell, rfl, rfl⟩

end Hdmi2usbd
