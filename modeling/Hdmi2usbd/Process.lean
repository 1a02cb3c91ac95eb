import Hdmi2usbd.Selector

/-!
# Process — the process cycle of `hdmi2usbd.c`

Each cycle moves what the serial device has sent to the copy buffer, copies it to
every connection, gathers what the connections have sent into their line buffers, and
hands at most one command to the serial device. The functions take the parts of the
application they touch.
-/

namespace Hdmi2usbd

/-- Exit codes of the daemon. -/
def exSuccess : Int := 0

def exNormal : Int := 1

def exRequest : Int := 2

def exStartup : Int := 3

/-- 500ms. -/
def commandPace : UTime := 500000

/-- The options the modelled functions read. -/
structure Hdmi2usbOpts where
  iobufsize : Nat

/-- `struct hdmi2usb`. -/
structure Hdmi2usb where
  opts : Hdmi2usbOpts
  selector : Selector
  copy : RingBuffer
  lastCommand : Microtimer

/-- Move what is in the receive buffer of the open serial device to the copy buffer:
the count, the copy buffer and the device. -/
def hdmi2usbProcessSerialData (copy : RingBuffer) (serial : Iodev) (w : World) :
    Nat × RingBuffer × Iodev × World :=
  let sBytes := if iodevIsOpen serial then serial.rbuf.used else 0
  if sBytes ≠ 0 then
    let (n, copy', rbuf) := RingBuffer.copymove copy serial.rbuf true sBytes
    (n, copy', { serial with rbuf := rbuf }, w.record (.moved (serial.rbuf.peek n).2))
  else (0, copy, serial, w)

/-- Copy the serial data of this cycle to a connection. -/
def copySerialData (copy : RingBuffer) (sBytes : Nat) (dev : Iodev) (w : World) : Iodev × World :=
  if sBytes ≠ 0 then
    let (n, tbuf, _) := RingBuffer.copymove dev.tbuf copy false sBytes
    ({ dev with tbuf := tbuf }, w.record (.copied dev.session (copy.peek n).2))
  else (dev, w)

/-- Gather the input of a connection into its line buffer. -/
def hdmi2usbProcessClientData (dev : Iodev) : Iodev :=
  let rBytes := dev.rbuf.used
  if rBytes ≠ 0 then
    match dev.linebuf with
    | some linebuf =>
      let (_, data, rbuf) := dev.rbuf.get true rBytes
      { dev with rbuf := rbuf, linebuf := some (linebuf.append data) }
    | none => dev
  else dev

/-- Hand the next command of a connection to the serial device, if it is time: the
timer, the serial device and the connection. The result of `iodev_write` is not looked at. -/
def hdmi2usbProcessClientCommands (clock : Nat → UTime) (lastCommand : Microtimer)
    (serial dev : Iodev) (w : World) : Microtimer × Iodev × Iodev × World :=
  let pass := w.checkedAt clock lastCommand
  let (expired, w) := w.expired clock lastCommand
  if expired then
    match dev.linebuf with
    | some linebuf =>
      if linebuf.length > 0 then
        match linebuf.nextstr 0 with
        | (some command, length, _) =>
          if length > 0 then
            let (_, serial) := iodevWrite serial command
            let dev := { dev with linebuf := some (linebuf.consume length) }
            let (lastCommand, w) := w.reset clock commandPace
            (lastCommand, serial, dev,
              w.record (.handed dev.session command pass lastCommand.tStarted))
          else (lastCommand, serial, dev, w)
        | (none, _, _) => (lastCommand, serial, dev, w)
      else (lastCommand, serial, dev, w)
    | none => (lastCommand, serial, dev, w)
  else (lastCommand, serial, dev, w)

/-! ## The cycle -/

/-- The state of the loop of `hdmi2usb_process`. -/
structure ProcessState where
  app : Hdmi2usb
  world : World
  listenerCount : Nat
  connectCount : Nat

/-- The loop body of `hdmi2usb_process`; the serial device is at index 0. -/
def processStep (clock : Nat → UTime) (sBytes : Nat) (s : ProcessState) (index : Nat) :
    ProcessState :=
  match selectorGetDevice s.app.selector 0, selectorGetDevice s.app.selector index with
  | some serial, some dev =>
    if iodevIsListener dev then { s with listenerCount := s.listenerCount + 1 }
    else
      -- a connection, also one that is no longer open
      let (dev, w) := copySerialData s.app.copy sBytes dev s.world
      let dev := hdmi2usbProcessClientData dev
      let (lastCommand, serial, dev, w) :=
        hdmi2usbProcessClientCommands clock s.app.lastCommand serial dev w
      { app := { s.app with
          selector := (s.app.selector.store 0 serial).store index dev
          lastCommand := lastCommand }
        world := w
        listenerCount := s.listenerCount
        connectCount := s.connectCount + 1 }
  | _, _ => s

/-- `hdmi2usb_process`: the exit code and the application. -/
def hdmi2usbProcess (clock : Nat → UTime) (app : Hdmi2usb) (rc : Int) (w : World) :
    Int × Hdmi2usb × World :=
  match selectorGetDevice app.selector 0 with
  | none => (exNormal, app, w)
  | some serial =>
    if serial.state = .iodevInactive then (exNormal, app, w)
    else
      let (sBytes, copy, serial, w) := hdmi2usbProcessSerialData app.copy serial w
      let app := { app with selector := app.selector.store 0 serial, copy := copy }
      let s := Machine.run (processStep clock sBytes) ⟨app, w, 0, 0⟩
        (List.range' 1 (selectorDeviceCount app.selector - 1))
      (if s.listenerCount = 0 then exNormal else rc,
        { s.app with copy := s.app.copy.flush }, s.world)

end Hdmi2usbd
