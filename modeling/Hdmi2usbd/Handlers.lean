import Hdmi2usbd.Drivers

/-!
# Handlers — what a device does in a round of `select` (`iodev.c`, `serial.c`)

Before `select` a device puts its descriptor into the sets it waits for; after it,
the handlers of the reported events read, write or close. What `read` and `write`
return is in `IoAnswer`. The results of the handlers are not used and left out.
The handler of a listener's read event creates a device; it stands in `Selector`.
-/

namespace Hdmi2usbd

/-- What the system calls of a handler return: the bytes `read` has (`none` an error,
`[]` the end of file), the descriptor `accept` offers, the count `write` takes. -/
structure IoAnswer where
  read : Option (List UInt8)
  accept : Option Nat
  write : Option Nat
deriving DecidableEq, Repr

/-! ## Before select -/

/-- The result of a `set_masks` function. -/
structure Masks where
  active : Bool
  dev : Iodev
  sets : FdSets
  world : World

/-- `FD_CLR` of the device's descriptor, if it has one. -/
def clearMasks (dev : Iodev) (sets : FdSets) : FdSets :=
  if dev.fd ≥ 0 then sets.clr dev.fd else sets

/-- `FD_SET` of the device's descriptor. -/
def fdSet (event : IoEvent) (dev : Iodev) (s : FdSets × World) : FdSets × World :=
  (s.1.set event dev.fd, s.2.record (.registered event dev.session dev.fd))

/-- `dev->sendOk`. -/
def iodevSendok (clock : Nat → UTime) (dev : Iodev) (w : World) : Bool × World :=
  match dev.driver with
  | .serial => w.expired clock dev.pacer
  | _ => (true, w)

def iodevSetMasks (clock : Nat → UTime) (answer : OpenAnswer) (dev : Iodev) (sets : FdSets)
    (w : World) : Masks :=
  let sets := clearMasks dev sets
  match dev.state with
  | .iodevInactive => ⟨false, dev, sets, w⟩
  | .iodevClosing =>
    if dev.tbuf.used > 0 then
      let (ok, w) := iodevSendok clock dev w
      let s := if ok then fdSet .except dev (fdSet .write dev (sets, w)) else (sets, w)
      ⟨true, dev, s.1, s.2⟩
    else
      let (dev, w) := iodevClose dev ioflagNone w
      ⟨false, dev, sets, w⟩
  | .iodevNone | .iodevClosed =>
    -- opened here, it registers from the next round on
    let (dev, w) := iodevOpenDevice answer dev w
    ⟨false, dev, sets, w⟩
  | .iodevPending =>
    let s := fdSet .read dev (sets, w)
    ⟨true, dev, s.1, s.2⟩
  | .iodevOpen | .iodevConnected | .iodevActive =>
    let s := if dev.rbuf.available > 0 then fdSet .read dev (sets, w) else (sets, w)
    let s := if dev.tbuf.used > 0 then fdSet .write dev s else s
    let s := fdSet .except dev s
    ⟨true, dev, s.1, s.2⟩

def tcpSetMasksListen (answer : OpenAnswer) (dev : Iodev) (sets : FdSets) (w : World) : Masks :=
  let sets := clearMasks dev sets
  match dev.state with
  | .iodevNone | .iodevClosed =>
    let (dev, w) := iodevOpenDevice answer dev w
    ⟨false, dev, sets, w⟩
  | .iodevPending | .iodevOpen | .iodevConnected | .iodevActive =>
    let s := fdSet .except dev (fdSet .read dev (sets, w))
    ⟨true, dev, s.1, s.2⟩
  | _ => ⟨false, dev, sets, w⟩

/-- `dev->set_masks`. -/
def setMasks (clock : Nat → UTime) (answer : OpenAnswer) (dev : Iodev) (sets : FdSets)
    (w : World) : Masks :=
  match dev.driver with
  | .listen => tcpSetMasksListen answer dev sets w
  | _ => iodevSetMasks clock answer dev sets w

/-! ## After select -/

/-- Flush both buffers. -/
def flushBuffers (dev : Iodev) : Iodev := { dev with rbuf := dev.rbuf.flush, tbuf := dev.tbuf.flush }

def iodevReadHandler (answer : Option (List UInt8)) (dev : Iodev) (w : World) : Iodev × World :=
  if dev.fd = -1 then (dev, w)
  else
    match iodevRead answer dev dev.rbuf.available with
    | some (b :: bs) =>
      ({ dev with rbuf := (dev.rbuf.put (b :: bs)).2 }, w.record (.received dev.session (b :: bs)))
    | _ =>
      -- the flags are the state IODEV_CLOSED, which reads as IOFLAG_INACTIVE
      iodevClose (flushBuffers dev) DevState.iodevClosed.toNat w

/-- The bytes `write` took leave the buffer. -/
def advance (dev : Iodev) (rc : Nat) (w : World) : Iodev × World :=
  ({ dev with tbuf := (dev.tbuf.get false rc).2.2 },
    w.record (.sent dev.session (dev.tbuf.peek rc).2 w.tick))

def iodevWriteHandler (answer : Option Nat) (dev : Iodev) (w : World) : Iodev × World :=
  if dev.fd = -1 then (dev, w)
  else
    let available := dev.tbuf.used
    if available = 0 then (dev, w)
    else
      match answer with
      | none => iodevClose (flushBuffers dev) DevState.iodevNone.toNat w
      | some rc => advance dev (min rc available) w

def characterPacing : UTime := 5000

/-- The serial device writes one character at a time. -/
def serialWriteHandler (clock : Nat → UTime) (answer : Option Nat) (dev : Iodev) (w : World) :
    Iodev × World :=
  if dev.fd = -1 then (dev, w)
  else if dev.tbuf.used = 0 then (dev, w)
  else
    let (expired, w) := w.expired clock dev.pacer
    if ¬ expired then (dev, w)
    else
      match answer with
      | none => iodevClose dev DevState.iodevNone.toNat w
      | some rc =>
        let (dev, w) := advance dev (min rc 1) w
        let (pacer, w) := w.reset clock characterPacing
        ({ dev with pacer := pacer }, w)

def iodevExceptHandler (dev : Iodev) (w : World) : Iodev × World :=
  iodevClose dev DevState.iodevNone.toNat w

/-- The handler of an event, but for the read handler of a listener. -/
def iodevHandler (clock : Nat → UTime) (event : IoEvent) (answer : IoAnswer) (dev : Iodev)
    (w : World) : Iodev × World :=
  match event with
  | .read => iodevReadHandler answer.read dev w
  | .write =>
    match dev.driver with
    | .serial => serialWriteHandler clock answer.write dev w
    | _ => iodevWriteHandler answer.write dev w
  | .except => iodevExceptHandler dev w

/-! ## When a handler drops what is buffered -/

/-- The read handler gets an error or the end of the file. -/
def readFails (answer : Option (List UInt8)) (dev : Iodev) : Bool :=
  ((iodevRead answer dev dev.rbuf.available).getD []).isEmpty

/-- The handler of an event flushes the buffers of the device. -/
def iodevFlushes (event : IoEvent) (answer : IoAnswer) (dev : Iodev) : Bool :=
  match event with
  | .read => dev.fd ≠ -1 && readFails answer.read dev
  | .write => dev.driver ≠ .serial && dev.fd ≠ -1 && dev.tbuf.used ≠ 0 && answer.write = none
  | .except => false

/-- What the read handler does: nothing, or a close with both buffers flushed, or the new
bytes are stored. -/
theorem iodevReadHandler_cases (answer : Option (List UInt8)) (dev : Iodev) (w : World) :
    iodevReadHandler answer dev w = (dev, w) ∨
    (dev.fd ≠ -1 ∧ readFails answer dev ∧ iodevReadHandler answer dev w =
      iodevClose (flushBuffers dev) DevState.iodevClosed.toNat w) ∨
    ∃ bytes, bytes ≠ [] ∧ bytes.length ≤ dev.rbuf.available ∧ iodevIsOpen dev ∧
      iodevReadHandler answer dev w = ({ dev with rbuf := (dev.rbuf.put bytes).2 },
        w.record (.received dev.session bytes)) := by
  unfold iodevReadHandler
  split
  · exact .inl rfl
  · next hfd =>
    right
    cases hread : iodevRead answer dev dev.rbuf.available with
    | none => exact .inl ⟨hfd, by simp [readFails, hread], rfl⟩
    | some bytes =>
      cases bytes with
      | nil => exact .inl ⟨hfd, by simp [readFails, hread], rfl⟩
      | cons b bs =>
        right
        unfold iodevRead at hread
        split at hread
        · cases hread
        · next hopen =>
          rcases Option.map_eq_some_iff.mp hread with ⟨bytes, -, hbytes⟩
          refine ⟨b :: bs, by simp, ?_, by simpa using hopen, rfl⟩
          rw [← hbytes, List.length_take]
          omega

end Hdmi2usbd
