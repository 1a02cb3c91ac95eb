import Hdmi2usbd.Iodev

/-!
# Drivers — opening, closing and creating devices (`serial.c`, `nettcp.c`)

The three close functions share one state machine (`closeDevice`); that of an
accepted connection makes the closed device inactive. The answers of the system
calls that open a device are collected in `OpenAnswer`; calls whose failure is only
logged are left out. An open function returns `dev->fd`, which its device holds.
-/

namespace Hdmi2usbd

/-- What the system calls of an open function return: the descriptor, and which of
the later calls succeed. -/
structure OpenAnswer where
  fd : Option Nat
  tcgetattr : Bool
  tcsetattr : Bool
  bind : Bool
  listen : Bool
deriving Repr

/-! ## Close -/

/-- Close the descriptor; the device is closed. -/
def release (dev : Iodev) (w : World) : Iodev × World :=
  ({ dev with fd := -1, state := .iodevClosed }, w.closeFd dev.session dev.fd)

/-- The body of `serial_close` and of `tcp_close`. -/
def closeDevice (dev : Iodev) (flags : Nat) (w : World) : Iodev × World :=
  match dev.state with
  | .iodevNone | .iodevInactive | .iodevClosed => (dev, w)
  | .iodevPending => release dev w          -- never flush if only pending
  | _ =>
    let dev := { dev with state := .iodevClosing }
    if flags &&& ioflagFlush ≠ 0 ∧ dev.tbuf.available ≠ 0 then (dev, w)
    else release dev w

def serialClose (dev : Iodev) (flags : Nat) (w : World) : Iodev × World := closeDevice dev flags w

def tcpClose (dev : Iodev) (flags : Nat) (w : World) : Iodev × World := closeDevice dev flags w

/-- Accepted connections are never reused: closed becomes inactive. -/
def tcpCloseAccept (dev : Iodev) (flags : Nat) (w : World) : Iodev × World :=
  let (dev, w) := tcpClose dev flags w
  (if dev.state = .iodevClosed then { dev with state := .iodevInactive } else dev, w)

/-- `dev->close`. -/
def iodevClose (dev : Iodev) (flags : Nat) (w : World) : Iodev × World :=
  match dev.driver with
  | .serial => serialClose dev flags w
  | .listen => tcpClose dev flags w
  | .accepted => tcpCloseAccept dev flags w

/-! ## Open -/

/-- Close a device that is open, before it is opened again. -/
def closeIfOpen (dev : Iodev) (w : World) : Iodev × World :=
  if iodevIsOpen dev then iodevClose dev ioflagNone w else (dev, w)

def serialOpen (answer : OpenAnswer) (dev : Iodev) (w : World) : Iodev × World :=
  let (dev, w) := closeIfOpen dev w
  let (fd, w) := w.openFd .serial answer.fd
  if fd = -1 then ({ dev with fd := fd, state := .iodevInactive }, w)
  else
    let dev := { dev with fd := fd, session := w.opens, state := .iodevOpen }
    if answer.tcgetattr ∧ answer.tcsetattr then ({ dev with state := .iodevConnected }, w)
    else iodevClose dev ioflagNone w

def tcpOpenListen (answer : OpenAnswer) (dev : Iodev) (w : World) : Iodev × World :=
  let (dev, w) := closeIfOpen dev w
  if dev.fd = -1 then
    let (fd, w) := w.openFd .listen answer.fd
    if fd = -1 then ({ dev with fd := fd, state := .iodevInactive }, w)
    else
      -- pending until its options are set
      let dev := { dev with fd := fd, session := w.opens, state := .iodevOpen }
      if ¬ answer.bind then iodevClose dev ioflagInactive w
      else if ¬ answer.listen then iodevClose dev ioflagInactive w
      else ({ dev with state := .iodevConnected }, w)
  else (dev, w)

/-- The default `open` of a socket only closes. -/
def tcpOpen (dev : Iodev) (w : World) : Iodev × World := closeIfOpen dev w

/-- `dev->open`. -/
def iodevOpenDevice (answer : OpenAnswer) (dev : Iodev) (w : World) : Iodev × World :=
  match dev.driver with
  | .serial => serialOpen answer dev w
  | .listen => tcpOpenListen answer dev w
  | .accepted => tcpOpen dev w

/-! ## Create -/

/-- `serial_create`; the pacer starts expired. -/
def serialCreate (clock : Nat → UTime) (bufsize : Nat) (w : World) : Iodev × World :=
  let (pacer, w) := w.reset clock 0
  ({ iodevInit .serial bufsize with pacer := pacer }, w)

def tcpCreate (driver : Driver) (laddr : Option SockAddr) (bufsize : Nat) (withLinebuf : Bool) :
    Iodev :=
  { iodevInit driver bufsize with
    laddr := laddr
    linebuf := if withLinebuf then some .init else none }

/-- A listener has no buffers; `bufsize` is for the connections it accepts. -/
def tcpCreateListen (laddr : SockAddr) (bufsize : Nat) : Iodev :=
  { tcpCreate .listen (some laddr) 0 false with bufsize := bufsize }

/-- `tcp_accept`: the descriptor of opening `session` becomes that of the device. -/
def tcpAccept (session : Nat) (fd : Int) (dev : Iodev) : Iodev :=
  { dev with session := session, fd := fd, state := .iodevConnected }

def tcpCreateAccepted (session : Nat) (fd : Int) (bufsize : Nat) : Iodev :=
  tcpAccept session fd (tcpCreate .accepted none bufsize true)

/-! ## What they can do -/

/-- A released device: closed, or inactive if it was an accepted connection. -/
def Iodev.released (dev : Iodev) : Iodev :=
  { dev with
    fd := -1
    state := if dev.driver = .accepted then .iodevInactive else .iodevClosed }

/-- Without the flush flag, a close of a device that holds a descriptor releases it. -/
theorem iodevClose_holds {dev : Iodev} (h : dev.state.holds) {flags : Nat}
    (hflags : flags &&& ioflagFlush = 0) (w : World) :
    iodevClose dev flags w = (dev.released, w.closeFd dev.session dev.fd) := by
  have hclose : closeDevice dev flags w = release dev w := by
    unfold closeDevice
    cases hs : dev.state <;>
      simp [hs, hflags, release, DevState.holds, DevState.toNat] at h ⊢
  cases hd : dev.driver <;>
    simp [iodevClose, hd, serialClose, tcpClose, tcpCloseAccept, hclose, release, Iodev.released]

/-- A close of a device that holds none does nothing, but that a closed accepted
connection becomes inactive. -/
theorem iodevClose_not_holds {dev : Iodev} (h : ¬ dev.state.holds) (flags : Nat) (w : World) :
    iodevClose dev flags w =
      (if dev.driver = .accepted ∧ dev.state = .iodevClosed then
        { dev with state := .iodevInactive } else dev, w) := by
  have hclose : closeDevice dev flags w = (dev, w) := by
    unfold closeDevice
    cases hs : dev.state <;> simp [hs, DevState.holds, DevState.toNat] at h ⊢
  cases hd : dev.driver with
  | serial => simp [iodevClose, hd, serialClose, hclose]
  | listen => simp [iodevClose, hd, tcpClose, hclose]
  | accepted => simp [iodevClose, hd, tcpCloseAccept, tcpClose, hclose]

/-- A close of a device that holds a descriptor releases it, or leaves the device closing, to
be flushed first. -/
theorem iodevClose_cases {dev : Iodev} (h : dev.state.holds) (flags : Nat) (w : World) :
    iodevClose dev flags w = (dev.released, w.closeFd dev.session dev.fd) ∨
    (flags &&& ioflagFlush ≠ 0 ∧ dev.tbuf.available ≠ 0 ∧
      iodevClose dev flags w = ({ dev with state := .iodevClosing }, w)) := by
  have hclose : closeDevice dev flags w = release dev w ∨
      (flags &&& ioflagFlush ≠ 0 ∧ dev.tbuf.available ≠ 0 ∧
        closeDevice dev flags w = ({ dev with state := .iodevClosing }, w)) := by
    unfold closeDevice
    cases hs : dev.state with
    | iodevNone | iodevInactive | iodevClosed =>
      rw [hs] at h
      cases h
    | iodevPending => exact .inl rfl
    | iodevClosing | iodevOpen | iodevConnected | iodevActive =>
      dsimp only
      split
      · next hflush => exact .inr ⟨hflush.1, hflush.2, rfl⟩
      · exact .inl rfl
  rcases hclose with hclose | ⟨hflags, hroom, hclose⟩
  · left
    cases hd : dev.driver <;>
      simp [iodevClose, hd, serialClose, tcpClose, tcpCloseAccept, hclose, release, Iodev.released]
  · right
    refine ⟨hflags, hroom, ?_⟩
    cases hd : dev.driver <;>
      simp [iodevClose, hd, serialClose, tcpClose, tcpCloseAccept, hclose]

/-- A flushing close of an open device: it waits as long as there is room in the send buffer. -/
theorem iodevClose_flush {dev : Iodev} (h : iodevIsOpen dev) (w : World) :
    iodevClose dev ioflagFlush w =
      if dev.tbuf.available ≠ 0 then ({ dev with state := .iodevClosing }, w)
      else (dev.released, w.closeFd dev.session dev.fd) := by
  have hclose : closeDevice dev ioflagFlush w =
      if dev.tbuf.available ≠ 0 then ({ dev with state := .iodevClosing }, w) else release dev w := by
    have hflag : ioflagFlush &&& ioflagFlush ≠ 0 := by decide
    unfold closeDevice
    cases hs : dev.state with
    | iodevOpen | iodevConnected | iodevActive => simp only [hflag, ne_eq, not_false_eq_true, true_and, release]
    | _ => simp [hs, iodevIsOpen, DevState.toNat] at h
  by_cases hroom : dev.tbuf.available ≠ 0
  · rw [if_pos hroom] at hclose ⊢
    cases hd : dev.driver <;>
      simp [iodevClose, hd, serialClose, tcpClose, tcpCloseAccept, hclose]
  · rw [if_neg hroom] at hclose ⊢
    cases hd : dev.driver <;>
      simp [iodevClose, hd, serialClose, tcpClose, tcpCloseAccept, hclose, release, Iodev.released]

theorem Iodev.released_not_holds (dev : Iodev) : ¬ dev.released.state.holds := by
  unfold Iodev.released
  simp only
  split <;> simp [DevState.holds, DevState.toNat]

/-- After a close without the flush flag the device is not open. -/
theorem iodevClose_not_isOpen (dev : Iodev) {flags : Nat} (hflags : flags &&& ioflagFlush = 0)
    (w : World) : ¬ iodevIsOpen (iodevClose dev flags w).1 := by
  intro hopen
  by_cases h : dev.state.holds
  · rw [iodevClose_holds h hflags] at hopen
    exact dev.released_not_holds (holds_of_isOpen hopen)
  · rw [iodevClose_not_holds h flags] at hopen
    have hholds := holds_of_isOpen hopen
    split at hholds
    · cases hholds
    · exact h hholds

/-- The opening of a serial device that is not open: refused, or in a new session; it is undone when
the terminal cannot be set up. -/
theorem serialOpen_cases {dev : Iodev} (hd : dev.driver = .serial) (h : ¬ iodevIsOpen dev)
    (answer : OpenAnswer) (w : World) :
    (serialOpen answer dev w).1 = { dev with fd := -1, state := .iodevInactive } ∨
    (serialOpen answer dev w).1 =
      { dev with fd := -1, session := w.opens + 1, state := .iodevClosed } ∨
    ∃ fd : Nat, answer.fd = some fd ∧ (fd : Int) ∉ w.fds ∧ answer.tcgetattr ∧ answer.tcsetattr ∧
      (serialOpen answer dev w).1 =
        { dev with fd := fd, session := w.opens + 1, state := .iodevConnected } := by
  have hclosed : closeIfOpen dev w = (dev, w) := by simp [closeIfOpen, h]
  simp only [serialOpen, hclosed]
  rcases w.openFd_cases .serial answer.fd with hno | ⟨fd, hfd, hfresh, hyes⟩
  · rw [hno]
    exact .inl rfl
  · have hne : ((fd : Nat) : Int) ≠ -1 := by omega
    right
    rw [hyes]
    simp only [hne, if_false]
    split
    · next hterminal => exact .inr ⟨fd, hfd, hfresh, hterminal.1, hterminal.2, rfl⟩
    · left
      rw [iodevClose_holds (by rfl) rfl]
      simp [Iodev.released, hd]

theorem serialOpen_opens {dev : Iodev} (h : ¬ iodevIsOpen dev) {answer : OpenAnswer} {w : World}
    {fd : Nat} (hfd : answer.fd = some fd) (hfresh : (fd : Int) ∉ w.fds) (hget : answer.tcgetattr)
    (hset : answer.tcsetattr) : (serialOpen answer dev w).1 =
      { dev with fd := fd, session := w.opens + 1, state := .iodevConnected } := by
  have hclosed : closeIfOpen dev w = (dev, w) := by simp [closeIfOpen, h]
  have hne : ((fd : Nat) : Int) ≠ -1 := by omega
  simp [serialOpen, hclosed, World.openFd, hfd, hfresh, hget, hset, hne]

end Hdmi2usbd
