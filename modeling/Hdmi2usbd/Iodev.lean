import Hdmi2usbd.RingBuffer
import Hdmi2usbd.StringStore
import Hdmi2usbd.World

/-!
# Iodev — the device record of `iodev.c`

A device is a record of a descriptor, a state and its buffers. The function
pointers that a creator fills in are its `driver`; the functions that go through
them stand in `Drivers` and `Handlers`.

Left out are the texts of messages, the configuration record (of which the pacer of
a serial device and the address of a listener are kept) and the back pointer to the
selector.
-/

namespace Hdmi2usbd

/-- `enum devState`. -/
inductive DevState
  | iodevNone
  | iodevInactive
  | iodevClosed
  | iodevClosing
  | iodevPending
  | iodevOpen
  | iodevConnected
  | iodevActive
deriving DecidableEq, Repr

/-- The value of the constant. -/
def DevState.toNat : DevState → Nat
  | .iodevNone => 0
  | .iodevInactive => 1
  | .iodevClosed => 2
  | .iodevClosing => 3
  | .iodevPending => 4
  | .iodevOpen => 5
  | .iodevConnected => 6
  | .iodevActive => 7

/-! `enum closeFlags`. -/

def ioflagNone : Nat := 0

def ioflagFlush : Nat := 1

def ioflagInactive : Nat := 2

inductive Family
  | inet
  | inet6
  | other
deriving DecidableEq, Repr

/-- A socket address; address 0 is the wildcard of its family. -/
structure SockAddr where
  family : Family
  addr : Nat
deriving DecidableEq, Repr

/-- `struct iodev_s`. `session` numbers the last opening of the device. -/
structure Iodev where
  driver : Driver
  session : Nat
  fd : Int
  listener : Bool
  state : DevState
  bufsize : Nat
  rbuf : RingBuffer
  tbuf : RingBuffer
  linebuf : Option LineBuffer
  pacer : Microtimer
  laddr : Option SockAddr

/-- `iodev_init`: the common part of every creator. -/
def iodevInit (driver : Driver) (bufsize : Nat) : Iodev where
  driver := driver
  session := 0
  fd := -1
  listener := bufsize == 0
  state := .iodevNone
  bufsize := bufsize
  rbuf := .init bufsize
  tbuf := .init bufsize
  linebuf := none
  pacer := ⟨0, 0⟩
  laddr := none

/-- What stands in a slot of the device array before a creator has filled it. -/
instance : Inhabited Iodev := ⟨{ iodevInit .serial 0 with fd := 0, listener := false }⟩

def iodevIsListener (dev : Iodev) : Bool := dev.listener

def iodevIsOpen (dev : Iodev) : Bool := dev.state.toNat ≥ DevState.iodevOpen.toNat

/-- `iodev_write`: its result and the device. What does not fit into `tbuf` is not
reported. -/
def iodevWrite (dev : Iodev) (buf : List UInt8) : Int × Iodev :=
  if ¬ iodevIsOpen dev then (-1, dev)
  else if buf.length > 0 then (buf.length, { dev with tbuf := (dev.tbuf.put buf).2 })
  else (buf.length, dev)

/-- `iodev_read` of at most `len` bytes when the system has `answer` to give: `none`
is -1, the empty list the end of file. -/
def iodevRead (answer : Option (List UInt8)) (dev : Iodev) (len : Nat) : Option (List UInt8) :=
  if ¬ iodevIsOpen dev then none else answer.map (List.take len)

/-! ## Descriptor sets -/

/-- The three sets of `select`. -/
structure FdSets where
  r : Finset Int
  w : Finset Int
  x : Finset Int

namespace FdSets

/-- `FD_ZERO`. -/
def zero : FdSets := ⟨∅, ∅, ∅⟩

def get (sets : FdSets) : IoEvent → Finset Int
  | .read => sets.r
  | .write => sets.w
  | .except => sets.x

/-- `FD_CLR` on all three sets. -/
def clr (sets : FdSets) (fd : Int) : FdSets :=
  ⟨sets.r.erase fd, sets.w.erase fd, sets.x.erase fd⟩

/-- `FD_SET`. -/
def set (sets : FdSets) (event : IoEvent) (fd : Int) : FdSets :=
  match event with
  | .read => { sets with r := insert fd sets.r }
  | .write => { sets with w := insert fd sets.w }
  | .except => { sets with x := insert fd sets.x }

variable (sets : FdSets) (e e' : IoEvent) (fd fd' : Int)

@[simp] theorem get_clr : (sets.clr fd).get e = (sets.get e).erase fd := by
  cases e <;> rfl

@[simp] theorem mem_get_set : fd' ∈ (sets.set e fd).get e' ↔ (fd' = fd ∧ e' = e) ∨ fd' ∈ sets.get e' := by
  cases e <;> cases e' <;> simp [set, get]

end FdSets

/-- `dev->is_set`. -/
def iodevIsSet (dev : Iodev) (fds : Finset Int) : Bool := if dev.fd = -1 then false else dev.fd ∈ fds

theorem iodevIsSet_iff {dev : Iodev} {fds : Finset Int} :
    iodevIsSet dev fds ↔ dev.fd ≠ -1 ∧ dev.fd ∈ fds := by
  by_cases h : dev.fd = -1 <;> simp [iodevIsSet, h]

/-- The states in which a device holds a descriptor. -/
def DevState.holds (state : DevState) : Bool := state.toNat ≥ DevState.iodevClosing.toNat

theorem holds_of_isOpen {dev : Iodev} (h : iodevIsOpen dev) : dev.state.holds := by
  revert h
  cases hs : dev.state <;> simp [iodevIsOpen, DevState.holds, DevState.toNat, hs]

/-- The bytes in the line buffer, if there is one. -/
def Iodev.lineContents (dev : Iodev) : List UInt8 :=
  match dev.linebuf with
  | some linebuf => linebuf.contents
  | none => []

/-- What a client has sent that is still stored in its device. -/
def Iodev.stored (dev : Iodev) : List UInt8 := dev.lineContents ++ dev.rbuf.contents

end Hdmi2usbd
