import Hdmi2usbd.Broadcast

/-!
# Isolation — what a client gets does not depend on the other clients

Two runs of process cycles are compared. The serial device has the same state and the same
bytes at the start of each pair of cycles, a client has the same send buffer at the start of
the first, and the same number of bytes is taken out of it after each; all else may differ.
Then the client is sent the same (`clients_isolated`).
-/

namespace Hdmi2usbd

open Machine (run)

variable (clock : Nat → UTime)

/-! ## One cycle -/

theorem copySerialData_tbuf (copy : RingBuffer) (sBytes : Nat) (dev : Iodev) (w : World) :
    (copySerialData copy sBytes dev w).1.tbuf.contents =
        dev.tbuf.contents ++ copy.contents.take (min sBytes dev.tbuf.available) ∧
      (copySerialData copy sBytes dev w).1.tbuf.size = dev.tbuf.size := by
  unfold copySerialData
  split
  · have hall : copy.contents.take (min sBytes (min dev.tbuf.available copy.used)) =
        copy.contents.take (min sBytes dev.tbuf.available) := by
      rw [← copy.length_contents, ← min_assoc, ← List.take_eq_take_min]
    simp [min_assoc, hall]
  · next hzero =>
    rw [not_not] at hzero
    simp [hzero]

/-- A device fed with the first bytes of a chunk, as many as its send buffer has room for. -/
def Fed (chunk : List UInt8) (dev dev' : Iodev) : Prop :=
  dev'.tbuf.contents = dev.tbuf.contents ++ chunk.take dev.tbuf.available ∧
    dev'.tbuf.size = dev.tbuf.size

/-- The turn of a connection feeds it with the chunk. -/
theorem processStep_feeds {sBytes : Nat} {s : ProcessState} {index : Nat} {serial dev : Iodev}
    (hall : s.app.copy.contents.length = sBytes)
    (hs : s.app.selector.toList[0]? = some serial)
    (hd : s.app.selector.toList[index]? = some dev) (hconn : iodevIsListener dev = false) :
    ∃ dev', (processStep clock sBytes s index).app.selector.toList[index]? = some dev' ∧
      Fed s.app.copy.contents dev dev' := by
  rcases copySerialData_tbuf s.app.copy sBytes dev s.world with ⟨htbuf, hsize⟩
  rcases copySerialData_spec s.app.copy sBytes dev s.world with ⟨tbuf, copied, hcopy, -⟩
  rcases clientData_spec { dev with tbuf := tbuf } with ⟨-, rbuf, linebuf, hdata⟩
  rcases clientCommands_spec clock s.app.lastCommand serial
      (hdmi2usbProcessClientData { dev with tbuf := tbuf })
      { s.world with log := s.world.log ++ copied } with ⟨stbuf, linebuf', _, -, hdev, -⟩
  rw [hcopy] at htbuf hsize
  rw [hdata] at hdev
  refine ⟨{ dev with rbuf := rbuf, tbuf := tbuf, linebuf := linebuf' }, ?_, ?_, hsize⟩
  · have hlt := (List.getElem?_eq_some_iff.mp hd).1
    rw [← selectorGetDevice_eq] at hs hd
    rw [Selector.length_toList] at hlt
    simp [processStep, hs, hd, hconn, hcopy, hdata, hdev, hlt]
  · -- the chunk is no longer than what is asked for
    rw [htbuf, ← hall, Nat.min_comm, ← List.take_eq_take_min]

/-- A turn for another slot leaves a connection alone. -/
theorem processStep_other (sBytes : Nat) (s : ProcessState) {index i : Nat} (hi : 1 ≤ i)
    (hne : i ≠ index) : (processStep clock sBytes s index).app.selector.toList[i]? =
      s.app.selector.toList[i]? := by
  rcases processStep_cases clock sBytes s index with ⟨happ, -, -⟩ | ⟨serial, dev, hs, hd, hconn⟩
  · rw [happ]
  · rcases processStep_spec clock sBytes hs hd hconn with ⟨_, _, _, _, _, _, hdevs, -⟩
    rw [hdevs, List.getElem?_set_ne (fun h => hne h.symm), List.getElem?_set_ne (by omega)]

theorem processStep_copy (sBytes : Nat) (s : ProcessState) (index : Nat) :
    (processStep clock sBytes s index).app.copy = s.app.copy := by
  rcases processStep_cases clock sBytes s index with ⟨happ, -, -⟩ | ⟨serial, dev, hs, hd, hconn⟩
  · rw [happ]
  · rcases processStep_spec clock sBytes hs hd hconn with ⟨_, _, _, _, _, _, -, hcopy, -⟩
    exact hcopy

/-- The loop of a cycle before the turn for slot `j`: the connection in slot `index` is as it was
until its turn, and is fed then. -/
structure Feeding (copy : RingBuffer) (index : Nat) (dev : Iodev) (j : Nat) (s : ProcessState) :
    Prop where
  kept : s.app.copy = copy
  serial : ∃ serial, s.app.selector.toList[0]? = some serial
  before : j ≤ index → s.app.selector.toList[index]? = some dev
  after : index < j → ∃ dev', s.app.selector.toList[index]? = some dev' ∧ Fed copy.contents dev dev'

theorem processStep_feeding {copy : RingBuffer} {sBytes index : Nat} {dev : Iodev}
    (hall : copy.contents.length = sBytes) (hpos : 1 ≤ index) (hconn : iodevIsListener dev = false)
    (j : Nat) (s : ProcessState) (hj : 1 ≤ j) (h : Feeding copy index dev j s) :
    Feeding copy index dev (j + 1) (processStep clock sBytes s j) := by
  rcases h.serial with ⟨serial, hs⟩
  refine ⟨(processStep_copy clock sBytes s j).trans h.kept, ?_, ?_, ?_⟩
  · have hlength := congrArg List.length (processStep_shell clock sBytes s hj).devs
    rw [List.length_map, List.length_map] at hlength
    have hlt := (List.getElem?_eq_some_iff.mp hs).1
    exact ⟨_, List.getElem?_eq_getElem (by omega)⟩
  · intro hle
    rw [processStep_other clock sBytes s hpos (by omega)]
    exact h.before (by omega)
  · intro hlt
    rcases Nat.lt_succ_iff_lt_or_eq.mp hlt with hlt | rfl
    · -- its turn was before
      rw [processStep_other clock sBytes s hpos (by omega)]
      exact h.after hlt
    · have hcopy : s.app.copy.contents.length = sBytes := by
        rw [h.kept]
        exact hall
      have hfeeds := processStep_feeds clock hcopy hs (h.before le_rfl) hconn
      rwa [h.kept] at hfeeds

/-- What a cycle does to a connection: it is fed with what the cycle moves out of the serial
device, and the copy buffer is empty again. -/
theorem hdmi2usbProcess_feeds {app : Hdmi2usb} (rc : Int) (w : World)
    (hempty : app.copy.contents = []) {serial dev : Iodev} {index : Nat}
    (hs : app.selector.toList[0]? = some serial) (hpos : 1 ≤ index)
    (hd : app.selector.toList[index]? = some dev) (hconn : iodevIsListener dev = false) :
    ∃ dev', (hdmi2usbProcess clock app rc w).2.1.selector.toList[index]? = some dev' ∧
      Fed (chunkOf app.copy serial) dev dev' ∧
      (hdmi2usbProcess clock app rc w).2.1.copy.contents = [] ∧
      (hdmi2usbProcess clock app rc w).2.1.copy.size = app.copy.size := by
  rcases hdmi2usbProcess_cases clock app rc w with ⟨happ, -, hinactive⟩ |
    ⟨serial', hs', -, final, hfinal, happ, -⟩
  · -- nothing is moved from an inactive device
    have hchunk : chunkOf app.copy serial = [] := by
      simp [chunkOf, movedCount, iodevIsOpen, hinactive serial hs, DevState.toNat]
    rw [happ]
    exact ⟨dev, hd, ⟨by simp [hchunk], rfl⟩, hempty, rfl⟩
  · cases hs.symm.trans hs'
    rcases processSerialData_spec hempty serial w with
      ⟨copy, rbuf, hn, hcopy, hserial, hcontents, hsize, -⟩
    have hlength : copy.contents.length = movedCount app.copy serial := by
      rw [hcontents]
      exact length_chunkOf app.copy serial
    have hcount : index < selectorDeviceCount app.selector := by
      rw [← Selector.length_toList]
      exact (List.getElem?_eq_some_iff.mp hd).1
    have hstart : Feeding copy index dev 1
        ⟨{ app with selector := app.selector.store 0 { serial with rbuf := rbuf }, copy := copy },
          (hdmi2usbProcessSerialData app.copy serial w).2.2.2, 0, 0⟩ := by
      refine ⟨rfl, ⟨{ serial with rbuf := rbuf }, ?_⟩, ?_, fun hlt => by omega⟩
      · rw [Selector.store_toList, List.getElem?_set_self (by rw [Selector.length_toList]; omega)]
      · intro _
        rw [Selector.store_toList, List.getElem?_set_ne (by omega)]
        exact hd
    have hloop := Machine.run_range' (Feeding copy index dev)
      (processStep_feeding clock hlength hpos hconn) hstart (selectorDeviceCount app.selector - 1)
    rw [hn, hcopy, hserial] at hfinal
    rw [← hfinal] at hloop
    rcases hloop.after (by omega) with ⟨dev', hdev', hfed⟩
    rw [hcontents] at hfed
    rw [happ]
    refine ⟨dev', hdev', hfed, RingBuffer.flush_contents _, ?_⟩
    show final.app.copy.flush.size = app.copy.size
    rw [RingBuffer.flush_size, hloop.kept, hsize]

/-! ## Two runs -/

/-- A process cycle, with the serial device and a connection at its start. -/
structure ClientCycle where
  app : Hdmi2usb
  rc : Int
  world : World
  serial : Iodev
  index : Nat
  client : Iodev
  first : app.selector.toList[0]? = some serial
  pos : 1 ≤ index
  slot : app.selector.toList[index]? = some client
  connection : iodevIsListener client = false

namespace ClientCycle

/-- The application after the cycle. -/
def after (c : ClientCycle) : Hdmi2usb := (hdmi2usbProcess clock c.app c.rc c.world).2.1

/-- The connection after the cycle. -/
def clientAfter (c : ClientCycle) : Option Iodev := (c.after clock).selector.toList[c.index]?

/-- The next cycle: the copy buffer is the one that is left, and `n` bytes have been taken out of the
send buffer of the connection. All else may have changed. -/
structure Leads (n : Nat) (c c' : ClientCycle) : Prop where
  copy : c'.app.copy.contents = (c.after clock).copy.contents
  copySize : c'.app.copy.size = (c.after clock).copy.size
  client : ∃ client, c.clientAfter clock = some client ∧
    c'.client.tbuf.contents = client.tbuf.contents.drop n ∧ c'.client.tbuf.size = client.tbuf.size

/-- The cycles look alike to the connection: empty copy buffers of one size, a serial device of one
state with the same bytes, and a send buffer of one size with the same bytes. -/
structure Alike (c d : ClientCycle) : Prop where
  copy : c.app.copy.contents = [] ∧ d.app.copy.contents = []
  copySize : c.app.copy.size = d.app.copy.size
  state : c.serial.state = d.serial.state
  rbuf : c.serial.rbuf.contents = d.serial.rbuf.contents
  tbuf : c.client.tbuf.contents = d.client.tbuf.contents
  tbufSize : c.client.tbuf.size = d.client.tbuf.size

end ClientCycle

theorem RingBuffer.available_eq {b b' : RingBuffer} (hsize : b.size = b'.size)
    (hcontents : b.contents = b'.contents) : b.available = b'.available := by
  have h := b.used_add_available
  have h' := b'.used_add_available
  rw [← RingBuffer.length_contents] at h h'
  rw [hcontents] at h
  omega

/-- The same is moved out of the serial device. -/
theorem ClientCycle.Alike.chunk {c d : ClientCycle} (h : c.Alike d) :
    chunkOf c.app.copy c.serial = chunkOf d.app.copy d.serial := by
  have hroom := RingBuffer.available_eq h.copySize (h.copy.1.trans h.copy.2.symm)
  have hused : c.serial.rbuf.used = d.serial.rbuf.used := by
    rw [← RingBuffer.length_contents, ← RingBuffer.length_contents, h.rbuf]
  unfold chunkOf movedCount iodevIsOpen
  rw [h.state, h.rbuf, hused, hroom]

/-- After the cycle, the connections have the same to send, and the copy buffers are empty. -/
structure SentAlike (clock clock' : Nat → UTime) (c d : ClientCycle) : Prop where
  client : ∃ x y, c.clientAfter clock = some x ∧ d.clientAfter clock' = some y ∧
    x.tbuf.contents = y.tbuf.contents ∧ x.tbuf.size = y.tbuf.size
  copy : (c.after clock).copy.contents = [] ∧ (d.after clock').copy.contents = []
  copySize : (c.after clock).copy.size = (d.after clock').copy.size

theorem cycle_alike (clock clock' : Nat → UTime) {c d : ClientCycle} (h : c.Alike d) :
    SentAlike clock clock' c d := by
  rcases hdmi2usbProcess_feeds clock c.rc c.world h.copy.1 c.first c.pos c.slot c.connection with
    ⟨x, hx, hfed, hcopy, hsize⟩
  rcases hdmi2usbProcess_feeds clock' d.rc d.world h.copy.2 d.first d.pos d.slot d.connection with
    ⟨y, hy, hfed', hcopy', hsize'⟩
  refine ⟨⟨x, y, hx, hy, ?_, ?_⟩, ⟨hcopy, hcopy'⟩, ?_⟩
  · rw [hfed.1, hfed'.1, h.chunk, h.tbuf, RingBuffer.available_eq h.tbufSize h.tbuf]
  · rw [hfed.2, hfed'.2, h.tbufSize]
  · exact hsize.trans (h.copySize.trans hsize'.symm)

/-- The cycles that come next look alike again, if the serial device does. -/
theorem SentAlike.next {clock clock' : Nat → UTime} {c d c' d' : ClientCycle} {n : Nat}
    (h : SentAlike clock clock' c d) (hc : c.Leads clock n c') (hd : d.Leads clock' n d')
    (hstate : c'.serial.state = d'.serial.state)
    (hrbuf : c'.serial.rbuf.contents = d'.serial.rbuf.contents) : c'.Alike d' := by
  rcases h.client with ⟨x, y, hx, hy, htbuf, hsize⟩
  rcases hc with ⟨hcopy, hcopySize, x', hx', hdrained, hkept⟩
  rcases hd with ⟨hcopy', hcopySize', y', hy', hdrained', hkept'⟩
  cases hx.symm.trans hx'
  cases hy.symm.trans hy'
  refine ⟨?_, ?_, hstate, hrbuf, ?_, ?_⟩
  · rw [hcopy, hcopy']
    exact h.copy
  · rw [hcopySize, hcopySize']
    exact h.copySize
  · rw [hdrained, hdrained', htbuf]
  · rw [hkept, hkept', hsize]

/-- Clients are isolated: two runs of `n` process cycles that agree on the serial device at the
start of each cycle, on the send buffer of a client at the start of the first, on how many bytes are
taken out of it after each, and on the size of the copy buffers, which are empty at first, leave the
client with the same bytes to send after every cycle, and the copy buffers empty. -/
theorem clients_isolated (clock clock' : Nat → UTime) (c d : Nat → ClientCycle) (taken : Nat → Nat)
    (n : Nat) (hstart : (c 0).Alike (d 0))
    (hserial : ∀ k, k < n → (c k).serial.state = (d k).serial.state ∧
      (c k).serial.rbuf.contents = (d k).serial.rbuf.contents)
    (hc : ∀ k, k + 1 < n → (c k).Leads clock (taken k) (c (k + 1)))
    (hd : ∀ k, k + 1 < n → (d k).Leads clock' (taken k) (d (k + 1))) :
    ∀ k, k < n → SentAlike clock clock' (c k) (d k) := by
  intro k hk
  have halike : (c k).Alike (d k) := by
    induction k with
    | zero => exact hstart
    | succ k ih =>
      have hsent := cycle_alike clock clock' (ih (by omega))
      exact hsent.next (hc k hk) (hd k hk) (hserial (k + 1) hk).1 (hserial (k + 1) hk).2
  exact cycle_alike clock clock' halike

/-! ## A client alone, and the same client behind another -/

/-- The next cycle, checked on the connection after the cycle. -/
theorem ClientCycle.leads_of {n : Nat} {c c' : ClientCycle}
    (hcopy : c'.app.copy.contents = (c.after clock).copy.contents)
    (hcopySize : c'.app.copy.size = (c.after clock).copy.size)
    (hclient : (c.clientAfter clock).map (fun x => (x.tbuf.contents.drop n, x.tbuf.size)) =
      some (c'.client.tbuf.contents, c'.client.tbuf.size)) : c.Leads clock n c' := by
  rcases Option.map_eq_some_iff.mp hclient with ⟨client, hafter, heq⟩
  rw [Prod.mk.injEq] at heq
  exact ⟨hcopy, hcopySize, client, hafter, heq.1.symm, heq.2.symm⟩

/-- The process cycle of a daemon, with the connection in a slot. -/
def Daemon.cycle (d : Daemon) (index : Nat) (hpos : 1 ≤ index)
    (hfirst : d.app.selector.toList[0]?.isSome) (hslot : d.app.selector.toList[index]?.isSome)
    (hconn : iodevIsListener (d.app.selector.toList[index]?.get hslot) = false) : ClientCycle where
  app := d.app
  rc := 0
  world := d.world
  serial := d.app.selector.toList[0]?.get hfirst
  index := index
  client := d.app.selector.toList[index]?.get hslot
  first := (Option.some_get hfirst).symm
  pos := hpos
  slot := (Option.some_get hslot).symm
  connection := hconn

/-- The daemon after some inputs. -/
def Daemon.afterInputs (inputs : List Input) : Daemon :=
  run (Daemon.step fun _ => 0) (Daemon.start (fun _ => 0) 64 Daemon.oneAddress) inputs

/-- The serial device sends two bytes, for one client, on descriptor 5. -/
def aloneFirst : List Input :=
  Daemon.firstConnection ++ [Daemon.turn ⟨{3}, ∅, ∅⟩ ⟨some [97, 98], none, none⟩, Daemon.quietTurn]

/-- The client is sent one byte, and the serial device sends another. -/
def aloneSecond : List Input :=
  aloneFirst ++ [.check Daemon.oneAddress,
    Daemon.turn ⟨{3}, {5}, ∅⟩ ⟨some [99], none, some 1⟩, Daemon.quietTurn]

/-- The same with the client on descriptor 6, after one that reads nothing. -/
def behindFirst : List Input :=
  Daemon.firstConnection ++ [Daemon.turn ⟨{4}, ∅, ∅⟩ ⟨none, some 6, none⟩,
    Daemon.turn ⟨{3}, ∅, ∅⟩ ⟨some [97, 98], none, none⟩, Daemon.quietTurn]

def behindSecond : List Input :=
  behindFirst ++ [.check Daemon.oneAddress,
    Daemon.turn ⟨{3}, {6}, ∅⟩ ⟨some [99], none, some 1⟩, Daemon.quietTurn]

def aloneCycle : Nat → ClientCycle
  | 0 => (Daemon.afterInputs aloneFirst).cycle 2 (by decide) (by decide +kernel) (by decide +kernel)
    (by decide +kernel)
  | _ => (Daemon.afterInputs aloneSecond).cycle 2 (by decide) (by decide +kernel) (by decide +kernel)
    (by decide +kernel)

def behindCycle : Nat → ClientCycle
  | 0 => (Daemon.afterInputs behindFirst).cycle 3 (by decide) (by decide +kernel) (by decide +kernel)
    (by decide +kernel)
  | _ => (Daemon.afterInputs behindSecond).cycle 3 (by decide) (by decide +kernel) (by decide +kernel)
    (by decide +kernel)

theorem clients_isolated_behind :
    (aloneCycle 1).client.tbuf.contents = [98] ∧
      SentAlike (fun _ => 0) (fun _ => 0) (aloneCycle 1) (behindCycle 1) := by
  refine ⟨by decide +kernel, ?_⟩
  refine clients_isolated (fun _ => 0) (fun _ => 0) aloneCycle behindCycle (fun _ => 1) 2 ?_ ?_ ?_ ?_ 1
    (by decide)
  · exact ⟨by decide +kernel, by decide +kernel, by decide +kernel, by decide +kernel,
      by decide +kernel, by decide +kernel⟩
  · decide +kernel
  · intro k hk
    obtain rfl : k = 0 := by omega
    exact ClientCycle.leads_of _ (by decide +kernel) (by decide +kernel) (by decide +kernel)
  · intro k hk
    obtain rfl : k = 0 := by omega
    exact ClientCycle.leads_of _ (by decide +kernel) (by decide +kernel) (by decide +kernel)

end Hdmi2usbd
