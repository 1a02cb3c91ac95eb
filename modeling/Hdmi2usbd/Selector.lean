import Mathlib.Data.Finset.Card
import Hdmi2usbd.DynArray
import Hdmi2usbd.Handlers
import Hdmi2usbd.Lib.Machine

/-!
# Selector — the device array and the select loop of `selector.c`

The two loops over the devices, `selector_ioset` and `selector_dispatch`, are runs of
their bodies. A dispatch takes a pointer to the device once and uses it for all three
events, while the read handler of a listener may grow the array; every use is logged
with the block the pointer is into and the block the array is in. What is read through
a pointer into a replaced block is taken to be what was there when it was replaced, and
what a handler writes through it is lost: the device in the array stays as it was.

What the system answers is indexed by the device: `opens` for the opens of the ioset
and `ios` for the handlers of the dispatch.
-/

namespace Hdmi2usbd

/-- `struct selector_s`. -/
structure Selector where
  devs : DynArray Iodev

namespace Selector

/-- The devices in order. -/
def toList (sel : Selector) : List Iodev := sel.devs.toList

/-- Write a device through its pointer. -/
def store (sel : Selector) (index : Nat) (dev : Iodev) : Selector := ⟨sel.devs.store index dev⟩

end Selector

def selectorInit : Selector := ⟨.init 8⟩

def selectorDeviceCount (sel : Selector) : Nat := sel.devs.count

def selectorGetDevice (sel : Selector) (index : Nat) : Option Iodev := sel.devs.get index

/-! ## Creating devices -/

/-- The first inactive slot; slot 0, the serial device, is never looked at. -/
def inactiveSlot (sel : Selector) : Option Nat :=
  (List.range' 1 (selectorDeviceCount sel - 1)).find? fun index =>
    match selectorGetDevice sel index with
    | some dev => dev.state = .iodevInactive
    | none => false

/-- An inactive slot, or else a new one at the end. -/
def selectorNewDevice (sel : Selector) : Nat × Selector :=
  match inactiveSlot sel with
  | some index => (index, sel)
  | none => (sel.devs.new.1, ⟨sel.devs.new.2⟩)

/-- A creator fills in the record of its new device. -/
def selectorPlace (sel : Selector) (dev : Iodev) : Selector :=
  let (index, sel) := selectorNewDevice sel
  sel.store index dev

def selectorNewDeviceSerial (clock : Nat → UTime) (bufsize : Nat) (sel : Selector) (w : World) :
    Selector × World :=
  let (dev, w) := serialCreate clock bufsize w
  (selectorPlace sel dev, w)

def selectorNewDeviceListen (laddr : SockAddr) (bufsize : Nat) (sel : Selector) : Selector :=
  selectorPlace sel (tcpCreateListen laddr bufsize)

def selectorNewDeviceAccept (session : Nat) (fd : Int) (bufsize : Nat) (sel : Selector) :
    Selector :=
  selectorPlace sel (tcpCreateAccepted session fd bufsize)

/-- `tcp_accept_handler`, the read handler of a listener. -/
def tcpAcceptHandler (answer : IoAnswer) (dev : Iodev) (sel : Selector) (w : World) :
    Selector × World :=
  let (fd, w) := w.openFd .accepted answer.accept
  if fd < 0 then (sel, w)
  else (selectorNewDeviceAccept w.opens fd dev.bufsize sel, w)

/-! ## Before select -/

/-- The state of the loop of `selector_ioset`. -/
structure IosetState where
  selector : Selector
  sets : FdSets
  world : World
  activeCount : Nat
  highestFd : Int

/-- The loop body of `selector_ioset`. -/
def iosetStep (clock : Nat → UTime) (opens : Nat → OpenAnswer) (s : IosetState) (index : Nat) :
    IosetState :=
  match selectorGetDevice s.selector index with
  | none => s
  | some dev =>
    let m := setMasks clock (opens index) dev s.sets s.world
    { selector := s.selector.store index m.dev
      sets := m.sets
      world := m.world
      activeCount := if m.active then s.activeCount + 1 else s.activeCount
      highestFd := if m.active then max s.highestFd m.dev.fd else s.highestFd }

def selectorIoset (clock : Nat → UTime) (opens : Nat → OpenAnswer) (sets : FdSets)
    (sel : Selector) (w : World) : IosetState :=
  Machine.run (iosetStep clock opens) ⟨sel, sets, w, 0, 0⟩ (List.range (selectorDeviceCount sel))

/-! ## After select -/

/-- The state of the loop of `selector_dispatch`. -/
structure DispatchState where
  index : Nat
  ready : Int
  selector : Selector
  world : World

/-- The handler of an event, for a device that is read through a pointer into block `ptr`. -/
def runHandler (clock : Nat → UTime) (event : IoEvent) (answer : IoAnswer) (ptr index : Nat)
    (dev : Iodev) (sel : Selector) (w : World) : Selector × World :=
  if event = .read ∧ dev.driver = .listen then tcpAcceptHandler answer dev sel w
  else
    let (dev, w) := iodevHandler clock event answer dev w
    -- what is written into a block that has been replaced is lost
    (if ptr = sel.devs.block then sel.store index dev else sel, w)

/-- One of the three tests of the loop body, through the pointer taken into block `ptr`. -/
def dispatchEvent (clock : Nat → UTime) (sets : FdSets) (answer : IoAnswer) (ptr : Nat)
    (s : DispatchState) (event : IoEvent) : DispatchState :=
  match selectorGetDevice s.selector s.index with
  | none => s
  | some dev =>
    let deref := Ev.deref ptr s.selector.devs.block
    let w := s.world.record deref
    if iodevIsSet dev (sets.get event) then
      let w := (w.record deref).record (.called event dev.session dev.fd)
      let (sel, w) := runHandler clock event answer ptr s.index dev s.selector w
      { s with ready := s.ready - 1, selector := sel, world := w }
    else { s with world := w }

/-- The condition of the dispatch loop. -/
def DispatchState.More (s : DispatchState) : Prop :=
  s.ready > 0 ∧ s.index < selectorDeviceCount s.selector

instance (s : DispatchState) : Decidable s.More := inferInstanceAs (Decidable (_ ∧ _))

/-- A turn of the loop of `selector_dispatch`. -/
def dispatchStep (clock : Nat → UTime) (sets : FdSets) (s : DispatchState) (answer : IoAnswer) :
    DispatchState :=
  if s.More then
    let ptr := s.selector.devs.block            -- one `array_get` for the three tests
    let s := dispatchEvent clock sets answer ptr s .read
    let s := dispatchEvent clock sets answer ptr s .write
    let s := dispatchEvent clock sets answer ptr s .except
    { s with index := s.index + 1 }
  else s

/-- As many turns as the loop can take: each accept adds a device but uses up a ready event. -/
def dispatchTurns (ready : Int) (sel : Selector) : Nat := selectorDeviceCount sel + ready.toNat

def selectorDispatch (clock : Nat → UTime) (sets : FdSets) (ios : Nat → IoAnswer) (ready : Int)
    (sel : Selector) (w : World) : DispatchState :=
  Machine.run (dispatchStep clock sets) ⟨0, ready, sel, w⟩
    ((List.range (dispatchTurns ready sel)).map ios)

/-! ## The loop -/

/-- What `select` comes back with: an error, or the descriptors that are ready. -/
inductive SelectAnswer
  | error
  | ready (sets : FdSets)

/-- The members below `nfds`, which `select` examines and counts. -/
def examined (nfds : Int) (fds : Finset Int) : Finset Int := fds.filter (· < nfds)

/-- `select`: the count and the sets it leaves. Only what it was asked for is reported. From
`nfds` on nothing is counted, but the system may leave what is there. -/
def select (nfds : Int) (sets : FdSets) : SelectAnswer → Int × FdSets
  | .error => (-1, sets)
  | .ready answer =>
    let r := sets.r ∩ answer.r
    let w := sets.w ∩ answer.w
    let x := sets.x ∩ answer.x
    ((examined nfds r).card + (examined nfds w).card + (examined nfds x).card, ⟨r, w, x⟩)

/-- The answers of the system in one turn of `selector_loop`. -/
structure RoundAnswers where
  opens : Nat → OpenAnswer
  select : SelectAnswer
  ios : Nat → IoAnswer

/-- A turn of `selector_loop`: whether the loop breaks, the sets, and the new state. -/
def selectorRound (clock : Nat → UTime) (a : RoundAnswers) (sets : FdSets) (sel : Selector)
    (w : World) : Bool × FdSets × Selector × World :=
  let s := selectorIoset clock a.opens sets sel w
  if s.activeCount = 0 then (true, s.sets, s.selector, s.world)
  else
    let (rdy, sets) := select (s.highestFd + 1) s.sets a.select
    if rdy > 0 then
      let d := selectorDispatch clock sets a.ios rdy s.selector s.world
      (false, sets, d.selector, d.world)
    else (true, sets, s.selector, s.world)

/-! ## What the device list becomes -/

namespace Selector

variable (sel : Selector) (dev : Iodev) (index : Nat)

@[simp] theorem length_toList : sel.toList.length = selectorDeviceCount sel :=
  sel.devs.length_toList

@[simp] theorem store_toList : (sel.store index dev).toList = sel.toList.set index dev :=
  sel.devs.store_toList index dev

@[simp] theorem store_count :
    selectorDeviceCount (sel.store index dev) = selectorDeviceCount sel := rfl

@[simp] theorem store_block : (sel.store index dev).devs.block = sel.devs.block := rfl

end Selector

theorem selectorGetDevice_eq (sel : Selector) (index : Nat) :
    selectorGetDevice sel index = sel.toList[index]? := sel.devs.get_eq index

@[simp] theorem selectorInit_toList : selectorInit.toList = [] := DynArray.init_toList 8

theorem inactiveSlot_some {sel : Selector} {index : Nat} (h : inactiveSlot sel = some index) :
    1 ≤ index ∧ ∃ dev, sel.toList[index]? = some dev ∧ dev.state = .iodevInactive := by
  have hmem := List.mem_of_find?_eq_some h
  have hst := List.find?_some h
  rw [List.mem_range'_1] at hmem
  rw [selectorGetDevice_eq] at hst
  refine ⟨hmem.1, ?_⟩
  cases hget : sel.toList[index]? with
  | none => simp [hget] at hst
  | some dev => exact ⟨dev, rfl, by simpa [hget] using hst⟩

theorem inactiveSlot_none {sel : Selector} (h : inactiveSlot sel = none) {index : Nat}
    (hpos : 1 ≤ index) {dev : Iodev} (hget : sel.toList[index]? = some dev) :
    dev.state ≠ .iodevInactive := by
  have hlt := (List.getElem?_eq_some_iff.mp hget).1
  rw [Selector.length_toList] at hlt
  have hnot := List.find?_eq_none.mp h index (by rw [List.mem_range'_1]; omega)
  simpa [selectorGetDevice_eq, hget] using hnot

/-- A new device takes the first inactive slot, or else stands after the others. -/
theorem selectorPlace_toList (sel : Selector) (dev : Iodev) :
    (selectorPlace sel dev).toList = match inactiveSlot sel with
      | some index => sel.toList.set index dev
      | none => sel.toList ++ [dev] := by
  unfold selectorPlace selectorNewDevice
  cases inactiveSlot sel with
  | some index => exact sel.store_toList dev index
  | none =>
    simp only [DynArray.new_index]
    exact sel.devs.new_store_toList dev

/-- A new device takes no slot whose device is not inactive. -/
theorem selectorPlace_keeps {sel : Selector} {index : Nat} {old : Iodev}
    (hold : sel.toList[index]? = some old) (hstate : old.state ≠ .iodevInactive) (dev : Iodev) :
    (selectorPlace sel dev).toList[index]? = some old := by
  rw [selectorPlace_toList]
  cases hslot : inactiveSlot sel with
  | none =>
    rw [List.getElem?_append_left (List.getElem?_eq_some_iff.mp hold).1]
    exact hold
  | some slot =>
    have hne : slot ≠ index := by
      rintro rfl
      rcases inactiveSlot_some hslot with ⟨-, old', hold', hinactive⟩
      cases hold.symm.trans hold'
      exact hstate hinactive
    rw [List.getElem?_set_ne hne]
    exact hold

/-- A new device does not take slot 0. -/
theorem selectorPlace_first {sel : Selector} (hpos : 0 < sel.toList.length) (dev : Iodev) :
    (selectorPlace sel dev).toList[0]? = sel.toList[0]? := by
  rw [selectorPlace_toList]
  cases hslot : inactiveSlot sel with
  | none => exact List.getElem?_append_left hpos
  | some slot =>
    have hone := (inactiveSlot_some hslot).1
    exact List.getElem?_set_ne (by omega)

/-- The storage block is replaced when there is no inactive slot and no room. -/
theorem selectorPlace_block (sel : Selector) (dev : Iodev) :
    (selectorPlace sel dev).devs.block =
      if inactiveSlot sel = none ∧ sel.devs.full then sel.devs.block + 1 else sel.devs.block := by
  unfold selectorPlace selectorNewDevice
  cases inactiveSlot sel with
  | some index => simp
  | none => simp

/-! ## One test -/

section Test

variable {clock : Nat → UTime} {sets : FdSets} {answer : IoAnswer} {ptr : Nat} {s : DispatchState}
  {event : IoEvent} {dev : Iodev}

/-- A use of the pointer, logged. -/
def DispatchState.deref (s : DispatchState) (ptr : Nat) : World :=
  s.world.record (.deref ptr s.selector.devs.block)

/-- The world in which the handler of an event is called. -/
def DispatchState.call (s : DispatchState) (ptr : Nat) (event : IoEvent) (dev : Iodev) : World :=
  ((s.deref ptr).record (.deref ptr s.selector.devs.block)).record
    (.called event dev.session dev.fd)

theorem dispatchEvent_unset (hget : s.selector.toList[s.index]? = some dev)
    (hset : ¬ iodevIsSet dev (sets.get event)) :
    dispatchEvent clock sets answer ptr s event = { s with world := s.deref ptr } := by
  rw [← selectorGetDevice_eq] at hget
  simp [dispatchEvent, hget, hset, DispatchState.deref]

theorem dispatchEvent_set (hget : s.selector.toList[s.index]? = some dev)
    (hset : iodevIsSet dev (sets.get event)) :
    dispatchEvent clock sets answer ptr s event = { s with
      ready := s.ready - 1
      selector := (runHandler clock event answer ptr s.index dev s.selector (s.call ptr event dev)).1
      world := (runHandler clock event answer ptr s.index dev s.selector (s.call ptr event dev)).2 } := by
  rw [← selectorGetDevice_eq] at hget
  simp [dispatchEvent, hget, hset, DispatchState.call, DispatchState.deref]

theorem getElem?_index (hlt : s.index < selectorDeviceCount s.selector) :
    s.selector.toList[s.index]? = some (s.selector.toList.get ⟨s.index, by simpa using hlt⟩) :=
  List.getElem?_eq_getElem _

@[simp] theorem dispatchEvent_index :
    (dispatchEvent clock sets answer ptr s event).index = s.index := by
  unfold dispatchEvent
  split
  · rfl
  · dsimp only
    split <;> rfl

theorem runHandler_accept (h : event = .read ∧ dev.driver = .listen) (ptr index : Nat)
    (sel : Selector) (w : World) :
    runHandler clock event answer ptr index dev sel w = tcpAcceptHandler answer dev sel w := if_pos h

theorem runHandler_other (h : ¬ (event = .read ∧ dev.driver = .listen)) (ptr index : Nat)
    (sel : Selector) (w : World) : runHandler clock event answer ptr index dev sel w =
      (if ptr = sel.devs.block then sel.store index (iodevHandler clock event answer dev w).1 else sel,
        (iodevHandler clock event answer dev w).2) := if_neg h

/-- An accept gets no descriptor, or places a new connection. -/
theorem tcpAcceptHandler_cases (answer : IoAnswer) (dev : Iodev) (sel : Selector) (w : World) :
    ((∀ fd : Nat, answer.accept = some fd → (fd : Int) ∈ w.fds) ∧
      tcpAcceptHandler answer dev sel w = (sel, w)) ∨
    ∃ fd : Nat, answer.accept = some fd ∧ (fd : Int) ∉ w.fds ∧ tcpAcceptHandler answer dev sel w =
      (selectorPlace sel (tcpCreateAccepted (w.opens + 1) fd dev.bufsize), { w with
        fds := insert (fd : Int) w.fds
        opens := w.opens + 1
        log := w.log ++ [.opened .accepted (w.opens + 1) fd] }) := by
  unfold tcpAcceptHandler World.openFd
  cases answer.accept with
  | none => exact .inl ⟨by simp, rfl⟩
  | some fd =>
    by_cases hmem : (fd : Int) ∈ w.fds
    · refine .inl ⟨?_, by simp [hmem]⟩
      intro fd' heq
      rwa [← Option.some.inj heq]
    · have hge : ¬ (fd : Int) < 0 := by omega
      exact .inr ⟨fd, rfl, hmem, by simp [hmem, hge, selectorNewDeviceAccept]⟩

/-- The read handler at the head of the turn accepts a connection, and the array has to grow
for it: there is no inactive slot and no room. -/
def Grows (sets : FdSets) (s : DispatchState) (answer : IoAnswer) : Prop :=
  ∃ dev, selectorGetDevice s.selector s.index = some dev ∧ iodevIsSet dev sets.r ∧
    dev.driver = .listen ∧ (∃ fd : Nat, answer.accept = some fd ∧ (fd : Int) ∉ s.world.fds) ∧
    inactiveSlot s.selector = none ∧ s.selector.devs.full

instance (sets : FdSets) (s : DispatchState) (answer : IoAnswer) : Decidable (Grows sets s answer) :=
  decidable_of_iff (∃ dev ∈ selectorGetDevice s.selector s.index, iodevIsSet dev sets.r ∧
      dev.driver = .listen ∧ (∃ fd ∈ answer.accept, (fd : Int) ∉ s.world.fds) ∧
      inactiveSlot s.selector = none ∧ s.selector.devs.full) <| by
    simp [Grows]

/-- The listener of such a turn is also reported as exceptional: its except handler closes it in the
replaced block. -/
def StaleClose (sets : FdSets) (s : DispatchState) (answer : IoAnswer) : Prop :=
  Grows sets s answer ∧
    ∃ dev, selectorGetDevice s.selector s.index = some dev ∧ iodevIsSet dev sets.x

instance (sets : FdSets) (s : DispatchState) (answer : IoAnswer) :
    Decidable (StaleClose sets s answer) :=
  decidable_of_iff (Grows sets s answer ∧
      ∃ dev ∈ selectorGetDevice s.selector s.index, iodevIsSet dev sets.x) <| by
    simp [StaleClose]

/-- Only an accept changes the block or the number of devices. -/
theorem runHandler_store (haccept : ¬ (event = .read ∧ dev.driver = .listen)) (index : Nat)
    (sel : Selector) (w : World) :
    (runHandler clock event answer ptr index dev sel w).1.devs.block = sel.devs.block ∧
      selectorDeviceCount (runHandler clock event answer ptr index dev sel w).1 =
        selectorDeviceCount sel := by
  rw [runHandler_other haccept]
  dsimp only
  split
  · exact ⟨rfl, rfl⟩
  · exact ⟨rfl, rfl⟩

theorem selectorPlace_count (sel : Selector) (dev : Iodev) :
    selectorDeviceCount sel ≤ selectorDeviceCount (selectorPlace sel dev) := by
  rw [← Selector.length_toList, ← Selector.length_toList, selectorPlace_toList]
  cases inactiveSlot sel with
  | some index => simp
  | none => simp

theorem selectorPlace_count_le (sel : Selector) (dev : Iodev) :
    selectorDeviceCount (selectorPlace sel dev) ≤ selectorDeviceCount sel + 1 := by
  rw [← Selector.length_toList, ← Selector.length_toList, selectorPlace_toList]
  cases inactiveSlot sel with
  | some index => simp
  | none => simp

theorem dispatchEvent_count : selectorDeviceCount s.selector ≤
    selectorDeviceCount (dispatchEvent clock sets answer ptr s event).selector := by
  cases hget : s.selector.toList[s.index]? with
  | none => simp [dispatchEvent, selectorGetDevice_eq, hget]
  | some dev =>
    by_cases hset : iodevIsSet dev (sets.get event)
    · rw [dispatchEvent_set hget hset]
      by_cases haccept : event = .read ∧ dev.driver = .listen
      · simp only [runHandler_accept haccept]
        rcases tcpAcceptHandler_cases answer dev s.selector (s.call ptr event dev) with
          ⟨-, h⟩ | ⟨fd, -, -, h⟩
        · rw [h]
        · rw [h]
          exact selectorPlace_count _ _
      · exact Nat.le_of_eq (runHandler_store haccept _ _ _).2.symm
    · rw [dispatchEvent_unset hget hset]

/-- The tests after the first leave the array where it is. -/
theorem dispatchEvent_block (hevent : event ≠ .read) :
    (dispatchEvent clock sets answer ptr s event).selector.devs.block = s.selector.devs.block := by
  cases hget : s.selector.toList[s.index]? with
  | none => simp [dispatchEvent, selectorGetDevice_eq, hget]
  | some dev =>
    by_cases hset : iodevIsSet dev (sets.get event)
    · rw [dispatchEvent_set hget hset]
      exact (runHandler_store (fun h => hevent h.1) _ _ _).1
    · rw [dispatchEvent_unset hget hset]

/-- The first test moves the array exactly when it has to grow. -/
theorem dispatchEvent_grows :
    (dispatchEvent clock sets answer ptr s .read).selector.devs.block = s.selector.devs.block ↔
      ¬ Grows sets s answer := by
  cases hget : s.selector.toList[s.index]? with
  | none =>
    refine iff_of_true (by simp [dispatchEvent, selectorGetDevice_eq, hget]) ?_
    rintro ⟨dev, hdev, -⟩
    rw [selectorGetDevice_eq, hget] at hdev
    cases hdev
  | some dev =>
    have honly : ∀ dev', selectorGetDevice s.selector s.index = some dev' → dev' = dev := by
      intro dev' hdev'
      rw [selectorGetDevice_eq, hget] at hdev'
      exact (Option.some.inj hdev').symm
    by_cases hset : iodevIsSet dev (sets.get .read)
    swap
    · -- the device is not ready
      rw [dispatchEvent_unset hget hset]
      refine iff_of_true rfl ?_
      rintro ⟨dev', hdev', hset', -⟩
      rw [honly dev' hdev'] at hset'
      exact hset hset'
    rw [dispatchEvent_set hget hset]
    by_cases hlisten : dev.driver = .listen
    swap
    · -- it is no listener, and its handler leaves the array alone
      refine iff_of_true (runHandler_store (fun h => hlisten h.2) _ _ _).1 ?_
      rintro ⟨dev', hdev', -, hlisten', -⟩
      rw [honly dev' hdev'] at hlisten'
      exact hlisten hlisten'
    simp only [runHandler_accept ⟨rfl, hlisten⟩]
    rcases tcpAcceptHandler_cases answer dev s.selector (s.call ptr .read dev) with
      ⟨hused, h⟩ | ⟨fd, hans, hfree, h⟩
    · -- nothing is accepted
      rw [h]
      refine iff_of_true rfl ?_
      rintro ⟨-, -, -, -, ⟨fd, hans, hfree⟩, -⟩
      exact hfree (hused fd hans)
    · -- a connection is placed: the block changes with the growth of the array only
      rw [h, selectorPlace_block]
      constructor
      · rintro hblock ⟨-, -, -, -, -, hfull⟩
        rw [if_pos hfull] at hblock
        omega
      · intro hgrows
        rw [if_neg]
        intro hfull
        exact hgrows ⟨dev, by rw [selectorGetDevice_eq, hget], hset, hlisten, ⟨fd, hans, hfree⟩,
          hfull⟩

/-- A handler that is called through a pointer into a replaced block changes no device. -/
theorem dispatchEvent_stale (hevent : event ≠ .read) (hptr : ptr ≠ s.selector.devs.block) :
    (dispatchEvent clock sets answer ptr s event).selector = s.selector := by
  cases hget : s.selector.toList[s.index]? with
  | none => simp [dispatchEvent, selectorGetDevice_eq, hget]
  | some dev =>
    by_cases hset : iodevIsSet dev (sets.get event)
    · rw [dispatchEvent_set hget hset, runHandler_other fun h => hevent h.1]
      exact if_neg hptr
    · rw [dispatchEvent_unset hget hset]

/-- When the array has grown, the listener is in its slot as before. -/
theorem Grows.listener (h : Grows sets s answer) : ∃ dev, s.selector.toList[s.index]? = some dev ∧
    dev.driver = .listen ∧
    (dispatchEvent clock sets answer ptr s .read).selector.toList[s.index]? = some dev := by
  rcases h with ⟨dev, hget, hset, hlisten, ⟨fd, hans, hfresh⟩, hslot, -⟩
  rw [selectorGetDevice_eq] at hget
  refine ⟨dev, hget, hlisten, ?_⟩
  have hready : iodevIsSet dev (sets.get .read) := hset
  rw [dispatchEvent_set hget hready]
  simp only [runHandler_accept ⟨rfl, hlisten⟩]
  rcases tcpAcceptHandler_cases answer dev s.selector (s.call ptr .read dev) with
    ⟨-, heq⟩ | ⟨_, -, -, heq⟩
  · rw [heq]
    exact hget
  · rw [heq, selectorPlace_toList, hslot]
    rw [List.getElem?_append_left (List.getElem?_eq_some_iff.mp hget).1]
    exact hget

/-- The second and the third test of a turn are made through a current pointer, or the accept has
replaced the block, and they are made for the listener and change no device. -/
theorem turn_cases (clock : Nat → UTime) (sets : FdSets) (s : DispatchState) (answer : IoAnswer) :
    let event := dispatchEvent clock sets answer s.selector.devs.block
    (¬ Grows sets s answer ∧ (event s .read).selector.devs.block = s.selector.devs.block ∧
      (event (event s .read) .write).selector.devs.block = s.selector.devs.block) ∨
    (Grows sets s answer ∧ s.selector.devs.block ≠ (event s .read).selector.devs.block ∧
      (event (event s .read) .write).selector = (event s .read).selector ∧
      ∃ dev, s.selector.toList[s.index]? = some dev ∧ dev.driver = .listen ∧
        (event s .read).selector.toList[s.index]? = some dev) := by
  intro event
  have hblock : (event s .read).selector.devs.block = s.selector.devs.block ↔
      ¬ Grows sets s answer := dispatchEvent_grows
  by_cases hgrows : Grows sets s answer
  · have hne : s.selector.devs.block ≠ (event s .read).selector.devs.block :=
      fun heq => hblock.mp heq.symm hgrows
    exact .inr ⟨hgrows, hne, dispatchEvent_stale (by simp) hne, hgrows.listener⟩
  · have hsame := hblock.mpr hgrows
    exact .inl ⟨hgrows, hsame, (dispatchEvent_block (by simp)).trans hsame⟩

end Test

end Hdmi2usbd
