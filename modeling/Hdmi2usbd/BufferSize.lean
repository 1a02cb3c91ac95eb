import Hdmi2usbd.Options
import Hdmi2usbd.Steady

/-!
# BufferSize — the buffer sizes that keep the data path whole

The argument of `-b` is the size of the buffers of each device, and twice that, computed in 32
bits, is the size of the copy buffer between them. The copy buffer takes all that the serial device
has received as long as doubling does not overflow, and a device is told from a listener by its
buffer size as long as that is not 0: together, the sizes from 1 to `0x7fffffff`
(`dataPathWhole_iff`).
-/

namespace Hdmi2usbd

open Machine (run)

/-- A turn of a process cycle gives the connection the chunk of serial data, takes what it has
received into its line buffer, deals with its commands and counts it. -/
structure Serves (clock : Nat → UTime) (sBytes : Nat) (s : ProcessState) (index : Nat)
    (serial dev : Iodev) : Prop where
  count : (processStep clock sBytes s index).connectCount = s.connectCount + 1
  commands :
    let copied := copySerialData s.app.copy sBytes dev s.world
    let done := hdmi2usbProcessClientCommands clock s.app.lastCommand serial
      (hdmi2usbProcessClientData copied.1) copied.2
    (processStep clock sBytes s index).app.lastCommand = done.1 ∧
      (processStep clock sBytes s index).app.selector.toList =
        (s.app.selector.toList.set 0 done.2.1).set index done.2.2.1 ∧
      (processStep clock sBytes s index).world = done.2.2.2

/-- What holds with buffers of `iobufsize`: all the serial device has received fits into the copy
buffer and is moved there, and the connections are told from the listeners and served. -/
structure DataPathWhole (iobufsize : Nat) : Prop where
  room : ∀ clock a (copy rbuf : RingBuffer),
    copy.size = (Daemon.start clock iobufsize a).app.copy.size → copy.contents = [] →
      rbuf.size = iobufsize → rbuf.used ≤ copy.available
  emptied : ∀ clock a (copy : RingBuffer) (serial : Iodev) w,
    copy.size = (Daemon.start clock iobufsize a).app.copy.size → copy.contents = [] →
      serial.rbuf.size = iobufsize → iodevIsOpen serial →
        (hdmi2usbProcessSerialData copy serial w).2.2.1.rbuf.contents = []
  told : ∀ clock a inputs,
    ∀ dev ∈ (run (Daemon.step clock) (Daemon.start clock iobufsize a) inputs).app.selector.toList,
      iodevIsListener dev = true ↔ dev.driver = .listen
  served : ∀ clock a inputs,
    ∀ dev ∈ (run (Daemon.step clock) (Daemon.start clock iobufsize a) inputs).app.selector.toList,
      dev.driver = .accepted → ∀ sBytes (s : ProcessState) index,
        s.app.selector.toList[index]? = some dev →
          ∃ serial, s.app.selector.toList[0]? = some serial ∧
            Serves clock sBytes s index serial dev

variable {clock : Nat → UTime}

/-! ## The copy buffer -/

theorem start_copy_size (clock : Nat → UTime) (iobufsize : Nat) (a : InitAnswers) :
    (Daemon.start clock iobufsize a).app.copy.size = iobufsize * 2 % 0x100000000 := by
  unfold Daemon.start
  generalize hbefore : Daemon.mk _ _ _ _ _ = d
  rcases Daemon.initialise_cases clock d 0 a with ⟨happ, -⟩ | ⟨rc, app, w, hinit, happ, -⟩
  · rw [happ, ← hbefore]
    rfl
  · rw [happ, (hdmi2usbInit_spec hinit).2.2.1, ← hbefore]
    rfl

/-- An empty buffer has room for one byte less than its size. -/
theorem RingBuffer.available_of_empty {b : RingBuffer} (hempty : b.contents = []) :
    b.available = b.size - 1 := by
  have hused : b.used = 0 := by rw [← b.length_contents, hempty, List.length_nil]
  have hall := b.used_add_available
  omega

/-- A buffer of the size holds one byte less than the size, and can be that full. -/
theorem forall_used_le_iff (size room : Nat) :
    (∀ rbuf : RingBuffer, rbuf.size = size → rbuf.used ≤ room) ↔ size - 1 ≤ room := by
  constructor
  · intro h
    have hfull := h ((RingBuffer.init size).put (List.replicate (size - 1) 0)).2
      (by rw [RingBuffer.put_size, RingBuffer.init_size])
    have havail := RingBuffer.available_of_empty (RingBuffer.init_contents size)
    rw [← RingBuffer.length_contents, RingBuffer.put_contents, havail] at hfull
    simpa using hfull
  · intro h rbuf hsize
    have hall := rbuf.used_add_available
    omega

/-- The copy buffer has the room if doubling does not overflow, or if there is nothing to take. -/
theorem room_iff {iobufsize : Nat} (hlt : iobufsize < 0x100000000) :
    (∀ clock a (copy rbuf : RingBuffer),
      copy.size = (Daemon.start clock iobufsize a).app.copy.size → copy.contents = [] →
        rbuf.size = iobufsize → rbuf.used ≤ copy.available) ↔ iobufsize < 0x80000000 := by
  -- doubling wraps from 2 ^ 31 on, and the wrapped size is smaller than a buffer of the device
  have hdouble : iobufsize - 1 ≤ iobufsize * 2 % 0x100000000 - 1 ↔ iobufsize < 0x80000000 := by
    omega
  rw [← hdouble, ← forall_used_le_iff]
  constructor
  · intro h rbuf hsize
    have hempty := RingBuffer.init_contents (iobufsize * 2 % 0x100000000)
    have hfits := h (fun _ => 0) Daemon.oneAddress _ rbuf
      ((RingBuffer.init_size _).trans (start_copy_size _ _ _).symm) hempty hsize
    rwa [RingBuffer.available_of_empty hempty, RingBuffer.init_size] at hfits
  · intro h clock a copy rbuf hcopy hempty hsize
    rw [RingBuffer.available_of_empty hempty, hcopy, start_copy_size]
    exact h rbuf hsize

/-- With room for all of it, nothing is left in the receive buffer of the open serial device. -/
theorem processSerialData_empties {copy : RingBuffer} {serial : Iodev}
    (hroom : serial.rbuf.used ≤ copy.available) (hopen : iodevIsOpen serial) (w : World) :
    (hdmi2usbProcessSerialData copy serial w).2.2.1.rbuf.contents = [] := by
  unfold hdmi2usbProcessSerialData
  rw [if_pos hopen]
  by_cases hused : serial.rbuf.used = 0
  · rw [if_neg (not_not.mpr hused), ← List.length_eq_zero_iff, RingBuffer.length_contents]
    exact hused
  · rw [if_pos hused]
    simpa [← RingBuffer.length_contents] using hroom

/-! ## The listeners -/

/-- What tells the devices apart: how they were made, the flag, and the size it is made from. -/
def Iodev.role (dev : Iodev) : Driver × Bool × Nat := (dev.driver, dev.listener, dev.bufsize)

theorem SameBody.role {dev dev' : Iodev} (h : SameBody dev dev') : dev'.role = dev.role := by
  rw [Iodev.role, h.driver, h.listener, h.bufsize, Iodev.role]

theorem iodevHandler_role (event : IoEvent) (answer : IoAnswer) (dev : Iodev) (w : World) :
    (iodevHandler clock event answer dev w).1.role = dev.role := by
  rcases iodevHandler_cases clock event answer dev w with ⟨heq, -⟩ | ⟨bytes, -, -, -, heq⟩ |
    ⟨n, -, -, hsent⟩ | ⟨-, -, hclosed⟩ | ⟨-, hclosed⟩
  · rw [heq]
  · rw [heq]
    rfl
  · rcases hsent.body with ⟨pacer, hbody⟩
    rw [hbody]
    rfl
  · exact hclosed.setUp.1.role
  · exact hclosed.setUp.1.role

/-- The flag is right, and a listener will make connections that are none. -/
structure Iodev.Classified (dev : Iodev) : Prop where
  told : iodevIsListener dev = true ↔ dev.driver = .listen
  bufsize : dev.driver = .listen → dev.bufsize ≠ 0

theorem Iodev.Classified.of_role {dev dev' : Iodev} (h : dev.Classified)
    (hrole : dev'.role = dev.role) : dev'.Classified := by
  rcases Prod.mk.inj hrole with ⟨hdriver, hrest⟩
  rcases Prod.mk.inj hrest with ⟨hlistener, hbufsize⟩
  refine ⟨?_, ?_⟩
  · rw [iodevIsListener, hlistener, hdriver]
    exact h.told
  · rw [hdriver, hbufsize]
    exact h.bufsize

theorem classified_lasting : Lasting clock Iodev.Classified where
  setMasks := fun h answer sets w => h.of_role (setMasks_setUp clock answer _ sets w).1.role
  handler := fun h event answer w => h.of_role (iodevHandler_role event answer _ w)
  accepted := by
    intro dev h hlisten session fd
    -- the connection is made with the buffer size of its listener
    have hne := h.bufsize hlisten
    exact ⟨by simp [tcpCreateAccepted, tcpAccept, tcpCreate, iodevInit, iodevIsListener, hne],
      by simp [tcpCreateAccepted, tcpAccept, tcpCreate, iodevInit]⟩
  buffers := by
    intro dev dev' h hshell
    have hrole : dev'.shell.role = dev.shell.role := by rw [hshell]
    exact h.of_role hrole

theorem run_classified {iobufsize : Nat} (hne : iobufsize ≠ 0) (a : InitAnswers)
    (inputs : List Input) :
    ∀ dev ∈ (run (Daemon.step clock) (Daemon.start clock iobufsize a) inputs).app.selector.toList,
      dev.Classified := by
  refine run_each ?_ ?_ classified_lasting a inputs
  · intro w
    exact ⟨by simp [serialCreate, iodevInit, iodevIsListener, hne],
      by simp [serialCreate, iodevInit]⟩
  · intro laddr
    exact ⟨by simp [tcpCreateListen, tcpCreate, iodevInit, iodevIsListener], fun _ => hne⟩

/-- With buffers of size 0 the serial device is taken for a listener. -/
theorem serial_listens :
    ∃ dev ∈ (Daemon.start (fun _ => 0) 0 Daemon.oneAddress).app.selector.toList,
      ¬ (iodevIsListener dev = true ↔ dev.driver = .listen) := by
  decide +kernel

/-- A turn serves every device that is not taken for a listener. -/
theorem processStep_serves {sBytes : Nat} {s : ProcessState} {index : Nat} {dev : Iodev}
    (hdev : s.app.selector.toList[index]? = some dev) (hconn : ¬ iodevIsListener dev) :
    ∃ serial, s.app.selector.toList[0]? = some serial ∧ Serves clock sBytes s index serial dev := by
  obtain ⟨hlt, -⟩ := List.getElem?_eq_some_iff.mp hdev
  have hfirst : 0 < s.app.selector.toList.length := Nat.zero_lt_of_lt hlt
  have hserial := List.getElem?_eq_getElem hfirst
  refine ⟨_, hserial, ?_, ?_⟩
  all_goals simp only [processStep, selectorGetDevice_eq, hserial, hdev, hconn, Bool.false_eq_true,
    if_false, Selector.store_toList, and_self]

/-! ## The sizes -/

theorem whole_iff {iobufsize : Nat} (hlt : iobufsize < 0x100000000) :
    DataPathWhole iobufsize ↔ 0 < iobufsize ∧ iobufsize < 0x80000000 := by
  constructor
  · intro h
    refine ⟨Nat.pos_of_ne_zero ?_, (room_iff hlt).mp h.room⟩
    rintro rfl
    -- size 0 fails as soon as the serial device is made
    rcases serial_listens with ⟨dev, hdev, hwrong⟩
    exact hwrong (h.told (fun _ => 0) Daemon.oneAddress [] dev hdev)
  · rintro ⟨hpos, hsmall⟩
    have hroom := (room_iff hlt).mpr hsmall
    have hclassified : ∀ clock a inputs,
        ∀ dev ∈ (run (Daemon.step clock) (Daemon.start clock iobufsize a) inputs).app.selector.toList,
          dev.Classified :=
      fun clock a inputs => run_classified (Nat.pos_iff_ne_zero.mp hpos) a inputs
    refine ⟨hroom, ?_, fun clock a inputs dev hdev => (hclassified clock a inputs dev hdev).told, ?_⟩
    · intro clock a copy serial w hcopy hempty hrbuf hopen
      exact processSerialData_empties (hroom clock a copy serial.rbuf hcopy hempty hrbuf) hopen w
    · intro clock a inputs dev hdev hdriver sBytes s index hslot
      refine processStep_serves hslot ?_
      rw [(hclassified clock a inputs dev hdev).told, hdriver]
      decide

theorem optBufsize_accepted {opts : Argv.Opts} {optarg : Getopt.Word}
    (haccepted : (Argv.optBufsize opts optarg).1 = exSuccess) :
    (Argv.optBufsize opts optarg).2.iobufsize = (strtoul optarg).1.toNat % 0x100000000 := by
  by_cases hend : (strtoul optarg).2 = []
  · simp [Argv.optBufsize, hend]
  · simp [Argv.optBufsize, hend, exStartup, exSuccess] at haccepted

theorem dataPathWhole_iff (opts : Argv.Opts) (optarg : Getopt.Word)
    (haccepted : (Argv.optBufsize opts optarg).1 = exSuccess) :
    DataPathWhole (Argv.optBufsize opts optarg).2.iobufsize ↔
      0 < (strtoul optarg).1.toNat % 0x100000000 ∧
        (strtoul optarg).1.toNat % 0x100000000 < 0x80000000 := by
  rw [optBufsize_accepted haccepted]
  exact whole_iff (Nat.mod_lt _ (by decide))

theorem small_buffers_whole :
    DataPathWhole (Argv.optBufsize .default ['6', '4']).2.iobufsize :=
  (dataPathWhole_iff .default ['6', '4'] (by decide +kernel)).mpr (by decide +kernel)

/-- 2147483648 is `2 ^ 31`. -/
theorem no_and_huge_buffers_accepted :
    (∃ opts, Argv.optBufsize .default ['0'] = (exSuccess, opts) ∧
      ¬ DataPathWhole opts.iobufsize) ∧
    ∃ opts, Argv.optBufsize .default ['2', '1', '4', '7', '4', '8', '3', '6', '4', '8'] =
      (exSuccess, opts) ∧ ¬ DataPathWhole opts.iobufsize := by
  have hzero : strtoul ['0'] = (0, []) := by decide +kernel
  have hhuge : strtoul ['2', '1', '4', '7', '4', '8', '3', '6', '4', '8'] = (0x80000000, []) := by
    decide +kernel
  refine ⟨⟨{ Argv.Opts.default with iobufsize := 0 }, ?_, ?_⟩,
    ⟨{ Argv.Opts.default with iobufsize := 0x80000000 }, ?_, ?_⟩⟩
  · rw [Argv.optBufsize, hzero]
    rfl
  · rw [whole_iff (by decide)]
    decide
  · rw [Argv.optBufsize, hhuge]
    rfl
  · rw [whole_iff (by decide)]
    decide

end Hdmi2usbd
