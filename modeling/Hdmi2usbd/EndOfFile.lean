import Hdmi2usbd.Interest
import Hdmi2usbd.Steady

/-!
# EndOfFile — a full receive buffer and the end of the file

`read` of length 0 returns 0, which is also the end of the file, so the read handler must not be
called on a device whose receive buffer is full. A device registers for reading only when it has
room, but a number that is left over in the read set registers nobody: when the serial device is
closed with a full buffer and opened again on that number, its handler is called without room.

This is the only way as long as every number is that of one device: in a run of the daemon that
loses no close every read has room if and only if no round opens the serial device so
(`read_has_room_iff`).
-/

namespace Hdmi2usbd

open Machine (Reaches Along run)

variable (clock : Nat → UTime)

/-! ## Opening the serial device -/

/-- `set_masks` leaves a device its descriptor or takes it; only the serial device gets a new
one. -/
theorem setMasks_fd {dev : Iodev} (hd : dev.driver ≠ .listen) (answer : OpenAnswer) (sets : FdSets)
    (w : World) : (setMasks clock answer dev sets w).dev.fd = dev.fd ∨
      (setMasks clock answer dev sets w).dev.fd = -1 ∨
      (dev.driver = .serial ∧ ToBeOpened dev) := by
  have hclose : (iodevClose dev ioflagNone w).1.fd = dev.fd ∨
      (iodevClose dev ioflagNone w).1.fd = -1 := by
    by_cases hholds : dev.state.holds
    · rw [iodevClose_holds hholds rfl]
      exact .inr rfl
    · rw [iodevClose_not_holds hholds]
      left
      dsimp only
      split <;> rfl
  rw [setMasks_generic clock hd]
  unfold iodevSetMasks
  cases hs : dev.state with
  | iodevNone | iodevClosed =>
    cases hdriver : dev.driver with
    | serial => exact .inr (.inr ⟨rfl, by simp [ToBeOpened, hs]⟩)
    | listen => exact absurd hdriver hd
    | accepted =>
      -- the open of a connection only closes it
      left
      simp [iodevOpenDevice, hdriver, tcpOpen, closeIfOpen, iodevIsOpen, hs, DevState.toNat]
  | iodevClosing =>
    dsimp only
    split
    · exact .inl rfl
    · rw [← or_assoc]
      exact .inl hclose
  | iodevInactive | iodevPending | iodevOpen | iodevConnected | iodevActive => exact .inl rfl

/-! ## What is ready to be read -/

/-- The device can be read. -/
def Readable (dev : Iodev) : Prop := iodevIsOpen dev ∧ 0 < dev.rbuf.available

theorem accepted_readable {bufsize : Nat} (h : 2 ≤ bufsize) (session : Nat) (fd : Int) :
    Readable (tcpCreateAccepted session fd bufsize) := by
  refine ⟨rfl, ?_⟩
  have hused := (RingBuffer.init bufsize).length_contents
  have hsize := (RingBuffer.init bufsize).used_add_available
  rw [RingBuffer.init_contents, List.length_nil] at hused
  rw [RingBuffer.init_size] at hsize
  show 0 < (RingBuffer.init bufsize).available
  omega

section Round

variable (a : RoundAnswers) (sets : FdSets) (sel : Selector) (w : World)

/-- The round does not open the serial device with a full receive buffer on a number that is left
over in the read set and that `select` reports. -/
def NoFullReopen : Prop :=
  let s := selectorIoset clock a.opens sets sel w
  let r := select (s.highestFd + 1) s.sets a.select
  s.activeCount ≠ 0 → r.1 > 0 → ∀ serial, selectorGetDevice sel 0 = some serial →
    ToBeOpened serial → serial.rbuf.available = 0 → ∀ fd : Nat, (a.opens 0).fd = some fd →
    (fd : Int) ∉ w.fds → (a.opens 0).tcgetattr → (a.opens 0).tcsetattr →
    (fd : Int) ∈ sets.r → (fd : Int) ∉ r.2.r

instance : Decidable (NoFullReopen clock a sets sel w) := by
  delta NoFullReopen
  infer_instance

end Round

/-- After `selector_ioset`, a device whose number may be reported for reading can be read, or it is
the serial device, opened in this round on a left over number. -/
theorem Asking.readable {opens : Nat → OpenAnswer} {devs : List Iodev} {w : World} {sets : FdSets}
    {s : IosetState} (h : Asking clock opens devs w sets devs.length s) (howned : Owned ⟨devs, w⟩)
    (hafter : Owned (netOf s.selector s.world)) (hsteady : ∀ dev ∈ devs, dev.Steady 2) {index : Nat}
    {dev : Iodev} (hget : s.selector.toList[index]? = some dev) (hd : dev.driver ≠ .listen)
    (hset : iodevIsSet dev s.sets.r) : Readable dev ∨
      index = 0 ∧ ∃ serial, devs[0]? = some serial ∧ ToBeOpened serial ∧
        dev = (serialOpen (opens 0) serial w).1 ∧ dev.fd ∈ sets.r := by
  rcases iodevIsSet_iff.mp hset with ⟨hne, hmem⟩
  rcases (h.all .read dev.fd).mp hmem with ⟨old, hold, hfd, hint⟩ | ⟨hnone, hleft⟩
  · -- an interested device has the number, and it is this one
    left
    rcases List.mem_iff_getElem?.mp hold with ⟨i, hi⟩
    have hslot := h.unchanged hi (hint.active clock)
    have hindex : i = index := by
      by_contra hdiffer
      exact hne (hfd ▸ hafter.apart i index old dev hdiffer hslot hget hfd)
    subst hindex
    cases hslot.symm.trans hget
    simp only [Interested, if_neg hd] at hint
    refine hint.resolve_left fun hpending => ?_
    have hopen := (hsteady dev hold).1 (by rw [hpending]; rfl)
    rw [iodevIsOpen, hpending] at hopen
    cases hopen
  · right
    -- no device had the number when the round began, so this one has just been opened
    have hlt : index < devs.length := by
      by_contra hge
      have hbeyond := h.ahead index (Nat.le_of_not_lt hge)
      rw [hget, List.getElem?_eq_none (Nat.le_of_not_lt hge)] at hbeyond
      cases hbeyond
    have hbefore := List.getElem?_eq_getElem hlt
    generalize devs[index] = old at hbefore
    rcases h.behind index old hlt hbefore with ⟨sets', w', hworld, hslot⟩
    cases hget.symm.trans hslot
    have hpos := (hafter.devs index _ hget).fd hne
    rw [(setMasks_setUp clock (opens index) old sets' w').1.driver] at hd
    rcases setMasks_fd clock hd (opens index) sets' w' with hsame | hclosed | ⟨hserial, hopen⟩
    · have := hnone old (List.mem_of_getElem? hbefore) hsame.symm
      omega
    · exact absurd hclosed hne
    · have hindex : index = 0 := (howned.devs index old hbefore).serial.mpr hserial
      subst hindex
      rw [hworld rfl] at hleft ⊢
      rw [setMasks_opens clock hserial hopen] at hleft ⊢
      exact ⟨rfl, old, hbefore, hopen, rfl, hleft⟩

/-! ## The dispatch -/

/-- A call of `iodev_read_handler`: there is room, so `read` is asked for more than nothing, and the
device is closed only for an error or the end of the file. -/
def ReadsWell (sets : FdSets) (answer : IoAnswer) (t : DispatchState) (event : IoEvent) : Prop :=
  event = .read → ∀ dev, selectorGetDevice t.selector t.index = some dev → dev.driver ≠ .listen →
    iodevIsSet dev sets.r → 0 < dev.rbuf.available ∧
      ∀ w, (iodevReadHandler answer.read dev w).1.fd = -1 → answer.read = none ∨ answer.read = some []

theorem Readable.closed {dev : Iodev} (h : Readable dev) (hne : dev.fd ≠ -1)
    {answer : Option (List UInt8)} {w : World} (hclosed : (iodevReadHandler answer dev w).1.fd = -1) :
    answer = none ∨ answer = some [] := by
  cases answer with
  | none => exact .inl rfl
  | some bytes =>
    right
    rcases bytes with - | ⟨b, bs⟩
    · rfl
    · -- something is read, so the device stays open
      rcases h with ⟨hopen, hroom⟩
      have htake : (b :: bs).take dev.rbuf.available = b :: bs.take (dev.rbuf.available - 1) := by
        rw [← Nat.succ_pred_eq_of_pos hroom]
        rfl
      simp only [iodevReadHandler, hne, if_false, iodevRead, hopen, not_true, Option.map_some,
        htake] at hclosed

/-- The dispatch loop: what it has not yet visited can be read, if it is reported. -/
structure Reading (fds : Finset Int) (t : DispatchState) : Prop where
  steady : AllSteady 2 t.selector
  ready : ∀ index dev, t.index ≤ index → t.selector.toList[index]? = some dev →
    dev.driver ≠ .listen → iodevIsSet dev fds → Readable dev

section Dispatch

variable {clock} {sets : FdSets} {answer : IoAnswer} {ptr : Nat} {t : DispatchState} {event : IoEvent}

/-- A test changes no later slot, but for a connection that is accepted. -/
theorem dispatchEvent_later (hsteady : AllSteady 2 t.selector) {index : Nat} (hlt : t.index < index)
    {dev : Iodev} (hget :
      (dispatchEvent clock sets answer ptr t event).selector.toList[index]? = some dev) :
    t.selector.toList[index]? = some dev ∨ Readable dev := by
  cases hslot : t.selector.toList[t.index]? with
  | none =>
    unfold dispatchEvent at hget
    rw [selectorGetDevice_eq, hslot] at hget
    exact .inl hget
  | some head =>
    by_cases hset : iodevIsSet head (sets.get event)
    · rw [dispatchEvent_set hslot hset] at hget
      by_cases haccept : event = .read ∧ head.driver = .listen
      · simp only [runHandler_accept haccept] at hget
        rcases tcpAcceptHandler_cases answer head t.selector (t.call ptr event head) with
          ⟨-, heq⟩ | ⟨fd, -, -, heq⟩
        · rw [heq] at hget
          exact .inl hget
        · rw [heq] at hget
          rcases selectorPlace_origin _ _ hget with rfl | hold
          · have hroom := (hsteady head (List.mem_of_getElem? hslot)).2 haccept.2
            exact .inr (accepted_readable hroom _ _)
          · exact .inl hold
      · simp only [runHandler_other haccept] at hget
        split at hget
        · rw [Selector.store_toList, List.getElem?_set_ne (by omega)] at hget
          exact .inl hget
        · exact .inl hget
    · rw [dispatchEvent_unset hslot hset] at hget
      exact .inl hget

/-- A turn of the loop. -/
theorem Reading.step {fds : Finset Int} (h : Reading fds t) :
    Reading fds (dispatchStep clock sets t answer) := by
  unfold dispatchStep
  split
  · next hmore =>
    dsimp only
    let event := dispatchEvent clock sets answer t.selector.devs.block
    have hr : AllSteady 2 (event t .read).selector := dispatchEvent_steady h.steady
    have hw : AllSteady 2 (event (event t .read) .write).selector := dispatchEvent_steady hr
    refine ⟨dispatchEvent_steady hw, ?_⟩
    intro index dev (hle : _ + 1 ≤ index) hget hd hset
    simp only [dispatchEvent_index] at hle
    -- back through the three tests
    rcases dispatchEvent_later hw (by simp only [event, dispatchEvent_index]; omega) hget with
      hget | hreadable
    · rcases dispatchEvent_later hr (by simp only [event, dispatchEvent_index]; omega) hget with
        hget | hreadable
      · rcases dispatchEvent_later h.steady (by omega) hget with hget | hreadable
        · exact h.ready index dev (by omega) hget hd hset
        · exact hreadable
      · exact hreadable
    · exact hreadable
  · exact h

/-- The tests of a turn. -/
theorem Reading.turn (h : Reading sets.r t) (answer : IoAnswer) :
    TurnAll (ReadsWell sets) clock sets t answer := by
  intro _
  refine ⟨?_, by simp [ReadsWell], by simp [ReadsWell]⟩
  rintro - dev hget hd hset
  rw [selectorGetDevice_eq] at hget
  have hreadable := h.ready t.index dev le_rfl hget hd hset
  exact ⟨hreadable.2, fun w => hreadable.closed (iodevIsSet_iff.mp hset).1⟩

end Dispatch

/-- When the dispatch begins, what is reported can be read, unless the serial device is opened with
a full buffer. -/
theorem reading_start (clock : Nat → UTime) {a : RoundAnswers} {sets : FdSets} {sel : Selector}
    {w : World} (h : Owned (netOf sel w)) (hsteady : AllSteady 2 sel)
    (hnone : NoFullReopen clock a sets sel w) :
    let s := selectorIoset clock a.opens sets sel w
    let r := select (s.highestFd + 1) s.sets a.select
    s.activeCount ≠ 0 → r.1 > 0 → Reading r.2.r ⟨0, r.1, s.selector, s.world⟩ := by
  intro s r hactive hrdy
  have hcalls : Reaches (Call.apply clock) (Call.Meets True fun _ _ _ _ => True) _ _ :=
    selectorIoset_calls clock a.opens sets sel w
  refine ⟨loop_steady clock hsteady (loopReaches_of_meets clock hcalls), ?_⟩
  intro index dev _ hget hd hset
  have hasked := ioset_asks clock a.opens h sets
  have hafter := selectorIoset_owned clock a.opens h sets
  rcases iodevIsSet_iff.mp hset with ⟨hne, hmem⟩
  have hasked_set : iodevIsSet dev s.sets.r :=
    iodevIsSet_iff.mpr ⟨hne, select_subset _ _ a.select .read hmem⟩
  rcases hasked.readable clock h hafter hsteady hget hd hasked_set with hreadable |
    ⟨-, serial, hserial, hopen, hdev, hleft⟩
  · exact hreadable
  · have hdriver := (h.devs 0 serial hserial).serial.mp rfl
    rcases serialOpen_cases hdriver hopen.not_isOpen (a.opens 0) w with heq | heq |
      ⟨fd, hfd, hfresh, hterminal, hterminal', heq⟩
    · rw [hdev.trans heq] at hne
      exact absurd rfl hne
    · rw [hdev.trans heq] at hne
      exact absurd rfl hne
    · rw [hdev.trans heq] at hleft hmem ⊢
      refine ⟨rfl, Nat.pos_of_ne_zero ?_⟩
      intro hfull
      exact hnone hactive hrdy serial (by rw [selectorGetDevice_eq, hserial]) hopen hfull fd hfd
        hfresh hterminal hterminal' hleft hmem

/-- In a round every read has room if and only if the round does not open the serial device with a
full receive buffer on a number that is left over and reported. -/
theorem round_reads_well (clock : Nat → UTime) (a : RoundAnswers) {sets : FdSets} {sel : Selector}
    {w : World} (h : Owned (netOf sel w)) (hsteady : AllSteady 2 sel) :
    RoundAll ReadsWell clock a sets sel w ↔ NoFullReopen clock a sets sel w := by
  constructor
  · intro hreads hactive hrdy serial hserial hopen hfull fd hfd hfresh hterminal hterminal' _ hmem
    rw [selectorGetDevice_eq] at hserial
    -- the serial device is in the first slot, so its test is the first one
    have hasked := ioset_asks clock a.opens h sets
    rcases hasked.behind 0 serial (List.getElem?_eq_some_iff.mp hserial).1 hserial with
      ⟨sets', w', hworld, hslot⟩
    have hdriver := (h.devs 0 serial hserial).serial.mp rfl
    rw [hworld rfl, setMasks_opens clock hdriver hopen,
      serialOpen_opens hopen.not_isOpen hfd hfresh hterminal hterminal'] at hslot
    have hfirst := hreads hactive hrdy
    generalize selectorIoset clock a.opens sets sel w = s at hslot hfirst hmem hrdy
    generalize select (s.highestFd + 1) s.sets a.select = r at hfirst hmem hrdy
    have hcount : 0 < selectorDeviceCount s.selector := by
      rw [← Selector.length_toList]
      exact (List.getElem?_eq_some_iff.mp hslot).1
    have hturns : dispatchTurns r.1 s.selector = dispatchTurns r.1 s.selector - 1 + 1 := by
      unfold dispatchTurns
      omega
    rw [hturns, List.range_succ_eq_map, List.map_cons, Machine.along_cons] at hfirst
    have htest := (hfirst.1 ⟨hrdy, hcount⟩).1 rfl _ (by rw [selectorGetDevice_eq]; exact hslot)
      (by simp [hdriver]) (iodevIsSet_iff.mpr ⟨by simp only; omega, hmem⟩)
    have hroom : 0 < serial.rbuf.available := htest.1
    omega
  · intro hnone hactive hrdy
    have hstart := reading_start clock h hsteady hnone hactive hrdy
    exact Machine.Along.of_invariant (C := fun _ _ => True) (Reading _) (fun t answer ht _ => ht.step)
      (fun t answer ht _ => ht.turn answer) hstart (Machine.along_of_forall (fun _ _ => trivial) _)

/-! ## Runs -/

/-- In a run of the daemon that loses no close every call of the read handler has room, and closes
the device only for an error or the end of the file, if and only if no round opens the serial device
with a full receive buffer on a number that is left over in the read set and reported. -/
theorem read_has_room_iff (clock : Nat → UTime) {iobufsize : Nat} (hsize : 2 ≤ iobufsize)
    (a : InitAnswers) (inputs : List Input)
    (hstale : Along (Daemon.step clock) (InRounds (NoStaleClose clock))
      (Daemon.start clock iobufsize a) inputs) :
    Along (Daemon.step clock) (InRounds (RoundAll ReadsWell clock))
        (Daemon.start clock iobufsize a) inputs ↔
      Along (Daemon.step clock) (InRounds (NoFullReopen clock))
        (Daemon.start clock iobufsize a) inputs := by
  refine Machine.along_congr_along
    (fun d : Daemon => Owned (netOf d.app.selector d.world) ∧ Orderly 2 d)
    (fun d i h hstale => ⟨step_owned clock d i h.1 hstale, h.2.step clock i⟩) ?_
    ⟨start_owned clock iobufsize a, start_orderly clock hsize a⟩ hstale
  intro d i h
  unfold InRounds
  refine forall_congr' fun a => imp_congr_right fun _ => imp_congr_right fun _ => ?_
  exact round_reads_well clock a h.1 h.2.steady

/-- A round that opens the serial device so has a read without room. -/
theorem Orderly.full_read {clock : Nat → UTime} {d : Daemon} (h : Orderly 2 d)
    (howned : Owned (netOf d.app.selector d.world)) (hpc : d.pc = .loop) {a : RoundAnswers}
    (hreopens : ¬ NoFullReopen clock a d.sets d.app.selector d.world) :
    ¬ InRounds (RoundAll ReadsWell clock) d (.round a) := by
  intro hround
  exact hreopens ((round_reads_well clock a howned h.steady).mp (hround.of_loop hpc))

/-- The serial device has a buffer for one byte. It sends a byte, and the write of a command fails in
the same turn. -/
def fullAndClosed : List Input :=
  Daemon.firstConnection ++
    [Daemon.turn ⟨{5}, ∅, ∅⟩ ⟨some [10], none, none⟩, Daemon.quietTurn, .check Daemon.oneAddress,
      Daemon.turn ⟨{3}, {3}, ∅⟩ ⟨some [65], none, none⟩]

theorem full_and_closed_reads_well : Along (Daemon.step fun _ => 0)
    (InRounds (RoundAll ReadsWell fun _ => 0)) (Daemon.start (fun _ => 0) 2 Daemon.oneAddress)
    (fullAndClosed ++ [Daemon.quietTurn]) :=
  (read_has_room_iff (fun _ => 0) (by decide) Daemon.oneAddress
    (fullAndClosed ++ [Daemon.quietTurn]) (by decide +kernel)).mpr (by decide +kernel)

/-- It is opened again, and has sent another byte. -/
def reopenedFull : RoundAnswers :=
  ⟨Daemon.openAll, .ready ⟨{3}, ∅, ∅⟩, fun _ => ⟨some [66], none, none⟩⟩

/-- The read handler has no room for it, so `read` returns 0. -/
theorem reopened_full_read : ¬ Along (Daemon.step fun _ => 0)
    (InRounds (RoundAll ReadsWell fun _ => 0)) (Daemon.start (fun _ => 0) 2 Daemon.oneAddress)
    (fullAndClosed ++ [.round reopenedFull]) := by
  intro h
  rw [Machine.along_append, Machine.along_cons] at h
  have horderly := run_orderly (fun _ => 0) (show 2 ≤ 2 from le_rfl) Daemon.oneAddress fullAndClosed
  have hstale : Along (Daemon.step fun _ => 0) (InRounds (NoStaleClose fun _ => 0))
      (Daemon.start (fun _ => 0) 2 Daemon.oneAddress) fullAndClosed := by decide +kernel
  have howned := run_owned (fun _ => 0) hstale
  exact horderly.full_read howned (by decide +kernel) (by decide +kernel) h.2.1

end Hdmi2usbd
