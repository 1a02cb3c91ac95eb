import Hdmi2usbd.Ownership

/-!
# Broadcast — serial output reaches every connection, or leaves a gap

While a connection is open (its *span* in the log), the bytes that process cycles move out
of the serial device are compared with those copied to the connection's transmit buffer.
One cycle moves one chunk, and one turn of its loop copies of it what the transmit buffer
has room for (`cycle_span`); what does not fit is never copied. So no connection has a gap
in any state of a run if and only if in each cycle every open connection has a device with
room for the whole chunk (`broadcast_iff_room`).
-/

namespace Hdmi2usbd

open Machine (Along run)

variable (clock : Nat → UTime)

/-! ## Spans -/

/-- Whether a connection is open, and the bytes moved and copied to it while it was. -/
structure Span where
  live : Bool
  moved : List UInt8
  copied : List UInt8
deriving DecidableEq, Repr

def Span.step (session : Nat) (s : Span) : Ev → Span
  | .opened .accepted other _ => if other = session then { s with live := true } else s
  | .closed other _ => if other = session then { s with live := false } else s
  | .moved bytes => if s.live then { s with moved := s.moved ++ bytes } else s
  | .copied other bytes =>
    if s.live ∧ other = session then { s with copied := s.copied ++ bytes } else s
  | _ => s

/-- The span of a connection from its accept to its close. -/
def spanOf (session : Nat) (log : List Ev) : Span := run (Span.step session) ⟨false, [], []⟩ log

/-- The connection has got the bytes moved in its span, in order, each once. -/
def Span.Gapless (s : Span) : Prop := s.copied = s.moved

theorem spanOf_append (session : Nat) (log evs : List Ev) :
    spanOf session (log ++ evs) = run (Span.step session) (spanOf session log) evs :=
  Machine.run_append _ _ _ _

/-- Turns of the select loop move and copy nothing. -/
theorem gapless_io {log log' : List Ev} (h : Adds Ev.IsIo log log') (session : Nat)
    (hgapless : (spanOf session log).Gapless) : (spanOf session log').Gapless := by
  rcases h with ⟨evs, rfl, hevs⟩
  rw [spanOf_append]
  refine Machine.run_invariant_mem Span.Gapless ?_ hgapless
  intro s ev hev hs
  have hio := hevs ev hev
  cases ev with
  | opened driver other fd =>
    cases driver with
    | accepted =>
      simp only [Span.step]
      split <;> exact hs
    | serial | listen => exact hs
  | closed other fd =>
    simp only [Span.step]
    split <;> exact hs
  | moved | copied | handed | signalled | reloaded | processed => exact hio.elim
  | _ => exact hs

/-! ## One turn -/

/-- Bytes are copied to the connection, if it is open. -/
def Span.copyIn (s : Span) (bytes : List UInt8) : Span :=
  if s.live then { s with copied := s.copied ++ bytes } else s

@[simp] theorem Span.copyIn_nil (s : Span) : s.copyIn [] = s := by
  unfold copyIn
  split <;> simp

/-- What a turn copies of the chunk to the connection of a session. -/
def turnCopies (session : Nat) (chunk : List UInt8) (dev : Iodev) : List UInt8 :=
  if dev.listener = false ∧ dev.session = session then chunk.take dev.tbuf.available else []

/-- What the turn for slot `index` copies. -/
def slotCopies (session : Nat) (chunk : List UInt8) (devs : List Iodev) (index : Nat) :
    List UInt8 :=
  match devs[index]? with
  | some dev => turnCopies session chunk dev
  | none => []

/-- The loop body at `index`: it copies what the device there has room for, and changes only
slot 0 and its own. -/
theorem processStep_span {s : ProcessState} {chunk : List UInt8} (hchunk : s.app.copy.contents = chunk)
    (session : Nat) {index : Nat} (hpos : 1 ≤ index) (hserial : 0 < s.app.selector.toList.length) :
    spanOf session (processStep clock chunk.length s index).world.log =
        (spanOf session s.world.log).copyIn
          (slotCopies session chunk s.app.selector.toList index) ∧
      (processStep clock chunk.length s index).app.copy = s.app.copy ∧
      (processStep clock chunk.length s index).app.selector.toList.length =
        s.app.selector.toList.length ∧
      ∀ other, index < other → (processStep clock chunk.length s index).app.selector.toList[other]? =
        s.app.selector.toList[other]? := by
  rcases processStep_cases clock chunk.length s index with
    ⟨happ, hw, hlistener⟩ | ⟨serial, dev, hs, hd, hconn⟩
  · have hnone : slotCopies session chunk s.app.selector.toList index = [] := by
      unfold slotCopies
      split
      · next dev hd =>
        have hl := hlistener _ dev (List.getElem?_eq_getElem hserial) hd
        rw [iodevIsListener] at hl
        simp [turnCopies, hl]
      · rfl
    rw [happ, hw, hnone, Span.copyIn_nil]
    exact ⟨rfl, rfl, rfl, fun _ _ => rfl⟩
  · rcases processStep_spec clock chunk.length hs hd hconn with
      ⟨stbuf, rbuf, tbuf, linebuf, copied, handed, hdevs, hcopy, -, hlog, -, -, hcopied, hhanded⟩
    refine ⟨?_, hcopy, by rw [hdevs]; simp, ?_⟩
    · -- handing a command on copies nothing
      have hhand : ∀ sp : Span, run (Span.step session) sp handed = sp := by
        intro sp
        rcases hhanded with ⟨rfl, -⟩ | ⟨_, _, _, rfl, -⟩ <;> rfl
      have hslot : slotCopies session chunk s.app.selector.toList index =
          turnCopies session chunk dev := by
        simp [slotCopies, hd]
      rw [iodevIsListener] at hconn
      rw [hlog, spanOf_append, Machine.run_append, hhand, hslot]
      rcases hcopied with ⟨hzero, rfl⟩ | ⟨-, rfl⟩
      · have hnone : turnCopies session chunk dev = [] := by
          simp [turnCopies, List.eq_nil_of_length_eq_zero hzero]
        rw [hnone, Span.copyIn_nil]
        rfl
      · -- `buffer_copy` takes what fits and drops the rest
        have hfits : chunk.take (min chunk.length dev.tbuf.available) =
            chunk.take dev.tbuf.available := by
          rw [← List.take_take, List.take_of_length_le (List.length_take_le' _ _)]
        rw [hchunk, hfits]
        by_cases hsession : dev.session = session
        · simp [Span.step, Span.copyIn, turnCopies, hconn, hsession]
        · simp [Span.step, turnCopies, hsession]
    · intro other hlt
      rw [hdevs, List.getElem?_set_ne (by omega), List.getElem?_set_ne (by omega)]

/-! ## One cycle -/

/-- The invariant of the loop of a cycle at `index`, for a connection to which only the turn
for slot `slot` copies. -/
structure CycleLoop (s : ProcessState) (session slot : Nat) (part : List UInt8) (index : Nat)
    (t : ProcessState) : Prop where
  copy : t.app.copy = s.app.copy
  length : t.app.selector.toList.length = s.app.selector.toList.length
  later : ∀ other, index ≤ other → t.app.selector.toList[other]? = s.app.selector.toList[other]?
  span : spanOf session t.world.log =
    (spanOf session s.world.log).copyIn (if slot < index then part else [])

theorem processLoop_span {s : ProcessState} {chunk : List UInt8}
    (hchunk : s.app.copy.contents = chunk) (session : Nat)
    (hserial : 0 < s.app.selector.toList.length) {slot : Nat} (hslot : 1 ≤ slot) {part : List UInt8}
    (honly : ∀ index, 1 ≤ index → slotCopies session chunk s.app.selector.toList index =
      if index = slot then part else []) (n : Nat) :
    CycleLoop s session slot part (1 + n)
      (run (processStep clock chunk.length) s (List.range' 1 n)) := by
  refine Machine.run_range' (CycleLoop s session slot part) ?_ ?_ n
  · intro index t hpos h
    rcases processStep_span clock (by rw [h.copy, hchunk]) session hpos (by rw [h.length]; exact hserial)
      with ⟨hspan, hcopy, hlength, hlater⟩
    -- the slot is as it was before the loop: earlier turns have not touched it
    have hcopies : slotCopies session chunk t.app.selector.toList index =
        if index = slot then part else [] := by
      rw [← honly index hpos, slotCopies, slotCopies, h.later index le_rfl]
    refine ⟨by rw [hcopy, h.copy], by rw [hlength, h.length], ?_, ?_⟩
    · intro other hle
      rw [hlater other hle, h.later other (by omega)]
    · -- only the turn for the slot of the connection adds to what it has got
      rw [hspan, h.span, hcopies]
      rcases Nat.lt_trichotomy slot index with hlt | heq | hgt
      · rw [if_pos hlt, if_neg (by omega), if_pos (by omega), Span.copyIn_nil]
      · rw [if_neg (by omega), if_pos heq.symm, if_pos (by omega), Span.copyIn_nil]
      · rw [if_neg (by omega), if_neg (by omega), if_neg (by omega), Span.copyIn_nil]
  · refine ⟨rfl, rfl, fun _ _ => rfl, ?_⟩
    rw [if_neg (by omega), Span.copyIn_nil]

/-- What a cycle moves out of the serial device. -/
def chunkOf (copy : RingBuffer) (serial : Iodev) : List UInt8 :=
  serial.rbuf.contents.take (movedCount copy serial)

theorem length_chunkOf (copy : RingBuffer) (serial : Iodev) :
    (chunkOf copy serial).length = movedCount copy serial := by
  have hle : movedCount copy serial ≤ serial.rbuf.contents.length := by
    rw [RingBuffer.length_contents]
    unfold movedCount
    split <;> omega
  rw [chunkOf, List.length_take]
  omega

/-- Bytes are moved while the connection may be open. -/
def Span.moveIn (s : Span) (bytes : List UInt8) : Span :=
  if s.live then { s with moved := s.moved ++ bytes } else s

@[simp] theorem Span.moveIn_nil (s : Span) : s.moveIn [] = s := by
  unfold moveIn
  split <;> simp

/-- A cycle moves one chunk and copies to each connection what its turn copies. -/
theorem cycle_span {app : Hdmi2usb} (rc : Int) {w : World} (hempty : app.copy.contents = [])
    {serial : Iodev} (hs : app.selector.toList[0]? = some serial) (session : Nat) {slot : Nat}
    (hslot : 1 ≤ slot) {part : List UInt8} (hpart : part = [] ∨ slot < app.selector.toList.length)
    (honly : ∀ index, 1 ≤ index → slotCopies session (chunkOf app.copy serial)
      app.selector.toList index = if index = slot then part else []) :
    spanOf session (hdmi2usbProcess clock app rc w).2.2.log =
      ((spanOf session w.log).moveIn (chunkOf app.copy serial)).copyIn part := by
  rcases hdmi2usbProcess_cases clock app rc w with ⟨-, hw, hinactive⟩ |
    ⟨serial', hs', -, final, hfinal, -, hw⟩
  · -- nothing is moved from an inactive device
    have hchunk : chunkOf app.copy serial = [] := by
      simp [chunkOf, movedCount, iodevIsOpen, hinactive serial hs, DevState.toNat]
    have hnone : part = [] := by
      have := honly slot hslot
      rw [if_pos rfl, hchunk] at this
      rw [← this, slotCopies]
      split
      · simp [turnCopies]
      · rfl
    rw [hw, hchunk, hnone, Span.moveIn_nil, Span.copyIn_nil]
  · cases hs.symm.trans hs'
    rcases processSerialData_spec hempty serial w with
      ⟨copy', rbuf, hn, hcopy, hserial, hcontents, -, evs, hworld, hevs⟩
    have hchunk : copy'.contents = chunkOf app.copy serial := hcontents
    rw [← length_chunkOf] at hn
    rw [hn, hcopy, hserial, hworld] at hfinal
    -- only what leaves the serial device is logged before the loop
    have hmoved : spanOf session (w.log ++ evs) =
        (spanOf session w.log).moveIn (chunkOf app.copy serial) := by
      rw [spanOf_append]
      rcases hevs with rfl | ⟨rfl, hnil⟩
      · rw [hchunk]
        rfl
      · rw [← hchunk, hnil, Span.moveIn_nil]
        rfl
    generalize hstart : ProcessState.mk _ _ 0 0 = start at hfinal
    have hcopy' : start.app.copy.contents = chunkOf app.copy serial := by
      rw [← hstart]
      exact hchunk
    have hdevs : start.app.selector.toList =
        app.selector.toList.set 0 { serial with rbuf := rbuf } := by
      rw [← hstart]
      exact Selector.store_toList _ _ _
    have hlog : start.world.log = w.log ++ evs := by rw [← hstart]
    have hpos : 0 < app.selector.toList.length := (List.getElem?_eq_some_iff.mp hs).1
    -- the serial device has changed, the others have not
    have honly' : ∀ index, 1 ≤ index → slotCopies session (chunkOf app.copy serial)
        start.app.selector.toList index = if index = slot then part else [] := by
      intro index hone
      rw [← honly index hone, slotCopies, slotCopies, hdevs, List.getElem?_set_ne (by omega)]
    have hloop := processLoop_span clock hcopy' session (by rw [hdevs]; simpa using hpos) hslot
      honly' (selectorDeviceCount app.selector - 1)
    have hcount : 1 + (selectorDeviceCount app.selector - 1) = app.selector.toList.length := by
      rw [← Selector.length_toList]
      omega
    rw [hw, hfinal, hloop.span, hlog, hmoved, hcount]
    rcases hpart with rfl | hlt
    · rw [ite_self]
    · rw [if_pos hlt]

/-! ## Room -/

/-- Every open connection has a device with room for the chunk of the next cycle. -/
def HasRoom (app : Hdmi2usb) (log : List Ev) : Prop :=
  ∀ serial, app.selector.toList[0]? = some serial → movedCount app.copy serial = 0 ∨
    ∀ session, (spanOf session log).live →
      ∃ dev ∈ app.selector.toList, dev.driver = .accepted ∧ dev.session = session ∧
        movedCount app.copy serial ≤ dev.tbuf.available

/-- What a connection gets: from its device, if it has one, what there is room for. -/
theorem cycle_span_cases {app : Hdmi2usb} (rc : Int) {w : World} (h : Seated (netOf app.selector w))
    (hempty : app.copy.contents = []) {serial : Iodev}
    (hs : app.selector.toList[0]? = some serial) (session : Nat) :
    (∃ dev ∈ app.selector.toList, dev.driver = .accepted ∧ dev.session = session ∧
      spanOf session (hdmi2usbProcess clock app rc w).2.2.log =
        ((spanOf session w.log).moveIn (chunkOf app.copy serial)).copyIn
          (turnCopies session (chunkOf app.copy serial) dev)) ∨
    ((∀ dev ∈ app.selector.toList, dev.driver = .accepted → dev.session ≠ session) ∧
      spanOf session (hdmi2usbProcess clock app rc w).2.2.log =
        (spanOf session w.log).moveIn (chunkOf app.copy serial)) := by
  by_cases hthere : ∃ (slot : Nat) (dev : Iodev), app.selector.toList[slot]? = some dev ∧
      dev.driver = .accepted ∧ dev.session = session
  · rcases hthere with ⟨slot, dev, hget, hacc, rfl⟩
    refine .inl ⟨dev, List.mem_of_getElem? hget, hacc, rfl, ?_⟩
    have hslot : 1 ≤ slot := by
      rcases Nat.eq_zero_or_pos slot with hzero | hpos
      · have := (h.devs slot dev hget).serial.mp hzero
        rw [hacc] at this
        cases this
      · exact hpos
    refine cycle_span clock rc hempty hs dev.session hslot
      (.inr (List.getElem?_eq_some_iff.mp hget).1) ?_
    intro index _
    split
    · next heq => rw [heq, slotCopies, hget]
    · next hne =>
      -- the other devices have other sessions
      unfold slotCopies
      split
      · next other hother =>
        have hdiff := h.session_ne (fun heq => hne heq.symm) hget hother hacc
        simp [turnCopies, hdiff.symm]
      · rfl
  · have hnone : ∀ dev ∈ app.selector.toList, dev.driver = .accepted → dev.session ≠ session := by
      intro dev hmem hacc heq
      rcases List.mem_iff_getElem?.mp hmem with ⟨slot, hget⟩
      exact hthere ⟨slot, dev, hget, hacc, heq⟩
    refine .inr ⟨hnone, ?_⟩
    have hcycle := cycle_span clock rc (w := w) hempty hs session le_rfl (.inl rfl) ?_
    · rw [hcycle, Span.copyIn_nil]
    · intro index hone
      rw [ite_self]
      unfold slotCopies
      split
      · next dev hget =>
        refine if_neg ?_
        rintro ⟨hconn, heq⟩
        exact hnone dev (List.mem_of_getElem? hget) (h.connection hone hget hconn) heq
      · rfl

/-- A connection stays without a gap if what is copied is what is moved. -/
theorem Span.gapless_cycle {s : Span} (h : s.Gapless) (chunk part : List UInt8) :
    ((s.moveIn chunk).copyIn part).Gapless ↔ (s.live → part = chunk) := by
  unfold Gapless at h ⊢
  cases hlive : s.live with
  | false => simp [moveIn, copyIn, hlive, h]
  | true => simp [moveIn, copyIn, hlive, h]

/-- Without a gap after the cycle, there was room. -/
theorem hasRoom_of_gapless {app : Hdmi2usb} (rc : Int) {w : World}
    (h : Seated (netOf app.selector w)) (hempty : app.copy.contents = [])
    (hgapless : ∀ session, (spanOf session w.log).Gapless)
    (hafter : ∀ session, (spanOf session (hdmi2usbProcess clock app rc w).2.2.log).Gapless) :
    HasRoom app w.log := by
  intro serial hs
  have hlength := length_chunkOf app.copy serial
  rw [or_iff_not_imp_left]
  intro hmoved session hlive
  have hall := hafter session
  rcases cycle_span_cases clock rc h hempty hs session with
    ⟨dev, hmem, hacc, hsession, hspan⟩ | ⟨-, hspan⟩
  · -- the whole chunk has been copied
    refine ⟨dev, hmem, hacc, hsession, ?_⟩
    rw [hspan, Span.gapless_cycle (hgapless session)] at hall
    have hcopied := congrArg List.length (hall hlive)
    unfold turnCopies at hcopied
    split at hcopied
    · rw [List.length_take] at hcopied
      omega
    · rw [List.length_nil] at hcopied
      omega
  · -- without a device the connection gets nothing
    rw [hspan, ← Span.copyIn_nil (Span.moveIn _ _), Span.gapless_cycle (hgapless session)] at hall
    have hnone := congrArg List.length (hall hlive)
    rw [List.length_nil] at hnone
    omega

/-- With room for the chunk, the device of a connection gets all of it. -/
theorem turnCopies_eq {n : Net} (h : Seated n) {dev : Iodev} (hmem : dev ∈ n.devs)
    (hacc : dev.driver = .accepted) {chunk : List UInt8} (hfits : chunk.length ≤ dev.tbuf.available) :
    turnCopies dev.session chunk dev = chunk := by
  unfold turnCopies
  cases hlistener : dev.listener with
  | false => rw [if_pos ⟨rfl, rfl⟩, List.take_of_length_le hfits]
  | true =>
    -- without buffers there is no room, so the chunk is empty
    rcases List.mem_iff_getElem?.mp hmem with ⟨i, hi⟩
    have hsize := (h.devs i dev hi).unbuffered (by simp [hacc]) hlistener
    have hzero : chunk.length = 0 := by
      have := dev.tbuf.used_add_available
      omega
    rw [List.eq_nil_of_length_eq_zero hzero]
    simp

theorem gapless_of_hasRoom {app : Hdmi2usb} (rc : Int) {w : World}
    (h : Seated (netOf app.selector w)) (hempty : app.copy.contents = []) {serial : Iodev}
    (hs : app.selector.toList[0]? = some serial)
    (hgapless : ∀ session, (spanOf session w.log).Gapless) (hroom : HasRoom app w.log)
    (session : Nat) : (spanOf session (hdmi2usbProcess clock app rc w).2.2.log).Gapless := by
  have hlength := length_chunkOf app.copy serial
  have hnothing : movedCount app.copy serial = 0 → chunkOf app.copy serial = [] :=
    fun hzero => List.eq_nil_of_length_eq_zero (hlength.trans hzero)
  rcases cycle_span_cases clock rc h hempty hs session with
    ⟨dev, hmem, hacc, rfl, hspan⟩ | ⟨hnone, hspan⟩
  · rw [hspan, Span.gapless_cycle (hgapless dev.session)]
    intro hlive
    refine turnCopies_eq h hmem hacc ?_
    rw [hlength]
    rcases hroom serial hs with hzero | hdevs
    · omega
    · rcases hdevs dev.session hlive with ⟨dev', hmem', hacc', hsession', hfits⟩
      rwa [h.eq_of_session hmem' hmem hacc' hsession'] at hfits
  · rw [hspan, ← Span.copyIn_nil (Span.moveIn _ _), Span.gapless_cycle (hgapless session)]
    intro hlive
    rcases hroom serial hs with hzero | hdevs
    · rw [hnothing hzero]
    · rcases hdevs session hlive with ⟨dev', hmem', hacc', hsession', -⟩
      exact absurd hsession' (hnone dev' hmem' hacc')

theorem hdmi2usbProcess_gapless {app : Hdmi2usb} (rc : Int) {w : World}
    (h : Seated (netOf app.selector w)) (hempty : app.copy.contents = [])
    (hgapless : ∀ session, (spanOf session w.log).Gapless) :
    (∀ session, (spanOf session (hdmi2usbProcess clock app rc w).2.2.log).Gapless) ↔
      HasRoom app w.log := by
  constructor
  · exact hasRoom_of_gapless clock rc h hempty hgapless
  · intro hroom
    rcases hdmi2usbProcess_cases clock app rc w with ⟨-, hw, -⟩ | ⟨serial, hs, -⟩
    · rw [hw]
      exact hgapless
    · exact gapless_of_hasRoom clock rc h hempty hs hgapless hroom

/-! ## Runs -/

/-- A process cycle finds room for its chunk at every open connection. -/
def Roomy (d : Daemon) (i : Input) : Prop :=
  ∀ a, i = .check a → d.pc = .check → NoSignal d.signalReceived → HasRoom d.app d.world.log

/-- No connection has a gap. -/
def Daemon.Gapless (d : Daemon) : Prop := ∀ session, (spanOf session d.world.log).Gapless

/-- The copy buffer is empty between cycles. -/
def CycleReady (d : Daemon) : Prop :=
  Seated (netOf d.app.selector d.world) ∧ d.app.copy.contents = []

theorem hdmi2usbProcess_copy {app : Hdmi2usb} (rc : Int) (w : World)
    (hempty : app.copy.contents = []) : (hdmi2usbProcess clock app rc w).2.1.copy.contents = [] := by
  rcases hdmi2usbProcess_cases clock app rc w with ⟨happ, -, -⟩ | ⟨_, -, -, final, -, happ, -⟩
  · rw [happ]
    exact hempty
  · rw [happ]
    exact final.app.copy.flush_contents

theorem step_cycleReady (d : Daemon) (i : Input) (h : CycleReady d) : CycleReady (d.step clock i) := by
  refine ⟨step_seated clock d i h.1, ?_⟩
  refine d.step_keeps clock (I := fun app _ => app.copy.contents = []) h.2 (fun _ _ => h.2)
    (fun _ _ _ => h.2) ?_ (hdmi2usbProcess_copy clock 0 _ h.2)
  intro a rc app w hinit
  rcases hdmi2usbInit_spec hinit with ⟨-, -, hcopy, -, -, -, -⟩
  rw [hcopy]
  exact h.2

/-- A mark in the log is in no span. -/
theorem spanOf_mark (session : Nat) (log : List Ev) {ev : Ev} (h : ev.isMark) :
    spanOf session (log ++ [ev]) = spanOf session log := by
  rw [spanOf_append]
  cases ev <;> first | rfl | cases h

theorem step_gapless (d : Daemon) (i : Input) (h : CycleReady d) (hgapless : d.Gapless) :
    (d.step clock i).Gapless ↔ Roomy d i := by
  have hmark : ∀ {ev : Ev}, ev.isMark → ∀ session,
      (spanOf session (d.world.log ++ [ev])).Gapless := by
    intro ev hev session
    rw [spanOf_mark session d.world.log hev]
    exact hgapless session
  by_cases hcycle : ∃ a, i = .check a ∧ d.pc = .check ∧ NoSignal d.signalReceived
  · -- a process cycle: the log before it differs from the state's by a mark
    rcases hcycle with ⟨a, rfl, hpc, hno⟩
    have hroomy : Roomy d (.check a) ↔ HasRoom d.app (d.world.record .processed).log := by
      have hsame : HasRoom d.app (d.world.record .processed).log ↔
          HasRoom d.app d.world.log := by
        simp only [HasRoom, World.record_log, spanOf_mark _ _ (show (Ev.processed).isMark from rfl)]
      rw [hsame]
      constructor
      · intro hroom
        exact hroom a rfl hpc hno
      · intro hroom _ _ _ _
        exact hroom
    unfold Daemon.Gapless
    rw [hroomy, (Daemon.step_process clock d hpc hno).2]
    exact hdmi2usbProcess_gapless clock 0 (h.1.mark rfl) h.2 (hmark rfl)
  · -- any other step neither moves nor copies bytes
    refine iff_of_true ?_ fun a ha hpc hno => absurd ⟨a, ha, hpc, hno⟩ hcycle
    intro session
    rcases d.step_cases clock i with ⟨-, hw⟩ | ⟨a, -, -, hd⟩ | ⟨a, -, -, -, hd⟩ |
      ⟨a, hi, hpc, hno, -, -⟩ | ⟨sig, -, -, hw⟩
    · rw [hw]
      exact hgapless session
    · rw [hd]
      exact gapless_io (netReaches_log (selectorRound_any clock a d.sets d.app.selector d.world))
        session (hgapless session)
    · rw [hd]
      rcases Daemon.initialise_cases clock { d with world := d.world.record .reloaded } exSuccess a
        with ⟨-, hw⟩ | ⟨rc', app, w, hinit, -, hw⟩
      · rw [hw]
        exact hmark rfl session
      · rcases hdmi2usbInit_spec hinit with ⟨-, -, -, -, -, -, hlog⟩
        rw [hw, hlog]
        exact hmark rfl session
    · exact absurd ⟨a, hi, hpc, hno⟩ hcycle
    · rw [hw]
      exact hmark rfl session

/-- Serial output is broadcast without gaps: in every state of a run each connection has been
copied exactly the bytes moved while it was open, if and only if every cycle finds room for
its chunk at every open connection. -/
theorem broadcast_iff_room (iobufsize : Nat) (a : InitAnswers) (inputs : List Input) :
    (∀ past, past <+: inputs →
      (run (Daemon.step clock) (Daemon.start clock iobufsize a) past).Gapless) ↔
    Along (Daemon.step clock) Roomy (Daemon.start clock iobufsize a) inputs := by
  rcases Daemon.start_spec clock iobufsize a with ⟨-, hcopy, -, -, hlog, -⟩
  refine Machine.forall_run_iff_along CycleReady Daemon.Gapless (step_cycleReady clock)
    (step_gapless clock) ⟨start_seated clock iobufsize a, hcopy⟩ ?_
  intro session
  rw [hlog]
  rfl

/-- With buffers of three bytes: the serial device sends twice two bytes, and the client does
not read. -/
def slowClient : List Input :=
  Daemon.firstConnection ++
    [Daemon.turn ⟨{3}, ∅, ∅⟩ ⟨some [1, 2], none, none⟩, Daemon.quietTurn, .check Daemon.oneAddress,
      Daemon.turn ⟨{3}, ∅, ∅⟩ ⟨some [3, 4], none, none⟩, Daemon.quietTurn, .check Daemon.oneAddress]

/-- The span of the connection in that run. -/
def slowClientSpan : Span :=
  spanOf 3 (run (Daemon.step fun _ => 0)
    (Daemon.start (fun _ => 0) 3 Daemon.oneAddress) slowClient).world.log

theorem slow_client_gap : slowClientSpan = ⟨true, [1, 2, 3, 4], [1, 2]⟩ ∧
    ¬ ∀ past, past <+: slowClient →
      (run (Daemon.step fun _ => 0) (Daemon.start (fun _ => 0) 3 Daemon.oneAddress) past).Gapless := by
  have hspan : slowClientSpan = ⟨true, [1, 2, 3, 4], [1, 2]⟩ := by decide +kernel
  refine ⟨hspan, ?_⟩
  intro h
  have hgapless : slowClientSpan.Gapless := h slowClient (List.prefix_refl _) 3
  rw [hspan] at hgapless
  cases hgapless

end Hdmi2usbd
