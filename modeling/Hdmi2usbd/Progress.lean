import Hdmi2usbd.Lib.Flow
import Hdmi2usbd.Loops
import Hdmi2usbd.Turns

/-!
# Progress — the select loop comes back to the process cycle

The process cycle runs only when a `select` finds nothing to do. Until then receive buffers are only
filled and send buffers only emptied, so each device can transfer no more than its buffers allow
(`Iodev.budget`). A round in which anything is transferred, opened or closed takes from what is left
to transfer and to close, or opens a session (`round_progress`). So in a stretch of rounds without a
process cycle these rounds are bounded by the buffers and the descriptors held at its start and by
the number of sessions that are opened in it (`run_progress`).
-/

namespace Hdmi2usbd

open Machine (Along run)

/-! ## Buffers have the size of the options -/

/-- The buffers of the device, and of the connections that a listener makes, are no larger than
`B`. -/
structure Iodev.Sized (B : Nat) (dev : Iodev) : Prop where
  rbuf : dev.rbuf.size ≤ B
  tbuf : dev.tbuf.size ≤ B
  accepts : dev.driver = .listen → dev.bufsize ≤ B

variable {clock : Nat → UTime} {B : Nat}

theorem SameBody.sized {dev dev' : Iodev} (h : SameBody dev dev') (hdev : dev.Sized B) :
    dev'.Sized B := by
  rw [h]
  exact ⟨hdev.rbuf, hdev.tbuf, hdev.accepts⟩

theorem flushBuffers_sized {dev : Iodev} (h : dev.Sized B) : (flushBuffers dev).Sized B :=
  ⟨h.rbuf, h.tbuf, h.accepts⟩

theorem iodevHandler_sized {dev : Iodev} (h : dev.Sized B) (event : IoEvent) (answer : IoAnswer)
    (w : World) : (iodevHandler clock event answer dev w).1.Sized B := by
  rcases iodevHandler_cases clock event answer dev w with ⟨hsame, -⟩ | ⟨bytes, -, -, -, heq⟩ |
    ⟨n, -, -, hsent⟩ | ⟨-, -, hfail⟩ | ⟨-, hfail⟩
  · rw [hsame]
    exact h
  · rw [heq]
    exact ⟨(RingBuffer.put_size _ _).trans_le h.rbuf, h.tbuf, h.accepts⟩
  · rcases hsent.body with ⟨pacer, heq⟩
    rw [heq]
    exact ⟨h.rbuf, (RingBuffer.get_size _ _ _).trans_le h.tbuf, h.accepts⟩
  · exact hfail.setUp.1.sized (flushBuffers_sized h)
  · exact hfail.setUp.1.sized h

theorem accepted_sized {bufsize : Nat} (hbufsize : bufsize ≤ B) (session : Nat) (fd : Int) :
    (tcpCreateAccepted session fd bufsize).Sized B :=
  ⟨hbufsize, hbufsize, fun h => by cases h⟩

theorem call_sized {s : Selector × World} (h : ∀ dev ∈ s.1.toList, dev.Sized B) {call : Call}
    (hloop : call.IsLoop True s) : ∀ dev ∈ (call.apply clock s).1.toList, dev.Sized B := by
  cases call with
  | close index flags => exact absurd hloop id
  | setMasks index answer sets =>
    cases hget : s.1.toList[index]? with
    | none =>
      rw [Call.apply, onDevice_none hget]
      exact h
    | some dev =>
      rw [Call.apply, onDevice_some hget]
      exact each_store h ((setMasks_setUp clock answer dev sets s.2).1.sized
        (h dev (List.mem_of_getElem? hget))) index
  | test index ptr sets event answer =>
    cases hget : s.1.toList[index]? with
    | none =>
      have happly : (Call.test index ptr sets event answer).apply clock s = s := by
        simp only [Call.apply, dispatchEvent, selectorGetDevice_eq, hget]
      rw [happly]
      exact h
    | some dev =>
      have hdev := h dev (List.mem_of_getElem? hget)
      by_cases hset : iodevIsSet dev (sets.get event)
      · simp only [Call.apply, dispatchEvent_set (s := ⟨index, 0, s.1, s.2⟩) hget hset]
        by_cases haccept : event = .read ∧ dev.driver = .listen
        · rw [runHandler_accept haccept]
          rcases tcpAcceptHandler_cases answer dev s.1
            (DispatchState.call ⟨index, 0, s.1, s.2⟩ ptr event dev) with ⟨-, heq⟩ | ⟨fd, -, -, heq⟩
          · rw [heq]
            exact h
          · rw [heq]
            exact each_place h (accepted_sized (hdev.accepts haccept.2) _ _)
        · rw [runHandler_other haccept]
          dsimp only
          split
          · exact each_store h (iodevHandler_sized hdev event answer _) index
          · exact h
      · simp only [Call.apply, dispatchEvent_unset (s := ⟨index, 0, s.1, s.2⟩) hget hset]
        exact h

/-! ### The process cycle -/

theorem processSerialData_sized {copy : RingBuffer} {serial : Iodev} (h : serial.Sized B)
    (w : World) : (hdmi2usbProcessSerialData copy serial w).2.2.1.Sized B := by
  unfold hdmi2usbProcessSerialData
  generalize (if iodevIsOpen serial then serial.rbuf.used else 0) = sBytes
  dsimp only
  split
  · exact ⟨(RingBuffer.copymove_src_size _ _ _ _).trans_le h.rbuf, h.tbuf, h.accepts⟩
  · exact h

theorem copySerialData_sized {dev : Iodev} (h : dev.Sized B) (copy : RingBuffer) (sBytes : Nat)
    (w : World) : (copySerialData copy sBytes dev w).1.Sized B := by
  unfold copySerialData
  split
  · exact ⟨h.rbuf, (RingBuffer.copymove_dst_size _ _ _ _).trans_le h.tbuf, h.accepts⟩
  · exact h

theorem clientData_sized {dev : Iodev} (h : dev.Sized B) :
    (hdmi2usbProcessClientData dev).Sized B := by
  unfold hdmi2usbProcessClientData
  dsimp only
  split
  · cases dev.linebuf with
    | none => exact h
    | some linebuf => exact ⟨(RingBuffer.get_size _ _ _).trans_le h.rbuf, h.tbuf, h.accepts⟩
  · exact h

theorem iodevWrite_sized {dev : Iodev} (h : dev.Sized B) (buf : List UInt8) :
    (iodevWrite dev buf).2.Sized B := by
  unfold iodevWrite
  split
  · exact h
  split
  · exact ⟨h.rbuf, (RingBuffer.put_size _ _).trans_le h.tbuf, h.accepts⟩
  · exact h

theorem clientCommands_sized {serial dev : Iodev} (hserial : serial.Sized B) (hdev : dev.Sized B)
    (lastCommand : Microtimer) (w : World) :
    (hdmi2usbProcessClientCommands clock lastCommand serial dev w).2.1.Sized B ∧
      (hdmi2usbProcessClientCommands clock lastCommand serial dev w).2.2.1.Sized B := by
  rcases clientCommands_cases clock lastCommand serial dev w with
    ⟨-, heq⟩ | ⟨line, rest, dev', -, -, heq, ⟨linebuf, hdev'⟩, -⟩
  · rw [heq]
    exact ⟨hserial, hdev⟩
  · rw [heq, hdev']
    exact ⟨iodevWrite_sized hserial line, hdev.rbuf, hdev.tbuf, hdev.accepts⟩

theorem processStep_sized {sBytes index : Nat} {s : ProcessState}
    (h : ∀ dev ∈ s.app.selector.toList, dev.Sized B) :
    ∀ dev ∈ (processStep clock sBytes s index).app.selector.toList, dev.Sized B := by
  unfold processStep
  rw [selectorGetDevice_eq, selectorGetDevice_eq]
  split
  · next serial dev hserial hdev =>
    split
    · exact h
    · have hdata := clientData_sized (copySerialData_sized (h dev (List.mem_of_getElem? hdev))
        s.app.copy sBytes s.world)
      have hturn := @clientCommands_sized clock B serial _ (h serial (List.mem_of_getElem? hserial))
        hdata s.app.lastCommand (copySerialData s.app.copy sBytes dev s.world).2
      exact each_store (each_store h hturn.1 0) hturn.2 index
  · exact h

theorem serialCreate_sized (w : World) : (serialCreate clock B w).1.Sized B :=
  ⟨le_rfl, le_rfl, fun h => by cases h⟩

theorem tcpCreateListen_sized (laddr : SockAddr) : (tcpCreateListen laddr B).Sized B :=
  ⟨Nat.zero_le _, Nat.zero_le _, fun _ => le_rfl⟩

theorem step_sized {d : Daemon} (h : EachOf (Iodev.Sized B) B d.app) (i : Input) :
    EachOf (Iodev.Sized B) B (d.step clock i).app := by
  refine d.step_keeps clock (I := fun app _ => EachOf (Iodev.Sized B) B app) h (fun _ _ => h) ?_ ?_
    ?_
  · intro a _ _
    refine ⟨?_, h.2⟩
    exact (selectorRound_loop clock a d.sets d.app.selector d.world).preserves
      (fun s => ∀ dev ∈ s.1.toList, dev.Sized B) (fun s call hs hloop => call_sized hs hloop) h.1
  · intro a rc app w hinit
    exact hdmi2usbInit_eachOf (fun _ => serialCreate_sized _) (fun _ => tcpCreateListen_sized _) h.2
      hinit
  · refine ⟨?_, by rw [hdmi2usbProcess_opts]; exact h.2⟩
    refine hdmi2usbProcess_keeps clock (I := fun app _ => ∀ dev ∈ app.selector.toList, dev.Sized B)
      h.1 (fun _ _ _ h => h) (fun serial hget => ?_) (fun _ s index _ hs => processStep_sized hs) 0
    exact each_store h.1 (processSerialData_sized (h.1 serial (List.mem_of_getElem? hget)) _) 0

theorem run_sized (clock : Nat → UTime) (iobufsize : Nat) (a : InitAnswers) (inputs : List Input) :
    EachOf (Iodev.Sized iobufsize) iobufsize
      (run (Daemon.step clock) (Daemon.start clock iobufsize a) inputs).app :=
  Machine.run_invariant (fun d : Daemon => EachOf (Iodev.Sized iobufsize) iobufsize d.app)
    (fun _ i h => step_sized h i)
    (start_each (fun _ => serialCreate_sized _) (fun _ => tcpCreateListen_sized _) a) inputs

/-! ## What a call transfers is paid for -/

/-- The bytes that an event moves over a descriptor. -/
def Ev.bytes : Ev → Nat
  | .received _ bytes | .sent _ bytes _ => bytes.length
  | _ => 0

def trafficOf (log : List Ev) : Nat := (log.map Ev.bytes).sum

@[simp] theorem trafficOf_append (log log' : List Ev) :
    trafficOf (log ++ log') = trafficOf log + trafficOf log' := by
  simp [trafficOf]

theorem trafficOf_eq_zero {evs : List Ev} (h : ∀ ev ∈ evs, ¬ ev.IsTransfer) : trafficOf evs = 0 := by
  refine List.sum_eq_zero_iff_forall_eq_nat.mpr fun n hn => ?_
  rcases List.mem_map.mp hn with ⟨ev, hev, rfl⟩
  cases ev with
  | received | sent => exact absurd trivial (h _ hev)
  | _ => rfl

/-- What an open device can still transfer before the next process cycle. -/
def Iodev.budget (dev : Iodev) : Nat :=
  if iodevIsOpen dev then dev.rbuf.available + dev.tbuf.used else 0

def budgetOf (devs : List Iodev) : Nat := Slots.total Iodev.budget devs

theorem Iodev.budget_of_not_isOpen {dev : Iodev} (h : ¬ iodevIsOpen dev) : dev.budget = 0 := if_neg h

theorem Iodev.Sized.budget_le {dev : Iodev} (h : dev.Sized B) : dev.budget ≤ 2 * B := by
  have hr := dev.rbuf.used_add_available
  have ht := dev.tbuf.used_add_available
  have hrbuf := h.rbuf
  have htbuf := h.tbuf
  unfold Iodev.budget
  split <;> omega

/-- The transfers between two states are covered by the budget of the first, and by that of the
sessions opened. -/
structure Pays (B : Nat) (s s' : Selector × World) : Prop where
  opens : s.2.opens ≤ s'.2.opens
  spent : ∃ evs, s'.2.log = s.2.log ++ evs ∧ trafficOf evs + budgetOf s'.1.toList ≤
    budgetOf s.1.toList + 2 * B * (s'.2.opens - s.2.opens)

theorem Pays.refl (s : Selector × World) : Pays B s s :=
  ⟨le_rfl, [], (List.append_nil _).symm, by simp [trafficOf]⟩

theorem Pays.trans {s s' s'' : Selector × World} (h : Pays B s s') (h' : Pays B s' s'') :
    Pays B s s'' := by
  rcases h with ⟨hopens, evs, hlog, hspent⟩
  rcases h' with ⟨hopens', evs', hlog', hspent'⟩
  refine ⟨hopens.trans hopens', evs ++ evs', by rw [hlog', hlog, List.append_assoc], ?_⟩
  have hsum : 2 * B * (s''.2.opens - s.2.opens) =
      2 * B * (s'.2.opens - s.2.opens) + 2 * B * (s''.2.opens - s'.2.opens) := by
    rw [← Nat.mul_add]
    congr 1
    omega
  rw [trafficOf_append, hsum]
  omega

/-- A slot is filled with a device whose budget, with what it has transferred, is that of the old
one, or that of a new session. -/
theorem Pays.store {s : Selector × World} {index : Nat} {dev dev' : Iodev} {w' : World}
    (hget : s.1.toList[index]? = some dev) {evs : List Ev} (hlog : w'.log = s.2.log ++ evs)
    (hopens : s.2.opens ≤ w'.opens)
    (hspent : trafficOf evs + dev'.budget ≤ dev.budget + 2 * B * (w'.opens - s.2.opens)) :
    Pays B s (s.1.store index dev', w') := by
  refine ⟨hopens, evs, hlog, ?_⟩
  have hset := Slots.total_set Iodev.budget hget dev'
  simp only [Selector.store_toList, budgetOf] at hset ⊢
  omega

theorem mem_selectorPlace (sel : Selector) (dev : Iodev) : dev ∈ (selectorPlace sel dev).toList := by
  rw [selectorPlace_toList]
  split
  · next index hslot =>
    rcases inactiveSlot_some hslot with ⟨-, old, hget, -⟩
    have hlt := (List.getElem?_eq_some_iff.mp hget).1
    exact List.mem_of_getElem? (List.getElem?_set_self hlt)
  · exact List.mem_append_right _ (List.mem_singleton_self dev)

theorem budgetOf_selectorPlace (sel : Selector) (dev : Iodev) :
    budgetOf (selectorPlace sel dev).toList ≤ budgetOf sel.toList + dev.budget := by
  rw [selectorPlace_toList]
  split
  · next index hslot =>
    rcases inactiveSlot_some hslot with ⟨-, old, hget, -⟩
    have hset := Slots.total_set Iodev.budget hget dev
    unfold budgetOf
    omega
  · exact Nat.le_of_eq (Slots.total_append Iodev.budget sel.toList dev)

/-- What a handler transfers comes out of the budget of its device. -/
theorem iodevHandler_pays {dev : Iodev} (hopen : iodevIsOpen dev) (event : IoEvent)
    (answer : IoAnswer) (w : World) :
    ∃ evs, (iodevHandler clock event answer dev w).2.log = w.log ++ evs ∧
      trafficOf evs + (iodevHandler clock event answer dev w).1.budget ≤ dev.budget := by
  have hr := dev.rbuf.used_add_available
  have ht := dev.tbuf.used_add_available
  have hbudget : dev.budget = dev.rbuf.available + dev.tbuf.used := if_pos hopen
  -- closing a device transfers nothing and leaves no budget
  have hclosed : ∀ {dev'}, FailClosed dev' w (iodevHandler clock event answer dev w) →
      ∃ evs, (iodevHandler clock event answer dev w).2.log = w.log ++ evs ∧
        trafficOf evs + (iodevHandler clock event answer dev w).1.budget ≤ dev.budget := by
    intro dev' hfail
    rcases hfail.setUp.2 with ⟨evs, hlog, hevs⟩
    refine ⟨evs, hlog, ?_⟩
    rw [trafficOf_eq_zero fun ev hev => Ev.IsSetup.not_transfer (hevs ev hev),
      Iodev.budget_of_not_isOpen fun h => hfail.not_holds (holds_of_isOpen h)]
    exact Nat.zero_le _
  rcases iodevHandler_cases clock event answer dev w with ⟨hsame, hlog, -⟩ |
    ⟨bytes, -, hroom, -, heq⟩ | ⟨n, -, -, hsent⟩ | ⟨-, -, hfail⟩ | ⟨-, hfail⟩
  · exact ⟨[], by rw [hlog, List.append_nil], by rw [hsame, trafficOf]; simp⟩
  · rw [heq]
    refine ⟨[.received dev.session bytes], rfl, ?_⟩
    have hput := (dev.rbuf.put bytes).2.used_add_available
    have hused : (dev.rbuf.put bytes).2.used = dev.rbuf.used + bytes.length := by
      rw [← RingBuffer.length_contents, RingBuffer.put_contents, List.length_append,
        RingBuffer.length_contents, List.take_of_length_le hroom]
    rw [RingBuffer.put_size] at hput
    have hafter : Iodev.budget { dev with rbuf := (dev.rbuf.put bytes).2 } =
        (dev.rbuf.put bytes).2.available + dev.tbuf.used := if_pos hopen
    simp only [trafficOf, List.map_cons, List.map_nil, List.sum_cons, List.sum_nil, Ev.bytes, hafter]
    omega
  · rcases hsent with ⟨⟨pacer, hdev⟩, ⟨tick, hlog⟩, -, -⟩
    refine ⟨_, hlog, ?_⟩
    have hused : (dev.tbuf.get false n).2.2.used = dev.tbuf.used - n := by
      rw [← RingBuffer.length_contents, RingBuffer.get_contents, List.length_drop,
        RingBuffer.length_contents]
    have hafter : (iodevHandler clock event answer dev w).1.budget =
        dev.rbuf.available + (dev.tbuf.get false n).2.2.used := by
      rw [hdev]
      exact if_pos hopen
    simp only [trafficOf, List.map_cons, List.map_nil, List.sum_cons, List.sum_nil, Ev.bytes, hafter,
      List.length_take, RingBuffer.length_contents]
    omega
  · exact hclosed hfail
  · exact hclosed hfail

/-- `set_masks` gives a device no budget without a new session. -/
theorem setMasks_budget {dev : Iodev} {w : World} {index : Nat} (h : dev.Seated w index)
    (answer : OpenAnswer) (sets : FdSets)
    (hafter : (setMasks clock answer dev sets w).dev.Seated (setMasks clock answer dev sets w).world
      index) (hsized : (setMasks clock answer dev sets w).dev.Sized B) :
    w.opens ≤ (setMasks clock answer dev sets w).world.opens ∧
      (setMasks clock answer dev sets w).dev.budget ≤
        dev.budget + 2 * B * ((setMasks clock answer dev sets w).world.opens - w.opens) := by
  rcases setMasks_masked h clock answer sets with ⟨_, hmasked⟩
  refine ⟨hmasked.opens, ?_⟩
  rcases hmasked.device with hsame | ⟨hfd | hnew, -⟩
  · rw [hsame]
    exact Nat.le_add_right _ _
  · rw [Iodev.budget_of_not_isOpen fun h => hafter.held.mpr (holds_of_isOpen h) hfd]
    exact Nat.zero_le _
  · -- it has been opened
    have hsession := hafter.session
    have hone := Nat.mul_le_mul_left (2 * B)
      (show 1 ≤ (setMasks clock answer dev sets w).world.opens - w.opens by omega)
    have hle := hsized.budget_le
    omega

/-- A call of the loops. -/
theorem call_pays {s : Selector × World} {room : Nat} (hseated : Seated (netOf s.1 s.2))
    (hsteady : AllSteady room s.1) (hsized : ∀ dev ∈ s.1.toList, dev.Sized B) {call : Call}
    (hloop : call.IsLoop True s) : Pays B s (call.apply clock s) := by
  have hafter := netReaches_seated hseated (call_reaches clock s hloop)
  have hsized' := @call_sized clock B s hsized call hloop
  rcases loopCall_cases clock s hloop hseated.silent with
    ⟨hsel, hopens, evs, hlog, hevs⟩ |
    ⟨-, ⟨dev, hsel⟩, hopens, evs, hlog, hevs⟩ | ⟨index, answer, sets, dev, -, hget, heq⟩ |
    ⟨index, ptr, sets, event, answer, dev, -, hget, hset, heq⟩
  · refine ⟨Nat.le_of_eq hopens.symm, evs, hlog, ?_⟩
    rw [hsel, trafficOf_eq_zero hevs]
    omega
  · -- a connection is accepted
    refine ⟨by omega, evs, hlog, ?_⟩
    rw [hsel] at hsized'
    have hnew := (hsized' dev (mem_selectorPlace s.1 dev)).budget_le
    have hplace := budgetOf_selectorPlace s.1 dev
    rw [hsel, trafficOf_eq_zero hevs, hopens, Nat.add_sub_cancel_left]
    omega
  · rcases (setMasks_setUp clock answer dev sets s.2).2 with ⟨evs, hlog, hevs⟩
    have hlt := (List.getElem?_eq_some_iff.mp hget).1
    rw [heq] at hafter hsized' ⊢
    have hslot : (s.1.store index (setMasks clock answer dev sets s.2).dev).toList[index]? =
        some (setMasks clock answer dev sets s.2).dev := by
      rw [Selector.store_toList, List.getElem?_set_self hlt]
    rcases setMasks_budget (hseated.devs index dev hget) answer sets (hafter.devs index _ hslot)
      (hsized' _ (List.mem_of_getElem? hslot)) with ⟨hopens, hspent⟩
    refine Pays.store hget hlog hopens ?_
    rw [trafficOf_eq_zero fun ev hev => Ev.IsSetup.not_transfer (hevs ev hev), Nat.zero_add]
    exact hspent
  · have hopen := (hsteady dev (List.mem_of_getElem? hget)).1
      ((hseated.devs index dev hget).held.mp (iodevIsSet_iff.mp hset).1)
    have hnotes : ∃ notes, (DispatchState.call ⟨index, 0, s.1, s.2⟩ ptr event dev).log =
        s.2.log ++ notes ∧ trafficOf notes = 0 :=
      ⟨[.deref ptr s.1.devs.block, .deref ptr s.1.devs.block, .called event dev.session dev.fd],
        by simp [DispatchState.call, DispatchState.deref], rfl⟩
    have hopens : (DispatchState.call ⟨index, 0, s.1, s.2⟩ ptr event dev).opens = s.2.opens := rfl
    generalize DispatchState.call ⟨index, 0, s.1, s.2⟩ ptr event dev = w at heq hnotes hopens
    rcases hnotes with ⟨notes, hlog, hnone⟩
    rcases @iodevHandler_pays clock dev hopen event answer w with ⟨evs, hlog', hspent⟩
    rw [heq]
    have hopens' := (iodevHandler_handled clock event answer dev w).2.2.1
    have hall : (iodevHandler clock event answer dev w).2.log = s.2.log ++ (notes ++ evs) := by
      rw [hlog', hlog, List.append_assoc]
    refine Pays.store hget hall (by omega) ?_
    rw [trafficOf_append, hnone, Nat.zero_add]
    exact hspent.trans (Nat.le_add_right _ _)

/-! ## What is opened and closed -/

def opensOf (log : List Ev) : Nat := log.countP fun | .opened .. => true | _ => false

def closesOf (log : List Ev) : Nat := log.countP fun | .closed .. => true | _ => false

@[simp] theorem opensOf_append (log log' : List Ev) :
    opensOf (log ++ log') = opensOf log + opensOf log' := List.countP_append

@[simp] theorem closesOf_append (log log' : List Ev) :
    closesOf (log ++ log') = closesOf log + closesOf log' := List.countP_append

/-- Events that neither open nor close. -/
theorem uncounted_of_each {evs : List Ev}
    (h : ∀ ev ∈ evs, opensOf [ev] = 0 ∧ closesOf [ev] = 0) : opensOf evs = 0 ∧ closesOf evs = 0 := by
  induction evs with
  | nil => exact ⟨rfl, rfl⟩
  | cons ev evs ih =>
    have hfirst := h ev List.mem_cons_self
    have hrest := ih fun ev' hev' => h ev' (List.mem_cons_of_mem ev hev')
    rw [← List.singleton_append, opensOf_append, closesOf_append]
    omega

def Iodev.held (dev : Iodev) : Nat := dev.state.holds.toNat

/-- The number of devices that hold a descriptor. -/
def heldOf (devs : List Iodev) : Nat := Slots.total Iodev.held devs

theorem Iodev.held_le (dev : Iodev) : dev.held ≤ 1 := Bool.toNat_le _

theorem Iodev.held_eq_zero {dev : Iodev} (h : ¬ dev.state.holds) : dev.held = 0 := by
  rw [Iodev.held, Bool.eq_false_iff.mpr h]
  rfl

theorem Iodev.held_eq_one {dev : Iodev} (h : dev.state.holds) : dev.held = 1 := by
  rw [Iodev.held, h]
  rfl

/-- A device that comes to hold a descriptor has been opened. -/
theorem devAct_held {p : Policy} (s : Iodev × World) (a : DevAct) (hok : a.Ok p s) :
    (a.apply s).1.held + s.2.opens ≤ s.1.held + (a.apply s).2.opens := by
  cases a with
  | opened fd state =>
    have hone := (DevAct.apply s (.opened fd state)).1.held_le
    simp only [DevAct.apply] at hone ⊢
    omega
  | refused =>
    rw [Iodev.held_eq_zero hok.1]
    exact le_rfl
  | released =>
    have hafter : s.1.released.held = 0 := Iodev.held_eq_zero s.1.released_not_holds
    simp only [DevAct.apply, World.closeFd]
    omega
  | retired =>
    rw [@Iodev.held_eq_zero s.1 (by rw [hok.1]; decide)]
    exact le_rfl
  | _ => exact le_rfl

theorem netAct_held {p : Policy} (n : Net) (a : NetAct) (hok : a.Ok p n) :
    heldOf (a.apply n).devs + n.world.opens ≤ heldOf n.devs + (a.apply n).world.opens := by
  cases a with
  | note ev => exact le_rfl
  | lost index a =>
    rcases netAct_lost hok with ⟨_, w, _, -, -, heq, hopens, -⟩
    rw [heq, hopens]
  | device index a =>
    rcases hok with ⟨dev, hget, hok⟩
    have hdev : (a.apply (dev, n.world)).1.held + n.world.opens ≤
        dev.held + (a.apply (dev, n.world)).2.opens := devAct_held (dev, n.world) a hok
    have hset := Slots.total_set Iodev.held hget (a.apply (dev, n.world)).1
    simp only [NetAct.apply, hget, heldOf]
    omega
  | accept fd bufsize slot =>
    have hnew := (tcpCreateAccepted (n.world.opens + 1) fd bufsize).held_le
    cases slot with
    | some index =>
      rcases hok.2.2 with ⟨-, old, hget, -, -⟩
      have hset := Slots.total_set Iodev.held hget (tcpCreateAccepted (n.world.opens + 1) fd bufsize)
      simp only [NetAct.apply, heldOf]
      omega
    | none =>
      have happend := Slots.total_append Iodev.held n.devs
        (tcpCreateAccepted (n.world.opens + 1) fd bufsize)
      simp only [NetAct.apply, heldOf]
      omega

/-- Since `log` was the log, `opens` the number of sessions and `held` that of descriptors held, all
that was opened and closed is in the log. -/
def Tallied (log : List Ev) (opens held : Nat) (n : Net) : Prop :=
  ∃ evs, n.world.log = log ++ evs ∧ n.world.opens = opens + opensOf evs ∧
    closesOf evs + heldOf n.devs = held + opensOf evs

section Tallied

variable {log : List Ev} {opens held : Nat} {n : Net} {w' : World} {evs : List Ev}

theorem Tallied.still (h : Tallied log opens held n) (hlog : w'.log = n.world.log ++ evs)
    (hopened : opensOf evs = 0) (hclosed : closesOf evs = 0) (hopens : w'.opens = n.world.opens) :
    Tallied log opens held ⟨n.devs, w'⟩ := by
  rcases h with ⟨evs', hlog', hopens', hheld⟩
  refine ⟨evs' ++ evs, by rw [hlog, hlog', List.append_assoc], ?_, ?_⟩
  · simp only [opensOf_append]
    omega
  · simp only [opensOf_append, closesOf_append]
    omega

theorem Tallied.set (h : Tallied log opens held n) {index : Nat} {dev dev' : Iodev}
    (hget : n.devs[index]? = some dev) (hlog : w'.log = n.world.log ++ evs)
    (hopens : w'.opens = n.world.opens + opensOf evs)
    (hheld : closesOf evs + dev'.held = dev.held + opensOf evs) :
    Tallied log opens held ⟨n.devs.set index dev', w'⟩ := by
  rcases h with ⟨evs', hlog', hopens', hheld'⟩
  have hset := Slots.total_set Iodev.held hget dev'
  refine ⟨evs' ++ evs, by rw [hlog, hlog', List.append_assoc], ?_, ?_⟩
  · simp only [opensOf_append]
    omega
  · simp only [heldOf] at hheld' ⊢
    simp only [opensOf_append, closesOf_append]
    omega

theorem Ev.IsNote.uncounted {ev : Ev} (h : ev.IsNote) : opensOf [ev] = 0 ∧ closesOf [ev] = 0 := by
  cases ev with
  | registered | deref | called => exact ⟨rfl, rfl⟩
  | _ => exact absurd h id

theorem netAct_tallied {a : NetAct} (h : Tallied log opens held n) (hok : a.Ok (.losing False) n)
    (hsends : ¬ a.Sends) : Tallied log opens held (a.apply n) := by
  cases a with
  | lost index a => exact absurd hok.1 id
  | note ev => exact h.still rfl (Ev.IsNote.uncounted hok).1 (Ev.IsNote.uncounted hok).2 rfl
  | accept fd bufsize slot =>
    rcases hok with ⟨-, -, hslot⟩
    cases slot with
    | some index =>
      rcases hslot with ⟨-, dev, hget, hinactive, -⟩
      refine h.set hget rfl rfl ?_
      rw [Iodev.held, Iodev.held, hinactive]
      rfl
    | none =>
      rcases h with ⟨evs, hlog, hopens, hheld⟩
      refine ⟨evs ++ [.opened .accepted (n.world.opens + 1) fd],
        by rw [← List.append_assoc, ← hlog]; rfl, ?_, ?_⟩
      · simp only [NetAct.apply, opensOf_append, hopens]
        rfl
      · have hnew := Slots.total_append Iodev.held n.devs
          (tcpCreateAccepted (n.world.opens + 1) fd bufsize)
        have hone : (tcpCreateAccepted (n.world.opens + 1) fd bufsize).held = 1 := rfl
        simp only [NetAct.apply, heldOf, opensOf_append, closesOf_append] at hheld ⊢
        simp only [opensOf, closesOf, List.countP_cons, List.countP_nil] at hheld ⊢
        simp only [if_true, Bool.false_eq_true, if_false]
        omega
  | device index a =>
    rcases hok with ⟨dev, hget, hok⟩
    simp only [NetAct.apply, hget]
    cases a with
    | sent k => exact absurd trivial hsends
    | tick | pace pacer | dropped =>
      exact h.set hget (List.append_nil _).symm rfl (Nat.add_comm _ _)
    | note ev =>
      rcases Ev.IsNote.uncounted hok with ⟨hopened, hclosed⟩
      refine h.set hget rfl ?_ ?_
      · rw [hopened]
        rfl
      · rw [hopened, hclosed]
        exact Nat.add_comm _ _
    | received bytes => exact h.set hget rfl rfl (Nat.add_comm _ _)
    | refused =>
      refine h.set hget (List.append_nil _).symm rfl ?_
      rw [Iodev.held_eq_zero hok.1]
      rfl
    | retired =>
      refine h.set hget (List.append_nil _).symm rfl ?_
      rw [@Iodev.held_eq_zero dev (by rw [hok.1]; decide)]
      rfl
    | released =>
      have hafter : dev.released.held = 0 := Iodev.held_eq_zero dev.released_not_holds
      refine h.set hget rfl rfl ?_
      rw [Iodev.held_eq_one hok, DevAct.apply, hafter]
      rfl
    | opened fd state =>
      have hafter : (DevAct.apply (dev, n.world) (.opened fd state)).1.held = 1 :=
        Iodev.held_eq_one hok.2.2.2
      refine h.set hget rfl rfl ?_
      rw [Iodev.held_eq_zero hok.1, hafter]
      rfl

theorem tallied_loop : LoopKeeps False (Tallied log opens held) := by
  constructor
  · intro n a h _ _ hok hsends
    exact netAct_tallied h hok hsends
  · rintro n w index k dev r h - - hget - ⟨notes, hnotes, hnote⟩ - hopens
      ⟨⟨pacer, hdev⟩, ⟨tick, hlog⟩, -, hopens'⟩
    rcases uncounted_of_each fun ev hev => (hnote ev hev).uncounted with ⟨hopened, hclosed⟩
    have hlog' : r.2.log = n.world.log ++
        (notes ++ [.sent dev.session (dev.tbuf.contents.take k) tick]) := by
      rw [hlog, hnotes, List.append_assoc]
    refine h.set hget hlog' ?_ ?_
    · rw [opensOf_append, hopened, hopens', hopens]
      rfl
    · rw [opensOf_append, closesOf_append, hopened, hclosed, hdev]
      exact Nat.add_comm _ _

end Tallied

/-! ## A stretch of rounds -/

def Input.isCheck : Input → Bool
  | .check _ => true
  | _ => false

theorem round_pays {d : Daemon} {room : Nat} (horderly : Orderly room d)
    (hsized : ∀ dev ∈ d.app.selector.toList, dev.Sized B) (a : RoundAnswers) :
    Pays B (d.app.selector, d.world) ((d.round clock a).app.selector, (d.round clock a).world) := by
  have hreach := selectorRound_loop clock a d.sets d.app.selector d.world
  refine (hreach.preserves (fun s => Pays B (d.app.selector, d.world) s ∧ Seated (netOf s.1 s.2) ∧
    AllSteady room s.1 ∧ ∀ dev ∈ s.1.toList, dev.Sized B) ?_
    ⟨Pays.refl _, horderly.seated, horderly.steady, hsized⟩).1
  rintro s call ⟨hpays, hseated, hsteady, hsized⟩ hloop
  exact ⟨hpays.trans (call_pays hseated hsteady hsized hloop),
    netReaches_seated hseated (call_reaches clock s hloop), call_steady clock hsteady hloop,
    call_sized hsized hloop⟩

/-- A step that is no turn of the main loop: a round, or at most a mark in the log. -/
theorem Daemon.step_stretch (d : Daemon) {i : Input} (hi : i.isCheck = false) :
    (∃ a, d.step clock i = d.round clock a) ∨
    ((d.step clock i).app = d.app ∧ ∃ marks, (d.step clock i).world =
      { d.world with log := d.world.log ++ marks } ∧ ∀ ev ∈ marks, ev.isMark = true) := by
  rcases d.step_cases clock i with ⟨happ, hw⟩ | ⟨a, -, -, hd⟩ | ⟨a, rfl, -⟩ | ⟨a, rfl, -⟩ |
    ⟨sig, -, happ, hw⟩
  · exact .inr ⟨happ, [], by rw [hw, List.append_nil], fun _ hev => absurd hev List.not_mem_nil⟩
  · exact .inl ⟨a, hd⟩
  · cases hi
  · cases hi
  · refine .inr ⟨happ, [.signalled sig.toNat], hw, fun ev hev => ?_⟩
    rw [List.mem_singleton.mp hev]
    rfl

/-! ## Busy rounds -/

/-- The bytes transferred, and the descriptors opened and closed. -/
def effortOf (log : List Ev) : Nat := trafficOf log + opensOf log + closesOf log

theorem effortOf_marks {marks : List Ev} (h : ∀ ev ∈ marks, ev.isMark = true) :
    effortOf marks = 0 := by
  have htraffic : trafficOf marks = 0 := by
    refine trafficOf_eq_zero fun ev hev htransfer => ?_
    have hmark := h ev hev
    cases ev with
    | received | sent => cases hmark
    | _ => exact htransfer
  have hcounts : opensOf marks = 0 ∧ closesOf marks = 0 := by
    refine uncounted_of_each fun ev hev => ?_
    have hmark := h ev hev
    cases ev with
    | opened | closed => cases hmark
    | _ => exact ⟨rfl, rfl⟩
  rw [effortOf, htraffic, hcounts.1, hcounts.2]

/-- The step transfers, opens or closes something. -/
def Daemon.Busy (clock : Nat → UTime) (d : Daemon) (i : Input) : Prop :=
  0 < effortOf (d.world.since (d.step clock i).world)

instance (clock : Nat → UTime) (d : Daemon) : DecidablePred (d.Busy clock) :=
  fun i => inferInstanceAs (Decidable (0 < effortOf (d.world.since (d.step clock i).world)))

/-- The number of such steps in a run. -/
def busySteps (clock : Nat → UTime) (d : Daemon) (inputs : List Input) : Nat :=
  (Flow.total (Daemon.step clock) (fun d i => if d.Busy clock i then [i] else []) d inputs).length

/-- What is left to transfer and to close. -/
def Daemon.reserve (d : Daemon) : Nat :=
  budgetOf d.app.selector.toList + heldOf d.app.selector.toList

/-- A busy round takes from the reserve, or opens a session. -/
theorem round_progress {d : Daemon} {room : Nat} (horderly : Orderly room d)
    (hsized : ∀ dev ∈ d.app.selector.toList, dev.Sized B) (a : RoundAnswers) :
    (2 * B + 2) * d.world.opens +
        min 1 (effortOf (d.world.since (d.round clock a).world)) + (d.round clock a).reserve ≤
      (2 * B + 2) * (d.round clock a).world.opens + d.reserve := by
  let d' := d.round clock a
  rcases @round_pays clock B d room horderly hsized a with ⟨hopens, evs, hlog, hspent⟩
  have hopens : d.world.opens ≤ d'.world.opens := hopens
  have hspent : trafficOf evs + budgetOf d'.app.selector.toList ≤
      budgetOf d.app.selector.toList + 2 * B * (d'.world.opens - d.world.opens) := hspent
  have hheld : heldOf d'.app.selector.toList + d.world.opens ≤
      heldOf d.app.selector.toList + d'.world.opens := by
    refine (selectorRound_any clock a d.sets d.app.selector d.world).preserves
      (fun n => heldOf n.devs + d.world.opens ≤ heldOf d.app.selector.toList + n.world.opens) ?_ le_rfl
    intro n a h hok
    have := netAct_held n a hok
    omega
  have hsum : (2 * B + 2) * d'.world.opens = (2 * B + 2) * d.world.opens +
      (2 * B * (d'.world.opens - d.world.opens) + 2 * (d'.world.opens - d.world.opens)) := by
    rw [← Nat.add_mul, ← Nat.mul_add, Nat.add_sub_cancel' hopens]
  have hsince : d.world.since d'.world = evs := World.since_eq hlog
  show (2 * B + 2) * d.world.opens + min 1 (effortOf (d.world.since d'.world)) + d'.reserve ≤
    (2 * B + 2) * d'.world.opens + d.reserve
  rw [hsince, hsum, Daemon.reserve, Daemon.reserve]
  rcases noStaleClose_or_opens clock a d.sets d.app.selector d.world with hstale | hopened
  · -- all that is closed was held
    have hstart : Tallied d.world.log d.world.opens (heldOf d.app.selector.toList)
        (netOf d.app.selector d.world) := ⟨[], (List.append_nil _).symm, rfl, Nat.add_comm _ _⟩
    rcases tallied_loop.round hstart horderly (.inr hstale) with ⟨evs', hlog', hopens', hclosed⟩
    have heq : evs = evs' := List.append_cancel_left (hlog.symm.trans hlog')
    subst heq
    have hopens' : d'.world.opens = d.world.opens + opensOf evs := hopens'
    have hclosed : closesOf evs + heldOf d'.app.selector.toList =
        heldOf d.app.selector.toList + opensOf evs := hclosed
    unfold effortOf
    omega
  · have hopened : d.world.opens < d'.world.opens := hopened
    omega

theorem step_progress {d : Daemon} {room : Nat} (horderly : Orderly room d)
    (hsized : ∀ dev ∈ d.app.selector.toList, dev.Sized B) {i : Input} (hi : i.isCheck = false) :
    (2 * B + 2) * d.world.opens + (if d.Busy clock i then [i] else []).length +
        (d.step clock i).reserve ≤
      (2 * B + 2) * (d.step clock i).world.opens + d.reserve := by
  have hbusy : (if d.Busy clock i then [i] else []).length =
      min 1 (effortOf (d.world.since (d.step clock i).world)) := by
    by_cases hbusy : d.Busy clock i
    · rw [if_pos hbusy, Nat.min_eq_left (Nat.succ_le_of_lt hbusy)]
      rfl
    · rw [if_neg hbusy, Nat.eq_zero_of_not_pos hbusy]
      rfl
  rw [hbusy]
  rcases d.step_stretch hi with ⟨a, hd⟩ | ⟨happ, marks, hw, hmarks⟩
  · rw [hd]
    exact round_progress horderly hsized a
  · have hidle : effortOf marks = 0 := effortOf_marks hmarks
    have hsince : d.world.since (d.step clock i).world = marks := World.since_eq (by rw [hw])
    rw [hsince, hidle, Daemon.reserve, Daemon.reserve, happ, hw]
    exact le_rfl

/-- In a stretch of a run without a turn of the main loop, the steps in which a byte is transferred
or a descriptor opened or closed are no more than the buffers and the open descriptors at its start
allow, and the sessions opened in it. -/
theorem run_progress (clock : Nat → UTime) (iobufsize : Nat) (a : InitAnswers)
    (past future : List Input) (hstretch : ∀ i ∈ future, i.isCheck = false) :
    let d := run (Daemon.step clock) (Daemon.start clock iobufsize a) past
    let d' := run (Daemon.step clock) d future
    busySteps clock d future ≤ budgetOf d.app.selector.toList + heldOf d.app.selector.toList +
      (2 * iobufsize + 2) * (d'.world.opens - d.world.opens) := by
  intro d d'
  have hbusy : (2 * iobufsize + 2) * d.world.opens + busySteps clock d future + d'.reserve ≤
      (2 * iobufsize + 2) * d'.world.opens + d.reserve := by
    refine Flow.length_total_add_le
      (fun d : Daemon => Orderly 0 d ∧ EachOf (Iodev.Sized iobufsize) iobufsize d.app)
      Daemon.reserve (fun d => (2 * iobufsize + 2) * d.world.opens) _
      (fun d i h _ => ⟨h.1.step clock i, step_sized h.2 i⟩)
      (fun d i h hi => step_progress h.1 h.2.1 hi) ?_ (Machine.along_of_mem hstretch)
    exact ⟨run_orderly clock (Nat.zero_le iobufsize) a past, run_sized clock iobufsize a past⟩
  have hreserve : d.reserve = budgetOf d.app.selector.toList + heldOf d.app.selector.toList := rfl
  rw [Nat.mul_sub]
  omega

/-- The client sends two bytes and hangs up. -/
def shortVisit : List Input :=
  [Daemon.turn ⟨{5}, ∅, ∅⟩ ⟨some [65, 10], none, none⟩,
    Daemon.turn ⟨{5}, ∅, ∅⟩ ⟨some [], none, none⟩, Daemon.quietTurn]

theorem run_progress_short_visit :
    let d := run (Daemon.step fun _ => 0) (Daemon.start (fun _ => 0) 16 Daemon.oneAddress)
      Daemon.firstConnection
    let d' := run (Daemon.step fun _ => 0) d shortVisit
    busySteps (fun _ => 0) d shortVisit ≤ budgetOf d.app.selector.toList +
      heldOf d.app.selector.toList + (2 * 16 + 2) * (d'.world.opens - d.world.opens) :=
  run_progress (fun _ => 0) 16 Daemon.oneAddress Daemon.firstConnection shortVisit (by decide)

end Hdmi2usbd
