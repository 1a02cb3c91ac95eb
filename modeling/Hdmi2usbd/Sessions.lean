import Hdmi2usbd.EndOfFile
import Hdmi2usbd.Failure
import Hdmi2usbd.Isolation

/-!
# Sessions — the sessions of the serial device are kept apart

A run of the daemon is followed together with what is queued for the serial device, moved out of it
and copied to connections in its present session (`Tracked`). Without a failure that leaves
anything behind, what is sent in a session has been queued in it, and what is copied to a connection
has been received in it (`sessions_apart`).
-/

namespace Hdmi2usbd

open Machine (Along run)

variable {clock : Nat → UTime} {queued moved : List UInt8} {dev : Iodev} {w : World}
  {log log' : List Ev}

/-! ## A cycle -/

/-- Data are put into the send buffer of the serial device, and nothing else is done to it. -/
structure Queues (serial serial' : Iodev) : Prop where
  session : serial'.session = serial.session
  state : serial'.state = serial.state
  rbuf : serial'.rbuf = serial.rbuf
  tbuf : serial.tbuf.contents <+: serial'.tbuf.contents
  closed : ¬ iodevIsOpen serial → serial'.tbuf = serial.tbuf

theorem Queues.refl (serial : Iodev) : Queues serial serial :=
  ⟨rfl, rfl, rfl, List.prefix_refl _, fun _ => rfl⟩

theorem Queues.trans {serial serial' serial'' : Iodev} (h : Queues serial serial')
    (h' : Queues serial' serial'') : Queues serial serial'' := by
  refine ⟨h'.session.trans h.session, h'.state.trans h.state, h'.rbuf.trans h.rbuf,
    h.tbuf.trans h'.tbuf, fun hclosed => ?_⟩
  have hclosed' : ¬ iodevIsOpen serial' := by rwa [iodevIsOpen, h.state]
  rw [h'.closed hclosed', h.closed hclosed]

theorem iodevWrite_queues (serial : Iodev) (buf : List UInt8) :
    Queues serial (iodevWrite serial buf).2 := by
  by_cases hopen : iodevIsOpen serial
  · have htbuf := iodevWrite_tbuf hopen buf
    unfold iodevWrite at htbuf ⊢
    split
    · exact Queues.refl _
    split
    · exact ⟨rfl, rfl, rfl, ⟨_, (RingBuffer.put_contents _ _).symm⟩, fun h => absurd hopen h⟩
    · exact Queues.refl _
  · rw [iodevWrite_closed hopen]
    exact Queues.refl _

theorem clientCommands_queues (clock : Nat → UTime) (lastCommand : Microtimer) (serial dev : Iodev)
    (w : World) :
    Queues serial (hdmi2usbProcessClientCommands clock lastCommand serial dev w).2.1 := by
  rcases clientCommands_cases clock lastCommand serial dev w with
    ⟨-, heq⟩ | ⟨line, rest, dev', -, -, heq, -, -⟩
  · rw [heq]
    exact Queues.refl _
  · rw [heq]
    exact iodevWrite_queues serial line

theorem processStep_queues (clock : Nat → UTime) (sBytes : Nat) {s : ProcessState} {index : Nat}
    (hpos : 1 ≤ index) {serial : Iodev} (hs : s.app.selector.toList[0]? = some serial) :
    ∃ serial', (processStep clock sBytes s index).app.selector.toList[0]? = some serial' ∧
      Queues serial serial' := by
  have hlt := (List.getElem?_eq_some_iff.mp hs).1
  cases hget : s.app.selector.toList[index]? with
  | none =>
    refine ⟨serial, ?_, Queues.refl _⟩
    simp only [processStep, selectorGetDevice_eq, hs, hget]
  | some dev =>
    simp only [processStep, selectorGetDevice_eq, hs, hget]
    split
    · exact ⟨serial, hs, Queues.refl _⟩
    · refine ⟨_, ?_, clientCommands_queues clock s.app.lastCommand serial
        (hdmi2usbProcessClientData (copySerialData s.app.copy sBytes dev s.world).1)
        (copySerialData s.app.copy sBytes dev s.world).2⟩
      rw [Selector.store_toList, Selector.store_toList, List.getElem?_set_ne (by omega),
        List.getElem?_set_self hlt]

/-- Events of the turns of a cycle: what is copied to a connection is the beginning of the chunk. -/
def Ev.Copies (chunk : List UInt8) : Ev → Prop
  | .moved _ => False
  | .copied _ bytes => bytes <+: chunk
  | _ => True

theorem movedOf_copies {chunk : List UInt8} {evs : List Ev} (h : ∀ ev ∈ evs, ev.Copies chunk) :
    movedOf evs = [] := by
  refine List.flatMap_eq_nil_iff.mpr ?_
  intro ev hev
  cases ev with
  | moved bytes => exact (h _ hev).elim
  | _ => rfl

theorem processStep_copies (clock : Nat → UTime) (sBytes : Nat) (s : ProcessState) (index : Nat) :
    Adds (Ev.Copies s.app.copy.contents) s.world.log (processStep clock sBytes s index).world.log := by
  rcases processStep_cases clock sBytes s index with ⟨-, hw, -⟩ | ⟨serial, dev, hserial, hdev, hconn⟩
  · rw [hw]
    exact Adds.refl _
  · rcases processStep_spec clock sBytes hserial hdev hconn with
      ⟨_, _, _, _, copied, handed, -, -, -, hlog, -, -, hcopied, hhanded⟩
    refine ⟨_, hlog, ?_⟩
    intro ev hev
    rcases List.mem_append.mp hev with hev | hev
    · rcases hcopied with ⟨-, rfl⟩ | ⟨-, rfl⟩
      · cases hev
      · rw [List.mem_singleton.mp hev]
        exact List.take_prefix _ _
    · rcases hhanded with ⟨rfl, -⟩ | ⟨_, _, _, rfl, -⟩
      · cases hev
      · rw [List.mem_singleton.mp hev]
        trivial

/-- The turns of a cycle. -/
structure Turns (serial : Iodev) (copy : RingBuffer) (w : World) (s : ProcessState) : Prop where
  kept : s.app.copy = copy
  serial : ∃ serial', s.app.selector.toList[0]? = some serial' ∧ Queues serial serial'
  log : Adds (Ev.Copies copy.contents) w.log s.world.log

theorem Turns.step {serial : Iodev} {copy : RingBuffer} {s : ProcessState} (h : Turns serial copy w s)
    (clock : Nat → UTime) (sBytes : Nat) {index : Nat} (hpos : 1 ≤ index) :
    Turns serial copy w (processStep clock sBytes s index) := by
  rcases h.serial with ⟨serial', hs, hqueues⟩
  rcases processStep_queues clock sBytes hpos hs with ⟨serial'', hs', hqueues'⟩
  refine ⟨(processStep_copy clock sBytes s index).trans h.kept, ⟨serial'', hs', hqueues.trans hqueues'⟩,
    h.log.trans ?_⟩
  rw [← h.kept]
  exact processStep_copies clock sBytes s index

/-- The chunks that process cycles have copied to connections. -/
def copiesOf (log : List Ev) : List (List UInt8) :=
  log.filterMap fun
    | .copied _ bytes => some bytes
    | _ => none

theorem copiesOf_append (log log' : List Ev) :
    copiesOf (log ++ log') = copiesOf log ++ copiesOf log' := List.filterMap_append

theorem mem_copiesOf {chunk : List UInt8} {evs : List Ev} :
    chunk ∈ copiesOf evs ↔ ∃ session, .copied session chunk ∈ evs := by
  unfold copiesOf
  rw [List.mem_filterMap]
  constructor
  · rintro ⟨ev, hev, heq⟩
    cases ev with
    | copied session bytes =>
      cases heq
      exact ⟨session, hev⟩
    | _ => cases heq
  · rintro ⟨session, hev⟩
    exact ⟨_, hev, rfl⟩

/-- What a cycle does to the serial device, and what it logs: bytes are moved out of the receive
buffer, and the beginning of them copied to connections; data are put into the send buffer. -/
structure Cycled (serial serial' : Iodev) (evs : List Ev) : Prop where
  session : serial'.session = serial.session
  state : serial'.state = serial.state
  rbuf : serial.rbuf.contents = movedOf evs ++ serial'.rbuf.contents
  tbuf : serial.tbuf.contents <+: serial'.tbuf.contents
  closed : ¬ iodevIsOpen serial → serial'.tbuf = serial.tbuf
  copies : ∀ chunk ∈ copiesOf evs, chunk <+: movedOf evs

/-- What is moved is logged first, and then what the turns log. -/
theorem moved_then_copied {bytes : List UInt8} {first turns : List Ev}
    (hfirst : first = [.moved bytes] ∨ bytes = [] ∧ first = [])
    (hturns : ∀ ev ∈ turns, ev.Copies bytes) :
    movedOf (first ++ turns) = bytes ∧ ∀ chunk ∈ copiesOf (first ++ turns), chunk <+: bytes := by
  have hmoved : movedOf first = bytes ∧ copiesOf first = [] := by
    rcases hfirst with rfl | ⟨rfl, rfl⟩
    · exact ⟨List.append_nil bytes, rfl⟩
    · exact ⟨rfl, rfl⟩
  constructor
  · rw [movedOf_append, hmoved.1, movedOf_copies hturns, List.append_nil]
  · intro chunk hchunk
    rw [copiesOf_append, hmoved.2, List.nil_append] at hchunk
    rcases mem_copiesOf.mp hchunk with ⟨session, hev⟩
    exact hturns _ hev

theorem hdmi2usbProcess_cycled (clock : Nat → UTime) {app : Hdmi2usb} (rc : Int) (w : World)
    (hempty : app.copy.contents = []) {serial : Iodev} (hs : app.selector.toList[0]? = some serial) :
    ∃ serial', (hdmi2usbProcess clock app rc w).2.1.selector.toList[0]? = some serial' ∧
      Cycled serial serial' (w.since (hdmi2usbProcess clock app rc w).2.2) := by
  rcases hdmi2usbProcess_cases clock app rc w with ⟨happ, hw, -⟩ |
    ⟨serial', hs', -, final, hfinal, happ, hw⟩
  · rw [happ, hw, World.since_eq (List.append_nil _).symm]
    exact ⟨serial, hs, rfl, rfl, rfl, List.prefix_refl _, fun _ => rfl, by simp [copiesOf]⟩
  · cases hs.symm.trans hs'
    rcases processSerialData_logged app.copy serial w with ⟨bytes, hrbuf, hcopy, hlog⟩
    rcases processSerialData_shape app.copy serial w with ⟨rbuf, evs, hserial, hworld, -⟩
    rw [hempty, List.nil_append] at hcopy
    generalize hdmi2usbProcessSerialData app.copy serial w = r at *
    have hlt := (List.getElem?_eq_some_iff.mp hs).1
    have hturns : Turns r.2.2.1 r.2.1 r.2.2.2 final := by
      rw [hfinal]
      refine Machine.run_range' (fun _ => Turns r.2.2.1 r.2.1 r.2.2.2)
        (fun index s hpos h => h.step clock _ hpos) ⟨rfl, ⟨_, ?_, Queues.refl _⟩, Adds.refl _⟩ _
      rw [Selector.store_toList, List.getElem?_set_self hlt]
    rcases hturns.serial with ⟨final', hfinal', hqueues⟩
    rcases hturns.log with ⟨turns, hturnlog, hturns⟩
    have hfirst : ∃ first, r.2.2.2.log = w.log ++ first ∧
        (first = [.moved bytes] ∨ bytes = [] ∧ first = []) := by
      rcases hlog with hlog | ⟨hnil, hlog⟩
      · exact ⟨_, hlog, .inl rfl⟩
      · exact ⟨[], by rw [hlog, List.append_nil], .inr ⟨hnil, rfl⟩⟩
    rcases hfirst with ⟨first, hlog, hfirst⟩
    rw [hlog, List.append_assoc] at hturnlog
    rw [hcopy] at hturns
    rcases moved_then_copied hfirst hturns with ⟨hmoved, hcopies⟩
    rw [happ, hw, World.since_eq hturnlog]
    rw [hserial] at hrbuf hqueues
    refine ⟨final', hfinal', hqueues.session, hqueues.state, ?_, hqueues.tbuf, hqueues.closed, ?_⟩
    · rw [hmoved, hqueues.rbuf]
      exact hrbuf
    · rw [hmoved]
      exact hcopies

/-- A cycle queues what it puts into the send buffer and moves what it takes out of the receive
buffer. -/
theorem Account.cycle (h : Account queued moved dev log) {dev' : Iodev} {evs : List Ev}
    (hcycled : Cycled dev dev' evs) (hsame : SameBytes dev.session log log') :
    Account (queued ++ dev'.tbuf.contents.drop dev.tbuf.contents.length) (moved ++ movedOf evs)
      dev' log' := by
  rcases hcycled.tbuf with ⟨more, hmore⟩
  rw [← hmore, List.drop_left]
  constructor
  · intro hholds
    rw [hcycled.state] at hholds
    rcases h.during hholds with ⟨hne, hsent, hmoved⟩
    rw [hcycled.session, hsame.1, hsame.2, ← hmore]
    refine ⟨hne, ?_, ?_⟩
    · rw [← List.append_assoc, hsent]
    · rw [List.append_assoc, ← hcycled.rbuf, hmoved]
  · intro hholds
    rw [hcycled.state] at hholds
    rcases h.after hholds with ⟨⟨hrbuf, htbuf⟩, hprefixes⟩
    -- the device is closed, and there is nothing to move
    have hkept := hcycled.closed fun hopen => hholds (holds_of_isOpen hopen)
    have hnone := hcycled.rbuf
    rw [hrbuf] at hnone
    rcases List.append_eq_nil_iff.mp hnone.symm with ⟨hout, hrbuf'⟩
    rw [hkept, List.append_right_eq_self] at hmore
    rw [hcycled.session, hsame.1, hsame.2, hout, hmore, List.append_nil, List.append_nil]
    refine ⟨⟨hrbuf', ?_⟩, hprefixes⟩
    rw [hkept]
    exact htbuf

/-! ## Runs -/

/-- The daemon, and what has been queued for the serial device, moved out of it and copied to
connections in its present session. -/
structure Tracked where
  daemon : Daemon
  queued : List UInt8
  moved : List UInt8
  copied : List (List UInt8)

/-- The serial device. -/
def Daemon.serial (d : Daemon) : Option Iodev := selectorGetDevice d.app.selector 0

def Daemon.serialSession (d : Daemon) : Nat := d.serial.elim 0 (·.session)

def Daemon.serialQueue (d : Daemon) : List UInt8 := d.serial.elim [] (·.tbuf.contents)

namespace Tracked

def start (clock : Nat → UTime) (iobufsize : Nat) (a : InitAnswers) : Tracked :=
  ⟨Daemon.start clock iobufsize a, [], [], []⟩

/-- A new session begins with nothing; else a process cycle queues what it appends to the send
buffer. -/
def step (clock : Nat → UTime) (t : Tracked) (i : Input) : Tracked :=
  let d := t.daemon.step clock i
  if d.serialSession ≠ t.daemon.serialSession then ⟨d, [], [], []⟩
  else match i with
    | .check _ =>
      { daemon := d
        queued := t.queued ++ d.serialQueue.drop t.daemon.serialQueue.length
        moved := t.moved ++ movedOf (t.daemon.world.since d.world)
        copied := t.copied ++ copiesOf (t.daemon.world.since d.world) }
    | _ => { t with daemon := d }

/-- What is sent in a session has been queued in it, and what is copied in it to connections has been
received in it. -/
def Apart (t : Tracked) : Prop :=
  ∀ serial, t.daemon.serial = some serial → serial.session ≠ 0 →
    sentOf serial.session t.daemon.world.log <+: t.queued ∧
      t.moved <+: receivedOf serial.session t.daemon.world.log ∧
      ∀ chunk ∈ t.copied, chunk <:+: t.moved

instance (t : Tracked) : Decidable t.Apart := by
  delta Apart
  infer_instance

/-- The invariant of a run in which nothing is left behind. -/
structure Kept (t : Tracked) : Prop where
  orderly : Orderly 0 t.daemon
  empty : t.daemon.app.copy.contents = []
  ahead : NoneAhead t.daemon.world
  account : ∀ serial, t.daemon.serial = some serial →
    Account t.queued t.moved serial t.daemon.world.log
  copies : ∀ chunk ∈ t.copied, chunk <:+: t.moved

theorem Kept.apart {t : Tracked} (h : t.Kept) : t.Apart := by
  intro serial hserial hsession
  rcases (h.account serial hserial).prefixes hsession with ⟨hsent, hmoved⟩
  exact ⟨hsent, hmoved, h.copies⟩

variable {t : Tracked} {i : Input}

@[simp] theorem step_daemon (clock : Nat → UTime) (t : Tracked) (i : Input) :
    (t.step clock i).daemon = t.daemon.step clock i := by
  unfold step
  dsimp only
  split
  · rfl
  · cases i <;> rfl

/-- What is copied is in what is moved, in the same session and at the beginning of a new one. -/
theorem step_copies (h : ∀ chunk ∈ t.copied, chunk <:+: t.moved)
    (hnew : ∀ chunk ∈ copiesOf (t.daemon.world.since (t.daemon.step clock i).world),
      chunk <:+: movedOf (t.daemon.world.since (t.daemon.step clock i).world)) :
    ∀ chunk ∈ (t.step clock i).copied, chunk <:+: (t.step clock i).moved := by
  unfold step
  dsimp only
  split
  · simp
  · cases i with
    | round a | signal sig => exact h
    | check a =>
      intro chunk hchunk
      rcases List.mem_append.mp hchunk with hold | hnow
      · exact (h chunk hold).trans List.infix_append_left
      · exact (hnew chunk hnow).trans List.infix_append_right

theorem serialSession_eq {d : Daemon} {serial : Iodev} (h : d.serial = some serial) :
    d.serialSession = serial.session := by
  simp [Daemon.serialSession, h]

/-- A mark of the main loop moves and copies nothing. -/
theorem since_marks {w w' : World} (h : Adds (fun ev => ev.isMark = true) w.log w'.log) :
    movedOf (w.since w') = [] ∧ copiesOf (w.since w') = [] := by
  rcases h with ⟨evs, hlog, hevs⟩
  rw [World.since_eq hlog]
  constructor
  · have hcopies : ∀ ev ∈ evs, ev.Copies [] := by
      intro ev hev
      have hmark := hevs ev hev
      cases ev <;> trivial
    exact movedOf_copies hcopies
  · refine List.filterMap_eq_nil_iff.mpr ?_
    intro ev hev
    have hmark := hevs ev hev
    cases ev <;> first | rfl | cases hmark

/-- A mark, and then other events. -/
theorem since_mark {ev : Ev} (hmark : ev.isMark = true) {w' : World}
    (h : (w.record ev).log <+: w'.log) :
    movedOf (w.since w') = movedOf ((w.record ev).since w') ∧
      copiesOf (w.since w') = copiesOf ((w.record ev).since w') := by
  have hadds : Adds (fun ev => ev.isMark = true) w.log (w.record ev).log := Adds.single hmark _
  rcases since_marks hadds with ⟨hmoved, hcopies⟩
  rw [World.since_trans hadds.extended h, movedOf_append, copiesOf_append, hmoved, hcopies]
  exact ⟨rfl, rfl⟩

/-- A step that leaves the application as it is, and logs no more than a mark. -/
theorem Kept.still (h : t.Kept) (happ : (t.daemon.step clock i).app = t.daemon.app)
    (hopens : (t.daemon.step clock i).world.opens = t.daemon.world.opens)
    (hadds : Adds (fun ev => ev.isMark = true) t.daemon.world.log (t.daemon.step clock i).world.log) :
    (t.step clock i).Kept := by
  have hserial : (t.daemon.step clock i).serial = t.daemon.serial := by
    rw [Daemon.serial, happ, Daemon.serial]
  rcases since_marks hadds with ⟨hmoved, hcopies⟩
  have hsilent : Adds (fun ev => ¬ ev.IsTransfer) t.daemon.world.log
      (t.daemon.step clock i).world.log := by
    refine hadds.mono ?_
    intro ev hmark
    cases ev <;> first | exact id | cases hmark
  have hstep : (t.step clock i).queued = t.queued ∧ (t.step clock i).moved = t.moved := by
    unfold step
    dsimp only
    rw [if_neg (by simp [Daemon.serialSession, hserial])]
    cases i with
    | round a | signal sig => exact ⟨rfl, rfl⟩
    | check a => simp [Daemon.serialQueue, hserial, hmoved]
  refine ⟨?_, ?_, ?_, ?_, step_copies h.copies (by simp [hcopies])⟩
  · rw [step_daemon]
    exact h.orderly.step clock i
  · rw [step_daemon, happ]
    exact h.empty
  · rw [step_daemon]
    exact h.ahead.adds (Nat.zero_le _) (Nat.le_of_eq hopens.symm)
      (hsilent.mono fun _ hev => Ev.within_of_not_transfer hev 0)
  · intro serial hserial'
    rw [step_daemon] at hserial' ⊢
    rw [hserial] at hserial'
    rw [hstep.1, hstep.2]
    exact (h.account serial hserial').of_log fun _ => hsilent.silent _

/-- A turn of the select loop in which nothing is left behind. -/
theorem Kept.round (h : t.Kept) {a : RoundAnswers} (hpc : t.daemon.pc = .loop)
    (hround : RoundAll (OnCalls (FlushesSerial clock)) clock a t.daemon.sets t.daemon.app.selector
      t.daemon.world) : (t.step clock (.round a)).Kept := by
  have hd : t.daemon.step clock (.round a) = t.daemon.round clock a := if_pos hpc
  have hstart : RoundKept t.daemon.serialSession t.queued t.moved
      (t.daemon.app.selector, t.daemon.world) := by
    refine ⟨h.orderly.seated, h.orderly.steady, h.ahead, ?_, ?_⟩
    · cases hserial : t.daemon.serial with
      | none => simp [Daemon.serialSession, hserial]
      | some serial =>
        rw [serialSession_eq hserial]
        rw [Daemon.serial, selectorGetDevice_eq] at hserial
        exact (h.orderly.seated.devs 0 serial hserial).session
    · intro serial hserial
      rw [← selectorGetDevice_eq] at hserial
      unfold RoundAccount
      rw [if_pos (serialSession_eq hserial).symm, if_pos (serialSession_eq hserial).symm]
      exact h.account serial hserial
  have hend := selectorRound_kept clock hstart hround
  refine ⟨?_, ?_, ?_, ?_, ?_⟩
  · rw [step_daemon]
    exact h.orderly.step clock _
  · rw [step_daemon, hd]
    exact h.empty
  · rw [step_daemon, hd]
    exact hend.ahead
  · intro serial hserial
    rw [step_daemon] at hserial ⊢
    have hsession := serialSession_eq hserial
    have haccount := hend.account serial (by
      rw [← selectorGetDevice_eq]
      rwa [Daemon.serial, hd] at hserial)
    unfold RoundAccount at haccount
    rw [← hsession] at haccount
    unfold step
    dsimp only
    rw [hd] at haccount ⊢
    split
    · next hnew =>
      rw [if_neg hnew, if_neg hnew] at haccount
      exact haccount
    · next hsame =>
      rw [not_not] at hsame
      rw [if_pos hsame, if_pos hsame] at haccount
      exact haccount
  · unfold step
    dsimp only
    split
    · simp
    · exact h.copies

/-- A process cycle. -/
theorem Kept.process (h : t.Kept) {a : InitAnswers} (hpc : t.daemon.pc = .check)
    (hno : NoSignal t.daemon.signalReceived) : (t.step clock (.check a)).Kept := by
  rcases t.daemon.step_process clock (a := a) hpc hno with ⟨happ, hw⟩
  have hmark : Adds (fun ev => ev.isMark = true) t.daemon.world.log
      (t.daemon.world.record .processed).log := Adds.single (P := fun ev => ev.isMark = true) rfl _
  cases hs : t.daemon.serial with
  | none =>
    -- without a serial device the cycle ends at once
    have hsel : selectorGetDevice t.daemon.app.selector 0 = none := hs
    simp only [hdmi2usbProcess, hsel] at happ hw
    refine h.still happ ?_ ?_
    · rw [hw]
      rfl
    · rw [hw]
      exact hmark
  | some serial =>
    have hget := hs
    rw [Daemon.serial, selectorGetDevice_eq] at hget
    rcases hdmi2usbProcess_cycled clock 0 (t.daemon.world.record .processed) h.empty hget with
      ⟨serial', hget', hcycled⟩
    have hcycle := hdmi2usbProcess_log clock t.daemon.app 0 (t.daemon.world.record .processed)
    have hopens := (hdmi2usbProcess_shell clock t.daemon.app 0 (t.daemon.world.record .processed)).opens
    rw [← happ] at hget'
    rw [← hw] at hcycled hcycle hopens
    have hs' : (t.daemon.step clock (.check a)).serial = some serial' := by
      rw [Daemon.serial, selectorGetDevice_eq, hget']
    rcases since_mark (w := t.daemon.world) (show (Ev.processed).isMark = true from rfl) hcycle.extended
      with ⟨hmoved, hcopied⟩
    have hsilent : Adds (fun ev => ¬ ev.IsTransfer) t.daemon.world.log
        (t.daemon.step clock (.check a)).world.log :=
      (Adds.single id _).trans (hcycle.mono fun _ hev => hev.not_transfer)
    refine ⟨?_, ?_, ?_, ?_, step_copies h.copies ?_⟩
    · rw [step_daemon]
      exact h.orderly.step clock _
    · rw [step_daemon, happ]
      exact hdmi2usbProcess_copy clock 0 _ h.empty
    · rw [step_daemon]
      exact h.ahead.adds (Nat.zero_le _) (Nat.le_of_eq hopens.symm)
        (hsilent.mono fun _ hev => Ev.within_of_not_transfer hev 0)
    · intro serial'' hserial
      rw [step_daemon] at hserial ⊢
      cases hs'.symm.trans hserial
      have haccount := (h.account serial hs).cycle hcycled (hsilent.silent serial.session)
      unfold step
      dsimp only
      rw [if_neg (by simp [serialSession_eq hs, serialSession_eq hs', hcycled.session])]
      simpa [Daemon.serialQueue, hs, hs', hmoved] using haccount
    · rw [hmoved, hcopied]
      exact fun chunk hchunk => (hcycled.copies chunk hchunk).isInfix

/-- What `hdmi2usb_init` makes: nothing is buffered, and there is no session. -/
theorem hdmi2usbInit_account {a : InitAnswers} {app app' : Hdmi2usb} {rc rc' : Int} {w w' : World}
    (hinit : hdmi2usbInit clock a app rc w = some (rc', app', w')) (queued moved : List UInt8)
    (log : List Ev) : ∀ dev ∈ app'.selector.toList, Account queued moved dev log := by
  have hnew : ∀ dev : Iodev, dev.Fresh → dev.tbuf.contents = [] → Account queued moved dev log := by
    intro dev hfresh htbuf
    have hclosed : ¬ dev.state.holds := by
      rw [hfresh.state]
      decide
    exact ⟨fun hholds => absurd hholds hclosed,
      fun _ => ⟨⟨hfresh.rbuf, htbuf⟩, fun hne => absurd hfresh.session hne⟩⟩
  refine hdmi2usbInit_each clock ?_ ?_ hinit
  · exact hnew _ (serialCreate_fresh clock _ w) (RingBuffer.init_contents _)
  · intro laddr
    exact hnew _ (tcpCreateListen_fresh laddr _) (RingBuffer.init_contents _)

/-- A reload. -/
theorem Kept.reload (h : t.Kept) {a : InitAnswers} (hd : t.daemon.step clock (.check a) =
      Daemon.initialise clock a exSuccess
        { t.daemon with world := t.daemon.world.record .reloaded }) :
    (t.step clock (.check a)).Kept := by
  have hmark : Adds (fun ev => ev.isMark = true) t.daemon.world.log
      (t.daemon.world.record .reloaded).log := Adds.single (P := fun ev => ev.isMark = true) rfl _
  rcases Daemon.initialise_cases clock { t.daemon with world := t.daemon.world.record .reloaded }
    exSuccess a with ⟨happ, hw⟩ | ⟨rc, app, w, hinit, happ, hw⟩
  · -- there is no list of addresses
    rw [← hd] at happ hw
    exact h.still happ (by rw [hw]; rfl) (by rw [hw]; exact hmark)
  · rw [← hd] at happ hw
    rcases hdmi2usbInit_spec hinit with ⟨-, -, hcopy, -, -, hopens, hlog⟩
    rw [← hw] at hopens hlog
    have hadds : Adds (fun ev => ev.isMark = true) t.daemon.world.log
        (t.daemon.step clock (.check a)).world.log := by
      rw [hlog]
      exact hmark
    refine ⟨?_, ?_, ?_, ?_, step_copies h.copies (by simp [(since_marks hadds).2])⟩
    · rw [step_daemon]
      exact h.orderly.step clock _
    · rw [step_daemon, happ, hcopy]
      exact h.empty
    · rw [step_daemon]
      intro session hlt
      rw [hopens] at hlt
      rw [hlog]
      simpa [sentOf, receivedOf] using h.ahead session hlt
    · intro serial hserial
      rw [step_daemon, Daemon.serial, selectorGetDevice_eq, happ] at hserial
      exact hdmi2usbInit_account hinit _ _ _ serial (List.mem_of_getElem? hserial)

/-- The condition on a step: no I/O failure of the serial device leaves anything behind. -/
def Flushes (clock : Nat → UTime) (t : Tracked) (i : Input) : Prop :=
  InRounds (RoundAll (OnCalls (FlushesSerial clock)) clock) t.daemon i

instance (clock : Nat → UTime) (t : Tracked) (i : Input) : Decidable (Flushes clock t i) := by
  delta Flushes
  infer_instance

theorem Kept.step (h : t.Kept) (hflushes : Flushes clock t i) : (t.step clock i).Kept := by
  rcases t.daemon.step_cases clock i with ⟨happ, hw⟩ | ⟨a, rfl, hpc, -⟩ | ⟨a, rfl, -, -, hd⟩ |
    ⟨a, rfl, hpc, hno, -, -⟩ | ⟨sig, -, happ, hw⟩
  · refine h.still happ ?_ ?_
    · rw [hw]
    · rw [hw]
      exact Adds.refl _
  · exact h.round hpc (hflushes.of_loop hpc)
  · exact h.reload hd
  · exact h.process hpc hno
  · refine h.still happ ?_ ?_
    · rw [hw]
      rfl
    · rw [hw]
      exact Adds.single (P := fun ev => ev.isMark = true) rfl _

theorem start_kept (clock : Nat → UTime) (iobufsize : Nat) (a : InitAnswers) :
    (start clock iobufsize a).Kept := by
  rcases Daemon.start_spec clock iobufsize a with ⟨-, hcopy, -, -, hlog, -⟩
  refine ⟨start_orderly clock (Nat.zero_le _) a, hcopy, ?_, ?_, by simp [start]⟩
  · intro session _
    rw [show (start clock iobufsize a).daemon.world.log = [] from hlog]
    exact ⟨rfl, rfl⟩
  · intro serial hserial
    rw [Daemon.serial, selectorGetDevice_eq] at hserial
    have hmem := List.mem_of_getElem? hserial
    simp only [start, Daemon.start] at hmem
    generalize hbefore : Daemon.mk _ _ _ _ _ = d at hmem
    rcases Daemon.initialise_cases clock d 0 a with ⟨happ, -⟩ | ⟨rc, app, w, hinit, happ, -⟩
    · rw [happ, ← hbefore] at hmem
      simp at hmem
    · rw [happ] at hmem
      exact hdmi2usbInit_account hinit _ _ _ serial hmem

end Tracked

/-- An I/O failure leaves both buffers empty, unless it is a failed write of the serial device or an
exception, and finds something in them. In a run without such a failure of the serial device,
nothing is sent in a session but what has been queued in it, and nothing is copied to a connection
but what has been received in it. -/
theorem sessions_apart (clock : Nat → UTime) :
    (∀ event answer dev w, IoFails clock event answer dev w →
      ((iodevHandler clock event answer dev w).1.Clean ↔ ¬ Unflushed event dev)) ∧
    ∀ iobufsize a inputs,
      Along (Tracked.step clock) (Tracked.Flushes clock) (Tracked.start clock iobufsize a) inputs →
      (run (Tracked.step clock) (Tracked.start clock iobufsize a) inputs).Apart := by
  constructor
  · intro event answer dev w h
    exact failure_flushes_iff h
  · intro iobufsize a inputs h
    exact (Machine.run_invariant_along Tracked.Kept (fun _ _ ht hflushes => ht.step hflushes)
      (Tracked.start_kept clock iobufsize a) h).apart

/-- A byte is queued for the serial device. -/
def unsent : Iodev :=
  { (serialCreate (fun _ => 0) 64 .init).1 with
    fd := 3
    state := .iodevConnected
    tbuf := ((RingBuffer.init 64).put [65]).2 }

/-- A command is handed to the serial device, which is unplugged and plugged in again. -/
def unplugged (failure : FdSets) : List Input :=
  Daemon.firstConnection ++
    [Daemon.turn ⟨{5}, ∅, ∅⟩ ⟨some [65, 10], none, none⟩, Daemon.quietTurn, .check Daemon.oneAddress,
      Daemon.turn failure ⟨none, none, none⟩, Daemon.turn ⟨{5}, ∅, ∅⟩ ⟨some [66], none, none⟩,
      Daemon.turn ⟨∅, {3}, ∅⟩ ⟨none, none, some 1⟩]

/-- When the failure is met by a read, the old command is gone. -/
theorem unplugged_read_apart :
    (iodevHandler (fun _ => 0) .read ⟨none, none, none⟩ unsent .init).1.Clean ∧
    (run (Tracked.step fun _ => 0) (Tracked.start (fun _ => 0) 64 Daemon.oneAddress)
      (unplugged ⟨{3}, ∅, ∅⟩)).Apart :=
  ⟨((sessions_apart fun _ => 0).1 .read ⟨none, none, none⟩ unsent .init (by decide +kernel)).mpr
      (by decide +kernel),
    (sessions_apart fun _ => 0).2 64 Daemon.oneAddress (unplugged ⟨{3}, ∅, ∅⟩) (by decide +kernel)⟩

/-- When it is met by a write, the first byte of the old command is sent in the new session. -/
theorem unplugged_write_left :
    ¬ (∀ event answer dev w, IoFails (fun _ => 0) event answer dev w →
      (iodevHandler (fun _ => 0) event answer dev w).1.Clean) ∧
    ¬ ∀ inputs, (run (Tracked.step fun _ => 0) (Tracked.start (fun _ => 0) 64 Daemon.oneAddress)
      inputs).Apart := by
  constructor
  · intro h
    have hclean := h .write ⟨none, none, none⟩ unsent .init (by decide +kernel)
    revert hclean
    decide +kernel
  · intro h
    have hapart := h (unplugged ⟨∅, {3}, ∅⟩)
    revert hapart
    decide +kernel

end Hdmi2usbd
