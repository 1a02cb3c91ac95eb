import Hdmi2usbd.Wire

/-!
# EndToEnd — from the serial device to a client

Between two states of a run with the serial device and a connection open in the same sessions, every
byte that is read from the serial device is written to the connection once and in order, but for
those that are still buffered at the end, if the connection has room for each chunk when it is
copied (`serial_to_client`). What the other connections do does not matter.
-/

namespace Hdmi2usbd

open Machine (Along run)

/-! ## What the connection is copied -/

/-- As long as the connection is open, it has been copied what was moved since. -/
structure Supplied (session : Nat) (log : List Ev) (n : Net) : Prop where
  old : session ≤ n.world.opens
  supplied : ∃ evs, n.world.log = log ++ evs ∧ ∀ dev ∈ n.devs, dev.driver = .accepted →
    iodevIsOpen dev → dev.session = session →
      (spanOf session n.world.log).copied = (spanOf session log).copied ++ movedOf evs

variable {session : Nat} {log : List Ev} {n : Net} {w' : World}

/-- The step moves and copies nothing, and the connection was open before if it is now. -/
theorem Supplied.still (h : Supplied session log n) {devs' : List Iodev} {evs' : List Ev}
    (hopens : n.world.opens ≤ w'.opens) (hlog : w'.log = n.world.log ++ evs')
    (hmoved : movedOf evs' = [])
    (hcopied : (spanOf session w'.log).copied = (spanOf session n.world.log).copied)
    (hdevs : ∀ dev' ∈ devs', dev'.driver = .accepted → iodevIsOpen dev' → dev'.session = session →
      ∃ dev ∈ n.devs, dev.driver = .accepted ∧ iodevIsOpen dev ∧ dev.session = session) :
    Supplied session log ⟨devs', w'⟩ := by
  rcases h with ⟨hold, evs, hevs, hsupplied⟩
  refine ⟨hold.trans hopens, evs ++ evs', by rw [hlog, hevs, List.append_assoc], ?_⟩
  intro dev' hdev' hacc hopen hsession
  rcases hdevs dev' hdev' hacc hopen hsession with ⟨dev, hdev, hacc, hopen, hsession⟩
  rw [hcopied, hsupplied dev hdev hacc hopen hsession, movedOf_append, hmoved, List.append_nil]

/-- The events of a turn of the select loop. -/
theorem span_io {evs : List Ev} (h : ∀ ev ∈ evs, ev.IsIo) (session : Nat) (log : List Ev) :
    movedOf evs = [] ∧
      (spanOf session (log ++ evs)).copied = (spanOf session log).copied := by
  constructor
  · refine List.flatMap_eq_nil_iff.mpr fun ev hev => ?_
    cases ev with
    | moved => exact absurd (h _ hev) id
    | _ => rfl
  · rw [spanOf_append]
    refine Machine.run_invariant_mem
      (fun sp : Span => sp.copied = (spanOf session log).copied) (fun sp ev hev hsp => ?_) rfl
    cases ev with
    | opened driver s fd =>
      cases driver with
      | serial | listen => exact hsp
      | accepted =>
        rw [Span.step]
        split <;> exact hsp
    | closed s fd =>
      rw [Span.step]
      split <;> exact hsp
    | moved | copied => exact absurd (h _ hev) id
    | _ => exact hsp

/-- An open connection that an action leaves was open before, in the same session. -/
theorem netAct_connection {a : NetAct} (hok : a.Ok .any n) (hold : session ≤ n.world.opens) :
    ∀ dev' ∈ (a.apply n).devs, dev'.driver = .accepted → iodevIsOpen dev' →
      dev'.session = session →
        ∃ dev ∈ n.devs, dev.driver = .accepted ∧ iodevIsOpen dev ∧ dev.session = session := by
  intro dev' hdev' hacc hopen hsession
  cases a with
  | note ev => exact ⟨dev', hdev', hacc, hopen, hsession⟩
  | lost index a =>
    rcases netAct_lost hok with ⟨_, _, _, -, -, heq, -⟩
    rw [heq] at hdev'
    exact ⟨dev', hdev', hacc, hopen, hsession⟩
  | accept fd bufsize slot =>
    -- the new connection has a new session
    have hnew : dev' ≠ tcpCreateAccepted (n.world.opens + 1) fd bufsize := by
      rintro rfl
      have hlt : n.world.opens + 1 = session := hsession
      omega
    exact ⟨dev', (mem_devs_accept hdev').resolve_left hnew, hacc, hopen, hsession⟩
  | device index a =>
    rcases hok with ⟨dev, hget, hok⟩
    simp only [NetAct.apply, hget] at hdev'
    rcases List.mem_or_eq_of_mem_set hdev' with hmem | rfl
    · exact ⟨dev', hmem, hacc, hopen, hsession⟩
    · refine ⟨dev, List.mem_of_getElem? hget, ?_⟩
      cases a with
      | tick | pace | note | received | sent => exact ⟨hacc, hopen, hsession⟩
      | opened fd state => exact absurd hacc hok.2.1
      | refused | retired => cases hopen
      | released => exact absurd (holds_of_isOpen hopen) dev.released_not_holds
      | dropped => exact absurd hopen hok.1

theorem netAct_supplied (n : Net) (a : NetAct) (h : Supplied session log n) (hok : a.Ok .any n) :
    Supplied session log (a.apply n) := by
  rcases netAct_log n a hok with ⟨evs, hlog, hevs⟩
  rcases span_io hevs session n.world.log with ⟨hmoved, hcopied⟩
  rw [← hlog] at hcopied
  exact h.still (netAct_opens n a) hlog hmoved hcopied (netAct_connection hok h.old)

/-! ## Cycles -/

/-- While the connection is open, what is moved is in its span. -/
theorem span_cycle {evs : List Ev} (h : ∀ ev ∈ evs, ev.IsCycle) (session : Nat) {log : List Ev}
    (hlive : (spanOf session log).live) : (spanOf session (log ++ evs)).live ∧
      (spanOf session (log ++ evs)).moved = (spanOf session log).moved ++ movedOf evs := by
  induction evs using List.reverseRecOn with
  | nil => simpa [movedOf] using hlive
  | append_singleton evs ev ih =>
    rcases ih fun ev' hev' => h ev' (by simp [hev']) with ⟨hnow, hmoved⟩
    have hev := h ev (by simp)
    rw [← List.append_assoc, spanOf_append, movedOf_append, ← List.append_assoc, ← hmoved]
    cases ev with
    | moved bytes => simp [Span.step, movedOf, hnow]
    | copied s bytes =>
      by_cases hs : s = session <;> simp [Span.step, movedOf, hnow, hs]
    | handed => simp [Span.step, movedOf, hnow]
    | _ => exact absurd hev id

/-- The connection has room for the chunk of the next cycle. -/
def RoomFor (session : Nat) (d : Daemon) : Input → Prop
  | .check _ => d.pc = .check → NoSignal d.signalReceived →
      ∀ serial, d.serial = some serial → ∀ dev ∈ d.app.selector.toList, dev.driver = .accepted →
        dev.session = session → movedCount d.app.copy serial ≤ dev.tbuf.available
  | _ => True

theorem hdmi2usbProcess_supplied (clock : Nat → UTime) {app : Hdmi2usb} {w : World}
    (h : Supplied session log (netOf app.selector w)) (hbooked : Booked (netOf app.selector w))
    (hseated : Seated (netOf app.selector w)) (hempty : app.copy.contents = [])
    (hroom : ∀ serial, app.selector.toList[0]? = some serial → ∀ dev ∈ app.selector.toList,
      dev.driver = .accepted → dev.session = session →
        movedCount app.copy serial ≤ dev.tbuf.available) (rc : Int) :
    Supplied session log (netOf (hdmi2usbProcess clock app rc w).2.1.selector
      (hdmi2usbProcess clock app rc w).2.2) := by
  rcases hdmi2usbProcess_cases clock app rc w with ⟨happ, hw, -⟩ | ⟨serial, hs, -⟩
  · rw [happ, hw]
    exact h
  · have hshell := hdmi2usbProcess_shell clock app rc w
    rcases h with ⟨hold, evs, hevs, hsupplied⟩
    rcases hdmi2usbProcess_log clock app rc w with ⟨evs', hlog, hcycle⟩
    have hlog' : (hdmi2usbProcess clock app rc w).2.2.log = log ++ (evs ++ evs') := by
      rw [hlog, ← List.append_assoc, ← hevs]
      rfl
    refine ⟨hold.trans (Nat.le_of_eq hshell.opens.symm), evs ++ evs', hlog', ?_⟩
    intro dev' hdev' hacc hopen hsession
    -- a cycle leaves the connection and its session alone
    rcases List.mem_iff_getElem?.mp hdev' with ⟨index, hget'⟩
    rcases hshell.slot hget' with ⟨dev, hget, hsame⟩
    have hdev := List.mem_of_getElem? hget
    replace hacc : dev.driver = .accepted :=
      show dev.shell.driver = .accepted by rw [← hsame]; exact hacc
    replace hopen : iodevIsOpen dev := show iodevIsOpen dev.shell by rw [← hsame]; exact hopen
    replace hsession : dev.session = session :=
      show dev.shell.session = session by rw [← hsame]; exact hsession
    have hlive : (spanOf session w.log).live := by
      rw [← hsession]
      exact ((hbooked.streams dev hdev hacc).output hopen).1
    have hmoved := (span_cycle hcycle session hlive).2
    rw [← hlog] at hmoved
    rcases cycle_span_cases clock rc hseated hempty hs session with
      ⟨dev₂, hdev₂, hacc₂, hsession₂, hspan⟩ | ⟨hnone, -⟩
    · have hall : turnCopies session (chunkOf app.copy serial) dev₂ = chunkOf app.copy serial := by
        rw [← hsession₂]
        refine turnCopies_eq hseated hdev₂ hacc₂ ?_
        rw [length_chunkOf]
        exact hroom serial hs dev₂ hdev₂ hacc₂ hsession₂
      rw [hspan, hall] at hmoved
      simp only [netOf, hspan, hall, movedOf_append]
      simp only [Span.moveIn, Span.copyIn, hlive, if_true, List.append_cancel_left_eq] at hmoved ⊢
      rw [← hmoved, ← List.append_assoc, ← hsupplied dev hdev hacc hopen hsession]
      rfl
    · exact absurd hsession (hnone dev hdev hacc)

/-! ## Runs -/

theorem step_supplied (clock : Nat → UTime) {d : Daemon} (hready : CycleReady d)
    (hbooked : Booked (netOf d.app.selector d.world))
    (h : Supplied session log (netOf d.app.selector d.world)) {i : Input}
    (hroom : RoomFor session d i) :
    Supplied session log (netOf (d.step clock i).app.selector (d.step clock i).world) := by
  have hmark : ∀ ev : Ev, ev.isMark = true →
      Supplied session log (netOf d.app.selector (d.world.record ev)) := by
    intro ev hev
    have hlog : (d.world.record ev).log = d.world.log ++ [ev] := rfl
    refine h.still le_rfl hlog ?_ ?_ fun dev hdev hacc hopen hsession =>
      ⟨dev, hdev, hacc, hopen, hsession⟩
    · cases ev with
      | signalled | reloaded | processed => rfl
      | _ => cases hev
    · rw [World.record_log, spanOf_mark session _ hev]
      rfl
  rcases d.step_cases clock i with ⟨happ, hw⟩ | ⟨a, -, -, hd⟩ | ⟨a, -, -, -, hd⟩ |
    ⟨a, rfl, hpc, hno, happ, hw⟩ | ⟨sig, -, happ, hw⟩
  · rw [happ, hw]
    exact h
  · rw [hd]
    exact (selectorRound_any clock a d.sets d.app.selector d.world).preserves
      (Supplied session log) netAct_supplied h
  · rw [hd]
    rcases Daemon.initialise_cases clock { d with world := d.world.record .reloaded }
      exSuccess a with ⟨happ, hw⟩ | ⟨rc, app, w, hinit, happ, hw⟩
    · rw [happ, hw]
      exact hmark _ rfl
    · -- no connection is left
      rw [happ, hw]
      rcases hdmi2usbInit_spec hinit with ⟨hdevs, -, -, -, -, hopens, hlog⟩
      have hlog' : w.log = (d.world.record .reloaded).log ++ [] := by
        rw [hlog, List.append_nil]
      refine (hmark .reloaded rfl).still (Nat.le_of_eq hopens.symm) hlog' rfl (by rw [hlog]; rfl) ?_
      intro dev hdev hacc
      exact absurd hacc (hdevs.1 dev hdev).driver
  · rw [happ, hw]
    refine hdmi2usbProcess_supplied clock (hmark _ rfl) (hbooked.mark _ rfl) (hready.1.mark rfl)
      hready.2 ?_ 0
    intro serial hs
    refine hroom hpc hno serial ?_
    rw [Daemon.serial, selectorGetDevice_eq, hs]
  · rw [happ, hw]
    exact hmark _ rfl

theorem run_supplied (clock : Nat → UTime) (iobufsize : Nat) (a : InitAnswers)
    (past future : List Input) {session : Nat}
    (hold : session ≤ (run (Daemon.step clock) (Daemon.start clock iobufsize a) past).world.opens)
    (hroom : Along (Daemon.step clock) (RoomFor session)
      (run (Daemon.step clock) (Daemon.start clock iobufsize a) past) future) :
    Supplied session (run (Daemon.step clock) (Daemon.start clock iobufsize a) past).world.log
      (netOf
        (run (Daemon.step clock) (Daemon.start clock iobufsize a) (past ++ future)).app.selector
        (run (Daemon.step clock) (Daemon.start clock iobufsize a) (past ++ future)).world) := by
  have hready : CycleReady (run (Daemon.step clock) (Daemon.start clock iobufsize a) past) :=
    Machine.run_invariant CycleReady (fun d i h => step_cycleReady clock d i h)
      ⟨start_seated clock iobufsize a, (Daemon.start_spec clock iobufsize a).2.1⟩ past
  have horderly := run_orderly clock (Nat.zero_le iobufsize) a past
  have hbooked := run_booked clock iobufsize a past
  rw [Machine.run_append]
  generalize run (Daemon.step clock) (Daemon.start clock iobufsize a) past = d at *
  have hstart : Supplied session d.world.log (netOf d.app.selector d.world) :=
    ⟨hold, [], (List.append_nil _).symm, fun _ _ _ _ _ => (List.append_nil _).symm⟩
  refine (Machine.run_invariant_along (fun e : Daemon => CycleReady e ∧ Orderly 0 e ∧
    Booked (netOf e.app.selector e.world) ∧
      Supplied session d.world.log (netOf e.app.selector e.world)) ?_
    ⟨hready, horderly, hbooked, hstart⟩ hroom).2.2.2
  rintro e i ⟨hready, horderly, hbooked, h⟩ hroom
  exact ⟨step_cycleReady clock e i hready, horderly.step clock i,
    step_booked clock horderly hbooked i, step_supplied clock hready hbooked h hroom⟩

/-- Between two states of a run with the serial device and a connection open, each in one session:
if the connection has room for each chunk, what has been read from the serial device is what has
been written to the connection, but for what was buffered at the start and what is at the end. -/
theorem serial_to_client (clock : Nat → UTime) (iobufsize : Nat) (a : InitAnswers)
    (past future : List Input) (serial serial' client client' : Iodev) :
    let d := run (Daemon.step clock) (Daemon.start clock iobufsize a) past
    let d' := run (Daemon.step clock) d future
    let evs := d.world.since d'.world
    d.serial = some serial → iodevIsOpen serial → d'.serial = some serial' → iodevIsOpen serial' →
    serial'.session = serial.session →
    client ∈ d.app.selector.toList → client.driver = .accepted → iodevIsOpen client →
    client' ∈ d'.app.selector.toList → client'.driver = .accepted → iodevIsOpen client' →
    client'.session = client.session →
    Along (Daemon.step clock) (RoomFor client.session) d future →
    client.tbuf.contents ++ serial.rbuf.contents ++ receivedOf serial.session evs =
      sentOf client.session evs ++ client'.tbuf.contents ++ serial'.rbuf.contents := by
  intro d d' evs hserial hopen hserial' hopen' hserialSession hclient hacc hlive hclient' hacc'
    hlive' hsession hroom
  have hd' : d' = run (Daemon.step clock) (Daemon.start clock iobufsize a) (past ++ future) :=
    (Machine.run_append _ _ _ _).symm
  rw [Daemon.serial, selectorGetDevice_eq] at hserial hserial'
  have horderly := run_orderly clock (Nat.zero_le iobufsize) a past
  have hpos := run_session_pos clock iobufsize a past serial (List.mem_of_getElem? hserial) hopen
  -- what the serial device receives is moved on
  have hin : serial.rbuf.contents ++ receivedOf serial.session evs =
      movedOf evs ++ serial'.rbuf.contents := by
    have hprefix : Along (Daemon.step clock) (Takes (· <+: ·) clock) d future :=
      Machine.along_of_forall (takes_isPrefixOf clock) future
    rcases (run_onward horderly hserial hpos hprefix).carried with ⟨evs', hlog, hcarried⟩
    have hevs : evs = evs' := World.since_eq hlog
    rw [hevs, ← hserialSession]
    exact (hcarried serial' hserial' hopen' hserialSession).input
  -- what is moved is copied to the connection
  rcases List.mem_iff_getElem?.mp hclient with ⟨index, hget⟩
  have hold := (horderly.seated.devs index client hget).session
  have hsupplied : Supplied client.session d.world.log (netOf d'.app.selector d'.world) := by
    rw [hd']
    exact run_supplied clock iobufsize a past future hold hroom
  rcases hsupplied.supplied with ⟨evs', hlog', hsupplied⟩
  have hevs : evs = evs' := World.since_eq hlog'
  have hlog : d'.world.log = d.world.log ++ evs := by
    rw [hevs]
    exact hlog'
  have hcopied : (spanOf client.session d'.world.log).copied =
      (spanOf client.session d.world.log).copied ++ movedOf evs := by
    rw [hevs]
    exact hsupplied client' hclient' hacc' hlive' hsession
  -- what is copied is written, or waits in the send buffer
  have hbefore : sentOf client.session d.world.log ++ client.tbuf.contents =
      (spanOf client.session d.world.log).copied :=
    (((run_booked clock iobufsize a past).streams client hclient hacc).output hlive).2
  have hbooked' : Booked (netOf d'.app.selector d'.world) := by
    rw [hd']
    exact run_booked clock iobufsize a (past ++ future)
  have hafter : sentOf client.session d'.world.log ++ client'.tbuf.contents =
      (spanOf client.session d'.world.log).copied := by
    rw [← hsession]
    exact ((hbooked'.streams client' hclient' hacc').output hlive').2
  have hsent : sentOf client.session evs ++ client'.tbuf.contents =
      client.tbuf.contents ++ movedOf evs := by
    rw [hcopied, ← hbefore, hlog, sentOf_append, List.append_assoc, List.append_assoc] at hafter
    exact List.append_cancel_left hafter
  rw [hsent, List.append_assoc, List.append_assoc, hin]

instance (session : Nat) (d : Daemon) : DecidablePred (RoomFor session d)
  | .check _ => inferInstanceAs (Decidable (d.pc = .check → NoSignal d.signalReceived →
      ∀ serial, d.serial = some serial → ∀ dev ∈ d.app.selector.toList, dev.driver = .accepted →
        dev.session = session → movedCount d.app.copy serial ≤ dev.tbuf.available))
  | .round _ | .signal _ => .isTrue trivial

/-- The serial device sends two bytes, and the client reads the first of them. -/
def firstAnswer : List Input :=
  [Daemon.turn ⟨{3}, ∅, ∅⟩ ⟨some [79, 75], none, none⟩, Daemon.quietTurn, .check Daemon.oneAddress,
    Daemon.turn ⟨∅, {5}, ∅⟩ ⟨none, none, some 1⟩]

def afterAnswer : Daemon := run (Daemon.step fun _ => 0) beforeCommand firstAnswer

theorem serial_to_client_first_answer :
    ∃ serial serial' client client', beforeCommand.serial = some serial ∧
      afterAnswer.serial = some serial' ∧ client ∈ beforeCommand.app.selector.toList ∧
      client' ∈ afterAnswer.app.selector.toList ∧
      client.tbuf.contents ++ serial.rbuf.contents ++
          receivedOf serial.session (beforeCommand.world.since afterAnswer.world) =
        sentOf client.session (beforeCommand.world.since afterAnswer.world) ++
          client'.tbuf.contents ++ serial'.rbuf.contents := by
  have hbefore : beforeCommand.serial.isSome := by decide +kernel
  have hafter : afterAnswer.serial.isSome := by decide +kernel
  rcases Option.isSome_iff_exists.mp hbefore with ⟨serial, hserial⟩
  rcases Option.isSome_iff_exists.mp hafter with ⟨serial', hserial'⟩
  have hopen : ∀ dev, beforeCommand.serial = some dev → iodevIsOpen dev ∧ dev.session = 1 := by
    decide +kernel
  have hopen' : ∀ dev, afterAnswer.serial = some dev → iodevIsOpen dev ∧ dev.session = 1 := by
    decide +kernel
  have hclient : ∃ dev ∈ beforeCommand.app.selector.toList, dev.driver = .accepted ∧
      iodevIsOpen dev ∧ dev.session = 3 := by decide +kernel
  have hclient' : ∃ dev ∈ afterAnswer.app.selector.toList, dev.driver = .accepted ∧
      iodevIsOpen dev ∧ dev.session = 3 := by decide +kernel
  rcases hclient with ⟨client, hmem, hacc, hlive, hsession⟩
  rcases hclient' with ⟨client', hmem', hacc', hlive', hsession'⟩
  refine ⟨serial, serial', client, client', hserial, hserial', hmem, hmem', ?_⟩
  rw [beforeCommand] at hmem
  rw [afterAnswer, beforeCommand] at hmem'
  refine serial_to_client (fun _ => 0) 64 Daemon.oneAddress Daemon.firstConnection firstAnswer
    serial serial' client client' hserial (hopen serial hserial).1 hserial'
    (hopen' serial' hserial').1 ((hopen' serial' hserial').2.trans (hopen serial hserial).2.symm)
    hmem hacc hlive hmem' hacc' hlive' (hsession'.trans hsession.symm) ?_
  rw [hsession]
  show Along (Daemon.step fun _ => 0) (RoomFor 3) beforeCommand firstAnswer
  decide +kernel

end Hdmi2usbd
