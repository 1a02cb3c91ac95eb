import Mathlib.Data.List.Forall2
import Hdmi2usbd.Lifetimes
import Hdmi2usbd.Sessions
import Hdmi2usbd.Streams

/-!
# Wire — what goes into the serial device and what comes out of it

Between two states of a run in which the serial device is open in one session, the bytes that `read`
returned are the ones that were moved out, in order, and what `write` has taken is made of the
commands handed on, in order: the part of each that found room in the send buffer, and so all of
each, if every command found room (`run_wire`).
-/

namespace Hdmi2usbd

open Machine (Along run)

/-- The commands that have been handed to the serial device, of all sessions, in order. -/
def commandsOf (log : List Ev) : List (List UInt8) :=
  log.filterMap fun
    | .handed _ command _ _ => some command
    | _ => none

@[simp] theorem commandsOf_append (log log' : List Ev) :
    commandsOf (log ++ log') = commandsOf log ++ commandsOf log' := List.filterMap_append

/-- What has happened to the serial device since its buffers held `rbuf` and `tbuf`. Of each command
a part has been queued, and `R` relates the part to the command. -/
structure Carried (R : List UInt8 → List UInt8 → Prop) (rbuf tbuf : List UInt8) (evs : List Ev)
    (serial : Iodev) : Prop where
  input : rbuf ++ receivedOf serial.session evs = movedOf evs ++ serial.rbuf.contents
  output : ∃ parts, List.Forall₂ R parts (commandsOf evs) ∧
    tbuf ++ parts.flatten = sentOf serial.session evs ++ serial.tbuf.contents

/-- Events that count for the serial device in a session. -/
def Ev.Counts (session : Nat) : Ev → Prop
  | .received s _ | .sent s _ _ => s = session
  | .moved _ | .handed .. => True
  | _ => False

/-- Nothing of the kind has happened. -/
structure Apart (session : Nat) (evs : List Ev) : Prop where
  received : receivedOf session evs = []
  sent : sentOf session evs = []
  moved : movedOf evs = []
  commands : commandsOf evs = []

theorem apart_of_not_counts {session : Nat} {evs : List Ev}
    (h : ∀ ev ∈ evs, ¬ ev.Counts session) : Apart session evs := by
  constructor
  · refine List.flatMap_eq_nil_iff.mpr fun ev hev => ?_
    cases ev with
    | received s bytes => exact if_neg (h _ hev)
    | _ => rfl
  · refine List.flatMap_eq_nil_iff.mpr fun ev hev => ?_
    cases ev with
    | sent s bytes tick => exact if_neg (h _ hev)
    | _ => rfl
  · refine List.flatMap_eq_nil_iff.mpr fun ev hev => ?_
    cases ev with
    | moved => exact absurd trivial (h _ hev)
    | _ => rfl
  · refine List.filterMap_eq_nil_iff.mpr fun ev hev => ?_
    cases ev with
    | handed => exact absurd trivial (h _ hev)
    | _ => rfl

namespace Carried

variable {R : List UInt8 → List UInt8 → Prop} {rbuf tbuf : List UInt8} {evs evs' : List Ev}
  {serial serial' : Iodev}

theorem refl (R : List UInt8 → List UInt8 → Prop) (serial : Iodev) :
    Carried R serial.rbuf.contents serial.tbuf.contents [] serial :=
  ⟨by simp [movedOf], [], .nil, by simp⟩

/-- The buffers stay as they are. -/
theorem still (h : Carried R rbuf tbuf evs serial) (hevs : Apart serial.session evs')
    (hsession : serial'.session = serial.session)
    (hrbuf : serial'.rbuf.contents = serial.rbuf.contents)
    (htbuf : serial'.tbuf.contents = serial.tbuf.contents) :
    Carried R rbuf tbuf (evs ++ evs') serial' := by
  rcases h with ⟨hin, parts, hparts, hout⟩
  refine ⟨?_, parts, ?_, ?_⟩
  · rw [hsession, hrbuf, receivedOf_append, hevs.received, movedOf_append, hevs.moved,
      List.append_nil, List.append_nil]
    exact hin
  · rw [commandsOf_append, hevs.commands, List.append_nil]
    exact hparts
  · rw [hsession, htbuf, sentOf_append, hevs.sent, List.append_nil]
    exact hout

theorem received (h : Carried R rbuf tbuf evs serial) {bytes : List UInt8}
    (hroom : bytes.length ≤ serial.rbuf.available) :
    Carried R rbuf tbuf (evs ++ [.received serial.session bytes])
      { serial with rbuf := (serial.rbuf.put bytes).2 } := by
  rcases h with ⟨hin, parts, hparts, hout⟩
  refine ⟨?_, parts, ?_, ?_⟩
  · simp only [receivedOf_append, movedOf_append, RingBuffer.put_contents,
      List.take_of_length_le hroom, ← List.append_assoc, hin]
    simp [receivedOf, movedOf]
  · simpa [commandsOf] using hparts
  · simpa [sentOf] using hout

theorem sent (h : Carried R rbuf tbuf evs serial) (k : Nat) (tick : Nat) {serial' : Iodev}
    {pacer : Microtimer}
    (hserial : serial' = { serial with tbuf := (serial.tbuf.get false k).2.2, pacer := pacer }) :
    Carried R rbuf tbuf
      (evs ++ [.sent serial.session (serial.tbuf.contents.take k) tick]) serial' := by
  rcases h with ⟨hin, parts, hparts, hout⟩
  rw [hserial]
  refine ⟨?_, parts, ?_, ?_⟩
  · simpa [receivedOf, movedOf] using hin
  · simpa [commandsOf] using hparts
  · rw [hout]
    simp [sentOf]

/-- The contents of the receive buffer are moved out. -/
theorem moved (h : Carried R rbuf tbuf evs serial) {bytes : List UInt8} {serial' : Iodev}
    (hsession : serial'.session = serial.session)
    (hrbuf : serial.rbuf.contents = bytes ++ serial'.rbuf.contents)
    (htbuf : serial'.tbuf = serial.tbuf) :
    Carried R rbuf tbuf (evs ++ [.moved bytes]) serial' := by
  rcases h with ⟨hin, parts, hparts, hout⟩
  refine ⟨?_, parts, ?_, ?_⟩
  · rw [hsession, receivedOf_append, movedOf_append]
    simp only [receivedOf, movedOf, List.flatMap_cons, List.flatMap_nil, List.append_nil] at hin ⊢
    rw [hin, hrbuf, List.append_assoc]
  · simpa [commandsOf] using hparts
  · rw [hsession, htbuf]
    simpa [sentOf] using hout

/-- A command is handed to the open serial device. -/
theorem handed (h : Carried R rbuf tbuf evs serial) (hopen : iodevIsOpen serial)
    {line : List UInt8} (hline : R (line.take serial.tbuf.available) line) (session : Nat)
    (pass : Option UTime) (reset : UTime) :
    Carried R rbuf tbuf (evs ++ [.handed session line pass reset]) (iodevWrite serial line).2 := by
  rcases h with ⟨hin, parts, hparts, hout⟩
  rcases iodevWrite_body serial line with ⟨tbuf', hbody⟩
  refine ⟨?_, parts ++ [line.take serial.tbuf.available], ?_, ?_⟩
  · rw [hbody]
    simpa [receivedOf, movedOf] using hin
  · rw [commandsOf_append]
    exact List.rel_append hparts (.cons hline .nil)
  · rw [iodevWrite_tbuf hopen, hbody, List.flatten_append, ← List.append_assoc, hout]
    simp [sentOf]

end Carried

/-! ## From one state of a run to another -/

section Onward

variable (R : List UInt8 → List UInt8 → Prop) (session : Nat) (rbuf tbuf : List UInt8)
  (log : List Ev)

/-- As long as the serial device is open in the session, its buffers are accounted for. Once it is
not, it never is again. -/
structure Onward (n : Net) : Prop where
  old : session ≤ n.world.opens
  carried : ∃ evs, n.world.log = log ++ evs ∧ ∀ serial, n.devs[0]? = some serial →
    iodevIsOpen serial → serial.session = session → Carried R rbuf tbuf evs serial

variable {R session rbuf tbuf log} {n : Net} {w' : World}

/-- A device that is open in the session has been so before, and what has happened is accounted
for. -/
theorem Onward.next (h : Onward R session rbuf tbuf log n) {devs' : List Iodev} {evs' : List Ev}
    (hopens : n.world.opens ≤ w'.opens) (hlog : w'.log = n.world.log ++ evs')
    (hserial : ∀ serial', devs'[0]? = some serial' → iodevIsOpen serial' →
      serial'.session = session → ∃ serial, n.devs[0]? = some serial ∧ iodevIsOpen serial ∧
        serial.session = session ∧
        ∀ evs, Carried R rbuf tbuf evs serial → Carried R rbuf tbuf (evs ++ evs') serial') :
    Onward R session rbuf tbuf log ⟨devs', w'⟩ := by
  rcases h with ⟨hold, evs, hevs, hcarried⟩
  refine ⟨hold.trans hopens, evs ++ evs', by rw [hlog, hevs, List.append_assoc], ?_⟩
  intro serial' hget' hopen' hsession'
  rcases hserial serial' hget' hopen' hsession' with ⟨serial, hget, hopen, hsession, hnext⟩
  exact hnext evs (hcarried serial hget hopen hsession)

/-- The serial device stays as it is. -/
theorem Onward.still (h : Onward R session rbuf tbuf log n) {devs' : List Iodev} {evs' : List Ev}
    (hopens : n.world.opens ≤ w'.opens) (hlog : w'.log = n.world.log ++ evs')
    (hsame : devs'[0]? = n.devs[0]?)
    (hevs : ∀ serial, n.devs[0]? = some serial → iodevIsOpen serial → serial.session = session →
      ∀ ev ∈ evs', ¬ ev.Counts session) : Onward R session rbuf tbuf log ⟨devs', w'⟩ := by
  refine h.next hopens hlog fun serial hget hopen hsession => ?_
  rw [hsame] at hget
  refine ⟨serial, hget, hopen, hsession, fun evs hcarried => ?_⟩
  refine hcarried.still (apart_of_not_counts ?_) rfl rfl rfl
  rw [hsession]
  exact hevs serial hget hopen hsession

theorem Ev.IsNote.not_counts {ev : Ev} (h : ev.IsNote) (session : Nat) : ¬ ev.Counts session := by
  cases ev with
  | registered | deref | called => exact id
  | _ => exact absurd h id

/-- What a device does that is not the serial one. -/
theorem Onward.elsewhere (h : Onward R session rbuf tbuf log n) (hpos : 0 < session)
    (hseated : Seated n) {index : Nat} {dev dev' : Iodev} (hget : n.devs[index]? = some dev)
    (hindex : index ≠ 0) {evs' : List Ev} (hopens : n.world.opens ≤ w'.opens)
    (hlog : w'.log = n.world.log ++ evs')
    (hevs : ∀ ev ∈ evs', ev.Counts session → dev.session = session) :
    Onward R session rbuf tbuf log ⟨n.devs.set index dev', w'⟩ := by
  refine h.still hopens hlog (List.getElem?_set_ne hindex) ?_
  intro serial hserial _ hsession ev hev hcounts
  have heq := hevs ev hev hcounts
  have := hseated.distinct index 0 dev serial hindex hget hserial (heq.trans hsession.symm)
  omega

/-- What the serial device does, when it is open in the session before and after. -/
theorem Onward.here (h : Onward R session rbuf tbuf log n) {dev dev' : Iodev}
    (hget : n.devs[0]? = some dev) {evs' : List Ev} (hopens : n.world.opens ≤ w'.opens)
    (hlog : w'.log = n.world.log ++ evs')
    (hnext : iodevIsOpen dev' → dev'.session = session → iodevIsOpen dev ∧ dev.session = session ∧
      ∀ evs, Carried R rbuf tbuf evs dev → Carried R rbuf tbuf (evs ++ evs') dev') :
    Onward R session rbuf tbuf log ⟨n.devs.set 0 dev', w'⟩ := by
  refine h.next hopens hlog fun serial hserial hopen hsession => ?_
  have hslot : (n.devs.set 0 dev')[0]? = some dev' :=
    List.getElem?_set_self (List.getElem?_eq_some_iff.mp hget).1
  cases hslot.symm.trans hserial
  rcases hnext hopen hsession with ⟨hopen', hsession', hcarried⟩
  exact ⟨dev, hget, hopen', hsession', hcarried⟩

/-- The events of an action are about its device. -/
theorem devAct_counts {dev : Iodev} {w : World} {a : DevAct} (hok : a.Ok .any (dev, w)) :
    ∃ evs, (a.apply (dev, w)).2.log = w.log ++ evs ∧
      ∀ ev ∈ evs, ∀ session, ev.Counts session → dev.session = session := by
  cases a with
  | tick | pace | refused | retired | dropped => exact ⟨[], (List.append_nil _).symm, by simp⟩
  | note ev =>
    refine ⟨[ev], rfl, ?_⟩
    intro ev' hev' session hcounts
    rw [List.mem_singleton.mp hev'] at hcounts
    exact absurd hcounts (Ev.IsNote.not_counts hok session)
  | opened | released =>
    refine ⟨_, rfl, ?_⟩
    intro ev hev session hcounts
    rw [List.mem_singleton.mp hev] at hcounts
    exact absurd hcounts id
  | received | sent =>
    refine ⟨_, rfl, ?_⟩
    intro ev hev session hcounts
    rw [List.mem_singleton.mp hev] at hcounts
    exact hcounts

/-- Any action but a write. -/
theorem netAct_onward {a : NetAct} (h : Onward R session rbuf tbuf log n) (hpos : 0 < session)
    (hseated : Seated n) (hok : a.Ok .any n) (hsends : ¬ a.Sends) :
    Onward R session rbuf tbuf log (a.apply n) := by
  cases a with
  | lost index a =>
    rcases netAct_lost hok with ⟨_, _, ev, -, -, heq, hopens, -, hlog, ⟨rfl, -, rfl⟩ | ⟨k, rfl, -⟩⟩
    · rw [heq]
      refine h.still (Nat.le_of_eq hopens.symm) hlog rfl fun _ _ _ _ ev hev => ?_
      rw [List.mem_singleton.mp hev]
      exact id
    · exact absurd trivial hsends
  | note ev =>
    refine h.still le_rfl rfl rfl fun _ _ _ _ ev' hev' => ?_
    rw [List.mem_singleton.mp hev']
    exact Ev.IsNote.not_counts hok session
  | accept fd bufsize slot =>
    refine h.still (Nat.le_succ _) rfl (getElem?_zero_accept hok) fun _ _ _ _ ev hev => ?_
    rw [List.mem_singleton.mp hev]
    exact id
  | device index a =>
    rcases hok with ⟨dev, hget, hok⟩
    simp only [NetAct.apply, hget]
    by_cases hindex : index = 0
    · subst hindex
      -- the actions of the serial device
      have hstill : ∀ {evs' : List Ev}, (∀ ev ∈ evs', ∀ s, ¬ ev.Counts s) → ∀ evs,
          Carried R rbuf tbuf evs dev → Carried R rbuf tbuf (evs ++ evs') dev :=
        fun hevs evs hcarried =>
          hcarried.still (apart_of_not_counts fun ev hev => hevs ev hev _) rfl rfl rfl
      cases a with
      | sent k => exact absurd trivial hsends
      | tick =>
        exact h.here hget le_rfl (List.append_nil _).symm fun hopen hsession =>
          ⟨hopen, hsession, hstill (by simp)⟩
      | pace pacer =>
        refine h.here hget le_rfl (List.append_nil _).symm fun hopen hsession =>
          ⟨hopen, hsession, fun evs hcarried => ?_⟩
        exact hcarried.still (apart_of_not_counts (by simp)) rfl rfl rfl
      | note ev =>
        refine h.here hget le_rfl rfl fun hopen hsession => ⟨hopen, hsession, hstill ?_⟩
        intro ev' hev' s
        rw [List.mem_singleton.mp hev']
        exact Ev.IsNote.not_counts hok s
      | opened fd state =>
        refine h.here hget (Nat.le_succ _) rfl fun _ hsession => ?_
        have hold := h.old
        have hnew : n.world.opens + 1 = session := hsession
        omega
      | refused | retired =>
        refine h.here hget le_rfl (List.append_nil _).symm fun hopen _ => ?_
        cases hopen
      | released =>
        refine h.here hget le_rfl rfl fun hopen _ => ?_
        exact absurd (holds_of_isOpen hopen) dev.released_not_holds
      | dropped =>
        exact h.here hget le_rfl (List.append_nil _).symm fun hopen _ => absurd hopen hok.1
      | received bytes =>
        exact h.here hget le_rfl rfl fun hopen hsession =>
          ⟨hopen, hsession, fun evs hcarried => hcarried.received hok.2⟩
    · rcases devAct_counts hok with ⟨evs, hlog, hevs⟩
      exact h.elsewhere hpos hseated hget hindex (devAct_opens (dev, n.world) a) hlog
        fun ev hev => hevs ev hev session

theorem onward_loop (hpos : 0 < session) : LoopKeeps True (Onward R session rbuf tbuf log) := by
  constructor
  · rintro n a h hseated - hok hsends
    exact netAct_onward h hpos hseated hok hsends
  · rintro n w index k dev r h hseated - hget hopen ⟨notes, hnotes, hnote⟩ - hopens
      ⟨⟨pacer, hdev⟩, ⟨tick, hlog⟩, -, hopens'⟩
    have hlog' : r.2.log = n.world.log ++
        (notes ++ [.sent dev.session (dev.tbuf.contents.take k) tick]) := by
      rw [hlog, hnotes, List.append_assoc]
    have hopens'' : n.world.opens ≤ r.2.opens := by rw [hopens', hopens]
    by_cases hindex : index = 0
    · subst hindex
      refine h.here hget hopens'' hlog' fun _ hsession => ⟨hopen, by rwa [hdev] at hsession, ?_⟩
      intro evs hcarried
      have hapart : Apart dev.session notes :=
        apart_of_not_counts fun ev hev => Ev.IsNote.not_counts (hnote ev hev) _
      have hnow := hcarried.still hapart rfl rfl rfl
      rw [← List.append_assoc]
      exact hnow.sent k tick hdev
    · refine h.elsewhere hpos hseated hget hindex hopens'' hlog' fun ev hev hcounts => ?_
      rcases List.mem_append.mp hev with hev | hev
      · exact absurd hcounts (Ev.IsNote.not_counts (hnote ev hev) session)
      · rw [List.mem_singleton.mp hev] at hcounts
        exact hcounts

end Onward

/-! ## Cycles -/

/-- If the turn hands a command on, `R` relates the part that the serial device has room for to the
command. -/
def TurnTakes (R : List UInt8 → List UInt8 → Prop) (clock : Nat → UTime) (s : ProcessState)
    (index : Nat) : Prop :=
  ∀ serial, s.app.selector.toList[0]? = some serial →
    ∀ dev, s.app.selector.toList[index]? = some dev → iodevIsListener dev = false →
      (s.world.expired clock s.app.lastCommand).1 = true →
        ∀ next, Lines.next isEol dev.stored = some next →
          R (next.1.take serial.tbuf.available) next.1

/-- The state in which the turns of a cycle begin. -/
def cycleStart (app : Hdmi2usb) (serial : Iodev) (w : World) : ProcessState :=
  ⟨{ app with
      selector := app.selector.store 0 (hdmi2usbProcessSerialData app.copy serial w).2.2.1
      copy := (hdmi2usbProcessSerialData app.copy serial w).2.1 },
    (hdmi2usbProcessSerialData app.copy serial w).2.2.2, 0, 0⟩

/-- The condition on all turns of a cycle. -/
def CycleTakes (R : List UInt8 → List UInt8 → Prop) (clock : Nat → UTime) (app : Hdmi2usb)
    (w : World) : Prop :=
  ∀ serial, app.selector.toList[0]? = some serial →
    Along (processStep clock (hdmi2usbProcessSerialData app.copy serial w).1) (TurnTakes R clock)
      (cycleStart app serial w) (List.range' 1 (selectorDeviceCount app.selector - 1))

section Cycles

variable {R : List UInt8 → List UInt8 → Prop} {session : Nat} {rbuf tbuf : List UInt8}
  {log : List Ev} {clock : Nat → UTime}

theorem processStep_onward {sBytes index : Nat} {s : ProcessState}
    (h : Onward R session rbuf tbuf log (netOf s.app.selector s.world)) (hpos : 1 ≤ index)
    (htakes : TurnTakes R clock s index) :
    Onward R session rbuf tbuf log (netOf (processStep clock sBytes s index).app.selector
      (processStep clock sBytes s index).world) := by
  have hopens := (processStep_shell clock sBytes s hpos).opens
  rcases processStep_cases clock sBytes s index with ⟨happ, hw, -⟩ | ⟨serial, dev, hs, hd, hconn⟩
  · rw [happ, hw]
    exact h
  · rcases processStep_turn clock sBytes hs hd hconn with ⟨serial', dev', copied, handed, hturn⟩
    rw [netOf, hturn.devs]
    refine h.next (Nat.le_of_eq hopens.symm) hturn.log fun after hafter hopen hsession => ?_
    have hslot : ((s.app.selector.toList.set 0 serial').set index dev')[0]? = some serial' := by
      rw [List.getElem?_set_ne (by omega)]
      exact List.getElem?_set_self (List.getElem?_eq_some_iff.mp hs).1
    cases hslot.symm.trans hafter
    rcases hturn.serial_body with ⟨stbuf, hbody⟩
    have hopen' : iodevIsOpen serial := by rwa [hbody] at hopen
    refine ⟨serial, hs, hopen', by rwa [hbody] at hsession, fun evs hcarried => ?_⟩
    -- what is copied does not concern the serial device
    have hcopied : Carried R rbuf tbuf (evs ++ copied) serial := by
      refine hcarried.still (apart_of_not_counts fun ev hev => ?_) rfl rfl rfl
      rcases hturn.copies with ⟨part, -, rfl | ⟨-, rfl⟩⟩
      · rw [List.mem_singleton.mp hev]
        exact id
      · cases hev
    rw [← List.append_assoc]
    rcases hturn.hands with ⟨rfl, rfl, -⟩ | ⟨line, pass, reset, rfl, rfl, hexp, -, hnext⟩
    · rw [List.append_nil]
      exact hcopied
    · have hline := htakes serial hs dev hd hconn hexp _ hnext
      exact hcopied.handed hopen' hline dev.session pass reset

theorem processSerialData_onward {sel : Selector} {w : World}
    (h : Onward R session rbuf tbuf log (netOf sel w)) (copy : RingBuffer) {serial : Iodev}
    (hs : sel.toList[0]? = some serial) :
    Onward R session rbuf tbuf log
      (netOf (sel.store 0 (hdmi2usbProcessSerialData copy serial w).2.2.1)
        (hdmi2usbProcessSerialData copy serial w).2.2.2) := by
  rcases processSerialData_shape copy serial w with ⟨rbuf', evs', hserial, hworld, -⟩
  have hopens : w.opens ≤ (hdmi2usbProcessSerialData copy serial w).2.2.2.opens := by rw [hworld]
  rcases processSerialData_logged copy serial w with ⟨bytes, hbytes, -, hlog | ⟨hnone, hlog⟩⟩
  · rw [netOf, Selector.store_toList]
    refine h.here hs hopens hlog fun hopen hsession => ?_
    refine ⟨by rwa [hserial] at hopen, by rwa [hserial] at hsession, fun evs hcarried => ?_⟩
    exact hcarried.moved (by rw [hserial]) hbytes (by rw [hserial])
  · have hrbuf : (hdmi2usbProcessSerialData copy serial w).2.2.1.rbuf.contents =
        serial.rbuf.contents := by
      rw [hbytes, hnone, List.nil_append]
    rw [netOf, Selector.store_toList]
    have hsame : (hdmi2usbProcessSerialData copy serial w).2.2.2.log = w.log ++ [] := by
      rw [hlog, List.append_nil]
    refine h.here hs hopens hsame fun hopen hsession => ?_
    refine ⟨by rwa [hserial] at hopen, by rwa [hserial] at hsession, fun evs hcarried => ?_⟩
    exact hcarried.still (apart_of_not_counts (by simp)) (by rw [hserial]) hrbuf (by rw [hserial])

/-- A cycle in which the turns take what `R` allows. -/
theorem hdmi2usbProcess_onward {app : Hdmi2usb} {w : World}
    (h : Onward R session rbuf tbuf log (netOf app.selector w)) (rc : Int)
    (htakes : CycleTakes R clock app w) :
    Onward R session rbuf tbuf log (netOf (hdmi2usbProcess clock app rc w).2.1.selector
      (hdmi2usbProcess clock app rc w).2.2) := by
  rcases hdmi2usbProcess_cases clock app rc w with ⟨happ, hw, -⟩ |
    ⟨serial, hs, -, final, hfinal, happ, hw⟩
  · rw [happ, hw]
    exact h
  · rw [happ, hw, hfinal]
    have hturns := (htakes serial hs).and (Machine.along_of_mem (P := fun index => 1 ≤ index)
      fun index hindex => (List.mem_range'_1.mp hindex).1)
    exact Machine.run_invariant_along
      (fun s : ProcessState => Onward R session rbuf tbuf log (netOf s.app.selector s.world))
      (fun s index hs hindex => processStep_onward hs hindex.2 hindex.1)
      (processSerialData_onward h app.copy hs) hturns

end Cycles

/-! ## Runs -/

/-- The condition on a step of the daemon. -/
def Takes (R : List UInt8 → List UInt8 → Prop) (clock : Nat → UTime) (d : Daemon) : Input → Prop
  | .check _ => d.pc = .check → NoSignal d.signalReceived →
      CycleTakes R clock d.app (d.world.record .processed)
  | _ => True

/-- Every command that is handed on finds room in the send buffer of the serial device. -/
def CommandsFit : (Nat → UTime) → Daemon → Input → Prop := Takes fun part command => part = command

theorem takes_isPrefixOf (clock : Nat → UTime) (d : Daemon) (i : Input) :
    Takes (· <+: ·) clock d i := by
  cases i with
  | round | signal => trivial
  | check a =>
    intro _ _ serial _
    refine Machine.along_of_forall (fun s index => ?_) _
    intro _ _ _ _ _ _ next _
    exact List.take_prefix _ _

variable {R : List UInt8 → List UInt8 → Prop} {session : Nat} {rbuf tbuf : List UInt8}
  {log : List Ev} {clock : Nat → UTime}

/-- Nothing happens to the serial device. -/
theorem Onward.mark {sel : Selector} {w : World} (h : Onward R session rbuf tbuf log (netOf sel w))
    (ev : Ev) (hev : ev.isMark = true) :
    Onward R session rbuf tbuf log (netOf sel (w.record ev)) := by
  refine h.still le_rfl rfl rfl fun _ _ _ _ ev' hev' => ?_
  rw [List.mem_singleton.mp hev']
  cases ev with
  | signalled | reloaded | processed => exact id
  | _ => cases hev

theorem step_onward {d : Daemon} (horderly : Orderly 0 d) (hpos : 0 < session)
    (h : Onward R session rbuf tbuf log (netOf d.app.selector d.world)) {i : Input}
    (htakes : Takes R clock d i) :
    Onward R session rbuf tbuf log
      (netOf (d.step clock i).app.selector (d.step clock i).world) := by
  rcases d.step_cases clock i with ⟨happ, hw⟩ | ⟨a, -, -, hd⟩ | ⟨a, -, -, -, hd⟩ |
    ⟨a, rfl, hpc, hno, happ, hw⟩ | ⟨sig, -, happ, hw⟩
  · rw [happ, hw]
    exact h
  · rw [hd]
    exact (onward_loop hpos).round h horderly (.inl trivial)
  · rw [hd]
    have hmark := h.mark .reloaded rfl
    rcases Daemon.initialise_cases clock { d with world := d.world.record .reloaded }
      exSuccess a with ⟨happ, hw⟩ | ⟨rc, app, w, hinit, happ, hw⟩
    · rw [happ, hw]
      exact hmark
    · -- the new serial device is not open
      rw [happ, hw]
      rcases hdmi2usbInit_spec hinit with ⟨hdevs, -, -, -, -, hopens, hlog⟩
      have hlog' : w.log = (d.world.record .reloaded).log ++ [] := by
        rw [hlog, List.append_nil]
      refine hmark.next (Nat.le_of_eq hopens.symm) hlog' ?_
      intro serial hserial hopen
      have hfresh := (hdevs.1 serial (List.mem_of_getElem? hserial)).state
      rw [iodevIsOpen, hfresh] at hopen
      cases hopen
  · rw [happ, hw]
    exact hdmi2usbProcess_onward (h.mark _ rfl) 0 (htakes hpc hno)
  · rw [happ, hw]
    exact h.mark _ rfl

/-- A run goes on from a state with the serial device in a session. -/
theorem run_onward {d : Daemon} (horderly : Orderly 0 d) {serial : Iodev}
    (hserial : d.app.selector.toList[0]? = some serial) (hpos : 0 < serial.session)
    {inputs : List Input}
    (htakes : Along (Daemon.step clock) (Takes R clock) d inputs) :
    Onward R serial.session serial.rbuf.contents serial.tbuf.contents d.world.log
      (netOf (run (Daemon.step clock) d inputs).app.selector
        (run (Daemon.step clock) d inputs).world) := by
  have hstart : Onward R serial.session serial.rbuf.contents serial.tbuf.contents d.world.log
      (netOf d.app.selector d.world) := by
    refine ⟨(horderly.seated.devs 0 serial hserial).session, [], (List.append_nil _).symm, ?_⟩
    intro serial' hserial' _ _
    cases hserial.symm.trans hserial'
    exact Carried.refl R serial
  refine (Machine.run_invariant_along (fun e : Daemon => Orderly 0 e ∧ Onward R serial.session
    serial.rbuf.contents serial.tbuf.contents d.world.log (netOf e.app.selector e.world))
    (fun _ i h htakes => ⟨h.1.step clock i, step_onward h.1 hpos h.2 htakes⟩) ⟨horderly, hstart⟩
    htakes).2

/-- An open device of a run has a session. -/
theorem run_session_pos (clock : Nat → UTime) (iobufsize : Nat) (a : InitAnswers)
    (inputs : List Input) : ∀ dev ∈ (run (Daemon.step clock) (Daemon.start clock iobufsize a)
      inputs).app.selector.toList, iodevIsOpen dev → 0 < dev.session := by
  intro dev hdev hopen
  rcases List.mem_iff_getElem?.mp hdev with ⟨index, hget⟩
  have hseated := (run_seated clock iobufsize a inputs).devs index dev hget
  exact hseated.positive (hseated.held.mpr (holds_of_isOpen hopen))

/-- Between two states of a run with the serial device open in one session: what was received is
moved on in order, and what is written are the commands in order, of each the part that found room,
and all of each if all found room. -/
theorem run_wire (clock : Nat → UTime) (iobufsize : Nat) (a : InitAnswers)
    (past future : List Input) (serial serial' : Iodev) :
    let d := run (Daemon.step clock) (Daemon.start clock iobufsize a) past
    let d' := run (Daemon.step clock) d future
    let evs := d.world.since d'.world
    d.serial = some serial → iodevIsOpen serial → d'.serial = some serial' → iodevIsOpen serial' →
    serial'.session = serial.session →
    serial.rbuf.contents ++ receivedOf serial.session evs = movedOf evs ++ serial'.rbuf.contents ∧
    (∃ parts, List.Forall₂ (· <+: ·) parts (commandsOf evs) ∧
      serial.tbuf.contents ++ parts.flatten =
        sentOf serial.session evs ++ serial'.tbuf.contents) ∧
    (Along (Daemon.step clock) (CommandsFit clock) d future →
      serial.tbuf.contents ++ (commandsOf evs).flatten =
        sentOf serial.session evs ++ serial'.tbuf.contents) := by
  intro d d' evs hserial hopen hserial' hopen' hsession
  rw [Daemon.serial, selectorGetDevice_eq] at hserial hserial'
  have hpos := run_session_pos clock iobufsize a past serial (List.mem_of_getElem? hserial) hopen
  have horderly := run_orderly clock (Nat.zero_le iobufsize) a past
  -- the account at the end of the run, whatever is asked of the parts
  have hcarried : ∀ {R}, Along (Daemon.step clock) (Takes R clock) d future →
      Carried R serial.rbuf.contents serial.tbuf.contents evs serial' := by
    intro R htakes
    rcases (run_onward horderly hserial hpos htakes).carried with ⟨evs', hlog, hcarried⟩
    have heq : evs = evs' := World.since_eq hlog
    rw [heq]
    exact hcarried serial' hserial' hopen' hsession
  have hdone := hcarried (Machine.along_of_forall (takes_isPrefixOf clock) future)
  rw [← hsession]
  refine ⟨hdone.input, hdone.output, fun hfit => ?_⟩
  rcases (hcarried hfit).output with ⟨parts, hparts, hout⟩
  rw [List.forall₂_eq_eq_eq] at hparts
  rw [← hparts]
  exact hout

/-- A client sends a command; the serial device writes its first byte, and reads an answer. -/
def firstCommand : List Input :=
  [Daemon.turn ⟨{5}, ∅, ∅⟩ ⟨some [65, 10], none, none⟩, Daemon.quietTurn, .check Daemon.oneAddress,
    Daemon.turn ⟨{3}, {3}, ∅⟩ ⟨some [79], none, some 1⟩]

/-- The states before and after. -/
def beforeCommand : Daemon :=
  run (Daemon.step fun _ => 0) (Daemon.start (fun _ => 0) 64 Daemon.oneAddress)
    Daemon.firstConnection

def afterCommand : Daemon := run (Daemon.step fun _ => 0) beforeCommand firstCommand

instance (R : List UInt8 → List UInt8 → Prop) [DecidableRel R] (clock : Nat → UTime)
    (s : ProcessState) (index : Nat) : Decidable (TurnTakes R clock s index) := by
  delta TurnTakes
  infer_instance

instance (R : List UInt8 → List UInt8 → Prop) [DecidableRel R] (clock : Nat → UTime)
    (app : Hdmi2usb) (w : World) : Decidable (CycleTakes R clock app w) := by
  delta CycleTakes
  infer_instance

instance (n : Nat) : Decidable (NoSignal n) := inferInstanceAs (Decidable (_ ∧ ¬ _))

instance (clock : Nat → UTime) (d : Daemon) : DecidablePred (CommandsFit clock d)
  | .check _ => inferInstanceAs (Decidable (d.pc = .check → NoSignal d.signalReceived →
      CycleTakes (fun part command => part = command) clock d.app (d.world.record .processed)))
  | .round _ | .signal _ => .isTrue trivial

theorem run_wire_first_command :
    ∃ serial serial', beforeCommand.serial = some serial ∧ afterCommand.serial = some serial' ∧
      serial.tbuf.contents ++
          (commandsOf (beforeCommand.world.since afterCommand.world)).flatten =
        sentOf serial.session (beforeCommand.world.since afterCommand.world) ++
          serial'.tbuf.contents := by
  have hbefore : beforeCommand.serial.isSome := by decide +kernel
  have hafter : afterCommand.serial.isSome := by decide +kernel
  rcases Option.isSome_iff_exists.mp hbefore with ⟨serial, hserial⟩
  rcases Option.isSome_iff_exists.mp hafter with ⟨serial', hserial'⟩
  have hopen : ∀ dev, beforeCommand.serial = some dev → iodevIsOpen dev := by decide +kernel
  have hopen' : ∀ dev, afterCommand.serial = some dev → iodevIsOpen dev ∧ dev.session = 1 := by
    decide +kernel
  have hsession : ∀ dev, beforeCommand.serial = some dev → dev.session = 1 := by decide +kernel
  refine ⟨serial, serial', hserial, hserial', ?_⟩
  exact (run_wire (fun _ => 0) 64 Daemon.oneAddress Daemon.firstConnection firstCommand serial
    serial' hserial (hopen serial hserial) hserial' (hopen' serial' hserial').1
    ((hopen' serial' hserial').2.trans (hsession serial hserial).symm)).2.2 (by decide +kernel)

end Hdmi2usbd
