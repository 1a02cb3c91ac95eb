import Hdmi2usbd.Lib.Hub
import Hdmi2usbd.Streams
import Hdmi2usbd.Wire

/-!
# Refinement — the daemon is a hub

What the daemon is for: a hub whose link is the serial device and whose ports are the accepted
connections. The log of every run, read as labels of the hub, is a trace of the hub, and its last
state is what the devices show (`run_refines`). So the books of the hub hold of the daemon over whole
runs, through failures, reopenings and reloads (`run_conveys`).
-/

namespace Hdmi2usbd

open Function (update)
open Hub (Act Port Role Trace)
open Machine (run)
open scoped List

/-! ## What the log shows of the hub -/

def Driver.role : Driver → Role
  | .serial => .link
  | .accepted => .port
  | .listen => .other

def Ev.hubAct : Ev → Option (Act Nat UInt8)
  | .opened driver session _ => some (.attach driver.role session)
  | .closed session _ => some (.detach session)
  | .received session bytes => some (.receive session bytes)
  | .sent session bytes _ => some (.send session bytes)
  | .moved bytes => some (.relay bytes)
  | .copied session bytes => some (.copy session bytes)
  | .handed session command _ _ => some (.command session command)
  | .reloaded => some .reset
  | .registered .. | .deref .. | .called .. | .signalled _ | .processed => none

/-- The labels of a log. -/
def hubActs (log : List Ev) : List (Act Nat UInt8) := log.filterMap Ev.hubAct

/-- A device as an end of the hub. The line buffer of a connection is part of what has come in. -/
def Iodev.port (dev : Iodev) : Port UInt8 where
  up := iodevIsOpen dev
  inbox := if dev.driver = .accepted then dev.stored else dev.rbuf.contents
  outbox := dev.tbuf.contents

/-- The steps of the hub that the daemon is. -/
abbrev HubStep : Hub.State Nat UInt8 → Option (Act Nat UInt8) → Hub.State Nat UInt8 → Prop :=
  Hub.Step (Lines.IsLine isEol)

abbrev HubTrace := Trace HubStep Hub.State.init

/-- The state of the hub that the devices show. -/
structure Shows (s : Hub.State Nat UInt8) (n : Net) : Prop where
  fresh : ∀ session, n.world.opens < session → s.role session = none
  link : ∀ serial, n.devs[0]? = some serial → s.link = serial.port ∧
    (serial.state.holds → s.key = some serial.session)
  ports : ∀ dev ∈ n.devs, dev.driver = .accepted → s.role dev.session = some .port ∧
    s.ports dev.session = dev.port
  others : ∀ dev ∈ n.devs, dev.driver = .listen → dev.state.holds →
    s.role dev.session = some .other

/-- The daemon has done what the hub does. -/
def Refines (n : Net) : Prop := ∃ s, HubTrace (hubActs n.world.log) s ∧ Shows s n

/-! ## One device -/

section Shows

variable {s s' : Hub.State Nat UInt8} {n : Net} {v : World} {index : Nat} {dev dev' : Iodev}

/-- A device changes, and the hub at the end that the device shows. -/
theorem Shows.set (h : Shows s n) (hseated : Seated n) (hget : n.devs[index]? = some dev)
    (hdriver : dev'.driver = dev.driver)
    (hfresh : ∀ session, v.opens < session → s'.role session = none)
    (hrole : ∀ k r, s.role k = some r → s'.role k = some r)
    (hlink : dev.driver ≠ .serial → s'.link = s.link ∧ s'.key = s.key)
    (hports : ∀ k, s.role k = some .port → (dev.driver = .accepted → k ≠ dev.session) →
      s'.ports k = s.ports k)
    (hserial : dev.driver = .serial →
      s'.link = dev'.port ∧ (dev'.state.holds → s'.key = some dev'.session))
    (haccepted : dev.driver = .accepted →
      dev'.session = dev.session ∧ s'.ports dev.session = dev'.port)
    (hlisten : dev.driver = .listen → dev'.state.holds → s'.role dev'.session = some .other) :
    Shows s' ⟨n.devs.set index dev', v⟩ := by
  constructor
  · exact hfresh
  · intro serial hs
    rcases Slots.getElem?_set_cases hs with ⟨rfl, rfl⟩ | ⟨hne, hold⟩
    · exact hserial ((hseated.devs 0 dev hget).serial.mp rfl)
    · have hnot : dev.driver ≠ .serial := by
        intro hd
        exact hne ((hseated.devs index dev hget).serial.mpr hd).symm
      rw [(hlink hnot).1, (hlink hnot).2]
      exact h.link serial hold
  · intro x hx hacc
    rcases List.mem_iff_getElem?.mp hx with ⟨j, hj⟩
    rcases Slots.getElem?_set_cases hj with ⟨rfl, rfl⟩ | ⟨hne, hold⟩
    · rw [hdriver] at hacc
      rcases haccepted hacc with ⟨hsession, hport⟩
      rw [hsession]
      exact ⟨hrole _ _ (h.ports dev (List.mem_of_getElem? hget) hacc).1, hport⟩
    · rcases h.ports x (List.mem_of_getElem? hold) hacc with ⟨hx, hport⟩
      refine ⟨hrole _ _ hx, (hports _ hx fun _ => ?_).trans hport⟩
      exact hseated.session_ne hne hold hget hacc
  · intro x hx hl hholds
    rcases List.mem_iff_getElem?.mp hx with ⟨j, hj⟩
    rcases Slots.getElem?_set_cases hj with ⟨rfl, rfl⟩ | ⟨-, hold⟩
    · rw [hdriver] at hl
      exact hlisten hl hholds
    · exact hrole _ _ (h.others x (List.mem_of_getElem? hold) hl hholds)

section Driver

variable (h : Shows s n) (hseated : Seated n)
  (hfresh : ∀ session, v.opens < session → s'.role session = none)
  (hrole : ∀ k r, s.role k = some r → s'.role k = some r)

include h hseated hfresh hrole

/-- The serial device changes, and the link. -/
theorem Shows.set_serial (hget : n.devs[0]? = some dev) (hdriver : dev'.driver = dev.driver)
    (hports : ∀ k, s.role k = some .port → s'.ports k = s.ports k) (hlink : s'.link = dev'.port)
    (hkey : dev'.state.holds → s'.key = some dev'.session) :
    Shows s' ⟨n.devs.set 0 dev', v⟩ := by
  have hd : dev.driver = .serial := (hseated.devs 0 dev hget).serial.mp rfl
  refine h.set hseated hget hdriver hfresh hrole (fun hne => absurd hd hne)
    (fun k hk _ => hports k hk) (fun _ => ⟨hlink, hkey⟩) ?_ ?_
  · intro hacc
    rw [hd] at hacc
    cases hacc
  · intro hl
    rw [hd] at hl
    cases hl

/-- A connection changes, and its port. -/
theorem Shows.set_accepted (hget : n.devs[index]? = some dev) (hdriver : dev'.driver = dev.driver)
    (hd : dev.driver = .accepted)
    (hlink : s'.link = s.link) (hkey : s'.key = s.key)
    (hports : ∀ k, k ≠ dev.session → s'.ports k = s.ports k)
    (hsession : dev'.session = dev.session) (hport : s'.ports dev.session = dev'.port) :
    Shows s' ⟨n.devs.set index dev', v⟩ := by
  refine h.set hseated hget hdriver hfresh hrole (fun _ => ⟨hlink, hkey⟩)
    (fun k _ hne => hports k (hne hd)) ?_ (fun _ => ⟨hsession, hport⟩) ?_
  · intro hserial
    rw [hd] at hserial
    cases hserial
  · intro hl
    rw [hd] at hl
    cases hl

/-- A listener changes. -/
theorem Shows.set_listen (hget : n.devs[index]? = some dev) (hdriver : dev'.driver = dev.driver)
    (hd : dev.driver = .listen)
    (hlink : s'.link = s.link) (hkey : s'.key = s.key) (hports : s'.ports = s.ports)
    (hlisten : dev'.state.holds → s'.role dev'.session = some .other) :
    Shows s' ⟨n.devs.set index dev', v⟩ := by
  refine h.set hseated hget hdriver hfresh hrole (fun _ => ⟨hlink, hkey⟩)
    (fun k _ _ => congrFun hports k) ?_ ?_ (fun _ => hlisten)
  · intro hserial
    rw [hd] at hserial
    cases hserial
  · intro hacc
    rw [hd] at hacc
    cases hacc

end Driver

/-- The end that a device shows stays as it is. -/
theorem Shows.still (h : Shows s n) (hseated : Seated n) (hget : n.devs[index]? = some dev)
    (hdriver : dev'.driver = dev.driver) (hsession : dev'.session = dev.session)
    (hport : dev'.port = dev.port) (hholds : dev'.state.holds → dev.state.holds)
    (hopens : n.world.opens ≤ v.opens) : Shows s ⟨n.devs.set index dev', v⟩ := by
  refine h.set hseated hget hdriver ?_ (fun _ _ => id) (fun _ => ⟨rfl, rfl⟩) (fun _ _ _ => rfl)
    ?_ ?_ ?_
  · intro session hlt
    exact h.fresh session (Nat.lt_of_le_of_lt hopens hlt)
  · intro hd
    have hindex : index = 0 := (hseated.devs index dev hget).serial.mpr hd
    subst hindex
    rcases h.link dev hget with ⟨hlink, hkey⟩
    rw [hport, hsession]
    exact ⟨hlink, fun hh => hkey (hholds hh)⟩
  · intro hacc
    rw [hport]
    exact ⟨hsession, (h.ports dev (List.mem_of_getElem? hget) hacc).2⟩
  · intro hl hh
    rw [hsession]
    exact h.others dev (List.mem_of_getElem? hget) hl (hholds hh)

/-- The world goes on, and the devices stay. -/
theorem Shows.of_world (h : Shows s n) (hopens : n.world.opens ≤ v.opens) :
    Shows s ⟨n.devs, v⟩ :=
  ⟨fun session hlt => h.fresh session (Nat.lt_of_le_of_lt hopens hlt), h.link, h.ports, h.others⟩

/-- What happens at the end that a device shows, the hub does. -/
theorem Shows.moves (h : Shows s n) (hseated : Seated n) (hget : n.devs[index]? = some dev)
    {a : Option (Act Nat UInt8)} (hend : dev.port.Step dev.session a dev'.port)
    (ha : a.isSome → dev.state.holds) (hdriver : dev'.driver = dev.driver)
    (hsession : dev'.session = dev.session) (hholds : dev'.state.holds → dev.state.holds)
    (hopens : v.opens = n.world.opens) :
    ∃ s', HubStep s a s' ∧ Shows s' ⟨n.devs.set index dev', v⟩ := by
  have hmem := List.mem_of_getElem? hget
  have hfresh : ∀ session, v.opens < session → s.role session = none := by
    rw [hopens]
    exact h.fresh
  cases hd : dev.driver with
  | serial =>
    have hindex : index = 0 := (hseated.devs index dev hget).serial.mpr hd
    subst hindex
    rcases h.link dev hget with ⟨hlink, hkey⟩
    refine ⟨{ s with link := dev'.port }, .link (fun hsome => hkey (ha hsome)) (hlink ▸ hend), ?_⟩
    refine h.set_serial hseated hfresh (fun _ _ => id) hget hdriver (fun _ _ => rfl) rfl
      fun hh => ?_
    rw [hsession]
    exact hkey (hholds hh)
  | accepted =>
    rcases h.ports dev hmem hd with ⟨hrole, hport⟩
    refine ⟨{ s with ports := update s.ports dev.session dev'.port }, .port hrole (hport ▸ hend), ?_⟩
    exact h.set_accepted hseated hfresh (fun _ _ => id) hget hdriver hd rfl rfl
      (fun _ hne => Function.update_of_ne hne ..) hsession (Function.update_self ..)
  | listen =>
    refine ⟨s, .other (fun hsome => h.others dev hmem hd (ha hsome)) hend, ?_⟩
    refine h.set_listen hseated hfresh (fun _ _ => id) hget hdriver hd rfl rfl rfl fun hh => ?_
    rw [hsession]
    exact h.others dev hmem hd (hholds hh)

section Opened

variable (h : Shows s n)

include h

/-- The next session is new to the hub. -/
theorem Shows.fresh_next : s.role (n.world.opens + 1) = none := h.fresh _ (Nat.lt_succ_self _)

theorem Shows.ne_next {k : Nat} {r : Role} (hk : s.role k = some r) : k ≠ n.world.opens + 1 := by
  rintro rfl
  rw [h.fresh_next] at hk
  cases hk

theorem Shows.fresh_update (r : Role) : ∀ session, n.world.opens + 1 < session →
    update s.role (n.world.opens + 1) (some r) session = none := by
  intro session hlt
  rw [Function.update_of_ne (by omega)]
  exact h.fresh session (by omega)

theorem Shows.role_update (r' : Role) : ∀ k r, s.role k = some r →
    update s.role (n.world.opens + 1) (some r') k = some r := by
  intro k r hk
  rw [Function.update_of_ne (h.ne_next hk)]
  exact hk

end Opened

end Shows

/-! ## Rounds -/

/-- An event and the step of the hub that it shows. -/
theorem Refines.snoc {n n' : Net} {s s' : Hub.State Nat UInt8}
    (htrace : HubTrace (hubActs n.world.log) s) {ev : Ev} (hlog : n'.world.log = n.world.log ++ [ev])
    (hstep : HubStep s ev.hubAct s') (hshows : Shows s' n') : Refines n' := by
  refine ⟨s', ?_, hshows⟩
  rw [hlog]
  exact htrace.snoc ev hstep

/-- Events that show nothing of the hub. -/
theorem Refines.quiet {n n' : Net} {s : Hub.State Nat UInt8}
    (htrace : HubTrace (hubActs n.world.log) s)
    (hlog : Adds (fun ev => ev.hubAct = none) n.world.log n'.world.log) (hshows : Shows s n') :
    Refines n' := by
  rcases hlog with ⟨evs, hlog, hevs⟩
  refine ⟨s, ?_, hshows⟩
  rw [hlog]
  exact htrace.quiet hevs

theorem Ev.IsNote.hubAct {ev : Ev} (h : ev.IsNote) : ev.hubAct = none := by
  cases ev with
  | registered | deref | called => rfl
  | _ => exact absurd h id

section Device

variable {n : Net} (h : Refines n) (hseated : Seated n) {index : Nat} {dev dev' : Iodev} {v : World}
  (hget : n.devs[index]? = some dev) (hdriver : dev'.driver = dev.driver)
  (hsession : dev'.session = dev.session) (hholds : dev'.state.holds → dev.state.holds)

include h hseated hget hdriver hsession hholds

/-- What a device does does not show at its end. -/
theorem Refines.still (hlog : Adds (fun ev => ev.hubAct = none) n.world.log v.log)
    (hport : dev'.port = dev.port) (hopens : n.world.opens ≤ v.opens) :
    Refines ⟨n.devs.set index dev', v⟩ := by
  rcases h with ⟨s, htrace, hs⟩
  exact Refines.quiet htrace hlog (hs.still hseated hget hdriver hsession hport hholds hopens)

/-- A device that holds a descriptor does what the event says. -/
theorem Refines.moves {ev : Ev} (hlog : v.log = n.world.log ++ [ev])
    (hend : dev.port.Step dev.session ev.hubAct dev'.port) (hheld : dev.state.holds)
    (hopens : v.opens = n.world.opens) : Refines ⟨n.devs.set index dev', v⟩ := by
  rcases h with ⟨s, htrace, hs⟩
  rcases hs.moves hseated hget hend (fun _ => hheld) hdriver hsession hholds hopens with
    ⟨s', hstep, hs'⟩
  exact Refines.snoc htrace hlog hstep hs'

end Device

/-- The device gets a descriptor, under a new session. -/
theorem Refines.opened {n : Net} (h : Refines n) (hseated : Seated n) {index : Nat} {dev : Iodev}
    (hget : n.devs[index]? = some dev) (hclosed : ¬ dev.state.holds) (hacc : dev.driver ≠ .accepted)
    (fd : Nat) (state : DevState) :
    Refines ⟨n.devs.set index (DevAct.apply (dev, n.world) (.opened fd state)).1,
      (DevAct.apply (dev, n.world) (.opened fd state)).2⟩ := by
  rcases h with ⟨s, htrace, hs⟩
  have hdown : ¬ iodevIsOpen dev := fun hopen => hclosed (holds_of_isOpen hopen)
  cases hd : dev.driver with
  | accepted => exact absurd hd hacc
  | serial =>
    -- the link is attached again, with what is queued
    have hindex : index = 0 := (hseated.devs index dev hget).serial.mpr hd
    subst hindex
    rcases hs.link dev hget with ⟨hlink, -⟩
    generalize hdev : (DevAct.apply (dev, n.world) (.opened fd state)).1 = dev'
    have hport : dev'.port = { s.link with up := iodevIsOpen dev' } := by
      rw [hlink, ← hdev]
      rfl
    have hstep : HubStep s (Ev.opened dev.driver (n.world.opens + 1) fd).hubAct { s with
        role := update s.role (n.world.opens + 1) (some .link)
        key := some (n.world.opens + 1)
        link := { s.link with up := iodevIsOpen dev' } } := by
      rw [hd]
      refine .plug _ hs.fresh_next ?_
      rw [hlink]
      exact Bool.eq_false_iff.mpr hdown
    refine Refines.snoc htrace rfl hstep (hs.set_serial hseated (hs.fresh_update .link)
      (hs.role_update .link) hget (by rw [← hdev]; rfl) (fun _ _ => rfl) hport.symm fun _ => ?_)
    rw [← hdev]
    rfl
  | listen =>
    have hstep : HubStep s (Ev.opened dev.driver (n.world.opens + 1) fd).hubAct
        { s with role := update s.role (n.world.opens + 1) (some .other) } := by
      rw [hd]
      exact .listen hs.fresh_next
    exact Refines.snoc htrace rfl hstep (hs.set_listen hseated (hs.fresh_update .other)
      (hs.role_update .other) hget rfl hd rfl rfl rfl fun _ => Function.update_self ..)

/-- A connection is accepted, in a slot that holds nothing. -/
theorem Refines.accept {n : Net} (h : Refines n) {fd bufsize : Nat}
    {slot : Option Nat} (hok : NetAct.Ok .any n (.accept fd bufsize slot)) :
    Refines (NetAct.apply n (.accept fd bufsize slot)) := by
  rcases h with ⟨s, htrace, hs⟩
  have hstep : HubStep s (Ev.opened .accepted (n.world.opens + 1) fd).hubAct { s with
      role := update s.role (n.world.opens + 1) (some .port)
      ports := update s.ports (n.world.opens + 1) ⟨true, [], []⟩
      due := update s.due (n.world.opens + 1) [] } := .join hs.fresh_next
  refine Refines.snoc htrace rfl hstep ⟨hs.fresh_update .port, ?_, ?_, ?_⟩
  · -- the serial device keeps its slot
    intro serial hserial
    exact hs.link serial ((getElem?_zero_accept hok).symm.trans hserial)
  · intro dev hdev hacc
    rcases mem_devs_accept hdev with rfl | hold
    · refine ⟨Function.update_self .., (Function.update_self ..).trans ?_⟩
      simp [Iodev.port, Iodev.stored, Iodev.lineContents, tcpCreateAccepted, tcpAccept, tcpCreate,
        iodevInit, iodevIsOpen]
      decide
    · rcases hs.ports dev hold hacc with ⟨hrole, hport⟩
      exact ⟨hs.role_update .port _ _ hrole,
        (Function.update_of_ne (hs.ne_next hrole) ..).trans hport⟩
  · intro dev hdev hl hholds
    rcases mem_devs_accept hdev with rfl | hold
    · cases hl
    · exact hs.role_update .port _ _ (hs.others dev hold hl hholds)

/-- The end that a closed device shows. -/
theorem port_of_closed {dev dev' : Iodev} (hclosed : ¬ iodevIsOpen dev)
    (hclosed' : iodevIsOpen dev' = false) (hdriver : dev'.driver = dev.driver)
    (hrbuf : dev'.rbuf = dev.rbuf) (htbuf : dev'.tbuf = dev.tbuf)
    (hlinebuf : dev'.linebuf = dev.linebuf) : dev'.port = dev.port := by
  rw [Iodev.port, Iodev.port, hclosed', Bool.eq_false_iff.mpr hclosed, hdriver, Iodev.stored,
    Iodev.stored, Iodev.lineContents, Iodev.lineContents, hrbuf, htbuf, hlinebuf]

theorem port_dropped {dev : Iodev} (hclosed : ¬ iodevIsOpen dev) (k : Nat) :
    dev.port.Step k none (flushBuffers dev).port := by
  -- what is in the line buffer stays
  have hport : (flushBuffers dev).port =
      { dev.port with inbox := (flushBuffers dev).port.inbox, outbox := [] } := by
    simp [Iodev.port, flushBuffers, iodevIsOpen]
  have hin : dev.port.inbox = (flushBuffers dev).port.inbox ++ dev.rbuf.contents := by
    by_cases hacc : dev.driver = .accepted
    · simp [Iodev.port, hacc, Iodev.stored, flushBuffers, Iodev.lineContents]
    · simp [Iodev.port, hacc, flushBuffers]
  rw [hport]
  exact .drop (Bool.eq_false_iff.mpr hclosed) hin

theorem port_received {dev : Iodev} (hopen : iodevIsOpen dev) {bytes : List UInt8}
    (hroom : bytes.length ≤ dev.rbuf.available) :
    dev.port.Step dev.session (Ev.received dev.session bytes).hubAct
      ({ dev with rbuf := (dev.rbuf.put bytes).2 } : Iodev).port := by
  have hport : ({ dev with rbuf := (dev.rbuf.put bytes).2 } : Iodev).port =
      { dev.port with inbox := dev.port.inbox ++ bytes } := by
    by_cases hacc : dev.driver = .accepted
    · simp [Iodev.port, hacc, Iodev.stored, Iodev.lineContents, List.take_of_length_le hroom,
        iodevIsOpen]
    · simp [Iodev.port, hacc, List.take_of_length_le hroom, iodevIsOpen]
  rw [hport]
  exact .receive bytes hopen

/-- A close detaches. -/
theorem port_released (dev : Iodev) : dev.port.Step dev.session
    (Ev.closed dev.session dev.fd).hubAct dev.released.port := by
  have hdown : iodevIsOpen dev.released = false := Bool.eq_false_iff.mpr fun hopen =>
    dev.released_not_holds (holds_of_isOpen hopen)
  have hport : dev.released.port = { dev.port with up := false } := by
    rw [Iodev.port, hdown]
    rfl
  rw [hport]
  exact .detach

/-- What a write takes was queued. -/
theorem port_sent {dev : Iodev} (hopen : iodevIsOpen dev) {k : Nat} {w : World} {r : Iodev × World}
    (hsent : Sent dev k w r) (tick : Nat) : dev.port.Step dev.session
      (Ev.sent dev.session (dev.tbuf.contents.take k) tick).hubAct r.1.port := by
  rcases hsent.body with ⟨pacer, hbody⟩
  have hport : r.1.port = { dev.port with outbox := dev.tbuf.contents.drop k } := by
    rw [hbody]
    simp [Iodev.port, Iodev.stored, Iodev.lineContents, iodevIsOpen]
  rw [hport]
  exact .send hopen (List.take_append_drop k _).symm

/-- Any action but a write. -/
theorem netAct_refines {n : Net} {a : NetAct} (h : Refines n) (hseated : Seated n)
    (hok : a.Ok .any n) (hsends : ¬ a.Sends) : Refines (a.apply n) := by
  cases a with
  | lost index a =>
    rcases netAct_lost hok with ⟨dev, w, ev, hget, hlisten, heq, hopens, -, hlog, hev⟩
    rcases hev with ⟨rfl, hholds, rfl⟩ | ⟨k, rfl, -⟩
    · -- the hub has no end for a listener
      rcases h with ⟨s, htrace, hs⟩
      have hrole := hs.others dev (List.mem_of_getElem? hget) hlisten hholds
      rw [heq]
      exact Refines.snoc htrace hlog (.other (fun _ => hrole) (port_released dev))
        (hs.of_world (Nat.le_of_eq hopens.symm))
    · exact absurd trivial hsends
  | note ev =>
    rcases h with ⟨s, htrace, hs⟩
    exact Refines.quiet htrace (Adds.single (Ev.IsNote.hubAct hok) _) (hs.of_world le_rfl)
  | accept fd bufsize slot => exact h.accept hok
  | device index a =>
    rcases hok with ⟨dev, hget, hok⟩
    simp only [NetAct.apply, hget]
    have hclosed : ¬ dev.state.holds → ¬ iodevIsOpen dev := fun h hopen => h (holds_of_isOpen hopen)
    cases a with
    | sent k => exact absurd trivial hsends
    | opened fd state => exact h.opened hseated hget hok.1 hok.2.1 fd state
    | tick | pace pacer => exact h.still hseated hget rfl rfl id (Adds.refl _) rfl le_rfl
    | note ev =>
      exact h.still hseated hget rfl rfl id (Adds.single (Ev.IsNote.hubAct hok) _) rfl le_rfl
    | refused =>
      exact h.still hseated hget rfl rfl (fun hholds => by cases hholds) (Adds.refl _)
        (port_of_closed (hclosed hok.1) rfl rfl rfl rfl rfl) le_rfl
    | retired =>
      have hnot : ¬ dev.state.holds := by
        rw [hok.1]
        decide
      exact h.still hseated hget rfl rfl (fun hholds => by cases hholds) (Adds.refl _)
        (port_of_closed (hclosed hnot) rfl rfl rfl rfl rfl) le_rfl
    | released =>
      exact h.moves hseated hget rfl rfl (fun _ => hok) rfl (port_released dev) hok rfl
    | dropped =>
      rcases h with ⟨s, htrace, hs⟩
      rcases hs.moves (v := n.world) hseated hget (port_dropped hok.1 dev.session)
        (fun hsome => by cases hsome) rfl rfl id rfl with ⟨s', hstep, hs'⟩
      refine ⟨s', ?_, hs'⟩
      have htrace' := htrace.step hstep
      rwa [Option.toList_none, List.append_nil] at htrace'
    | received bytes =>
      exact h.moves hseated hget rfl rfl id rfl (port_received hok.1 hok.2)
        (holds_of_isOpen hok.1) rfl

theorem refines_loop : LoopKeeps True Refines := by
  constructor
  · rintro n a h hseated - hok hsends
    exact netAct_refines h hseated hok hsends
  · rintro n w index k dev r ⟨s, htrace, hs⟩ hseated - hget hopen hnote - hopens hsent
    rcases hsent.log with ⟨tick, hlog⟩
    have hquiet := hnote.mono fun ev hev => Ev.IsNote.hubAct hev
    have hdriver : r.1.driver = dev.driver ∧ r.1.session = dev.session ∧ r.1.state = dev.state := by
      rcases hsent.body with ⟨pacer, hbody⟩
      rw [hbody]
      exact ⟨rfl, rfl, rfl⟩
    rcases hs.moves (v := r.2) hseated hget (port_sent hopen hsent tick)
      (fun _ => holds_of_isOpen hopen) hdriver.1 hdriver.2.1 (by rw [hdriver.2.2]; exact id)
      (hsent.opens.trans hopens) with ⟨s', hstep, hs'⟩
    rcases hquiet with ⟨evs, hevs, hnone⟩
    refine ⟨s', ?_, hs'⟩
    rw [hlog, hevs]
    exact (htrace.quiet hnone).snoc _ hstep

/-! ## Cycles -/

/-- In the loop of a cycle at `index`: the chunk of the cycle is still due to the connections from
there on. -/
def InCycle (sBytes index : Nat) (s : ProcessState) : Prop :=
  ∃ hub, HubTrace (hubActs s.world.log) hub ∧ Shows hub (netOf s.app.selector s.world) ∧
    (sBytes ≠ 0 → ∀ j dev, index ≤ j → s.app.selector.toList[j]? = some dev →
      dev.driver = .accepted → hub.due dev.session = s.app.copy.contents)

/-- Nothing changes but at a port and in the queues of the link. -/
structure SameBut (k : Nat) (s s' : Hub.State Nat UInt8) : Prop where
  role : s'.role = s.role
  key : s'.key = s.key
  ports : ∀ j, j ≠ k → s'.ports j = s.ports j
  due : ∀ j, j ≠ k → s'.due j = s.due j

theorem SameBut.trans {k : Nat} {s s' s'' : Hub.State Nat UInt8} (h : SameBut k s s')
    (h' : SameBut k s' s'') : SameBut k s s'' :=
  ⟨h'.role.trans h.role, h'.key.trans h.key, fun j hj => (h'.ports j hj).trans (h.ports j hj),
    fun j hj => (h'.due j hj).trans (h.due j hj)⟩

section Turn

variable {clock : Nat → UTime} {sBytes index : Nat} {s : ProcessState}
  {serial dev serial' dev' : Iodev} {copied handed : List Ev} {hub : Hub.State Nat UInt8}

/-- What a turn copies, the hub copies to the port. -/
theorem Turn.copy (hturn : Turn clock sBytes s index serial dev serial' dev' copied handed)
    (htrace : HubTrace (hubActs s.world.log) hub) (hrole : hub.role dev.session = some .port)
    (hport : hub.ports dev.session = dev.port)
    (hdue : sBytes ≠ 0 → hub.due dev.session = s.app.copy.contents) :
    ∃ hub', HubTrace (hubActs (s.world.log ++ copied)) hub' ∧ SameBut dev.session hub hub' ∧
      hub'.link = hub.link ∧
      hub'.ports dev.session = { dev.port with outbox := dev'.tbuf.contents } := by
  rcases hturn.copies with ⟨part, htbuf, hcopied | ⟨rfl, rfl⟩⟩
  · rcases hturn.chunk part hcopied with ⟨hne, lost, hchunk⟩
    have hstep : HubStep hub (Ev.copied dev.session part).hubAct { hub with
        ports := update hub.ports dev.session
          { hub.ports dev.session with outbox := (hub.ports dev.session).outbox ++ part }
        due := update hub.due dev.session [] } := .copy hrole ((hdue hne).trans hchunk.symm)
    have htrace' := htrace.snoc _ hstep
    rw [← hcopied] at htrace'
    refine ⟨_, htrace', ⟨rfl, rfl, fun j hj => Function.update_of_ne hj ..,
      fun j hj => Function.update_of_ne hj ..⟩, rfl, (Function.update_self ..).trans ?_⟩
    rw [hport, htbuf]
    rfl
  · refine ⟨hub, by rwa [List.append_nil], ⟨rfl, rfl, fun _ _ => rfl, fun _ _ => rfl⟩, rfl, ?_⟩
    rw [hport, htbuf, List.append_nil]
    rfl

/-- The line that a turn hands on, the hub hands to the link. -/
theorem Turn.command (hturn : Turn clock sBytes s index serial dev serial' dev' copied handed)
    (hacc : dev.driver = .accepted)
    {log : List Ev} (htrace : HubTrace (hubActs log) hub)
    (hrole : hub.role dev.session = some .port)
    (hport : hub.ports dev.session = { dev.port with outbox := dev'.tbuf.contents })
    (hlink : hub.link = serial.port) :
    ∃ hub', HubTrace (hubActs (log ++ handed)) hub' ∧ SameBut dev.session hub hub' ∧
      hub'.link = serial'.port ∧ hub'.ports dev.session = dev'.port := by
  have hport' : dev'.port =
      { dev.port with inbox := dev'.stored, outbox := dev'.tbuf.contents } := by
    simp [Iodev.port, hturn.isOpen, hturn.driver, hacc]
  have hin : dev.port.inbox = dev.stored := by simp [Iodev.port, hacc]
  rcases hturn.hands with ⟨rfl, rfl, hstored, -⟩ | ⟨line, pass, reset, rfl, hserial, -, -, hnext⟩
  · refine ⟨hub, by rwa [List.append_nil], ⟨rfl, rfl, fun _ _ => rfl, fun _ _ => rfl⟩, hlink, ?_⟩
    rw [hport, hport', hstored, ← hin]
  · rcases Lines.next_spec hnext with ⟨hline, hcat⟩
    -- the part of the line that found room
    have hroom : ∃ items lost, line = items ++ lost ∧ (iodevIsOpen serial = false → items = []) ∧
        serial'.port = { serial.port with outbox := serial.port.outbox ++ items } := by
      by_cases hopen : iodevIsOpen serial
      · refine ⟨line.take serial.tbuf.available, line.drop serial.tbuf.available,
          (List.take_append_drop _ _).symm, fun h => by simp [hopen] at h, ?_⟩
        have htbuf := iodevWrite_tbuf hopen line
        rcases hturn.serial_body with ⟨tbuf, hbody⟩
        rw [← hserial, hbody] at htbuf
        rw [hbody]
        simpa [Iodev.port, Iodev.stored, Iodev.lineContents, iodevIsOpen] using htbuf
      · refine ⟨[], line, rfl, fun _ => rfl, ?_⟩
        rw [hserial, iodevWrite_closed hopen, List.append_nil]
    rcases hroom with ⟨items, lost, hfits, hdown, hserial'⟩
    have hstep : HubStep hub (Ev.handed dev.session line pass reset).hubAct { hub with
        link := { hub.link with outbox := hub.link.outbox ++ items }
        ports := update hub.ports dev.session
          { hub.ports dev.session with inbox := dev'.stored } } := by
      refine .command hrole ?_ hline hfits ?_
      · rw [hport]
        exact hin.trans hcat
      · rw [hlink]
        exact hdown
    refine ⟨_, htrace.snoc _ hstep,
      ⟨rfl, rfl, fun j hj => Function.update_of_ne hj .., fun _ _ => rfl⟩, ?_,
      (Function.update_self ..).trans ?_⟩
    · rw [hserial', hlink]
    · rw [hport, hport']

/-- The devices after a turn show the hub after it. -/
theorem Shows.turn (h : Shows hub (netOf s.app.selector s.world))
    (hseated : Seated (netOf s.app.selector s.world)) (hpos : 1 ≤ index)
    (hs : s.app.selector.toList[0]? = some serial) (hd : s.app.selector.toList[index]? = some dev)
    (hacc : dev.driver = .accepted)
    (hturn : Turn clock sBytes s index serial dev serial' dev' copied handed)
    {hub' : Hub.State Nat UInt8} (hsame : SameBut dev.session hub hub')
    (hlink : hub'.link = serial'.port) (hport : hub'.ports dev.session = dev'.port) :
    Shows hub' (netOf (processStep clock sBytes s index).app.selector
      (processStep clock sBytes s index).world) := by
  have hserial : serial.driver = .serial := (hseated.devs 0 serial hs).serial.mp rfl
  rcases hturn.serial_body with ⟨tbuf, hbody⟩
  have hopens : (processStep clock sBytes s index).world.opens = s.world.opens :=
    (processStep_shell clock sBytes s hpos).opens
  -- first the serial device, and then the connection
  have hfirst : Shows { hub with link := serial'.port }
      ⟨s.app.selector.toList.set 0 serial', s.world⟩ := by
    refine h.set_serial hseated h.fresh (fun _ _ => id) hs (by rw [hbody]) (fun _ _ => rfl) rfl ?_
    rw [hbody]
    exact (h.link serial hs).2
  have hseated' : Seated ⟨s.app.selector.toList.set 0 serial', s.world⟩ := by
    rw [hbody]
    exact hseated.buffers hs serial.rbuf tbuf serial.linebuf (by simp [hserial])
  have hslot : (s.app.selector.toList.set 0 serial')[index]? = some dev := by
    rw [List.getElem?_set_ne (by omega)]
    exact hd
  rw [netOf, hturn.devs]
  refine hfirst.set_accepted hseated' ?_ ?_ hslot hturn.driver hacc hlink hsame.key hsame.ports
    hturn.session hport
  · rw [hopens, hsame.role]
    exact h.fresh
  · rw [hsame.role]
    exact fun _ _ => id

theorem processStep_refines (h : InCycle sBytes index s)
    (hseated : Seated (netOf s.app.selector s.world)) (hpos : 1 ≤ index) :
    InCycle sBytes (index + 1) (processStep clock sBytes s index) := by
  rcases h with ⟨hub, htrace, hs, hdue⟩
  rcases processStep_cases clock sBytes s index with
    ⟨happ, hw, -⟩ | ⟨serial, dev, hserial, hdev, hconn⟩
  · refine ⟨hub, by rwa [hw], by rwa [happ, hw], fun hne j dev hj hget => ?_⟩
    rw [happ] at hget ⊢
    exact hdue hne j dev (by omega) hget
  · have hacc := hseated.connection hpos hdev hconn
    rcases processStep_turn clock sBytes hserial hdev hconn with
      ⟨serial', dev', copied, handed, hturn⟩
    rcases hs.ports dev (List.mem_of_getElem? hdev) hacc with ⟨hrole, hport⟩
    rcases hturn.copy htrace hrole hport (fun hne => hdue hne index dev le_rfl hdev hacc) with
      ⟨hub₁, htrace₁, hsame₁, hlink₁, hport₁⟩
    rcases hturn.command hacc htrace₁ (by rwa [hsame₁.role]) hport₁
      (hlink₁.trans (hs.link serial hserial).1) with ⟨hub₂, htrace₂, hsame₂, hlink₂, hport₂⟩
    have hsame := hsame₁.trans hsame₂
    refine ⟨hub₂, ?_, hs.turn hseated hpos hserial hdev hacc hturn hsame hlink₂ hport₂, ?_⟩
    · rwa [hturn.log, ← List.append_assoc]
    · -- the connections behind this one wait for the chunk still
      intro hne j x hj hget haccx
      have hold : s.app.selector.toList[j]? = some x := by
        rw [hturn.devs, List.getElem?_set_ne (by omega), List.getElem?_set_ne (by omega)] at hget
        exact hget
      rw [processStep_copy, hsame.due x.session (hseated.session_ne (by omega) hold hdev haccx)]
      exact hdue hne j x (by omega) hold haccx

end Turn

/-- Nothing is moved, or the serial device is open and what is moved gets into the copy buffer. -/
theorem processSerialData_cases (copy : RingBuffer) (serial : Iodev) (w : World) :
    hdmi2usbProcessSerialData copy serial w = (0, copy, serial, w) ∨
    iodevIsOpen serial ∧ ∃ n copy' rbuf bytes, hdmi2usbProcessSerialData copy serial w =
        (n, copy', { serial with rbuf := rbuf }, w.record (.moved bytes)) ∧
      serial.rbuf.contents = bytes ++ rbuf.contents ∧ copy'.contents = copy.contents ++ bytes := by
  unfold hdmi2usbProcessSerialData
  by_cases hopen : iodevIsOpen serial
  · by_cases hused : serial.rbuf.used = 0
    · exact .inl (by simp [hopen, hused])
    · refine .inr ⟨hopen, (copy.copymove serial.rbuf true serial.rbuf.used).1,
        (copy.copymove serial.rbuf true serial.rbuf.used).2.1,
        (copy.copymove serial.rbuf true serial.rbuf.used).2.2,
        serial.rbuf.contents.take (copy.copymove serial.rbuf true serial.rbuf.used).1, ?_, ?_, ?_⟩
      · simp [hopen, hused]
      · simp
      · simp
  · exact .inl (by simp [hopen])

/-- The chunk of a cycle is relayed. -/
theorem processSerialData_refines {app : Hdmi2usb} {w : World} {serial : Iodev}
    (h : Refines (netOf app.selector w)) (hseated : Seated (netOf app.selector w))
    (hempty : app.copy.contents = []) (hs : app.selector.toList[0]? = some serial) :
    InCycle (hdmi2usbProcessSerialData app.copy serial w).1 1
      ⟨{ app with
          selector := app.selector.store 0 (hdmi2usbProcessSerialData app.copy serial w).2.2.1
          copy := (hdmi2usbProcessSerialData app.copy serial w).2.1 },
        (hdmi2usbProcessSerialData app.copy serial w).2.2.2, 0, 0⟩ := by
  rcases h with ⟨hub, htrace, hshows⟩
  have hserial : serial.driver = .serial := (hseated.devs 0 serial hs).serial.mp rfl
  rcases hshows.link serial hs with ⟨hlink, hkey⟩
  rcases processSerialData_cases app.copy serial w with
    heq | ⟨hopen, n, copy', rbuf, bytes, heq, hmoved, hcopy⟩
  · rw [heq]
    refine ⟨hub, htrace, ?_, fun hne => absurd rfl hne⟩
    rw [netOf, Selector.store_toList]
    exact hshows.still hseated hs rfl rfl rfl id le_rfl
  · rw [heq]
    have hin : hub.link.inbox = bytes ++ rbuf.contents := by
      rw [hlink, ← hmoved]
      simp [Iodev.port, hserial]
    have hstep : HubStep hub (Ev.moved bytes).hubAct { hub with
        link := { hub.link with inbox := rbuf.contents }
        due := fun _ => bytes } := .relay (by rw [hlink]; exact hopen) hin
    refine ⟨_, htrace.snoc _ hstep, ?_, fun _ j dev _ _ _ => ?_⟩
    · rw [netOf, Selector.store_toList]
      refine hshows.set_serial hseated hshows.fresh (fun _ _ => id) hs rfl (fun _ _ => rfl) ?_ hkey
      rw [hlink]
      simp [Iodev.port, hserial, iodevIsOpen]
    · rw [hcopy, hempty, List.nil_append]

variable (clock : Nat → UTime)

theorem hdmi2usbProcess_refines {app : Hdmi2usb} {w : World} (h : Refines (netOf app.selector w))
    (hseated : Seated (netOf app.selector w)) (hempty : app.copy.contents = []) (rc : Int) :
    Refines (netOf (hdmi2usbProcess clock app rc w).2.1.selector
      (hdmi2usbProcess clock app rc w).2.2) := by
  rcases hdmi2usbProcess_cases clock app rc w with ⟨happ, hw, -⟩ |
    ⟨serial, hs, -, final, hfinal, happ, hw⟩
  · rwa [happ, hw]
  · have hrun := Machine.run_range'
      (fun index s => InCycle (hdmi2usbProcessSerialData app.copy serial w).1 index s ∧
        Seated (netOf s.app.selector s.world))
      (fun index s hpos hs => ⟨processStep_refines hs.1 hs.2 hpos,
        processStep_seated clock _ hs.2 hpos⟩)
      ⟨processSerialData_refines h hseated hempty hs, processSerialData_seated hseated app.copy hs⟩
      (selectorDeviceCount app.selector - 1)
    rw [← hfinal] at hrun
    rcases hrun.1 with ⟨hub, htrace, hshows, -⟩
    rw [happ, hw]
    exact ⟨hub, htrace, hshows⟩

/-! ## Runs -/

theorem Refines.mark {sel : Selector} {w : World} (h : Refines (netOf sel w)) (ev : Ev)
    (hev : ev.isMark = true) : Refines (netOf sel (w.record ev)) := by
  rcases h with ⟨s, htrace, hs⟩
  cases ev with
  | signalled | processed =>
    exact Refines.quiet htrace ⟨[_], rfl, by simp [Ev.hubAct]⟩ (hs.of_world le_rfl)
  | reloaded => exact Refines.snoc htrace rfl .crash (hs.of_world le_rfl)
  | _ => cases hev

/-- Fresh devices show a hub to which nothing is attached. -/
theorem shows_initial {s : Hub.State Nat UInt8} {n : Net} (hdevs : InitialDevices n.devs)
    (hunsent : ∀ dev ∈ n.devs, dev.tbuf.contents = [])
    (hfresh : ∀ session, n.world.opens < session → s.role session = none)
    (hlink : s.link = .blank) : Shows s n := by
  have hnot : ∀ dev ∈ n.devs, ¬ dev.state.holds := by
    intro dev hdev
    rw [(hdevs.1 dev hdev).state]
    decide
  refine ⟨hfresh, ?_, ?_, fun dev hdev _ hholds => absurd hholds (hnot dev hdev)⟩
  · intro serial hserial
    have hmem := List.mem_of_getElem? hserial
    have hnew := hdevs.1 serial hmem
    refine ⟨?_, fun hholds => absurd hholds (hnot serial hmem)⟩
    have hdown : iodevIsOpen serial = false := Bool.eq_false_iff.mpr fun hopen =>
      hnot serial hmem (holds_of_isOpen hopen)
    rw [hlink, Iodev.port, hdown, if_neg hnew.driver, hnew.rbuf, hunsent serial hmem]
    rfl
  · intro dev hdev hacc
    exact absurd hacc (hdevs.1 dev hdev).driver

theorem hdmi2usbInit_unsent {a : InitAnswers} {app app' : Hdmi2usb} {rc rc' : Int} {w w' : World}
    (hinit : hdmi2usbInit clock a app rc w = some (rc', app', w')) :
    ∀ dev ∈ app'.selector.toList, dev.tbuf.contents = [] :=
  hdmi2usbInit_each clock (P := fun dev => dev.tbuf.contents = []) (RingBuffer.init_contents _)
    (fun _ => RingBuffer.init_contents _) hinit

theorem step_refines {d : Daemon} (horderly : Orderly 0 d) (hempty : d.app.copy.contents = [])
    (h : Refines (netOf d.app.selector d.world)) (i : Input) :
    Refines (netOf (d.step clock i).app.selector (d.step clock i).world) := by
  refine d.step_keeps clock (I := fun app w => Refines (netOf app.selector w)) h
    (fun _ hev => h.mark _ hev) (fun a _ _ => refines_loop.round h horderly (.inl trivial)) ?_
    (hdmi2usbProcess_refines clock (h.mark _ rfl) (horderly.seated.mark rfl) hempty 0)
  intro a rc app w hinit
  rcases hdmi2usbInit_spec hinit with ⟨hdevs, -, -, -, -, hopens, hlog⟩
  rcases h with ⟨s, htrace, hs⟩
  refine Refines.snoc htrace hlog .reset (shows_initial hdevs (hdmi2usbInit_unsent clock hinit)
    ?_ rfl)
  intro session hlt
  have hlt' : w.opens < session := hlt
  rw [hopens] at hlt'
  exact hs.fresh session hlt'

theorem start_refines (iobufsize : Nat) (a : InitAnswers) :
    Refines (netOf (Daemon.start clock iobufsize a).app.selector
      (Daemon.start clock iobufsize a).world) := by
  rcases Daemon.start_spec clock iobufsize a with ⟨hdevs, -, -, -, hlog, -⟩
  have hunsent : ∀ dev ∈ (Daemon.start clock iobufsize a).app.selector.toList,
      dev.tbuf.contents = [] := (start_each (P := fun dev => dev.tbuf.contents = [])
    (fun _ => RingBuffer.init_contents _) (fun _ => RingBuffer.init_contents _) a).1
  refine ⟨.init, ?_, shows_initial hdevs hunsent (fun _ _ => rfl) rfl⟩
  rw [netOf, hlog]
  exact .nil

theorem run_refined (iobufsize : Nat) (a : InitAnswers) (inputs : List Input) :
    Refines (netOf (run (Daemon.step clock) (Daemon.start clock iobufsize a) inputs).app.selector
      (run (Daemon.step clock) (Daemon.start clock iobufsize a) inputs).world) :=
  (Machine.run_invariant
    (fun d : Daemon => Orderly 0 d ∧ CycleReady d ∧ Refines (netOf d.app.selector d.world))
    (fun d i h => ⟨h.1.step clock i, step_cycleReady clock d i h.2.1,
      step_refines clock h.1 h.2.1.2 h.2.2 i⟩)
    ⟨start_orderly clock (Nat.zero_le _) a,
      ⟨start_seated clock iobufsize a, (Daemon.start_spec clock iobufsize a).2.1⟩,
      start_refines clock iobufsize a⟩ inputs).2.2

/-- The daemon is a hub: the log of every run is a trace of the hub, to a state in which the link is
what the serial device holds and the ports are what the connections hold. -/
theorem run_refines (iobufsize : Nat) (a : InitAnswers) (inputs : List Input) :
    let d := run (Daemon.step clock) (Daemon.start clock iobufsize a) inputs
    ∃ s, HubTrace (hubActs d.world.log) s ∧ Shows s (netOf d.app.selector d.world) :=
  run_refined clock iobufsize a inputs

/-! ## What the hub says of a log -/

/-- The sessions of the devices of a kind. -/
def sessionsOf (driver : Driver) (log : List Ev) : List Nat :=
  log.filterMap fun
    | .opened d session _ => if d = driver then some session else none
    | _ => none

/-- The bytes that `read` has returned in the sessions, in order. -/
def receivedIn (sessions : List Nat) (log : List Ev) : List UInt8 :=
  log.flatMap fun
    | .received session bytes => if session ∈ sessions then bytes else []
    | _ => []

/-- The bytes that `write` has taken in the sessions, in order. -/
def sentIn (sessions : List Nat) (log : List Ev) : List UInt8 :=
  log.flatMap fun
    | .sent session bytes _ => if session ∈ sessions then bytes else []
    | _ => []

/-- What has been logged since the session was opened. -/
def sinceOpened (session : Nat) (log : List Ev) : List Ev :=
  log.dropWhile fun
    | .opened _ s _ => s ≠ session
    | _ => true

section Reading

variable (log : List Ev)

/-- A reading of the labels is one of the events. -/
theorem hubActs_flatMap {g : Act Nat UInt8 → List UInt8} {f : Ev → List UInt8}
    (h : ∀ ev, f ev = ev.hubAct.elim [] g) : (hubActs log).flatMap g = log.flatMap f := by
  induction log with
  | nil => rfl
  | cons ev log ih =>
    rw [List.flatMap_cons, h, ← ih, hubActs, List.filterMap_cons]
    cases ev.hubAct with
    | none => rfl
    | some act => rfl

theorem relayed_hubActs : Hub.relayed (hubActs log) = movedOf log := by
  refine hubActs_flatMap log fun ev => ?_
  cases ev <;> rfl

theorem received_hubActs (sessions : List Nat) :
    Hub.received sessions (hubActs log) = receivedIn sessions log := by
  refine hubActs_flatMap log fun ev => ?_
  cases ev <;> rfl

theorem sent_hubActs (sessions : List Nat) :
    Hub.sent sessions (hubActs log) = sentIn sessions log := by
  refine hubActs_flatMap log fun ev => ?_
  cases ev <;> rfl

theorem sentIn_singleton (session : Nat) : sentIn [session] log = sentOf session log := by
  refine List.flatMap_congr fun ev _ => ?_
  cases ev with
  | sent => simp
  | _ => rfl

theorem receivedIn_singleton (session : Nat) : receivedIn [session] log = receivedOf session log := by
  refine List.flatMap_congr fun ev _ => ?_
  cases ev with
  | received => simp
  | _ => rfl

theorem commandsFrom_hubActs (session : Nat) :
    Hub.commandsFrom session (hubActs log) = handedOf session log := by
  rw [Hub.commandsFrom, hubActs, List.filterMap_filterMap]
  refine List.filterMap_congr fun ev _ => ?_
  cases ev <;> rfl

theorem commands_hubActs : Hub.commands (hubActs log) = commandsOf log := by
  rw [Hub.commands, hubActs, List.filterMap_filterMap]
  refine List.filterMap_congr fun ev _ => ?_
  cases ev <;> rfl

theorem keysOf_hubActs (driver : Driver) :
    Hub.keysOf driver.role (hubActs log) = sessionsOf driver log := by
  rw [Hub.keysOf, hubActs, List.filterMap_filterMap]
  refine List.filterMap_congr fun ev _ => ?_
  cases ev with
  | opened d session fd => cases d <;> cases driver <;> rfl
  | _ => rfl

theorem since_hubActs (session : Nat) :
    Hub.since session (hubActs log) = hubActs (sinceOpened session log) := by
  induction log with
  | nil => rfl
  | cons ev log ih =>
    cases ev with
    | opened d s fd =>
      by_cases hs : s = session
      · subst hs
        simp [Hub.since, sinceOpened, hubActs, Ev.hubAct]
      · simpa [Hub.since, sinceOpened, hubActs, Ev.hubAct, hs] using ih
    | _ => exact ih

end Reading

/-- In every run, through failures, reopenings and reloads: what is relayed was read from the serial
device, and what is written to a connection was relayed since it was accepted; what is handed on are
lines of accepted connections, as they were read, and what is written to the serial device is made of
them. All of it in order, and nothing twice. -/
theorem run_conveys (iobufsize : Nat) (a : InitAnswers) (inputs : List Input) :
    let log := (run (Daemon.step clock) (Daemon.start clock iobufsize a) inputs).world.log
    movedOf log <+ receivedIn (sessionsOf .serial log) log ∧
    (∀ session ∈ sessionsOf .accepted log,
      sentOf session log <+ movedOf (sinceOpened session log) ∧
      (handedOf session log).flatten <+: receivedOf session log) ∧
    (∀ session line pass reset, .handed session line pass reset ∈ log →
      session ∈ sessionsOf .accepted log ∧ Lines.IsLine isEol line) ∧
    sentIn (sessionsOf .serial log) log <+ (commandsOf log).flatten := by
  intro log
  rcases run_refined clock iobufsize a inputs with ⟨s, htrace, -⟩
  have hbooks : Hub.Books (Lines.IsLine isEol) (hubActs log) s := htrace.books
  have hport : ∀ session, .attach .port session ∈ hubActs log ↔
      session ∈ sessionsOf .accepted log := by
    intro session
    rw [← Hub.mem_keysOf, ← keysOf_hubActs]
    rfl
  have hlink : Hub.keysOf .link (hubActs log) = sessionsOf .serial log := keysOf_hubActs log .serial
  refine ⟨?_, ?_, ?_, ?_⟩
  · have hup := (List.sublist_append_left _ _).trans hbooks.linked.up
    rwa [relayed_hubActs, received_hubActs, hlink] at hup
  · intro session hsession
    have hported := hbooks.ported session ((hport session).mpr hsession)
    have hsent := (List.sublist_append_left _ _).trans hported.output
    have hhanded := (List.prefix_append _ _).trans hported.input
    rw [sent_hubActs, sentIn_singleton, since_hubActs, relayed_hubActs] at hsent
    rw [commandsFrom_hubActs, received_hubActs, receivedIn_singleton] at hhanded
    exact ⟨hsent, hhanded⟩
  · intro session line pass reset hmem
    have hcommand : .command session line ∈ hubActs log :=
      List.mem_filterMap.mpr ⟨_, hmem, rfl⟩
    rcases hbooks.commands session line hcommand with ⟨hattached, hline⟩
    exact ⟨(hport session).mp hattached, hline⟩
  · have hdown := (List.sublist_append_left _ _).trans hbooks.linked.down
    rwa [sent_hubActs, commands_hubActs, hlink] at hdown

end Hdmi2usbd
