import Hdmi2usbd.Calls
import Hdmi2usbd.Readiness

/-!
# Steady — what no step of the daemon changes

A property of a device that the calls of the loops keep, and that a new device has, is one of
every device in every state of a run (`run_each`).

A device that holds a descriptor is open: in the daemon none is ever pending, and none is closed
with a flush, so none is closing. A listener has the buffer size of the options for the
connections it makes. Both hold in every state of a run (`run_orderly`).
-/

namespace Hdmi2usbd

open Machine (run)

variable (clock : Nat → UTime) {lose : Prop} {room : Nat}

/-! ## A property of each device -/

/-- What the calls of the loops and the process cycles keep. -/
structure Lasting (clock : Nat → UTime) (P : Iodev → Prop) : Prop where
  setMasks : ∀ {dev}, P dev → ∀ answer sets w, P (Hdmi2usbd.setMasks clock answer dev sets w).dev
  handler : ∀ {dev}, P dev → ∀ event answer w, P (iodevHandler clock event answer dev w).1
  accepted : ∀ {dev}, P dev → dev.driver = .listen →
    ∀ session fd, P (tcpCreateAccepted session fd dev.bufsize)
  buffers : ∀ {dev dev' : Iodev}, P dev → dev'.shell = dev.shell → P dev'

theorem each_store {P : Iodev → Prop} {sel : Selector} (h : ∀ dev ∈ sel.toList, P dev) {dev : Iodev}
    (hdev : P dev) (index : Nat) : ∀ x ∈ (sel.store index dev).toList, P x := by
  intro x hx
  rw [Selector.store_toList] at hx
  rcases List.mem_or_eq_of_mem_set hx with hx | rfl
  · exact h x hx
  · exact hdev

theorem each_place {P : Iodev → Prop} {sel : Selector} (h : ∀ dev ∈ sel.toList, P dev) {dev : Iodev}
    (hdev : P dev) : ∀ x ∈ (selectorPlace sel dev).toList, P x := by
  intro x hx
  rcases List.mem_iff_getElem?.mp hx with ⟨index, hget⟩
  rcases selectorPlace_origin sel dev hget with rfl | hold
  · exact hdev
  · exact h x (List.mem_of_getElem? hold)

section Lasting

variable {clock} {P : Iodev → Prop} (hP : Lasting clock P)

include hP

theorem dispatchEvent_each {sets : FdSets} {answer : IoAnswer} {ptr : Nat} {t : DispatchState}
    {event : IoEvent} (h : ∀ dev ∈ t.selector.toList, P dev) :
    ∀ dev ∈ (dispatchEvent clock sets answer ptr t event).selector.toList, P dev := by
  cases hget : t.selector.toList[t.index]? with
  | none =>
    unfold dispatchEvent
    rw [selectorGetDevice_eq, hget]
    exact h
  | some dev =>
    by_cases hset : iodevIsSet dev (sets.get event)
    · rw [dispatchEvent_set hget hset]
      have hdev := h dev (List.mem_of_getElem? hget)
      show ∀ x ∈ (runHandler clock event answer ptr t.index dev t.selector _).1.toList, P x
      by_cases haccept : event = .read ∧ dev.driver = .listen
      · rw [runHandler_accept haccept]
        rcases tcpAcceptHandler_cases answer dev t.selector (t.call ptr event dev) with
          ⟨-, heq⟩ | ⟨fd, -, -, heq⟩
        · rw [heq]
          exact h
        · rw [heq]
          exact each_place h (hP.accepted hdev haccept.2 _ _)
      · rw [runHandler_other haccept]
        dsimp only
        split
        · exact each_store h (hP.handler hdev event answer _) _
        · exact h
    · rw [dispatchEvent_unset hget hset]
      exact h

/-- A call of the loops. -/
theorem call_each {s : Selector × World} (h : ∀ dev ∈ s.1.toList, P dev) {call : Call}
    (hloop : call.IsLoop lose s) : ∀ dev ∈ (call.apply clock s).1.toList, P dev := by
  cases call with
  | close index flags => exact absurd hloop id
  | test index ptr sets event answer =>
    exact dispatchEvent_each hP (t := ⟨index, 0, s.1, s.2⟩) h
  | setMasks index answer sets =>
    cases hget : s.1.toList[index]? with
    | none =>
      rw [Call.apply, onDevice_none hget]
      exact h
    | some dev =>
      rw [Call.apply, onDevice_some hget]
      exact each_store h (hP.setMasks (h dev (List.mem_of_getElem? hget)) answer sets s.2) index

theorem loop_each {s s' : Selector × World} (h : ∀ dev ∈ s.1.toList, P dev)
    (hloop : LoopReaches lose clock s s') : ∀ dev ∈ s'.1.toList, P dev :=
  hloop.preserves (fun s => ∀ dev ∈ s.1.toList, P dev)
    (fun _ _ hs hcall => call_each hP hs hcall) h

theorem hdmi2usbProcess_each {app : Hdmi2usb} (h : ∀ dev ∈ app.selector.toList, P dev) (rc : Int)
    (w : World) : ∀ dev ∈ (hdmi2usbProcess clock app rc w).2.1.selector.toList, P dev := by
  intro dev hdev
  rcases List.mem_iff_getElem?.mp hdev with ⟨index, hget⟩
  rcases (hdmi2usbProcess_shell clock app rc w).slot hget with ⟨old, hold, hshell⟩
  exact hP.buffers (h old (List.mem_of_getElem? hold)) hshell

end Lasting

/-! ## Runs -/

/-- What the devices that `hdmi2usb_init` makes all have. -/
theorem listenLoop_each {P : Iodev → Prop} {bufsize : Nat}
    (hlisten : ∀ laddr, P (tcpCreateListen laddr bufsize)) (addrs : List SockAddr)
    (listenPorts : Nat) {sel : Selector} (h : ∀ dev ∈ sel.toList, P dev) :
    ∀ dev ∈ (listenLoop bufsize addrs listenPorts sel).toList, P dev := by
  refine listenLoop_keeps (P := fun sel => ∀ dev ∈ sel.toList, P dev) ?_ addrs listenPorts h
  intro addr sel hs dev hdev
  rcases List.mem_iff_getElem?.mp hdev with ⟨index, hget⟩
  rcases selectorPlace_origin sel (tcpCreateListen addr bufsize) hget with rfl | hold
  · exact hlisten addr
  · exact hs dev (List.mem_of_getElem? hold)

theorem hdmi2usbInit_each {P : Iodev → Prop} {a : InitAnswers} {app app' : Hdmi2usb} {rc rc' : Int}
    {w w' : World} (hserial : P (serialCreate clock app.opts.iobufsize w).1)
    (hlisten : ∀ laddr, P (tcpCreateListen laddr app.opts.iobufsize))
    (h : hdmi2usbInit clock a app rc w = some (rc', app', w')) :
    ∀ dev ∈ app'.selector.toList, P dev := by
  rcases hdmi2usbInit_cases h with ⟨-, -, rfl, -⟩ | ⟨_, addrs, -, -, -, rfl, -⟩
  · simp
  · refine listenLoop_each hlisten addrs 0 ?_
    intro dev hdev
    rcases List.mem_iff_getElem?.mp hdev with ⟨index, hget⟩
    rcases selectorPlace_origin selectorInit (serialCreate clock app.opts.iobufsize w).1 hget with
      rfl | hold
    · exact hserial
    · simp at hold

theorem hdmi2usbProcess_opts (app : Hdmi2usb) (rc : Int) (w : World) :
    (hdmi2usbProcess clock app rc w).2.1.opts = app.opts := by
  refine hdmi2usbProcess_keeps clock (I := fun app' _ => app'.opts = app.opts) rfl
    (fun _ _ _ h => h) (fun _ _ => rfl) ?_ rc
  intro sBytes s index _ hs
  rcases processStep_cases clock sBytes s index with ⟨hsame, -⟩ | ⟨serial, dev, hserial, hdev, hconn⟩
  · rw [hsame, hs]
  · rcases processStep_spec clock sBytes hserial hdev hconn with
      ⟨_, _, _, _, _, _, -, -, hopts, -⟩
    rw [hopts, hs]

section Runs

variable {clock} {P : Iodev → Prop} {bufsize : Nat}

/-- Each device of the application has the property, and its buffers are to have `bufsize`. -/
def EachOf (P : Iodev → Prop) (bufsize : Nat) (app : Hdmi2usb) : Prop :=
  (∀ dev ∈ app.selector.toList, P dev) ∧ app.opts.iobufsize = bufsize

variable (hserial : ∀ w, P (serialCreate clock bufsize w).1)
  (hlisten : ∀ laddr, P (tcpCreateListen laddr bufsize))

include hserial hlisten

theorem hdmi2usbInit_eachOf {a : InitAnswers} {app app' : Hdmi2usb} {rc rc' : Int} {w w' : World}
    (hopts : app.opts.iobufsize = bufsize)
    (h : hdmi2usbInit clock a app rc w = some (rc', app', w')) : EachOf P bufsize app' := by
  subst hopts
  refine ⟨hdmi2usbInit_each clock (hserial w) hlisten h, ?_⟩
  rw [(hdmi2usbInit_spec h).2.1]

theorem start_each (a : InitAnswers) : EachOf P bufsize (Daemon.start clock bufsize a).app := by
  unfold Daemon.start
  generalize hbefore : Daemon.mk _ _ _ _ _ = d
  rcases Daemon.initialise_cases clock d 0 a with ⟨happ, -⟩ | ⟨rc, app, w, hinit, happ, -⟩
  · rw [happ, ← hbefore]
    exact ⟨by simp, rfl⟩
  · rw [happ]
    refine hdmi2usbInit_eachOf hserial hlisten ?_ hinit
    rw [← hbefore]

theorem step_each (hP : Lasting clock P) {d : Daemon} (h : EachOf P bufsize d.app) (i : Input) :
    EachOf P bufsize (d.step clock i).app := by
  refine d.step_keeps clock (I := fun app _ => EachOf P bufsize app) h (fun _ _ => h) ?_ ?_ ?_
  · intro a _ _
    exact ⟨loop_each hP h.1 (selectorRound_loop clock a d.sets d.app.selector d.world), h.2⟩
  · intro a rc app w hinit
    exact hdmi2usbInit_eachOf hserial hlisten h.2 hinit
  · refine ⟨hdmi2usbProcess_each hP h.1 0 _, ?_⟩
    rw [hdmi2usbProcess_opts]
    exact h.2

theorem run_each (hP : Lasting clock P) (a : InitAnswers) (inputs : List Input) :
    ∀ dev ∈ (run (Daemon.step clock) (Daemon.start clock bufsize a) inputs).app.selector.toList,
      P dev :=
  (Machine.run_invariant (fun d : Daemon => EachOf P bufsize d.app)
    (fun _ i h => step_each hserial hlisten hP h i) (start_each hserial hlisten a) inputs).1

end Runs

/-! ## A steady device -/

/-- A device with a descriptor is open. -/
def Iodev.Settled (dev : Iodev) : Prop := dev.state.holds → iodevIsOpen dev

theorem Iodev.settled_of_not_holds {dev : Iodev} (h : ¬ dev.state.holds) : dev.Settled :=
  fun hholds => absurd hholds h

/-- The device is settled, and a listener makes connections with at least `room` in their buffers. -/
def Iodev.Steady (room : Nat) (dev : Iodev) : Prop :=
  dev.Settled ∧ (dev.driver = .listen → room ≤ dev.bufsize)

theorem SameBody.bufsize {dev dev' : Iodev} (h : SameBody dev dev') : dev'.bufsize = dev.bufsize := by
  unfold SameBody at h
  rw [h]

/-- The body of the device has not changed. -/
theorem Iodev.Steady.body {dev dev' : Iodev} (h : dev.Steady room) (hbody : SameBody dev dev')
    (hsettled : dev'.Settled) : dev'.Steady room := by
  refine ⟨hsettled, ?_⟩
  rw [hbody.driver, hbody.bufsize]
  exact h.2

theorem iodevClose_settled {dev : Iodev} (h : dev.Settled) {flags : Nat}
    (hflags : flags &&& ioflagFlush = 0) (w : World) : (iodevClose dev flags w).1.Settled := by
  by_cases hholds : dev.state.holds
  · rw [iodevClose_holds hholds hflags]
    exact Iodev.settled_of_not_holds dev.released_not_holds
  · rw [iodevClose_not_holds hholds]
    dsimp only
    split
    · exact Iodev.settled_of_not_holds (by simp [DevState.holds, DevState.toNat])
    · exact h

theorem closeIfOpen_settled {dev : Iodev} (h : dev.Settled) (w : World) :
    (closeIfOpen dev w).1.Settled := by
  unfold closeIfOpen
  split
  · exact iodevClose_settled h rfl w
  · exact h

theorem iodevOpenDevice_settled {dev : Iodev} (h : dev.Settled) (answer : OpenAnswer) (w : World) :
    (iodevOpenDevice answer dev w).1.Settled := by
  have hclosed := closeIfOpen_settled h w
  -- an opening that is refused, made, and undone
  have hrefused : ∀ dev : Iodev, ({ dev with fd := -1, state := .iodevInactive } : Iodev).Settled :=
    fun dev => Iodev.settled_of_not_holds (by simp [DevState.holds, DevState.toNat])
  have hopened : ∀ (dev : Iodev) fd session,
      ({ dev with fd := fd, session := session, state := .iodevConnected } : Iodev).Settled :=
    fun dev fd session _ => rfl
  have hundone : ∀ (dev : Iodev) flags w, flags &&& ioflagFlush = 0 → dev.state = .iodevOpen →
      (iodevClose dev flags w).1.Settled := by
    intro dev flags w hflags hs
    exact iodevClose_settled (fun _ => by simp [iodevIsOpen, hs]) hflags w
  unfold iodevOpenDevice
  cases dev.driver with
  | serial =>
    unfold serialOpen
    dsimp only
    split
    · next hfd =>
      rw [hfd]
      exact hrefused _
    split
    · exact hopened _ _ _
    · exact hundone _ ioflagNone _ rfl rfl
  | listen =>
    unfold tcpOpenListen
    dsimp only
    split
    · split
      · next hfd =>
        rw [hfd]
        exact hrefused _
      split
      · exact hundone _ ioflagInactive _ rfl rfl
      split
      · exact hundone _ ioflagInactive _ rfl rfl
      · exact hopened _ _ _
    · exact hclosed
  | accepted => exact hclosed

theorem setMasks_steady {dev : Iodev} (h : dev.Steady room) (answer : OpenAnswer) (sets : FdSets)
    (w : World) : (setMasks clock answer dev sets w).dev.Steady room := by
  refine h.body (setMasks_setUp clock answer dev sets w).1 ?_
  have hopen := iodevOpenDevice_settled h.1 answer w
  have hgeneric : (iodevSetMasks clock answer dev sets w).dev.Settled := by
    unfold iodevSetMasks
    cases hs : dev.state with
    | iodevNone | iodevClosed => exact hopen
    | iodevClosing =>
      dsimp only
      split
      · exact h.1
      · exact iodevClose_settled h.1 rfl w
    | iodevPending | iodevInactive | iodevOpen | iodevConnected | iodevActive => exact h.1
  unfold setMasks
  cases dev.driver with
  | serial | accepted => exact hgeneric
  | listen =>
    unfold tcpSetMasksListen
    cases dev.state with
    | iodevNone | iodevClosed => exact hopen
    | _ => exact h.1

theorem iodevHandler_steady {dev : Iodev} (h : dev.Steady room) (event : IoEvent)
    (answer : IoAnswer) (w : World) : (iodevHandler clock event answer dev w).1.Steady room := by
  have hclose : ∀ {dev w r}, dev.Steady room → FailClosed dev w r → r.1.Steady room := by
    intro dev w r h hclosed
    exact h.body hclosed.setUp.1 (Iodev.settled_of_not_holds hclosed.not_holds)
  rcases iodevHandler_cases clock event answer dev w with ⟨heq, -⟩ | ⟨bytes, -, -, -, heq⟩ |
    ⟨n, -, -, hsent⟩ | ⟨-, -, hclosed⟩ | ⟨-, hclosed⟩
  · rw [heq]
    exact h
  · rw [heq]
    exact h
  · rcases hsent.body with ⟨pacer, hbody⟩
    rw [hbody]
    exact h
  · exact hclose (show (flushBuffers dev).Steady room from h) hclosed
  · exact hclose h hclosed

theorem accepted_steady (session : Nat) (fd : Int) (bufsize : Nat) :
    (tcpCreateAccepted session fd bufsize).Steady room := by
  refine ⟨fun _ => rfl, ?_⟩
  simp [tcpCreateAccepted, tcpAccept, tcpCreate, iodevInit]

theorem Iodev.Fresh.settled {dev : Iodev} (h : dev.Fresh) : dev.Settled := by
  refine Iodev.settled_of_not_holds ?_
  rw [h.state]
  decide

/-! ## Steady devices -/

/-- All devices are steady. -/
def AllSteady (room : Nat) (sel : Selector) : Prop := ∀ dev ∈ sel.toList, dev.Steady room

theorem steady_lasting : Lasting clock (Iodev.Steady room) where
  setMasks := setMasks_steady clock
  handler := iodevHandler_steady clock
  accepted := fun _ _ session fd => accepted_steady session fd _
  buffers := by
    intro dev dev' h hshell
    show dev'.shell.Steady room
    rw [hshell]
    exact h

theorem dispatchEvent_steady {clock : Nat → UTime} {sets : FdSets} {answer : IoAnswer} {ptr : Nat}
    {t : DispatchState} {event : IoEvent} (h : AllSteady room t.selector) :
    AllSteady room (dispatchEvent clock sets answer ptr t event).selector :=
  dispatchEvent_each (steady_lasting clock) h

theorem call_steady {s : Selector × World} (h : AllSteady room s.1) {call : Call}
    (hloop : call.IsLoop lose s) : AllSteady room (call.apply clock s).1 :=
  call_each (steady_lasting clock) h hloop

theorem loop_steady {s s' : Selector × World} (h : AllSteady room s.1)
    (hloop : LoopReaches lose clock s s') : AllSteady room s'.1 :=
  loop_each (steady_lasting clock) h hloop

/-- What all states of a run have: the devices are where they belong, and steady. -/
structure Orderly (room : Nat) (d : Daemon) : Prop where
  seated : Seated (netOf d.app.selector d.world)
  steady : AllSteady room d.app.selector
  opts : room ≤ d.app.opts.iobufsize

theorem serialCreate_steady (bufsize : Nat) (w : World) :
    (serialCreate clock bufsize w).1.Steady room :=
  ⟨(serialCreate_fresh clock bufsize w).settled, by simp [serialCreate, iodevInit]⟩

theorem tcpCreateListen_steady {bufsize : Nat} (hroom : room ≤ bufsize) (laddr : SockAddr) :
    (tcpCreateListen laddr bufsize).Steady room :=
  ⟨(tcpCreateListen_fresh laddr bufsize).settled, fun _ => hroom⟩

theorem start_orderly {iobufsize : Nat} (hroom : room ≤ iobufsize) (a : InitAnswers) :
    Orderly room (Daemon.start clock iobufsize a) := by
  rcases start_each (serialCreate_steady clock iobufsize) (tcpCreateListen_steady hroom) a with
    ⟨hsteady, hopts⟩
  refine ⟨start_seated clock iobufsize a, hsteady, ?_⟩
  rw [hopts]
  exact hroom

theorem Orderly.step {d : Daemon} (h : Orderly room d) (i : Input) : Orderly room (d.step clock i) := by
  rcases step_each (serialCreate_steady clock d.app.opts.iobufsize) (tcpCreateListen_steady h.opts)
    (steady_lasting clock) ⟨h.steady, rfl⟩ i with ⟨hsteady, hopts⟩
  refine ⟨step_seated clock d i h.seated, hsteady, ?_⟩
  rw [hopts]
  exact h.opts

theorem run_orderly {iobufsize : Nat} (hroom : room ≤ iobufsize) (a : InitAnswers)
    (inputs : List Input) :
    Orderly room (run (Daemon.step clock) (Daemon.start clock iobufsize a) inputs) :=
  Machine.run_invariant (Orderly room) (fun _ i h => h.step clock i) (start_orderly clock hroom a) inputs

end Hdmi2usbd
