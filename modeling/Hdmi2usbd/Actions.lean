import Hdmi2usbd.Lib.Slots
import Hdmi2usbd.Selector

/-!
# Actions — what a turn of the select loop is made of

The functions of a turn do a small number of things to a device and to the world: get
a descriptor or give it up, store received bytes, send bytes, drop what is buffered.
`DevAct` lists them, with the condition each is done under; `NetAct` are these for a
device in its slot, the accept of a connection, and an action of a listener whose record
has been replaced: the system sees it and the device does not. Every turn is a sequence
of such actions (`selectorRound_reaches`), so an invariant of turns is checked once for
each action and not for each function.

A `Policy` says which devices may drop what they have buffered, which inactive devices
may lose their slot and whether actions may be lost; the theorems that need them state
them as conditions of a run.
-/

namespace Hdmi2usbd

open Machine (Reaches Along run)

/-! ## Actions of a device -/

inductive DevAct
  | tick
  | pace (pacer : Microtimer)
  | note (ev : Ev)
  | opened (fd : Nat) (state : DevState)
  | refused
  | released
  | retired
  | received (bytes : List UInt8)
  | sent (n : Nat)
  | dropped

/-- Events that record what the loop did and mean nothing for the devices. -/
def Ev.IsNote : Ev → Prop
  | .registered .. | .deref .. | .called .. => True
  | _ => False

structure Policy where
  drop : Driver → RingBuffer → Prop
  reuse : Iodev → Prop
  lose : Prop

/-- Everything may be dropped, and actions may be lost or not. -/
def Policy.losing (lose : Prop) : Policy := ⟨fun _ _ => True, fun _ => True, lose⟩

abbrev Policy.any : Policy := .losing True

def DevAct.apply (s : Iodev × World) : DevAct → Iodev × World
  | .tick => (s.1, { s.2 with tick := s.2.tick + 1 })
  | .pace pacer => ({ s.1 with pacer := pacer }, s.2)
  | .note ev => (s.1, s.2.record ev)
  | .opened fd state =>
    ({ s.1 with fd := fd, session := s.2.opens + 1, state := state },
      { s.2 with
        fds := insert (fd : Int) s.2.fds
        opens := s.2.opens + 1
        log := s.2.log ++ [.opened s.1.driver (s.2.opens + 1) fd] })
  | .refused => ({ s.1 with fd := -1, state := .iodevInactive }, s.2)
  | .released => (s.1.released, s.2.closeFd s.1.session s.1.fd)
  | .retired => ({ s.1 with state := .iodevInactive }, s.2)
  | .received bytes =>
    ({ s.1 with rbuf := (s.1.rbuf.put bytes).2 }, s.2.record (.received s.1.session bytes))
  | .sent n => advance s.1 n s.2
  | .dropped => (flushBuffers s.1, s.2)

def DevAct.Ok (p : Policy) (s : Iodev × World) : DevAct → Prop
  | .tick | .pace _ | .sent _ => True
  | .note ev => ev.IsNote
  | .opened fd state =>
    ¬ s.1.state.holds ∧ s.1.driver ≠ .accepted ∧ (fd : Int) ∉ s.2.fds ∧ state.holds
  | .refused => ¬ s.1.state.holds ∧ s.1.driver ≠ .accepted
  | .released => s.1.state.holds
  | .retired => s.1.state = .iodevClosed ∧ s.1.driver = .accepted
  | .received bytes => iodevIsOpen s.1 ∧ bytes.length ≤ s.1.rbuf.available
  | .dropped => ¬ iodevIsOpen s.1 ∧ p.drop s.1.driver s.1.rbuf

/-- A device holds a descriptor in exactly the states from closing on. -/
def Held (dev : Iodev) : Prop := dev.fd ≠ -1 ↔ dev.state.holds

theorem DevAct.apply_held {p : Policy} (s : Iodev × World) (a : DevAct) (h : Held s.1)
    (hok : a.Ok p s) : Held (a.apply s).1 := by
  have hinactive : ¬ DevState.iodevInactive.holds := by decide
  cases a with
  | opened fd state =>
    have hfd : ((fd : Nat) : Int) ≠ -1 := by omega
    exact iff_of_true hfd hok.2.2.2
  | refused => exact iff_of_false (by simp [DevAct.apply]) hinactive
  | released => exact iff_of_false (by simp [DevAct.apply, Iodev.released]) s.1.released_not_holds
  | retired =>
    -- a closed device holds nothing already
    have hfd : ¬ s.1.fd ≠ -1 := by
      intro hfd
      have := h.mp hfd
      rw [hok.1] at this
      cases this
    exact iff_of_false hfd hinactive
  | _ => exact h

/-- The device and the world are reached by actions that the policy allows. -/
abbrev DevReaches (p : Policy) : Iodev × World → Iodev × World → Prop :=
  Reaches DevAct.apply (DevAct.Ok p)

section Device

variable {p : Policy} {clock : Nat → UTime}

theorem reaches_act {s : Iodev × World} (a : DevAct) (h : a.Ok p s) : DevReaches p s (a.apply s) :=
  Reaches.single h

theorem expired_reaches (clock : Nat → UTime) (t : Microtimer) (dev : Iodev) (w : World) :
    DevReaches p (dev, w) (dev, (w.expired clock t).2) := by
  unfold World.expired
  split
  · exact Reaches.refl _
  · exact reaches_act .tick trivial

/-- A close without the flush flag. -/
theorem iodevClose_reaches (dev : Iodev) {flags : Nat} (hflags : flags &&& ioflagFlush = 0)
    (w : World) : DevReaches p (dev, w) (iodevClose dev flags w) := by
  by_cases h : dev.state.holds
  · rw [iodevClose_holds h hflags]
    exact reaches_act (s := (dev, w)) .released h
  · rw [iodevClose_not_holds h]
    split
    · next hretire => exact reaches_act (s := (dev, w)) .retired hretire.symm
    · exact Reaches.refl _

/-- The device after an opening, as the open functions write it. -/
theorem opened_reaches {dev : Iodev} {driver : Driver} (hd : dev.driver = driver)
    (hacc : driver ≠ .accepted) (h : ¬ dev.state.holds) {fd : Nat} {w : World}
    (hfresh : (fd : Int) ∉ w.fds) {state : DevState} (hstate : state.holds) :
    DevReaches p (dev, w) ({ dev with fd := fd, session := w.opens + 1, state := state },
      { w with
        fds := insert (fd : Int) w.fds
        opens := w.opens + 1
        log := w.log ++ [.opened driver (w.opens + 1) fd] }) := by
  subst hd
  exact reaches_act (s := (dev, w)) (.opened fd state) ⟨h, hacc, hfresh, hstate⟩

/-- An open of a device that holds no descriptor. -/
theorem iodevOpenDevice_reaches {dev : Iodev} (h : ¬ dev.state.holds) (answer : OpenAnswer)
    (w : World) : DevReaches p (dev, w) (iodevOpenDevice answer dev w) := by
  -- `open` closes the device first, which does nothing to a closed one
  have hclosed : closeIfOpen dev w = (dev, w) := by
    have : ¬ iodevIsOpen dev := fun hopen => h (holds_of_isOpen hopen)
    simp [closeIfOpen, this]
  unfold iodevOpenDevice
  cases hd : dev.driver with
  | accepted =>
    simp only [tcpOpen, hclosed]
    exact Reaches.refl _
  | serial =>
    simp only [serialOpen, hclosed]
    rcases w.openFd_cases .serial answer.fd with hno | ⟨fd, -, hfresh, hyes⟩
    · rw [hno]
      exact reaches_act (s := (dev, w)) .refused ⟨h, by simp [hd]⟩
    · have hne : ((fd : Nat) : Int) ≠ -1 := by omega
      rw [hyes]
      simp only [hne, if_false]
      split
      · exact opened_reaches hd (by simp) h hfresh rfl
      · -- the terminal could not be set up
        exact (opened_reaches hd (by simp) h hfresh rfl).trans (iodevClose_reaches _ rfl _)
  | listen =>
    simp only [tcpOpenListen, hclosed]
    split
    · rcases w.openFd_cases .listen answer.fd with hno | ⟨fd, -, hfresh, hyes⟩
      · rw [hno]
        exact reaches_act (s := (dev, w)) .refused ⟨h, by simp [hd]⟩
      · have hne : ((fd : Nat) : Int) ≠ -1 := by omega
        -- `bind` and `listen` come after the socket is open, and close it where they fail
        have hopened := opened_reaches (p := p) hd (by simp) h hfresh
          (show DevState.iodevOpen.holds from rfl)
        rw [hyes]
        simp only [hne, if_false]
        split
        · exact hopened.trans (iodevClose_reaches _ rfl _)
        split
        · exact hopened.trans (iodevClose_reaches _ rfl _)
        · exact opened_reaches hd (by simp) h hfresh rfl
    · exact Reaches.refl _

theorem fdSet_reaches (event : IoEvent) (dev : Iodev) (s : FdSets × World) :
    DevReaches p (dev, s.2) (dev, (fdSet event dev s).2) :=
  reaches_act (s := (dev, s.2)) (.note (.registered event dev.session dev.fd)) trivial

theorem fdSet_if_reaches (b : Prop) [Decidable b] (event : IoEvent) (dev : Iodev)
    (s : FdSets × World) : DevReaches p (dev, s.2) (dev, (if b then fdSet event dev s else s).2) := by
  split
  · exact fdSet_reaches event dev s
  · exact Reaches.refl _

theorem iodevSetMasks_reaches {dev : Iodev} (answer : OpenAnswer) (sets : FdSets) (w : World) :
    DevReaches p (dev, w) ((iodevSetMasks clock answer dev sets w).dev,
      (iodevSetMasks clock answer dev sets w).world) := by
  unfold iodevSetMasks
  generalize clearMasks dev sets = sets'
  have hheld : ∀ state, dev.state = state → ¬ state.holds → ¬ dev.state.holds := by
    intro state h hstate
    rwa [h]
  cases hs : dev.state with
  | iodevInactive => exact Reaches.refl _
  | iodevNone => exact iodevOpenDevice_reaches (hheld _ hs (by decide)) answer w
  | iodevClosed => exact iodevOpenDevice_reaches (hheld _ hs (by decide)) answer w
  | iodevPending => exact fdSet_reaches .read dev (sets', w)
  | iodevClosing =>
    dsimp only
    split
    · -- the check of the pacer may read the clock
      have hsend : DevReaches p (dev, w) (dev, (iodevSendok clock dev w).2) := by
        unfold iodevSendok
        split
        · exact expired_reaches clock dev.pacer dev w
        · exact Reaches.refl _
      split
      · exact (hsend.trans (fdSet_reaches .write dev (sets', _))).trans (fdSet_reaches .except dev _)
      · exact hsend
    · exact iodevClose_reaches dev rfl w
  | iodevOpen | iodevConnected | iodevActive =>
    exact ((fdSet_if_reaches _ .read dev (sets', w)).trans
      (fdSet_if_reaches _ .write dev _)).trans (fdSet_reaches .except dev _)

theorem setMasks_reaches {dev : Iodev} (answer : OpenAnswer) (sets : FdSets) (w : World) :
    DevReaches p (dev, w) ((setMasks clock answer dev sets w).dev,
      (setMasks clock answer dev sets w).world) := by
  unfold setMasks
  cases dev.driver with
  | serial => exact iodevSetMasks_reaches answer sets w
  | accepted => exact iodevSetMasks_reaches answer sets w
  | listen =>
    unfold tcpSetMasksListen
    generalize clearMasks dev sets = sets'
    cases hs : dev.state with
    | iodevInactive | iodevClosing => exact Reaches.refl _
    | iodevNone | iodevClosed =>
      exact iodevOpenDevice_reaches (by rw [hs]; decide) answer w
    | iodevPending | iodevOpen | iodevConnected | iodevActive =>
      exact (fdSet_reaches .read dev (sets', w)).trans (fdSet_reaches .except dev _)

/-- A close after a flush; it is the same as the close and then the flush. -/
theorem flushClose_reaches {dev : Iodev} (hdrop : p.drop dev.driver dev.rbuf) {flags : Nat}
    (hflags : flags &&& ioflagFlush = 0) (w : World) :
    DevReaches p (dev, w) (iodevClose (flushBuffers dev) flags w) := by
  by_cases h : dev.state.holds
  · rw [iodevClose_holds (show (flushBuffers dev).state.holds from h) hflags]
    have hclosed : ¬ iodevIsOpen dev.released :=
      fun hopen => dev.released_not_holds (holds_of_isOpen hopen)
    exact (reaches_act (s := (dev, w)) .released h).trans (reaches_act .dropped ⟨hclosed, hdrop⟩)
  · have hclosed : ¬ iodevIsOpen dev := fun hopen => h (holds_of_isOpen hopen)
    exact (reaches_act (s := (dev, w)) .dropped ⟨hclosed, hdrop⟩).trans
      (iodevClose_reaches (flushBuffers dev) hflags w)

theorem iodevReadHandler_reaches {dev : Iodev} {answer : Option (List UInt8)}
    (hdrop : dev.fd ≠ -1 → readFails answer dev → p.drop dev.driver dev.rbuf) (w : World) :
    DevReaches p (dev, w) (iodevReadHandler answer dev w) := by
  rcases iodevReadHandler_cases answer dev w with h | ⟨hfd, hfails, h⟩ | ⟨bytes, -, hroom, hopen, h⟩
  · rw [h]
    exact Reaches.refl _
  · rw [h]
    exact flushClose_reaches (hdrop hfd hfails) rfl w
  · rw [h]
    exact reaches_act (s := (dev, w)) (.received bytes) ⟨hopen, hroom⟩

theorem iodevWriteHandler_reaches {dev : Iodev} {answer : Option Nat}
    (hdrop : dev.fd ≠ -1 → dev.tbuf.used ≠ 0 → answer = none → p.drop dev.driver dev.rbuf)
    (w : World) :
    DevReaches p (dev, w) (iodevWriteHandler answer dev w) := by
  unfold iodevWriteHandler
  split
  · exact Reaches.refl _
  · next hfd =>
    dsimp only
    split
    · exact Reaches.refl _
    · next hused =>
      cases answer with
      | none => exact flushClose_reaches (hdrop hfd hused rfl) rfl w
      | some rc => exact reaches_act (s := (dev, w)) (.sent (min rc dev.tbuf.used)) trivial

theorem serialWriteHandler_reaches (dev : Iodev) (answer : Option Nat)
    (w : World) : DevReaches p (dev, w) (serialWriteHandler clock answer dev w) := by
  unfold serialWriteHandler
  split
  · exact Reaches.refl _
  · next hfd =>
    split
    · exact Reaches.refl _
    · have hcheck := expired_reaches (p := p) clock dev.pacer dev w
      dsimp only
      split
      · exact hcheck
      · cases answer with
        | none => exact hcheck.trans (iodevClose_reaches dev rfl _)
        | some rc =>
          refine hcheck.trans ((reaches_act (.sent (min rc 1)) trivial).trans ?_)
          -- the reset of the pacer takes a reading
          exact (reaches_act .tick trivial).trans (reaches_act (.pace _) trivial)

/-- A handler, given that the policy lets it drop what it drops. -/
theorem iodevHandler_reaches {dev : Iodev} {event : IoEvent} {answer : IoAnswer}
    (hdrop : iodevFlushes event answer dev → p.drop dev.driver dev.rbuf)
    (w : World) : DevReaches p (dev, w) (iodevHandler clock event answer dev w) := by
  unfold iodevHandler
  cases event with
  | read =>
    refine iodevReadHandler_reaches ?_ w
    intro hfd hfails
    exact hdrop (by simp [iodevFlushes, hfd, hfails])
  | write =>
    have hgeneric : dev.driver ≠ .serial →
        DevReaches p (dev, w) (iodevWriteHandler answer.write dev w) := by
      intro hd
      refine iodevWriteHandler_reaches ?_ w
      intro hfd hused hnone
      exact hdrop (by simp [iodevFlushes, hd, hfd, hused, hnone])
    cases hd : dev.driver with
    | serial => exact serialWriteHandler_reaches dev answer.write w
    | listen => exact hgeneric (by simp [hd])
    | accepted => exact hgeneric (by simp [hd])
  | except => exact iodevClose_reaches dev rfl w

end Device

/-! ## Actions of the selector -/

/-- The devices and the world. -/
structure Net where
  devs : List Iodev
  world : World

def netOf (sel : Selector) (w : World) : Net := ⟨sel.toList, w⟩

inductive NetAct
  | device (index : Nat) (a : DevAct)
  | lost (index : Nat) (a : DevAct)
  | note (ev : Ev)
  | accept (fd : Nat) (bufsize : Nat) (slot : Option Nat)

def NetAct.apply (n : Net) : NetAct → Net
  | .device index a =>
    match n.devs[index]? with
    | some dev => ⟨n.devs.set index (a.apply (dev, n.world)).1, (a.apply (dev, n.world)).2⟩
    | none => n
  | .lost index a =>
    match n.devs[index]? with
    | some dev => { n with world := (a.apply (dev, n.world)).2 }
    | none => n
  | .note ev => { n with world := n.world.record ev }
  | .accept fd bufsize slot =>
    let dev := tcpCreateAccepted (n.world.opens + 1) fd bufsize
    { devs := match slot with
        | some index => n.devs.set index dev
        | none => n.devs ++ [dev]
      world := { n.world with
        fds := insert (fd : Int) n.world.fds
        opens := n.world.opens + 1
        log := n.world.log ++ [.opened .accepted (n.world.opens + 1) fd] } }

def NetAct.Ok (p : Policy) (n : Net) : NetAct → Prop
  | .device index a => ∃ dev, n.devs[index]? = some dev ∧ a.Ok p (dev, n.world)
  | .lost index a =>
    p.lose ∧ ∃ dev, n.devs[index]? = some dev ∧ dev.driver = .listen ∧
      ((a = .released ∧ dev.state.holds) ∨ ∃ k, a = .sent k)
  | .note ev => ev.IsNote
  | .accept fd _ slot =>
    (fd : Int) ∉ n.world.fds ∧ 0 < n.devs.length ∧
      match slot with
      | some index => 1 ≤ index ∧ ∃ dev, n.devs[index]? = some dev ∧
          dev.state = .iodevInactive ∧ p.reuse dev
      | none => True

abbrev NetReaches (p : Policy) : Net → Net → Prop := Reaches NetAct.apply (NetAct.Ok p)

/-- After an accept a device is the new one or an old one. -/
theorem mem_devs_accept {n : Net} {fd bufsize : Nat} {slot : Option Nat} {dev : Iodev}
    (h : dev ∈ (NetAct.apply n (.accept fd bufsize slot)).devs) :
    dev = tcpCreateAccepted (n.world.opens + 1) fd bufsize ∨ dev ∈ n.devs := by
  cases slot with
  | some index => exact (List.mem_or_eq_of_mem_set h).symm
  | none => exact (List.mem_append.mp h).symm.imp_left List.mem_singleton.mp

/-- The first device is not one that an accept replaces. -/
theorem getElem?_zero_accept {p : Policy} {n : Net} {fd bufsize : Nat} {slot : Option Nat}
    (hok : NetAct.Ok p n (.accept fd bufsize slot)) :
    (NetAct.apply n (.accept fd bufsize slot)).devs[0]? = n.devs[0]? := by
  rcases hok with ⟨-, hlength, hslot⟩
  cases slot with
  | some index =>
    have hindex : 1 ≤ index := hslot.1
    exact List.getElem?_set_ne (by omega)
  | none => exact List.getElem?_append_left hlength

theorem netReaches_act {p : Policy} (n : Net) (a : NetAct) (h : a.Ok p n) :
    NetReaches p n (a.apply n) := Reaches.single h

/-- Of an action that is lost, only the system and the log know. -/
theorem netAct_lost {p : Policy} {n : Net} {index : Nat} {a : DevAct}
    (hok : NetAct.Ok p n (.lost index a)) : ∃ dev w ev, n.devs[index]? = some dev ∧
      dev.driver = .listen ∧ NetAct.apply n (.lost index a) = ⟨n.devs, w⟩ ∧
      w.opens = n.world.opens ∧ w.tick = n.world.tick ∧ w.log = n.world.log ++ [ev] ∧
      ((a = .released ∧ dev.state.holds ∧ ev = .closed dev.session dev.fd) ∨
        ∃ k, a = .sent k ∧ ev = .sent dev.session (dev.tbuf.contents.take k) n.world.tick) := by
  rcases hok with ⟨-, dev, hget, hlisten, ⟨rfl, hholds⟩ | ⟨k, rfl⟩⟩
  · exact ⟨dev, n.world.closeFd dev.session dev.fd, _, hget, hlisten,
      by simp [NetAct.apply, DevAct.apply, hget], rfl, rfl, rfl, .inl ⟨rfl, hholds, rfl⟩⟩
  · refine ⟨dev, (advance dev k n.world).2, _, hget, hlisten,
      by simp [NetAct.apply, DevAct.apply, hget], rfl, rfl, rfl, .inr ⟨k, rfl, ?_⟩⟩
    simp

/-- What a device does, its slot does. -/
theorem dev_reaches {p : Policy} {devs : List Iodev} {index : Nat} {dev dev' : Iodev}
    {w w' : World} (hget : devs[index]? = some dev) (h : DevReaches p (dev, w) (dev', w')) :
    NetReaches p ⟨devs, w⟩ ⟨devs.set index dev', w'⟩ := by
  have hlt := (List.getElem?_eq_some_iff.mp hget).1
  have hslot : ∀ x : Iodev, (devs.set index x)[index]? = some x := by
    intro x
    rw [List.getElem?_set_self hlt]
  have hlift : NetReaches p ⟨devs.set index dev, w⟩ ⟨devs.set index dev', w'⟩ := by
    refine Reaches.lift (fun s : Iodev × World => (⟨devs.set index s.1, s.2⟩ : Net))
      (.device index) (fun _ => True) (fun _ _ _ _ => trivial) ?_ ?_ trivial h
    · intro s a _
      simp only [NetAct.apply, hslot, List.set_set]
    · intro s a _ hok
      exact ⟨s.1, hslot s.1, hok⟩
  rwa [Slots.set_self hget] at hlift

/-! ## Actions that are lost -/

/-- Of a close that is lost, the system sees the end of the descriptor. -/
theorem lostClose_reaches {p : Policy} {devs : List Iodev} {index : Nat} {dev stale : Iodev}
    (hlose : p.lose) (hget : devs[index]? = some dev) (hlisten : dev.driver = .listen)
    (hstate : stale.state = dev.state) (hsession : stale.session = dev.session)
    (hfd : stale.fd = dev.fd) {flags : Nat} (hflags : flags &&& ioflagFlush = 0) (w : World) :
    NetReaches p ⟨devs, w⟩ ⟨devs, (iodevClose stale flags w).2⟩ := by
  by_cases h : dev.state.holds
  · rw [iodevClose_holds (by rwa [hstate]) hflags, hsession, hfd]
    have hact : NetAct.apply ⟨devs, w⟩ (.lost index .released) =
        ⟨devs, w.closeFd dev.session dev.fd⟩ := by
      simp [NetAct.apply, DevAct.apply, hget]
    rw [← hact]
    exact netReaches_act _ _ ⟨hlose, dev, hget, hlisten, .inl ⟨rfl, h⟩⟩
  · rw [iodevClose_not_holds (by rwa [hstate])]
    split
    · exact Reaches.refl _
    · exact Reaches.refl _

/-- What the handler of a listener does when its device is lost. -/
theorem lostHandler_reaches {p : Policy} {clock : Nat → UTime} {devs : List Iodev} {index : Nat}
    {dev : Iodev} {event : IoEvent} {answer : IoAnswer} (hget : devs[index]? = some dev)
    (hlisten : dev.driver = .listen) (hevent : event ≠ .read)
    (hlose : p.lose ∨ event = .write ∧ dev.tbuf.used = 0) (w : World) :
    NetReaches p ⟨devs, w⟩ ⟨devs, (iodevHandler clock event answer dev w).2⟩ := by
  cases event with
  | read => exact absurd rfl hevent
  | except =>
    have hlose : p.lose := hlose.resolve_right (by simp)
    refine lostClose_reaches hlose hget hlisten ?_ ?_ ?_ ?_ w
    all_goals rfl
  | write =>
    simp only [iodevHandler, hlisten, iodevWriteHandler]
    split
    · exact Reaches.refl _
    split
    · exact Reaches.refl _
    · next hused =>
      have hlose : p.lose := hlose.resolve_right fun h => hused h.2
      cases answer.write with
      | none =>
        refine lostClose_reaches hlose hget hlisten ?_ ?_ ?_ ?_ w
        all_goals rfl
      | some rc =>
        have hact : NetAct.apply ⟨devs, w⟩ (.lost index (.sent (min rc dev.tbuf.used))) =
            ⟨devs, (advance dev (min rc dev.tbuf.used) w).2⟩ := by
          simp [NetAct.apply, DevAct.apply, hget]
        rw [← hact]
        exact netReaches_act _ _ ⟨hlose, dev, hget, hlisten, .inr ⟨_, rfl⟩⟩

/-! ## A turn -/

theorem iosetStep_reaches {p : Policy} {clock : Nat → UTime} {opens : Nat → OpenAnswer}
    (s : IosetState) (index : Nat) :
    NetReaches p (netOf s.selector s.world)
      (netOf (iosetStep clock opens s index).selector (iosetStep clock opens s index).world) := by
  unfold iosetStep
  rw [selectorGetDevice_eq]
  cases hget : s.selector.toList[index]? with
  | none => exact Reaches.refl _
  | some dev =>
    simp only [netOf, Selector.store_toList]
    exact dev_reaches hget (setMasks_reaches (opens index) s.sets s.world)

theorem selectorIoset_reaches {p : Policy} (clock : Nat → UTime) (opens : Nat → OpenAnswer)
    (sets : FdSets) (sel : Selector) (w : World) :
    NetReaches p (netOf sel w) (netOf (selectorIoset clock opens sets sel w).selector
      (selectorIoset clock opens sets sel w).world) :=
  Machine.run_simulates (fun s : IosetState => netOf s.selector s.world) iosetStep_reaches
    ⟨sel, sets, w, 0, 0⟩ _

/-- A condition on the three tests of a turn of the dispatch loop, each in the state it is
made in. -/
def TurnAll (K : IoAnswer → DispatchState → IoEvent → Prop) (clock : Nat → UTime) (sets : FdSets)
    (s : DispatchState) (answer : IoAnswer) : Prop :=
  s.More →
    let event := dispatchEvent clock sets answer s.selector.devs.block
    K answer s .read ∧ K answer (event s .read) .write ∧
      K answer (event (event s .read) .write) .except

/-- The policy allows what the handler of an event drops, and what an accept reuses. -/
def EventKeeps (p : Policy) (sets : FdSets) (answer : IoAnswer) (s : DispatchState)
    (event : IoEvent) : Prop :=
  ∀ dev, selectorGetDevice s.selector s.index = some dev → iodevIsSet dev (sets.get event) →
    if event = .read ∧ dev.driver = .listen then
      ∀ fd, answer.accept = some fd → (fd : Int) ∉ s.world.fds →
        ∀ index, inactiveSlot s.selector = some index →
          ∀ old, selectorGetDevice s.selector index = some old → p.reuse old
    else iodevFlushes event answer dev → p.drop dev.driver dev.rbuf

/-- A condition on what an option holds. -/
instance decidableForallSome {α : Type} (o : Option α) (P : α → Prop) [DecidablePred P] :
    Decidable (∀ x, o = some x → P x) :=
  match o with
  | none => .isTrue fun _ h => nomatch h
  | some x => decidable_of_iff (P x) ⟨fun h _ hx => Option.some.inj hx ▸ h, fun h => h x rfl⟩

instance (p : Policy) [∀ driver rbuf, Decidable (p.drop driver rbuf)] [DecidablePred p.reuse]
    (sets : FdSets) (answer : IoAnswer) (s : DispatchState) (event : IoEvent) :
    Decidable (EventKeeps p sets answer s event) := by
  delta EventKeeps
  infer_instance

instance (K : IoAnswer → DispatchState → IoEvent → Prop)
    [∀ answer s event, Decidable (K answer s event)] (clock : Nat → UTime) (sets : FdSets)
    (s : DispatchState) (answer : IoAnswer) : Decidable (TurnAll K clock sets s answer) := by
  delta TurnAll
  infer_instance

theorem tcpAcceptHandler_reaches {p : Policy} {answer : IoAnswer} {dev : Iodev} {sel : Selector}
    {w : World} (hpos : 0 < sel.toList.length)
    (hreuse : ∀ fd, answer.accept = some fd → (fd : Int) ∉ w.fds →
      ∀ index, inactiveSlot sel = some index →
        ∀ old, selectorGetDevice sel index = some old → p.reuse old) :
    NetReaches p (netOf sel w) (netOf (tcpAcceptHandler answer dev sel w).1
      (tcpAcceptHandler answer dev sel w).2) := by
  unfold tcpAcceptHandler
  rcases w.openFd_cases .accepted answer.accept with hno | ⟨fd, hans, hfresh, hyes⟩
  · rw [hno]
    exact Reaches.refl _
  · have hge : ¬ (fd : Int) < 0 := by omega
    rw [hyes]
    simp only [hge, if_false, selectorNewDeviceAccept, netOf, selectorPlace_toList]
    refine netReaches_act (netOf sel w) (.accept fd dev.bufsize (inactiveSlot sel))
      ⟨hfresh, hpos, ?_⟩
    cases hslot : inactiveSlot sel with
    | none => trivial
    | some index =>
      rcases inactiveSlot_some hslot with ⟨hone, old, hget, hstate⟩
      refine ⟨hone, old, hget, hstate, hreuse fd hans hfresh index hslot old ?_⟩
      rw [selectorGetDevice_eq, hget]

/-- A pointer is current, or it is the one that a listener has been left with: then what the handler
writes is lost, unless it has nothing to write. -/
def Pointed (p : Policy) (sets : FdSets) (ptr : Nat) (s : DispatchState) (event : IoEvent) : Prop :=
  ptr = s.selector.devs.block ∨ (event ≠ .read ∧
    ∀ dev, s.selector.toList[s.index]? = some dev → dev.driver = .listen ∧
      (iodevIsSet dev (sets.get event) → p.lose ∨ event = .write ∧ dev.tbuf.used = 0))

theorem dispatchEvent_reaches {p : Policy} (clock : Nat → UTime) {sets : FdSets}
    {answer : IoAnswer} {ptr : Nat} {s : DispatchState} {event : IoEvent}
    (hkeep : EventKeeps p sets answer s event) (hptr : Pointed p sets ptr s event) :
    NetReaches p (netOf s.selector s.world)
      (netOf (dispatchEvent clock sets answer ptr s event).selector
        (dispatchEvent clock sets answer ptr s event).world) := by
  unfold dispatchEvent
  cases hget : selectorGetDevice s.selector s.index with
  | none => exact Reaches.refl _
  | some dev =>
    have hslot : s.selector.toList[s.index]? = some dev := by rwa [← selectorGetDevice_eq]
    -- the pointer is read, read again and called through before the handler runs
    have hnote : ∀ (w : World) (ev : Ev), ev.IsNote →
        NetReaches p (netOf s.selector w) (netOf s.selector (w.record ev)) :=
      fun w ev hev => netReaches_act (netOf s.selector w) (.note ev) hev
    have hderef : (Ev.deref ptr s.selector.devs.block).IsNote := trivial
    dsimp only
    split
    · next hset =>
      have hkeep := hkeep dev hget hset
      refine (hnote _ _ hderef).trans ((hnote _ _ hderef).trans
        ((hnote _ (.called event dev.session dev.fd) trivial).trans ?_))
      unfold runHandler
      split
      · next haccept =>
        rw [if_pos haccept] at hkeep
        refine tcpAcceptHandler_reaches ?_ hkeep
        have := (List.getElem?_eq_some_iff.mp hslot).1
        omega
      · next haccept =>
        rw [if_neg haccept] at hkeep
        by_cases hblock : ptr = s.selector.devs.block
        · simp only [hblock, if_true, netOf, Selector.store_toList]
          exact dev_reaches hslot (iodevHandler_reaches hkeep _)
        · -- the device is written in the block that has been replaced
          rcases hptr.resolve_left hblock with ⟨hevent, hlost⟩
          rcases hlost dev hslot with ⟨hlisten, hlose⟩
          simp only [hblock, if_false, netOf]
          exact lostHandler_reaches hslot hlisten hevent (hlose hset) _
    · exact hnote _ _ hderef

/-- Nothing is lost in a turn: no listener is closed in a replaced block, and none has anything to
write. -/
def LosesNothing (sets : FdSets) (s : DispatchState) (answer : IoAnswer) : Prop :=
  s.More → ¬ StaleClose sets s answer ∧
    ∀ dev ∈ s.selector.toList, dev.driver = .listen → dev.tbuf.used = 0

/-- The pointer of a turn is good for its three tests. -/
theorem turn_pointed {p : Policy} (clock : Nat → UTime) {sets : FdSets} {s : DispatchState}
    {answer : IoAnswer} (hmore : s.More) (hlose : p.lose ∨ LosesNothing sets s answer) :
    let event := dispatchEvent clock sets answer s.selector.devs.block
    Pointed p sets s.selector.devs.block (event s .read) .write ∧
      Pointed p sets s.selector.devs.block (event (event s .read) .write) .except := by
  intro event
  rcases turn_cases clock sets s answer with ⟨-, hr, hw⟩ | ⟨hgrows, -, hsel, dev, hget, hlisten, hget'⟩
  · exact ⟨.inl hr.symm, .inl hw.symm⟩
  have hslot : ∀ t : DispatchState, t.selector = (event s .read).selector → t.index = s.index →
      ∀ dev', t.selector.toList[t.index]? = some dev' → dev' = dev := by
    intro t ht hindex dev' hdev'
    rw [ht, hindex, hget'] at hdev'
    exact (Option.some.inj hdev').symm
  constructor
  · refine .inr ⟨by simp, ?_⟩
    intro dev' hdev'
    rw [hslot _ rfl dispatchEvent_index dev' hdev']
    exact ⟨hlisten, fun _ => hlose.imp_right fun h =>
      ⟨rfl, (h hmore).2 dev (List.mem_of_getElem? hget) hlisten⟩⟩
  · refine .inr ⟨by simp, ?_⟩
    intro dev' hdev'
    have hindex : (event (event s .read) .write).index = s.index :=
      dispatchEvent_index.trans dispatchEvent_index
    rw [hslot _ hsel hindex dev' hdev']
    refine ⟨hlisten, fun hset => .inl (hlose.resolve_right ?_)⟩
    intro hnone
    exact (hnone hmore).1 ⟨hgrows, dev, by rwa [selectorGetDevice_eq], hset⟩

theorem dispatchStep_reaches {p : Policy} {clock : Nat → UTime} {sets : FdSets}
    {s : DispatchState} {answer : IoAnswer} (hkeep : TurnAll (EventKeeps p sets) clock sets s answer)
    (hlose : p.lose ∨ LosesNothing sets s answer) :
    NetReaches p (netOf s.selector s.world)
      (netOf (dispatchStep clock sets s answer).selector
        (dispatchStep clock sets s answer).world) := by
  unfold dispatchStep
  split
  · next hmore =>
    rcases hkeep hmore with ⟨hr, hw, hx⟩
    rcases turn_pointed clock hmore hlose with ⟨hpw, hpx⟩
    exact ((dispatchEvent_reaches clock hr (.inl rfl)).trans
      (dispatchEvent_reaches clock hw hpw)).trans (dispatchEvent_reaches clock hx hpx)
  · exact Reaches.refl _

/-- A round that comes to the dispatch. -/
theorem selectorRound_dispatch (clock : Nat → UTime) {a : RoundAnswers} {sets : FdSets}
    {sel : Selector} {w : World} :
    let s := selectorIoset clock a.opens sets sel w
    let r := select (s.highestFd + 1) s.sets a.select
    s.activeCount ≠ 0 → r.1 > 0 →
      let d := selectorDispatch clock r.2 a.ios r.1 s.selector s.world
      (selectorRound clock a sets sel w).2.2 = (d.selector, d.world) := by
  intro s r hactive hrdy
  unfold selectorRound
  dsimp only
  rw [if_neg hactive, if_pos hrdy]

/-- A condition on every turn of the dispatch of a round, if the round comes to it. -/
def RoundTurns (C : FdSets → DispatchState → IoAnswer → Prop) (clock : Nat → UTime)
    (a : RoundAnswers) (sets : FdSets) (sel : Selector) (w : World) : Prop :=
  let s := selectorIoset clock a.opens sets sel w
  let r := select (s.highestFd + 1) s.sets a.select
  s.activeCount ≠ 0 → r.1 > 0 →
    Along (dispatchStep clock r.2) (C r.2) ⟨0, r.1, s.selector, s.world⟩
      ((List.range (dispatchTurns r.1 s.selector)).map a.ios)

instance (C : FdSets → DispatchState → IoAnswer → Prop) [∀ sets s answer, Decidable (C sets s answer)]
    (clock : Nat → UTime) (a : RoundAnswers) (sets : FdSets) (sel : Selector) (w : World) :
    Decidable (RoundTurns C clock a sets sel w) := by
  delta RoundTurns
  infer_instance

theorem RoundTurns.and {C D : FdSets → DispatchState → IoAnswer → Prop} {clock : Nat → UTime}
    {a : RoundAnswers} {sets : FdSets} {sel : Selector} {w : World}
    (h : RoundTurns C clock a sets sel w) (h' : RoundTurns D clock a sets sel w) :
    RoundTurns (fun sets s answer => C sets s answer ∧ D sets s answer) clock a sets sel w :=
  fun hactive hrdy => (h hactive hrdy).and (h' hactive hrdy)

/-- A condition on the round as a whole, or one on its turns. -/
theorem RoundTurns.or_left {b : Prop} {C : FdSets → DispatchState → IoAnswer → Prop}
    {clock : Nat → UTime} {a : RoundAnswers} {sets : FdSets} {sel : Selector} {w : World}
    (h : b ∨ RoundTurns C clock a sets sel w) :
    RoundTurns (fun sets s answer => b ∨ C sets s answer) clock a sets sel w := by
  intro hactive hrdy
  rcases h with hb | h
  · exact Machine.along_of_forall (fun _ _ => .inl hb) _
  · exact (h hactive hrdy).of_invariant (fun _ => True) (fun _ _ _ _ => trivial)
      (fun _ _ _ h => .inr h) trivial

/-- A condition on every test of a round. -/
def RoundAll (K : FdSets → IoAnswer → DispatchState → IoEvent → Prop) (clock : Nat → UTime)
    (a : RoundAnswers) (sets : FdSets) (sel : Selector) (w : World) : Prop :=
  RoundTurns (fun sets => TurnAll (K sets) clock sets) clock a sets sel w

instance (K : FdSets → IoAnswer → DispatchState → IoEvent → Prop)
    [∀ sets answer s event, Decidable (K sets answer s event)] (clock : Nat → UTime)
    (a : RoundAnswers) (sets : FdSets) (sel : Selector) (w : World) :
    Decidable (RoundAll K clock a sets sel w) := by
  delta RoundAll
  infer_instance

/-- A turn of the select loop is a sequence of actions. -/
theorem selectorRound_reaches {p : Policy} {clock : Nat → UTime} {a : RoundAnswers}
    {sets : FdSets} {sel : Selector} {w : World} (hkeep : RoundAll (EventKeeps p) clock a sets sel w)
    (hlose : p.lose ∨ RoundTurns LosesNothing clock a sets sel w) :
    NetReaches p (netOf sel w) (netOf (selectorRound clock a sets sel w).2.2.1
      (selectorRound clock a sets sel w).2.2.2) := by
  have hioset := selectorIoset_reaches (p := p) clock a.opens sets sel w
  have hboth := RoundTurns.and hkeep (RoundTurns.or_left hlose)
  unfold selectorRound
  dsimp only
  split
  · exact hioset
  · next hactive =>
    split
    · next hrdy =>
      exact hioset.trans (Machine.run_simulates_along
        (fun s : DispatchState => netOf s.selector s.world)
        (fun _ _ h => dispatchStep_reaches h.1 h.2) (hboth hactive hrdy))
    · exact hioset

/-- What may be dropped is no condition. -/
theorem eventKeeps_losing {lose : Prop} (sets : FdSets) (answer : IoAnswer) (s : DispatchState)
    (event : IoEvent) : EventKeeps (.losing lose) sets answer s event := by
  intro dev _ _
  split
  · intro _ _ _ _ _ _ _
    trivial
  · intro _
    trivial

theorem turnAll_losing {lose : Prop} (clock : Nat → UTime) (sets : FdSets) (s : DispatchState)
    (answer : IoAnswer) : TurnAll (EventKeeps (.losing lose) sets) clock sets s answer :=
  fun _ => ⟨eventKeeps_losing _ _ _ _, eventKeeps_losing _ _ _ _, eventKeeps_losing _ _ _ _⟩

theorem selectorRound_losing {lose : Prop} (clock : Nat → UTime) {a : RoundAnswers} {sets : FdSets}
    {sel : Selector} {w : World} (hlose : lose ∨ RoundTurns LosesNothing clock a sets sel w) :
    NetReaches (.losing lose) (netOf sel w) (netOf (selectorRound clock a sets sel w).2.2.1
      (selectorRound clock a sets sel w).2.2.2) :=
  selectorRound_reaches
    (fun _ _ => Machine.along_of_forall (fun s answer => turnAll_losing clock _ s answer) _) hlose

/-- A turn, whatever it drops and loses. -/
theorem selectorRound_any (clock : Nat → UTime) (a : RoundAnswers) (sets : FdSets) (sel : Selector)
    (w : World) : NetReaches .any (netOf sel w) (netOf (selectorRound clock a sets sel w).2.2.1
      (selectorRound clock a sets sel w).2.2.2) := selectorRound_losing clock (.inl trivial)

/-! ## Sessions -/

theorem devAct_opens (s : Iodev × World) (a : DevAct) : s.2.opens ≤ (a.apply s).2.opens := by
  cases a with
  | opened => exact Nat.le_succ _
  | _ => exact le_rfl

theorem netAct_opens (n : Net) (a : NetAct) : n.world.opens ≤ (a.apply n).world.opens := by
  cases a with
  | device index a | lost index a =>
    simp only [NetAct.apply]
    split
    · next dev _ => exact devAct_opens (dev, n.world) a
    · exact le_rfl
  | note ev => exact le_rfl
  | accept fd bufsize slot => exact Nat.le_succ _

theorem netReaches_opens {p : Policy} {n n' : Net} (h : NetReaches p n n') :
    n.world.opens ≤ n'.world.opens :=
  h.preserves (fun m => n.world.opens ≤ m.world.opens)
    (fun m a hm _ => hm.trans (netAct_opens m a)) le_rfl

/-- A turn that closes a listener in a replaced block has opened a session. -/
theorem StaleClose.opens {sets : FdSets} {s : DispatchState} {answer : IoAnswer}
    (h : StaleClose sets s answer) (clock : Nat → UTime) (hmore : s.More) :
    s.world.opens < (dispatchStep clock sets s answer).world.opens := by
  let event := dispatchEvent clock sets answer s.selector.devs.block
  have hread : s.world.opens < (event s .read).world.opens := by
    rcases h.1 with ⟨dev, hget, hset, hlisten, ⟨fd, haccept, hfresh⟩, -⟩
    rw [selectorGetDevice_eq] at hget
    have hset : iodevIsSet dev (sets.get .read) := hset
    simp only [event, dispatchEvent_set hget hset, runHandler_accept ⟨rfl, hlisten⟩]
    rcases tcpAcceptHandler_cases answer dev s.selector (s.call s.selector.devs.block .read dev) with
      ⟨hnone, -⟩ | ⟨_, -, -, heq⟩
    · exact absurd (hnone fd haccept) hfresh
    · rw [heq]
      exact Nat.lt_succ_self _
  rcases turn_pointed (p := .any) clock hmore (.inl trivial) with ⟨hpw, hpx⟩
  have hwrite := netReaches_opens
    (dispatchEvent_reaches clock (eventKeeps_losing sets answer _ .write) hpw)
  have hexcept := netReaches_opens
    (dispatchEvent_reaches clock (eventKeeps_losing sets answer _ .except) hpx)
  rw [dispatchStep, if_pos hmore]
  exact hread.trans_le (hwrite.trans hexcept)

/-! ## What a turn logs -/

/-- Events that the actions of a turn log. -/
def Ev.IsIo : Ev → Prop
  | .opened .. | .closed .. | .registered .. | .deref .. | .called .. | .received .. | .sent .. =>
    True
  | _ => False

theorem Ev.IsNote.isIo {ev : Ev} (h : ev.IsNote) : ev.IsIo := by
  cases ev <;> trivial

theorem devAct_log {p : Policy} (s : Iodev × World) (a : DevAct) (hok : a.Ok p s) :
    Adds Ev.IsIo s.2.log (a.apply s).2.log := by
  cases a with
  | tick | pace _ | refused | retired | dropped => exact Adds.refl _
  | note ev => exact Adds.single hok.isIo _
  | opened fd state => exact Adds.single trivial _
  | released => exact Adds.single trivial _
  | received bytes => exact Adds.single trivial _
  | sent n => exact Adds.single trivial _

theorem netAct_log {p : Policy} (n : Net) (a : NetAct) (hok : a.Ok p n) :
    Adds Ev.IsIo n.world.log (a.apply n).world.log := by
  cases a with
  | device index a =>
    rcases hok with ⟨dev, hget, hok⟩
    simp only [NetAct.apply, hget]
    exact devAct_log (dev, n.world) a hok
  | lost index a =>
    rcases hok with ⟨-, dev, hget, -, ⟨rfl, -⟩ | ⟨k, rfl⟩⟩
    all_goals
      simp only [NetAct.apply, hget]
      exact Adds.single trivial _
  | note ev => exact Adds.single hok.isIo _
  | accept fd bufsize slot => exact Adds.single trivial _

theorem netReaches_log {p : Policy} {n n' : Net} (h : NetReaches p n n') :
    Adds Ev.IsIo n.world.log n'.world.log :=
  h.preserves (fun m => Adds Ev.IsIo n.world.log m.world.log)
    (fun m a hm hok => hm.trans (netAct_log m a hok)) (Adds.refl _)

end Hdmi2usbd
