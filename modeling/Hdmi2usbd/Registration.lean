import Hdmi2usbd.Ownership

/-!
# Registration — the descriptor sets that a round gives to `select`

Each device clears its own descriptor in the sets and sets it again for the events it waits
for; a descriptor that no device holds is left as it was. After `selector_ioset` the bits of a
device that was open before it are exactly the events that it has registered
(`ioset_registered`).
-/

namespace Hdmi2usbd

open Machine (run)

/-! ## Opening -/

/-- Events of the open functions. -/
def Ev.IsOpening : Ev → Prop
  | .opened .. | .closed .. => True
  | _ => False

/-- What is left after an open of a device that held no descriptor: none, or that of a new
session. -/
def OpenedFrom (w : World) (r : Iodev × World) : Prop :=
  (r.1.fd = -1 ∨ w.opens < r.1.session) ∧ w.opens ≤ r.2.opens ∧ Adds Ev.IsOpening w.log r.2.log

/-- An opening that is undone, as when the terminal could not be set up. -/
theorem openedFrom_close {dev : Iodev} {driver : Driver} {fd : Nat} {w : World} {flags : Nat}
    (hflags : flags &&& ioflagFlush = 0) (h : dev.state.holds) :
    OpenedFrom w (iodevClose dev flags { w with
      fds := insert (fd : Int) w.fds
      opens := w.opens + 1
      log := w.log ++ [.opened driver (w.opens + 1) fd] }) := by
  rw [iodevClose_holds h hflags]
  exact ⟨.inl rfl, Nat.le_succ _, (Adds.single trivial _).trans (Adds.single trivial _)⟩

theorem openedFrom_refused {dev : Iodev} (hfd : dev.fd = -1) (w : World) : OpenedFrom w (dev, w) :=
  ⟨.inl hfd, le_rfl, Adds.refl _⟩

theorem iodevOpenDevice_opened {dev : Iodev} (h : ¬ dev.state.holds) (hfd : dev.fd = -1)
    (answer : OpenAnswer) (w : World) : OpenedFrom w (iodevOpenDevice answer dev w) := by
  -- `open` closes the device first, which does nothing to a closed one
  have hclosed : closeIfOpen dev w = (dev, w) := by
    have : ¬ iodevIsOpen dev := fun hopen => h (holds_of_isOpen hopen)
    simp [closeIfOpen, this]
  unfold iodevOpenDevice
  cases dev.driver with
  | accepted =>
    simp only [tcpOpen, hclosed]
    exact openedFrom_refused hfd w
  | serial =>
    simp only [serialOpen, hclosed]
    rcases w.openFd_cases .serial answer.fd with hno | ⟨fd, -, -, hyes⟩
    · rw [hno]
      exact openedFrom_refused rfl w
    · have hne : ((fd : Nat) : Int) ≠ -1 := by omega
      rw [hyes]
      simp only [hne, if_false]
      split
      · exact ⟨.inr (Nat.lt_succ_self _), Nat.le_succ _, Adds.single trivial _⟩
      · -- the terminal could not be set up
        exact openedFrom_close rfl rfl
  | listen =>
    simp only [tcpOpenListen, hclosed, hfd, if_true]
    rcases w.openFd_cases .listen answer.fd with hno | ⟨fd, -, -, hyes⟩
    · rw [hno]
      exact openedFrom_refused rfl w
    · have hne : ((fd : Nat) : Int) ≠ -1 := by omega
      rw [hyes]
      simp only [hne, if_false]
      split
      · -- `bind` has failed
        exact openedFrom_close rfl rfl
      split
      · exact openedFrom_close rfl rfl
      · exact ⟨.inr (Nat.lt_succ_self _), Nat.le_succ _, Adds.single trivial _⟩

/-! ## One device -/

/-- The sets and the world while the device `dev` registers: its bits are the events it has
registered, and the other bits are as before. -/
structure Marked (dev : Iodev) (sets : FdSets) (w : World) (s : FdSets × World) (evs : List Ev) :
    Prop where
  log : s.2.log = w.log ++ evs
  opens : s.2.opens = w.opens
  registered : ∀ e session fd, .registered e session fd ∈ evs ↔
    session = dev.session ∧ fd = dev.fd ∧ dev.fd ∈ s.1.get e
  others : ∀ e fd, fd ≠ dev.fd → (fd ∈ s.1.get e ↔ fd ∈ sets.get e)

section Marking

variable {dev : Iodev} {sets : FdSets} {w : World} {s : FdSets × World} {evs : List Ev}

/-- At first the device has no bit. -/
theorem marked_clear (hfd : 0 ≤ dev.fd) {w' : World} (hlog : w'.log = w.log)
    (hopens : w'.opens = w.opens) : Marked dev sets w (clearMasks dev sets, w') [] := by
  have hclear : clearMasks dev sets = sets.clr dev.fd := if_pos hfd
  rw [hclear]
  refine ⟨by rw [hlog, List.append_nil], hopens, by simp, ?_⟩
  intro e fd hne
  simp [hne]

theorem Marked.fdSet (h : Marked dev sets w s evs) (event : IoEvent) :
    Marked dev sets w (fdSet event dev s) (evs ++ [.registered event dev.session dev.fd]) := by
  refine ⟨?_, h.opens, ?_, ?_⟩
  · simp [Hdmi2usbd.fdSet, h.log]
  · intro e session fd
    have hold := h.registered e session fd
    simp only [Hdmi2usbd.fdSet, List.mem_append, hold, List.mem_singleton, Ev.registered.injEq,
      FdSets.mem_get_set, true_and]
    constructor
    · rintro (⟨hs, hf, hmem⟩ | ⟨he, hs, hf⟩)
      · exact ⟨hs, hf, .inr hmem⟩
      · exact ⟨hs, hf, .inl he⟩
    · rintro ⟨hs, hf, he | hmem⟩
      · exact .inr ⟨he, hs, hf⟩
      · exact .inl ⟨hs, hf, hmem⟩
  · intro e fd hne
    simp only [Hdmi2usbd.fdSet, FdSets.mem_get_set, hne, false_and, false_or]
    exact h.others e fd hne

theorem Marked.fdSet_if (h : Marked dev sets w s evs) (b : Prop) [Decidable b] (event : IoEvent) :
    ∃ evs', Marked dev sets w (if b then Hdmi2usbd.fdSet event dev s else s) evs' := by
  split
  · exact ⟨_, h.fdSet event⟩
  · exact ⟨_, h⟩

end Marking

/-- What `set_masks` does for the device `dev`: the device stays and has the bits it has
registered, or it registers nothing and is closed or of a new session. -/
structure Masked (dev : Iodev) (sets : FdSets) (w : World) (m : Masks) (evs : List Ev) : Prop where
  log : m.world.log = w.log ++ evs
  opens : w.opens ≤ m.world.opens
  registered : ∀ e session fd, .registered e session fd ∈ evs ↔
    session = dev.session ∧ fd = dev.fd ∧ dev.fd ≠ -1 ∧ dev.fd ∈ m.sets.get e
  others : ∀ e fd, fd ≠ -1 → fd ≠ dev.fd → (fd ∈ m.sets.get e ↔ fd ∈ sets.get e)
  device : m.dev = dev ∨ (m.dev.fd = -1 ∨ w.opens < m.dev.session) ∧
    ∀ e session fd, .registered e session fd ∉ evs
  active : ∀ e session fd, .registered e session fd ∈ evs → m.active

section Masking

variable {clock : Nat → UTime} {answer : OpenAnswer} {dev : Iodev} {sets : FdSets} {w : World}

/-- A device that holds a descriptor afterwards, and is no newer, is the one that was there before. -/
theorem Masked.device_eq {m : Masks} {evs : List Ev} (h : Masked dev sets w m evs)
    (hfd : m.dev.fd ≠ -1) (hold : m.dev.session ≤ w.opens) : m.dev = dev := by
  rcases h.device with hsame | ⟨hclosed | hnew, -⟩
  · exact hsame
  · exact absurd hclosed hfd
  · omega

theorem Marked.masked {s : FdSets × World} {evs : List Ev} (h : Marked dev sets w s evs)
    (hfd : dev.fd ≠ -1) {active : Bool} (hactive : evs = [] ∨ active) :
    Masked dev sets w ⟨active, dev, s.1, s.2⟩ evs where
  log := h.log
  opens := Nat.le_of_eq h.opens.symm
  registered := by
    intro e session fd
    rw [h.registered]
    simp [hfd]
  others e fd _ hne := h.others e fd hne
  device := .inl rfl
  active := by
    intro e session fd hmem
    exact hactive.resolve_left (List.ne_nil_of_mem hmem)

theorem OpenedFrom.masked {r : Iodev × World} (h : OpenedFrom w r) (hfd : dev.fd = -1)
    (sets : FdSets) (active : Bool) : ∃ evs, Masked dev sets w ⟨active, r.1, sets, r.2⟩ evs := by
  rcases h with ⟨hdev, hopens, evs, hlog, hevs⟩
  have hnone : ∀ e session fd, .registered e session fd ∉ evs := fun _ _ _ hmem => hevs _ hmem
  refine ⟨evs, hlog, hopens, ?_, fun _ _ _ _ => Iff.rfl, .inr ⟨hdev, hnone⟩,
    fun e session fd hmem => absurd hmem (hnone e session fd)⟩
  intro e session fd
  exact iff_of_false (hnone e session fd) (fun hreg => hreg.2.2.1 hfd)

/-- A device without a descriptor is opened, or stays as it is. -/
theorem setMasks_masked_closed (h : ¬ dev.state.holds) (hfd : dev.fd = -1) :
    ∃ evs, Masked dev sets w (setMasks clock answer dev sets w) evs := by
  have hclear : clearMasks dev sets = sets := if_neg (by rw [hfd]; decide)
  have hopen := (iodevOpenDevice_opened h hfd answer w).masked hfd sets false
  have hsame := (openedFrom_refused hfd w).masked hfd sets false
  unfold setMasks iodevSetMasks tcpSetMasksListen
  simp only [hclear]
  cases dev.driver <;> cases hs : dev.state <;>
    first
    | exact hopen
    | exact hsame
    | exact absurd (by rw [hs]; rfl) h

/-- A device with a descriptor. -/
theorem setMasks_masked_open (h : dev.state.holds) (hfd : 0 ≤ dev.fd) :
    ∃ evs, Masked dev sets w (setMasks clock answer dev sets w) evs := by
  have hne : dev.fd ≠ -1 := by omega
  have hclear : Marked dev sets w (clearMasks dev sets, w) [] := marked_clear hfd rfl rfl
  -- the serial device and the connections share `iodev_set_masks`
  have hgeneric : ∃ evs, Masked dev sets w (iodevSetMasks clock answer dev sets w) evs := by
    unfold iodevSetMasks
    cases hs : dev.state with
    | iodevNone | iodevInactive | iodevClosed =>
      rw [hs] at h
      cases h
    | iodevPending => exact ⟨_, (hclear.fdSet .read).masked hne (.inr rfl)⟩
    | iodevOpen | iodevConnected | iodevActive =>
      rcases hclear.fdSet_if (dev.rbuf.available > 0) .read with ⟨_, hr⟩
      rcases hr.fdSet_if (dev.tbuf.used > 0) .write with ⟨_, hw⟩
      exact ⟨_, (hw.fdSet .except).masked hne (.inr rfl)⟩
    | iodevClosing =>
      dsimp only
      split
      · -- the check of the pacer takes at most a reading of the clock
        have hsend : Marked dev sets w (clearMasks dev sets, (iodevSendok clock dev w).2) [] := by
          unfold iodevSendok
          split
          · exact marked_clear hfd (World.expired_log w clock _) (World.expired_opens w clock _)
          · exact hclear
        split
        · exact ⟨_, ((hsend.fdSet .write).fdSet .except).masked hne (.inr rfl)⟩
        · exact ⟨_, hsend.masked hne (.inr rfl)⟩
      · -- all is sent: the device is closed, and its bits stay cleared
        rw [iodevClose_holds (by rw [hs]; rfl) rfl]
        refine ⟨[.closed dev.session dev.fd], rfl, le_rfl, ?_, fun e fd _ hfd => hclear.others e fd hfd,
          .inr ⟨.inl rfl, by simp⟩, by simp⟩
        intro e session fd
        refine iff_of_false (by simp) ?_
        rintro ⟨-, -, -, hmem⟩
        exact absurd ((hclear.registered e dev.session dev.fd).mpr ⟨rfl, rfl, hmem⟩) (by simp)
  unfold setMasks
  cases dev.driver with
  | serial | accepted => exact hgeneric
  | listen =>
    unfold tcpSetMasksListen
    cases hs : dev.state with
    | iodevNone | iodevInactive | iodevClosed =>
      rw [hs] at h
      cases h
    | iodevClosing => exact ⟨_, hclear.masked hne (.inl rfl)⟩
    | iodevPending | iodevOpen | iodevConnected | iodevActive =>
      exact ⟨_, ((hclear.fdSet .read).fdSet .except).masked hne (.inr rfl)⟩

theorem setMasks_masked {index : Nat} (h : dev.Seated w index) (clock : Nat → UTime)
    (answer : OpenAnswer) (sets : FdSets) :
    ∃ evs, Masked dev sets w (setMasks clock answer dev sets w) evs := by
  by_cases hholds : dev.state.holds
  · exact setMasks_masked_open hholds (h.fd (h.held.mpr hholds))
  · exact setMasks_masked_closed hholds (not_not.mp fun hfd => hholds (h.held.mp hfd))

end Masking

/-! ## The loop -/

/-- The loop of `selector_ioset`, after the slots below `index`: `evs` is what it has logged. -/
structure Registering (devs : List Iodev) (w : World) (index : Nat) (s : IosetState)
    (evs : List Ev) : Prop where
  owned : Owned (netOf s.selector s.world)
  log : s.world.log = w.log ++ evs
  opens : w.opens ≤ s.world.opens
  ahead : ∀ i, index ≤ i → s.selector.toList[i]? = devs[i]?
  /-- a device that was there before has exactly the bits that it has registered -/
  bits : ∀ i dev, i < index → s.selector.toList[i]? = some dev → dev.fd ≠ -1 →
    dev.session ≤ w.opens →
    ∀ e, dev.fd ∈ s.sets.get e ↔ .registered e dev.session dev.fd ∈ evs
  registered : ∀ e session fd, .registered e session fd ∈ evs → session ≤ w.opens ∧
    ∃ i dev, i < index ∧ s.selector.toList[i]? = some dev ∧ dev.session = session ∧
      dev.fd = fd ∧ dev.fd ≠ -1
  below : ∀ e session fd, .registered e session fd ∈ evs → fd ≤ s.highestFd

theorem registering_init {sel : Selector} {w : World} (h : Owned (netOf sel w)) (sets : FdSets) :
    Registering sel.toList w 0 ⟨sel, sets, w, 0, 0⟩ [] where
  owned := h
  log := (List.append_nil _).symm
  opens := le_rfl
  ahead _ _ := rfl
  bits _ _ hi := absurd hi (Nat.not_lt_zero _)
  registered := by simp
  below := by simp

variable {clock : Nat → UTime} {opens : Nat → OpenAnswer} {devs : List Iodev} {w : World}
  {index : Nat} {s : IosetState} {evs : List Ev}

theorem iosetStep_none (h : s.selector.toList[index]? = none) : iosetStep clock opens s index = s := by
  simp [iosetStep, selectorGetDevice_eq, h]

theorem iosetStep_some {dev : Iodev} (h : s.selector.toList[index]? = some dev)
    (clock : Nat → UTime) (opens : Nat → OpenAnswer) :
    (iosetStep clock opens s index).selector.toList =
        s.selector.toList.set index (setMasks clock (opens index) dev s.sets s.world).dev ∧
      (iosetStep clock opens s index).sets = (setMasks clock (opens index) dev s.sets s.world).sets ∧
      (iosetStep clock opens s index).world =
        (setMasks clock (opens index) dev s.sets s.world).world ∧
      (iosetStep clock opens s index).highestFd =
        if (setMasks clock (opens index) dev s.sets s.world).active then
          max s.highestFd (setMasks clock (opens index) dev s.sets s.world).dev.fd
        else s.highestFd := by
  simp [iosetStep, selectorGetDevice_eq, h]

/-- Past the end of the array. -/
theorem Registering.skip (h : Registering devs w index s evs)
    (hget : s.selector.toList[index]? = none) : Registering devs w (index + 1) s evs := by
  have hend : ∀ i dev, s.selector.toList[i]? = some dev → i < index := by
    intro i dev hdev
    have := (List.getElem?_eq_some_iff.mp hdev).1
    have := List.getElem?_eq_none_iff.mp hget
    omega
  refine ⟨h.owned, h.log, h.opens, fun i hi => h.ahead i (by omega), ?_, ?_, h.below⟩
  · intro i dev _ hdev
    exact h.bits i dev (hend i dev hdev) hdev
  · intro e session fd hmem
    rcases h.registered e session fd hmem with ⟨hold, i, dev, hi, hdev⟩
    exact ⟨hold, i, dev, by omega, hdev⟩

/-- A device whose turn has not come has registered nothing. -/
theorem Registering.not_yet (h : Registering devs w index s evs) {dev : Iodev}
    (hget : s.selector.toList[index]? = some dev) (e : IoEvent) (session : Nat) :
    .registered e session dev.fd ∉ evs := by
  intro hmem
  rcases h.registered e session dev.fd hmem with ⟨-, i, x, hi, hx, -, hfd, hne⟩
  exact hne (h.owned.apart i index x dev (Nat.ne_of_lt hi) hx hget hfd)

/-- The device at `index` registers. -/
theorem Registering.register (h : Registering devs w index s evs) {dev : Iodev}
    (hget : s.selector.toList[index]? = some dev) (hsession : dev.session ≤ w.opens)
    {m : Masks} {new : List Ev} (hmask : Masked dev s.sets s.world m new) {s' : IosetState}
    (hlist : s'.selector.toList = s.selector.toList.set index m.dev) (hsets : s'.sets = m.sets)
    (hworld : s'.world = m.world)
    (hhighest : s'.highestFd = if m.active then max s.highestFd m.dev.fd else s.highestFd)
    (howned : Owned (netOf s'.selector s'.world)) :
    Registering devs w (index + 1) s' (evs ++ new) := by
  have hslot : s'.selector.toList[index]? = some m.dev := by
    rw [hlist, List.getElem?_set_self (List.getElem?_eq_some_iff.mp hget).1]
  have hother : ∀ i, i ≠ index → s'.selector.toList[i]? = s.selector.toList[i]? := by
    intro i hi
    rw [hlist, List.getElem?_set_ne (fun heq => hi heq.symm)]
  -- no two devices have one descriptor
  have hapart : ∀ i x, i ≠ index → s.selector.toList[i]? = some x → x.fd ≠ -1 → x.fd ≠ dev.fd := by
    intro i x hi hx hfd heq
    exact hfd (h.owned.apart i index x dev hi hx hget heq)
  refine ⟨howned, ?_, ?_, ?_, ?_, ?_, ?_⟩
  · rw [hworld, hmask.log, h.log, List.append_assoc]
  · rw [hworld]
    exact h.opens.trans hmask.opens
  · intro i hi
    rw [hother i (by omega)]
    exact h.ahead i (by omega)
  · intro i x hi hx hfd hold e
    rw [hsets, List.mem_append]
    by_cases heq : i = index
    · rw [heq, hslot, Option.some.injEq] at hx
      subst hx
      have hsame := hmask.device_eq hfd (hold.trans h.opens)
      rw [hsame] at hfd ⊢
      simp [hmask.registered, h.not_yet hget, hfd]
    · -- the turn leaves the bits of another device as they are
      rw [hother i heq] at hx
      have hne := hapart i x heq hx hfd
      have hno : .registered e x.session x.fd ∉ new := by
        intro hmem
        exact hne ((hmask.registered e _ _).mp hmem).2.1
      rw [hmask.others e x.fd hfd hne, h.bits i x (by omega) hx hfd hold]
      simp [hno]
  · intro e session fd hmem
    rcases List.mem_append.mp hmem with hmem | hmem
    · rcases h.registered e session fd hmem with ⟨hold, i, x, hi, hx, hrest⟩
      refine ⟨hold, i, x, by omega, ?_, hrest⟩
      rwa [hother i (by omega)]
    · rcases (hmask.registered e session fd).mp hmem with ⟨hs, hf, hfd, -⟩
      have hsame := hmask.device.resolve_right fun hno => hno.2 e session fd hmem
      refine ⟨by rwa [hs], index, dev, Nat.lt_succ_self _, ?_, hs.symm, hf.symm, hfd⟩
      rw [hslot, hsame]
  · intro e session fd hmem
    rw [hhighest]
    rcases List.mem_append.mp hmem with hmem | hmem
    · have := h.below e session fd hmem
      split <;> omega
    · have hsame := hmask.device.resolve_right fun hno => hno.2 e session fd hmem
      have hfd := ((hmask.registered e session fd).mp hmem).2.1
      rw [if_pos (hmask.active e session fd hmem), hsame]
      omega

/-- The body of the loop. -/
theorem Registering.step (h : Registering devs w index s evs) (hinit : Owned ⟨devs, w⟩) :
    ∃ evs', Registering devs w (index + 1) (iosetStep clock opens s index) evs' := by
  cases hget : s.selector.toList[index]? with
  | none =>
    rw [iosetStep_none hget]
    exact ⟨evs, h.skip hget⟩
  | some dev =>
    have hdev : dev.Seated s.world index := h.owned.devs index dev hget
    have hbefore : devs[index]? = some dev := by rw [← h.ahead index le_rfl, hget]
    rcases setMasks_masked hdev clock (opens index) s.sets with ⟨new, hmask⟩
    rcases iosetStep_some hget clock opens with ⟨hlist, hsets, hworld, hhighest⟩
    exact ⟨evs ++ new, h.register hget (hinit.devs index dev hbefore).session hmask hlist hsets hworld
      hhighest (netReaches_owned (p := .losing False) id h.owned (iosetStep_reaches s index))⟩

/-- After the loop: the bits of a device that was there before are what it has registered. -/
theorem Registering.mem_sets (h : Registering devs w devs.length s evs) {dev : Iodev}
    (hdev : dev ∈ s.selector.toList) (hold : dev.session ≤ w.opens) (e : IoEvent) :
    iodevIsSet dev (s.sets.get e) ↔ .registered e dev.session dev.fd ∈ evs := by
  rcases List.mem_iff_getElem?.mp hdev with ⟨i, hget⟩
  have hi : i < devs.length := by
    by_contra hge
    have hbeyond := h.ahead i (Nat.le_of_not_lt hge)
    rw [hget, List.getElem?_eq_none (Nat.le_of_not_lt hge)] at hbeyond
    cases hbeyond
  rw [iodevIsSet_iff]
  constructor
  · rintro ⟨hne, hin⟩
    exact (h.bits i dev hi hget hne hold e).mp hin
  · intro hmem
    rcases h.registered e dev.session dev.fd hmem with ⟨-, -, x, -, -, -, hfd, hne⟩
    rw [hfd] at hne
    exact ⟨hne, (h.bits i dev hi hget hne hold e).mpr hmem⟩

/-- Before `select`, the bits of a device that was there before the round are the events it has
registered, and only such devices have registered anything. -/
theorem ioset_registered (clock : Nat → UTime) (opens : Nat → OpenAnswer) {sel : Selector}
    (h : Owned (netOf sel w)) (sets : FdSets) :
    ∃ evs, Registering sel.toList w (selectorDeviceCount sel)
      (selectorIoset clock opens sets sel w) evs := by
  have hstep : ∀ index s, 0 ≤ index → (∃ evs, Registering sel.toList w index s evs) →
      ∃ evs, Registering sel.toList w (index + 1) (iosetStep clock opens s index) evs := by
    rintro index s - ⟨evs, hs⟩
    exact hs.step h
  have hloop := Machine.run_range' (fun index s => ∃ evs, Registering sel.toList w index s evs)
    hstep ⟨[], registering_init h sets⟩ (selectorDeviceCount sel)
  rw [Nat.zero_add, ← List.range_eq_range'] at hloop
  exact hloop

end Hdmi2usbd
