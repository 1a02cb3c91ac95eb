import Hdmi2usbd.Readiness

/-!
# Interest — what `select` is asked for

A device is interested in the events that it waits for in its state. Before `select` each device
clears the bits of its descriptor and sets those it is interested in. The bits of a number that
no device holds are left over: `selector_loop` clears its sets once, before the first round, and
a handler that closes a device leaves the bit of its descriptor set.

So `select` is given exactly the interest of the devices if and only if no number is left over in
the sets, in every run that loses no close (`select_exact_iff`).
-/

namespace Hdmi2usbd

open Machine (Along run)

variable (clock : Nat → UTime)

/-! ## The interest of a device -/

/-- A listener that waits for connections. -/
def listens (dev : Iodev) : Prop :=
  dev.state = .iodevPending ∨ dev.state = .iodevOpen ∨ dev.state = .iodevConnected ∨
    dev.state = .iodevActive

instance (dev : Iodev) : Decidable (listens dev) := inferInstanceAs (Decidable (_ ∨ _))

/-- A closing device that may send what it has left. -/
def drains (dev : Iodev) (w : World) : Prop :=
  dev.state = .iodevClosing ∧ dev.tbuf.used > 0 ∧ (iodevSendok clock dev w).1

/-- The events that a device waits for. -/
def Interested (dev : Iodev) (w : World) : IoEvent → Prop
  | .read =>
    if dev.driver = .listen then listens dev
    else dev.state = .iodevPending ∨ (iodevIsOpen dev ∧ dev.rbuf.available > 0)
  | .write => dev.driver ≠ .listen ∧ ((iodevIsOpen dev ∧ dev.tbuf.used > 0) ∨ drains clock dev w)
  | .except => if dev.driver = .listen then listens dev else iodevIsOpen dev ∨ drains clock dev w

/-- The device reports that it is active. -/
def reportsActive (dev : Iodev) : Prop :=
  if dev.driver = .listen then listens dev
  else listens dev ∨ (dev.state = .iodevClosing ∧ dev.tbuf.used > 0)

instance (dev : Iodev) : Decidable (reportsActive dev) := by
  delta reportsActive
  infer_instance

/-- Only an active device is interested in anything. -/
theorem Interested.active {dev : Iodev} {w : World} {e : IoEvent} (h : Interested clock dev w e) :
    reportsActive dev := by
  have hopen : iodevIsOpen dev → listens dev := by
    unfold iodevIsOpen listens
    cases dev.state <;> simp [DevState.toNat]
  have hdrains : drains clock dev w → dev.state = .iodevClosing ∧ dev.tbuf.used > 0 :=
    fun h => ⟨h.1, h.2.1⟩
  unfold reportsActive
  cases e with
  | read =>
    simp only [Interested] at h
    split at h
    · rw [if_pos ‹_›]
      exact h
    · rw [if_neg ‹_›]
      exact .inl (h.elim .inl fun hopen' => hopen hopen'.1)
  | write =>
    rw [if_neg h.1]
    exact h.2.elim (fun h => .inl (hopen h.1)) (fun h => .inr (hdrains h))
  | except =>
    simp only [Interested] at h
    split at h
    · rw [if_pos ‹_›]
      exact h
    · rw [if_neg ‹_›]
      exact h.elim (fun h => .inl (hopen h)) (fun h => .inr (hdrains h))

/-- Only the serial device looks at the clock. -/
theorem interested_world {dev : Iodev} (h : dev.driver ≠ .serial) (w w' : World) (e : IoEvent) :
    Interested clock dev w e ↔ Interested clock dev w' e := by
  have hsend : ∀ w, (iodevSendok clock dev w).1 = true := by
    intro w
    unfold iodevSendok
    split
    · next hd => exact absurd hd h
    · rfl
  cases e <;> simp only [Interested, drains, hsend]

/-! ## One device -/

theorem mem_clearMasks (dev : Iodev) (sets : FdSets) (e : IoEvent) (fd : Int) :
    fd ∈ (clearMasks dev sets).get e ↔ (fd = dev.fd → fd < 0) ∧ fd ∈ sets.get e := by
  unfold clearMasks
  split
  · rw [FdSets.get_clr, Finset.mem_erase]
    refine and_congr_left fun _ => ⟨fun hne heq => absurd heq hne, fun hneg heq => ?_⟩
    have := hneg heq
    omega
  · exact ⟨fun h => ⟨by omega, h⟩, fun h => h.2⟩

theorem mem_fdSet (event : IoEvent) (dev : Iodev) (s : FdSets × World) (e : IoEvent) (fd : Int) :
    fd ∈ (fdSet event dev s).1.get e ↔ (fd = dev.fd ∧ e = event) ∨ fd ∈ s.1.get e :=
  FdSets.mem_get_set s.1 event e dev.fd fd

theorem mem_fdSet_if (b : Prop) [Decidable b] (event : IoEvent) (dev : Iodev) (s : FdSets × World)
    (e : IoEvent) (fd : Int) : fd ∈ (if b then fdSet event dev s else s).1.get e ↔
      (b ∧ fd = dev.fd ∧ e = event) ∨ fd ∈ s.1.get e := by
  by_cases hb : b
  · simp [hb, mem_fdSet]
  · simp [hb]

/-- What `set_masks` asks for: the device has the bits of the events it is interested in, and the
bits of other numbers are as they were. An active device stays as it is. -/
structure Asks (dev : Iodev) (sets : FdSets) (w : World) (m : Masks) : Prop where
  active : m.active ↔ reportsActive dev
  stays : reportsActive dev → m.dev = dev
  bits : ∀ e fd, fd ∈ m.sets.get e ↔
    (fd = dev.fd ∧ Interested clock dev w e) ∨ ((fd = dev.fd → fd < 0) ∧ fd ∈ sets.get e)

theorem asks_nothing {dev : Iodev} (h : ¬ reportsActive dev) (dev' : Iodev) (sets : FdSets)
    (w w' : World) : Asks clock dev sets w ⟨false, dev', clearMasks dev sets, w'⟩ := by
  refine ⟨iff_of_false Bool.false_ne_true h, fun hactive => absurd hactive h, ?_⟩
  intro e fd
  have hnone : ¬ Interested clock dev w e := fun hinterested => h (hinterested.active clock)
  simp [mem_clearMasks, hnone]

theorem asks_bits {dev : Iodev} (h : reportsActive dev) {sets : FdSets} {w : World}
    {s : FdSets × World}
    (hbits : ∀ e fd, fd ∈ s.1.get e ↔
      (fd = dev.fd ∧ Interested clock dev w e) ∨ fd ∈ (clearMasks dev sets).get e) :
    Asks clock dev sets w ⟨true, dev, s.1, s.2⟩ := by
  refine ⟨iff_of_true rfl h, fun _ => rfl, ?_⟩
  intro e fd
  rw [← mem_clearMasks]
  exact hbits e fd

theorem tcpSetMasksListen_asks {dev : Iodev} (hd : dev.driver = .listen) (answer : OpenAnswer)
    (sets : FdSets) (w : World) : Asks clock dev sets w (tcpSetMasksListen answer dev sets w) := by
  have hlistens : reportsActive dev ↔ listens dev := by simp [reportsActive, hd]
  unfold tcpSetMasksListen
  cases hs : dev.state with
  | iodevNone | iodevInactive | iodevClosed | iodevClosing =>
    exact asks_nothing clock (by simp [hlistens, listens, hs]) _ sets w _
  | iodevPending | iodevOpen | iodevConnected | iodevActive =>
    have hactive : listens dev := by simp [listens, hs]
    refine asks_bits clock (hlistens.mpr hactive) ?_
    intro e fd
    rw [mem_fdSet, mem_fdSet]
    cases e <;> simp [Interested, hd, hactive]

theorem iodevSetMasks_asks {dev : Iodev} (hd : dev.driver ≠ .listen) (answer : OpenAnswer)
    (sets : FdSets) (w : World) :
    Asks clock dev sets w (iodevSetMasks clock answer dev sets w) := by
  have hreports : reportsActive dev ↔
      listens dev ∨ (dev.state = .iodevClosing ∧ dev.tbuf.used > 0) := by simp [reportsActive, hd]
  unfold iodevSetMasks
  cases hs : dev.state with
  | iodevNone | iodevInactive | iodevClosed =>
    exact asks_nothing clock (by simp [hreports, listens, hs]) _ sets w _
  | iodevClosing =>
    dsimp only
    split
    · next hused =>
      refine asks_bits clock (hreports.mpr (.inr ⟨hs, hused⟩)) ?_
      intro e fd
      split
      · next hok =>
        rw [mem_fdSet, mem_fdSet]
        cases e <;> simp [Interested, drains, hd, hs, hused, hok, iodevIsOpen, DevState.toNat]
      · next hok =>
        cases e <;> simp [Interested, drains, hd, hs, hok, iodevIsOpen, DevState.toNat]
    · next hused =>
      exact asks_nothing clock (by simp [hreports, listens, hs, hused]) _ sets w _
  | iodevPending =>
    refine asks_bits clock (hreports.mpr (.inl (by simp [listens, hs]))) ?_
    intro e fd
    rw [mem_fdSet]
    cases e <;> simp [Interested, drains, hd, hs, iodevIsOpen, DevState.toNat]
  | iodevOpen | iodevConnected | iodevActive =>
    refine asks_bits clock (hreports.mpr (.inl (by simp [listens, hs]))) ?_
    intro e fd
    rw [mem_fdSet, mem_fdSet_if, mem_fdSet_if]
    cases e <;> simp [Interested, drains, hd, hs, iodevIsOpen, DevState.toNat, and_comm]

theorem setMasks_asks (dev : Iodev) (answer : OpenAnswer) (sets : FdSets) (w : World) :
    Asks clock dev sets w (setMasks clock answer dev sets w) := by
  unfold setMasks
  cases hd : dev.driver with
  | listen => exact tcpSetMasksListen_asks clock hd answer sets w
  | serial | accepted => exact iodevSetMasks_asks clock (by simp [hd]) answer sets w

/-! ## The loop of `selector_ioset` -/

theorem iosetStep_eq {opens : Nat → OpenAnswer} {s : IosetState} {index : Nat} {dev : Iodev}
    (hget : s.selector.toList[index]? = some dev) : iosetStep clock opens s index =
      { selector := s.selector.store index (setMasks clock (opens index) dev s.sets s.world).dev
        sets := (setMasks clock (opens index) dev s.sets s.world).sets
        world := (setMasks clock (opens index) dev s.sets s.world).world
        activeCount := if (setMasks clock (opens index) dev s.sets s.world).active then
          s.activeCount + 1 else s.activeCount
        highestFd := if (setMasks clock (opens index) dev s.sets s.world).active then
          max s.highestFd (setMasks clock (opens index) dev s.sets s.world).dev.fd
          else s.highestFd } := by
  simp [iosetStep, selectorGetDevice_eq, hget]

/-- The loop of `selector_ioset`, after the slots below `index`: their devices have asked for the
events that they are interested in. -/
structure Asking (opens : Nat → OpenAnswer) (devs : List Iodev) (w : World) (sets : FdSets)
    (index : Nat) (s : IosetState) : Prop where
  first : index = 0 → s.world = w
  ahead : ∀ i, index ≤ i → s.selector.toList[i]? = devs[i]?
  behind : ∀ i dev, i < index → devs[i]? = some dev → ∃ sets' w', (i = 0 → w' = w) ∧
    s.selector.toList[i]? = some (setMasks clock (opens i) dev sets' w').dev
  bits : ∀ e fd, fd ∈ s.sets.get e ↔
    (∃ dev ∈ devs.take index, dev.fd = fd ∧ Interested clock dev w e) ∨
      ((∀ dev ∈ devs.take index, dev.fd = fd → fd < 0) ∧ fd ∈ sets.get e)
  count : s.activeCount ≠ 0 ↔ ∃ dev ∈ devs.take index, reportsActive dev
  highest : ∀ dev ∈ devs.take index, reportsActive dev → dev.fd ≤ s.highestFd

/-- An active device has a descriptor. -/
theorem reportsActive.fd {dev : Iodev} (h : reportsActive dev) {w : World} {index : Nat}
    (hseated : dev.Seated w index) : 0 ≤ dev.fd := by
  have hlistens : listens dev → dev.state.holds := by
    unfold listens
    rintro (hs | hs | hs | hs) <;> rw [hs] <;> rfl
  have hholds : dev.state.holds := by
    unfold reportsActive at h
    split at h
    · exact hlistens h
    · rcases h with h | ⟨hs, -⟩
      · exact hlistens h
      · rw [hs]
        rfl
  exact hseated.fd (hseated.held.mpr hholds)

variable {clock} {opens : Nat → OpenAnswer} {devs : List Iodev} {w : World} {sets : FdSets}
  {index : Nat} {s : IosetState}

theorem asking_init (clock : Nat → UTime) (opens : Nat → OpenAnswer) (sel : Selector) (w : World)
    (sets : FdSets) : Asking clock opens sel.toList w sets 0 ⟨sel, sets, w, 0, 0⟩ where
  first _ := rfl
  ahead _ _ := rfl
  behind _ _ hi := absurd hi (Nat.not_lt_zero _)
  bits := by simp
  count := by simp
  highest := by simp

/-- Past the end of the array. -/
theorem Asking.skip (h : Asking clock opens devs w sets index s) (hpos : devs[index]? = none) :
    Asking clock opens devs w sets (index + 1) s := by
  have htake : devs.take (index + 1) = devs.take index := by
    rw [List.take_add_one, hpos, Option.toList_none, List.append_nil]
  refine ⟨fun hzero => absurd hzero (Nat.succ_ne_zero index), fun i hi => h.ahead i (by omega),
    ?_, ?_, ?_, ?_⟩
  · intro i dev hi hdev
    have hlt := (List.getElem?_eq_some_iff.mp hdev).1
    have hend := List.getElem?_eq_none_iff.mp hpos
    exact h.behind i dev (by omega) hdev
  · rw [htake]
    exact h.bits
  · rw [htake]
    exact h.count
  · rw [htake]
    exact h.highest

/-- Only the first device looks at the clock. -/
theorem Asking.interested_now (h : Asking clock opens devs w sets index s) {dev : Iodev}
    (hdev : dev.Seated w index) (e : IoEvent) :
    Interested clock dev s.world e ↔ Interested clock dev w e := by
  by_cases hindex : index = 0
  · rw [h.first hindex]
  · exact interested_world clock (fun hserial => hindex (hdev.serial.mpr hserial)) _ _ e

/-- No two devices have one descriptor. -/
theorem fd_apart (howned : Owned ⟨devs, w⟩) {dev : Iodev} (hpos : devs[index]? = some dev) :
    ∀ x ∈ devs.take index, x.fd = dev.fd → x.fd < 0 := by
  intro x hx heq
  rcases List.mem_take_iff_getElem.mp hx with ⟨i, hi, rfl⟩
  have hlt : i < devs.length := (Nat.lt_min.mp hi).2
  have hne : i ≠ index := Nat.ne_of_lt (Nat.lt_min.mp hi).1
  have := howned.apart i index _ dev hne (List.getElem?_eq_getElem hlt) hpos heq
  omega

theorem mem_take_succ {dev x : Iodev} (hpos : devs[index]? = some dev) :
    x ∈ devs.take (index + 1) ↔ x ∈ devs.take index ∨ x = dev := by
  rw [List.take_add_one, hpos, Option.toList_some, List.mem_append, List.mem_singleton]

/-- The sets after the turn of the device at `index`. -/
theorem Asking.ask_bits (h : Asking clock opens devs w sets index s) (howned : Owned ⟨devs, w⟩)
    {dev : Iodev} (hpos : devs[index]? = some dev) (e : IoEvent) (fd : Int) :
    fd ∈ (setMasks clock (opens index) dev s.sets s.world).sets.get e ↔
      (∃ x ∈ devs.take (index + 1), x.fd = fd ∧ Interested clock x w e) ∨
      ((∀ x ∈ devs.take (index + 1), x.fd = fd → fd < 0) ∧ fd ∈ sets.get e) := by
  have hapart := fd_apart howned hpos
  rw [(setMasks_asks clock dev (opens index) s.sets s.world).bits,
    h.interested_now (howned.devs index dev hpos), h.bits]
  simp only [mem_take_succ hpos]
  constructor
  · rintro (⟨rfl, hint⟩ | ⟨hother, ⟨x, hx, hrest⟩ | ⟨hnone, hmem⟩⟩)
    · exact .inl ⟨dev, .inr rfl, rfl, hint⟩
    · exact .inl ⟨x, .inl hx, hrest⟩
    · refine .inr ⟨?_, hmem⟩
      rintro x (hx | rfl) heq
      · exact hnone x hx heq
      · exact hother heq.symm
  · rintro (⟨x, hx | rfl, rfl, hint⟩ | ⟨hnone, hmem⟩)
    · exact .inr ⟨fun heq => hapart x hx heq, .inl ⟨x, hx, rfl, hint⟩⟩
    · exact .inl ⟨rfl, hint⟩
    · exact .inr ⟨fun heq => hnone dev (.inr rfl) heq.symm,
        .inr ⟨fun x hx => hnone x (.inl hx), hmem⟩⟩

/-- The device at `index` asks. -/
theorem Asking.ask (h : Asking clock opens devs w sets index s) (howned : Owned ⟨devs, w⟩)
    {dev : Iodev} (hpos : devs[index]? = some dev) :
    Asking clock opens devs w sets (index + 1) (iosetStep clock opens s index) := by
  have hslot := h.ahead index le_rfl
  rw [hpos] at hslot
  rw [iosetStep_eq clock hslot]
  have hasks := setMasks_asks clock dev (opens index) s.sets s.world
  have hother : ∀ i new, i ≠ index →
      (s.selector.store index new).toList[i]? = s.selector.toList[i]? := by
    intro i new hi
    rw [Selector.store_toList, List.getElem?_set_ne (fun heq => hi heq.symm)]
  refine ⟨fun hzero => absurd hzero (Nat.succ_ne_zero index), ?_, ?_, h.ask_bits howned hpos, ?_, ?_⟩
  · intro i hi
    show (s.selector.store index _).toList[i]? = _
    rw [hother i _ (by omega)]
    exact h.ahead i (by omega)
  · intro i x hi hx
    show ∃ sets' w', _ ∧ (s.selector.store index _).toList[i]? = _
    by_cases heq : i = index
    · subst heq
      cases hpos.symm.trans hx
      refine ⟨s.sets, s.world, h.first, ?_⟩
      rw [Selector.store_toList, List.getElem?_set_self (List.getElem?_eq_some_iff.mp hslot).1]
    · rw [hother i _ heq]
      exact h.behind i x (by omega) hx
  · simp only [mem_take_succ hpos]
    by_cases hactive : (setMasks clock (opens index) dev s.sets s.world).active
    · rw [if_pos hactive]
      exact iff_of_true (Nat.succ_ne_zero _) ⟨dev, .inr rfl, hasks.active.mp hactive⟩
    · rw [if_neg hactive, h.count]
      constructor
      · rintro ⟨x, hx, hreports⟩
        exact ⟨x, .inl hx, hreports⟩
      · rintro ⟨x, hx | rfl, hreports⟩
        · exact ⟨x, hx, hreports⟩
        · exact absurd (hasks.active.mpr hreports) hactive
  · simp only [mem_take_succ hpos]
    rintro x (hx | rfl) hreports
    · have := h.highest x hx hreports
      split <;> omega
    · rw [if_pos (hasks.active.mpr hreports), hasks.stays hreports]
      exact le_max_right _ _

/-- The body of the loop. -/
theorem Asking.step (h : Asking clock opens devs w sets index s) (howned : Owned ⟨devs, w⟩) :
    Asking clock opens devs w sets (index + 1) (iosetStep clock opens s index) := by
  cases hpos : devs[index]? with
  | none =>
    have hslot := h.ahead index le_rfl
    rw [hpos] at hslot
    rw [iosetStep_none hslot]
    exact h.skip hpos
  | some dev => exact h.ask howned hpos

/-- Before `select`: the devices have asked for the events they are interested in. -/
theorem ioset_asks (clock : Nat → UTime) (opens : Nat → OpenAnswer) {sel : Selector} {w : World}
    (h : Owned (netOf sel w)) (sets : FdSets) :
    Asking clock opens sel.toList w sets sel.toList.length
      (selectorIoset clock opens sets sel w) := by
  have hloop := Machine.run_range' (fun index s => Asking clock opens sel.toList w sets index s)
    (fun index s _ hs => hs.step h) (asking_init clock opens sel w sets) sel.toList.length
  rw [Nat.zero_add, ← List.range_eq_range', Selector.length_toList] at hloop
  rw [Selector.length_toList]
  exact hloop

/-- The devices own what they hold when `select` is called. -/
theorem selectorIoset_owned (clock : Nat → UTime) (opens : Nat → OpenAnswer) {sel : Selector}
    {w : World} (h : Owned (netOf sel w)) (sets : FdSets) :
    Owned (netOf (selectorIoset clock opens sets sel w).selector
      (selectorIoset clock opens sets sel w).world) :=
  netReaches_owned (p := .losing False) id h (selectorIoset_reaches clock opens sets sel w)

/-- When the loop has ended, an active device is as it was. -/
theorem Asking.unchanged (h : Asking clock opens devs w sets devs.length s) {dev : Iodev}
    (hget : devs[index]? = some dev) (hactive : reportsActive dev) :
    s.selector.toList[index]? = some dev := by
  rcases h.behind index dev (List.getElem?_eq_some_iff.mp hget).1 hget with ⟨sets', w', -, hslot⟩
  rwa [(setMasks_asks clock dev (opens index) sets' w').stays hactive] at hslot

/-! ## What `select` is given -/

/-- The sets that `select` is given are the interest of the devices: `devs` are the devices before
the round, and `s` is what `selector_ioset` leaves. -/
structure InterestExact (clock : Nat → UTime) (devs : List Iodev) (w : World) (s : IosetState) :
    Prop where
  /-- the descriptors in a set are those of the devices that wait for its event -/
  interest : ∀ e fd, fd ∈ s.sets.get e ↔ ∃ (index : Nat) (dev : Iodev), devs[index]? = some dev ∧
    s.selector.toList[index]? = some dev ∧ dev.fd = fd ∧ Interested clock dev w e
  /-- no set has the number of a device that has been closed -/
  current : ∀ e, ∀ fd ∈ s.sets.get e, ∃ dev ∈ s.selector.toList, dev.fd = fd ∧ dev.state.holds
  /-- no set has the descriptor of a device that has reported itself inactive, neither the one it
  had before nor the one it has now -/
  inactive : ∀ (index : Nat) old dev, devs[index]? = some old → ¬ reportsActive old →
    s.selector.toList[index]? = some dev → ∀ e, old.fd ∉ s.sets.get e ∧ dev.fd ∉ s.sets.get e
  below : ∀ e, ∀ fd ∈ s.sets.get e, fd < s.highestFd + 1

section Round

variable (clock : Nat → UTime) (a : RoundAnswers) (sets : FdSets) (sel : Selector) (w : World)

/-- If a round comes to its `select`, this is given exactly the interest of the devices. -/
def SelectExact : Prop :=
  let s := selectorIoset clock a.opens sets sel w
  s.activeCount ≠ 0 → InterestExact clock sel.toList w s

/-- No number is left over in the sets: each is that of a device. -/
def NoLeftover : Prop :=
  (∃ dev ∈ sel.toList, reportsActive dev) →
    ∀ e, ∀ fd ∈ sets.get e, ∃ dev ∈ sel.toList, dev.fd = fd

instance : Decidable (NoLeftover sets sel) :=
  decidable_of_iff ((∃ dev ∈ sel.toList, reportsActive dev) →
      ∀ e ∈ IoEvent.all, ∀ fd ∈ sets.get e, ∃ dev ∈ sel.toList, dev.fd = fd) <| by
    simp only [NoLeftover, IoEvent.mem_all, forall_const]

end Round

/-- The sets hold numbers of descriptors. -/
def FdSets.Valid (sets : FdSets) : Prop := ∀ e, ∀ fd ∈ sets.get e, 0 ≤ fd

/-- When `selector_ioset` ends, all devices have asked. -/
theorem Asking.all (h : Asking clock opens devs w sets devs.length s) (e : IoEvent) (fd : Int) :
    fd ∈ s.sets.get e ↔ (∃ dev ∈ devs, dev.fd = fd ∧ Interested clock dev w e) ∨
      ((∀ dev ∈ devs, dev.fd = fd → fd < 0) ∧ fd ∈ sets.get e) := by
  have hbits := h.bits e fd
  rwa [List.take_length] at hbits

theorem Asking.valid (h : Asking clock opens devs w sets devs.length s) (howned : Owned ⟨devs, w⟩)
    (hvalid : sets.Valid) : s.sets.Valid := by
  intro e fd hmem
  rcases (h.all e fd).mp hmem with ⟨dev, hdev, rfl, hint⟩ | ⟨-, hold⟩
  · rcases List.mem_iff_getElem?.mp hdev with ⟨index, hget⟩
    exact (hint.active clock).fd (howned.devs index dev hget)
  · exact hvalid e fd hold

/-- Without left over numbers, only interested devices are in the sets. -/
theorem Asking.interested (h : Asking clock opens devs w sets devs.length s) (hvalid : sets.Valid)
    (hleft : ∀ e, ∀ fd ∈ sets.get e, ∃ dev ∈ devs, dev.fd = fd) (e : IoEvent) (fd : Int) :
    fd ∈ s.sets.get e ↔ ∃ (index : Nat) (dev : Iodev), devs[index]? = some dev ∧
      s.selector.toList[index]? = some dev ∧ dev.fd = fd ∧ Interested clock dev w e := by
  constructor
  · intro hmem
    rcases (h.all e fd).mp hmem with ⟨dev, hdev, hfd, hint⟩ | ⟨hnone, hold⟩
    · rcases List.mem_iff_getElem?.mp hdev with ⟨index, hget⟩
      exact ⟨index, dev, hget, h.unchanged hget (hint.active clock), hfd, hint⟩
    · -- a left over number
      rcases hleft e fd hold with ⟨dev, hdev, hfd⟩
      have := hnone dev hdev hfd
      have := hvalid e fd hold
      omega
  · rintro ⟨index, dev, hget, -, hfd, hint⟩
    exact (h.all e fd).mpr (.inl ⟨dev, List.mem_of_getElem? hget, hfd, hint⟩)

/-- Without left over numbers, the sets are the interest of the devices. -/
theorem Asking.exact (h : Asking clock opens devs w sets devs.length s) (howned : Owned ⟨devs, w⟩)
    (hafter : Owned (netOf s.selector s.world)) (hvalid : sets.Valid)
    (hleft : ∀ e, ∀ fd ∈ sets.get e, ∃ dev ∈ devs, dev.fd = fd) : InterestExact clock devs w s := by
  have hinterest := h.interested hvalid hleft
  -- each number in a set is that of a device which stays active
  have hdevice : ∀ e, ∀ fd ∈ s.sets.get e, ∃ (index : Nat) (dev : Iodev),
      devs[index]? = some dev ∧ s.selector.toList[index]? = some dev ∧ dev.fd = fd ∧
      reportsActive dev ∧ dev.fd ≠ -1 := by
    intro e fd hmem
    rcases (hinterest e fd).mp hmem with ⟨index, dev, hget, hslot, hfd, hint⟩
    have hpos := (hint.active clock).fd (howned.devs index dev hget)
    exact ⟨index, dev, hget, hslot, hfd, hint.active clock, by omega⟩
  refine ⟨hinterest, ?_, ?_, ?_⟩
  · intro e fd hmem
    rcases hdevice e fd hmem with ⟨index, dev, -, hslot, hfd, -, hne⟩
    exact ⟨dev, List.mem_of_getElem? hslot, hfd, (hafter.devs index dev hslot).held.mp hne⟩
  · intro index old dev hold hinactive hdev e
    -- the slot is not the one whose device is in the set
    have hslot : ∀ i x, devs[i]? = some x → reportsActive x → i ≠ index := by
      rintro i x hx hactive rfl
      cases hold.symm.trans hx
      exact hinactive hactive
    constructor
    · intro hmem
      rcases hdevice e old.fd hmem with ⟨i, x, hx, -, hfd, hactive, hne⟩
      exact hne (howned.apart i index x old (hslot i x hx hactive) hx hold hfd)
    · intro hmem
      rcases hdevice e dev.fd hmem with ⟨i, x, hx, hx', hfd, hactive, hne⟩
      exact hne (hafter.apart i index x dev (hslot i x hx hactive) hx' hdev hfd)
  · intro e fd hmem
    rcases hdevice e fd hmem with ⟨index, dev, hget, -, rfl, hactive, -⟩
    have hhighest := h.highest
    rw [List.take_length] at hhighest
    have := hhighest dev (List.mem_of_getElem? hget) hactive
    omega

/-- A round gives `select` exactly the interest of the devices if and only if no number is left
over before it. -/
theorem round_select_exact (clock : Nat → UTime) (a : RoundAnswers) {sets : FdSets} {sel : Selector}
    {w : World} (h : Owned (netOf sel w)) (hvalid : sets.Valid) :
    SelectExact clock a sets sel w ↔ NoLeftover sets sel := by
  have hasked := ioset_asks clock a.opens h sets
  have hafter := selectorIoset_owned clock a.opens h sets
  unfold SelectExact NoLeftover
  dsimp only
  generalize selectorIoset clock a.opens sets sel w = s at hasked hafter ⊢
  have hcount := hasked.count
  rw [List.take_length] at hcount
  rw [hcount]
  refine imp_congr_right fun _ => ?_
  constructor
  · intro hexact e fd hmem
    by_contra hnone
    -- a left over number stays in its set
    have hstays : fd ∈ s.sets.get e :=
      (hasked.all e fd).mpr (.inr ⟨fun dev hdev heq => absurd ⟨dev, hdev, heq⟩ hnone, hmem⟩)
    rcases (hexact.interest e fd).mp hstays with ⟨index, dev, hget, -, hfd, -⟩
    exact hnone ⟨dev, List.mem_of_getElem? hget, hfd⟩
  · exact hasked.exact h hafter hvalid

/-! ## Runs -/

/-- The sets after a round are what `select` has returned. -/
theorem selectorRound_sets (clock : Nat → UTime) (a : RoundAnswers) (sets : FdSets)
    (sel : Selector) (w : World) (e : IoEvent) :
    (selectorRound clock a sets sel w).2.1.get e ⊆
      (selectorIoset clock a.opens sets sel w).sets.get e := by
  unfold selectorRound
  dsimp only
  split
  · exact Finset.Subset.refl _
  split
  · exact select_subset _ _ a.select e
  · exact select_subset _ _ a.select e

/-- Outside of `selector_loop` the sets stay as they are or are cleared. -/
theorem Daemon.step_sets (clock : Nat → UTime) (d : Daemon) (i : Input) :
    (d.step clock i).sets = .zero ∨ (d.step clock i).sets = d.sets ∨
    ∃ a, i = .round a ∧ d.pc = .loop ∧ (d.step clock i).sets =
      (selectorRound clock a d.sets d.app.selector d.world).2.1 := by
  have hproceed : ∀ (d : Daemon) rc,
      (d.proceed rc).sets = .zero ∨ (d.proceed rc).sets = d.sets := by
    intro d rc
    unfold Daemon.proceed
    split
    · exact .inl rfl
    · exact .inr rfl
  have hinit : ∀ (d : Daemon) a rc, (Daemon.initialise clock a rc d).sets = .zero ∨
      (Daemon.initialise clock a rc d).sets = d.sets := by
    intro d a rc
    unfold Daemon.initialise
    split
    · exact .inr rfl
    · exact hproceed _ _
  cases i with
  | round a =>
    by_cases hpc : d.pc = .loop
    · exact .inr (.inr ⟨a, rfl, hpc, by simp [Daemon.step, hpc, Daemon.round]⟩)
    · exact .inr (.inl (by simp [Daemon.step, hpc]))
  | check a =>
    rw [← or_assoc]
    left
    unfold Daemon.step
    dsimp only
    split
    · unfold Daemon.check
      split
      · exact hinit _ a _
      split
      · exact hproceed d _
      · exact hproceed _ _
    · exact .inr rfl
  | signal sig =>
    right
    left
    cases hpc : d.pc with
    | exited rc => simp [Daemon.step, hpc]
    | loop | check =>
      simp only [Daemon.step, hpc, Daemon.signal]
      split <;> rfl

/-- The devices own what they hold, and the sets hold numbers of descriptors. -/
def Selecting (d : Daemon) : Prop := Owned (netOf d.app.selector d.world) ∧ d.sets.Valid

theorem zero_valid : FdSets.zero.Valid := by
  intro e fd hmem
  cases e <;> cases hmem

theorem start_selecting (clock : Nat → UTime) (iobufsize : Nat) (a : InitAnswers) :
    Selecting (Daemon.start clock iobufsize a) := by
  refine ⟨start_owned clock iobufsize a, ?_⟩
  have hsets : (Daemon.start clock iobufsize a).sets = .zero := by
    unfold Daemon.start Daemon.initialise Daemon.proceed
    split
    · rfl
    · split <;> rfl
  rw [hsets]
  exact zero_valid

theorem Selecting.step {d : Daemon} (h : Selecting d) (clock : Nat → UTime) (i : Input)
    (hstale : InRounds (NoStaleClose clock) d i) : Selecting (d.step clock i) := by
  refine ⟨step_owned clock d i h.1 hstale, ?_⟩
  rcases d.step_sets clock i with hsets | hsets | ⟨a, -, -, hsets⟩
  · rw [hsets]
    exact zero_valid
  · rw [hsets]
    exact h.2
  · rw [hsets]
    intro e fd hmem
    have hasked := ioset_asks clock a.opens h.1 d.sets
    exact hasked.valid h.1 h.2 e fd (selectorRound_sets clock a _ _ _ e hmem)

/-- Every `select` of a run of the daemon that loses no close is given exactly the interest of the
devices if and only if no round of the run begins with a number left over in the sets. -/
theorem select_exact_iff (clock : Nat → UTime) (iobufsize : Nat) (a : InitAnswers)
    (inputs : List Input) (hstale : Along (Daemon.step clock) (InRounds (NoStaleClose clock))
      (Daemon.start clock iobufsize a) inputs) :
    Along (Daemon.step clock) (InRounds fun a sets sel w => SelectExact clock a sets sel w)
        (Daemon.start clock iobufsize a) inputs ↔
      Along (Daemon.step clock) (InRounds fun _ sets sel _ => NoLeftover sets sel)
        (Daemon.start clock iobufsize a) inputs := by
  refine Machine.along_congr_along Selecting (fun d i h hstale => h.step clock i hstale) ?_
    (start_selecting clock iobufsize a) hstale
  intro d i h
  unfold InRounds
  refine forall_congr' fun a => imp_congr_right fun _ => imp_congr_right fun _ => ?_
  exact round_select_exact clock a h.1 h.2

/-- A connection comes and sends a byte. -/
theorem first_connection_exact : Along (Daemon.step fun _ => 0)
    (InRounds fun a sets sel w => SelectExact (fun _ => 0) a sets sel w)
    (Daemon.start (fun _ => 0) 64 Daemon.oneAddress) (Daemon.firstConnection ++
      [Daemon.turn ⟨{5}, ∅, ∅⟩ ⟨some [65], none, none⟩, Daemon.quietTurn]) :=
  (select_exact_iff (fun _ => 0) 64 Daemon.oneAddress _ (by decide +kernel)).mpr
    (by decide +kernel)

/-- A connection comes and ends. -/
def connectionEnds : List Input :=
  Daemon.firstConnection ++ [Daemon.turn ⟨{5}, ∅, ∅⟩ ⟨some [], none, none⟩]

/-- The next round. -/
def afterConnection : IosetState :=
  let d := run (Daemon.step fun _ => 0) (Daemon.start (fun _ => 0) 64 Daemon.oneAddress)
    connectionEnds
  selectorIoset (fun _ => 0) Daemon.openAll d.sets d.app.selector d.world

/-- When a connection is closed in the round in which its end is reported, its number is left over,
and the next `select` is given it. -/
theorem closed_number_left_over : ¬ Along (Daemon.step fun _ => 0)
    (InRounds fun a sets sel w => SelectExact (fun _ => 0) a sets sel w)
    (Daemon.start (fun _ => 0) 64 Daemon.oneAddress) (connectionEnds ++ [Daemon.quietTurn]) := by
  intro h
  rw [Machine.along_append, Machine.along_cons] at h
  rcases h with ⟨-, hlast, -⟩
  have hexact := hlast.of_loop (by decide +kernel) (by decide +kernel)
  have hset : 5 ∈ afterConnection.sets.r := by decide +kernel
  have hnone : ∀ dev ∈ afterConnection.selector.toList, dev.fd ≠ 5 := by decide +kernel
  rcases hexact.current .read 5 hset with ⟨dev, hdev, hfd, -⟩
  exact hnone dev hdev hfd

end Hdmi2usbd
