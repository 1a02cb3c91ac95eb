import Hdmi2usbd.Calls
import Hdmi2usbd.Registration

/-!
# Ledger — the descriptors of the system and those of the devices

The system keeps a ledger of open descriptors. The log tells how it came about: replayed, it
never opens a number that is open and never closes one that is not (`openAfter`). In every state
that calls, rounds and process cycles reach, in any order, each open descriptor is held by
exactly one device, and a device holds one exactly in the states from closing on, as long as no
write is lost (`run_agrees`). A listener that is closed through a pointer into a replaced block
keeps a number that is no longer its own (`closed_in_old_block`).
-/

namespace Hdmi2usbd

open Machine (Along run)

/-! ## Replaying the log -/

/-- The open descriptors after an event; `none` when an open one is opened or a closed one
closed. -/
def Ev.ledger (fds : Finset Int) : Ev → Option (Finset Int)
  | .opened _ _ fd => if fd ∈ fds then none else some (insert fd fds)
  | .closed _ fd => if fd ∈ fds then some (fds.erase fd) else none
  | _ => some fds

def openAfter (log : List Ev) : Option (Finset Int) := log.foldlM Ev.ledger ∅

section OpenAfter

variable {log : List Ev} {fds : Finset Int}

theorem openAfter_snoc (h : openAfter log = some fds) (ev : Ev) :
    openAfter (log ++ [ev]) = ev.ledger fds := by
  rw [openAfter, List.foldlM_append, show log.foldlM Ev.ledger ∅ = some fds from h]
  simp

/-- Events that open and close nothing. -/
theorem openAfter_adds {log' : List Ev} (h : openAfter log = some fds)
    (hadds : Adds (fun ev => ∀ fds, ev.ledger fds = some fds) log log') :
    openAfter log' = some fds := by
  rcases hadds with ⟨evs, rfl, hevs⟩
  induction evs using List.reverseRecOn with
  | nil => rwa [List.append_nil]
  | append_singleton evs ev ih =>
    rw [← List.append_assoc, openAfter_snoc (ih fun ev' hev' => hevs ev' (by simp [hev']))]
    exact hevs ev (by simp) fds

end OpenAfter

theorem Ev.IsNote.ledger {ev : Ev} (h : ev.IsNote) (fds : Finset Int) : ev.ledger fds = some fds := by
  cases ev <;> first | rfl | exact h.elim

theorem Ev.IsCycle.ledger {ev : Ev} (h : ev.IsCycle) (fds : Finset Int) :
    ev.ledger fds = some fds := by
  cases ev <;> first | rfl | exact h.elim

/-! ## What is open is held -/

/-- Every open descriptor is that of a device. -/
def Covered (n : Net) : Prop :=
  ∀ fd ∈ n.world.fds, 0 ≤ fd ∧ ∃ (i : Nat) (dev : Iodev), n.devs[i]? = some dev ∧ dev.fd = fd

/-- The devices, the ledger and the log agree. -/
structure Balanced (n : Net) : Prop where
  owned : Owned n
  covered : Covered n
  replay : openAfter n.world.log = some n.world.fds

namespace Balanced

variable {n : Net} {w' : World}

/-- A slot is filled: what is open was open and is another device's, or is that of the new device. -/
theorem set (h : Balanced n) {index : Nat} {dev dev' : Iodev} (hget : n.devs[index]? = some dev)
    (howned : Owned ⟨n.devs.set index dev', w'⟩)
    (hfds : ∀ fd ∈ w'.fds, (fd ∈ n.world.fds ∧ fd ≠ dev.fd) ∨ (0 ≤ fd ∧ fd = dev'.fd))
    (hreplay : openAfter w'.log = some w'.fds) : Balanced ⟨n.devs.set index dev', w'⟩ := by
  refine ⟨howned, ?_, hreplay⟩
  have hlt := (List.getElem?_eq_some_iff.mp hget).1
  intro fd hfd
  rcases hfds fd hfd with ⟨hmem, hne⟩ | ⟨hpos, heq⟩
  · rcases h.covered fd hmem with ⟨hpos, i, x, hx, hxfd⟩
    refine ⟨hpos, i, x, ?_, hxfd⟩
    -- the slot of the old device is not where it is
    have hi : index ≠ i := by
      rintro rfl
      rw [hget, Option.some.injEq] at hx
      exact hne (by rw [hx]; exact hxfd.symm)
    show (n.devs.set index dev')[i]? = some x
    rw [List.getElem?_set_ne hi]
    exact hx
  · refine ⟨hpos, index, dev', ?_, heq.symm⟩
    show (n.devs.set index dev')[index]? = some dev'
    rw [List.getElem?_set_self hlt]

/-- A device that keeps its descriptor, in a world that keeps all. -/
theorem keep (h : Balanced n) {index : Nat} {dev dev' : Iodev} (hget : n.devs[index]? = some dev)
    (howned : Owned ⟨n.devs.set index dev', w'⟩) (hfd : dev'.fd = dev.fd)
    (hfds : w'.fds = n.world.fds)
    (hlog : Adds (fun ev => ∀ fds, ev.ledger fds = some fds) n.world.log w'.log) :
    Balanced ⟨n.devs.set index dev', w'⟩ := by
  refine h.set hget howned ?_ ?_
  · intro fd hmem
    rw [hfds] at hmem
    by_cases heq : fd = dev.fd
    · exact .inr ⟨(h.covered fd hmem).1, heq.trans hfd.symm⟩
    · exact .inl ⟨hmem, heq⟩
  · rw [hfds]
    exact openAfter_adds h.replay hlog

/-- The descriptor of a device that has none is not open. -/
theorem ne_fd (h : Balanced n) {index : Nat} {dev : Iodev} (hget : n.devs[index]? = some dev)
    (hholds : ¬ dev.state.holds) {fd : Int} (hmem : fd ∈ n.world.fds) : fd ≠ dev.fd := by
  have hnone : dev.fd = -1 := not_not.mp fun hne => hholds ((h.owned.devs index dev hget).held.mp hne)
  have := (h.covered fd hmem).1
  omega

end Balanced

theorem devAct_balanced {p : Policy} {n : Net} (h : Balanced n) {index : Nat} {dev : Iodev}
    (hget : n.devs[index]? = some dev) (a : DevAct) (hok : a.Ok p (dev, n.world))
    (howned : Owned ⟨n.devs.set index (a.apply (dev, n.world)).1, (a.apply (dev, n.world)).2⟩) :
    Balanced ⟨n.devs.set index (a.apply (dev, n.world)).1, (a.apply (dev, n.world)).2⟩ := by
  have hdev := h.owned.devs index dev hget
  cases a with
  | tick | pace pacer | dropped | retired => exact h.keep hget howned rfl rfl (Adds.refl _)
  | note ev => exact h.keep hget howned rfl rfl (Adds.single (fun fds => hok.ledger fds) _)
  | received bytes | sent count => exact h.keep hget howned rfl rfl (Adds.single (fun _ => rfl) _)
  | refused => exact h.set hget howned (fun fd hmem => .inl ⟨hmem, h.ne_fd hget hok.1 hmem⟩) h.replay
  | released =>
    have hopen : dev.fd ∈ n.world.fds :=
      h.owned.opened dev (List.mem_of_getElem? hget) (hdev.held.mpr hok)
    refine h.set hget howned ?_ ?_
    · intro fd hmem
      rcases Finset.mem_erase.mp hmem with ⟨hne, hmem⟩
      exact .inl ⟨hmem, hne⟩
    · exact (openAfter_snoc h.replay _).trans (if_pos hopen)
  | opened fd state =>
    rcases hok with ⟨hholds, -, hfresh, -⟩
    refine h.set hget howned ?_ ?_
    · intro fd' hmem
      rcases Finset.mem_insert.mp hmem with rfl | hmem
      · exact .inr ⟨Int.natCast_nonneg fd, rfl⟩
      · exact .inl ⟨hmem, h.ne_fd hget hholds hmem⟩
    · exact (openAfter_snoc h.replay _).trans (if_neg hfresh)

/-- Every action that is not lost keeps the ledger. -/
theorem netAct_balanced (n : Net) (a : NetAct) (h : Balanced n) (hok : a.Ok (.losing False) n) :
    Balanced (a.apply n) := by
  have howned := netAct_owned id n a h.owned hok
  cases a with
  | device index a =>
    rcases hok with ⟨dev, hget, hok⟩
    simp only [NetAct.apply, hget] at howned ⊢
    exact devAct_balanced h hget a hok howned
  | lost index a => exact absurd hok.1 id
  | note ev =>
    exact ⟨howned, h.covered,
      openAfter_adds h.replay (Adds.single (fun fds => Ev.IsNote.ledger hok fds) _)⟩
  | accept fd bufsize slot =>
    rcases hok with ⟨hfresh, -, hslot⟩
    have hreplay := (openAfter_snoc h.replay (.opened .accepted (n.world.opens + 1) fd)).trans
      (if_neg hfresh)
    cases slot with
    | some index =>
      rcases hslot with ⟨-, old, hget, hstate, -⟩
      have hholds : ¬ old.state.holds := by simp [hstate, DevState.holds, DevState.toNat]
      refine h.set hget howned ?_ hreplay
      intro fd' hmem
      rcases Finset.mem_insert.mp hmem with rfl | hmem
      · exact .inr ⟨Int.natCast_nonneg fd, rfl⟩
      · exact .inl ⟨hmem, h.ne_fd hget hholds hmem⟩
    | none =>
      refine ⟨howned, ?_, hreplay⟩
      intro fd' hmem
      rcases Finset.mem_insert.mp hmem with rfl | hmem
      · exact ⟨Int.natCast_nonneg fd, n.devs.length, _, by simp [NetAct.apply]; rfl, rfl⟩
      · rcases h.covered fd' hmem with ⟨hpos, i, x, hx, hxfd⟩
        refine ⟨hpos, i, x, ?_, hxfd⟩
        show (n.devs ++ [_])[i]? = some x
        rw [List.getElem?_append_left (List.getElem?_eq_some_iff.mp hx).1]
        exact hx

/-! ## What is registered -/

/-- No negative descriptor is put into a set. -/
def Ev.RegistersOpen : Ev → Prop
  | .registered _ _ fd => 0 ≤ fd
  | _ => True

theorem Ev.IsCycle.registersOpen {ev : Ev} (h : ev.IsCycle) : ev.RegistersOpen := by
  cases ev <;> trivial

theorem iodevClose_registers (dev : Iodev) (flags : Nat) (w : World) :
    Adds Ev.RegistersOpen w.log (iodevClose dev flags w).2.log := by
  by_cases h : dev.state.holds
  · rcases iodevClose_cases h flags w with heq | ⟨-, -, heq⟩
    · rw [heq]
      exact Adds.single trivial _
    · rw [heq]
      exact Adds.refl _
  · rw [iodevClose_not_holds h]
    exact Adds.refl _

theorem setMasks_registers {dev : Iodev} {w : World} {index : Nat} (h : dev.Seated w index)
    (clock : Nat → UTime) (answer : OpenAnswer) (sets : FdSets) :
    Adds Ev.RegistersOpen w.log (setMasks clock answer dev sets w).world.log := by
  rcases setMasks_masked h clock answer sets with ⟨evs, hmasked⟩
  refine ⟨evs, hmasked.log, ?_⟩
  intro ev hev
  cases ev with
  | registered e session fd =>
    rcases (hmasked.registered e session fd).mp hev with ⟨-, rfl, hne, -⟩
    exact h.fd hne
  | _ => trivial

theorem runHandler_registers (clock : Nat → UTime) (event : IoEvent) (answer : IoAnswer)
    (ptr index : Nat) (dev : Iodev) (sel : Selector) (w : World) :
    Adds Ev.RegistersOpen w.log (runHandler clock event answer ptr index dev sel w).2.log := by
  by_cases haccept : event = .read ∧ dev.driver = .listen
  · rw [runHandler_accept haccept]
    rcases tcpAcceptHandler_cases answer dev sel w with ⟨-, heq⟩ | ⟨fd, -, -, heq⟩
    · rw [heq]
      exact Adds.refl _
    · rw [heq]
      exact Adds.single trivial _
  · rw [runHandler_other haccept]
    rcases iodevHandler_handled clock event answer dev w with ⟨-, -, -, ⟨-, -, hlog⟩ | ⟨-, hlog⟩⟩
    · refine hlog.mono ?_
      intro ev hev
      cases ev <;> trivial
    · show Adds _ w.log (iodevHandler clock event answer dev w).2.log
      rw [hlog]
      exact Adds.single trivial _

/-! ## Calls -/

variable (clock : Nat → UTime)

theorem call_registers {s : Selector × World} (h : Seated (netOf s.1 s.2)) (call : Call) :
    Adds Ev.RegistersOpen s.2.log (call.apply clock s).2.log := by
  cases call with
  | setMasks index answer sets =>
    cases hget : s.1.toList[index]? with
    | none =>
      rw [Call.apply, onDevice_none hget]
      exact Adds.refl _
    | some dev =>
      rw [Call.apply, onDevice_some hget]
      exact setMasks_registers (h.devs index dev hget) clock answer sets
  | close index flags =>
    cases hget : s.1.toList[index]? with
    | none =>
      rw [Call.apply, onDevice_none hget]
      exact Adds.refl _
    | some dev =>
      rw [Call.apply, onDevice_some hget]
      exact iodevClose_registers dev flags s.2
  | test index pointer sets event answer =>
    cases hget : s.1.toList[index]? with
    | none =>
      simp only [Call.apply, dispatchEvent, selectorGetDevice_eq, hget]
      exact Adds.refl _
    | some dev =>
      by_cases hset : iodevIsSet dev (sets.get event)
      · simp only [Call.apply, dispatchEvent_set (s := ⟨index, 0, s.1, s.2⟩) hget hset]
        have hderef : (Ev.deref pointer s.1.devs.block).RegistersOpen := trivial
        have hcalled : (Ev.called event dev.session dev.fd).RegistersOpen := trivial
        refine (Adds.single hderef _).trans ((Adds.single hderef _).trans
          ((Adds.single hcalled _).trans ?_))
        exact runHandler_registers clock event answer pointer index dev s.1 _
      · simp only [Call.apply, dispatchEvent_unset (s := ⟨index, 0, s.1, s.2⟩) hget hset]
        exact Adds.single trivial _

/-- A close with any flags: the descriptor is released, or the device is closing and keeps it. -/
theorem close_balanced {s : Selector × World} (h : Balanced (netOf s.1 s.2)) {index : Nat}
    {dev : Iodev} (hget : s.1.toList[index]? = some dev) (flags : Nat) :
    Balanced ⟨s.1.toList.set index (iodevClose dev flags s.2).1, (iodevClose dev flags s.2).2⟩ := by
  have hdev := h.owned.devs index dev hget
  have hreleased : iodevClose dev flags s.2 = iodevClose dev ioflagNone s.2 →
      Balanced ⟨s.1.toList.set index (iodevClose dev flags s.2).1, (iodevClose dev flags s.2).2⟩ := by
    intro heq
    rw [heq]
    have hreach := dev_reaches hget (iodevClose_reaches (p := .losing False) dev
      (show ioflagNone &&& ioflagFlush = 0 from rfl) s.2)
    exact hreach.preserves Balanced netAct_balanced h
  by_cases hholds : dev.state.holds
  · rcases iodevClose_cases hholds flags s.2 with heq | ⟨-, -, heq⟩
    · exact hreleased (heq.trans (iodevClose_holds hholds rfl s.2).symm)
    · rw [heq]
      have hfd := hdev.held.mpr hholds
      have hkept : ({ dev with state := .iodevClosing } : Iodev).Seated s.2 index :=
        hdev.of_kept (iff_of_true hfd rfl) (.inr rfl) rfl rfl rfl (fun _ _ => rfl) le_rfl (Adds.refl _)
      have hseated := h.owned.toSeated.set hget hkept (.inl rfl) le_rfl (Adds.refl _)
      exact h.keep hget (h.owned.of_fds hseated (map_fd_set hget rfl) rfl) rfl rfl (Adds.refl _)
  · exact hreleased (by rw [iodevClose_not_holds hholds, iodevClose_not_holds hholds])

/-- A test is made through a current pointer. -/
def Call.IsCurrent (s : Selector × World) : Call → Prop
  | .test _ ptr _ _ _ => ptr = s.1.devs.block
  | _ => True

instance (s : Selector × World) : DecidablePred (Call.IsCurrent s)
  | .setMasks .. => .isTrue trivial
  | .test .. => inferInstanceAs (Decidable (_ = _))
  | .close .. => .isTrue trivial

theorem call_balanced {s : Selector × World} (h : Balanced (netOf s.1 s.2)) {call : Call}
    (hcurrent : call.IsCurrent s) :
    Balanced (netOf (call.apply clock s).1 (call.apply clock s).2) := by
  cases call with
  | setMasks index answer sets =>
    exact (setMasksCall_reaches clock s index answer sets).preserves Balanced netAct_balanced h
  | test index pointer sets event answer =>
    have hreach := dispatchEvent_reaches (p := .losing False) (s := ⟨index, 0, s.1, s.2⟩) clock
      (eventKeeps_losing sets answer _ event) (.inl hcurrent)
    exact hreach.preserves Balanced netAct_balanced h
  | close index flags =>
    cases hget : s.1.toList[index]? with
    | none =>
      rw [Call.apply, onDevice_none hget]
      exact h
    | some dev =>
      rw [Call.apply, onDevice_some hget, netOf, Selector.store_toList]
      exact close_balanced h hget flags

/-! ## Runs -/

/-- What the daemon does between two reloads: calls, rounds of the select loop and process cycles. -/
inductive Move
  | call (c : Call)
  | round (a : RoundAnswers) (sets : FdSets)
  | process (copy : RingBuffer) (lastCommand : Microtimer) (opts : Hdmi2usbOpts)

def Move.apply (s : Selector × World) : Move → Selector × World
  | .call c => c.apply clock s
  | .round a sets => (selectorRound clock a sets s.1 s.2).2.2
  | .process copy lastCommand opts =>
    let r := hdmi2usbProcess clock ⟨opts, s.1, copy, lastCommand⟩ 0 s.2
    (r.2.1.selector, r.2.2)

/-- No write through a pointer is lost: a call has a current one, and a round closes no listener in
a replaced block. -/
def Move.Current (s : Selector × World) : Move → Prop
  | .call c => c.IsCurrent s
  | .round a sets => NoStaleClose clock a sets s.1 s.2
  | .process .. => True

instance (s : Selector × World) : DecidablePred (Move.Current clock s)
  | .call _ => inferInstanceAs (Decidable (Call.IsCurrent _ _))
  | .round .. => inferInstanceAs (Decidable (NoStaleClose _ _ _ _ _))
  | .process .. => .isTrue trivial

/-- The invariant of the runs that lose no write. -/
structure LedgerKept (s : Selector × World) : Prop where
  balanced : Balanced (netOf s.1 s.2)
  registered : ∀ ev ∈ s.2.log, ev.RegistersOpen

theorem LedgerKept.adds {s s' : Selector × World} (h : LedgerKept s)
    (hbalanced : Balanced (netOf s'.1 s'.2))
    (hlog : Adds Ev.RegistersOpen s.2.log s'.2.log) : LedgerKept s' := by
  refine ⟨hbalanced, ?_⟩
  rcases hlog with ⟨evs, hlog, hevs⟩
  intro ev hev
  rw [hlog] at hev
  rcases List.mem_append.mp hev with hev | hev
  · exact h.registered ev hev
  · exact hevs ev hev

theorem call_kept {s : Selector × World} (h : LedgerKept s) {call : Call}
    (hcurrent : call.IsCurrent s) : LedgerKept (call.apply clock s) :=
  h.adds (call_balanced clock h.balanced hcurrent)
    (call_registers clock h.balanced.owned.toSeated call)

/-- What a round registers. -/
theorem round_registers {sel : Selector} {w : World} (h : Seated (netOf sel w)) (a : RoundAnswers)
    (sets : FdSets) : Adds Ev.RegistersOpen w.log (selectorRound clock a sets sel w).2.2.2.log := by
  refine ((selectorRound_loop clock a sets sel w).preserves (fun s => Seated (netOf s.1 s.2) ∧
    Adds Ev.RegistersOpen w.log s.2.log) ?_ ⟨h, Adds.refl _⟩).2
  intro s call hs hloop
  exact ⟨netReaches_seated hs.1 (call_reaches clock s hloop),
    hs.2.trans (call_registers clock hs.1 call)⟩

theorem process_kept {s : Selector × World} (h : LedgerKept s) (copy : RingBuffer)
    (lastCommand : Microtimer) (opts : Hdmi2usbOpts) :
    LedgerKept ((Move.process copy lastCommand opts).apply clock s) := by
  have howned := hdmi2usbProcess_owned clock ⟨opts, s.1, copy, lastCommand⟩ 0 h.balanced.owned
  have hshell := hdmi2usbProcess_shell clock ⟨opts, s.1, copy, lastCommand⟩ 0 s.2
  have hlog := hdmi2usbProcess_log clock ⟨opts, s.1, copy, lastCommand⟩ 0 s.2
  refine h.adds ⟨howned, ?_, ?_⟩ (hlog.mono fun ev hev => hev.registersOpen)
  · intro fd hmem
    have hopen : fd ∈ s.2.fds := hshell.fds ▸ hmem
    rcases h.balanced.covered fd hopen with ⟨hpos, i, x, hx, hxfd⟩
    -- the device is still in its slot
    have hslot := congrArg (fun l => l[i]?) hshell.devs
    simp only [List.getElem?_map] at hslot
    rw [show s.1.toList[i]? = some x from hx, Option.map_some, Option.map_eq_some_iff] at hslot
    rcases hslot with ⟨x', hx', hsame⟩
    exact ⟨hpos, i, x', hx', (congrArg Iodev.fd hsame).trans hxfd⟩
  · show openAfter _ = some (hdmi2usbProcess clock _ 0 s.2).2.2.fds
    rw [hshell.fds]
    exact openAfter_adds h.balanced.replay (hlog.mono fun ev hev => hev.ledger)

theorem move_kept (s : Selector × World) (move : Move) (h : LedgerKept s)
    (hcurrent : move.Current clock s) : LedgerKept (move.apply clock s) := by
  cases move with
  | call c => exact call_kept clock h hcurrent
  | round a sets =>
    have hseated := h.balanced.owned.toSeated
    have hreach := NoStaleClose.reaches clock hcurrent hseated
    exact h.adds (hreach.preserves Balanced netAct_balanced h.balanced)
      (round_registers clock hseated a sets)
  | process copy lastCommand opts => exact process_kept clock h copy lastCommand opts

theorem start_kept (iobufsize : Nat) (a : InitAnswers) :
    LedgerKept ((Daemon.start clock iobufsize a).app.selector, (Daemon.start clock iobufsize a).world) := by
  have howned := start_owned clock iobufsize a
  rcases Daemon.start_spec clock iobufsize a with ⟨-, -, hfds, -, hlog, -⟩
  refine ⟨⟨howned, ?_, ?_⟩, ?_⟩
  · intro fd hmem
    simp only [netOf, hfds] at hmem
    cases hmem
  · simp only [netOf, hfds, hlog]
    rfl
  · simp [hlog]

/-- The descriptors of the devices and the ledger of the system agree. -/
structure Agrees (n : Net) : Prop where
  /-- a device has a descriptor exactly in the states from closing on -/
  state : ∀ dev ∈ n.devs, 0 ≤ dev.fd ↔ dev.state ∈
    [DevState.iodevClosing, .iodevPending, .iodevOpen, .iodevConnected, .iodevActive]
  apart : ∀ (i j : Nat) (dev dev' : Iodev), i ≠ j → n.devs[i]? = some dev →
    n.devs[j]? = some dev' → 0 ≤ dev.fd → dev.fd ≠ dev'.fd
  held : ∀ dev ∈ n.devs, 0 ≤ dev.fd → dev.fd ∈ n.world.fds
  owner : ∀ fd ∈ n.world.fds, ∃! i : Nat, ∃ dev, n.devs[i]? = some dev ∧ dev.fd = fd
  /-- no open descriptor was returned again, and none was closed twice -/
  replay : openAfter n.world.log = some n.world.fds
  registered : ∀ event session fd, .registered event session fd ∈ n.world.log → 0 ≤ fd

theorem LedgerKept.agrees {s : Selector × World} (h : LedgerKept s) : Agrees (netOf s.1 s.2) := by
  have howned := h.balanced.owned
  have hfd : ∀ dev ∈ s.1.toList, 0 ≤ dev.fd ↔ dev.fd ≠ -1 := by
    intro dev hmem
    rcases List.mem_iff_getElem?.mp hmem with ⟨i, hget⟩
    constructor
    · intro hpos heq
      rw [heq] at hpos
      exact absurd hpos (by decide)
    · intro hne
      exact (howned.devs i dev hget).fd hne
  refine ⟨?_, ?_, ?_, ?_, h.balanced.replay, fun _ _ _ hmem => h.registered _ hmem⟩
  · intro dev hmem
    rcases List.mem_iff_getElem?.mp hmem with ⟨i, hget⟩
    rw [hfd dev hmem]
    refine (howned.devs i dev hget).held.trans ?_
    cases dev.state <;> simp [DevState.holds, DevState.toNat]
  · intro i j dev dev' hij hi hj hpos heq
    have hnone := howned.apart i j dev dev' hij hi hj heq
    rw [hnone] at hpos
    exact absurd hpos (by decide)
  · intro dev hmem hpos
    exact howned.opened dev hmem ((hfd dev hmem).mp hpos)
  · intro fd hmem
    rcases h.balanced.covered fd hmem with ⟨hpos, i, dev, hget, hdev⟩
    refine ⟨i, ⟨dev, hget, hdev⟩, ?_⟩
    rintro j ⟨dev', hget', hdev'⟩
    by_contra hij
    -- two devices with one descriptor have none
    have hnone := howned.apart j i dev' dev hij hget' hget (hdev'.trans hdev.symm)
    rw [← hdev', hnone] at hpos
    exact absurd hpos (by decide)

/-- In every state that calls, rounds and process cycles reach, in any order and with any answers of
the system, the descriptors of the devices and the ledger of the system agree, if no write is lost
on the way. -/
theorem run_agrees (iobufsize : Nat) (a : InitAnswers) {moves : List Move}
    (hcurrent : Along (Move.apply clock) (Move.Current clock)
      ((Daemon.start clock iobufsize a).app.selector, (Daemon.start clock iobufsize a).world) moves) :
    let s := run (Move.apply clock)
      ((Daemon.start clock iobufsize a).app.selector, (Daemon.start clock iobufsize a).world) moves
    Agrees (netOf s.1 s.2) :=
  (Machine.run_invariant_along LedgerKept (fun s move h hcurrent => move_kept clock s move h hcurrent)
    (start_kept clock iobufsize a) hcurrent).agrees

/-! ## Six clients -/

/-- A client connects, and `select` also reports `exceptional`. -/
def clientComes (exceptional : Finset Int) (sets : FdSets) (fd : Nat) : Move :=
  .round ⟨Daemon.openAll, .ready ⟨{4}, ∅, exceptional⟩, fun _ => ⟨none, some fd, none⟩⟩ sets

/-- The devices are opened, and six clients connect, one in each round; the array has to grow for the
last one. -/
def sixClients (exceptional : Finset Int) : List Move :=
  [.round ⟨Daemon.openAll, .ready .zero, fun _ => ⟨none, none, none⟩⟩ .zero,
    .process (.init 128) ⟨0, 0⟩ ⟨64⟩, clientComes ∅ .zero 5] ++
  [6, 7, 8, 9].map (clientComes ∅ ⟨{4}, ∅, ∅⟩) ++ [clientComes exceptional ⟨{4}, ∅, ∅⟩ 10]

/-- The devices and the world when they have come. -/
def afterSixClients (exceptional : Finset Int) : Selector × World :=
  run (Move.apply fun _ => 0)
    ((Daemon.start (fun _ => 0) 64 Daemon.oneAddress).app.selector,
      (Daemon.start (fun _ => 0) 64 Daemon.oneAddress).world) (sixClients exceptional)

theorem six_clients_agree : Agrees (netOf (afterSixClients ∅).1 (afterSixClients ∅).2) :=
  run_agrees (fun _ => 0) 64 Daemon.oneAddress (by decide +kernel)

/-- When the listener is also exceptional, it is closed in the old block, and the record in the new
one still has its number. -/
theorem closed_in_old_block :
    ¬ Agrees (netOf (afterSixClients {4}).1 (afterSixClients {4}).2) := by
  intro h
  have hheld : ∀ dev ∈ (afterSixClients {4}).1.toList, 0 ≤ dev.fd →
      dev.fd ∈ (afterSixClients {4}).2.fds := h.held
  exact absurd hheld (by decide +kernel)

end Hdmi2usbd
