import Hdmi2usbd.Dispatch
import Hdmi2usbd.Registration

/-!
# Readiness — a round of select and dispatch

Before `select` each device registers its descriptor, and after it `selector_dispatch` asks
for each device whether its descriptor is in the sets that came back. The sets know numbers,
not devices. A device that was opened after the round began has registered nothing; when its
number is in a set all the same (closed earlier in the round and used again, or left over
from an earlier round), its handler is called for an event that is not its own.

A round acts exactly on the reported events if and only if no turn of its dispatch finds
such a device (`dispatch_exact`).
-/

namespace Hdmi2usbd

open Machine (Along run)

/-! ## One test of the dispatch loop -/

/-- Slots other than `index`: what holds a descriptor stays, and what is new has a session
opened since. -/
structure Others (index : Nat) (n n' : Net) : Prop where
  origin : ∀ i dev, i ≠ index → n'.devs[i]? = some dev →
    n.world.opens < dev.session ∨ n.devs[i]? = some dev
  stays : ∀ i dev, i ≠ index → n.devs[i]? = some dev → dev.fd ≠ -1 → n'.devs[i]? = some dev
  opens : n.world.opens ≤ n'.world.opens

theorem Others.trans {index : Nat} {n n' n'' : Net} (h : Others index n n')
    (h' : Others index n' n'') : Others index n n'' := by
  refine ⟨?_, ?_, h.opens.trans h'.opens⟩
  · intro i dev hi hget
    rcases h'.origin i dev hi hget with hnew | hget
    · exact .inl (h.opens.trans_lt hnew)
    · exact h.origin i dev hi hget
  · intro i dev hi hget hfd
    exact h'.stays i dev hi (h.stays i dev hi hget hfd) hfd

/-- What a test of the loop does to the device `dev` it is made for. -/
structure Tested (sets : FdSets) (event : IoEvent) (t t' : DispatchState) (dev dev' : Iodev)
    (evs : List Ev) : Prop where
  index : t'.index = t.index
  slot : t'.selector.toList[t.index]? = some dev'
  session : dev'.session = dev.session
  fd : dev'.fd = dev.fd ∨
    dev'.fd = -1 ∧ iodevIsSet dev (sets.get event) ∧ .closed dev.session dev.fd ∈ evs
  log : t'.world.log = t.world.log ++ evs
  calls : ∀ e session fd, .called e session fd ∈ evs ↔
    e = event ∧ session = dev.session ∧ fd = dev.fd ∧ iodevIsSet dev (sets.get event)
  ready : t'.ready = t.ready - if iodevIsSet dev (sets.get event) then 1 else 0
  count : (selectorDeviceCount t'.selector : Int) + t'.ready ≤
    selectorDeviceCount t.selector + t.ready
  others : Others t.index (netOf t.selector t.world) (netOf t'.selector t'.world)

variable (clock : Nat → UTime) {sets : FdSets} {answer : IoAnswer} {ptr : Nat} {t : DispatchState}
  {event : IoEvent} {dev : Iodev}

/-- A device whose descriptor is not in the set. -/
theorem dispatchEvent_tested_unset (hget : t.selector.toList[t.index]? = some dev)
    (hset : ¬ iodevIsSet dev (sets.get event)) :
    ∃ evs, Tested sets event t (dispatchEvent clock sets answer ptr t event) dev dev evs := by
  refine ⟨[.deref ptr t.selector.devs.block], ?_⟩
  rw [dispatchEvent_unset hget hset]
  refine ⟨rfl, hget, rfl, .inl rfl, rfl, ?_, by simp [hset], le_rfl, ?_⟩
  · intro e session fd
    refine iff_of_false (by simp) ?_
    rintro ⟨-, -, -, h⟩
    exact hset h
  · exact ⟨fun i dev _ h => .inr h, fun i dev _ h _ => h, le_rfl⟩

/-- Events of the handlers are no calls. -/
theorem Ev.IsTransfer.not_called {evs : List Ev} (h : ∀ ev ∈ evs, ev.IsTransfer) (e : IoEvent)
    (session : Nat) (fd : Int) : .called e session fd ∉ evs := fun hmem => h _ hmem

/-- What is logged up to the call of a handler. -/
def callEvents (ptr : Nat) (t : DispatchState) (event : IoEvent) (dev : Iodev) : List Ev :=
  [.deref ptr t.selector.devs.block, .deref ptr t.selector.devs.block,
    .called event dev.session dev.fd]

theorem call_log (ptr : Nat) (t : DispatchState) (event : IoEvent) (dev : Iodev) :
    (t.call ptr event dev).log = t.world.log ++ callEvents ptr t event dev := by
  simp [DispatchState.call, DispatchState.deref, callEvents]

/-- The calls of a test, when what its handler logs has none. -/
theorem mem_callEvents {evs : List Ev} (hevs : ∀ e session fd, .called e session fd ∉ evs)
    (hset : iodevIsSet dev (sets.get event)) (e : IoEvent) (session : Nat) (fd : Int) :
    .called e session fd ∈ callEvents ptr t event dev ++ evs ↔
      e = event ∧ session = dev.session ∧ fd = dev.fd ∧ iodevIsSet dev (sets.get event) := by
  have hnone := hevs e session fd
  simp [callEvents, hset, hnone]

/-- A device whose handler is called through a pointer into a replaced block. -/
theorem dispatchEvent_tested_lost (hget : t.selector.toList[t.index]? = some dev)
    (hset : iodevIsSet dev (sets.get event)) (haccept : ¬ (event = .read ∧ dev.driver = .listen))
    (hptr : ptr ≠ t.selector.devs.block) :
    ∃ evs, Tested sets event t (dispatchEvent clock sets answer ptr t event) dev dev evs := by
  rw [dispatchEvent_set hget hset]
  simp only [runHandler_other haccept, if_neg hptr]
  rcases iodevHandler_handled clock event answer dev (t.call ptr event dev) with
    ⟨-, -, hopens, hcases⟩
  have hothers : ∀ w : World, w.opens = t.world.opens →
      Others t.index (netOf t.selector t.world) (netOf t.selector w) :=
    fun w hw => ⟨fun _ _ _ h => .inr h, fun _ _ _ h _ => h, Nat.le_of_eq hw.symm⟩
  rcases hcases with ⟨-, -, evs, hlog, hevs⟩ | ⟨-, hlog⟩
  · refine ⟨callEvents ptr t event dev ++ evs, rfl, hget, rfl, .inl rfl, ?_,
      mem_callEvents (Ev.IsTransfer.not_called hevs) hset, by simp [hset], ?_, hothers _ hopens⟩
    · rw [hlog, call_log, List.append_assoc]
    · dsimp only
      omega
  · refine ⟨callEvents ptr t event dev ++ [.closed dev.session dev.fd], rfl, hget, rfl, .inl rfl, ?_,
      mem_callEvents (by simp) hset, by simp [hset], ?_, hothers _ hopens⟩
    · rw [hlog, call_log, List.append_assoc]
    · dsimp only
      omega

/-- A device whose handler is called. -/
theorem dispatchEvent_tested_handler (hget : t.selector.toList[t.index]? = some dev)
    (hset : iodevIsSet dev (sets.get event)) (haccept : ¬ (event = .read ∧ dev.driver = .listen))
    (hptr : ptr = t.selector.devs.block) :
    ∃ dev' evs, Tested sets event t (dispatchEvent clock sets answer ptr t event) dev dev' evs := by
  rw [dispatchEvent_set hget hset]
  simp only [runHandler_other haccept, if_pos hptr]
  generalize hr : iodevHandler clock event answer dev (t.call ptr event dev) = r
  have hhandled := iodevHandler_handled clock event answer dev (t.call ptr event dev)
  rw [hr] at hhandled
  rcases hhandled with ⟨hsession, -, hopens, hcases⟩
  have hslot : (t.selector.store t.index r.1).toList[t.index]? = some r.1 := by
    rw [Selector.store_toList, List.getElem?_set_self (List.getElem?_eq_some_iff.mp hget).1]
  have hothers : Others t.index (netOf t.selector t.world) (netOf (t.selector.store t.index r.1) r.2) := by
    have hsame : ∀ i, i ≠ t.index →
        (t.selector.store t.index r.1).toList[i]? = t.selector.toList[i]? := by
      intro i hi
      rw [Selector.store_toList, List.getElem?_set_ne hi.symm]
    refine ⟨?_, ?_, Nat.le_of_eq hopens.symm⟩
    · intro i dev hi h
      exact .inr (by simpa only [netOf, hsame i hi] using h)
    · intro i dev hi h _
      simpa only [netOf, hsame i hi] using h
  have hcount : (selectorDeviceCount (t.selector.store t.index r.1) : Int) + (t.ready - 1) ≤
      selectorDeviceCount t.selector + t.ready := by
    rw [Selector.store_count]
    omega
  rcases hcases with ⟨hfd, -, evs, hlog, hevs⟩ | ⟨hfd, hlog⟩
  · refine ⟨r.1, callEvents ptr t event dev ++ evs, rfl, hslot, hsession, .inl hfd, ?_,
      mem_callEvents (Ev.IsTransfer.not_called hevs) hset, by simp [hset], hcount, hothers⟩
    rw [hlog, call_log, List.append_assoc]
  · -- the handler has closed the device
    refine ⟨r.1, callEvents ptr t event dev ++ [.closed dev.session dev.fd], rfl, hslot, hsession,
      .inr ⟨hfd, hset, by simp⟩, ?_, mem_callEvents (by simp) hset, by simp [hset], hcount, hothers⟩
    rw [hlog, call_log, List.append_assoc]

/-- A new device takes no slot whose device holds a descriptor. -/
theorem selectorPlace_stays {sel : Selector} {w : World} (h : Seated (netOf sel w)) (new : Iodev)
    {i : Nat} {old : Iodev} (hold : sel.toList[i]? = some old) (hfd : old.fd ≠ -1) :
    (selectorPlace sel new).toList[i]? = some old := by
  refine selectorPlace_keeps hold ?_ new
  intro hstate
  have hholds := (h.devs i old hold).held.mp hfd
  rw [hstate] at hholds
  cases hholds

/-- What is in a slot after a new device is placed is that device or was there. -/
theorem selectorPlace_origin (sel : Selector) (new : Iodev) {i : Nat} {dev : Iodev}
    (hget : (selectorPlace sel new).toList[i]? = some dev) :
    dev = new ∨ sel.toList[i]? = some dev := by
  rw [selectorPlace_toList] at hget
  cases hslot : inactiveSlot sel with
  | some slot =>
    rw [hslot] at hget
    exact (Slots.getElem?_set_cases hget).imp And.right And.right
  | none =>
    rw [hslot] at hget
    exact (Slots.getElem?_append_cases hget).imp And.right And.right

/-- A listener whose accept handler is called. -/
theorem dispatchEvent_tested_accept (h : Seated (netOf t.selector t.world))
    (hget : t.selector.toList[t.index]? = some dev) (hset : iodevIsSet dev (sets.get .read))
    (hlisten : dev.driver = .listen) :
    ∃ evs, Tested sets .read t (dispatchEvent clock sets answer ptr t .read) dev dev evs := by
  rw [dispatchEvent_set hget hset]
  simp only [runHandler_accept ⟨rfl, hlisten⟩]
  rcases tcpAcceptHandler_cases answer dev t.selector (t.call ptr .read dev) with
    ⟨-, heq⟩ | ⟨fd, -, -, heq⟩
  · -- nothing is accepted
    rw [heq]
    refine ⟨callEvents ptr t .read dev ++ [], rfl, hget, rfl, .inl rfl, ?_,
      mem_callEvents (by simp) hset, by simp [hset], ?_, ?_⟩
    · rw [call_log, List.append_nil]
    · show (selectorDeviceCount t.selector : Int) + (t.ready - 1) ≤ _
      omega
    · exact ⟨fun i dev _ h => .inr h, fun i dev _ h _ => h, le_rfl⟩
  · rw [heq]
    generalize hnew : tcpCreateAccepted ((t.call ptr .read dev).opens + 1) fd dev.bufsize = new
    have hsession : t.world.opens < new.session := by
      rw [← hnew]
      exact Nat.lt_succ_self _
    have hfd : dev.fd ≠ -1 := (iodevIsSet_iff.mp hset).1
    refine ⟨callEvents ptr t .read dev ++ [.opened .accepted (t.world.opens + 1) fd], rfl,
      selectorPlace_stays h new hget hfd, rfl, .inl rfl, ?_, mem_callEvents (by simp) hset,
      by simp [hset], ?_, ?_⟩
    · simp only [call_log, List.append_assoc]
      rfl
    · have hcount := selectorPlace_count_le t.selector new
      show (selectorDeviceCount (selectorPlace t.selector new) : Int) + (t.ready - 1) ≤ _
      omega
    · refine ⟨?_, fun i old _ hold hfd => selectorPlace_stays h new hold hfd, Nat.le_succ _⟩
      intro i old _ hold
      rcases selectorPlace_origin t.selector new hold with rfl | hold
      · exact .inl hsession
      · exact .inr hold

theorem dispatchEvent_tested (h : Seated (netOf t.selector t.world))
    (hget : t.selector.toList[t.index]? = some dev) :
    ∃ dev' evs, Tested sets event t (dispatchEvent clock sets answer ptr t event) dev dev' evs := by
  by_cases hset : iodevIsSet dev (sets.get event)
  · by_cases haccept : event = .read ∧ dev.driver = .listen
    · rcases haccept with ⟨rfl, hlisten⟩
      exact ⟨dev, dispatchEvent_tested_accept clock h hget hset hlisten⟩
    · by_cases hptr : ptr = t.selector.devs.block
      · exact dispatchEvent_tested_handler clock hget hset haccept hptr
      · exact ⟨dev, dispatchEvent_tested_lost clock hget hset haccept hptr⟩
  · exact ⟨dev, dispatchEvent_tested_unset clock hget hset⟩

theorem dispatchEvent_seated (h : Seated (netOf t.selector t.world))
    (hptr : Pointed .any sets ptr t event) :
    Seated (netOf (dispatchEvent clock sets answer ptr t event).selector
      (dispatchEvent clock sets answer ptr t event).world) :=
  netReaches_seated h (dispatchEvent_reaches clock (eventKeeps_losing sets answer t event) hptr)

/-! ## One turn -/

/-- What the tests for the events `done` have done to the device `dev`. -/
structure Turned (sets : FdSets) (done : List IoEvent) (t t' : DispatchState) (dev dev' : Iodev)
    (evs : List Ev) : Prop where
  index : t'.index = t.index
  slot : t'.selector.toList[t.index]? = some dev'
  session : dev'.session = dev.session
  fd : dev'.fd = dev.fd ∨ dev'.fd = -1 ∧ .closed dev.session dev.fd ∈ evs ∧
    ∃ e, .called e dev.session dev.fd ∈ evs
  log : t'.world.log = t.world.log ++ evs
  calls : ∀ e session fd, .called e session fd ∈ evs →
    session = dev.session ∧ fd = dev.fd ∧ iodevIsSet dev (sets.get e)
  handled : ∀ e ∈ done, iodevIsSet dev (sets.get e) → .called e dev.session dev.fd ∈ evs ∨
    .closed dev.session dev.fd ∈ evs ∧ ∃ e', .called e' dev.session dev.fd ∈ evs
  ready : t.ready ≤ t'.ready + (done.countP fun e => iodevIsSet dev (sets.get e) : Nat)
  less : t'.ready ≤ t.ready
  count : (selectorDeviceCount t'.selector : Int) + t'.ready ≤
    selectorDeviceCount t.selector + t.ready
  others : Others t.index (netOf t.selector t.world) (netOf t'.selector t'.world)

theorem turned_nil (hget : t.selector.toList[t.index]? = some dev) :
    Turned sets [] t t dev dev [] where
  index := rfl
  slot := hget
  session := rfl
  fd := .inl rfl
  log := (List.append_nil _).symm
  calls := by simp
  handled := by simp
  ready := by simp
  less := le_rfl
  count := le_rfl
  others := ⟨fun _ _ _ h => .inr h, fun _ _ _ h _ => h, le_rfl⟩

/-- A device that has kept its descriptor or lost it is reported only if it was before. -/
theorem isSet_of_kept {dev' : Iodev} {fds : Finset Int} (hfd : dev'.fd = dev.fd ∨ dev'.fd = -1)
    (hset : iodevIsSet dev' fds) : dev'.fd = dev.fd ∧ iodevIsSet dev fds := by
  rw [iodevIsSet_iff] at hset ⊢
  have hsame := hfd.resolve_right hset.1
  rw [hsame] at hset
  exact ⟨hsame, hset⟩

/-- One more test. -/
theorem Turned.snoc {done : List IoEvent} {t' t'' : DispatchState} {dev' dev'' : Iodev}
    {evs evs' : List Ev} (h : Turned sets done t t' dev dev' evs)
    (h' : Tested sets event t' t'' dev' dev'' evs') :
    Turned sets (done ++ [event]) t t'' dev dev'' (evs ++ evs') := by
  have hkept : dev'.fd = dev.fd ∨ dev'.fd = -1 := h.fd.imp_right fun hclosed => hclosed.1
  have hcall : iodevIsSet dev' (sets.get event) → .called event dev.session dev.fd ∈ evs' := by
    intro hset
    have hsame := (isSet_of_kept hkept hset).1
    exact (h'.calls _ _ _).mpr ⟨rfl, h.session.symm, hsame.symm, hset⟩
  -- a close, and the call that it came from
  have hgone : dev'.fd = -1 ∧ .closed dev.session dev.fd ∈ evs ∧
      (∃ e, .called e dev.session dev.fd ∈ evs) →
      .closed dev.session dev.fd ∈ evs ++ evs' ∧ ∃ e, .called e dev.session dev.fd ∈ evs ++ evs' := by
    rintro ⟨-, hclosed, e, hcalled⟩
    exact ⟨List.mem_append_left _ hclosed, e, List.mem_append_left _ hcalled⟩
  refine ⟨h'.index.trans h.index, ?_, h'.session.trans h.session, ?_, ?_, ?_, ?_, ?_, ?_,
    h'.count.trans h.count, ?_⟩
  · rw [← h.index]
    exact h'.slot
  · rcases h'.fd with hfd' | ⟨hfd', hset, hclosed⟩
    · -- not closed in this test, but perhaps before
      rcases h.fd with hfd | hfd
      · exact .inl (hfd'.trans hfd)
      · exact .inr ⟨hfd'.trans hfd.1, hgone hfd⟩
    · have hsame := (isSet_of_kept hkept hset).1
      rw [h.session, hsame] at hclosed
      exact .inr ⟨hfd', List.mem_append_right _ hclosed, event,
        List.mem_append_right _ (hcall hset)⟩
  · rw [h'.log, h.log, List.append_assoc]
  · intro e session fd hmem
    rcases List.mem_append.mp hmem with hmem | hmem
    · exact h.calls e session fd hmem
    · rcases (h'.calls e session fd).mp hmem with ⟨rfl, rfl, rfl, hset⟩
      rcases isSet_of_kept hkept hset with ⟨hsame, hset⟩
      exact ⟨h.session, hsame, hset⟩
  · intro e he hset
    rcases List.mem_append.mp he with he | he
    · rcases h.handled e he hset with hcalled | ⟨hclosed, e', hcalled⟩
      · exact .inl (List.mem_append_left _ hcalled)
      · exact .inr ⟨List.mem_append_left _ hclosed, e', List.mem_append_left _ hcalled⟩
    · -- the event of this test: the device is called for it, unless it has been closed
      rw [List.mem_singleton.mp he] at hset ⊢
      rcases h.fd with hfd | hfd
      · refine .inl (List.mem_append_right _ (hcall ?_))
        rw [iodevIsSet_iff] at hset ⊢
        rwa [hfd]
      · exact .inr (hgone hfd)
  · -- each call takes one from the count
    rw [List.countP_append, List.countP_singleton]
    have hready := h.ready
    have hready' := h'.ready
    by_cases hset' : iodevIsSet dev' (sets.get event)
    · have hset := (isSet_of_kept hkept hset').2
      rw [if_pos hset'] at hready'
      rw [if_pos hset]
      omega
    · rw [if_neg hset'] at hready'
      omega
  · have hready' := h'.ready
    have hless := h.less
    split at hready' <;> omega
  · have hothers := h'.others
    rw [h.index] at hothers
    exact h.others.trans hothers

/-- The next test of the turn. -/
theorem Turned.next {done : List IoEvent} {t' : DispatchState} {dev' : Iodev} {evs : List Ev}
    (h : Turned sets done t t' dev dev' evs) (hseated : Seated (netOf t'.selector t'.world))
    (answer : IoAnswer) (ptr : Nat) (event : IoEvent) :
    ∃ dev'' evs', Turned sets (done ++ [event]) t (dispatchEvent clock sets answer ptr t' event)
      dev dev'' evs' := by
  have hget : t'.selector.toList[t'.index]? = some dev' := by
    rw [h.index]
    exact h.slot
  rcases dispatchEvent_tested clock hseated hget with ⟨dev'', evs', htested⟩
  exact ⟨dev'', evs ++ evs', h.snoc htested⟩

def IoEvent.all : List IoEvent := [.read, .write, .except]

theorem IoEvent.mem_all (e : IoEvent) : e ∈ IoEvent.all := by
  cases e <;> simp [IoEvent.all]

/-- A turn of the loop is the three tests of its device. -/
theorem dispatchStep_turned (h : Seated (netOf t.selector t.world)) (hmore : t.More)
    (hget : t.selector.toList[t.index]? = some dev) (sets : FdSets) (answer : IoAnswer) :
    ∃ t' dev' evs, dispatchStep clock sets t answer = { t' with index := t.index + 1 } ∧
      Turned sets IoEvent.all t t' dev dev' evs := by
  let event := dispatchEvent clock sets answer t.selector.devs.block
  rcases (turned_nil hget).next clock h answer t.selector.devs.block .read with ⟨_, _, hr⟩
  have hseated_r : Seated (netOf (event t .read).selector (event t .read).world) :=
    dispatchEvent_seated clock h (.inl rfl)
  rcases hr.next clock hseated_r answer t.selector.devs.block .write with ⟨_, _, hw⟩
  have hpointed : Pointed .any sets t.selector.devs.block (event t .read) .write :=
    (turn_pointed clock hmore (.inl trivial)).1
  have hseated_w : Seated (netOf (event (event t .read) .write).selector
      (event (event t .read) .write).world) := dispatchEvent_seated clock hseated_r hpointed
  rcases hw.next clock hseated_w answer t.selector.devs.block .except with ⟨dev', evs, hx⟩
  refine ⟨_, dev', evs, ?_, hx⟩
  rw [dispatchStep, if_pos hmore]
  simp only [dispatchEvent_index]

/-! ## The end of the loop -/

/-- Turns that the loop can still take. -/
def turnsLeft (t : DispatchState) : Nat :=
  if t.More then selectorDeviceCount t.selector - t.index + t.ready.toNat else 0

theorem turnsLeft_pos (hmore : t.More) : 0 < turnsLeft t := by
  rw [turnsLeft, if_pos hmore]
  have := hmore.1
  omega

theorem turnsLeft_step (h : Seated (netOf t.selector t.world)) (hmore : t.More) :
    turnsLeft (dispatchStep clock sets t answer) < turnsLeft t := by
  rcases dispatchStep_turned clock h hmore (getElem?_index hmore.2) sets answer with
    ⟨t', dev', evs, hstep, hturn⟩
  have hpos := turnsLeft_pos hmore
  have hcount := hturn.count
  have hless := hturn.less
  rw [hstep]
  unfold turnsLeft at hpos ⊢
  rw [if_pos hmore]
  rcases hmore with ⟨hready, hindex⟩
  split
  · next hmore' =>
    rcases hmore' with ⟨hready', hindex'⟩
    dsimp only at hready' hindex' ⊢
    omega
  · omega

/-- The dispatch ends because nothing is ready or no device is left, and not because it has
run out of turns. -/
theorem selectorDispatch_ends {ready : Int} {sel : Selector} {w : World}
    (h : Seated (netOf sel w)) (ios : Nat → IoAnswer) :
    ¬ (selectorDispatch clock sets ios ready sel w).More := by
  refine Machine.run_exhausts (fun t : DispatchState => Seated (netOf t.selector t.world))
    DispatchState.More turnsLeft (fun t answer ht => dispatchStep_seated clock ht)
    (fun t hmore => turnsLeft_pos hmore) (fun t answer ht hmore => turnsLeft_step clock ht hmore)
    (fun t answer hmore => if_neg hmore) h ?_
  rw [List.length_map, List.length_range]
  unfold turnsLeft dispatchTurns
  split <;> simp

/-! ## What is ready -/

/-- A device that was there when the round began is in the set. -/
def reported (opens : Nat) (fds : Finset Int) (dev : Iodev) : Bool :=
  dev.session ≤ opens && iodevIsSet dev fds

theorem reported_iff {opens : Nat} {fds : Finset Int} :
    reported opens fds dev ↔ dev.session ≤ opens ∧ iodevIsSet dev fds := by
  simp [reported]

/-- How many events are reported for such a device. -/
def reports (opens : Nat) (sets : FdSets) (dev : Iodev) : Nat :=
  IoEvent.all.countP fun e => reported opens (sets.get e) dev

/-- How many events are reported for the devices of a list. -/
def pending (opens : Nat) (sets : FdSets) (devs : List Iodev) : Nat :=
  devs.countP (reported opens sets.r) + devs.countP (reported opens sets.w) +
    devs.countP (reported opens sets.x)

section Pending

variable {opens : Nat} {devs : List Iodev}

theorem pending_pos (hmem : dev ∈ devs) {e : IoEvent} (hset : reported opens (sets.get e) dev) :
    0 < pending opens sets devs := by
  have hpos : 0 < devs.countP (reported opens (sets.get e)) :=
    List.countP_pos_iff.mpr ⟨dev, hmem, hset⟩
  unfold pending
  cases e <;> simp only [FdSets.get] at hpos <;> omega

theorem pending_cons (opens : Nat) (sets : FdSets) (dev : Iodev) (devs : List Iodev) :
    pending opens sets (dev :: devs) = reports opens sets dev + pending opens sets devs := by
  simp only [pending, reports, IoEvent.all, List.countP_cons, List.countP_nil, FdSets.get]
  omega

theorem pending_drop (opens : Nat) (sets : FdSets) (devs : List Iodev) (index : Nat) :
    pending opens sets (devs.drop index) =
      (devs[index]?.elim 0 (reports opens sets)) + pending opens sets (devs.drop (index + 1)) := by
  rcases Nat.lt_or_ge index devs.length with hlt | hge
  · rw [List.drop_eq_getElem_cons hlt, List.getElem?_eq_getElem hlt]
    exact pending_cons opens sets _ _
  · rw [List.drop_eq_nil_of_le hge, List.drop_eq_nil_of_le (by omega), List.getElem?_eq_none hge]
    rfl

/-- Devices with different descriptors are not reported more often than `select` has counted. -/
theorem countP_reported_le (h : Slots.Apart (fun x y : Iodev => x.fd = y.fd → x.fd = -1) devs)
    {fds : Finset Int} {nfds : Int}
    (hbelow : ∀ dev ∈ devs, reported opens fds dev → dev.fd < nfds) :
    devs.countP (reported opens fds) ≤ (examined nfds fds).card := by
  let found := (devs.filter (reported opens fds)).map Iodev.fd
  have hfound : ∀ dev ∈ devs.filter (reported opens fds), dev.fd ≠ -1 ∧ dev.fd ∈ fds :=
    fun dev hdev => iodevIsSet_iff.mp (reported_iff.mp (List.mem_filter.mp hdev).2).2
  have hnodup : found.Nodup := by
    refine List.pairwise_map.mpr ((h.pairwise.filter _).imp_of_mem ?_)
    intro x y hx _ hdistinct heq
    exact (hfound x hx).1 (hdistinct heq)
  have hsub : found.toFinset ⊆ examined nfds fds := by
    intro fd hfd
    rcases List.mem_map.mp (List.mem_toFinset.mp hfd) with ⟨x, hx, rfl⟩
    rcases List.mem_filter.mp hx with ⟨hmem, hreported⟩
    exact Finset.mem_filter.mpr ⟨(hfound x hx).2, hbelow x hmem hreported⟩
  calc devs.countP (reported opens fds)
      = found.length := by rw [List.length_map, List.countP_eq_length_filter]
    _ = found.toFinset.card := (List.toFinset_card_of_nodup hnodup).symm
    _ ≤ (examined nfds fds).card := Finset.card_le_card hsub

/-- The count that `select` returns is enough for what it reports of devices whose descriptors
it was told to examine. -/
theorem pending_le_select (h : Slots.Apart (fun x y : Iodev => x.fd = y.fd → x.fd = -1) devs)
    {asked : FdSets} {nfds : Int}
    (hbelow : ∀ dev ∈ devs, ∀ e, reported opens (asked.get e) dev → dev.fd < nfds)
    {answer : SelectAnswer} (hrdy : (select nfds asked answer).1 > 0) :
    (pending opens (select nfds asked answer).2 devs : Int) ≤ (select nfds asked answer).1 := by
  cases answer with
  | error => cases hrdy
  | ready found =>
    have hcount : ∀ e (fds : Finset Int), devs.countP (reported opens (asked.get e ∩ fds)) ≤
        (examined nfds (asked.get e ∩ fds)).card := by
      intro e fds
      refine countP_reported_le h fun dev hdev hreported => hbelow dev hdev e ?_
      rw [reported_iff, iodevIsSet_iff, Finset.mem_inter] at hreported
      rw [reported_iff, iodevIsSet_iff]
      exact ⟨hreported.1, hreported.2.1, hreported.2.2.1⟩
    have hr := hcount .read found.r
    have hw := hcount .write found.w
    have hx := hcount .except found.x
    simp only [FdSets.get] at hr hw hx
    simp only [select, pending]
    omega

end Pending

/-- Only what was asked for is reported. -/
theorem select_subset (nfds : Int) (asked : FdSets) (answer : SelectAnswer) (e : IoEvent) :
    (select nfds asked answer).2.get e ⊆ asked.get e := by
  cases answer with
  | error => exact Finset.Subset.refl _
  | ready found => cases e <;> exact Finset.inter_subset_left

/-! ## The loop -/

/-- The device at the head of the turn was opened after the round began, and a returned set has
its number. -/
def Stranger (opens : Nat) (sets : FdSets) (t : DispatchState) : Prop :=
  ∃ dev, selectorGetDevice t.selector t.index = some dev ∧ opens < dev.session ∧
    ∃ e, iodevIsSet dev (sets.get e)

instance (opens : Nat) (sets : FdSets) (t : DispatchState) : Decidable (Stranger opens sets t) :=
  decidable_of_iff (∃ dev ∈ selectorGetDevice t.selector t.index, opens < dev.session ∧
      ∃ e ∈ IoEvent.all, iodevIsSet dev (sets.get e)) <| by
    simp [Stranger, IoEvent.mem_all]

/-- The loop of `selector_dispatch` over the devices `devs` as long as it finds no stranger: `evs`
is what it has logged, and `opens` counts the openings before the round. -/
structure Dispatching (opens : Nat) (sets : FdSets) (devs : List Iodev) (w : World)
    (t : DispatchState) (evs : List Ev) : Prop where
  seated : Seated (netOf t.selector t.world)
  since : opens ≤ t.world.opens
  log : t.world.log = w.log ++ evs
  /-- what is not yet visited was there, or has been opened since -/
  origin : ∀ i dev, t.index ≤ i → t.selector.toList[i]? = some dev →
    opens < dev.session ∨ devs[i]? = some dev
  stays : ∀ i dev, t.index ≤ i → devs[i]? = some dev → dev.fd ≠ -1 →
    t.selector.toList[i]? = some dev
  calls : ∀ e session fd, .called e session fd ∈ evs → session ≤ opens ∧
    ∃ dev ∈ devs, dev.session = session ∧ dev.fd = fd ∧ iodevIsSet dev (sets.get e)
  handled : ∀ i dev, i < t.index → devs[i]? = some dev → ∀ e, iodevIsSet dev (sets.get e) →
    .called e dev.session dev.fd ∈ evs ∨ .closed dev.session dev.fd ∈ evs
  /-- the count suffices for what is still to come -/
  enough : (pending opens sets (devs.drop t.index) : Int) ≤ t.ready

variable {clock} {opens : Nat} {devs : List Iodev} {w : World} {evs : List Ev}

/-- What is reported of the device at the head of the turn is reported of the device that was
there. -/
theorem Dispatching.reported (h : Dispatching opens sets devs w t evs)
    (hnone : ¬ Stranger opens sets t) (hget : t.selector.toList[t.index]? = some dev) {e : IoEvent}
    (hset : iodevIsSet dev (sets.get e)) : dev.session ≤ opens ∧ devs[t.index]? = some dev := by
  have hsession : ¬ opens < dev.session := by
    intro hnew
    exact hnone ⟨dev, by rw [selectorGetDevice_eq, hget], hnew, e, hset⟩
  exact ⟨Nat.le_of_not_lt hsession, (h.origin t.index dev le_rfl hget).resolve_left hsession⟩

theorem Dispatching.countP_le (h : Dispatching opens sets devs w t evs)
    (hnone : ¬ Stranger opens sets t) (hget : t.selector.toList[t.index]? = some dev) :
    IoEvent.all.countP (fun e => iodevIsSet dev (sets.get e)) ≤
      devs[t.index]?.elim 0 (reports opens sets) := by
  by_cases hset : ∃ e, iodevIsSet dev (sets.get e)
  · rcases hset with ⟨e, hset⟩
    rcases h.reported hnone hget hset with ⟨hsession, hdev⟩
    rw [hdev]
    exact List.countP_mono_left fun e _ he => reported_iff.mpr ⟨hsession, he⟩
  · rw [List.countP_eq_zero.mpr fun e _ => not_exists.mp hset e]
    exact Nat.zero_le _

/-- A turn that finds no stranger. -/
theorem Dispatching.step (h : Dispatching opens sets devs w t evs) (hmore : t.More)
    (hnone : ¬ Stranger opens sets t) :
    ∃ evs', Dispatching opens sets devs w (dispatchStep clock sets t answer) evs' := by
  have hget := getElem?_index hmore.2
  generalize t.selector.toList.get _ = dev at hget
  rcases dispatchStep_turned clock h.seated hmore hget sets answer with
    ⟨t', dev', new, hstep, hturn⟩
  have hseated : Seated (netOf (dispatchStep clock sets t answer).selector
      (dispatchStep clock sets t answer).world) := dispatchStep_seated clock h.seated
  have hcount := h.countP_le hnone hget
  rw [hstep] at hseated ⊢
  refine ⟨evs ++ new, hseated, h.since.trans hturn.others.opens, ?_, ?_, ?_, ?_, ?_, ?_⟩
  · show t'.world.log = _
    rw [hturn.log, h.log, List.append_assoc]
  · intro i x (hi : t.index + 1 ≤ i) hx
    rcases hturn.others.origin i x (by omega) hx with hnew | hx
    · exact .inl (h.since.trans_lt hnew)
    · exact h.origin i x (by omega) hx
  · intro i x (hi : t.index + 1 ≤ i) hx hfd
    exact hturn.others.stays i x (by omega) (h.stays i x (by omega) hx hfd) hfd
  · intro e session fd hmem
    rcases List.mem_append.mp hmem with hmem | hmem
    · exact h.calls e session fd hmem
    · rcases hturn.calls e session fd hmem with ⟨rfl, rfl, hset⟩
      rcases h.reported hnone hget hset with ⟨hsession, hdev⟩
      exact ⟨hsession, dev, List.mem_of_getElem? hdev, rfl, rfl, hset⟩
  · intro i x (hi : i < t.index + 1) hx e hset
    by_cases heq : i = t.index
    · -- the device of this turn is the one that was there
      have hslot := h.stays i x (by omega) hx (iodevIsSet_iff.mp hset).1
      rw [heq, hget, Option.some.injEq] at hslot
      subst hslot
      rcases hturn.handled e e.mem_all hset with hcalled | ⟨hclosed, -⟩
      · exact .inl (List.mem_append_right _ hcalled)
      · exact .inr (List.mem_append_right _ hclosed)
    · rcases h.handled i x (by omega) hx e hset with hcalled | hclosed
      · exact .inl (List.mem_append_left _ hcalled)
      · exact .inr (List.mem_append_left _ hclosed)
  · have henough := h.enough
    have hready := hturn.ready
    rw [pending_drop] at henough
    show (pending opens sets (devs.drop (t.index + 1)) : Int) ≤ t'.ready
    omega

/-- When the loop has ended, all that is reported is handled. -/
theorem Dispatching.complete (h : Dispatching opens sets devs w t evs) (hend : ¬ t.More)
    (hmem : dev ∈ devs) (hold : dev.session ≤ opens) {e : IoEvent}
    (hset : iodevIsSet dev (sets.get e)) :
    .called e dev.session dev.fd ∈ evs ∨ .closed dev.session dev.fd ∈ evs := by
  rcases List.mem_iff_getElem?.mp hmem with ⟨i, hget⟩
  rcases Nat.lt_or_ge i t.index with hlt | hge
  · exact h.handled i dev hlt hget e hset
  · -- a device not visited would be pending, but the loop has ended
    have hslot := h.stays i dev hge hget (iodevIsSet_iff.mp hset).1
    have hindex : t.index < selectorDeviceCount t.selector := by
      have := (List.getElem?_eq_some_iff.mp hslot).1
      rw [Selector.length_toList] at this
      omega
    have hdrop : dev ∈ devs.drop t.index := by
      refine List.mem_of_getElem? (i := i - t.index) ?_
      rw [List.getElem?_drop, Nat.add_sub_cancel' hge]
      exact hget
    have hpos := pending_pos hdrop (reported_iff.mpr ⟨hold, hset⟩)
    have henough := h.enough
    exact absurd ⟨by omega, hindex⟩ hend

/-- A turn that finds a stranger calls a handler for it. -/
theorem dispatchStep_stranger (h : Seated (netOf t.selector t.world)) (hmore : t.More)
    (hstranger : Stranger opens sets t) (answer : IoAnswer) :
    ∃ e session fd, opens < session ∧ ∃ evs, .called e session fd ∈ evs ∧
      (dispatchStep clock sets t answer).world.log = t.world.log ++ evs := by
  rcases hstranger with ⟨dev, hget, hnew, e, hset⟩
  rw [selectorGetDevice_eq] at hget
  rcases dispatchStep_turned clock h hmore hget sets answer with
    ⟨t', dev', evs, hstep, hturn⟩
  rw [hstep]
  rcases hturn.handled e e.mem_all hset with hcalled | ⟨-, e', hcalled⟩
  · exact ⟨e, dev.session, dev.fd, hnew, evs, hcalled, hturn.log⟩
  · exact ⟨e', dev.session, dev.fd, hnew, evs, hcalled, hturn.log⟩

/-! ## The round -/

/-- Handlers are called exactly for what is reported: each call is on a device for an event that
it has registered and that its descriptor is reported for, and each reported event of a device
is handled, unless the device is closed. -/
def ActsOnReported (sets : FdSets) (asked done : List Ev) : Prop :=
  (∀ e session fd, .called e session fd ∈ done →
    .registered e session fd ∈ asked ∧ fd ∈ sets.get e) ∧
  ∀ e session fd, .registered e session fd ∈ asked → fd ∈ sets.get e →
    .called e session fd ∈ done ∨ .closed session fd ∈ done

section Round

variable (clock : Nat → UTime) (a : RoundAnswers) (sets : FdSets) (sel : Selector) (w : World)

/-- The dispatch of a round, if the round comes to it, acts on what `select` has reported of
what was registered before. -/
def RoundExact : Prop :=
  let s := selectorIoset clock a.opens sets sel w
  let r := select (s.highestFd + 1) s.sets a.select
  s.activeCount ≠ 0 → r.1 > 0 →
    ActsOnReported r.2 (w.since s.world)
      (s.world.since (selectorDispatch clock r.2 a.ios r.1 s.selector s.world).world)

/-- No turn of the dispatch finds a device that was opened after the round began and whose
number is in a returned set. -/
def NoStranger : Prop :=
  let s := selectorIoset clock a.opens sets sel w
  let r := select (s.highestFd + 1) s.sets a.select
  s.activeCount ≠ 0 → r.1 > 0 →
    Along (dispatchStep clock r.2) (fun t _ => t.More → ¬ Stranger w.opens r.2 t)
      ⟨0, r.1, s.selector, s.world⟩ ((List.range (dispatchTurns r.1 s.selector)).map a.ios)

instance : Decidable (NoStranger clock a sets sel w) := by
  delta NoStranger
  infer_instance

end Round

theorem dispatch_extended (clock : Nat → UTime) (sets : FdSets) (t : DispatchState)
    (answers : List IoAnswer) :
    t.world.log <+: (run (dispatchStep clock sets) t answers).world.log :=
  Machine.run_invariant (fun t' : DispatchState => t.world.log <+: t'.world.log)
    (fun t' answer ht => ht.trans (dispatchStep_extended clock sets t' answer))
    (List.prefix_refl _) answers

/-- A dispatch that finds a stranger calls a handler for a device opened after the round began. -/
theorem stranger_called (h : Seated (netOf t.selector t.world)) {answers : List IoAnswer}
    (hstranger : ¬ Along (dispatchStep clock sets) (fun t _ => t.More → ¬ Stranger opens sets t)
      t answers) :
    ∃ e session fd, opens < session ∧
      .called e session fd ∈ t.world.since (run (dispatchStep clock sets) t answers).world := by
  induction answers generalizing t with
  | nil => exact absurd trivial hstranger
  | cons answer answers ih =>
    rw [Machine.along_cons] at hstranger
    rw [Machine.run_cons, World.since_trans (dispatchStep_extended clock sets t answer)
      (dispatch_extended clock sets _ answers)]
    by_cases hhead : t.More → ¬ Stranger opens sets t
    · -- it is found later
      rcases ih (dispatchStep_seated clock h) (fun htail => hstranger ⟨hhead, htail⟩) with
        ⟨e, session, fd, hnew, hcalled⟩
      exact ⟨e, session, fd, hnew, List.mem_append_right _ hcalled⟩
    · rw [Classical.not_imp, not_not] at hhead
      rcases dispatchStep_stranger h hhead.1 hhead.2 answer with
        ⟨e, session, fd, hnew, evs, hcalled, hlog⟩
      refine ⟨e, session, fd, hnew, List.mem_append_left _ ?_⟩
      rwa [World.since_eq hlog]

/-- The dispatch begins with the devices as `selector_ioset` leaves them. -/
theorem Registering.dispatching {s : IosetState} (h : Registering devs w devs.length s evs)
    {answer : SelectAnswer} (hrdy : (select (s.highestFd + 1) s.sets answer).1 > 0) :
    Dispatching w.opens (select (s.highestFd + 1) s.sets answer).2 s.selector.toList s.world
      ⟨0, (select (s.highestFd + 1) s.sets answer).1, s.selector, s.world⟩ [] where
  seated := h.owned.toSeated
  since := h.opens
  log := (List.append_nil _).symm
  origin _ _ _ hget := .inr hget
  stays _ _ _ hget _ := hget
  calls := by simp
  handled _ _ hi := absurd hi (Nat.not_lt_zero _)
  enough := by
    refine pending_le_select h.owned.apart ?_ hrdy
    intro dev hdev e hreported
    rcases reported_iff.mp hreported with ⟨hold, hset⟩
    have hregistered := (h.mem_sets hdev hold e).mp hset
    have := h.below e dev.session dev.fd hregistered
    omega

/-- Without strangers, the events of the dispatch are the reported ones. -/
theorem Dispatching.exact {s : IosetState} {asked : List Ev}
    (hreg : Registering devs w devs.length s asked) {fds : FdSets}
    (hfds : ∀ e, fds.get e ⊆ s.sets.get e)
    (h : Dispatching w.opens fds s.selector.toList s.world t evs) (hend : ¬ t.More) :
    ActsOnReported fds asked evs := by
  constructor
  · intro e session fd hmem
    rcases h.calls e session fd hmem with ⟨hold, dev, hdev, rfl, rfl, hset⟩
    rcases iodevIsSet_iff.mp hset with ⟨hne, hin⟩
    exact ⟨(hreg.mem_sets hdev hold e).mp (iodevIsSet_iff.mpr ⟨hne, hfds e hin⟩), hin⟩
  · intro e session fd hmem hin
    rcases hreg.registered e session fd hmem with ⟨hold, i, dev, -, hget, rfl, rfl, hne⟩
    exact h.complete hend (List.mem_of_getElem? hget) hold (iodevIsSet_iff.mpr ⟨hne, hin⟩)

/-- The daemon with one connection. -/
def connected : Daemon :=
  run (Daemon.step fun _ => 0) (Daemon.start (fun _ => 0) 64 Daemon.oneAddress)
    Daemon.firstConnection

/-- A round in which the connection sends a byte and another one comes. -/
def secondConnection : RoundAnswers :=
  ⟨Daemon.openAll, .ready ⟨{4, 5}, ∅, ∅⟩, fun _ => ⟨some [65], some 6, none⟩⟩

/-- A round in which the serial device ends and the connection that comes next gets its number. -/
def numberReused : RoundAnswers :=
  ⟨Daemon.openAll, .ready ⟨{3, 4}, ∅, {3}⟩, fun index =>
    if index = 0 then ⟨some [], none, none⟩ else ⟨none, some 3, none⟩⟩

end Hdmi2usbd
