import Mathlib.Algebra.BigOperators.Group.Finset.Basic
import Mathlib.Algebra.Order.BigOperators.Group.Finset
import Hdmi2usbd.Arbitration

/-!
# Bypass — how often a waiting connection is passed over

The order of the slots is a fixed priority, so a connection can be passed over for as long as others
have commands. But every due cycle hands a command on, and each line that a connection sends is
handed on once at most. So a waiting connection is passed over at most as often as the others have
lines, those not yet handed on and those they send in the meantime (`run_bypassed`).
-/

namespace Hdmi2usbd

open Machine (run)

/-! ## Connections that have been accepted -/

/-- The sessions of the connections that have been accepted. -/
def acceptedOf (log : List Ev) : Finset Nat :=
  (log.filterMap fun
    | .opened .accepted session _ => some session
    | _ => none).toFinset

theorem mem_acceptedOf {session : Nat} {log : List Ev} :
    session ∈ acceptedOf log ↔ ∃ fd, .opened .accepted session fd ∈ log := by
  rw [acceptedOf, List.mem_toFinset, List.mem_filterMap]
  constructor
  · rintro ⟨ev, hev, heq⟩
    split at heq
    · next s fd =>
      cases heq
      exact ⟨fd, hev⟩
    · cases heq
  · rintro ⟨fd, hmem⟩
    exact ⟨_, hmem, rfl⟩

theorem acceptedOf_mono {log log' : List Ev} (h : log <+: log') : acceptedOf log ⊆ acceptedOf log' := by
  intro session hsession
  rcases mem_acceptedOf.mp hsession with ⟨fd, hmem⟩
  exact mem_acceptedOf.mpr ⟨fd, h.subset hmem⟩

/-- Every command that was handed on is from a connection that was accepted. -/
def HandsAccepted (log : List Ev) : Prop := ∀ hand ∈ handsOf log, hand.1 ∈ acceptedOf log

variable {clock : Nat → UTime}

theorem step_handsAccepted (hclock : ClockBounded clock) (hmono : NonDecreasing clock) {d : Daemon}
    (hbound : d.app.lastCommand.Bounded) (hseated : Seated (netOf d.app.selector d.world))
    (h : HandsAccepted d.world.log) (i : Input) : HandsAccepted (d.step clock i).world.log := by
  suffices hnew : ∃ evs, (d.step clock i).world.log = d.world.log ++ evs ∧
      ∀ hand ∈ handsOf evs, hand.1 ∈ acceptedOf d.world.log by
    rcases hnew with ⟨evs, hlog, hevs⟩
    intro hand hmem
    refine acceptedOf_mono (d.step_log clock i) ?_
    rw [hlog, handsOf_append] at hmem
    rcases List.mem_append.mp hmem with hmem | hmem
    · exact h hand hmem
    · exact hevs hand hmem
  by_cases hcheck : ∃ b, i = .check b ∧ d.Cycles
  · rcases hcheck with ⟨b, rfl, hcycles⟩
    rcases step_arbitrated hclock hbound hcycles b (hmono.runsForward _ _) with ⟨served, harb⟩
    rcases harb.hands with ⟨evs, hlog, hands⟩
    refine ⟨evs, hlog, fun hand hmem => ?_⟩
    -- a slot that is served holds an accepted connection
    rcases List.mem_iff_get.mp hmem with ⟨k, rfl⟩
    rcases List.forall₂_iff_get.mp hands with ⟨hlen, hget⟩
    rcases hget k (hlen.symm ▸ k.isLt) k.isLt with ⟨hpos, dev, -, hdev, ⟨hconn, -⟩, hsession, -⟩
    have hown := hseated.devs _ dev hdev
    rw [mem_acceptedOf, ← hsession]
    refine hown.accepted ?_
    cases hdriver : dev.driver with
    | accepted => rfl
    | serial => exact absurd (hown.serial.mpr hdriver) (Nat.ne_of_gt hpos)
    | listen =>
      rw [iodevIsListener, hown.listener hdriver] at hconn
      cases hconn
  · rcases @step_hands_nothing clock d i fun b hb hcycles => hcheck ⟨b, hb, hcycles⟩ with
      ⟨evs, hlog, hevs⟩
    refine ⟨evs, hlog, ?_⟩
    rw [hevs]
    exact fun _ hmem => absurd hmem List.not_mem_nil

theorem run_handsAccepted (hclock : ClockBounded clock) (hmono : NonDecreasing clock)
    (iobufsize : Nat) (a : InitAnswers) (inputs : List Input) :
    HandsAccepted (run (Daemon.step clock) (Daemon.start clock iobufsize a) inputs).world.log := by
  induction inputs using List.reverseRecOn with
  | nil =>
    have hnil := (Daemon.start_spec clock iobufsize a).2.2.2.2.1
    rw [HandsAccepted, Machine.run_nil, hnil]
    exact fun _ hmem => absurd hmem List.not_mem_nil
  | append_singleton inputs i ih =>
    rw [Machine.run_snoc]
    exact step_handsAccepted hclock hmono (run_bounded hclock iobufsize a inputs)
      (run_seated clock iobufsize a inputs) ih i

/-! ## Counting commands -/

theorem length_handedOf (session : Nat) (log : List Ev) :
    (handedOf session log).length = ((handsOf log).map Prod.fst).count session := by
  induction log with
  | nil => rfl
  | cons ev log ih =>
    rw [← List.singleton_append, handedOf_append, handsOf_append, List.length_append, ih,
      List.map_append, List.count_append]
    congr 1
    cases ev with
    | handed s => by_cases hs : s = session <;> simp [handedOf, handsOf, hs]
    | _ => rfl

/-- The commands handed on are those of the sessions they are from. -/
theorem length_handsOf {sessions : Finset Nat} {log : List Ev}
    (h : ∀ hand ∈ handsOf log, hand.1 ∈ sessions) :
    (handsOf log).length = ∑ session ∈ sessions, (handedOf session log).length := by
  have hmem : ∀ session ∈ ((handsOf log).map Prod.fst : Multiset Nat), session ∈ sessions := by
    intro session hsession
    rcases List.mem_map.mp (Multiset.mem_coe.mp hsession) with ⟨hand, hhand, rfl⟩
    exact h hand hhand
  have hsum := Finset.sum_congr rfl fun session (_ : session ∈ sessions) =>
    length_handedOf session log
  rw [hsum]
  have hcard := Multiset.sum_count_eq_card hmem
  simp only [Multiset.coe_count, Multiset.coe_card, List.length_map] at hcard
  exact hcard.symm

/-- A session has sent a line for every command of it that was handed on. -/
theorem Past.length_handedOf_le {session : Nat} {log : List Ev} (h : Past session log) :
    (handedOf session log).length ≤ (Lines.lines isEol (receivedOf session log)).length := by
  rcases h.input with ⟨rest, hreceived, hlines⟩
  rw [hreceived, Lines.lines_flatten_append hlines, List.length_append]
  exact Nat.le_add_right _ _

/-! ## The bound -/

/-- A process cycle is about to run with the timer expired, and the connection of the session
waits. -/
def Daemon.DueFor (clock : Nat → UTime) (session : Nat) (d : Daemon) (i : Input) : Prop :=
  d.Due clock i ∧ ∃ dev ∈ d.app.selector.toList.tail, dev.session = session ∧ dev.Waiting

instance (clock : Nat → UTime) (session : Nat) (d : Daemon) :
    DecidablePred (d.DueFor clock session) :=
  fun i => inferInstanceAs (Decidable (d.Due clock i ∧ _))

/-- The number of such cycles in a run. -/
def dueCyclesFor (clock : Nat → UTime) (session : Nat) (d : Daemon) (inputs : List Input) : Nat :=
  (Flow.total (Daemon.step clock) (fun d i => if d.DueFor clock session i then [i] else []) d
    inputs).length

/-- The lines that the other connections have sent by the end of `log'`, but for those that had been
handed on by the end of `log`. -/
def rivalLines (session : Nat) (log log' : List Ev) : Nat :=
  ∑ rival ∈ (acceptedOf log').erase session,
    ((Lines.lines isEol (receivedOf rival log')).length - (handedOf rival log).length)

/-- Each such cycle hands a command on, of the connection or of another. -/
theorem dueCyclesFor_le (hclock : ClockBounded clock) (hmono : NonDecreasing clock)
    (session : Nat) {d : Daemon} (hbound : d.app.lastCommand.Bounded) (inputs : List Input) :
    (handsOf d.world.log).length + dueCyclesFor clock session d inputs ≤
      (handsOf (run (Daemon.step clock) d inputs).world.log).length := by
  refine Flow.length_total_le (fun d : Daemon => d.app.lastCommand.Bounded)
    (fun d => (handsOf d.world.log).length) _ (fun _ i h => step_bounded hclock h i)
    (fun d i h => ?_) hbound inputs
  split
  · next hdue => exact step_due hclock hmono h hdue.1
  · rcases d.step_log clock i with ⟨evs, hlog⟩
    rw [← hlog, handsOf_append, List.length_append]
    exact Nat.le_add_right _ _

/-- The commands handed on in a stretch, when each connection has sent a line for each of them. -/
theorem handsOf_le_rivalLines {log log' evs : List Ev} (hlog : log ++ evs = log')
    (haccepted : HandsAccepted log')
    (hpast : ∀ session ∈ acceptedOf log', Past session log') (session : Nat) :
    (handsOf evs).length ≤ (handedOf session evs).length + rivalLines session log log' := by
  have hevs : ∀ hand ∈ handsOf evs, hand.1 ∈ acceptedOf log' := by
    intro hand hmem
    refine haccepted hand ?_
    rw [← hlog, handsOf_append]
    exact List.mem_append_right _ hmem
  -- a rival has sent a line for each command of it, in the stretch and before
  have hrival : ∀ rival ∈ (acceptedOf log').erase session, (handedOf rival evs).length ≤
      (Lines.lines isEol (receivedOf rival log')).length - (handedOf rival log).length := by
    intro rival hmem
    have hle := (hpast rival (Finset.mem_of_mem_erase hmem)).length_handedOf_le
    have happend := congrArg List.length (handedOf_append rival log evs)
    rw [hlog, List.length_append] at happend
    omega
  have hsum := Finset.sum_le_sum hrival
  rw [length_handsOf hevs]
  by_cases hmem : session ∈ acceptedOf log'
  · have hsplit := Finset.add_sum_erase _ (fun session => (handedOf session evs).length) hmem
    rw [← hsplit]
    exact Nat.add_le_add_left hsum _
  · rw [Finset.erase_eq_of_notMem hmem] at hsum
    rw [rivalLines, Finset.erase_eq_of_notMem hmem]
    exact hsum.trans (Nat.le_add_left _ _)

/-- From any state of a run on, the due cycles in which a connection waits are at most as many as the
commands of it that are handed on, and the lines of the others that were not handed on before. -/
theorem run_bypassed (hclock : ClockBounded clock) (hmono : NonDecreasing clock) (iobufsize : Nat)
    (a : InitAnswers) (past future : List Input) (session : Nat) :
    let d := run (Daemon.step clock) (Daemon.start clock iobufsize a) past
    let d' := run (Daemon.step clock) d future
    dueCyclesFor clock session d future ≤ (handedOf session (d.world.since d'.world)).length +
      rivalLines session d.world.log d'.world.log := by
  intro d d'
  have hbound : d.app.lastCommand.Bounded := run_bounded hclock iobufsize a past
  have hbooked := run_booked clock iobufsize a (past ++ future)
  have haccepted := run_handsAccepted hclock hmono iobufsize a (past ++ future)
  rw [Machine.run_append] at hbooked haccepted
  have hext : d.world.log <+: d'.world.log :=
    Machine.run_invariant (fun e : Daemon => d.world.log <+: e.world.log)
      (fun e i h => h.trans (e.step_log clock i)) (List.prefix_refl _) future
  rcases hext with ⟨evs, hlog⟩
  have hcycles : (handsOf d.world.log).length + dueCyclesFor clock session d future ≤
      (handsOf d'.world.log).length := dueCyclesFor_le hclock hmono session hbound future
  rw [← hlog, handsOf_append, List.length_append] at hcycles
  have hhands := handsOf_le_rivalLines hlog haccepted (fun session hmem => by
    rcases mem_acceptedOf.mp hmem with ⟨fd, hopened⟩
    exact hbooked.past session fd hopened) session
  rw [World.since_eq hlog.symm]
  omega

theorem run_bypassed_rivals :
    let d := run (Daemon.step cyclesClock) (Daemon.start cyclesClock 16 Daemon.oneAddress)
      twoClients
    let d' := run (Daemon.step cyclesClock) d rivals
    dueCyclesFor cyclesClock 4 d rivals ≤
      (handedOf 4 (d.world.since d'.world)).length + rivalLines 4 d.world.log d'.world.log :=
  run_bypassed cyclesClock_bounded cyclesClock_nonDecreasing 16 Daemon.oneAddress twoClients
    rivals 4

end Hdmi2usbd
