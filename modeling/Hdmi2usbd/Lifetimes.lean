import Hdmi2usbd.Lib.Lifetime
import Hdmi2usbd.Loops

/-!
# Lifetimes — no descriptor is used outside its session

A descriptor is leased from the system: `open`, `socket` and `accept` acquire it under a new
session, `read` and `write` use it, `close` releases it. The log of every run that loses no close is
lawful, also with failures at any point and with reloads, which forget the devices that hold a
descriptor (`run_exclusive`). So the daemon never reads, writes or closes a descriptor that it has
closed before, which the system may have given to another connection since.
-/

namespace Hdmi2usbd

open Machine (Along run)
open Lifetime (Holding Exclusive Leases Meaning meaning_of_replay replay replay_others replay_snoc)

/-- What an event does to the lease of a descriptor. -/
def Ev.act : Ev → Lifetime.Act Nat Int
  | .opened _ session fd => .acquire session fd
  | .received session _ | .sent session _ _ => .use session
  | .closed session fd => .release session fd
  | _ => .other

/-- The leases that the log ends with cover the devices. -/
structure Covers (l : Leases Nat Int) (n : Net) : Prop where
  log : replay Ev.act n.world.log = some l
  issued : ∀ session ∈ l.issued, session ≤ n.world.opens
  live : ∀ lease ∈ l.live, lease.2 ∈ n.world.fds
  held : ∀ dev ∈ n.devs, dev.fd ≠ -1 → (dev.session, dev.fd) ∈ l.live

namespace Covers

variable {l : Leases Nat Int} {n : Net}

/-- Nothing happens to a descriptor, and a device keeps its own or has none. -/
theorem keep (h : Covers l n) {n' : Net}
    (hlog : Adds (fun ev => ev.act = .other) n.world.log n'.world.log)
    (hfds : n'.world.fds = n.world.fds) (hopens : n.world.opens ≤ n'.world.opens)
    (hheld : ∀ dev ∈ n'.devs, dev.fd ≠ -1 → (dev.session, dev.fd) ∈ l.live) : Covers l n' := by
  rcases hlog with ⟨evs, hlog, hevs⟩
  constructor
  · rw [hlog]
    exact replay_others h.log hevs
  · intro session hsession
    exact (h.issued session hsession).trans hopens
  · intro lease hlease
    rw [hfds]
    exact h.live lease hlease
  · exact hheld

/-- A slot gets a device with the same descriptor and session, or without a descriptor. -/
theorem held_set (h : Covers l n) {index : Nat} {dev dev' : Iodev}
    (hget : n.devs[index]? = some dev) (hfd : dev'.fd = -1 ∨ dev'.fd = dev.fd)
    (hsession : dev'.session = dev.session) :
    ∀ d ∈ n.devs.set index dev', d.fd ≠ -1 → (d.session, d.fd) ∈ l.live := by
  intro d hd hne
  rcases List.mem_or_eq_of_mem_set hd with hd | rfl
  · exact h.held d hd hne
  · rcases hfd with hfd | hfd
    · exact absurd hfd hne
    · rw [hfd] at hne ⊢
      rw [hsession]
      exact h.held dev (List.mem_of_getElem? hget) hne

/-- A read or a write of a device that has a descriptor. -/
theorem use (h : Covers l n) {dev : Iodev} (hdev : dev ∈ n.devs) (hfd : dev.fd ≠ -1) {ev : Ev}
    (hev : ev.act = .use dev.session) {n' : Net} (hlog : n'.world.log = n.world.log ++ [ev])
    (hfds : n'.world.fds = n.world.fds) (hopens : n'.world.opens = n.world.opens)
    (hheld : ∀ dev ∈ n'.devs, dev.fd ≠ -1 → (dev.session, dev.fd) ∈ l.live) : Covers l n' := by
  constructor
  · rw [hlog, replay_snoc h.log, hev, Leases.apply, if_pos ⟨_, h.held dev hdev hfd, rfl⟩]
  · rw [hopens]
    exact h.issued
  · rw [hfds]
    exact h.live
  · exact hheld

/-- An opening issues a new session. -/
theorem acquire (h : Covers l n) {fd : Int} (hfresh : fd ∉ n.world.fds) {driver : Driver} {n' : Net}
    (hlog : n'.world.log = n.world.log ++ [.opened driver (n.world.opens + 1) fd])
    (hfds : n'.world.fds = insert fd n.world.fds) (hopens : n'.world.opens = n.world.opens + 1)
    (hheld : ∀ dev ∈ n'.devs, dev.fd ≠ -1 →
      dev ∈ n.devs ∨ dev.session = n.world.opens + 1 ∧ dev.fd = fd) :
    Covers ⟨insert (n.world.opens + 1) l.issued, insert (n.world.opens + 1, fd) l.live⟩ n' := by
  constructor
  · rw [hlog, replay_snoc h.log, Ev.act, Leases.apply, if_pos]
    constructor
    · intro hold
      have := h.issued _ hold
      omega
    · rintro lease hlease rfl
      exact hfresh (h.live lease hlease)
  · intro session hsession
    rw [hopens]
    rcases Finset.mem_insert.mp hsession with rfl | hsession
    · exact le_rfl
    · exact (h.issued session hsession).trans (Nat.le_succ _)
  · intro lease hlease
    rw [hfds]
    rcases Finset.mem_insert.mp hlease with rfl | hlease
    · exact Finset.mem_insert_self _ _
    · exact Finset.mem_insert_of_mem (h.live lease hlease)
  · intro dev hdev hne
    rcases hheld dev hdev hne with hold | ⟨hsession, hfd⟩
    · exact Finset.mem_insert_of_mem (h.held dev hold hne)
    · rw [hsession, hfd]
      exact Finset.mem_insert_self _ _

/-- A close gives up the lease of the device, and of no other. -/
theorem release (h : Covers l n) (hseated : Seated n) {index : Nat} {dev dev' : Iodev}
    (hget : n.devs[index]? = some dev) (hfd : dev.fd ≠ -1) (hgone : dev'.fd = -1) {w' : World}
    (hlog : w'.log = n.world.log ++ [.closed dev.session dev.fd])
    (hfds : w'.fds = n.world.fds.erase dev.fd) (hopens : w'.opens = n.world.opens) :
    Covers { l with live := l.live.erase (dev.session, dev.fd) } ⟨n.devs.set index dev', w'⟩ := by
  have hlive := h.held dev (List.mem_of_getElem? hget) hfd
  constructor
  · rw [hlog, replay_snoc h.log, Ev.act, Leases.apply, if_pos hlive]
  · rw [hopens]
    exact h.issued
  · intro lease hlease
    rcases Finset.mem_erase.mp hlease with ⟨hne, hlease⟩
    rw [hfds, Finset.mem_erase]
    refine ⟨?_, h.live lease hlease⟩
    intro heq
    exact hne ((meaning_of_replay h.log).apart lease hlease _ hlive heq)
  · intro d hd hne
    rcases List.mem_iff_getElem?.mp hd with ⟨j, hj⟩
    rcases Slots.getElem?_set_cases hj with ⟨-, rfl⟩ | ⟨hj, hold⟩
    · exact absurd hgone hne
    · refine Finset.mem_erase.mpr ⟨?_, h.held d (List.mem_of_getElem? hold) hne⟩
      intro heq
      have hzero := hseated.distinct j index d dev hj hold hget (congrArg Prod.fst heq)
      have := (hseated.devs j d hold).positive hne
      omega

end Covers

/-! ## Rounds -/

theorem Ev.IsNote.act {ev : Ev} (h : ev.IsNote) : ev.act = .other := by
  cases ev with
  | registered | deref | called => rfl
  | _ => exact absurd h id

/-- Any action but a write, if none is lost. -/
theorem netAct_covers {n : Net} {a : NetAct} {l : Leases Nat Int} (h : Covers l n)
    (hseated : Seated n) (hok : a.Ok (.losing False) n) (hsends : ¬ a.Sends) :
    ∃ l, Covers l (a.apply n) := by
  cases a with
  | lost index a => exact absurd hok.1 id
  | note ev => exact ⟨l, h.keep (Adds.single (Ev.IsNote.act hok) _) rfl le_rfl h.held⟩
  | accept fd bufsize slot =>
    rcases hok with ⟨hfresh, -, -⟩
    refine ⟨_, h.acquire hfresh rfl rfl rfl ?_⟩
    intro dev hdev _
    rcases mem_devs_accept hdev with rfl | hdev
    · exact .inr ⟨rfl, rfl⟩
    · exact .inl hdev
  | device index a =>
    rcases hok with ⟨dev, hget, hok⟩
    simp only [NetAct.apply, hget]
    have hheld := (hseated.devs index dev hget).held
    cases a with
    | sent k => exact absurd trivial hsends
    | tick | pace pacer | dropped | retired =>
      exact ⟨l, h.keep (Adds.refl _) rfl le_rfl (h.held_set hget (.inr rfl) rfl)⟩
    | note ev =>
      exact ⟨l, h.keep (Adds.single (Ev.IsNote.act hok) _) rfl le_rfl
        (h.held_set hget (.inr rfl) rfl)⟩
    | refused => exact ⟨l, h.keep (Adds.refl _) rfl le_rfl (h.held_set hget (.inl rfl) rfl)⟩
    | received bytes =>
      have hfd := hheld.mpr (holds_of_isOpen hok.1)
      exact ⟨l, h.use (List.mem_of_getElem? hget) hfd rfl rfl rfl rfl
        (h.held_set hget (.inr rfl) rfl)⟩
    | released =>
      exact ⟨_, h.release hseated hget (hheld.mpr hok) rfl rfl rfl rfl⟩
    | opened fd state =>
      refine ⟨_, h.acquire hok.2.2.1 rfl rfl rfl ?_⟩
      intro d hd _
      rcases List.mem_or_eq_of_mem_set hd with hd | rfl
      · exact .inl hd
      · exact .inr ⟨rfl, rfl⟩

theorem covers_loop : LoopKeeps False fun n => ∃ l, Covers l n := by
  constructor
  · rintro n a ⟨l, h⟩ hseated - hok hsends
    exact netAct_covers h hseated hok hsends
  · rintro n w index k dev r ⟨l, h⟩ hseated - hget hopen hnote hfds hopens
      ⟨⟨pacer, hdev⟩, ⟨tick, hlog⟩, hfds', hopens'⟩
    have hnow : Covers l ⟨n.devs, w⟩ :=
      h.keep (hnote.mono fun _ => Ev.IsNote.act) hfds (Nat.le_of_eq hopens.symm) h.held
    have hfd := (hseated.devs index dev hget).held.mpr (holds_of_isOpen hopen)
    refine ⟨l, hnow.use (List.mem_of_getElem? hget) hfd rfl hlog hfds' hopens' ?_⟩
    exact h.held_set hget (.inr (by rw [hdev])) (by rw [hdev])

/-! ## Runs -/

theorem Ev.IsCycle.act {ev : Ev} (h : ev.IsCycle) : ev.act = .other := by
  cases ev with
  | moved | copied | handed => rfl
  | _ => exact absurd h id

theorem Ev.act_mark {ev : Ev} (h : ev.isMark = true) : ev.act = .other := by
  cases ev with
  | signalled | reloaded | processed => rfl
  | _ => cases h

variable (clock : Nat → UTime)

theorem Covers.mark {l : Leases Nat Int} {sel : Selector} {w : World} (h : Covers l (netOf sel w))
    (ev : Ev) (hev : ev.isMark = true) : Covers l (netOf sel (w.record ev)) :=
  h.keep (Adds.single (Ev.act_mark hev) _) rfl le_rfl h.held

/-- A process cycle touches no descriptor. -/
theorem hdmi2usbProcess_covers {l : Leases Nat Int} {app : Hdmi2usb} {w : World}
    (h : Covers l (netOf app.selector w)) (rc : Int) :
    Covers l (netOf (hdmi2usbProcess clock app rc w).2.1.selector
      (hdmi2usbProcess clock app rc w).2.2) := by
  have hshell := hdmi2usbProcess_shell clock app rc w
  refine h.keep ((hdmi2usbProcess_log clock app rc w).mono fun _ => Ev.IsCycle.act) hshell.fds
    (Nat.le_of_eq hshell.opens.symm) ?_
  intro dev hdev hne
  rcases List.mem_iff_getElem?.mp hdev with ⟨index, hget⟩
  rcases hshell.slot hget with ⟨dev', hget', hsame⟩
  have hfd : dev.fd = dev'.fd := show dev.shell.fd = dev'.shell.fd by rw [hsame]
  have hsession : dev.session = dev'.session :=
    show dev.shell.session = dev'.shell.session by rw [hsame]
  rw [hfd] at hne ⊢
  rw [hsession]
  exact h.held dev' (List.mem_of_getElem? hget') hne

/-- Fresh devices hold no descriptor; what the devices before them held stays leased. -/
theorem Covers.reload {l : Leases Nat Int} {sel : Selector} {w : World} (h : Covers l (netOf sel w))
    {n : Net} (hdevs : InitialDevices n.devs) (hlog : n.world.log = w.log)
    (hfds : n.world.fds = w.fds) (hopens : n.world.opens = w.opens) : Covers l n := by
  refine h.keep ⟨[], by simpa [netOf] using hlog, by simp⟩ hfds (Nat.le_of_eq hopens.symm) ?_
  intro dev hdev hne
  exact absurd (hdevs.1 dev hdev).fd hne

theorem step_covers {d : Daemon} (horderly : Orderly 0 d)
    (h : ∃ l, Covers l (netOf d.app.selector d.world)) {i : Input}
    (hstale : InRounds (NoStaleClose clock) d i) :
    ∃ l, Covers l (netOf (d.step clock i).app.selector (d.step clock i).world) := by
  rcases h with ⟨l, h⟩
  refine d.step_keeps clock (I := fun app w => ∃ l, Covers l (netOf app.selector w)) ⟨l, h⟩
    (fun _ hev => ⟨l, h.mark _ hev⟩) ?_ ?_ ⟨l, hdmi2usbProcess_covers clock (h.mark _ rfl) 0⟩
  · intro a hi hpc
    exact covers_loop.round ⟨l, h⟩ horderly (.inr (hstale a hi hpc))
  intro a rc app w hinit
  rcases hdmi2usbInit_spec hinit with ⟨hdevs, -, -, -, hfds, hopens, hlog⟩
  exact ⟨l, (h.mark .reloaded rfl).reload hdevs hlog hfds hopens⟩

theorem start_covers (iobufsize : Nat) (a : InitAnswers) :
    ∃ l, Covers l (netOf (Daemon.start clock iobufsize a).app.selector
      (Daemon.start clock iobufsize a).world) := by
  rcases Daemon.start_spec clock iobufsize a with ⟨hdevs, -, hfds, hopens, hlog, -⟩
  have hnone : Covers .none (netOf selectorInit .init) := by
    refine ⟨rfl, ?_, ?_, ?_⟩
    all_goals simp [Leases.none, netOf]
  exact ⟨_, hnone.reload hdevs hlog hfds hopens⟩

theorem run_covers {iobufsize : Nat} {a : InitAnswers} {inputs : List Input}
    (hstale : Along (Daemon.step clock) (InRounds (NoStaleClose clock))
      (Daemon.start clock iobufsize a) inputs) :
    ∃ l, Covers l
      (netOf (run (Daemon.step clock) (Daemon.start clock iobufsize a) inputs).app.selector
        (run (Daemon.step clock) (Daemon.start clock iobufsize a) inputs).world) :=
  (Machine.run_invariant_along
    (fun d : Daemon => Orderly 0 d ∧ ∃ l, Covers l (netOf d.app.selector d.world))
    (fun _ i h hstale => ⟨h.1.step clock i, step_covers clock h.1 h.2 hstale⟩)
    ⟨start_orderly clock (Nat.zero_le _) a, start_covers clock iobufsize a⟩ hstale).2

/-- In every run that loses no close each session is opened once, on a descriptor that no session
holds; every read and write is of a session that holds its descriptor; every close is of the
descriptor that the session holds; and what a device holds at the end is its own. -/
theorem run_exclusive (iobufsize : Nat) (a : InitAnswers) (inputs : List Input)
    (hstale : Along (Daemon.step clock) (InRounds (NoStaleClose clock))
      (Daemon.start clock iobufsize a) inputs) :
    let d := run (Daemon.step clock) (Daemon.start clock iobufsize a) inputs
    Exclusive Ev.act d.world.log ∧
      ∀ dev ∈ d.app.selector.toList, dev.fd ≠ -1 →
        Holding Ev.act d.world.log dev.session dev.fd := by
  rcases run_covers clock hstale with ⟨l, h⟩
  constructor
  · refine Lifetime.Lawful.exclusive ?_
    rw [Lifetime.Lawful]
    exact Option.isSome_iff_exists.mpr ⟨l, h.log⟩
  · intro dev hdev hne
    exact ((meaning_of_replay h.log).live dev.session dev.fd).mp (h.held dev hdev hne)

/-- The client hangs up, and the next one gets its number. -/
def sameNumber : List Input :=
  Daemon.firstConnection ++
    [Daemon.turn ⟨{5}, ∅, ∅⟩ ⟨some [], none, none⟩, Daemon.turn ⟨{4}, ∅, ∅⟩ ⟨none, some 5, none⟩]

theorem run_exclusive_same_number :
    let d := run (Daemon.step fun _ => 0) (Daemon.start (fun _ => 0) 16 Daemon.oneAddress) sameNumber
    Exclusive Ev.act d.world.log ∧
      ∀ dev ∈ d.app.selector.toList, dev.fd ≠ -1 →
        Holding Ev.act d.world.log dev.session dev.fd :=
  run_exclusive (fun _ => 0) 16 Daemon.oneAddress sameNumber (by decide +kernel)

end Hdmi2usbd
