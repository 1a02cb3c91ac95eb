import Mathlib.Data.Finset.Basic
import Mathlib.Data.Finset.Insert
import Mathlib.Data.Finset.Erase
import Hdmi2usbd.Timer

/-!
# World — the operating system the daemon talks to

The world holds the ledger of open descriptors, the number of clock readings made
so far and a log of what happened. The clock itself is a parameter: the `n`-th call
of `timer_getmillitime` returns `clock n`. What a system call returns is an argument
of the function that makes it; the world refuses a descriptor that is already open.

A descriptor number is used again after it is closed. A *session* is not: it numbers
the openings, and so tells two uses of one number apart. Sessions, like the log, are
read by no function of the program.
-/

namespace Hdmi2usbd

/-- The kinds of device, by the function table their creator fills in. -/
inductive Driver
  | serial
  | listen
  | accepted
deriving DecidableEq, Repr

/-- What `select` reports, one for each of its sets. -/
inductive IoEvent
  | read
  | write
  | except
deriving DecidableEq, Repr

/-- What the log records. -/
inductive Ev
  | opened (driver : Driver) (session : Nat) (fd : Int)
  | closed (session : Nat) (fd : Int)
  | registered (event : IoEvent) (session : Nat) (fd : Int)
  /-- a device is read through a pointer into block `pointer`; the array is in `block` -/
  | deref (pointer block : Nat)
  | called (event : IoEvent) (session : Nat) (fd : Int)
  | received (session : Nat) (bytes : List UInt8)
  | sent (session : Nat) (bytes : List UInt8) (tick : Nat)
  | moved (bytes : List UInt8)
  | copied (session : Nat) (bytes : List UInt8)
  /-- a command is handed to the serial device: the reading at which the timer check
  passed, if it took one, and the reading at which the timer was reset -/
  | handed (session : Nat) (command : List UInt8) (pass : Option UTime) (reset : UTime)
  | signalled (sig : Nat)
  | reloaded
  | processed
deriving DecidableEq, Repr

/-- Events of the main loop: a signal, and what the switch then did. -/
def Ev.isMark : Ev → Bool
  | .signalled _ | .reloaded | .processed => true
  | _ => false

structure World where
  fds : Finset Int
  tick : Nat
  opens : Nat
  log : List Ev

namespace World

def init : World := ⟨∅, 0, 0, []⟩

def record (w : World) (ev : Ev) : World := { w with log := w.log ++ [ev] }

/-- `open`, `socket` or `accept`: `fd?` is the number the system has to offer, `none`
a failure. Returns the descriptor or -1. -/
def openFd (driver : Driver) (fd? : Option Nat) (w : World) : Int × World :=
  match fd? with
  | none => (-1, w)
  | some fd =>
    if (fd : Int) ∈ w.fds then (-1, w)
    else (fd, { w with
      fds := insert (fd : Int) w.fds
      opens := w.opens + 1
      log := w.log ++ [.opened driver (w.opens + 1) fd] })

/-- `close`. -/
def closeFd (session : Nat) (fd : Int) (w : World) : World :=
  { w with fds := w.fds.erase fd, log := w.log ++ [.closed session fd] }

section Clock

variable (clock : Nat → UTime)

/-- `timer_getmillitime`. -/
def now (w : World) : UTime × World := (clock w.tick, { w with tick := w.tick + 1 })

/-- `timer_reset`. -/
def reset (duration : UTime) (w : World) : Microtimer × World :=
  (timerReset (w.now clock).1 duration, (w.now clock).2)

/-- `timer_expired`: a timer that never ends takes no reading. -/
def expired (t : Microtimer) (w : World) : Bool × World :=
  if t.tEnding = never then (true, w)
  else (timerExpired t (w.now clock).1, (w.now clock).2)

/-- The reading `timer_expired` decides on. -/
def checkedAt (t : Microtimer) (w : World) : Option UTime :=
  if t.tEnding = never then none else some (w.now clock).1

end Clock

/-! What the operations leave alone. -/

section Lemmas

variable (w : World) (clock : Nat → UTime) (ev : Ev) (d : UTime) (t : Microtimer)

@[simp] theorem record_fds : (w.record ev).fds = w.fds := rfl
@[simp] theorem record_opens : (w.record ev).opens = w.opens := rfl
@[simp] theorem record_tick : (w.record ev).tick = w.tick := rfl
@[simp] theorem record_log : (w.record ev).log = w.log ++ [ev] := rfl
@[simp] theorem closeFd_fds (s : Nat) (fd : Int) : (w.closeFd s fd).fds = w.fds.erase fd := rfl
@[simp] theorem closeFd_opens (s : Nat) (fd : Int) : (w.closeFd s fd).opens = w.opens := rfl
@[simp] theorem closeFd_log (s : Nat) (fd : Int) :
    (w.closeFd s fd).log = w.log ++ [.closed s fd] := rfl
@[simp] theorem reset_fds : (w.reset clock d).2.fds = w.fds := rfl
@[simp] theorem reset_opens : (w.reset clock d).2.opens = w.opens := rfl
@[simp] theorem reset_log : (w.reset clock d).2.log = w.log := rfl

@[simp] theorem expired_fds : (w.expired clock t).2.fds = w.fds := by
  unfold expired
  split <;> rfl

@[simp] theorem expired_opens : (w.expired clock t).2.opens = w.opens := by
  unfold expired
  split <;> rfl

@[simp] theorem expired_log : (w.expired clock t).2.log = w.log := by
  unfold expired
  split <;> rfl

end Lemmas

theorem tick_le_expired (clock : Nat → UTime) (t : Microtimer) (w : World) :
    w.tick ≤ (w.expired clock t).2.tick := by
  unfold expired
  split
  · exact le_rfl
  · exact Nat.le_succ _

theorem expired_tick {clock : Nat → UTime} {w w' : World} (htick : w'.tick = w.tick)
    (t : Microtimer) : (w'.expired clock t).1 = (w.expired clock t).1 := by
  unfold expired now
  rw [htick]
  split <;> rfl

/-- Only a reading of the clock can show that a timer has not expired. -/
theorem tick_lt_expired {clock : Nat → UTime} {t : Microtimer} {w : World}
    (h : (w.expired clock t).1 = false) : w.tick < (w.expired clock t).2.tick := by
  unfold expired at h ⊢
  split at h
  · cases h
  · next hnever =>
    rw [if_neg hnever]
    exact Nat.lt_succ_self _

/-- What an opening does: nothing when it fails; else the descriptor is a number that
was not open, and the session is a new one. -/
theorem openFd_cases (driver : Driver) (fd? : Option Nat) (w : World) :
    w.openFd driver fd? = (-1, w) ∨
    ∃ fd : Nat, fd? = some fd ∧ (fd : Int) ∉ w.fds ∧ w.openFd driver fd? =
      ((fd : Int), { w with
        fds := insert (fd : Int) w.fds
        opens := w.opens + 1
        log := w.log ++ [.opened driver (w.opens + 1) fd] }) := by
  cases fd? with
  | none => exact .inl rfl
  | some fd =>
    by_cases hmem : (fd : Int) ∈ w.fds
    · exact .inl (by simp [openFd, hmem])
    · exact .inr ⟨fd, rfl, hmem, by simp [openFd, hmem]⟩

end World

/-! ## Reading the log -/

/-- What has been logged between two states of the world. -/
def World.since (w w' : World) : List Ev := w'.log.drop w.log.length

theorem World.since_eq {evs : List Ev} {w w' : World} (h : w'.log = w.log ++ evs) :
    w.since w' = evs := by
  rw [World.since, h, List.drop_left]

theorem World.since_trans {w w' w'' : World} (h : w.log <+: w'.log) (h' : w'.log <+: w''.log) :
    w.since w'' = w.since w' ++ w'.since w'' := by
  rcases h with ⟨evs, h⟩
  rcases h' with ⟨evs', h'⟩
  rw [World.since_eq h.symm, World.since_eq h'.symm]
  rw [← h, List.append_assoc] at h'
  exact World.since_eq h'.symm

/-- The bytes that `read` has returned in a session. -/
def receivedOf (session : Nat) (log : List Ev) : List UInt8 :=
  log.flatMap fun
    | .received s bytes => if s = session then bytes else []
    | _ => []

/-- The bytes that `write` has taken in a session. -/
def sentOf (session : Nat) (log : List Ev) : List UInt8 :=
  log.flatMap fun
    | .sent s bytes _ => if s = session then bytes else []
    | _ => []

/-- The commands of a session that have been handed to the serial device, in order. -/
def handedOf (session : Nat) (log : List Ev) : List (List UInt8) :=
  log.filterMap fun
    | .handed s command _ _ => if s = session then some command else none
    | _ => none

section Log

variable (session : Nat) (log log' : List Ev)

@[simp] theorem receivedOf_nil : receivedOf session [] = [] := rfl

@[simp] theorem receivedOf_append :
    receivedOf session (log ++ log') = receivedOf session log ++ receivedOf session log' := by
  simp [receivedOf]

@[simp] theorem sentOf_nil : sentOf session [] = [] := rfl

@[simp] theorem sentOf_append :
    sentOf session (log ++ log') = sentOf session log ++ sentOf session log' := by
  simp [sentOf]

@[simp] theorem handedOf_nil : handedOf session [] = [] := rfl

@[simp] theorem handedOf_append :
    handedOf session (log ++ log') = handedOf session log ++ handedOf session log' := by
  simp [handedOf]

end Log

/-- `log'` is `log` and some more events, all with `P`. -/
def Adds (P : Ev → Prop) (log log' : List Ev) : Prop := ∃ evs, log' = log ++ evs ∧ ∀ ev ∈ evs, P ev

namespace Adds

variable {P : Ev → Prop} {log log' log'' : List Ev}

theorem refl (log : List Ev) : Adds P log log := ⟨[], by simp⟩

theorem single {ev : Ev} (h : P ev) (log : List Ev) : Adds P log (log ++ [ev]) := by
  refine ⟨[ev], rfl, ?_⟩
  intro ev' hmem
  rwa [List.mem_singleton.mp hmem]

theorem trans (h : Adds P log log') (h' : Adds P log' log'') : Adds P log log'' := by
  rcases h with ⟨evs, rfl, hevs⟩
  rcases h' with ⟨evs', rfl, hevs'⟩
  refine ⟨evs ++ evs', by rw [List.append_assoc], ?_⟩
  intro ev hmem
  rcases List.mem_append.mp hmem with hmem | hmem
  · exact hevs ev hmem
  · exact hevs' ev hmem

theorem extended (h : Adds P log log') : log <+: log' := by
  rcases h with ⟨evs, rfl, -⟩
  exact List.prefix_append log evs

/-- Events are added in two parts. -/
theorem split (h : log <+: log') (h' : log' <+: log'') :
    Adds P log log'' ↔ Adds P log log' ∧ Adds P log' log'' := by
  constructor
  · rcases h with ⟨evs, rfl⟩
    rcases h' with ⟨evs', rfl⟩
    rintro ⟨all, hall, hP⟩
    rw [List.append_assoc, List.append_cancel_left_eq] at hall
    rw [← hall] at hP
    exact ⟨⟨evs, rfl, fun ev hev => hP ev (List.mem_append_left _ hev)⟩,
      ⟨evs', rfl, fun ev hev => hP ev (List.mem_append_right _ hev)⟩⟩
  · rintro ⟨h₁, h₂⟩
    exact h₁.trans h₂

theorem mono {Q : Ev → Prop} (h : Adds P log log') (hPQ : ∀ ev, P ev → Q ev) : Adds Q log log' := by
  rcases h with ⟨evs, hlog, hevs⟩
  exact ⟨evs, hlog, fun ev hev => hPQ ev (hevs ev hev)⟩

end Adds

end Hdmi2usbd
