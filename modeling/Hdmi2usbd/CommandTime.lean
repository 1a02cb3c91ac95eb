import Mathlib.Data.List.TakeWhile
import Hdmi2usbd.Pacing

/-!
# CommandTime — the option `-c` and the pace of the commands

`parse_args` stores the argument of `-c` in `command_time`, and `main` starts the daemon with
the options. No function reads `command_time`: the timer of the commands is always reset with
`COMMAND_PACE`, so a configured interval is kept exactly if it is no longer than that
(`respected_iff`).
-/

namespace Hdmi2usbd

/-! ## The options -/

def isspace (c : Char) : Bool := c.toNat = 32 || (9 ≤ c.toNat && c.toNat ≤ 13)

def ulongMax : Nat := 0xffffffffffffffff

/-- `strtoul` in base 10: the number, and what stands behind it. Without a digit it is 0 and
nothing is read; a number that is too large is `ULONG_MAX`, also after a minus sign. -/
def strtoul (nptr : List Char) : UInt64 × List Char :=
  let s := nptr.dropWhile isspace
  let negative := s.head? = some '-'
  let s := if negative ∨ s.head? = some '+' then s.tail else s
  let digits := s.takeWhile Char.isDigit
  if digits = [] then (0, nptr)
  else
    let n := Nat.ofDigitChars 10 digits 0
    let result :=
      if ulongMax < n then UInt64.ofNat ulongMax
      else if negative then -UInt64.ofNat n
      else UInt64.ofNat n
    (result, s.dropWhile Char.isDigit)

/-- The options of the daemon with the one that none of its functions reads. -/
structure MainOpts extends Hdmi2usbOpts where
  commandTime : UInt64

/-- The defaults of `main`. -/
def MainOpts.default : MainOpts := ⟨⟨2048⟩, 2000⟩

/-- What `getopt_long` has found: `-c` or `-b` with its argument, an option that prints something
and exits, or another one, with the exit code that its case leaves. -/
inductive Opt
  | ctime (optarg : List Char)
  | bufsize (optarg : List Char)
  | exits
  | other (rc : Int)
deriving Repr

/-- `parse_args`: the exit code and the options, unless the process exits. -/
def parseArgs (opts : MainOpts) : List Opt → Option (Int × MainOpts)
  | [] => some (exSuccess, opts)
  | .ctime optarg :: args =>
    let (cmdtime, endptr) := strtoul optarg
    if endptr = [] then parseArgs { opts with commandTime := cmdtime } args
    else some (exStartup, opts)
  | .bufsize optarg :: args =>
    let (bufsize, endptr) := strtoul optarg
    if endptr = [] then
      parseArgs { opts with iobufsize := bufsize.toNat % 0x100000000 } args   -- an `unsigned`
    else some (exStartup, opts)
  | .exits :: _ => none
  | .other rc :: args => if rc = 0 then parseArgs opts args else some (rc, opts)

/-- What `main` does with the options it has parsed: start the daemon, or nothing. -/
def mainStart (clock : Nat → UTime) (args : List Opt) (a : InitAnswers) :
    Option (MainOpts × Daemon) :=
  match parseArgs .default args with
  | some (rc, opts) => if rc = 0 then some (opts, Daemon.start clock opts.iobufsize a) else none
  | none => none

example : strtoul [' ', '-', '1', 's'] = (0xffffffffffffffff, ['s']) := by decide +kernel

theorem isDigit_bounds {c : Char} (h : c.isDigit = true) :
    isspace c = false ∧ c ≠ '-' ∧ c ≠ '+' := by
  have hdigit := Char.isDigit_iff_toNat.mp h
  simp only [Char.reduceToNat] at hdigit
  refine ⟨by simp [isspace]; omega, ?_, ?_⟩
  · rintro rfl
    simp at hdigit
  · rintro rfl
    simp at hdigit

/-- Digits are read as the number they are, if there is such an `unsigned long`. -/
theorem strtoul_of_digits {digits : List Char} (hne : digits ≠ [])
    (hdigits : ∀ c ∈ digits, c.isDigit = true) (hmax : Nat.ofDigitChars 10 digits 0 ≤ ulongMax) :
    strtoul digits = (UInt64.ofNat (Nat.ofDigitChars 10 digits 0), []) := by
  have hhead : ∀ c, digits.head? = some c → isspace c = false ∧ c ≠ '-' ∧ c ≠ '+' :=
    fun c hc => isDigit_bounds (hdigits c (List.mem_of_mem_head? hc))
  have hspace : digits.dropWhile isspace = digits := by
    cases digits with
    | nil => rfl
    | cons c digits => simp [(hhead c rfl).1]
  have hminus : digits.head? ≠ some '-' := fun h => (hhead _ h).2.1 rfl
  have hplus : digits.head? ≠ some '+' := fun h => (hhead _ h).2.2 rfl
  unfold strtoul
  simp only [hspace, hminus, hplus, or_self, if_false, List.takeWhile_eq_self_iff.mpr hdigits,
    hne, Nat.not_lt.mpr hmax, List.dropWhile_eq_nil_iff.mpr hdigits]

/-- A number is read back as it was written. -/
theorem strtoul_toDigits (n : UInt64) : strtoul (Nat.toDigits 10 n.toNat) = (n, []) := by
  have hdigits : ∀ c ∈ Nat.toDigits 10 n.toNat, c.isDigit = true :=
    fun c hc => Nat.isDigit_of_mem_toDigits (by omega) (by omega) hc
  have hvalue : Nat.ofDigitChars 10 (Nat.toDigits 10 n.toNat) 0 = n.toNat :=
    Nat.ofDigitChars_ten_toDigits
  have hmax : n.toNat ≤ ulongMax := by
    have := n.toNat_lt
    simp only [ulongMax]
    omega
  rw [strtoul_of_digits Nat.toDigits_ne_nil hdigits (by rw [hvalue]; exact hmax), hvalue,
    UInt64.ofNat_toNat]

/-- Any number can be given with `-c`. -/
theorem parseArgs_ctime (opts : MainOpts) (commandTime : UInt64) :
    parseArgs opts [.ctime (Nat.toDigits 10 commandTime.toNat)] =
      some (exSuccess, { opts with commandTime := commandTime }) := by
  simp only [parseArgs, strtoul_toDigits, if_true]

/-! ## The interval -/

/-- The later command passes the timer check at least `commandTime` milliseconds after the reset
for the earlier one. -/
def IntervalApart (commandTime : UInt64) (earlier later : Option UTime × UTime) : Prop :=
  ∃ pass, later.1 = some pass ∧ earlier.2.toNat + commandTime.toNat * 1000 ≤ pass.toNat

/-- The clock does not go back, and a timer that is reset never ends at the reading that stands
for no end. -/
structure Forward (clock : Nat → UTime) : Prop where
  mono : ∀ m n, m ≤ n → (clock m).toNat ≤ (clock n).toNat
  ends : ∀ n, clock n + commandPace ≠ never

theorem Forward.keepsPace {clock : Nat → UTime} (h : Forward clock) : KeepsPace clock := by
  have hend : ∀ n, (timerReset (clock n) commandPace).tEnding ≠ never := h.ends
  exact ⟨hend, fun m n hlt => le_of_timerExpired (by decide) (h.mono m n hlt.le) (hend m)⟩

/-- In every run of a daemon that was started with this `command_time`, commands are that far
apart. -/
def Respected (commandTime : UInt64) : Prop :=
  ∀ clock, Forward clock → ∀ args a opts d, mainStart clock args a = some (opts, d) →
    opts.commandTime = commandTime → ∀ inputs,
      (handedTimes (Machine.run (Daemon.step clock) d inputs).world.log).IsChain
        (IntervalApart commandTime)

/-- A clock that stands still but for the moment at which the pause after the first command
ends. -/
def leastClock (n : Nat) : UTime := if n < 2 then 1 else 500001

theorem leastClock_forward : Forward leastClock := by
  constructor
  · intro m n hle
    unfold leastClock
    split <;> split
    · exact le_rfl
    · decide
    · omega
    · exact le_rfl
  · intro n
    unfold leastClock
    split <;> decide

/-- On that clock, two commands that wait together are handed on exactly `COMMAND_PACE` apart. -/
theorem leastClock_times :
    handedTimes (Machine.run (Daemon.step leastClock)
      (Daemon.start leastClock 64 Daemon.oneAddress) twoCommands).world.log =
        [(none, 1), (some 500001, 500001)] := by
  decide +kernel

/-- No longer interval is respected. -/
theorem Respected.le {commandTime : UInt64} (h : Respected commandTime) :
    commandTime.toNat ≤ 500 := by
  have hbufsize : strtoul ['6', '4'] = (64, []) := by decide +kernel
  have hargs : parseArgs .default
      [.bufsize ['6', '4'], .ctime (Nat.toDigits 10 commandTime.toNat)] =
        some (exSuccess, ⟨⟨64⟩, commandTime⟩) := by
    rw [parseArgs, hbufsize]
    exact parseArgs_ctime ⟨⟨64⟩, 2000⟩ commandTime
  have hstart : mainStart leastClock
      [.bufsize ['6', '4'], .ctime (Nat.toDigits 10 commandTime.toNat)] Daemon.oneAddress =
        some (⟨⟨64⟩, commandTime⟩, Daemon.start leastClock 64 Daemon.oneAddress) := by
    simp only [mainStart, hargs]
    rfl
  have hchain := h leastClock leastClock_forward _ _ _ _ hstart rfl twoCommands
  rw [leastClock_times, List.isChain_pair] at hchain
  rcases hchain with ⟨pass, hpass, hle⟩
  rw [← Option.some.inj hpass] at hle
  simp only [UInt64.reduceToNat] at hle
  omega

/-- The interval that `-c` configures is respected exactly if it is no longer than
`COMMAND_PACE`, in every run on a clock that does not go back: no function reads
`command_time`. -/
theorem respected_iff (commandTime : UInt64) :
    Respected commandTime ↔ commandTime.toNat ≤ 500 := by
  constructor
  · exact Respected.le
  · intro hle clock hclock args a opts d hstart _ inputs
    have hnone : handedTimes d.world.log = [] := by
      unfold mainStart at hstart
      split at hstart
      · split at hstart
        · rw [← (Prod.mk.inj (Option.some.inj hstart)).2, (Daemon.start_spec _ _ _).2.2.2.2.1]
          rfl
        · cases hstart
      · cases hstart
    refine (run_paced hclock.keepsPace hnone inputs).imp ?_
    rintro earlier later ⟨pass, hpass, hpace⟩
    refine ⟨pass, hpass, ?_⟩
    have hvalue : commandPace.toNat = 500000 := by decide
    rw [hvalue] at hpace
    omega

/-- The default interval of two seconds is not respected. -/
theorem default_interval_missed :
    MainOpts.default.commandTime = 2000 ∧ ¬ ∀ commandTime, Respected commandTime := by
  refine ⟨rfl, ?_⟩
  intro h
  have hle := (h 2000).le
  revert hle
  decide

end Hdmi2usbd
