import Mathlib.Data.List.Induction
import Hdmi2usbd.Netutils
import Hdmi2usbd.OptionLoop

/-!
# LogFlags — the options that share `logflags`

`-4` and `-6` store `AF_INET` and `AF_INET6` in the flags of the log, where these are the bits of
`LOG_STDERR` and of `LOG_STDERR` with `LOG_UTC`; and no function asks the flags for a family. So
the two groups of options are separate only where the bits come out right by chance
(`separate_iff`).
-/

namespace Hdmi2usbd.Argv

open Getopt (Word Found State getoptLong)
open Loop (Ends)

variable {usable : Nat → Nat} {argv : List Word}

/-! ## The options -/

inductive Switch
  | echo
  | quiet
  | utc
  | fsync
  | inet4
  | inet6
deriving DecidableEq

def Switch.letter : Switch → Char
  | .echo => 'e'
  | .quiet => 'q'
  | .utc => 'u'
  | .fsync => 'F'
  | .inet4 => '4'
  | .inet6 => '6'

/-- What the case of an option does with the flags. -/
def Switch.apply (logflags : BitVec 32) : Switch → BitVec 32
  | .echo => optEcho logflags
  | .quiet => optQuiet logflags
  | .utc => logflags ||| logUtc
  | .fsync => logflags ||| logSync
  | .inet4 => logflags ^^^ afInet
  | .inet6 => logflags ^^^ afInet6

/-- `getopt_long` finds these options and nothing else. -/
inductive Finds (argv : List Word) : State → List Switch → Prop
  | nil {st st' : State} (h : getoptLong table argv st = .finished st') : Finds argv st []
  | cons {st st' : State} {sw : Switch} {switches : List Switch}
      (h : getoptLong table argv st = .option (sw.letter, none) st')
      (hrest : Finds argv st' switches) : Finds argv st (sw :: switches)

theorem parseOption_switch (usable : Nat → Nat) (argv : List Word) (sw : Switch) (optind : Nat)
    (opts : Opts) :
    parseOption usable argv (sw.letter, none) optind opts =
      some (exSuccess, { opts with logflags := sw.apply opts.logflags }, optind) := by
  cases sw <;> rfl

/-- The loop over these options leaves their effect on the flags. -/
theorem ends_of_finds {st : State} {switches : List Switch} (h : Finds argv st switches)
    (opts : Opts) :
    Ends (parseTurn usable argv) (opts, st)
      (.returns exSuccess (normalise { opts with
        logflags := switches.foldl Switch.apply opts.logflags })) := by
  induction h generalizing opts with
  | nil hget => exact Loop.ends_of_inr (by simp only [parseTurn, hget, List.foldl_nil])
  | @cons st st' sw switches hget _ ih =>
    have hstep : Loop.Steps (parseTurn usable argv) (opts, st)
        ({ opts with logflags := sw.apply opts.logflags }, st') := by
      simp only [Loop.Steps, parseTurn, hget, parseOption_switch, if_true]
    exact (Loop.ends_iff_of_steps hstep).mpr (ih _)

theorem getoptLong_switch {i : Nat} {sw : Switch} (h : argv[i]? = some ['-', sw.letter]) :
    getoptLong table argv ⟨i, []⟩ = .option (sw.letter, none) ⟨i + 1, []⟩ := by
  obtain ⟨hi, hget⟩ := List.getElem?_eq_some_iff.mp h
  have hword : Getopt.nextWord argv i = i := by
    simp only [Getopt.nextWord, List.drop_eq_getElem_cons hi, hget, Getopt.isOption,
      List.takeWhile_cons, Bool.not_true, Bool.false_eq_true, if_false, List.length_nil,
      Nat.add_zero]
  simp only [getoptLong, hword, h]
  cases sw <;> rfl

/-- Any sequence of these options can be given. -/
theorem finds_words (before : List Word) (switches : List Switch) :
    Finds (before ++ switches.map fun sw => ['-', sw.letter]) ⟨before.length, []⟩ switches := by
  induction switches generalizing before with
  | nil =>
    refine @Finds.nil _ _ ⟨before.length, []⟩ ?_
    simp [getoptLong, Getopt.nextWord]
  | cons sw switches ih =>
    have hrest := ih (before ++ [['-', sw.letter]])
    rw [List.append_assoc, List.length_append] at hrest
    exact .cons (getoptLong_switch (by simp)) hrest

/-! ## The flags as bits -/

structure Bits where
  echo : Bool
  stderr : Bool
  sync : Bool
  utc : Bool
  noecho : Bool
deriving DecidableEq

def Bits.flags (b : Bits) : BitVec 32 :=
  (if b.echo then logEcho else 0) ||| (if b.stderr then logStderr else 0) |||
    (if b.sync then logSync else 0) ||| (if b.utc then logUtc else 0) |||
    (if b.noecho then logNoecho else 0)

def Bits.ofFlags (logflags : BitVec 32) : Bits where
  echo := logflags &&& logEcho ≠ 0
  stderr := logflags &&& logStderr ≠ 0
  sync := logflags &&& logSync ≠ 0
  utc := logflags &&& logUtc ≠ 0
  noecho := logflags &&& logNoecho ≠ 0

theorem Bits.ofFlags_flags (b : Bits) : Bits.ofFlags b.flags = b := by
  obtain ⟨echo, stderr, sync, utc, noecho⟩ := b
  revert echo stderr sync utc noecho
  decide

/-- The effect of an option on the bits. -/
def Bits.apply (b : Bits) : Switch → Bits
  | .echo =>
    if b.echo then
      if b.stderr then { b with echo := false, stderr := false, noecho := true }
      else { b with stderr := true }
    else { b with echo := true, stderr := false, noecho := false }
  | .quiet => { b with echo := false, stderr := false, noecho := true }
  | .utc => { b with utc := true }
  | .fsync => { b with sync := true }
  | .inet4 => { b with stderr := !b.stderr }
  | .inet6 => { b with stderr := !b.stderr, utc := !b.utc }

theorem Bits.flags_apply (b : Bits) (sw : Switch) : sw.apply b.flags = (b.apply sw).flags := by
  obtain ⟨echo, stderr, sync, utc, noecho⟩ := b
  cases sw <;> revert echo stderr sync utc noecho <;> decide

theorem Bits.flags_foldl (b : Bits) (switches : List Switch) :
    switches.foldl Switch.apply b.flags = (switches.foldl Bits.apply b).flags := by
  induction switches generalizing b with
  | nil => rfl
  | cons sw switches ih => rw [List.foldl_cons, List.foldl_cons, Bits.flags_apply, ih]

/-- The bit of `AF_INET` is one of `AF_INET6`, so it alone makes the two families one. -/
def Bits.normalise (b : Bits) : Bits :=
  if b.stderr then { b with stderr := false, utc := false } else b

theorem Bits.normalise_flags (b : Bits) (opts : Opts) :
    (Argv.normalise { opts with logflags := b.flags }).logflags = b.normalise.flags := by
  -- five bits, so 32 cases
  have hflags : (if b.flags &&& afInet6 ≠ 0 ∧ b.flags &&& afInet ≠ 0
      then b.flags &&& ~~~(afInet ||| afInet6) else b.flags) = b.normalise.flags := by
    obtain ⟨echo, stderr, sync, utc, noecho⟩ := b
    revert echo stderr sync utc noecho
    decide
  rw [← hflags, Argv.normalise]
  split <;> rfl

/-! ## What is documented -/

/-- Where the log is echoed; `initial` is off without `LOG_NOECHO`. -/
inductive EchoMode
  | initial
  | off
  | echo
  | stderr
deriving DecidableEq

structure Logging where
  mode : EchoMode
  sync : Bool
  utc : Bool
deriving DecidableEq

/-- The documented effect of an option on the log. -/
def Logging.apply (l : Logging) : Switch → Logging
  | .echo =>
    match l.mode with
    | .initial | .off => { l with mode := .echo }
    | .echo => { l with mode := .stderr }
    | .stderr => { l with mode := .off }
  | .quiet => { l with mode := .off }
  | .utc => { l with utc := true }
  | .fsync => { l with sync := true }
  | .inet4 | .inet6 => l

def documented (switches : List Switch) : Logging :=
  switches.foldl Logging.apply ⟨.initial, false, false⟩

def Logging.bits (l : Logging) : Bits where
  echo := l.mode = .echo ∨ l.mode = .stderr
  stderr := l.mode = .stderr
  sync := l.sync
  utc := l.utc
  noecho := l.mode = .off

inductive Families
  | ipv4
  | ipv6
  | both
deriving DecidableEq

def documentedFamilies (switches : List Switch) : Families :=
  if .inet4 ∈ switches ∧ .inet6 ∉ switches then .ipv4
  else if .inet6 ∈ switches ∧ .inet4 ∉ switches then .ipv6
  else .both

/-! ## What the daemon listens on -/

/-- The families of the addresses that may come back. -/
def hintFamilies (hints : AddrHints) : Families :=
  if hints.aiFamily = afInet then .ipv4
  else if hints.aiFamily = afInet6 then .ipv6
  else .both

/-- The two groups of options have their documented effects. -/
def Separate (usable : Nat → Nat) (argv : List Word) (switches : List Switch) : Prop :=
  ∃ opts, Ends (parseTurn usable argv) parseStart (.returns exSuccess opts) ∧
    opts.logflags = (documented switches).bits.flags ∧
    hintFamilies (streamHints opts.listenFlags) = documentedFamilies switches

theorem families_iff (flags : Nat) (switches : List Switch) :
    hintFamilies (streamHints flags) = documentedFamilies switches ↔
      (.inet4 ∈ switches ↔ .inet6 ∈ switches) := by
  have hboth : hintFamilies (streamHints flags) = .both := rfl
  rw [hboth, documentedFamilies]
  by_cases h4 : .inet4 ∈ switches <;> by_cases h6 : .inet6 ∈ switches <;> simp [h4, h6]

/-! ## How the bits are disturbed -/

/-- An option's effect on the bits of echo and stderr, if `-4` and `-6` flip the second one. -/
def disturb (mode : Bool × Bool) : Switch → Bool × Bool
  | .echo => (!(mode.1 && mode.2), mode.1 && !mode.2)
  | .quiet => (false, false)
  | .inet4 | .inet6 => (mode.1, !mode.2)
  | .utc | .fsync => mode

def disturbed (switches : List Switch) : Bool × Bool := switches.foldl disturb (false, false)

/-- How many `-6` there are behind the last `-u`. -/
def inet6BehindUtc (switches : List Switch) : Nat :=
  switches.foldl (fun n sw => if sw = .utc then 0 else if sw = .inet6 then n + 1 else n) 0

/-- The bits come out right. -/
structure Undisturbed (switches : List Switch) : Prop where
  families : .inet4 ∈ switches ↔ .inet6 ∈ switches
  noStderr : (documented switches).mode ≠ .stderr
  echo : (disturbed switches).1 = true ↔ (documented switches).mode = .echo
  utc : if (disturbed switches).2 then .utc ∉ switches else inet6BehindUtc switches % 2 = 0

/-- What the bits and the documented effects have to do with each other. -/
structure Traces (switches : List Switch) (b : Bits) (l : Logging) : Prop where
  echo : b.echo = (disturbed switches).1
  stderr : b.stderr = (disturbed switches).2
  noecho : b.noecho = true ↔ l.mode ≠ .initial ∧ b.echo = false
  initial : l.mode = .initial → b.echo = false
  sync : b.sync = l.sync
  utc : l.utc = decide (.utc ∈ switches)
  disturbedUtc : b.utc = (l.utc ^^ decide (inet6BehindUtc switches % 2 = 1))

theorem disturbed_concat (switches : List Switch) (sw : Switch) :
    disturbed (switches ++ [sw]) = disturb (disturbed switches) sw := by
  simp only [disturbed, List.foldl_append, List.foldl_cons, List.foldl_nil]

theorem inet6BehindUtc_concat (switches : List Switch) (sw : Switch) :
    inet6BehindUtc (switches ++ [sw]) =
      if sw = .utc then 0
      else if sw = .inet6 then inet6BehindUtc switches + 1
      else inet6BehindUtc switches := by
  simp only [inet6BehindUtc, List.foldl_append, List.foldl_cons, List.foldl_nil]

theorem traces_nil : Traces [] ⟨false, false, false, false, false⟩ ⟨.initial, false, false⟩ :=
  ⟨rfl, rfl, by simp, fun _ => rfl, rfl, rfl, rfl⟩

theorem disturb_eq (b : Bits) (sw : Switch) :
    ((b.apply sw).echo, (b.apply sw).stderr) = disturb (b.echo, b.stderr) sw := by
  obtain ⟨echo, stderr, sync, utc, noecho⟩ := b
  cases sw <;> cases echo <;> cases stderr <;> rfl

/-- The options that set where the log is echoed. -/
def Switch.SetsMode (sw : Switch) : Prop := sw = .echo ∨ sw = .quiet

theorem Bits.apply_echo (b : Bits) {sw : Switch} (h : ¬ sw.SetsMode) :
    (b.apply sw).echo = b.echo := by
  cases sw with
  | echo => exact absurd (.inl rfl) h
  | quiet => exact absurd (.inr rfl) h
  | _ => rfl

theorem Bits.apply_noecho (b : Bits) {sw : Switch} (h : ¬ sw.SetsMode) :
    (b.apply sw).noecho = b.noecho := by
  cases sw with
  | echo => exact absurd (.inl rfl) h
  | quiet => exact absurd (.inr rfl) h
  | _ => rfl

/-- Unless both were set before, one of them leaves exactly one of the two bits set. -/
theorem Bits.apply_noecho_of_sets {b : Bits} {sw : Switch} (h : sw.SetsMode)
    (hboth : b.echo = true → b.noecho = false) : (b.apply sw).noecho = !(b.apply sw).echo := by
  obtain ⟨echo, stderr, sync, utc, noecho⟩ := b
  rcases h with rfl | rfl
  · cases echo with
    | false => rfl
    | true =>
      cases stderr with
      | false => exact hboth rfl
      | true => rfl
  · rfl

theorem Logging.apply_mode (l : Logging) {sw : Switch} (h : ¬ sw.SetsMode) :
    (l.apply sw).mode = l.mode := by
  cases sw with
  | echo => exact absurd (.inl rfl) h
  | quiet => exact absurd (.inr rfl) h
  | _ => rfl

theorem Logging.apply_mode_of_sets (l : Logging) {sw : Switch} (h : sw.SetsMode) :
    (l.apply sw).mode ≠ .initial := by
  obtain ⟨mode, sync, utc⟩ := l
  rcases h with rfl | rfl
  · cases mode <;> simp [Logging.apply]
  · simp [Logging.apply]

theorem Bits.apply_sync (b : Bits) (sw : Switch) :
    (b.apply sw).sync = (b.sync || decide (sw = .fsync)) := by
  obtain ⟨echo, stderr, sync, utc, noecho⟩ := b
  cases sw <;> cases echo <;> cases stderr <;> simp [Bits.apply]

theorem Logging.apply_sync (l : Logging) (sw : Switch) :
    (l.apply sw).sync = (l.sync || decide (sw = .fsync)) := by
  obtain ⟨mode, sync, utc⟩ := l
  cases sw <;> cases mode <;> simp [Logging.apply]

theorem Bits.apply_utc (b : Bits) (sw : Switch) :
    (b.apply sw).utc = if sw = .utc then true else (b.utc ^^ decide (sw = .inet6)) := by
  obtain ⟨echo, stderr, sync, utc, noecho⟩ := b
  cases sw <;> cases echo <;> cases stderr <;> simp [Bits.apply]

theorem Logging.apply_utc (l : Logging) (sw : Switch) :
    (l.apply sw).utc = (l.utc || decide (sw = .utc)) := by
  obtain ⟨mode, sync, utc⟩ := l
  cases sw <;> cases mode <;> simp [Logging.apply]

theorem Traces.step {switches : List Switch} {b : Bits} {l : Logging} (h : Traces switches b l)
    (sw : Switch) : Traces (switches ++ [sw]) (b.apply sw) (l.apply sw) := by
  have hdisturb := disturb_eq b sw
  rw [h.echo, h.stderr, Prod.mk.eta, ← disturbed_concat] at hdisturb
  refine ⟨congrArg Prod.fst hdisturb, congrArg Prod.snd hdisturb, ?_, ?_, ?_, ?_, ?_⟩
  · by_cases hsets : sw.SetsMode
    · have hmode := l.apply_mode_of_sets hsets
      have hboth : b.echo = true → b.noecho = false := by
        intro hecho
        rw [← Bool.not_eq_true, h.noecho, hecho]
        simp
      rw [Bits.apply_noecho_of_sets hsets hboth]
      simp [hmode]
    · rw [b.apply_noecho hsets, b.apply_echo hsets, l.apply_mode hsets]
      exact h.noecho
  · intro hinitial
    by_cases hsets : sw.SetsMode
    · exact absurd hinitial (l.apply_mode_of_sets hsets)
    · rw [l.apply_mode hsets] at hinitial
      rw [b.apply_echo hsets]
      exact h.initial hinitial
  · rw [b.apply_sync, l.apply_sync, h.sync]
  · rw [l.apply_utc, h.utc]
    simp [eq_comm]
  · rw [b.apply_utc, l.apply_utc, h.disturbedUtc, inet6BehindUtc_concat]
    by_cases hutc : sw = .utc
    · simp [hutc]
    · rw [if_neg hutc, if_neg hutc, decide_eq_false hutc, Bool.or_false]
      by_cases hinet : sw = .inet6
      · -- each `-6` behind the last `-u` flips the bit
        have hodd : decide ((inet6BehindUtc switches + 1) % 2 = 1) =
            !decide (inet6BehindUtc switches % 2 = 1) := by
          rw [← decide_not, decide_eq_decide]
          omega
        rw [if_pos hinet, hodd, decide_eq_true hinet]
        simp
      · rw [if_neg hinet, decide_eq_false hinet, Bool.xor_false]

theorem traces (switches : List Switch) :
    Traces switches (switches.foldl Bits.apply ⟨false, false, false, false, false⟩)
      (documented switches) := by
  induction switches using List.reverseRecOn with
  | nil => exact traces_nil
  | append_singleton switches sw ih =>
    rw [documented, List.foldl_append, List.foldl_append]
    exact ih.step sw

theorem Bits.normalise_eq (b : Bits) :
    b.normalise = ⟨b.echo, false, b.sync, !b.stderr && b.utc, b.noecho⟩ := by
  obtain ⟨echo, stderr, sync, utc, noecho⟩ := b
  cases stderr <;> rfl

/-- The bit of UTC comes out as documented. -/
theorem Traces.utc_iff {switches : List Switch} {b : Bits} {l : Logging} (h : Traces switches b l) :
    (!b.stderr && b.utc) = l.utc ↔
      if b.stderr then .utc ∉ switches else inet6BehindUtc switches % 2 = 0 := by
  have hutc := h.utc
  cases b.stderr with
  | true => simp [hutc]
  | false =>
    rw [h.disturbedUtc]
    cases l.utc <;> simp

/-- The bit that stands for `-q` comes out as documented if the bit of echo does. -/
theorem Traces.noecho_eq {switches : List Switch} {b : Bits} {l : Logging} (h : Traces switches b l)
    (hmode : l.mode ≠ .stderr) (hecho : b.echo = true ↔ l.mode = .echo) :
    b.noecho = decide (l.mode = .off) := by
  rw [Bool.eq_iff_iff, h.noecho, decide_eq_true_eq, ← Bool.not_eq_true, hecho]
  cases hm : l.mode <;> simp_all

/-- The bits come out as documented. -/
theorem Traces.normalise_iff {switches : List Switch} {b : Bits} {l : Logging}
    (h : Traces switches b l) :
    b.normalise = l.bits ↔
      l.mode ≠ .stderr ∧ (b.echo = true ↔ l.mode = .echo) ∧
        if b.stderr then .utc ∉ switches else inet6BehindUtc switches % 2 = 0 := by
  rw [Bits.normalise_eq, Logging.bits, Bits.mk.injEq, ← h.utc_iff]
  constructor
  · rintro ⟨hecho, hstderr, -, hutc, -⟩
    have hmode : l.mode ≠ .stderr := by simpa using hstderr.symm
    refine ⟨hmode, ?_, hutc⟩
    rw [hecho]
    simp [hmode]
  · rintro ⟨hmode, hecho, hutc⟩
    refine ⟨?_, by simp [hmode], h.sync, hutc, h.noecho_eq hmode hecho⟩
    rw [Bool.eq_iff_iff, hecho]
    simp [hmode]

theorem ends_parseStart (usable : Nat → Nat) {switches : List Switch} (h : Finds argv ⟨1, []⟩ switches) :
    ∃ opts, Ends (parseTurn usable argv) parseStart (.returns exSuccess opts) ∧
      opts.logflags =
        (switches.foldl Bits.apply ⟨false, false, false, false, false⟩).normalise.flags := by
  refine ⟨_, ends_of_finds h .default, ?_⟩
  have hstart : Opts.default.logflags = (Bits.mk false false false false false).flags := by decide
  rw [hstart, Bits.flags_foldl, Bits.normalise_flags]

/-- The two groups of options are separate exactly if the bits come out right. -/
theorem separate_iff (usable : Nat → Nat) {argv : List Word} {switches : List Switch}
    (h : Finds argv ⟨1, []⟩ switches) :
    Separate usable argv switches ↔ Undisturbed switches := by
  obtain ⟨opts, hends, hflags⟩ := ends_parseStart usable h
  have htraces := traces switches
  constructor
  · rintro ⟨opts', hends', hlog, hfamilies⟩
    cases Loop.ends_unique hends hends'
    rw [hflags] at hlog
    have hbits := congrArg Bits.ofFlags hlog
    rw [Bits.ofFlags_flags, Bits.ofFlags_flags, htraces.normalise_iff, htraces.echo,
      htraces.stderr] at hbits
    exact ⟨(families_iff _ _).mp hfamilies, hbits.1, hbits.2.1, hbits.2.2⟩
  · intro hundisturbed
    refine ⟨opts, hends, ?_, (families_iff _ _).mpr hundisturbed.families⟩
    have hbits := htraces.normalise_iff.mpr ⟨hundisturbed.noStderr,
      by rw [htraces.echo]; exact hundisturbed.echo,
      by rw [htraces.stderr]; exact hundisturbed.utc⟩
    rw [hflags, hbits]

/-- `hdmi2usbd -6 -4 -u -e` -/
theorem separate_inet_utc_echo :
    Separate id ([['h', 'd', 'm', 'i', '2', 'u', 's', 'b', 'd']] ++
      [Switch.inet6, .inet4, .utc, .echo].map fun sw => ['-', sw.letter])
      [.inet6, .inet4, .utc, .echo] :=
  (separate_iff id (finds_words [_] _)).mpr
    ⟨by decide, by decide, by decide, by decide⟩

/-- `hdmi2usbd -e -e` is to echo the log to stderr. -/
theorem stderr_is_lost :
    ¬ ∀ (usable : Nat → Nat) (argv : List Word) (switches : List Switch),
      Finds argv ⟨1, []⟩ switches → Separate usable argv switches := by
  intro hall
  have hfinds := finds_words [['h', 'd', 'm', 'i', '2', 'u', 's', 'b', 'd']] [.echo, .echo]
  obtain ⟨opts, hends, hlog, -⟩ := hall id _ _ hfinds
  obtain ⟨opts', hends', hflags⟩ := ends_parseStart id hfinds
  cases Loop.ends_unique hends hends'
  rw [hflags] at hlog
  revert hlog
  decide

end Hdmi2usbd.Argv
