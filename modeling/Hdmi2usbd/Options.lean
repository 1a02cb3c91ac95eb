import Hdmi2usbd.CommandTime
import Hdmi2usbd.Lib.Getopt
import Hdmi2usbd.Lib.Loop

/-!
# Options — the option loop of `main.c`

`parse_args` with all its cases, over the argument vector as `getopt_long` reads it. The case of
`-p` reads `argv` itself, from one word before `optind`, and stores `optind`.

The port list is written into a block that `malloc` returns; `usable` is how many bytes such a
block really has. What is printed is left out. `AF_INET`, `AF_INET6` and the baud rates have the
values of Linux. `longopts` lacks the entry that ends it, so a long name that is not in it in full
takes `getopt_long` out of the table.

The options that the other modules know (`MainOpts`) are parsed as `parseArgs` parses them from
a list of options that has been read (`ends_parseArgs`).
-/

namespace Hdmi2usbd.Argv

open Getopt (Word Found Table State getoptLong)

/-! ## The tables -/

def shortopts : Word :=
  ['p', ':', 's', ':', 'l', ':', 'b', ':', 'L', ':', 'c', ':', 'e', 'q', 'u', 'F', '4', '6', 'v',
    'V', ':', ':', 'd', ':', ':', 'D', 'h']

/-- The table as it is written: behind its last entry there is none of zeros (`table`). -/
def longopts : List Getopt.LongOption :=
  [⟨['p', 'o', 'r', 't'], .requiredArgument, 'p'⟩,
    ⟨['s', 'p', 'e', 'e', 'd'], .requiredArgument, 's'⟩,
    ⟨['b', 'u', 'f', 's', 'i', 'z', 'e'], .requiredArgument, 'b'⟩,
    ⟨['l', 'i', 's', 't', 'e', 'n'], .requiredArgument, 'l'⟩,
    ⟨['l', 'o', 'g'], .requiredArgument, 'L'⟩,
    ⟨['c', 't', 'i', 'm', 'e'], .requiredArgument, 'c'⟩,
    ⟨['e', 'c', 'h', 'o'], .noArgument, 'e'⟩,
    ⟨['q', 'u', 'i', 'e', 't'], .noArgument, 'q'⟩,
    ⟨['u', 't', 'c'], .noArgument, 'u'⟩,
    ⟨['f', 's', 'y', 'n', 'c'], .noArgument, 'F'⟩,
    ⟨['i', 'n', 'e', 't', '4'], .noArgument, '4'⟩,
    ⟨['i', 'n', 'e', 't', '6'], .noArgument, '6'⟩,
    ⟨['d', 'a', 'e', 'm', 'o', 'n'], .noArgument, 'D'⟩,
    ⟨['v', 'e', 'r', 'b', 'o', 's', 'e'], .optionalArgument, 'V'⟩,
    ⟨['d', 'e', 'b', 'u', 'g'], .optionalArgument, 'd'⟩,
    ⟨['v', 'e', 'r', 's', 'i', 'o', 'n'], .noArgument, 'v'⟩,
    ⟨['h', 'e', 'l', 'p'], .noArgument, 'h'⟩]

def table : Table := ⟨shortopts, longopts, false⟩

/-- The rows of `baudmap`: the rate of `termios.h` and the speed. -/
def baudmap : List (UInt64 × UInt64) :=
  [(7, 300), (9, 1200), (11, 2400), (12, 4800), (13, 9600), (14, 19200), (15, 38400),
    (4097, 57600), (4098, 115200), (4099, 230400), (4100, 460800), (4102, 576000), (4103, 921600)]

def binvalid : UInt64 := 0xffffffffffffffff

def speedToBaud (speed : UInt64) : UInt64 :=
  match baudmap.find? fun row => row.2 = speed with
  | some row => row.1
  | none => binvalid

def maxSerialSpecs : Nat := 31

/-! ## Flags -/

def afInet : BitVec 32 := 2

def afInet6 : BitVec 32 := 10

/-! `enum LogOption`. -/

def logEcho : BitVec 32 := 0x01

def logStderr : BitVec 32 := 0x02

def logSync : BitVec 32 := 0x04

def logUtc : BitVec 32 := 0x08

def logNoecho : BitVec 32 := 0x20

/-! ## The options -/

/-- `struct hdmi2usb_opts`. The port is `none` when it is no string: the terminator lies behind
the block. -/
structure Opts extends MainOpts where
  verbose : Int
  logflags : BitVec 32
  logfile : Option Word
  daemonize : Bool
  baudrate : UInt64
  port : Option Word
  listenAddr : Word
  listenPort : UInt16
  listenFlags : Nat
  loopTime : UInt64

/-- The defaults of `main`. -/
def Opts.default : Opts where
  toMainOpts := .default
  verbose := 0
  logflags := 0
  logfile := none
  daemonize := false
  baudrate := speedToBaud 115200
  port := some ['a', 'u', 't', 'o']
  listenAddr := ['l', 'o', 'c', 'a', 'l', 'h', 'o', 's', 't']
  listenPort := 8501
  listenFlags := 0
  loopTime := 20

/-- `strtol` in base 10, like `strtoul` but for the range. -/
def strtol (nptr : Word) : Int × Word :=
  let s := nptr.dropWhile isspace
  let negative := s.head? = some '-'
  let s := if negative ∨ s.head? = some '+' then s.tail else s
  let digits := s.takeWhile Char.isDigit
  if digits = [] then (0, nptr)
  else
    let n := Nat.ofDigitChars 10 digits 0
    let result : Int :=
      if negative then -(min n 0x8000000000000000 : Nat) else (min n 0x7fffffffffffffff : Nat)
    (result, s.dropWhile Char.isDigit)

/-! ## The cases -/

/-- `-V` and `-d`. -/
def optVerbose (opts : Opts) : Option Word → Int × Opts
  | none => (exSuccess, { opts with verbose := opts.verbose + 1 })
  | some optarg =>
    let (value, endptr) := strtol optarg
    (if endptr = [] then exSuccess else 2, { opts with verbose := value % 8 })

def optCtime (opts : Opts) (optarg : Word) : Int × Opts :=
  let (cmdtime, endptr) := strtoul optarg
  if endptr = [] then (exSuccess, { opts with commandTime := cmdtime }) else (exStartup, opts)

/-- A rate that is not in the table is stored before it is refused. -/
def optSpeed (opts : Opts) (optarg : Word) : Int × Opts :=
  let (speed, endptr) := strtoul optarg
  if endptr = [] then
    let baudrate := speedToBaud speed
    (if baudrate ≠ binvalid then exSuccess else exStartup, { opts with baudrate := baudrate })
  else (exStartup, opts)

def optBufsize (opts : Opts) (optarg : Word) : Int × Opts :=
  let (bufsize, endptr) := strtoul optarg
  if endptr = [] then
    (exSuccess, { opts with iobufsize := bufsize.toNat % 0x100000000 })
  else (exStartup, opts)

/-- The port, and whether it is valid. The first character is skipped unseen. -/
def parsePort : Word → UInt16 × Bool
  | [] => (0, true)
  | [_] => (0, true)
  | _ :: text =>
    let (port, endptr) := strtoul text
    (port.toUInt16, endptr = [])

/-- An address that is not empty, and what `parse_port` makes of the text behind it. -/
def setListen (opts : Opts) (addr port : Word) : Int × Opts :=
  let (listenPort, valid) := parsePort port
  (if valid then exSuccess else exStartup,
    { opts with
      listenAddr := if addr ≠ [] then addr else opts.listenAddr
      listenPort := listenPort })

def optListen (opts : Opts) : Word → Int × Opts
  | '[' :: str =>
    if ']' ∈ str then
      setListen opts (str.takeWhile (· ≠ ']')) (str.dropWhile (· ≠ ']')).tail
    else (exStartup, opts)
  | str => setListen opts (str.takeWhile (· ≠ ':')) (str.dropWhile (· ≠ ':'))

/-- Whether a word ends the list of ports. -/
def endsPorts (next : Word) : Bool := next.head? = some '-' || next = []

/-- The loop over the words from `index` on: the ports, and `index` after it. -/
def portArgs : List Word → Nat → List Word × Nat
  | [], index => ([], index)
  | next :: words, index =>
    if endsPorts next then ([], index + 1)
    else
      let (args, index) := portArgs words (index + 1)
      (next :: args, index)

/-- The ports with a separator behind each. The block has no byte for the terminator. -/
def joinPorts (usable : Nat → Nat) (args : List Word) : Option Word :=
  let length := (args.map fun arg => arg.length + 1).sum
  if length < usable length then some (args.map (· ++ ['|'])).flatten else none

/-- `-p`, with what it stores in `optind`. Without a port it goes on with the case of `-L`. -/
def optPort (usable : Nat → Nat) (argv : List Word) (opts : Opts) (optarg : Option Word)
    (optind : Nat) : Opts × Nat :=
  let index := optind - 1
  let (args, index) := portArgs ((argv.take maxSerialSpecs).drop index) index
  if args ≠ [] then ({ opts with port := joinPorts usable args }, index - 1)
  else ({ opts with logfile := optarg }, index - 1)

/-- `-q`, and the step of `-e` from stderr to off. -/
def optQuiet (logflags : BitVec 32) : BitVec 32 :=
  logflags &&& ~~~(logEcho ||| logStderr) ||| logNoecho

/-- `-e`: echo, stderr, off. -/
def optEcho (logflags : BitVec 32) : BitVec 32 :=
  if logflags &&& logEcho ≠ 0 then
    if logflags &&& logStderr = 0 then logflags ||| logStderr else optQuiet logflags
  else (logflags ||| logEcho) &&& ~~~(logNoecho ||| logStderr)

/-- The switch: the exit code, the options and `optind`, unless the process exits. -/
def parseOption (usable : Nat → Nat) (argv : List Word) (found : Found) (optind : Nat)
    (opts : Opts) : Option (Int × Opts × Nat) :=
  let keep (r : Int × Opts) : Option (Int × Opts × Nat) := some (r.1, r.2, optind)
  match found with
  | ('h', _) | ('v', _) => none
  | ('V', optarg) | ('d', optarg) => keep (optVerbose opts optarg)
  | ('c', some optarg) => keep (optCtime opts optarg)
  | ('4', _) => keep (exSuccess, { opts with logflags := opts.logflags ^^^ afInet })
  | ('6', _) => keep (exSuccess, { opts with logflags := opts.logflags ^^^ afInet6 })
  | ('D', _) => keep (exSuccess, { opts with daemonize := true })
  | ('s', some optarg) => keep (optSpeed opts optarg)
  | ('b', some optarg) => keep (optBufsize opts optarg)
  | ('l', some optarg) => keep (optListen opts optarg)
  | ('p', optarg) =>
    let (opts, optind) := optPort usable argv opts optarg optind
    some (exSuccess, opts, optind)
  | ('L', optarg) => keep (exSuccess, { opts with logfile := optarg })
  | ('e', _) => keep (exSuccess, { opts with logflags := optEcho opts.logflags })
  | ('q', _) => keep (exSuccess, { opts with logflags := optQuiet opts.logflags })
  | ('u', _) => keep (exSuccess, { opts with logflags := opts.logflags ||| logUtc })
  | ('F', _) => keep (exSuccess, { opts with logflags := opts.logflags ||| logSync })
  | _ => keep (exStartup, opts)

/-! ## The loop -/

/-- Both families are the same as none. -/
def normalise (opts : Opts) : Opts :=
  if opts.logflags &&& afInet6 ≠ 0 ∧ opts.logflags &&& afInet ≠ 0 then
    { opts with logflags := opts.logflags &&& ~~~(afInet ||| afInet6) }
  else opts

/-- How `parse_args` ends: it returns, the process exits, or `getopt_long` has left `longopts`, and
then anything may happen. -/
inductive Parsed
  | returns (rc : Int) (opts : Opts)
  | exits
  | overrun

/-- A turn of the loop of `parse_args`. -/
def parseTurn (usable : Nat → Nat) (argv : List Word) (s : Opts × State) :
    (Opts × State) ⊕ Parsed :=
  match getoptLong table argv s.2 with
  | .overrun => .inr .overrun
  | .finished _ => .inr (.returns exSuccess (normalise s.1))
  | .option found st =>
    match parseOption usable argv found st.optind s.1 with
    | none => .inr .exits
    | some (rc, opts, optind) =>
      if rc = exSuccess then .inl (opts, ⟨optind, st.nextchar⟩)
      else .inr (.returns rc (normalise opts))

/-- Where the loop begins: behind the name of the program. -/
def parseStart : Opts × State := (.default, ⟨1, []⟩)

/-! ## The options of the other modules -/

theorem optListen_toMainOpts (opts : Opts) (optarg : Word) :
    (optListen opts optarg).2.toMainOpts = opts.toMainOpts := by
  unfold optListen
  split
  · split <;> rfl
  · rfl

theorem optVerbose_toMainOpts (opts : Opts) (optarg : Option Word) :
    (optVerbose opts optarg).2.toMainOpts = opts.toMainOpts := by
  cases optarg <;> rfl

theorem optSpeed_toMainOpts (opts : Opts) (optarg : Word) :
    (optSpeed opts optarg).2.toMainOpts = opts.toMainOpts := by
  simp only [optSpeed]
  split <;> rfl

theorem optPort_toMainOpts (usable : Nat → Nat) (argv : List Word) (opts : Opts)
    (optarg : Option Word) (optind : Nat) :
    (optPort usable argv opts optarg optind).1.toMainOpts = opts.toMainOpts := by
  simp only [optPort]
  split <;> rfl

theorem normalise_toMainOpts (opts : Opts) : (normalise opts).toMainOpts = opts.toMainOpts := by
  unfold normalise
  split <;> rfl

theorem optCtime_parseArgs (opts : Opts) (optarg : Word) (args : List Opt) :
    parseArgs opts.toMainOpts (.ctime optarg :: args) =
      if (optCtime opts optarg).1 = exSuccess then
        parseArgs (optCtime opts optarg).2.toMainOpts args
      else some ((optCtime opts optarg).1, (optCtime opts optarg).2.toMainOpts) := by
  by_cases hend : (strtoul optarg).2 = []
  · simp [parseArgs, optCtime, hend]
  · simp [parseArgs, optCtime, hend, exStartup, exSuccess]

theorem optBufsize_parseArgs (opts : Opts) (optarg : Word) (args : List Opt) :
    parseArgs opts.toMainOpts (.bufsize optarg :: args) =
      if (optBufsize opts optarg).1 = exSuccess then
        parseArgs (optBufsize opts optarg).2.toMainOpts args
      else some ((optBufsize opts optarg).1, (optBufsize opts optarg).2.toMainOpts) := by
  by_cases hend : (strtoul optarg).2 = []
  · simp [parseArgs, optBufsize, hend]
  · simp [parseArgs, optBufsize, hend, exStartup, exSuccess]

/-- A case of the switch is one step of `parseArgs`. -/
theorem parseOption_parseArgs {usable : Nat → Nat} {argv : List Word} {found : Found}
    {optind optind' : Nat} {opts opts' : Opts} {rc : Int}
    (h : parseOption usable argv found optind opts = some (rc, opts', optind')) :
    ∃ o, ∀ args, parseArgs opts.toMainOpts (o :: args) =
      if rc = exSuccess then parseArgs opts'.toMainOpts args
      else some (rc, opts'.toMainOpts) := by
  have hother : opts'.toMainOpts = opts.toMainOpts →
      ∃ o, ∀ args, parseArgs opts.toMainOpts (o :: args) =
        if rc = exSuccess then parseArgs opts'.toMainOpts args
        else some (rc, opts'.toMainOpts) := by
    intro hsame
    rw [hsame]
    exact ⟨.other rc, fun _ => rfl⟩
  simp only [parseOption] at h
  split at h <;> cases h
  -- the cases with an argument that may be refused; the others leave the options alone
  case h_3 | h_4 => exact hother (optVerbose_toMainOpts _ _)
  case h_5 => exact ⟨_, optCtime_parseArgs _ _⟩
  case h_9 => exact hother (optSpeed_toMainOpts _ _)
  case h_10 => exact ⟨_, optBufsize_parseArgs _ _⟩
  case h_11 => exact hother (optListen_toMainOpts _ _)
  case h_12 => exact hother (optPort_toMainOpts _ _ _ _ _)
  all_goals exact hother rfl

/-- A run of the loop parses the options of the daemon like `parseArgs`. -/
theorem ends_parseArgs {usable : Nat → Nat} {argv : List Word} {s : Opts × State} {rc : Int}
    {opts : Opts} (h : Loop.Ends (parseTurn usable argv) s (.returns rc opts)) :
    ∃ args, parseArgs s.1.toMainOpts args = some (rc, opts.toMainOpts) := by
  refine Loop.ends_induction (P := fun s result => ∀ rc opts, result = .returns rc opts →
    ∃ args, parseArgs s.1.toMainOpts args = some (rc, opts.toMainOpts)) ?_ ?_ h rc opts rfl
  · intro s result hturn rc opts hresult
    simp only [parseTurn] at hturn
    split at hturn
    · cases hturn
      cases hresult
    · cases hturn
      cases hresult
      exact ⟨[], by simp [parseArgs, normalise_toMainOpts]⟩
    · split at hturn
      · cases hturn
        cases hresult
      · next rc' opts' optind hopt =>
        split at hturn
        · cases hturn
        · next hrc =>
          cases hturn
          cases hresult
          obtain ⟨o, ho⟩ := parseOption_parseArgs hopt
          refine ⟨[o], ?_⟩
          rw [ho, if_neg hrc]
          simp [normalise_toMainOpts]
  · intro s s' result hturn hrest rc opts hresult
    obtain ⟨args, hargs⟩ := hrest rc opts hresult
    simp only [Loop.Steps, parseTurn] at hturn
    split at hturn
    · cases hturn
    · cases hturn
    · split at hturn
      · cases hturn
      · next rc' opts' optind hopt =>
        split at hturn
        · next hrc =>
          cases hturn
          obtain ⟨o, ho⟩ := parseOption_parseArgs hopt
          refine ⟨o :: args, ?_⟩
          rw [ho, if_pos hrc]
          exact hargs
        · cases hturn

end Hdmi2usbd.Argv
