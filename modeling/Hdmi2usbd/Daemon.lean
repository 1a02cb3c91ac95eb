import Hdmi2usbd.Lib.Slots
import Hdmi2usbd.Process

/-!
# Daemon — start-up, signals and the main loop of `hdmi2usbd.c`

The daemon is a machine whose inputs are the answers of the system: a turn of
`selector_loop`, the switch that `hdmi2usb_main` makes when that loop has broken, and
the delivery of a signal between two of these. An input that does not fit where the
program is, is ignored, so every list of inputs is a run.

Left out: `daemon()`, the logging set-up and the stack of saved signal handlers, so
that only the signals with a handler are delivered.
-/

namespace Hdmi2usbd

/-! ## Start-up -/

/-- What `find_serial` and `ipaddrs_resolve_stream` return, `none` for `NULL`. -/
structure InitAnswers where
  port : Option String
  addrs : Option (List SockAddr)
deriving Repr

/-- The bit of `listen_ports` for a family the daemon listens on. -/
def Family.bit : Family → Option Nat
  | .inet => some 1
  | .inet6 => some 2
  | .other => none

/-- The loop of `hdmi2usb_init` over the addresses; `listenPorts` has a bit for each
family and bit 4 for the wildcard address. -/
def listenLoop (iobufsize : Nat) : List SockAddr → Nat → Selector → Selector
  | [], _, sel => sel
  | addr :: addrs, listenPorts, sel =>
    match addr.family.bit with
    | none => listenLoop iobufsize addrs listenPorts sel
    | some bit =>
      let s :=
        if addr.addr = 0 then (listenPorts ||| 4, sel)
        else if listenPorts &&& bit = 0 then
          (listenPorts ||| bit, selectorNewDeviceListen addr iobufsize sel)
        else (listenPorts, sel)
      if s.1 &&& 4 ≠ 0 then selectorNewDeviceListen addr iobufsize s.2
      else if s.1 = 3 then s.2
      else listenLoop iobufsize addrs s.1 s.2

/-- `hdmi2usb_init`: the exit code and the application; `none` when the missing address
list is used. -/
def hdmi2usbInit (clock : Nat → UTime) (a : InitAnswers) (app : Hdmi2usb) (rc : Int) (w : World) :
    Option (Int × Hdmi2usb × World) :=
  let sel := selectorInit
  match a.port with
  | none => some (exStartup, { app with selector := sel }, w)
  | some _ =>
    let (sel, w) := selectorNewDeviceSerial clock app.opts.iobufsize sel w
    match a.addrs with
    | none => none                              -- the list is walked without a check
    | some addrs =>
      some (rc, { app with selector := listenLoop app.opts.iobufsize addrs 0 sel }, w)

/-- `hdmi2usb_close` only restores the signal handlers. -/
def hdmi2usbClose (rc : Int) : Int := rc

/-! ## Signals -/

/-- The signals that have a handler. -/
inductive Signal
  | sighup
  | sigint
deriving DecidableEq, Repr

def Signal.toNat : Signal → Nat
  | .sighup => 1
  | .sigint => 2

def sighup : Nat := Signal.sighup.toNat

def sigint : Nat := Signal.sigint.toNat

def sigquit : Nat := 3

def sigterm : Nat := 15

/-- None of the signals that the switch looks for. -/
def NoSignal (signalReceived : Nat) : Prop :=
  signalReceived ≠ sighup ∧
    ¬ (signalReceived = sigint ∨ signalReceived = sigquit ∨ signalReceived = sigterm)

/-- `break_handler`: the new value of `signal_received`, or `none` for `exit(31)`. -/
def breakHandler (sig signalReceived : Nat) : Option Nat :=
  if sig = sigint ∧ signalReceived = sigint then none else some (sig &&& 0xffffffff)

/-! ## The main loop -/

/-- Where `hdmi2usb_main` is: in `selector_loop`, at the switch after it, or at an end.
A `none` is a use of a null pointer. -/
inductive Pc
  | loop
  | check
  | exited (rc : Option Int)
deriving DecidableEq, Repr

structure Daemon where
  app : Hdmi2usb
  world : World
  sets : FdSets
  signalReceived : Nat
  pc : Pc

/-- What happens next. -/
inductive Input
  | round (a : RoundAnswers)
  | check (a : InitAnswers)
  | signal (sig : Signal)

namespace Daemon

/-- The loop condition: go on with `selector_loop`, which clears its sets, or end. -/
def proceed (d : Daemon) (rc : Int) : Daemon :=
  if rc = 0 then { d with sets := .zero, pc := .loop }
  else { d with pc := .exited (some (hdmi2usbClose rc)) }

/-- `hdmi2usb_init` and the loop condition after it. -/
def initialise (clock : Nat → UTime) (a : InitAnswers) (rc : Int) (d : Daemon) : Daemon :=
  match hdmi2usbInit clock a d.app rc d.world with
  | none => { d with pc := .exited none }
  | some (rc, app, w) => { d with app := app, world := w }.proceed rc

/-- The start of `hdmi2usb_main` with the application record that `main` fills in. -/
def start (clock : Nat → UTime) (iobufsize : Nat) (a : InitAnswers) : Daemon :=
  initialise clock a 0
    { app :=
        { opts := ⟨iobufsize⟩
          selector := selectorInit
          copy := .init (iobufsize * 2 % 0x100000000)
          lastCommand := ⟨0, 0⟩ }
      world := .init
      sets := .zero
      signalReceived := 0
      pc := .loop }

def round (clock : Nat → UTime) (a : RoundAnswers) (d : Daemon) : Daemon :=
  let (brk, sets, sel, w) := selectorRound clock a d.sets d.app.selector d.world
  { d with
    app := { d.app with selector := sel }
    world := w
    sets := sets
    pc := if brk then .check else .loop }

/-- The switch on `signal_received`. -/
def check (clock : Nat → UTime) (a : InitAnswers) (d : Daemon) : Daemon :=
  if d.signalReceived = sighup then
    initialise clock a (hdmi2usbClose exSuccess) { d with world := d.world.record .reloaded }
  else if d.signalReceived = sigint ∨ d.signalReceived = sigquit ∨ d.signalReceived = sigterm then
    d.proceed exRequest
  else
    let (rc, app, w) := hdmi2usbProcess clock d.app 0 (d.world.record .processed)
    { d with app := app, world := w }.proceed rc

def signal (sig : Signal) (d : Daemon) : Daemon :=
  let d := { d with world := d.world.record (.signalled sig.toNat) }
  match breakHandler sig.toNat d.signalReceived with
  | none => { d with pc := .exited (some 31) }
  | some received => { d with signalReceived := received }

def step (clock : Nat → UTime) (d : Daemon) : Input → Daemon
  | .round a => if d.pc = .loop then d.round clock a else d
  | .check a => if d.pc = .check then d.check clock a else d
  | .signal sig => match d.pc with | .exited _ => d | _ => d.signal sig

end Daemon

/-! ## What a step can do -/

/-- A device that a creator of `hdmi2usb_init` has filled in. -/
structure Iodev.Fresh (dev : Iodev) : Prop where
  fd : dev.fd = -1
  state : dev.state = .iodevNone
  session : dev.session = 0
  driver : dev.driver ≠ .accepted
  listener : dev.driver = .listen → dev.listener = true
  rbuf : dev.rbuf.contents = []
  tbuf : dev.driver = .listen → dev.tbuf.size = 0

theorem serialCreate_fresh (clock : Nat → UTime) (bufsize : Nat) (w : World) :
    (serialCreate clock bufsize w).1.Fresh :=
  ⟨rfl, rfl, rfl, by simp [serialCreate, iodevInit], by simp [serialCreate, iodevInit],
    RingBuffer.init_contents bufsize, by simp [serialCreate, iodevInit]⟩

theorem tcpCreateListen_fresh (laddr : SockAddr) (bufsize : Nat) :
    (tcpCreateListen laddr bufsize).Fresh :=
  ⟨rfl, rfl, rfl, by simp [tcpCreateListen, tcpCreate, iodevInit], fun _ => rfl,
    RingBuffer.init_contents 0, fun _ => rfl⟩

/-- Among fresh devices there is no inactive slot, so a new one is appended. -/
theorem selectorPlace_fresh {sel : Selector} (h : ∀ dev ∈ sel.toList, dev.Fresh) (dev : Iodev) :
    (selectorPlace sel dev).toList = sel.toList ++ [dev] := by
  have hnone : inactiveSlot sel = none := by
    cases hslot : inactiveSlot sel with
    | none => rfl
    | some index =>
      rcases inactiveSlot_some hslot with ⟨-, old, hget, hstate⟩
      have := (h old (List.mem_of_getElem? hget)).state
      rw [hstate] at this
      cases this
  rw [selectorPlace_toList, hnone]

/-- What the creators of `hdmi2usb_init` make: the serial device and then listeners. -/
def InitialDevices (devs : List Iodev) : Prop :=
  (∀ dev ∈ devs, dev.Fresh) ∧
    ∀ (index : Nat) dev, devs[index]? = some dev → (index = 0 ↔ dev.driver = .serial)

/-- The loop over the addresses only makes listeners. -/
theorem listenLoop_keeps {P : Selector → Prop} {bufsize : Nat}
    (hlisten : ∀ addr sel, P sel → P (selectorNewDeviceListen addr bufsize sel))
    (addrs : List SockAddr) (listenPorts : Nat) {sel : Selector} (h : P sel) :
    P (listenLoop bufsize addrs listenPorts sel) := by
  induction addrs generalizing listenPorts sel with
  | nil => exact h
  | cons addr addrs ih =>
    unfold listenLoop
    cases addr.family.bit with
    | none => exact ih listenPorts h
    | some bit =>
      -- the three ways to go on after an address
      have hnext : ∀ s : Nat × Selector, P s.2 →
          P (if s.1 &&& 4 ≠ 0 then selectorNewDeviceListen addr bufsize s.2
            else if s.1 = 3 then s.2 else listenLoop bufsize addrs s.1 s.2) := by
        intro s hs
        split
        · exact hlisten addr s.2 hs
        split
        · exact hs
        · exact ih s.1 hs
      refine hnext _ ?_
      split
      · exact h
      split
      · exact hlisten addr sel h
      · exact h

/-- A listener is added at the end, so slot 0 stays the serial device's. -/
theorem newDeviceListen_initial {sel : Selector} (addr : SockAddr) (bufsize : Nat)
    (h : InitialDevices sel.toList ∧ 0 < sel.toList.length) :
    InitialDevices (selectorNewDeviceListen addr bufsize sel).toList ∧
      0 < (selectorNewDeviceListen addr bufsize sel).toList.length := by
  rcases h with ⟨h, hpos⟩
  have hnew := tcpCreateListen_fresh addr bufsize
  simp only [selectorNewDeviceListen, selectorPlace_fresh h.1]
  refine ⟨⟨?_, ?_⟩, by simp⟩
  · intro dev hmem
    rcases List.mem_append.mp hmem with hmem | hmem
    · exact h.1 dev hmem
    · rwa [List.mem_singleton.mp hmem]
  · intro index dev hget
    rcases Slots.getElem?_append_cases hget with ⟨rfl, rfl⟩ | ⟨-, hget⟩
    · exact iff_of_false (by omega) (by simp [tcpCreateListen, tcpCreate, iodevInit])
    · exact h.2 index dev hget

theorem listenLoop_initial (bufsize : Nat) (addrs : List SockAddr) (listenPorts : Nat)
    (sel : Selector) (h : InitialDevices sel.toList) (hpos : 0 < sel.toList.length) :
    InitialDevices (listenLoop bufsize addrs listenPorts sel).toList :=
  (listenLoop_keeps (P := fun sel => InitialDevices sel.toList ∧ 0 < sel.toList.length)
    (fun addr _ hs => newDeviceListen_initial addr bufsize hs) addrs listenPorts ⟨h, hpos⟩).1

/-- What an initialisation can do: without a device there is nothing to select from, else the serial
device comes first and the listeners after it. -/
theorem hdmi2usbInit_cases {clock : Nat → UTime} {a : InitAnswers} {app app' : Hdmi2usb}
    {rc rc' : Int} {w w' : World} (h : hdmi2usbInit clock a app rc w = some (rc', app', w')) :
    (a.port = none ∧ rc' = exStartup ∧ app' = { app with selector := selectorInit } ∧ w' = w) ∨
      ∃ port addrs, a.port = some port ∧ a.addrs = some addrs ∧ rc' = rc ∧
        app' = { app with
          selector := listenLoop app.opts.iobufsize addrs 0
            (selectorPlace selectorInit (serialCreate clock app.opts.iobufsize w).1) } ∧
        w' = (serialCreate clock app.opts.iobufsize w).2 := by
  unfold hdmi2usbInit at h
  cases hport : a.port with
  | none =>
    simp only [hport, Option.some.injEq, Prod.mk.injEq] at h
    rcases h with ⟨rfl, rfl, rfl⟩
    exact .inl ⟨rfl, rfl, rfl, rfl⟩
  | some port =>
    simp only [hport] at h
    cases haddrs : a.addrs with
    | none => simp [haddrs] at h
    | some addrs =>
      simp only [haddrs, Option.some.injEq, Prod.mk.injEq] at h
      rcases h with ⟨rfl, rfl, rfl⟩
      exact .inr ⟨port, addrs, rfl, rfl, rfl, rfl, rfl⟩

/-- `hdmi2usb_init` replaces the devices and opens and closes nothing. -/
theorem hdmi2usbInit_spec {clock : Nat → UTime} {a : InitAnswers} {app app' : Hdmi2usb}
    {rc rc' : Int} {w w' : World} (h : hdmi2usbInit clock a app rc w = some (rc', app', w')) :
    InitialDevices app'.selector.toList ∧ app'.opts = app.opts ∧ app'.copy = app.copy ∧
      app'.lastCommand = app.lastCommand ∧ w'.fds = w.fds ∧ w'.opens = w.opens ∧
      w'.log = w.log := by
  rcases hdmi2usbInit_cases h with ⟨-, -, rfl, rfl⟩ | ⟨port, addrs, -, -, -, rfl, rfl⟩
  · refine ⟨?_, rfl, rfl, rfl, rfl, rfl, rfl⟩
    simp [InitialDevices]
  · -- the serial device comes first, into slot 0
    have hserial := serialCreate_fresh clock app.opts.iobufsize w
    have hlist : (selectorPlace selectorInit (serialCreate clock app.opts.iobufsize w).1).toList =
        [(serialCreate clock app.opts.iobufsize w).1] := by
      rw [selectorPlace_fresh (by simp), selectorInit_toList, List.nil_append]
    refine ⟨listenLoop_initial _ addrs 0 _ ?_ ?_, rfl, rfl, rfl, ?_, ?_, ?_⟩
    · rw [hlist]
      constructor
      · intro dev hmem
        rwa [List.mem_singleton.mp hmem]
      · intro index dev hget
        rcases index with - | index
        · simp only [List.getElem?_cons_zero, Option.some.injEq] at hget
          rw [← hget]
          exact iff_of_true rfl rfl
        · simp at hget
    · simp [hlist]
    all_goals simp [serialCreate]

namespace Daemon

variable (clock : Nat → UTime) (d : Daemon) (rc : Int)

@[simp] theorem proceed_app : (d.proceed rc).app = d.app := by
  unfold proceed
  split <;> rfl

@[simp] theorem proceed_world : (d.proceed rc).world = d.world := by
  unfold proceed
  split <;> rfl

@[simp] theorem proceed_signalReceived : (d.proceed rc).signalReceived = d.signalReceived := by
  unfold proceed
  split <;> rfl

/-- An initialisation leaves the application as it was, before a crash, or with the
devices replaced. -/
theorem initialise_cases (a : InitAnswers) :
    ((initialise clock a rc d).app = d.app ∧ (initialise clock a rc d).world = d.world) ∨
    ∃ rc' app w, hdmi2usbInit clock a d.app rc d.world = some (rc', app, w) ∧
      (initialise clock a rc d).app = app ∧ (initialise clock a rc d).world = w := by
  unfold initialise
  cases hinit : hdmi2usbInit clock a d.app rc d.world with
  | none => exact .inl ⟨rfl, rfl⟩
  | some r => exact .inr ⟨r.1, r.2.1, r.2.2, rfl, by simp⟩

@[simp] theorem initialise_signalReceived (a : InitAnswers) :
    (initialise clock a rc d).signalReceived = d.signalReceived := by
  unfold initialise
  split
  · rfl
  · simp

/-- At the start nothing is open and nothing is logged, and the devices are fresh. -/
theorem start_spec (iobufsize : Nat) (a : InitAnswers) :
    InitialDevices (start clock iobufsize a).app.selector.toList ∧
      (start clock iobufsize a).app.copy.contents = [] ∧
      (start clock iobufsize a).world.fds = ∅ ∧ (start clock iobufsize a).world.opens = 0 ∧
      (start clock iobufsize a).world.log = [] ∧
      (start clock iobufsize a).signalReceived = 0 := by
  unfold start
  generalize hbefore : (Daemon.mk _ _ _ _ _ : Daemon) = d
  rcases initialise_cases clock d 0 a with ⟨happ, hw⟩ | ⟨rc', app, w, hinit, happ, hw⟩
  · rw [happ, hw, initialise_signalReceived, ← hbefore]
    refine ⟨?_, by simp, rfl, rfl, rfl, rfl⟩
    simp [InitialDevices]
  · rcases hdmi2usbInit_spec hinit with ⟨hdevs, -, hcopy, -, hfds, hopens, hlog⟩
    rw [happ, hw, initialise_signalReceived, hcopy, hfds, hopens, hlog, ← hbefore]
    exact ⟨hdevs, by simp, rfl, rfl, rfl, rfl⟩

/-- Without a signal, the switch runs a process cycle. -/
theorem step_process {a : InitAnswers} (hpc : d.pc = .check) (hno : NoSignal d.signalReceived) :
    (step clock d (.check a)).app =
        (hdmi2usbProcess clock d.app 0 (d.world.record .processed)).2.1 ∧
      (step clock d (.check a)).world =
        (hdmi2usbProcess clock d.app 0 (d.world.record .processed)).2.2 := by
  simp [step, hpc, check, hno.1, hno.2]

/-- What a step does to the application and the world: nothing, a turn of the select loop,
a process cycle, a reload, or the note of a signal. -/
theorem step_cases (i : Input) :
    ((step clock d i).app = d.app ∧ (step clock d i).world = d.world) ∨
    (∃ a, i = .round a ∧ d.pc = .loop ∧ step clock d i = d.round clock a) ∨
    (∃ a, i = .check a ∧ d.pc = .check ∧ d.signalReceived = sighup ∧ step clock d i =
      initialise clock a exSuccess { d with world := d.world.record .reloaded }) ∨
    (∃ a, i = .check a ∧ d.pc = .check ∧ NoSignal d.signalReceived ∧
      (step clock d i).app = (hdmi2usbProcess clock d.app 0 (d.world.record .processed)).2.1 ∧
      (step clock d i).world = (hdmi2usbProcess clock d.app 0 (d.world.record .processed)).2.2) ∨
    (∃ sig, i = .signal sig ∧ (step clock d i).app = d.app ∧
      (step clock d i).world = d.world.record (.signalled sig.toNat)) := by
  cases i with
  | round a =>
    by_cases hpc : d.pc = .loop
    · exact .inr (.inl ⟨a, rfl, hpc, if_pos hpc⟩)
    · exact .inl ⟨by simp [step, hpc], by simp [step, hpc]⟩
  | check a =>
    by_cases hpc : d.pc = .check
    · by_cases hhup : d.signalReceived = sighup
      · exact .inr (.inr (.inl ⟨a, rfl, hpc, hhup, by simp [step, hpc, check, hhup, hdmi2usbClose]⟩))
      · by_cases hquit : d.signalReceived = sigint ∨ d.signalReceived = sigquit ∨
            d.signalReceived = sigterm
        · exact .inl ⟨by simp [step, hpc, check, hhup, hquit],
            by simp [step, hpc, check, hhup, hquit]⟩
        · exact .inr (.inr (.inr (.inl ⟨a, rfl, hpc, ⟨hhup, hquit⟩,
            by simp [step, hpc, check, hhup, hquit], by simp [step, hpc, check, hhup, hquit]⟩)))
    · exact .inl ⟨by simp [step, hpc], by simp [step, hpc]⟩
  | signal sig =>
    -- a process that has exited gets no signal
    cases hpc : d.pc with
    | exited rc => exact .inl ⟨by simp [step, hpc], by simp [step, hpc]⟩
    | loop | check =>
      refine .inr (.inr (.inr (.inr ⟨sig, rfl, ?_, ?_⟩)))
      · simp only [step, hpc, signal]
        split <;> rfl
      · simp only [step, hpc, signal]
        split <;> rfl

/-- A step keeps what marks, turns of the select loop, reloads and process cycles keep. -/
theorem step_keeps {I : Hdmi2usb → World → Prop} {i : Input} (h : I d.app d.world)
    (hmark : ∀ ev, ev.isMark = true → I d.app (d.world.record ev))
    (hround : ∀ a, i = .round a → d.pc = .loop → I (d.round clock a).app (d.round clock a).world)
    (hreload : ∀ a rc app w,
      hdmi2usbInit clock a d.app exSuccess (d.world.record .reloaded) = some (rc, app, w) → I app w)
    (hprocess : I (hdmi2usbProcess clock d.app 0 (d.world.record .processed)).2.1
      (hdmi2usbProcess clock d.app 0 (d.world.record .processed)).2.2) :
    I (d.step clock i).app (d.step clock i).world := by
  rcases d.step_cases clock i with ⟨happ, hw⟩ | ⟨a, hi, hpc, hd⟩ | ⟨a, -, -, -, hd⟩ |
    ⟨a, -, -, -, happ, hw⟩ | ⟨sig, -, happ, hw⟩
  · rw [happ, hw]
    exact h
  · rw [hd]
    exact hround a hi hpc
  · rw [hd]
    rcases initialise_cases clock { d with world := d.world.record .reloaded } exSuccess a with
      ⟨happ, hw⟩ | ⟨rc, app, w, hinit, happ, hw⟩
    · rw [happ, hw]
      exact hmark .reloaded rfl
    · rw [happ, hw]
      exact hreload a rc app w hinit
  · rw [happ, hw]
    exact hprocess
  · rw [happ, hw]
    exact hmark (.signalled sig.toNat) rfl

end Daemon

/-- What holds in each turn of `selector_loop`. -/
def InRounds (P : RoundAnswers → FdSets → Selector → World → Prop) (d : Daemon) (i : Input) :
    Prop :=
  ∀ a, i = .round a → d.pc = .loop → P a d.sets d.app.selector d.world

theorem InRounds.of_loop {P : RoundAnswers → FdSets → Selector → World → Prop} {d : Daemon}
    {a : RoundAnswers} (h : InRounds P d (.round a)) (hpc : d.pc = .loop) :
    P a d.sets d.app.selector d.world := h a rfl hpc

instance (P : RoundAnswers → FdSets → Selector → World → Prop)
    [∀ a sets sel w, Decidable (P a sets sel w)] (d : Daemon) (i : Input) :
    Decidable (InRounds P d i) :=
  match i with
  | .round a => decidable_of_iff (d.pc = .loop → P a d.sets d.app.selector d.world) <| by
      simp [InRounds]
  | .check _ | .signal _ => .isTrue (by simp [InRounds])

/-! ## A first connection -/

namespace Daemon

/-- A system on which every call that opens a device succeeds, with descriptor `3 + index`. -/
def openAll (index : Nat) : OpenAnswer := ⟨some (3 + index), true, true, true, true⟩

/-- One IPv4 address that is not the wildcard. -/
def oneAddress : InitAnswers := ⟨some "/dev/ttyACM0", some [⟨.inet, 0x7f000001⟩]⟩

/-- A turn in which `select` reports `sets` and the system calls of the handlers return `io`. -/
def turn (sets : FdSets) (io : IoAnswer) : Input := .round ⟨openAll, .ready sets, fun _ => io⟩

/-- A turn in which nothing happens before the timeout. -/
def quietTurn : Input := turn .zero ⟨none, none, none⟩

/-- The serial device gets descriptor 3 and the listener 4; then a connection is accepted
on descriptor 5. -/
def firstConnection : List Input :=
  [quietTurn, .check oneAddress, turn ⟨{4}, ∅, ∅⟩ ⟨none, some 5, none⟩]

end Daemon

end Hdmi2usbd
