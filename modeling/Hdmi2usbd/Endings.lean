import Mathlib.Data.List.Pairwise
import Hdmi2usbd.Reload
import Hdmi2usbd.Stopping

/-!
# Endings — how long the daemon serves, and how it ends

The handler stores every signal in `signal_received`, and nothing clears it. So the first signal
ends the service: whatever is read later, no process cycle moves it on (`run_serves_before_signals`).
After a SIGHUP the daemon reloads at every signal check; only a SIGINT ends that. Which way a run
has ended is told by the signals and the devices (`run_ends`).
-/

namespace Hdmi2usbd

open Machine (run)

/-- The signals that have been delivered, in order. -/
def signalsOf (log : List Ev) : List Nat :=
  log.filterMap fun
    | .signalled sig => some sig
    | _ => none

@[simp] theorem signalsOf_append (log log' : List Ev) :
    signalsOf (log ++ log') = signalsOf log ++ signalsOf log' := List.filterMap_append

theorem signalsOf_plain {log log' : List Ev} (h : Adds Ev.IsPlain log log') :
    signalsOf log' = signalsOf log := by
  rcases h with ⟨evs, rfl, hevs⟩
  have hnil : signalsOf evs = [] := List.filterMap_eq_nil_iff.mpr fun ev hev => by
    cases ev with
    | signalled => cases hevs _ hev
    | _ => rfl
  rw [signalsOf_append, hnil, List.append_nil]

/-- Events of a process cycle. -/
def Ev.Serves (ev : Ev) : Prop := ev = .processed ∨ ev.IsCycle

/-- No process cycle comes after a signal. -/
def ServedBeforeSignals (log : List Ev) : Prop :=
  log.Pairwise fun ev ev' => (∃ sig, ev = .signalled sig) → ¬ ev'.Serves

theorem ServedBeforeSignals.append {log evs : List Ev} (h : ServedBeforeSignals log)
    (hevs : ∀ ev ∈ evs, ¬ ev.Serves) : ServedBeforeSignals (log ++ evs) := by
  refine List.pairwise_append.mpr ⟨h, ?_, fun _ _ ev hev _ => hevs ev hev⟩
  exact List.pairwise_of_forall_mem_list fun _ _ ev hev _ => hevs ev hev

theorem servedBeforeSignals_of_nil {log : List Ev} (h : signalsOf log = []) :
    ServedBeforeSignals log := by
  refine List.pairwise_of_forall_mem_list ?_
  rintro _ hmem ev - ⟨sig, rfl⟩
  cases List.filterMap_eq_nil_iff.mp h _ hmem

theorem Ev.IsIo.not_serves {ev : Ev} (h : ev.IsIo) : ¬ ev.Serves := by
  rintro (rfl | hcycle)
  · exact h
  · cases ev <;> first | exact h | exact hcycle

/-- The flag is the last signal, and one of the two that have a handler. -/
structure Daemon.Told (d : Daemon) : Prop where
  flag : d.signalReceived = (signalsOf d.world.log).getLast?.getD 0
  known : ∀ sig ∈ signalsOf d.world.log, sig = sighup ∨ sig = sigint
  served : ServedBeforeSignals d.world.log

namespace Daemon

variable {clock : Nat → UTime} {d d' : Daemon}

/-- The switch finds nothing exactly when there has been no signal. -/
theorem Told.noSignal_iff (h : d.Told) :
    NoSignal d.signalReceived ↔ signalsOf d.world.log = [] := by
  rw [h.flag]
  cases hlast : (signalsOf d.world.log).getLast? with
  | none =>
    rw [List.getLast?_eq_none_iff.mp hlast]
    exact iff_of_true ⟨by decide, by decide⟩ rfl
  | some sig =>
    have hmem := List.mem_of_getLast? hlast
    refine iff_of_false (fun hno => ?_) (List.ne_nil_of_mem hmem)
    rcases h.known sig hmem with hsig | hsig
    · exact hno.1 hsig
    · exact hno.2 (.inl hsig)

/-- No signal is delivered, and a process cycle is run only if none was delivered before. -/
theorem Told.next (h : d.Told) {evs : List Ev} (hflag : d'.signalReceived = d.signalReceived)
    (hlog : d'.world.log = d.world.log ++ evs) (hnone : signalsOf evs = [])
    (hevs : (∀ ev ∈ evs, ¬ ev.Serves) ∨ signalsOf d.world.log = []) : d'.Told := by
  have hsignals : signalsOf d'.world.log = signalsOf d.world.log := by
    rw [hlog, signalsOf_append, hnone, List.append_nil]
  refine ⟨by rw [hflag, hsignals]; exact h.flag, by rw [hsignals]; exact h.known, ?_⟩
  rcases hevs with hevs | hnil
  · rw [hlog]
    exact h.served.append hevs
  · exact servedBeforeSignals_of_nil (hsignals.trans hnil)

theorem Told.signalled (h : d.Told) (sig : Signal) : (d.signal sig).Told := by
  rcases d.signal_marks sig with ⟨hflag, hlog⟩
  have hsignals : signalsOf (d.signal sig).world.log = signalsOf d.world.log ++ [sig.toNat] := by
    rw [hlog, signalsOf_append]
    rfl
  refine ⟨?_, ?_, ?_⟩
  · rw [hflag, hsignals, List.getLast?_concat]
    rfl
  · rw [hsignals]
    intro s hs
    rcases List.mem_append.mp hs with hs | hs
    · exact h.known s hs
    · rw [List.mem_singleton.mp hs]
      cases sig with
      | sighup => exact .inl rfl
      | sigint => exact .inr rfl
  · rw [hlog]
    refine h.served.append fun ev hev => ?_
    rw [List.mem_singleton.mp hev]
    rintro (heq | hcycle)
    · cases heq
    · exact hcycle

theorem step_told (h : d.Told) (i : Input) : (d.step clock i).Told := by
  cases i with
  | round a =>
    simp only [step]
    split
    · rcases netReaches_log (selectorRound_any clock a d.sets d.app.selector d.world) with
        ⟨evs, hlog, hevs⟩
      refine h.next rfl hlog ?_ (.inl fun ev hev => (hevs ev hev).not_serves)
      exact signalsOf_plain ⟨evs, (List.nil_append evs).symm, fun ev hev => (hevs ev hev).isPlain⟩
    · exact h
  | signal sig =>
    simp only [step]
    split
    · exact h
    · exact h.signalled sig
  | check a =>
    simp only [step]
    split
    swap
    · exact h
    rcases d.check_marks clock a with ⟨hflag, ⟨-, hlog⟩ | ⟨-, -, hlog⟩ | ⟨hno, evs, hlog, hevs⟩⟩
    · refine h.next hflag hlog rfl (.inl fun ev hev => ?_)
      rw [List.mem_singleton.mp hev]
      rintro (heq | hcycle)
      · cases heq
      · exact hcycle
    · exact h.next hflag (hlog.trans (List.append_nil _).symm) rfl
        (.inl fun _ hev => absurd hev List.not_mem_nil)
    · -- a process cycle runs, so no signal has come yet
      rw [List.append_assoc] at hlog
      refine h.next hflag hlog ?_ (.inr (h.noSignal_iff.mp hno))
      rw [signalsOf_append]
      exact signalsOf_plain ⟨evs, (List.nil_append evs).symm, hevs⟩

theorem start_told (clock : Nat → UTime) (iobufsize : Nat) (a : InitAnswers) :
    (start clock iobufsize a).Told := by
  rcases start_spec clock iobufsize a with ⟨-, -, -, -, hlog, hflag⟩
  constructor
  · rw [hlog, hflag]
    rfl
  · rw [hlog]
    exact fun _ hsig => absurd hsig List.not_mem_nil
  · rw [hlog]
    exact List.Pairwise.nil

end Daemon

theorem run_told (clock : Nat → UTime) (iobufsize : Nat) (a : InitAnswers) (inputs : List Input) :
    (run (Daemon.step clock) (Daemon.start clock iobufsize a) inputs).Told :=
  Machine.run_invariant Daemon.Told (fun _ i h => Daemon.step_told h i)
    (Daemon.start_told clock iobufsize a) inputs

/-- In every run, once a signal has been delivered no process cycle runs any more: nothing is moved,
copied or handed on. -/
theorem run_serves_before_signals (clock : Nat → UTime) (iobufsize : Nat) (a : InitAnswers)
    (inputs : List Input) : ServedBeforeSignals
      (run (Daemon.step clock) (Daemon.start clock iobufsize a) inputs).world.log :=
  (run_told clock iobufsize a inputs).served

/-! ## Where the switch goes -/

/-- A process cycle with these devices goes on: the serial device is not inactive, and there is a
listener. -/
def Serving (app : Hdmi2usb) : Prop :=
  (∃ serial ∈ app.selector.toList[0]?, serial.state ≠ .iodevInactive) ∧
    ∃ dev ∈ ports app, iodevIsListener dev

instance (app : Hdmi2usb) : Decidable (Serving app) := inferInstanceAs (Decidable (_ ∧ _))

/-- A process cycle changes nothing about that. -/
theorem SameShell.serving {app app' : Hdmi2usb} {w w' : World}
    (h : SameShell app.selector.toList w app'.selector.toList w') (hserving : Serving app') :
    Serving app := by
  rcases hserving with ⟨⟨serial', hserial', hactive⟩, dev', hdev', hlistener⟩
  constructor
  · rcases h.slot hserial' with ⟨serial, hserial, hshell⟩
    have hstate : serial'.state = serial.state := show serial'.shell.state = serial.state by
      rw [hshell]
      rfl
    exact ⟨serial, hserial, hstate ▸ hactive⟩
  · rcases List.mem_iff_getElem?.mp hdev' with ⟨index, hget'⟩
    rw [ports, List.getElem?_drop] at hget'
    rcases h.slot hget' with ⟨dev, hget, hshell⟩
    have hflag : iodevIsListener dev' = iodevIsListener dev :=
      show iodevIsListener dev'.shell = iodevIsListener dev by
        rw [hshell]
        rfl
    refine ⟨dev, List.mem_iff_getElem?.mpr ⟨index, ?_⟩, hflag ▸ hlistener⟩
    rw [ports, List.getElem?_drop, hget]

/-- What a process cycle returns. -/
theorem hdmi2usbProcess_serving (clock : Nat → UTime) (app : Hdmi2usb) (rc : Int) (w : World) :
    (hdmi2usbProcess clock app rc w).1 = if Serving app then rc else exNormal := by
  cases hserial : selectorGetDevice app.selector 0 with
  | none =>
    have hnot : ¬ Serving app := by
      rintro ⟨⟨serial, hget, -⟩, -⟩
      rw [selectorGetDevice_eq, hget] at hserial
      cases hserial
    simp [hdmi2usbProcess, hserial, hnot]
  | some serial =>
    have hget := hserial
    rw [selectorGetDevice_eq] at hget
    by_cases hinactive : serial.state = .iodevInactive
    · have hnot : ¬ Serving app := by
        rintro ⟨⟨serial', hget', hactive⟩, -⟩
        cases hget.symm.trans hget'
        exact hactive hinactive
      simp [hdmi2usbProcess, hserial, hinactive, hnot]
    · have hiff : Serving app ↔ ∃ dev ∈ ports app, iodevIsListener dev :=
        ⟨fun h => h.2, fun h => ⟨⟨serial, hget, hinactive⟩, h⟩⟩
      rw [hdmi2usbProcess_result hserial hinactive]
      simp only [hiff]

/-- Where the daemon goes from the switch: without a signal it depends on the devices; after a SIGHUP
on what is found for the new start; after a SIGINT it ends. -/
def Daemon.verdict (d : Daemon) (a : InitAnswers) : Pc :=
  match (signalsOf d.world.log).getLast? with
  | none => if Serving d.app then .loop else .exited (some exNormal)
  | some sig =>
    if sig = sighup then
      match a.port, a.addrs with
      | none, _ => .exited (some exStartup)
      | some _, none => .exited none
      | some _, some _ => .loop
    else .exited (some exRequest)

namespace Daemon

variable {clock : Nat → UTime} {d : Daemon}

theorem initialise_pc (a : InitAnswers) :
    (initialise clock a exSuccess d).pc = match a.port, a.addrs with
      | none, _ => .exited (some exStartup)
      | some _, none => .exited none
      | some _, some _ => .loop := by
  unfold initialise hdmi2usbInit
  cases a.port with
  | none => rfl
  | some port =>
    cases a.addrs with
    | none => rfl
    | some addrs => rfl

theorem proceed_pc (rc : Int) :
    (d.proceed rc).pc = if rc = 0 then .loop else .exited (some (hdmi2usbClose rc)) := by
  unfold proceed
  split <;> rfl

theorem check_pc (h : d.Told) (a : InitAnswers) : (d.check clock a).pc = d.verdict a := by
  unfold verdict
  cases hlast : (signalsOf d.world.log).getLast? with
  | none =>
    have hno := h.noSignal_iff.mpr (List.getLast?_eq_none_iff.mp hlast)
    have hresult := hdmi2usbProcess_serving clock d.app 0 (d.world.record .processed)
    simp only [check, hno.1, hno.2, if_false, proceed_pc, hresult]
    by_cases hserving : Serving d.app
    · simp [hserving]
    · simp [hserving, exNormal, hdmi2usbClose]
  | some sig =>
    have hflag : d.signalReceived = sig := by rw [h.flag, hlast, Option.getD_some]
    rcases h.known sig (List.mem_of_getLast? hlast) with rfl | rfl
    · simp only [check, hflag, if_true]
      exact initialise_pc a
    · simp [check, hflag, proceed_pc, exRequest, hdmi2usbClose, sigint, sighup, Signal.toNat]

end Daemon

/-! ## How a run ends -/

/-- The last two signals are SIGINTs. -/
def InterruptedTwice (log : List Ev) : Prop :=
  ∃ before, signalsOf log = before ++ [sigint, sigint]

theorem interruptedTwice_congr {log log' : List Ev} (h : signalsOf log' = signalsOf log) :
    InterruptedTwice log' ↔ InterruptedTwice log := by
  rw [InterruptedTwice, InterruptedTwice, h]

/-- What has led to an end with the result; `none` is the use of a missing list of addresses. -/
inductive Cause (d : Daemon) : Option Int → Prop
  | unserved (hsignals : signalsOf d.world.log = []) (hdevs : ¬ Serving d.app) :
    Cause d (some exNormal)
  | interrupted (hlast : (signalsOf d.world.log).getLast? = some sigint)
    (honce : ¬ InterruptedTwice d.world.log) : Cause d (some exRequest)
  | noPort (hlast : ∀ sig ∈ (signalsOf d.world.log).getLast?, sig = sighup)
    (hdevs : d.app.selector.toList = []) : Cause d (some exStartup)
  | noList (hlast : ∀ sig ∈ (signalsOf d.world.log).getLast?, sig = sighup) : Cause d none
  | interruptedTwice (htwice : InterruptedTwice d.world.log) : Cause d (some 31)

structure Daemon.Accounted (d : Daemon) : Prop where
  told : d.Told
  ended : ∀ code, d.pc = .exited code → Cause d code
  running : (∀ code, d.pc ≠ .exited code) → ¬ InterruptedTwice d.world.log

namespace Daemon

variable {clock : Nat → UTime} {d : Daemon}

/-- What an initialisation leaves when it ends the daemon. -/
theorem initialise_ended {a : InitAnswers} {code : Option Int}
    (hlast : ∀ sig ∈ (signalsOf d.world.log).getLast?, sig = sighup)
    (hpc : (initialise clock a exSuccess d).pc = .exited code) :
    Cause (initialise clock a exSuccess d) code := by
  have hlog : (initialise clock a exSuccess d).world.log = d.world.log := by
    rcases initialise_cases clock d exSuccess a with ⟨-, hw⟩ | ⟨rc, app, w, hinit, -, hw⟩
    · rw [hw]
    · rcases hdmi2usbInit_spec hinit with ⟨-, -, -, -, -, -, hlog⟩
      rw [hw, hlog]
  rw [← hlog] at hlast
  rw [initialise_pc] at hpc
  cases hport : a.port with
  | none =>
    rw [hport] at hpc
    cases hpc
    refine .noPort hlast ?_
    simp [initialise, hdmi2usbInit, hport]
  | some port =>
    cases haddrs : a.addrs with
    | none =>
      rw [hport, haddrs] at hpc
      cases hpc
      exact .noList hlast
    | some addrs =>
      rw [hport, haddrs] at hpc
      cases hpc

theorem start_accounted (clock : Nat → UTime) (iobufsize : Nat) (a : InitAnswers) :
    (start clock iobufsize a).Accounted := by
  have hnone : signalsOf (start clock iobufsize a).world.log = [] := by
    rw [(start_spec clock iobufsize a).2.2.2.2.1]
    rfl
  refine ⟨start_told clock iobufsize a, fun code hpc => ?_, fun _ ⟨before, htwice⟩ => ?_⟩
  · exact initialise_ended (fun _ hsig => nomatch hsig) hpc
  · rw [hnone] at htwice
    exact absurd htwice.symm (by simp)

theorem Accounted.signalled (h : d.Accounted) (hpc : ∀ code, d.pc ≠ .exited code) (sig : Signal) :
    (d.signal sig).Accounted := by
  have hsignals : signalsOf (d.signal sig).world.log = signalsOf d.world.log ++ [sig.toNat] := by
    rw [(d.signal_marks sig).2, signalsOf_append]
    rfl
  by_cases hagain : sig.toNat = sigint ∧ d.signalReceived = sigint
  · -- the second SIGINT in a row
    have hend : (d.signal sig).pc = .exited (some 31) := by simp [signal, breakHandler, hagain]
    have htwice : InterruptedTwice (d.signal sig).world.log := by
      have hflag := h.told.flag
      rw [hagain.2] at hflag
      cases hlast : (signalsOf d.world.log).getLast? with
      | none =>
        rw [hlast] at hflag
        cases hflag
      | some last =>
        rw [hlast, Option.getD_some] at hflag
        rcases List.getLast?_eq_some_iff.mp hlast with ⟨before, hbefore⟩
        refine ⟨before, ?_⟩
        rw [hsignals, hbefore, ← hflag, hagain.1, List.append_assoc]
        rfl
    refine ⟨h.told.signalled sig, fun code hcode => ?_, fun hrun => absurd hend (hrun _)⟩
    cases hend.symm.trans hcode
    exact .interruptedTwice htwice
  · have hend : (d.signal sig).pc = d.pc := by simp [signal, breakHandler, hagain]
    refine ⟨h.told.signalled sig, fun code hcode => absurd (hend ▸ hcode) (hpc code), ?_⟩
    rintro - ⟨before, htwice⟩
    rw [hsignals, ← List.singleton_append (x := sigint), ← List.append_assoc] at htwice
    rcases List.append_inj' htwice rfl with ⟨hbefore, hsig⟩
    refine hagain ⟨List.singleton_inj.mp hsig, ?_⟩
    rw [h.told.flag, hbefore, List.getLast?_concat, Option.getD_some]

theorem Accounted.checked (h : d.Accounted) (hpc : d.pc = .check) (a : InitAnswers) :
    (d.check clock a).Accounted := by
  have honce : ¬ InterruptedTwice d.world.log := h.running fun code => by simp [hpc]
  have htold : (d.check clock a).Told := by
    have hstep := @step_told clock d h.told (.check a)
    rwa [step, if_pos hpc] at hstep
  have hsignals : signalsOf (d.check clock a).world.log = signalsOf d.world.log := by
    rcases d.check_marks clock a with ⟨-, ⟨-, hlog⟩ | ⟨-, -, hlog⟩ | ⟨-, hlog⟩⟩
    · rw [hlog, signalsOf_append]
      exact List.append_nil _
    · rw [hlog]
    · rw [signalsOf_plain hlog, signalsOf_append]
      exact List.append_nil _
  have htwice := interruptedTwice_congr hsignals
  refine ⟨htold, fun code hcode => ?_, fun _ => htwice.not.mpr honce⟩
  cases hlast : (signalsOf d.world.log).getLast? with
  | none =>
    have hnil := List.getLast?_eq_none_iff.mp hlast
    have hno := h.told.noSignal_iff.mpr hnil
    rw [check_pc h.told, verdict, hlast] at hcode
    simp only at hcode
    split at hcode
    · cases hcode
    · next hserving =>
      cases hcode
      refine .unserved (hsignals.trans hnil) fun hserving' => hserving ?_
      have happ : (d.check clock a).app =
          (hdmi2usbProcess clock d.app 0 (d.world.record .processed)).2.1 := by
        have hstep := (step_process clock d (a := a) hpc hno).1
        rwa [step, if_pos hpc] at hstep
      rw [happ] at hserving'
      exact (hdmi2usbProcess_shell clock d.app 0 (d.world.record .processed)).serving hserving'
  | some sig =>
    rcases h.told.known sig (List.mem_of_getLast? hlast) with rfl | rfl
    · have hflag : d.signalReceived = sighup := by rw [h.told.flag, hlast, Option.getD_some]
      have hcheck : d.check clock a =
          initialise clock a exSuccess { d with world := d.world.record .reloaded } := by
        simp [check, hflag, hdmi2usbClose]
      rw [hcheck] at hcode ⊢
      have hsame : signalsOf (d.world.record .reloaded).log = signalsOf d.world.log := by
        rw [World.record_log, signalsOf_append]
        exact List.append_nil _
      refine initialise_ended (fun sig hsig => ?_) hcode
      rw [hsame, hlast] at hsig
      exact (Option.some.inj hsig).symm
    · rw [check_pc h.told, verdict, hlast] at hcode
      cases hcode
      exact .interrupted (hsignals ▸ hlast) (htwice.not.mpr honce)

theorem step_accounted (h : d.Accounted) (i : Input) : (d.step clock i).Accounted := by
  cases i with
  | round a =>
    simp only [step]
    split
    · next hpc =>
      have hstep := @step_told clock d h.told (.round a)
      rw [step, if_pos hpc] at hstep
      have hgoes : ∀ code, (d.round clock a).pc ≠ .exited code := fun code => by
        simp only [round]
        split <;> exact Pc.noConfusion
      refine ⟨hstep, fun code hcode => absurd hcode (hgoes code), fun _ => ?_⟩
      rw [interruptedTwice_congr (signalsOf_plain (d.round_marks clock a))]
      exact h.running fun code => by simp [hpc]
    · exact h
  | signal sig =>
    simp only [step]
    split
    · exact h
    · next hpc => exact h.signalled hpc sig
  | check a =>
    simp only [step]
    split
    · next hpc => exact h.checked hpc a
    · exact h

end Daemon

/-- How every run ends: the cause of what `hdmi2usb_main` returns, or of the `exit(31)` of
`break_handler`; that two SIGINTs in a row end it at once; and, at a signal check, where the daemon
goes from there, by the signals that were delivered, the devices, and what is found for a new
start. -/
theorem run_ends (clock : Nat → UTime) (iobufsize : Nat) (a : InitAnswers) (inputs : List Input) :
    let d := run (Daemon.step clock) (Daemon.start clock iobufsize a) inputs
    (∀ code, d.pc = .exited code → Cause d code) ∧
      (InterruptedTwice d.world.log → ∃ code, d.pc = .exited code) ∧
      (d.pc = .check → ∀ b, (d.step clock (.check b)).pc = d.verdict b) := by
  intro d
  have h : d.Accounted := Machine.run_invariant Daemon.Accounted
    (fun _ i h => Daemon.step_accounted h i) (Daemon.start_accounted clock iobufsize a) inputs
  refine ⟨h.ended, fun htwice => ?_, fun hpc b => ?_⟩
  · by_contra hrun
    exact h.running (fun code hcode => hrun ⟨code, hcode⟩) htwice
  · rw [Daemon.step, if_pos hpc]
    exact Daemon.check_pc h.told b

/-- The daemon goes on reloading after a SIGHUP, and a SIGINT ends it. -/
example : (run (Daemon.step fun _ => 0) (Daemon.start (fun _ => 0) 64 Daemon.oneAddress)
    [Daemon.quietTurn, .signal .sighup, .check Daemon.oneAddress, Daemon.quietTurn,
      .check Daemon.oneAddress, Daemon.quietTurn, .signal .sigint,
      .check Daemon.oneAddress]).pc = .exited (some exRequest) := by
  decide +kernel

end Hdmi2usbd
