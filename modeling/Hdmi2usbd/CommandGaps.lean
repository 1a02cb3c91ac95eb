import Mathlib.Data.List.Chain
import Hdmi2usbd.Failure
import Hdmi2usbd.Readings

/-!
# CommandGaps — the pause between two commands on the wire

The pace of the commands counts from the moment a command is put into the send buffer of the
serial device, and the buffer is written to the descriptor later, a character at a time. The wire
is read off the log (`wireOf`). If no command is handed on before the buffer is empty and
`COMMAND_PACE` has passed since the last write, then the first byte of a command is written a pause
after the last byte of the one before (`commands_paused`).
-/

namespace Hdmi2usbd

open Machine (Along run)

/-! ## The wire -/

/-- What a log says about the serial descriptor: the sessions in which it was open, and the bytes
written to it, each with the number of the reading that follows the write. -/
structure Wire where
  sessions : List Nat
  bytes : List (UInt8 × Nat)
deriving DecidableEq, Repr

def Wire.after (wire : Wire) : Ev → Wire
  | .opened .serial session _ => { wire with sessions := session :: wire.sessions }
  | .sent session bytes tick =>
    if session ∈ wire.sessions then
      { wire with bytes := wire.bytes ++ bytes.map fun b => (b, tick) }
    else wire
  | _ => wire

def wireOf (log : List Ev) : Wire := run Wire.after ⟨[], []⟩ log

/-- After a byte that ends a command, the next one is written a pace later: the write falls between
two readings, and the pace has passed from the reading after the earlier write to the one before
the later. -/
def Pause (clock : Nat → UTime) (earlier later : UInt8 × Nat) : Prop :=
  isEol earlier.1 →
    0 < later.2 ∧ (clock earlier.2).toNat + commandPace.toNat ≤ (clock (later.2 - 1)).toNat

instance (clock : Nat → UTime) (earlier later : UInt8 × Nat) :
    Decidable (Pause clock earlier later) :=
  inferInstanceAs (Decidable (_ → _ ∧ _))

variable {clock : Nat → UTime} {log log' : List Ev} {w w' : World}

def Ev.IsSent : Ev → Prop
  | .sent .. => True
  | _ => False

theorem Ev.not_sent_of_not_transfer {ev : Ev} (h : ¬ ev.IsTransfer) : ¬ ev.IsSent := by
  cases ev with
  | sent session bytes tick => exact absurd trivial h
  | _ => exact id

theorem Ev.IsSetup.not_sent {ev : Ev} (h : ev.IsSetup) : ¬ ev.IsSent :=
  Ev.not_sent_of_not_transfer h.not_transfer

/-- Only what is sent gets on the wire. -/
theorem Adds.wire (h : Adds (fun ev => ¬ ev.IsSent) log log') :
    (wireOf log').bytes = (wireOf log).bytes := by
  rcases h with ⟨evs, rfl, hevs⟩
  unfold wireOf
  rw [Machine.run_append]
  refine Machine.run_invariant_mem
    (fun wire : Wire => wire.bytes = (run Wire.after ⟨[], []⟩ log).bytes) ?_ rfl
  intro wire ev hev hwire
  have hnot := hevs ev hev
  cases ev with
  | sent session bytes tick => exact absurd trivial hnot
  | opened driver session fd => cases driver <;> exact hwire
  | _ => exact hwire

/-- The sessions of the wire are those that the serial device has opened. -/
theorem opened_of_wire {session : Nat} (h : session ∈ (wireOf log).sessions) :
    ∃ fd, .opened .serial session fd ∈ log := by
  induction log using List.reverseRecOn with
  | nil => cases h
  | append_singleton log ev ih =>
    have hold : session ∈ (wireOf log).sessions →
        ∃ fd, .opened .serial session fd ∈ log ++ [ev] := by
      intro hmem
      rcases ih hmem with ⟨fd, hfd⟩
      exact ⟨fd, List.mem_append_left _ hfd⟩
    unfold wireOf at h
    rw [Machine.run_snoc] at h
    cases ev with
    | opened driver s fd =>
      cases driver with
      | serial =>
        rcases List.mem_cons.mp h with rfl | hmem
        · exact ⟨fd, by simp⟩
        · exact hold hmem
      | listen | accepted => exact hold h
    | sent s bytes tick =>
      simp only [Wire.after] at h
      split at h <;> exact hold h
    | _ => exact hold h

theorem wireOf_sent (log : List Ev) (session : Nat) (bytes : List UInt8) (tick : Nat) :
    (wireOf (log ++ [.sent session bytes tick])).bytes = (wireOf log).bytes ∨
    (wireOf (log ++ [.sent session bytes tick])).bytes =
      (wireOf log).bytes ++ bytes.map fun b => (b, tick) := by
  unfold wireOf
  rw [Machine.run_snoc]
  simp only [Wire.after]
  split
  · exact .inr rfl
  · exact .inl rfl

/-- What another device sends is not on the wire. -/
theorem wireOf_other {session : Nat} (h : ∀ fd, .opened .serial session fd ∉ log)
    (bytes : List UInt8) (tick : Nat) :
    (wireOf (log ++ [.sent session bytes tick])).bytes = (wireOf log).bytes := by
  have hnot : session ∉ (run Wire.after ⟨[], []⟩ log).sessions := by
    intro hmem
    rcases opened_of_wire hmem with ⟨fd, hfd⟩
    exact h fd hfd
  unfold wireOf
  rw [Machine.run_snoc]
  simp only [Wire.after, if_neg hnot]

/-! ## The invariant -/

/-- The readings do not go back. -/
def NonDecreasing (clock : Nat → UTime) : Prop := ∀ m n, m ≤ n → (clock m).toNat ≤ (clock n).toNat

/-- No byte but the last ends a command. -/
def OneCommand (bytes : List UInt8) : Prop := ∀ b ∈ bytes.dropLast, isEol b = false

theorem oneCommand_nil : OneCommand [] := by simp [OneCommand]

theorem OneCommand.suffix {bytes bytes' : List UInt8} (h : OneCommand bytes)
    (hsuffix : bytes' <:+ bytes) : OneCommand bytes' := by
  rcases hsuffix with ⟨front, rfl⟩
  by_cases hnil : bytes' = []
  · rw [hnil]
    exact oneCommand_nil
  · intro b hb
    refine h b ?_
    rw [List.dropLast_append_of_ne_nil hnil]
    exact List.mem_append_right _ hb

/-- A command that is written up to its end leaves nothing of it behind. -/
theorem OneCommand.eq_nil {b : UInt8} {bytes : List UInt8} (h : OneCommand (b :: bytes))
    (hb : isEol b) : bytes = [] := by
  cases bytes with
  | nil => rfl
  | cons c bytes =>
    have hnot := h b List.mem_cons_self
    rw [hb] at hnot
    cases hnot

/-- What the buffer has room for of a line. -/
theorem oneCommand_take {line : List UInt8} (h : Lines.IsLine isEol line) (n : Nat) :
    OneCommand (line.take n) := by
  rcases h with ⟨body, t, rfl, -, hbody⟩
  intro b hb
  have hmem : b ∈ body := by
    have hle : ((body ++ [t]).take n).dropLast.length ≤ body.length := by
      simp only [List.length_dropLast, List.length_take, List.length_append, List.length_singleton]
      omega
    have hprefix : ((body ++ [t]).take n).dropLast <+: body :=
      List.prefix_of_prefix_length_le ((List.dropLast_prefix _).trans (List.take_prefix _ _))
        (List.prefix_append body [t]) hle
    exact hprefix.subset hb
  simpa using hbody b hmem

/-- What is on the wire is paused, and the send buffer holds what is left of one command. Where the
last byte has ended a command, the buffer is empty or the pause has passed. -/
structure Pausing (clock : Nat → UTime) (serial : Option Iodev) (w : World) : Prop where
  apart : (wireOf w.log).bytes.IsChain (Pause clock)
  single : ∀ dev ∈ serial, OneCommand dev.tbuf.contents
  paused : ∀ dev ∈ serial, dev.tbuf.contents ≠ [] → ∀ last ∈ (wireOf w.log).bytes.getLast?,
    isEol last.1 → ∃ n < w.tick, (clock last.2).toNat + commandPace.toNat ≤ (clock n).toNat

/-- The send buffer after a step that queues nothing: empty, or the end of what it was. -/
def Drains (serial : Option Iodev) (dev' : Iodev) : Prop :=
  dev'.tbuf.contents = [] ∨ ∃ dev ∈ serial, dev'.tbuf.contents <:+ dev.tbuf.contents

theorem Drains.of_same {serial : Option Iodev} {dev dev' : Iodev} (hdev : dev ∈ serial)
    (htbuf : dev'.tbuf = dev.tbuf) : Drains serial dev' := .inr ⟨dev, hdev, by rw [htbuf]⟩

namespace Pausing

variable {serial serial' : Option Iodev}

/-- A step that puts nothing on the wire. -/
theorem still (h : Pausing clock serial w) (hwire : (wireOf w'.log).bytes = (wireOf w.log).bytes)
    (htick : w.tick ≤ w'.tick) (hserial : ∀ dev' ∈ serial', Drains serial dev') :
    Pausing clock serial' w' := by
  refine ⟨by rw [hwire]; exact h.apart, ?_, ?_⟩
  · intro dev' hdev'
    rcases hserial dev' hdev' with htbuf | ⟨dev, hdev, htbuf⟩
    · rw [htbuf]
      exact oneCommand_nil
    · exact (h.single dev hdev).suffix htbuf
  · intro dev' hdev' hne last hlast hend
    rw [hwire] at hlast
    rcases hserial dev' hdev' with htbuf | ⟨dev, hdev, htbuf⟩
    · exact absurd htbuf hne
    · have hnonempty : dev.tbuf.contents ≠ [] := by
        intro hnil
        rw [hnil] at htbuf
        exact hne (List.suffix_nil.mp htbuf)
      rcases h.paused dev hdev hnonempty last hlast hend with ⟨n, hn, hpause⟩
      exact ⟨n, hn.trans_le htick, hpause⟩

/-- The first byte of the buffer is written. -/
theorem write (hclock : NonDecreasing clock) {dev dev' : Iodev} (h : Pausing clock (some dev) w)
    {b : UInt8} {rest : List UInt8} (hb : dev.tbuf.contents = b :: rest)
    (hrest : dev'.tbuf.contents = rest) {tick : Nat} (htick : w.tick ≤ tick)
    (hwire : (wireOf w'.log).bytes = (wireOf w.log).bytes ++ [(b, tick)]) :
    Pausing clock (some dev') w' := by
  have hsingle := h.single dev rfl
  rw [hb] at hsingle
  refine ⟨?_, ?_, ?_⟩
  · -- if a command has ended before, the pause has passed
    rw [hwire, List.isChain_append]
    refine ⟨h.apart, List.isChain_singleton _, ?_⟩
    intro earlier hearlier later hlater hend
    simp only [List.head?_cons, Option.mem_def, Option.some.injEq] at hlater
    rcases h.paused dev rfl (by rw [hb]; simp) earlier hearlier hend with ⟨n, hn, hpause⟩
    have hle := hclock n (later.2 - 1) (by rw [← hlater]; omega)
    exact ⟨by rw [← hlater]; omega, hpause.trans hle⟩
  · rintro dev' ⟨⟩
    rw [hrest]
    exact hsingle.suffix (List.suffix_cons b rest)
  · -- if it ends the command, nothing is left of that
    rintro dev' ⟨⟩ hne last hlast hend
    rw [hwire, List.getLast?_concat, Option.mem_def, Option.some.injEq] at hlast
    rw [← hlast] at hend
    rw [hrest] at hne
    exact absurd (hsingle.eq_nil hend) hne

/-- At most one byte of the buffer is sent, whether or not the session is on the wire. -/
theorem sent (hclock : NonDecreasing clock) {dev dev' : Iodev} (h : Pausing clock (some dev) w)
    (session : Nat) {n tick : Nat} (hn : n ≤ 1)
    (hdrop : dev'.tbuf.contents = dev.tbuf.contents.drop n)
    (hlog : w'.log = w.log ++ [.sent session (dev.tbuf.contents.take n) tick])
    (htick : w.tick ≤ tick) (htick' : w.tick ≤ w'.tick) : Pausing clock (some dev') w' := by
  have hdrains : ∀ dev'' ∈ some dev', Drains (some dev) dev'' := by
    rintro dev'' ⟨⟩
    refine .inr ⟨dev, rfl, ?_⟩
    rw [hdrop]
    exact List.drop_suffix _ _
  have hwire := wireOf_sent w.log session (dev.tbuf.contents.take n) tick
  rw [← hlog] at hwire
  rcases hwire with hwire | hwire
  · exact h.still hwire htick' hdrains
  cases htaken : dev.tbuf.contents.take n with
  | nil =>
    -- nothing is taken
    refine h.still ?_ htick' hdrains
    rw [hwire, htaken, List.map_nil, List.append_nil]
  | cons b bs =>
    have hone : n = 1 := by
      rcases n with - | n
      · simp at htaken
      · omega
    cases hcontents : dev.tbuf.contents with
    | nil => simp [hcontents] at htaken
    | cons c rest =>
      rw [hone, hcontents] at hwire
      refine h.write hclock hcontents ?_ htick hwire
      rw [hdrop, hone, hcontents]
      rfl

end Pausing

/-! ## A round -/

section Round

variable {s : Selector × World}

/-- A handler other than that of a write. -/
theorem handler_drains (clock : Nat → UTime) {event : IoEvent} (hevent : event ≠ .write)
    (answer : IoAnswer) (dev : Iodev) (w : World) :
    Drains (some dev) (iodevHandler clock event answer dev w).1 ∧
      Adds (fun ev => ¬ ev.IsSent) w.log (iodevHandler clock event answer dev w).2.log := by
  have hclosed : ∀ {dev' r}, FailClosed dev' w r → dev' = dev ∨ dev' = flushBuffers dev →
      Drains (some dev) r.1 ∧ Adds (fun ev => ¬ ev.IsSent) w.log r.2.log := by
    intro dev' r hclosed hdev'
    rcases hclosed.setUp with ⟨hbody, hadds⟩
    refine ⟨?_, hadds.mono fun _ => Ev.IsSetup.not_sent⟩
    rcases hdev' with rfl | rfl
    · exact .of_same rfl hbody.tbuf
    · left
      rw [hbody.tbuf]
      exact RingBuffer.flush_contents _
  rcases iodevHandler_cases clock event answer dev w with ⟨hdev, hlog, -, -⟩ |
    ⟨bytes, -, -, -, heq⟩ | ⟨_, rfl, -⟩ | ⟨-, -, hfail⟩ | ⟨-, hfail⟩
  · rw [hdev, hlog]
    exact ⟨.of_same rfl rfl, Adds.refl _⟩
  · rw [heq]
    exact ⟨.of_same rfl rfl, Adds.single id _⟩
  · exact absurd rfl hevent
  · exact hclosed hfail (.inr rfl)
  · exact hclosed hfail (.inl rfl)

/-- The write handler of the serial device. -/
theorem serialWriteHandler_pausing (hclock : NonDecreasing clock) {dev : Iodev}
    (h : Pausing clock (some dev) w) (answer : Option Nat) :
    Pausing clock (some (serialWriteHandler clock answer dev w).1)
      (serialWriteHandler clock answer dev w).2 := by
  have htick := World.tick_le_expired clock dev.pacer w
  have hlog : (w.expired clock dev.pacer).2.log = w.log := by simp
  rcases serialWriteHandler_cases clock answer dev w with heq | heq | ⟨rc, -, -, heq⟩ |
    ⟨-, -, -, -, heq⟩
  · rw [heq]
    exact h
  · rw [heq]
    exact h.still (by rw [hlog]) htick fun dev' hdev' => .of_same hdev' rfl
  · rw [heq]
    -- one byte at a time
    exact h.sent hclock dev.session (Nat.min_le_right rc 1) (RingBuffer.get_contents _ _ _) rfl
      htick (htick.trans (Nat.le_succ _))
  · rw [heq]
    rcases iodevClose_setUp dev DevState.iodevNone.toNat (w.expired clock dev.pacer).2 with
      ⟨hbody, hadds⟩
    rw [hlog] at hadds
    refine h.still (hadds.mono fun _ => Ev.IsSetup.not_sent).wire ?_ ?_
    · exact htick.trans (devReaches_tick (iodevClose_reaches (p := .any) dev rfl _))
    · rintro dev' ⟨⟩
      exact .of_same rfl hbody.tbuf

/-- A handler that is called for the serial device. -/
theorem handler_pausing (hclock : NonDecreasing clock) {dev : Iodev} (hd : dev.driver = .serial)
    (h : Pausing clock (some dev) w) (event : IoEvent) (answer : IoAnswer)
    (htick : w.tick ≤ (iodevHandler clock event answer dev w).2.tick) :
    Pausing clock (some (iodevHandler clock event answer dev w).1)
      (iodevHandler clock event answer dev w).2 := by
  by_cases hevent : event = .write
  · have hhandler : iodevHandler clock event answer dev w =
        serialWriteHandler clock answer.write dev w := by
      simp only [iodevHandler, hevent, hd]
    rw [hhandler]
    exact serialWriteHandler_pausing hclock h answer.write
  · rcases handler_drains clock hevent answer dev w with ⟨hdrains, hadds⟩
    refine h.still hadds.wire htick ?_
    rintro dev' ⟨⟩
    exact hdrains

/-- A handler that is called for another device puts nothing on the wire. -/
theorem handler_offWire {dev : Iodev} (hd : dev.driver ≠ .serial)
    (hopened : ∀ driver fd, .opened driver dev.session fd ∈ w.log → dev.driver = driver)
    (event : IoEvent) (answer : IoAnswer) :
    (wireOf (iodevHandler clock event answer dev w).2.log).bytes = (wireOf w.log).bytes := by
  have hclosed : ∀ {dev' r}, FailClosed dev' w r → (wireOf r.2.log).bytes = (wireOf w.log).bytes :=
    fun hfail => (hfail.setUp.2.mono fun _ => Ev.IsSetup.not_sent).wire
  rcases iodevHandler_cases clock event answer dev w with ⟨-, hlog, -, -⟩ |
    ⟨bytes, -, -, -, heq⟩ | ⟨n, -, -, hsent⟩ | ⟨-, -, hfail⟩ | ⟨-, hfail⟩
  · rw [hlog]
  · rw [heq]
    exact Adds.wire (Adds.single id _)
  · rcases hsent.log with ⟨tick, hlog⟩
    rw [hlog]
    exact wireOf_other (fun fd hfd => hd (hopened .serial fd hfd)) _ _
  · exact hclosed hfail
  · exact hclosed hfail

/-- A call of the loops. -/
theorem call_pausing (hclock : NonDecreasing clock) (hseated : Seated (netOf s.1 s.2))
    (h : Pausing clock s.1.toList[0]? s.2) {call : Call} (hloop : call.IsLoop True s) :
    Pausing clock (call.apply clock s).1.toList[0]? (call.apply clock s).2 := by
  have htick : s.2.tick ≤ (call.apply clock s).2.tick :=
    netReaches_tick (call_reaches clock s hloop)
  have hsame : ∀ sel : Selector, sel.toList[0]? = s.1.toList[0]? →
      ∀ dev' ∈ sel.toList[0]?, Drains s.1.toList[0]? dev' := by
    intro sel hslot dev' hdev'
    rw [hslot] at hdev'
    exact .of_same hdev' rfl
  have hwire : ∀ {log}, Adds (fun ev => ¬ ev.IsTransfer) s.2.log log →
      (wireOf log).bytes = (wireOf s.2.log).bytes :=
    fun hadds => (hadds.mono fun _ => Ev.not_sent_of_not_transfer).wire
  rcases loopCall_cases clock s hloop hseated.silent with ⟨hsel, -, hadds⟩ |
    ⟨hpos, ⟨new, hsel⟩, -, hadds⟩ |
    ⟨index, answer, sets, dev, rfl, hget, heq⟩ |
    ⟨index, ptr, sets, event, answer, dev, rfl, hget, hset, heq⟩
  · exact h.still (hwire hadds) htick (hsame _ (by rw [hsel]))
  · exact h.still (hwire hadds) htick (hsame _ (by rw [hsel, selectorPlace_first hpos]))
  · rcases setMasks_setUp clock answer dev sets s.2 with ⟨hbody, hadds⟩
    rw [heq] at htick ⊢
    refine h.still (hwire (hadds.mono fun _ hev => hev.not_transfer)) htick ?_
    by_cases hindex : index = 0
    · subst hindex
      intro dev' hdev'
      rw [Selector.store_toList,
        List.getElem?_set_self (List.getElem?_eq_some_iff.mp hget).1] at hdev'
      cases hdev'
      exact .of_same hget hbody.tbuf
    · exact hsame _ (by rw [Selector.store_toList, List.getElem?_set_ne hindex])
  · -- the test is noted before the handler is called
    have hlog : (DispatchState.call ⟨index, 0, s.1, s.2⟩ ptr event dev).log = s.2.log ++
        [.deref ptr s.1.devs.block, .deref ptr s.1.devs.block,
          .called event dev.session dev.fd] := by
      simp [DispatchState.call, DispatchState.deref]
    have hnoted : Pausing clock s.1.toList[0]?
        (DispatchState.call ⟨index, 0, s.1, s.2⟩ ptr event dev) :=
      h.still (hwire ⟨_, hlog, by simp [Ev.IsTransfer]⟩) le_rfl (hsame s.1 rfl)
    have hdev := hseated.devs index dev hget
    rw [heq] at htick ⊢
    by_cases hindex : index = 0
    · subst hindex
      rw [hget] at hnoted
      rw [Selector.store_toList, List.getElem?_set_self (List.getElem?_eq_some_iff.mp hget).1]
      exact handler_pausing hclock (hdev.serial.mp rfl) hnoted event answer htick
    · refine hnoted.still (handler_offWire (fun hd => hindex (hdev.serial.mpr hd)) ?_ event
        answer) htick ?_
      · intro driver fd hmem
        rw [hlog] at hmem
        have hold : .opened driver dev.session fd ∈ s.2.log := by simpa using hmem
        exact hdev.driver driver fd hold
      · intro dev' hdev'
        rw [Selector.store_toList, List.getElem?_set_ne hindex] at hdev'
        exact .of_same hdev' rfl

theorem selectorRound_pausing (hclock : NonDecreasing clock) {a : RoundAnswers} {sets : FdSets}
    {sel : Selector} (hseated : Seated (netOf sel w))
    (h : Pausing clock sel.toList[0]? w) :
    Pausing clock (selectorRound clock a sets sel w).2.2.1.toList[0]?
      (selectorRound clock a sets sel w).2.2.2 := by
  have hcalls := selectorRound_loop clock a sets sel w
  refine (hcalls.preserves (fun s : Selector × World => Seated (netOf s.1 s.2) ∧
    Pausing clock s.1.toList[0]? s.2) ?_ ⟨hseated, h⟩).2
  rintro s call ⟨hseated, h⟩ hloop
  exact ⟨netReaches_seated hseated (call_reaches clock s hloop), call_pausing hclock hseated h hloop⟩

end Round

/-! ## A cycle -/

/-- A command of the connection is to be handed on. -/
def Due (clock : Nat → UTime) (lastCommand : Microtimer) (dev : Iodev) (w : World) : Prop :=
  (w.expired clock lastCommand).1 = true ∧ Lines.next isEol dev.lineContents ≠ none

/-- The serial device has nothing to send, and if the last byte on the wire has ended a command, the
pause has passed since. -/
def Rested (clock : Nat → UTime) (serial : Iodev) (w : World) : Prop :=
  serial.tbuf.used = 0 ∧ ∀ last, (wireOf w.log).bytes.getLast? = some last → isEol last.1 →
    (clock last.2).toNat + commandPace.toNat ≤ (clock w.tick).toNat

instance (clock : Nat → UTime) (serial : Iodev) (w : World) :
    Decidable (Rested clock serial w) := by
  delta Rested
  infer_instance

/-- The condition on a call of `hdmi2usb_process_client_commands`. -/
def CallRests (clock : Nat → UTime) (lastCommand : Microtimer) (serial dev : Iodev) (w : World) :
    Prop :=
  Due clock lastCommand dev w → iodevIsOpen serial → Rested clock serial w

instance (clock : Nat → UTime) (lastCommand : Microtimer) (serial dev : Iodev) (w : World) :
    Decidable (CallRests clock lastCommand serial dev w) :=
  inferInstanceAs (Decidable (_ ∧ _ → _ → _))

/-- The condition on a turn of the loop of `hdmi2usb_process`. -/
def TurnRests (clock : Nat → UTime) (sBytes : Nat) (s : ProcessState) (index : Nat) : Prop :=
  ∀ serial, selectorGetDevice s.app.selector 0 = some serial →
    ∀ dev, selectorGetDevice s.app.selector index = some dev → iodevIsListener dev = false →
      let copied := copySerialData s.app.copy sBytes dev s.world
      CallRests clock s.app.lastCommand serial (hdmi2usbProcessClientData copied.1) copied.2

instance (clock : Nat → UTime) (sBytes : Nat) (s : ProcessState) (index : Nat) :
    Decidable (TurnRests clock sBytes s index) := by
  delta TurnRests
  infer_instance

/-- The condition on a process cycle. -/
def CycleRests (clock : Nat → UTime) (app : Hdmi2usb) (w : World) : Prop :=
  ∀ serial, selectorGetDevice app.selector 0 = some serial → serial.state ≠ .iodevInactive →
    let r := hdmi2usbProcessSerialData app.copy serial w
    Along (processStep clock r.1) (TurnRests clock r.1)
      ⟨{ app with selector := app.selector.store 0 r.2.2.1, copy := r.2.1 }, r.2.2.2, 0, 0⟩
      (List.range' 1 (selectorDeviceCount app.selector - 1))

instance (clock : Nat → UTime) (app : Hdmi2usb) (w : World) :
    Decidable (CycleRests clock app w) := by
  delta CycleRests
  infer_instance

section Cycle

variable {lastCommand : Microtimer} {serial : Iodev}

/-- A command gets into the buffer of a rested device. -/
theorem Pausing.queue (h : Pausing clock (some serial) w) (hrested : Rested clock serial w)
    {serial' : Iodev} (hone : OneCommand serial'.tbuf.contents)
    (hwire : (wireOf w'.log).bytes = (wireOf w.log).bytes) (htick : w.tick < w'.tick) :
    Pausing clock (some serial') w' := by
  refine ⟨by rw [hwire]; exact h.apart, ?_, ?_⟩
  · rintro dev' ⟨⟩
    exact hone
  · rintro dev' ⟨⟩ - last hlast hend
    rw [hwire] at hlast
    exact ⟨w.tick, htick, hrested.2 last hlast hend⟩

theorem clientCommands_pausing {dev : Iodev} (h : Pausing clock (some serial) w)
    (hrests : CallRests clock lastCommand serial dev w) :
    Pausing clock (some (hdmi2usbProcessClientCommands clock lastCommand serial dev w).2.1)
      (hdmi2usbProcessClientCommands clock lastCommand serial dev w).2.2.2 := by
  have hlater := World.tick_le_expired clock lastCommand w
  rcases clientCommands_cases clock lastCommand serial dev w with
    ⟨-, heq⟩ | ⟨line, rest, dev', hexp, hnext, heq, -, -⟩
  · rw [heq]
    have hlog : (w.expired clock lastCommand).2.log = w.log := by simp
    exact h.still (by rw [hlog]) hlater fun dev' hdev' => .of_same hdev' rfl
  · rw [heq]
    have hlog : (((w.expired clock lastCommand).2.reset clock commandPace).2.record
        (.handed dev.session line (w.checkedAt clock lastCommand)
          ((w.expired clock lastCommand).2.reset clock commandPace).1.tStarted)).log = w.log ++
        [.handed dev.session line (w.checkedAt clock lastCommand)
          ((w.expired clock lastCommand).2.reset clock commandPace).1.tStarted] := by
      simp
    have hwire := Adds.wire ⟨_, hlog, by simp [Ev.IsSent]⟩
    -- the reset of the timer takes a reading
    have htick : w.tick < (w.expired clock lastCommand).2.tick + 1 := Nat.lt_succ_of_le hlater
    by_cases hopen : iodevIsOpen serial
    · have hrested := hrests ⟨hexp, Option.ne_none_iff_exists'.mpr ⟨_, hnext⟩⟩ hopen
      have hempty : serial.tbuf.contents = [] := by
        rw [← List.length_eq_zero_iff, RingBuffer.length_contents]
        exact hrested.1
      refine h.queue hrested ?_ hwire htick
      rw [iodevWrite_tbuf hopen, hempty, List.nil_append]
      exact oneCommand_take (Lines.next_spec hnext).1 _
    · -- the command is dropped
      rw [iodevWrite_closed hopen]
      exact h.still hwire htick.le fun dev' hdev' => .of_same hdev' rfl

theorem copySerialData_wire (copy : RingBuffer) (sBytes : Nat) (dev : Iodev) (w : World) :
    (wireOf (copySerialData copy sBytes dev w).2.log).bytes = (wireOf w.log).bytes := by
  rcases copySerialData_spec copy sBytes dev w with ⟨tbuf, evs, heq, hevs⟩
  rw [heq]
  refine Adds.wire ⟨evs, rfl, ?_⟩
  rcases hevs with ⟨-, rfl⟩ | ⟨-, rfl⟩
  · simp
  · simp [Ev.IsSent]

theorem processStep_pausing (sBytes : Nat) {s : ProcessState} {index : Nat} (hpos : 1 ≤ index)
    (h : Pausing clock s.app.selector.toList[0]? s.world)
    (hrests : TurnRests clock sBytes s index) :
    Pausing clock (processStep clock sBytes s index).app.selector.toList[0]?
      (processStep clock sBytes s index).world := by
  unfold processStep
  split
  · next serial dev hserial hdev =>
    split
    · exact h
    · next hconn =>
      have hslot := hserial
      rw [selectorGetDevice_eq] at hslot
      have hlt := (List.getElem?_eq_some_iff.mp hslot).1
      have hcalls := hrests serial hserial dev hdev (by simpa using hconn)
      have htick := copySerialData_tick s.app.copy sBytes dev s.world
      have hcopied :
          Pausing clock (some serial) (copySerialData s.app.copy sBytes dev s.world).2 := by
        rw [hslot] at h
        exact h.still (copySerialData_wire _ _ _ _) htick.ge fun dev' hdev' => .of_same hdev' rfl
      have hcommands := clientCommands_pausing hcopied hcalls
      dsimp only
      rw [Selector.store_toList, Selector.store_toList, List.getElem?_set_ne (by omega),
        List.getElem?_set_self hlt]
      exact hcommands
  · exact h

theorem hdmi2usbProcess_pausing {app : Hdmi2usb} (rc : Int)
    (h : Pausing clock app.selector.toList[0]? w) (hrests : CycleRests clock app w) :
    Pausing clock (hdmi2usbProcess clock app rc w).2.1.selector.toList[0]?
      (hdmi2usbProcess clock app rc w).2.2 := by
  rcases hdmi2usbProcess_cases clock app rc w with ⟨happ, hw, -⟩ |
    ⟨serial, hs, hactive, final, hfinal, happ, hw⟩
  · rw [happ, hw]
    exact h
  · have hget := hs
    rw [← selectorGetDevice_eq] at hget
    have halong := hrests serial hget hactive
    have hlt := (List.getElem?_eq_some_iff.mp hs).1
    rcases processSerialData_shape app.copy serial w with ⟨rbuf, evs, hserial, hworld, hevs⟩
    have hstart : Pausing clock
        (app.selector.store 0 (hdmi2usbProcessSerialData app.copy serial w).2.2.1).toList[0]?
        (hdmi2usbProcessSerialData app.copy serial w).2.2.2 := by
      rw [hs] at h
      rw [Selector.store_toList, List.getElem?_set_self hlt, hserial, hworld]
      refine h.still (Adds.wire ⟨evs, rfl, ?_⟩) le_rfl ?_
      · intro ev hev
        rcases hevs ev hev with ⟨bytes, rfl⟩
        exact id
      · rintro dev' ⟨⟩
        exact .of_same rfl rfl
    -- the loop does not come to the serial device
    have hindices : ∀ index ∈ List.range' 1 (selectorDeviceCount app.selector - 1), 1 ≤ index :=
      fun index hindex => (List.mem_range'_1.mp hindex).1
    rw [happ, hw, hfinal]
    exact Machine.run_invariant_along
      (fun s : ProcessState => Pausing clock s.app.selector.toList[0]? s.world)
      (fun s index hs hindex => processStep_pausing _ hindex.2 hs hindex.1) hstart
      (halong.and (Machine.along_of_mem hindices))

end Cycle

/-! ## A run -/

/-- The condition on a step: when a process cycle hands a command on, the serial device has
rested. -/
def Rests (clock : Nat → UTime) (d : Daemon) : Input → Prop
  | .check _ =>
    d.pc = .check → NoSignal d.signalReceived →
      CycleRests clock d.app (d.world.record .processed)
  | _ => True

instance (clock : Nat → UTime) (d : Daemon) : ∀ i, Decidable (Rests clock d i)
  | .check _ => inferInstanceAs (Decidable (_ → _ ∧ _ → CycleRests _ _ _))
  | .round _ | .signal _ => .isTrue trivial

/-- The invariant of a run. -/
structure Daemon.Pauses (clock : Nat → UTime) (d : Daemon) : Prop where
  seated : Seated (netOf d.app.selector d.world)
  pausing : Pausing clock d.app.selector.toList[0]? d.world

/-- What `hdmi2usb_init` makes has nothing to send. -/
theorem hdmi2usbInit_drains {a : InitAnswers} {app app' : Hdmi2usb} {rc rc' : Int}
    (hinit : hdmi2usbInit clock a app rc w = some (rc', app', w')) (serial : Option Iodev) :
    ∀ dev ∈ app'.selector.toList[0]?, Drains serial dev := by
  intro dev hdev
  refine .inl (hdmi2usbInit_each clock (P := fun dev => dev.tbuf.contents = []) ?_ ?_ hinit dev
    (List.mem_of_getElem? hdev))
  · exact RingBuffer.init_contents _
  · exact fun _ => RingBuffer.init_contents _

theorem Daemon.Pauses.step (hclock : NonDecreasing clock) {d : Daemon} {i : Input}
    (h : d.Pauses clock) (hrests : Rests clock d i) : (d.step clock i).Pauses clock := by
  refine ⟨step_seated clock d i h.seated, ?_⟩
  have hmark : ∀ ev : Ev, ev.isMark = true →
      Pausing clock d.app.selector.toList[0]? (d.world.record ev) := by
    intro ev hev
    have hsent : ¬ ev.IsSent := by cases ev <;> first | exact id | cases hev
    exact h.pausing.still (Adds.wire (Adds.single hsent _)) le_rfl
      fun dev' hdev' => .of_same hdev' rfl
  rcases d.step_cases clock i with ⟨happ, hw⟩ | ⟨a, -, -, hd⟩ | ⟨a, -, -, -, hd⟩ |
    ⟨a, rfl, hpc, hno, happ, hw⟩ | ⟨sig, -, happ, hw⟩
  · rw [happ, hw]
    exact h.pausing
  · rw [hd]
    exact selectorRound_pausing hclock h.seated h.pausing
  · rw [hd]
    rcases Daemon.initialise_cases clock { d with world := d.world.record .reloaded } exSuccess a
      with ⟨happ, hw⟩ | ⟨rc, app, w, hinit, happ, hw⟩
    · rw [happ, hw]
      exact hmark .reloaded rfl
    · rw [happ, hw]
      rcases hdmi2usbInit_spec hinit with ⟨-, -, -, -, -, -, hlog⟩
      exact (hmark .reloaded rfl).still (by rw [hlog]) (hdmi2usbInit_tick clock hinit)
        (hdmi2usbInit_drains hinit _)
  · rw [happ, hw]
    exact hdmi2usbProcess_pausing 0 (hmark .processed rfl) (hrests hpc hno)
  · rw [happ, hw]
    exact hmark (.signalled sig.toNat) rfl

theorem start_pauses (clock : Nat → UTime) (iobufsize : Nat) (a : InitAnswers) :
    (Daemon.start clock iobufsize a).Pauses clock := by
  refine ⟨start_seated clock iobufsize a, ?_⟩
  unfold Daemon.start
  generalize hbefore : Daemon.mk _ _ _ _ _ = d
  have hd : Pausing clock d.app.selector.toList[0]? d.world := by
    rw [← hbefore]
    exact ⟨List.isChain_nil, by simp, by simp⟩
  rcases Daemon.initialise_cases clock d 0 a with ⟨happ, hw⟩ | ⟨rc, app, w, hinit, happ, hw⟩
  · rw [happ, hw]
    exact hd
  · rw [happ, hw]
    rcases hdmi2usbInit_spec hinit with ⟨-, -, -, -, -, -, hlog⟩
    exact hd.still (by rw [hlog]) (hdmi2usbInit_tick clock hinit) (hdmi2usbInit_drains hinit _)

/-- On a clock that does not go back, and whatever the clients send and whenever the descriptor
takes a byte: in a run in which no command is handed on before the serial device has rested, the
first byte of each command is written a full pause after the last byte of the one before. -/
theorem commands_paused (hclock : NonDecreasing clock) (iobufsize : Nat) (a : InitAnswers)
    (inputs : List Input)
    (h : Along (Daemon.step clock) (Rests clock) (Daemon.start clock iobufsize a) inputs) :
    (wireOf (run (Daemon.step clock) (Daemon.start clock iobufsize a) inputs).world.log).bytes.IsChain
      (Pause clock) :=
  (Machine.run_invariant_along (Daemon.Pauses clock) (fun _ _ hd hrests => hd.step hclock hrests)
    (start_pauses clock iobufsize a) h).pausing.apart

/-- A clock that advances at three moments. -/
def steppedClock (first second third : UTime) (n : Nat) : UTime :=
  if n < 2 then 1 else if n < 3 then first else if n < 5 then second else third

theorem steppedClock_nonDecreasing {first second third : UTime} (h : 1 ≤ first.toNat)
    (h' : first.toNat ≤ second.toNat) (h'' : second.toNat ≤ third.toNat) :
    NonDecreasing (steppedClock first second third) := by
  have hone : (1 : UTime).toNat = 1 := rfl
  intro m n hle
  unfold steppedClock
  split_ifs <;> omega

/-- The serial descriptor takes a byte. -/
def writableTurn : Input := Daemon.turn ⟨∅, {3}, ∅⟩ ⟨none, none, some 1⟩

/-- A client sends two commands at once. The two bytes of the first are written after it has been
handed on, and the first byte of the second after that has been. -/
def twoOnWire : List Input :=
  Daemon.firstConnection ++
    [Daemon.turn ⟨{5}, ∅, ∅⟩ ⟨some [97, 10, 98, 10], none, none⟩, Daemon.quietTurn,
      .check Daemon.oneAddress, writableTurn, writableTurn, Daemon.quietTurn,
      .check Daemon.oneAddress, writableTurn]

/-- The log of that run. -/
def twoOnWireLog (clock : Nat → UTime) : List Ev :=
  (run (Daemon.step clock) (Daemon.start clock 64 Daemon.oneAddress) twoOnWire).world.log

/-- The descriptor takes both bytes within 10 ms, and the second command is handed on 500 ms
later. -/
theorem commands_paused_prompt :
    (wireOf (twoOnWireLog (steppedClock 5001 10001 510001))).bytes = [(97, 2), (10, 4), (98, 8)] ∧
      (wireOf (twoOnWireLog (steppedClock 5001 10001 510001))).bytes.IsChain
        (Pause (steppedClock 5001 10001 510001)) :=
  ⟨by decide +kernel, commands_paused
    (steppedClock_nonDecreasing (by decide) (by decide) (by decide)) 64 Daemon.oneAddress twoOnWire
    (by decide +kernel)⟩

/-- The descriptor takes no byte for 490 ms: the second command follows the first within 5 ms. -/
theorem stalled_command_not_paused :
    (wireOf (twoOnWireLog (steppedClock 490001 495001 500001))).bytes =
        [(97, 2), (10, 4), (98, 8)] ∧
      (steppedClock 490001 495001 500001 8).toNat =
        (steppedClock 490001 495001 500001 3).toNat + 5000 ∧
      ¬ ∀ clock, NonDecreasing clock → ∀ iobufsize a inputs,
        (wireOf (run (Daemon.step clock) (Daemon.start clock iobufsize a) inputs).world.log).bytes.IsChain
          (Pause clock) := by
  refine ⟨by decide +kernel, by decide, ?_⟩
  intro h
  have hpaused := h (steppedClock 490001 495001 500001)
    (steppedClock_nonDecreasing (by decide) (by decide) (by decide)) 64 Daemon.oneAddress twoOnWire
  revert hpaused
  decide +kernel

end Hdmi2usbd
