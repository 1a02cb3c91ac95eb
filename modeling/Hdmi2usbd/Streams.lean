import Hdmi2usbd.Broadcast
import Hdmi2usbd.Delivery
import Hdmi2usbd.Loops
import Hdmi2usbd.Turns

/-!
# Streams — what each connection is sent, and what it has sent, in every run

For every connection that was ever accepted, what `write` has taken is the beginning of what was
copied to it while it was open, and what has been handed on is the beginning, line by line, of what
`read` has returned. While it is open, the rest of the one is in its send buffer and the rest of the
other is stored in its device (`run_streams`). No failure, reload or reuse of a slot mixes up the
bytes of two connections.
-/

namespace Hdmi2usbd

open Machine (run)

/-! ## What the log says of a session -/

/-- Events that count in the streams of a session. -/
def Ev.Concerns (session : Nat) : Ev → Prop
  | .opened .accepted s _ | .closed s _ | .received s _ | .sent s _ _ | .copied s _
  | .handed s _ _ _ => s = session
  | _ => False

/-- Two logs in which the streams of a session are the same. -/
structure SameTally (session : Nat) (log log' : List Ev) : Prop where
  live : (spanOf session log').live = (spanOf session log).live
  copied : (spanOf session log').copied = (spanOf session log).copied
  sent : sentOf session log' = sentOf session log
  received : receivedOf session log' = receivedOf session log
  handed : handedOf session log' = handedOf session log

variable {session : Nat} {log log' log'' : List Ev}

theorem SameTally.refl (session : Nat) (log : List Ev) : SameTally session log log :=
  ⟨rfl, rfl, rfl, rfl, rfl⟩

theorem SameTally.trans (h : SameTally session log log') (h' : SameTally session log' log'') :
    SameTally session log log'' :=
  ⟨h'.live.trans h.live, h'.copied.trans h.copied, h'.sent.trans h.sent,
    h'.received.trans h.received, h'.handed.trans h.handed⟩

theorem SameTally.single {ev : Ev} (h : ¬ ev.Concerns session) (log : List Ev) :
    SameTally session log (log ++ [ev]) := by
  have hspan : spanOf session (log ++ [ev]) = Span.step session (spanOf session log) ev :=
    spanOf_append session log [ev]
  cases ev with
  | opened driver s fd =>
    cases driver with
    | serial | listen =>
      exact ⟨by rw [hspan]; rfl, by rw [hspan]; rfl, by simp [sentOf], by simp [receivedOf],
        by simp [handedOf]⟩
    | accepted =>
      have hne : s ≠ session := h
      exact ⟨by simp [hspan, Span.step, hne], by simp [hspan, Span.step, hne], by simp [sentOf],
        by simp [receivedOf], by simp [handedOf]⟩
  | closed s | received s | sent s | copied s | handed s =>
    have hne : s ≠ session := h
    refine ⟨?_, ?_, by simp [sentOf, hne], by simp [receivedOf, hne], by simp [handedOf, hne]⟩
    all_goals simp [hspan, Span.step, hne]
  | moved bytes =>
    refine ⟨?_, ?_, by simp [sentOf], by simp [receivedOf], by simp [handedOf]⟩
    all_goals
      rw [hspan, Span.step]
      split <;> rfl
  | _ =>
    exact ⟨by rw [hspan]; rfl, by rw [hspan]; rfl, by simp [sentOf], by simp [receivedOf],
      by simp [handedOf]⟩

/-- Events about other sessions, or about none. -/
theorem Adds.sameTally (h : Adds (fun ev => ¬ ev.Concerns session) log log') :
    SameTally session log log' := by
  rcases h with ⟨evs, rfl, hevs⟩
  induction evs using List.reverseRecOn with
  | nil =>
    rw [List.append_nil]
    exact SameTally.refl session log
  | append_singleton evs ev ih =>
    have hlast := SameTally.single (hevs ev (by simp)) (log ++ evs)
    rw [List.append_assoc] at hlast
    exact (ih fun ev' hev' => hevs ev' (by simp [hev'])).trans hlast

theorem Accounts.of_tally {rest : List UInt8} (h : Accounts session log rest)
    (hsame : SameTally session log log') : Accounts session log' rest := by
  rw [Accounts, hsame.received, hsame.handed]
  exact h

/-! ## One connection -/

/-- The streams of the device of a connection. Of what was copied to it, what has not been sent is
in its send buffer; of what was read, what has not been handed on is stored, or was dropped when
the connection closed. -/
structure Streams (log : List Ev) (dev : Iodev) : Prop where
  output : iodevIsOpen dev → (spanOf dev.session log).live ∧
    sentOf dev.session log ++ dev.tbuf.contents = (spanOf dev.session log).copied
  input : ∃ dropped, (iodevIsOpen dev → dropped = []) ∧
    Accounts dev.session log (dev.stored ++ dropped)

/-- The streams of a connection, whether it still has a device or not. -/
structure Past (session : Nat) (log : List Ev) : Prop where
  output : sentOf session log <+: (spanOf session log).copied
  input : ∃ rest, Accounts session log rest

theorem Streams.of_tally {dev dev' : Iodev} (h : Streams log dev)
    (hsame : SameTally dev.session log log') (hsession : dev'.session = dev.session)
    (htbuf : dev'.tbuf = dev.tbuf) (hstored : dev'.stored = dev.stored)
    (hopen : iodevIsOpen dev' → iodevIsOpen dev) : Streams log' dev' := by
  constructor
  · intro hopen'
    rw [hsession, htbuf, hsame.live, hsame.sent, hsame.copied]
    exact h.output (hopen hopen')
  · rcases h.input with ⟨dropped, hdropped, haccount⟩
    rw [hsession, hstored]
    exact ⟨dropped, fun hopen' => hdropped (hopen hopen'), haccount.of_tally hsame⟩

theorem Past.of_tally (h : Past session log) (hsame : SameTally session log log') :
    Past session log' := by
  constructor
  · rw [hsame.sent, hsame.copied]
    exact h.output
  · rcases h.input with ⟨rest, haccount⟩
    exact ⟨rest, haccount.of_tally hsame⟩

/-! ## All connections -/

/-- The books of all connections, and of the sessions to come. -/
structure Booked (n : Net) : Prop where
  streams : ∀ dev ∈ n.devs, dev.driver = .accepted → Streams n.world.log dev
  past : ∀ session fd, .opened .accepted session fd ∈ n.world.log → Past session n.world.log
  fresh : ∀ session, n.world.opens < session → SameTally session [] n.world.log

namespace Booked

variable {n : Net} {w' : World}

/-- A device changes together with the streams of its session. -/
theorem set (h : Booked n) (hseated : Seated n) {index : Nat} {dev dev' : Iodev}
    (hget : n.devs[index]? = some dev) (hopens : n.world.opens ≤ w'.opens)
    (hopened : ∀ session fd, .opened .accepted session fd ∈ w'.log →
      .opened .accepted session fd ∈ n.world.log)
    (hother : ∀ session, session ≠ dev.session → SameTally session n.world.log w'.log)
    (hstreams : dev'.driver = .accepted → Streams w'.log dev')
    (hpast : dev.driver = .accepted → Past dev.session n.world.log → Past dev.session w'.log) :
    Booked ⟨n.devs.set index dev', w'⟩ := by
  constructor
  · intro x hx hacc
    rcases List.mem_iff_getElem?.mp hx with ⟨j, hj⟩
    rcases Slots.getElem?_set_cases hj with ⟨-, rfl⟩ | ⟨hne, hold⟩
    · exact hstreams hacc
    · have hsame := hother x.session (hseated.session_ne hne hold hget hacc)
      exact (h.streams x (List.mem_of_getElem? hold) hacc).of_tally hsame rfl rfl rfl id
  · intro session fd hmem
    have hold := hopened session fd hmem
    by_cases hsession : session = dev.session
    · subst hsession
      exact hpast ((hseated.devs index dev hget).driver _ fd hold) (h.past _ fd hold)
    · exact (h.past session fd hold).of_tally (hother session hsession)
  · intro session hlt
    have hnew := (hseated.devs index dev hget).session
    have hlt' : w'.opens < session := hlt
    exact (h.fresh session (by omega)).trans (hother session (by omega))

/-- The streams of no session change. -/
theorem still (h : Booked n) (hseated : Seated n) {index : Nat} {dev dev' : Iodev}
    (hget : n.devs[index]? = some dev) (hopens : n.world.opens ≤ w'.opens)
    (hopened : ∀ session fd, .opened .accepted session fd ∈ w'.log →
      .opened .accepted session fd ∈ n.world.log)
    (hsame : ∀ session, SameTally session n.world.log w'.log)
    (hstreams : dev'.driver = .accepted → dev.driver = .accepted ∧ dev'.session = dev.session ∧
      dev'.tbuf = dev.tbuf ∧ dev'.stored = dev.stored ∧ (iodevIsOpen dev' → iodevIsOpen dev)) :
    Booked ⟨n.devs.set index dev', w'⟩ := by
  refine h.set hseated hget hopens hopened (fun session _ => hsame session) ?_
    (fun _ hpast => hpast.of_tally (hsame _))
  intro hacc
  rcases hstreams hacc with ⟨hold, hsession, htbuf, hstored, hopen⟩
  exact (h.streams dev (List.mem_of_getElem? hget) hold).of_tally (hsame _) hsession htbuf hstored
    hopen

/-- The log goes on, and the devices stay. -/
theorem of_world (h : Booked n) (hopens : n.world.opens ≤ w'.opens)
    (hopened : ∀ session fd, .opened .accepted session fd ∈ w'.log →
      .opened .accepted session fd ∈ n.world.log)
    (hsame : ∀ session, SameTally session n.world.log w'.log) : Booked ⟨n.devs, w'⟩ := by
  constructor
  · intro dev hdev hacc
    exact (h.streams dev hdev hacc).of_tally (hsame _) rfl rfl rfl id
  · intro session fd hmem
    exact (h.past session fd (hopened session fd hmem)).of_tally (hsame session)
  · intro session hlt
    exact (h.fresh session (Nat.lt_of_le_of_lt hopens hlt)).trans (hsame session)

end Booked

/-! ## Rounds -/

theorem Ev.IsNote.not_concerns {ev : Ev} (h : ev.IsNote) (session : Nat) :
    ¬ ev.Concerns session := by
  cases ev with
  | registered | deref | called => exact id
  | _ => exact absurd h id

/-- An event that opens no connection. -/
theorem opened_of_snoc {ev : Ev}
    (hev : ∀ session fd, ev ≠ .opened .accepted session fd) (log : List Ev) :
    ∀ session fd, .opened .accepted session fd ∈ log ++ [ev] →
      .opened .accepted session fd ∈ log := by
  intro session fd hmem
  refine (List.mem_append.mp hmem).resolve_right ?_
  intro hlast
  exact hev session fd (List.mem_singleton.mp hlast).symm

/-- What an open device receives is stored behind what it has stored before. -/
theorem Streams.received {dev : Iodev} (h : Streams log dev) (hopen : iodevIsOpen dev)
    {bytes : List UInt8} (hroom : bytes.length ≤ dev.rbuf.available) :
    Streams (log ++ [.received dev.session bytes]) { dev with rbuf := (dev.rbuf.put bytes).2 } := by
  have hspan : spanOf dev.session (log ++ [.received dev.session bytes]) = spanOf dev.session log :=
    spanOf_append _ _ _
  constructor
  · intro _
    have hsent : sentOf dev.session [.received dev.session bytes] = [] := rfl
    simp only [hspan, sentOf_append, hsent, List.append_nil]
    exact h.output hopen
  · rcases h.input with ⟨dropped, hdropped, haccount⟩
    rw [hdropped hopen, List.append_nil] at haccount
    refine ⟨[], fun _ => rfl, ?_⟩
    have hstored : ({ dev with rbuf := (dev.rbuf.put bytes).2 } : Iodev).stored =
        dev.stored ++ bytes := by
      simp [Iodev.stored, Iodev.lineContents, List.take_of_length_le hroom]
    rw [hstored, List.append_nil]
    exact haccount.received bytes

/-- What an open device writes leaves its send buffer. -/
theorem Streams.sent {dev : Iodev} (h : Streams log dev) (hopen : iodevIsOpen dev) {k : Nat}
    {w : World} {r : Iodev × World} (hlog : w.log = log) (hsent : Sent dev k w r) :
    Streams r.2.log r.1 := by
  rcases hsent with ⟨⟨pacer, hdev⟩, ⟨tick, hsent⟩, -, -⟩
  rw [hlog] at hsent
  have hspan : spanOf dev.session r.2.log = spanOf dev.session log := by
    rw [hsent, spanOf_append]
    rfl
  rw [hdev]
  constructor
  · intro _
    rcases h.output hopen with ⟨hlive, hcopied⟩
    rw [hspan, ← hcopied, hsent]
    refine ⟨hlive, ?_⟩
    simp [sentOf]
  · rcases h.input with ⟨dropped, hdropped, haccount⟩
    refine ⟨dropped, fun _ => hdropped hopen, ?_⟩
    rw [hsent]
    exact haccount.append ⟨rfl, rfl⟩

/-- A closed device: what it dropped is not handed on any more. -/
theorem Streams.closed {dev dev' : Iodev} (h : Streams log dev) (hclosed : ¬ iodevIsOpen dev')
    (hsession : dev'.session = dev.session) {dropped : List UInt8}
    (hstored : dev.stored = dev'.stored ++ dropped) {evs : List Ev}
    (hevs : Silent dev.session evs) : Streams (log ++ evs) dev' := by
  constructor
  · intro hopen
    exact absurd hopen hclosed
  · rcases h.input with ⟨more, -, haccount⟩
    refine ⟨dropped ++ more, fun hopen => absurd hopen hclosed, ?_⟩
    rw [hsession, ← List.append_assoc, ← hstored]
    exact haccount.append hevs

/-- The connection is in the books from its accept on. -/
theorem Booked.accept {n : Net} (h : Booked n) {fd bufsize : Nat} {devs' : List Iodev} {w' : World}
    (hopens : w'.opens = n.world.opens + 1)
    (hlog : w'.log = n.world.log ++ [.opened .accepted (n.world.opens + 1) fd])
    (hfrom : ∀ dev ∈ devs', dev = tcpCreateAccepted (n.world.opens + 1) fd bufsize ∨ dev ∈ n.devs)
    (hseated : Seated n) : Booked ⟨devs', w'⟩ := by
  have hother : ∀ session, session ≠ n.world.opens + 1 → SameTally session n.world.log w'.log := by
    intro session hne
    rw [hlog]
    exact SameTally.single (by intro heq; exact hne (Eq.symm heq)) _
  -- so far the new session has read and written nothing
  have hnew := h.fresh (n.world.opens + 1) (Nat.lt_succ_self _)
  have hspan : spanOf (n.world.opens + 1) w'.log =
      { spanOf (n.world.opens + 1) n.world.log with live := true } := by
    rw [hlog, spanOf_append]
    simp [Span.step]
  have hsent : sentOf (n.world.opens + 1) w'.log = [] := by
    rw [hlog, sentOf_append, hnew.sent]
    rfl
  have hcopied : (spanOf (n.world.opens + 1) w'.log).copied = [] := by
    rw [hspan]
    exact hnew.copied
  have haccount : Accounts (n.world.opens + 1) w'.log [] := by
    rw [hlog]
    refine Accounts.append ⟨?_, ?_⟩ ⟨rfl, rfl⟩
    · rw [hnew.received, hnew.handed]
      rfl
    · rw [hnew.handed]
      intro line hline
      cases hline
  constructor
  · intro dev hdev hacc
    rcases hfrom dev hdev with rfl | hold
    · have hsession : (tcpCreateAccepted (n.world.opens + 1) fd bufsize).session =
          n.world.opens + 1 := rfl
      have hempty : (tcpCreateAccepted (n.world.opens + 1) fd bufsize).tbuf.contents = [] ∧
          (tcpCreateAccepted (n.world.opens + 1) fd bufsize).stored = [] := by
        simp [Iodev.stored, Iodev.lineContents, tcpCreateAccepted, tcpAccept, tcpCreate, iodevInit]
      constructor
      · intro _
        rw [hsession, hempty.1, hsent, hcopied, hspan]
        exact ⟨rfl, rfl⟩
      · refine ⟨[], fun _ => rfl, ?_⟩
        rw [hsession, hempty.2]
        exact haccount
    · rcases List.mem_iff_getElem?.mp hold with ⟨index, hget⟩
      have hsession := (hseated.devs index dev hget).session
      exact (h.streams dev hold hacc).of_tally (hother _ (by omega)) rfl rfl rfl id
  · intro session fd' hmem
    by_cases hsession : session = n.world.opens + 1
    · subst hsession
      refine ⟨?_, [], haccount⟩
      rw [hsent]
      exact List.nil_prefix
    · refine (h.past session fd' ?_).of_tally (hother session hsession)
      rw [hlog] at hmem
      refine (List.mem_append.mp hmem).resolve_right ?_
      intro hlast
      cases List.mem_singleton.mp hlast
      exact hsession rfl
  · intro session hlt
    have hlt' : w'.opens < session := hlt
    exact (h.fresh session (by omega)).trans (hother session (by omega))

/-- Any action but a write. -/
theorem netAct_booked {n : Net} {a : NetAct} (h : Booked n) (hseated : Seated n) (hok : a.Ok .any n)
    (hsends : ¬ a.Sends) : Booked (a.apply n) := by
  cases a with
  | lost index a =>
    rcases netAct_lost hok with ⟨dev, w, ev, hget, hlisten, heq, hopens, -, hlog, hev⟩
    rcases hev with ⟨rfl, -, rfl⟩ | ⟨k, rfl, -⟩
    swap
    · exact absurd trivial hsends
    -- it is the session of a listener
    have hset : Booked ⟨n.devs.set index dev, w⟩ := by
      refine h.set hseated hget (Nat.le_of_eq hopens.symm) ?_ ?_ ?_ ?_
      · rw [hlog]
        exact opened_of_snoc (by simp) _
      · intro session hne
        rw [hlog]
        exact SameTally.single (by intro heq; exact hne (Eq.symm heq)) _
      · simp [hlisten]
      · simp [hlisten]
    rwa [heq, ← Slots.set_self hget]
  | note ev =>
    refine h.of_world le_rfl (opened_of_snoc ?_ _) fun session => ?_
    · rintro session fd rfl
      exact hok
    · exact SameTally.single (Ev.IsNote.not_concerns hok session) _
  | accept fd bufsize slot =>
    exact h.accept rfl rfl (fun _ hdev => mem_devs_accept hdev) hseated
  | device index a =>
    rcases hok with ⟨dev, hget, hok⟩
    simp only [NetAct.apply, hget]
    have hmem := List.mem_of_getElem? hget
    cases a with
    | sent k => exact absurd trivial hsends
    | tick | pace pacer =>
      exact h.still hseated hget le_rfl (fun _ _ => id) (fun session => SameTally.refl session _)
        fun hacc => ⟨hacc, rfl, rfl, rfl, id⟩
    | refused | retired =>
      exact h.still hseated hget le_rfl (fun _ _ => id) (fun session => SameTally.refl session _)
        fun hacc => ⟨hacc, rfl, rfl, rfl, fun hopen => by cases hopen⟩
    | note ev =>
      refine h.still hseated hget le_rfl (opened_of_snoc ?_ _)
        (fun session => SameTally.single (Ev.IsNote.not_concerns hok session) _)
        fun hacc => ⟨hacc, rfl, rfl, rfl, id⟩
      rintro session fd rfl
      exact hok
    | opened fd state =>
      -- the serial device or a listener
      have hdriver := hok.2.1
      refine h.still hseated hget (Nat.le_succ _) (opened_of_snoc ?_ _) (fun session => ?_)
        fun hacc => absurd hacc hdriver
      · intro session fd' heq
        exact hdriver (Ev.opened.inj heq).1
      · refine SameTally.single ?_ _
        cases hd : dev.driver with
        | serial | listen => exact id
        | accepted => exact absurd hd hdriver
    | released =>
      refine h.set hseated hget le_rfl (opened_of_snoc (by simp) _) ?_ ?_ ?_
      · intro session hne
        exact SameTally.single (by intro heq; exact hne (Eq.symm heq)) _
      · intro hacc
        exact (h.streams dev hmem hacc).closed
          (fun hopen => dev.released_not_holds (holds_of_isOpen hopen)) rfl
          (List.append_nil _).symm ⟨rfl, rfl⟩
      · rintro - ⟨hout, rest, haccount⟩
        refine ⟨?_, rest, haccount.append ⟨rfl, rfl⟩⟩
        simp only [DevAct.apply, World.closeFd_log, sentOf_append, spanOf_append]
        simpa [sentOf, Span.step] using hout
    | dropped =>
      refine h.set hseated hget le_rfl (fun _ _ => id) (fun session _ => SameTally.refl session _) ?_
        (fun _ => id)
      intro hacc
      have hstored : dev.stored = (flushBuffers dev).stored ++ dev.rbuf.contents := by
        simp [Iodev.stored, flushBuffers, Iodev.lineContents]
      have hsilent : Silent dev.session [] := ⟨rfl, rfl⟩
      have hshut : ¬ iodevIsOpen (flushBuffers dev) := hok.1
      have hclosed := (h.streams dev hmem hacc).closed hshut rfl hstored hsilent
      rw [List.append_nil] at hclosed
      exact hclosed
    | received bytes =>
      refine h.set hseated hget le_rfl (opened_of_snoc (by simp) _) ?_ ?_ ?_
      · intro session hne
        exact SameTally.single (by intro heq; exact hne (Eq.symm heq)) _
      · intro hacc
        exact (h.streams dev hmem hacc).received hok.1 hok.2
      · rintro - ⟨hout, rest, haccount⟩
        refine ⟨?_, rest ++ bytes, haccount.received bytes⟩
        simp only [DevAct.apply, World.record_log, sentOf_append, spanOf_append]
        simpa [sentOf, Span.step] using hout

theorem booked_loop : LoopKeeps True Booked := by
  constructor
  · rintro n a h hseated - hok hsends
    exact netAct_booked h hseated hok hsends
  · rintro n w index k dev r h hseated - hget hopen hnote - hopens hsent
    have hnow : Booked ⟨n.devs, w⟩ := by
      refine h.of_world (Nat.le_of_eq hopens.symm) ?_ fun session =>
        (hnote.mono fun _ hev => Ev.IsNote.not_concerns hev session).sameTally
      rcases hnote with ⟨evs, hlog, hevs⟩
      intro session fd hmem
      rw [hlog] at hmem
      exact (List.mem_append.mp hmem).resolve_right fun hlast => hevs _ hlast
    have hseated' : Seated ⟨n.devs, w⟩ := by
      refine hseated.of_world hopens (hnote.mono fun ev hev => opensIn_of_ne ?_)
      rintro driver session fd rfl
      exact hev
    have hmem := List.mem_of_getElem? hget
    rcases hsent with ⟨⟨pacer, hdev⟩, ⟨tick, hlog⟩, hfds', hopens'⟩
    have hstreams : dev.driver = .accepted → Streams r.2.log r.1 := fun hacc =>
      (hnow.streams dev hmem hacc).sent hopen rfl ⟨⟨pacer, hdev⟩, ⟨tick, hlog⟩, hfds', hopens'⟩
    refine hnow.set hseated' hget (Nat.le_of_eq hopens'.symm) ?_ ?_ ?_ ?_
    · rw [hlog]
      exact opened_of_snoc (by simp) _
    · intro session hne
      rw [hlog]
      exact SameTally.single (by intro heq; exact hne (Eq.symm heq)) _
    · intro hacc
      rw [hdev] at hacc
      exact hstreams hacc
    · intro hacc _
      have hs := hstreams hacc
      rw [hdev] at hs
      rcases hs with ⟨hout, dropped, -, haccount⟩
      exact ⟨⟨_, (hout hopen).2⟩, _, haccount⟩

/-! ## Cycles and reloads -/

variable (clock : Nat → UTime)

/-- What has been copied stays copied. -/
theorem copied_extended (session : Nat) (log evs : List Ev) :
    (spanOf session log).copied <+: (spanOf session (log ++ evs)).copied := by
  rw [spanOf_append]
  refine Machine.run_invariant (fun sp : Span => (spanOf session log).copied <+: sp.copied) ?_
    (List.prefix_refl _) evs
  intro sp ev h
  cases ev with
  | opened driver s fd =>
    cases driver with
    | serial | listen => exact h
    | accepted =>
      rw [Span.step]
      split <;> exact h
  | copied s bytes =>
    rw [Span.step]
    split
    · exact h.trans (List.prefix_append _ _)
    · exact h
  | closed | moved =>
    rw [Span.step]
    split <;> exact h
  | _ => exact h

section Turn

variable {clock} {sBytes index : Nat} {s : ProcessState} {serial dev serial' dev' : Iodev}
  {copied handed : List Ev}

/-- What a turn logs about the connection, and what it leaves in its buffers. -/
theorem Streams.turn (h : Streams s.world.log dev)
    (hturn : Turn clock sBytes s index serial dev serial' dev' copied handed) :
    Streams (s.world.log ++ (copied ++ handed)) dev' := by
  rcases hturn.copies with ⟨part, htbuf, hcopied⟩
  have hhanded : ∀ sp : Span, run (Span.step dev.session) sp handed = sp := by
    intro sp
    rcases hturn.hands with ⟨rfl, -⟩ | ⟨line, pass, reset, rfl, -⟩ <;> rfl
  constructor
  · intro hopen
    rw [hturn.isOpen] at hopen
    rcases h.output hopen with ⟨hlive, hout⟩
    have hspan : spanOf dev.session (s.world.log ++ (copied ++ handed)) =
        { spanOf dev.session s.world.log with
          copied := (spanOf dev.session s.world.log).copied ++ part } := by
      rw [spanOf_append, Machine.run_append, hhanded]
      rcases hcopied with rfl | ⟨rfl, rfl⟩
      · simp [Span.step, hlive]
      · simp
    rw [hturn.session, hspan, sentOf_append, hturn.unsent, htbuf, ← hout]
    exact ⟨hlive, by simp⟩
  · rcases h.input with ⟨dropped, hdropped, haccount⟩
    refine ⟨dropped, fun hopen => hdropped (by rwa [hturn.isOpen] at hopen), ?_⟩
    have hsilent : Silent dev.session copied := by
      rcases hcopied with rfl | ⟨-, rfl⟩ <;> exact ⟨rfl, rfl⟩
    rw [hturn.session, ← List.append_assoc]
    rcases hturn.hands with ⟨rfl, -, hstored, -⟩ | ⟨line, pass, reset, rfl, -, -, -, hnext⟩
    · rw [List.append_nil, hstored]
      exact haccount.append hsilent
    · rcases Lines.next_spec hnext with ⟨hline, hcat⟩
      rw [hcat, List.append_assoc] at haccount
      exact (haccount.append hsilent).handed hline pass reset

/-- What has been sent is still the beginning of what has been copied. -/
theorem Past.turn (hpast : Past dev.session s.world.log) (h : Streams s.world.log dev)
    (hturn : Turn clock sBytes s index serial dev serial' dev' copied handed) :
    Past dev.session (s.world.log ++ (copied ++ handed)) := by
  constructor
  · rw [sentOf_append, hturn.unsent, List.append_nil]
    exact hpast.output.trans (copied_extended _ _ _)
  · rcases (h.turn hturn).input with ⟨dropped, -, haccount⟩
    rw [hturn.session] at haccount
    exact ⟨_, haccount⟩

theorem processStep_booked (h : Booked (netOf s.app.selector s.world))
    (hseated : Seated (netOf s.app.selector s.world)) (hpos : 1 ≤ index) :
    Booked (netOf (processStep clock sBytes s index).app.selector
      (processStep clock sBytes s index).world) := by
  rcases processStep_cases clock sBytes s index with ⟨happ, hw, -⟩ | ⟨serial, dev, hs, hd, hconn⟩
  · rw [happ, hw]
    exact h
  · rcases processStep_turn clock sBytes hs hd hconn with ⟨serial', dev', copied, handed, hturn⟩
    have hacc := hseated.connection hpos hd hconn
    have hserial : serial.driver = .serial := (hseated.devs 0 serial hs).serial.mp rfl
    rcases hturn.serial_body with ⟨tbuf, hbody⟩
    have hdriver : serial'.driver ≠ .accepted := by
      rw [hbody, hserial]
      decide
    -- first the serial device, which is in no book, and then the connection
    have hfirst : Booked ⟨s.app.selector.toList.set 0 serial', s.world⟩ :=
      h.still hseated hs le_rfl (fun _ _ => id) (fun session => SameTally.refl session _)
        fun hacc => absurd hacc hdriver
    have hseated' : Seated ⟨s.app.selector.toList.set 0 serial', s.world⟩ := by
      rw [hbody]
      exact hseated.buffers hs serial.rbuf tbuf serial.linebuf (by simp [hserial])
    have hslot : (s.app.selector.toList.set 0 serial')[index]? = some dev := by
      rw [List.getElem?_set_ne (by omega)]
      exact hd
    have hopens : (processStep clock sBytes s index).world.opens = s.world.opens :=
      (processStep_shell clock sBytes s hpos).opens
    rw [netOf, hturn.devs]
    refine hfirst.set hseated' hslot (Nat.le_of_eq hopens.symm) ?_ ?_ ?_ ?_
    · intro session fd hmem
      rw [hturn.log] at hmem
      refine (List.mem_append.mp hmem).resolve_right fun hnew => ?_
      rcases hturn.log_mem hnew with ⟨_, heq⟩ | ⟨_, _, _, heq⟩ <;> cases heq
    · intro session hne
      rw [hturn.log]
      refine Adds.sameTally ⟨_, rfl, fun ev hev => ?_⟩
      rcases hturn.log_mem hev with ⟨part, rfl⟩ | ⟨line, pass, reset, rfl⟩ <;>
        exact fun heq => hne (Eq.symm heq)
    · intro _
      rw [hturn.log]
      exact (h.streams dev (List.mem_of_getElem? hd) hacc).turn hturn
    · intro _ hpast
      rw [hturn.log]
      exact hpast.turn (h.streams dev (List.mem_of_getElem? hd) hacc) hturn

end Turn

theorem processSerialData_booked {sel : Selector} {w : World} (h : Booked (netOf sel w))
    (hseated : Seated (netOf sel w)) (copy : RingBuffer) {serial : Iodev}
    (hs : sel.toList[0]? = some serial) :
    Booked (netOf (sel.store 0 (hdmi2usbProcessSerialData copy serial w).2.2.1)
      (hdmi2usbProcessSerialData copy serial w).2.2.2) := by
  rcases processSerialData_shape copy serial w with ⟨rbuf, evs, hserial, hworld, hevs⟩
  have hd : serial.driver = .serial := (hseated.devs 0 serial hs).serial.mp rfl
  rw [netOf, Selector.store_toList, hserial, hworld]
  refine h.still hseated hs le_rfl ?_ ?_ ?_
  · intro session fd hmem
    refine (List.mem_append.mp hmem).resolve_right fun hnew => ?_
    rcases hevs _ hnew with ⟨bytes, heq⟩
    cases heq
  · intro session
    refine Adds.sameTally ⟨_, rfl, fun ev hev => ?_⟩
    rcases hevs ev hev with ⟨bytes, rfl⟩
    exact id
  · intro hacc
    rw [hd] at hacc
    cases hacc

theorem hdmi2usbProcess_booked {app : Hdmi2usb} {w : World} (h : Booked (netOf app.selector w))
    (hseated : Seated (netOf app.selector w)) (rc : Int) :
    Booked (netOf (hdmi2usbProcess clock app rc w).2.1.selector
      (hdmi2usbProcess clock app rc w).2.2) :=
  (hdmi2usbProcess_keeps clock
    (I := fun app w => Booked (netOf app.selector w) ∧ Seated (netOf app.selector w)) ⟨h, hseated⟩
    (fun _ _ _ h => h)
    (fun _ hs => ⟨processSerialData_booked h hseated app.copy hs,
      processSerialData_seated hseated app.copy hs⟩)
    (fun _ _ _ hpos h =>
      ⟨processStep_booked h.1 h.2 hpos, processStep_seated clock _ h.2 hpos⟩) rc).1

/-- A mark of the main loop counts in no stream. -/
theorem Booked.mark {sel : Selector} {w : World} (h : Booked (netOf sel w)) (ev : Ev)
    (hev : ev.isMark = true) : Booked (netOf sel (w.record ev)) := by
  refine h.of_world le_rfl (opened_of_snoc ?_ _) fun session => SameTally.single ?_ _
  · rintro session fd rfl
    cases hev
  · cases ev with
    | signalled | reloaded | processed => exact id
    | _ => cases hev

/-- A reload forgets the devices, but not what became of their sessions. -/
theorem Booked.reload {sel : Selector} {w : World} (h : Booked (netOf sel w)) {n : Net}
    (hdevs : InitialDevices n.devs) (hlog : n.world.log = w.log)
    (hopens : n.world.opens = w.opens) : Booked n := by
  constructor
  · intro dev hdev hacc
    exact absurd hacc (hdevs.1 dev hdev).driver
  · rw [hlog]
    exact h.past
  · rw [hlog, hopens]
    exact h.fresh

theorem step_booked {d : Daemon} (horderly : Orderly 0 d)
    (h : Booked (netOf d.app.selector d.world)) (i : Input) :
    Booked (netOf (d.step clock i).app.selector (d.step clock i).world) := by
  refine d.step_keeps clock (I := fun app w => Booked (netOf app.selector w)) h
    (fun _ hev => h.mark _ hev) (fun a _ _ => booked_loop.round h horderly (.inl trivial)) ?_
    (hdmi2usbProcess_booked clock (h.mark _ rfl) (horderly.seated.mark rfl) 0)
  intro a rc app w hinit
  rcases hdmi2usbInit_spec hinit with ⟨hdevs, -, -, -, -, hopens, hlog⟩
  exact (h.mark .reloaded rfl).reload hdevs hlog hopens

theorem start_booked (iobufsize : Nat) (a : InitAnswers) :
    Booked (netOf (Daemon.start clock iobufsize a).app.selector
      (Daemon.start clock iobufsize a).world) := by
  rcases Daemon.start_spec clock iobufsize a with ⟨hdevs, -, -, hopens, hlog, -⟩
  have hnone : Booked (netOf selectorInit .init) := by
    refine ⟨by simp [netOf], ?_, fun session _ => SameTally.refl session _⟩
    intro session fd hmem
    cases hmem
  exact hnone.reload hdevs hlog hopens

theorem run_booked (iobufsize : Nat) (a : InitAnswers) (inputs : List Input) :
    Booked (netOf (run (Daemon.step clock) (Daemon.start clock iobufsize a) inputs).app.selector
      (run (Daemon.step clock) (Daemon.start clock iobufsize a) inputs).world) :=
  (Machine.run_invariant
    (fun d : Daemon => Orderly 0 d ∧ Booked (netOf d.app.selector d.world))
    (fun _ i h => ⟨h.1.step clock i, step_booked clock h.1 h.2 i⟩)
    ⟨start_orderly clock (Nat.zero_le _) a, start_booked clock iobufsize a⟩ inputs).2

/-- In every run, of every connection that was ever accepted: what `write` has taken is the
beginning of what was copied to it while it was open, and the commands handed on are lines, which
make up the beginning of what `read` has returned. While it is open, its send buffer and what its
device stores are all that is missing. -/
theorem run_streams (iobufsize : Nat) (a : InitAnswers) (inputs : List Input) :
    let d := run (Daemon.step clock) (Daemon.start clock iobufsize a) inputs
    (∀ session fd, .opened .accepted session fd ∈ d.world.log →
      sentOf session d.world.log <+: (spanOf session d.world.log).copied ∧
      (handedOf session d.world.log).flatten <+: receivedOf session d.world.log ∧
      ∀ command ∈ handedOf session d.world.log, Lines.IsLine isEol command) ∧
    ∀ dev ∈ d.app.selector.toList, dev.driver = .accepted → iodevIsOpen dev →
      sentOf dev.session d.world.log ++ dev.tbuf.contents =
        (spanOf dev.session d.world.log).copied ∧
      (handedOf dev.session d.world.log).flatten ++ dev.stored =
        receivedOf dev.session d.world.log := by
  have h := run_booked clock iobufsize a inputs
  constructor
  · intro session fd hmem
    rcases h.past session fd hmem with ⟨hout, rest, hreceived, hlines⟩
    exact ⟨hout, ⟨rest, hreceived.symm⟩, hlines⟩
  · intro dev hdev hacc hopen
    rcases h.streams dev hdev hacc with ⟨hout, dropped, hdropped, hreceived, -⟩
    rw [hdropped hopen, List.append_nil] at hreceived
    exact ⟨(hout hopen).2, hreceived.symm⟩

end Hdmi2usbd
