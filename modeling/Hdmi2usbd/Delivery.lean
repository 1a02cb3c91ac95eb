import Hdmi2usbd.Ownership

/-!
# Delivery — what becomes of the lines that a client sends

For each connection the log has the bytes that `read` returned and the commands that were
handed to the serial device. The account of a session (`Accounts`) says that the bytes are
these commands, each a line, and then a rest. The rest is what the device of the session
still stores, and then what was dropped when its buffers were flushed; when the device has
lost its slot, all of the rest is gone.

A line is lost where buffers are dropped that hold a terminated one. `KeepsLines` says that
a step does not do that. Along the steps that keep lines, every line that was read has been
handed on or is stored (`lines_delivered`).
-/

namespace Hdmi2usbd

open Machine (Along run)

/-- The bytes read in a session are the lines handed on, and the rest. -/
def Accounts (session : Nat) (log : List Ev) (rest : List UInt8) : Prop :=
  receivedOf session log = (handedOf session log).flatten ++ rest ∧
    ∀ line ∈ handedOf session log, Lines.IsLine isEol line

/-- Events that do not concern the account of a session. -/
def Silent (session : Nat) (evs : List Ev) : Prop :=
  receivedOf session evs = [] ∧ handedOf session evs = []

theorem Silent.append {session : Nat} {evs evs' : List Ev} (h : Silent session evs)
    (h' : Silent session evs') : Silent session (evs ++ evs') :=
  ⟨by rw [receivedOf_append, h.1, h'.1]; rfl, by rw [handedOf_append, h.2, h'.2]; rfl⟩

theorem Accounts.append {session : Nat} {log evs : List Ev} {rest : List UInt8}
    (h : Accounts session log rest) (hevs : Silent session evs) :
    Accounts session (log ++ evs) rest := by
  unfold Accounts
  rw [receivedOf_append, handedOf_append, hevs.1, hevs.2, List.append_nil, List.append_nil]
  exact h

/-- More bytes are read. -/
theorem Accounts.received {session : Nat} {log : List Ev} {rest : List UInt8}
    (h : Accounts session log rest) (bytes : List UInt8) :
    Accounts session (log ++ [.received session bytes]) (rest ++ bytes) := by
  have hr : receivedOf session [.received session bytes] = bytes := by simp [receivedOf]
  have hh : handedOf session [.received session bytes] = [] := rfl
  unfold Accounts
  rw [receivedOf_append, handedOf_append, hr, hh, List.append_nil, h.1, List.append_assoc]
  exact ⟨rfl, h.2⟩

/-- The first line of the rest is handed on. -/
theorem Accounts.handed {session : Nat} {log : List Ev} {line rest : List UInt8}
    (h : Accounts session log (line ++ rest)) (hline : Lines.IsLine isEol line)
    (pass : Option UTime) (reset : UTime) :
    Accounts session (log ++ [.handed session line pass reset]) rest := by
  have hr : receivedOf session [.handed session line pass reset] = [] := rfl
  have hh : handedOf session [.handed session line pass reset] = [line] := by simp [handedOf]
  unfold Accounts
  rw [receivedOf_append, handedOf_append, hr, hh, List.append_nil, h.1]
  refine ⟨by simp, ?_⟩
  intro l hl
  rcases List.mem_append.mp hl with hl | hl
  · exact h.2 l hl
  · rw [List.mem_singleton.mp hl]
    exact hline

/-- With no line among what was dropped, the lines read are those handed on and those of
what is stored. -/
theorem Accounts.lines {session : Nat} {log : List Ev} {stored dropped : List UInt8}
    (h : Accounts session log (stored ++ dropped)) (hdropped : Lines.Unterminated isEol dropped) :
    Lines.lines isEol (receivedOf session log) =
      handedOf session log ++ Lines.lines isEol stored := by
  rw [h.1, Lines.lines_flatten_append h.2, Lines.lines_append_unterminated stored hdropped]

/-- The account of the session of a device: no line has been dropped, and while it is open
nothing has. -/
def Kept (log : List Ev) (dev : Iodev) : Prop :=
  ∃ dropped, Lines.Unterminated isEol dropped ∧ (iodevIsOpen dev → dropped = []) ∧
    Accounts dev.session log (dev.stored ++ dropped)

/-- The account of a session whose device is no more. -/
def Gone (session : Nat) (log : List Ev) : Prop :=
  ∃ rest, Lines.Unterminated isEol rest ∧ Accounts session log rest

/-- Every line that was read has been handed on or is stored. -/
structure Delivered (n : Net) : Prop where
  seated : Seated n
  kept : Slots.Each (fun _ dev => dev.driver = .accepted → Kept n.world.log dev) n.devs
  gone : ∀ session fd, .opened .accepted session fd ∈ n.world.log →
    Slots.Each (fun _ dev => dev.session ≠ session) n.devs → Gone session n.world.log
  fresh : ∀ session, n.world.opens < session → Silent session n.world.log

/-! ## One device -/

/-- A device changes together with the account of its session. -/
theorem Delivered.set {n : Net} {w' : World} (h : Delivered n) {index : Nat} {dev dev' : Iodev}
    (hget : n.devs[index]? = some dev) (hseated : Seated ⟨n.devs.set index dev', w'⟩)
    (hsession : dev'.session = dev.session ∨ dev.driver ≠ .accepted)
    (hopens : n.world.opens ≤ w'.opens) {evs : List Ev} (hlog : w'.log = n.world.log ++ evs)
    (hopened : ∀ session fd, .opened .accepted session fd ∉ evs)
    (hevs : ∀ session, session ≠ dev.session → Silent session evs)
    (hkept : dev'.driver = .accepted → Kept w'.log dev') : Delivered ⟨n.devs.set index dev', w'⟩ := by
  refine ⟨hseated, ?_, ?_, ?_⟩
  · intro i x hx hacc
    rcases Slots.getElem?_set_cases hx with ⟨rfl, rfl⟩ | ⟨hi, hx⟩
    · exact hkept hacc
    · -- what is new is silent about the other connections
      rcases h.kept i x hx hacc with ⟨dropped, hdropped, hopen, haccount⟩
      refine ⟨dropped, hdropped, hopen, ?_⟩
      rw [hlog]
      exact haccount.append (hevs _ (h.seated.session_ne hi hx hget hacc))
  · intro session fd hmem hnone
    rw [hlog] at hmem
    -- a connection that has no slot now had none before
    have hold : .opened .accepted session fd ∈ n.world.log :=
      (List.mem_append.mp hmem).resolve_right (hopened session fd)
    have hslot : (n.devs.set index dev')[index]? = some dev' :=
      List.getElem?_set_self (List.getElem?_eq_some_iff.mp hget).1
    have hne : dev.session ≠ session := by
      rcases hsession with hsession | hsession
      · rw [← hsession]
        exact hnone index dev' hslot
      · -- the session of another device is no connection
        rintro rfl
        exact hsession ((h.seated.devs index dev hget).driver _ fd hold)
    have hnone' : Slots.Each (fun _ dev => dev.session ≠ session) n.devs := by
      intro i x hx
      by_cases hi : i = index
      · subst hi
        rw [hget] at hx
        cases hx
        exact hne
      · refine hnone i x ?_
        rw [List.getElem?_set_ne (fun hji => hi hji.symm)]
        exact hx
    rcases h.gone session fd hold hnone' with ⟨rest, hrest, haccount⟩
    refine ⟨rest, hrest, ?_⟩
    rw [hlog]
    exact haccount.append (hevs session hne.symm)
  · intro session hlt
    replace hlt : w'.opens < session := hlt
    have hold := (h.seated.devs index dev hget).session
    rw [hlog]
    exact (h.fresh session (by omega)).append (hevs session (by omega))

/-- A device keeps what it stores, and the log is silent about it. -/
theorem Kept.of_same {log evs : List Ev} {dev dev' : Iodev} (h : Kept log dev)
    (hsession : dev'.session = dev.session) (hstored : dev'.stored = dev.stored)
    (hopen : iodevIsOpen dev' → iodevIsOpen dev) (hevs : Silent dev.session evs) :
    Kept (log ++ evs) dev' := by
  rcases h with ⟨dropped, hdropped, hnone, haccount⟩
  refine ⟨dropped, hdropped, fun h => hnone (hopen h), ?_⟩
  rw [hsession, hstored]
  exact haccount.append hevs

/-- Events that are in no account. -/
def Ev.IsSilent : Ev → Prop
  | .received .. | .handed .. => False
  | _ => True

theorem Ev.IsSilent.silent {ev : Ev} (h : ev.IsSilent) (session : Nat) : Silent session [ev] := by
  cases ev with
  | received => exact h.elim
  | handed => exact h.elim
  | _ => exact ⟨rfl, rfl⟩

/-- Nothing buffered with a line in it is flushed, and no slot with a line in it is reused. -/
def Policy.lines : Policy where
  drop driver rbuf := driver = .accepted → Lines.Unterminated isEol rbuf.contents
  reuse dev := dev.driver = .accepted → Lines.Unterminated isEol dev.stored
  lose := True

/-- An action that reads, stores and drops nothing. -/
theorem Delivered.quiet {n : Net} {w' : World} (h : Delivered n) {index : Nat} {dev dev' : Iodev}
    (hget : n.devs[index]? = some dev) (hseated : Seated ⟨n.devs.set index dev', w'⟩)
    (hsession : dev'.session = dev.session) (hdriver : dev'.driver = dev.driver)
    (hstored : dev'.stored = dev.stored) (hopen : iodevIsOpen dev' → iodevIsOpen dev)
    (hopens : n.world.opens = w'.opens) {evs : List Ev} (hlog : w'.log = n.world.log ++ evs)
    (hopened : ∀ session fd, .opened .accepted session fd ∉ evs)
    (hevs : ∀ session, Silent session evs) : Delivered ⟨n.devs.set index dev', w'⟩ := by
  refine h.set hget hseated (.inl hsession) (Nat.le_of_eq hopens) hlog hopened
    (fun session _ => hevs session) ?_
  intro hacc
  rw [hdriver] at hacc
  rw [hlog]
  exact (h.kept index dev hget hacc).of_same hsession hstored hopen (hevs _)

theorem devAct_delivered {n : Net} (h : Delivered n) {index : Nat} {dev : Iodev}
    (hget : n.devs[index]? = some dev) (a : DevAct) (hok : a.Ok .lines (dev, n.world)) :
    Delivered ⟨n.devs.set index (a.apply (dev, n.world)).1, (a.apply (dev, n.world)).2⟩ := by
  have hseated := devAct_seated h.seated hget a hok
  have hsilent : ∀ session, Silent session [] := fun _ => ⟨rfl, rfl⟩
  cases a with
  | tick | pace pacer =>
    exact h.quiet hget hseated rfl rfl rfl id rfl (List.append_nil _).symm (by simp) hsilent
  | refused | retired =>
    refine h.quiet hget hseated rfl rfl rfl ?_ rfl (List.append_nil _).symm (by simp) hsilent
    intro hopen
    cases hopen
  | note ev =>
    have hplain : ev.IsSilent ∧ ∀ session fd, ev ≠ .opened .accepted session fd := by
      cases ev <;> first | exact hok.elim | exact ⟨trivial, by simp⟩
    refine h.quiet hget hseated rfl rfl rfl id rfl rfl ?_ hplain.1.silent
    intro session fd hmem
    exact hplain.2 session fd (List.mem_singleton.mp hmem).symm
  | sent count =>
    exact h.quiet hget hseated rfl rfl rfl id rfl rfl (by simp) (fun _ => ⟨rfl, rfl⟩)
  | released =>
    refine h.quiet hget hseated rfl rfl rfl ?_ rfl rfl (by simp) (fun _ => ⟨rfl, rfl⟩)
    intro hopen
    exact absurd (holds_of_isOpen hopen) dev.released_not_holds
  | dropped =>
    -- what was in the receive buffer is dropped, before anything that was dropped earlier
    rcases hok with ⟨hclosed, hlines⟩
    refine h.set hget hseated (.inl rfl) le_rfl (List.append_nil _).symm (by simp)
      (fun session _ => hsilent session) ?_
    intro hacc
    rcases h.kept index dev hget hacc with ⟨dropped, hdropped, -, haccount⟩
    refine ⟨dev.rbuf.contents ++ dropped, (hlines hacc).append hdropped,
      fun hopen => absurd hopen hclosed, ?_⟩
    have hrest : dev.stored ++ dropped =
        (flushBuffers dev).stored ++ (dev.rbuf.contents ++ dropped) := by
      simp [Iodev.stored, flushBuffers, Iodev.lineContents]
    rw [hrest] at haccount
    exact haccount
  | received bytes =>
    -- an open device has dropped nothing, so the bytes follow what it stores
    rcases hok with ⟨hopen, hroom⟩
    refine h.set hget hseated (.inl rfl) le_rfl rfl (by simp) ?_ ?_
    · intro session hne
      exact ⟨by simp [receivedOf, hne.symm], rfl⟩
    · intro hacc
      rcases h.kept index dev hget hacc with ⟨dropped, -, hnone, haccount⟩
      rw [hnone hopen, List.append_nil] at haccount
      refine ⟨[], by simp [Lines.Unterminated], fun _ => rfl, ?_⟩
      have hstored : ({ dev with rbuf := (dev.rbuf.put bytes).2 } : Iodev).stored =
          dev.stored ++ bytes := by
        simp [Iodev.stored, Iodev.lineContents, List.take_of_length_le hroom]
      rw [List.append_nil]
      simp only [DevAct.apply, hstored]
      exact haccount.received bytes
  | opened fd state =>
    -- the serial device or a listener: no connection is opened this way
    rcases hok with ⟨-, hacc, -, -⟩
    refine h.set hget hseated (.inr hacc) (Nat.le_succ _) rfl ?_ (fun _ _ => ⟨rfl, rfl⟩)
      (fun hd => absurd hd hacc)
    intro session fd' hmem
    have heq := List.mem_singleton.mp hmem
    simp only [Ev.opened.injEq] at heq
    exact hacc heq.1.symm

/-! ## Accepts -/

/-- A new connection has sent nothing. -/
theorem accepted_kept {n : Net} (h : Delivered n) (fd : Nat) (bufsize : Nat) :
    Kept (n.world.log ++ [.opened .accepted (n.world.opens + 1) fd])
      (tcpCreateAccepted (n.world.opens + 1) fd bufsize) := by
  rcases h.fresh (n.world.opens + 1) (Nat.lt_succ_self _) with ⟨hr, hh⟩
  refine ⟨[], by simp [Lines.Unterminated], fun _ => rfl, ?_⟩
  have hstored : (tcpCreateAccepted (n.world.opens + 1) fd bufsize).stored = [] := by
    simp [Iodev.stored, Iodev.lineContents, tcpCreateAccepted, tcpAccept, tcpCreate, iodevInit]
  have haccount : Accounts (n.world.opens + 1) n.world.log [] := by
    refine ⟨by rw [hr, hh]; rfl, ?_⟩
    rw [hh]
    intro line hline
    cases hline
  rw [hstored]
  exact haccount.append ⟨rfl, rfl⟩

/-- Of a device that loses its slot without a line, the session is gone. -/
theorem Kept.gone {log : List Ev} {dev : Iodev} (h : Kept log dev)
    (hstored : Lines.Unterminated isEol dev.stored) : Gone dev.session log := by
  rcases h with ⟨dropped, hdropped, -, haccount⟩
  exact ⟨dev.stored ++ dropped, hstored.append hdropped, haccount⟩

theorem Gone.lines {session : Nat} {log : List Ev} (h : Gone session log) :
    Lines.lines isEol (receivedOf session log) = handedOf session log := by
  rcases h with ⟨rest, hrest, haccount⟩
  rw [haccount.1, Lines.lines_flatten_append haccount.2, Lines.lines_eq_nil.mpr hrest,
    List.append_nil]

theorem Gone.append {session : Nat} {log evs : List Ev} (h : Gone session log)
    (hevs : Silent session evs) : Gone session (log ++ evs) := by
  rcases h with ⟨rest, hrest, haccount⟩
  exact ⟨rest, hrest, haccount.append hevs⟩

/-- The log goes on with events that are in no account. -/
theorem Delivered.log {n : Net} {w' : World} (h : Delivered n) (hseated : Seated ⟨n.devs, w'⟩)
    (hopens : n.world.opens = w'.opens) {evs : List Ev} (hlog : w'.log = n.world.log ++ evs)
    (hopened : ∀ session fd, .opened .accepted session fd ∉ evs)
    (hevs : ∀ session, Silent session evs) : Delivered ⟨n.devs, w'⟩ := by
  refine ⟨hseated, ?_, ?_, ?_⟩
  · intro i x hx hacc
    rw [hlog]
    exact (h.kept i x hx hacc).of_same rfl rfl id (hevs _)
  · intro session fd hmem hnone
    rw [hlog] at hmem ⊢
    exact (h.gone session fd ((List.mem_append.mp hmem).resolve_right (hopened session fd))
      hnone).append (hevs session)
  · intro session hlt
    rw [← hopens] at hlt
    rw [hlog]
    exact (h.fresh session hlt).append (hevs session)

/-- A connection is accepted, into a slot that may be reused or a new one. -/
theorem Delivered.accept {n : Net} (h : Delivered n) {fd bufsize : Nat} {devs' : List Iodev}
    {w' : World} (hseated : Seated ⟨devs', w'⟩) (hopens : w'.opens = n.world.opens + 1)
    (hlog : w'.log = n.world.log ++ [.opened .accepted (n.world.opens + 1) fd])
    (hnew : tcpCreateAccepted (n.world.opens + 1) fd bufsize ∈ devs')
    (hfrom : ∀ dev ∈ devs', dev = tcpCreateAccepted (n.world.opens + 1) fd bufsize ∨ dev ∈ n.devs)
    (hto : ∀ dev ∈ n.devs, dev ∈ devs' ∨ Policy.lines.reuse dev) : Delivered ⟨devs', w'⟩ := by
  have hsilent : ∀ session, Silent session [.opened .accepted (n.world.opens + 1) fd] :=
    fun _ => ⟨rfl, rfl⟩
  refine ⟨hseated, ?_, ?_, ?_⟩
  · intro i x hx hacc
    rw [hlog]
    rcases hfrom x (List.mem_of_getElem? hx) with rfl | hmem
    · exact accepted_kept h fd bufsize
    · rcases List.mem_iff_getElem?.mp hmem with ⟨j, hj⟩
      exact (h.kept j x hj hacc).of_same rfl rfl id (hsilent _)
  · intro session fd' hmem hnone
    rw [hlog] at hmem ⊢
    -- the new session has a slot, so this one is older
    have hold : .opened .accepted session fd' ∈ n.world.log := by
      refine (List.mem_append.mp hmem).resolve_right ?_
      intro heq
      cases List.mem_singleton.mp heq
      rcases List.mem_iff_getElem?.mp hnew with ⟨i, hi⟩
      exact hnone i _ hi rfl
    refine Gone.append ?_ (hsilent session)
    by_cases hthere : ∃ (j : Nat) (dev : Iodev), n.devs[j]? = some dev ∧ dev.session = session
    · -- the session of the device that is replaced
      rcases hthere with ⟨j, dev, hj, rfl⟩
      have hacc := (h.seated.devs j dev hj).driver _ fd' hold
      rcases hto dev (List.mem_of_getElem? hj) with hstays | hreuse
      · rcases List.mem_iff_getElem?.mp hstays with ⟨i, hi⟩
        exact absurd rfl (hnone i dev hi)
      · exact (h.kept j dev hj hacc).gone (hreuse hacc)
    · -- it had no slot before either
      refine h.gone session fd' hold ?_
      intro j dev hj heq
      exact hthere ⟨j, dev, hj, heq⟩
  · intro session hlt
    replace hlt : w'.opens < session := hlt
    rw [hlog]
    exact (h.fresh session (by omega)).append (hsilent session)

theorem netAct_delivered (n : Net) (a : NetAct) (h : Delivered n) (hok : a.Ok .lines n) :
    Delivered (a.apply n) := by
  have hseated := netAct_seated n a h.seated hok
  cases a with
  | device index a =>
    rcases hok with ⟨dev, hget, hok⟩
    simp only [NetAct.apply, hget]
    exact devAct_delivered h hget a hok
  | lost index a =>
    rcases netAct_lost hok with ⟨dev, w, ev, -, -, heq, hopens, -, hlog, hev⟩
    have hplain : ev.IsSilent ∧ ∀ session fd, ev ≠ .opened .accepted session fd := by
      rcases hev with ⟨-, -, rfl⟩ | ⟨k, -, rfl⟩
      · exact ⟨trivial, by simp⟩
      · exact ⟨trivial, by simp⟩
    rw [heq] at hseated ⊢
    refine h.log hseated hopens.symm hlog ?_ hplain.1.silent
    intro session fd hmem
    exact hplain.2 session fd (List.mem_singleton.mp hmem).symm
  | note ev =>
    have hplain : ev.IsSilent ∧ ∀ session fd, ev ≠ .opened .accepted session fd := by
      cases ev <;> first | exact hok.elim | exact ⟨trivial, by simp⟩
    refine h.log hseated rfl rfl ?_ hplain.1.silent
    intro session fd hmem
    exact hplain.2 session fd (List.mem_singleton.mp hmem).symm
  | accept fd bufsize slot =>
    rcases hok with ⟨-, -, hslot⟩
    cases slot with
    | some index =>
      -- the device in the slot is lost, and the policy says that it stores no line
      rcases hslot with ⟨-, old, hget, -, hreuse⟩
      have hlt := (List.getElem?_eq_some_iff.mp hget).1
      refine h.accept hseated rfl rfl (List.mem_set hlt _) ?_ ?_
      · intro dev hmem
        exact (List.mem_or_eq_of_mem_set hmem).symm
      · intro dev hmem
        rcases List.mem_iff_getElem?.mp hmem with ⟨j, hj⟩
        by_cases hij : index = j
        · subst hij
          rw [hget] at hj
          cases hj
          exact .inr hreuse
        · refine .inl (List.mem_of_getElem? (i := j) ?_)
          rw [List.getElem?_set_ne hij]
          exact hj
    | none =>
      refine h.accept hseated rfl rfl (List.mem_append_right _ (List.mem_singleton.mpr rfl)) ?_ ?_
      · intro dev hmem
        exact (List.mem_append.mp hmem).symm.imp_left List.mem_singleton.mp
      · intro dev hmem
        exact .inl (List.mem_append_left _ hmem)

/-! ## Cycles and reloads -/

variable (clock : Nat → UTime)

/-- A turn of a process cycle hands on a line that was stored, or nothing. -/
theorem processStep_delivered (sBytes : Nat) {s : ProcessState} {index : Nat}
    (h : Delivered (netOf s.app.selector s.world)) (hpos : 1 ≤ index) :
    Delivered (netOf (processStep clock sBytes s index).app.selector
      (processStep clock sBytes s index).world) := by
  have hseated := processStep_seated clock sBytes h.seated hpos
  rcases processStep_cases clock sBytes s index with ⟨happ, hw, -⟩ | ⟨serial, dev, hs, hd, hconn⟩
  · rw [happ, hw]
    exact h
  · have hacc : dev.driver = .accepted := h.seated.connection hpos hd hconn
    have hserial : serial.driver = .serial := (h.seated.devs 0 serial hs).serial.mp rfl
    rcases processStep_spec clock sBytes hs hd hconn with
      ⟨stbuf, rbuf, tbuf, linebuf, copied, handed, hdevs, -, -, hlog, hfds, hopens, hcopied, hhanded⟩
    -- the write to the serial device
    have hfirst : Delivered ⟨s.app.selector.toList.set 0 { serial with tbuf := stbuf }, s.world⟩ := by
      refine h.quiet hs (h.seated.buffers hs serial.rbuf stbuf serial.linebuf (by simp [hserial]))
        rfl rfl rfl id rfl (List.append_nil _).symm (by simp) (fun _ => ⟨rfl, rfl⟩)
    have hslot : (s.app.selector.toList.set 0 { serial with tbuf := stbuf })[index]? = some dev := by
      rw [List.getElem?_set_ne (by omega)]
      exact hd
    have hcopy : ∀ session, Silent session copied := by
      intro session
      rcases hcopied with ⟨-, rfl⟩ | ⟨-, rfl⟩ <;> exact ⟨rfl, rfl⟩
    rw [netOf, hdevs] at hseated ⊢
    refine hfirst.set hslot hseated (.inl rfl) (Nat.le_of_eq hopens.symm) hlog ?_ ?_ ?_
    · intro session fd hmem
      rcases hcopied with ⟨-, rfl⟩ | ⟨-, rfl⟩ <;> rcases hhanded with ⟨rfl, -⟩ | ⟨_, _, _, rfl, -⟩ <;>
        simp at hmem
    · intro session hne
      refine (hcopy session).append ?_
      rcases hhanded with ⟨rfl, -⟩ | ⟨line, pass, reset, rfl, -⟩
      · exact ⟨rfl, rfl⟩
      · exact ⟨rfl, by simp [handedOf, hne.symm]⟩
    · intro _
      rcases h.kept index dev hd hacc with ⟨dropped, hdropped, hnone, haccount⟩
      refine ⟨dropped, hdropped, hnone, ?_⟩
      rw [hlog, ← List.append_assoc]
      have hafter := haccount.append (hcopy dev.session)
      rcases hhanded with ⟨rfl, hstored⟩ | ⟨line, pass, reset, rfl, hnext⟩
      · rw [hstored, List.append_nil]
        exact hafter
      · -- the line leaves what is stored
        rcases Lines.next_spec hnext with ⟨hline, hcat⟩
        rw [hcat, List.append_assoc] at hafter
        exact hafter.handed hline pass reset

theorem processSerialData_delivered {sel : Selector} {w : World} (h : Delivered (netOf sel w))
    (copy : RingBuffer) {serial : Iodev} (hs : sel.toList[0]? = some serial) :
    Delivered (netOf (sel.store 0 (hdmi2usbProcessSerialData copy serial w).2.2.1)
      (hdmi2usbProcessSerialData copy serial w).2.2.2) := by
  have hseated := processSerialData_seated h.seated copy hs
  have hdriver : serial.driver = .serial := (h.seated.devs 0 serial hs).serial.mp rfl
  rcases processSerialData_shape copy serial w with ⟨rbuf, evs, hserial, hworld, hevs⟩
  rw [netOf, Selector.store_toList, hserial, hworld] at hseated ⊢
  -- the copy buffer says nothing about what clients have sent
  have hsilent : ∀ session, Silent session evs := by
    intro session
    constructor
    · refine List.flatMap_eq_nil_iff.mpr ?_
      intro ev hev
      rcases hevs ev hev with ⟨bytes, rfl⟩
      rfl
    · refine List.filterMap_eq_nil_iff.mpr ?_
      intro ev hev
      rcases hevs ev hev with ⟨bytes, rfl⟩
      rfl
  refine h.set hs hseated (.inl rfl) le_rfl rfl ?_ (fun session _ => hsilent session) ?_
  · intro session fd hmem
    rcases hevs _ hmem with ⟨bytes, heq⟩
    cases heq
  · intro hacc
    replace hacc : serial.driver = .accepted := hacc
    rw [hdriver] at hacc
    cases hacc

theorem hdmi2usbProcess_delivered (app : Hdmi2usb) (rc : Int) {w : World}
    (h : Delivered (netOf app.selector w)) :
    Delivered (netOf (hdmi2usbProcess clock app rc w).2.1.selector
      (hdmi2usbProcess clock app rc w).2.2) := by
  exact hdmi2usbProcess_keeps clock (I := fun app w => Delivered (netOf app.selector w)) h
    (fun _ _ _ h => h) (fun _ hs => processSerialData_delivered h app.copy hs)
    (fun _ _ _ hpos h => processStep_delivered clock _ h hpos) rc

/-- New devices take the place of all others, none of which stores a line. -/
theorem Delivered.replace {n : Net} {devs' : List Iodev} {w' : World} (h : Delivered n)
    (hnone : ∀ dev ∈ n.devs, Policy.lines.reuse dev) (hseated : Seated ⟨devs', w'⟩)
    (hnew : ∀ dev ∈ devs', dev.driver ≠ .accepted) (hopens : w'.opens = n.world.opens)
    (hlog : w'.log = n.world.log) : Delivered ⟨devs', w'⟩ := by
  refine ⟨hseated, ?_, ?_, ?_⟩
  · intro i x hx hacc
    exact absurd hacc (hnew x (List.mem_of_getElem? hx))
  · intro session fd hmem _
    rw [hlog] at hmem ⊢
    by_cases hthere : ∃ (j : Nat) (dev : Iodev), n.devs[j]? = some dev ∧ dev.session = session
    · -- the device is dropped, and what it stores is no line
      rcases hthere with ⟨j, dev, hj, rfl⟩
      have hacc := (h.seated.devs j dev hj).driver _ fd hmem
      exact (h.kept j dev hj hacc).gone (hnone dev (List.mem_of_getElem? hj) hacc)
    · refine h.gone session fd hmem ?_
      intro j dev hj heq
      exact hthere ⟨j, dev, hj, heq⟩
  · intro session hlt
    rw [hlog]
    rw [hopens] at hlt
    exact h.fresh session hlt

/-! ## Runs -/

/-- The step loses no line: what is flushed, and what loses its slot, holds none. -/
def KeepsLines (clock : Nat → UTime) (d : Daemon) : Input → Prop
  | .round a => d.pc = .loop →
      RoundAll (EventKeeps .lines) clock a d.sets d.app.selector d.world
  | .check _ => d.pc = .check → d.signalReceived = sighup →
      ∀ dev ∈ d.app.selector.toList, Policy.lines.reuse dev
  | .signal _ => True

theorem step_delivered (d : Daemon) (i : Input) (h : Delivered (netOf d.app.selector d.world))
    (hkeeps : KeepsLines clock d i) :
    Delivered (netOf (d.step clock i).app.selector (d.step clock i).world) := by
  -- a mark in the log tells nothing about a connection
  have hmark : ∀ ev : Ev, ev.isMark → Delivered (netOf d.app.selector (d.world.record ev)) := by
    intro ev hev
    have hplain : ev.IsSilent ∧ ∀ driver session fd, ev ≠ .opened driver session fd := by
      cases ev <;> first | cases hev; done | exact ⟨trivial, by simp⟩
    refine h.log (h.seated.mark hev) rfl rfl ?_ hplain.1.silent
    intro session fd hmem
    exact hplain.2 _ session fd (List.mem_singleton.mp hmem).symm
  have hseated := step_seated clock d i h.seated
  rcases d.step_cases clock i with ⟨happ, hw⟩ | ⟨a, rfl, hpc, hd⟩ | ⟨a, rfl, hpc, hhup, hd⟩ |
    ⟨a, -, -, -, happ, hw⟩ | ⟨sig, -, happ, hw⟩
  · rw [happ, hw]
    exact h
  · rw [hd]
    exact (selectorRound_reaches (hkeeps hpc) (.inl trivial)).preserves Delivered netAct_delivered h
  · -- a reload: the old devices are lost with what they store
    have hreloaded := hmark .reloaded rfl
    rw [hd] at hseated ⊢
    rcases Daemon.initialise_cases clock { d with world := d.world.record .reloaded } exSuccess a
      with ⟨happ, hw⟩ | ⟨rc', app, w, hinit, happ, hw⟩
    · rw [happ, hw]
      exact hreloaded
    · rcases hdmi2usbInit_spec hinit with ⟨hdevs, -, -, -, -, hopens, hlog⟩
      rw [happ, hw] at hseated ⊢
      exact hreloaded.replace (hkeeps hpc hhup) hseated (fun dev hdev => (hdevs.1 dev hdev).driver)
        hopens hlog
  · rw [happ, hw]
    exact hdmi2usbProcess_delivered clock d.app 0 (hmark .processed rfl)
  · rw [happ, hw]
    exact hmark (.signalled sig.toNat) rfl

theorem start_delivered (iobufsize : Nat) (a : InitAnswers) :
    Delivered (netOf (Daemon.start clock iobufsize a).app.selector
      (Daemon.start clock iobufsize a).world) := by
  rcases Daemon.start_spec clock iobufsize a with ⟨hdevs, -, -, -, hlog, -⟩
  refine ⟨start_seated clock iobufsize a, ?_, ?_, ?_⟩
  · intro i x hx hacc
    exact absurd hacc (hdevs.1 x (List.mem_of_getElem? hx)).driver
  · simp only [netOf, hlog]
    intro session fd hmem
    cases hmem
  · simp only [netOf, hlog]
    intro session _
    exact ⟨rfl, rfl⟩

/-- Of every connection, the lines that were read have been handed on, in order, or are
stored in its device. -/
def Daemon.LinesDelivered (d : Daemon) : Prop :=
  ∀ session fd, .opened .accepted session fd ∈ d.world.log →
    (∃ dev ∈ d.app.selector.toList, dev.driver = .accepted ∧ dev.session = session ∧
      Lines.lines isEol (receivedOf session d.world.log) =
        handedOf session d.world.log ++ Lines.lines isEol dev.stored) ∨
    ((∀ dev ∈ d.app.selector.toList, dev.session ≠ session) ∧
      Lines.lines isEol (receivedOf session d.world.log) = handedOf session d.world.log)

theorem Delivered.lines {d : Daemon} (h : Delivered (netOf d.app.selector d.world)) :
    d.LinesDelivered := by
  intro session fd hopened
  by_cases hthere : ∃ (j : Nat) (dev : Iodev), d.app.selector.toList[j]? = some dev ∧
      dev.session = session
  · rcases hthere with ⟨j, dev, hj, rfl⟩
    have hacc := (h.seated.devs j dev hj).driver _ fd hopened
    rcases h.kept j dev hj hacc with ⟨dropped, hdropped, -, haccount⟩
    exact .inl ⟨dev, List.mem_of_getElem? hj, hacc, rfl, haccount.lines hdropped⟩
  · have hnone : Slots.Each (fun _ dev => dev.session ≠ session) d.app.selector.toList := by
      intro j dev hj heq
      exact hthere ⟨j, dev, hj, heq⟩
    refine .inr ⟨?_, (h.gone session fd hopened hnone).lines⟩
    intro dev hmem
    rcases List.mem_iff_getElem?.mp hmem with ⟨j, hj⟩
    exact hnone j dev hj

/-- A command line is never discarded, in a run that flushes and reuses no buffer with a
line in it. -/
theorem lines_delivered (iobufsize : Nat) (a : InitAnswers) (inputs : List Input)
    (hkeeps : Along (Daemon.step clock) (KeepsLines clock) (Daemon.start clock iobufsize a) inputs) :
    (run (Daemon.step clock) (Daemon.start clock iobufsize a) inputs).LinesDelivered :=
  (Machine.run_invariant_along (fun d : Daemon => Delivered (netOf d.app.selector d.world))
    (fun d i h hkeeps => step_delivered clock d i h hkeeps) (start_delivered clock iobufsize a)
    hkeeps).lines

instance : DecidablePred Policy.lines.reuse := fun dev =>
  inferInstanceAs (Decidable (dev.driver = .accepted → Lines.Unterminated isEol dev.stored))

instance (driver : Driver) (rbuf : RingBuffer) : Decidable (Policy.lines.drop driver rbuf) :=
  inferInstanceAs (Decidable (driver = .accepted → Lines.Unterminated isEol rbuf.contents))

instance (clock : Nat → UTime) (d : Daemon) : DecidablePred (KeepsLines clock d)
  | .round a => inferInstanceAs (Decidable (_ → RoundAll _ _ a _ _ _))
  | .check _ => inferInstanceAs (Decidable (_ → _ → ∀ _ ∈ _, _))
  | .signal _ => .isTrue trivial

/-- A client sends a command and the start of another; a process cycle follows, and then the
end of the connection. -/
def goodbye : List Input :=
  Daemon.firstConnection ++
    [Daemon.turn ⟨{5}, ∅, ∅⟩ ⟨some [97, 10, 98], none, none⟩, Daemon.quietTurn,
      .check Daemon.oneAddress, Daemon.turn ⟨{5}, ∅, ∅⟩ ⟨some [], none, none⟩]

theorem lines_delivered_goodbye :
    (run (Daemon.step fun _ => 0) (Daemon.start (fun _ => 0) 64 Daemon.oneAddress)
      goodbye).LinesDelivered :=
  lines_delivered _ 64 Daemon.oneAddress goodbye (by decide +kernel)

/-- A client sends a command and closes the connection; no process cycle comes between. -/
def hastyGoodbye : List Input :=
  Daemon.firstConnection ++
    [Daemon.turn ⟨{5}, ∅, ∅⟩ ⟨some [97, 10], none, none⟩,
      Daemon.turn ⟨{5}, ∅, ∅⟩ ⟨some [], none, none⟩]

/-- The state after that run. -/
def afterHastyGoodbye : Daemon :=
  run (Daemon.step fun _ => 0) (Daemon.start (fun _ => 0) 64 Daemon.oneAddress) hastyGoodbye

theorem hasty_goodbye_loses_line : receivedOf 3 afterHastyGoodbye.world.log = [97, 10] ∧
    handedOf 3 afterHastyGoodbye.world.log = [] ∧
    (∀ dev ∈ afterHastyGoodbye.app.selector.toList, dev.stored = []) ∧
    ¬ afterHastyGoodbye.LinesDelivered := by
  have hreceived : receivedOf 3 afterHastyGoodbye.world.log = [97, 10] := by decide +kernel
  have hhanded : handedOf 3 afterHastyGoodbye.world.log = [] := by decide +kernel
  have hstored : ∀ dev ∈ afterHastyGoodbye.app.selector.toList, dev.stored = [] := by
    decide +kernel
  refine ⟨hreceived, hhanded, hstored, ?_⟩
  intro h
  have hlines : Lines.lines isEol [97, 10] = [[97, 10]] := by decide
  rcases h 3 5 (by decide +kernel) with ⟨dev, hmem, -, -, heq⟩ | ⟨-, heq⟩
  · rw [hreceived, hhanded, hstored dev hmem, hlines] at heq
    cases heq
  · rw [hreceived, hhanded, hlines] at heq
    cases heq

end Hdmi2usbd
