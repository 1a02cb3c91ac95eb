import Hdmi2usbd.Actions
import Hdmi2usbd.Cycle
import Hdmi2usbd.Daemon

/-!
# Ownership — where the devices are, and which descriptors they hold

`Seated` says where the devices stand and whose they are: the serial device in slot 0,
connections and listeners after it, no two of one session, none with a descriptor but in
the states from closing on. Every action of a turn, every process cycle and every reload
keeps it, so it holds in every state that the daemon reaches (`run_seated`). `Owned` adds
that a descriptor held is open and held once. A close that is lost in a replaced block
breaks it, for the listener keeps its number; it holds in every state reached without one
(`run_owned`).
-/

namespace Hdmi2usbd

open Machine (Along run)

/-- What a device in slot `index` has to do with the world. -/
structure Iodev.Seated (w : World) (index : Nat) (dev : Iodev) : Prop where
  held : Held dev
  fd : dev.fd ≠ -1 → 0 ≤ dev.fd
  session : dev.session ≤ w.opens
  positive : dev.fd ≠ -1 → 0 < dev.session
  driver : ∀ driver fd, .opened driver dev.session fd ∈ w.log → dev.driver = driver
  serial : index = 0 ↔ dev.driver = .serial
  listener : dev.driver = .listen → dev.listener = true
  accepted : dev.driver = .accepted → ∃ fd, .opened .accepted dev.session fd ∈ w.log
  unbuffered : dev.driver ≠ .serial → dev.listener = true → dev.tbuf.size = 0

/-- Two devices share no session. -/
def Distinct (dev dev' : Iodev) : Prop := dev.session = dev'.session → dev.session = 0

structure Seated (n : Net) : Prop where
  devs : Slots.Each (Iodev.Seated n.world) n.devs
  distinct : Slots.Apart Distinct n.devs
  log : ∀ driver session fd, .opened driver session fd ∈ n.world.log →
    0 < session ∧ session ≤ n.world.opens

/-- The devices hold open descriptors, each its own. -/
structure Owned (n : Net) : Prop extends Seated n where
  opened : ∀ dev ∈ n.devs, dev.fd ≠ -1 → dev.fd ∈ n.world.fds
  apart : Slots.Apart (fun dev dev' => dev.fd = dev'.fd → dev.fd = -1) n.devs

/-- The sessions opened by an event are numbered from `opens + 1` to `opens'`. -/
def Ev.OpensIn (opens opens' : Nat) (ev : Ev) : Prop :=
  ∀ driver session fd, ev = .opened driver session fd → opens < session ∧ session ≤ opens'

/-- Another device stays as it is. -/
theorem Iodev.Seated.of_world {w w' : World} {index : Nat} {dev : Iodev} (h : dev.Seated w index)
    (hopens : w.opens ≤ w'.opens) (hlog : Adds (Ev.OpensIn w.opens w'.opens) w.log w'.log) :
    dev.Seated w' index := by
  rcases hlog with ⟨evs, hlog, hevs⟩
  refine { h with
    session := h.session.trans hopens
    driver := ?_
    accepted := ?_ }
  · intro driver fd hmem
    rw [hlog] at hmem
    rcases List.mem_append.mp hmem with hmem | hmem
    · exact h.driver driver fd hmem
    · -- the session of the event is newer than the device
      have hnew := (hevs _ hmem driver dev.session fd rfl).1
      have hold := h.session
      omega
  · intro hacc
    rcases h.accepted hacc with ⟨fd, hmem⟩
    exact ⟨fd, by rw [hlog]; exact List.mem_append_left _ hmem⟩

theorem Distinct.symm {x y : Iodev} (h : Distinct x y) : Distinct y x := by
  intro hsession
  rw [hsession]
  exact h hsession.symm

namespace Seated

variable {n : Net} {w' : World}

/-- The session of a connection is its own. -/
theorem session_ne (h : Seated n) {i j : Nat} {dev dev' : Iodev} (hij : i ≠ j)
    (hi : n.devs[i]? = some dev) (hj : n.devs[j]? = some dev') (hacc : dev.driver = .accepted) :
    dev.session ≠ dev'.session := by
  intro heq
  have hzero := h.distinct i j dev dev' hij hi hj heq
  rcases (h.devs i dev hi).accepted hacc with ⟨fd, hopened⟩
  have := (h.log _ _ _ hopened).1
  omega

theorem eq_of_session (h : Seated n) {dev dev' : Iodev} (hdev : dev ∈ n.devs)
    (hdev' : dev' ∈ n.devs) (hacc : dev.driver = .accepted) (hsession : dev.session = dev'.session) :
    dev = dev' := by
  rcases List.mem_iff_getElem?.mp hdev with ⟨i, hi⟩
  rcases List.mem_iff_getElem?.mp hdev' with ⟨j, hj⟩
  by_cases hij : i = j
  · subst hij
    exact Option.some.inj (hi.symm.trans hj)
  · exact absurd hsession (h.session_ne hij hi hj hacc)

/-- A listener has nothing to write. -/
theorem silent (h : Seated n) : ∀ dev ∈ n.devs, dev.driver = .listen → dev.tbuf.used = 0 := by
  intro dev hmem hlisten
  rcases List.mem_iff_getElem?.mp hmem with ⟨index, hget⟩
  have hdev := h.devs index dev hget
  have hsize := hdev.unbuffered (by simp [hlisten]) (hdev.listener hlisten)
  have := dev.tbuf.used_add_available
  omega

/-- The log after a change of the world. -/
theorem log_adds (h : Seated n) (hopens : n.world.opens ≤ w'.opens)
    (hlog : Adds (Ev.OpensIn n.world.opens w'.opens) n.world.log w'.log) :
    ∀ driver session fd, .opened driver session fd ∈ w'.log → 0 < session ∧ session ≤ w'.opens := by
  rcases hlog with ⟨evs, hlog, hevs⟩
  intro driver session fd hmem
  rw [hlog] at hmem
  rcases List.mem_append.mp hmem with hmem | hmem
  · have := h.log driver session fd hmem
    omega
  · have := hevs _ hmem driver session fd rfl
    omega

/-- A slot is filled with a device of the same session, or of a new one. -/
theorem set (h : Seated n) {index : Nat} {dev dev' : Iodev} (hget : n.devs[index]? = some dev)
    (hdev' : dev'.Seated w' index)
    (hsession : dev'.session = dev.session ∨ n.world.opens < dev'.session)
    (hopens : n.world.opens ≤ w'.opens)
    (hlog : Adds (Ev.OpensIn n.world.opens w'.opens) n.world.log w'.log) :
    Seated ⟨n.devs.set index dev', w'⟩ := by
  refine ⟨?_, ?_, h.log_adds hopens hlog⟩
  · refine Slots.Each.set ?_ hdev'
    exact h.devs.mono fun i x _ hseated => hseated.of_world hopens hlog
  · refine h.distinct.set ?_
    intro j y hj hy
    -- the session is the device's own or new
    have hnew : Distinct dev' y := by
      intro heq
      rcases hsession with hsession | hsession
      · rw [hsession]
        exact h.distinct index j dev y (fun hij => hj hij.symm) hget hy (hsession ▸ heq)
      · have := (h.devs j y hy).session
        omega
    exact ⟨hnew, hnew.symm⟩

/-- A device with a new session is added. -/
theorem append (h : Seated n) {dev' : Iodev} (hdev' : dev'.Seated w' n.devs.length)
    (hsession : n.world.opens < dev'.session) (hopens : n.world.opens ≤ w'.opens)
    (hlog : Adds (Ev.OpensIn n.world.opens w'.opens) n.world.log w'.log) :
    Seated ⟨n.devs ++ [dev'], w'⟩ := by
  refine ⟨?_, ?_, h.log_adds hopens hlog⟩
  · refine Slots.Each.append ?_ hdev'
    exact h.devs.mono fun i x _ hseated => hseated.of_world hopens hlog
  · refine h.distinct.append ?_
    intro j y hy
    have hnew : Distinct dev' y := by
      intro heq
      have := (h.devs j y hy).session
      omega
    exact ⟨hnew, hnew.symm⟩

/-- The world changes and the devices do not. -/
theorem of_world (h : Seated n) (hopens : w'.opens = n.world.opens)
    (hlog : Adds (Ev.OpensIn n.world.opens w'.opens) n.world.log w'.log) : Seated ⟨n.devs, w'⟩ := by
  have hle := Nat.le_of_eq hopens.symm
  exact ⟨h.devs.mono fun i x _ hseated => hseated.of_world hle hlog, h.distinct, h.log_adds hle hlog⟩

end Seated

namespace Owned

variable {n n' : Net} {w' : World}

/-- The descriptors stay as they are. -/
theorem of_fds (h : Owned n) (hseated : Seated n') (hdevs : n'.devs.map (·.fd) = n.devs.map (·.fd))
    (hfds : n'.world.fds = n.world.fds) : Owned n' := by
  have hold : ∀ (i : Nat) x, n'.devs[i]? = some x → ∃ y, n.devs[i]? = some y ∧ y.fd = x.fd := by
    intro i x hx
    have hi : (n'.devs.map (·.fd))[i]? = some x.fd := by rw [List.getElem?_map, hx]; rfl
    rw [hdevs, List.getElem?_map] at hi
    exact Option.map_eq_some_iff.mp hi
  refine ⟨hseated, ?_, ?_⟩
  · intro x hx hne
    rcases List.mem_iff_getElem?.mp hx with ⟨i, hi⟩
    rcases hold i x hi with ⟨y, hy, heq⟩
    rw [← heq, hfds]
    exact h.opened y (List.mem_of_getElem? hy) (by rwa [heq])
  · intro i j x y hij hx hy
    rcases hold i x hx with ⟨x', hx', hxfd⟩
    rcases hold j y hy with ⟨y', hy', hyfd⟩
    rw [← hxfd, ← hyfd]
    exact h.apart i j x' y' hij hx' hy'

/-- A slot is filled with a device of the same descriptor, of none or of a new one. -/
theorem set (h : Owned n) {index : Nat} {dev dev' : Iodev} (hget : n.devs[index]? = some dev)
    (hseated : Seated ⟨n.devs.set index dev', w'⟩) (hopened : dev'.fd ≠ -1 → dev'.fd ∈ w'.fds)
    (hfd : dev'.fd = dev.fd ∨ dev'.fd = -1 ∨ dev'.fd ∉ n.world.fds)
    (hfds : ∀ fd ∈ n.world.fds, fd ≠ dev.fd → fd ∈ w'.fds) :
    Owned ⟨n.devs.set index dev', w'⟩ := by
  refine ⟨hseated, ?_, ?_⟩
  · intro x hx hne
    rcases List.mem_iff_getElem?.mp hx with ⟨i, hi⟩
    rcases Slots.getElem?_set_cases hi with ⟨-, rfl⟩ | ⟨hi, hx⟩
    · exact hopened hne
    · refine hfds x.fd (h.opened x (List.mem_of_getElem? hx) hne) ?_
      intro heq
      exact hne (h.apart i index x dev hi hx hget heq)
  · refine h.apart.set ?_
    intro j y hj hy
    have hy' := h.opened y (List.mem_of_getElem? hy)
    -- the descriptor is the device's own or new
    have hnew : dev'.fd = y.fd → dev'.fd = -1 := by
      intro heq
      rcases hfd with hfd | hfd | hfd
      · rw [hfd]
        exact h.apart index j dev y (fun hij => hj hij.symm) hget hy (hfd ▸ heq)
      · exact hfd
      · by_contra hne
        rw [heq] at hne
        exact hfd (heq ▸ hy' hne)
    refine ⟨hnew, ?_⟩
    intro heq
    rw [heq]
    exact hnew heq.symm

/-- A device with a new descriptor is added. -/
theorem append (h : Owned n) {dev' : Iodev} (hseated : Seated ⟨n.devs ++ [dev'], w'⟩)
    (hopened : dev'.fd ∈ w'.fds) (hfd : dev'.fd ∉ n.world.fds)
    (hfds : ∀ fd ∈ n.world.fds, fd ∈ w'.fds) : Owned ⟨n.devs ++ [dev'], w'⟩ := by
  refine ⟨hseated, ?_, ?_⟩
  · intro x hx hne
    rcases List.mem_append.mp hx with hx | hx
    · exact hfds _ (h.opened x hx hne)
    · rwa [List.mem_singleton.mp hx]
  · refine h.apart.append ?_
    intro j y hy
    have hnew : dev'.fd = y.fd → dev'.fd = -1 := by
      intro heq
      by_contra hne
      rw [heq] at hne
      exact hfd (heq ▸ h.opened y (List.mem_of_getElem? hy) hne)
    refine ⟨hnew, ?_⟩
    intro heq
    rw [heq]
    exact hnew heq.symm

end Owned

/-! ## Actions -/

/-- A device after an action that opens nothing: it has kept its descriptor or has none. -/
theorem Iodev.Seated.of_kept {w w' : World} {index : Nat} {dev dev' : Iodev}
    (h : dev.Seated w index) (hheld : Held dev') (hfd : dev'.fd = -1 ∨ dev'.fd = dev.fd)
    (hsession : dev'.session = dev.session) (hdriver : dev'.driver = dev.driver)
    (hlistener : dev'.listener = dev.listener)
    (htbuf : dev.driver ≠ .serial → dev.listener = true → dev'.tbuf.size = dev.tbuf.size)
    (hopens : w.opens ≤ w'.opens)
    (hlog : Adds (Ev.OpensIn w.opens w'.opens) w.log w'.log) : dev'.Seated w' index := by
  rcases hlog with ⟨evs, hlog, hevs⟩
  refine ⟨hheld, ?_, ?_, ?_, ?_, ?_, ?_, ?_, ?_⟩
  · intro hne
    have hsame := hfd.resolve_left hne
    rw [hsame] at hne ⊢
    exact h.fd hne
  · rw [hsession]
    exact h.session.trans hopens
  · intro hne
    rw [hfd.resolve_left hne] at hne
    rw [hsession]
    exact h.positive hne
  · intro driver fd hmem
    rw [hlog, hsession] at hmem
    rw [hdriver]
    rcases List.mem_append.mp hmem with hmem | hmem
    · exact h.driver driver fd hmem
    · -- an opening that is logged now is of a later session
      have hnew := (hevs _ hmem driver dev.session fd rfl).1
      have hold := h.session
      omega
  · rw [hdriver]
    exact h.serial
  · rw [hdriver, hlistener]
    exact h.listener
  · intro hacc
    rw [hdriver] at hacc
    rcases h.accepted hacc with ⟨fd, hmem⟩
    exact ⟨fd, by rw [hlog, hsession]; exact List.mem_append_left _ hmem⟩
  · intro hserial hl
    rw [hdriver] at hserial
    rw [hlistener] at hl
    rw [htbuf hserial hl]
    exact h.unbuffered hserial hl

/-- Events other than openings. -/
theorem opensIn_of_ne {opens opens' : Nat} {ev : Ev}
    (h : ∀ driver session fd, ev ≠ .opened driver session fd) : ev.OpensIn opens opens' :=
  fun driver session fd heq => absurd heq (h driver session fd)

theorem Ev.IsNote.opensIn {opens opens' : Nat} {ev : Ev} (h : ev.IsNote) : ev.OpensIn opens opens' := by
  refine opensIn_of_ne ?_
  rintro driver session fd rfl
  exact h

/-- An opening is of the next session. -/
theorem opensIn_opened (opens : Nat) (driver : Driver) (fd : Int) :
    (Ev.opened driver (opens + 1) fd).OpensIn opens (opens + 1) := by
  intro driver' session fd' heq
  cases heq
  omega

section Action

variable {p : Policy} {n : Net}

theorem devAct_seated (h : Seated n) {index : Nat} {dev : Iodev} (hget : n.devs[index]? = some dev)
    (a : DevAct) (hok : a.Ok p (dev, n.world)) :
    Seated ⟨n.devs.set index (a.apply (dev, n.world)).1, (a.apply (dev, n.world)).2⟩ := by
  have hdev := h.devs index dev hget
  have hheld := a.apply_held (dev, n.world) hdev.held hok
  -- an event that is logged beside a device that stays open
  have hevent : ∀ ev : Ev, (∀ driver session fd, ev ≠ .opened driver session fd) →
      Adds (Ev.OpensIn n.world.opens n.world.opens) n.world.log (n.world.log ++ [ev]) :=
    fun ev hev => Adds.single (opensIn_of_ne hev) _
  cases a with
  | tick | pace pacer | dropped | retired =>
    exact h.set hget (hdev.of_kept hheld (.inr rfl) rfl rfl rfl (fun _ _ => rfl) le_rfl
      (Adds.refl _)) (.inl rfl) le_rfl (Adds.refl _)
  | note ev =>
    have hlog : Adds (Ev.OpensIn n.world.opens n.world.opens) n.world.log (n.world.log ++ [ev]) :=
      Adds.single (Ev.IsNote.opensIn hok) _
    exact h.set hget (hdev.of_kept hheld (.inr rfl) rfl rfl rfl (fun _ _ => rfl) le_rfl hlog)
      (.inl rfl) le_rfl hlog
  | received bytes =>
    have hlog := hevent (.received dev.session bytes) (by simp)
    exact h.set hget (hdev.of_kept hheld (.inr rfl) rfl rfl rfl (fun _ _ => rfl) le_rfl hlog)
      (.inl rfl) le_rfl hlog
  | sent count =>
    have hlog := hevent (.sent dev.session (dev.tbuf.peek count).2 n.world.tick) (by simp)
    exact h.set hget (hdev.of_kept hheld (.inr rfl) rfl rfl rfl
      (fun _ _ => dev.tbuf.get_size false count) le_rfl hlog) (.inl rfl) le_rfl hlog
  | refused =>
    exact h.set hget (hdev.of_kept hheld (.inl rfl) rfl rfl rfl (fun _ _ => rfl) le_rfl
      (Adds.refl _)) (.inl rfl) le_rfl (Adds.refl _)
  | released =>
    have hlog := hevent (.closed dev.session dev.fd) (by simp)
    exact h.set hget (hdev.of_kept hheld (.inl rfl) rfl rfl rfl (fun _ _ => rfl) le_rfl hlog)
      (.inl rfl) le_rfl hlog
  | opened fd state =>
    rcases hok with ⟨-, hacc, -, -⟩
    refine h.set hget ?_ (.inr (Nat.lt_succ_self _)) (Nat.le_succ _)
      (Adds.single (opensIn_opened _ _ _) _)
    refine ⟨hheld, fun _ => Int.natCast_nonneg fd, le_rfl, fun _ => Nat.succ_pos _, ?_, hdev.serial,
      hdev.listener, ?_, hdev.unbuffered⟩
    · -- the session is new, so the log has just this opening of it
      intro driver fd' hmem
      rcases List.mem_append.mp hmem with hmem | hmem
      · have := (h.log driver _ fd' hmem).2
        simp only [DevAct.apply] at this
        omega
      · cases List.mem_singleton.mp hmem
        rfl
    · intro hd
      exact absurd hd hacc

/-- A connection as it is accepted. -/
theorem accepted_seated (h : Seated n) {fd : Nat} {bufsize index : Nat} (hpos : 1 ≤ index) :
    (tcpCreateAccepted (n.world.opens + 1) fd bufsize).Seated
      { n.world with
        fds := insert (fd : Int) n.world.fds
        opens := n.world.opens + 1
        log := n.world.log ++ [.opened .accepted (n.world.opens + 1) fd] } index := by
  have hfd : ((fd : Nat) : Int) ≠ -1 := by omega
  refine ⟨iff_of_true hfd rfl, fun _ => Int.natCast_nonneg fd, le_rfl, fun _ => Nat.succ_pos _,
    ?_, ?_, ?_, ?_, ?_⟩
  · intro driver fd' hmem
    rcases List.mem_append.mp hmem with hmem | hmem
    · have := (h.log driver _ fd' hmem).2
      simp only [tcpCreateAccepted, tcpAccept] at this
      omega
    · cases List.mem_singleton.mp hmem
      rfl
  · refine iff_of_false (by omega) ?_
    simp [tcpCreateAccepted, tcpAccept, tcpCreate, iodevInit]
  · intro hd
    simp [tcpCreateAccepted, tcpAccept, tcpCreate, iodevInit] at hd
  · intro _
    exact ⟨fd, List.mem_append_right _ (List.mem_singleton.mpr rfl)⟩
  · intro _ hl
    simpa [tcpCreateAccepted, tcpAccept, tcpCreate, iodevInit] using hl

theorem netAct_seated (n : Net) (a : NetAct) (h : Seated n) (hok : a.Ok p n) : Seated (a.apply n) := by
  cases a with
  | device index a =>
    rcases hok with ⟨dev, hget, hok⟩
    simp only [NetAct.apply, hget]
    exact devAct_seated h hget a hok
  | lost index a =>
    rcases hok with ⟨-, dev, hget, -, ⟨rfl, -⟩ | ⟨k, rfl⟩⟩
    all_goals
      simp only [NetAct.apply, hget]
      exact h.of_world rfl (Adds.single (opensIn_of_ne (by simp)) _)
  | note ev => exact h.of_world rfl (Adds.single (Ev.IsNote.opensIn hok) _)
  | accept fd bufsize slot =>
    rcases hok with ⟨-, hpos, hslot⟩
    have hlog : Adds (Ev.OpensIn n.world.opens (n.world.opens + 1)) n.world.log
        (n.world.log ++ [.opened .accepted (n.world.opens + 1) fd]) :=
      Adds.single (opensIn_opened _ _ _) _
    cases slot with
    | some index =>
      rcases hslot with ⟨hone, old, hget, -, -⟩
      exact h.set hget (accepted_seated h hone) (.inr (Nat.lt_succ_self _)) (Nat.le_succ _) hlog
    | none => exact h.append (accepted_seated h hpos) (Nat.lt_succ_self _) (Nat.le_succ _) hlog

theorem netReaches_seated {n' : Net} (h : Seated n) (hreach : NetReaches p n n') : Seated n' :=
  hreach.preserves Seated netAct_seated h

/-- An action that is not lost leaves every descriptor with its device. -/
theorem netAct_owned (hp : ¬ p.lose) (n : Net) (a : NetAct) (h : Owned n) (hok : a.Ok p n) :
    Owned (a.apply n) := by
  have hseated := netAct_seated n a h.toSeated hok
  cases a with
  | lost index a => exact absurd hok.1 hp
  | note ev => exact h.of_fds hseated rfl rfl
  | device index a =>
    rcases hok with ⟨dev, hget, hok⟩
    simp only [NetAct.apply, hget] at hseated ⊢
    have hopened := h.opened dev (List.mem_of_getElem? hget)
    have hsame : ∀ fd ∈ n.world.fds, fd ≠ dev.fd → fd ∈ n.world.fds := fun fd hfd _ => hfd
    cases a with
    | tick | pace _ | note _ | received _ | sent _ | dropped | retired =>
      exact h.set hget hseated hopened (.inl rfl) hsame
    | refused => exact h.set hget hseated (fun hne => absurd rfl hne) (.inr (.inl rfl)) hsame
    | released =>
      -- the other descriptors stay open
      exact h.set hget hseated (fun hne => absurd rfl hne) (.inr (.inl rfl))
        (fun fd hfd hne => Finset.mem_erase.mpr ⟨hne, hfd⟩)
    | opened fd state =>
      exact h.set hget hseated (fun _ => Finset.mem_insert_self _ _) (.inr (.inr hok.2.2.1))
        (fun fd' hfd' _ => Finset.mem_insert_of_mem hfd')
  | accept fd bufsize slot =>
    rcases hok with ⟨hfresh, -, hslot⟩
    cases slot with
    | some index =>
      rcases hslot with ⟨-, old, hget, -, -⟩
      exact h.set hget hseated (fun _ => Finset.mem_insert_self _ _) (.inr (.inr hfresh))
        (fun fd' hfd' _ => Finset.mem_insert_of_mem hfd')
    | none =>
      exact h.append hseated (Finset.mem_insert_self _ _) hfresh
        (fun fd' hfd' => Finset.mem_insert_of_mem hfd')

theorem netReaches_owned (hp : ¬ p.lose) {n' : Net} (h : Owned n) (hreach : NetReaches p n n') :
    Owned n' := hreach.preserves Owned (netAct_owned hp) h

end Action

/-! ## A turn without a lost close -/

variable (clock : Nat → UTime)

/-- No turn of the dispatch closes a listener in a replaced block. -/
def NoStaleClose (a : RoundAnswers) (sets : FdSets) (sel : Selector) (w : World) : Prop :=
  RoundTurns (fun sets s answer => s.More → ¬ StaleClose sets s answer) clock a sets sel w

instance (a : RoundAnswers) (sets : FdSets) (sel : Selector) (w : World) :
    Decidable (NoStaleClose clock a sets sel w) := by
  delta NoStaleClose
  infer_instance

theorem dispatchStep_seated {sets : FdSets} {t : DispatchState} {answer : IoAnswer}
    (h : Seated (netOf t.selector t.world)) :
    Seated (netOf (dispatchStep clock sets t answer).selector
      (dispatchStep clock sets t answer).world) :=
  netReaches_seated h
    (dispatchStep_reaches (p := .any) (turnAll_losing clock sets t answer) (.inl trivial))

/-- A listener has nothing to write, so a close is all that can be lost. -/
theorem NoStaleClose.losesNothing {a : RoundAnswers} {sets : FdSets} {sel : Selector} {w : World}
    (hstale : NoStaleClose clock a sets sel w) (h : Seated (netOf sel w)) :
    RoundTurns LosesNothing clock a sets sel w := by
  intro hactive hrdy
  refine (hstale hactive hrdy).of_invariant (fun t => Seated (netOf t.selector t.world)) ?_ ?_ ?_
  · intro t answer ht _
    exact dispatchStep_seated clock ht
  · intro t answer ht hstale hmore
    exact ⟨hstale hmore, ht.silent⟩
  · exact netReaches_seated (p := .any) h (selectorIoset_reaches clock a.opens sets sel w)

/-- A round that loses a close opens a session. -/
theorem noStaleClose_or_opens (a : RoundAnswers) (sets : FdSets) (sel : Selector) (w : World) :
    NoStaleClose clock a sets sel w ∨ w.opens < (selectorRound clock a sets sel w).2.2.2.opens := by
  have hioset := netReaches_opens (selectorIoset_reaches (p := .any) clock a.opens sets sel w)
  refine or_iff_not_imp_right.mpr fun hopens hactive hrdy => ?_
  rw [selectorRound_dispatch clock hactive hrdy] at hopens
  refine (Machine.along_or_lt (fun t : DispatchState => t.world.opens) ?_ ?_ _).resolve_right ?_
  · intro t answer
    exact netReaches_opens
      (dispatchStep_reaches (p := .any) (turnAll_losing clock _ t answer) (.inl trivial))
  · intro t answer
    refine or_iff_not_imp_left.mpr fun hstale => ?_
    rw [Classical.not_imp, not_not] at hstale
    exact hstale.2.opens clock hstale.1
  · intro hlt
    exact hopens (hioset.trans_lt hlt)

/-- A round that loses no close is a sequence of actions that are not lost. -/
theorem NoStaleClose.reaches {a : RoundAnswers} {sets : FdSets} {sel : Selector} {w : World}
    (hstale : NoStaleClose clock a sets sel w) (h : Seated (netOf sel w)) :
    NetReaches (.losing False) (netOf sel w) (netOf (selectorRound clock a sets sel w).2.2.1
      (selectorRound clock a sets sel w).2.2.2) :=
  selectorRound_losing clock (.inr (hstale.losesNothing clock h))

/-! ## Cycles and reloads -/

theorem Ev.IsCycle.opensIn {opens opens' : Nat} {ev : Ev} (h : ev.IsCycle) :
    ev.OpensIn opens opens' := by
  refine opensIn_of_ne ?_
  rintro driver session fd rfl
  exact h

namespace Seated

/-- The buffers of a device change. -/
theorem buffers {n : Net} (h : Seated n) {index : Nat} {dev : Iodev}
    (hget : n.devs[index]? = some dev) (rbuf tbuf : RingBuffer) (linebuf : Option LineBuffer)
    (htbuf : dev.driver ≠ .serial → dev.listener = true → tbuf.size = dev.tbuf.size) :
    Seated ⟨n.devs.set index { dev with rbuf := rbuf, tbuf := tbuf, linebuf := linebuf }, n.world⟩ := by
  have hdev := h.devs index dev hget
  exact h.set hget (hdev.of_kept hdev.held (.inr rfl) rfl rfl rfl htbuf le_rfl (Adds.refl _))
    (.inl rfl) le_rfl (Adds.refl _)

/-- The serial device is no listener. -/
theorem connection {n : Net} (h : Seated n) {index : Nat} {dev : Iodev} (hpos : 1 ≤ index)
    (hget : n.devs[index]? = some dev) (hconn : dev.listener = false) : dev.driver = .accepted := by
  have hdev := h.devs index dev hget
  cases hd : dev.driver with
  | accepted => rfl
  | serial =>
    have := hdev.serial.mpr hd
    omega
  | listen =>
    have := hdev.listener hd
    rw [hconn] at this
    cases this

/-- The events of a cycle open nothing. -/
theorem cycle {n : Net} (h : Seated n) {w : World} (hopens : w.opens = n.world.opens)
    (hlog : Adds Ev.IsCycle n.world.log w.log) : Seated ⟨n.devs, w⟩ := by
  rcases hlog with ⟨evs, hlog, hevs⟩
  exact h.of_world hopens ⟨evs, hlog, fun ev hev => (hevs ev hev).opensIn⟩

/-- A mark of the main loop opens nothing. -/
theorem mark {sel : Selector} {w : World} (h : Seated (netOf sel w)) {ev : Ev} (hev : ev.isMark) :
    Seated (netOf sel (w.record ev)) := by
  refine h.of_world rfl (Adds.single (opensIn_of_ne ?_) _)
  rintro driver session fd rfl
  cases hev

end Seated

theorem processStep_seated (sBytes : Nat) {s : ProcessState} {index : Nat}
    (h : Seated (netOf s.app.selector s.world)) (hpos : 1 ≤ index) :
    Seated (netOf (processStep clock sBytes s index).app.selector
      (processStep clock sBytes s index).world) := by
  rcases processStep_cases clock sBytes s index with ⟨happ, hw, -⟩ | ⟨serial, dev, hs, hd, hconn⟩
  · rw [happ, hw]
    exact h
  · have hlog := processStep_log clock sBytes s index
    rcases processStep_spec clock sBytes hs hd hconn with
      ⟨stbuf, rbuf, tbuf, linebuf, _, _, hdevs, -, -, -, -, hopens, -, -⟩
    have hserial : serial.driver = .serial := (h.devs 0 serial hs).serial.mp rfl
    have hfirst := h.buffers hs serial.rbuf stbuf serial.linebuf (fun hne => absurd hserial hne)
    have hslot : (s.app.selector.toList.set 0 { serial with tbuf := stbuf })[index]? = some dev := by
      rw [List.getElem?_set_ne (by omega)]
      exact hd
    have hsecond := hfirst.buffers hslot rbuf tbuf linebuf (by
      intro _ hl
      rw [iodevIsListener] at hconn
      rw [hconn] at hl
      cases hl)
    rw [netOf, hdevs]
    exact hsecond.cycle hopens hlog

theorem processSerialData_seated {sel : Selector} {w : World} (h : Seated (netOf sel w))
    (copy : RingBuffer) {serial : Iodev} (hs : sel.toList[0]? = some serial) :
    Seated (netOf (sel.store 0 (hdmi2usbProcessSerialData copy serial w).2.2.1)
      (hdmi2usbProcessSerialData copy serial w).2.2.2) := by
  rcases processSerialData_shape copy serial w with ⟨rbuf, evs, hserial, hworld, hevs⟩
  rw [netOf, Selector.store_toList, hserial, hworld]
  refine (h.buffers hs rbuf serial.tbuf serial.linebuf (fun _ _ => rfl)).cycle rfl ⟨evs, rfl, ?_⟩
  intro ev hev
  rcases hevs ev hev with ⟨bytes, rfl⟩
  trivial

theorem hdmi2usbProcess_seated (app : Hdmi2usb) (rc : Int) {w : World}
    (h : Seated (netOf app.selector w)) :
    Seated (netOf (hdmi2usbProcess clock app rc w).2.1.selector
      (hdmi2usbProcess clock app rc w).2.2) := by
  exact hdmi2usbProcess_keeps clock (I := fun app w => Seated (netOf app.selector w)) h
    (fun _ _ _ h => h) (fun _ hs => processSerialData_seated h app.copy hs)
    (fun _ _ _ hpos h => processStep_seated clock _ h hpos) rc

/-- A device with the same descriptor takes a slot. -/
theorem map_fd_set {devs : List Iodev} {index : Nat} {dev dev' : Iodev}
    (hget : devs[index]? = some dev) (hfd : dev'.fd = dev.fd) :
    (devs.set index dev').map (·.fd) = devs.map (·.fd) := by
  refine List.ext_getElem? fun i => ?_
  rw [List.map_set, List.getElem?_set]
  split
  · next hi =>
    subst hi
    have hlt : index < (devs.map (·.fd)).length := by
      simpa using (List.getElem?_eq_some_iff.mp hget).1
    rw [if_pos hlt, List.getElem?_map, hget, hfd]
    rfl
  · rfl

/-- A cycle opens and closes nothing. -/
theorem hdmi2usbProcess_fds (app : Hdmi2usb) (rc : Int) (w : World) :
    (hdmi2usbProcess clock app rc w).2.1.selector.toList.map (·.fd) =
        app.selector.toList.map (·.fd) ∧
      (hdmi2usbProcess clock app rc w).2.2.fds = w.fds := by
  refine hdmi2usbProcess_keeps clock (I := fun app' w' =>
    app'.selector.toList.map (·.fd) = app.selector.toList.map (·.fd) ∧ w'.fds = w.fds) ⟨rfl, rfl⟩
    (fun _ _ _ h => h) ?_ ?_ rc
  · intro serial hs
    rcases processSerialData_shape app.copy serial w with ⟨rbuf, evs, hserial, hworld, -⟩
    rw [Selector.store_toList, hserial, hworld]
    exact ⟨map_fd_set hs rfl, rfl⟩
  · intro sBytes s index hpos h
    rcases processStep_cases clock sBytes s index with ⟨happ, hw, -⟩ | ⟨serial, dev, hs, hd, hconn⟩
    · rwa [happ, hw]
    · rcases processStep_spec clock sBytes hs hd hconn with
        ⟨stbuf, rbuf, tbuf, linebuf, _, _, hdevs, -, -, -, hfds, -, -, -⟩
      have hslot : (s.app.selector.toList.set 0 { serial with tbuf := stbuf })[index]? = some dev := by
        rw [List.getElem?_set_ne (by omega)]
        exact hd
      rw [hdevs, hfds]
      refine ⟨?_, h.2⟩
      rw [map_fd_set hslot, map_fd_set hs]
      · exact h.1
      · rfl
      · rfl

theorem hdmi2usbProcess_owned (app : Hdmi2usb) (rc : Int) {w : World}
    (h : Owned (netOf app.selector w)) :
    Owned (netOf (hdmi2usbProcess clock app rc w).2.1.selector
      (hdmi2usbProcess clock app rc w).2.2) :=
  h.of_fds (hdmi2usbProcess_seated clock app rc h.toSeated) (hdmi2usbProcess_fds clock app rc w).1
    (hdmi2usbProcess_fds clock app rc w).2

/-- Fresh devices own nothing. -/
theorem initialDevices_owned {n : Net} (h : InitialDevices n.devs)
    (hlog : ∀ driver session fd, .opened driver session fd ∈ n.world.log →
      0 < session ∧ session ≤ n.world.opens) : Owned n := by
  have hfresh : ∀ (i : Nat) x, n.devs[i]? = some x → x.Fresh :=
    fun i x hx => h.1 x (List.mem_of_getElem? hx)
  refine ⟨⟨?_, ?_, hlog⟩, ?_, ?_⟩
  · intro index dev hget
    have hfresh := hfresh index dev hget
    refine ⟨?_, fun hne => absurd hfresh.fd hne, ?_, fun hne => absurd hfresh.fd hne, ?_,
      h.2 index dev hget, hfresh.listener, fun hacc => absurd hacc hfresh.driver, ?_⟩
    · refine iff_of_false (fun hne => hne hfresh.fd) ?_
      rw [hfresh.state]
      decide
    · rw [hfresh.session]
      exact Nat.zero_le _
    · intro driver fd hmem
      rw [hfresh.session] at hmem
      exact absurd (hlog driver 0 fd hmem).1 (Nat.lt_irrefl 0)
    · intro hserial _
      cases hd : dev.driver with
      | serial => exact absurd hd hserial
      | listen => exact hfresh.tbuf hd
      | accepted => exact absurd hd hfresh.driver
  · intro i j x y _ hx _ _
    exact (hfresh i x hx).session
  · intro dev hmem hne
    exact absurd (h.1 dev hmem).fd hne
  · intro i j x y _ hx _ _
    exact (hfresh i x hx).fd

/-! ## Runs -/

/-- An initialisation that ends has fresh devices. -/
theorem hdmi2usbInit_owned {a : InitAnswers} {app app' : Hdmi2usb} {rc rc' : Int} {w w' : World}
    (h : Seated (netOf app.selector w)) (hinit : hdmi2usbInit clock a app rc w = some (rc', app', w')) :
    Owned (netOf app'.selector w') := by
  rcases hdmi2usbInit_spec hinit with ⟨hdevs, -, -, -, -, hopens, hlog⟩
  refine initialDevices_owned hdevs ?_
  simp only [netOf, hlog, hopens]
  exact h.log

theorem step_seated (d : Daemon) (i : Input) (h : Seated (netOf d.app.selector d.world)) :
    Seated (netOf (d.step clock i).app.selector (d.step clock i).world) := by
  refine d.step_keeps clock (I := fun app w => Seated (netOf app.selector w)) h
    (fun _ hev => h.mark hev) ?_ ?_ (hdmi2usbProcess_seated clock d.app 0 (h.mark rfl))
  · intro a _ _
    exact netReaches_seated h (selectorRound_any clock a d.sets d.app.selector d.world)
  · intro a rc app w hinit
    exact (hdmi2usbInit_owned clock (h.mark rfl) hinit).toSeated

/-- Only a close that is lost takes a descriptor from its device. -/
theorem step_owned (d : Daemon) (i : Input) (h : Owned (netOf d.app.selector d.world))
    (hstale : InRounds (NoStaleClose clock) d i) :
    Owned (netOf (d.step clock i).app.selector (d.step clock i).world) := by
  have hmark : ∀ ev : Ev, ev.isMark → Owned (netOf d.app.selector (d.world.record ev)) :=
    fun ev hev => h.of_fds (h.mark hev) rfl rfl
  rcases d.step_cases clock i with ⟨happ, hw⟩ | ⟨a, rfl, hpc, hd⟩ | ⟨a, -, -, -, hd⟩ |
    ⟨a, -, -, -, happ, hw⟩ | ⟨sig, -, happ, hw⟩
  · rw [happ, hw]
    exact h
  · rw [hd]
    exact netReaches_owned id h ((hstale.of_loop hpc).reaches clock h.toSeated)
  · rw [hd]
    rcases Daemon.initialise_cases clock { d with world := d.world.record .reloaded } exSuccess a with
      ⟨happ, hw⟩ | ⟨rc, app, w, hinit, happ, hw⟩
    · rw [happ, hw]
      exact hmark .reloaded rfl
    · rw [happ, hw]
      exact hdmi2usbInit_owned clock (h.mark rfl) hinit
  · rw [happ, hw]
    exact hdmi2usbProcess_owned clock d.app 0 (hmark .processed rfl)
  · rw [happ, hw]
    exact hmark (.signalled sig.toNat) rfl

theorem start_owned (iobufsize : Nat) (a : InitAnswers) :
    Owned (netOf (Daemon.start clock iobufsize a).app.selector
      (Daemon.start clock iobufsize a).world) := by
  rcases Daemon.start_spec clock iobufsize a with ⟨hdevs, -, -, -, hlog, -⟩
  refine initialDevices_owned hdevs ?_
  simp only [netOf, hlog]
  intro driver session fd hmem
  cases hmem

theorem start_seated (iobufsize : Nat) (a : InitAnswers) :
    Seated (netOf (Daemon.start clock iobufsize a).app.selector
      (Daemon.start clock iobufsize a).world) := (start_owned clock iobufsize a).toSeated

/-- In every state that the daemon reaches, its devices are where they belong. -/
theorem run_seated (iobufsize : Nat) (a : InitAnswers) (inputs : List Input) :
    Seated (netOf (run (Daemon.step clock) (Daemon.start clock iobufsize a) inputs).app.selector
      (run (Daemon.step clock) (Daemon.start clock iobufsize a) inputs).world) :=
  Machine.run_invariant (fun d : Daemon => Seated (netOf d.app.selector d.world))
    (fun d i h => step_seated clock d i h) (start_seated clock iobufsize a) inputs

/-- In every state that the daemon reaches without a lost close, its devices own what they hold. -/
theorem run_owned {iobufsize : Nat} {a : InitAnswers} {inputs : List Input}
    (h : Along (Daemon.step clock) (InRounds (NoStaleClose clock)) (Daemon.start clock iobufsize a)
      inputs) :
    Owned (netOf (run (Daemon.step clock) (Daemon.start clock iobufsize a) inputs).app.selector
      (run (Daemon.step clock) (Daemon.start clock iobufsize a) inputs).world) :=
  Machine.run_invariant_along (fun d : Daemon => Owned (netOf d.app.selector d.world))
    (fun d i hd hstale => step_owned clock d i hd hstale) (start_owned clock iobufsize a) h

end Hdmi2usbd
