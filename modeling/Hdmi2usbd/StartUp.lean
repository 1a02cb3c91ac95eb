import Hdmi2usbd.Daemon
import Hdmi2usbd.Netutils

/-!
# StartUp — the listeners of `hdmi2usb_init`

The loop over the addresses makes at most one listener for each family and one for the wildcard
address, whatever the resolver returns (`listenLoop_toList`, `chosen_atMostOneEach`). But a
resolver that fails is not noticed before its list is used, and a list without an address of
either family leaves the exit code as it is (`startsClean_iff`).
-/

namespace Hdmi2usbd

open Loop (Ends)

/-! ## The loop over the iterator -/

/-- A turn of the loop of `hdmi2usb_init`, over the iterator; the result `none` is a use of a
null pointer. -/
def listenTurn (iobufsize : Nat) :
    Ipaddriter × Nat × Selector → (Ipaddriter × Nat × Selector) ⊕ Option Selector
  | (iter, listenPorts, sel) =>
    if ipaddriterHasnext iter then
      match ipaddriterNext iter with
      | (none, _) => .inr none
      | (some addr, iter) =>
        match addr.family.bit with
        | none => .inl (iter, listenPorts, sel)
        | some bit =>
          let s :=
            if addr.addr = 0 then (listenPorts ||| 4, sel)
            else if listenPorts &&& bit = 0 then
              (listenPorts ||| bit, selectorNewDeviceListen addr iobufsize sel)
            else (listenPorts, sel)
          if s.1 &&& 4 ≠ 0 then .inr (some (selectorNewDeviceListen addr iobufsize s.2))
          else if s.1 = 3 then .inr (some s.2)
          else .inl (iter, s.1, s.2)
    else .inr (some sel)

/-- The loop over an iterator is the loop over the addresses ahead of it. -/
theorem Ahead.listenTurn_ends {addrs : Ipaddrs} {iter : Ipaddriter} {rest : List SockAddr}
    (h : Ahead addrs iter rest) (iobufsize listenPorts : Nat) (sel : Selector) :
    Ends (listenTurn iobufsize) (iter, listenPorts, sel)
      (some (listenLoop iobufsize rest listenPorts sel)) := by
  induction rest generalizing iter listenPorts sel with
  | nil =>
    have hnext : ¬ ipaddriterHasnext iter = true := fun hnext => h.hasnext.mp hnext rfl
    refine Loop.ends_of_inr ?_
    simp only [listenTurn, if_neg hnext, listenLoop]
  | cons addr rest ih =>
    have hhas := h.hasnext.mpr (List.cons_ne_nil addr rest)
    obtain ⟨iter', hnext, hahead⟩ := h.next
    unfold listenLoop
    cases hbit : addr.family.bit with
    | none =>
      have hstep : Loop.Steps (listenTurn iobufsize) (iter, listenPorts, sel)
          (iter', listenPorts, sel) := by
        simp only [Loop.Steps, listenTurn, hhas, if_true, hnext, hbit]
      exact (Loop.ends_iff_of_steps hstep).mpr (ih hahead listenPorts sel)
    | some bit =>
      simp only
      generalize hs : (if addr.addr = 0 then (listenPorts ||| 4, sel)
        else if listenPorts &&& bit = 0 then
          (listenPorts ||| bit, selectorNewDeviceListen addr iobufsize sel)
        else (listenPorts, sel)) = s
      have hturn : listenTurn iobufsize (iter, listenPorts, sel) =
          if s.1 &&& 4 ≠ 0 then .inr (some (selectorNewDeviceListen addr iobufsize s.2))
          else if s.1 = 3 then .inr (some s.2)
          else .inl (iter', s.1, s.2) := by
        simp only [listenTurn, hhas, if_true, hnext, hbit, hs]
      by_cases hwild : s.1 &&& 4 ≠ 0
      · rw [if_pos hwild] at hturn ⊢
        exact Loop.ends_of_inr hturn
      · rw [if_neg hwild] at hturn ⊢
        by_cases hboth : s.1 = 3
        · rw [if_pos hboth] at hturn ⊢
          exact Loop.ends_of_inr hturn
        · rw [if_neg hboth] at hturn ⊢
          exact (Loop.ends_iff_of_steps hturn).mpr (ih hahead s.1 s.2)

theorem ends_listenLoop (addrs : Ipaddrs) (iobufsize : Nat) (sel : Selector) :
    Ends (listenTurn iobufsize) (ipaddriterNew addrs, 0, sel)
      (some (listenLoop iobufsize addrs.toList 0 sel)) :=
  Ahead.new.listenTurn_ends iobufsize 0 sel

/-! ## The addresses that get a listener -/

/-- The addresses for which the loop makes a listener. -/
def chosen : List SockAddr → Nat → List SockAddr
  | [], _ => []
  | addr :: addrs, listenPorts =>
    match addr.family.bit with
    | none => chosen addrs listenPorts
    | some bit =>
      if addr.addr = 0 then [addr]
      else if listenPorts &&& bit = 0 then
        addr :: if listenPorts ||| bit = 3 then [] else chosen addrs (listenPorts ||| bit)
      else chosen addrs listenPorts

theorem Family.bit_cases {family : Family} {bit : Nat} (h : family.bit = some bit) :
    bit = 1 ∨ bit = 2 := by
  cases family <;> cases h <;> simp

theorem listenPorts_bits {listenPorts bit : Nat} (hports : listenPorts < 3)
    (hbit : bit = 1 ∨ bit = 2) :
    (listenPorts ||| 4) &&& 4 ≠ 0 ∧ listenPorts &&& 4 = 0 ∧ (listenPorts ||| bit) &&& 4 = 0 ∧
      listenPorts ||| bit ≤ 3 ∧ (listenPorts ||| bit) &&& bit ≠ 0 := by
  obtain rfl | rfl | rfl : listenPorts = 0 ∨ listenPorts = 1 ∨ listenPorts = 2 := by omega
  all_goals rcases hbit with rfl | rfl <;> decide

theorem newDeviceListen_toList {sel : Selector} (hsel : ∀ dev ∈ sel.toList, dev.Fresh)
    (addr : SockAddr) (iobufsize : Nat) :
    (selectorNewDeviceListen addr iobufsize sel).toList =
        sel.toList ++ [tcpCreateListen addr iobufsize] ∧
      ∀ dev ∈ (selectorNewDeviceListen addr iobufsize sel).toList, dev.Fresh := by
  have hlist := selectorPlace_fresh hsel (tcpCreateListen addr iobufsize)
  refine ⟨hlist, fun dev hmem => ?_⟩
  rw [selectorNewDeviceListen, hlist] at hmem
  rcases List.mem_append.mp hmem with hmem | hmem
  · exact hsel dev hmem
  · rw [List.mem_singleton.mp hmem]
    exact tcpCreateListen_fresh addr iobufsize

/-- The loop appends a listener for each of them. -/
theorem listenLoop_toList (iobufsize : Nat) (addrs : List SockAddr) {listenPorts : Nat}
    (hports : listenPorts < 3) {sel : Selector} (hsel : ∀ dev ∈ sel.toList, dev.Fresh) :
    (listenLoop iobufsize addrs listenPorts sel).toList =
      sel.toList ++ (chosen addrs listenPorts).map (tcpCreateListen · iobufsize) := by
  induction addrs generalizing listenPorts sel with
  | nil => simp [listenLoop, chosen]
  | cons addr addrs ih =>
    unfold listenLoop chosen
    cases hbit : addr.family.bit with
    | none => exact ih hports hsel
    | some bit =>
      obtain ⟨hwild, hnone, hadd, hmax, -⟩ := listenPorts_bits hports (Family.bit_cases hbit)
      obtain ⟨hlist, hfresh⟩ := newDeviceListen_toList hsel addr iobufsize
      simp only
      by_cases haddr : addr.addr = 0
      · simp only [haddr, if_true, hwild, ne_eq, not_false_eq_true]
        exact hlist
      · simp only [haddr, if_false]
        by_cases hfree : listenPorts &&& bit = 0
        · simp only [hfree, if_true, hadd, ne_eq, not_true_eq_false, if_false]
          by_cases hboth : listenPorts ||| bit = 3
          · simp only [hboth, if_true]
            exact hlist
          · simp only [hboth, if_false]
            rw [ih (by omega) hfresh, hlist, List.append_assoc]
            rfl
        -- the family has its listener already
        · have hthree : listenPorts ≠ 3 := by omega
          simp only [hfree, if_false, hnone, ne_eq, not_true_eq_false, hthree]
          exact ih hports hsel

/-! ## At most one each -/

/-- One address of a family at most, and one wildcard address at most, the last one. -/
def AtMostOneEach (listeners : List SockAddr) : Prop :=
  ∃ named wild, listeners = named ++ wild ∧ (named.map SockAddr.family).Nodup ∧
    (∀ addr ∈ named, addr.addr ≠ 0) ∧ wild.length ≤ 1 ∧ ∀ addr ∈ wild, addr.addr = 0

theorem chosen_atMostOneEach (addrs : List SockAddr) {listenPorts : Nat} (hports : listenPorts < 3) :
    ∃ named wild, chosen addrs listenPorts = named ++ wild ∧
      (named.map SockAddr.family).Nodup ∧ (∀ addr ∈ named, addr.addr ≠ 0) ∧
      (∀ addr ∈ named, ∃ bit, addr.family.bit = some bit ∧ listenPorts &&& bit = 0) ∧
      wild.length ≤ 1 ∧ ∀ addr ∈ wild, addr.addr = 0 := by
  induction addrs generalizing listenPorts with
  | nil => exact ⟨[], [], rfl, by simp⟩
  | cons addr addrs ih =>
    unfold chosen
    cases hbit : addr.family.bit with
    | none => exact ih hports
    | some bit =>
      obtain ⟨-, -, -, hmax, hset⟩ := listenPorts_bits hports (Family.bit_cases hbit)
      simp only
      by_cases haddr : addr.addr = 0
      · rw [if_pos haddr]
        exact ⟨[], [addr], rfl, by simp [haddr]⟩
      · rw [if_neg haddr]
        by_cases hfree : listenPorts &&& bit = 0
        · rw [if_pos hfree]
          by_cases hboth : listenPorts ||| bit = 3
          · rw [if_pos hboth]
            exact ⟨[addr], [], rfl, by simp [haddr, hbit, hfree]⟩
          · rw [if_neg hboth]
            obtain ⟨named, wild, heq, hnodup, hnamed, hbits, hlen, hwild⟩ :=
              ih (show listenPorts ||| bit < 3 by omega)
            refine ⟨addr :: named, wild, by rw [heq]; rfl, ?_, ?_, ?_, hlen, hwild⟩
            · rw [List.map_cons, List.nodup_cons]
              refine ⟨fun hmem => ?_, hnodup⟩
              -- a second address of the family finds its bit set
              obtain ⟨addr', hmem', hfamily⟩ := List.mem_map.mp hmem
              obtain ⟨bit', hbit', hfree'⟩ := hbits addr' hmem'
              rw [hfamily, hbit, Option.some.injEq] at hbit'
              rw [← hbit'] at hfree'
              exact hset hfree'
            · intro a ha
              rcases List.mem_cons.mp ha with rfl | ha
              · exact haddr
              · exact hnamed a ha
            · intro a ha
              rcases List.mem_cons.mp ha with rfl | ha
              · exact ⟨bit, hbit, hfree⟩
              · obtain ⟨bit', hbit', hfree'⟩ := hbits a ha
                rw [Nat.and_or_distrib_right, Nat.or_eq_zero_iff] at hfree'
                exact ⟨bit', hbit', hfree'.1⟩
        · rw [if_neg hfree]
          exact ih hports

/-- An address of either family gets a listener at once. -/
theorem chosen_ne_nil_iff (addrs : List SockAddr) :
    chosen addrs 0 ≠ [] ↔ ∃ addr ∈ addrs, addr.family ≠ .other := by
  induction addrs with
  | nil => simp [chosen]
  | cons addr addrs ih =>
    unfold chosen
    cases hfamily : addr.family with
    | other => simp [Family.bit, hfamily, ih]
    | inet | inet6 =>
      refine iff_of_true ?_ ⟨addr, List.mem_cons_self, by rw [hfamily]; simp⟩
      simp only [Family.bit]
      split <;> simp

/-! ## Start-up -/

/-- The addresses of the listeners. -/
def listeners (sel : Selector) : List SockAddr :=
  (sel.toList.filter fun dev => dev.driver = .listen).filterMap Iodev.laddr

/-- The start with a serial port: no missing list is used, there are not too many listeners, and
without a listener it fails. -/
def StartsClean (clock : Nat → UTime) (a : InitAnswers) (app : Hdmi2usb) (rc : Int) (w : World) :
    Prop :=
  ∃ rc' app' w', hdmi2usbInit clock a app rc w = some (rc', app', w') ∧
    AtMostOneEach (listeners app'.selector) ∧ (listeners app'.selector = [] → rc' ≠ exSuccess)

theorem listeners_map (addrs : List SockAddr) (iobufsize : Nat) :
    ((addrs.map (tcpCreateListen · iobufsize)).filter fun dev =>
      dev.driver = .listen).filterMap Iodev.laddr = addrs := by
  have hfilter : ((addrs.map (tcpCreateListen · iobufsize)).filter fun dev =>
      dev.driver = .listen) = addrs.map (tcpCreateListen · iobufsize) := by
    rw [List.filter_eq_self]
    intro dev hmem
    obtain ⟨addr, -, rfl⟩ := List.mem_map.mp hmem
    rfl
  have hladdr : Iodev.laddr ∘ (tcpCreateListen · iobufsize) = some := rfl
  rw [hfilter, List.filterMap_map, hladdr, List.filterMap_some]

theorem listeners_of_init {clock : Nat → UTime} {a : InitAnswers} {app app' : Hdmi2usb}
    {rc rc' : Int} {w w' : World} (h : hdmi2usbInit clock a app rc w = some (rc', app', w'))
    {addrs : List SockAddr} (hport : a.port.isSome) (haddrs : a.addrs = some addrs) :
    rc' = rc ∧ listeners app'.selector = chosen addrs 0 := by
  rcases hdmi2usbInit_cases h with ⟨hnone, -⟩ | ⟨port, addrs', -, haddrs', hrc, rfl, -⟩
  · rw [hnone] at hport
    cases hport
  · rw [haddrs, Option.some.injEq] at haddrs'
    subst haddrs'
    refine ⟨hrc, ?_⟩
    have hserial := serialCreate_fresh clock app.opts.iobufsize w
    have hlist : (selectorPlace selectorInit (serialCreate clock app.opts.iobufsize w).1).toList =
        [(serialCreate clock app.opts.iobufsize w).1] := by
      rw [selectorPlace_fresh (by simp), selectorInit_toList, List.nil_append]
    have hother : decide ((serialCreate clock app.opts.iobufsize w).1.driver = .listen) = false := rfl
    simp only [listeners]
    rw [listenLoop_toList _ addrs (by omega) (by rw [hlist]; simpa using hserial), hlist,
      List.singleton_append, List.filter_cons_of_neg (by rw [hother]; simp)]
    exact listeners_map _ app.opts.iobufsize

/-- A start is clean exactly if there is a list, and in it an address of either family unless the
exit code is a failure already. -/
theorem startsClean_iff (clock : Nat → UTime) {a : InitAnswers} (hport : a.port.isSome)
    (app : Hdmi2usb) (rc : Int) (w : World) :
    StartsClean clock a app rc w ↔
      ∃ addrs, a.addrs = some addrs ∧
        ((∃ addr ∈ addrs, addr.family ≠ .other) ∨ rc ≠ exSuccess) := by
  constructor
  · rintro ⟨rc', app', w', hinit, -, hfails⟩
    rcases hdmi2usbInit_cases hinit with ⟨hnone, -⟩ | ⟨port, addrs, -, haddrs, -⟩
    · rw [hnone] at hport
      cases hport
    · refine ⟨addrs, haddrs, ?_⟩
      obtain ⟨hrc, hlisteners⟩ := listeners_of_init hinit hport haddrs
      rw [hlisteners, hrc] at hfails
      rw [← chosen_ne_nil_iff]
      by_cases hnil : chosen addrs 0 = []
      · exact .inr (hfails hnil)
      · exact .inl hnil
  · rintro ⟨addrs, haddrs, hsome⟩
    obtain ⟨port, hport'⟩ := Option.isSome_iff_exists.mp hport
    obtain ⟨rc', app', w', hinit⟩ : ∃ rc' app' w',
        hdmi2usbInit clock a app rc w = some (rc', app', w') := by
      simp only [hdmi2usbInit, hport', haddrs]
      exact ⟨_, _, _, rfl⟩
    obtain ⟨hrc, hlisteners⟩ := listeners_of_init hinit hport haddrs
    refine ⟨rc', app', w', hinit, ?_, ?_⟩
    · rw [hlisteners]
      obtain ⟨named, wild, heq, hnodup, hnamed, -, hlen, hwild⟩ :=
        chosen_atMostOneEach addrs (show 0 < 3 by omega)
      exact ⟨named, wild, heq, hnodup, hnamed, hlen, hwild⟩
    · rw [hlisteners, hrc]
      intro hnil
      rcases hsome with hsome | hrc'
      · exact absurd hnil ((chosen_ne_nil_iff addrs).mpr hsome)
      · exact hrc'

/-- Addresses of another family and of both, one of them twice, and a wildcard address. -/
def mixedAddresses : List SockAddr := [⟨.other, 7⟩, ⟨.inet, 1⟩, ⟨.inet, 1⟩, ⟨.inet6, 0⟩, ⟨.inet6, 5⟩]

theorem startsClean_mixedAddresses :
    StartsClean (fun _ => 0) ⟨some "/dev/ttyACM0", some mixedAddresses⟩
      ⟨⟨2048⟩, selectorInit, .init 4096, ⟨0, 0⟩⟩ 0 .init :=
  (startsClean_iff (fun _ => 0) rfl _ 0 .init).mpr ⟨_, rfl, .inl (by decide)⟩

/-- The resolver fails: its missing list is used. -/
theorem failed_resolver_is_used :
    ¬ ∀ (clock : Nat → UTime) (a : InitAnswers) (app : Hdmi2usb) (rc : Int) (w : World),
      a.port.isSome → StartsClean clock a app rc w := by
  intro h
  obtain ⟨rc', app', w', hinit, -⟩ := h (fun _ => 0) ⟨some "/dev/ttyACM0", none⟩
    ⟨⟨2048⟩, selectorInit, .init 4096, ⟨0, 0⟩⟩ 0 .init rfl
  rcases hdmi2usbInit_cases hinit with ⟨hnone, -⟩ | ⟨port, addrs, -, haddrs, -⟩
  · cases hnone
  · cases haddrs

end Hdmi2usbd
