import Hdmi2usbd.Lib.Cut
import Hdmi2usbd.OptionLoop

/-!
# ListenArg — the argument of `-l`

The case of `-l` takes an address and what `parse_port` makes of the text behind it. `parse_port`
skips a character unseen, and it leaves the rest to `strtoul`, which also takes spaces, a sign
and numbers of any size. So the argument is parsed as its forms say, except where the text behind
the address is wrong in just these ways (`listenExact_iff`).
-/

namespace Hdmi2usbd.Argv

open Getopt (Word State getoptLong)
open Loop (Steps)

/-! ## The forms -/

/-- The text behind the colon: nothing, or a port. -/
inductive PortText : Word → Option Nat → Prop
  | nothing : PortText [] none
  | port {digits : Word} (hne : digits ≠ []) (hdigits : ∀ c ∈ digits, c.isDigit = true)
      (hmax : Nat.ofDigitChars 10 digits 0 ≤ 65535) :
      PortText digits (some (Nat.ofDigitChars 10 digits 0))

/-- The forms of an argument, with its address and port. -/
inductive ListenForm : Word → Word → Option Nat → Prop
  | host {host : Word} (hcolon : ':' ∉ host) (hbracket : host.head? ≠ some '[') :
      ListenForm host host none
  | hostPort {host text : Word} {port : Option Nat} (hcolon : ':' ∉ host)
      (hbracket : host.head? ≠ some '[') (hport : PortText text port) :
      ListenForm (host ++ ':' :: text) host port
  | addr {addr : Word} (hclose : ']' ∉ addr) : ListenForm ('[' :: (addr ++ [']'])) addr none
  | addrPort {addr text : Word} {port : Option Nat} (hclose : ']' ∉ addr)
      (hport : PortText text port) : ListenForm ('[' :: (addr ++ ']' :: ':' :: text)) addr port

/-- The argument is parsed as its forms say. -/
structure ListenExact (usable : Nat → Nat) (argv : List Word) (t : Opts × State) (arg : Word) :
    Prop where
  accepts : (∃ t', Steps (parseTurn usable argv) t t') ↔ ∃ addr port, ListenForm arg addr port
  rejects : (¬ ∃ addr port, ListenForm arg addr port) →
    ∃ rc opts, rc ≠ exSuccess ∧ parseTurn usable argv t = .inr (.returns rc opts)
  stores : ∀ addr port t', ListenForm arg addr port → Steps (parseTurn usable argv) t t' →
    t'.1.listenAddr = (if addr ≠ [] then addr else t.1.listenAddr) ∧
    ∀ n ∈ port, t'.1.listenPort.toNat = n

/-! ## What `strtoul` reads to the end -/

/-- Spaces, a sign and digits. -/
def IsNumber (text : Word) : Prop :=
  ∃ spaces sign digits, text = spaces ++ (sign ++ digits) ∧ (∀ c ∈ spaces, isspace c = true) ∧
    (sign = [] ∨ sign = ['-'] ∨ sign = ['+']) ∧ digits ≠ [] ∧ ∀ c ∈ digits, c.isDigit = true

/-- Behind a sign. -/
def skipSign (s : Word) : Word :=
  if s.head? = some '-' ∨ s.head? = some '+' then s.tail else s

theorem strtoul_snd (text : Word) :
    (strtoul text).2 =
      if (skipSign (text.dropWhile isspace)).takeWhile Char.isDigit = [] then text
      else (skipSign (text.dropWhile isspace)).dropWhile Char.isDigit := by
  simp only [strtoul, skipSign, apply_ite Prod.snd]
  rfl

theorem sign_append_skipSign (s : Word) :
    ∃ sign, (sign = [] ∨ sign = ['-'] ∨ sign = ['+']) ∧ s = sign ++ skipSign s := by
  cases s with
  | nil => exact ⟨[], .inl rfl, rfl⟩
  | cons c s =>
    by_cases hminus : c = '-'
    · exact ⟨['-'], .inr (.inl rfl), by simp [skipSign, hminus]⟩
    · by_cases hplus : c = '+'
      · exact ⟨['+'], .inr (.inr rfl), by simp [skipSign, hplus]⟩
      · exact ⟨[], .inl rfl, by simp [skipSign, hminus, hplus]⟩

theorem skipSign_sign_append {sign digits : Word} (hsign : sign = [] ∨ sign = ['-'] ∨ sign = ['+'])
    (hne : digits ≠ []) (hdigits : ∀ c ∈ digits, c.isDigit = true) :
    (sign ++ digits).dropWhile isspace = sign ++ digits ∧ skipSign (sign ++ digits) = digits := by
  cases digits with
  | nil => exact absurd rfl hne
  | cons c digits =>
    obtain ⟨hspace, hminus, hplus⟩ := isDigit_bounds (hdigits c List.mem_cons_self)
    rcases hsign with rfl | rfl | rfl
    · simp [skipSign, hspace, hminus, hplus]
    · exact ⟨rfl, rfl⟩
    · exact ⟨rfl, rfl⟩

theorem strtoul_end_iff {text : Word} (hne : text ≠ []) :
    (strtoul text).2 = [] ↔ IsNumber text := by
  rw [strtoul_snd]
  constructor
  · intro hend
    split at hend
    · exact absurd hend hne
    · next hsome =>
      obtain ⟨sign, hsign, hsplit⟩ := sign_append_skipSign (text.dropWhile isspace)
      have hdigits := List.dropWhile_eq_nil_iff.mp hend
      refine ⟨text.takeWhile isspace, sign, _, ?_, fun c hc => List.mem_takeWhile_imp hc, hsign, ?_,
        hdigits⟩
      · rw [← hsplit, List.takeWhile_append_dropWhile]
      · intro hnil
        rw [hnil] at hsome
        exact hsome rfl
  · rintro ⟨spaces, sign, digits, rfl, hspaces, hsign, hsome, hdigits⟩
    obtain ⟨hspace, hskip⟩ := skipSign_sign_append hsign hsome hdigits
    rw [List.dropWhile_append_of_pos hspaces, hspace, hskip,
      List.takeWhile_eq_self_iff.mpr hdigits, if_neg hsome, List.dropWhile_eq_nil_iff.mpr hdigits]

/-! ## The case of `-l` -/

/-- The address. -/
def addrText (arg : Word) : Word :=
  if arg.head? = some '[' then arg.tail.takeWhile (· ≠ ']') else arg.takeWhile (· ≠ ':')

/-- The text behind the address, as the case of `-l` finds it. -/
def behindAddr (arg : Word) : Word :=
  if arg.head? = some '[' then (arg.tail.dropWhile (· ≠ ']')).tail else arg.dropWhile (· ≠ ':')

@[simp] theorem addrText_bracket (str : Word) :
    addrText ('[' :: str) = str.takeWhile (· ≠ ']') := if_pos rfl

@[simp] theorem behindAddr_bracket (str : Word) :
    behindAddr ('[' :: str) = (str.dropWhile (· ≠ ']')).tail := if_pos rfl

theorem addrText_of_head {arg : Word} (h : arg.head? ≠ some '[') :
    addrText arg = arg.takeWhile (· ≠ ':') := if_neg h

theorem behindAddr_of_head {arg : Word} (h : arg.head? ≠ some '[') :
    behindAddr arg = arg.dropWhile (· ≠ ':') := if_neg h

/-- A bracket that is opened is closed. -/
def IsClosed (arg : Word) : Prop := arg.head? = some '[' → ']' ∈ arg.tail

instance : DecidablePred IsClosed := fun arg =>
  inferInstanceAs (Decidable (arg.head? = some '[' → ']' ∈ arg.tail))

theorem optListen_eq (opts : Opts) (arg : Word) :
    optListen opts arg =
      if IsClosed arg then setListen opts (addrText arg) (behindAddr arg)
      else (exStartup, opts) := by
  by_cases hbracket : arg.head? = some '['
  · cases arg with
    | nil => cases hbracket
    | cons c str =>
      cases hbracket
      simp [optListen, IsClosed, addrText, behindAddr]
  · have hclosed : IsClosed arg := fun h => absurd h hbracket
    rw [if_pos hclosed, addrText_of_head hbracket, behindAddr_of_head hbracket]
    unfold optListen
    split
    · exact absurd rfl hbracket
    · rfl

/-- What the forms say of the text behind the address. -/
def PortPart (rest : Word) (port : Option Nat) : Prop :=
  rest = [] ∧ port = none ∨ ∃ text, rest = ':' :: text ∧ PortText text port

/-- An argument without a bracket: the address is cut off at the first colon. -/
theorem listenForm_host_iff {arg addr : Word} {port : Option Nat} (hhead : arg.head? ≠ some '[') :
    ListenForm arg addr port ↔
      addr = arg.takeWhile (· ≠ ':') ∧ PortPart (arg.dropWhile (· ≠ ':')) port := by
  constructor
  · intro h
    cases h with
    | host hcolon =>
      obtain ⟨hxs, hys⟩ := Cut.cut_append hcolon [] (by simp)
      rw [List.append_nil] at hxs hys
      exact ⟨hxs.symm, .inl ⟨hys, rfl⟩⟩
    | @hostPort _ text _ hcolon _ hport =>
      obtain ⟨hxs, hys⟩ := Cut.cut_append hcolon (':' :: text) (by simp)
      exact ⟨hxs.symm, .inr ⟨text, hys, hport⟩⟩
    | addr => exact absurd rfl hhead
    | addrPort => exact absurd rfl hhead
  · rintro ⟨rfl, hport⟩
    have harg := List.takeWhile_append_dropWhile (p := (· ≠ ':')) (l := arg)
    have hfree := Cut.notMem_takeWhile ':' arg
    have hbracket : (arg.takeWhile (· ≠ ':')).head? ≠ some '[' := by
      intro h
      rw [← harg, List.head?_append, h] at hhead
      exact hhead rfl
    rcases hport with ⟨hrest, rfl⟩ | ⟨text, hrest, htext⟩
    · have hform := ListenForm.host hfree hbracket
      rw [hrest, List.append_nil] at harg
      rw [harg] at hform ⊢
      exact hform
    · have hform := ListenForm.hostPort hfree hbracket htext
      rw [hrest] at harg
      rw [harg] at hform
      exact hform

/-- An argument with a bracket, which has to be closed: the address is what is in it. -/
theorem listenForm_bracket_iff {str addr : Word} {port : Option Nat} :
    ListenForm ('[' :: str) addr port ↔
      ']' ∈ str ∧ addr = str.takeWhile (· ≠ ']') ∧
        PortPart (str.dropWhile (· ≠ ']')).tail port := by
  constructor
  · intro h
    generalize harg : '[' :: str = arg at h
    cases h with
    | host _ hbracket => exact absurd (congrArg List.head? harg.symm) hbracket
    | @hostPort _ text _ _ hbracket =>
      cases addr with
      | nil => cases harg
      | cons c addr =>
        cases harg
        exact absurd rfl hbracket
    | addr hclose =>
      cases harg
      obtain ⟨hxs, hys⟩ := Cut.cut_append hclose [']'] (by simp)
      rw [hxs, hys]
      exact ⟨by simp, rfl, .inl ⟨rfl, rfl⟩⟩
    | @addrPort _ text _ hclose hport =>
      cases harg
      obtain ⟨hxs, hys⟩ := Cut.cut_append hclose (']' :: ':' :: text) (by simp)
      rw [hxs, hys]
      exact ⟨by simp, rfl, .inr ⟨text, rfl, hport⟩⟩
  · rintro ⟨hmem, rfl, hport⟩
    have hstr := List.takeWhile_append_dropWhile (p := (· ≠ ']')) (l := str)
    have hfree := Cut.notMem_takeWhile ']' str
    rcases Cut.dropWhile_cases ']' str with hnil | ⟨rest, hrest⟩
    · rw [hnil, List.append_nil] at hstr
      rw [hstr] at hfree
      exact absurd hmem hfree
    · rw [hrest] at hstr hport
      rw [List.tail_cons] at hport
      rcases hport with ⟨rfl, rfl⟩ | ⟨text, rfl, htext⟩
      · have hform := ListenForm.addr hfree
        rw [hstr] at hform
        exact hform
      · have hform := ListenForm.addrPort hfree htext
        rw [hstr] at hform
        exact hform

theorem listenForm_iff {arg addr : Word} {port : Option Nat} :
    ListenForm arg addr port ↔
      IsClosed arg ∧ addr = addrText arg ∧ PortPart (behindAddr arg) port := by
  by_cases hbracket : arg.head? = some '['
  · cases arg with
    | nil => cases hbracket
    | cons c str =>
      cases hbracket
      rw [listenForm_bracket_iff, addrText_bracket, behindAddr_bracket]
      simp [IsClosed]
  · rw [listenForm_host_iff hbracket, addrText_of_head hbracket, behindAddr_of_head hbracket]
    simp [IsClosed, hbracket]

/-! ## The slips of `parse_port` -/

theorem parsePort_cons {c : Char} {text : Word} (hne : text ≠ []) :
    parsePort (c :: text) = ((strtoul text).1.toUInt16, decide ((strtoul text).2 = [])) := by
  cases text with
  | nil => exact absurd rfl hne
  | cons d text => rfl

/-- What `parse_port` accepts although no form has it: a character that is no colon before
nothing or before a number, and a number that is no port. -/
def PortSlip : Word → Prop
  | [] => False
  | c :: text =>
    if text = [] then c ≠ ':'
    else IsNumber text ∧ ¬ (c = ':' ∧ (∀ d ∈ text, d.isDigit = true) ∧
      Nat.ofDigitChars 10 text 0 ≤ 65535)

/-- A text that one of the forms allows is accepted, with the port that is written. -/
theorem parsePort_of_portPart {rest : Word} {port : Option Nat} (h : PortPart rest port) :
    (parsePort rest).2 = true ∧ ∀ n ∈ port, (parsePort rest).1.toNat = n := by
  rcases h with ⟨rfl, rfl⟩ | ⟨text, rfl, htext⟩
  · exact ⟨rfl, fun n hn => by cases hn⟩
  · cases htext with
    | nothing => exact ⟨rfl, fun n hn => by cases hn⟩
    | port hne hdigits hmax =>
      have hulong : Nat.ofDigitChars 10 text 0 ≤ ulongMax := by
        simp only [ulongMax]
        omega
      rw [parsePort_cons hne, strtoul_of_digits hne hdigits hulong]
      refine ⟨rfl, fun n hn => ?_⟩
      cases hn
      simp
      omega

theorem portPart_cons_iff {c : Char} {text : Word} (hne : text ≠ []) :
    (∃ port, PortPart (c :: text) port) ↔
      c = ':' ∧ (∀ d ∈ text, d.isDigit = true) ∧ Nat.ofDigitChars 10 text 0 ≤ 65535 := by
  constructor
  · rintro ⟨port, ⟨hnil, -⟩ | ⟨text', heq, htext⟩⟩
    · cases hnil
    · cases heq
      cases htext with
      | nothing => exact absurd rfl hne
      | port _ hdigits hmax => exact ⟨rfl, hdigits, hmax⟩
  · rintro ⟨rfl, hdigits, hmax⟩
    exact ⟨_, .inr ⟨text, rfl, .port hne hdigits hmax⟩⟩

/-- `parse_port` accepts just the texts that a form allows, unless it slips. -/
theorem parsePort_iff (rest : Word) :
    ((parsePort rest).2 = true ↔ ∃ port, PortPart rest port) ↔ ¬ PortSlip rest := by
  cases rest with
  | nil => exact iff_of_true (iff_of_true rfl ⟨none, .inl ⟨rfl, rfl⟩⟩) id
  | cons c text =>
    by_cases hne : text = []
    · rw [hne, PortSlip, if_pos rfl, not_not]
      constructor
      · intro h
        obtain ⟨port, ⟨hnil, -⟩ | ⟨text', heq, -⟩⟩ := h.mp rfl
        · cases hnil
        · cases heq
          rfl
      · rintro rfl
        exact iff_of_true rfl ⟨none, .inr ⟨[], rfl, .nothing⟩⟩
    -- a port is a number without spaces and without a sign
    · have hnumber : (∀ d ∈ text, d.isDigit = true) → IsNumber text :=
        fun hdigits => ⟨[], [], text, rfl, by simp, .inl rfl, hne, hdigits⟩
      rw [parsePort_cons hne, PortSlip, if_neg hne, portPart_cons_iff hne]
      simp only [decide_eq_true_eq, strtoul_end_iff hne]
      constructor
      · rintro h ⟨hn, hnot⟩
        exact hnot (h.mp hn)
      · intro h
        refine ⟨fun hn => ?_, fun hp => hnumber hp.2.1⟩
        by_contra hnot
        exact h ⟨hn, hnot⟩

/-! ## The argument -/

theorem setListen_rc (opts : Opts) (addr port : Word) :
    (setListen opts addr port).1 = exSuccess ↔ (parsePort port).2 = true := by
  simp only [setListen]
  cases (parsePort port).2 <;> simp [exSuccess, exStartup]

theorem optListen_rc (opts : Opts) (arg : Word) :
    (optListen opts arg).1 = exSuccess ↔
      IsClosed arg ∧ (parsePort (behindAddr arg)).2 = true := by
  rw [optListen_eq]
  split
  · next hclosed => rw [setListen_rc]; simp [hclosed]
  · next hclosed => simp [hclosed, exSuccess, exStartup]

theorem exists_listenForm_iff (arg : Word) :
    (∃ addr port, ListenForm arg addr port) ↔
      IsClosed arg ∧ ∃ port, PortPart (behindAddr arg) port := by
  simp only [listenForm_iff]
  constructor
  · rintro ⟨-, port, hclosed, -, hport⟩
    exact ⟨hclosed, port, hport⟩
  · rintro ⟨hclosed, port, hport⟩
    exact ⟨_, port, hclosed, rfl, hport⟩

/-- The turn that reads `-l`. -/
theorem parseTurn_listen (usable : Nat → Nat) {argv : List Word} {t : Opts × State} {arg : Word}
    {st : State} (h : getoptLong table argv t.2 = .option ('l', some arg) st) :
    parseTurn usable argv t =
      if (optListen t.1 arg).1 = exSuccess then .inl ((optListen t.1 arg).2, st)
      else .inr (.returns (optListen t.1 arg).1 (normalise (optListen t.1 arg).2)) := by
  simp only [parseTurn, h, parseOption]

theorem behindAddr_of_not_closed {arg : Word} (h : ¬ IsClosed arg) : behindAddr arg = [] := by
  simp only [IsClosed, Classical.not_imp] at h
  rcases Cut.dropWhile_cases ']' arg.tail with hnil | ⟨rest, hrest⟩
  · rw [behindAddr, if_pos h.1, hnil, List.tail_nil]
  · have hmem : ']' ∈ arg.tail.dropWhile (· ≠ ']') := by
      rw [hrest]
      exact List.mem_cons_self
    exact absurd ((List.dropWhile_sublist _).mem hmem) h.2

/-- The argument of `-l` is parsed as its forms say exactly if the text behind the address is no
slip of `parse_port`. -/
theorem listenExact_iff (usable : Nat → Nat) {argv : List Word} {t : Opts × State} {arg : Word}
    {st : State} (h : getoptLong table argv t.2 = .option ('l', some arg) st) :
    ListenExact usable argv t arg ↔ ¬ PortSlip (behindAddr arg) := by
  have hturn := parseTurn_listen usable h
  have haccepts : (∃ t', Steps (parseTurn usable argv) t t') ↔
      IsClosed arg ∧ (parsePort (behindAddr arg)).2 = true := by
    rw [← optListen_rc t.1]
    simp only [Steps, hturn]
    split
    · next hrc => exact iff_of_true ⟨_, rfl⟩ hrc
    · next hrc =>
      refine iff_of_false ?_ hrc
      rintro ⟨t', ht'⟩
      cases ht'
  rw [← parsePort_iff]
  constructor
  · intro hexact
    by_cases hclosed : IsClosed arg
    · have hiff := hexact.accepts
      rw [haccepts, exists_listenForm_iff] at hiff
      simpa [hclosed] using hiff
    -- without the closing bracket the argument is refused, and no form has it
    · rw [behindAddr_of_not_closed hclosed]
      exact iff_of_true rfl ⟨none, .inl ⟨rfl, rfl⟩⟩
  · intro hport
    have hforms : (∃ t', Steps (parseTurn usable argv) t t') ↔
        ∃ addr port, ListenForm arg addr port := by
      rw [haccepts, exists_listenForm_iff, hport]
    refine ⟨hforms, ?_, ?_⟩
    · intro hnone
      rw [← hforms] at hnone
      split at hturn
      · exact absurd ⟨_, hturn⟩ hnone
      · next hrc => exact ⟨_, _, hrc, hturn⟩
    · intro addr port t' hform hstep
      obtain ⟨hclosed, rfl, hpart⟩ := listenForm_iff.mp hform
      rw [Steps, hturn, optListen_eq, if_pos hclosed] at hstep
      split at hstep
      · cases hstep
        exact ⟨rfl, (parsePort_of_portPart hpart).2⟩
      · cases hstep

/-- `-l [::1]:8501` -/
theorem listenExact_bracket :
    ListenExact id [['h', 'd', 'm', 'i', '2', 'u', 's', 'b', 'd'], ['-', 'l'],
      ['[', ':', ':', '1', ']', ':', '8', '5', '0', '1']] parseStart
      ['[', ':', ':', '1', ']', ':', '8', '5', '0', '1'] := by
  have hget : getoptLong table [['h', 'd', 'm', 'i', '2', 'u', 's', 'b', 'd'], ['-', 'l'],
      ['[', ':', ':', '1', ']', ':', '8', '5', '0', '1']] ⟨1, []⟩ =
      .option ('l', some ['[', ':', ':', '1', ']', ':', '8', '5', '0', '1']) ⟨3, []⟩ := by decide
  have hport : Nat.ofDigitChars 10 ['8', '5', '0', '1'] 0 ≤ 65535 := by simp [Nat.ofDigitChars]
  refine (listenExact_iff id hget).mpr fun hslip => ?_
  exact hslip.2 ⟨rfl, List.all_eq_true.mp rfl, hport⟩

/-- `-l localhost:-1` is accepted. -/
theorem negative_port_accepted :
    ¬ ∀ (usable : Nat → Nat) (argv : List Word) (t : Opts × State) (arg : Word) (st : State),
      getoptLong table argv t.2 = .option ('l', some arg) st → ListenExact usable argv t arg := by
  intro hall
  have hget : getoptLong table [['h', 'd', 'm', 'i', '2', 'u', 's', 'b', 'd'], ['-', 'l'],
      ['l', 'o', 'c', 'a', 'l', 'h', 'o', 's', 't', ':', '-', '1']] ⟨1, []⟩ =
      .option ('l', some ['l', 'o', 'c', 'a', 'l', 'h', 'o', 's', 't', ':', '-', '1']) ⟨3, []⟩ := by
    decide
  have hexact := hall id _ parseStart _ _ hget
  have hsteps : Steps (parseTurn id _) parseStart _ :=
    (parseTurn_listen id hget).trans (if_pos (by decide +kernel))
  obtain ⟨addr, port, hform⟩ := hexact.accepts.mp ⟨_, hsteps⟩
  obtain ⟨-, -, hport⟩ := listenForm_iff.mp hform
  have hdigits := (portPart_cons_iff (by decide)).mp ⟨port, hport⟩
  exact absurd (hdigits.2.1 '-' (by decide)) (by decide)

end Hdmi2usbd.Argv
