import Hdmi2usbd.Options

/-!
# OptionLoop — does `parse_args` come to an end?

The case of `-p` stores `optind`, and what it stores is behind the word of the option only if the
port is a word of its own below `MAX_SERIAL_SPECS`. Then every turn leaves less to read;
otherwise the same option is read again, as a rule without end (`port_never_ends`). And a long
name must be there in full, as nothing ends the table of `getopt_long` (`progresses_iff`).
-/

namespace Hdmi2usbd.Argv

open Getopt (Word Found State getoptLong wordIndex unread charsFrom nextWord isOption Inside)
open Loop (Steps Reaches Ends Halts)

variable {usable : Nat → Nat} {argv : List Word}

/-! ## A turn -/

/-- Only the case of `-p` stores `optind`. -/
theorem parseOption_optind {found : Found} {optind optind' : Nat} {opts opts' : Opts} {rc : Int}
    (h : parseOption usable argv found optind opts = some (rc, opts', optind'))
    (hport : found.1 ≠ 'p') : optind' = optind := by
  simp only [parseOption] at h
  split at h <;> cases h
  case h_12 => exact absurd rfl hport
  all_goals rfl

/-- A turn that goes on: the option that is read, and what its case does. -/
theorem steps_cases {s s' : Opts × State} (h : Steps (parseTurn usable argv) s s') :
    ∃ found st optind', getoptLong table argv s.2 = .option found st ∧
      parseOption usable argv found st.optind s.1 = some (exSuccess, s'.1, optind') ∧
      s'.2 = ⟨optind', st.nextchar⟩ := by
  simp only [Steps, parseTurn] at h
  split at h
  · cases h
  · cases h
  · next found st hfound =>
    split at h
    · cases h
    · next rc opts optind' hopt =>
      split at h
      · next hrc =>
        cases h
        exact ⟨found, st, optind', hfound, hrc ▸ hopt, rfl⟩
      · cases h

/-! ## The index that `-p` stores -/

theorem le_portArgs (words : List Word) (index : Nat) : index ≤ (portArgs words index).2 := by
  induction words generalizing index with
  | nil => exact Nat.le_refl _
  | cons next words ih =>
    unfold portArgs
    split
    · exact Nat.le_succ _
    · exact Nat.le_trans (Nat.le_succ _) (ih _)

theorem lt_portArgs {words : List Word} (hne : words ≠ []) (index : Nat) :
    index < (portArgs words index).2 := by
  cases words with
  | nil => exact absurd rfl hne
  | cons next words =>
    unfold portArgs
    split
    · exact Nat.lt_succ_self _
    · exact le_portArgs words (index + 1)

/-- What `-p` stores in `optind`. -/
def storedOptind (argv : List Word) (optind : Nat) : Nat :=
  (portArgs ((argv.take maxSerialSpecs).drop (optind - 1)) (optind - 1)).2 - 1

theorem optPort_optind (usable : Nat → Nat) (argv : List Word) (opts : Opts)
    (optarg : Option Word) (optind : Nat) :
    (optPort usable argv opts optarg optind).2 = storedOptind argv optind := by
  simp only [optPort, storedOptind]
  split <;> rfl

/-- Behind the words that are looked at. -/
theorem storedOptind_late (argv : List Word) {index : Nat} (hlate : maxSerialSpecs ≤ index) :
    storedOptind argv (index + 1) = index - 1 := by
  have hnone : (argv.take maxSerialSpecs).drop index = [] :=
    List.drop_of_length_le (Nat.le_trans (List.length_take_le _ _) hlate)
  simp only [storedOptind, Nat.add_sub_cancel, hnone, portArgs]

/-- A port in a word of its own. -/
theorem le_storedOptind {index : Nat} (hin : index < argv.length) (hearly : index < maxSerialSpecs) :
    index ≤ storedOptind argv (index + 1) := by
  have hsome : (argv.take maxSerialSpecs).drop index ≠ [] := by
    rw [Ne, List.drop_eq_nil_iff, List.length_take]
    omega
  have hlt := lt_portArgs hsome index
  simp only [storedOptind, Nat.add_sub_cancel]
  omega

/-- A port in the word of the option: that word ends the list at once. -/
theorem storedOptind_attached {index : Nat} {w : Word} (hw : argv[index]? = some w)
    (hopt : isOption w = true) (hearly : index < maxSerialSpecs) :
    storedOptind argv (index + 1) = index := by
  obtain ⟨hin, rfl⟩ := List.getElem?_eq_some_iff.mp hw
  have hends : endsPorts argv[index] = true := by
    cases hword : argv[index] with
    | nil => rfl
    | cons c rest =>
      rw [hword] at hopt
      unfold isOption at hopt
      split at hopt
      · next heq => cases heq; rfl
      · cases hopt
  have hcons : (argv.take maxSerialSpecs).drop index =
      argv[index] :: (argv.take maxSerialSpecs).drop (index + 1) := by
    rw [List.drop_eq_getElem_cons (by rw [List.length_take]; omega), List.getElem_take]
  simp only [storedOptind, Nat.add_sub_cancel, hcons, portArgs, hends, if_true]

/-! ## A port that is read -/

/-- The port is a word of its own, and one that the case of `-p` looks at. -/
def PortApart (argv : List Word) (st : State) : Prop :=
  ∀ optarg st', getoptLong table argv st = .option ('p', optarg) st' →
    st'.optind = wordIndex argv st + 2 ∧ wordIndex argv st + 1 < maxSerialSpecs

/-- A port is read to the end of its word, or it is the word behind it. -/
theorem port_read {st st' : State} {optarg : Option Word}
    (h : getoptLong table argv st = .option ('p', optarg) st') :
    st' = ⟨wordIndex argv st + 1, []⟩ ∨
      st' = ⟨wordIndex argv st + 2, []⟩ ∧ optarg.isSome ∧ argv[wordIndex argv st + 1]? = optarg := by
  have hletter : ¬ ('p' = '?' ∨
      Getopt.shortHasArg 'p' table.shortopts = some .noArgument) := by decide
  obtain ⟨hread, -⟩ := Getopt.getoptLong_read h
  cases hread with
  | letter _ _ hopt => exact absurd hopt hletter
  | last => exact .inl rfl
  | separate harg => exact .inr ⟨rfl, rfl, harg⟩

theorem nextchar_of_port {st st' : State} {optarg : Option Word}
    (h : getoptLong table argv st = .option ('p', optarg) st') : st'.nextchar = [] := by
  rcases port_read h with rfl | ⟨rfl, -⟩ <;> rfl

theorem storedOptind_of_apart {st st' : State} {optarg : Option Word}
    (h : getoptLong table argv st = .option ('p', optarg) st') (hapart : PortApart argv st) :
    wordIndex argv st < storedOptind argv st'.optind := by
  obtain ⟨hsep, hearly⟩ := hapart optarg st' h
  rw [hsep]
  rcases port_read h with rfl | ⟨-, hsome, harg⟩
  · exact absurd hsep (by simp only; omega)
  · obtain ⟨arg, rfl⟩ := Option.isSome_iff_exists.mp hsome
    exact le_storedOptind (List.getElem?_eq_some_iff.mp harg).1 hearly

theorem storedOptind_of_not_apart {st st' : State} {optarg : Option Word} (hinside : Inside argv st)
    (h : getoptLong table argv st = .option ('p', optarg) st')
    (hapart : ¬ (st'.optind = wordIndex argv st + 2 ∧ wordIndex argv st + 1 < maxSerialSpecs)) :
    storedOptind argv st'.optind ≤ wordIndex argv st := by
  obtain ⟨w, hw, hopt, -⟩ := Getopt.getoptLong_word hinside h
  rcases port_read h with rfl | ⟨rfl, -⟩
  -- the port is in the word of the option, which is stored again or lies too far behind
  · by_cases hearly : wordIndex argv st < maxSerialSpecs
    · exact Nat.le_of_eq (storedOptind_attached hw hopt hearly)
    · rw [storedOptind_late argv (Nat.le_of_not_lt hearly)]
      exact Nat.sub_le _ _
  -- the port is a word that is not looked at any more
  · have hlate : maxSerialSpecs ≤ wordIndex argv st + 1 := by
      by_contra hearly
      exact hapart ⟨rfl, by omega⟩
    rw [storedOptind_late argv hlate]
    exact Nat.le_refl _

theorem steps_port (usable : Nat → Nat) {s : Opts × State} {optarg : Option Word} {st : State}
    (h : getoptLong table argv s.2 = .option ('p', optarg) st) :
    Steps (parseTurn usable argv) s
      ((optPort usable argv s.1 optarg st.optind).1, ⟨storedOptind argv st.optind, []⟩) := by
  simp only [Steps, parseTurn, h, parseOption, if_true, optPort_optind, nextchar_of_port h]

/-! ## Progress -/

theorem inside_of_reaches {s : Opts × State} (h : Reaches (parseTurn usable argv) parseStart s) :
    Inside argv s.2 := by
  induction h with
  | refl => exact Getopt.inside_of_nil _ _
  | @tail s s' _ hstep ih =>
    obtain ⟨found, st, optind', hfound, hopt, hs'⟩ := steps_cases hstep
    have hinside := ih.getoptLong hfound
    rw [hs']
    by_cases hport : found.1 = 'p'
    · obtain ⟨c, optarg⟩ := found
      obtain rfl : c = 'p' := hport
      rw [nextchar_of_port hfound]
      exact Getopt.inside_of_nil _ _
    · rw [parseOption_optind hopt hport]
      exact hinside

/-- A turn whose port is apart leaves less to read. -/
theorem unread_of_steps {s s' : Opts × State} (h : Steps (parseTurn usable argv) s s')
    (hapart : PortApart argv s.2) : unread argv s'.2 < unread argv s.2 := by
  obtain ⟨found, st, optind', hfound, hopt, hs'⟩ := steps_cases h
  by_cases hport : found.1 = 'p'
  · obtain ⟨c, optarg⟩ := found
    obtain rfl : c = 'p' := hport
    have hs'' := (steps_port usable hfound).symm.trans h
    cases hs''
    -- what is stored lies behind the word of the option
    exact Getopt.charsFrom_lt_unread hfound (storedOptind_of_apart hfound hapart)
  · rw [hs', parseOption_optind hopt hport]
    exact Getopt.getoptLong_unread hfound

/-- The loop of `parse_args` ends, without leaving `longopts`, and each of its turns leaves less of
`argv` to read. -/
def Progresses (usable : Nat → Nat) (argv : List Word) : Prop :=
  Halts (parseTurn usable argv) parseStart ∧ ¬ Ends (parseTurn usable argv) parseStart .overrun ∧
    ∀ s s', Reaches (parseTurn usable argv) parseStart s → Steps (parseTurn usable argv) s s' →
      unread argv s'.2 < unread argv s.2

/-- A port that is not apart is followed by a turn that reads no less than before. -/
theorem not_unread_of_port (usable : Nat → Nat) {s : Opts × State} {optarg : Option Word}
    {st : State} (hinside : Inside argv s.2) (h : getoptLong table argv s.2 = .option ('p', optarg) st)
    (hapart : ¬ (st.optind = wordIndex argv s.2 + 2 ∧ wordIndex argv s.2 + 1 < maxSerialSpecs)) :
    ∃ t t', Reaches (parseTurn usable argv) s t ∧ Steps (parseTurn usable argv) t t' ∧
      unread argv t.2 ≤ unread argv t'.2 := by
  have hstored := storedOptind_of_not_apart hinside h hapart
  have hstep := steps_port usable h
  by_cases hless : unread argv s.2 ≤ charsFrom argv (storedOptind argv st.optind)
  · exact ⟨s, _, .refl, hstep, hless⟩
  · have hnil : s.2.nextchar = [] := by
      -- within a word all of its letters would be read again
      by_contra hne
      obtain ⟨w, hw, -, hlen⟩ := hinside hne
      have hword : wordIndex argv s.2 = s.2.optind := if_neg hne
      have hunread : unread argv s.2 = s.2.nextchar.length + charsFrom argv (s.2.optind + 1) :=
        if_neg hne
      have hsucc := Getopt.charsFrom_succ (List.getElem?_eq_some_iff.mp hw).1
      have hanti := Getopt.charsFrom_anti argv hstored
      rw [hw, Option.getD_some] at hsucc
      rw [hword] at hanti
      omega
    have hword : wordIndex argv s.2 = nextWord argv s.2.optind := if_pos hnil
    have hunread : unread argv s.2 = charsFrom argv s.2.optind := if_pos hnil
    have hskipped : s.2.optind ≤ storedOptind argv st.optind := by
      by_contra hback
      have hanti := Getopt.charsFrom_anti argv (Nat.le_of_not_le hback)
      omega
    -- only words that are no options were left behind, so the same option comes again
    have hagain : getoptLong table argv ⟨storedOptind argv st.optind, []⟩ =
        .option ('p', optarg) st := by
      rw [← h, Getopt.getoptLong_congr table
        (Getopt.nextWord_eq_of_le hskipped (hword ▸ hstored)), ← hnil]
    exact ⟨_, _, .single hstep, steps_port usable hagain, Nat.le_refl _⟩

theorem parseTurn_overrun_iff {s : Opts × State} :
    parseTurn usable argv s = .inr .overrun ↔ ¬ Getopt.FullName table argv s.2 := by
  have hturn : parseTurn usable argv s = .inr .overrun ↔
      getoptLong table argv s.2 = .overrun := by
    simp only [parseTurn]
    split
    · next hget => simp [hget]
    · next hget => simp [hget]
    · next found st hget =>
      refine iff_of_false ?_ (by simp [hget])
      split
      · simp
      · split <;> simp
  rw [hturn, Getopt.getoptLong_overrun_iff]
  exact and_iff_right rfl

/-- The loop stays within `longopts` exactly if it reads full names only. -/
theorem not_overrun_iff {s : Opts × State} :
    ¬ Ends (parseTurn usable argv) s .overrun ↔
      ∀ t, Reaches (parseTurn usable argv) s t → Getopt.FullName table argv t.2 := by
  constructor
  · intro hwithin t hreach
    by_contra hname
    exact hwithin
      (Loop.ends_of_reaches hreach (Loop.ends_of_inr (parseTurn_overrun_iff.mpr hname)))
  · intro hnames hoverrun
    obtain ⟨t, hreach, hlast⟩ := Loop.last_turn hoverrun
    exact parseTurn_overrun_iff.mp hlast (hnames t hreach)

/-- Every turn makes progress, to an end, exactly if every port is a word of its own at an index
below `MAX_SERIAL_SPECS` and every long name is one of the table in full. -/
theorem progresses_iff (usable : Nat → Nat) (argv : List Word) :
    Progresses usable argv ↔
      ∀ s, Reaches (parseTurn usable argv) parseStart s →
        PortApart argv s.2 ∧ Getopt.FullName table argv s.2 := by
  constructor
  · rintro ⟨-, hwithin, hdown⟩ s hreach
    refine ⟨fun optarg st hport => ?_, not_overrun_iff.mp hwithin s hreach⟩
    by_contra hapart
    obtain ⟨t, t', hst, hstep, hmore⟩ :=
      not_unread_of_port usable (inside_of_reaches hreach) hport hapart
    exact absurd (hdown t t' (hreach.trans hst) hstep) (Nat.not_lt.mpr hmore)
  · intro hread
    have hdown : ∀ s s', Reaches (parseTurn usable argv) parseStart s →
        Steps (parseTurn usable argv) s s' → unread argv s'.2 < unread argv s.2 :=
      fun s s' hreach hstep => unread_of_steps hstep (hread s hreach).1
    exact ⟨Loop.halts_of_measure (fun s => unread argv s.2) _ hdown,
      not_overrun_iff.mpr fun t ht => (hread t ht).2, hdown⟩

/-- A port for which its own word is stored again. -/
theorem port_never_ends (usable : Nat → Nat) {optind : Nat} {optarg : Option Word} {st : State}
    (h : getoptLong table argv ⟨optind, []⟩ = .option ('p', optarg) st)
    (hstored : storedOptind argv st.optind = nextWord argv optind) (opts : Opts) :
    ¬ Halts (parseTurn usable argv) (opts, ⟨optind, []⟩) := by
  refine Loop.not_halts_of_returns
    (fun s => s.2.nextchar = [] ∧ nextWord argv s.2.optind = nextWord argv optind) ?_ ⟨rfl, rfl⟩
  rintro ⟨opts', optind', nextchar⟩ ⟨hnil, hnext⟩
  simp only at hnil hnext
  subst hnil
  have hport := (Getopt.getoptLong_congr table hnext).trans h
  refine ⟨_, .single (steps_port usable hport), rfl, ?_⟩
  simp only [hstored]
  exact Getopt.nextWord_eq_of_le (Getopt.le_nextWord argv optind) (Nat.le_refl _)

/-- `hdmi2usbd -pttyACM0` reads its option again and again. -/
theorem attached_port_never_ends : ¬ ∀ usable argv, Progresses usable argv := by
  intro h
  have hport : getoptLong table
      [['h', 'd', 'm', 'i', '2', 'u', 's', 'b', 'd'], ['-', 'p', 't', 't', 'y', 'A', 'C', 'M', '0']]
      ⟨1, []⟩ = .option ('p', some ['t', 't', 'y', 'A', 'C', 'M', '0']) ⟨2, []⟩ := by decide
  exact port_never_ends id hport (by decide) .default (h _ _).1

end Hdmi2usbd.Argv
