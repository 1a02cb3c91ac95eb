import Hdmi2usbd.Device
import Hdmi2usbd.OptionLoop

/-!
# PortList — from the arguments of `-p` to the devices that are tried

The case of `-p` joins the words of its list with a separator behind each, and `find_serial_all`
splits the result. The two are inverse (`segments_join`), but the list that is joined is the
list that was given only if the first port is a word of its own and the last one stands below
`MAX_SERIAL_SPECS`; the block for it has no byte for the terminator; and a joined `auto` is not
the word that `find_serial_all` looks for. The options, the port option among them, must have
their full names (`survives_iff`).
-/

namespace Hdmi2usbd.Argv

open Getopt (Word Found State getoptLong wordIndex nextWord isOption Inside FullName)
open Loop (Steps Reaches Ends)
open Device (FileSystem segments expand candidates tryDevice findSerialAll)

variable {usable : Nat → Nat} {argv : List Word}

/-! ## Joining and splitting -/

/-- A word that `-p` takes for a port, and that does not contain the separator. -/
structure IsPort (arg : Word) : Prop where
  nonempty : arg ≠ []
  noOption : arg.head? ≠ some '-'
  noSeparator : '|' ∉ arg

theorem IsPort.endsPorts {arg : Word} (h : IsPort arg) : endsPorts arg = false := by
  simp [Argv.endsPorts, h.nonempty, h.noOption]

theorem IsPort.isOption {arg : Word} (h : IsPort arg) : isOption arg = false := by
  unfold Getopt.isOption
  split
  · exact absurd rfl h.noOption
  · rfl

theorem segments_join {args : List Word} (h : ∀ arg ∈ args, IsPort arg) :
    segments (args.map (· ++ ['|'])).flatten = args :=
  Cut.segments_join fun arg harg => ⟨(h arg harg).nonempty, (h arg harg).noSeparator⟩

/-- The devices that a joined list names. -/
theorem candidates_join (fs : FileSystem) {args : List Word} (h : ∀ arg ∈ args, IsPort arg) :
    candidates fs (args.map (· ++ ['|'])).flatten = args.flatMap (expand fs) := by
  have hauto : (args.map (· ++ ['|'])).flatten ≠ ['a', 'u', 't', 'o'] := by
    intro heq
    have hseg := segments_join h
    rw [heq] at hseg
    have hone : args = [['a', 'u', 't', 'o']] := by
      rw [← hseg]
      decide
    rw [hone] at heq
    revert heq
    decide
  rw [candidates, if_neg hauto, segments_join h]

/-- The devices that a port names as a specification of its own. -/
theorem candidates_of_isPort (fs : FileSystem) {arg : Word} (h : IsPort arg)
    (hauto : arg ≠ ['a', 'u', 't', 'o']) : candidates fs arg = expand fs arg := by
  rw [candidates, if_neg hauto, segments,
    Cut.segments_of_notMem h.noSeparator, if_neg h.nonempty,
    List.flatMap_singleton]

/-- All is accessible, and no pattern expands to anything else: each port names one device. -/
def plainFiles : FileSystem := ⟨fun _ => true, fun w => some [w]⟩

theorem expand_plainFiles (p : Word) : expand plainFiles p = [Device.devicePath p] := by
  unfold expand
  split <;> rfl

/-- How many nodes there are after some devices were tried. -/
theorem length_tryDevices (names : List Word) :
    (names.foldl (tryDevice plainFiles) (Device.Memory.start, none)).1.nodes.length =
      names.length := by
  by_cases hnil : names = []
  · rw [hnil]
    rfl
  · rw [Device.tryDevices_eq plainFiles (fun n hn => by cases hn) hnil]
    have hfilter : names.filter plainFiles.access = names := List.filter_eq_self.mpr fun _ _ => rfl
    rw [hfilter]
    simp [Device.Memory.grow, Device.Memory.store, Device.Memory.start]

/-! ## The list that `-p` reads -/

theorem portArgs_append {args rest : List Word} (h : ∀ arg ∈ args, IsPort arg)
    (hrest : ∀ next ∈ rest.head?, endsPorts next = true) (index : Nat) :
    portArgs (args ++ rest) index =
      (args, index + args.length + if rest = [] then 0 else 1) := by
  induction args generalizing index with
  | nil =>
    cases rest with
    | nil => rfl
    | cons next rest => simp [portArgs, hrest next rfl]
  | cons arg args ih =>
    have hargs := ih (fun a ha => h a (List.mem_cons_of_mem _ ha)) (index + 1)
    simp only [List.cons_append, portArgs, (h arg List.mem_cons_self).endsPorts,
      Bool.false_eq_true, if_false, hargs, List.length_cons, Prod.mk.injEq, true_and]
    omega

/-- The port option is given as `getopt_long` takes it from a table that is ended, so perhaps by the
beginning of its name: the first of some ports is its argument, and the words behind it are the
other ports; `st'` is the state behind the option. -/
structure PortsGiven (argv : List Word) (st st' : State) (args : List Word) : Prop where
  option : ∃ arg, args.head? = some arg ∧
    getoptLong table.close argv st = .option ('p', some arg) st'
  rest : ∃ rest, argv.drop st'.optind = args.tail ++ rest ∧
    ∀ next ∈ rest.head?, endsPorts next = true
  isPort : ∀ arg ∈ args, IsPort arg
  count : args.length ≤ maxSerialSpecs

/-- The index of the first word behind the list. -/
def behindPorts (st' : State) (args : List Word) : Nat := st'.optind + args.tail.length

/-- No port option is read from there on. -/
def NoPortFrom (usable : Nat → Nat) (argv : List Word) (s : Opts × State) : Prop :=
  ∀ t optarg st, Reaches (parseTurn usable argv) s t →
    getoptLong table argv t.2 ≠ .option ('p', optarg) st

/-- The ports are what is searched for, the log file stays, the next option is read from behind
the list, the rest of the options is read within `longopts`, and unless there is another list the
search will be for these ports. -/
def Survives (usable : Nat → Nat) (argv : List Word) (s : Opts × State) (st' : State)
    (args : List Word) : Prop :=
  ∃ s', Steps (parseTurn usable argv) s s' ∧
    (∃ ports, s'.1.port = some ports ∧ ∀ fs m, m.firstDev = none →
      (findSerialAll fs m ports).2 =
        ((args.flatMap (candidates fs)).foldl (tryDevice fs) (m, none)).1) ∧
    s'.1.logfile = s.1.logfile ∧
    wordIndex argv s'.2 = nextWord argv (behindPorts st' args) ∧
    ¬ Ends (parseTurn usable argv) s' .overrun ∧
    (NoPortFrom usable argv s' → ∀ rc opts,
      Ends (parseTurn usable argv) s' (.returns rc opts) → opts.port = s'.1.port)

/-! ## The other options leave the port alone -/

theorem parseOption_port {found : Found} {optind optind' : Nat} {opts opts' : Opts} {rc : Int}
    (h : parseOption usable argv found optind opts = some (rc, opts', optind'))
    (hport : found.1 ≠ 'p') : opts'.port = opts.port := by
  simp only [parseOption] at h
  split at h <;> cases h
  case h_3 | h_4 => rename_i optarg; cases optarg <;> rfl
  case h_5 => simp only [optCtime]; split <;> rfl
  case h_9 => simp only [optSpeed]; split <;> rfl
  case h_10 => simp only [optBufsize]; split <;> rfl
  case h_11 =>
    unfold optListen
    split
    · split <;> rfl
    · rfl
  case h_12 => exact absurd rfl hport
  all_goals rfl

theorem normalise_port (opts : Opts) : (normalise opts).port = opts.port := by
  unfold normalise
  split <;> rfl

theorem NoPortFrom.ne {s : Opts × State} (h : NoPortFrom usable argv s) {found : Found} {st : State}
    (hget : getoptLong table argv s.2 = .option found st) : found.1 ≠ 'p' := by
  obtain ⟨c, optarg⟩ := found
  rintro rfl
  exact h s optarg st .refl hget

/-- A run that reads no other list ends with the port that it has. -/
theorem port_of_ends {s : Opts × State} (hlast : NoPortFrom usable argv s) {rc : Int} {opts : Opts}
    (h : Ends (parseTurn usable argv) s (.returns rc opts)) : opts.port = s.1.port := by
  refine Loop.ends_induction (P := fun s result => NoPortFrom usable argv s →
    ∀ rc opts, result = .returns rc opts → opts.port = s.1.port) ?_ ?_ h hlast rc opts rfl
  -- the last turn: the end of the options, or a case that fails
  · intro s result hend hlast rc opts hresult
    simp only [parseTurn] at hend
    split at hend
    · cases hend
      cases hresult
    · cases hend
      cases hresult
      exact normalise_port _
    · next found st hget =>
      split at hend
      · cases hend
        cases hresult
      · next rc' opts' optind' hopt =>
        split at hend
        · cases hend
        · cases hend
          cases hresult
          rw [normalise_port]
          exact parseOption_port hopt (hlast.ne hget)
  · intro s s' result hstep ih hlast rc opts hresult
    obtain ⟨found, st, optind', hget, hopt, -⟩ := steps_cases hstep
    have hrest : NoPortFrom usable argv s' :=
      fun t optarg st hreach => hlast t optarg st (.head hstep hreach)
    rw [ih hrest rc opts hresult]
    exact parseOption_port hopt (hlast.ne hget)

/-! ## The list survives -/

section Given

variable {st st' : State} {args : List Word} (h : PortsGiven argv st st' args)
include h

theorem PortsGiven.ne_nil : args ≠ [] := by
  obtain ⟨arg, hhead, -⟩ := h.option
  rintro rfl
  cases hhead

theorem PortsGiven.behind (hapart : st'.optind = wordIndex argv st + 2) :
    behindPorts st' args = wordIndex argv st + 1 + args.length := by
  have hpos := List.length_pos_iff.mpr h.ne_nil
  rw [behindPorts, hapart, List.length_tail]
  omega

variable (hname : FullName table argv st)
include hname

/-- With its full name the option is found in the table as it is. -/
theorem PortsGiven.found :
    ∃ arg, args.head? = some arg ∧ getoptLong table argv st = .option ('p', some arg) st' := by
  rw [Getopt.getoptLong_close hname]
  exact h.option

/-- A list whose first port is a word of its own: the words from that one on. -/
theorem PortsGiven.words (hapart : st'.optind = wordIndex argv st + 2) :
    ∃ rest, argv.drop (wordIndex argv st + 1) = args ++ rest ∧
      ∀ next ∈ rest.head?, endsPorts next = true := by
  obtain ⟨arg, hhead, hget⟩ := h.found hname
  obtain ⟨rest, hrest, hends⟩ := h.rest
  refine ⟨rest, ?_, hends⟩
  rcases port_read hget with rfl | ⟨-, -, harg⟩
  · exact absurd hapart (by simp only; omega)
  · obtain ⟨hin, rfl⟩ := List.getElem?_eq_some_iff.mp harg
    cases args with
    | nil => cases hhead
    | cons arg args =>
      cases hhead
      rw [List.drop_eq_getElem_cons hin, List.cons_append]
      rw [hapart] at hrest
      exact congrArg (List.cons _) hrest

/-- The list is read to its end, or as far as the words below `MAX_SERIAL_SPECS` go. -/
theorem PortsGiven.portArgs (hapart : st'.optind = wordIndex argv st + 2) :
    ∃ rest, argv.drop (wordIndex argv st + 1) = args ++ rest ∧
      Argv.portArgs ((argv.take maxSerialSpecs).drop (st'.optind - 1)) (st'.optind - 1) =
      (args.take (maxSerialSpecs - (wordIndex argv st + 1)),
        wordIndex argv st + 1 + min (maxSerialSpecs - (wordIndex argv st + 1)) args.length +
          if rest.take (maxSerialSpecs - (wordIndex argv st + 1) - args.length) = [] then 0
          else 1) := by
  obtain ⟨rest, hwords, hends⟩ := h.words hname hapart
  refine ⟨rest, hwords, ?_⟩
  have hindex : st'.optind - 1 = wordIndex argv st + 1 := by omega
  rw [hindex, List.drop_take, hwords, List.take_append, portArgs_append, List.length_take]
  · exact fun arg harg => h.isPort arg (List.mem_of_mem_take harg)
  · intro next hnext
    cases rest with
    | nil => simp at hnext
    | cons word rest =>
      cases hk : maxSerialSpecs - (wordIndex argv st + 1) - args.length with
      | zero => rw [hk] at hnext; cases hnext
      | succ k =>
        rw [hk] at hnext
        exact hends next hnext

/-- What `-p` does with a list whose first port is a word of its own that is looked at. -/
theorem PortsGiven.optPort (usable : Nat → Nat) (hapart : st'.optind = wordIndex argv st + 2)
    (hearly : wordIndex argv st + 1 < maxSerialSpecs) (opts : Opts) (optarg : Option Word) :
    (Argv.optPort usable argv opts optarg st'.optind).1 =
      { opts with
        port := joinPorts usable (args.take (maxSerialSpecs - (wordIndex argv st + 1))) } := by
  obtain ⟨rest, -, hports⟩ := h.portArgs hname hapart
  have hne : args.take (maxSerialSpecs - (wordIndex argv st + 1)) ≠ [] := by
    rw [Ne, List.take_eq_nil_iff]
    rintro (hzero | hnil)
    · omega
    · exact h.ne_nil hnil
  simp only [Argv.optPort, hports]
  rw [if_pos hne]

/-- The reading goes on behind a list that is read to its end: its last word may be read again,
but that is no option. -/
theorem PortsGiven.resumes (hapart : st'.optind = wordIndex argv st + 2)
    (hfits : behindPorts st' args ≤ maxSerialSpecs) :
    nextWord argv (storedOptind argv st'.optind) = nextWord argv (behindPorts st' args) := by
  obtain ⟨rest, hwords, hports⟩ := h.portArgs hname hapart
  have hbehind := h.behind hapart
  have hpos := List.length_pos_iff.mpr h.ne_nil
  have hmin : min (maxSerialSpecs - (wordIndex argv st + 1)) args.length = args.length := by omega
  rw [storedOptind, hports]
  simp only [hmin]
  split
  -- the list ends with the words, and the index stored is that of its last port
  · have hlast : wordIndex argv st + 1 + args.length + 0 - 1 =
        wordIndex argv st + 1 + (args.length - 1) := by omega
    have hin : args.length - 1 < args.length := by omega
    have hget : argv[wordIndex argv st + 1 + (args.length - 1)]? = some args[args.length - 1] := by
      rw [← List.getElem?_drop, hwords, List.getElem?_append_left hin, List.getElem?_eq_getElem hin]
    rw [hlast, Getopt.nextWord_of_not_isOption hget
      (h.isPort _ (List.getElem_mem hin)).isOption, hbehind]
    congr 1
    omega
  · rw [hbehind, Nat.add_sub_cancel]

/-- If the reading goes on behind the list, then its first port is a word of its own that is looked
at. -/
theorem PortsGiven.apart_of_resumes (hinside : Inside argv st)
    (hresume : nextWord argv (storedOptind argv st'.optind) = nextWord argv (behindPorts st' args)) :
    st'.optind = wordIndex argv st + 2 ∧ wordIndex argv st + 1 < maxSerialSpecs := by
  obtain ⟨arg, -, hget⟩ := h.found hname
  by_contra hnot
  -- the word of the option is read again, and that is before the list
  obtain ⟨w, hw, hopt, -⟩ := Getopt.getoptLong_word hinside hget
  have hback := Getopt.nextWord_le (storedOptind_of_not_apart hinside hget hnot) hw hopt
  have hbehind := Getopt.le_nextWord argv (behindPorts st' args)
  have hforth : wordIndex argv st + 1 ≤ behindPorts st' args := by
    unfold behindPorts
    rcases port_read hget with rfl | ⟨rfl, -⟩
    · exact Nat.le_add_right _ _
    · exact Nat.le_trans (Nat.le_succ _) (Nat.le_add_right _ _)
  omega

end Given

theorem joinPorts_eq_some {usable : Nat → Nat} {args : List Word} {ports : Word} :
    joinPorts usable args = some ports ↔
      (args.map fun arg => arg.length + 1).sum < usable (args.map fun arg => arg.length + 1).sum ∧
        (args.map (· ++ ['|'])).flatten = ports := by
  simp only [joinPorts]
  split
  · next hroom =>
    rw [Option.some.injEq]
    exact ⟨fun hjoin => ⟨hroom, hjoin⟩, And.right⟩
  · next hroom => exact iff_of_false (by simp) fun h => hroom h.1

/-- Each port names a device, and `auto` names two patterns. -/
theorem length_candidates {args : List Word} (h : ∀ arg ∈ args, IsPort arg) :
    (args.flatMap (candidates plainFiles)).length =
      args.length + args.count ['a', 'u', 't', 'o'] := by
  induction args with
  | nil => rfl
  | cons arg args ih =>
    rw [List.flatMap_cons, List.length_append, ih fun a ha => h a (List.mem_cons_of_mem _ ha)]
    by_cases hauto : arg = ['a', 'u', 't', 'o']
    · have htwo : (candidates plainFiles arg).length = 2 := by
        rw [hauto]
        decide
      rw [htwo, hauto, List.count_cons_self, List.length_cons]
      omega
    · have hone : (candidates plainFiles arg).length = 1 := by
        rw [candidates_of_isPort plainFiles (h arg List.mem_cons_self) hauto, expand_plainFiles]
        rfl
      rw [hone, List.count_cons_of_ne hauto, List.length_cons]
      omega

/-- If the ports of a shorter list are tried as those given, they are all there, without `auto`. -/
theorem take_of_tries {args : List Word} (h : ∀ arg ∈ args, IsPort arg) {k : Nat}
    (htries : (findSerialAll plainFiles Device.Memory.start
        ((args.take k).map (· ++ ['|'])).flatten).2 =
      ((args.flatMap (candidates plainFiles)).foldl (tryDevice plainFiles)
        (Device.Memory.start, none)).1) :
    args.length ≤ k ∧ ['a', 'u', 't', 'o'] ∉ args := by
  have htake : ∀ arg ∈ args.take k, IsPort arg := fun arg harg => h arg (List.mem_of_mem_take harg)
  have hexpand : expand plainFiles = fun p => [Device.devicePath p] := funext expand_plainFiles
  -- all of the devices can be accessed, so there are as many nodes as devices tried
  have hlen := congrArg (fun m : Device.Memory => m.nodes.length) htries
  simp only [Device.search_eq, length_tryDevices, length_candidates h,
    candidates_join plainFiles htake, hexpand, ← List.map_eq_flatMap, List.length_map,
    List.length_take] at hlen
  have hcount : args.count ['a', 'u', 't', 'o'] = 0 := by omega
  exact ⟨by omega, List.count_eq_zero.mp hcount⟩

/-- A list of ports survives exactly if its option and the long options behind it have their full
names, the first port is a word of its own, the last one stands below `MAX_SERIAL_SPECS`, the block
that is allocated has a byte to spare, and none is `auto`. -/
theorem survives_iff (usable : Nat → Nat) {argv : List Word} {s : Opts × State}
    (hreach : Reaches (parseTurn usable argv) parseStart s) {st' : State} {args : List Word}
    (h : PortsGiven argv s.2 st' args) :
    Survives usable argv s st' args ↔
      (∀ t, Reaches (parseTurn usable argv) s t → FullName table argv t.2) ∧
      st'.optind = wordIndex argv s.2 + 2 ∧ behindPorts st' args ≤ maxSerialSpecs ∧
      (args.map fun arg => arg.length + 1).sum < usable (args.map fun arg => arg.length + 1).sum ∧
      ['a', 'u', 't', 'o'] ∉ args := by
  constructor
  · rintro ⟨s', hstep, ⟨ports, hports, htries⟩, -, hresume, hwithin, -⟩
    have hnames : ∀ t, Reaches (parseTurn usable argv) s t → FullName table argv t.2 :=
      not_overrun_iff.mp (mt (Loop.ends_iff_of_steps hstep).mp hwithin)
    have hname := hnames s .refl
    obtain ⟨arg, -, hget⟩ := h.found hname
    cases (steps_port usable hget).symm.trans hstep
    obtain ⟨hapart, hearly⟩ := h.apart_of_resumes hname (inside_of_reaches hreach) hresume
    rw [h.optPort hname usable hapart hearly] at hports
    obtain ⟨hroom, rfl⟩ := joinPorts_eq_some.mp hports
    obtain ⟨hall, hauto⟩ := take_of_tries h.isPort (htries plainFiles Device.Memory.start rfl)
    rw [List.take_of_length_le hall] at hroom
    have hbehind := h.behind hapart
    exact ⟨hnames, hapart, by omega, hroom, hauto⟩
  · rintro ⟨hnames, hapart, hfits, hroom, hauto⟩
    have hname := hnames s .refl
    obtain ⟨arg, -, hget⟩ := h.found hname
    have hport := steps_port usable hget
    have hbehind := h.behind hapart
    have hpos := List.length_pos_iff.mpr h.ne_nil
    have hopts := h.optPort hname usable hapart (by omega) s.1 (some arg)
    rw [List.take_of_length_le (by omega), joinPorts_eq_some.mpr ⟨hroom, rfl⟩] at hopts
    refine ⟨_, hport, ⟨(args.map (· ++ ['|'])).flatten, by rw [hopts], ?_⟩, by rw [hopts],
      h.resumes hname hapart hfits,
      not_overrun_iff.mpr fun t ht => hnames t (.head hport ht),
      fun hlast rc opts hends => port_of_ends hlast hends⟩
    intro fs m _
    have hcandidates : args.flatMap (candidates fs) = args.flatMap (expand fs) :=
      List.flatMap_congr fun a ha => candidates_of_isPort fs (h.isPort a ha) (by
        rintro rfl
        exact hauto ha)
    rw [Device.search_eq, candidates_join fs h.isPort, hcandidates]

/-- `hdmi2usbd -p ttyACM0 ttyACM1 --echo`, where blocks have a byte to spare. -/
theorem two_ports_survive :
    let argv : List Word := [['h', 'd', 'm', 'i', '2', 'u', 's', 'b', 'd'], ['-', 'p'],
      ['t', 't', 'y', 'A', 'C', 'M', '0'], ['t', 't', 'y', 'A', 'C', 'M', '1'],
      ['-', '-', 'e', 'c', 'h', 'o']]
    Survives (· + 1) argv parseStart ⟨3, []⟩
      [['t', 't', 'y', 'A', 'C', 'M', '0'], ['t', 't', 'y', 'A', 'C', 'M', '1']] := by
  intro argv
  refine (survives_iff (· + 1) .refl ⟨⟨_, rfl, by decide⟩, ⟨[_], rfl, by decide⟩, ?_, by decide⟩).mpr
    ⟨fun t _ => Getopt.fullName_of_words (by decide) t.2, by decide⟩
  intro arg harg
  rcases List.mem_pair.mp harg with rfl | rfl <;> exact ⟨by decide, by decide, by decide⟩

/-- `hdmi2usbd -pttyACM0`: the option itself is read next. -/
theorem attached_port_does_not_survive :
    ¬ ∀ (usable : Nat → Nat) (argv : List Word) (s : Opts × State) (st' : State) (args : List Word),
      Reaches (parseTurn usable argv) parseStart s → PortsGiven argv s.2 st' args →
      Survives usable argv s st' args := by
  intro hall
  have hget : getoptLong table
      [['h', 'd', 'm', 'i', '2', 'u', 's', 'b', 'd'], ['-', 'p', 't', 't', 'y', 'A', 'C', 'M', '0']]
      ⟨1, []⟩ = .option ('p', some ['t', 't', 'y', 'A', 'C', 'M', '0']) ⟨2, []⟩ := by decide
  have hgiven : PortsGiven
      [['h', 'd', 'm', 'i', '2', 'u', 's', 'b', 'd'], ['-', 'p', 't', 't', 'y', 'A', 'C', 'M', '0']]
      ⟨1, []⟩ ⟨2, []⟩ [['t', 't', 'y', 'A', 'C', 'M', '0']] := by
    refine ⟨⟨_, rfl, hget⟩, ⟨[], by decide, by decide⟩, ?_, by decide⟩
    intro arg harg
    rw [List.mem_singleton.mp harg]
    exact ⟨by decide, by decide, by decide⟩
  obtain ⟨s', hstep, -, -, hresume, -⟩ := hall (· + 1) _ parseStart _ _ .refl hgiven
  cases (steps_port (· + 1) hget).symm.trans hstep
  revert hresume
  decide

end Hdmi2usbd.Argv
