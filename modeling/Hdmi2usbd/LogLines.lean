import Hdmi2usbd.Logging

/-!
# LogLines — where the messages of the log go

A message that is verbose enough becomes a line with its date and level. It goes to the log file,
which is opened before the first such message and, if that fails, tried again at the next; and it
is echoed, also where the file cannot be opened. So unless echoing is switched off, every message
gets out: the file has all the lines, or the echo has (`run_lines`).
-/

namespace Hdmi2usbd.Log

open Argv (logEcho logNoecho logStderr logSync logUtc)
open Getopt (Word)

def levels : List Word :=
  ["NONE", "FATAL", "CRITICAL", "ERROR", "WARNING", "INFO", "DEBUG", "TRACE"].map String.toList

def vTrace : Nat := 7

/-- `logData.logfmt`. -/
def logfmt : Word := "%s %s %s\n".toList

/-- The static state, with what the log is written to. -/
structure Logger where
  data : LogData
  logname : Option Word
  /-- the name of the open log file -/
  logfp : Option Word

/-- The option is set. -/
def LogData.Has (d : LogData) (option : BitVec 32) : Prop := d.flags &&& option ≠ 0

instance (d : LogData) (option : BitVec 32) : Decidable (d.Has option) :=
  inferInstanceAs (Decidable (_ ≠ _))

/-- What the system answers during a message: the time for its date, the time for the name of a new
log file, and whether that can be opened. -/
structure LogAnswers where
  now : Option TimeOfDay
  later : Option TimeOfDay
  opens : Bool

inductive Sink
  | file (name : Word)
  | stdout
  | stderr
deriving DecidableEq

inductive Output
  | line (sink : Sink) (text : Word)
  | synced (name : Word)
deriving DecidableEq

/-- Why a message is not logged: the program exits, or what it does has no meaning. -/
inductive Halt
  | exit (code : Int)
  | undefined
deriving DecidableEq

/-- What is called with a message. -/
inductive LogCall
  | message (verbose : Nat)
  | critical
  | error
  | warning
  | info
  | debug
  | trace

/-- `log_critical` and the others pass their own level to `log_log`, `log_message` any. -/
def LogCall.verbosity : LogCall → Nat
  | .message verbose => verbose
  | .critical => 2
  | .error => 3
  | .warning => 4
  | .info => 5
  | .debug => 6
  | .trace => 7

/-- A message as it is passed to `log_log`, and what the system answers. -/
structure Message (α : Type*) where
  call : LogCall
  fmt : Word
  args : List α
  answers : LogAnswers

/-- `log_rotate`, with what `strftime` writes, `none` if that does not fit in its buffer. The result
is `none` if the name of the file is missing or undefined. -/
def logRotate (strftime : StrftimeCall → Option Word) (a : LogAnswers) (lg : Logger) :
    Option Logger :=
  let lg := { lg with logfp := none }
  if lg.data.Has logFile then do
    let now ← a.later
    let call ← logNewName lg.data now
    let name ← strftime call
    if a.opens then pure { lg with logname := some name, logfp := some name }
    else if ¬ lg.data.Has logNoecho then
      pure { lg with
        data := { lg.data with flags := lg.data.flags ||| logEcho }, logname := some name }
    else pure { lg with logname := some name }
  else some lg

/-- The format of a line. Its buffer has room for 128 characters besides the date and the message. -/
def fmtstr (date level fmt : Word) : Option Word :=
  (Printf.expandWith (fun spec s => if spec = ['s'] then some s else none)
    (Printf.directives logfmt) [date, level, fmt]).map (·.take (date.length + fmt.length + 127))

/-- What a line is written to. -/
def outputs (lg : Logger) (text : Word) : List Output :=
  (match lg.logfp with
    | none => []
    | some name =>
      .line (.file name) text :: if lg.data.Has logSync then [.synced name] else []) ++
    if lg.data.Has logEcho then
      [.line (if lg.data.Has logStderr then .stderr else .stdout) text]
    else []

section Log

variable {α : Type*} (convert : List Char → α → Option Word)
  (strftime : StrftimeCall → Option Word)

/-- `log_log`, with what comes out of the conversions of the message. -/
def logLog (a : LogAnswers) (verbosity : Nat) (fmt : Word) (args : List α) (lg : Logger) :
    Except Halt (Logger × List Output) :=
  if verbosity ≤ lg.data.verbosity then
    match a.now with
    | none => .error (.exit 2)
    | some now =>
      let done : Option (Logger × List Output) := do
        let call ← logDate lg.data now
        let date ← strftime call
        let lg ←
          (if lg.logfp = none ∧ lg.data.Has logFile then logRotate strftime a lg
          else some lg)
        let level ← levels[min verbosity vTrace]?
        -- the check of the format looks at a count that is still 0
        let format ← fmtstr date level fmt
        let text ← Printf.expandWith convert (Printf.directives format) args
        pure (lg, outputs lg text)
      match done with
      | none => .error .undefined
      | some r => .ok r
  else .ok (lg, [])

/-- The messages of a run, and what was written. -/
def logRun : Logger → List (Message α) → Except Halt (Logger × List Output)
  | lg, [] => .ok (lg, [])
  | lg, m :: ms => do
    let (lg, outs) ← logLog convert strftime m.answers m.call.verbosity m.fmt m.args lg
    let (lg, outs') ← logRun lg ms
    pure (lg, outs ++ outs')

/-! ## The line of a message -/

namespace Message

variable (d : LogData) (m : Message α)

/-- The message is verbose enough. -/
def Enabled : Prop := m.call.verbosity ≤ d.verbosity

instance : DecidablePred (Enabled (α := α) d) := fun _ => inferInstanceAs (Decidable (_ ≤ _))

def line : Option Word := do
  let now ← m.answers.now
  let call ← logDate d now
  let date ← strftime call
  let level ← levels[min m.call.verbosity vTrace]?
  let text ← Printf.expandWith convert (Printf.directives m.fmt) m.args
  pure (date ++ ' ' :: level ++ ' ' :: text ++ ['\n'])

/-- The times are there, the date has no percent sign, and the format fits the arguments. -/
structure Sound : Prop where
  date : ∃ now call date, m.answers.now = some now ∧ logDate d now = some call ∧
    strftime call = some date ∧ '%' ∉ date
  name : ∃ now call name, m.answers.later = some now ∧ logNewName d now = some call ∧
    strftime call = some name
  format : Printf.Whole m.fmt
  text : ∃ text, Printf.expandWith convert (Printf.directives m.fmt) m.args = some text

end Message

end Log

/-! ## The format of a line -/

theorem fmtstr_eq (date level fmt : Word) (hlevel : level.length ≤ 124) :
    fmtstr date level fmt = some (date ++ ' ' :: level ++ ' ' :: fmt ++ ['\n']) := by
  have hformat : Printf.directives logfmt =
      [.conversion ['s'], .text ' ', .conversion ['s'], .text ' ', .conversion ['s'],
        .text '\n'] := by decide
  simp only [fmtstr, hformat, Printf.expandWith, if_true, Option.bind_eq_bind, Option.bind_some,
    Option.pure_def, Option.map_some, Option.some.injEq]
  rw [List.take_of_length_le]
  · simp
  · simp
    omega

theorem levels_short {i : Nat} {level : Word} (h : levels[i]? = some level) :
    level.length ≤ 124 ∧ '%' ∉ level := by
  have hall : ∀ level ∈ levels, level.length ≤ 124 ∧ '%' ∉ level := by decide
  exact hall level (List.mem_of_getElem? h)

theorem level_isSome (verbosity : Nat) : ∃ level, levels[min verbosity vTrace]? = some level := by
  refine ⟨_, List.getElem?_eq_getElem ?_⟩
  exact (Nat.min_le_right _ _).trans_lt (by decide)

/-- A line is what comes out of its format. -/
theorem expand_fmtstr {α : Type*} (convert : List Char → α → Option Word) {date level fmt : Word}
    {args : List α} {text : Word} (hdate : '%' ∉ date) (hlevel : '%' ∉ level)
    (hfmt : Printf.Whole fmt)
    (htext : Printf.expandWith convert (Printf.directives fmt) args = some text) :
    Printf.expandWith convert (Printf.directives (date ++ ' ' :: level ++ ' ' :: fmt ++ ['\n'])) args =
      some (date ++ ' ' :: level ++ ' ' :: text ++ ['\n']) := by
  have hhead : '%' ∉ date ++ ' ' :: level ++ [' '] := by simp [hdate, hlevel]
  have hnewline : '%' ∉ ['\n'] := by decide
  rcases Printf.directives_of_notMem hhead with ⟨hwhole, hdirectives⟩
  have hsplit : date ++ ' ' :: level ++ ' ' :: fmt ++ ['\n'] =
      (date ++ ' ' :: level ++ [' ']) ++ (fmt ++ ['\n']) := by simp
  rw [hsplit, Printf.directives_append hwhole, Printf.directives_append hfmt, hdirectives,
    (Printf.directives_of_notMem hnewline).2, Printf.expandWith_text_append,
    Printf.expandWith_append_text convert htext]
  simp

/-! ## One message -/

/-- With echoing switched on. -/
def LogData.echoing (d : LogData) : LogData := { d with flags := d.flags ||| logEcho }

theorem has_echoing (d : LogData) {option : BitVec 32} (h : logEcho &&& option = 0) :
    d.echoing.Has option ↔ d.Has option := by
  have hflags : d.echoing.flags &&& option = d.flags &&& option := by
    rw [LogData.echoing, BitVec.and_or_distrib_right, h]
    exact BitVec.or_zero
  rw [LogData.Has, LogData.Has, hflags]

theorem echoing_has_echo (d : LogData) : d.echoing.Has logEcho := by
  intro h
  have hbit := congrArg (BitVec.getLsbD · 0) h
  simp [LogData.echoing, logEcho] at hbit

theorem datetimeFmt_echoing (d : LogData) (now : TimeOfDay) (size : Nat) (format : Word) :
    datetimeFmt d.echoing now size format = datetimeFmt d now size format := by
  have hutc : d.echoing.flags &&& logUtc ≠ 0 ↔ d.flags &&& logUtc ≠ 0 :=
    has_echoing d (by decide)
  simp only [datetimeFmt, hutc]

theorem logDate_echoing (d : LogData) (now : TimeOfDay) : logDate d.echoing now = logDate d now :=
  datetimeFmt_echoing d now 255 d.datefmt

theorem logNewName_echoing (d : LogData) (now : TimeOfDay) :
    logNewName d.echoing now = logNewName d now := datetimeFmt_echoing d now 1023 d.logpath

section Message

variable {α : Type*} {convert : List Char → α → Option Word}
  {strftime : StrftimeCall → Option Word}

theorem Message.line_echoing (d : LogData) (m : Message α) :
    m.line convert strftime d.echoing = m.line convert strftime d := by
  simp only [Message.line, logDate_echoing]

theorem Message.Sound.echoing {d : LogData} {m : Message α} (h : m.Sound convert strftime d) :
    m.Sound convert strftime d.echoing := by
  refine { h with date := ?_, name := ?_ }
  · simpa only [logDate_echoing] using h.date
  · simpa only [logNewName_echoing] using h.name

/-- What becomes of the log file before a line is written. -/
inductive Rotated (lg : Logger) (opens : Bool) (lg' : Logger) : Prop
  | kept (hfile : lg.logfp.isSome ∨ ¬ lg.data.Has logFile) (h : lg' = lg)
  | opened (hnone : lg.logfp = none) (hfile : lg.data.Has logFile) (hopens : opens = true)
    (hdata : lg'.data = lg.data) (h : lg'.logfp.isSome)
  | failed (hnone : lg.logfp = none) (hfile : lg.data.Has logFile)
    (hopens : opens = false) (h : lg'.logfp = none)
    (hdata : lg'.data = if ¬ lg.data.Has logNoecho then lg.data.echoing else lg.data)

theorem logRotate_rotated {lg : Logger} {a : LogAnswers} {now : TimeOfDay} {call : StrftimeCall}
    {name : Word} (hnow : a.later = some now) (hcall : logNewName lg.data now = some call)
    (hname : strftime call = some name) (hnone : lg.logfp = none)
    (hfile : lg.data.Has logFile) :
    ∃ lg', logRotate strftime a lg = some lg' ∧ Rotated lg a.opens lg' := by
  simp only [logRotate, hfile, if_true, hnow, hcall, hname,
    Option.bind_eq_bind, Option.bind_some, Option.pure_def]
  cases hopens : a.opens with
  | true => exact ⟨_, rfl, .opened hnone hfile rfl rfl rfl⟩
  | false =>
    by_cases hnoecho : ¬ lg.data.Has logNoecho
    · rw [if_neg Bool.false_ne_true, if_pos hnoecho]
      exact ⟨_, rfl, .failed hnone hfile rfl rfl (if_pos hnoecho).symm⟩
    · rw [if_neg Bool.false_ne_true, if_neg hnoecho]
      exact ⟨_, rfl, .failed hnone hfile rfl rfl (if_neg hnoecho).symm⟩

/-- A message that is verbose enough is written as its line. -/
theorem logLog_sound {lg : Logger} {m : Message α} (henabled : m.Enabled lg.data)
    (hsound : m.Sound convert strftime lg.data) :
    ∃ text lg', m.line convert strftime lg.data = some text ∧
      logLog convert strftime m.answers m.call.verbosity m.fmt m.args lg =
        .ok (lg', outputs lg' text) ∧ Rotated lg m.answers.opens lg' := by
  rcases hsound.date with ⟨now, call, date, hnow, hcall, hdate, hclean⟩
  rcases hsound.text with ⟨text, htext⟩
  rcases level_isSome m.call.verbosity with ⟨level, hlevel⟩
  rcases levels_short hlevel with ⟨hshort, hplain⟩
  have hrotate : ∃ lg', (if lg.logfp = none ∧ lg.data.Has logFile then
      logRotate strftime m.answers lg else some lg) = some lg' ∧ Rotated lg m.answers.opens lg' := by
    by_cases hrotates : lg.logfp = none ∧ lg.data.Has logFile
    · rcases hsound.name with ⟨later, call', name, hlater, hcall', hname⟩
      rw [if_pos hrotates]
      exact logRotate_rotated hlater hcall' hname hrotates.1 hrotates.2
    · rw [if_neg hrotates]
      refine ⟨lg, rfl, .kept ?_ rfl⟩
      rw [not_and_or, ← ne_eq, Option.ne_none_iff_isSome] at hrotates
      exact hrotates
  rcases hrotate with ⟨lg', hlg', hrotated⟩
  refine ⟨date ++ ' ' :: level ++ ' ' :: text ++ ['\n'], lg', ?_, ?_, hrotated⟩
  · simp only [Message.line, hnow, hcall, hdate, hlevel, htext, Option.bind_eq_bind,
      Option.bind_some]
    rfl
  · have hformat := expand_fmtstr convert hclean hplain hsound.format htext
    rw [Message.Enabled] at henabled
    rw [logLog, if_pos henabled, hnow]
    simp only [hcall, hdate, hlg', hlevel, fmtstr_eq date level m.fmt hshort, hformat,
      Option.bind_eq_bind, Option.bind_some, Option.pure_def]

end Message

/-! ## A run -/

/-- The lines in the log file. -/
def fileLines (outs : List Output) : List Word :=
  outs.filterMap fun
    | .line (.file _) text => some text
    | _ => none

/-- The lines on the terminal. -/
def echoLines (outs : List Output) : List Word :=
  outs.filterMap fun
    | .line .stdout text | .line .stderr text => some text
    | _ => none

@[simp] theorem fileLines_append (outs outs' : List Output) :
    fileLines (outs ++ outs') = fileLines outs ++ fileLines outs' := List.filterMap_append

@[simp] theorem echoLines_append (outs outs' : List Output) :
    echoLines (outs ++ outs') = echoLines outs ++ echoLines outs' := List.filterMap_append

theorem fileLines_outputs (lg : Logger) (text : Word) :
    fileLines (outputs lg text) = if lg.logfp.isSome then [text] else [] := by
  have hecho : ∀ sink, sink = Sink.stdout ∨ sink = Sink.stderr →
      fileLines (if lg.data.Has logEcho then [.line sink text] else []) = [] := by
    rintro sink (rfl | rfl)
    · split <;> rfl
    · split <;> rfl
  rw [outputs, fileLines_append, hecho _ (by split <;> simp), List.append_nil]
  cases lg.logfp with
  | none => rfl
  | some name =>
    simp only [Option.isSome_some, if_true]
    split <;> rfl

theorem echoLines_outputs (lg : Logger) (text : Word) :
    echoLines (outputs lg text) = if lg.data.Has logEcho then [text] else [] := by
  have hfile : echoLines (match lg.logfp with
      | none => []
      | some name =>
        .line (.file name) text ::
          if lg.data.Has logSync then [.synced name] else []) = [] := by
    cases lg.logfp with
    | none => rfl
    | some name =>
      dsimp only
      split <;> rfl
  rw [outputs, echoLines_append, hfile, List.nil_append]
  split
  · split <;> rfl
  · rfl

section Run

variable {α : Type*} {convert : List Char → α → Option Word}
  {strftime : StrftimeCall → Option Word}

/-- Echoing is on, or is switched on because the log file cannot be opened for the first message. -/
def Echoes (lg : Logger) (enabled : List (Message α)) : Prop :=
  lg.data.Has logEcho ∨
    (lg.logfp = none ∧ lg.data.Has logFile ∧ ¬ lg.data.Has logNoecho ∧
      ∃ first ∈ enabled.head?, first.answers.opens = false)

instance (lg : Logger) (enabled : List (Message α)) : Decidable (Echoes lg enabled) :=
  inferInstanceAs (Decidable (_ ∨ (_ ∧ _ ∧ _ ∧ _)))

/-- Where the lines of the messages go: to the file from the first message on for which it is open,
and to the echo all of them or none. -/
structure Written (lg : Logger) (enabled : List (Message α)) (lines : List Word)
    (outs : List Output) : Prop where
  file : fileLines outs =
    if lg.logfp.isSome then lines
    else if lg.data.Has logFile then
      lines.drop (enabled.takeWhile fun m => !m.answers.opens).length
    else []
  echo : echoLines outs = if Echoes lg enabled then lines else []

theorem Echoes.of_no_first {lg : Logger} {enabled : List (Message α)}
    (h : lg.logfp.isSome ∨ ¬ lg.data.Has logFile ∨ lg.data.Has logNoecho ∨
      ∃ m ∈ enabled.head?, m.answers.opens = true) : Echoes lg enabled ↔ lg.data.Has logEcho := by
  refine or_iff_left ?_
  rintro ⟨hnone, hfile, hnoecho, first, hfirst, hopens⟩
  rcases h with hsome | hnot | hno | ⟨m, hm, hm'⟩
  · rw [hnone] at hsome
    cases hsome
  · exact hnot hfile
  · exact hnoecho hno
  · cases hfirst.symm.trans hm
    rw [hopens] at hm'
    cases hm'

/-- Whether messages are echoed is settled with the first one. -/
theorem Rotated.echoes {lg lg' : Logger} {m : Message α} (h : Rotated lg m.answers.opens lg')
    (enabled : List (Message α)) : (Echoes lg (m :: enabled) ↔ lg'.data.Has logEcho) ∧
      (Echoes lg' enabled ↔ lg'.data.Has logEcho) := by
  cases h with
  | kept hfile heq =>
    subst heq
    have hsettled := fun enabled : List (Message α) =>
      @Echoes.of_no_first α lg' enabled (hfile.imp_right .inl)
    exact ⟨hsettled _, hsettled _⟩
  | opened hnone hfile hopens hdata hsome =>
    refine ⟨?_, Echoes.of_no_first (.inl hsome)⟩
    rw [hdata]
    exact Echoes.of_no_first (.inr (.inr (.inr ⟨m, rfl, hopens⟩)))
  | failed hnone hfile hopens hnone' hdata =>
    by_cases hnoecho : lg.data.Has logNoecho
    · rw [if_neg (not_not_intro hnoecho)] at hdata
      constructor
      · rw [hdata]
        exact Echoes.of_no_first (.inr (.inr (.inl hnoecho)))
      · exact Echoes.of_no_first (.inr (.inr (.inl (hdata ▸ hnoecho))))
    · rw [if_pos hnoecho] at hdata
      have hecho : lg'.data.Has logEcho := hdata ▸ echoing_has_echo lg.data
      exact ⟨iff_of_true (.inr ⟨hnone, hfile, hnoecho, m, rfl, hopens⟩) hecho,
        iff_of_true (.inl hecho) hecho⟩

/-- A line, and then those of the other messages. -/
theorem Written.cons {lg lg' : Logger} {m : Message α} {enabled : List (Message α)} {text : Word}
    {lines : List Word} {outs : List Output} (hrotated : Rotated lg m.answers.opens lg')
    (h : Written lg' enabled lines outs) :
    Written lg (m :: enabled) (text :: lines) (outputs lg' text ++ outs) := by
  constructor
  · rw [fileLines_append, fileLines_outputs, h.file]
    cases hrotated with
    | kept hfile heq =>
      subst heq
      cases hopen : lg'.logfp with
      | some name => simp
      | none =>
        have hnone : ¬ lg'.data.Has logFile := by simpa [hopen] using hfile
        simp [hnone]
    | opened hnone hfile hopens hdata hsome => simp [hsome, hnone, hfile, hopens]
    | failed hnone hfile hopens hnone' hdata =>
      have hfile' : lg'.data.Has logFile := by
        rw [hdata]
        split
        · exact (has_echoing lg.data (by decide)).mpr hfile
        · exact hfile
      simp [hnone, hfile, hopens, hnone', hfile']
  · rcases hrotated.echoes enabled with ⟨hhead, htail⟩
    rw [echoLines_append, echoLines_outputs, h.echo]
    simp only [hhead, htail]
    split <;> rfl

theorem Rotated.data {lg lg' : Logger} {opens : Bool} (h : Rotated lg opens lg') :
    lg'.data = lg.data ∨ lg'.data = lg.data.echoing := by
  cases h with
  | kept hfile heq => exact .inl (congrArg Logger.data heq)
  | opened hnone hfile hopens hdata hsome => exact .inl hdata
  | failed hnone hfile hopens hnone' hdata =>
    split at hdata
    · exact .inr hdata
    · exact .inl hdata

theorem logRun_cons {lg lg' lg'' : Logger} {m : Message α} {ms : List (Message α)}
    {outs outs' : List Output}
    (hlog : logLog convert strftime m.answers m.call.verbosity m.fmt m.args lg = .ok (lg', outs))
    (hrun : logRun convert strftime lg' ms = .ok (lg'', outs')) :
    logRun convert strftime lg (m :: ms) = .ok (lg'', outs ++ outs') := by
  simp only [logRun, hlog, hrun, bind, Except.bind]
  rfl

/-- Every message of a run that is verbose enough is written as its line. -/
theorem logRun_written (ms : List (Message α)) {lg : Logger}
    (hsound : ∀ m ∈ ms, m.Enabled lg.data → m.Sound convert strftime lg.data) :
    ∃ lines lg' outs,
      (ms.filter fun m => m.Enabled lg.data).map (Message.line convert strftime lg.data) =
        lines.map some ∧
      logRun convert strftime lg ms = .ok (lg', outs) ∧
      Written lg (ms.filter fun m => m.Enabled lg.data) lines outs := by
  induction ms generalizing lg with
  | nil =>
    refine ⟨[], lg, [], rfl, rfl, ?_, ?_⟩
    · simp [fileLines]
    · split <;> rfl
  | cons m ms ih =>
    have hrest : ∀ m ∈ ms, m.Enabled lg.data → m.Sound convert strftime lg.data :=
      fun m hm => hsound m (List.mem_cons_of_mem _ hm)
    by_cases henabled : m.Enabled lg.data
    · rcases logLog_sound henabled (hsound m List.mem_cons_self henabled) with
        ⟨text, lg', hline, hlog, hrotated⟩
      -- the messages behind it have the same lines, whether echoing has been switched on or not
      have hlater : ∃ lines lg'' outs,
          (ms.filter fun m => m.Enabled lg.data).map (Message.line convert strftime lg.data) =
            lines.map some ∧
          logRun convert strftime lg' ms = .ok (lg'', outs) ∧
          Written lg' (ms.filter fun m => m.Enabled lg.data) lines outs := by
        rcases hrotated.data with hdata | hdata
        · have hih := @ih lg' (by rwa [hdata])
          rwa [hdata] at hih
        · have hih := @ih lg' (by
            rw [hdata]
            exact fun m hm henabled => (hrest m hm henabled).echoing)
          have hsame : Message.line convert strftime lg.data.echoing =
              Message.line convert strftime lg.data := funext (Message.line_echoing lg.data)
          rw [hdata, hsame] at hih
          exact hih
      rcases hlater with ⟨lines, lg'', outs, hlines, hrun, hwritten⟩
      rw [List.filter_cons_of_pos (by simpa using henabled)]
      refine ⟨text :: lines, lg'', outputs lg' text ++ outs, ?_, logRun_cons hlog hrun,
        hwritten.cons hrotated⟩
      rw [List.map_cons, List.map_cons, hline, hlines]
    · rcases ih hrest with ⟨lines, lg', outs, hlines, hrun, hwritten⟩
      rw [List.filter_cons_of_neg (by simpa using henabled)]
      refine ⟨lines, lg', outs, hlines, ?_, hwritten⟩
      rw [Message.Enabled] at henabled
      exact logRun_cons (by rw [logLog, if_neg henabled]) hrun

/-- `log_init` leaves a way out for the messages, unless echoing is switched off. -/
theorem logInit_has {stack : Nat → Char} {d d' : LogData} {flags : BitVec 32} {verbosity : Int}
    {logpath : Option CString} (h : logInit stack d flags verbosity logpath = some d')
    (hnoecho : ¬ d'.Has logNoecho) : d'.Has logFile ∨ d'.Has logEcho := by
  cases logpath with
  | some logpath =>
    rcases Option.map_eq_some_iff.mp h with ⟨logPath, -, rfl⟩
    refine .inl fun hbit => ?_
    have hfile := congrArg (BitVec.getLsbD · 4) hbit
    simp [logFile] at hfile
  | none =>
    cases h
    by_cases hflags : flags &&& logNoecho = 0
    · rw [LogData.Has, LogData.Has, if_pos hflags]
      exact .inr (echoing_has_echo ⟨0, flags, [], []⟩)
    · rw [LogData.Has, if_neg hflags, not_not] at hnoecho
      exact absurd hnoecho hflags

/-- Along every run of messages from `log_init` on: the log file has the lines of those that are
verbose enough from the first one on for which it can be opened; they are all echoed if echoing is
on or the file cannot be opened for the first of them, and none otherwise; and unless echoing is
switched off, all are in the file or all are echoed. -/
theorem run_lines {stack : Nat → Char} {flags : BitVec 32} {verbosity : Int}
    {logpath : Option CString} {d : LogData}
    (hinit : logInit stack logData flags verbosity logpath = some d) (ms : List (Message α))
    (hsound : ∀ m ∈ ms, m.Enabled d → m.Sound convert strftime d) :
    let enabled := ms.filter fun m => m.Enabled d
    ∃ lines lg outs, enabled.map (Message.line convert strftime d) = lines.map some ∧
      logRun convert strftime ⟨d, none, none⟩ ms = .ok (lg, outs) ∧
      fileLines outs = (if d.Has logFile then
        lines.drop (enabled.takeWhile fun m => !m.answers.opens).length else []) ∧
      echoLines outs = (if Echoes ⟨d, none, none⟩ enabled then lines else []) ∧
      (¬ d.Has logNoecho → fileLines outs = lines ∨ echoLines outs = lines) := by
  intro enabled
  rcases @logRun_written α convert strftime ms ⟨d, none, none⟩ hsound with
    ⟨lines, lg, outs, hlines, hrun, hfile, hecho⟩
  refine ⟨lines, lg, outs, hlines, hrun, hfile, hecho, fun hnoecho => ?_⟩
  by_cases hechoes : Echoes ⟨d, none, none⟩ enabled
  · exact .inr (hecho.trans (if_pos hechoes))
  · -- the first message opens the file
    rw [Echoes, not_or] at hechoes
    have hhas : d.Has logFile := (logInit_has hinit hnoecho).resolve_right hechoes.1
    have hfirst : ∀ first ∈ enabled.head?, first.answers.opens = true := fun first hmem =>
      Bool.eq_true_of_not_eq_false fun hopens =>
        hechoes.2 ⟨rfl, hhas, hnoecho, first, hmem, hopens⟩
    refine .inl (hfile.trans ?_)
    have hnone : (enabled.takeWhile fun m => !m.answers.opens) = [] := by
      cases henabled : enabled with
      | nil => rfl
      | cons first rest =>
        rw [List.takeWhile_cons_of_neg]
        simp [hfirst first (by rw [henabled]; rfl)]
    have hdrop : lines.drop (enabled.takeWhile fun m => !m.answers.opens).length = lines := by
      rw [hnone]
      rfl
    rw [if_neg (by simp), if_pos hhas]
    exact hdrop

end Run

/-- `%s`. -/
def convertString (spec : List Char) (s : Word) : Option Word := if spec = ['s'] then some s else none

/-- `strftime` at the beginning of 1970, for the formats used here. -/
def strftimeEpoch (call : StrftimeCall) : Option Word :=
  if call.fmt = "daemon.log".toList then some call.fmt
  else if call.fmt = "%Y-%m-%d %H:%M:%S.000 +0000".toList then
    some "1970-01-01 00:00:00.000 +0000".toList
  else none

/-- A message at that time. -/
def epochMessage (call : LogCall) (fmt : String) (args : List String) (opens : Bool) : Message Word :=
  ⟨call, fmt.toList, args.map String.toList, ⟨some ⟨0, 0, 0⟩, some ⟨0, 0, 0⟩, opens⟩⟩

/-- The log file can be opened only for the second message. -/
def twoMessages : List (Message Word) :=
  [epochMessage .critical "100%% of %s" ["it"] false, epochMessage .info "ready" [] true]

/-- `-L daemon.log -u`. -/
def epochData : LogData :=
  { logData with flags := logFile ||| logUtc, logpath := "daemon.log".toList }

def daemonLog : CString := ⟨"daemon.log".toList, by decide⟩

theorem epochData_init :
    logInit (fun _ => 'x') logData logUtc 5 (some daemonLog) = some epochData := by
  have hescaped : Printf.escape daemonLog.val = daemonLog.val := by decide
  have hne : daemonLog.val ≠ [] := by decide
  have hpath := escapePath_eq (fun _ => 'x') hne
  rw [hescaped] at hpath
  simp only [logInit, hpath, Option.map_some, epochData]
  rfl

theorem epochMessage_sound {call : LogCall} {fmt : String} {args : List String} {opens : Bool}
    {text : Word} (hformat : Printf.Whole fmt.toList)
    (htext : Printf.expandWith convertString (Printf.directives fmt.toList)
      (args.map String.toList) = some text) :
    (epochMessage call fmt args opens).Sound convertString strftimeEpoch epochData := by
  refine ⟨⟨⟨0, 0, 0⟩, ⟨255, "%Y-%m-%d %H:%M:%S.000 +0000".toList, True, 0⟩,
    "1970-01-01 00:00:00.000 +0000".toList, rfl, ?_, ?_, ?_⟩,
    ⟨⟨0, 0, 0⟩, ⟨1023, "daemon.log".toList, True, 0⟩, "daemon.log".toList, rfl, ?_, ?_⟩,
    hformat, ⟨text, htext⟩⟩
  all_goals decide +kernel

theorem run_lines_two_messages :
    let enabled := twoMessages.filter fun m => m.Enabled epochData
    ∃ lines lg outs,
      enabled.map (Message.line convertString strftimeEpoch epochData) = lines.map some ∧
      logRun convertString strftimeEpoch ⟨epochData, none, none⟩ twoMessages = .ok (lg, outs) ∧
      fileLines outs = (if epochData.Has logFile then
        lines.drop (enabled.takeWhile fun m => !m.answers.opens).length else []) ∧
      echoLines outs = (if Echoes ⟨epochData, none, none⟩ enabled then lines else []) ∧
      (¬ epochData.Has logNoecho → fileLines outs = lines ∨ echoLines outs = lines) := by
  refine run_lines epochData_init twoMessages fun m hm _ => ?_
  rcases List.mem_pair.mp hm with rfl | rfl
  · exact epochMessage_sound (by decide) rfl
  · exact epochMessage_sound (by decide) rfl

end Hdmi2usbd.Log
