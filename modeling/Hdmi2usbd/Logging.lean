import Hdmi2usbd.Lib.Cut
import Hdmi2usbd.Lib.Printf
import Hdmi2usbd.Options

/-!
# Logging — the name of the log file

`log_init` doubles each percent sign of the template for the name of the log file, because
`datetime_fmt` passes it through `snprintf` before `strftime` sees it. The loop terminates its copy
only behind a character, so that of the empty template is never written; and `snprintf` has room
for 255 characters. Every other template reaches `strftime` as it is (`template_reaches_iff`). So
does the template that is there before `log_init` (`logNewName_default`), and of the format of the
date the milliseconds and the time zone are filled in (`logDate_eq`).
-/

namespace Hdmi2usbd.Log

open Argv (logEcho logNoecho logUtc)
open Getopt (Word)

/-- The terminator. -/
def nul : Char := Char.ofNat 0

/-- A C string, without its terminator. -/
abbrev CString := { w : Word // nul ∉ w }

def logFile : BitVec 32 := 0x10

/-- `V_DEFAULT`. -/
def vDefault : Int := 5

/-- `logData`, the static state. -/
structure LogData where
  verbosity : Int
  flags : BitVec 32
  logpath : Word
  datefmt : Word

/-- The state before `log_init`. -/
def logData : LogData where
  verbosity := vDefault
  flags := logEcho
  logpath := "log_%%Y%%m%%d_%%H%%M%%S.log".toList
  datefmt := "%%Y-%%m-%%d %%H:%%M:%%S.%03u %c%02u%02u".toList

/-! ## `log_init` -/

/-- A turn of the loop of `log_init`: the array, and the position of `p`. -/
def escapeTurn (s : Word × Nat) (c : Char) : Option (Word × Nat) := do
  let (logPath, p) ←
    -- the percent sign is doubled
    if c = '%' then (Block.store s.1 s.2 ['%']).map fun logPath => (logPath, s.2 + 1) else some s
  let logPath ← Block.store logPath p [c]
  let logPath ← Block.store logPath (p + 1) [nul]
  pure (logPath, p + 1)

/-- `strdup` of an array; `none` if it is not terminated. -/
def strdup (s : Word) : Option Word :=
  if nul ∈ s then some (s.takeWhile (· ≠ nul)) else none

/-- The copy of the template, made in an array that holds what is found on the stack. -/
def escapePath (stack : Nat → Char) (logpath : Word) : Option Word := do
  let (logPath, _) ←
    logpath.foldlM escapeTurn ((List.range (logpath.length * 2 + 1)).map stack, 0)
  strdup logPath

def logInit (stack : Nat → Char) (d : LogData) (flags : BitVec 32) (verbosity : Int) :
    Option CString → Option LogData
  | some logpath =>
    (escapePath stack logpath.val).map fun logPath =>
      { d with
        flags := flags ||| logFile
        verbosity := if verbosity = 0 then vDefault else verbosity
        logpath := logPath }
  | none =>
    some { d with
      flags := if flags &&& logNoecho = 0 then flags ||| logEcho else flags
      verbosity := if verbosity = 0 then vDefault else verbosity }

/-! ## `datetime_fmt` -/

/-- `struct timeval`, and the field of `struct timezone` that is read. -/
structure TimeOfDay where
  tvSec : Int
  tvUsec : Nat
  tzMinuteswest : Int

/-- What `strftime` is called with; the time is that of `gmtime` or else of `localtime`. -/
structure StrftimeCall where
  size : Nat
  fmt : Word
  utc : Bool
  time : Int
deriving DecidableEq

/-- The sign, hours and minutes of the time zone. -/
def zone (utc : Bool) (now : TimeOfDay) : Char × Nat × Nat :=
  if utc then ('+', 0, 0)
  else
    (if now.tzMinuteswest < 0 then '-' else '+', now.tzMinuteswest.natAbs / 60,
      now.tzMinuteswest.natAbs % 60)

/-- `datetime_fmt` where `gettimeofday` succeeds; `none` if `snprintf` has no meaning. -/
def datetimeFmt (d : LogData) (now : TimeOfDay) (size : Nat) (fmtstr : Word) :
    Option StrftimeCall :=
  let utc := d.flags &&& logUtc ≠ 0
  let (sign, hours, mins) := zone utc now
  (Printf.snprintf 256 fmtstr
      [.unsigned (now.tvUsec / 1000), .char sign, .unsigned hours, .unsigned mins]).map fun fmt =>
    ⟨size, fmt, utc, now.tvSec⟩

/-- `log_newName`, up to `strftime`. -/
def logNewName (d : LogData) (now : TimeOfDay) : Option StrftimeCall :=
  datetimeFmt d now 1023 d.logpath

/-- The date of a line of the log. -/
def logDate (d : LogData) (now : TimeOfDay) : Option StrftimeCall :=
  datetimeFmt d now 255 d.datefmt

/-! ## The copy of the template -/

/-- A character is copied, and the terminator behind it. -/
theorem store_terminated (before : Word) (c x y : Char) (rest : Word) :
    (Block.store (before ++ x :: y :: rest) before.length [c]).bind
        (Block.store · (before.length + 1) [nul]) = some (before ++ c :: nul :: rest) := by
  have hnext := Block.store_append (before ++ [c]) rest nul y
  rw [List.length_append, List.length_singleton, List.append_assoc, List.append_assoc] at hnext
  rw [Block.store_append]
  exact hnext

/-- What a turn leaves: the character escaped, terminated, and no less space than it needs. -/
theorem escapeTurn_eq (before : Word) (c x y z : Char) (rest : Word) :
    ∃ rest', rest.length ≤ rest'.length ∧
      escapeTurn (before ++ x :: y :: z :: rest, before.length) c =
        some (before ++ Printf.escape [c] ++ nul :: rest', (before ++ Printf.escape [c]).length) := by
  by_cases hc : c = '%'
  · -- both percent signs are stored, and the terminator takes the third cell
    have hfirst := Block.store_append before (y :: z :: rest) '%' x
    have hsecond := store_terminated (before ++ ['%']) c y z rest
    rw [List.length_append, List.length_singleton, List.append_assoc, List.append_assoc] at hsecond
    obtain ⟨logPath, hcopied, hnul⟩ := Option.bind_eq_some_iff.mp hsecond
    refine ⟨rest, Nat.le_refl _, ?_⟩
    rw [List.singleton_append] at hcopied
    simp [escapeTurn, hc, hfirst, hc ▸ hcopied, hc ▸ hnul, Printf.escape]
  · have hfirst := store_terminated before c x y (z :: rest)
    obtain ⟨logPath, hcopied, hnul⟩ := Option.bind_eq_some_iff.mp hfirst
    refine ⟨z :: rest, Nat.le_succ _, ?_⟩
    simp [escapeTurn, hc, hcopied, hnul, Printf.escape]

/-- The loop leaves the escaped text, terminated unless there is nothing to copy. -/
theorem escapeLoop_eq (template : Word) {before tail : Word}
    (hroom : template.length * 2 + 1 ≤ tail.length)
    (hend : template = [] → tail.head? = some nul) :
    ∃ rest, template.foldlM escapeTurn (before ++ tail, before.length) =
      some (before ++ Printf.escape template ++ nul :: rest,
        (before ++ Printf.escape template).length) := by
  induction template generalizing before tail with
  | nil =>
    obtain ⟨rest, rfl⟩ : ∃ rest, tail = nul :: rest := List.head?_eq_some_iff.mp (hend rfl)
    exact ⟨rest, by simp⟩
  | cons c template ih =>
    rw [List.length_cons] at hroom
    -- two cells for the character at most, and one for the terminator
    obtain ⟨x, tail, rfl⟩ := List.exists_cons_of_length_pos (l := tail) (by omega)
    rw [List.length_cons] at hroom
    obtain ⟨y, tail, rfl⟩ := List.exists_cons_of_length_pos (l := tail) (by omega)
    rw [List.length_cons] at hroom
    obtain ⟨z, rest, rfl⟩ := List.exists_cons_of_length_pos (l := tail) (by omega)
    obtain ⟨rest', hle, hturn⟩ := escapeTurn_eq before c x y z rest
    simp only [List.length_cons] at hroom
    have hroom' : template.length * 2 + 1 ≤ (nul :: rest').length := by
      rw [List.length_cons]
      omega
    obtain ⟨rest'', hloop⟩ := @ih (before ++ Printf.escape [c]) _ hroom' fun _ => rfl
    refine ⟨rest'', ?_⟩
    rw [List.foldlM_cons, hturn, Option.bind_eq_bind, Option.bind_some, hloop,
      Printf.escape_cons c template, List.append_assoc before]

theorem strdup_append {text : Word} (hfree : nul ∉ text) (rest : Word) :
    strdup (text ++ nul :: rest) = some text := by
  rw [strdup, if_pos (by simp), (Cut.cut_append hfree (nul :: rest) (by simp)).1]

/-- A template that is not empty is escaped, whatever is on the stack. -/
theorem escapePath_eq (stack : Nat → Char) {template : CString} (hne : template.val ≠ []) :
    escapePath stack template.val = some (Printf.escape template.val) := by
  have hroom : template.val.length * 2 + 1 ≤
      ((List.range (template.val.length * 2 + 1)).map stack).length := by simp
  obtain ⟨rest, hloop⟩ := @escapeLoop_eq template.val [] _ hroom fun hnil => absurd hnil hne
  have hfree : nul ∉ Printf.escape template.val := by
    rw [Printf.mem_escape]
    exact template.property
  rw [List.nil_append, List.nil_append, List.length_nil] at hloop
  rw [escapePath, hloop, Option.bind_eq_bind, Option.bind_some]
  exact strdup_append hfree rest

/-- The copy of the empty template is what is on the stack. -/
theorem escapePath_nil (stack : Nat → Char) :
    escapePath stack [] = if stack 0 = nul then some [] else none := by
  by_cases hstack : stack 0 = nul
  · simp [escapePath, strdup, hstack]
  · have hne : nul ≠ stack 0 := fun h => hstack h.symm
    simp [escapePath, strdup, hstack, hne]

/-- The state keeps the copy. -/
theorem logInit_logpath {stack : Nat → Char} {d d' : LogData} {flags : BitVec 32} {verbosity : Int}
    {template : CString} (h : logInit stack d flags verbosity (some template) = some d') :
    escapePath stack template.val = some d'.logpath := by
  obtain ⟨logPath, hpath, rfl⟩ := Option.map_eq_some_iff.mp h
  exact hpath

/-! ## The way of a template -/

/-- Whatever is on the stack and at any time, what `strftime` gets for the name of the log file is
the template, and `snprintf` finds no conversion in its copy. -/
def TemplateReaches (template : CString) : Prop :=
  ∀ stack d flags verbosity, ∃ d', logInit stack d flags verbosity (some template) = some d' ∧
    Printf.conversions d'.logpath = [] ∧
    ∀ now, ∃ call, logNewName d' now = some call ∧ call.fmt = template.val

/-- What is escaped comes out of `datetime_fmt` again, and then what the directives behind it make
of the milliseconds and the time zone, as far as there is room. -/
theorem datetimeFmt_append (d : LogData) (now : TimeOfDay) (size : Nat) (text : Word)
    {tail out : Word} (hout : Printf.expand (Printf.directives tail)
      [.unsigned (now.tvUsec / 1000), .char (zone (d.flags &&& logUtc ≠ 0) now).1,
        .unsigned (zone (d.flags &&& logUtc ≠ 0) now).2.1,
        .unsigned (zone (d.flags &&& logUtc ≠ 0) now).2.2] = some out) :
    datetimeFmt d now size (Printf.escape text ++ tail) =
      some ⟨size, (text ++ out).take 255, d.flags &&& logUtc ≠ 0, now.tvSec⟩ := by
  have hfmt := Printf.snprintf_escape_append 256 text hout
  simp only [datetimeFmt, hfmt, Option.map_some]

theorem datetimeFmt_escape (d : LogData) (now : TimeOfDay) (size : Nat) (text : Word) :
    datetimeFmt d now size (Printf.escape text) =
      some ⟨size, text.take 255, d.flags &&& logUtc ≠ 0, now.tvSec⟩ := by
  simp only [datetimeFmt, Printf.snprintf_escape, Option.map_some]

theorem template_reaches_iff (template : CString) :
    TemplateReaches template ↔ template.val ≠ [] ∧ template.val.length ≤ 255 := by
  constructor
  · intro hreaches
    obtain ⟨d', hinit, -, hname⟩ := hreaches (fun _ => 'x') ⟨0, 0, [], []⟩ 0 0
    have hpath := logInit_logpath hinit
    have hne : template.val ≠ [] := by
      intro hnil
      rw [hnil, escapePath_nil, if_neg (by decide)] at hpath
      cases hpath
    refine ⟨hne, ?_⟩
    rw [escapePath_eq _ hne, Option.some.injEq] at hpath
    obtain ⟨call, hcall, hfmt⟩ := hname ⟨0, 0, 0⟩
    rw [logNewName, ← hpath, datetimeFmt_escape] at hcall
    cases hcall
    -- what is left of the template after the cut is the whole of it
    rw [← hfmt]
    exact List.length_take_le _ _
  · rintro ⟨hne, hlen⟩ stack d flags verbosity
    refine ⟨_, congrArg (Option.map _) (escapePath_eq stack hne), Printf.conversions_escape _, ?_⟩
    intro now
    exact ⟨_, datetimeFmt_escape _ now 1023 template.val, List.take_of_length_le hlen⟩

/-- `-L ""`: the copy is not terminated. -/
theorem empty_template_is_garbage : ¬ ∀ template, TemplateReaches template := by
  intro h
  obtain ⟨d', hinit, -⟩ := h ⟨[], by decide⟩ (fun _ => 'x') ⟨0, 0, [], []⟩ 0 0
  have hpath := logInit_logpath hinit
  rw [escapePath_nil, if_neg (by decide)] at hpath
  cases hpath

/-! ## The defaults -/

/-- The template that is there before `log_init` is escaped as well. -/
theorem logNewName_default (now : TimeOfDay) :
    logNewName logData now =
      some ⟨1023, "log_%Y%m%d_%H%M%S.log".toList, False, now.tvSec⟩ := by
  have hescaped : logData.logpath = Printf.escape "log_%Y%m%d_%H%M%S.log".toList := by decide
  rw [logNewName, hescaped, datetimeFmt_escape]
  rfl

/-- `log_init` leaves the format of the date alone. -/
theorem logInit_datefmt {stack : Nat → Char} {d d' : LogData} {flags : BitVec 32} {verbosity : Int}
    {logpath : Option CString} (h : logInit stack d flags verbosity logpath = some d') :
    d'.datefmt = d.datefmt := by
  cases logpath with
  | none =>
    cases h
    rfl
  | some logpath =>
    obtain ⟨logPath, -, rfl⟩ := Option.map_eq_some_iff.mp h
    rfl

/-- A number as `%0u` with a width writes it. -/
def zeroPadded (width n : Nat) : Word := List.leftpad width '0' (Nat.toDigits 10 n)

/-- The milliseconds and the time zone. -/
def dateTail (msec : Nat) (zone : Char × Nat × Nat) : Word :=
  zeroPadded 3 msec ++ ' ' :: zone.1 :: (zeroPadded 2 zone.2.1 ++ zeroPadded 2 zone.2.2)

theorem expand_dateTail (msec : Nat) (zone : Char × Nat × Nat) :
    Printf.expand (Printf.directives "%03u %c%02u%02u".toList)
        [.unsigned msec, .char zone.1, .unsigned zone.2.1, .unsigned zone.2.2] =
      some (dateTail msec zone) := by
  have hformat : Printf.directives "%03u %c%02u%02u".toList =
      [.conversion "03u".toList, .text ' ', .conversion "c".toList, .conversion "02u".toList,
        .conversion "02u".toList] := by decide
  have hmsec : Printf.convert "03u".toList (.unsigned msec) = some (zeroPadded 3 msec) := rfl
  have hsign : Printf.convert "c".toList (.char zone.1) = some [zone.1] := rfl
  have hzone (n : Nat) : Printf.convert "02u".toList (.unsigned n) = some (zeroPadded 2 n) := rfl
  rw [hformat, dateTail]
  simp only [Printf.expand, hmsec, hsign, hzone, Option.bind_eq_bind, Option.bind_some,
    Option.pure_def, Option.map_some, List.append_nil, List.singleton_append]

/-- What `strftime` gets for the date of a line after `log_init`: milliseconds and time zone are
filled in. -/
theorem logDate_eq {stack : Nat → Char} {d : LogData} {flags : BitVec 32} {verbosity : Int}
    {logpath : Option CString} (h : logInit stack logData flags verbosity logpath = some d)
    (now : TimeOfDay) :
    logDate d now =
      some ⟨255, ("%Y-%m-%d %H:%M:%S.".toList ++
        dateTail (now.tvUsec / 1000) (zone (d.flags &&& logUtc ≠ 0) now)).take 255,
        d.flags &&& logUtc ≠ 0, now.tvSec⟩ := by
  have hformat : d.datefmt =
      Printf.escape "%Y-%m-%d %H:%M:%S.".toList ++ "%03u %c%02u%02u".toList :=
    (logInit_datefmt h).trans (by decide)
  rw [logDate, hformat]
  exact datetimeFmt_append d now 255 _ (expand_dateTail _ _)

end Hdmi2usbd.Log
