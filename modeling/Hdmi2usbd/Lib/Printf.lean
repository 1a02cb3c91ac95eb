import Mathlib.Data.List.Basic

/-!
# Printf — format strings

A format of the `printf` family as the list of its directives, and what comes out of it. Escaping
doubles each percent sign: there is no conversion in an escaped text, and it comes out as it was
(`directives_escape_append`, `expand_literals_append`).
-/

namespace Printf

inductive Directive
  | text (c : Char)
  | percent
  | conversion (spec : List Char)
deriving DecidableEq

/-- What may stand between the percent sign of a conversion and its letter. -/
def isModifier (c : Char) : Bool :=
  c.isDigit || c ∈ ['-', '+', ' ', '#', '.', '*', 'h', 'l', 'L', 'j', 'z', 't']

/-- The directives of a format, `spec` being what is read of a conversion. One that is cut off at
the end is a conversion as well. -/
def scan : (spec : Option (List Char)) → List Char → List Directive
  | none, [] => []
  | some spec, [] => [.conversion spec]
  | none, c :: format => if c = '%' then scan (some []) format else .text c :: scan none format
  | some spec, c :: format =>
    if spec = [] ∧ c = '%' then .percent :: scan none format
    else if isModifier c then scan (some (spec ++ [c])) format
    else .conversion (spec ++ [c]) :: scan none format

def directives (format : List Char) : List Directive := scan none format

def Directive.spec : Directive → Option (List Char)
  | .conversion spec => some spec
  | .text _ | .percent => none

/-- The conversions in a format. -/
def conversions (format : List Char) : List (List Char) :=
  (directives format).filterMap Directive.spec

inductive Arg
  | unsigned (n : Nat)
  | char (c : Char)

/-- What comes out of a conversion, if it is `c`, or `u` with a width at most, and fits its
argument. -/
def convert (spec : List Char) : Arg → Option (List Char)
  | .char c => if spec = ['c'] then some [c] else none
  | .unsigned n =>
    let width := spec.dropLast
    if spec.getLast? = some 'u' ∧ width.all Char.isDigit then
      some (List.leftpad (Nat.ofDigitChars 10 width 0) (if width.head? = some '0' then '0' else ' ')
        (Nat.toDigits 10 n))
    else none

/-- What comes out of the directives; each conversion takes an argument. -/
def expand : List Directive → List Arg → Option (List Char)
  | [], _ => some []
  | .text c :: ds, args => (expand ds args).map (c :: ·)
  | .percent :: ds, args => (expand ds args).map ('%' :: ·)
  | .conversion _ :: _, [] => none
  | .conversion spec :: ds, arg :: args => do
    let out ← convert spec arg
    let rest ← expand ds args
    pure (out ++ rest)

/-- `snprintf`: the text that it leaves in `size` bytes, before the terminator. -/
def snprintf (size : Nat) (format : List Char) (args : List Arg) : Option (List Char) :=
  (expand (directives format) args).map (·.take (size - 1))

/-! ## Escaped texts -/

/-- Each percent sign doubled. -/
def escape : List Char → List Char
  | [] => []
  | c :: s => if c = '%' then '%' :: '%' :: escape s else c :: escape s

/-- The directive for a character of a text. -/
def literal (c : Char) : Directive := if c = '%' then .percent else .text c

@[simp] theorem escape_nil : escape [] = [] := rfl

theorem escape_cons (c : Char) (s : List Char) : escape (c :: s) = escape [c] ++ escape s := by
  by_cases hc : c = '%'
  · simp [escape, hc]
  · simp [escape, hc]

theorem mem_escape {c : Char} {s : List Char} : c ∈ escape s ↔ c ∈ s := by
  induction s with
  | nil => exact Iff.rfl
  | cons d s ih =>
    by_cases hd : d = '%'
    · simp [escape, hd, ih]
    · simp [escape, hd, ih]

/-- An escaped text gives its literals, whatever follows. -/
theorem directives_escape_append (s format : List Char) :
    directives (escape s ++ format) = s.map literal ++ directives format := by
  unfold directives
  induction s with
  | nil => rfl
  | cons c s ih =>
    by_cases hc : c = '%'
    · simp [escape, hc, scan, literal, ih]
    · simp [escape, hc, scan, literal, ih]

theorem expand_literals_append (s : List Char) (ds : List Directive) (args : List Arg) :
    expand (s.map literal ++ ds) args = (expand ds args).map (s ++ ·) := by
  induction s with
  | nil => simp
  | cons c s ih =>
    by_cases hc : c = '%'
    · simp [literal, hc, expand, ih, Function.comp_def]
    · simp [literal, hc, expand, ih, Function.comp_def]

theorem directives_escape (s : List Char) : directives (escape s) = s.map literal := by
  have hend := directives_escape_append s []
  rwa [List.append_nil, directives, directives, scan, List.append_nil] at hend

theorem conversions_escape (s : List Char) : conversions (escape s) = [] := by
  rw [conversions, directives_escape, List.filterMap_eq_nil_iff]
  intro d hd
  obtain ⟨c, -, rfl⟩ := List.mem_map.mp hd
  by_cases hc : c = '%'
  · simp [literal, hc, Directive.spec]
  · simp [literal, hc, Directive.spec]

/-- What is escaped comes out as it was, then what follows; and what does not fit is cut off. -/
theorem snprintf_escape_append (size : Nat) (s : List Char) {format out : List Char}
    {args : List Arg} (hout : expand (directives format) args = some out) :
    snprintf size (escape s ++ format) args = some ((s ++ out).take (size - 1)) := by
  rw [snprintf, directives_escape_append, expand_literals_append, hout]
  rfl

/-- Escaping is undone. -/
theorem snprintf_escape (size : Nat) (s : List Char) (args : List Arg) :
    snprintf size (escape s) args = some (s.take (size - 1)) := by
  have hnil : expand (directives []) args = some [] := by simp [directives, scan, expand]
  have hout := snprintf_escape_append size s hnil
  rwa [List.append_nil, List.append_nil] at hout

/-! ## Formats put together -/

/-- What has been read of a conversion that is cut off at the end. -/
def pending : (spec : Option (List Char)) → List Char → Option (List Char)
  | spec, [] => spec
  | none, c :: format => pending (if c = '%' then some [] else none) format
  | some spec, c :: format =>
    pending (if spec = [] ∧ c = '%' then none else if isModifier c then some (spec ++ [c]) else none)
      format

/-- No conversion is cut off at the end. -/
def Whole (format : List Char) : Prop := pending none format = none

instance : DecidablePred Whole := fun format => inferInstanceAs (Decidable (pending none format = none))

theorem scan_append {spec : Option (List Char)} {format : List Char}
    (h : pending spec format = none) (format' : List Char) :
    scan spec (format ++ format') = scan spec format ++ scan none format' := by
  induction format generalizing spec with
  | nil =>
    rw [pending] at h
    rw [h]
    rfl
  | cons c format ih =>
    cases spec with
    | none =>
      rw [pending] at h
      by_cases hc : c = '%'
      · rw [if_pos hc] at h
        simp [scan, hc, ih h]
      · rw [if_neg hc] at h
        simp [scan, hc, ih h]
    | some spec =>
      rw [pending] at h
      by_cases hpercent : spec = [] ∧ c = '%'
      · rw [if_pos hpercent] at h
        simp [scan, hpercent, ih h]
      · rw [if_neg hpercent] at h
        by_cases hmodifier : isModifier c
        · rw [if_pos hmodifier] at h
          simp [scan, hpercent, hmodifier, ih h]
        · rw [if_neg hmodifier] at h
          simp [scan, hpercent, hmodifier, ih h]

theorem directives_append {format : List Char} (h : Whole format) (format' : List Char) :
    directives (format ++ format') = directives format ++ directives format' := scan_append h format'

/-- A text without percent signs is no conversion, and comes out as it is. -/
theorem directives_of_notMem {s : List Char} (h : '%' ∉ s) :
    Whole s ∧ directives s = s.map .text := by
  unfold Whole directives
  induction s with
  | nil => exact ⟨rfl, rfl⟩
  | cons c s ih =>
    rw [List.mem_cons, not_or] at h
    simp [pending, scan, Ne.symm h.1, ih h.2]

section With

variable {α : Type*} (convert : List Char → α → Option (List Char))

/-- What comes out of directives when `convert` tells what comes out of a conversion. -/
def expandWith : List Directive → List α → Option (List Char)
  | [], _ => some []
  | .text c :: ds, args => (expandWith ds args).map (c :: ·)
  | .percent :: ds, args => (expandWith ds args).map ('%' :: ·)
  | .conversion _ :: _, [] => none
  | .conversion spec :: ds, arg :: args => do
    let out ← convert spec arg
    let rest ← expandWith ds args
    pure (out ++ rest)

/-- A text in front. -/
theorem expandWith_text_append (s : List Char) (ds : List Directive) (args : List α) :
    expandWith convert (s.map .text ++ ds) args = (expandWith convert ds args).map (s ++ ·) := by
  induction s with
  | nil => simp
  | cons c s ih => simp [expandWith, ih, Function.comp_def]

/-- A text at the end. -/
theorem expandWith_append_text {ds : List Directive} {args : List α} {out : List Char}
    (h : expandWith convert ds args = some out) (s : List Char) :
    expandWith convert (ds ++ s.map .text) args = some (out ++ s) := by
  induction ds generalizing args out with
  | nil =>
    cases h
    have htext := expandWith_text_append convert s [] args
    rwa [List.append_nil, expandWith, Option.map_some, List.append_nil] at htext
  | cons d ds ih =>
    cases d with
    | text c | percent =>
      rcases Option.map_eq_some_iff.mp h with ⟨rest, hrest, rfl⟩
      simp [expandWith, ih hrest]
    | conversion spec =>
      cases args with
      | nil => cases h
      | cons arg args =>
        rcases Option.bind_eq_some_iff.mp h with ⟨head, hhead, htail⟩
        rcases Option.bind_eq_some_iff.mp htail with ⟨rest, hrest, heq⟩
        cases heq
        simp [expandWith, hhead, ih hrest]

end With

end Printf
