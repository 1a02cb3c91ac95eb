import Mathlib.Algebra.GroupWithZero.Nat
import Mathlib.Data.List.TakeWhile

/-!
# Getopt — reading options from an argument vector

`getopt_long` over a table of short and long options. Its static variables are the state: the
index of the next word, and what is left of a word of short options. Words that are not options
are skipped where they stand, and the caller may store another index.

The long options end with an entry without a name. The search for a name stops there, or before
it at the option of exactly that name; in a table without this entry every other name makes it
run on into what lies behind (`getoptLong_overrun_iff`).

Every call that returns an option leaves less to read (`getoptLong_unread`).
-/

namespace Getopt

/-- A C string: its characters without the terminator. -/
abbrev Word := List Char

inductive HasArg
  | noArgument
  | requiredArgument
  | optionalArgument
deriving DecidableEq, Repr

structure LongOption where
  name : Word
  hasArg : HasArg
  val : Char

/-- The options; `terminated` says whether the entry behind the last long option is there. -/
structure Table where
  shortopts : Word
  longopts : List LongOption
  terminated : Bool

def Table.close (t : Table) : Table := { t with terminated := true }

/-- `optind`, and the short options of a word that are still to be read. -/
structure State where
  optind : Nat
  nextchar : Word
deriving DecidableEq, Repr

/-- The option returned and `optarg`; an error is the option `'?'`. -/
abbrev Found := Char × Option Word

/-- What a call comes to: an option, the end of the options, or a search that has left the
table. -/
inductive Answer
  | option (found : Found) (st : State)
  | finished (st : State)
  | overrun
deriving DecidableEq, Repr

/-! ## The functions -/

/-- A letter of `shortopts` with the colons behind it. -/
def shortHasArg (opt : Char) : Word → Option HasArg
  | [] => none
  | c :: rest =>
    if c = opt ∧ c ≠ ':' then
      match rest with
      | ':' :: ':' :: _ => some .optionalArgument
      | ':' :: _ => some .requiredArgument
      | _ => some .noArgument
    else shortHasArg opt rest

/-- The long option of that name, or else the only one whose name begins so. -/
def matchLong (longopts : List LongOption) (name : Word) : Option LongOption :=
  match longopts.find? fun o => o.name = name with
  | some o => some o
  | none =>
    match longopts.filter fun o => name.isPrefixOf o.name with
    | [o] => some o
    | _ => none

def isOption : Word → Bool
  | '-' :: _ :: _ => true
  | _ => false

/-- The next option, from a word on. -/
def nextWord (argv : List Word) (optind : Nat) : Nat :=
  optind + ((argv.drop optind).takeWhile fun w => !isOption w).length

/-- The state behind a letter of a word. -/
def afterLetter (word : Nat) (rest : Word) : State :=
  if rest = [] then ⟨word + 1, []⟩ else ⟨word, rest⟩

/-- An option that may have an argument; `given` is what is attached to it. -/
def takeArgument (argv : List Word) (word : Nat) (opt : Char) (given : Option Word)
    (required : Bool) : Found × State :=
  match given with
  | some arg => ((opt, some arg), ⟨word + 1, []⟩)
  | none =>
    if required then
      match argv[word + 1]? with
      | some arg => ((opt, some arg), ⟨word + 2, []⟩)
      | none => (('?', none), ⟨word + 1, []⟩)
    else ((opt, none), ⟨word + 1, []⟩)

def shortOption (t : Table) (argv : List Word) (word : Nat) (opt : Char) (rest : Word) :
    Found × State :=
  match shortHasArg opt t.shortopts with
  | none => (('?', none), afterLetter word rest)
  | some .noArgument => ((opt, none), afterLetter word rest)
  | some .requiredArgument =>
    takeArgument argv word opt (if rest = [] then none else some rest) true
  | some .optionalArgument =>
    takeArgument argv word opt (if rest = [] then none else some rest) false

/-- The name in the text behind two dashes. -/
def longName (text : Word) : Word := text.takeWhile (· ≠ '=')

/-- The name is that of a long option, in full. -/
def Table.HasName (t : Table) (name : Word) : Prop := ∃ o ∈ t.longopts, o.name = name

instance (t : Table) (name : Word) : Decidable (t.HasName name) :=
  inferInstanceAs (Decidable (∃ o ∈ t.longopts, o.name = name))

/-- The text behind the two dashes: a name, and perhaps `=` and an argument. -/
def longOption (t : Table) (argv : List Word) (word : Nat) (text : Word) : Found × State :=
  let given := if '=' ∈ text then some (text.dropWhile (· ≠ '=')).tail else none
  match matchLong t.longopts (longName text) with
  | none => (('?', none), ⟨word + 1, []⟩)
  | some o =>
    match o.hasArg with
    | .noArgument =>
      if given = none then ((o.val, none), ⟨word + 1, []⟩) else (('?', none), ⟨word + 1, []⟩)
    | .requiredArgument => takeArgument argv word o.val given true
    | .optionalArgument => takeArgument argv word o.val given false

/-- `getopt_long`. -/
def getoptLong (t : Table) (argv : List Word) (st : State) : Answer :=
  match st.nextchar with
  | opt :: rest =>
    let (found, st) := shortOption t argv st.optind opt rest
    .option found st
  | [] =>
    let word := nextWord argv st.optind
    match argv[word]? with
    | some ['-', '-'] => .finished ⟨word + 1, []⟩
    | some ('-' :: '-' :: text) =>
      if t.terminated ∨ t.HasName (longName text) then
        let (found, st) := longOption t argv word text
        .option found st
      else .overrun
    | some ('-' :: opt :: rest) =>
      let (found, st) := shortOption t argv word opt rest
      .option found st
    | _ => .finished ⟨word, []⟩

/-! ## What a call does -/

/-- The word that the next option is read from. -/
def wordIndex (argv : List Word) (st : State) : Nat :=
  if st.nextchar = [] then nextWord argv st.optind else st.optind

/-- How an option was read from a word: there are more letters, the word is read, or the next
word is its argument. -/
inductive Read (t : Table) (argv : List Word) (word len : Nat) : Found → State → Prop
  | letter {opt : Char} {rest : Word} (hne : rest ≠ []) (hlen : rest.length < len)
      (hopt : opt = '?' ∨ shortHasArg opt t.shortopts = some .noArgument) :
      Read t argv word len (opt, none) ⟨word, rest⟩
  | last (found : Found) : Read t argv word len found ⟨word + 1, []⟩
  | separate {opt : Char} {arg : Word} (harg : argv[word + 1]? = some arg) :
      Read t argv word len (opt, some arg) ⟨word + 2, []⟩

variable {t : Table} {argv : List Word} {word : Nat}

theorem takeArgument_read (opt : Char) (given : Option Word) (required : Bool) (len : Nat) :
    Read t argv word len (takeArgument argv word opt given required).1
      (takeArgument argv word opt given required).2 := by
  unfold takeArgument
  cases given with
  | some arg => exact .last _
  | none =>
    dsimp only
    split
    · split
      · next arg harg => exact .separate harg
      · exact .last _
    · exact .last _

theorem shortOption_read (opt : Char) (rest : Word) {len : Nat} (hlen : rest.length < len) :
    Read t argv word len (shortOption t argv word opt rest).1
      (shortOption t argv word opt rest).2 := by
  have hletter : ∀ opt', opt' = '?' ∨ shortHasArg opt' t.shortopts = some .noArgument →
      Read t argv word len (opt', none) (afterLetter word rest) := by
    intro opt' hopt
    unfold afterLetter
    split
    · exact .last _
    · next hne => exact .letter hne hlen hopt
  unfold shortOption
  split
  · exact hletter _ (.inl rfl)
  · next hno => exact hletter _ (.inr hno)
  · exact takeArgument_read _ _ _ _
  · exact takeArgument_read _ _ _ _

theorem longOption_read (text : Word) (len : Nat) :
    Read t argv word len (longOption t argv word text).1 (longOption t argv word text).2 := by
  unfold longOption
  dsimp only
  split
  · exact .last _
  · split
    · split <;> exact .last _
    · exact takeArgument_read _ _ _ _
    · exact takeArgument_read _ _ _ _

/-- The letters of the word that are still to be read. -/
def lettersLeft (argv : List Word) (st : State) : Nat :=
  if st.nextchar = [] then (argv[wordIndex argv st]?.getD []).length else st.nextchar.length

/-- A call that returns an option has read it from its word. -/
theorem getoptLong_read {st st' : State} {found : Found}
    (h : getoptLong t argv st = .option found st') :
    Read t argv (wordIndex argv st) (lettersLeft argv st) found st' ∧
      (st.nextchar = [] → wordIndex argv st < argv.length) := by
  rcases st with ⟨optind, nextchar⟩
  cases nextchar with
  | cons opt rest =>
    refine ⟨?_, fun hnil => by cases hnil⟩
    have hread := @shortOption_read t argv optind opt rest (rest.length + 1) (Nat.lt_succ_self _)
    simp only [getoptLong, Answer.option.injEq] at h
    rw [h.1, h.2] at hread
    exact hread
  | nil =>
    have hword : wordIndex argv ⟨optind, []⟩ = nextWord argv optind := rfl
    have hleft : lettersLeft argv ⟨optind, []⟩ =
        (argv[nextWord argv optind]?.getD []).length := rfl
    rw [hword, hleft]
    simp only [getoptLong] at h
    split at h
    · cases h
    · next text hnot hget =>
      refine ⟨?_, fun _ => (List.getElem?_eq_some_iff.mp hget).1⟩
      have hread := @longOption_read t argv (nextWord argv optind) text
        (argv[nextWord argv optind]?.getD []).length
      split at h
      · simp only [Answer.option.injEq] at h
        rw [h.1, h.2] at hread
        exact hread
      · cases h
    · next opt rest hnot hnot' hget =>
      refine ⟨?_, fun _ => (List.getElem?_eq_some_iff.mp hget).1⟩
      have hlen : rest.length < (argv[nextWord argv optind]?.getD []).length := by
        rw [hget]
        simp only [Option.getD_some, List.length_cons]
        omega
      have hread := @shortOption_read t argv (nextWord argv optind) opt rest _ hlen
      simp only [Answer.option.injEq] at h
      rw [h.1, h.2] at hread
      exact hread
    · cases h

/-! ## The end of the table -/

/-- If the next word is a long option, its name is in the table in full. -/
def FullName (t : Table) (argv : List Word) (st : State) : Prop :=
  st.nextchar = [] → ∀ text, argv[nextWord argv st.optind]? = some ('-' :: '-' :: text) →
    text ≠ [] → t.HasName (longName text)

theorem getoptLong_overrun_iff {st : State} :
    getoptLong t argv st = .overrun ↔ t.terminated = false ∧ ¬ FullName t argv st := by
  rcases st with ⟨optind, nextchar⟩
  cases nextchar with
  | cons opt rest =>
    have hfull : FullName t argv ⟨optind, opt :: rest⟩ := fun hnil => by cases hnil
    exact iff_of_false (by simp [getoptLong]) fun h => h.2 hfull
  | nil =>
    simp only [getoptLong]
    split
    · next hget =>
      refine iff_of_false (by simp) fun h => h.2 fun _ text htext hne => ?_
      rw [hget] at htext
      cases htext
      exact absurd rfl hne
    · next text hnot hget =>
      have hne : text ≠ [] := by
        rintro rfl
        exact hnot rfl
      have hfull : FullName t argv ⟨optind, []⟩ ↔ t.HasName (longName text) := by
        refine ⟨fun h => h rfl text hget hne, fun h _ text' htext' _ => ?_⟩
        rw [hget] at htext'
        cases htext'
        exact h
      rw [hfull]
      by_cases hterminated : t.terminated <;> by_cases hname : t.HasName (longName text) <;>
        simp [hterminated, hname]
    · next opt rest hnot hnot' hget =>
      refine iff_of_false (by simp) fun h => h.2 fun _ text htext _ => ?_
      rw [hget] at htext
      cases htext
      exact absurd rfl hnot'
    · next hnot =>
      refine iff_of_false (by simp) fun h => h.2 fun _ text htext _ => ?_
      exact absurd htext (hnot _ _)

/-- The word is no long option, or one whose name is in the table in full. -/
def Table.hasWord (t : Table) : Word → Bool
  | '-' :: '-' :: text => text = [] ∨ t.HasName (longName text)
  | _ => true

theorem fullName_of_words (h : ∀ w ∈ argv, t.hasWord w = true) (st : State) :
    FullName t argv st :=
  fun _ _ htext hne =>
    (of_decide_eq_true (h _ (List.mem_of_getElem? htext))).resolve_left hne

/-- A full name is found as in the table that is closed. -/
theorem getoptLong_close {st : State} (h : FullName t argv st) :
    getoptLong t argv st = getoptLong t.close argv st := by
  rcases st with ⟨optind, nextchar⟩
  cases nextchar with
  | cons opt rest => rfl
  | nil =>
    simp only [getoptLong]
    split
    · rfl
    · next text hnot hget =>
      have hne : text ≠ [] := by
        rintro rfl
        exact hnot rfl
      rw [if_pos (.inr (h rfl text hget hne)), if_pos (.inl rfl)]
      rfl
    · rfl
    · rfl

/-! ## Progress -/

/-- The characters from a word on, the terminators included. -/
def charsFrom (argv : List Word) (i : Nat) : Nat := ((argv.drop i).map fun w => w.length + 1).sum

/-- What is still to be read. -/
def unread (argv : List Word) (st : State) : Nat :=
  if st.nextchar = [] then charsFrom argv st.optind
  else st.nextchar.length + charsFrom argv (st.optind + 1)

theorem charsFrom_succ {i : Nat} (hi : i < argv.length) :
    charsFrom argv i = (argv[i]?.getD []).length + 1 + charsFrom argv (i + 1) := by
  unfold charsFrom
  rw [List.drop_eq_getElem_cons hi, List.getElem?_eq_getElem hi, List.map_cons, List.sum_cons]
  rfl

theorem charsFrom_anti (argv : List Word) {i j : Nat} (hle : i ≤ j) : charsFrom argv j ≤ charsFrom argv i := by
  induction hle with
  | refl => exact Nat.le_refl _
  | @step j hle ih =>
    refine Nat.le_trans ?_ ih
    rw [Nat.succ_eq_add_one]
    by_cases hj : j < argv.length
    · rw [charsFrom_succ hj]
      omega
    · have hnil : argv.drop (j + 1) = [] := List.drop_of_length_le (by omega)
      simp [charsFrom, hnil]

theorem le_nextWord (argv : List Word) (optind : Nat) : optind ≤ nextWord argv optind :=
  Nat.le_add_right _ _

/-- A word is read to its end with less left to read, wherever behind it the reading goes on. -/
theorem charsFrom_lt_unread {st st' : State} {found : Found}
    (h : getoptLong t argv st = .option found st') {i : Nat} (hi : wordIndex argv st < i) :
    charsFrom argv i < unread argv st := by
  have hin := (getoptLong_read h).2
  have hle := charsFrom_anti argv (Nat.succ_le_of_lt hi)
  unfold unread
  by_cases hnil : st.nextchar = []
  · have hword : wordIndex argv st = nextWord argv st.optind := if_pos hnil
    rw [if_pos hnil]
    rw [hword] at hin hle
    -- the words that were skipped only add to what was left
    have hskip := charsFrom_anti argv (le_nextWord argv st.optind)
    have hsucc := charsFrom_succ (hin hnil)
    rw [Nat.succ_eq_add_one] at hle
    omega
  · have hword : wordIndex argv st = st.optind := if_neg hnil
    have hpos := List.length_pos_iff.mpr hnil
    rw [if_neg hnil]
    rw [hword, Nat.succ_eq_add_one] at hle
    omega

theorem getoptLong_unread {st st' : State} {found : Found}
    (h : getoptLong t argv st = .option found st') : unread argv st' < unread argv st := by
  obtain ⟨hread, hin⟩ := getoptLong_read h
  cases hread with
  | last => exact charsFrom_lt_unread h (Nat.lt_succ_self _)
  | separate harg => exact charsFrom_lt_unread h (by simp only; omega)
  | @letter opt rest hne hlen hopt =>
    have hsame : unread argv ⟨wordIndex argv st, rest⟩ =
        rest.length + charsFrom argv (wordIndex argv st + 1) := if_neg hne
    rw [hsame]
    -- the first letter of a word, or one behind another letter
    by_cases hnil : st.nextchar = []
    · have hword : wordIndex argv st = nextWord argv st.optind := if_pos hnil
      have hleft : lettersLeft argv st = (argv[wordIndex argv st]?.getD []).length := if_pos hnil
      have hskip := charsFrom_anti argv (le_nextWord argv st.optind)
      have hsucc := charsFrom_succ (hin hnil)
      have hunread : unread argv st = charsFrom argv st.optind := if_pos hnil
      rw [hleft] at hlen
      rw [hword] at hlen hsucc ⊢
      omega
    · have hword : wordIndex argv st = st.optind := if_neg hnil
      have hleft : lettersLeft argv st = st.nextchar.length := if_neg hnil
      have hunread : unread argv st = st.nextchar.length + charsFrom argv (st.optind + 1) :=
        if_neg hnil
      rw [hleft] at hlen
      rw [hword]
      omega

/-! ## Skipping -/

theorem isOption_of_nextWord {optind : Nat} {w : Word}
    (h : argv[nextWord argv optind]? = some w) : isOption w = true := by
  unfold nextWord at h
  rw [← List.getElem?_drop] at h
  generalize argv.drop optind = words at h
  induction words with
  | nil => cases h
  | cons x words ih =>
    rw [List.takeWhile_cons] at h
    split at h
    · exact ih (by simpa using h)
    · next hx =>
      rw [List.length_nil, List.getElem?_cons_zero, Option.some.injEq] at h
      rw [← h]
      simpa using hx

/-- The same option comes next from every word before it. -/
theorem nextWord_eq_of_le {i j : Nat} (hij : i ≤ j) (hj : j ≤ nextWord argv i) :
    nextWord argv j = nextWord argv i := by
  obtain ⟨n, rfl⟩ := Nat.exists_eq_add_of_le hij
  unfold nextWord at hj ⊢
  rw [← List.drop_drop]
  generalize argv.drop i = words at hj ⊢
  have hn : n ≤ (words.takeWhile fun w => !isOption w).length := by omega
  have hdrop : ((words.drop n).takeWhile fun w => !isOption w).length + n =
      (words.takeWhile fun w => !isOption w).length := by
    -- each word dropped is one that would have been skipped
    clear hj
    induction n generalizing words with
    | zero => rfl
    | succ n ih =>
      cases words with
      | nil => simp at hn
      | cons x words =>
        rw [List.takeWhile_cons] at hn ⊢
        split at hn
        · next hx =>
          rw [if_pos hx, List.drop_succ_cons, List.length_cons]
          have := ih (by omega) words (by simpa using hn)
          omega
        · simp at hn
  omega

theorem nextWord_le {i j : Nat} (hij : i ≤ j) {w : Word} (hget : argv[j]? = some w)
    (hw : isOption w = true) : nextWord argv i ≤ j := by
  obtain ⟨n, rfl⟩ := Nat.exists_eq_add_of_le hij
  rw [← List.getElem?_drop] at hget
  unfold nextWord
  generalize argv.drop i = words at hget
  have hn : (words.takeWhile fun w => !isOption w).length ≤ n := by
    by_contra hlt
    have hlt' : n < (words.takeWhile fun w => !isOption w).length := Nat.lt_of_not_le hlt
    have hmem := List.mem_takeWhile_imp (List.getElem_mem hlt')
    obtain ⟨hn, rfl⟩ := List.getElem?_eq_some_iff.mp hget
    -- the search would have gone past the option itself
    rw [(List.takeWhile_prefix fun w => !isOption w).getElem hlt', hw] at hmem
    cases hmem
  omega

theorem nextWord_of_not_isOption {i : Nat} {w : Word} (hget : argv[i]? = some w)
    (hw : isOption w = false) : nextWord argv i = nextWord argv (i + 1) := by
  obtain ⟨hi, rfl⟩ := List.getElem?_eq_some_iff.mp hget
  simp only [nextWord, List.drop_eq_getElem_cons hi, List.takeWhile_cons, hw, Bool.not_false,
    if_true, List.length_cons]
  omega

/-- What is found does not depend on where among the words before it the search begins. -/
theorem getoptLong_congr (t : Table) {i j : Nat} (h : nextWord argv i = nextWord argv j) :
    getoptLong t argv ⟨i, []⟩ = getoptLong t argv ⟨j, []⟩ := by
  simp only [getoptLong, h]

/-- The letters that are left are the end of a word with options. -/
def Inside (argv : List Word) (st : State) : Prop :=
  st.nextchar ≠ [] →
    ∃ w, argv[st.optind]? = some w ∧ isOption w = true ∧ st.nextchar.length < w.length

theorem inside_of_nil (argv : List Word) (optind : Nat) : Inside argv ⟨optind, []⟩ :=
  fun hne => absurd rfl hne

/-- An option is read from a word with options. -/
theorem getoptLong_word {st st' : State} {found : Found} (hinside : Inside argv st)
    (h : getoptLong t argv st = .option found st') :
    ∃ w, argv[wordIndex argv st]? = some w ∧ isOption w = true ∧ lettersLeft argv st ≤ w.length := by
  by_cases hnil : st.nextchar = []
  · have hword : wordIndex argv st = nextWord argv st.optind := if_pos hnil
    have hleft : lettersLeft argv st = (argv[wordIndex argv st]?.getD []).length := if_pos hnil
    obtain ⟨w, hget⟩ : ∃ w, argv[wordIndex argv st]? = some w :=
      ⟨_, List.getElem?_eq_getElem ((getoptLong_read h).2 hnil)⟩
    refine ⟨w, hget, ?_, ?_⟩
    · rw [hword] at hget
      exact isOption_of_nextWord hget
    · rw [hleft, hget]
      exact Nat.le_refl _
  · have hword : wordIndex argv st = st.optind := if_neg hnil
    have hleft : lettersLeft argv st = st.nextchar.length := if_neg hnil
    obtain ⟨w, hget, hopt, hlen⟩ := hinside hnil
    rw [hword, hleft]
    exact ⟨w, hget, hopt, Nat.le_of_lt hlen⟩

theorem Inside.getoptLong {st st' : State} {found : Found} (hinside : Inside argv st)
    (h : getoptLong t argv st = .option found st') : Inside argv st' := by
  obtain ⟨w, hget, hopt, hlen⟩ := getoptLong_word hinside h
  obtain ⟨hread, -⟩ := getoptLong_read h
  cases hread with
  | letter hne hless => exact fun _ => ⟨w, hget, hopt, Nat.lt_of_lt_of_le hless hlen⟩
  | last => exact inside_of_nil _ _
  | separate => exact inside_of_nil _ _

end Getopt
