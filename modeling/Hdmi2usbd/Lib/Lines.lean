import Mathlib.Data.List.Basic
import Hdmi2usbd.Lib.Machine

/-!
# Lines — tokenising a stream by terminators

A line is a non-empty run of items that ends at its first terminator. Every
stream is uniquely a sequence of lines followed by a rest without terminator
(`split_unique`), so lines that have been cut off come first, and the others are
those of what is left (`lines_flatten_append`): framing does not depend on where
the stream was cut.

`Framer` is the machine that frames a stream received in chunks.
-/

namespace Lines

variable {α : Type*} (term : α → Bool)

/-- A line: its last item, and only that one, is a terminator. -/
def IsLine (l : List α) : Prop := ∃ body t, l = body ++ [t] ∧ term t ∧ ∀ x ∈ body, ¬ term x

/-- No terminator in the list. -/
def Unterminated (l : List α) : Prop := ∀ x ∈ l, ¬ term x

instance : DecidablePred (Unterminated term) := fun l =>
  inferInstanceAs (Decidable (∀ x ∈ l, ¬ term x))

/-- The first line and what follows it. -/
def next : List α → Option (List α × List α)
  | [] => none
  | x :: xs => if term x then some ([x], xs) else (next xs).map fun p => (x :: p.1, p.2)

/-- The lines of a stream and the rest. -/
def split : List α → List (List α) × List α
  | [] => ([], [])
  | x :: xs =>
    if term x then ([x] :: (split xs).1, (split xs).2)
    else
      match (split xs).1 with
      | [] => ([], x :: (split xs).2)
      | l :: ls => ((x :: l) :: ls, (split xs).2)

/-- The complete lines of a stream. -/
def lines (xs : List α) : List (List α) := (split term xs).1

/-- What follows the last complete line. -/
def rest (xs : List α) : List α := (split term xs).2

variable {term}

theorem IsLine.ne_nil {l : List α} (h : IsLine term l) : l ≠ [] := by
  rcases h with ⟨body, t, rfl, -⟩
  simp

theorem isLine_singleton {x : α} (h : term x) : IsLine term [x] :=
  ⟨[], x, rfl, h, by simp⟩

theorem IsLine.cons {x : α} {l : List α} (hx : ¬ term x) (h : IsLine term l) :
    IsLine term (x :: l) := by
  rcases h with ⟨body, t, rfl, ht, hbody⟩
  refine ⟨x :: body, t, rfl, ht, ?_⟩
  intro y hy
  rcases List.mem_cons.mp hy with rfl | hy
  · exact hx
  · exact hbody y hy

theorem Unterminated.append {a b : List α} (ha : Unterminated term a) (hb : Unterminated term b) :
    Unterminated term (a ++ b) := by
  intro x hx
  rcases List.mem_append.mp hx with h | h
  · exact ha x h
  · exact hb x h

/-! ## The first line -/

/-- The first line is a line, and the stream is that line and what follows. -/
theorem next_spec {xs l r : List α} (h : next term xs = some (l, r)) :
    IsLine term l ∧ xs = l ++ r := by
  induction xs generalizing l r with
  | nil => cases h
  | cons x xs ih =>
    by_cases hx : term x
    · simp only [next, hx, if_true, Option.some.injEq, Prod.mk.injEq] at h
      rcases h with ⟨rfl, rfl⟩
      exact ⟨isLine_singleton hx, rfl⟩
    · simp only [next, hx, if_false, Bool.false_eq_true, Option.map_eq_some_iff,
        Prod.mk.injEq] at h
      rcases h with ⟨⟨l', r'⟩, hn, rfl, rfl⟩
      rcases ih hn with ⟨hl, rfl⟩
      exact ⟨hl.cons hx, rfl⟩

theorem next_line_append {l : List α} (h : IsLine term l) (r : List α) :
    next term (l ++ r) = some (l, r) := by
  rcases h with ⟨body, t, rfl, ht, hbody⟩
  induction body with
  | nil => simp [next, ht]
  | cons x body ih =>
    have hx : ¬ term x := hbody x (by simp)
    have := ih fun y hy => hbody y (by simp [hy])
    simp only [List.append_assoc, List.cons_append, List.nil_append] at this ⊢
    simp [next, hx, this]

theorem next_eq_none {xs : List α} : next term xs = none ↔ Unterminated term xs := by
  induction xs with
  | nil => simp [next, Unterminated]
  | cons x xs ih =>
    by_cases hx : term x
    · simp [next, hx, Unterminated]
    · simpa [next, hx, Unterminated] using ih

/-! ## All lines -/

@[simp] theorem lines_nil : lines term ([] : List α) = [] := rfl

@[simp] theorem rest_nil : rest term ([] : List α) = [] := rfl

theorem split_line_append {l : List α} (h : IsLine term l) (xs : List α) :
    split term (l ++ xs) = (l :: (split term xs).1, (split term xs).2) := by
  rcases h with ⟨body, t, rfl, ht, hbody⟩
  induction body with
  | nil => simp [split, ht]
  | cons x body ih =>
    have hx : ¬ term x := hbody x (by simp)
    have := ih fun y hy => hbody y (by simp [hy])
    simp only [List.append_assoc, List.cons_append, List.nil_append] at this ⊢
    simp [split, hx, this]

theorem split_unterminated {r : List α} (h : Unterminated term r) : split term r = ([], r) := by
  induction r with
  | nil => rfl
  | cons x r ih =>
    have hx : ¬ term x := h x (by simp)
    have := ih fun y hy => h y (by simp [hy])
    simp [split, hx, this]

/-- Lines followed by a rest are split back into exactly these. -/
theorem split_unique {ls : List (List α)} {r : List α} (hls : ∀ l ∈ ls, IsLine term l)
    (hr : Unterminated term r) : split term (ls.flatten ++ r) = (ls, r) := by
  induction ls with
  | nil => simpa using split_unterminated hr
  | cons l ls ih =>
    rw [List.flatten_cons, List.append_assoc, split_line_append (hls l (by simp)),
      ih fun l' hl' => hls l' (by simp [hl'])]

/-- What a split consists of. -/
theorem split_spec (xs : List α) :
    (lines term xs).flatten ++ rest term xs = xs ∧ (∀ l ∈ lines term xs, IsLine term l) ∧
      Unterminated term (rest term xs) := by
  induction xs with
  | nil => simp [Unterminated]
  | cons x xs ih =>
    rcases ih with ⟨hcat, hlines, hrest⟩
    simp only [lines, rest] at hcat hlines hrest ⊢
    by_cases hx : term x
    · refine ⟨by simp [split, hx, hcat], ?_, by simpa [split, hx] using hrest⟩
      intro l hl
      simp only [split, hx, if_true, List.mem_cons] at hl
      rcases hl with rfl | hl
      · exact isLine_singleton hx
      · exact hlines l hl
    · -- the element joins the first line, or the rest if there is no line
      rcases hs : split term xs with ⟨ls, r⟩
      rw [hs] at hcat hlines hrest
      cases ls with
      | nil =>
        refine ⟨?_, by simp [split, hx, hs], ?_⟩
        · simpa [split, hx, hs] using hcat
        · simpa [split, hx, hs, Unterminated] using hrest
      | cons l ls =>
        refine ⟨?_, ?_, by simpa [split, hx, hs] using hrest⟩
        · simpa [split, hx, hs] using hcat
        · intro l' hl'
          simp only [split, hx, hs, if_false, List.mem_cons, Bool.false_eq_true] at hl'
          rcases hl' with rfl | hl'
          · exact (hlines l (by simp)).cons hx
          · exact hlines l' (by simp [hl'])

theorem flatten_lines_append_rest (xs : List α) :
    (lines term xs).flatten ++ rest term xs = xs := (split_spec xs).1

theorem isLine_of_mem_lines {xs l : List α} (h : l ∈ lines term xs) : IsLine term l :=
  (split_spec xs).2.1 l h

theorem unterminated_rest (xs : List α) : Unterminated term (rest term xs) :=
  (split_spec xs).2.2

theorem lines_unique {ls : List (List α)} {r : List α} (hls : ∀ l ∈ ls, IsLine term l)
    (hr : Unterminated term r) : lines term (ls.flatten ++ r) = ls := by
  rw [lines, split_unique hls hr]

/-- The lines already cut off come first; the others are those of what is left. -/
theorem lines_flatten_append {ls : List (List α)} (hls : ∀ l ∈ ls, IsLine term l)
    (xs : List α) : lines term (ls.flatten ++ xs) = ls ++ lines term xs := by
  conv_lhs => rw [← @flatten_lines_append_rest _ term xs, ← List.append_assoc,
    ← List.flatten_append]
  refine lines_unique ?_ (unterminated_rest xs)
  intro l hl
  rcases List.mem_append.mp hl with h | h
  · exact hls l h
  · exact isLine_of_mem_lines h

/-- Bytes without terminator complete no line. -/
theorem lines_append_unterminated (xs : List α) {r : List α} (hr : Unterminated term r) :
    lines term (xs ++ r) = lines term xs := by
  conv_lhs => rw [← @flatten_lines_append_rest _ term xs, List.append_assoc]
  exact lines_unique (fun _ => isLine_of_mem_lines) ((unterminated_rest xs).append hr)

theorem lines_eq_nil {xs : List α} : lines term xs = [] ↔ Unterminated term xs := by
  constructor
  · intro h
    have hcat := @flatten_lines_append_rest _ term xs
    rw [h] at hcat
    rw [← hcat]
    exact unterminated_rest xs
  · intro h
    rw [lines, split_unterminated h]

theorem lines_line_append {l : List α} (h : IsLine term l) (xs : List α) :
    lines term (l ++ xs) = l :: lines term xs := by
  rw [lines, split_line_append h]
  rfl

theorem rest_line_append {l : List α} (h : IsLine term l) (xs : List α) :
    rest term (l ++ xs) = rest term xs := by
  rw [rest, split_line_append h]
  rfl

theorem rest_of_unterminated {xs : List α} (h : Unterminated term xs) : rest term xs = xs := by
  rw [rest, split_unterminated h]

/-- There is a line for each terminator. -/
theorem length_lines (xs : List α) : (lines term xs).length = xs.countP term := by
  induction xs with
  | nil => rfl
  | cons x xs ih =>
    by_cases hx : term x
    · simp only [lines, split, hx, if_true, List.length_cons, List.countP_cons_of_pos hx]
      rw [← ih]
      rfl
    · rw [List.countP_cons_of_neg hx, ← ih]
      simp only [lines, split, hx, if_false, Bool.false_eq_true]
      cases (split term xs).1 with
      | nil => rfl
      | cons l ls => rfl

/-- Two notions of terminator that agree along a map cut a stream and its image alike. -/
theorem split_map {β : Type*} {term' : β → Bool} {f : α → β} (h : ∀ x, term' (f x) = term x)
    (xs : List α) :
    split term' (xs.map f) = ((split term xs).1.map (List.map f), (split term xs).2.map f) := by
  induction xs with
  | nil => rfl
  | cons x xs ih =>
    rw [List.map_cons, split, split, h, ih]
    by_cases hx : term x
    · simp [hx]
    · cases hs : (split term xs).1 with
      | nil => simp [hx]
      | cons l ls => simp [hx]

/-! ## Framing a stream received in chunks -/

/-- The framer has handed out some lines and holds the bytes after them. -/
structure Framer (α : Type*) where
  handed : List (List α)
  pending : List α

/-- What a framer does: receive a chunk, or hand out the next line if there is one. -/
inductive FramerEv (α : Type*) where
  | recv (chunk : List α)
  | hand

/-- What an event adds to the stream. -/
def FramerEv.chunk : FramerEv α → List α
  | .recv chunk => chunk
  | .hand => []

def Framer.step (term : α → Bool) (f : Framer α) : FramerEv α → Framer α
  | .recv chunk => { f with pending := f.pending ++ chunk }
  | .hand =>
    match next term f.pending with
    | some (l, r) => ⟨f.handed ++ [l], r⟩
    | none => f

/-- All bytes a framer has received. -/
def Framer.stream (f : Framer α) : List α := f.handed.flatten ++ f.pending

theorem Framer.stream_step (f : Framer α) (e : FramerEv α) :
    (f.step term e).stream = f.stream ++ e.chunk := by
  cases e with
  | recv chunk => simp [step, stream, FramerEv.chunk]
  | hand =>
    unfold step
    cases hn : next term f.pending with
    | none => simp [FramerEv.chunk]
    | some p =>
      rcases next_spec (l := p.1) (r := p.2) hn with ⟨-, hcat⟩
      simp [stream, FramerEv.chunk, hcat]

/-- Only lines are handed out. -/
theorem Framer.lines_step {f : Framer α} (h : ∀ l ∈ f.handed, IsLine term l) (e : FramerEv α) :
    ∀ l ∈ (f.step term e).handed, IsLine term l := by
  cases e with
  | recv chunk => exact h
  | hand =>
    unfold step
    cases hn : next term f.pending with
    | none => exact h
    | some p =>
      intro l hl
      rcases List.mem_append.mp hl with hl | hl
      · exact h l hl
      · rw [List.mem_singleton.mp hl]
        exact (next_spec (l := p.1) (r := p.2) hn).1

/-- What has been handed out is a prefix of the lines of the stream, however the
stream goes on. -/
theorem Framer.handed_prefix {f : Framer α} (h : ∀ l ∈ f.handed, IsLine term l) (future : List α) :
    f.handed <+: lines term (f.stream ++ future) := by
  rw [stream, List.append_assoc, lines_flatten_append h]
  exact List.prefix_append _ _

end Lines
