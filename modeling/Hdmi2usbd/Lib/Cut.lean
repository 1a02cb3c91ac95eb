import Mathlib.Data.List.TakeWhile

/-!
# Cut — a text cut at a character

A text is cut where a character first stands (`cut_append`), again and again into its segments up
to the first empty one (`segments_eq`). Segments that are joined with the character behind each
are split again (`segments_join`).
-/

namespace Cut

variable {α : Type*} [DecidableEq α] {c : α}

/-! ## One cut -/

theorem notMem_takeWhile (c : α) (xs : List α) : c ∉ xs.takeWhile (· ≠ c) := by
  intro hmem
  simpa using List.mem_takeWhile_imp hmem

theorem dropWhile_cases (c : α) (xs : List α) :
    xs.dropWhile (· ≠ c) = [] ∨ ∃ rest, xs.dropWhile (· ≠ c) = c :: rest := by
  cases hrest : xs.dropWhile (· ≠ c) with
  | nil => exact .inl rfl
  | cons y rest =>
    have hhead := List.head?_dropWhile_not (· ≠ c) xs
    rw [hrest] at hhead
    have hy : y = c := by simpa using hhead
    exact .inr ⟨rest, by rw [hy]⟩

theorem cut_append {xs : List α} (hxs : c ∉ xs) (ys : List α) (hys : ∀ y ∈ ys.head?, y = c) :
    (xs ++ ys).takeWhile (· ≠ c) = xs ∧ (xs ++ ys).dropWhile (· ≠ c) = ys := by
  have hall : ∀ x ∈ xs, decide (x ≠ c) = true := by
    intro x hx
    exact decide_eq_true fun heq => hxs (heq ▸ hx)
  rw [List.takeWhile_append_of_pos hall, List.dropWhile_append_of_pos hall]
  cases ys with
  | nil => exact ⟨List.append_nil xs, rfl⟩
  | cons y ys => simp [hys y rfl]

/-! ## Segments -/

/-- The segments up to the first empty one. -/
def segments (c : α) (xs : List α) : List (List α) := (xs.splitOn c).takeWhile (· ≠ [])

theorem segments_of_notMem {xs : List α} (hxs : c ∉ xs) :
    segments c xs = if xs = [] then [] else [xs] := by
  rw [segments, List.splitOn_eq_singleton hxs, List.takeWhile_cons]
  by_cases hnil : xs = [] <;> simp [hnil]

theorem segments_append {xs : List α} (hxs : c ∉ xs) (rest : List α) :
    segments c (xs ++ c :: rest) = if xs = [] then [] else xs :: segments c rest := by
  rw [segments, List.splitOn_append_cons_self, List.splitOn_eq_singleton hxs,
    List.singleton_append, List.takeWhile_cons]
  by_cases hnil : xs = [] <;> simp [hnil, segments]

/-- A segment is cut off, and the next one begins behind the separator. -/
theorem segments_eq (c : α) (xs : List α) :
    segments c xs =
      if xs.takeWhile (· ≠ c) = [] then []
      else xs.takeWhile (· ≠ c) :: segments c (xs.dropWhile (· ≠ c)).tail := by
  have hfree := notMem_takeWhile c xs
  have hxs := List.takeWhile_append_dropWhile (p := (· ≠ c)) (l := xs)
  rcases dropWhile_cases c xs with hnil | ⟨rest, hrest⟩
  · rw [hnil, List.append_nil] at hxs
    -- no separator is left, so the text is its last segment
    have hseg := segments_of_notMem hfree
    rw [hxs] at hseg ⊢
    rw [hnil, hseg]
    rfl
  · rw [hrest] at hxs
    have hseg := segments_append hfree rest
    rw [hxs] at hseg
    rw [hrest, List.tail_cons, hseg]

/-- What is joined with a separator behind each part is split into the parts. -/
theorem segments_join {parts : List (List α)} (h : ∀ p ∈ parts, p ≠ [] ∧ c ∉ p) :
    segments c (parts.map (· ++ [c])).flatten = parts := by
  induction parts with
  | nil => rfl
  | cons p parts ih =>
    obtain ⟨hne, hfree⟩ := h p List.mem_cons_self
    rw [List.map_cons, List.flatten_cons, List.append_assoc, List.singleton_append,
      segments_append hfree, if_neg hne, ih fun q hq => h q (List.mem_cons_of_mem _ hq)]

end Cut
