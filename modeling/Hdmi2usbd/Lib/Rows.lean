import Mathlib.Data.List.Basic
import Hdmi2usbd.Lib.Block

/-!
# Rows — a block of memory as a table of rows

Rows of `k` cells each, laid out one after the other. A copy of whole rows between whole rows is
the copy of their cells, at `k` times the position (`load_flat`, `store_flat`, `move_flat`), so
that code which scales its indices by an element size can be read row by row.
-/

namespace Rows

variable {α : Type*} {k : Nat}

/-- A row of `k` cells. -/
abbrev Row (α : Type*) (k : Nat) := { cells : List α // cells.length = k }

/-- The row whose cells are all the same. -/
def Row.fill (k : Nat) (x : α) : Row α k := ⟨List.replicate k x, List.length_replicate⟩

/-- The cells of a table. -/
def flat (rows : List (Row α k)) : List α := (rows.map Subtype.val).flatten

@[simp] theorem flat_nil : flat ([] : List (Row α k)) = [] := rfl

theorem flat_cons (r : Row α k) (rows : List (Row α k)) : flat (r :: rows) = r.val ++ flat rows :=
  rfl

theorem flat_append (rows rows' : List (Row α k)) :
    flat (rows ++ rows') = flat rows ++ flat rows' := by
  simp [flat]

@[simp] theorem flat_singleton (r : Row α k) : flat [r] = r.val := by
  simp [flat]

@[simp] theorem length_flat (rows : List (Row α k)) : (flat rows).length = rows.length * k := by
  induction rows with
  | nil => simp
  | cons r rows ih =>
    rw [flat_cons, List.length_append, ih, r.property, List.length_cons, Nat.succ_mul, Nat.add_comm]

theorem flat_replicate (n : Nat) (x : α) :
    flat (List.replicate n (Row.fill k x)) = List.replicate (n * k) x := by
  induction n with
  | zero => simp
  | succ n ih =>
    rw [List.replicate_succ, flat_cons, ih, Nat.succ_mul, Nat.add_comm, List.replicate_add]
    rfl

theorem flat_take (rows : List (Row α k)) (i : Nat) :
    flat (rows.take i) = (flat rows).take (i * k) := by
  induction rows generalizing i with
  | nil => simp
  | cons r rows ih =>
    cases i with
    | zero => simp
    | succ i =>
      have hk : (i + 1) * k = r.val.length + i * k := by
        rw [r.property, Nat.succ_mul, Nat.add_comm]
      rw [List.take_succ_cons, flat_cons, flat_cons, ih, hk, List.take_length_add_append]

theorem flat_drop (rows : List (Row α k)) (i : Nat) :
    flat (rows.drop i) = (flat rows).drop (i * k) := by
  induction rows generalizing i with
  | nil => simp
  | cons r rows ih =>
    cases i with
    | zero => simp
    | succ i =>
      have hk : (i + 1) * k = r.val.length + i * k := by
        rw [r.property, Nat.succ_mul, Nat.add_comm]
      rw [List.drop_succ_cons, flat_cons, ih, hk, List.drop_length_add_append]

/-! ## Copies -/

theorem load_flat {rows rs : List (Row α k)} {i n : Nat} (h : Block.load rows i n = some rs) :
    Block.load (flat rows) (i * k) (n * k) = some (flat rs) := by
  unfold Block.load at h
  split at h
  · next hle =>
    cases h
    have hfits : i * k + n * k ≤ (flat rows).length := by
      rw [length_flat, ← Nat.add_mul]
      exact Nat.mul_le_mul_right k hle
    rw [Block.load_eq hfits, flat_take, flat_drop]
  · cases h

/-- The cells of a row. -/
theorem load_row {rows : List (Row α k)} {i : Nat} {r : Row α k} (hr : rows[i]? = some r) :
    Block.load (flat rows) (i * k) k = some r.val := by
  obtain ⟨hi, -⟩ := List.getElem?_eq_some_iff.mp hr
  have hload : Block.load rows i 1 = some [r] := by
    rw [Block.load_eq (by omega), List.take_one, List.head?_drop, hr]
    rfl
  have hcells := load_flat hload
  rwa [Nat.one_mul, flat_singleton] at hcells

theorem store_flat {rows src rows' : List (Row α k)} {i : Nat}
    (h : Block.store rows i src = some rows') :
    Block.store (flat rows) (i * k) (flat src) = some (flat rows') := by
  unfold Block.store at h
  split at h
  · next hle =>
    cases h
    have hfits : i * k + (flat src).length ≤ (flat rows).length := by
      rw [length_flat, length_flat, ← Nat.add_mul]
      exact Nat.mul_le_mul_right k hle
    rw [Block.store_eq hfits, flat_append, flat_append, flat_take, flat_drop, length_flat,
      Nat.add_mul]
  · cases h

theorem move_flat {rows rows' : List (Row α k)} {dst src n : Nat}
    (h : Block.move rows dst src n = some rows') :
    Block.move (flat rows) (dst * k) (src * k) (n * k) = some (flat rows') := by
  unfold Block.move at h ⊢
  obtain ⟨rs, hrs, hstore⟩ := Option.bind_eq_some_iff.mp h
  rw [load_flat hrs]
  exact store_flat hstore

end Rows
