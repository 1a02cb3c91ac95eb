import Mathlib.Data.List.Basic

/-!
# DynArray — the growing array of `array.c`

An array is a block of `e_all` elements of which the first `e_end` are in use; it
grows by chunks of `e_inc`. A pointer into it is a pair of a block and an index:
`block` numbers the blocks that `realloc` has returned, so a pointer taken before
a growth is told apart from one taken after it. `default` stands for an element
of zero bytes.

`DynArray` is the array with its invariant as a field; its operations are read
through the list of the elements in use.
-/

namespace Hdmi2usbd

variable {α : Type}

/-- `struct array_s`. -/
structure Arr (α : Type) where
  eAll : Nat
  eEnd : Nat
  eInc : Nat
  data : List α
  block : Nat
deriving DecidableEq, Repr

/-! ## The operations -/

/-- The loop that adds chunks until `count` exceeds `need`. -/
def growCount (inc need : Nat) : Nat → Nat → Option Nat
  | 0, _ => none
  | fuel + 1, count => if count ≤ need then growCount inc need fuel (count + inc) else some count

/-- Make room for `elements` more elements. `grant` is whether `realloc` succeeds;
`none` is a growth loop that does not end. -/
def arrayCheckAlloc [Inhabited α] (grant : Bool) (a : Arr α) (elements : Nat) : Option (Int × Arr α) := do
  let elements := if elements = 0 then 1 else elements
  let count ← growCount a.eInc (a.eEnd + elements) (a.eEnd + elements + 2) a.eAll
  if count > a.eAll then
    if grant then
      pure (0, { a with
        eAll := count
        data := a.data ++ List.replicate (count - a.eAll) default
        block := a.block + 1 })
    else pure (-1, a)
  else pure (0, a)

def arrayInit [Inhabited α] (grant : Bool) (initialCount : Nat) : Option (Int × Arr α) :=
  arrayCheckAlloc grant
    { eAll := 0, eEnd := 0, eInc := if initialCount ≠ 0 then initialCount else 8, data := []
      block := 0 } 0

abbrev arrayCount (a : Arr α) : Nat := a.eEnd

/-- The element at an index in use; `none` for `NULL`. -/
def arrayGet (a : Arr α) (index : Nat) : Option α :=
  if index ≥ arrayCount a then none else a.data[index]?

/-- One more element in use: its index and the array. A refused growth is not noticed. -/
def arrayNew [Inhabited α] (grant : Bool) (a : Arr α) : Option (Nat × Arr α) := do
  let (_, a) ← arrayCheckAlloc grant a 1
  pure (a.eEnd, { a with eEnd := a.eEnd + 1 })

/-- Write through the pointer `array_get` returned. -/
def arrayStore (a : Arr α) (index : Nat) (x : α) : Arr α := { a with data := a.data.set index x }

/-! ## The invariant -/

/-- The block is as large as `e_all` says, with at least one element not in use. -/
structure Arr.Wf (a : Arr α) : Prop where
  block_length : a.data.length = a.eAll
  end_lt : a.eEnd < a.eAll
  inc_pos : 0 < a.eInc

/-- The elements in use. -/
def Arr.toList (a : Arr α) : List α := a.data.take a.eEnd

theorem Arr.Wf.length_toList {a : Arr α} (h : a.Wf) : a.toList.length = a.eEnd := by
  have := h.end_lt
  rw [Arr.toList, List.length_take, h.block_length]
  omega

/-- The growth loop ends above `need`, and adds nothing when there is room. -/
theorem growCount_spec {inc : Nat} (hinc : 0 < inc) (need fuel count : Nat)
    (hpos : 0 < fuel) (hfuel : need + 1 < count + fuel) :
    ∃ k, growCount inc need fuel count = some k ∧ need < k ∧ count ≤ k ∧
      (need < count → k = count) := by
  induction fuel generalizing count with
  | zero => omega
  | succ fuel ih =>
    unfold growCount
    split
    · rcases ih (count + inc) (by omega) (by omega) with ⟨k, hk, hneed, hle, -⟩
      exact ⟨k, hk, hneed, by omega, by omega⟩
    · exact ⟨count, rfl, by omega, Nat.le_refl _, fun _ => rfl⟩

/-- What a granted growth does: the elements stay, there is room for the new ones,
and the block is replaced exactly when there was no room. -/
theorem arrayCheckAlloc_spec [Inhabited α] {a : Arr α} (hblock : a.data.length = a.eAll) (hend : a.eEnd ≤ a.eAll)
    (hinc : 0 < a.eInc) (elements : Nat) :
    ∃ a', arrayCheckAlloc true a elements = some (0, a') ∧ a'.data.length = a'.eAll ∧
      a.eEnd + max elements 1 < a'.eAll ∧ a'.eEnd = a.eEnd ∧ a'.eInc = a.eInc ∧
      a'.toList = a.toList ∧
      a'.block = if a.eAll ≤ a.eEnd + max elements 1 then a.block + 1 else a.block := by
  have hel : (if elements = 0 then 1 else elements) = max elements 1 := by
    split <;> omega
  obtain ⟨k, hk, hneed, hle, hroom⟩ := growCount_spec hinc (a.eEnd + max elements 1)
    (a.eEnd + max elements 1 + 2) a.eAll (by omega) (by omega)
  by_cases hgrow : k > a.eAll
  · refine ⟨{ a with
        eAll := k
        data := a.data ++ List.replicate (k - a.eAll) default
        block := a.block + 1 }, ?_, ?_, hneed, rfl, rfl, ?_, ?_⟩
    · simp [arrayCheckAlloc, hel, hk, hgrow]
    · simp [hblock]
      omega
    · simp only [Arr.toList]
      rw [List.take_append_of_le_length (by omega)]
    · -- had there been room, the loop would have added nothing
      rw [if_pos]
      by_contra hfree
      have := hroom (by omega)
      omega
  · refine ⟨a, ?_, hblock, by omega, rfl, rfl, rfl, ?_⟩
    · simp [arrayCheckAlloc, hel, hk, hgrow]
    · rw [if_neg (by omega)]

theorem arrayInit_spec [Inhabited α] (initialCount : Nat) :
    ∃ a : Arr α, arrayInit true initialCount = some (0, a) ∧ a.Wf ∧ a.toList = [] := by
  have hinc : 0 < if initialCount ≠ 0 then initialCount else 8 := by split <;> omega
  unfold arrayInit
  generalize (if initialCount ≠ 0 then initialCount else 8) = inc at hinc ⊢
  obtain ⟨a, ha, hlen, hroom, hend, hinc', htl, -⟩ := arrayCheckAlloc_spec
    (a := ({ eAll := 0, eEnd := 0, eInc := inc, data := [], block := 0 } : Arr α))
    rfl (Nat.le_refl _) hinc 0
  simp only at hend hroom hinc'
  exact ⟨a, ha, ⟨hlen, by omega, by omega⟩, by simpa [Arr.toList] using htl⟩

theorem arrayNew_spec [Inhabited α] {a : Arr α} (h : a.Wf) :
    ∃ a', arrayNew true a = some (a.eEnd, a') ∧ a'.Wf ∧ a'.eEnd = a.eEnd + 1 ∧
      a'.data.take a.eEnd = a.toList ∧
      a'.block = if a.eAll ≤ a.eEnd + 1 then a.block + 1 else a.block := by
  rcases arrayCheckAlloc_spec h.block_length (Nat.le_of_lt h.end_lt) h.inc_pos 1 with
    ⟨a', ha', hlen, hroom, hend, hinc, htl, hblk⟩
  have hpos := h.inc_pos
  simp only [Nat.max_self] at hroom hblk
  refine ⟨{ a' with eEnd := a'.eEnd + 1 }, ?_, ⟨hlen, ?_, ?_⟩, ?_, ?_, hblk⟩
  · simp [arrayNew, ha', hend]
  · simp only
    omega
  · simp only
    omega
  · simp [hend]
  · rw [← htl, Arr.toList, hend]

/-! ## The array that carries its invariant -/

/-- A well-formed array. Growth is always granted here. -/
structure DynArray (α : Type) where
  arr : Arr α
  wf : arr.Wf

namespace DynArray

theorem init_isSome [Inhabited α] (initialCount : Nat) :
    (arrayInit true initialCount : Option (Int × Arr α)).isSome := by
  rcases arrayInit_spec (α := α) initialCount with ⟨a, ha, -⟩
  simp [ha]

theorem init_wf [Inhabited α] (initialCount : Nat) :
    ((arrayInit true initialCount : Option (Int × Arr α)).get (init_isSome initialCount)).2.Wf := by
  rcases arrayInit_spec (α := α) initialCount with ⟨a, ha, h, -⟩
  simpa [ha] using h

/-- `array_init`. -/
def init [Inhabited α] (initialCount : Nat) : DynArray α :=
  ⟨((arrayInit true initialCount).get (init_isSome initialCount)).2, init_wf initialCount⟩

variable (a : DynArray α)

def toList : List α := a.arr.toList

/-- `array_count`. -/
def count : Nat := arrayCount a.arr

/-- `array_get`. -/
def get (index : Nat) : Option α := arrayGet a.arr index

/-- The number of the current storage block. -/
def block : Nat := a.arr.block

/-- Whether `array_new` will replace the storage block. -/
def full : Bool := a.arr.eAll ≤ a.arr.eEnd + 1

/-- Write through a pointer into the current block. -/
def store (index : Nat) (x : α) : DynArray α :=
  ⟨arrayStore a.arr index x,
    ⟨by simp [arrayStore, a.wf.block_length], a.wf.end_lt, a.wf.inc_pos⟩⟩

theorem new_isSome [Inhabited α] : (arrayNew true a.arr).isSome := by
  rcases arrayNew_spec a.wf with ⟨a', ha', -⟩
  simp [ha']

theorem new_wf [Inhabited α] : ((arrayNew true a.arr).get a.new_isSome).2.Wf := by
  rcases arrayNew_spec a.wf with ⟨a', ha', h, -⟩
  simpa [ha'] using h

/-- `array_new`: the index of the new element and the array. -/
def new [Inhabited α] : Nat × DynArray α :=
  let r := (arrayNew true a.arr).get a.new_isSome
  (r.1, ⟨r.2, a.new_wf⟩)

@[simp] theorem init_toList [Inhabited α] (n : Nat) : (init n : DynArray α).toList = [] := by
  rcases arrayInit_spec (α := α) n with ⟨a, ha, -, h⟩
  simpa [init, toList, ha] using h

@[simp] theorem length_toList : a.toList.length = a.count := a.wf.length_toList

theorem get_eq (index : Nat) : a.get index = a.toList[index]? := by
  have hlen := a.length_toList
  unfold get arrayGet
  split
  · next hge =>
    rw [List.getElem?_eq_none]
    rwa [hlen]
  · next hlt =>
    rw [toList, Arr.toList, List.getElem?_take_of_lt (Nat.lt_of_not_ge hlt)]

@[simp] theorem store_toList (index : Nat) (x : α) :
    (a.store index x).toList = a.toList.set index x := by
  simp [store, toList, Arr.toList, arrayStore, List.take_set]

@[simp] theorem store_count (index : Nat) (x : α) : (a.store index x).count = a.count := rfl

@[simp] theorem store_block (index : Nat) (x : α) : (a.store index x).block = a.block := rfl

@[simp] theorem new_index [Inhabited α] : a.new.1 = a.count := by
  rcases arrayNew_spec a.wf with ⟨a', ha', -⟩
  simp [new, ha', count]

/-- The new element, once written, stands after the others. -/
theorem new_store_toList [Inhabited α] (x : α) :
    (a.new.2.store a.count x).toList = a.toList ++ [x] := by
  rcases arrayNew_spec a.wf with ⟨a', ha', h, hend, htake, -⟩
  have hlt : a.arr.eEnd < a'.data.length := by
    have := h.end_lt
    rw [h.block_length]
    omega
  have htl : a.new.2.toList = a.toList ++ [a'.data[a.arr.eEnd]] := by
    simp only [new, ha', Option.get_some, toList, Arr.toList]
    rw [hend, List.take_add_one, htake, List.getElem?_eq_getElem hlt]
    rfl
  rw [store_toList, htl, List.set_append_right _ _ (by simp)]
  simp

@[simp] theorem new_block [Inhabited α] :
    a.new.2.block = if a.full then a.block + 1 else a.block := by
  rcases arrayNew_spec a.wf with ⟨a', ha', -, -, -, hblk⟩
  simpa [new, ha', block, full] using hblk

end DynArray

end Hdmi2usbd
