import Hdmi2usbd.DynArray
import Hdmi2usbd.Lib.Rows

/-!
# RawArray — the bytes behind the growing array

`array.c` once more, as it runs on memory: the block is a list of bytes, a pointer is an offset
into it, every count and size is a `size_t` and wraps at 2^64, and a copy that leaves the block
goes wrong (`none`). `realloc` may refuse a request, and fills what it adds with whatever the heap
holds.

`Holds` reads the block as rows of `e_size` bytes. It is what the operations keep as long as no
request reaches 2^64 bytes, and it makes the array of elements of `DynArray` a view of these bytes
(`Views.arrayNew`).
-/

namespace Hdmi2usbd.Raw

open Rows (Row)

/-- A value as a `size_t` holds it. -/
def sizeT (n : Nat) : Nat := n % 0x10000000000000000

/-- `struct array_s`; the block is `none` for `NULL`. -/
structure Arr where
  eSize : Nat
  eAll : Nat
  eEnd : Nat
  eInc : Nat
  data : Option (List UInt8)
deriving DecidableEq, Repr

/-- What `realloc` does when it is called: whether it grants the request, and the bytes found in
what it adds. -/
structure Heap where
  grants : Bool
  fresh : Nat → UInt8

/-! ## Memory -/

def realloc (m : Heap) (data : Option (List UInt8)) (bytes : Nat) : Option (List UInt8) :=
  if m.grants then
    let kept := (data.getD []).take bytes
    some (kept ++ (List.range (bytes - kept.length)).map m.fresh)
  else none

/-- `array->data + offset`; `none` for `NULL`. -/
def Arr.ptr (a : Arr) (offset : Nat) : Option Nat :=
  if a.data.isNone ∧ offset = 0 then none else some offset

/-- A write through a pointer into the block. -/
def Arr.store (a : Arr) (ptr : Nat) (bytes : List UInt8) : Option Arr := do
  let block ← Block.store (← a.data) ptr bytes
  pure { a with data := some block }

/-- `memmove` inside the block. -/
def Arr.move (a : Arr) (dst src n : Nat) : Option Arr := do
  let block ← Block.move (← a.data) dst src n
  pure { a with data := some block }

/-- The `memmove` of `to_move` elements, if there are any. -/
def Arr.shift (a : Arr) (toMove dst src : Nat) : Option Arr :=
  if toMove > 0 then a.move dst src (sizeT (toMove * a.eSize)) else some a

/-! ## The operations -/

/-- The loop that adds chunks until `count` exceeds `need`. -/
def growCount (inc need : Nat) : Nat → Nat → Option Nat
  | 0, _ => none
  | fuel + 1, count =>
    if count ≤ need then growCount inc need fuel (sizeT (count + inc)) else some count

/-- Whether an index is out of bounds (`BOUNDS_FAIL`). -/
def arrayCheckBounds (a : Arr) (index within : Nat) : Bool := index ≥ sizeT (a.eEnd + within)

def arrayCheckAlloc (m : Heap) (a : Arr) (elements : Nat) : Option (Int × Arr) := do
  let elements := if elements = 0 then 1 else elements
  -- a count that has been seen before will not end the loop
  let count ← growCount a.eInc (sizeT (a.eEnd + elements)) 0x10000000000000000 a.eAll
  if count > a.eAll then
    match realloc m a.data (sizeT (count * a.eSize)) with
    | none => pure (-1, a)
    | some buf =>
      let added := count - a.eAll
      let buf ← Block.store buf (sizeT (a.eAll * a.eSize))
        (List.replicate (sizeT (added * a.eSize)) 0)
      pure (0, { a with data := some buf, eAll := count })
  else pure (0, a)

/-- What `array_init` sets before it asks for the first block. -/
def Arr.blank (elementSize initialCount : Nat) : Arr where
  eSize := elementSize
  eAll := 0
  eEnd := 0
  eInc := if initialCount ≠ 0 then initialCount else 8
  data := none

def arrayInit (m : Heap) (elementSize initialCount : Nat) : Option (Int × Arr) :=
  arrayCheckAlloc m (Arr.blank elementSize initialCount) 0

def arrayGet (a : Arr) (index : Nat) : Option Nat :=
  if arrayCheckBounds a index 0 then none else a.ptr (sizeT (index * a.eSize))

def arrayPut (a : Arr) (element : List UInt8) (at' : Nat) : Option (Option Nat × Arr) :=
  match arrayGet a at' with
  | none => some (none, a)
  | some ptr => do
    let a ← a.store ptr (← Block.load element 0 a.eSize)
    pure (some ptr, a)

/-- The result of `array_check_alloc` is not looked at. -/
def arrayNew (m : Heap) (a : Arr) : Option (Option Nat × Arr) := do
  let (_, a) ← arrayCheckAlloc m a 1
  let index := a.eEnd
  let a := { a with eEnd := sizeT (a.eEnd + 1) }
  pure (arrayGet a index, a)

def arrayNewAt (m : Heap) (a : Arr) (index : Nat) : Option (Option Nat × Arr) :=
  if arrayCheckBounds a index 1 then some (none, a)
  else do
    let (_, a) ← arrayCheckAlloc m a 1
    match a.ptr (sizeT (index * a.eSize)) with
    | none => pure (none, a)
    | some ptr =>
      let a ← a.shift (a.eEnd - index) (ptr + a.eSize) ptr
      let a ← { a with eEnd := sizeT (a.eEnd + 1) }.store ptr (List.replicate a.eSize 0)
      pure (some ptr, a)

/-- The copy of `array_append` and `array_insert` into the new element. -/
def fillNew (element : List UInt8) : Option Nat × Arr → Option (Option Nat × Arr)
  | (none, a) => some (none, a)
  | (some ptr, a) => do
    let a ← a.store ptr (← Block.load element 0 a.eSize)
    pure (some ptr, a)

def arrayAppend (m : Heap) (a : Arr) (element : List UInt8) : Option (Option Nat × Arr) := do
  fillNew element (← arrayNew m a)

def arrayInsert (m : Heap) (a : Arr) (element : List UInt8) (at' : Nat) :
    Option (Option Nat × Arr) := do
  fillNew element (← arrayNewAt m a at')

def arrayDelete (a : Arr) (at' : Nat) : Option (Nat × Arr) :=
  if arrayCheckBounds a at' 0 then some (0xffffffffffffffff, a)
  else
    let a := { a with eEnd := a.eEnd - 1 }
    if at' < a.eEnd then do
      let ptr ← arrayGet a at'
      let a ← a.shift (a.eEnd - at') ptr (ptr + a.eSize)
      pure (a.eEnd, a)
    else some (a.eEnd, a)

/-! ## The invariant -/

variable {k : Nat}

/-- The block holds rows of `k` bytes, the ones in use first, and at least one that is not. There
may be no block yet. -/
structure Holds (rows : List (Row UInt8 k)) (a : Arr) : Prop where
  size : a.eSize = k
  length : rows.length = a.eAll
  data : a.data = if a.eAll = 0 then none else some (Rows.flat rows)
  room : a.eEnd < a.eAll ∨ (a.eAll = 0 ∧ a.eEnd = 0)
  inc_pos : 0 < a.eInc
  chunk : a.eInc ∣ a.eAll
  count_fits : a.eAll < 0x10000000000000000
  bytes_fit : a.eAll * k < 0x10000000000000000

/-- One more element takes a growth. -/
def Arr.full (a : Arr) : Prop := a.eAll ≤ a.eEnd + 1

instance (a : Arr) : Decidable a.full := inferInstanceAs (Decidable (_ ≤ _))

/-- The capacity after a growth: one more chunk, and two elements at least. -/
def Arr.grown (a : Arr) : Nat := max (a.eAll + a.eInc) 2

/-- The next growth can be asked for without a wrap. -/
def Arr.Fits (a : Arr) : Prop :=
  a.grown < 0x10000000000000000 ∧ a.grown * a.eSize < 0x10000000000000000

instance (a : Arr) : Decidable a.Fits := inferInstanceAs (Decidable (_ ∧ _))

theorem sizeT_of_lt {n : Nat} (h : n < 0x10000000000000000) : sizeT n = n := Nat.mod_eq_of_lt h

section Growth

variable {rows : List (Row UInt8 k)} {a : Arr} (h : Holds rows a)
include h

theorem Holds.end_fits : sizeT (a.eEnd + 1) = a.eEnd + 1 := by
  have := h.count_fits
  refine sizeT_of_lt ?_
  rcases h.room with hlt | ⟨-, hend⟩ <;> omega

/-- A position in the block is no larger than the block. -/
theorem Holds.offset_fits {i : Nat} (hi : i ≤ a.eAll) : sizeT (i * a.eSize) = i * a.eSize := by
  refine sizeT_of_lt ?_
  rw [h.size]
  exact Nat.lt_of_le_of_lt (Nat.mul_le_mul_right k hi) h.bytes_fit

/-- Where there is room, the loop adds nothing; otherwise it arrives at the grown capacity. -/
theorem Holds.growCount (hfits : a.full → a.Fits) {fuel : Nat} (hfuel : 2 < fuel) :
    growCount a.eInc (a.eEnd + 1) fuel a.eAll = some (if a.full then a.grown else a.eAll) := by
  obtain ⟨fuel, rfl⟩ : ∃ f, fuel = f + 3 := ⟨fuel - 3, by omega⟩
  have hinc := h.inc_pos
  rw [Raw.growCount]
  by_cases hfull : a.full
  · rw [if_pos hfull, if_pos (by exact hfull)]
    obtain ⟨hcount, -⟩ := hfits hfull
    unfold Arr.grown at hcount ⊢
    unfold Arr.full at hfull
    have hone : sizeT (a.eAll + a.eInc) = a.eAll + a.eInc := sizeT_of_lt (by omega)
    rw [hone, Raw.growCount]
    split
    · -- the first two elements, from chunks of one
      next hsmall =>
      have hall : a.eAll = 0 := by
        rcases h.room with hlt | ⟨hall, -⟩ <;> omega
      have hend : a.eEnd = 0 := by
        rcases h.room with hlt | ⟨-, hend⟩ <;> omega
      rw [hall, hend] at hsmall ⊢
      have hchunk : a.eInc = 1 := by omega
      rw [hchunk, Raw.growCount, if_neg (by decide)]
      rfl
    · rcases h.room with hlt | ⟨hall, hend⟩
      · rw [Nat.max_eq_left (by omega)]
      · rw [Nat.max_eq_left (by omega)]
  · rw [if_neg hfull, if_neg (by exact hfull)]

theorem Holds.arrayCheckAlloc_free {m : Heap} {elements : Nat} (hel : elements ≤ 1)
    (hfree : ¬ a.full) : arrayCheckAlloc m a elements = some (0, a) := by
  have hone : (if elements = 0 then 1 else elements) = 1 := by split <;> omega
  have hgrow := h.growCount (fun hfull => absurd hfull hfree)
    (show 2 < 0x10000000000000000 by decide)
  simp only [arrayCheckAlloc, hone, h.end_fits, hgrow, hfree, if_false, Option.bind_eq_bind,
    Option.bind_some, gt_iff_lt, Nat.lt_irrefl]
  rfl

theorem Holds.lt_grown (hfull : a.full) : a.eAll < a.grown ∧ a.eEnd + 1 < a.grown := by
  have hinc := h.inc_pos
  unfold Arr.full at hfull
  unfold Arr.grown
  rcases h.room with hlt | ⟨hall, hend⟩ <;> omega

theorem Holds.arrayCheckAlloc_refused {m : Heap} {elements : Nat} (hel : elements ≤ 1)
    (hfull : a.full) (hfits : a.Fits) (hm : m.grants = false) :
    arrayCheckAlloc m a elements = some (-1, a) := by
  have hone : (if elements = 0 then 1 else elements) = 1 := by split <;> omega
  have hgrow := h.growCount (fun _ => hfits) (show 2 < 0x10000000000000000 by decide)
  obtain ⟨hmore, -⟩ := h.lt_grown hfull
  simp only [arrayCheckAlloc, hone, h.end_fits, hgrow, hfull, if_true, Option.bind_eq_bind,
    Option.bind_some, gt_iff_lt, hmore, realloc, hm, Bool.false_eq_true, if_false]
  rfl

/-- What the block held, or nothing when there was none. -/
theorem Holds.data_getD : a.data.getD [] = Rows.flat rows := by
  rw [h.data]
  split
  · next hall =>
    have hnil : rows = [] := List.eq_nil_of_length_eq_zero (h.length.trans hall)
    rw [hnil]
    rfl
  · rfl

/-- The rows after a growth: what is added is cleared. -/
theorem Holds.realloc {m : Heap} (hfull : a.full) (hm : m.grants = true) :
    ∃ buf, Raw.realloc m a.data (a.grown * k) = some buf ∧
      Block.store buf (a.eAll * k) (List.replicate ((a.grown - a.eAll) * k) 0) =
        some (Rows.flat (rows ++ List.replicate (a.grown - a.eAll) (Row.fill k 0))) := by
  obtain ⟨hmore, -⟩ := h.lt_grown hfull
  have hlen : (Rows.flat rows).length = a.eAll * k := by rw [Rows.length_flat, h.length]
  have hle : a.eAll * k ≤ a.grown * k := Nat.mul_le_mul_right k (Nat.le_of_lt hmore)
  have hkept : (Rows.flat rows).take (a.grown * k) = Rows.flat rows :=
    List.take_of_length_le (by rw [hlen]; exact hle)
  refine ⟨_, by simp only [Raw.realloc, hm, if_true, h.data_getD, hkept]; rfl, ?_⟩
  rw [Nat.sub_mul, Block.store_eq]
  · rw [Rows.flat_append, Rows.flat_replicate, ← hlen, List.take_left, Nat.sub_mul, hlen]
    rw [List.drop_of_length_le, List.append_nil]
    simp only [List.length_append, List.length_map, List.length_range, List.length_replicate, hlen]
    omega
  · simp only [List.length_append, List.length_map, List.length_range, List.length_replicate, hlen]
    omega

theorem Holds.arrayCheckAlloc_granted {m : Heap} {elements : Nat} (hel : elements ≤ 1)
    (hfull : a.full) (hfits : a.Fits) (hm : m.grants = true) :
    arrayCheckAlloc m a elements = some (0, { a with
      data := some (Rows.flat (rows ++ List.replicate (a.grown - a.eAll) (Row.fill k 0)))
      eAll := a.grown }) := by
  have hone : (if elements = 0 then 1 else elements) = 1 := by split <;> omega
  have hgrow := h.growCount (fun _ => hfits) (show 2 < 0x10000000000000000 by decide)
  obtain ⟨hmore, -⟩ := h.lt_grown hfull
  obtain ⟨-, hbytes⟩ := hfits
  rw [h.size] at hbytes
  have hadded : (a.grown - a.eAll) * k ≤ a.grown * k := Nat.mul_le_mul_right k (Nat.sub_le _ _)
  obtain ⟨buf, hbuf, hstore⟩ := h.realloc hfull hm
  simp only [arrayCheckAlloc, hone, h.end_fits, hgrow, hfull, if_true, Option.bind_eq_bind,
    Option.bind_some, gt_iff_lt, hmore, h.size, sizeT_of_lt hbytes, hbuf,
    sizeT_of_lt h.bytes_fit, sizeT_of_lt (Nat.lt_of_le_of_lt hadded hbytes), hstore]
  rfl

/-- The invariant after a growth. -/
theorem Holds.grow (hfull : a.full) (hfits : a.Fits) :
    Holds (rows ++ List.replicate (a.grown - a.eAll) (Row.fill k 0)) { a with
      data := some (Rows.flat (rows ++ List.replicate (a.grown - a.eAll) (Row.fill k 0)))
      eAll := a.grown } := by
  obtain ⟨hmore, hroom⟩ := h.lt_grown hfull
  have hinc := h.inc_pos
  constructor
  case size => exact h.size
  case length =>
    rw [List.length_append, List.length_replicate, h.length]
    simp only
    omega
  case data => rw [if_neg (by simp only; omega)]
  case room =>
    left
    simp only
    omega
  case inc_pos => exact hinc
  case chunk =>
    unfold Arr.full at hfull
    unfold Arr.grown
    rcases h.room with hlt | ⟨hall, hend⟩
    · rw [Nat.max_eq_left (by omega)]
      exact Nat.dvd_add h.chunk (Nat.dvd_refl _)
    · -- the first chunk, or two chunks of one
      by_cases hone : a.eInc = 1
      · rw [hone]
        exact Nat.one_dvd _
      · have hsum : max (a.eAll + a.eInc) 2 = a.eInc := by
          rw [hall, Nat.zero_add, Nat.max_eq_left (by omega)]
        exact ⟨1, by rw [Nat.mul_one]; exact hsum⟩
  case count_fits => exact hfits.1
  case bytes_fit =>
    have := hfits.2
    rwa [h.size] at this

theorem Holds.end_le : a.eEnd ≤ rows.length := by
  rw [h.length]
  rcases h.room with hlt | ⟨hall, hend⟩ <;> omega

/-- Unless it is refused, `array_check_alloc` leaves room for one more element and a spare one. -/
theorem Holds.makeRoom {m : Heap} {elements : Nat} (hel : elements ≤ 1) (hfits : a.full → a.Fits)
    (hm : a.full → m.grants = true) :
    ∃ n a', arrayCheckAlloc m a elements = some (0, a') ∧
      Holds (rows ++ List.replicate n (Row.fill k 0)) a' ∧
      a'.eEnd = a.eEnd ∧ a'.eEnd + 1 < a'.eAll ∧ a.eAll ≤ a'.eAll ∧ a'.eInc = a.eInc := by
  by_cases hfull : a.full
  · obtain ⟨hmore, hroom⟩ := h.lt_grown hfull
    exact ⟨_, _, h.arrayCheckAlloc_granted hel hfull (hfits hfull) (hm hfull),
      h.grow hfull (hfits hfull), rfl, hroom, Nat.le_of_lt hmore, rfl⟩
  · have hroom : a.eEnd + 1 < a.eAll := Nat.lt_of_not_ge hfull
    refine ⟨0, a, h.arrayCheckAlloc_free hel hfull, ?_, rfl, hroom, Nat.le_refl _, rfl⟩
    rw [List.replicate_zero, List.append_nil]
    exact h

end Growth

theorem holds_blank (k initialCount : Nat) :
    Holds ([] : List (Row UInt8 k)) (Arr.blank k initialCount) where
  size := rfl
  length := rfl
  data := rfl
  room := .inr ⟨rfl, rfl⟩
  inc_pos := by
    unfold Arr.blank
    simp only
    split <;> omega
  chunk := Nat.dvd_zero _
  count_fits := by simp [Arr.blank]
  bytes_fit := by simp [Arr.blank]

theorem blank_full (k initialCount : Nat) : (Arr.blank k initialCount).full := Nat.zero_le _

/-! ## The operations on rows -/

section Operations

variable {rows : List (Row UInt8 k)} {a : Arr} (h : Holds rows a)
include h

theorem Holds.bounds_iff {index : Nat} : arrayCheckBounds a index 0 = false ↔ index < a.eEnd := by
  have := h.count_fits
  have hend : sizeT a.eEnd = a.eEnd := by
    refine sizeT_of_lt ?_
    rcases h.room with hlt | ⟨-, hend⟩ <;> omega
  simp [arrayCheckBounds, hend]

theorem Holds.bounds_one_iff {index : Nat} :
    arrayCheckBounds a index 1 = false ↔ index ≤ a.eEnd := by
  rw [arrayCheckBounds, h.end_fits, decide_eq_false_iff_not]
  omega

theorem Holds.block (hall : 0 < a.eAll) : a.data = some (Rows.flat rows) := by
  rw [h.data, if_neg (Nat.ne_of_gt hall)]

/-- A pointer to a row of the block. -/
theorem Holds.ptr {i : Nat} (hi : i < a.eAll) : a.ptr (sizeT (i * a.eSize)) = some (i * k) := by
  rw [h.offset_fits (Nat.le_of_lt hi), Arr.ptr, h.block (Nat.zero_lt_of_lt hi), h.size]
  rfl

theorem Holds.arrayGet {index : Nat} (hi : index < a.eEnd) :
    arrayGet a index = some (index * k) := by
  have hall : index < a.eAll := by rcases h.room with hlt | ⟨-, hend⟩ <;> omega
  rw [Raw.arrayGet, h.bounds_iff.mpr hi, h.ptr hall]
  rfl

theorem Holds.arrayGet_out {index : Nat} (hi : a.eEnd ≤ index) : Raw.arrayGet a index = none := by
  have hbounds : arrayCheckBounds a index 0 = true := by
    rw [← Bool.not_eq_false, h.bounds_iff]
    omega
  rw [Raw.arrayGet, hbounds]
  rfl

/-- The array with other rows in its block. -/
theorem Holds.withRows {rows' : List (Row UInt8 k)} (hlen : rows'.length = rows.length)
    (hall : 0 < a.eAll) : Holds rows' { a with data := some (Rows.flat rows') } where
  size := h.size
  length := hlen.trans h.length
  data := by rw [if_neg (by simp only; omega)]
  room := h.room
  inc_pos := h.inc_pos
  chunk := h.chunk
  count_fits := h.count_fits
  bytes_fit := h.bytes_fit

/-- The array with another number of rows in use. -/
theorem Holds.withEnd {n : Nat} (hn : n < a.eAll) : Holds rows { a with eEnd := n } where
  size := h.size
  length := h.length
  data := h.data
  room := .inl hn
  inc_pos := h.inc_pos
  chunk := h.chunk
  count_fits := h.count_fits
  bytes_fit := h.bytes_fit

/-- A row written through its pointer. -/
theorem Holds.store {i : Nat} (hi : i < a.eAll) (e : Row UInt8 k) :
    a.store (i * k) e.val = some { a with data := some (Rows.flat (rows.set i e)) } := by
  have hrow := Block.store_singleton (show i < rows.length by rw [h.length]; exact hi) e
  have hbytes := Rows.store_flat hrow
  rw [Rows.flat_singleton] at hbytes
  rw [Arr.store, h.block (Nat.zero_lt_of_lt hi)]
  simp [hbytes]

theorem Holds.load (e : Row UInt8 k) : Block.load e.val 0 a.eSize = some e.val := by
  have hlen : e.val.length = a.eSize := by rw [e.property, h.size]
  rw [Block.load_eq (by omega), List.drop_zero, ← hlen, List.take_length]

theorem Holds.fillNew {i : Nat} (hi : i < a.eAll) (e : Row UInt8 k) :
    Raw.fillNew e.val (some (i * k), a) =
      some (some (i * k), { a with data := some (Rows.flat (rows.set i e)) }) := by
  simp [Raw.fillNew, h.load e, h.store hi e]

/-- A shift of rows is a move of rows, also when there are none to move. -/
theorem Holds.shift {rows' : List (Row UInt8 k)} {toMove dst src : Nat} (hall : 0 < a.eAll)
    (hn : toMove ≤ a.eAll) (hrows : Block.move rows dst src toMove = some rows') :
    a.shift toMove (dst * k) (src * k) = some { a with data := some (Rows.flat rows') } := by
  obtain rfl := h.size
  unfold Arr.shift
  split
  · rw [h.offset_fits hn, Arr.move, h.block hall]
    simp [Rows.move_flat hrows]
  · next hzero =>
    rw [Nat.eq_zero_of_not_pos hzero] at hrows
    rw [← Block.move_zero_eq hrows, ← h.block hall]

/-- A row deleted: those after it move down, and the last one stays behind. -/
theorem Holds.arrayDelete {at' : Nat} (hat : at' < a.eEnd) :
    ∃ rows' : List (Row UInt8 k), Raw.arrayDelete a at' =
        some (a.eEnd - 1, { a with eEnd := a.eEnd - 1, data := some (Rows.flat rows') }) ∧
      rows'.length = rows.length ∧ rows'.take (a.eEnd - 1) = (rows.take a.eEnd).eraseIdx at' ∧
      rows'.drop (a.eEnd - 1) = rows.drop (a.eEnd - 1) := by
  obtain rfl := h.size
  have hend : a.eEnd < a.eAll := by rcases h.room with hlt | ⟨-, hend⟩ <;> omega
  have hpos : 0 < a.eAll := Nat.zero_lt_of_lt hend
  have hlower : Holds rows { a with eEnd := a.eEnd - 1 } := h.withEnd (by omega)
  have hlen : a.eEnd < rows.length := by rw [h.length]; exact hend
  rw [Raw.arrayDelete, h.bounds_iff.mpr hat, List.eraseIdx_eq_take_drop_succ]
  by_cases hlast : at' < a.eEnd - 1
  · obtain ⟨rows', hmove, hlen', htake⟩ := @Block.close_gap _ rows a.eEnd at' (at' + 1) (by omega)
      (by omega) (by omega)
    have hn : a.eEnd - (at' + 1) = a.eEnd - 1 - at' := by omega
    rw [hn] at hmove htake
    have hbytes := hlower.shift hpos (by simp only; omega) hmove
    rw [Nat.add_mul, Nat.one_mul] at hbytes
    refine ⟨rows', ?_, hlen', ?_, Block.drop_of_move hmove (by omega)⟩
    · simp only [Bool.false_eq_true, if_false, hlast, if_true, hlower.arrayGet hlast,
        Option.bind_eq_bind, Option.bind_some, hbytes]
      rfl
    · rw [← htake]
      congr 1
      omega
  · -- the last row is only no longer in use
    have hat' : at' = a.eEnd - 1 := by omega
    refine ⟨rows, ?_, rfl, ?_, rfl⟩
    · simp [hlast, ← h.block hpos]
    · rw [hat', List.take_take, List.drop_of_length_le (by rw [List.length_take]; omega),
        List.append_nil, Nat.min_eq_left (by omega)]

theorem Holds.arrayDelete_out {at' : Nat} (hat : a.eEnd ≤ at') :
    Raw.arrayDelete a at' = some (0xffffffffffffffff, a) := by
  have hbounds : arrayCheckBounds a at' 0 = true := by
    rw [← Bool.not_eq_false, h.bounds_iff]
    omega
  rw [Raw.arrayDelete, hbounds]
  rfl

/-- A new row in use, whatever it holds. -/
theorem Holds.arrayNew {m : Heap} (hfits : a.full → a.Fits) (hm : a.full → m.grants = true) :
    ∃ n a', Raw.arrayNew m a = some (some (a.eEnd * k), a') ∧
      Holds (rows ++ List.replicate n (Row.fill k 0)) a' ∧ a'.eEnd = a.eEnd + 1 ∧
      a.eAll ≤ a'.eAll ∧ a'.eInc = a.eInc := by
  obtain ⟨n, a', hcheck, h', hend, hroom, hall, hinc⟩ :=
    h.makeRoom (m := m) (Nat.le_refl 1) hfits hm
  rw [hend] at hroom
  have hnew := h'.withEnd hroom
  have hsize := h'.end_fits
  rw [hend] at hsize
  refine ⟨n, _, ?_, hnew, rfl, hall, hinc⟩
  simp only [Raw.arrayNew, hcheck, Option.bind_eq_bind, Option.bind_some, hend, hsize,
    hnew.arrayGet (Nat.lt_succ_self a.eEnd)]
  rfl

/-- A cleared row in use, before the one at its index. -/
theorem Holds.arrayNewAt {m : Heap} {index : Nat} (hi : index ≤ a.eEnd) (hfits : a.full → a.Fits)
    (hm : a.full → m.grants = true) :
    ∃ (n : Nat) (rows' : List (Row UInt8 k)) (a' : Arr),
      Raw.arrayNewAt m a index = some (some (index * k), a') ∧ Holds rows' a' ∧
      a'.eEnd = a.eEnd + 1 ∧ a.eAll ≤ a'.eAll ∧ a'.eInc = a.eInc ∧
      rows'.take (a.eEnd + 1) = Block.insertAt (rows.take a.eEnd) index [Row.fill k 0] ∧
      rows'.drop (a.eEnd + 1) =
        (rows ++ List.replicate n (Row.fill k 0)).drop (a.eEnd + 1) := by
  obtain ⟨n, a₀, hcheck, h₀, hend, hroom, hall, hinc⟩ :=
    h.makeRoom (m := m) (Nat.le_refl 1) hfits hm
  have htake : (rows ++ List.replicate n (Row.fill k 0)).take a.eEnd = rows.take a.eEnd :=
    List.take_append_of_le_length h.end_le
  generalize hrows₀ : rows ++ List.replicate n (Row.fill k 0) = rows₀ at h₀ htake
  obtain rfl := h₀.size
  rw [hend] at hroom
  have hlen : a.eEnd + 1 < rows₀.length := by
    rw [h₀.length]
    exact hroom
  obtain ⟨rows₁, rows₂, hmove, hstore, hlen₂, htake₂, hdrop⟩ :=
    @Block.open_gap _ rows₀ [Row.fill a₀.eSize 0] a.eEnd index hi (by
      rw [List.length_singleton]
      omega)
  rw [List.length_singleton] at hmove htake₂ hdrop
  have hlen₁ := Block.length_of_move hmove
  have h₁ : Holds rows₁ { a₀ with data := some (Rows.flat rows₁), eEnd := a.eEnd + 1 } :=
    (h₀.withRows hlen₁ (by omega)).withEnd hroom
  have hrows₂ : rows₁.set index (Row.fill a₀.eSize 0) = rows₂ := by
    rw [Block.store_singleton (by omega), Option.some.injEq] at hstore
    exact hstore
  have hmoved := h₀.shift (by omega) (by omega) hmove
  rw [Nat.add_mul, Nat.one_mul] at hmoved
  have hsize := h₀.end_fits
  rw [hend] at hsize
  have hclear := h₁.store (i := index) (by simp only; omega) (Row.fill a₀.eSize 0)
  rw [hrows₂] at hclear
  refine ⟨n, rows₂, { a₀ with data := some (Rows.flat rows₂), eEnd := a.eEnd + 1 }, ?_,
    (h₀.withRows hlen₂ (by omega)).withEnd hroom, rfl, hall, hinc, ?_, hrows₀ ▸ hdrop⟩
  · simp only [Raw.arrayNewAt, h.bounds_one_iff.mpr hi, Bool.false_eq_true, if_false, hcheck,
      Option.bind_eq_bind, Option.bind_some, h₀.ptr (show index < a₀.eAll by omega), hend, hmoved,
      hsize]
    exact Option.bind_eq_some_iff.mpr ⟨_, hclear, rfl⟩
  · rw [htake₂, htake]

end Operations

/-! ## The array of elements -/

instance : Inhabited (Row UInt8 k) := ⟨Row.fill k 0⟩

/-- The elements of an array are the rows of its block. -/
structure Views (b : Hdmi2usbd.Arr (Row UInt8 k)) (a : Arr) : Prop where
  holds : Holds b.data a
  all : b.eAll = a.eAll
  ends : b.eEnd = a.eEnd
  inc : b.eInc = a.eInc

/-- Below the wrap the growth loop is the one over numbers. -/
theorem growCount_eq {inc need : Nat} (hwrap : need + inc < 0x10000000000000000)
    (fuel count : Nat) :
    growCount inc need fuel count = Hdmi2usbd.growCount inc need fuel count := by
  induction fuel generalizing count with
  | zero => rfl
  | succ fuel ih =>
    rw [growCount, Hdmi2usbd.growCount]
    split
    · rw [sizeT_of_lt (by omega), ih]
    · rfl

section Views

variable {b : Hdmi2usbd.Arr (Row UInt8 k)} {a : Arr} {m : Heap} (h : Views b a)
  (hall : 0 < a.eAll) (hfits : a.full → a.Fits) (hm : a.full → m.grants = true)
include h hall hfits hm

theorem Views.arrayCheckAlloc : ∃ a' b', Raw.arrayCheckAlloc m a 1 = some (0, a') ∧
    Hdmi2usbd.arrayCheckAlloc true b 1 = some (0, b') ∧ Views b' a' ∧ b'.eEnd = b.eEnd ∧
    a'.eEnd + 1 < a'.eAll := by
  have hgrow : Hdmi2usbd.growCount b.eInc (b.eEnd + 1) (b.eEnd + 1 + 2) a.eAll =
      some (if a.full then a.grown else a.eAll) := by
    rw [h.inc, h.ends]
    by_cases hfull : a.full
    · have hcount := (hfits hfull).1
      unfold Arr.grown at hcount
      have hend : a.eEnd < a.eAll := by rcases h.holds.room with hlt | ⟨hnone, -⟩ <;> omega
      rw [← growCount_eq (by omega), h.holds.growCount hfits (by omega)]
    · rw [if_neg hfull, Hdmi2usbd.growCount, if_neg (by exact hfull)]
  by_cases hfull : a.full
  · obtain ⟨hmore, hroom⟩ := h.holds.lt_grown hfull
    have hcheck := h.holds.arrayCheckAlloc_granted (Nat.le_refl 1) hfull (hfits hfull) (hm hfull)
    refine ⟨_, { b with
      eAll := a.grown
      data := b.data ++ List.replicate (a.grown - a.eAll) default
      block := b.block + 1 }, hcheck, ?_, ?_, rfl, hroom⟩
    · simp [Hdmi2usbd.arrayCheckAlloc, hgrow, hfull, h.all, hmore]
    · exact ⟨h.holds.grow hfull (hfits hfull), rfl, h.ends, h.inc⟩
  · refine ⟨a, b, h.holds.arrayCheckAlloc_free (Nat.le_refl 1) hfull, ?_, h,
      rfl, Nat.lt_of_not_ge hfull⟩
    simp [Hdmi2usbd.arrayCheckAlloc, hgrow, hfull, h.all]

/-- `array_new` on the bytes is `array_new` on the elements, at the pointer of the element. -/
theorem Views.arrayNew : ∃ a' b', Raw.arrayNew m a = some (some (b.eEnd * k), a') ∧
    Hdmi2usbd.arrayNew true b = some (b.eEnd, b') ∧ Views b' a' := by
  obtain ⟨a', b', hraw, helem, h', hend, hroom⟩ := h.arrayCheckAlloc hall hfits hm
  have hindex : a'.eEnd = b.eEnd := h'.ends.symm.trans hend
  have hsize := h'.holds.end_fits
  rw [hindex] at hroom hsize
  have hnew : Holds b'.data { a' with eEnd := b.eEnd + 1 } := h'.holds.withEnd hroom
  refine ⟨_, { b' with eEnd := b.eEnd + 1 }, ?_, ?_, ⟨hnew, h'.all, rfl, h'.inc⟩⟩
  · simp only [Raw.arrayNew, hraw, Option.bind_eq_bind, Option.bind_some, hindex, hsize,
      hnew.arrayGet (Nat.lt_succ_self b.eEnd)]
    rfl
  · simp [Hdmi2usbd.arrayNew, helem, hend]

end Views

end Hdmi2usbd.Raw
