import Hdmi2usbd.ArrayRuns

/-!
# ArrayIndex — from an address back to an index

`array_index` is to undo `array_get`. It takes an address up to the end of the live elements, and
the end is one too many: the address right behind the last element, which in an empty array is that
of the block, gives the index `e_end`. At every other address it does what it should
(`indexInverts_iff`). That the elements lie at an address is asked of the memory; those of an array
that is intact lie in its block (`Represents.liesAt`).
-/

namespace Hdmi2usbd.Raw

open Rows (Row)

variable {k : Nat}

/-- `(size_t)-1`. -/
def noIndex : Nat := 0xffffffffffffffff

/-- `array_index`, with `data` for the address of the block; `none` is a division by 0. -/
def arrayIndex (data : Nat) (a : Arr) (ptr : Nat) : Option Nat :=
  if ptr < data ∨ ptr > sizeT (data + sizeT (a.eSize * a.eEnd)) then some noIndex
  else if a.eSize = 0 then none
  else some ((ptr - data) / a.eSize)

/-- The address that a pointer into the block stands for. -/
def address (data : Nat) : Option Nat → Nat
  | none => 0
  | some offset => sizeT (data + offset)

/-- The arrays with elements of `k` bytes that calls lead to, whatever the heap answers. -/
inductive Reachable (k : Nat) : Arr → Prop
  | init {m : Heap} {initialCount : Nat} {rc : Int} {a : Arr}
      (h : arrayInit m k initialCount = some (rc, a)) : Reachable k a
  | call {a a' : Arr} {op : ArrayOp k} {m : Heap} {r : Result} (h : Reachable k a)
      (hcall : op.apply m a = some (r, a')) : Reachable k a'

/-- The live elements lie in the address space from `data` on, which is 0 without a block. -/
structure Arr.LiesAt (a : Arr) (data : Nat) : Prop where
  null : a.data = none → data = 0
  fits : data + a.eSize * a.eEnd < 0xffffffffffffffff

/-- An address among the `e_size` bytes of an element. -/
def InElement (data : Nat) (a : Arr) (i ptr : Nat) : Prop :=
  address data (arrayGet a i) ≤ ptr ∧ ptr < address data (arrayGet a i) + a.eSize

/-- What `array_index` should do at an address. -/
structure IndexInverts (data : Nat) (a : Arr) (ptr : Nat) : Prop where
  live : ∀ i, (arrayIndex data a ptr = some i ∧ i < a.eEnd) ↔ (i < a.eEnd ∧ InElement data a i ptr)
  inverse : ∀ i, i < a.eEnd → ptr = address data (arrayGet a i) → arrayIndex data a ptr = some i
  outside : (∀ i, i < a.eEnd → ¬ InElement data a i ptr) → arrayIndex data a ptr = some noIndex
  accepted : ∀ i, arrayIndex data a ptr = some i → i ≠ noIndex → arrayCheckBounds a i 0 = false

/-! ## The size of an element stays -/

theorem arrayCheckAlloc_eSize {m : Heap} {a a' : Arr} {elements : Nat} {rc : Int}
    (h : arrayCheckAlloc m a elements = some (rc, a')) : a'.eSize = a.eSize := by
  obtain ⟨count, -, hgrown⟩ := Option.bind_eq_some_iff.mp h
  split at hgrown
  · split at hgrown
    · cases hgrown
      rfl
    · obtain ⟨buf, -, hset⟩ := Option.bind_eq_some_iff.mp hgrown
      cases hset
      rfl
  · cases hgrown
    rfl

theorem Arr.store_eSize {a a' : Arr} {ptr : Nat} {bytes : List UInt8}
    (h : a.store ptr bytes = some a') : a'.eSize = a.eSize := by
  obtain ⟨block, -, hstore⟩ := Option.bind_eq_some_iff.mp h
  obtain ⟨block', -, hset⟩ := Option.bind_eq_some_iff.mp hstore
  cases hset
  rfl

theorem Arr.shift_eSize {a a' : Arr} {toMove dst src : Nat}
    (h : a.shift toMove dst src = some a') : a'.eSize = a.eSize := by
  unfold Arr.shift at h
  split at h
  · obtain ⟨block, -, hmove⟩ := Option.bind_eq_some_iff.mp h
    obtain ⟨block', -, hset⟩ := Option.bind_eq_some_iff.mp hmove
    cases hset
    rfl
  · cases h
    rfl

theorem fillNew_eSize {element : List UInt8} {r r' : Option Nat × Arr}
    (h : fillNew element r = some r') : r'.2.eSize = r.2.eSize := by
  obtain ⟨ptr, a⟩ := r
  cases ptr with
  | none =>
    cases h
    rfl
  | some ptr =>
    obtain ⟨bytes, -, hstore⟩ := Option.bind_eq_some_iff.mp h
    obtain ⟨a', hstored, hpure⟩ := Option.bind_eq_some_iff.mp hstore
    cases hpure
    exact Arr.store_eSize hstored

theorem arrayNew_eSize {m : Heap} {a : Arr} {r : Option Nat × Arr} (h : arrayNew m a = some r) :
    r.2.eSize = a.eSize := by
  obtain ⟨⟨rc, a₁⟩, hcheck, hpure⟩ := Option.bind_eq_some_iff.mp h
  have hsize := arrayCheckAlloc_eSize hcheck
  cases hpure
  exact hsize

theorem arrayNewAt_eSize {m : Heap} {a : Arr} {index : Nat} {r : Option Nat × Arr}
    (h : arrayNewAt m a index = some r) : r.2.eSize = a.eSize := by
  unfold arrayNewAt at h
  split at h
  · cases h
    rfl
  · obtain ⟨⟨rc, a₁⟩, hcheck, hnew⟩ := Option.bind_eq_some_iff.mp h
    have hsize := arrayCheckAlloc_eSize hcheck
    dsimp only at hnew
    split at hnew
    · cases hnew
      exact hsize
    · obtain ⟨a₂, hshift, hclear⟩ := Option.bind_eq_some_iff.mp hnew
      obtain ⟨a₃, hstore, hpure⟩ := Option.bind_eq_some_iff.mp hclear
      cases hpure
      exact (Arr.store_eSize hstore).trans ((Arr.shift_eSize hshift).trans hsize)

theorem arrayPut_eSize {a : Arr} {element : List UInt8} {at' : Nat} {r : Option Nat × Arr}
    (h : arrayPut a element at' = some r) : r.2.eSize = a.eSize := by
  unfold arrayPut at h
  split at h
  · cases h
    rfl
  · obtain ⟨bytes, -, hstore⟩ := Option.bind_eq_some_iff.mp h
    obtain ⟨a₁, hstored, hpure⟩ := Option.bind_eq_some_iff.mp hstore
    cases hpure
    exact Arr.store_eSize hstored

theorem arrayDelete_eSize {a : Arr} {at' : Nat} {r : Nat × Arr} (h : arrayDelete a at' = some r) :
    r.2.eSize = a.eSize := by
  unfold arrayDelete at h
  split at h
  · cases h
    rfl
  · dsimp only at h
    split at h
    · obtain ⟨ptr, -, hmove⟩ := Option.bind_eq_some_iff.mp h
      obtain ⟨a₁, hshift, hpure⟩ := Option.bind_eq_some_iff.mp hmove
      have hsize := Arr.shift_eSize hshift
      cases hpure
      exact hsize
    · cases h
      rfl

theorem ArrayOp.apply_eSize {op : ArrayOp k} {m : Heap} {a a' : Arr} {r : Result}
    (h : op.apply m a = some (r, a')) : a'.eSize = a.eSize := by
  cases op with
  | new =>
    obtain ⟨q, hnew, heq⟩ := Option.map_eq_some_iff.mp h
    cases heq
    exact arrayNew_eSize hnew
  | newAt index =>
    obtain ⟨q, hnew, heq⟩ := Option.map_eq_some_iff.mp h
    cases heq
    exact arrayNewAt_eSize hnew
  | append e =>
    obtain ⟨q, happend, heq⟩ := Option.map_eq_some_iff.mp h
    obtain ⟨q₁, hnew, hfill⟩ := Option.bind_eq_some_iff.mp happend
    -- the bytes of the element are written into what `array_new` returns
    cases heq
    exact (fillNew_eSize hfill).trans (arrayNew_eSize hnew)
  | insert e at' =>
    obtain ⟨q, hinsert, heq⟩ := Option.map_eq_some_iff.mp h
    obtain ⟨q₁, hnew, hfill⟩ := Option.bind_eq_some_iff.mp hinsert
    cases heq
    exact (fillNew_eSize hfill).trans (arrayNewAt_eSize hnew)
  | put e at' =>
    obtain ⟨q, hput, heq⟩ := Option.map_eq_some_iff.mp h
    cases heq
    exact arrayPut_eSize hput
  | delete at' =>
    obtain ⟨q, hdelete, heq⟩ := Option.map_eq_some_iff.mp h
    cases heq
    exact arrayDelete_eSize hdelete
  | get index =>
    cases h
    rfl

theorem Reachable.eSize {a : Arr} (h : Reachable k a) : a.eSize = k := by
  induction h with
  | init h => exact arrayCheckAlloc_eSize h
  | call _ hcall ih => exact (ArrayOp.apply_eSize hcall).trans ih

/-! ## The addresses of the elements -/

section Addresses

variable {data ptr : Nat} {a : Arr} (h : a.LiesAt data) (hsize : 0 < a.eSize)
include h

theorem Arr.LiesAt.offset_fits {i : Nat} (hi : i ≤ a.eEnd) :
    data + i * a.eSize ≤ data + a.eSize * a.eEnd ∧ sizeT (i * a.eSize) = i * a.eSize ∧
      sizeT (data + i * a.eSize) = data + i * a.eSize := by
  have hle : i * a.eSize ≤ a.eSize * a.eEnd := by
    rw [Nat.mul_comm]
    exact Nat.mul_le_mul_left a.eSize hi
  have hfits := h.fits
  exact ⟨by omega, sizeT_of_lt (by omega), sizeT_of_lt (by omega)⟩

include hsize

theorem Arr.LiesAt.count_lt : a.eEnd < noIndex := by
  have hle := Nat.le_mul_of_pos_left a.eEnd hsize
  have hfits := h.fits
  unfold noIndex
  omega

theorem Arr.LiesAt.bounds_iff {i : Nat} : arrayCheckBounds a i 0 = false ↔ i < a.eEnd := by
  have hcount := h.count_lt hsize
  unfold noIndex at hcount
  rw [arrayCheckBounds, Nat.add_zero, sizeT_of_lt (by omega), decide_eq_false_iff_not, ge_iff_le,
    Nat.not_le]

theorem Arr.LiesAt.address_get {i : Nat} (hi : i < a.eEnd) :
    address data (arrayGet a i) = data + i * a.eSize := by
  obtain ⟨-, hoffset, haddress⟩ := h.offset_fits (Nat.le_of_lt hi)
  rw [arrayGet, (h.bounds_iff hsize).mpr hi, hoffset]
  simp only [Bool.false_eq_true, if_false, Arr.ptr]
  split
  · next hnull =>
    -- without a block the element 0 is at `NULL`
    rw [Option.isNone_iff_eq_none] at hnull
    rw [h.null hnull.1, hnull.2]
    rfl
  · exact haddress

theorem Arr.LiesAt.inElement_iff {i : Nat} (hi : i < a.eEnd) :
    InElement data a i ptr ↔ data ≤ ptr ∧ (ptr - data) / a.eSize = i := by
  rw [InElement, h.address_get hsize hi]
  constructor
  · rintro ⟨hle, hlt⟩
    refine ⟨by omega, ?_⟩
    rw [Nat.div_eq_iff hsize]
    omega
  · rintro ⟨hle, hdiv⟩
    rw [Nat.div_eq_iff hsize] at hdiv
    omega

theorem Arr.LiesAt.arrayIndex_eq : arrayIndex data a ptr =
    some (if ptr < data ∨ data + a.eSize * a.eEnd < ptr then noIndex
      else (ptr - data) / a.eSize) := by
  obtain ⟨-, hoffset, hend⟩ := h.offset_fits (Nat.le_refl a.eEnd)
  rw [Nat.mul_comm] at hoffset hend
  rw [arrayIndex, hoffset, hend]
  split
  · rfl
  · rw [if_neg (Nat.pos_iff_ne_zero.mp hsize)]

/-- The address behind the elements gives their count. -/
theorem Arr.LiesAt.arrayIndex_end :
    arrayIndex data a (data + a.eSize * a.eEnd) = some a.eEnd := by
  rw [h.arrayIndex_eq hsize, if_neg (by omega), Nat.add_sub_cancel_left,
    Nat.mul_div_cancel_left _ hsize]

/-- Elsewhere an index is that of the element there. -/
theorem Arr.LiesAt.arrayIndex_iff (hend : ptr ≠ data + a.eSize * a.eEnd) (i : Nat) :
    (arrayIndex data a ptr = some i ∧ i ≠ noIndex) ↔ (i < a.eEnd ∧ InElement data a i ptr) := by
  have hcount := h.count_lt hsize
  rw [h.arrayIndex_eq hsize, Option.some.injEq]
  constructor
  · rintro ⟨hindex, hne⟩
    split at hindex
    · exact absurd hindex.symm hne
    · next hin =>
      have hi : i < a.eEnd := by
        rw [← hindex, Nat.div_lt_iff_lt_mul hsize, Nat.mul_comm]
        omega
      exact ⟨hi, (h.inElement_iff hsize hi).mpr ⟨by omega, hindex⟩⟩
  · rintro ⟨hi, hin⟩
    obtain ⟨hle, hindex⟩ := (h.inElement_iff hsize hi).mp hin
    have hlt : ptr - data < a.eEnd * a.eSize := by
      rw [← Nat.div_lt_iff_lt_mul hsize, hindex]
      exact hi
    rw [Nat.mul_comm] at hlt
    rw [if_neg (by omega)]
    exact ⟨hindex, by omega⟩

end Addresses

/-! ## The index of an address -/

/-- In an array that is intact, the elements lie in its block. -/
theorem Represents.liesAt {xs : List (Row UInt8 k)} {a : Arr} (h : Represents xs a) (hk : 0 < k)
    {data : Nat} (hnull : a.data = none → data = 0)
    (hblock : ∀ block ∈ a.data, data + block.length < 0x10000000000000000) : a.LiesAt data := by
  obtain ⟨rows, hrows, -⟩ := h
  refine ⟨hnull, ?_⟩
  rw [hrows.size]
  rcases hrows.room with hlt | ⟨hall, hend⟩
  · have hdata := hrows.block (Nat.zero_lt_of_lt hlt)
    have hmemory := hblock _ hdata
    rw [Rows.length_flat, hrows.length] at hmemory
    have hspare := Nat.mul_lt_mul_of_pos_right hlt hk
    rw [Nat.mul_comm]
    omega
  · have hdata : a.data = none := by rw [hrows.data, if_pos hall]
    rw [hend, hnull hdata, Nat.mul_zero]
    decide

/-- `array_index` does what it should exactly where the address is not the one right behind the
live elements. -/
theorem indexInverts_iff (hk : 0 < k) {a : Arr} (hreach : Reachable k a) {data : Nat}
    (hlies : a.LiesAt data) (ptr : Nat) :
    IndexInverts data a ptr ↔ ptr ≠ data + a.eSize * a.eEnd := by
  have hsize : 0 < a.eSize := by
    rw [hreach.eSize]
    exact hk
  have hcount := hlies.count_lt hsize
  constructor
  · rintro hinverts rfl
    have hbounds := hinverts.accepted _ (hlies.arrayIndex_end hsize) (Nat.ne_of_lt hcount)
    exact Nat.lt_irrefl _ ((hlies.bounds_iff hsize).mp hbounds)
  · intro hend
    have hiff := hlies.arrayIndex_iff hsize hend
    refine ⟨?_, ?_, ?_, ?_⟩
    · intro i
      rw [← hiff]
      constructor
      · rintro ⟨hindex, hi⟩
        exact ⟨hindex, by omega⟩
      · rintro ⟨hindex, hne⟩
        exact ⟨hindex, ((hiff i).mp ⟨hindex, hne⟩).1⟩
    · intro i hi hptr
      refine ((hiff i).mpr ⟨hi, ?_⟩).1
      rw [InElement, ← hptr]
      omega
    · intro hnone
      obtain ⟨i, hindex⟩ : ∃ i, arrayIndex data a ptr = some i := ⟨_, hlies.arrayIndex_eq hsize⟩
      by_cases hno : i = noIndex
      · rw [hindex, hno]
      · obtain ⟨hi, hin⟩ := (hiff i).mp ⟨hindex, hno⟩
        exact absurd hin (hnone i hi)
    · intro i hindex hne
      exact (hlies.bounds_iff hsize).mpr ((hiff i).mp ⟨hindex, hne⟩).1

/-- One element of one byte, which is 7. -/
def oneByte : Arr := { eSize := 1, eAll := 2, eEnd := 1, eInc := 2, data := some [7, 0] }

theorem oneByte_reachable : Reachable 1 oneByte := by
  have hinit : Reachable 1 { eSize := 1, eAll := 2, eEnd := 0, eInc := 2, data := some [0, 0] } :=
    .init (show arrayInit granting 1 2 = some (0, _) by decide)
  exact .call hinit (show (ArrayOp.append (byte 7)).apply granting _ =
    some (.element (some 0), oneByte) by decide)

theorem indexInverts_oneByte : IndexInverts 0x1000 oneByte 0x1000 :=
  (indexInverts_iff (by decide) oneByte_reachable ⟨by decide, by decide⟩ 0x1000).mpr (by decide)

/-- The byte behind the only element gets the index 1. -/
theorem end_has_index :
    ¬ ∀ (k : Nat) (a : Arr) (data ptr : Nat), 0 < k → Reachable k a → a.LiesAt data →
      IndexInverts data a ptr := by
  intro h
  have hinverts := h 1 oneByte 0x1000 0x1001 (by decide) oneByte_reachable ⟨by decide, by decide⟩
  have hbounds := hinverts.accepted 1 (by decide) (by decide)
  revert hbounds
  decide

end Hdmi2usbd.Raw
