import Mathlib.Data.List.Basic
import Hdmi2usbd.Lib.Block
import Hdmi2usbd.Lib.Chunks
import Hdmi2usbd.Lib.Lines

/-!
# StringStore — the growing byte store of `stringstore.c`

A store is a block of `ss_size` bytes of which the first `ss_used` are in use; it
grows by chunks of `ss_inc`. A copy that leaves its block is `none`, and so is a
growth loop that does not end. Sizes are `size_t` and wrap, and `calloc` may refuse:
every call runs on a `Memory`. In one that is endless neither happens, and in a call
whose sums and blocks fit the two do the same (`growIncrement_eq`).

`LineBuffer` is the store with its invariant as a field, as the line buffer of a
connection uses it: append at the end, find the next line from the front, remove
it. The memory of the connections is taken to be endless. What `stringstore_next`
finds is the first line of the contents (`stringstoreNext_spec`).
-/

namespace Hdmi2usbd

/-- `struct stringstore_s`. -/
structure StringStore where
  ssSize : Nat
  ssUsed : Nat
  ssInc : Nat
  ssBuff : List UInt8
deriving DecidableEq, Repr

/-! ## Memory -/

/-- As many bytes as an object can have: `PTRDIFF_MAX`. -/
def ptrdiffMax : Nat := 0x7fffffffffffffff

/-- The memory that a call runs on: the machine's, with the answer of its `calloc`, or one without
end. -/
inductive Memory
  | machine (grants : Bool)
  | endless
deriving DecidableEq, Repr

namespace Memory

/-- A value as a `size_t` holds it. -/
def sizeT : Memory → Nat → Nat
  | .machine _, n => n % 0x10000000000000000
  | .endless, n => n

/-- Whether a block is granted; the machine has none for more bytes than an object can have. -/
def grants : Memory → Nat → Bool
  | .machine grants, size => grants && size ≤ ptrdiffMax
  | .endless, _ => true

/-- A value that a `size_t` can hold. -/
def Fits : Memory → Nat → Prop
  | .machine _, n => n < 0x10000000000000000
  | .endless, _ => True

/-- A block of no bytes is as good as `NULL`. -/
def Grants (m : Memory) (size : Nat) : Prop := size = 0 ∨ m.grants size

instance (m : Memory) (size : Nat) : Decidable (m.Grants size) := inferInstanceAs (Decidable (_ ∨ _))

/-- After as many turns of a loop that only adds, its sum has been seen before. -/
def turns : Memory → Nat → Nat
  | .machine _, _ => 0x10000000000000000
  | .endless, need => need + 1

@[simp] theorem sizeT_endless (n : Nat) : endless.sizeT n = n := rfl

@[simp] theorem grants_endless (size : Nat) : endless.Grants size := .inr rfl

theorem sizeT_le (m : Memory) (n : Nat) : m.sizeT n ≤ n := by
  cases m with
  | machine grants => exact Nat.mod_le _ _
  | endless => exact Nat.le_refl _

theorem Fits.sizeT {m : Memory} {n k : Nat} (h : m.Fits n) (hk : k ≤ n) : m.sizeT k = k := by
  cases m with
  | machine grants => exact Nat.mod_eq_of_lt (Nat.lt_of_le_of_lt hk h)
  | endless => rfl

theorem Fits.mono {m : Memory} {n k : Nat} (h : m.Fits n) (hk : k ≤ n) : m.Fits k := by
  cases m with
  | machine grants => exact Nat.lt_of_le_of_lt hk h
  | endless => exact h

theorem Fits.le_turns {m : Memory} {need : Nat} (h : m.Fits need) : need ≤ m.turns need := by
  cases m with
  | machine grants => exact Nat.le_of_lt h
  | endless => exact Nat.le_succ _

theorem turns_pos (m : Memory) (need : Nat) : 0 < m.turns need := by
  cases m with
  | machine grants => exact Nat.succ_pos _
  | endless => exact Nat.succ_pos _

end Memory

/-- `calloc(1, size)`; `NULL` points to no bytes. -/
def calloc (m : Memory) (size : Nat) : List UInt8 :=
  if m.grants size then List.replicate size 0 else []

theorem length_calloc {m : Memory} {size : Nat} :
    (calloc m size).length = size ↔ m.Grants size := by
  unfold calloc Memory.Grants
  split
  · next hgrants => simp [hgrants]
  · next hgrants => simp [hgrants, eq_comm]

theorem length_calloc_le (m : Memory) (size : Nat) : (calloc m size).length ≤ size := by
  unfold calloc
  split
  · rw [List.length_replicate]
  · exact Nat.zero_le _

/-! ## The operations -/

def strstoreAlloc : Nat := 0x5a1dc51

def strstoreSize : Nat := 2048

/-- `SS_END`, which is also `SS_ALL`: `(size_t)-1`. -/
def ssEnd : Nat := 0xffffffffffffffff

def ssAll : Nat := 0xffffffffffffffff

def stringstoreInitN (m : Memory) (size : Nat) : StringStore where
  ssUsed := 0
  ssInc := if size ≠ 0 then size else strstoreAlloc
  ssSize := if size ≠ 0 then size else strstoreAlloc
  ssBuff := calloc m size

def stringstoreInit (m : Memory) : StringStore := stringstoreInitN m strstoreSize

abbrev stringstoreLength (p : StringStore) : Nat := p.ssUsed

abbrev stringstoreCapacity (p : StringStore) : Nat := p.ssSize

/-- Resize the block, never below the bytes in use. The result of `calloc` is not looked at. -/
def strstoreResize (m : Memory) (p : StringStore) (toLength : Nat) : Option (Nat × StringStore) :=
  let toLength := max toLength (stringstoreLength p)
  if toLength = stringstoreCapacity p then some (toLength, p)
  else
    (if toLength > 0 then
      (Block.load p.ssBuff 0 p.ssUsed).bind (Block.store (calloc m toLength) 0)
    else some (calloc m toLength)).map fun buff =>
      (toLength, { p with ssBuff := buff, ssSize := toLength })

def strstoreCompact (m : Memory) (p : StringStore) : Option (Nat × StringStore) :=
  strstoreResize m p 0

/-- The loop that adds `ss_inc` to the increment until `need` bytes fit. -/
def growIncrement (m : Memory) (cap inc need : Nat) : Nat → Nat → Option Nat
  | 0, _ => none
  | fuel + 1, increment =>
    if need > m.sizeT (cap + increment) then
      growIncrement m cap inc need fuel (m.sizeT (increment + inc))
    else some increment

/-- The test before the growth. -/
def StringStore.Grows (m : Memory) (p : StringStore) (length : Nat) : Prop :=
  m.sizeT (length + stringstoreLength p) > stringstoreCapacity p

instance (m : Memory) (p : StringStore) (length : Nat) : Decidable (p.Grows m length) :=
  inferInstanceAs (Decidable (_ > _))

/-- The increment that the loop ends with, if it does. -/
def StringStore.increment (m : Memory) (p : StringStore) (length : Nat) : Option Nat :=
  growIncrement m (stringstoreCapacity p) p.ssInc (m.sizeT (stringstoreLength p + length))
    (m.turns (stringstoreLength p + length)) p.ssInc

/-- Make room for `length` more bytes. -/
def strstoreGrow (m : Memory) (p : StringStore) (length : Nat) : Option StringStore :=
  if p.Grows m length then do
    let increment ← p.increment m length
    let (_, p) ← strstoreResize m p (m.sizeT (stringstoreCapacity p + increment))
    pure p
  else some p

/-- Store the first `length` bytes of `value` (`none` for `NULL`) at position `at'`. -/
def stringstoreStore (m : Memory) (p : StringStore) (value : Option (List UInt8))
    (length at' : Nat) : Option (Nat × StringStore) := do
  let p ← strstoreGrow m p length
  match value with
  | none => pure (0, p)
  | some value =>
    if length = 0 then pure (0, p)
    else if at' = ssEnd ∨ at' ≥ p.ssUsed then   -- append
      let src ← Block.load value 0 length
      let buff ← Block.store p.ssBuff p.ssUsed src
      pure (length, { p with ssBuff := buff, ssUsed := m.sizeT (p.ssUsed + length) })
    else                                        -- insert
      let buff ← Block.move p.ssBuff (at' + length) at' (p.ssUsed - at')
      let src ← Block.load value 0 length
      let buff ← Block.store buff at' src
      pure (length, { p with ssBuff := buff, ssUsed := m.sizeT (p.ssUsed + length) })

def stringstoreAppend (m : Memory) (p : StringStore) (value : Option (List UInt8))
    (length : Nat) : Option (Nat × StringStore) :=
  stringstoreStore m p value length ssEnd

/-- Whether the scan of `stringstore_next` stops at a byte: NUL always does. -/
def isDelim (delim : Option (List UInt8)) (ch : UInt8) : Bool :=
  ch == 0 || match delim with | none => false | some d => d.contains ch

/-- The scan loop: how many bytes it read, and whether it stopped at a delimiter. -/
def scanToken (delim : Option (List UInt8)) : List UInt8 → Nat × Bool
  | [] => (0, false)
  | ch :: rest =>
    if isDelim delim ch then (1, true)
    else ((scanToken delim rest).1 + 1, (scanToken delim rest).2)

/-- The next token from `offset`: its bytes (`none` for `NULL`), its length and
the new offset. -/
def stringstoreNext (p : StringStore) (offset : Nat) (delim : Option (List UInt8)) :
    Option (Option (List UInt8) × Nat × Nat) := do
  if offset < p.ssUsed then
    let bytes ← Block.load p.ssBuff offset (p.ssUsed - offset)
    let (size, foundEos) := scanToken delim bytes
    if delim.isNone || foundEos then pure (some (bytes.take size), size, offset + size)
    else pure (none, 0, offset)
  else pure (none, 0, offset)

def stringstoreNextstr (p : StringStore) (offset : Nat) :
    Option (Option (List UInt8) × Nat × Nat) :=
  stringstoreNext p offset (some [10])

/-- The loop of `stringstore_split` over the next `remaining` bytes: the count, and the block with
each terminator overwritten. -/
def splitLoop (delim : Option (List UInt8)) :
    (remaining offset : Nat) → Int32 → List UInt8 → Option (Int32 × List UInt8)
  | 0, _, stringcount, buff => some (stringcount, buff)
  | remaining + 1, offset, stringcount, buff => do
    let ch ← buff[offset]?
    if isDelim delim ch then
      splitLoop delim remaining (offset + 1) (stringcount + 1) (← Block.store buff offset [0])
    else splitLoop delim remaining (offset + 1) stringcount buff

def stringstoreSplit (p : StringStore) (delim : Option (List UInt8)) :
    Option (Int32 × StringStore) :=
  if p.ssUsed ≠ 0 then
    (splitLoop delim p.ssUsed 0 0 p.ssBuff).map fun r => (r.1, { p with ssBuff := r.2 })
  else some (0, p)

def stringstoreConsume (p : StringStore) (bytes : Nat) : Option StringStore := do
  if bytes ≥ stringstoreLength p then pure { p with ssUsed := 0 }
  else
    let buff ← Block.move p.ssBuff 0 bytes (p.ssUsed - bytes)
    pure { p with ssBuff := buff, ssUsed := p.ssUsed - bytes }

def stringstoreClear (p : StringStore) : Option StringStore := stringstoreConsume p ssAll

/-! ## The invariant and the bytes it holds -/

/-- The block is as large as the capacity says, and growth makes progress. -/
structure StringStore.Wf (p : StringStore) : Prop where
  block : p.ssBuff.length = p.ssSize
  used_le : p.ssUsed ≤ p.ssSize
  inc_pos : 0 < p.ssInc

def StringStore.contents (p : StringStore) : List UInt8 := p.ssBuff.take p.ssUsed

theorem StringStore.Wf.length_contents {p : StringStore} (h : p.Wf) :
    p.contents.length = p.ssUsed := by
  have := h.used_le
  simp [contents, h.block]
  omega

theorem stringstoreInitN_wf {m : Memory} {size : Nat} (h : 0 < size) (hgrants : m.Grants size) :
    (stringstoreInitN m size).Wf := by
  have hne : size ≠ 0 := by omega
  refine ⟨?_, Nat.zero_le _, ?_⟩
  · simp [stringstoreInitN, hne, length_calloc.mpr hgrants]
  · simp [stringstoreInitN, hne, h]

/-- A resize, if the block it asks for is granted. -/
theorem strstoreResize_spec {m : Memory} {p : StringStore} (h : p.Wf) {n : Nat}
    (hgrants : max n p.ssUsed ≠ p.ssSize → m.Grants (max n p.ssUsed)) :
    ∃ p', strstoreResize m p n = some (max n p.ssUsed, p') ∧ p'.Wf ∧
      p'.ssSize = max n p.ssUsed ∧ p'.ssUsed = p.ssUsed ∧ p'.ssInc = p.ssInc ∧
      p'.contents = p.contents := by
  unfold strstoreResize
  have hmax : p.ssUsed ≤ max n p.ssUsed := by omega
  dsimp only
  generalize max n p.ssUsed = k at hmax hgrants ⊢
  by_cases hk : k = p.ssSize
  · -- nothing to do
    exact ⟨p, by simp [hk], h, hk.symm, rfl, rfl, rfl⟩
  have hload : Block.load p.ssBuff 0 p.ssUsed = some p.contents := by
    rw [Block.load_eq (by have := h.used_le; rw [h.block]; omega)]
    rfl
  have hblock := length_calloc.mpr (hgrants hk)
  have hc : p.contents.length = p.ssUsed := h.length_contents
  have hfits : 0 + p.contents.length ≤ (calloc m k).length := by omega
  by_cases hpos : k > 0
  · obtain ⟨buff, hbuff⟩ : ∃ buff, Block.store (calloc m k) 0 p.contents = some buff :=
      ⟨_, Block.store_eq hfits⟩
    have hlen : buff.length = k := (Block.length_of_store hbuff).trans hblock
    refine ⟨{ p with ssBuff := buff, ssSize := k }, ?_, ⟨hlen, hmax, h.inc_pos⟩, rfl, rfl, rfl, ?_⟩
    · simp [hk, hpos, hload, hbuff]
    · rw [Block.store_eq hfits, Option.some.injEq] at hbuff
      change buff.take p.ssUsed = p.contents
      rw [← hbuff, ← hc]
      simp
  · -- an empty store compacted to no block at all
    have hu0 : p.ssUsed = 0 := by omega
    exact ⟨{ p with ssBuff := calloc m k, ssSize := k }, by simp [hk, hpos],
      ⟨hblock, hmax, h.inc_pos⟩, rfl, rfl, rfl, by simp [StringStore.contents, hu0]⟩

/-- What a resize does to the sizes, whatever `calloc` answers. -/
theorem strstoreResize_size {m : Memory} {p : StringStore} {n : Nat} {r : Nat × StringStore}
    (h : strstoreResize m p n = some r) :
    r.2.ssSize = max n p.ssUsed ∧ r.2.ssInc = p.ssInc ∧ r.2.ssUsed = p.ssUsed := by
  unfold strstoreResize at h
  dsimp only at h
  split at h
  · next hsame =>
    cases h
    exact ⟨hsame.symm, rfl, rfl⟩
  · obtain ⟨buff, -, rfl⟩ := Option.map_eq_some_iff.mp h
    exact ⟨rfl, rfl, rfl⟩

/-- A refused block has no bytes, and the capacity is that of the request all the same. -/
theorem strstoreResize_refused {m : Memory} {p : StringStore} {n : Nat} {r : Nat × StringStore}
    (hne : max n p.ssUsed ≠ p.ssSize) (hrefused : ¬ m.Grants (max n p.ssUsed))
    (h : strstoreResize m p n = some r) : r.2.ssBuff.length < r.2.ssSize := by
  unfold strstoreResize at h
  dsimp only at h
  generalize max n p.ssUsed = k at hne hrefused h
  rw [if_neg hne] at h
  have hnull : calloc m k = [] := by
    unfold calloc
    rw [if_neg fun hgrants => hrefused (.inr hgrants)]
  have hpos : 0 < k := Nat.pos_of_ne_zero fun hzero => hrefused (.inl hzero)
  obtain ⟨buff, hbuff, rfl⟩ := Option.map_eq_some_iff.mp h
  rw [if_pos hpos] at hbuff
  obtain ⟨bytes, -, hstore⟩ := Option.bind_eq_some_iff.mp hbuff
  have hlen := Block.length_of_store hstore
  rw [hnull] at hlen
  exact hlen ▸ hpos

/-! ## Growth -/

/-- Where the loop ends, `need` bytes fit. -/
theorem growIncrement_fits {m : Memory} {cap inc need fuel increment k : Nat}
    (h : growIncrement m cap inc need fuel increment = some k) : need ≤ m.sizeT (cap + k) := by
  induction fuel generalizing increment with
  | zero => cases h
  | succ fuel ih =>
    unfold growIncrement at h
    split at h
    · exact ih h
    · next hfits =>
      cases h
      exact Nat.le_of_not_lt hfits

/-- As long as its sums fit, the loop ends, with the least number of chunks that do. It is at the
chunk after `n`, and fewer do not. -/
theorem growIncrement_eq {m : Memory} {cap inc need : Nat} (hinc : 0 < inc)
    (hfits : m.Fits (cap + Chunks.roundUp inc (need - cap))) {fuel n : Nat}
    (hlow : cap + inc * n < need) (hfuel : need < cap + inc * (n + 1) + fuel) (hpos : 0 < fuel) :
    growIncrement m cap inc need fuel (inc * (n + 1)) =
      some (Chunks.roundUp inc (need - cap)) := by
  induction fuel generalizing n with
  | zero => exact absurd hpos (Nat.lt_irrefl 0)
  | succ fuel ih =>
    have hmul : inc * (n + 1) = inc * n + inc := Nat.mul_succ _ _
    have hnext : inc * (n + 1 + 1) = inc * (n + 1) + inc := Nat.mul_succ _ _
    have hle : inc * (n + 1) ≤ Chunks.roundUp inc (need - cap) := by
      rw [Chunks.mul_le_roundUp hinc]
      omega
    unfold growIncrement
    rw [hfits.sizeT (by omega)]
    split
    · next hmore =>
      have hle' : inc * (n + 1 + 1) ≤ Chunks.roundUp inc (need - cap) := by
        rw [Chunks.mul_le_roundUp hinc]
        omega
      rw [hfits.sizeT (by omega), ← hnext]
      exact ih (by omega) (by omega) (by omega)
    · rw [Chunks.roundUp_eq hinc (show inc * n < need - cap by omega) (by omega)]

/-- The capacity after a growth by the least number of chunks. -/
def StringStore.grownSize (p : StringStore) (length : Nat) : Nat :=
  p.ssSize + Chunks.roundUp p.ssInc (p.ssUsed + length - p.ssSize)

theorem StringStore.le_grownSize {p : StringStore} (hinc : 0 < p.ssInc) (length : Nat) :
    p.ssUsed + length ≤ p.grownSize length := by
  have := Chunks.le_roundUp hinc (p.ssUsed + length - p.ssSize)
  unfold grownSize
  omega

theorem StringStore.increment_eq {m : Memory} {p : StringStore} (hinc : 0 < p.ssInc) {length : Nat}
    (hneed : p.ssSize < p.ssUsed + length) (hfits : m.Fits (p.grownSize length)) :
    p.increment m length = some (Chunks.roundUp p.ssInc (p.ssUsed + length - p.ssSize)) := by
  have hle := StringStore.le_grownSize hinc length
  have hturns := (hfits.mono hle).le_turns
  have hpos := m.turns_pos (p.ssUsed + length)
  have hloop := growIncrement_eq (n := 0) hinc hfits (by omega)
    (show _ < _ + m.turns (p.ssUsed + length) by omega) hpos
  rw [Nat.zero_add, Nat.mul_one] at hloop
  rw [increment, hfits.sizeT hle]
  exact hloop

/-- The growth ends, and the block it asks for is granted. -/
def StringStore.Room (m : Memory) (p : StringStore) (length : Nat) : Prop :=
  p.Grows m length → ∃ k, p.increment m length = some k ∧
    m.Grants (max (m.sizeT (p.ssSize + k)) p.ssUsed)

/-- Endless memory has room. -/
theorem StringStore.room_endless {p : StringStore} (h : p.Wf) (length : Nat) :
    p.Room .endless length := by
  intro hgrows
  have hneed : p.ssSize < p.ssUsed + length := by
    rw [Nat.add_comm]
    exact hgrows
  exact ⟨_, StringStore.increment_eq h.inc_pos hneed trivial, Memory.grants_endless _⟩

theorem strstoreGrow_spec {m : Memory} {p : StringStore} (h : p.Wf) {length : Nat}
    (hroom : p.Room m length) :
    ∃ p', strstoreGrow m p length = some p' ∧ p'.Wf ∧
      m.sizeT (p.ssUsed + length) ≤ p'.ssSize ∧ p'.ssUsed = p.ssUsed ∧ p'.contents = p.contents ∧
      (p'.ssSize = p.ssSize ∨ m.Grants p'.ssSize) := by
  unfold strstoreGrow
  by_cases hgrows : p.Grows m length
  · rcases hroom hgrows with ⟨k, hk, hgrants⟩
    rcases strstoreResize_spec h (fun _ => hgrants) with ⟨p', hp', h', hsize, hused, -, hc⟩
    have hfits : m.sizeT (p.ssUsed + length) ≤ m.sizeT (p.ssSize + k) := growIncrement_fits hk
    refine ⟨p', ?_, h', by omega, hused, hc, .inr (hsize ▸ hgrants)⟩
    rw [if_pos hgrows]
    simp [hk, hp']
  · have hfits : m.sizeT (p.ssUsed + length) ≤ p.ssSize := by
      rw [Nat.add_comm]
      exact Nat.le_of_not_lt hgrows
    exact ⟨p, if_neg hgrows, h, hfits, rfl, rfl, .inl rfl⟩

/-- The bytes of a value of which `length` are readable are inserted at the position, whether the
store has grown for them or not. -/
theorem stringstoreStore_spec {m : Memory} {p : StringStore} (h : p.Wf) {value : List UInt8}
    {length : Nat} (hroom : p.Room m length) (hfits : m.Fits (p.ssUsed + length))
    (hread : length ≤ value.length) (at' : Nat) :
    ∃ p', stringstoreStore m p (some value) length at' = some (length, p') ∧ p'.Wf ∧
      p'.contents = if at' = ssEnd ∨ at' ≥ p.contents.length then p.contents ++ value.take length
        else Block.insertAt p.contents at' (value.take length) := by
  rcases strstoreGrow_spec h hroom with ⟨q, hq, hqwf, hsize, hused, hc, -⟩
  have hsum := hfits.sizeT (Nat.le_refl _)
  rw [hsum, ← hused] at hsize
  rw [← hused] at hsum
  rw [← hc, hqwf.length_contents]
  by_cases hnil : length = 0
  · -- an empty value is not stored, but the store may have grown
    subst hnil
    exact ⟨q, by simp [stringstoreStore, hq], hqwf, by simp⟩
  have hload : Block.load value 0 length = some (value.take length) := Block.load_eq (by omega)
  have hlen : (value.take length).length = length := by simp [hread]
  have hblk := hqwf.block
  by_cases hend : at' = ssEnd ∨ at' ≥ q.ssUsed
  · rw [if_pos hend]
    have hroom : q.ssUsed + (value.take length).length ≤ q.ssBuff.length := by omega
    obtain ⟨buff, hbuff⟩ : ∃ buff, Block.store q.ssBuff q.ssUsed (value.take length) = some buff :=
      ⟨_, Block.store_eq hroom⟩
    refine ⟨{ q with ssBuff := buff, ssUsed := q.ssUsed + length }, ?_,
      ⟨(Block.length_of_store hbuff).trans hblk, by simp only; omega, hqwf.inc_pos⟩, ?_⟩
    · simp [stringstoreStore, hq, hnil, hend, hload, hbuff, hsum]
    · have hold : (q.ssBuff.take q.ssUsed).length = q.ssUsed := hqwf.length_contents
      rw [Block.store_eq hroom, Option.some.injEq] at hbuff
      simp only [StringStore.contents, ← hbuff, List.append_assoc]
      rw [List.take_append, hold, Nat.add_sub_cancel_left, List.take_left' hlen,
        List.take_of_length_le (by omega)]
  · rw [if_neg hend]
    rw [not_or] at hend
    rcases @Block.open_gap _ q.ssBuff (value.take length) q.ssUsed at' (by omega) (by omega)
      with ⟨buff₁, buff₂, hmove, hstore, hlen₂, htake, -⟩
    rw [hlen] at hmove htake
    refine ⟨{ q with ssBuff := buff₂, ssUsed := q.ssUsed + length }, ?_,
      ⟨hlen₂.trans hblk, by simp only; omega, hqwf.inc_pos⟩, htake⟩
    simp [stringstoreStore, hq, hnil, hend, hmove, hload, hstore, hsum]

/-- Behind the growth, a store leaves the capacity and the size of the block alone. -/
theorem stringstoreStore_size {m : Memory} {p p' : StringStore} {value : Option (List UInt8)}
    {length at' n : Nat} (h : stringstoreStore m p value length at' = some (n, p')) :
    ∃ q, strstoreGrow m p length = some q ∧ p'.ssSize = q.ssSize ∧ p'.ssInc = q.ssInc ∧
      p'.ssBuff.length = q.ssBuff.length ∧ p'.ssUsed ≤ q.ssUsed + length := by
  obtain ⟨q, hgrow, hstore⟩ := Option.bind_eq_some_iff.mp h
  refine ⟨q, hgrow, ?_⟩
  cases value with
  | none =>
    cases hstore
    exact ⟨rfl, rfl, rfl, Nat.le_add_right _ _⟩
  | some value =>
    dsimp only at hstore
    split at hstore
    · cases hstore
      exact ⟨rfl, rfl, rfl, Nat.le_add_right _ _⟩
    · split at hstore
      · obtain ⟨src, -, hcopy⟩ := Option.bind_eq_some_iff.mp hstore
        obtain ⟨buff, hbuff, hset⟩ := Option.bind_eq_some_iff.mp hcopy
        cases hset
        exact ⟨rfl, rfl, Block.length_of_store hbuff, m.sizeT_le _⟩
      · obtain ⟨buff₁, hbuff₁, hmoved⟩ := Option.bind_eq_some_iff.mp hstore
        obtain ⟨src, -, hcopy⟩ := Option.bind_eq_some_iff.mp hmoved
        obtain ⟨buff₂, hbuff₂, hset⟩ := Option.bind_eq_some_iff.mp hcopy
        cases hset
        exact ⟨rfl, rfl, (Block.length_of_store hbuff₂).trans (Block.length_of_move hbuff₁),
          m.sizeT_le _⟩

/-- `NULL` is stored as nothing. -/
theorem stringstoreStore_null {m : Memory} {p : StringStore} (h : p.Wf) {length : Nat}
    (hroom : p.Room m length) (at' : Nat) :
    ∃ p', stringstoreStore m p none length at' = some (0, p') ∧ p'.Wf ∧
      p'.contents = p.contents := by
  rcases strstoreGrow_spec h hroom with ⟨q, hq, hqwf, -, -, hc, -⟩
  exact ⟨q, by simp [stringstoreStore, hq], hqwf, hc⟩

theorem stringstoreAppend_spec {p : StringStore} (h : p.Wf) (value : List UInt8) :
    ∃ p', stringstoreAppend .endless p (some value) value.length = some (value.length, p') ∧
      p'.Wf ∧ p'.contents = p.contents ++ value := by
  rcases stringstoreStore_spec h (StringStore.room_endless h _) trivial
    (Nat.le_refl value.length) ssEnd with ⟨p', hp', hwf, hc⟩
  rw [if_pos (.inl rfl), List.take_length] at hc
  exact ⟨p', hp', hwf, hc⟩

theorem stringstoreConsume_size {p p' : StringStore} {bytes : Nat}
    (h : stringstoreConsume p bytes = some p') :
    p'.ssSize = p.ssSize ∧ p'.ssInc = p.ssInc ∧ p'.ssUsed ≤ p.ssUsed := by
  unfold stringstoreConsume at h
  split at h
  · cases h
    exact ⟨rfl, rfl, Nat.zero_le _⟩
  · obtain ⟨buff, -, hset⟩ := Option.bind_eq_some_iff.mp h
    cases hset
    exact ⟨rfl, rfl, Nat.sub_le _ _⟩

theorem stringstoreConsume_spec {p : StringStore} (h : p.Wf) (n : Nat) :
    ∃ p', stringstoreConsume p n = some p' ∧ p'.Wf ∧ p'.contents = p.contents.drop n := by
  have hused := h.used_le
  unfold stringstoreConsume
  by_cases hall : n ≥ p.ssUsed
  · -- everything is consumed, and nothing is moved
    refine ⟨_, if_pos hall, ⟨h.block, Nat.zero_le _, h.inc_pos⟩, ?_⟩
    rw [List.drop_of_length_le (by rw [h.length_contents]; omega)]
    simp [StringStore.contents]
  · have hload : Block.load p.ssBuff n (p.ssUsed - n) = some (p.contents.drop n) := by
      rw [Block.load_eq (by rw [h.block]; omega), StringStore.contents, List.drop_take]
    have hlen : (p.contents.drop n).length = p.ssUsed - n := by
      rw [List.length_drop, h.length_contents]
    have hfits : 0 + (p.contents.drop n).length ≤ p.ssBuff.length := by
      rw [hlen, h.block]
      omega
    obtain ⟨buff, hbuff⟩ : ∃ buff, Block.store p.ssBuff 0 (p.contents.drop n) = some buff :=
      ⟨_, Block.store_eq hfits⟩
    refine ⟨{ p with ssBuff := buff, ssUsed := p.ssUsed - n }, ?_,
      ⟨(Block.length_of_store hbuff).trans h.block, by simp only; omega, h.inc_pos⟩, ?_⟩
    · simp [hall, Block.move, hload, hbuff]
    · rw [Block.store_eq hfits, Option.some.injEq] at hbuff
      change buff.take (p.ssUsed - n) = p.contents.drop n
      rw [← hbuff, ← hlen]
      simp

/-! ## Tokens -/

/-- The scan finds the first line of the bytes it reads. -/
theorem scanToken_eq (delim : Option (List UInt8)) (bytes : List UInt8) :
    match Lines.next (isDelim delim) bytes with
    | some (l, _) => scanToken delim bytes = (l.length, true)
    | none => scanToken delim bytes = (bytes.length, false) := by
  induction bytes with
  | nil => rfl
  | cons ch rest ih =>
    by_cases hch : isDelim delim ch
    · simp [Lines.next, scanToken, hch]
    · cases hn : Lines.next (isDelim delim) rest with
      | none =>
        rw [hn] at ih
        simp [Lines.next, scanToken, hch, hn, ih]
      | some p =>
        rw [hn] at ih
        simp [Lines.next, scanToken, hch, hn, ih]

/-- The segment at the front of what is unread: the first line, or without a delimiter string all
there is. -/
def frontSegment (delim : Option (List UInt8)) (unread : List UInt8) : Option (List UInt8) :=
  match Lines.next (isDelim delim) unread with
  | some (l, _) => some l
  | none => if delim.isNone ∧ unread ≠ [] then some unread else none

/-- A call returns the segment at the front and advances past it, or returns `NULL` and the offset
stays. -/
theorem stringstoreNext_eq {p : StringStore} (h : p.Wf) (offset : Nat)
    (delim : Option (List UInt8)) :
    stringstoreNext p offset delim =
      some (match frontSegment delim (p.contents.drop offset) with
        | some l => (some l, l.length, offset + l.length)
        | none => (none, 0, offset)) := by
  have hused := h.used_le
  unfold stringstoreNext
  split
  · next hlt =>
    have hload :
        Block.load p.ssBuff offset (p.ssUsed - offset) = some (p.contents.drop offset) := by
      rw [Block.load_eq (by rw [h.block]; omega), StringStore.contents, List.drop_take]
    have hne : p.contents.drop offset ≠ [] := by
      intro hnil
      have := congrArg List.length hnil
      rw [List.length_drop, h.length_contents, List.length_nil] at this
      omega
    have hscan := scanToken_eq delim (p.contents.drop offset)
    cases hn : Lines.next (isDelim delim) (p.contents.drop offset) with
    | none =>
      rw [hn] at hscan
      by_cases hd : delim.isNone
      · have hall := List.take_length (l := p.contents.drop offset)
        rw [List.length_drop] at hall
        simp [hload, hscan, frontSegment, hn, hd, hne, hall]
      · simp [hload, hscan, frontSegment, hn, hd]
    | some q =>
      rcases q with ⟨l, r⟩
      rw [hn] at hscan
      rcases Lines.next_spec hn with ⟨-, hcat⟩
      have htake : (p.contents.drop offset).take l.length = l := by simp [hcat]
      simp [hload, hscan, htake, frontSegment, hn]
  · -- past the end there is nothing to scan
    rw [List.drop_of_length_le (by rw [h.length_contents]; omega)]
    simp [frontSegment, Lines.next]

/-- With a delimiter string, a token is the first line from the offset on; without
a terminator there is no token and the offset stays. -/
theorem stringstoreNext_spec {p : StringStore} (h : p.Wf) (offset : Nat) (d : List UInt8) :
    stringstoreNext p offset (some d) =
      some (match Lines.next (isDelim (some d)) (p.contents.drop offset) with
        | some (l, _) => (some l, l.length, offset + l.length)
        | none => (none, 0, offset)) := by
  rw [stringstoreNext_eq h, frontSegment]
  cases Lines.next (isDelim (some d)) (p.contents.drop offset) with
  | none => rfl
  | some q => rfl

/-! ## The line buffer of a connection -/

/-- A well-formed store, as `dev->linebuf` holds it. Its calls run on endless memory. -/
structure LineBuffer where
  store : StringStore
  wf : store.Wf

namespace LineBuffer

/-- `stringstore_init(NULL)`. -/
def init : LineBuffer :=
  ⟨stringstoreInit .endless, stringstoreInitN_wf (by decide) (Memory.grants_endless _)⟩

def contents (l : LineBuffer) : List UInt8 := l.store.contents

variable (l : LineBuffer) (value : List UInt8) (n : Nat)

theorem append_isSome : (stringstoreAppend .endless l.store (some value) value.length).isSome := by
  rcases stringstoreAppend_spec l.wf value with ⟨p, hp, -⟩
  simp [hp]

theorem consume_isSome : (stringstoreConsume l.store n).isSome := by
  rcases stringstoreConsume_spec l.wf n with ⟨p, hp, -⟩
  simp [hp]

theorem nextstr_isSome : (stringstoreNextstr l.store n).isSome := by
  simp [stringstoreNextstr, stringstoreNext_spec l.wf]

theorem append_wf :
    ((stringstoreAppend .endless l.store (some value) value.length).get (l.append_isSome value)).2.Wf := by
  rcases stringstoreAppend_spec l.wf value with ⟨p, hp, h, -⟩
  simpa [hp] using h

theorem consume_wf : ((stringstoreConsume l.store n).get (l.consume_isSome n)).Wf := by
  rcases stringstoreConsume_spec l.wf n with ⟨p, hp, h, -⟩
  simpa [hp] using h

/-- `stringstore_length`. -/
def length : Nat := stringstoreLength l.store

/-- `stringstore_append` of a whole value. -/
def append : LineBuffer :=
  ⟨((stringstoreAppend .endless l.store (some value) value.length).get (l.append_isSome value)).2,
    l.append_wf value⟩

/-- `stringstore_consume`. -/
def consume : LineBuffer :=
  ⟨(stringstoreConsume l.store n).get (l.consume_isSome n), l.consume_wf n⟩

/-- `stringstore_nextstr` with an iterator at offset `n`: token, length, new offset. -/
def nextstr : Option (List UInt8) × Nat × Nat :=
  (stringstoreNextstr l.store n).get (l.nextstr_isSome n)

@[simp] theorem init_contents : init.contents = [] := by
  simp [init, contents, StringStore.contents, stringstoreInit, stringstoreInitN]

@[simp] theorem append_contents : (l.append value).contents = l.contents ++ value := by
  rcases stringstoreAppend_spec l.wf value with ⟨p, hp, -, hc⟩
  simpa [append, hp, contents] using hc

@[simp] theorem consume_contents : (l.consume n).contents = l.contents.drop n := by
  rcases stringstoreConsume_spec l.wf n with ⟨p, hp, -, hc⟩
  simpa [consume, hp, contents] using hc

theorem length_eq : l.length = l.contents.length := l.wf.length_contents.symm

end LineBuffer

/-- What ends a command: NUL or a newline. -/
def isEol (ch : UInt8) : Bool := isDelim (some [10]) ch

theorem LineBuffer.nextstr_eq (l : LineBuffer) :
    l.nextstr 0 = match Lines.next isEol l.contents with
      | some (line, _) => (some line, line.length, line.length)
      | none => (none, 0, 0) := by
  have h := stringstoreNext_spec l.wf 0 [10]
  simp only [List.drop_zero, Nat.zero_add] at h
  simp only [nextstr, stringstoreNextstr, h, Option.get_some]
  rfl

end Hdmi2usbd
