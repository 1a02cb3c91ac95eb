import Hdmi2usbd.RawArray

/-!
# ArrayRuns — runs of calls on the growing array

As long as no growth asks for 2^64 bytes, any sequence of calls on the bytes of `array.c` refines
the edits of a list (`array_refines_list`). Two things are not checked. A request whose size wraps
is granted for a block that is too small (`wrapped_growth_overruns`). And the callers of
`array_check_alloc` do not look at its result: a refused growth goes unnoticed unless there is no
block at all and the new element was asked for by its index (`refused_growth_intact_iff`).
-/

namespace Hdmi2usbd.Raw

open Rows (Row)

variable {k : Nat}

/-! ## Calls -/

/-- A call on an array whose elements have `k` bytes. -/
inductive ArrayOp (k : Nat) where
  | new
  | newAt (index : Nat)
  | append (element : Row UInt8 k)
  | insert (element : Row UInt8 k) (at' : Nat)
  | put (element : Row UInt8 k) (at' : Nat)
  | delete (at' : Nat)
  | get (index : Nat)
deriving DecidableEq

/-- What a call returns. In a list the position of an element stands for its pointer. -/
inductive Result where
  | element (ptr : Option Nat)
  | count (n : Nat)
deriving DecidableEq

def ArrayOp.apply (m : Heap) (a : Arr) : ArrayOp k → Option (Result × Arr)
  | .new => (arrayNew m a).map fun r => (.element r.1, r.2)
  | .newAt index => (arrayNewAt m a index).map fun r => (.element r.1, r.2)
  | .append element => (arrayAppend m a element.val).map fun r => (.element r.1, r.2)
  | .insert element at' => (arrayInsert m a element.val at').map fun r => (.element r.1, r.2)
  | .put element at' => (arrayPut a element.val at').map fun r => (.element r.1, r.2)
  | .delete at' => (arrayDelete a at').map fun r => (.count r.1, r.2)
  | .get index => some (.element (arrayGet a index), a)

/-- The same call on a list; `fresh` is what `array_new` finds in the new element. -/
def ArrayOp.spec (fresh : Row UInt8 k) (xs : List (Row UInt8 k)) :
    ArrayOp k → Result × List (Row UInt8 k)
  | .new => (.element (some xs.length), xs ++ [fresh])
  | .newAt index =>
    if index ≤ xs.length then
      (.element (some index), Block.insertAt xs index [Row.fill k 0])
    else (.element none, xs)
  | .append element => (.element (some xs.length), xs ++ [element])
  | .insert element at' =>
    if at' ≤ xs.length then (.element (some at'), Block.insertAt xs at' [element])
    else (.element none, xs)
  | .put element at' =>
    if at' < xs.length then (.element (some at'), xs.set at' element) else (.element none, xs)
  | .delete at' =>
    if at' < xs.length then (.count (xs.length - 1), xs.eraseIdx at')
    else (.count (0xffffffffffffffff), xs)
  | .get index => if index < xs.length then (.element (some index), xs) else (.element none, xs)

/-- Whether a call names an element that is not there. -/
def ArrayOp.OutOfRange (xs : List (Row UInt8 k)) : ArrayOp k → Prop
  | .new | .append _ => False
  | .newAt at' | .insert _ at' => xs.length < at'
  | .put _ at' | .delete at' | .get at' => xs.length ≤ at'

/-- Whether a call will ask for a growth. -/
def ArrayOp.Asks (a : Arr) : ArrayOp k → Prop
  | .new | .append _ => a.full
  | .newAt at' | .insert _ at' => at' ≤ a.eEnd ∧ a.full
  | .put _ _ | .delete _ | .get _ => False

/-- The pointers for the positions of elements of `k` bytes. -/
def Result.pointer (k : Nat) : Result → Result
  | .element index => .element (index.map (· * k))
  | .count n => .count n

/-! ## One call -/

/-- The array holds the elements of the list. -/
def Represents (xs : List (Row UInt8 k)) (a : Arr) : Prop :=
  ∃ rows, Holds rows a ∧ xs = rows.take a.eEnd

theorem Represents.length {xs : List (Row UInt8 k)} {a : Arr} (h : Represents xs a) :
    xs.length = a.eEnd := by
  obtain ⟨rows, hrows, rfl⟩ := h
  rw [List.length_take, hrows.length]
  rcases hrows.room with hlt | ⟨hall, hend⟩ <;> omega

/-- How a call on `a` ends that was the edit of a list to `xs`. -/
structure Becomes (a : Arr) (xs : List (Row UInt8 k)) (a' : Arr) : Prop where
  represents : Represents xs a'
  capacity : a.eAll ≤ a'.eAll
  chunk : a'.eInc = a.eInc

theorem Becomes.refl {xs : List (Row UInt8 k)} {a : Arr} (h : Represents xs a) : Becomes a xs a :=
  ⟨h, Nat.le_refl _, rfl⟩

theorem Becomes.trans {xs xs' : List (Row UInt8 k)} {a a' a'' : Arr} (h : Becomes a xs a')
    (h' : Becomes a' xs' a'') : Becomes a xs' a'' :=
  ⟨h'.represents, Nat.le_trans h.capacity h'.capacity, h'.chunk.trans h.chunk⟩

section Calls

variable {xs : List (Row UInt8 k)} {a : Arr} (h : Represents xs a)
include h

/-- An element copied to where a pointer leads. -/
theorem Represents.fillNew {at' : Nat} (hat : at' < xs.length) (e : Row UInt8 k) :
    ∃ a', fillNew e.val (some (at' * k), a) = some (some (at' * k), a') ∧
      Becomes a (xs.set at' e) a' := by
  have hlen := h.length
  obtain ⟨rows, hrows, rfl⟩ := h
  have hall : at' < a.eAll := by rcases hrows.room with hlt | ⟨-, hend⟩ <;> omega
  refine ⟨_, hrows.fillNew hall e, ?_⟩
  refine ⟨⟨rows.set at' e, hrows.withRows (List.length_set) (by omega), ?_⟩, Nat.le_refl _, rfl⟩
  rw [List.take_set]

theorem Represents.arrayNew {m : Heap} (hfits : a.full → a.Fits) (hm : a.full → m.grants = true) :
    ∃ a' fresh, Raw.arrayNew m a = some (some (xs.length * k), a') ∧
      Becomes a (xs ++ [fresh]) a' := by
  have hlen := h.length
  obtain ⟨rows, hrows, rfl⟩ := h
  obtain ⟨n, a', hnew, hrows', hend, hall, hinc⟩ := hrows.arrayNew hfits hm
  have hlt : a.eEnd < (rows ++ List.replicate n (Row.fill k 0)).length := by
    have := hrows'.end_le
    omega
  rw [hlen]
  refine ⟨a', (rows ++ List.replicate n (Row.fill k 0))[a.eEnd], hnew, ⟨_, hrows', ?_⟩, hall, hinc⟩
  rw [hend, List.take_add_one, List.take_append_of_le_length hrows.end_le,
    List.getElem?_eq_getElem hlt]
  rfl

theorem Represents.arrayNewAt {m : Heap} {index : Nat} (hi : index ≤ xs.length)
    (hfits : a.full → a.Fits) (hm : a.full → m.grants = true) :
    ∃ a', Raw.arrayNewAt m a index = some (some (index * k), a') ∧
      Becomes a (Block.insertAt xs index [Row.fill k 0]) a' := by
  have hlen := h.length
  obtain ⟨rows, hrows, rfl⟩ := h
  obtain ⟨-, rows', a', hnew, hrows', hend, hall, hinc, htake, -⟩ :=
    hrows.arrayNewAt (hlen ▸ hi) hfits hm
  refine ⟨a', hnew, ⟨rows', hrows', ?_⟩, hall, hinc⟩
  rw [hend, htake]

theorem Represents.arrayNewAt_out {m : Heap} {index : Nat} (hi : xs.length < index) :
    Raw.arrayNewAt m a index = some (none, a) := by
  have hlen := h.length
  obtain ⟨rows, hrows, -⟩ := h
  have hbounds : arrayCheckBounds a index 1 = true := by
    rw [← Bool.not_eq_false, hrows.bounds_one_iff]
    omega
  rw [Raw.arrayNewAt, hbounds]
  rfl

theorem Represents.arrayGet {index : Nat} : Raw.arrayGet a index =
    if index < xs.length then some (index * k) else none := by
  have hlen := h.length
  obtain ⟨rows, hrows, -⟩ := h
  split
  · exact hrows.arrayGet (by omega)
  · exact hrows.arrayGet_out (by omega)

theorem Represents.arrayPut {at' : Nat} (hat : at' < xs.length) (e : Row UInt8 k) :
    ∃ a', Raw.arrayPut a e.val at' = some (some (at' * k), a') ∧
      Becomes a (xs.set at' e) a' := by
  obtain ⟨a', hfill, hbecomes⟩ := h.fillNew hat e
  refine ⟨a', ?_, hbecomes⟩
  rw [Raw.arrayPut, h.arrayGet, if_pos hat]
  exact hfill

theorem Represents.arrayDelete {at' : Nat} (hat : at' < xs.length) :
    ∃ a', Raw.arrayDelete a at' = some (xs.length - 1, a') ∧ Becomes a (xs.eraseIdx at') a' := by
  have hlen := h.length
  obtain ⟨rows, hrows, rfl⟩ := h
  rw [hlen] at hat
  obtain ⟨rows', hdelete, hlen', htake, -⟩ := hrows.arrayDelete hat
  have hend : a.eEnd < a.eAll := by rcases hrows.room with hlt | ⟨-, hend⟩ <;> omega
  rw [hlen]
  refine ⟨_, hdelete, ⟨rows', ?_, htake.symm⟩, Nat.le_refl _, rfl⟩
  exact (hrows.withRows hlen' (by omega)).withEnd (by simp only; omega)

theorem Represents.arrayAppend {m : Heap} (hfits : a.full → a.Fits)
    (hm : a.full → m.grants = true) (e : Row UInt8 k) :
    ∃ a', Raw.arrayAppend m a e.val = some (some (xs.length * k), a') ∧
      Becomes a (xs ++ [e]) a' := by
  obtain ⟨a₁, fresh, hnew, hbecomes⟩ := h.arrayNew hfits hm
  obtain ⟨a', hfill, hbecomes'⟩ :=
    hbecomes.represents.fillNew (show xs.length < (xs ++ [fresh]).length by simp) e
  refine ⟨a', by simp [Raw.arrayAppend, hnew, hfill], ?_⟩
  have hset : (xs ++ [fresh]).set xs.length e = xs ++ [e] := by
    rw [List.set_append_right _ _ (Nat.le_refl _), Nat.sub_self]
    rfl
  exact hbecomes.trans (hset ▸ hbecomes')

theorem Represents.arrayInsert {m : Heap} {at' : Nat} (hat : at' ≤ xs.length)
    (hfits : a.full → a.Fits) (hm : a.full → m.grants = true) (e : Row UInt8 k) :
    ∃ a', Raw.arrayInsert m a e.val at' = some (some (at' * k), a') ∧
      Becomes a (Block.insertAt xs at' [e]) a' := by
  obtain ⟨a₁, hnew, hbecomes⟩ := h.arrayNewAt hat hfits hm
  have hlt : at' < (Block.insertAt xs at' [Row.fill k (0 : UInt8)]).length := by
    rw [Block.length_insertAt, List.length_singleton]
    omega
  obtain ⟨a', hfill, hbecomes'⟩ := hbecomes.represents.fillNew hlt e
  refine ⟨a', by simp [Raw.arrayInsert, hnew, hfill], ?_⟩
  rw [Block.set_insertAt hat] at hbecomes'
  exact hbecomes.trans hbecomes'

/-- A call out of range returns no element, and changes nothing. -/
theorem Represents.apply_out {m : Heap} {op : ArrayOp k} (hout : op.OutOfRange xs)
    (fresh : Row UInt8 k) : op.apply m a = some ((op.spec fresh xs).1.pointer k, a) ∧
      (op.spec fresh xs).2 = xs := by
  have hlen := h.length
  cases op with
  | new => exact hout.elim
  | append e => exact hout.elim
  | newAt index =>
    have hgt : ¬ index ≤ xs.length := Nat.not_le_of_lt hout
    simp [ArrayOp.apply, h.arrayNewAt_out hout, ArrayOp.spec, Result.pointer, hgt]
  | insert e at' =>
    have hgt : ¬ at' ≤ xs.length := Nat.not_le_of_lt hout
    simp [ArrayOp.apply, Raw.arrayInsert, Raw.fillNew, h.arrayNewAt_out hout, ArrayOp.spec,
      Result.pointer, hgt]
  | put e at' =>
    have hge : ¬ at' < xs.length := Nat.not_lt_of_le hout
    simp [ArrayOp.apply, Raw.arrayPut, h.arrayGet, ArrayOp.spec, Result.pointer, hge]
  | delete at' =>
    have hge : ¬ at' < xs.length := Nat.not_lt_of_le hout
    have hdelete : Raw.arrayDelete a at' = some (0xffffffffffffffff, a) := by
      obtain ⟨rows, hrows, -⟩ := h
      exact hrows.arrayDelete_out (by omega)
    simp [ArrayOp.apply, hdelete, ArrayOp.spec, Result.pointer, hge]
  | get index =>
    have hge : ¬ index < xs.length := Nat.not_lt_of_le hout
    simp [ArrayOp.apply, h.arrayGet, ArrayOp.spec, Result.pointer, hge]

/-- A call in range edits the list, unless a growth is refused. -/
theorem Represents.apply_in {m : Heap} {op : ArrayOp k} (hin : ¬ op.OutOfRange xs)
    (hfits : op.Asks a → a.Fits) (hm : op.Asks a → m.grants = true) :
    ∃ a' fresh, op.apply m a = some ((op.spec fresh xs).1.pointer k, a') ∧
      Becomes a (op.spec fresh xs).2 a' := by
  have hlen := h.length
  cases op with
  | new =>
    obtain ⟨a', fresh, hnew, hbecomes⟩ := h.arrayNew hfits hm
    exact ⟨a', fresh, by simp [ArrayOp.apply, hnew, ArrayOp.spec, Result.pointer], hbecomes⟩
  | append e =>
    obtain ⟨a', happend, hbecomes⟩ := h.arrayAppend hfits hm e
    exact ⟨a', e, by simp [ArrayOp.apply, happend, ArrayOp.spec, Result.pointer], hbecomes⟩
  | newAt index =>
    have hle : index ≤ xs.length := Nat.le_of_not_lt hin
    obtain ⟨a', hnew, hbecomes⟩ := h.arrayNewAt hle (fun hf => hfits ⟨hlen ▸ hle, hf⟩)
      fun hf => hm ⟨hlen ▸ hle, hf⟩
    refine ⟨a', Row.fill k 0, ?_, by simpa [ArrayOp.spec, hle] using hbecomes⟩
    simp [ArrayOp.apply, hnew, ArrayOp.spec, Result.pointer, hle]
  | insert e at' =>
    have hle : at' ≤ xs.length := Nat.le_of_not_lt hin
    obtain ⟨a', hinsert, hbecomes⟩ := h.arrayInsert hle (fun hf => hfits ⟨hlen ▸ hle, hf⟩)
      (fun hf => hm ⟨hlen ▸ hle, hf⟩) e
    refine ⟨a', e, ?_, by simpa [ArrayOp.spec, hle] using hbecomes⟩
    simp [ArrayOp.apply, hinsert, ArrayOp.spec, Result.pointer, hle]
  | put e at' =>
    have hlt : at' < xs.length := Nat.lt_of_not_le hin
    obtain ⟨a', hput, hbecomes⟩ := h.arrayPut hlt e
    refine ⟨a', e, ?_, by simpa [ArrayOp.spec, hlt] using hbecomes⟩
    simp [ArrayOp.apply, hput, ArrayOp.spec, Result.pointer, hlt]
  | delete at' =>
    have hlt : at' < xs.length := Nat.lt_of_not_le hin
    obtain ⟨a', hdelete, hbecomes⟩ := h.arrayDelete hlt
    refine ⟨a', Row.fill k 0, ?_, by simpa [ArrayOp.spec, hlt] using hbecomes⟩
    simp [ArrayOp.apply, hdelete, ArrayOp.spec, Result.pointer, hlt]
  | get index =>
    have hlt : index < xs.length := Nat.lt_of_not_le hin
    refine ⟨a, Row.fill k 0, ?_, by simpa [ArrayOp.spec, hlt] using Becomes.refl h⟩
    simp [ArrayOp.apply, h.arrayGet, ArrayOp.spec, Result.pointer, hlt]

/-- A call does to the bytes what it does to the list, unless a growth is refused. -/
theorem Represents.apply {m : Heap} (op : ArrayOp k) (hfits : op.Asks a → a.Fits)
    (hm : op.Asks a → m.grants = true) :
    ∃ a' fresh, op.apply m a = some ((op.spec fresh xs).1.pointer k, a') ∧
      Becomes a (op.spec fresh xs).2 a' ∧ (op.OutOfRange xs → a' = a) := by
  by_cases hout : op.OutOfRange xs
  · obtain ⟨happly, hsame⟩ := h.apply_out hout (Row.fill k 0)
    exact ⟨a, _, happly, hsame.symm ▸ Becomes.refl h, fun _ => rfl⟩
  · obtain ⟨a', fresh, happly, hbecomes⟩ := h.apply_in hout hfits hm
    exact ⟨a', fresh, happly, hbecomes, fun h' => absurd h' hout⟩

end Calls

/-! ## Runs -/

/-- The results of a run of calls, and the array after each. -/
def arrayTrace (a : Arr) : List (ArrayOp k × Heap) → Option (List (Result × Arr))
  | [] => some []
  | (op, m) :: calls => do
    let (r, a') ← op.apply m a
    let trace ← arrayTrace a' calls
    pure ((r, a') :: trace)

/-- Something holds before each call of a run. -/
def Along (P : Arr → ArrayOp k → Heap → Prop) (a : Arr) : List (ArrayOp k × Heap) → Prop
  | [] => True
  | (op, m) :: calls => P a op m ∧ ∀ r ∈ op.apply m a, Along P r.2 calls

/-- The same for a run that `array_init` begins. -/
def FromInit (P : Arr → ArrayOp k → Heap → Prop) (initialCount : Nat) (m₀ : Heap)
    (calls : List (ArrayOp k × Heap)) : Prop :=
  ∀ r ∈ arrayInit m₀ k initialCount, Along P r.2 calls

instance {P : Arr → ArrayOp k → Heap → Prop} [∀ a op m, Decidable (P a op m)] :
    ∀ (a : Arr) (calls : List (ArrayOp k × Heap)), Decidable (Along P a calls)
  | _, [] => .isTrue trivial
  | a, (op, m) :: calls =>
    have : ∀ r : Result × Arr, Decidable (Along P r.2 calls) := fun r =>
      instDecidableAlong r.2 calls
    inferInstanceAs (Decidable (P a op m ∧ ∀ r ∈ op.apply m a, Along P r.2 calls))

instance {P : Arr → ArrayOp k → Heap → Prop} [∀ a op m, Decidable (P a op m)] (initialCount : Nat)
    (m₀ : Heap) (calls : List (ArrayOp k × Heap)) : Decidable (FromInit P initialCount m₀ calls) :=
  inferInstanceAs (Decidable (∀ r ∈ arrayInit m₀ k initialCount, Along P r.2 calls))

/-- The call's growth succeeds, if it needs one. -/
def Granted (a : Arr) (op : ArrayOp k) (m : Heap) : Prop := op.Asks a → m.grants = true

/-- The call's growth can be asked for. -/
def Fitting (a : Arr) (op : ArrayOp k) (_ : Heap) : Prop := op.Asks a → a.Fits

instance (a : Arr) : (op : ArrayOp k) → Decidable (op.Asks a)
  | .new => inferInstanceAs (Decidable a.full)
  | .append _ => inferInstanceAs (Decidable a.full)
  | .newAt at' => inferInstanceAs (Decidable (at' ≤ a.eEnd ∧ a.full))
  | .insert _ at' => inferInstanceAs (Decidable (at' ≤ a.eEnd ∧ a.full))
  | .put _ _ | .delete _ | .get _ => .isFalse id

instance (a : Arr) (op : ArrayOp k) (m : Heap) : Decidable (Granted a op m) :=
  inferInstanceAs (Decidable (_ → _))

instance (a : Arr) (op : ArrayOp k) (m : Heap) : Decidable (Fitting a op m) :=
  inferInstanceAs (Decidable (_ → _))

/-! ## Refinement of a list -/

/-- The elements of an array are those of a list, in a block with a spare element. -/
structure Refines (xs : List (Row UInt8 k)) (a : Arr) : Prop where
  count : a.eEnd = xs.length
  elements : ∃ block, a.data = some block ∧ block.length = a.eAll * k ∧
    ∀ (i : Nat) (r : Row UInt8 k), xs[i]? = some r → Block.load block (i * k) k = some r.val
  chunks : a.eInc ∣ a.eAll
  room : a.eEnd < a.eAll

/-- The results and arrays of a run are those of the same calls on a list. -/
inductive RefinesRun : List (Row UInt8 k) → Arr → List (ArrayOp k × Heap) →
    List (Result × Arr) → Prop
  | nil {xs : List (Row UInt8 k)} {a : Arr} : RefinesRun xs a [] []
  | cons {xs : List (Row UInt8 k)} {a a' : Arr} {op : ArrayOp k} {m : Heap}
      {calls : List (ArrayOp k × Heap)} {trace : List (Result × Arr)} (fresh : Row UInt8 k)
      (refines : Refines (op.spec fresh xs).2 a') (capacity : a.eAll ≤ a'.eAll)
      (chunk : a'.eInc = a.eInc) (unchanged : op.OutOfRange xs → a' = a)
      (rest : RefinesRun (op.spec fresh xs).2 a' calls trace) :
      RefinesRun xs a ((op, m) :: calls) (((op.spec fresh xs).1.pointer k, a') :: trace)

/-- An array is initialised with a chunk, and every call on it is that call on a list. -/
def RefinesList (initialCount : Nat) (m₀ : Heap) (calls : List (ArrayOp k × Heap)) : Prop :=
  ∃ a trace, arrayInit m₀ k initialCount = some (0, a) ∧
    a.eInc = (if initialCount ≠ 0 then initialCount else 8) ∧
    Refines ([] : List (Row UInt8 k)) a ∧ arrayTrace a calls = some trace ∧
    RefinesRun [] a calls trace

theorem Represents.refines {xs : List (Row UInt8 k)} {a : Arr} (h : Represents xs a)
    (hall : 0 < a.eAll) : Refines xs a := by
  have hlen := h.length
  obtain ⟨rows, hrows, rfl⟩ := h
  constructor
  case count => exact hlen.symm
  case elements =>
    refine ⟨_, hrows.block hall, by rw [Rows.length_flat, hrows.length], fun i r hr => ?_⟩
    have hget : rows[i]? = some r := by
      rw [List.getElem?_take] at hr
      split at hr
      · exact hr
      · cases hr
    exact Rows.load_row hget
  case chunks => exact hrows.chunk
  case room => rcases hrows.room with hlt | ⟨hnone, -⟩ <;> omega

/-- The first block. -/
theorem arrayInit_granted {m₀ : Heap} {initialCount : Nat} (hm : m₀.grants = true)
    (hfits : (Arr.blank k initialCount).Fits) :
    ∃ a, arrayInit m₀ k initialCount = some (0, a) ∧
      Becomes (Arr.blank k initialCount) ([] : List (Row UInt8 k)) a ∧ 0 < a.eAll := by
  obtain ⟨n, a, hcheck, hrows, hend, hroom, hall, hinc⟩ :=
    (holds_blank k initialCount).makeRoom (m := m₀) (Nat.zero_le 1) (fun _ => hfits) fun _ => hm
  have hzero : a.eEnd = 0 := hend
  refine ⟨a, hcheck, ⟨⟨_, hrows, ?_⟩, hall, hinc⟩, by omega⟩
  rw [hzero, List.take_zero]

theorem Represents.trace {xs : List (Row UInt8 k)} {a : Arr} (h : Represents xs a)
    (hall : 0 < a.eAll) {calls : List (ArrayOp k × Heap)} (hgrants : Along Granted a calls)
    (hfits : Along Fitting a calls) :
    ∃ trace, arrayTrace a calls = some trace ∧ RefinesRun xs a calls trace := by
  induction calls generalizing xs a with
  | nil => exact ⟨[], rfl, .nil⟩
  | cons c calls ih =>
    obtain ⟨op, m⟩ := c
    obtain ⟨a', fresh, happly, hbecomes, hunchanged⟩ := h.apply op hfits.1 hgrants.1
    have hall' : 0 < a'.eAll := Nat.lt_of_lt_of_le hall hbecomes.capacity
    obtain ⟨trace, htrace, hrun⟩ := ih hbecomes.represents hall' (hgrants.2 _ happly)
      (hfits.2 _ happly)
    refine ⟨_, by simp [arrayTrace, happly, htrace]; rfl, ?_⟩
    exact .cons fresh (hbecomes.represents.refines hall') hbecomes.capacity hbecomes.chunk
      hunchanged hrun

theorem array_refines_list (initialCount : Nat) (m₀ : Heap) (calls : List (ArrayOp k × Heap))
    (hgrants : m₀.grants = true ∧ FromInit Granted initialCount m₀ calls)
    (hfits : (Arr.blank k initialCount).Fits ∧ FromInit Fitting initialCount m₀ calls) :
    RefinesList initialCount m₀ calls := by
  obtain ⟨a, hinit, hbecomes, hall⟩ := arrayInit_granted hgrants.1 hfits.1
  obtain ⟨trace, htrace, hrun⟩ := hbecomes.represents.trace hall (hgrants.2 _ hinit)
    (hfits.2 _ hinit)
  exact ⟨a, trace, hinit, hbecomes.chunk, hbecomes.represents.refines hall, htrace, hrun⟩

/-- A heap that grants every request. -/
def granting : Heap := { grants := true, fresh := fun _ => 0xff }

def byte (x : UInt8) : Row UInt8 1 := ⟨[x], rfl⟩

/-- Elements appended, inserted, deleted, and one asked for out of range. -/
def fewCalls : List (ArrayOp 1 × Heap) :=
  [(.append (byte 1), granting), (.insert (byte 2) 0, granting), (.newAt 3, granting),
    (.new, granting), (.delete 0, granting), (.get 1, granting)]

theorem array_refines_list_fewCalls : RefinesList 2 granting fewCalls :=
  array_refines_list 2 granting fewCalls (by decide) (by decide)

/-- 2^60 + 1 elements of 16 bytes: the size of the block wraps to the first of them. -/
theorem wrapped_growth_overruns :
    ¬ ∀ (k initialCount : Nat) (m₀ : Heap) (calls : List (ArrayOp k × Heap)),
      m₀.grants = true ∧ FromInit Granted initialCount m₀ calls →
      RefinesList initialCount m₀ calls := by
  intro h
  obtain ⟨a, trace, hinit, -, -, htrace, -⟩ := h 16 (0x1000000000000001) granting
    [(.append (Row.fill 16 1), granting), (.append (Row.fill 16 2), granting)] (by decide)
  have hsecond : (arrayInit granting 16 (0x1000000000000001)).bind (fun r => arrayTrace r.2
      [(.append (Row.fill 16 1), granting), (.append (Row.fill 16 2), granting)]) = none := by
    decide
  rw [hinit] at hsecond
  exact absurd (htrace.symm.trans hsecond) (by simp)


/-! ## Refused growths -/

/-- What a caller expects of a call during which a growth may be refused. -/
structure Intact (a : Arr) (op : ArrayOp k) (m : Heap) (r : Result) (a' : Arr) : Prop where
  refused : op.Asks a → m.grants = false → r = .element none ∧ a' = a
  room : a'.eEnd ≤ a'.eAll
  inside : ∀ ptr, r = .element (some ptr) → ∃ block, a'.data = some block ∧ ptr + k ≤ block.length

inductive IntactRun : Arr → List (ArrayOp k × Heap) → List (Result × Arr) → Prop
  | nil {a : Arr} : IntactRun a [] []
  | cons {a a' : Arr} {op : ArrayOp k} {m : Heap} {r : Result} {calls : List (ArrayOp k × Heap)}
      {trace : List (Result × Arr)} (step : Intact a op m r a') (rest : IntactRun a' calls trace) :
      IntactRun a ((op, m) :: calls) ((r, a') :: trace)

/-- Whatever growths are refused, also the first one, every call leaves the array intact. -/
def StaysIntact (initialCount : Nat) (m₀ : Heap) (calls : List (ArrayOp k × Heap)) : Prop :=
  ∃ rc a trace, arrayInit m₀ k initialCount = some (rc, a) ∧ a.eEnd ≤ a.eAll ∧
    arrayTrace a calls = some trace ∧ IntactRun a calls trace

/-- The calls that look for the new element by its index. -/
def ArrayOp.Indexed : ArrayOp k → Prop
  | .newAt _ | .insert _ _ => True
  | .new | .append _ | .put _ _ | .delete _ | .get _ => False

/-- A refusal is noticed: no block is there, so that the pointer to element 0 is `NULL`. -/
def Noticed (a : Arr) (op : ArrayOp k) (m : Heap) : Prop :=
  op.Asks a → m.grants = false → a.data = none ∧ op.Indexed

instance : (op : ArrayOp k) → Decidable op.Indexed
  | .newAt _ | .insert _ _ => .isTrue trivial
  | .new | .append _ | .put _ _ | .delete _ | .get _ => .isFalse id

instance (a : Arr) (op : ArrayOp k) (m : Heap) : Decidable (Noticed a op m) :=
  inferInstanceAs (Decidable (_ → _ → _))

section Refusals

variable {xs : List (Row UInt8 k)} {a : Arr} {m : Heap} (h : Represents xs a) (hfull : a.full)
  (hfits : a.Fits) (hm : m.grants = false)
include h hfull hfits hm

theorem Represents.check_refused : arrayCheckAlloc m a 1 = some (-1, a) := by
  obtain ⟨rows, hrows, -⟩ := h
  exact hrows.arrayCheckAlloc_refused (Nat.le_refl 1) hfull hfits hm

/-- `array_new` counts an element that is not there. -/
theorem Represents.arrayNew_refused :
    Raw.arrayNew m a =
      some (Raw.arrayGet { a with eEnd := a.eEnd + 1 } a.eEnd, { a with eEnd := a.eEnd + 1 }) := by
  have hcheck := h.check_refused hfull hfits hm
  obtain ⟨rows, hrows, -⟩ := h
  simp [Raw.arrayNew, hcheck, hrows.end_fits]

/-- Without a block, `array_new_at` sees that it has no element to return. -/
theorem Represents.arrayNewAt_refused {index : Nat} (hi : index ≤ a.eEnd) (hdata : a.data = none) :
    Raw.arrayNewAt m a index = some (none, a) := by
  have hcheck := h.check_refused hfull hfits hm
  obtain ⟨rows, hrows, -⟩ := h
  have hall : a.eAll = 0 := by
    by_contra hne
    have := hrows.data
    rw [if_neg hne, hdata] at this
    cases this
  have hzero : index = 0 := by
    rcases hrows.room with hlt | ⟨-, hend⟩ <;> omega
  subst hzero
  have hptr : a.ptr (sizeT (0 * a.eSize)) = none := by simp [Arr.ptr, hdata, sizeT]
  simp only [Raw.arrayNewAt, hrows.bounds_one_iff.mpr hi, Bool.false_eq_true, if_false, hcheck,
    Option.bind_eq_bind, Option.bind_some, hptr]
  rfl

/-- With a block it returns a pointer all the same. -/
theorem Represents.arrayNewAt_unnoticed {index : Nat} (hi : index ≤ a.eEnd) (hdata : a.data ≠ none)
    {ptr : Option Nat} {a' : Arr} (hnew : Raw.arrayNewAt m a index = some (ptr, a')) :
    ptr ≠ none := by
  have hcheck := h.check_refused hfull hfits hm
  obtain ⟨rows, hrows, -⟩ := h
  have hall : index < a.eAll := by
    rcases hrows.room with hlt | ⟨hall, -⟩
    · omega
    · rw [hrows.data, if_pos hall] at hdata
      exact absurd rfl hdata
  simp only [Raw.arrayNewAt, hrows.bounds_one_iff.mpr hi, Bool.false_eq_true, if_false, hcheck,
    Option.bind_eq_bind, Option.bind_some, hrows.ptr hall] at hnew
  obtain ⟨a₁, -, hnew⟩ := Option.bind_eq_some_iff.mp hnew
  obtain ⟨a₂, -, hnew⟩ := Option.bind_eq_some_iff.mp hnew
  cases hnew
  exact Option.some_ne_none _

end Refusals

theorem fillNew_ptr {e : List UInt8} {p p' : Option Nat} {a a' : Arr}
    (h : fillNew e (p, a) = some (p', a')) : p' = p ∧ a'.eEnd = a.eEnd := by
  cases p with
  | none =>
    cases h
    exact ⟨rfl, rfl⟩
  | some ptr =>
    obtain ⟨bytes, -, h⟩ := Option.bind_eq_some_iff.mp h
    obtain ⟨a₁, hstore, h⟩ := Option.bind_eq_some_iff.mp h
    cases h
    obtain ⟨blk, -, hstore⟩ := Option.bind_eq_some_iff.mp hstore
    obtain ⟨blk', -, hstore⟩ := Option.bind_eq_some_iff.mp hstore
    cases hstore
    exact ⟨rfl, rfl⟩

/-- A refused growth is noticed and changes nothing. -/
theorem Represents.apply_noticed {xs : List (Row UInt8 k)} {a : Arr} (h : Represents xs a)
    {op : ArrayOp k} {m : Heap} (hasks : op.Asks a) (hfits : a.Fits) (hm : m.grants = false)
    (hnoticed : a.data = none ∧ op.Indexed) : op.apply m a = some (.element none, a) := by
  obtain ⟨hdata, hindexed⟩ := hnoticed
  cases op with
  | newAt index =>
    have hnew := h.arrayNewAt_refused hasks.2 hfits hm hasks.1 hdata
    simp [ArrayOp.apply, hnew]
  | insert e at' =>
    have hnew := h.arrayNewAt_refused hasks.2 hfits hm hasks.1 hdata
    simp [ArrayOp.apply, Raw.arrayInsert, Raw.fillNew, hnew]
  | new => exact hindexed.elim
  | append e => exact hindexed.elim
  | put e at' => exact hindexed.elim
  | delete at' => exact hindexed.elim
  | get index => exact hindexed.elim

/-- Any other refusal shows, in the count or in the pointer. -/
theorem Represents.apply_unnoticed {xs : List (Row UInt8 k)} {a : Arr} (h : Represents xs a)
    {op : ArrayOp k} {m : Heap} (hasks : op.Asks a) (hfits : a.Fits) (hm : m.grants = false)
    {r : Result} {a' : Arr} (happly : op.apply m a = some (r, a')) (hr : r = .element none)
    (ha' : a' = a) : a.data = none ∧ op.Indexed := by
  cases op with
  | new =>
    have hnew := h.arrayNew_refused hasks hfits hm
    simp only [ArrayOp.apply, hnew, Option.map_some, Option.some.injEq, Prod.mk.injEq] at happly
    have := congrArg Arr.eEnd (happly.2.trans ha')
    simp at this
  | append e =>
    have hnew := h.arrayNew_refused hasks hfits hm
    obtain ⟨⟨p, a₁⟩, hfill, heq⟩ := Option.map_eq_some_iff.mp happly
    cases heq
    rw [Raw.arrayAppend, hnew] at hfill
    have hend : a₁.eEnd = a.eEnd + 1 := (fillNew_ptr hfill).2
    have hsame : a₁ = a := ha'
    rw [hsame] at hend
    omega
  | newAt index =>
    refine ⟨?_, trivial⟩
    by_contra hdata
    obtain ⟨⟨p, a₁⟩, hnew, heq⟩ := Option.map_eq_some_iff.mp happly
    cases heq
    cases hr
    exact h.arrayNewAt_unnoticed hasks.2 hfits hm hasks.1 hdata hnew rfl
  | insert e at' =>
    refine ⟨?_, trivial⟩
    by_contra hdata
    obtain ⟨⟨p, a₁⟩, hinsert, heq⟩ := Option.map_eq_some_iff.mp happly
    cases heq
    cases hr
    obtain ⟨⟨p, a₂⟩, hnew, hfill⟩ := Option.bind_eq_some_iff.mp hinsert
    obtain ⟨rfl, -⟩ := fillNew_ptr hfill
    exact h.arrayNewAt_unnoticed hasks.2 hfits hm hasks.1 hdata hnew rfl
  | put e at' => exact hasks.elim
  | delete at' => exact hasks.elim
  | get index => exact hasks.elim

/-- The position of an element that is returned is one of the list. -/
theorem ArrayOp.spec_position {fresh : Row UInt8 k} {xs : List (Row UInt8 k)} {op : ArrayOp k}
    {i : Nat} (h : (op.spec fresh xs).1 = .element (some i)) :
    i < (op.spec fresh xs).2.length := by
  cases op with
  | new =>
    cases h
    simp [ArrayOp.spec]
  | append e =>
    cases h
    simp [ArrayOp.spec]
  | newAt index =>
    simp only [ArrayOp.spec] at h ⊢
    split at h
    · next hle =>
      cases h
      rw [if_pos hle, Block.length_insertAt, List.length_singleton]
      omega
    · cases h
  | insert e at' =>
    simp only [ArrayOp.spec] at h ⊢
    split at h
    · next hle =>
      cases h
      rw [if_pos hle, Block.length_insertAt, List.length_singleton]
      omega
    · cases h
  | put e at' =>
    simp only [ArrayOp.spec] at h ⊢
    split at h
    · next hlt =>
      cases h
      rwa [if_pos hlt, List.length_set]
    · cases h
  | delete at' =>
    simp only [ArrayOp.spec] at h
    split at h <;> cases h
  | get index =>
    simp only [ArrayOp.spec] at h ⊢
    split at h
    · next hlt =>
      cases h
      rwa [if_pos hlt]
    · cases h

theorem Represents.room {xs : List (Row UInt8 k)} {a : Arr} (h : Represents xs a) :
    a.eEnd ≤ a.eAll := by
  obtain ⟨rows, hrows, -⟩ := h
  rcases hrows.room with hlt | ⟨hall, hend⟩ <;> omega

/-- An element of the list lies inside the block. -/
theorem Represents.inside {xs : List (Row UInt8 k)} {a : Arr} (h : Represents xs a) {i : Nat}
    (hi : i < xs.length) : ∃ block, a.data = some block ∧ i * k + k ≤ block.length := by
  rw [h.length] at hi
  obtain ⟨rows, hrows, -⟩ := h
  have hall : i < a.eAll := by rcases hrows.room with hlt | ⟨-, hend⟩ <;> omega
  refine ⟨_, hrows.block (by omega), ?_⟩
  rw [Rows.length_flat, hrows.length, ← Nat.succ_mul]
  exact Nat.mul_le_mul_right k hall

/-- A call leaves the array intact, unless a refusal goes unnoticed. -/
theorem Represents.apply_intact {xs : List (Row UInt8 k)} {a : Arr} (h : Represents xs a)
    {op : ArrayOp k} {m : Heap} (hfits : op.Asks a → a.Fits) (hnoticed : Noticed a op m) :
    ∃ xs' r a', op.apply m a = some (r, a') ∧ @Represents k xs' a' ∧ Intact a op m r a' := by
  by_cases hrefused : op.Asks a ∧ m.grants = false
  · obtain ⟨hasks, hm⟩ := hrefused
    have happly := h.apply_noticed hasks (hfits hasks) hm (hnoticed hasks hm)
    exact ⟨xs, _, a, happly, h, fun _ _ => ⟨rfl, rfl⟩, h.room, fun ptr hptr => by cases hptr⟩
  · have hgrants : op.Asks a → m.grants = true := by
      intro hasks
      rw [← Bool.not_eq_false]
      exact fun hm => hrefused ⟨hasks, hm⟩
    obtain ⟨a', fresh, happly, hbecomes, -⟩ := h.apply op hfits hgrants
    have hrep := hbecomes.represents
    refine ⟨_, _, a', happly, hrep, ⟨fun hasks hm => absurd ⟨hasks, hm⟩ hrefused, hrep.room, ?_⟩⟩
    intro ptr hptr
    cases hspec : (op.spec fresh xs).1 with
    | count n =>
      rw [hspec] at hptr
      cases hptr
    | element index =>
      rw [hspec] at hptr
      cases index with
      | none => cases hptr
      | some i =>
        cases hptr
        exact hrep.inside (ArrayOp.spec_position hspec)

/-- The calls of a run leave the array intact until a refusal goes unnoticed. -/
theorem Represents.run_intact_iff {xs : List (Row UInt8 k)} {a : Arr} (h : Represents xs a)
    {calls : List (ArrayOp k × Heap)} (hfits : Along Fitting a calls) :
    (∃ trace, arrayTrace a calls = some trace ∧ IntactRun a calls trace) ↔
      Along Noticed a calls := by
  induction calls generalizing xs a with
  | nil => exact ⟨fun _ => trivial, fun _ => ⟨[], rfl, .nil⟩⟩
  | cons c calls ih =>
    obtain ⟨op, m⟩ := c
    constructor
    · rintro ⟨trace, htrace, hrun⟩
      cases hrun with
      | @cons _ a' _ _ r _ trace hstep hrest =>
        obtain ⟨⟨r₁, a₁⟩, happly, hbind⟩ := Option.bind_eq_some_iff.mp htrace
        obtain ⟨trace₁, htrace₁, heq⟩ := Option.bind_eq_some_iff.mp hbind
        cases heq
        have hnoticed : Noticed a op m := fun hasks hm =>
          h.apply_unnoticed hasks (hfits.1 hasks) hm happly (hstep.refused hasks hm).1
            (hstep.refused hasks hm).2
        obtain ⟨xs', r', a'', happly', hrep, -⟩ := h.apply_intact hfits.1 hnoticed
        cases happly.symm.trans happly'
        refine ⟨hnoticed, fun q hq => ?_⟩
        cases hq.symm.trans happly
        exact (ih hrep (hfits.2 _ happly)).mp ⟨_, htrace₁, hrest⟩
    · rintro ⟨hnoticed, hnext⟩
      obtain ⟨xs', r, a', happly, hrep, hstep⟩ := h.apply_intact hfits.1 hnoticed
      obtain ⟨trace, htrace, hrun⟩ := (ih hrep (hfits.2 _ happly)).mpr (hnext _ happly)
      exact ⟨_, by simp [arrayTrace, happly, htrace], .cons hstep hrun⟩

/-- The first growth may be refused as well: then there is no block. -/
theorem arrayInit_represents {m₀ : Heap} {initialCount : Nat}
    (hfits : (Arr.blank k initialCount).Fits) :
    ∃ rc a, arrayInit m₀ k initialCount = some (rc, a) ∧
      Represents ([] : List (Row UInt8 k)) a := by
  cases hm : m₀.grants with
  | true =>
    obtain ⟨a, hinit, hbecomes, -⟩ := arrayInit_granted hm hfits
    exact ⟨0, a, hinit, hbecomes.represents⟩
  | false =>
    have hblank := holds_blank k initialCount
    have hcheck := hblank.arrayCheckAlloc_refused (Nat.zero_le 1) (blank_full k initialCount)
      hfits hm
    exact ⟨-1, _, hcheck, [], hblank, rfl⟩

theorem refused_growth_intact_iff (initialCount : Nat) (m₀ : Heap)
    (calls : List (ArrayOp k × Heap))
    (hfits : (Arr.blank k initialCount).Fits ∧ FromInit Fitting initialCount m₀ calls) :
    StaysIntact initialCount m₀ calls ↔ FromInit Noticed initialCount m₀ calls := by
  obtain ⟨rc, a, hinit, hrep⟩ := @arrayInit_represents k m₀ initialCount hfits.1
  have hiff := hrep.run_intact_iff (hfits.2 _ hinit)
  constructor
  · rintro ⟨rc', a', trace, hinit', -, htrace, hrun⟩ q hq
    cases hinit.symm.trans hinit'
    cases hq.symm.trans hinit
    exact hiff.mp ⟨trace, htrace, hrun⟩
  · intro hnoticed
    obtain ⟨trace, htrace, hrun⟩ := hiff.mpr (hnoticed _ hinit)
    exact ⟨rc, a, trace, hinit, hrep.room, htrace, hrun⟩

/-- A heap that refuses every request. -/
def refusing : Heap := { grants := false, fresh := fun _ => 0xff }

theorem refused_growth_intact_without_block : StaysIntact 2 refusing
    [(.newAt 0, refusing), (.insert (byte 1) 0, refusing), (.insert (byte 2) 0, granting)] :=
  (refused_growth_intact_iff 2 refusing _ (by decide)).mpr (by decide)

/-- With a block of two elements and one in use, a refused `array_new` returns the spare one. -/
theorem refused_growth_unnoticed :
    ¬ ∀ (k initialCount : Nat) (m₀ : Heap) (calls : List (ArrayOp k × Heap)),
      StaysIntact initialCount m₀ calls := by
  intro h
  obtain ⟨rc, a, trace, hinit, -, htrace, hrun⟩ :=
    h 1 2 granting [(.new, granting), (.new, refusing)]
  have hblock : arrayInit granting 1 2 =
      some (0, { eSize := 1, eAll := 2, eEnd := 0, eInc := 2, data := some [0, 0] }) := by decide
  cases hblock.symm.trans hinit
  have hcalls : arrayTrace { eSize := 1, eAll := 2, eEnd := 0, eInc := 2, data := some [0, 0] }
      [((.new : ArrayOp 1), granting), (.new, refusing)] = some
        [(.element (some 0), { eSize := 1, eAll := 2, eEnd := 1, eInc := 2, data := some [0, 0] }),
          (.element (some 1),
            { eSize := 1, eAll := 2, eEnd := 2, eInc := 2, data := some [0, 0] })] := by
    decide
  cases hcalls.symm.trans htrace
  cases hrun with
  | cons _ hrest =>
    cases hrest with
    | cons hstep _ =>
      have hnull := (hstep.refused (by decide) rfl).1
      cases hnull

end Hdmi2usbd.Raw
