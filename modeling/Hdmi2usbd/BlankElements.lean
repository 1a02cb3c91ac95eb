import Hdmi2usbd.ArrayRuns

/-!
# BlankElements — what `array_new` finds in a new element

`array_new_at` clears the element that it makes. `array_new` relies on the block having been
cleared when it grew, and on every element that is not in use being as blank as it was then. A
deletion breaks that: it leaves the bytes of the last element where they were, now behind the end.
So a new element is blank in every state of a run exactly when each deletion leaves a blank one
behind (`always_blank_iff`).
-/

namespace Hdmi2usbd.Raw

open Rows (Row)

variable {k : Nat}

/-- The bytes of an element of the block, also one that is not in use. -/
def Arr.element (a : Arr) (index : Nat) : Option (List UInt8) := do
  Block.load (← a.data) (index * a.eSize) a.eSize

/-- An element that `array_new` makes is all zero, and the array is left as by `array_new_at` for
the index after the last. -/
def NewIsBlank (m : Heap) (a : Arr) : Prop :=
  ∃ new a', arrayNew m a = some (new, a') ∧ ∀ ptr, new = some ptr →
    (a'.data.bind fun block => Block.load block ptr a.eSize) = some (List.replicate a.eSize 0) ∧
      arrayNewAt m a a.eEnd = some (some ptr, a')

/-- Something holds before, between and after the calls of a run. -/
def Always (P : Arr → Prop) (a : Arr) : List (ArrayOp k × Heap) → Prop
  | [] => P a
  | (op, m) :: calls => P a ∧ ∀ r ∈ op.apply m a, Always P r.2 calls

theorem Always.head {P : Arr → Prop} {a : Arr} {calls : List (ArrayOp k × Heap)}
    (h : Always P a calls) : P a := by
  cases calls with
  | nil => exact h
  | cons c calls => exact h.1

/-- In every state of the run, the next `array_new` makes a blank element. -/
def AlwaysBlank (initialCount : Nat) (m₀ : Heap) (calls : List (ArrayOp k × Heap)) : Prop :=
  ∀ r ∈ arrayInit m₀ k initialCount,
    Always (fun a => ∀ m, (a.full → a.Fits) → NewIsBlank m a) r.2 calls

/-- A deletion finds the last element blank, which is the one it leaves behind. -/
def LeavesBlank (a : Arr) (op : ArrayOp k) (_ : Heap) : Prop :=
  match op with
  | .delete at' => at' < a.eEnd → a.element (a.eEnd - 1) = some (List.replicate a.eSize 0)
  | _ => True

instance (a : Arr) (m : Heap) : (op : ArrayOp k) → Decidable (LeavesBlank a op m)
  | .delete at' => inferInstanceAs (Decidable (at' < a.eEnd → _ = _))
  | .new | .newAt _ | .append _ | .insert _ _ | .put _ _ | .get _ => .isTrue trivial

/-! ## The rows that are not in use -/

/-- All rows are blank from `used` on. -/
def Cleared (used : Nat) (rows : List (Row UInt8 k)) : Prop :=
  ∀ r ∈ rows.drop used, r = Row.fill k 0

section Cleared

variable {used : Nat} {rows rows' : List (Row UInt8 k)} (h : Cleared used rows)

include h

theorem Cleared.mono {used' : Nat} (hle : used ≤ used') : Cleared used' rows := by
  intro r hr
  rw [← Nat.add_sub_cancel' hle, ← List.drop_drop] at hr
  exact h r (List.mem_of_mem_drop hr)

/-- A growth adds blank rows. -/
theorem Cleared.grow (hle : used ≤ rows.length) (n : Nat) :
    Cleared used (rows ++ List.replicate n (Row.fill k 0)) := by
  intro r hr
  rw [List.drop_append_of_le_length hle] at hr
  rcases List.mem_append.mp hr with hr | hr
  · exact h r hr
  · exact List.eq_of_mem_replicate hr

theorem Cleared.of_drop (heq : rows'.drop used = rows.drop used) : Cleared used rows' := by
  rw [Cleared, heq]
  exact h

theorem Cleared.set {i : Nat} (hi : i < used) (e : Row UInt8 k) : Cleared used (rows.set i e) :=
  h.of_drop (List.drop_set_of_lt hi)

theorem Cleared.getElem? (hlt : used < rows.length) : rows[used]? = some (Row.fill k 0) := by
  rw [List.getElem?_eq_getElem hlt, Option.some.injEq]
  refine h _ ?_
  rw [List.drop_eq_getElem_cons hlt]
  exact List.mem_cons_self

end Cleared

/-- One row less is in use, and it is blank. -/
theorem Cleared.pred {used : Nat} {rows : List (Row UInt8 k)} (h : Cleared (used + 1) rows)
    (hrow : rows[used]? = some (Row.fill k 0)) : Cleared used rows := by
  obtain ⟨hlt, hblank⟩ := List.getElem?_eq_some_iff.mp hrow
  intro r hr
  rw [List.drop_eq_getElem_cons hlt] at hr
  rcases List.mem_cons.mp hr with rfl | hr
  · exact hblank
  · exact h r hr

/-! ## A new element -/

/-- A write does not look at how many elements are in use. -/
theorem Arr.store_withEnd (a : Arr) (n ptr : Nat) (bytes : List UInt8) :
    ({ a with eEnd := n } : Arr).store ptr bytes =
      (a.store ptr bytes).map fun a => { a with eEnd := n } := by
  unfold Arr.store
  cases a.data with
  | none => rfl
  | some block =>
    cases hstore : Block.store block ptr bytes with
    | none => simp [hstore]
    | some block' => simp [hstore]

section New

variable {rows rows₁ : List (Row UInt8 k)} {a a₁ : Arr} (h : Holds rows a)
include h

theorem Holds.element_blank_iff {i : Nat} {r : Row UInt8 k} (hr : rows[i]? = some r) :
    a.element i = some (List.replicate a.eSize 0) ↔ r = Row.fill k 0 := by
  obtain ⟨hi, -⟩ := List.getElem?_eq_some_iff.mp hr
  have hbytes : a.element i = some r.val := by
    rw [Arr.element, h.block (by rw [← h.length]; exact Nat.zero_lt_of_lt hi), h.size]
    exact Rows.load_row hr
  rw [hbytes, h.size, Option.some.injEq, Subtype.ext_iff]
  rfl

/-- Unless there is no block to be had, there is an element after those in use, whether a growth
is granted or refused. -/
theorem Holds.check {m : Heap} (hfits : a.full → a.Fits) (hblock : m.grants = false → 0 < a.eAll) :
    ∃ rc n a₁, arrayCheckAlloc m a 1 = some (rc, a₁) ∧
      Holds (rows ++ List.replicate n (Row.fill k 0)) a₁ ∧ a₁.eEnd = a.eEnd ∧ a.eEnd < a₁.eAll := by
  by_cases hrefused : a.full ∧ m.grants = false
  -- a refused growth leaves the block, whose last row is spare
  · refine ⟨-1, 0, a, h.arrayCheckAlloc_refused (Nat.le_refl 1) hrefused.1 (hfits hrefused.1)
      hrefused.2, ?_, rfl, ?_⟩
    · rw [List.replicate_zero, List.append_nil]
      exact h
    · have hpos := hblock hrefused.2
      rcases h.room with hlt | ⟨hall, -⟩ <;> omega
  · have hgrants : a.full → m.grants = true := by
      intro hfull
      rw [← Bool.not_eq_false]
      exact fun hm => hrefused ⟨hfull, hm⟩
    obtain ⟨n, a₁, hcheck, h₁, hend, hroom, -⟩ := h.makeRoom (Nat.le_refl 1) hfits hgrants
    exact ⟨0, n, a₁, hcheck, h₁, hend, by omega⟩

/-- The two ways to make an element after those in use. -/
theorem Holds.new_of_check {m : Heap} {rc : Int} (hcheck : arrayCheckAlloc m a 1 = some (rc, a₁))
    (h₁ : Holds rows₁ a₁) (hend : a₁.eEnd = a.eEnd) (hroom : a.eEnd < a₁.eAll) :
    Raw.arrayNew m a = some (some (a.eEnd * k), { a₁ with eEnd := a.eEnd + 1 }) ∧
      Raw.arrayNewAt m a a.eEnd = some (some (a.eEnd * k), { a₁ with
        eEnd := a.eEnd + 1
        data := some (Rows.flat (rows₁.set a.eEnd (Row.fill k 0))) }) := by
  have hsize := h₁.end_fits
  rw [hend] at hsize
  have hptr := h₁.ptr hroom
  constructor
  · have hbounds : arrayCheckBounds { a₁ with eEnd := a.eEnd + 1 } a.eEnd 0 = false := by
      simp [arrayCheckBounds, hsize]
    simp only [Raw.arrayNew, hcheck, Option.bind_eq_bind, Option.bind_some, hend, hsize,
      Raw.arrayGet, hbounds, Bool.false_eq_true, if_false]
    exact congrArg (fun p => some (p, _)) hptr
  · have hclear := h₁.store hroom (Row.fill k 0)
    obtain rfl := h₁.size
    simp only [Raw.arrayNewAt, h.bounds_one_iff.mpr (Nat.le_refl _), Bool.false_eq_true, if_false,
      hcheck, Option.bind_eq_bind, Option.bind_some, hptr, hend, Nat.sub_self, Arr.shift,
      Nat.lt_irrefl, gt_iff_lt, hsize]
    exact Option.bind_eq_some_iff.mpr ⟨_, (Arr.store_withEnd _ _ _ _).trans
      (congrArg (Option.map _) hclear), rfl⟩

/-- The new element is what the row after those in use holds. -/
theorem Holds.newIsBlank_iff {m : Heap} {rc : Int} {r : Row UInt8 k}
    (hcheck : arrayCheckAlloc m a 1 = some (rc, a₁)) (h₁ : Holds rows₁ a₁)
    (hend : a₁.eEnd = a.eEnd) (hr : rows₁[a.eEnd]? = some r) :
    NewIsBlank m a ↔ r = Row.fill k 0 := by
  obtain ⟨hlt, hget⟩ := List.getElem?_eq_some_iff.mp hr
  have hroom : a.eEnd < a₁.eAll := by rwa [← h₁.length]
  have hblock := h₁.block (Nat.zero_lt_of_lt hroom)
  obtain ⟨hnew, hnewAt⟩ := h.new_of_check hcheck h₁ hend hroom
  have hbytes : (a₁.data.bind fun block => Block.load block (a.eEnd * k) a.eSize) = some r.val := by
    rw [hblock, h.size]
    exact Rows.load_row hr
  have hzero : some r.val = some (List.replicate a.eSize 0) ↔ r = Row.fill k 0 := by
    rw [h.size, Option.some.injEq, Subtype.ext_iff]
    rfl
  constructor
  · rintro ⟨new, a', hnew', hblank⟩
    cases hnew.symm.trans hnew'
    exact hzero.mp (hbytes.symm.trans (hblank _ rfl).1)
  · intro hfill
    refine ⟨_, _, hnew, ?_⟩
    rintro ptr ⟨⟩
    -- clearing a row that is blank already changes nothing
    have hsame : rows₁.set a.eEnd (Row.fill k 0) = rows₁ := by
      rw [← hfill, ← hget, List.set_getElem_self]
    refine ⟨hbytes.trans (hzero.mpr hfill), hnewAt.trans ?_⟩
    rw [hsame, ← hblock]

/-- Without a block, and without a growth, there is no new element. -/
theorem Holds.newIsBlank_none {m : Heap} (hfits : a.full → a.Fits) (hnone : a.eAll = 0)
    (hm : m.grants = false) : NewIsBlank m a := by
  have hfull : a.full := by
    unfold Arr.full
    omega
  have hend : a.eEnd = 0 := by
    rcases h.room with hlt | ⟨-, hend⟩ <;> omega
  have hdata : a.data = none := by rw [h.data, if_pos hnone]
  have hrep : Represents (rows.take a.eEnd) a := ⟨rows, h, rfl⟩
  have hget : Raw.arrayGet { a with eEnd := a.eEnd + 1 } a.eEnd = none := by
    rw [hend]
    simp [Raw.arrayGet, arrayCheckBounds, Arr.ptr, hdata, sizeT]
  refine ⟨_, _, hrep.arrayNew_refused hfull (hfits hfull) hm, ?_⟩
  rw [hget]
  intro ptr hptr
  cases hptr

end New

/-! ## Runs -/

/-- The block holds rows, and those that are not in use are blank. -/
def Tidy (k : Nat) (a : Arr) : Prop := ∃ rows : List (Row UInt8 k), Holds rows a ∧ Cleared a.eEnd rows

theorem Tidy.newIsBlank {a : Arr} (h : Tidy k a) (m : Heap) (hfits : a.full → a.Fits) :
    NewIsBlank m a := by
  obtain ⟨rows, hrows, hclear⟩ := h
  by_cases hnone : a.eAll = 0 ∧ m.grants = false
  · exact hrows.newIsBlank_none hfits hnone.1 hnone.2
  · obtain ⟨rc, n, a₁, hcheck, h₁, hend, hroom⟩ :=
      hrows.check hfits fun hm => Nat.pos_of_ne_zero fun hzero => hnone ⟨hzero, hm⟩
    have hspare := (hclear.grow hrows.end_le n).getElem? (by rwa [h₁.length])
    exact (hrows.newIsBlank_iff hcheck h₁ hend hspare).mpr rfl

theorem Tidy.fillNew {a : Arr} (h : Tidy k a) {at' : Nat} (hat : at' < a.eEnd) (e : Row UInt8 k) :
    ∃ a', fillNew e.val (some (at' * k), a) = some (some (at' * k), a') ∧ Tidy k a' := by
  obtain ⟨rows, hrows, hclear⟩ := h
  have hall : at' < a.eAll := by rcases hrows.room with hlt | ⟨-, hend⟩ <;> omega
  exact ⟨_, hrows.fillNew hall e, _, hrows.withRows List.length_set (by omega), hclear.set hat e⟩

theorem Tidy.arrayNew {a : Arr} (h : Tidy k a) {m : Heap} (hfits : a.full → a.Fits)
    (hm : a.full → m.grants = true) :
    ∃ a', Raw.arrayNew m a = some (some (a.eEnd * k), a') ∧ Tidy k a' ∧ a'.eEnd = a.eEnd + 1 := by
  obtain ⟨rows, hrows, hclear⟩ := h
  obtain ⟨n, a', hnew, hrows', hend, -⟩ := hrows.arrayNew hfits hm
  refine ⟨a', hnew, ⟨_, hrows', ?_⟩, hend⟩
  rw [hend]
  exact (hclear.grow hrows.end_le n).mono (Nat.le_succ _)

theorem Tidy.arrayNewAt {a : Arr} (h : Tidy k a) {m : Heap} {index : Nat} (hi : index ≤ a.eEnd)
    (hfits : a.full → a.Fits) (hm : a.full → m.grants = true) :
    ∃ a', Raw.arrayNewAt m a index = some (some (index * k), a') ∧ Tidy k a' ∧
      a'.eEnd = a.eEnd + 1 := by
  obtain ⟨rows, hrows, hclear⟩ := h
  obtain ⟨n, rows', a', hnew, hrows', hend, -, -, -, hdrop⟩ := hrows.arrayNewAt hi hfits hm
  refine ⟨a', hnew, ⟨rows', hrows', ?_⟩, hend⟩
  rw [hend]
  exact ((hclear.grow hrows.end_le n).mono (Nat.le_succ _)).of_drop hdrop

/-- A deletion leaves the array tidy if the element that it leaves behind is blank; and that one is
what the next `array_new` finds. -/
theorem Tidy.arrayDelete {a : Arr} (h : Tidy k a) {at' : Nat} (hat : at' < a.eEnd) :
    ∃ a', Raw.arrayDelete a at' = some (a.eEnd - 1, a') ∧ ¬ a'.full ∧
      (a.element (a.eEnd - 1) = some (List.replicate a.eSize 0) → Tidy k a') ∧
      ∀ m, NewIsBlank m a' → a.element (a.eEnd - 1) = some (List.replicate a.eSize 0) := by
  obtain ⟨rows, hrows, hclear⟩ := h
  obtain ⟨rows', hdelete, hlen, -, hdrop⟩ := hrows.arrayDelete hat
  have hroom : a.eEnd < a.eAll := by rcases hrows.room with hlt | ⟨-, hend⟩ <;> omega
  have hlast : a.eEnd - 1 < rows.length := by
    rw [hrows.length]
    omega
  have hold := List.getElem?_eq_getElem hlast
  -- the rows move only below the last element, so its bytes stay where they are
  have hspare : rows'[a.eEnd - 1]? = some rows[a.eEnd - 1] := by
    rw [← hold, ← List.head?_drop, hdrop, List.head?_drop]
  have hrows' := (hrows.withRows hlen (by omega)).withEnd (n := a.eEnd - 1) (by simp only; omega)
  have hfree : ¬ Arr.full { a with eEnd := a.eEnd - 1, data := some (Rows.flat rows') } := by
    simp only [Arr.full]
    omega
  refine ⟨_, hdelete, hfree, ?_, ?_⟩
  -- with the last element blank, one row less is in use and still all spare ones are blank
  · intro hblank
    rw [hrows.element_blank_iff hold] at hblank
    have hpred : Cleared (a.eEnd - 1) rows :=
      Cleared.pred (hclear.mono (by omega)) (hold.trans (congrArg some hblank))
    exact ⟨rows', hrows', hpred.of_drop hdrop⟩
  · intro m hnew
    rw [hrows.element_blank_iff hold]
    exact (hrows'.newIsBlank_iff (hrows'.arrayCheckAlloc_free (Nat.le_refl 1) hfree) hrows' rfl
      hspare).mp hnew

/-- A call in range on a tidy array, whose growth is granted. -/
theorem Tidy.apply_in {xs : List (Row UInt8 k)} {a : Arr} (h : Tidy k a) (hlen : xs.length = a.eEnd)
    {op : ArrayOp k} {m : Heap} (hin : ¬ op.OutOfRange xs) (hfits : Fitting a op m)
    (hm : op.Asks a → m.grants = true) (hleaves : LeavesBlank a op m) :
    ∃ r a', op.apply m a = some (r, a') ∧ Tidy k a' := by
  cases op with
  | new =>
    obtain ⟨a', hnew, htidy, -⟩ := h.arrayNew hfits hm
    exact ⟨_, a', by rw [ArrayOp.apply, hnew]; rfl, htidy⟩
  | append e =>
    obtain ⟨a₁, hnew, htidy₁, hend⟩ := h.arrayNew hfits hm
    obtain ⟨a', hfill, htidy⟩ := htidy₁.fillNew (by rw [hend]; exact Nat.lt_succ_self _) e
    exact ⟨_, a', by simp [ArrayOp.apply, Raw.arrayAppend, hnew, hfill]; rfl, htidy⟩
  | newAt index =>
    have hle : index ≤ a.eEnd := hlen ▸ Nat.le_of_not_lt hin
    obtain ⟨a', hnew, htidy, -⟩ := h.arrayNewAt hle (fun hf => hfits ⟨hle, hf⟩) fun hf => hm ⟨hle, hf⟩
    exact ⟨_, a', by rw [ArrayOp.apply, hnew]; rfl, htidy⟩
  | insert e at' =>
    have hle : at' ≤ a.eEnd := hlen ▸ Nat.le_of_not_lt hin
    obtain ⟨a₁, hnew, htidy₁, hend⟩ :=
      h.arrayNewAt hle (fun hf => hfits ⟨hle, hf⟩) fun hf => hm ⟨hle, hf⟩
    obtain ⟨a', hfill, htidy⟩ := htidy₁.fillNew (by rw [hend]; exact Nat.lt_succ_of_le hle) e
    exact ⟨_, a', by simp [ArrayOp.apply, Raw.arrayInsert, hnew, hfill]; rfl, htidy⟩
  | put e at' =>
    have hlt : at' < a.eEnd := hlen ▸ Nat.lt_of_not_le hin
    obtain ⟨a', hfill, htidy⟩ := h.fillNew hlt e
    have hget : Raw.arrayGet a at' = some (at' * k) := by
      obtain ⟨rows, hrows, -⟩ := h
      exact hrows.arrayGet hlt
    have hput : Raw.arrayPut a e.val at' = some (some (at' * k), a') := by
      rw [Raw.arrayPut, hget]
      exact hfill
    exact ⟨_, a', by rw [ArrayOp.apply, hput]; rfl, htidy⟩
  | delete at' =>
    have hlt : at' < a.eEnd := hlen ▸ Nat.lt_of_not_le hin
    obtain ⟨a', hdelete, -, htidy, -⟩ := h.arrayDelete hlt
    exact ⟨_, a', by rw [ArrayOp.apply, hdelete]; rfl, htidy (hleaves hlt)⟩
  | get index => exact ⟨_, a, rfl, h⟩

theorem Tidy.represents {a : Arr} (h : Tidy k a) : ∃ xs : List (Row UInt8 k), Represents xs a := by
  obtain ⟨rows, hrows, -⟩ := h
  exact ⟨_, rows, hrows, rfl⟩

/-- A call keeps the array tidy if a deletion leaves a blank element behind. -/
theorem Tidy.apply {a : Arr} (h : Tidy k a) {op : ArrayOp k} {m : Heap} (hfits : Fitting a op m)
    (hnoticed : Noticed a op m) (hleaves : LeavesBlank a op m) :
    ∃ r a', op.apply m a = some (r, a') ∧ Tidy k a' := by
  obtain ⟨xs, hxs⟩ := h.represents
  by_cases hout : op.OutOfRange xs
  · exact ⟨_, a, (hxs.apply_out hout (Row.fill k 0)).1, h⟩
  by_cases hrefused : op.Asks a ∧ m.grants = false
  · obtain ⟨hasks, hm⟩ := hrefused
    exact ⟨_, a, hxs.apply_noticed hasks (hfits hasks) hm (hnoticed hasks hm), h⟩
  · refine h.apply_in hxs.length hout hfits (fun hasks => ?_) hleaves
    rw [← Bool.not_eq_false]
    exact fun hm => hrefused ⟨hasks, hm⟩

/-- If the next element after a call is blank, the call has left a blank one behind. -/
theorem Tidy.leavesBlank {a : Arr} (h : Tidy k a) {op : ArrayOp k} {m : Heap}
    (hnext : ∀ r ∈ op.apply m a, ∀ m, (r.2.full → r.2.Fits) → NewIsBlank m r.2) :
    LeavesBlank a op m := by
  cases op with
  | delete at' =>
    intro hat
    obtain ⟨a', hdelete, hfree, -, hblank⟩ := h.arrayDelete hat
    have hafter := hnext (.count (a.eEnd - 1), a') (by rw [ArrayOp.apply, hdelete]; rfl)
    exact hblank m (hafter m fun hfull => absurd hfull hfree)
  | _ => trivial

theorem Tidy.run_blank_iff {a : Arr} (h : Tidy k a) {calls : List (ArrayOp k × Heap)}
    (hfits : Along Fitting a calls) (hnoticed : Along Noticed a calls) :
    Always (fun a => ∀ m, (a.full → a.Fits) → NewIsBlank m a) a calls ↔
      Along LeavesBlank a calls := by
  induction calls generalizing a with
  | nil => exact iff_of_true (fun m hfull => h.newIsBlank m hfull) trivial
  | cons c calls ih =>
    obtain ⟨op, m⟩ := c
    constructor
    · rintro ⟨-, hnext⟩
      -- the state after the call is blank in particular, which says what a deletion left
      have hleaves : LeavesBlank a op m := h.leavesBlank fun r hr => (hnext r hr).head
      obtain ⟨r, a', happly, htidy⟩ := h.apply hfits.1 hnoticed.1 hleaves
      refine ⟨hleaves, fun q hq => ?_⟩
      cases hq.symm.trans happly
      exact (ih htidy (hfits.2 _ happly) (hnoticed.2 _ happly)).mp (hnext _ happly)
    · rintro ⟨hleaves, hnext⟩
      obtain ⟨r, a', happly, htidy⟩ := h.apply hfits.1 hnoticed.1 hleaves
      refine ⟨fun m hfull => h.newIsBlank m hfull, fun q hq => ?_⟩
      cases hq.symm.trans happly
      exact (ih htidy (hfits.2 _ happly) (hnoticed.2 _ happly)).mpr (hnext _ happly)

/-- The first block is cleared; and without one there is nothing to clear. -/
theorem arrayInit_tidy {m₀ : Heap} {initialCount : Nat} (hfits : (Arr.blank k initialCount).Fits) :
    ∃ rc a, arrayInit m₀ k initialCount = some (rc, a) ∧ Tidy k a := by
  have hblank := holds_blank k initialCount
  have hnone : Cleared 0 ([] : List (Row UInt8 k)) := fun r hr => by cases hr
  cases hm : m₀.grants with
  | true =>
    obtain ⟨n, a, hcheck, hrows, hend, -⟩ :=
      hblank.makeRoom (m := m₀) (Nat.zero_le 1) (fun _ => hfits) fun _ => hm
    refine ⟨0, a, hcheck, _, hrows, ?_⟩
    rw [hend]
    exact hnone.grow (Nat.le_refl _) n
  | false =>
    exact ⟨-1, _, hblank.arrayCheckAlloc_refused (Nat.zero_le 1) (blank_full k initialCount) hfits hm,
      [], hblank, hnone⟩

theorem always_blank_iff (initialCount : Nat) (m₀ : Heap) (calls : List (ArrayOp k × Heap))
    (hfits : (Arr.blank k initialCount).Fits ∧ FromInit Fitting initialCount m₀ calls)
    (hnoticed : FromInit Noticed initialCount m₀ calls) :
    AlwaysBlank initialCount m₀ calls ↔ FromInit LeavesBlank initialCount m₀ calls := by
  obtain ⟨rc, a, hinit, htidy⟩ := @arrayInit_tidy k m₀ initialCount hfits.1
  have hiff := htidy.run_blank_iff (hfits.2 _ hinit) (hnoticed _ hinit)
  constructor
  · intro h q hq
    cases hq.symm.trans hinit
    exact hiff.mp (h _ hinit)
  · intro h q hq
    cases hq.symm.trans hinit
    exact hiff.mpr (h _ hinit)

/-- An element is deleted while the last one has never been written. -/
def blankDeletion : List (ArrayOp 1 × Heap) :=
  [(.append (byte 1), granting), (.new, granting), (.delete 0, granting), (.new, granting)]

theorem always_blank_blankDeletion : AlwaysBlank 2 granting blankDeletion :=
  (always_blank_iff 2 granting blankDeletion (by decide) (by decide)).mpr (by decide)

/-- The only element is deleted, and found again in the next one. -/
theorem deleted_element_returns :
    ¬ ∀ (k initialCount : Nat) (m₀ : Heap) (calls : List (ArrayOp k × Heap)),
      AlwaysBlank initialCount m₀ calls := by
  intro h
  have hrun := h 1 2 granting [(.append (byte 7), granting), (.delete 0, granting)]
  -- the block after each call; the deletion leaves the 7 behind the end
  have hblock : arrayInit granting 1 2 =
      some (0, { eSize := 1, eAll := 2, eEnd := 0, eInc := 2, data := some [0, 0] }) := by decide
  have happend : (ArrayOp.append (byte 7)).apply granting
      { eSize := 1, eAll := 2, eEnd := 0, eInc := 2, data := some [0, 0] } = some (.element (some 0),
        { eSize := 1, eAll := 2, eEnd := 1, eInc := 2, data := some [7, 0] }) := by decide
  have hdelete : (ArrayOp.delete 0 : ArrayOp 1).apply granting
      { eSize := 1, eAll := 2, eEnd := 1, eInc := 2, data := some [7, 0] } = some (.count 0,
        { eSize := 1, eAll := 2, eEnd := 0, eInc := 2, data := some [7, 0] }) := by decide
  have hnew : arrayNew granting
      { eSize := 1, eAll := 2, eEnd := 0, eInc := 2, data := some [7, 0] } = some (some 0,
        { eSize := 1, eAll := 2, eEnd := 1, eInc := 2, data := some [7, 0] }) := by decide
  obtain ⟨new, a', hnew', hblank⟩ :=
    ((hrun _ hblock).2 _ happend).2 _ hdelete granting (by decide)
  cases hnew.symm.trans hnew'
  have hzero := (hblank 0 rfl).1
  revert hzero
  decide

end Hdmi2usbd.Raw
