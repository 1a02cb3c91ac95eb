import Mathlib.Data.List.Basic

/-!
# Block — a block of memory with checked copies

A block is the list of its cells. `store` and `load` are the two halves of
`memcpy`/`memmove`: each names the range it touches and is `none` when that
range leaves the block, so that "every copy stays inside" is the statement that
a program built from them returns `some`.
-/

namespace Block

variable {α : Type*}

/-- Write `src` at offset `off`. -/
def store (blk : List α) (off : Nat) (src : List α) : Option (List α) :=
  if off + src.length ≤ blk.length then
    some (blk.take off ++ src ++ blk.drop (off + src.length))
  else none

/-- Read `n` cells from offset `off`. -/
def load (blk : List α) (off n : Nat) : Option (List α) :=
  if off + n ≤ blk.length then some ((blk.drop off).take n) else none

/-- `memmove` of `n` cells inside one block. -/
def move (blk : List α) (dst src n : Nat) : Option (List α) := do
  store blk dst (← load blk src n)

theorem store_eq {blk src : List α} {off : Nat} (h : off + src.length ≤ blk.length) :
    store blk off src = some (blk.take off ++ src ++ blk.drop (off + src.length)) := by
  simp [store, h]

theorem load_eq {blk : List α} {off n : Nat} (h : off + n ≤ blk.length) :
    load blk off n = some ((blk.drop off).take n) := by
  simp [load, h]

/-- A store of one cell. -/
theorem store_singleton {blk : List α} {off : Nat} (h : off < blk.length) (x : α) :
    store blk off [x] = some (blk.set off x) := by
  rw [store_eq (by rw [List.length_singleton]; omega), List.set_eq_take_append_cons_drop,
    if_pos h, List.append_assoc]
  rfl

/-- A store of one cell behind a part of the block. -/
theorem store_append (xs ys : List α) (x y : α) :
    store (xs ++ y :: ys) xs.length [x] = some (xs ++ x :: ys) := by
  rw [store_singleton (by simp), List.set_append_right _ _ (Nat.le_refl _), Nat.sub_self]
  rfl

/-- A store keeps the block's size. -/
theorem length_of_store {blk src blk' : List α} {off : Nat} (h : store blk off src = some blk') :
    blk'.length = blk.length := by
  unfold store at h
  split at h
  · cases h
    simp
    omega
  · cases h

/-- A move of no cells changes nothing. -/
theorem move_zero_eq {blk blk' : List α} {dst src : Nat} (h : move blk dst src 0 = some blk') :
    blk = blk' := by
  obtain ⟨moved, hload, hstore⟩ := Option.bind_eq_some_iff.mp h
  have hnil : moved = [] := by
    unfold load at hload
    split at hload
    · cases hload
      rfl
    · cases hload
  subst hnil
  unfold store at hstore
  split at hstore
  · cases hstore
    simp
  · cases hstore

theorem length_of_move {blk blk' : List α} {dst src n : Nat} (h : move blk dst src n = some blk') :
    blk'.length = blk.length := by
  obtain ⟨moved, -, hstore⟩ := Option.bind_eq_some_iff.mp h
  exact length_of_store hstore

/-- What a cell holds after a store. -/
theorem getElem?_of_store {blk src blk' : List α} {off : Nat}
    (h : store blk off src = some blk') (i : Nat) :
    blk'[i]? = if off ≤ i ∧ i < off + src.length then src[i - off]? else blk[i]? := by
  unfold store at h
  split at h
  · cases h
    simp only [List.getElem?_append, List.getElem?_drop, List.getElem?_take, List.length_append,
      List.length_take]
    grind
  · cases h

/-- A store leaves alone what lies behind it. -/
theorem drop_of_store {blk src blk' : List α} {off n : Nat} (h : store blk off src = some blk')
    (hn : off + src.length ≤ n) : blk'.drop n = blk.drop n := by
  refine List.ext_getElem? fun i => ?_
  rw [List.getElem?_drop, List.getElem?_drop, getElem?_of_store h, if_neg (by omega)]

theorem drop_of_move {blk blk' : List α} {dst src n m : Nat} (h : move blk dst src n = some blk')
    (hm : dst + n ≤ m) : blk'.drop m = blk.drop m := by
  obtain ⟨moved, hload, hstore⟩ := Option.bind_eq_some_iff.mp h
  have hlen : moved.length ≤ n := by
    unfold load at hload
    split at hload
    · cases hload
      exact List.length_take_le _ _
    · cases hload
  exact drop_of_store hstore (by omega)

/-! ## Gaps -/

/-- `v` inserted before item `at'`, or appended when there is no such item. -/
def insertAt (xs : List α) (at' : Nat) (v : List α) : List α := xs.take at' ++ v ++ xs.drop at'

@[simp] theorem insertAt_nil (xs : List α) (at' : Nat) : insertAt xs at' [] = xs := by
  simp [insertAt]

@[simp] theorem length_insertAt (xs : List α) (at' : Nat) (v : List α) :
    (insertAt xs at' v).length = xs.length + v.length := by
  simp only [insertAt, List.length_append, List.length_take, List.length_drop]
  omega

theorem set_insertAt {xs : List α} {at' : Nat} (h : at' ≤ xs.length) (x y : α) :
    (insertAt xs at' [x]).set at' y = insertAt xs at' [y] := by
  have hlen : (xs.take at').length = at' := by
    rw [List.length_take]
    omega
  rw [insertAt, insertAt, List.append_assoc, List.set_append_right _ _ (by omega), hlen,
    Nat.sub_self, List.append_assoc]
  rfl

/-- The cells from `at'` on are moved up, and `v` is written into the gap: the first `used` cells
with `v` inserted, and the cells after them as they were. -/
theorem open_gap {blk v : List α} {used at' : Nat} (hat : at' ≤ used)
    (hroom : used + v.length ≤ blk.length) :
    ∃ blk₁ blk₂, move blk (at' + v.length) at' (used - at') = some blk₁ ∧
      store blk₁ at' v = some blk₂ ∧ blk₂.length = blk.length ∧
      blk₂.take (used + v.length) = insertAt (blk.take used) at' v ∧
      blk₂.drop (used + v.length) = blk.drop (used + v.length) := by
  have hload : load blk at' (used - at') = some ((blk.drop at').take (used - at')) :=
    load_eq (by omega)
  have hlen : ((blk.drop at').take (used - at')).length = used - at' := by
    simp
    omega
  obtain ⟨blk₁, hblk₁⟩ : ∃ blk₁, store blk (at' + v.length) ((blk.drop at').take (used - at')) =
      some blk₁ := ⟨_, store_eq (by omega)⟩
  have hlen₁ := length_of_store hblk₁
  obtain ⟨blk₂, hblk₂⟩ : ∃ blk₂, store blk₁ at' v = some blk₂ := ⟨_, store_eq (by omega)⟩
  refine ⟨blk₁, blk₂, by simp [move, hload, hblk₁], hblk₂, (length_of_store hblk₂).trans hlen₁,
    List.ext_getElem? fun i => ?_, List.ext_getElem? fun i => ?_⟩
  · simp only [insertAt, List.getElem?_take, List.getElem?_append, List.getElem?_drop,
      List.length_append, List.length_take, getElem?_of_store hblk₂, getElem?_of_store hblk₁, hlen]
    grind
  · simp only [List.getElem?_drop, getElem?_of_store hblk₂, getElem?_of_store hblk₁, hlen]
    grind

/-- The cells from `from'` on are moved down to `to'`: what lies between is removed. -/
theorem close_gap {blk : List α} {used to' from' : Nat} (hto : to' ≤ from') (hfrom : from' ≤ used)
    (hused : used ≤ blk.length) :
    ∃ blk', move blk to' from' (used - from') = some blk' ∧ blk'.length = blk.length ∧
      blk'.take (to' + (used - from')) =
        (blk.take used).take to' ++ (blk.take used).drop from' := by
  have hload : load blk from' (used - from') = some ((blk.drop from').take (used - from')) :=
    load_eq (by omega)
  have hlen : ((blk.drop from').take (used - from')).length = used - from' := by
    simp
    omega
  obtain ⟨blk', hblk'⟩ : ∃ blk', store blk to' ((blk.drop from').take (used - from')) = some blk' :=
    ⟨_, store_eq (by omega)⟩
  refine ⟨blk', by simp [move, hload, hblk'], length_of_store hblk', List.ext_getElem? fun i => ?_⟩
  simp only [List.getElem?_take, List.getElem?_append, List.getElem?_drop, List.length_take,
    getElem?_of_store hblk', hlen]
  grind

end Block
