import Hdmi2usbd.StringStore

/-!
# StoreEdits — the string store as a byte sequence

Any sequence of calls of `stringstore.c` refines the edits of a byte sequence, as long as every
growth fits into a `size_t` and every block is granted (`store_refines_sequence`). A growth that
does not fit is looked for before `NULL` is, and for ever.

The capacity is that of a real block exactly as long as every block is granted, and if the store
is not initialised with size 0 (`capacity_allocated_iff`): `stringstore_init_n` takes size 0 as a
request for a default, but allocates no block, and no result of `calloc` is looked at.
-/

namespace Hdmi2usbd

/-- What a caller passes: `NULL`, or an object of which `length` bytes can be read. -/
structure StoreValue where
  bytes : Option (List UInt8)
  length : Nat
  readable : ∀ bs, bytes = some bs → length ≤ bs.length
  object : ∀ bs, bytes = some bs → bs.length ≤ ptrdiffMax

/-- A whole value. -/
def StoreValue.of (bs : List UInt8) (h : bs.length ≤ ptrdiffMax) : StoreValue where
  bytes := some bs
  length := bs.length
  readable := by
    intro bs' h'
    cases h'
    exact Nat.le_refl _
  object := by
    intro bs' h'
    cases h'
    exact h

/-- `NULL` with a length. -/
def StoreValue.null (length : Nat) : StoreValue := ⟨none, length, by simp, by simp⟩

/-- The bytes there are to store. -/
def StoreValue.data (v : StoreValue) : List UInt8 :=
  match v.bytes with
  | none => []
  | some bs => bs.take v.length

theorem StoreValue.length_data (v : StoreValue) : v.data.length ≤ v.length := by
  unfold data
  split
  · exact Nat.zero_le _
  · exact List.length_take_le _ _

/-- A call of `stringstore.c`. -/
inductive StoreOp where
  | store (value : StoreValue) (at' : Nat)
  | append (value : StoreValue)
  | consume (bytes : Nat)
  | clear
  | resize (toLength : Nat)
  | compact

/-- What a call returns; `none` for a function without result. -/
def StoreOp.apply (m : Memory) (p : StringStore) : StoreOp → Option (Option Nat × StringStore)
  | .store v at' => (stringstoreStore m p v.bytes v.length at').map fun r => (some r.1, r.2)
  | .append v => (stringstoreAppend m p v.bytes v.length).map fun r => (some r.1, r.2)
  | .consume bytes => (stringstoreConsume p bytes).map fun p => (none, p)
  | .clear => (stringstoreClear p).map fun p => (none, p)
  | .resize toLength => (strstoreResize m p toLength).map fun r => (some r.1, r.2)
  | .compact => (strstoreCompact m p).map fun r => (some r.1, r.2)

/-- The same call on a byte sequence. -/
def StoreOp.spec (xs : List UInt8) : StoreOp → Option Nat × List UInt8
  | .store v at' => (some v.data.length,
      if at' = ssEnd ∨ at' ≥ xs.length then xs ++ v.data else Block.insertAt xs at' v.data)
  | .append v => (some v.data.length, xs ++ v.data)
  | .consume bytes => (none, xs.drop bytes)
  | .clear => (none, [])
  | .resize toLength => (some (max toLength xs.length), xs)
  | .compact => (some xs.length, xs)

/-- The length a call passes with its value. -/
def StoreOp.length : StoreOp → Nat
  | .store v _ | .append v => v.length
  | _ => 0

/-- The block that a resize asks for: none if it has the size already. -/
def StringStore.resizeAsks (p : StringStore) (toLength : Nat) : Option Nat :=
  if max toLength p.ssUsed = p.ssSize then none else some (max toLength p.ssUsed)

/-- The block that a call asks `calloc` for. -/
def StoreOp.asks (m : Memory) (p : StringStore) : StoreOp → Option Nat
  | .store v _ | .append v =>
    if p.Grows m v.length then
      (p.increment m v.length).map fun k => max (m.sizeT (p.ssSize + k)) p.ssUsed
    else none
  | .consume _ | .clear => none
  | .resize toLength => p.resizeAsks toLength
  | .compact => p.resizeAsks 0

/-- The growth loop of the call does not end. -/
def StoreOp.Hangs (m : Memory) (p : StringStore) : StoreOp → Prop
  | .store v _ | .append v => p.Grows m v.length ∧ p.increment m v.length = none
  | .consume _ | .clear | .resize _ | .compact => False

/-- The block that the call asks for is granted. -/
def StoreOp.Granted (m : Memory) (p : StringStore) (op : StoreOp) : Prop :=
  ∀ n ∈ op.asks m p, m.Grants n

/-- The sums of the call fit into a `size_t`. -/
def StoreOp.Fitting (m : Memory) (p : StringStore) : StoreOp → Prop
  | .store v _ | .append v => p.ssSize < p.ssUsed + v.length → m.Fits (p.grownSize v.length)
  | .consume _ | .clear | .resize _ | .compact => True

/-! ## One call -/

/-- `NULL` and the empty value are stored as nothing. -/
theorem StoreOp.spec_store_nil (xs : List UInt8) {v : StoreValue} (h : v.data = []) (at' : Nat) :
    (StoreOp.store v at').spec xs = (some 0, xs) := by
  simp [spec, h]

/-- A store of which the machine knows. -/
structure StringStore.Backed (p : StringStore) : Prop where
  wf : p.Wf
  size_le : p.ssSize ≤ ptrdiffMax

/-- A value and the bytes in use fit into a `size_t` together: they are two objects. -/
theorem StringStore.Backed.fits {p : StringStore} (h : p.Backed) {v : StoreValue}
    {bs : List UInt8} (hv : v.bytes = some bs) (grants : Bool) :
    (Memory.machine grants).Fits (p.ssUsed + v.length) := by
  have hsize := h.size_le
  have hused := h.wf.used_le
  have hread := v.readable bs hv
  have hobject := v.object bs hv
  show p.ssUsed + v.length < 0x10000000000000000
  simp only [ptrdiffMax] at hsize hobject
  omega

theorem Memory.Grants.le {grants : Bool} {size : Nat} (h : (Memory.machine grants).Grants size) :
    size ≤ ptrdiffMax := by
  rcases h with rfl | h
  · exact Nat.zero_le _
  · exact of_decide_eq_true (Bool.and_elim_right h)

section Call

variable {p : StringStore} {grants : Bool}

theorem stringstoreStore_value (h : p.Backed) {v : StoreValue}
    (hroom : p.Room (.machine grants) v.length) (at' : Nat) :
    ∃ p', stringstoreStore (.machine grants) p v.bytes v.length at' = some (v.data.length, p') ∧
      p'.Backed ∧ p'.contents = ((StoreOp.store v at').spec p.contents).2 := by
  have hsize : ∀ {n : Nat} {p' : StringStore},
      stringstoreStore (.machine grants) p v.bytes v.length at' = some (n, p') →
      p'.ssSize ≤ ptrdiffMax := by
    intro n p' hp'
    rcases stringstoreStore_size hp' with ⟨q, hq, hsize, -, -, -⟩
    rcases strstoreGrow_spec h.wf hroom with ⟨q', hq', -, -, -, -, hsize'⟩
    cases hq.symm.trans hq'
    rw [hsize]
    rcases hsize' with hsame | hgranted
    · rw [hsame]
      exact h.size_le
    · exact hgranted.le
  cases hv : v.bytes with
  | none =>
    rcases stringstoreStore_null h.wf hroom at' with ⟨p', hp', hwf, hc⟩
    have hdata : v.data = [] := by simp [StoreValue.data, hv]
    rw [StoreOp.spec_store_nil _ hdata, hdata]
    rw [hv] at hsize
    exact ⟨p', hp', ⟨hwf, hsize hp'⟩, hc⟩
  | some bs =>
    have hread := v.readable bs hv
    rcases stringstoreStore_spec h.wf hroom (h.fits hv grants) hread at' with ⟨p', hp', hwf, hc⟩
    have hdata : v.data = bs.take v.length := by simp [StoreValue.data, hv]
    have hlen : v.data.length = v.length := by simp [hdata, hread]
    rw [StoreOp.spec, hlen, hdata]
    rw [hv] at hsize
    exact ⟨p', hp', ⟨hwf, hsize hp'⟩, hc⟩

theorem strstoreResize_backed (h : p.Backed) {n : Nat}
    (hgranted : ∀ size ∈ p.resizeAsks n, (Memory.machine grants).Grants size) :
    ∃ p', strstoreResize (.machine grants) p n = some (max n p.ssUsed, p') ∧ p'.Backed ∧
      p'.contents = p.contents := by
  have hgrants : max n p.ssUsed ≠ p.ssSize → (Memory.machine grants).Grants (max n p.ssUsed) := by
    intro hne
    exact hgranted _ (by rw [StringStore.resizeAsks, if_neg hne]; rfl)
  rcases strstoreResize_spec h.wf hgrants with ⟨p', hp', hwf, hsize, -, -, hc⟩
  refine ⟨p', hp', ⟨hwf, ?_⟩, hc⟩
  rw [hsize]
  by_cases hsame : max n p.ssUsed = p.ssSize
  · rw [hsame]
    exact h.size_le
  · exact (hgrants hsame).le

theorem stringstoreConsume_backed (h : p.Backed) (bytes : Nat) :
    ∃ p', stringstoreConsume p bytes = some p' ∧ p'.Backed ∧
      p'.contents = p.contents.drop bytes := by
  rcases stringstoreConsume_spec h.wf bytes with ⟨p', hp', hwf, hc⟩
  refine ⟨p', hp', ⟨hwf, ?_⟩, hc⟩
  rw [(stringstoreConsume_size hp').1]
  exact h.size_le

/-- A growth that ends, with a block that is granted. -/
theorem StoreOp.room {m : Memory} {v : StoreValue} (at' : Nat)
    (hends : ¬ (StoreOp.store v at').Hangs m p) (hgranted : (StoreOp.store v at').Granted m p) :
    p.Room m v.length := by
  intro hgrows
  cases hk : p.increment m v.length with
  | none => exact absurd ⟨hgrows, hk⟩ hends
  | some k => exact ⟨k, rfl, hgranted _ (by simp [asks, hgrows, hk])⟩

/-- One call on a store with its block: if its growth ends and its block is granted it does not
fault and leaves such a store, and as long as the contents are no longer than `SS_ALL` it does what
the same call on the sequence does. -/
theorem StoreOp.apply_spec (h : p.Backed) (op : StoreOp) (hends : ¬ op.Hangs (.machine grants) p)
    (hgranted : op.Granted (.machine grants) p) :
    ∃ out p', op.apply (.machine grants) p = some (out, p') ∧ p'.Backed ∧
      (p.contents.length ≤ ssAll → (out, p'.contents) = op.spec p.contents) := by
  cases op with
  | store v at' =>
    rcases stringstoreStore_value h (StoreOp.room at' hends hgranted) at' with ⟨p', hp', hback, hc⟩
    exact ⟨_, p', by rw [apply, hp']; rfl, hback, fun _ => Prod.ext rfl hc⟩
  | append v =>
    have hroom := StoreOp.room ssEnd hends hgranted
    rcases stringstoreStore_value h hroom ssEnd with ⟨p', hp', hback, hc⟩
    rw [spec, if_pos (.inl rfl)] at hc
    exact ⟨_, p', by rw [apply, stringstoreAppend, hp']; rfl, hback, fun _ => Prod.ext rfl hc⟩
  | consume bytes =>
    rcases stringstoreConsume_backed h bytes with ⟨p', hp', hback, hc⟩
    exact ⟨_, p', by rw [apply, hp']; rfl, hback, fun _ => Prod.ext rfl hc⟩
  | clear =>
    rcases stringstoreConsume_backed h ssAll with ⟨p', hp', hback, hc⟩
    refine ⟨_, p', by rw [apply, stringstoreClear, hp']; rfl, hback, fun hall => Prod.ext rfl ?_⟩
    rw [hc, List.drop_of_length_le hall]
    rfl
  | resize toLength =>
    rcases strstoreResize_backed h hgranted with ⟨p', hp', hback, hc⟩
    refine ⟨some (max toLength p.ssUsed), p', by rw [apply, hp']; rfl, hback,
      fun _ => Prod.ext ?_ hc⟩
    rw [spec, h.wf.length_contents]
  | compact =>
    rcases strstoreResize_backed h hgranted with ⟨p', hp', hback, hc⟩
    refine ⟨some (max 0 p.ssUsed), p', by rw [apply, strstoreCompact, hp']; rfl, hback,
      fun _ => Prod.ext ?_ hc⟩
    rw [spec, h.wf.length_contents, Nat.zero_max]

end Call

/-- A call adds at most the length of its value. -/
theorem StoreOp.length_spec (xs : List UInt8) (op : StoreOp) :
    (op.spec xs).2.length ≤ xs.length + op.length := by
  cases op with
  | store v at' =>
    have hdata := v.length_data
    simp only [spec, length]
    split
    · rw [List.length_append]
      omega
    · rw [Block.length_insertAt]
      omega
  | append v =>
    have := v.length_data
    simp [spec, length]
    omega
  | consume bytes => simp [spec, length]
  | clear => simp [spec]
  | resize toLength | compact => simp [spec, length]

/-! ## Runs -/

/-- The lengths that the calls of a run give, added up. -/
def totalLength : List (StoreOp × Bool) → Nat
  | [] => 0
  | (op, _) :: calls => op.length + totalLength calls

/-- The calls in order, each with the answer of its `calloc`, and what each returned. -/
def storeRun (p : StringStore) : List (StoreOp × Bool) → Option (List (Option Nat) × StringStore)
  | [] => some ([], p)
  | (op, grants) :: calls => do
    let (out, p) ← op.apply (.machine grants) p
    let (outs, p) ← storeRun p calls
    pure (out :: outs, p)

def sequenceRun (xs : List UInt8) : List (StoreOp × Bool) → List (Option Nat) × List UInt8
  | [] => ([], xs)
  | (op, _) :: calls =>
    let (out, xs) := op.spec xs
    let (outs, xs) := sequenceRun xs calls
    (out :: outs, xs)

/-- Something holds before each call of a run. -/
def StoreAlong (P : Memory → StringStore → StoreOp → Prop) (p : StringStore) :
    List (StoreOp × Bool) → Prop
  | [] => True
  | (op, grants) :: calls =>
    P (.machine grants) p op ∧ ∀ r ∈ op.apply (.machine grants) p, StoreAlong P r.2 calls

instance {P : Memory → StringStore → StoreOp → Prop} [∀ m p op, Decidable (P m p op)] :
    ∀ (p : StringStore) (calls : List (StoreOp × Bool)), Decidable (StoreAlong P p calls)
  | _, [] => .isTrue trivial
  | p, (op, grants) :: calls =>
    have : ∀ r : Option Nat × StringStore, Decidable (StoreAlong P r.2 calls) := fun r =>
      instDecidableStoreAlong r.2 calls
    inferInstanceAs (Decidable (P (.machine grants) p op ∧
      ∀ r ∈ op.apply (.machine grants) p, StoreAlong P r.2 calls))

instance (m : Memory) (p : StringStore) (op : StoreOp) : Decidable (op.Granted m p) :=
  inferInstanceAs (Decidable (∀ n ∈ op.asks m p, m.Grants n))

instance (m : Memory) (n : Nat) : Decidable (m.Fits n) :=
  match m with
  | .machine _ => inferInstanceAs (Decidable (n < _))
  | .endless => .isTrue trivial

instance (m : Memory) (p : StringStore) : (op : StoreOp) → Decidable (op.Fitting m p)
  | .store v _ | .append v =>
    inferInstanceAs (Decidable (p.ssSize < p.ssUsed + v.length → m.Fits (p.grownSize v.length)))
  | .consume _ | .clear | .resize _ | .compact => .isTrue trivial

/-- A growth whose sums fit ends. -/
theorem StoreOp.Fitting.ends {m : Memory} {p : StringStore} (hinc : 0 < p.ssInc) {op : StoreOp}
    (h : op.Fitting m p) : ¬ op.Hangs m p := by
  have hstore : ∀ v : StoreValue,
      (p.ssSize < p.ssUsed + v.length → m.Fits (p.grownSize v.length)) →
      ¬ (p.Grows m v.length ∧ p.increment m v.length = none) := by
    rintro v hfits ⟨hgrows, hnone⟩
    have hneed : p.ssSize < p.ssUsed + v.length := by
      refine Nat.lt_of_lt_of_le hgrows ?_
      rw [Nat.add_comm]
      exact m.sizeT_le _
    rw [StringStore.increment_eq hinc hneed (hfits hneed)] at hnone
    cases hnone
  cases op with
  | store v at' => exact hstore v h
  | append v => exact hstore v h
  | consume | clear | resize | compact => exact id

/-- A run on a store with its block whose growths fit and whose blocks are granted does not fault,
and refines the run on the sequence as long as the lengths add up to at most `SS_ALL`. -/
theorem storeRun_spec {p : StringStore} (h : p.Backed) {calls : List (StoreOp × Bool)}
    (hfits : StoreAlong StoreOp.Fitting p calls) (hgranted : StoreAlong StoreOp.Granted p calls) :
    ∃ outs p', storeRun p calls = some (outs, p') ∧ p'.Backed ∧
      (p.contents.length + totalLength calls ≤ ssAll →
        (outs, p'.contents) = sequenceRun p.contents calls) := by
  induction calls generalizing p with
  | nil => exact ⟨[], p, rfl, h, fun _ => rfl⟩
  | cons call calls ih =>
    rcases call with ⟨op, grants⟩
    rcases hfits with ⟨hfit, hfits⟩
    rcases hgranted with ⟨hgrant, hgranted⟩
    rcases op.apply_spec h (hfit.ends h.wf.inc_pos) hgrant with ⟨out, p₁, hp₁, h₁, hspec⟩
    rcases ih h₁ (hfits _ hp₁) (hgranted _ hp₁) with ⟨outs, p₂, hp₂, h₂, hrun⟩
    refine ⟨out :: outs, p₂, by simp [storeRun, hp₁, hp₂], h₂, fun hsum => ?_⟩
    rw [totalLength] at hsum
    have hone := hspec (by omega)
    have hlen := op.length_spec p.contents
    rw [← hone] at hlen
    have hrest := hrun (by simp only at hlen; omega)
    rw [sequenceRun, ← hone]
    simp only [← hrest]

theorem stringstoreInitN_backed {grants : Bool} {size : Nat} (hsize : size ≠ 0)
    (hgrants : (Memory.machine grants).Grants size) :
    (stringstoreInitN (.machine grants) size).Backed := by
  refine ⟨stringstoreInitN_wf (Nat.pos_of_ne_zero hsize) hgrants, ?_⟩
  simp only [stringstoreInitN, hsize, ne_eq, not_false_eq_true, if_true]
  exact hgrants.le

/-- The string store is a byte sequence: from every initial size but 0, and along every sequence of
calls with any values and positions whose lengths add up to less than 2^64, if every block is
granted and no growth reaches 2^64 bytes, no copy leaves its block, each call returns what it does
on the sequence, and the bytes in use are the sequence. -/
theorem store_refines_sequence {size : Nat} (hsize : 1 ≤ size) {grants : Bool}
    {calls : List (StoreOp × Bool)} (hsum : totalLength calls < 0x10000000000000000)
    (hgrants : (Memory.machine grants).Grants size ∧
      StoreAlong StoreOp.Granted (stringstoreInitN (.machine grants) size) calls)
    (hfits : StoreAlong StoreOp.Fitting (stringstoreInitN (.machine grants) size) calls) :
    ∃ p, storeRun (stringstoreInitN (.machine grants) size) calls =
        some ((sequenceRun [] calls).1, p) ∧
      p.contents = (sequenceRun [] calls).2 ∧ p.ssUsed = (sequenceRun [] calls).2.length := by
  have hback := stringstoreInitN_backed (Nat.ne_of_gt hsize) hgrants.1
  rcases storeRun_spec hback hfits hgrants.2 with ⟨outs, p, hp, hback, hrun⟩
  have hnil : (stringstoreInitN (.machine grants) size).contents = [] := by
    simp [StringStore.contents, stringstoreInitN]
  rw [hnil] at hrun
  have hrun := hrun (by simp only [List.length_nil, ssAll]; omega)
  rw [← hrun]
  exact ⟨p, hp, rfl, hback.wf.length_contents.symm⟩

/-- A store of two bytes: it grows in the middle of an insert, is compacted and cleared. -/
def someEdits : List (StoreOp × Bool) :=
  [(.append (.of [97, 98] (by decide)), true), (.store (.of [99, 100] (by decide)) 1, true),
    (.store (.null 3) 0, true), (.consume 1, false), (.compact, true),
    (.store (.of [101] (by decide)) 0, true)]

theorem store_refines_sequence_edits :
    ∃ p, storeRun (stringstoreInitN (.machine true) 2) someEdits =
        some ((sequenceRun [] someEdits).1, p) ∧
      p.contents = [101, 99, 100, 98] ∧ p.ssUsed = 4 :=
  store_refines_sequence (by decide) (by decide) (by decide +kernel) (by decide +kernel)

section Hangs

variable {m : Memory} {p : StringStore} {op : StoreOp}

theorem strstoreGrow_hangs {length : Nat} (hgrows : p.Grows m length)
    (hnone : p.increment m length = none) : strstoreGrow m p length = none := by
  simp [strstoreGrow, hgrows, hnone]

/-- A call whose loop does not end does not come back. -/
theorem StoreOp.Hangs.apply (h : op.Hangs m p) : op.apply m p = none := by
  cases op with
  | store v at' => simp [StoreOp.apply, stringstoreStore, strstoreGrow_hangs h.1 h.2]
  | append v =>
    simp [StoreOp.apply, stringstoreAppend, stringstoreStore, strstoreGrow_hangs h.1 h.2]
  | consume | clear | resize | compact => exact h.elim

theorem StoreOp.Hangs.granted (h : op.Hangs m p) : op.Granted m p := by
  intro n hn
  cases op with
  | store v at' | append v => simp [asks, h.2] at hn
  | consume | clear | resize | compact => exact h.elim

end Hangs

/-- A store whose sizes are multiples of its chunks finds no room for as many bytes as there are,
because no multiple is as large. -/
theorem growIncrement_forever {m : Memory} {chunk cap need : Nat}
    (hdvd : ∀ n, chunk ∣ n → chunk ∣ m.sizeT n ∧ m.sizeT n < need) (hcap : chunk ∣ cap)
    (fuel : Nat) {increment : Nat} (hincrement : chunk ∣ increment) :
    growIncrement m cap chunk need fuel increment = none := by
  induction fuel generalizing increment with
  | zero => rfl
  | succ fuel ih =>
    rw [growIncrement, if_pos (hdvd _ (Nat.dvd_add hcap hincrement)).2]
    exact ih (hdvd _ (Nat.dvd_add hincrement (Nat.dvd_refl chunk))).1

/-- `NULL` of `SIZE_MAX` bytes, on the default store. -/
def nullOfAll : List (StoreOp × Bool) := [(.store (.null 0xffffffffffffffff) 0, true)]

theorem null_store_never_ends :
    storeRun (stringstoreInitN (.machine true) strstoreSize) nullOfAll = none ∧
    ¬ ∀ size, 1 ≤ size → ∀ calls, totalLength calls < 0x10000000000000000 →
      ((Memory.machine true).Grants size ∧
        StoreAlong StoreOp.Granted (stringstoreInitN (.machine true) size) calls) →
      ∃ p, storeRun (stringstoreInitN (.machine true) size) calls =
          some ((sequenceRun [] calls).1, p) ∧
        p.contents = (sequenceRun [] calls).2 ∧ p.ssUsed = (sequenceRun [] calls).2.length := by
  have hloop : growIncrement (.machine true) 2048 2048 0xffffffffffffffff 0x10000000000000000 2048 =
      none := by
    refine growIncrement_forever (fun n hdvd => ?_) (by decide) _ (by decide)
    simp only [Memory.sizeT]
    omega
  have hhangs : (StoreOp.store (.null 0xffffffffffffffff) 0).Hangs (.machine true)
      (stringstoreInitN (.machine true) strstoreSize) :=
    ⟨show StringStore.Grows _ _ _ by decide, hloop⟩
  have hnever : storeRun (stringstoreInitN (.machine true) strstoreSize) nullOfAll = none := by
    simp [storeRun, nullOfAll, hhangs.apply]
  have halong : StoreAlong StoreOp.Granted (stringstoreInitN (.machine true) strstoreSize)
      nullOfAll := by
    refine ⟨hhangs.granted, fun r hr => ?_⟩
    rw [hhangs.apply] at hr
    cases hr
  refine ⟨hnever, fun h => ?_⟩
  rcases h strstoreSize (by decide) nullOfAll (by decide) ⟨by decide, halong⟩ with ⟨p, hp, -⟩
  rw [hnever] at hp
  cases hp

/-! ## The capacity -/

/-- In every state of a run the store is well formed: the block has `ss_size` bytes, those in use
are among them, and growth makes progress. A call whose growth loop does not end is the last; every
other one comes back, without a fault. -/
def StaysAllocated (p : StringStore) : List (StoreOp × Bool) → Prop
  | [] => p.Wf
  | (op, grants) :: calls => p.Wf ∧ (¬ op.Hangs (.machine grants) p →
      ∃ r, op.apply (.machine grants) p = some r ∧ StaysAllocated r.2 calls)

theorem StaysAllocated.wf {p : StringStore} {calls : List (StoreOp × Bool)}
    (h : StaysAllocated p calls) : p.Wf := by
  cases calls with
  | nil => exact h
  | cons call calls => exact h.1

section Refused

variable {m : Memory} {p : StringStore} {op : StoreOp}

/-- A store whose growth was refused. -/
theorem stringstoreStore_refused {v : StoreValue} {at' n : Nat} {r : Nat × StringStore}
    (hasks : (StoreOp.store v at').asks m p = some n) (hrefused : ¬ m.Grants n)
    (h : stringstoreStore m p v.bytes v.length at' = some r) : ¬ r.2.Wf := by
  rcases stringstoreStore_size h with ⟨q, hq, hsize, -, hblock, -⟩
  simp only [StoreOp.asks] at hasks
  split at hasks
  · next hgrows =>
    obtain ⟨k, hk, hn⟩ := Option.map_eq_some_iff.mp hasks
    subst hn
    have hfits : m.sizeT (p.ssUsed + v.length) ≤ m.sizeT (p.ssSize + k) := growIncrement_fits hk
    have hmore : p.ssSize < m.sizeT (v.length + p.ssUsed) := hgrows
    rw [Nat.add_comm] at hmore
    rw [strstoreGrow, if_pos hgrows] at hq
    obtain ⟨k', hk', hq⟩ := Option.bind_eq_some_iff.mp hq
    cases hk.symm.trans hk'
    obtain ⟨⟨toLength, grown⟩, hresize, hgrown⟩ := Option.bind_eq_some_iff.mp hq
    cases hgrown
    have hnull : q.ssBuff.length < q.ssSize :=
      strstoreResize_refused (by omega) hrefused hresize
    intro hwf
    have hwhole := hwf.block
    omega
  · cases hasks

/-- A call whose block was refused leaves a store without one, if it comes back. -/
theorem StoreOp.refused (hrefused : ¬ op.Granted m p) {r : Option Nat × StringStore}
    (h : op.apply m p = some r) : ¬ r.2.Wf := by
  have hresize : ∀ {toLength : Nat} {r : Nat × StringStore},
      ¬ (∀ n ∈ p.resizeAsks toLength, m.Grants n) → strstoreResize m p toLength = some r →
      ¬ r.2.Wf := by
    intro toLength r hrefused hr hwf
    unfold StringStore.resizeAsks at hrefused
    split at hrefused
    · exact hrefused fun n hn => nomatch hn
    · next hne =>
      have hnull := strstoreResize_refused hne (fun h => hrefused fun n hn => by cases hn; exact h) hr
      have hwhole := hwf.block
      omega
  have hstore : ∀ {v : StoreValue} (at' : Nat) {r : Nat × StringStore},
      ¬ (StoreOp.store v at').Granted m p → stringstoreStore m p v.bytes v.length at' = some r →
      ¬ r.2.Wf := by
    intro v at' r hrefused hr
    unfold StoreOp.Granted at hrefused
    push Not at hrefused
    rcases hrefused with ⟨n, hn, hrefused⟩
    exact stringstoreStore_refused hn hrefused hr
  cases op with
  | store v at' =>
    obtain ⟨r', hr', rfl⟩ := Option.map_eq_some_iff.mp h
    exact hstore at' hrefused hr'
  | append v =>
    obtain ⟨r', hr', rfl⟩ := Option.map_eq_some_iff.mp h
    exact hstore ssEnd hrefused hr'
  | consume | clear => exact absurd (fun n hn => nomatch hn) hrefused
  | resize toLength =>
    obtain ⟨r', hr', rfl⟩ := Option.map_eq_some_iff.mp h
    exact hresize hrefused hr'
  | compact =>
    obtain ⟨r', hr', rfl⟩ := Option.map_eq_some_iff.mp h
    exact hresize hrefused hr'

end Refused

theorem staysAllocated_iff {p : StringStore} (h : p.Backed) (calls : List (StoreOp × Bool)) :
    StaysAllocated p calls ↔ StoreAlong StoreOp.Granted p calls := by
  induction calls generalizing p with
  | nil => exact iff_of_true h.wf trivial
  | cons call calls ih =>
    rcases call with ⟨op, grants⟩
    by_cases hhangs : op.Hangs (.machine grants) p
    · refine iff_of_true ⟨h.wf, fun hends => absurd hhangs hends⟩ ⟨hhangs.granted, ?_⟩
      intro r hr
      rw [hhangs.apply] at hr
      cases hr
    by_cases hgranted : op.Granted (.machine grants) p
    · rcases op.apply_spec h hhangs hgranted with ⟨out, p', hp', h', -⟩
      constructor
      · rintro ⟨-, hstays⟩
        rcases hstays hhangs with ⟨r, hr, hstays⟩
        refine ⟨hgranted, fun r' hr' => ?_⟩
        cases hr.symm.trans hr'
        cases hr.symm.trans hp'
        exact (ih h').mp hstays
      · rintro ⟨-, halong⟩
        exact ⟨h.wf, fun _ => ⟨_, hp', (ih h').mpr (halong _ hp')⟩⟩
    · refine iff_of_false ?_ fun halong => hgranted halong.1
      rintro ⟨-, hstays⟩
      rcases hstays hhangs with ⟨r, hr, hstays⟩
      exact StoreOp.refused hgranted hr hstays.wf

/-- The capacity is that of a real block exactly if the initial size is not 0 and `calloc` grants
every block that it is asked for, at the start and in the calls. -/
theorem capacity_allocated_iff (grants : Bool) (size : Nat) (calls : List (StoreOp × Bool)) :
    StaysAllocated (stringstoreInitN (.machine grants) size) calls ↔
      (size ≠ 0 ∧ (Memory.machine grants).Grants size) ∧
        StoreAlong StoreOp.Granted (stringstoreInitN (.machine grants) size) calls := by
  constructor
  · intro h
    have hblock : (calloc (.machine grants) size).length =
        if size ≠ 0 then size else strstoreAlloc := h.wf.block
    have hsize : size ≠ 0 := by
      rintro rfl
      have hle := length_calloc_le (.machine grants) 0
      rw [hblock] at hle
      exact absurd hle (by decide)
    rw [if_pos hsize] at hblock
    have hgrants := length_calloc.mp hblock
    exact ⟨⟨hsize, hgrants⟩, (staysAllocated_iff (stringstoreInitN_backed hsize hgrants) calls).mp h⟩
  · rintro ⟨⟨hsize, hgrants⟩, halong⟩
    exact (staysAllocated_iff (stringstoreInitN_backed hsize hgrants) calls).mpr halong

/-- With size 0 the first byte is written to a block that has none. -/
theorem default_size_unallocated :
    storeRun (stringstoreInitN (.machine true) 0) [(.append (.of [97] (by decide)), true)] = none ∧
    ¬ ∀ size calls, StaysAllocated (stringstoreInitN (.machine true) size) calls := by
  refine ⟨by decide +kernel, fun h => ?_⟩
  have hblock := (h 0 []).block
  revert hblock
  decide

end Hdmi2usbd
