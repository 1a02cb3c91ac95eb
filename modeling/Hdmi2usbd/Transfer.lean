import Hdmi2usbd.RingBuffer

/-!
# Transfer — data between buffers, and compaction (`buffer.c`)

`buffer_copy` and `buffer_move` transfer a prefix, and a move is a copy followed by a get
without destination (`transfer_prefix`). `buffer_compact` takes the wrapped layout for the
unwrapped one and the other way round: of all reachable buffers it treats right those that
are compact already, those that are empty, and those whose contents are the upper half of
the block (`compact_preserves_iff`).
-/

namespace Hdmi2usbd

/-! ## Copy and move -/

/-- Without a destination the positions advance as they do with one. -/
theorem bufferDrain_uncopied {b b' : Buffer} {n : Nat} {out : List UInt8}
    (h : bufferDrain b true n = some (out, b')) : bufferDrain b false n = some ([], b') := by
  unfold bufferDrain at h ⊢
  by_cases hn : n > 0
  · simp only [hn, if_true, Option.map_eq_some_iff, Prod.mk.injEq] at h
    rcases h with ⟨_, -, -, rfl⟩
    simp [hn]
  · simp only [hn, if_false, Option.some.injEq, Prod.mk.injEq] at h
    simp [hn, h.2]

/-- The walk of a move over the source is that of a get. -/
theorem bufferCopymove_get {dst src dst' src' : Buffer} {n r : Nat}
    (hr : r = min (min n (bufferAvailable dst)) (bufferUsed src))
    (h : bufferCopymove dst src n true = some (r, dst', src')) :
    bufferGet src false r = some (r, [], src') := by
  have hclamp : min r (bufferUsed src) = r := by omega
  unfold bufferCopymove at h
  rw [← hr] at h
  simp only [Option.bind_eq_bind, Option.bind_eq_some_iff, Prod.exists] at h
  rcases h with ⟨piece, s1, hfirst, _, d1, -, rest, s2, hsecond, _, d2, -, heq⟩
  simp only [Option.pure_def, Option.some.injEq, Prod.mk.injEq, if_true] at heq
  rcases heq with ⟨-, -, rfl⟩
  unfold bufferGet
  simp only [hclamp, bufferDrain_uncopied hfirst, bufferDrain_uncopied hsecond,
    Option.bind_eq_bind, Option.bind_some, List.append_nil, Option.pure_def]

/-- A copy is a move whose source is put back. -/
theorem bufferCopymove_copy {dst src dst' src' : Buffer} {n r : Nat}
    (h : bufferCopymove dst src n true = some (r, dst', src')) :
    bufferCopymove dst src n false = some (r, dst', src) := by
  unfold bufferCopymove at h ⊢
  simp only [Option.bind_eq_bind, Option.bind_eq_some_iff, Prod.exists] at h ⊢
  rcases h with ⟨piece, s1, hfirst, c1, d1, hput, rest, s2, hsecond, c2, d2, hput', heq⟩
  simp only [Option.pure_def, Option.some.injEq, Prod.mk.injEq, if_true] at heq
  rcases heq with ⟨rfl, rfl, -⟩
  exact ⟨piece, s1, hfirst, c1, d1, hput, rest, s2, hsecond, c2, d2, hput', rfl⟩

/-- Of any two buffers, and for any length: the transfer is of the first `r` bytes of the source,
as many as are asked for, fit and are there. A copy leaves the source as it is, a move does to it
what a get of `r` bytes without destination does. -/
theorem transfer_prefix (dst src : RingBuffer) (n : Nat) :
    let r := min (min n (bufferAvailable dst.buf)) (bufferUsed src.buf)
    ∃ dst' src' : Buffer,
      bufferCopy dst.buf src.buf n = some (r, dst', src.buf) ∧
      bufferMove dst.buf src.buf n = some (r, dst', src') ∧
      bufferGet src.buf false r = some (r, [], src') ∧ dst'.Wf ∧ src'.Wf ∧
      dst'.contents = dst.buf.contents ++ src.buf.contents.take r ∧
      src'.contents = src.buf.contents.drop r := by
  rcases bufferCopymove_spec dst.wf src.wf n true with
    ⟨r, dst', src', hr, hmove, hdst, hsrc, -, -, hcd, hcs⟩
  rw [← hr]
  exact ⟨dst', src', bufferCopymove_copy hmove, hmove, bufferCopymove_get hr hmove, hdst, hsrc,
    hcd, hcs⟩

/-! ## Reachable buffers -/

/-- The buffers that calls make out of initialised ones. -/
inductive BufferReachable : Buffer → Prop
  | init (heap : Nat → UInt8) (size : Nat) : BufferReachable (bufferInit heap size)
  | put {b b' : Buffer} {buf : List UInt8} {n : Nat} (h : BufferReachable b)
      (hput : bufferPut b buf = some (n, b')) : BufferReachable b'
  | get {b b' : Buffer} {copy : Bool} {len n : Nat} {out : List UInt8} (h : BufferReachable b)
      (hget : bufferGet b copy len = some (n, out, b')) : BufferReachable b'
  | flush {b : Buffer} (h : BufferReachable b) : BufferReachable (bufferFlush b)
  | filled {dst src dst' src' : Buffer} {len n : Nat} {move : Bool} (hdst : BufferReachable dst)
      (hsrc : BufferReachable src)
      (hcopy : bufferCopymove dst src len move = some (n, dst', src')) : BufferReachable dst'
  | drained {dst src dst' src' : Buffer} {len n : Nat} {move : Bool} (hdst : BufferReachable dst)
      (hsrc : BufferReachable src)
      (hcopy : bufferCopymove dst src len move = some (n, dst', src')) : BufferReachable src'

theorem BufferReachable.wf {b : Buffer} (h : BufferReachable b) : b.Wf := by
  induction h with
  | init heap size => exact bufferInit_wf heap size
  | put _ hput ih =>
    rcases bufferPut_spec ih _ with ⟨b', hb', hwf, -⟩
    cases hput.symm.trans hb'
    exact hwf
  | get _ hget ih =>
    rcases bufferGet_spec ih _ _ with ⟨b', hb', hwf, -⟩
    cases hget.symm.trans hb'
    exact hwf
  | flush _ ih => exact bufferFlush_wf ih
  | filled _ _ hcopy ihd ihs =>
    rcases bufferCopymove_spec ihd ihs _ _ with ⟨_, _, _, -, heq, hwf, -⟩
    cases hcopy.symm.trans heq
    exact hwf
  | drained _ _ hcopy ihd ihs =>
    rcases bufferCopymove_spec ihd ihs _ _ with ⟨_, _, _, -, heq, -, hwf, -⟩
    cases hcopy.symm.trans heq
    exact hwf

/-! ## Compaction -/

/-- One guarded copy of `buffer_compact`, to the bottom of `dst`: `memcpy(dst, src + off, n)`. -/
def compactCopy (dst src : List UInt8) (off n : Nat) : Option (List UInt8) :=
  if n ≠ 0 then (Block.load src off n).bind (Block.store dst 0) else some dst

/-- `buffer_compact`; `heap` is what the new block holds. -/
def bufferCompact (heap : Nat → UInt8) (b : Buffer) : Option Buffer :=
  if b.bLo = 0 then some b
  else if b.bLo ≥ b.bHi then do
    -- the source takes this for the layout that is not wrapped
    let size := b.bLo - b.bHi
    let data ← compactCopy b.data b.data b.bLo size
    pure { b with data := data, bLo := 0, bHi := size }
  else do
    -- the second copy goes over the first, not behind it
    let size := b.bSize - b.bLo
    let data ← compactCopy (malloc heap b.bSize) b.data b.bLo size
    let data ← compactCopy data b.data 0 b.bHi
    pure { b with data := data, bLo := 0, bHi := size + b.bHi }

/-- What compaction is for: the same queue, at the bottom of the block. -/
structure Compacted (b b' : Buffer) : Prop where
  contents : b'.contents = b.contents
  used : bufferUsed b' = bufferUsed b
  available : bufferAvailable b' = bufferAvailable b
  lo : b'.bLo = 0
  hi : b'.bHi = bufferUsed b
  hi_lt : 0 < b'.bSize → b'.bHi < b'.bSize

/-- The write position is all that there is to show. -/
theorem Compacted.of_contents {b b' : Buffer} (h : b.Wf) (hsize : b'.bSize = b.bSize)
    (hlo : b'.bLo = 0) (hhi : b'.bHi = bufferUsed b)
    (hcontents : b'.contents = b.contents) : Compacted b b' := by
  have hroom := h.used_add_available
  have hused : bufferUsed b' = bufferUsed b := by
    rw [bufferUsed, if_pos (by omega), hlo, hhi, Nat.sub_zero]
  refine ⟨hcontents, hused, ?_, hlo, hhi, by omega⟩
  unfold bufferAvailable
  rw [hsize, hused]

/-- Where the write position comes out right, the layout is one of three. -/
theorem bufferCompact_layout {heap : Nat → UInt8} {b b' : Buffer} (hwf : b.Wf)
    (hb' : bufferCompact heap b = some b') (hhi : b'.bHi = bufferUsed b) :
    b.bLo = 0 ∨ b.bLo = b.bHi ∨ (b.bHi = 0 ∧ b.bSize = 2 * b.bLo) := by
  have hlo := hwf.lo_lt
  have hblock := hwf.block
  by_cases hzero : b.bLo = 0
  · exact .inl hzero
  right
  unfold bufferCompact at hb'
  rw [if_neg hzero] at hb'
  split at hb'
  · next hge =>
    by_cases hempty : b.bLo = b.bHi
    · exact .inl hempty
    · -- wrapped: the size is wrong, unless the part at the bottom is missing
      right
      have hne : b.bLo - b.bHi ≠ 0 := by omega
      simp only [compactCopy, if_pos hne, Option.bind_eq_bind, Option.bind_eq_some_iff,
        Option.pure_def, Option.some.injEq] at hb'
      rcases hb' with ⟨data, ⟨piece, hload, -⟩, rfl⟩
      have hin : b.bLo + (b.bLo - b.bHi) ≤ b.data.length := by
        by_contra hout
        simp [Block.load, hout] at hload
      simp only [bufferUsed, if_neg (show ¬ b.bHi ≥ b.bLo by omega)] at hhi
      omega
  · next hlt =>
    -- not wrapped: the size exceeds the block
    simp only [Option.bind_eq_bind, Option.bind_eq_some_iff, Option.pure_def,
      Option.some.injEq] at hb'
    rcases hb' with ⟨_, -, _, -, rfl⟩
    simp only [bufferUsed, if_pos (show b.bHi ≥ b.bLo by omega)] at hhi
    omega

/-- Nothing is moved. -/
theorem bufferCompact_empty (heap : Nat → UInt8) {b : Buffer} (hwf : b.Wf) (hzero : b.bLo ≠ 0)
    (hempty : b.bLo = b.bHi) : ∃ b', bufferCompact heap b = some b' ∧ Compacted b b' := by
  have heq : bufferCompact heap b = some { b with bLo := 0, bHi := 0 } := by
    unfold bufferCompact
    rw [if_neg hzero]
    simp [hempty, compactCopy]
  refine ⟨_, heq, Compacted.of_contents hwf rfl rfl ?_ ?_⟩
  · simp [bufferUsed, hempty]
  · simp [Buffer.contents, hempty]

/-- The upper half is moved down. -/
theorem bufferCompact_upperHalf (heap : Nat → UInt8) {b : Buffer} (hwf : b.Wf)
    (hzero : b.bLo ≠ 0) (hbottom : b.bHi = 0) (hhalf : b.bSize = 2 * b.bLo) :
    ∃ b', bufferCompact heap b = some b' ∧ Compacted b b' := by
  have hblock := hwf.block
  have hload : Block.load b.data b.bLo b.bLo = some (b.data.drop b.bLo) := by
    rw [Block.load_eq (by omega), List.take_of_length_le (by simp; omega)]
  have hfits : 0 + (b.data.drop b.bLo).length ≤ b.data.length := by simp
  have hlen : (b.data.drop b.bLo).length = b.bLo := by simp; omega
  have heq : bufferCompact heap b = some { b with
      data := b.data.drop b.bLo ++ b.data.drop (0 + (b.data.drop b.bLo).length)
      bLo := 0
      bHi := b.bLo } := by
    unfold bufferCompact
    rw [if_neg hzero]
    simp only [hbottom, ge_iff_le, Nat.zero_le, if_true, Nat.sub_zero, compactCopy, ne_eq,
      hzero, not_false_eq_true, Option.bind_eq_bind, hload, Option.bind_some,
      Block.store_eq hfits, List.take_zero, List.nil_append, Option.pure_def]
  refine ⟨_, heq, Compacted.of_contents hwf rfl rfl ?_ ?_⟩
  · simp only [bufferUsed, if_neg (show ¬ b.bHi ≥ b.bLo by omega)]
    omega
  · have hwrapped : b.contents = b.data.drop b.bLo := by
      rw [Buffer.contents, if_neg (by omega), hbottom, List.take_zero, List.append_nil]
    rw [hwrapped]
    simp only [Buffer.contents, ge_iff_le, Nat.zero_le, if_true, List.drop_zero, Nat.sub_zero]
    rw [List.take_append_of_le_length (by omega), List.take_of_length_le (by omega)]

/-- A reachable buffer is compacted without a fault, and with the same queue, exactly when its
contents begin at the bottom, or there are none, or they fill the upper half of the block. -/
theorem compact_preserves_iff (heap : Nat → UInt8) {b : Buffer} (h : BufferReachable b) :
    (∃ b', bufferCompact heap b = some b' ∧ Compacted b b') ↔
      b.bLo = 0 ∨ b.bLo = b.bHi ∨ (b.bHi = 0 ∧ b.bSize = 2 * b.bLo) := by
  have hwf := h.wf
  constructor
  · rintro ⟨b', hb', hcompacted⟩
    exact bufferCompact_layout hwf hb' hcompacted.hi
  · intro hcases
    by_cases hzero : b.bLo = 0
    · -- it is at the bottom already
      refine ⟨b, by rw [bufferCompact, if_pos hzero], ?_⟩
      refine Compacted.of_contents hwf rfl hzero ?_ rfl
      simp [bufferUsed, hzero]
    · rcases hcases with hcase | hempty | ⟨hbottom, hhalf⟩
      · exact absurd hcase hzero
      · exact bufferCompact_empty heap hwf hzero hempty
      · exact bufferCompact_upperHalf heap hwf hzero hbottom hhalf

/-- Two bytes have been put and taken out of a block of four. -/
def passedThrough : Buffer := { bSize := 4, bLo := 2, bHi := 2, data := [1, 2, 0, 0] }

/-- Of three bytes that have been put into a block of eight, one has been taken. -/
def readOnce : Buffer := { bSize := 8, bLo := 1, bHi := 3, data := [1, 2, 3, 0, 0, 0, 0, 0] }

theorem passedThrough_reachable : BufferReachable passedThrough := by
  have hput : bufferPut (bufferInit (fun _ => 0) 4) [1, 2] =
      some (2, { bSize := 4, bLo := 0, bHi := 2, data := [1, 2, 0, 0] }) := by decide
  have hget : bufferGet { bSize := 4, bLo := 0, bHi := 2, data := [1, 2, 0, 0] } true 2 =
      some (2, [1, 2], passedThrough) := by decide
  exact .get (.put (.init _ 4) hput) hget

theorem readOnce_reachable : BufferReachable readOnce := by
  have hput : bufferPut (bufferInit (fun _ => 0) 8) [1, 2, 3] =
      some (3, { bSize := 8, bLo := 0, bHi := 3, data := [1, 2, 3, 0, 0, 0, 0, 0] }) := by decide
  have hget :
      bufferGet { bSize := 8, bLo := 0, bHi := 3, data := [1, 2, 3, 0, 0, 0, 0, 0] } true 1 =
        some (1, [1], readOnce) := by decide
  exact .get (.put (.init _ 8) hput) hget

theorem compact_empty_preserves :
    ∃ b', bufferCompact (fun _ => 0) passedThrough = some b' ∧ Compacted passedThrough b' :=
  (compact_preserves_iff (fun _ => 0) passedThrough_reachable).mpr (.inr (.inl rfl))

/-- Two bytes at position 1 are compacted to ten bytes in a block of eight. -/
theorem compact_overruns : ¬ ∀ b, BufferReachable b →
    ∃ b', bufferCompact (fun _ => 0) b = some b' ∧ Compacted b b' := by
  intro h
  rcases h readOnce readOnce_reachable with ⟨b', hb', hcompacted⟩
  have heq : bufferCompact (fun _ => 0) readOnce =
      some { bSize := 8, bLo := 0, bHi := 10, data := [1, 2, 3, 0, 0, 0, 0, 0] } := by decide
  cases heq.symm.trans hb'
  have := hcompacted.hi
  revert this
  decide

end Hdmi2usbd
