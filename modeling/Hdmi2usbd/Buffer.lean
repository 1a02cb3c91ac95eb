import Mathlib.Data.List.Basic
import Hdmi2usbd.Lib.Block
import Hdmi2usbd.Lib.Fifo

/-!
# Buffer — the ring buffer of `buffer.c`

The buffer is a block of `b_size` bytes with a read position `b_lo` and a write
position `b_hi`; one byte always stays free, so `b_lo = b_hi` means empty. The
operations below follow the C statement by statement. A copy whose range leaves
its block is `none` (`Block.store`, `Block.load`).

The queue a buffer holds is `Buffer.contents`; each operation has one lemma that
says what it does to the queue, and any sequence of calls refines `Fifo`
(`buffer_refines_fifo`).
-/

namespace Hdmi2usbd

/-- `struct buffer_s`. -/
structure Buffer where
  bSize : Nat
  bLo : Nat
  bHi : Nat
  data : List UInt8
deriving DecidableEq, Repr

/-! ## The operations -/

/-- `malloc(size)`: what the fresh block holds is up to the allocator. -/
def malloc (heap : Nat → UInt8) (size : Nat) : List UInt8 := (List.range size).map heap

def bufferInit (heap : Nat → UInt8) (size : Nat) : Buffer where
  bSize := size
  bLo := 0
  bHi := 0
  data := malloc heap size

def bufferFlush (b : Buffer) : Buffer := { b with bHi := 0, bLo := 0 }

def bufferUsed (b : Buffer) : Nat :=
  if b.bHi ≥ b.bLo then b.bHi - b.bLo
  else b.bSize - b.bLo + b.bHi

def bufferAvailable (b : Buffer) : Nat :=
  if b.bSize ≠ 0 then b.bSize - bufferUsed b - 1 else 0

def bufferInc (b : Buffer) (val by' : Nat) : Nat :=
  if val + by' ≥ b.bSize then 0 else val + by'

/-- One guarded copy of `buffer_put`: `memcpy(data + at, buf, n)`, then `b_hi` past it. -/
def bufferFill (b : Buffer) (at' : Nat) (buf : List UInt8) : Option Buffer :=
  if buf.length > 0 then
    (Block.store b.data at' buf).map fun data =>
      { b with data, bHi := bufferInc b b.bHi buf.length }
  else some b

/-- Put the bytes `buf`; the result is how many were taken. -/
def bufferPut (b : Buffer) (buf : List UInt8) : Option (Nat × Buffer) := do
  -- partial put only if insufficient space
  let len := min buf.length (bufferAvailable b)
  let top :=
    if b.bLo > b.bHi then b.bSize - b.bHi - (b.bSize - b.bLo) else b.bSize - b.bHi
  let top := min top len
  let b ← bufferFill b b.bHi (buf.take top)
  let b ← bufferFill b 0 ((buf.drop top).take (len - top))
  pure (len, b)

/-- One guarded copy of `buffer_get`: `memcpy(buf, data + b_lo, n)`, then `b_lo`
past it. Without a destination (`copy = false`, `buf == NULL`) only `b_lo` moves. -/
def bufferDrain (b : Buffer) (copy : Bool) (n : Nat) : Option (List UInt8 × Buffer) :=
  if n > 0 then
    (if copy then Block.load b.data b.bLo n else some []).map fun out =>
      (out, { b with bLo := bufferInc b b.bLo n })
  else some ([], b)

/-- Remove the first `len` bytes, or all of them. The result is the number
removed, the bytes copied out and the buffer. -/
def bufferGet (b : Buffer) (copy : Bool) (len : Nat) : Option (Nat × List UInt8 × Buffer) := do
  -- partial get only if insufficient data
  let len := min len (bufferUsed b)
  let top := if b.bLo > b.bHi then min (b.bSize - b.bLo) len else 0
  let (out, b) ← bufferDrain b copy top
  let (rest, b) ← bufferDrain b copy (len - top)
  pure (len, out ++ rest, b)

/-- The first `len` bytes, or all of them: the walk of `buffer_get` on local
copies of the positions. -/
def bufferPeek (b : Buffer) (len : Nat) : Option (Nat × List UInt8) := do
  let len := min len (bufferUsed b)
  let top := if b.bLo > b.bHi then min (b.bSize - b.bLo) len else 0
  let (out, b) ← bufferDrain b true top
  let (rest, _) ← bufferDrain b true (len - top)
  pure (len, out ++ rest)

/-- `buffer_copymove`: put the first `len` bytes of `src`, or as many as there are
and fit, into `dst`; with `move` they also leave `src`. The walk over `src` is that
of `buffer_get`, each piece goes in by its own `buffer_put`. -/
def bufferCopymove (dst src : Buffer) (len : Nat) (move : Bool) :
    Option (Nat × Buffer × Buffer) := do
  let len := min (min len (bufferAvailable dst)) (bufferUsed src)
  let top := if src.bLo > src.bHi then min (src.bSize - src.bLo) len else 0
  let (piece, s) ← bufferDrain src true top
  let (_, dst) ← bufferPut dst piece
  let (rest, s) ← bufferDrain s true (len - top)
  let (_, dst) ← bufferPut dst rest
  pure (len, dst, if move then s else src)

def bufferCopy (dst src : Buffer) (size : Nat) := bufferCopymove dst src size false

def bufferMove (dst src : Buffer) (size : Nat) := bufferCopymove dst src size true

/-! ## The invariant and the queue it holds -/

/-- The positions lie in the block, or are both 0 when there is none. -/
structure Buffer.Wf (b : Buffer) : Prop where
  block : b.data.length = b.bSize
  lo_lt : b.bLo < b.bSize ∨ (b.bSize = 0 ∧ b.bLo = 0)
  hi_lt : b.bHi < b.bSize ∨ (b.bSize = 0 ∧ b.bHi = 0)

/-- The queued bytes, oldest first. -/
def Buffer.contents (b : Buffer) : List UInt8 :=
  if b.bHi ≥ b.bLo then (b.data.drop b.bLo).take (b.bHi - b.bLo)
  else b.data.drop b.bLo ++ b.data.take b.bHi

theorem Buffer.Wf.length_contents {b : Buffer} (h : b.Wf) : b.contents.length = bufferUsed b := by
  rcases h with ⟨hblk, hlo, hhi⟩
  unfold contents bufferUsed
  split <;> simp <;> omega

theorem Buffer.Wf.used_add_available {b : Buffer} (h : b.Wf) :
    bufferUsed b + bufferAvailable b = b.bSize - 1 := by
  rcases h with ⟨hblk, hlo, hhi⟩
  unfold bufferAvailable bufferUsed
  split <;> split <;> omega

/-- Byte `k` of the queue is `k` places after `b_lo`, past the top from the bottom. -/
theorem Buffer.Wf.getElem?_contents {b : Buffer} (h : b.Wf) (k : Nat) :
    b.contents[k]? =
      if k < bufferUsed b then
        b.data[if b.bLo + k < b.bSize then b.bLo + k else b.bLo + k - b.bSize]?
      else none := by
  rcases h with ⟨hblk, hlo, hhi⟩
  unfold contents bufferUsed
  split
  · grind
  · rw [List.getElem?_append]
    grind

theorem Buffer.Wf.inc_zero {b : Buffer} {pos : Nat}
    (h : pos < b.bSize ∨ (b.bSize = 0 ∧ pos = 0)) : bufferInc b pos 0 = pos := by
  simp only [bufferInc]
  split <;> omega

/-! ## What each operation does to the queue -/

@[simp] theorem bufferFill_nil (b : Buffer) (at' : Nat) : bufferFill b at' [] = some b := by
  simp [bufferFill]

@[simp] theorem bufferDrain_zero (b : Buffer) (copy : Bool) :
    bufferDrain b copy 0 = some ([], b) := by
  simp [bufferDrain]

/-- One copy into the buffer: `xs` fits and does not run over the top. -/
theorem bufferFill_spec {b : Buffer} (h : b.Wf) (xs : List UInt8)
    (hfit : xs.length ≤ bufferAvailable b) (htop : b.bHi + xs.length ≤ b.bSize) :
    ∃ b', bufferFill b b.bHi xs = some b' ∧ b'.Wf ∧ b'.bSize = b.bSize ∧ b'.bLo = b.bLo ∧
      b'.bHi = bufferInc b b.bHi xs.length ∧ b'.contents = b.contents ++ xs := by
  rcases Nat.eq_zero_or_pos xs.length with hnil | hpos
  · have hxs : xs = [] := List.eq_nil_of_length_eq_zero hnil
    refine ⟨b, by simp [bufferFill, hxs], h, rfl, rfl, ?_, by simp [hxs]⟩
    rw [hnil, Buffer.Wf.inc_zero h.hi_lt]
  have hin : b.bHi + xs.length ≤ b.data.length := by rw [h.block]; exact htop
  obtain ⟨data, hs⟩ : ∃ data, Block.store b.data b.bHi xs = some data := ⟨_, Block.store_eq hin⟩
  set b' : Buffer := { b with data, bHi := bufferInc b b.bHi xs.length } with hb'
  have hroom := h.used_add_available
  have h' : b'.Wf := by
    -- b_hi is below the size again when it wraps
    refine ⟨(Block.length_of_store hs).trans h.block, h.lo_lt, ?_⟩
    have := h.hi_lt
    simp only [hb', bufferInc]
    split <;> omega
  have hused : bufferUsed b' = bufferUsed b + xs.length := by
    have := h.hi_lt
    have := h.lo_lt
    simp only [hb', bufferUsed, bufferInc] at hroom ⊢
    grind
  -- the contents, byte by byte: the old ones have not moved, the new ones follow
  refine ⟨b', by simp [bufferFill, hpos, hs, hb'], h', rfl, rfl, rfl, List.ext_getElem? fun k => ?_⟩
  rw [h'.getElem?_contents, List.getElem?_append, h.length_contents, h.getElem?_contents, hused]
  have hget := Block.getElem?_of_store hs
  rcases h with ⟨hblk, hlo, hhi⟩
  simp only [bufferUsed] at hroom ⊢
  simp only [hb', hget]
  grind

/-- How a put of `len` bytes is cut: `top` bytes end at the top or below `b_lo`,
and what is left over starts again at the bottom. -/
theorem Buffer.Wf.put_split {b : Buffer} (h : b.Wf) {len top : Nat}
    (hlen : len ≤ bufferAvailable b)
    (htop : top = min (if b.bLo > b.bHi then b.bSize - b.bHi - (b.bSize - b.bLo)
      else b.bSize - b.bHi) len) :
    b.bHi + top ≤ b.bSize ∧ top ≤ len ∧
      (0 < len - top → bufferInc b b.bHi top = 0 ∧ len - top ≤ b.bSize) := by
  have hroom := h.used_add_available
  rcases h with ⟨-, hlo, hhi⟩
  simp only [bufferUsed] at hroom
  simp only [bufferInc]
  split at htop <;> split at hroom <;> refine ⟨by omega, by omega, fun _ => ⟨?_, by omega⟩⟩ <;>
    split <;> omega

theorem bufferPut_spec {b : Buffer} (h : b.Wf) (bs : List UInt8) :
    ∃ b', bufferPut b bs = some (min bs.length (bufferAvailable b), b') ∧ b'.Wf ∧
      b'.bSize = b.bSize ∧ b'.contents = b.contents ++ bs.take (bufferAvailable b) := by
  unfold bufferPut
  extract_lets len top0 top
  have hlen : len ≤ bufferAvailable b := Nat.min_le_right _ _
  have hbs : len ≤ bs.length := Nat.min_le_left _ _
  rcases h.put_split hlen (show top = _ from rfl) with ⟨htop, hle, hwrap⟩
  have hl1 : (bs.take top).length = top := by simp; omega
  have hl2 : ((bs.drop top).take (len - top)).length = len - top := by simp; omega
  -- the two pieces are the part of `bs` that fits
  have hsum : bs.take (bufferAvailable b) = bs.take top ++ (bs.drop top).take (len - top) := by
    rw [← List.take_add, Nat.add_sub_cancel' hle, List.take_eq_take_min, Nat.min_comm]
  rcases bufferFill_spec h (bs.take top) (by omega) (by omega) with
    ⟨b1, hb1, h1, hsz1, hlo1, hhi1, hc1⟩
  rw [hl1] at hhi1
  have hroom1 : bufferAvailable b1 = bufferAvailable b - top := by
    have hu : bufferUsed b1 = bufferUsed b + top := by
      rw [← h1.length_contents, hc1, List.length_append, h.length_contents, hl1]
    have := h.used_add_available
    have := h1.used_add_available
    omega
  rcases Nat.eq_zero_or_pos (len - top) with hz | hpos
  · -- one piece
    refine ⟨b1, ?_, h1, hsz1, ?_⟩
    · simp [hb1, hz, len]
    · simp [hsum, hz, hc1]
  · -- the second piece starts at the bottom
    rcases hwrap hpos with ⟨hzero, hsz⟩
    rcases bufferFill_spec h1 ((bs.drop top).take (len - top)) (by omega) (by omega) with
      ⟨b2, hb2, h2, hsz2, -, -, hc2⟩
    rw [hhi1, hzero] at hb2
    refine ⟨b2, ?_, h2, hsz2.trans hsz1, ?_⟩
    · simp [hb1, hb2, len]
    · rw [hc2, hc1, hsum, List.append_assoc]

/-- One copy out of the buffer: `n` bytes are there and do not run over the top. -/
theorem bufferDrain_spec {b : Buffer} (h : b.Wf) (copy : Bool) {n : Nat}
    (hused : n ≤ bufferUsed b) (htop : b.bLo + n ≤ b.bSize) :
    ∃ b', bufferDrain b copy n = some (if copy then b.contents.take n else [], b') ∧ b'.Wf ∧
      b'.bSize = b.bSize ∧ b'.bHi = b.bHi ∧ b'.bLo = bufferInc b b.bLo n ∧
      b'.contents = b.contents.drop n := by
  rcases Nat.eq_zero_or_pos n with rfl | hpos
  · exact ⟨b, by simp, h, rfl, rfl, (Buffer.Wf.inc_zero h.lo_lt).symm, by simp⟩
  set b' : Buffer := { b with bLo := bufferInc b b.bLo n } with hb'
  have h' : b'.Wf := by
    refine ⟨h.block, ?_, h.hi_lt⟩
    have := h.lo_lt
    simp only [hb', bufferInc]
    split <;> omega
  have hin : b.bLo + n ≤ b.data.length := by rw [h.block]; exact htop
  -- up to the top of the block, the contents lie in order
  have hload : Block.load b.data b.bLo n = some (b.contents.take n) := by
    rw [Block.load_eq hin]
    congr 1
    apply List.ext_getElem?
    intro k
    rw [List.getElem?_take, List.getElem?_take, h.getElem?_contents, List.getElem?_drop]
    grind
  have hused' : bufferUsed b' = bufferUsed b - n := by
    have := h.hi_lt
    have := h.lo_lt
    simp only [hb', bufferUsed, bufferInc] at hused ⊢
    grind
  refine ⟨b', ?_, h', rfl, rfl, rfl, ?_⟩
  · cases copy <;> simp [bufferDrain, hpos, hload, hb']
  · apply List.ext_getElem?
    intro k
    rw [h'.getElem?_contents, List.getElem?_drop, h.getElem?_contents, hused']
    have hroom := h.used_add_available
    rcases h with ⟨hblk, hlo, hhi⟩
    simp only [hb', bufferInc]
    grind

/-- How a get of `len` bytes is cut: `top` bytes end at the top, and what is left
over starts again at the bottom. -/
theorem Buffer.Wf.get_split {b : Buffer} (h : b.Wf) {len top : Nat}
    (hlen : len ≤ bufferUsed b)
    (htop : top = if b.bLo > b.bHi then min (b.bSize - b.bLo) len else 0) :
    b.bLo + top ≤ b.bSize ∧ top ≤ len ∧ bufferInc b b.bLo top + (len - top) ≤ b.bSize := by
  rcases h with ⟨-, hlo, hhi⟩
  simp only [bufferUsed] at hlen
  simp only [bufferInc]
  split at htop <;> split at hlen <;> refine ⟨by omega, by omega, ?_⟩ <;> split <;> omega

/-- The two copies of `buffer_get` and `buffer_peek` together. -/
theorem bufferDrain_twice {b : Buffer} (h : b.Wf) (copy : Bool) {len top : Nat}
    (hlen : len ≤ bufferUsed b)
    (htop : top = if b.bLo > b.bHi then min (b.bSize - b.bLo) len else 0) :
    ∃ out b1 rest b2, bufferDrain b copy top = some (out, b1) ∧
      bufferDrain b1 copy (len - top) = some (rest, b2) ∧
      out ++ rest = (if copy then b.contents.take len else []) ∧ b2.Wf ∧
      b2.bSize = b.bSize ∧ b2.contents = b.contents.drop len := by
  rcases h.get_split hlen htop with ⟨htop, hle, hrest⟩
  rcases bufferDrain_spec h copy (n := top) (by omega) (by omega) with
    ⟨b1, hb1, h1, hsz1, -, hlo1, hc1⟩
  have hused1 : bufferUsed b1 = bufferUsed b - top := by
    rw [← h1.length_contents, hc1, List.length_drop, h.length_contents]
  rcases bufferDrain_spec h1 copy (n := len - top) (by omega) (by omega) with
    ⟨b2, hb2, h2, hsz2, -, -, hc2⟩
  refine ⟨_, b1, _, b2, hb1, hb2, ?_, h2, hsz2.trans hsz1, ?_⟩
  · cases copy
    · rfl
    · simp only [if_true, hc1]
      rw [← List.take_add, Nat.add_sub_cancel' hle]
  · rw [hc2, hc1, List.drop_drop, Nat.add_sub_cancel' hle]

theorem Buffer.Wf.take_clamp {b : Buffer} (h : b.Wf) (n : Nat) :
    b.contents.take (min n (bufferUsed b)) = b.contents.take n := by
  rw [← h.length_contents, ← List.take_eq_take_min]

theorem Buffer.Wf.drop_clamp {b : Buffer} (h : b.Wf) (n : Nat) :
    b.contents.drop (min n (bufferUsed b)) = b.contents.drop n := by
  rw [← h.length_contents, ← List.drop_eq_drop_min]

theorem bufferGet_spec {b : Buffer} (h : b.Wf) (copy : Bool) (len : Nat) :
    ∃ b', bufferGet b copy len =
        some (min len (bufferUsed b), if copy then b.contents.take len else [], b') ∧ b'.Wf ∧
      b'.bSize = b.bSize ∧ b'.contents = b.contents.drop len := by
  rcases bufferDrain_twice h copy (Nat.min_le_right len (bufferUsed b)) rfl with
    ⟨out, b1, rest, b2, hb1, hb2, hout, h2, hsz, hc⟩
  rw [h.take_clamp] at hout
  refine ⟨b2, ?_, h2, hsz, hc.trans (h.drop_clamp len)⟩
  simp only [bufferGet, hb1, hb2, Option.bind_eq_bind, Option.bind_some, hout]
  rfl

theorem bufferPeek_spec {b : Buffer} (h : b.Wf) (len : Nat) :
    bufferPeek b len = some (min len (bufferUsed b), b.contents.take len) := by
  rcases bufferDrain_twice h true (Nat.min_le_right len (bufferUsed b)) rfl with
    ⟨out, b1, rest, b2, hb1, hb2, hout, -⟩
  rw [h.take_clamp] at hout
  simp only [bufferPeek, hb1, hb2, Option.bind_eq_bind, Option.bind_some, hout]
  rfl

theorem bufferInit_wf (heap : Nat → UInt8) (size : Nat) : (bufferInit heap size).Wf := by
  have hpos : 0 < size ∨ (size = 0 ∧ 0 = 0) := by omega
  exact ⟨by simp [bufferInit, malloc], hpos, hpos⟩

theorem bufferFlush_wf {b : Buffer} (h : b.Wf) : (bufferFlush b).Wf := by
  have hpos : 0 < b.bSize ∨ (b.bSize = 0 ∧ 0 = 0) := by omega
  exact ⟨h.block, hpos, hpos⟩

@[simp] theorem bufferInit_contents (heap : Nat → UInt8) (size : Nat) :
    (bufferInit heap size).contents = [] := by
  simp [bufferInit, Buffer.contents]

@[simp] theorem bufferFlush_contents (b : Buffer) : (bufferFlush b).contents = [] := by
  simp [bufferFlush, Buffer.contents]

/-- `buffer_copy` and `buffer_move` transfer the same prefix; only a move takes it
out of `src`. -/
theorem bufferCopymove_spec {dst src : Buffer} (hd : dst.Wf) (hs : src.Wf) (len : Nat)
    (move : Bool) :
    ∃ n dst' src', n = min (min len (bufferAvailable dst)) (bufferUsed src) ∧
      bufferCopymove dst src len move = some (n, dst', src') ∧ dst'.Wf ∧ src'.Wf ∧
      dst'.bSize = dst.bSize ∧ src'.bSize = src.bSize ∧
      dst'.contents = dst.contents ++ src.contents.take n ∧
      src'.contents = if move then src.contents.drop n else src.contents := by
  obtain ⟨n, hn⟩ : ∃ n, n = min (min len (bufferAvailable dst)) (bufferUsed src) := ⟨_, rfl⟩
  obtain ⟨piece, s1, rest, s2, hs1, hs2, hout, hw2, hsz2, hc2⟩ :=
    bufferDrain_twice hs true (show n ≤ bufferUsed src by omega) rfl
  rcases bufferPut_spec hd piece with ⟨d1, hd1, hw1, hsz1, hc1⟩
  rcases bufferPut_spec hw1 rest with ⟨d2, hd2, hw3, hsz3, hc3⟩
  simp only [if_true] at hout
  have hlen : piece.length + rest.length = n := by
    rw [← List.length_append, hout, List.length_take, hs.length_contents]
    omega
  -- both pieces fit, so neither put is cut short
  rw [List.take_of_length_le (by omega)] at hc1
  have hroom : bufferAvailable d1 = bufferAvailable dst - piece.length := by
    have hu : bufferUsed d1 = bufferUsed dst + piece.length := by
      rw [← hw1.length_contents, hc1, List.length_append, hd.length_contents]
    have := hd.used_add_available
    have := hw1.used_add_available
    omega
  rw [List.take_of_length_le (by omega), hc1, List.append_assoc, hout] at hc3
  refine ⟨n, d2, if move then s2 else src, hn, ?_, hw3, ?_, hsz3.trans hsz1, ?_, hc3, ?_⟩
  · simp only [bufferCopymove, ← hn, hs1, hs2, hd1, hd2, Option.bind_eq_bind, Option.bind_some]
    rfl
  · cases move <;> assumption
  · cases move
    · rfl
    · exact hsz2
  · cases move
    · rfl
    · exact hc2

/-! ## Any sequence of operations refines the bounded queue -/

/-- A call of `buffer.c`. -/
inductive BufferOp where
  | put (buf : List UInt8)
  | get (copy : Bool) (len : Nat)
  | peek (len : Nat)
  | flush
deriving DecidableEq, Repr

/-- What a call returns: the count and the bytes it yields. -/
abbrev BufferOut := Nat × List UInt8

/-- One call on the buffer. -/
def BufferOp.apply (b : Buffer) : BufferOp → Option (BufferOut × Buffer)
  | .put buf => (bufferPut b buf).map fun r => ((r.1, []), r.2)
  | .get copy len => (bufferGet b copy len).map fun r => ((r.1, r.2.1), r.2.2)
  | .peek len => (bufferPeek b len).map fun r => (r, b)
  | .flush => some ((0, []), bufferFlush b)

/-- The same call on the queue. -/
def BufferOp.spec (q : Fifo UInt8) : BufferOp → BufferOut × Fifo UInt8
  | .put buf => ((min buf.length q.free, []), q.put buf)
  | .get copy len => ((min len q.used, if copy then q.peek len else []), q.get len)
  | .peek len => ((min len q.used, q.peek len), q)
  | .flush => ((0, []), q.flush)

/-- The calls `ops` in order, with what each returned. -/
def bufferRun (b : Buffer) : List BufferOp → Option (List BufferOut × Buffer)
  | [] => some ([], b)
  | op :: ops => do
    let (out, b) ← op.apply b
    let (outs, b) ← bufferRun b ops
    pure (out :: outs, b)

def fifoRun (q : Fifo UInt8) : List BufferOp → List BufferOut × Fifo UInt8
  | [] => ([], q)
  | op :: ops =>
    let (out, q) := op.spec q
    let (outs, q) := fifoRun q ops
    (out :: outs, q)

/-- The queue a well-formed buffer stands for. -/
def Buffer.Wf.toFifo {b : Buffer} (h : b.Wf) : Fifo UInt8 where
  cap := b.bSize - 1
  items := b.contents
  bounded := by
    have := h.used_add_available
    rw [h.length_contents]
    omega

theorem Buffer.Wf.toFifo_free {b : Buffer} (h : b.Wf) : h.toFifo.free = bufferAvailable b := by
  have := h.used_add_available
  simp only [Fifo.free, toFifo, h.length_contents]
  omega

theorem Buffer.Wf.toFifo_used {b : Buffer} (h : b.Wf) : h.toFifo.used = bufferUsed b :=
  h.length_contents

/-- One call: it does not fault, it returns what the queue returns and leaves
the buffer standing for the queue after the call. -/
theorem BufferOp.apply_refines {b : Buffer} (h : b.Wf) (op : BufferOp) :
    ∃ b', ∃ h' : b'.Wf, op.apply b = some ((op.spec h.toFifo).1, b') ∧ b'.bSize = b.bSize ∧
      h'.toFifo = (op.spec h.toFifo).2 := by
  cases op with
  | put buf =>
    rcases bufferPut_spec h buf with ⟨b', hb', h', hsz, hc⟩
    refine ⟨b', h', ?_, hsz, ?_⟩
    · simp [BufferOp.apply, BufferOp.spec, hb', h.toFifo_free]
    · apply Fifo.ext'
      · simp [BufferOp.spec, Buffer.Wf.toFifo, hsz]
      · simp only [BufferOp.spec, Fifo.put_items, h.toFifo_free]
        exact hc
  | get copy len =>
    rcases bufferGet_spec h copy len with ⟨b', hb', h', hsz, hc⟩
    refine ⟨b', h', ?_, hsz, ?_⟩
    · simp only [BufferOp.apply, BufferOp.spec, hb', h.toFifo_used]
      rfl
    · apply Fifo.ext'
      · simp [BufferOp.spec, Buffer.Wf.toFifo, hsz]
      · exact hc
  | peek len =>
    refine ⟨b, h, ?_, rfl, rfl⟩
    simp only [BufferOp.apply, BufferOp.spec, bufferPeek_spec h, h.toFifo_used]
    rfl
  | flush =>
    exact ⟨_, bufferFlush_wf h, rfl, rfl, Fifo.ext' rfl (bufferFlush_contents b)⟩

/-- A whole run of calls refines the queue's run. -/
theorem bufferRun_refines {b : Buffer} (h : b.Wf) (ops : List BufferOp) :
    ∃ b', ∃ h' : b'.Wf, bufferRun b ops = some ((fifoRun h.toFifo ops).1, b') ∧
      b'.bSize = b.bSize ∧ h'.toFifo = (fifoRun h.toFifo ops).2 := by
  induction ops generalizing b with
  | nil => exact ⟨b, h, rfl, rfl, rfl⟩
  | cons op ops ih =>
    rcases op.apply_refines h with ⟨b1, h1, hb1, hsz1, hq1⟩
    rcases ih h1 with ⟨b2, h2, hb2, hsz2, hq2⟩
    rw [hq1] at hb2 hq2
    refine ⟨b2, h2, ?_, hsz2.trans hsz1, hq2⟩
    simp only [bufferRun, hb1, hb2, Option.bind_eq_bind, Option.bind_some]
    rfl

/-- The ring buffer is a bounded FIFO: from `buffer_init` of any size, every
sequence of calls runs without a copy leaving the block, returns what the queue
of capacity `size - 1` returns, and leaves a buffer that holds that queue. -/
theorem buffer_refines_fifo (heap : Nat → UInt8) (size : Nat) (ops : List BufferOp) :
    ∃ b, bufferRun (bufferInit heap size) ops =
        some ((fifoRun (Fifo.empty (size - 1)) ops).1, b) ∧
      b.contents = (fifoRun (Fifo.empty (size - 1)) ops).2.items ∧
      bufferUsed b = (fifoRun (Fifo.empty (size - 1)) ops).2.used ∧
      bufferUsed b + bufferAvailable b = size - 1 ∧
      b.data.length = size ∧
      (if size = 0 then b.bLo = 0 ∧ b.bHi = 0 else b.bLo < size ∧ b.bHi < size) := by
  have hinit := bufferInit_wf heap size
  have hempty : hinit.toFifo = Fifo.empty (size - 1) := Fifo.ext' rfl (bufferInit_contents heap size)
  rcases bufferRun_refines hinit ops with ⟨b, h, hrun, hsz, hq⟩
  rw [hempty] at hrun hq
  have hsize : b.bSize = size := hsz
  refine ⟨b, hrun, congrArg Fifo.items hq, ?_, ?_, h.block.trans hsize, ?_⟩
  · rw [← h.toFifo_used, hq]
  · rw [h.used_add_available, hsize]
  · have := h.lo_lt
    have := h.hi_lt
    split <;> omega

end Hdmi2usbd
