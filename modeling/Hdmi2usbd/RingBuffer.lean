import Hdmi2usbd.Buffer

/-!
# RingBuffer — the buffer that carries its invariant

The devices hold buffers that `buffer_init` made and only `buffer.c` touches.
Here such a buffer has its invariant as a field: its operations are the functions
of `Buffer`, total because no copy of a well-formed buffer leaves its block, and
the simp lemmas say what each does to the queue. Nothing above this module looks
at the positions.
-/

namespace Hdmi2usbd

/-- A well-formed ring buffer. Its operations are those of `buffer.c`; they are
total because no copy of a well-formed buffer leaves its block. -/
structure RingBuffer where
  buf : Buffer
  wf : buf.Wf

namespace RingBuffer

/-- `buffer_init`. What the fresh block holds is never read, so it is taken as 0. -/
def init (size : Nat) : RingBuffer := ⟨bufferInit (fun _ => 0) size, bufferInit_wf _ size⟩

def flush (b : RingBuffer) : RingBuffer := ⟨bufferFlush b.buf, bufferFlush_wf b.wf⟩

def size (b : RingBuffer) : Nat := b.buf.bSize

def contents (b : RingBuffer) : List UInt8 := b.buf.contents

def used (b : RingBuffer) : Nat := bufferUsed b.buf

def available (b : RingBuffer) : Nat := bufferAvailable b.buf

variable (b dst src : RingBuffer) (bs : List UInt8) (copy move : Bool) (n : Nat)

theorem put_isSome : (bufferPut b.buf bs).isSome := by
  rcases bufferPut_spec b.wf bs with ⟨b', hb', -⟩
  simp [hb']

theorem get_isSome : (bufferGet b.buf copy n).isSome := by
  rcases bufferGet_spec b.wf copy n with ⟨b', hb', -⟩
  simp [hb']

theorem peek_isSome : (bufferPeek b.buf n).isSome := by
  simp [bufferPeek_spec b.wf]

theorem copymove_isSome : (bufferCopymove dst.buf src.buf n move).isSome := by
  rcases bufferCopymove_spec dst.wf src.wf n move with ⟨_, _, _, -, h, -⟩
  simp [h]

theorem put_wf : ((bufferPut b.buf bs).get (b.put_isSome bs)).2.Wf := by
  rcases bufferPut_spec b.wf bs with ⟨b', hb', h', -⟩
  simpa [hb'] using h'

theorem get_wf : ((bufferGet b.buf copy n).get (b.get_isSome copy n)).2.2.Wf := by
  rcases bufferGet_spec b.wf copy n with ⟨b', hb', h', -⟩
  simpa [hb'] using h'

theorem copymove_wf :
    ((bufferCopymove dst.buf src.buf n move).get (copymove_isSome dst src move n)).2.1.Wf ∧
      ((bufferCopymove dst.buf src.buf n move).get (copymove_isSome dst src move n)).2.2.Wf := by
  rcases bufferCopymove_spec dst.wf src.wf n move with ⟨_, _, _, -, h, hd, hs, -⟩
  simpa [h] using ⟨hd, hs⟩

/-- `buffer_put`: the count taken and the buffer. -/
def put : Nat × RingBuffer :=
  let r := (bufferPut b.buf bs).get (b.put_isSome bs)
  (r.1, ⟨r.2, b.put_wf bs⟩)

/-- `buffer_get`: the count, the bytes copied out and the buffer. -/
def get : Nat × List UInt8 × RingBuffer :=
  let r := (bufferGet b.buf copy n).get (b.get_isSome copy n)
  (r.1, r.2.1, ⟨r.2.2, b.get_wf copy n⟩)

/-- `buffer_peek`: the count and the bytes. -/
def peek : Nat × List UInt8 := (bufferPeek b.buf n).get (b.peek_isSome n)

/-- `buffer_copymove`: the count, the destination and the source. -/
def copymove : Nat × RingBuffer × RingBuffer :=
  let r := (bufferCopymove dst.buf src.buf n move).get (copymove_isSome dst src move n)
  (r.1, ⟨r.2.1, (copymove_wf dst src move n).1⟩, ⟨r.2.2, (copymove_wf dst src move n).2⟩)

/-! What the operations do, in terms of the queue. -/

theorem length_contents : b.contents.length = b.used := b.wf.length_contents

theorem used_add_available : b.used + b.available = b.size - 1 := b.wf.used_add_available

@[simp] theorem init_size : (init n).size = n := rfl
@[simp] theorem init_contents : (init n).contents = [] := bufferInit_contents _ n
@[simp] theorem flush_size : b.flush.size = b.size := rfl
@[simp] theorem flush_contents : b.flush.contents = [] := bufferFlush_contents b.buf

@[simp] theorem put_count : (b.put bs).1 = min bs.length b.available := by
  rcases bufferPut_spec b.wf bs with ⟨b', hb', -⟩
  simp [put, hb', available]

@[simp] theorem put_contents : (b.put bs).2.contents = b.contents ++ bs.take b.available := by
  rcases bufferPut_spec b.wf bs with ⟨b', hb', -, -, hc⟩
  simpa [put, hb', contents, available] using hc

@[simp] theorem put_size : (b.put bs).2.size = b.size := by
  rcases bufferPut_spec b.wf bs with ⟨b', hb', -, hsz, -⟩
  simpa [put, hb', size] using hsz

@[simp] theorem get_count : (b.get copy n).1 = min n b.used := by
  rcases bufferGet_spec b.wf copy n with ⟨b', hb', -⟩
  simp [get, hb', used]

@[simp] theorem get_bytes : (b.get copy n).2.1 = if copy then b.contents.take n else [] := by
  rcases bufferGet_spec b.wf copy n with ⟨b', hb', -⟩
  simp [get, hb', contents]

@[simp] theorem get_contents : (b.get copy n).2.2.contents = b.contents.drop n := by
  rcases bufferGet_spec b.wf copy n with ⟨b', hb', -, -, hc⟩
  simpa [get, hb', contents] using hc

@[simp] theorem get_size : (b.get copy n).2.2.size = b.size := by
  rcases bufferGet_spec b.wf copy n with ⟨b', hb', -, hsz, -⟩
  simpa [get, hb', size] using hsz

@[simp] theorem peek_eq : b.peek n = (min n b.used, b.contents.take n) := by
  simp [peek, bufferPeek_spec b.wf, used, contents]

@[simp] theorem copymove_count :
    (copymove dst src move n).1 = min (min n dst.available) src.used := by
  rcases bufferCopymove_spec dst.wf src.wf n move with ⟨_, _, _, rfl, h, -⟩
  simp [copymove, h, available, used]

@[simp] theorem copymove_dst : (copymove dst src move n).2.1.contents =
    dst.contents ++ src.contents.take (min (min n dst.available) src.used) := by
  rcases bufferCopymove_spec dst.wf src.wf n move with ⟨_, _, _, rfl, h, -, -, -, -, hc, -⟩
  simpa [copymove, h, contents, available, used] using hc

@[simp] theorem copymove_src : (copymove dst src move n).2.2.contents =
    if move then src.contents.drop (min (min n dst.available) src.used) else src.contents := by
  rcases bufferCopymove_spec dst.wf src.wf n move with ⟨_, _, _, rfl, h, -, -, -, -, -, hc⟩
  simpa [copymove, h, contents, available, used] using hc

@[simp] theorem copymove_dst_size : (copymove dst src move n).2.1.size = dst.size := by
  rcases bufferCopymove_spec dst.wf src.wf n move with ⟨_, _, _, -, h, -, -, hsz, -⟩
  simpa [copymove, h, size] using hsz

@[simp] theorem copymove_src_size : (copymove dst src move n).2.2.size = src.size := by
  rcases bufferCopymove_spec dst.wf src.wf n move with ⟨_, _, _, -, h, -, -, -, hsz, -⟩
  simpa [copymove, h, size] using hsz

end RingBuffer

end Hdmi2usbd
