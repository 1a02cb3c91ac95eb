import Hdmi2usbd.StringStore

/-!
# Tokens — iterating over a store, and splitting it in place

A whole iteration of `stringstore_next` yields the lines of the contents, and without a delimiter
string the rest as well (`iterate_eq`): the segments partition what is read, and an iterator that
has come to an incomplete tail goes on when the tail is completed (`next_partitions`).
`stringstore_split` overwrites the terminators that the iterator stops at and no other byte, so
that both scanners cut the store alike (`split_agrees_next`).
-/

namespace Hdmi2usbd

/-! ## A whole iteration -/

/-- What a call returned: where the iterator stood, the length reported and the bytes. -/
structure Segment where
  start : Nat
  length : Nat
  bytes : List UInt8
deriving DecidableEq, Repr

/-- The segments of an iteration, and what the call that returned `NULL` left: the length reported
and the offset. -/
structure Iteration where
  segments : List Segment
  length : Nat
  offset : Nat
deriving DecidableEq, Repr

/-- Call `stringstore_next` until it returns `NULL`; `none` when `calls` calls are not enough. -/
def iterate (p : StringStore) (delim : Option (List UInt8)) :
    (calls offset : Nat) → Option Iteration
  | 0, _ => none
  | calls + 1, offset => do
    match ← stringstoreNext p offset delim with
    | (none, length, offset') => pure { segments := [], length := length, offset := offset' }
    | (some bytes, length, offset') =>
      let it ← iterate p delim calls offset'
      pure { it with segments := ⟨offset, length, bytes⟩ :: it.segments }

/-! ## The segments as lines -/

/-- The segments of what is unread: its lines, and without a delimiter string the rest. -/
def tokens (delim : Option (List UInt8)) (unread : List UInt8) : List (List UInt8) :=
  Lines.lines (isDelim delim) unread ++
    if delim.isNone ∧ Lines.rest (isDelim delim) unread ≠ [] then
      [Lines.rest (isDelim delim) unread]
    else []

/-- What an iteration leaves unread. -/
def leftover (delim : Option (List UInt8)) (unread : List UInt8) : List UInt8 :=
  if delim.isNone then [] else Lines.rest (isDelim delim) unread

/-- Segments one after the other. -/
def place (start : Nat) : List (List UInt8) → List Segment
  | [] => []
  | l :: ls => ⟨start, l.length, l⟩ :: place (start + l.length) ls

@[simp] theorem tokens_some (d unread : List UInt8) :
    tokens (some d) unread = Lines.lines (isDelim (some d)) unread := by
  simp [tokens]

theorem flatten_tokens (delim : Option (List UInt8)) (unread : List UInt8) :
    (tokens delim unread).flatten ++ leftover delim unread = unread := by
  have h := @Lines.flatten_lines_append_rest _ (isDelim delim) unread
  cases delim with
  | some d => simpa [leftover] using h
  | none =>
    by_cases hr : Lines.rest (isDelim none) unread = []
    · simpa [tokens, leftover, hr] using h
    · simpa [tokens, leftover, hr] using h

/-- The segment at the front is the first token, or there is none. -/
theorem tokens_frontSegment (delim : Option (List UInt8)) (unread : List UInt8) :
    match frontSegment delim unread with
    | some l => l ≠ [] ∧ ∃ r, unread = l ++ r ∧ tokens delim unread = l :: tokens delim r
    | none => tokens delim unread = [] := by
  unfold frontSegment
  cases hn : Lines.next (isDelim delim) unread with
  | some q =>
    rcases q with ⟨l, r⟩
    obtain ⟨hl, rfl⟩ := Lines.next_spec hn
    exact ⟨hl.ne_nil, r, rfl, by simp [tokens, Lines.lines_line_append hl,
      Lines.rest_line_append hl]⟩
  | none =>
    have hu := Lines.next_eq_none.mp hn
    have hlines := Lines.lines_eq_nil.mpr hu
    have hrest := Lines.rest_of_unterminated hu
    by_cases hd : delim.isNone ∧ unread ≠ []
    · simp only [hd, ne_eq, not_false_eq_true, and_self, if_true, true_and]
      exact ⟨[], by simp, by simp [tokens, hlines, hrest, hd]⟩
    · simp only [hd, if_false]
      simpa [tokens, hlines, hrest] using hd

theorem tokens_isLine {d unread l : List UInt8} (h : l ∈ tokens (some d) unread) :
    Lines.IsLine (isDelim (some d)) l := by
  rw [tokens_some] at h
  exact Lines.isLine_of_mem_lines h

/-! ## Placed segments -/

theorem bytes_place (start : Nat) (ls : List (List UInt8)) :
    (place start ls).map Segment.bytes = ls := by
  induction ls generalizing start with
  | nil => rfl
  | cons l ls ih => rw [place, List.map_cons, ih]

theorem place_append (start : Nat) (ls ls' : List (List UInt8)) :
    place start (ls ++ ls') = place start ls ++ place (start + ls.flatten.length) ls' := by
  induction ls generalizing start with
  | nil => rfl
  | cons l ls ih =>
    rw [List.cons_append, place, place, ih, List.flatten_cons, List.length_append, Nat.add_assoc,
      List.cons_append]

theorem mem_place {start : Nat} {ls : List (List UInt8)} {s : Segment} (h : s ∈ place start ls) :
    ∃ before after, ls = before ++ s.bytes :: after ∧ s.start = start + before.flatten.length ∧
      s.length = s.bytes.length := by
  induction ls generalizing start with
  | nil => cases h
  | cons l ls ih =>
    rcases List.mem_cons.mp h with rfl | h
    · exact ⟨[], ls, rfl, by simp, rfl⟩
    · obtain ⟨before, after, hls, hstart, hlen⟩ := ih h
      refine ⟨l :: before, after, by rw [hls, List.cons_append], ?_, hlen⟩
      rw [hstart, List.flatten_cons, List.length_append, Nat.add_assoc]

/-- The segments lie one after the other from `start` to `stop`. -/
def Adjoining : Nat → List Segment → Nat → Prop
  | start, [], stop => stop = start
  | start, s :: ss, stop => s.start = start ∧ Adjoining (start + s.length) ss stop

theorem adjoining_place {start stop : Nat} {ls : List (List UInt8)} :
    Adjoining start (place start ls) stop ↔ stop = start + ls.flatten.length := by
  induction ls generalizing start with
  | nil => simp [place, Adjoining]
  | cons l ls ih => simp [place, Adjoining, ih, Nat.add_assoc]

/-- What has been returned so far is placed as well. -/
theorem place_eq_append {start : Nat} {ls : List (List UInt8)} {returned later : List Segment}
    (h : place start ls = returned ++ later) :
    ls = returned.map Segment.bytes ++ later.map Segment.bytes ∧
      returned = place start (returned.map Segment.bytes) := by
  have hls : ls = returned.map Segment.bytes ++ later.map Segment.bytes := by
    rw [← List.map_append, ← h, bytes_place]
  refine ⟨hls, ?_⟩
  rw [hls, place_append] at h
  have hlen : (place start (returned.map Segment.bytes)).length = returned.length := by
    rw [← List.length_map (f := Segment.bytes), bytes_place, List.length_map]
  exact (List.append_inj_left h hlen).symm

/-- An iteration yields the tokens of what is unread, in order and one after the other. -/
theorem iterate_eq {p : StringStore} (h : p.Wf) (delim : Option (List UInt8)) {calls offset : Nat}
    (hcalls : p.contents.length < offset + calls) (hpos : 0 < calls) :
    iterate p delim calls offset = some
      { segments := place offset (tokens delim (p.contents.drop offset))
        length := 0
        offset := offset + (tokens delim (p.contents.drop offset)).flatten.length } := by
  induction calls generalizing offset with
  | zero => omega
  | succ calls ih =>
    have hfront := tokens_frontSegment delim (p.contents.drop offset)
    rw [iterate, stringstoreNext_eq h]
    cases hf : frontSegment delim (p.contents.drop offset) with
    | none =>
      rw [hf] at hfront
      simp only at hfront
      simp [hfront, place]
    | some l =>
      rw [hf] at hfront
      obtain ⟨hne, r, hunread, htokens⟩ := hfront
      have hr : p.contents.drop (offset + l.length) = r := by
        rw [← List.drop_drop, hunread, List.drop_left]
      have hlen : 0 < l.length := List.length_pos_iff.mpr hne
      have hle : offset + l.length ≤ p.contents.length := by
        have := congrArg List.length hunread
        rw [List.length_drop, List.length_append] at this
        omega
      have hrec := @ih (offset + l.length) (by omega) (by omega)
      rw [hr] at hrec
      simp [hrec, htokens, place, Nat.add_assoc]

/-! ## The partition -/

/-- What a whole iteration has made of the contents. -/
structure Partition (delim : Option (List UInt8)) (contents : List UInt8) (it : Iteration) :
    Prop where
  segment : ∀ s ∈ it.segments, 0 < s.length ∧ s.bytes.length = s.length ∧
    s.bytes = (contents.drop s.start).take s.length
  adjoining : Adjoining 0 it.segments it.offset
  lossless : (it.segments.map Segment.bytes).flatten ++ contents.drop it.offset = contents
  delimited : delim.isSome → (∀ s ∈ it.segments, Lines.IsLine (isDelim delim) s.bytes) ∧
    Lines.Unterminated (isDelim delim) (contents.drop it.offset)
  undelimited : delim.isNone → (∀ s ∈ it.segments, Lines.IsLine (isDelim none) s.bytes ∨
      (s.start + s.length = contents.length ∧ Lines.Unterminated (isDelim none) s.bytes)) ∧
    contents.drop it.offset = []
  last : it.length = 0

theorem tokens_ne_nil {delim : Option (List UInt8)} {unread l : List UInt8}
    (h : l ∈ tokens delim unread) : l ≠ [] := by
  unfold tokens at h
  rcases List.mem_append.mp h with hl | hl
  · exact (Lines.isLine_of_mem_lines hl).ne_nil
  · split at hl
    · next hd =>
      rw [List.mem_singleton.mp hl]
      exact hd.2
    · cases hl

theorem drop_flatten_tokens (delim : Option (List UInt8)) (unread : List UInt8) :
    unread.drop (tokens delim unread).flatten.length = leftover delim unread := by
  have h := flatten_tokens delim unread
  calc unread.drop (tokens delim unread).flatten.length
      = ((tokens delim unread).flatten ++ leftover delim unread).drop
          (tokens delim unread).flatten.length := by rw [h]
    _ = leftover delim unread := List.drop_left

/-- Without a delimiter string a segment ends at NUL, or it is the rest of the contents. -/
theorem place_tokens_none {contents : List UInt8} {s : Segment}
    (hs : s ∈ place 0 (tokens none contents)) : Lines.IsLine (isDelim none) s.bytes ∨
      (s.start + s.length = contents.length ∧ Lines.Unterminated (isDelim none) s.bytes) := by
  rw [tokens, place_append] at hs
  rcases List.mem_append.mp hs with hline | hrest
  · obtain ⟨before, after, hls, -, -⟩ := mem_place hline
    have hmem : s.bytes ∈ Lines.lines (isDelim none) contents :=
      hls ▸ List.mem_append_right _ (.head _)
    exact .inl (Lines.isLine_of_mem_lines hmem)
  · split at hrest
    · rw [place, place, List.mem_singleton] at hrest
      subst hrest
      right
      constructor
      · have hcat := @Lines.flatten_lines_append_rest _ (isDelim none) contents
        have := congrArg List.length hcat
        rw [List.length_append] at this
        simpa using this
      · exact Lines.unterminated_rest contents
    · cases hrest

theorem partition_tokens (delim : Option (List UInt8)) (contents : List UInt8) :
    Partition delim contents
      { segments := place 0 (tokens delim contents)
        length := 0
        offset := (tokens delim contents).flatten.length } where
  segment s hs := by
    obtain ⟨before, after, hls, hstart, hlen⟩ := mem_place hs
    have hne : s.bytes ≠ [] := tokens_ne_nil (hls ▸ List.mem_append_right _ (.head _))
    refine ⟨?_, hlen.symm, ?_⟩
    · rw [hlen]
      exact List.length_pos_iff.mpr hne
    · have hcat := flatten_tokens delim contents
      rw [hls, List.flatten_append, List.flatten_cons] at hcat
      rw [← hcat, hstart, hlen]
      simp
  adjoining := adjoining_place.mpr (by simp)
  lossless := by
    rw [bytes_place, drop_flatten_tokens]
    exact flatten_tokens delim contents
  delimited hd := by
    obtain ⟨d, rfl⟩ := Option.isSome_iff_exists.mp hd
    constructor
    · intro s hs
      obtain ⟨before, after, hls, -, -⟩ := mem_place hs
      exact tokens_isLine (hls ▸ List.mem_append_right _ (.head _))
    · rw [drop_flatten_tokens]
      exact Lines.unterminated_rest contents
  undelimited hd := by
    rw [Option.isNone_iff_eq_none] at hd
    subst hd
    constructor
    · intro s hs
      exact place_tokens_none hs
    · rw [drop_flatten_tokens]
      rfl
  last := rfl

theorem LineBuffer.iterate_eq (l : LineBuffer) (delim : Option (List UInt8)) (offset : Nat) :
    iterate l.store delim (l.length + 1) offset = some
      { segments := place offset (tokens delim (l.contents.drop offset))
        length := 0
        offset := offset + (tokens delim (l.contents.drop offset)).flatten.length } := by
  refine Hdmi2usbd.iterate_eq l.wf delim ?_ (Nat.succ_pos _)
  rw [l.length_eq]
  unfold LineBuffer.contents
  omega

/-- Lines returned before more bytes came stay, and the others are found from where they end. -/
theorem LineBuffer.iterate_returned {d : List UInt8} {whole : LineBuffer} {ls : List (List UInt8)}
    {unread : List UInt8} (hls : ∀ l ∈ ls, Lines.IsLine (isDelim (some d)) l)
    (hwhole : whole.contents = ls.flatten ++ unread) :
    ∃ more, iterate whole.store (some d) (whole.length + 1) ls.flatten.length = some more ∧
      iterate whole.store (some d) (whole.length + 1) 0 =
        some { more with segments := place 0 ls ++ more.segments } := by
  refine ⟨_, whole.iterate_eq _ _, ?_⟩
  have htokens : tokens (some d) whole.contents = ls ++ tokens (some d) unread := by
    rw [tokens_some, tokens_some, hwhole, Lines.lines_flatten_append hls]
  have hdrop : whole.contents.drop ls.flatten.length = unread := by
    rw [hwhole, List.drop_left]
  rw [whole.iterate_eq, List.drop_zero, htokens, hdrop, place_append]
  simp

/-- Two stores with the same contents are iterated alike. -/
theorem LineBuffer.iterate_congr {l l' : LineBuffer} (h : l.contents = l'.contents)
    (delim : Option (List UInt8)) (offset : Nat) :
    iterate l.store delim (l.length + 1) offset =
      iterate l'.store delim (l'.length + 1) offset := by
  rw [l.iterate_eq, l'.iterate_eq, h]

theorem next_partitions (l : LineBuffer) (delim : Option (List UInt8)) :
    (∃ it, iterate l.store delim (l.length + 1) 0 = some it ∧ Partition delim l.contents it ∧
      -- more bytes, at any time of the iteration
      ∀ returned later at', delim.isSome → it.segments = returned ++ later →
        Adjoining 0 returned at' → ∀ (value : List UInt8) (whole : LineBuffer),
          whole.contents = l.contents ++ value → ∃ more,
            iterate (l.append value).store delim ((l.append value).length + 1) at' = some more ∧
            iterate whole.store delim (whole.length + 1) 0 =
              some { more with segments := returned ++ more.segments }) ∧
    ∀ offset length offset', stringstoreNext l.store offset delim = some (none, length, offset') →
      length = 0 ∧ offset' = offset := by
  constructor
  · refine ⟨_, l.iterate_eq delim 0, ?_, ?_⟩
    · simpa using partition_tokens delim l.contents
    · intro returned later at' hd hsegments hat value whole hwhole
      obtain ⟨d, rfl⟩ := Option.isSome_iff_exists.mp hd
      rw [List.drop_zero] at hsegments
      obtain ⟨htokens, hreturned⟩ := place_eq_append hsegments
      rw [hreturned, adjoining_place, Nat.zero_add] at hat
      have hgrown : (l.append value).contents = whole.contents := by
        rw [LineBuffer.append_contents, hwhole]
      have hlines : ∀ line ∈ returned.map Segment.bytes, Lines.IsLine (isDelim (some d)) line := by
        intro line hline
        exact tokens_isLine (htokens ▸ List.mem_append_left _ hline)
      have hcat := flatten_tokens (some d) l.contents
      rw [htokens, List.flatten_append, List.append_assoc] at hcat
      rw [← hcat, List.append_assoc] at hwhole
      rw [LineBuffer.iterate_congr hgrown, hat, hreturned, bytes_place]
      exact LineBuffer.iterate_returned hlines hwhole
  · intro offset length offset' h
    rw [stringstoreNext_eq l.wf] at h
    cases hf : frontSegment delim (l.store.contents.drop offset) with
    | none =>
      rw [hf] at h
      cases h
      exact ⟨rfl, rfl⟩
    | some line =>
      rw [hf] at h
      cases h

/-! ## Splitting in place -/

/-- What `stringstore_split` makes of a byte. -/
def clearEos (delim : Option (List UInt8)) (ch : UInt8) : UInt8 :=
  if isDelim delim ch then 0 else ch

theorem isDelim_zero (delim : Option (List UInt8)) : isDelim delim 0 = true := by
  simp [isDelim]

/-- A cleared terminator is a terminator, with the same delimiters and with none. -/
theorem isDelim_clearEos (delim : Option (List UInt8)) (ch : UInt8) :
    isDelim delim (clearEos delim ch) = isDelim delim ch := by
  unfold clearEos
  split
  · next h => rw [isDelim_zero, h]
  · rfl

theorem isDelim_none_clearEos (delim : Option (List UInt8)) (ch : UInt8) :
    isDelim none (clearEos delim ch) = isDelim delim ch := by
  unfold clearEos
  split
  · next h => rw [isDelim_zero, h]
  · next h =>
    have hne : ch ≠ 0 := by
      rintro rfl
      exact h (isDelim_zero delim)
    rw [Bool.not_eq_true] at h
    rw [h]
    simp [isDelim, hne]

theorem clearEos_clearEos (delim : Option (List UInt8)) (ch : UInt8) :
    clearEos delim (clearEos delim ch) = clearEos delim ch := by
  rw [clearEos, isDelim_clearEos]
  unfold clearEos
  split <;> rfl

/-- The loop from behind `before`, over the bytes of `segment`. -/
theorem splitLoop_eq (delim : Option (List UInt8)) (before segment after : List UInt8)
    (stringcount : Int32) :
    splitLoop delim segment.length before.length stringcount (before ++ segment ++ after) =
      some (stringcount + Int32.ofNat (segment.countP (isDelim delim)),
        before ++ segment.map (clearEos delim) ++ after) := by
  induction segment generalizing before stringcount with
  | nil => simp [splitLoop]
  | cons ch segment ih =>
    have hch : (before ++ (ch :: segment) ++ after)[before.length]? = some ch := by simp
    rw [List.length_cons, splitLoop, hch]
    simp only [Option.bind_eq_bind, Option.bind_some]
    by_cases hd : isDelim delim ch
    · -- the terminator is overwritten before the loop goes on
      have hstore : Block.store (before ++ (ch :: segment) ++ after) before.length [0] =
          some (before ++ [0] ++ segment ++ after) := by
        rw [Block.store_eq (by simp)]
        simp
      have hrec := ih (before ++ [0]) (stringcount + 1)
      rw [List.length_append, List.length_singleton] at hrec
      rw [if_pos hd, hstore, Option.bind_some, hrec, List.countP_cons_of_pos hd, List.map_cons,
        clearEos, if_pos hd, Nat.add_comm, Int32.ofNat_add, Int32.add_assoc]
      simp
    · have hrec := ih (before ++ [ch]) stringcount
      rw [List.length_append, List.length_singleton] at hrec
      rw [if_neg hd, List.append_cons before, hrec, List.countP_cons_of_neg hd, List.map_cons,
        clearEos, if_neg hd]
      simp

/-- A store with each terminator of its contents cleared. -/
def StringStore.cleared (p : StringStore) (delim : Option (List UInt8)) : StringStore :=
  { p with ssBuff := p.contents.map (clearEos delim) ++ p.ssBuff.drop p.ssUsed }

section Cleared

variable {p : StringStore} (h : p.Wf) (delim : Option (List UInt8))
include h

theorem StringStore.Wf.contents_cleared :
    (p.cleared delim).contents = p.contents.map (clearEos delim) := by
  have hlen : (p.contents.map (clearEos delim)).length = p.ssUsed := by
    rw [List.length_map, h.length_contents]
  exact List.take_left' hlen

theorem StringStore.Wf.cleared : (p.cleared delim).Wf where
  block := by
    have hblock := h.block
    have hle := h.used_le
    simp only [StringStore.cleared, List.length_append, List.length_map, List.length_drop,
      h.length_contents]
    omega
  used_le := h.used_le
  inc_pos := h.inc_pos

/-- Clearing what is cleared changes no byte, also not behind the contents. -/
theorem StringStore.Wf.cleared_cleared : (p.cleared delim).cleared delim = p.cleared delim := by
  have hlen : (p.contents.map (clearEos delim)).length = p.ssUsed := by
    rw [List.length_map, h.length_contents]
  have hdrop : (p.cleared delim).ssBuff.drop p.ssUsed = p.ssBuff.drop p.ssUsed :=
    List.drop_left' hlen
  have hmap : (p.cleared delim).contents.map (clearEos delim) =
      p.contents.map (clearEos delim) := by
    rw [h.contents_cleared, List.map_map]
    refine List.map_congr_left fun ch _ => ?_
    exact clearEos_clearEos delim ch
  have hused : (p.cleared delim).ssUsed = p.ssUsed := rfl
  conv_lhs => rw [StringStore.cleared, hmap, hused, hdrop]
  rfl

/-- The split of a store: its terminators counted and cleared. -/
theorem StringStore.Wf.stringstoreSplit : stringstoreSplit p delim =
    some (Int32.ofNat (p.contents.countP (isDelim delim)), p.cleared delim) := by
  unfold Hdmi2usbd.stringstoreSplit
  by_cases hused : p.ssUsed = 0
  · -- an empty store is left as it is
    rcases p with ⟨size, used, inc, buff⟩
    cases hused
    simp [StringStore.contents, StringStore.cleared]
  · have hloop := splitLoop_eq delim [] p.contents (p.ssBuff.drop p.ssUsed) 0
    have hbuff : p.contents ++ p.ssBuff.drop p.ssUsed = p.ssBuff := List.take_append_drop _ _
    rw [List.nil_append, hbuff, h.length_contents, List.nil_append, List.length_nil,
      Int32.zero_add] at hloop
    rw [if_pos hused, hloop]
    rfl

end Cleared

def LineBuffer.cleared (l : LineBuffer) (delim : Option (List UInt8)) : LineBuffer :=
  ⟨l.store.cleared delim, l.wf.cleared delim⟩

theorem LineBuffer.contents_cleared (l : LineBuffer) (delim : Option (List UInt8)) :
    (l.cleared delim).contents = l.contents.map (clearEos delim) :=
  l.wf.contents_cleared delim

/-! ## Both scanners -/

/-- The contents after the split have the same lines and the same rest, cleared. -/
theorem split_cleared (d contents : List UInt8) {delim : Option (List UInt8)}
    (h : ∀ ch, isDelim delim (clearEos (some d) ch) = isDelim (some d) ch) :
    Lines.lines (isDelim delim) (contents.map (clearEos (some d))) =
        (Lines.lines (isDelim (some d)) contents).map (List.map (clearEos (some d))) ∧
      Lines.rest (isDelim delim) (contents.map (clearEos (some d))) =
        Lines.rest (isDelim (some d)) contents := by
  have hsplit := Lines.split_map h contents
  have hrest : (Lines.rest (isDelim (some d)) contents).map (clearEos (some d)) =
      Lines.rest (isDelim (some d)) contents := by
    -- no byte of the rest is a terminator
    conv_rhs => rw [← List.map_id (Lines.rest (isDelim (some d)) contents)]
    refine List.map_congr_left fun ch hch => ?_
    exact if_neg (Lines.unterminated_rest contents ch hch)
  rw [Lines.lines, Lines.rest, hsplit]
  exact ⟨rfl, hrest⟩

/-- Where a segment lies. -/
def Segment.range (s : Segment) : Nat × Nat := (s.start, s.length)

theorem range_place_map (start : Nat) (ls : List (List UInt8)) (f : UInt8 → UInt8) :
    (place start (ls.map (List.map f))).map Segment.range =
      (place start ls).map Segment.range := by
  induction ls generalizing start with
  | nil => rfl
  | cons l ls ih =>
    rw [List.map_cons, place, place, List.length_map, List.map_cons, List.map_cons, ih]
    simp [Segment.range]

theorem length_place (start : Nat) (ls : List (List UInt8)) :
    (place start ls).length = ls.length := by
  rw [← List.length_map (f := Segment.bytes), bytes_place]

section Split

variable (l : LineBuffer) (d : List UInt8)

/-- After the split an iteration without delimiters yields the lines and then the rest. -/
theorem LineBuffer.place_cleared_tail :
    place 0 (tokens none (l.cleared (some d)).contents) =
      place 0 (tokens (some d) (l.cleared (some d)).contents) ++
        if (tokens (some d) l.contents).flatten.length < l.length then
          [⟨(tokens (some d) l.contents).flatten.length,
            l.length - (tokens (some d) l.contents).flatten.length,
            l.contents.drop (tokens (some d) l.contents).flatten.length⟩]
        else [] := by
  obtain ⟨hlines, -⟩ := split_cleared d l.contents (isDelim_clearEos (some d))
  obtain ⟨hlinesNone, hrestNone⟩ := split_cleared d l.contents (isDelim_none_clearEos (some d))
  have hrest : l.contents.drop (Lines.lines (isDelim (some d)) l.contents).flatten.length =
      Lines.rest (isDelim (some d)) l.contents := by
    have := drop_flatten_tokens (some d) l.contents
    rwa [tokens_some] at this
  have hlength := congrArg List.length hrest
  rw [List.length_drop, ← l.length_eq] at hlength
  have hflat : ((Lines.lines (isDelim (some d)) l.contents).map
      (List.map (clearEos (some d)))).flatten.length =
        (Lines.lines (isDelim (some d)) l.contents).flatten.length := by
    rw [← List.map_flatten, List.length_map]
  rw [tokens_some, tokens_some, hrest, hlength, tokens, l.contents_cleared, hlinesNone, hrestNone,
    hlines, place_append, hflat, Nat.zero_add]
  by_cases hnil : Lines.rest (isDelim (some d)) l.contents = []
  · rw [hnil, List.length_nil] at hlength
    have hge : ¬ (Lines.lines (isDelim (some d)) l.contents).flatten.length < l.length := by
      omega
    rw [if_neg hge, if_neg fun h => h.2 hnil]
    rfl
  · have hpos := List.length_pos_iff.mpr hnil
    have hlt : (Lines.lines (isDelim (some d)) l.contents).flatten.length < l.length := by
      omega
    rw [if_pos hlt, if_pos ⟨rfl, hnil⟩]
    rfl

/-- The cleared terminators are counted again, and stay cleared. -/
theorem LineBuffer.split_cleared_again : stringstoreSplit (l.cleared (some d)).store (some d) =
    some (Int32.ofNat (l.contents.countP (isDelim (some d))), (l.cleared (some d)).store) := by
  have hsplit := (l.cleared (some d)).wf.stringstoreSplit (some d)
  have hterm : isDelim (some d) ∘ clearEos (some d) = isDelim (some d) :=
    funext (isDelim_clearEos (some d))
  have hcount : (l.cleared (some d)).contents.countP (isDelim (some d)) =
      l.contents.countP (isDelim (some d)) := by
    rw [l.contents_cleared, List.countP_map, hterm]
  have hstore : (l.cleared (some d)).store.cleared (some d) = (l.cleared (some d)).store :=
    l.wf.cleared_cleared (some d)
  rw [hstore] at hsplit
  rw [← hcount]
  exact hsplit

end Split

/-- What the caller of a split can rely on, given the iterations before and after it. -/
structure SplitAgrees (d : List UInt8) (l split : LineBuffer) (count : Int32)
    (before after all : Iteration) : Prop where
  counts : count.toInt = before.segments.length
  length : split.length = l.length
  bytes : ∀ (i : Nat) (ch : UInt8), l.contents[i]? = some ch →
    split.contents[i]? = some (if isDelim (some d) ch then 0 else ch)
  ranges : after.segments.map Segment.range = before.segments.map Segment.range
  tail : all.segments = after.segments ++
    if before.offset < l.length then
      [⟨before.offset, l.length - before.offset, l.contents.drop before.offset⟩]
    else []
  again : stringstoreSplit split.store (some d) = some (count, split.store)

theorem split_agrees_next (l : LineBuffer) (d : List UInt8) (hlen : l.length < 0x80000000) :
    ∃ (count : Int32) (split : LineBuffer) (before after all : Iteration),
      stringstoreSplit l.store (some d) = some (count, split.store) ∧
      iterate l.store (some d) (l.length + 1) 0 = some before ∧
      iterate split.store (some d) (split.length + 1) 0 = some after ∧
      iterate split.store none (split.length + 1) 0 = some all ∧
      SplitAgrees d l split count before after all := by
  have hc := l.contents_cleared (some d)
  refine ⟨_, l.cleared (some d), _, _, _, l.wf.stringstoreSplit (some d), l.iterate_eq _ 0,
    LineBuffer.iterate_eq _ _ 0, LineBuffer.iterate_eq _ _ 0, ?_⟩
  constructor
  case counts =>
    have hcount : (Lines.lines (isDelim (some d)) l.contents).length =
        l.contents.countP (isDelim (some d)) := Lines.length_lines l.contents
    have hle : l.contents.countP (isDelim (some d)) ≤ l.contents.length := List.countP_le_length
    rw [← l.length_eq] at hle
    have htoInt := Int32.toInt_ofNat_of_lt (Nat.lt_of_le_of_lt hle hlen)
    simp only [List.drop_zero, tokens_some, length_place, hcount]
    exact htoInt
  case length => rfl
  case bytes =>
    intro i ch hch
    rw [hc, List.getElem?_map, hch]
    rfl
  case ranges =>
    obtain ⟨hlines, -⟩ := split_cleared d l.contents (isDelim_clearEos (some d))
    simp only [List.drop_zero, tokens_some, hc, hlines]
    exact range_place_map _ _ _
  case tail =>
    simp only [List.drop_zero, Nat.zero_add]
    exact l.place_cleared_tail d
  case again => exact l.split_cleared_again d

/-- A line that ends in a newline, one that ends in NUL, and a tail. -/
def twoLines : LineBuffer := LineBuffer.init.append [72, 105, 10, 33, 0, 33]

theorem split_agrees_next_twoLines :
    ∃ (count : Int32) (split : LineBuffer) (before after all : Iteration),
      stringstoreSplit twoLines.store (some [10]) = some (count, split.store) ∧
      iterate twoLines.store (some [10]) (twoLines.length + 1) 0 = some before ∧
      iterate split.store (some [10]) (split.length + 1) 0 = some after ∧
      iterate split.store none (split.length + 1) 0 = some all ∧
      SplitAgrees [10] twoLines split count before after all := by
  refine split_agrees_next twoLines [10] ?_
  rw [LineBuffer.length_eq, twoLines, LineBuffer.append_contents, LineBuffer.init_contents]
  decide

end Hdmi2usbd
