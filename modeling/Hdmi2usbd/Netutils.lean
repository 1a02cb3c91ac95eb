import Hdmi2usbd.DynArray
import Hdmi2usbd.Iodev
import Hdmi2usbd.Lib.Loop

/-!
# Netutils — address lists and their iterator

The cursor of the iterator is a `size_t`. `(size_t)-1` stands for "before the first" where
`ipaddriter_hasnext` adds one to it, and for "behind the last" in `ipaddriter_prev`. Both
directions visit every address once, but on the empty list there is always a previous address
(`visits_iff`). The list that the resolver makes has the addresses of `getaddrinfo` in their order
(`ipaddrsResolveStream_toList`).
-/

namespace Hdmi2usbd

open Loop (EndsAfter)

/-! ## Address lists -/

/-- The bytes of an element that is not filled in. -/
instance : Inhabited SockAddr := ⟨⟨.other, 0⟩⟩

/-- `struct ipaddrs_s`; the number of addresses is a `size_t`. -/
structure Ipaddrs where
  naAddr : DynArray SockAddr
  fits : naAddr.count < 0x10000000000000000

/-- `ipaddrs_add`. -/
def ipaddrsAdd (naAddr : DynArray SockAddr) (addr : SockAddr) : DynArray SockAddr :=
  naAddr.new.2.store naAddr.count addr

/-- The `hints` for `getaddrinfo`. -/
structure AddrHints where
  aiFlags : Nat
  aiFamily : BitVec 32
  aiSocktype : Nat

def afUnspec : BitVec 32 := 0

def sockStream : Nat := 1

/-- `ipaddrs_resolve`; `getaddrinfo` returns a list, or `none` for an error. -/
def ipaddrsResolve (getaddrinfo : AddrHints → Option (List SockAddr)) (flags : Nat)
    (family : BitVec 32) (socktype : Nat) : Option (DynArray SockAddr) :=
  (getaddrinfo ⟨flags, family, socktype⟩).map fun srvinfo => srvinfo.foldl ipaddrsAdd (.init 4)

def ipaddrsResolveStream (getaddrinfo : AddrHints → Option (List SockAddr)) (flags : Nat) :
    Option (DynArray SockAddr) :=
  ipaddrsResolve getaddrinfo flags afUnspec sockStream

/-- What `ipaddrs_resolve_stream` asks for. -/
def streamHints (flags : Nat) : AddrHints := ⟨flags, afUnspec, sockStream⟩

theorem toList_foldl_ipaddrsAdd (srvinfo : List SockAddr) (naAddr : DynArray SockAddr) :
    (srvinfo.foldl ipaddrsAdd naAddr).toList = naAddr.toList ++ srvinfo := by
  induction srvinfo generalizing naAddr with
  | nil => rw [List.foldl_nil, List.append_nil]
  | cons addr srvinfo ih =>
    rw [List.foldl_cons, ih, ipaddrsAdd, DynArray.new_store_toList, List.append_assoc,
      List.singleton_append]

/-- The resolved list has the addresses that `getaddrinfo` returns for these hints. -/
theorem ipaddrsResolveStream_toList (getaddrinfo : AddrHints → Option (List SockAddr))
    (flags : Nat) :
    (ipaddrsResolveStream getaddrinfo flags).map DynArray.toList =
      getaddrinfo (streamHints flags) := by
  rw [ipaddrsResolveStream, ipaddrsResolve, streamHints, Option.map_map]
  cases getaddrinfo ⟨flags, afUnspec, sockStream⟩ with
  | none => rfl
  | some srvinfo =>
    simp only [Option.map_some, Function.comp_apply, toList_foldl_ipaddrsAdd, DynArray.init_toList,
      List.nil_append]

namespace Ipaddrs

/-- The addresses. -/
def toList (addrs : Ipaddrs) : List SockAddr := addrs.naAddr.toList

theorem length_toList (addrs : Ipaddrs) : addrs.toList.length = addrs.naAddr.count :=
  addrs.naAddr.length_toList

end Ipaddrs

def ipaddrsCount (addrs : Ipaddrs) : UInt64 := UInt64.ofNat addrs.naAddr.count

theorem toNat_ipaddrsCount (addrs : Ipaddrs) :
    (ipaddrsCount addrs).toNat = addrs.toList.length := by
  rw [addrs.length_toList]
  exact UInt64.toNat_ofNat_of_lt' addrs.fits

/-! ## The iterator -/

/-- `struct ipaddriter_s`. -/
structure Ipaddriter where
  current : UInt64
  ipaddrs : Ipaddrs

/-- `ipaddriter_new`, and `ipaddriter_create`. -/
def ipaddriterNew (addrs : Ipaddrs) : Ipaddriter := ⟨0xffffffffffffffff, addrs⟩

def ipaddriterCount (iter : Ipaddriter) : UInt64 := ipaddrsCount iter.ipaddrs

def ipaddriterHasnext (iter : Ipaddriter) : Bool := iter.current + 1 < ipaddriterCount iter

def ipaddriterHasprev (iter : Ipaddriter) : Bool := iter.current > 0

/-- The address at the cursor; `none` is `NULL`. -/
def Ipaddriter.get (iter : Ipaddriter) : Option SockAddr := iter.ipaddrs.naAddr.get iter.current.toNat

def ipaddriterNext (iter : Ipaddriter) : Option SockAddr × Ipaddriter :=
  if ipaddriterHasnext iter then
    let iter := { iter with current := iter.current + 1 }
    (iter.get, iter)
  else (none, iter)

def ipaddriterPrev (iter : Ipaddriter) : Option SockAddr × Ipaddriter :=
  if ipaddriterHasprev iter then
    let current :=
      if iter.current = 0xffffffffffffffff then ipaddriterCount iter else iter.current
    let iter := { iter with current := current - 1 }
    (iter.get, iter)
  else (none, iter)

/-! ## Loops over an iterator -/

/-- A turn of a loop that collects the addresses while there is another one. -/
def collectTurn (has : Ipaddriter → Bool) (move : Ipaddriter → Option SockAddr × Ipaddriter)
    (s : Ipaddriter × List (Option SockAddr)) :
    (Ipaddriter × List (Option SockAddr)) ⊕ List (Option SockAddr) :=
  if has s.1 then .inl ((move s.1).2, s.2 ++ [(move s.1).1]) else .inr s.2

def nextTurn : Ipaddriter × List (Option SockAddr) →
    (Ipaddriter × List (Option SockAddr)) ⊕ List (Option SockAddr) :=
  collectTurn ipaddriterHasnext ipaddriterNext

def prevTurn : Ipaddriter × List (Option SockAddr) →
    (Ipaddriter × List (Option SockAddr)) ⊕ List (Option SockAddr) :=
  collectTurn ipaddriterHasprev ipaddriterPrev

/-- The iterators that a fresh one becomes. -/
inductive Iterates (addrs : Ipaddrs) : Ipaddriter → Prop
  | new : Iterates addrs (ipaddriterNew addrs)
  | next {iter : Ipaddriter} (h : Iterates addrs iter) : Iterates addrs (ipaddriterNext iter).2
  | prev {iter : Ipaddriter} (h : Iterates addrs iter) : Iterates addrs (ipaddriterPrev iter).2

/-- Each direction visits each address once and stops, and what is there is not `NULL`. -/
structure Visits (addrs : Ipaddrs) : Prop where
  forth : EndsAfter nextTurn addrs.toList.length (ipaddriterNew addrs, []) (addrs.toList.map some)
  back : EndsAfter prevTurn addrs.toList.length (ipaddriterNew addrs, [])
    (addrs.toList.reverse.map some)
  next : ∀ iter, Iterates addrs iter → ipaddriterHasnext iter = true →
    (ipaddriterNext iter).1 ≠ none
  prev : ∀ iter, Iterates addrs iter → ipaddriterHasprev iter = true →
    (ipaddriterPrev iter).1 ≠ none

/-! ## The cursor -/

/-- The iterator at an address. -/
def Ipaddrs.cursor (addrs : Ipaddrs) (k : Nat) : Ipaddriter := ⟨UInt64.ofNat k, addrs⟩

section Cursor

variable (addrs : Ipaddrs) {k : Nat}

theorem toNat_at (hk : k < addrs.toList.length) : (addrs.cursor k).current.toNat = k := by
  have := addrs.fits
  rw [addrs.length_toList] at hk
  exact UInt64.toNat_ofNat_of_lt' (by simp only [UInt64.size]; omega)

theorem get_at (hk : k < addrs.toList.length) : (addrs.cursor k).get = addrs.toList[k]? := by
  rw [Ipaddriter.get, toNat_at addrs hk]
  exact addrs.naAddr.get_eq k

theorem hasnext_iff (iter : Ipaddriter) :
    ipaddriterHasnext iter = true ↔
      (iter.current.toNat + 1) % 0x10000000000000000 < iter.ipaddrs.toList.length := by
  rw [ipaddriterHasnext, decide_eq_true_eq, UInt64.lt_iff_toNat_lt, ipaddriterCount,
    toNat_ipaddrsCount, UInt64.toNat_add]
  rfl

theorem hasprev_iff (iter : Ipaddriter) :
    ipaddriterHasprev iter = true ↔ 0 < iter.current.toNat := by
  rw [ipaddriterHasprev, decide_eq_true_eq, gt_iff_lt, UInt64.lt_iff_toNat_lt]
  rfl

/-- Adding one to the cursor of a fresh iterator wraps. -/
theorem new_succ : (ipaddriterNew addrs).current + 1 = UInt64.ofNat 0 := by
  have hwrap : (0xffffffffffffffff : UInt64) + 1 = UInt64.ofNat 0 := by decide
  exact hwrap

theorem hasnext_new : ipaddriterHasnext (ipaddriterNew addrs) = true ↔ 0 < addrs.toList.length := by
  rw [ipaddriterHasnext, decide_eq_true_eq, new_succ, UInt64.lt_iff_toNat_lt, ipaddriterCount,
    toNat_ipaddrsCount]
  rfl

theorem hasnext_at (hk : k < addrs.toList.length) :
    ipaddriterHasnext (addrs.cursor k) = true ↔ k + 1 < addrs.toList.length := by
  have hfits := addrs.fits
  have hlen := addrs.length_toList
  rw [hasnext_iff, toNat_at addrs hk, Nat.mod_eq_of_lt (by omega)]
  rfl

theorem hasprev_at (hk : k < addrs.toList.length) :
    ipaddriterHasprev (addrs.cursor k) = true ↔ 0 < k := by
  rw [hasprev_iff, toNat_at addrs hk]

theorem next_new (h : 0 < addrs.toList.length) :
    ipaddriterNext (ipaddriterNew addrs) = (addrs.toList[0]?, addrs.cursor 0) := by
  rw [ipaddriterNext, if_pos ((hasnext_new addrs).mpr h), ← get_at addrs h]
  simp only [new_succ]
  rfl

theorem next_at (h : k + 1 < addrs.toList.length) :
    ipaddriterNext (addrs.cursor k) = (addrs.toList[k + 1]?, addrs.cursor (k + 1)) := by
  have hcurrent : UInt64.ofNat k + 1 = UInt64.ofNat (k + 1) := (UInt64.ofNat_add k 1).symm
  rw [ipaddriterNext, if_pos ((hasnext_at addrs (by omega)).mpr h), ← get_at addrs h]
  simp only [Ipaddrs.cursor, hcurrent]

theorem prev_new (h : k + 1 = addrs.toList.length) :
    ipaddriterPrev (ipaddriterNew addrs) = (addrs.toList[k]?, addrs.cursor k) := by
  have hcurrent : ipaddrsCount addrs - 1 = UInt64.ofNat k := by
    rw [ipaddrsCount, ← addrs.length_toList, ← h, UInt64.ofNat_add]
    exact UInt64.add_sub_cancel _ _
  rw [← get_at addrs (by omega)]
  simp only [ipaddriterPrev, ipaddriterNew, ipaddriterHasprev, ipaddriterCount, if_true, hcurrent]
  rfl

theorem prev_at (h : k + 1 < addrs.toList.length) :
    ipaddriterPrev (addrs.cursor (k + 1)) = (addrs.toList[k]?, addrs.cursor k) := by
  have hfits := addrs.fits
  have hlen := addrs.length_toList
  -- an address has an index below the count, and so below `(size_t)-1`
  have hmax : (addrs.cursor (k + 1)).current ≠ 0xffffffffffffffff := by
    intro heq
    have hnat := congrArg UInt64.toNat heq
    rw [toNat_at addrs h] at hnat
    have hval : (0xffffffffffffffff : UInt64).toNat = 0xffffffffffffffff := rfl
    omega
  have hcurrent : (addrs.cursor (k + 1)).current - 1 = UInt64.ofNat k := by
    rw [Ipaddrs.cursor, UInt64.ofNat_add]
    exact UInt64.add_sub_cancel _ _
  rw [ipaddriterPrev, if_pos ((hasprev_at addrs h).mpr (Nat.succ_pos k)), if_neg hmax,
    ← get_at addrs (by omega)]
  simp only [hcurrent]
  rfl

/-- The cursor of an iterator is where it began or at an address. -/
theorem iterates_cases (hne : addrs.toList ≠ []) {iter : Ipaddriter} (h : Iterates addrs iter) :
    iter = ipaddriterNew addrs ∨ ∃ k, k < addrs.toList.length ∧ iter = addrs.cursor k := by
  have hpos := List.length_pos_iff.mpr hne
  induction h with
  | new => exact .inl rfl
  | next _ ih =>
    rcases ih with rfl | ⟨k, hk, rfl⟩
    · rw [next_new addrs hpos]
      exact .inr ⟨0, hpos, rfl⟩
    · by_cases hlast : k + 1 < addrs.toList.length
      · rw [next_at addrs hlast]
        exact .inr ⟨k + 1, hlast, rfl⟩
      · rw [ipaddriterNext, if_neg (by rw [hasnext_at addrs hk]; exact hlast)]
        exact .inr ⟨k, hk, rfl⟩
  | prev _ ih =>
    rcases ih with rfl | ⟨k, hk, rfl⟩
    · rw [prev_new addrs (Nat.succ_pred_eq_of_pos hpos)]
      exact .inr ⟨_, Nat.pred_lt_of_lt hpos, rfl⟩
    · rcases k with - | k
      · rw [ipaddriterPrev, if_neg (by rw [hasprev_at addrs hk]; exact Nat.lt_irrefl 0)]
        exact .inr ⟨0, hk, rfl⟩
      · rw [prev_at addrs hk]
        exact .inr ⟨k, Nat.lt_of_succ_lt hk, rfl⟩

end Cursor

/-! ## The loops -/

section Turns

variable {has : Ipaddriter → Bool} {move : Ipaddriter → Option SockAddr × Ipaddriter}
  {iter iter' : Ipaddriter} {out : List (Option SockAddr)} {addr : Option SockAddr}

theorem collectTurn_steps (hhas : has iter = true) (hmove : move iter = (addr, iter')) :
    Loop.Steps (collectTurn has move) (iter, out) (iter', out ++ [addr]) := by
  simp only [Loop.Steps, collectTurn, hhas, if_true, hmove]

theorem collectTurn_ends (hhas : ¬ has iter = true) (out : List (Option SockAddr)) :
    EndsAfter (collectTurn has move) 0 (iter, out) out := by
  refine .now ?_
  rw [collectTurn, if_neg hhas]

end Turns

/-- The addresses that are ahead of an iterator. -/
inductive Ahead (addrs : Ipaddrs) : Ipaddriter → List SockAddr → Prop
  | new : Ahead addrs (ipaddriterNew addrs) addrs.toList
  | behind {k : Nat} (hk : k < addrs.toList.length) :
    Ahead addrs (addrs.cursor k) (addrs.toList.drop (k + 1))

theorem Ahead.hasnext {addrs : Ipaddrs} {iter : Ipaddriter} {rest : List SockAddr}
    (h : Ahead addrs iter rest) : ipaddriterHasnext iter = true ↔ rest ≠ [] := by
  cases h with
  | new => rw [hasnext_new, List.length_pos_iff]
  | behind hk => rw [hasnext_at addrs hk, Ne, List.drop_eq_nil_iff, Nat.not_le]

theorem Ahead.next {addrs : Ipaddrs} {iter : Ipaddriter} {addr : SockAddr} {rest : List SockAddr}
    (h : Ahead addrs iter (addr :: rest)) :
    ∃ iter', ipaddriterNext iter = (some addr, iter') ∧ Ahead addrs iter' rest := by
  generalize hlist : addr :: rest = list at h
  cases h with
  | new =>
    have hpos : 0 < addrs.toList.length := by
      rw [← hlist]
      exact Nat.succ_pos _
    have hrest : addrs.toList.drop 1 = rest := by rw [← hlist, List.drop_one, List.tail_cons]
    refine ⟨addrs.cursor 0, ?_, hrest ▸ Ahead.behind hpos⟩
    rw [next_new addrs hpos, ← hlist, List.getElem?_cons_zero]
  | @behind k hk =>
    have hk' : k + 1 < addrs.toList.length := by
      by_contra hlast
      rw [List.drop_of_length_le (by omega)] at hlist
      cases hlist
    rw [List.drop_eq_getElem_cons hk', List.cons.injEq] at hlist
    refine ⟨addrs.cursor (k + 1), ?_, hlist.2 ▸ Ahead.behind hk'⟩
    rw [next_at addrs hk', List.getElem?_eq_getElem hk', hlist.1]

/-- The loop forward collects what is ahead. -/
theorem Ahead.forth {addrs : Ipaddrs} {iter : Ipaddriter} {rest : List SockAddr}
    (h : Ahead addrs iter rest) (out : List (Option SockAddr)) :
    EndsAfter nextTurn rest.length (iter, out) (out ++ rest.map some) := by
  induction rest generalizing iter out with
  | nil =>
    rw [List.map_nil, List.append_nil]
    exact collectTurn_ends (fun hnext => h.hasnext.mp hnext rfl) out
  | cons addr rest ih =>
    obtain ⟨iter', hnext, hahead⟩ := h.next
    have hrest := ih hahead (out ++ [some addr])
    rw [List.append_assoc, List.singleton_append] at hrest
    exact .turn (collectTurn_steps (h.hasnext.mpr (List.cons_ne_nil _ _)) hnext) hrest

/-- From an address back to the beginning. -/
theorem back_at (addrs : Ipaddrs) (k : Nat) (hk : k < addrs.toList.length)
    (out : List (Option SockAddr)) :
    EndsAfter prevTurn k (addrs.cursor k, out) (out ++ (addrs.toList.take k).reverse.map some) := by
  induction k generalizing out with
  | zero =>
    rw [List.take_zero, List.reverse_nil, List.map_nil, List.append_nil]
    refine collectTurn_ends ?_ out
    rw [hasprev_at addrs hk]
    exact Nat.lt_irrefl 0
  | succ k ih =>
    have hk' : k < addrs.toList.length := Nat.lt_of_succ_lt hk
    have hrest := ih hk' (out ++ [addrs.toList[k]?])
    refine .turn (collectTurn_steps ((hasprev_at addrs hk).mpr (Nat.succ_pos k))
      (prev_at addrs hk)) ?_
    rw [List.getElem?_eq_getElem hk'] at hrest ⊢
    rw [List.take_add_one, List.getElem?_eq_getElem hk', Option.toList_some, List.reverse_append,
      List.reverse_singleton, List.singleton_append, List.map_cons]
    rw [List.append_assoc, List.singleton_append] at hrest
    exact hrest

theorem back_new {addrs : Ipaddrs} (hne : addrs.toList ≠ []) :
    EndsAfter prevTurn addrs.toList.length (ipaddriterNew addrs, [])
      (addrs.toList.reverse.map some) := by
  obtain ⟨k, hk⟩ : ∃ k, k + 1 = addrs.toList.length :=
    ⟨_, Nat.succ_pred_eq_of_pos (List.length_pos_iff.mpr hne)⟩
  have hlast : addrs.toList.reverse = addrs.toList[k] :: (addrs.toList.take k).reverse := by
    conv_lhs => rw [← List.take_length (l := addrs.toList), ← hk]
    rw [List.take_add_one, List.getElem?_eq_getElem (by omega), Option.toList_some,
      List.reverse_append, List.reverse_singleton, List.singleton_append]
  have hrest := back_at addrs k (by omega) [addrs.toList[k]?]
  rw [List.getElem?_eq_getElem (by omega), List.singleton_append, ← List.map_cons,
    ← hlast] at hrest
  have hprev := prev_new addrs hk
  rw [List.getElem?_eq_getElem (by omega)] at hprev
  rw [← hk]
  exact .turn (collectTurn_steps rfl hprev) hrest

/-- On the empty list the cursor comes back to where it began. -/
theorem prev_of_nil {addrs : Ipaddrs} (hnil : addrs.toList = []) :
    ipaddriterPrev (ipaddriterNew addrs) = (none, ipaddriterNew addrs) := by
  have hcount : addrs.naAddr.count = 0 := by rw [← addrs.length_toList, hnil, List.length_nil]
  -- the count is 0, and one less wraps to the cursor of a fresh iterator
  have hcurrent : ipaddrsCount addrs - 1 = 0xffffffffffffffff := by
    rw [ipaddrsCount, hcount]
    decide
  have hget : (ipaddriterNew addrs).get = none := by
    have hlist : addrs.naAddr.toList = [] := hnil
    rw [Ipaddriter.get, DynArray.get_eq, ipaddriterNew, hlist]
    rfl
  rw [← hget]
  simp only [ipaddriterPrev, ipaddriterNew, ipaddriterHasprev, ipaddriterCount, if_true, hcurrent]
  rfl

theorem back_never_ends {addrs : Ipaddrs} (hnil : addrs.toList = []) :
    ¬ Loop.Halts prevTurn (ipaddriterNew addrs, []) := by
  refine Loop.not_halts_of_returns (fun s => s.1 = ipaddriterNew addrs) ?_ rfl
  rintro ⟨iter, out⟩ rfl
  exact ⟨_, .single (collectTurn_steps rfl (prev_of_nil hnil)), rfl⟩

/-- Both directions visit each address once exactly if there is one. -/
theorem visits_iff (addrs : Ipaddrs) : Visits addrs ↔ addrs.toList ≠ [] := by
  constructor
  · intro h hnil
    exact back_never_ends hnil ⟨_, h.back.ends⟩
  · intro hne
    have hpos := List.length_pos_iff.mpr hne
    refine ⟨Ahead.new.forth [], back_new hne, ?_, ?_⟩
    · intro iter hiter hhas
      rcases iterates_cases addrs hne hiter with rfl | ⟨k, hk, rfl⟩
      · rw [next_new addrs hpos]
        simpa using hne
      · have hnext := (hasnext_at addrs hk).mp hhas
        rw [next_at addrs hnext, List.getElem?_eq_getElem hnext]
        exact Option.some_ne_none _
    · intro iter hiter hhas
      rcases iterates_cases addrs hne hiter with rfl | ⟨k, hk, rfl⟩
      · rw [prev_new addrs (Nat.succ_pred_eq_of_pos hpos),
          List.getElem?_eq_getElem (Nat.pred_lt_of_lt hpos)]
        exact Option.some_ne_none _
      · rcases k with - | k
        · exact absurd ((hasprev_at addrs hk).mp hhas) (Nat.lt_irrefl 0)
        · rw [prev_at addrs hk, List.getElem?_eq_getElem (Nat.lt_of_succ_lt hk)]
          exact Option.some_ne_none _

/-- The empty list, backwards. -/
theorem empty_list_back_never_ends : ¬ ∀ addrs, Visits addrs := by
  intro h
  have hnil : (DynArray.init 4 : DynArray SockAddr).toList = [] := DynArray.init_toList 4
  have hcount : (DynArray.init 4 : DynArray SockAddr).count = 0 := by
    rw [← DynArray.length_toList, hnil, List.length_nil]
  have hempty : (Ipaddrs.mk (DynArray.init 4) (by omega)).toList = [] := hnil
  exact back_never_ends hempty ⟨_, (h _).back.ends⟩

end Hdmi2usbd
