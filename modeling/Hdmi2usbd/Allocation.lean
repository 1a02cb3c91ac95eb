import Mathlib.Data.List.Nodup
import Hdmi2usbd.Calls
import Hdmi2usbd.Daemon
import Hdmi2usbd.Lib.Slots

/-!
# Allocation — which device is in which slot, and what it has allocated

Every device that a creator fills in gets a number. The census of a run says which number is in
which slot (`tenants`) and, for each number, what its creator has allocated and nobody has freed
(`heap`). A slot is taken again only when its device is inactive, the device that is created in it
stays there until then, and there are never more slots than there have been devices at once
(`slots_allocated`).

What a device has allocated is lost with its slot: `iodev_init` clears the record, and nothing
calls `iodev_free` (`heap_owned_iff`).
-/

namespace Hdmi2usbd

open Machine (Along run)

/-- What a creator allocates for its device: ring buffers, line store and configuration. -/
inductive Item
  | ring
  | line
  | config
deriving DecidableEq, Repr

/-- How many of a kind a device can have. -/
def Item.most : Item → Nat
  | .ring => 2
  | .line => 1
  | .config => 1

/-- A buffer of size 0 allocates nothing. -/
def itemsOf (dev : Iodev) : List Item :=
  (if dev.rbuf.size > 0 then [.ring] else []) ++ (if dev.tbuf.size > 0 then [.ring] else []) ++
    (if dev.linebuf.isSome then [.line] else []) ++ [.config]

/-! ## The census -/

structure Census where
  selector : Selector
  world : World
  /-- for each slot the number of the device in it -/
  tenants : List Nat
  /-- how many devices have been created -/
  made : Nat
  /-- what is allocated, with the number of the device it was allocated for -/
  heap : List (Nat × Item)

namespace Census

def devs (s : Census) : List Iodev := s.selector.toList

def empty : Census := ⟨selectorInit, .init, [], 0, []⟩

end Census

/-- A creator is called, or one of the calls of the loops or a close is made. -/
inductive Deed
  | serial (bufsize : Nat)
  | listen (laddr : SockAddr) (bufsize : Nat)
  | call (c : Call)

/-- The device that an accept creates. -/
def Call.creates (s : Selector × World) : Call → Option Iodev
  | .test index _ sets .read answer =>
    match selectorGetDevice s.1 index, answer.accept with
    | some dev, some fd =>
      if dev.driver = .listen ∧ iodevIsSet dev sets.r ∧ (fd : Int) ∉ s.2.fds then
        some (tcpCreateAccepted (s.2.opens + 1) fd dev.bufsize)
      else none
    | _, _ => none
  | _ => none

def Deed.creates (clock : Nat → UTime) (s : Selector × World) : Deed → Option Iodev
  | .serial bufsize => some (serialCreate clock bufsize s.2).1
  | .listen laddr bufsize => some (tcpCreateListen laddr bufsize)
  | .call c => c.creates s

/-- What the program does. -/
def Deed.perform (clock : Nat → UTime) (s : Selector × World) : Deed → Selector × World
  | .serial bufsize => selectorNewDeviceSerial clock bufsize s.1 s.2
  | .listen laddr bufsize => (selectorNewDeviceListen laddr bufsize s.1, s.2)
  | .call c => c.apply clock s

/-- The census after a deed: the tenant of a new device is in the slot that `selector_new_device`
finds, and its items come to the heap, which nothing leaves. -/
def Deed.apply (clock : Nat → UTime) (s : Census) (d : Deed) : Census :=
  let r := d.perform clock (s.selector, s.world)
  match d.creates clock (s.selector, s.world) with
  | none => { s with selector := r.1, world := r.2 }
  | some dev =>
    { selector := r.1
      world := r.2
      tenants := match inactiveSlot s.selector with
        | some index => s.tenants.set index s.made
        | none => s.tenants ++ [s.made]
      made := s.made + 1
      heap := s.heap ++ (itemsOf dev).map (s.made, ·) }

variable (clock : Nat → UTime)

/-! ## What a deed does -/

/-- A later record of a device: the driver and the address stay, and the session of a connection
does; only a device that is opened again gets a new session. -/
structure Iodev.Later (dev dev' : Iodev) (opens opens' : Nat) : Prop where
  driver : dev'.driver = dev.driver
  laddr : dev'.laddr = dev.laddr
  session : dev'.session = dev.session ∨
    (dev.driver ≠ .accepted ∧ opens < dev'.session ∧ dev'.session ≤ opens')

theorem devReaches_later {p : Policy} {s s' : Iodev × World} (h : DevReaches p s s') :
    s.2.opens ≤ s'.2.opens ∧ s.1.Later s'.1 s.2.opens s'.2.opens := by
  refine h.preserves (fun t => s.2.opens ≤ t.2.opens ∧ s.1.Later t.1 s.2.opens t.2.opens) ?_
    ⟨le_rfl, rfl, rfl, .inl rfl⟩
  rintro t a ⟨hle, hlater⟩ hok
  cases a with
  | opened fd state =>
    have hacc : s.1.driver ≠ .accepted := by
      rw [← hlater.driver]
      exact hok.2.1
    exact ⟨Nat.le_succ_of_le hle, hlater.driver, hlater.laddr,
      .inr ⟨hacc, Nat.lt_succ_of_le hle, le_rfl⟩⟩
  | _ => exact ⟨hle, hlater.driver, hlater.laddr, hlater.session⟩

theorem setMasks_later (answer : OpenAnswer) (dev : Iodev) (sets : FdSets) (w : World) :
    w.opens ≤ (setMasks clock answer dev sets w).world.opens ∧
      dev.Later (setMasks clock answer dev sets w).dev w.opens
        (setMasks clock answer dev sets w).world.opens := by
  have hreach : DevReaches .any (dev, w) ((setMasks clock answer dev sets w).dev,
      (setMasks clock answer dev sets w).world) := setMasks_reaches answer sets w
  exact devReaches_later hreach

theorem iodevHandler_later (event : IoEvent) (answer : IoAnswer) (dev : Iodev) (w : World) :
    w.opens ≤ (iodevHandler clock event answer dev w).2.opens ∧
      dev.Later (iodevHandler clock event answer dev w).1 w.opens
        (iodevHandler clock event answer dev w).2.opens := by
  have hreach : DevReaches .any (dev, w) (iodevHandler clock event answer dev w) :=
    iodevHandler_reaches (fun _ => trivial) w
  exact devReaches_later hreach

theorem iodevClose_later (dev : Iodev) (flags : Nat) (w : World) :
    w.opens ≤ (iodevClose dev flags w).2.opens ∧
      dev.Later (iodevClose dev flags w).1 w.opens (iodevClose dev flags w).2.opens := by
  by_cases h : dev.state.holds
  · rcases iodevClose_cases h flags w with heq | ⟨-, -, heq⟩
    · rw [heq]
      exact ⟨le_rfl, rfl, rfl, .inl rfl⟩
    · rw [heq]
      exact ⟨le_rfl, rfl, rfl, .inl rfl⟩
  · rw [iodevClose_not_holds h]
    split
    · exact ⟨le_rfl, rfl, rfl, .inl rfl⟩
    · exact ⟨le_rfl, rfl, rfl, .inl rfl⟩

/-- A device in its slot becomes a later record of itself, or none does. -/
def Replaced (s s' : Selector × World) : Prop :=
  s.2.opens ≤ s'.2.opens ∧ (s'.1.toList = s.1.toList ∨
    ∃ (index : Nat) (dev dev' : Iodev), s.1.toList[index]? = some dev ∧
      s'.1.toList = s.1.toList.set index dev' ∧ dev.Later dev' s.2.opens s'.2.opens)

theorem onDevice_replaced {f : Iodev → World → Iodev × World}
    (hlater : ∀ dev w, w.opens ≤ (f dev w).2.opens ∧ dev.Later (f dev w).1 w.opens (f dev w).2.opens)
    (index : Nat) (s : Selector × World) : Replaced s (onDevice index f s) := by
  cases hget : s.1.toList[index]? with
  | none =>
    rw [onDevice_none hget]
    exact ⟨le_rfl, .inl rfl⟩
  | some dev =>
    rw [onDevice_some hget]
    exact ⟨(hlater dev s.2).1,
      .inr ⟨index, dev, _, hget, Selector.store_toList _ _ _, (hlater dev s.2).2⟩⟩

/-- A device as its creator leaves it: a connection has the session of its accept, and another
device has none yet. -/
structure Created (dev : Iodev) (w w' : World) : Prop where
  state : dev.state ≠ .iodevInactive
  session : (dev.driver = .accepted ∧ dev.session = w.opens + 1 ∧ w'.opens = w.opens + 1) ∨
    (dev.driver ≠ .accepted ∧ dev.session = 0 ∧ w'.opens = w.opens)

/-- Only a listener that is read from and gets a new descriptor creates a device. -/
theorem test_creates_none {s : Selector × World} {index ptr : Nat} {sets : FdSets}
    {event : IoEvent} {answer : IoAnswer}
    (h : ∀ dev, s.1.toList[index]? = some dev → ∀ fd : Nat, answer.accept = some fd →
      ¬ (event = .read ∧ dev.driver = .listen ∧ iodevIsSet dev (sets.get event) ∧
        (fd : Int) ∉ s.2.fds)) : (Call.test index ptr sets event answer).creates s = none := by
  cases event with
  | write | except => rfl
  | read =>
    unfold Call.creates
    dsimp only
    split
    · next dev fd hget hans =>
      rw [selectorGetDevice_eq] at hget
      exact if_neg fun hok => h dev hget fd hans ⟨rfl, hok⟩
    · rfl

/-- A call creates the device of an accept, or replaces a device by itself. -/
theorem call_cases (s : Selector × World) (c : Call) :
    (∃ dev, c.creates s = some dev ∧ Created dev s.2 (c.apply clock s).2 ∧
      (c.apply clock s).1 = selectorPlace s.1 dev) ∨
    (c.creates s = none ∧ Replaced s (c.apply clock s)) := by
  cases c with
  | setMasks index answer sets =>
    exact .inr ⟨rfl, onDevice_replaced (fun dev w => setMasks_later clock answer dev sets w) index s⟩
  | close index flags =>
    exact .inr ⟨rfl, onDevice_replaced (fun dev w => iodevClose_later dev flags w) index s⟩
  | test index pointer sets event answer =>
    cases hget : s.1.toList[index]? with
    | none =>
      refine .inr ⟨test_creates_none ?_, ?_⟩
      · intro dev hdev
        rw [hget] at hdev
        cases hdev
      · have happly : (Call.test index pointer sets event answer).apply clock s = s := by
          simp [Call.apply, dispatchEvent, selectorGetDevice_eq, hget]
        rw [happly]
        exact ⟨le_rfl, .inl rfl⟩
    | some dev =>
      by_cases hset : iodevIsSet dev (sets.get event)
      · simp only [Call.apply, dispatchEvent_set (s := ⟨index, 0, s.1, s.2⟩) hget hset]
        by_cases haccept : event = .read ∧ dev.driver = .listen
        · rcases haccept with ⟨rfl, hlisten⟩
          have hread : iodevIsSet dev sets.r := hset
          rw [runHandler_accept ⟨rfl, hlisten⟩]
          rcases tcpAcceptHandler_cases answer dev s.1
            (DispatchState.call ⟨index, 0, s.1, s.2⟩ pointer .read dev) with ⟨hno, heq⟩ |
            ⟨fd, hans, hfresh, heq⟩
          · -- nothing is accepted
            refine .inr ⟨test_creates_none ?_, by rw [heq]; exact ⟨le_rfl, .inl rfl⟩⟩
            rintro - - fd hans ⟨-, -, -, hfresh⟩
            exact hfresh (hno fd hans)
          · have hfresh' : (fd : Int) ∉ s.2.fds := hfresh
            refine .inl ⟨_, ?_, ?_, by rw [heq]⟩
            · simp [Call.creates, selectorGetDevice_eq, hget, hans, hlisten, hread, hfresh',
                DispatchState.call, DispatchState.deref]
            · rw [heq]
              exact ⟨by simp [tcpCreateAccepted, tcpAccept], .inl ⟨rfl, rfl, rfl⟩⟩
        · rw [runHandler_other haccept]
          refine .inr ⟨test_creates_none ?_, ?_⟩
          · rintro dev' hdev' - - ⟨hread, hlisten, -⟩
            cases hget.symm.trans hdev'
            exact haccept ⟨hread, hlisten⟩
          · have hlater := iodevHandler_later clock event answer dev
              (DispatchState.call ⟨index, 0, s.1, s.2⟩ pointer event dev)
            refine ⟨hlater.1, ?_⟩
            dsimp only
            split
            · exact .inr ⟨index, dev, _, hget, Selector.store_toList _ _ _, hlater.2⟩
            · exact .inl rfl
      · refine .inr ⟨test_creates_none ?_, ?_⟩
        · rintro dev' hdev' - - ⟨-, -, hset', -⟩
          cases hget.symm.trans hdev'
          exact hset hset'
        · simp only [Call.apply, dispatchEvent_unset (s := ⟨index, 0, s.1, s.2⟩) hget hset]
          exact ⟨le_rfl, .inl rfl⟩

/-- A deed creates a device, or replaces a device by itself. -/
theorem perform_cases (s : Selector × World) (d : Deed) :
    (∃ dev, d.creates clock s = some dev ∧ Created dev s.2 (d.perform clock s).2 ∧
      (d.perform clock s).1 = selectorPlace s.1 dev) ∨
    (d.creates clock s = none ∧ Replaced s (d.perform clock s)) := by
  cases d with
  | serial bufsize =>
    refine .inl ⟨_, rfl, ⟨by simp [serialCreate, iodevInit], .inr ⟨?_, rfl, ?_⟩⟩, rfl⟩
    · simp [serialCreate, iodevInit]
    · simp [Deed.perform, selectorNewDeviceSerial, serialCreate]
  | listen laddr bufsize =>
    refine .inl ⟨_, rfl, ⟨by simp [tcpCreateListen, tcpCreate, iodevInit], .inr ⟨?_, rfl, rfl⟩⟩, rfl⟩
    simp [tcpCreateListen, tcpCreate, iodevInit]
  | call c => exact call_cases clock s c

/-- What a deed does to the census. -/
theorem deed_cases (s : Census) (d : Deed) :
    (∃ dev, d.creates clock (s.selector, s.world) = some dev ∧
      Created dev s.world (d.apply clock s).world ∧ (d.apply clock s).made = s.made + 1 ∧
      (d.apply clock s).heap = s.heap ++ (itemsOf dev).map (s.made, ·) ∧
      ((∃ index, inactiveSlot s.selector = some index ∧
          (d.apply clock s).devs = s.devs.set index dev ∧
          (d.apply clock s).tenants = s.tenants.set index s.made) ∨
        (inactiveSlot s.selector = none ∧ (d.apply clock s).devs = s.devs ++ [dev] ∧
          (d.apply clock s).tenants = s.tenants ++ [s.made]))) ∨
    (d.creates clock (s.selector, s.world) = none ∧ (d.apply clock s).made = s.made ∧
      (d.apply clock s).heap = s.heap ∧ (d.apply clock s).tenants = s.tenants ∧
      Replaced (s.selector, s.world) ((d.apply clock s).selector, (d.apply clock s).world)) := by
  rcases perform_cases clock (s.selector, s.world) d with ⟨dev, hcreates, hcreated, hplace⟩ |
    ⟨hcreates, hreplaced⟩
  · have hdevs : (d.apply clock s).devs = (selectorPlace s.selector dev).toList := by
      simp only [Deed.apply, hcreates, Census.devs, hplace]
    rw [selectorPlace_toList] at hdevs
    refine .inl ⟨dev, hcreates, ?_, ?_, ?_, ?_⟩
    · simpa only [Deed.apply, hcreates] using hcreated
    · simp only [Deed.apply, hcreates]
    · simp only [Deed.apply, hcreates]
    · cases hslot : inactiveSlot s.selector with
      | some index =>
        rw [hslot] at hdevs
        exact .inl ⟨index, rfl, hdevs, by simp only [Deed.apply, hcreates, hslot]⟩
      | none =>
        rw [hslot] at hdevs
        exact .inr ⟨rfl, hdevs, by simp only [Deed.apply, hcreates, hslot]⟩
  · refine .inr ⟨hcreates, ?_, ?_, ?_, ?_⟩
    · simp only [Deed.apply, hcreates]
    · simp only [Deed.apply, hcreates]
    · simp only [Deed.apply, hcreates]
    · simpa only [Deed.apply, hcreates] using hreplaced

theorem Replaced.length {s s' : Selector × World} (h : Replaced s s') :
    s'.1.toList.length = s.1.toList.length := by
  rcases h with ⟨-, heq | ⟨index, dev, dev', -, heq, -⟩⟩
  · rw [heq]
  · rw [heq]
    exact List.length_set

theorem Replaced.later {s s' : Selector × World} (h : Replaced s s') {index : Nat} {dev : Iodev}
    (hget : s.1.toList[index]? = some dev) :
    ∃ dev', s'.1.toList[index]? = some dev' ∧ dev.Later dev' s.2.opens s'.2.opens := by
  rcases h with ⟨-, heq | ⟨i, old, new, hold, heq, hlater⟩⟩
  · exact ⟨dev, by rw [heq]; exact hget, rfl, rfl, .inl rfl⟩
  · rw [heq]
    by_cases hi : i = index
    · subst hi
      cases hold.symm.trans hget
      exact ⟨new, by rw [List.getElem?_set_self (List.getElem?_eq_some_iff.mp hget).1], hlater⟩
    · exact ⟨dev, by rw [List.getElem?_set_ne hi]; exact hget, rfl, rfl, .inl rfl⟩

/-! ## The invariant -/

/-- The census is in order: one tenant for each slot, all different, and numbers not yet given are
nowhere. -/
structure Census.Wf (s : Census) : Prop where
  length : s.tenants.length = s.devs.length
  nodup : s.tenants.Nodup
  below : ∀ tenant ∈ s.tenants, tenant < s.made
  heap : ∀ x ∈ s.heap, x.1 < s.made
  /-- each device has a configuration, and not more than it can have of each kind -/
  config : ∀ tenant, tenant < s.made → (tenant, .config) ∈ s.heap
  most : ∀ tenant item, s.heap.count (tenant, item) ≤ item.most

theorem count_itemsOf (dev : Iodev) (item : Item) : (itemsOf dev).count item ≤ item.most := by
  unfold itemsOf
  cases item <;> simp only [List.count_append] <;> split <;> split <;> split <;> decide

/-- The items of a new device are counted under its number. -/
theorem count_tagged (made tenant : Nat) (items : List Item) (item : Item) :
    (items.map (made, ·)).count (tenant, item) = if made = tenant then items.count item else 0 := by
  induction items with
  | nil => simp
  | cons x items ih =>
    rw [List.map_cons, List.count_cons, ih, List.count_cons]
    by_cases htenant : made = tenant <;> simp [htenant]

theorem Census.Wf.heap_place {s : Census} (h : s.Wf) (dev : Iodev) {heap : List (Nat × Item)}
    (hheap : heap = s.heap ++ (itemsOf dev).map (s.made, ·)) :
    (∀ x ∈ heap, x.1 < s.made + 1) ∧ (∀ tenant, tenant < s.made + 1 → (tenant, .config) ∈ heap) ∧
      ∀ tenant item, heap.count (tenant, item) ≤ item.most := by
  subst hheap
  refine ⟨?_, ?_, ?_⟩
  · intro x hx
    rcases List.mem_append.mp hx with hx | hx
    · exact (h.heap x hx).trans (Nat.lt_succ_self _)
    · rcases List.mem_map.mp hx with ⟨item, -, rfl⟩
      exact Nat.lt_succ_self _
  · intro tenant htenant
    rcases Nat.lt_succ_iff_lt_or_eq.mp htenant with hlt | rfl
    · exact List.mem_append_left _ (h.config tenant hlt)
    · exact List.mem_append_right _ (List.mem_map.mpr ⟨.config, by simp [itemsOf], rfl⟩)
  · intro tenant item
    rw [List.count_append, count_tagged]
    have hmost := h.most tenant item
    have hnew := count_itemsOf dev item
    split
    · next heq =>
      -- nothing was counted under the new number
      have hnone : s.heap.count (tenant, item) = 0 := by
        refine List.count_eq_zero.mpr ?_
        intro hmem
        have := h.heap _ hmem
        dsimp only at this
        omega
      omega
    · omega

theorem deed_wf (s : Census) (d : Deed) (h : s.Wf) : (d.apply clock s).Wf := by
  have hfresh : s.made ∉ s.tenants := fun hmem => Nat.lt_irrefl _ (h.below _ hmem)
  rcases deed_cases clock s d with ⟨dev, -, -, hmade, hheap, hplaced⟩ |
    ⟨-, hmade, hheap, htenants, hreplaced⟩
  · rcases h.heap_place dev hheap with ⟨hbelow, hconfig, hmost⟩
    rw [← hmade] at hbelow hconfig
    rcases hplaced with ⟨index, -, hdevs, htenants⟩ | ⟨-, hdevs, htenants⟩
    · refine ⟨?_, ?_, ?_, hbelow, hconfig, hmost⟩
      · rw [htenants, hdevs, List.length_set, List.length_set]
        exact h.length
      · rw [htenants]
        exact h.nodup.set hfresh
      · intro tenant hmem
        rw [htenants] at hmem
        rw [hmade]
        rcases List.mem_or_eq_of_mem_set hmem with hmem | rfl
        · exact (h.below tenant hmem).trans (Nat.lt_succ_self _)
        · exact Nat.lt_succ_self _
    · refine ⟨?_, ?_, ?_, hbelow, hconfig, hmost⟩
      · rw [htenants, hdevs, List.length_append, List.length_append, h.length]
        rfl
      · rw [htenants, ← List.concat_eq_append]
        exact h.nodup.concat hfresh
      · intro tenant hmem
        rw [htenants] at hmem
        rw [hmade]
        rcases List.mem_append.mp hmem with hmem | hmem
        · exact (h.below tenant hmem).trans (Nat.lt_succ_self _)
        · rw [List.mem_singleton.mp hmem]
          exact Nat.lt_succ_self _
  · refine ⟨?_, ?_, ?_, ?_, ?_, ?_⟩
    · rw [htenants]
      exact h.length.trans hreplaced.length.symm
    · rw [htenants]
      exact h.nodup
    · rw [htenants, hmade]
      exact h.below
    · rw [hheap, hmade]
      exact h.heap
    · rw [hheap, hmade]
      exact h.config
    · rw [hheap]
      exact h.most

theorem empty_wf : Census.empty.Wf where
  length := by simp [Census.empty, Census.devs]
  nodup := List.nodup_nil
  below := by simp [Census.empty]
  heap := by simp [Census.empty]
  config := by simp [Census.empty]
  most := by simp [Census.empty]

/-! ## The sessions -/

/-- The session of a connection is that of no other device. -/
structure Sessions (devs : List Iodev) (opens : Nat) : Prop where
  given : ∀ dev ∈ devs, dev.session ≤ opens
  connection : ∀ dev ∈ devs, dev.driver = .accepted → 0 < dev.session
  apart : Slots.Apart (fun x y => x.session = y.session → x.driver ≠ .accepted) devs

/-- A device that no connection shares its session with. -/
structure Sessions.Free (devs : List Iodev) (opens index : Nat) (x : Iodev) : Prop where
  given : x.session ≤ opens
  connection : x.driver = .accepted → 0 < x.session
  apart : ∀ (i : Nat) y, i ≠ index → devs[i]? = some y →
    (x.session = y.session → x.driver ≠ .accepted) ∧ (y.session = x.session → y.driver ≠ .accepted)

namespace Sessions

variable {devs : List Iodev} {opens opens' index : Nat} {x : Iodev}

theorem set (h : Sessions devs opens) (hle : opens ≤ opens') (hx : Free devs opens' index x) :
    Sessions (devs.set index x) opens' := by
  refine ⟨?_, ?_, h.apart.set hx.apart⟩
  · intro dev hmem
    rcases List.mem_or_eq_of_mem_set hmem with hmem | rfl
    · exact (h.given dev hmem).trans hle
    · exact hx.given
  · intro dev hmem hacc
    rcases List.mem_or_eq_of_mem_set hmem with hmem | rfl
    · exact h.connection dev hmem hacc
    · exact hx.connection hacc

theorem append (h : Sessions devs opens) (hle : opens ≤ opens')
    (hx : Free devs opens' devs.length x) : Sessions (devs ++ [x]) opens' := by
  refine ⟨?_, ?_, h.apart.append ?_⟩
  · intro dev hmem
    rcases List.mem_append.mp hmem with hmem | hmem
    · exact (h.given dev hmem).trans hle
    · rw [List.mem_singleton.mp hmem]
      exact hx.given
  · intro dev hmem hacc
    rcases List.mem_append.mp hmem with hmem | hmem
    · exact h.connection dev hmem hacc
    · rw [List.mem_singleton.mp hmem] at hacc ⊢
      exact hx.connection hacc
  · intro i y hy
    have hlt := (List.getElem?_eq_some_iff.mp hy).1
    exact hx.apart i y (by omega) hy

/-- A new device is free: its session is new, or it is no connection and has none. -/
theorem free_created (h : Sessions devs opens) {w w' : World} (hopens : w.opens = opens)
    (hx : Created x w w') (index : Nat) : opens ≤ w'.opens ∧ Free devs w'.opens index x := by
  subst hopens
  rcases hx.session with ⟨hacc, hsession, hopens⟩ | ⟨hacc, hsession, hopens⟩
  · refine ⟨by omega, by omega, fun _ => by omega, ?_⟩
    intro i y _ hy
    have hold := h.given y (List.mem_of_getElem? hy)
    exact ⟨fun heq => by omega, fun heq => by omega⟩
  · refine ⟨by omega, by omega, fun heq => absurd heq hacc, ?_⟩
    intro i y _ hy
    refine ⟨fun _ => hacc, ?_⟩
    intro heq hy'
    have := h.connection y (List.mem_of_getElem? hy) hy'
    omega

/-- A later record of a device is free in its slot. -/
theorem free_later (h : Sessions devs opens) (hle : opens ≤ opens') {old : Iodev}
    (hold : devs[index]? = some old) (hx : old.Later x opens opens') : Free devs opens' index x := by
  have hmem := List.mem_of_getElem? hold
  have hgiven := h.given old hmem
  rcases hx.session with hsession | ⟨hacc, hlt, hle'⟩
  · refine ⟨by omega, ?_, ?_⟩
    · rw [hx.driver, hsession]
      exact h.connection old hmem
    · intro i y hi hy
      rw [hsession, hx.driver]
      exact ⟨h.apart index i old y (Ne.symm hi) hold hy, h.apart i index y old hi hy hold⟩
  · rw [← hx.driver] at hacc
    refine ⟨hle', fun heq => absurd heq hacc, ?_⟩
    intro i y _ hy
    have hold := h.given y (List.mem_of_getElem? hy)
    exact ⟨fun _ => hacc, fun heq => by omega⟩

end Sessions

theorem deed_sessions (s : Census) (d : Deed) (h : Sessions s.devs s.world.opens) :
    Sessions (d.apply clock s).devs (d.apply clock s).world.opens := by
  rcases deed_cases clock s d with ⟨dev, -, hcreated, -, -, ⟨index, -, hdevs, -⟩ |
    ⟨-, hdevs, -⟩⟩ | ⟨-, -, -, -, hle, hsame | ⟨index, dev, dev', hget, hdevs, hlater⟩⟩
  · have hfree := h.free_created rfl hcreated index
    rw [hdevs]
    exact h.set hfree.1 hfree.2
  · have hfree := h.free_created rfl hcreated s.devs.length
    rw [hdevs]
    exact h.append hfree.1 hfree.2
  · have hdevs : (d.apply clock s).devs = s.devs := hsame
    rw [hdevs]
    exact ⟨fun dev hmem => (h.given dev hmem).trans hle, h.connection, h.apart⟩
  · have hdevs : (d.apply clock s).devs = s.devs.set index dev' := hdevs
    rw [hdevs]
    exact h.set hle (h.free_later hle hget hlater)

theorem empty_sessions : Sessions Census.empty.devs Census.empty.world.opens := by
  refine ⟨?_, ?_, ?_⟩
  · simp [Census.empty, Census.devs]
  · simp [Census.empty, Census.devs]
  · simp [Slots.Apart, Census.empty, Census.devs]

/-! ## The slots -/

/-- The devices that are not inactive, but for the one in slot 0. -/
def activeCount (s : Census) : Nat := (s.devs.drop 1).countP fun dev => dev.state ≠ .iodevInactive

/-- Slot 0 is that of the serial device, which was created first. -/
def SerialFirst (s : Census) : Prop :=
  s.tenants[0]? = some 0 ∧ ∃ dev, s.devs[0]? = some dev ∧ dev.driver = .serial

/-- A creation leaves every device alone that is not inactive. -/
def CreatesApart (clock : Nat → UTime) (s : Census) (d : Deed) : Prop :=
  (d.creates clock (s.selector, s.world)).isSome → ∀ (index : Nat) (dev : Iodev),
    s.devs[index]? = some dev → dev.state ≠ .iodevInactive →
      (d.apply clock s).devs[index]? = some dev

/-- Until the device in a slot is inactive, after any beginning of the deeds. -/
def ActiveAt (clock : Nat → UTime) (index : Nat) (s : Census) (deeds : List Deed) : Prop :=
  ∀ past, past <+: deeds → ∀ dev, (run (Deed.apply clock) s past).devs[index]? = some dev →
    dev.state ≠ .iodevInactive

theorem deed_serialFirst (s : Census) (d : Deed) (h : SerialFirst s) :
    SerialFirst (d.apply clock s) := by
  rcases h with ⟨htenant, dev, hdev, hdriver⟩
  rcases deed_cases clock s d with ⟨new, -, -, -, -, ⟨index, hslot, hdevs, htenants⟩ |
    ⟨-, hdevs, htenants⟩⟩ | ⟨-, -, -, htenants, hreplaced⟩
  · -- slot 0 is never looked at
    have hpos := (inactiveSlot_some hslot).1
    refine ⟨?_, dev, ?_, hdriver⟩
    · rw [htenants, List.getElem?_set_ne (by omega)]
      exact htenant
    · rw [hdevs, List.getElem?_set_ne (by omega)]
      exact hdev
  · refine ⟨?_, dev, ?_, hdriver⟩
    · rw [htenants, List.getElem?_append_left (List.getElem?_eq_some_iff.mp htenant).1]
      exact htenant
    · rw [hdevs, List.getElem?_append_left (List.getElem?_eq_some_iff.mp hdev).1]
      exact hdev
  · rcases hreplaced.later hdev with ⟨dev', hdev', hlater⟩
    exact ⟨by rw [htenants]; exact htenant, dev', hdev', hlater.driver.trans hdriver⟩

theorem deed_createsApart (s : Census) (d : Deed) : CreatesApart clock s d := by
  intro hcreates index dev hdev hstate
  rcases perform_cases clock (s.selector, s.world) d with ⟨new, hnew, -, hplace⟩ | ⟨hnone, -⟩
  · have hdevs : (d.apply clock s).devs = (selectorPlace s.selector new).toList := by
      simp only [Deed.apply, hnew, Census.devs, hplace]
    rw [hdevs]
    exact selectorPlace_keeps hdev hstate new
  · rw [hnone] at hcreates
    cases hcreates

/-- A record of the device that was created as `dev`. -/
structure Iodev.SameAs (now dev : Iodev) : Prop where
  driver : now.driver = dev.driver
  laddr : now.laddr = dev.laddr
  session : dev.driver = .accepted → now.session = dev.session

/-- The device that was created as `dev` is in the slot, and if it is a connection, its session is
that of no other slot. -/
structure Occupies (s : Census) (index : Nat) (dev : Iodev) : Prop where
  there : ∃ now, s.devs[index]? = some now ∧ now.SameAs dev
  only : dev.driver = .accepted → ∀ (i : Nat) now, s.devs[i]? = some now →
    now.session = dev.session → i = index

/-- A device in its slot, and its number. -/
structure Settled (s : Census) (index tenant : Nat) (dev : Iodev) : Prop where
  tenant : s.tenants[index]? = some tenant
  there : ∃ now, s.devs[index]? = some now ∧ now.SameAs dev

/-- A device stays in its slot as long as it is not inactive. -/
theorem deed_settled {s : Census} (d : Deed) {index tenant : Nat} {dev : Iodev}
    (h : Settled s index tenant dev)
    (hactive : ∀ dev, s.devs[index]? = some dev → dev.state ≠ .iodevInactive) :
    Settled (d.apply clock s) index tenant dev := by
  rcases h with ⟨htenant, now, hnow, hsame⟩
  rcases deed_cases clock s d with ⟨new, -, -, -, -, ⟨slot, hslot, hdevs, htenants⟩ |
    ⟨-, hdevs, htenants⟩⟩ | ⟨-, -, -, htenants, hreplaced⟩
  · -- only an inactive slot is taken
    have hne : slot ≠ index := by
      rintro rfl
      rcases inactiveSlot_some hslot with ⟨-, old, hold, hstate⟩
      exact hactive old hold hstate
    refine ⟨?_, now, ?_, hsame⟩
    · rw [htenants, List.getElem?_set_ne hne]
      exact htenant
    · rw [hdevs, List.getElem?_set_ne hne]
      exact hnow
  · refine ⟨?_, now, ?_, hsame⟩
    · rw [htenants, List.getElem?_append_left (List.getElem?_eq_some_iff.mp htenant).1]
      exact htenant
    · rw [hdevs, List.getElem?_append_left (List.getElem?_eq_some_iff.mp hnow).1]
      exact hnow
  · rcases hreplaced.later hnow with ⟨now', hnow', hlater⟩
    refine ⟨by rw [htenants]; exact htenant, now', hnow', hlater.driver.trans hsame.driver,
      hlater.laddr.trans hsame.laddr, ?_⟩
    intro hacc
    have hacc' : now.driver = .accepted := hsame.driver.trans hacc
    exact (hlater.session.resolve_right fun h => h.1 hacc').trans (hsame.session hacc)

theorem run_settled {s : Census} {index tenant : Nat} {dev : Iodev} (h : Settled s index tenant dev)
    {deeds : List Deed} (hactive : ActiveAt clock index s deeds) :
    Settled (run (Deed.apply clock) s deeds) index tenant dev := by
  induction deeds generalizing s with
  | nil => exact h
  | cons d deeds ih =>
    refine ih (deed_settled clock d h (hactive [] List.nil_prefix)) ?_
    intro past hpast
    exact hactive (d :: past) (List.cons_prefix_cons.mpr ⟨rfl, hpast⟩)

theorem Settled.occupies {s : Census} {index tenant : Nat} {dev : Iodev}
    (h : Settled s index tenant dev) (hsessions : Sessions s.devs s.world.opens) :
    Occupies s index dev := by
  refine ⟨h.there, ?_⟩
  intro hacc i now hi hsession
  rcases h.there with ⟨own, hown, hsame⟩
  by_contra hne
  exact hsessions.apart index i own now (Ne.symm hne) hown hi
    ((hsame.session hacc).trans hsession.symm) (hsame.driver.trans hacc)

/-- A new device is in one slot, and stays in that and no other until it is inactive. -/
theorem created_stays {s : Census} (hwf : s.Wf) (hsessions : Sessions s.devs s.world.opens)
    {d : Deed} {dev : Iodev} (hcreates : d.creates clock (s.selector, s.world) = some dev) :
    ∃ index : Nat, (d.apply clock s).devs[index]? = some dev ∧ ∀ deeds,
      ActiveAt clock index (d.apply clock s) deeds →
        Occupies (run (Deed.apply clock) (d.apply clock s) deeds) index dev ∧
        ∀ i, (run (Deed.apply clock) (d.apply clock s) deeds).tenants[i]? = some s.made ↔ i = index := by
  have hplaced : ∃ index : Nat, (d.apply clock s).devs[index]? = some dev ∧
      (d.apply clock s).tenants[index]? = some s.made := by
    rcases deed_cases clock s d with ⟨new, hnew, -, -, -, ⟨index, hslot, hdevs, htenants⟩ |
      ⟨-, hdevs, htenants⟩⟩ | ⟨hnone, -⟩
    · cases hcreates.symm.trans hnew
      rcases inactiveSlot_some hslot with ⟨-, old, hold, -⟩
      have hlt : index < s.devs.length := (List.getElem?_eq_some_iff.mp hold).1
      refine ⟨index, ?_, ?_⟩
      · rw [hdevs, List.getElem?_set_self hlt]
      · rw [htenants, List.getElem?_set_self (by rw [hwf.length]; exact hlt)]
    · cases hcreates.symm.trans hnew
      refine ⟨s.devs.length, ?_, ?_⟩
      · rw [hdevs, List.getElem?_concat_length]
      · rw [htenants, ← hwf.length, List.getElem?_concat_length]
    · rw [hcreates] at hnone
      cases hnone
  rcases hplaced with ⟨index, hdev, htenant⟩
  refine ⟨index, hdev, ?_⟩
  intro deeds hactive
  have hsettled := run_settled clock ⟨htenant, dev, hdev, ⟨rfl, rfl, fun _ => rfl⟩⟩ hactive
  have hsessions' := Machine.run_invariant (fun s : Census => Sessions s.devs s.world.opens)
    (fun s d h => deed_sessions clock s d h) (deed_sessions clock s d hsessions) deeds
  refine ⟨hsettled.occupies hsessions', ?_⟩
  intro i
  constructor
  · intro hi
    -- no number is in two slots
    have hnodup := (Machine.run_invariant Census.Wf (fun s d h => deed_wf clock s d h)
      (deed_wf clock s d hwf) deeds).nodup
    rcases List.getElem?_eq_some_iff.mp hi with ⟨hlt, heq⟩
    rcases List.getElem?_eq_some_iff.mp hsettled.tenant with ⟨hlt', heq'⟩
    exact (List.Nodup.getElem_inj_iff hnodup).mp (heq.trans heq'.symm)
  · rintro rfl
    exact hsettled.tenant

/-- A slot is added only when all devices are active, the new one included. -/
theorem deed_slots (s : Census) (d : Deed) : (d.apply clock s).devs.length ≤ s.devs.length ∨
    (d.apply clock s).devs.length ≤ 1 + activeCount (d.apply clock s) := by
  rcases deed_cases clock s d with ⟨new, -, hcreated, -, -, ⟨index, -, hdevs, -⟩ |
    ⟨hnone, hdevs, -⟩⟩ | ⟨-, -, -, -, hreplaced⟩
  · left
    rw [hdevs, List.length_set]
  · right
    have hall : ∀ dev ∈ (d.apply clock s).devs.drop 1, dev.state ≠ .iodevInactive := by
      intro dev hmem
      rcases List.mem_iff_getElem?.mp hmem with ⟨i, hget⟩
      rw [List.getElem?_drop, hdevs] at hget
      rcases Slots.getElem?_append_cases hget with ⟨-, rfl⟩ | ⟨-, hget⟩
      · exact hcreated.state
      · exact inactiveSlot_none hnone (by omega) hget
    have hcount : activeCount (d.apply clock s) = ((d.apply clock s).devs.drop 1).length :=
      List.countP_eq_length.mpr fun dev hmem => decide_eq_true (hall dev hmem)
    rw [hcount, List.length_drop]
    omega
  · exact .inl (Nat.le_of_eq hreplaced.length)

/-- The serial device is created, in slot 0. -/
def Census.start (clock : Nat → UTime) (bufsize : Nat) : Census :=
  (Deed.serial bufsize).apply clock .empty

/-- The census of a run. -/
def Census.after (clock : Nat → UTime) (bufsize : Nat) (deeds : List Deed) : Census :=
  run (Deed.apply clock) (Census.start clock bufsize) deeds

theorem start_devs (bufsize : Nat) :
    (Census.start clock bufsize).devs = [(serialCreate clock bufsize .init).1] ∧
      (Census.start clock bufsize).tenants = [0] := by
  have hslot : inactiveSlot selectorInit = none := by
    cases h : inactiveSlot selectorInit with
    | none => rfl
    | some index =>
      rcases inactiveSlot_some h with ⟨-, dev, hget, -⟩
      simp at hget
  constructor
  · show (selectorPlace selectorInit _).toList = _
    rw [selectorPlace_toList, hslot, selectorInit_toList]
    rfl
  · simp [Census.start, Deed.apply, Deed.creates, Census.empty, hslot]

/-- Slots are allocated safely, whatever devices are created, accepted, closed or fail to open after
the serial device: that device keeps slot 0; a creation changes no device that is not inactive; a
device stays in its slot until it is inactive, and a connection is in no other; and there are at
most as many slots as devices have been active at once, and one for the serial device. -/
theorem slots_allocated (bufsize : Nat) (deeds : List Deed) :
    SerialFirst (Census.after clock bufsize deeds) ∧
    Along (Deed.apply clock) (CreatesApart clock) (Census.start clock bufsize) deeds ∧
    (∀ past d future, deeds = past ++ d :: future → ∀ dev,
      d.creates clock ((Census.after clock bufsize past).selector,
        (Census.after clock bufsize past).world) = some dev →
        ∃ index : Nat, (Census.after clock bufsize (past ++ [d])).devs[index]? = some dev ∧
          (ActiveAt clock index (Census.after clock bufsize (past ++ [d])) future →
            Occupies (Census.after clock bufsize deeds) index dev ∧
            ∀ i, (Census.after clock bufsize deeds).tenants[i]? =
              some (Census.after clock bufsize past).made ↔ i = index)) ∧
    ∃ past, past <+: deeds ∧ (Census.after clock bufsize deeds).devs.length ≤
      1 + activeCount (Census.after clock bufsize past) := by
  have hwf : (Census.start clock bufsize).Wf := deed_wf clock _ _ empty_wf
  rcases start_devs clock bufsize with ⟨hdevs, htenants⟩
  refine ⟨?_, ?_, ?_, ?_⟩
  · refine Machine.run_invariant SerialFirst (fun s d h => deed_serialFirst clock s d h) ?_ deeds
    refine ⟨by rw [htenants]; rfl, _, by rw [hdevs]; rfl, rfl⟩
  · exact Machine.along_of_forall (fun s d => deed_createsApart clock s d) deeds
  · intro past d future hsplit dev hcreates
    have hpast : (Census.after clock bufsize past).Wf :=
      Machine.run_invariant Census.Wf (fun s d h => deed_wf clock s d h) hwf past
    have hsessions : Sessions (Census.after clock bufsize past).devs
        (Census.after clock bufsize past).world.opens :=
      Machine.run_invariant (fun s : Census => Sessions s.devs s.world.opens)
        (fun s d h => deed_sessions clock s d h) (deed_sessions clock _ _ empty_sessions) past
    rcases created_stays clock hpast hsessions hcreates with ⟨index, hdev, hstays⟩
    have hnext : Census.after clock bufsize (past ++ [d]) =
        d.apply clock (Census.after clock bufsize past) := Machine.run_snoc _ _ past d
    have hend : Census.after clock bufsize deeds =
        run (Deed.apply clock) (d.apply clock (Census.after clock bufsize past)) future := by
      rw [hsplit]
      exact Machine.run_append _ _ past (d :: future)
    rw [hnext, hend]
    exact ⟨index, hdev, hstays future⟩
  · refine Machine.run_le_peak (fun _ => True) (fun s => s.devs.length) (fun s => 1 + activeCount s)
      (fun _ _ _ => trivial) (fun s d _ => deed_slots clock s d) trivial ?_ deeds
    rw [hdevs]
    exact Nat.le_add_right 1 _

/-! ## The heap -/

/-- What is allocated belongs to the device of exactly one slot, and no slot has more than a device
can have. -/
structure EachOwned (s : Census) : Prop where
  owner : ∀ x ∈ s.heap, ∃! index : Nat, s.tenants[index]? = some x.1
  most : ∀ index tenant : Nat, s.tenants[index]? = some tenant →
    ∀ item, s.heap.count (tenant, item) ≤ item.most

/-- A device is created in a slot that an inactive device is in. -/
def Recycles (clock : Nat → UTime) (s : Census) (d : Deed) : Prop :=
  (d.creates clock (s.selector, s.world)).isSome ∧ (inactiveSlot s.selector).isSome

instance (s : Census) (d : Deed) : Decidable (Recycles clock s d) :=
  inferInstanceAs (Decidable (_ ∧ _))

theorem eachOwned_iff {s : Census} (h : s.Wf) : EachOwned s ↔ ∀ x ∈ s.heap, x.1 ∈ s.tenants := by
  constructor
  · intro howned x hx
    rcases howned.owner x hx with ⟨index, hindex, -⟩
    exact List.mem_of_getElem? hindex
  · intro hmem
    refine ⟨?_, fun _ tenant _ item => h.most tenant item⟩
    intro x hx
    rcases List.mem_iff_getElem?.mp (hmem x hx) with ⟨index, hindex⟩
    refine ⟨index, hindex, ?_⟩
    intro j hj
    rcases List.getElem?_eq_some_iff.mp hindex with ⟨hlt, heq⟩
    rcases List.getElem?_eq_some_iff.mp hj with ⟨hlt', heq'⟩
    exact (List.Nodup.getElem_inj_iff h.nodup).mp (heq'.trans heq.symm)

/-- The tenant of a slot that is taken again is in no slot any more. -/
theorem Census.Wf.evicted {s : Census} (h : s.Wf) {index tenant : Nat}
    (htenant : s.tenants[index]? = some tenant) : tenant ∉ s.tenants.set index s.made := by
  intro hmem
  rcases List.mem_iff_getElem?.mp hmem with ⟨j, hj⟩
  rcases Slots.getElem?_set_cases hj with ⟨-, heq⟩ | ⟨hne, hj⟩
  · have := h.below tenant (List.mem_of_getElem? htenant)
    omega
  · rcases List.getElem?_eq_some_iff.mp hj with ⟨hlt, heq⟩
    rcases List.getElem?_eq_some_iff.mp htenant with ⟨hlt', heq'⟩
    exact hne ((List.Nodup.getElem_inj_iff h.nodup).mp (heq.trans heq'.symm))

theorem deed_owned {s : Census} (d : Deed) (h : s.Wf) (howned : EachOwned s) :
    EachOwned (d.apply clock s) ↔ ¬ Recycles clock s d := by
  have hmem := (eachOwned_iff h).mp howned
  rw [eachOwned_iff (deed_wf clock s d h)]
  rcases deed_cases clock s d with ⟨dev, hcreates, -, -, hheap, ⟨index, hslot, -, htenants⟩ |
    ⟨hslot, -, htenants⟩⟩ | ⟨hcreates, -, hheap, htenants, -⟩
  · -- the configuration of the device that was in the slot is lost
    refine iff_of_false ?_ (not_not.mpr ⟨by rw [hcreates]; rfl, by rw [hslot]; rfl⟩)
    intro hall
    rcases inactiveSlot_some hslot with ⟨-, old, hold, -⟩
    have hlt : index < s.tenants.length := by
      rw [h.length]
      exact (List.getElem?_eq_some_iff.mp hold).1
    have htenant : s.tenants[index]? = some s.tenants[index] := List.getElem?_eq_getElem hlt
    have hconfig := h.config s.tenants[index] (h.below _ (List.mem_of_getElem? htenant))
    have hin := hall (s.tenants[index], .config) (by rw [hheap]; exact List.mem_append_left _ hconfig)
    rw [htenants] at hin
    exact h.evicted htenant hin
  · refine iff_of_true ?_ (by simp [Recycles, hslot])
    intro x hx
    rw [hheap] at hx
    rw [htenants]
    rcases List.mem_append.mp hx with hx | hx
    · exact List.mem_append_left _ (hmem x hx)
    · rcases List.mem_map.mp hx with ⟨item, -, rfl⟩
      exact List.mem_append_right _ (List.mem_singleton.mpr rfl)
  · refine iff_of_true ?_ (by simp [Recycles, hcreates])
    rw [hheap, htenants]
    exact hmem

/-- Whatever is created, accepted and closed: all that is allocated belongs to a slot, at every
moment, if and only if no creation takes a slot again. -/
theorem heap_owned_iff (deeds : List Deed) :
    (∀ past, past <+: deeds → EachOwned (run (Deed.apply clock) .empty past)) ↔
      Along (Deed.apply clock) (fun s d => ¬ Recycles clock s d) .empty deeds := by
  refine Machine.forall_run_iff_along Census.Wf EachOwned (fun s d h => deed_wf clock s d h)
    (fun s d h howned => deed_owned clock d h howned) empty_wf ?_
  refine ⟨by simp [Census.empty], ?_⟩
  intro index tenant htenant
  simp [Census.empty] at htenant

/-- A client connects and goes, and another one comes: the serial device is number 0, the listener
number 1, and both clients are in slot 2. -/
def reconnect : List Deed :=
  [.serial 64, .listen ⟨.inet, 0x7f000001⟩ 64,
    .call (.setMasks 1 (Daemon.openAll 1) .zero),
    .call (.test 1 1 ⟨{4}, ∅, ∅⟩ .read ⟨none, some 5, none⟩),
    .call (.test 2 1 ⟨{5}, ∅, ∅⟩ .read ⟨some [], none, none⟩),
    .call (.test 1 1 ⟨{4}, ∅, ∅⟩ .read ⟨none, some 5, none⟩)]

theorem reconnect_leaks : ¬ ∀ past, past <+: reconnect →
    EachOwned (run (Deed.apply fun _ => 0) .empty past) := by
  intro h
  have howned := h reconnect (List.prefix_refl _)
  rcases howned.owner (2, .line) (by decide +kernel) with ⟨index, hindex, -⟩
  have hmem := List.mem_of_getElem? hindex
  exact absurd hmem (by decide +kernel)

end Hdmi2usbd
