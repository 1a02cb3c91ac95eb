import Mathlib.Data.List.Induction
import Hdmi2usbd.Lib.Chain
import Hdmi2usbd.Lib.Cut
import Hdmi2usbd.Lib.Getopt

/-!
# Device — the search for the serial device

`find_serial_all` builds a list of the devices that its specification names and that can be
accessed. The head of the list is a static variable, and the function writes it only when it
tries a device: a search that tries none returns what an earlier search has left there, which
`find_serial` may have freed. So the searches are independent of each other exactly if none that
tries no device comes after one that has found a device (`independent_iff`).

Memory for a node is always granted.
-/

namespace Hdmi2usbd.Device

open Getopt (Word)
open Chain (Node head link)

/-! ## The functions of `device.c` -/

/-- What `access` and `wordexp` answer; `none` is a result other than 0. -/
structure FileSystem where
  access : Word → Bool
  wordexp : Word → Option (List Word)

/-- `struct ctrldev`: the value is `devname`. -/
abbrev Ctrldev := Node (Option Word)

/-- The nodes, and the static variable `first_dev` of `find_serial_all`. -/
structure Memory where
  nodes : List Ctrldev
  firstDev : Option Nat
deriving DecidableEq

def Memory.start : Memory := ⟨[], none⟩

def autoDevices : Word :=
  ['/', 'd', 'e', 'v', '/', 't', 't', 'y', 'V', 'I', 'Z', '*', '|',
    '/', 'd', 'e', 'v', '/', 't', 't', 'y', 'A', 'C', 'M', '*']

def Memory.malloc (m : Memory) (devname : Word) : Memory :=
  { m with nodes := m.nodes ++ [⟨some devname, none, false⟩] }

def newOdev (fs : FileSystem) (m : Memory) (devicename : Word) : Option Nat × Memory :=
  if fs.access devicename then (some m.nodes.length, m.malloc devicename) else (none, m)

/-- A store to `*next_dev`, which is `first_dev` or the link of a node. -/
def Memory.store (m : Memory) (nextDev odev : Option Nat) : Memory :=
  match nextDev with
  | none => { m with firstDev := odev }
  | some n => { m with nodes := Chain.setNext m.nodes n odev }

/-- A device is tried: `next_dev` moves on if it was found. -/
def tryDevice (fs : FileSystem) (s : Memory × Option Nat) (devicename : Word) :
    Memory × Option Nat :=
  let (odev, m) := newOdev fs s.1 devicename
  match odev with
  | some n => (m.store s.2 odev, some n)
  | none => (m.store s.2 odev, s.2)

/-- With the prefix that it needs. -/
def devicePath (p : Word) : Word :=
  if p.head? = some '/' ∨ p.head? = some '~' then p else ['/', 'd', 'e', 'v', '/'] ++ p

def isGlob (device : Word) : Bool :=
  device.any (fun c => c ∈ ['*', '?', '!', '$', '[', ']']) || device.head? = some '~'

/-- A turn of the loop of `find_serial_all`. -/
def searchSegment (fs : FileSystem) (s : Memory × Option Nat) (p : Word) : Memory × Option Nat :=
  let device := devicePath p
  if isGlob device then
    match fs.wordexp device with
    | some words => words.foldl (tryDevice fs) s
    | none => s
  else tryDevice fs s device

/-- The loop of `find_serial_all`, over what is left of the devices. -/
def searchFrom (fs : FileSystem) (s : Memory × Option Nat) (p : Word) : Memory × Option Nat :=
  if _hp : p.takeWhile (· ≠ '|') = [] then s
  else
    searchFrom fs (searchSegment fs s (p.takeWhile (· ≠ '|'))) (p.dropWhile (· ≠ '|')).tail
termination_by p.length
decreasing_by
  have hne : p ≠ [] := by
    rintro rfl
    exact _hp rfl
  have hdrop := (List.dropWhile_sublist (l := p) (· ≠ '|')).length_le
  have hpos := List.length_pos_iff.mpr hne
  rw [List.length_tail]
  omega

def findSerialAll (fs : FileSystem) (m : Memory) (filespec : Word) : Option Nat × Memory :=
  let devices := if filespec = ['a', 'u', 't', 'o'] then autoDevices else filespec
  let (m, _) := searchFrom fs (m, none) devices
  (m.firstDev, m)

def ctrldevFree (nodes : List Ctrldev) (firstDev : Option Nat) : Option (List Ctrldev) :=
  Chain.freeFrom nodes.length nodes firstDev

def testCtrldev (_odev : Ctrldev) : Bool := true

/-- The loop of `find_serial`: the first name that the test accepts is taken out of its node. -/
def takeName : Nat → List Ctrldev → Option Nat → Option (Option Word × List Ctrldev)
  | _, nodes, none => some (none, nodes)
  | 0, _, some _ => none
  | fuel + 1, nodes, some n =>
    match nodes[n]? with
    | none => none
    | some node =>
      if node.freed then none
      else if testCtrldev node then
        let nodes := nodes.set n { node with val := none }
        match node.val with
        | some name => some (some name, nodes)
        | none => takeName fuel nodes node.next
      else takeName fuel nodes node.next

/-- `none` where freed memory is used. -/
def findSerial (fs : FileSystem) (m : Memory) (filespec : Word) : Option (Option Word × Memory) :=
  let (firstDev, m) := findSerialAll fs m filespec
  match takeName m.nodes.length m.nodes firstDev with
  | none => none
  | some (result, nodes) =>
    (ctrldevFree nodes firstDev).map fun nodes => (result, { m with nodes := nodes })

/-! ## What a specification names -/

/-- The segments up to the first empty one. -/
def segments (devices : Word) : List Word := Cut.segments '|' devices

/-- The devices that a segment names: itself or its expansion. -/
def expand (fs : FileSystem) (p : Word) : List Word :=
  if isGlob (devicePath p) then (fs.wordexp (devicePath p)).getD [] else [devicePath p]

/-- The devices that a specification names, in order. -/
def candidates (fs : FileSystem) (filespec : Word) : List Word :=
  (segments (if filespec = ['a', 'u', 't', 'o'] then autoDevices else filespec)).flatMap (expand fs)

/-- Those that can be accessed. -/
def accessible (fs : FileSystem) (filespec : Word) : List Word :=
  (candidates fs filespec).filter fs.access

/-- The loop goes over the segments. -/
theorem searchFrom_eq (fs : FileSystem) (s : Memory × Option Nat) (p : Word) :
    searchFrom fs s p = (segments p).foldl (searchSegment fs) s := by
  induction s, p using searchFrom.induct fs with
  | case1 s p hnil => rw [searchFrom, dif_pos hnil, segments, Cut.segments_eq, if_pos hnil]; rfl
  | case2 s p hne ih =>
    rw [searchFrom, dif_neg hne, ih, segments, segments, Cut.segments_eq '|' p, if_neg hne]
    rfl

/-! ## A search -/

/-- With the list of some devices behind `next_dev`. -/
def Memory.grow (m : Memory) (nextDev : Option Nat) (names : List Word) : Memory :=
  let m' := m.store nextDev (head m.nodes.length (names.map some))
  { m' with nodes := m'.nodes ++ link m.nodes.length (names.map some) }

theorem length_store (m : Memory) (nextDev odev : Option Nat) :
    (m.store nextDev odev).nodes.length = m.nodes.length := by
  cases nextDev with
  | none => rfl
  | some n => exact Chain.length_setNext _ _ _

theorem store_store (m : Memory) (nextDev odev odev' : Option Nat) :
    (m.store nextDev odev).store nextDev odev' = m.store nextDev odev' := by
  cases nextDev with
  | none => rfl
  | some n => simp only [Memory.store, Chain.setNext_setNext]

@[simp] theorem length_malloc (m : Memory) (name : Word) :
    (m.malloc name).nodes.length = m.nodes.length + 1 := List.length_append

/-- A new node is out of the way of `next_dev`. -/
theorem store_malloc {m : Memory} {nextDev : Option Nat}
    (hnext : ∀ n ∈ nextDev, n < m.nodes.length) (name : Word) (odev : Option Nat) :
    (m.malloc name).store nextDev odev = (m.store nextDev odev).malloc name := by
  cases nextDev with
  | none => rfl
  | some n =>
    simp only [Memory.store, Memory.malloc, Chain.setNext,
      Chain.modify_append_of_lt _ _ (hnext n rfl)]

/-- The link of the new node. -/
theorem malloc_store {m : Memory} {n : Nat} (hn : n = m.nodes.length) (name : Word)
    (odev : Option Nat) :
    (m.malloc name).store (some n) odev =
      { m with nodes := m.nodes ++ [⟨some name, odev, false⟩] } := by
  simp only [Memory.store, Memory.malloc, Chain.setNext_last _ _ _ _ hn]

theorem grow_nil (m : Memory) (nextDev : Option Nat) : m.grow nextDev [] = m.store nextDev none := by
  simp [Memory.grow]

theorem grow_store (m : Memory) (nextDev odev : Option Nat) (names : List Word) :
    (m.store nextDev odev).grow nextDev names = m.grow nextDev names := by
  simp only [Memory.grow, store_store, length_store]

/-- The list behind a new node is the rest of the list that begins with it. -/
theorem grow_cons (m : Memory) (nextDev : Option Nat) (name : Word) (names : List Word) :
    ((m.store nextDev (some m.nodes.length)).malloc name).grow (some m.nodes.length) names =
      m.grow nextDev (name :: names) := by
  simp only [Memory.grow, length_malloc, length_store, malloc_store (length_store _ _ _).symm,
    List.map_cons, Chain.head_cons, link, List.append_assoc, List.singleton_append]

theorem tryDevice_of_access {fs : FileSystem} {name : Word} (h : fs.access name = true)
    {m : Memory} {nextDev : Option Nat} (hnext : ∀ n ∈ nextDev, n < m.nodes.length) :
    tryDevice fs (m, nextDev) name =
      ((m.store nextDev (some m.nodes.length)).malloc name, some m.nodes.length) := by
  simp only [tryDevice, newOdev, h, if_true, store_malloc hnext]

theorem tryDevice_of_not_access {fs : FileSystem} {name : Word} (h : fs.access name = false)
    (m : Memory) (nextDev : Option Nat) :
    tryDevice fs (m, nextDev) name = (m.store nextDev none, nextDev) := by
  simp only [tryDevice, newOdev, h, Bool.false_eq_true, if_false]

/-- Devices that are tried: the list of those that can be accessed. -/
theorem tryDevices_eq (fs : FileSystem) {m : Memory} {nextDev : Option Nat}
    (hnext : ∀ n ∈ nextDev, n < m.nodes.length) {names : List Word} (hne : names ≠ []) :
    (names.foldl (tryDevice fs) (m, nextDev)).1 = m.grow nextDev (names.filter fs.access) := by
  induction names generalizing m nextDev with
  | nil => exact absurd rfl hne
  | cons name names ih =>
    rw [List.foldl_cons]
    cases h : fs.access name with
    | true =>
      rw [tryDevice_of_access h hnext, List.filter_cons_of_pos h, ← grow_cons]
      cases names with
      | nil =>
        -- the link of the new node is NULL already
        rw [List.filter_nil, grow_nil, List.foldl_nil, malloc_store (length_store _ _ _).symm]
        rfl
      | cons name' names' =>
        refine ih ?_ (List.cons_ne_nil _ _)
        intro n hn
        rw [length_malloc, length_store, Option.mem_some.mp hn]
        exact Nat.lt_succ_self n
    | false =>
      rw [tryDevice_of_not_access h, List.filter_cons_of_neg (by simp [h])]
      cases names with
      | nil => rw [List.filter_nil, grow_nil, List.foldl_nil]
      | cons name' names' =>
        rw [ih (by rw [length_store]; exact hnext) (List.cons_ne_nil _ _), grow_store]

theorem searchSegment_eq (fs : FileSystem) (s : Memory × Option Nat) (p : Word) :
    searchSegment fs s p = (expand fs p).foldl (tryDevice fs) s := by
  simp only [searchSegment, expand]
  split
  · cases fs.wordexp (devicePath p) <;> rfl
  · rfl

theorem search_eq (fs : FileSystem) (m : Memory) (filespec : Word) :
    (findSerialAll fs m filespec).2 =
      ((candidates fs filespec).foldl (tryDevice fs) (m, none)).1 := by
  have hseg : searchSegment fs = fun s p => (expand fs p).foldl (tryDevice fs) s := by
    funext s p
    exact searchSegment_eq fs s p
  simp only [findSerialAll, searchFrom_eq, hseg, candidates, List.foldl_flatMap]

/-- A search that tries no device finds what has been left. -/
theorem findSerialAll_of_nil {fs : FileSystem} {filespec : Word} (h : candidates fs filespec = [])
    (m : Memory) : findSerialAll fs m filespec = (m.firstDev, m) := by
  have hm := search_eq fs m filespec
  rw [h] at hm
  exact Prod.ext (congrArg Memory.firstDev hm) hm

/-- A search that tries devices finds those that can be accessed. -/
theorem findSerialAll_of_ne_nil {fs : FileSystem} {filespec : Word}
    (h : candidates fs filespec ≠ []) (m : Memory) :
    findSerialAll fs m filespec =
      (head m.nodes.length ((accessible fs filespec).map some),
        m.grow none (accessible fs filespec)) := by
  have hm := (search_eq fs m filespec).trans (tryDevices_eq fs (fun n hn => by cases hn) h)
  exact Prod.ext (congrArg Memory.firstDev hm) hm

theorem from_grow (m : Memory) (names : List Word) :
    Chain.From (m.grow none names).nodes (head m.nodes.length (names.map some))
      (Chain.named m.nodes.length (names.map some)) :=
  Chain.from_link m.nodes _

theorem takeName_link {fuel : Nat} (hfuel : 0 < fuel) (before : List Ctrldev) (name : Word)
    (names : List (Option Word)) :
    takeName fuel (before ++ link before.length (some name :: names)) (some before.length) =
      some (some name, before ++ link before.length (none :: names)) := by
  obtain ⟨fuel, rfl⟩ : ∃ n, fuel = n + 1 := ⟨fuel - 1, by omega⟩
  have hget : (before ++ link before.length (some name :: names))[before.length]? =
      some ⟨some name, head (before.length + 1) names, false⟩ := by
    rw [List.getElem?_append_right (Nat.le_refl _), Nat.sub_self, link, List.getElem?_cons_zero]
  rw [takeName, hget]
  simp [testCtrldev, link]

/-- `find_serial` takes the first name and frees the whole list, but not the static pointer. -/
theorem findSerial_of_ne_nil {fs : FileSystem} {filespec : Word}
    (h : candidates fs filespec ≠ []) (m : Memory) :
    ∃ nodes, nodes.length = (m.grow none (accessible fs filespec)).nodes.length ∧
      findSerial fs m filespec = some ((accessible fs filespec).head?,
        { m.grow none (accessible fs filespec) with nodes := nodes }) := by
  have hall := findSerialAll_of_ne_nil h m
  have hnodes : (m.grow none (accessible fs filespec)).nodes =
      m.nodes ++ link m.nodes.length ((accessible fs filespec).map some) := rfl
  cases hnames : accessible fs filespec with
  | nil =>
    refine ⟨_, rfl, ?_⟩
    rw [hnames] at hall
    simp only [findSerial, hall, List.map_nil, Chain.head_nil, takeName, ctrldevFree,
      Chain.freeFrom_none, Option.map_some, List.head?_nil]
  | cons name names =>
    rw [hnames] at hall hnodes
    have hfuel : (none :: names.map some : List (Option Word)).length ≤
        (m.nodes ++ link m.nodes.length (none :: names.map some)).length := by
      simp
    -- the list is freed as a whole, the node without its name first
    have hfree := Chain.freeFrom_link m.nodes (none :: names.map some) hfuel
    refine ⟨m.nodes ++ (link m.nodes.length (none :: names.map some)).map
      fun node => { node with freed := true }, by simp [hnodes], ?_⟩
    have hpos : 0 < (m.nodes ++ link m.nodes.length (some name :: names.map some)).length := by
      rw [List.length_append, Chain.length_link, List.length_cons]
      omega
    simp only [findSerial, hall, List.map_cons, Chain.head_cons]
    rw [hnodes, List.map_cons, takeName_link hpos]
    rw [Chain.head_cons] at hfree
    simp only [ctrldevFree, hfree, Option.map_some, List.head?_cons]

/-! ## Searches one after the other -/

inductive Call
  | findSerial (fs : FileSystem) (filespec : Word)
  | findSerialAll (fs : FileSystem) (filespec : Word)

def Call.fs : Call → FileSystem
  | .findSerial fs _ | .findSerialAll fs _ => fs

def Call.filespec : Call → Word
  | .findSerial _ filespec | .findSerialAll _ filespec => filespec

def Call.run (m : Memory) : Call → Option Memory
  | .findSerial fs filespec => (Device.findSerial fs m filespec).map Prod.snd
  | .findSerialAll fs filespec => some (Device.findSerialAll fs m filespec).2

/-- The search of a call returns new nodes, and their names are the devices of its specification
that can be accessed. -/
def Call.Exact (m : Memory) (c : Call) : Prop :=
  ∃ found, Chain.From (Device.findSerialAll c.fs m c.filespec).2.nodes
      (Device.findSerialAll c.fs m c.filespec).1 found ∧
    found.map Prod.snd = (accessible c.fs c.filespec).map some ∧
    ∀ node ∈ found, m.nodes.length ≤ node.1

/-- No search depends on an earlier one. -/
def Independent (calls : List Call) : Prop :=
  ∀ before c after, calls = before ++ c :: after →
    ∃ m, before.foldlM Call.run Memory.start = some m ∧ c.Exact m

/-- Whether the last call that tried a device found one. -/
def leavesNodes (calls : List Call) : Bool :=
  calls.foldl (fun left c =>
    if candidates c.fs c.filespec = [] then left else accessible c.fs c.filespec ≠ []) false

theorem leavesNodes_concat (calls : List Call) (c : Call) :
    leavesNodes (calls ++ [c]) =
      if candidates c.fs c.filespec = [] then leavesNodes calls
      else decide (accessible c.fs c.filespec ≠ []) := by
  simp only [leavesNodes, List.foldl_append, List.foldl_cons, List.foldl_nil]

/-- The static pointer, after some calls. -/
structure Left (calls : List Call) (m : Memory) : Prop where
  isSome : m.firstDev.isSome = leavesNodes calls
  old : ∀ n ∈ m.firstDev, n < m.nodes.length

theorem exact_iff {calls : List Call} {m : Memory} (h : Left calls m) (c : Call) :
    c.Exact m ↔ (candidates c.fs c.filespec = [] → leavesNodes calls = false) := by
  by_cases hnil : candidates c.fs c.filespec = []
  · have hnone : accessible c.fs c.filespec = [] := by rw [accessible, hnil]; rfl
    simp only [Call.Exact, findSerialAll_of_nil hnil, hnone, ← h.isSome, hnil, true_implies]
    constructor
    · rintro ⟨found, hfrom, hnames, hnew⟩
      -- a search that tries nothing returns the pointer as it was left
      cases hfirst : m.firstDev with
      | none => rfl
      | some n =>
        rw [hfirst] at hfrom
        cases hfrom with
        | cons => cases hnames
    · intro hfirst
      rw [Option.isSome_eq_false_iff, Option.isNone_iff_eq_none] at hfirst
      exact ⟨[], hfirst ▸ .nil, rfl, by simp⟩
  · refine iff_of_true ?_ (fun h => absurd h hnil)
    simp only [Call.Exact, findSerialAll_of_ne_nil hnil]
    refine ⟨_, from_grow m _, Chain.named_snd _ _, ?_⟩
    rintro ⟨n, name⟩ hmem
    exact Chain.le_of_mem_named hmem

theorem length_takeName {fuel : Nat} {nodes nodes' : List Ctrldev} {first : Option Nat}
    {name : Option Word} (h : takeName fuel nodes first = some (name, nodes')) :
    nodes'.length = nodes.length := by
  induction fuel generalizing nodes first with
  | zero =>
    cases first with
    | none => cases h; rfl
    | some n => cases h
  | succ fuel ih =>
    cases first with
    | none => cases h; rfl
    | some n =>
      simp only [takeName, testCtrldev, if_true] at h
      split at h
      · cases h
      · split at h
        · cases h
        · split at h
          · cases h
            exact List.length_set
          · rw [ih h, List.length_set]

/-- A call that tries no device leaves the static pointer alone. -/
theorem Left.run_of_nil {calls : List Call} {m m' : Memory} {c : Call} (h : Left calls m)
    (hnil : candidates c.fs c.filespec = []) (hrun : c.run m = some m') :
    Left (calls ++ [c]) m' := by
  have hsame : m'.firstDev = m.firstDev ∧ m'.nodes.length = m.nodes.length := by
    cases c with
    | findSerialAll fs filespec =>
      have hall : findSerialAll fs m filespec = (m.firstDev, m) := findSerialAll_of_nil hnil m
      simp only [Call.run, hall, Option.some.injEq] at hrun
      exact ⟨hrun ▸ rfl, hrun ▸ rfl⟩
    | findSerial fs filespec =>
      have hall : findSerialAll fs m filespec = (m.firstDev, m) := findSerialAll_of_nil hnil m
      simp only [Call.run, findSerial, hall] at hrun
      split at hrun
      · cases hrun
      · next name nodes htake =>
        cases hfree : ctrldevFree nodes m.firstDev with
        | none => rw [hfree] at hrun; cases hrun
        | some nodes' =>
          rw [hfree] at hrun
          cases hrun
          exact ⟨rfl, (Chain.length_freeFrom hfree).trans (length_takeName htake)⟩
  refine ⟨?_, ?_⟩
  · rw [hsame.1, leavesNodes_concat, if_pos hnil, h.isSome]
  · rw [hsame.1, hsame.2]
    exact h.old

theorem run_of_none {m : Memory} {c : Call} (hnil : candidates c.fs c.filespec = [])
    (hfirst : m.firstDev = none) : c.run m = some m := by
  cases c with
  | findSerialAll fs filespec =>
    have hall : findSerialAll fs m filespec = (m.firstDev, m) := findSerialAll_of_nil hnil m
    simp only [Call.run, hall]
  | findSerial fs filespec =>
    have hall : findSerialAll fs m filespec = (m.firstDev, m) := findSerialAll_of_nil hnil m
    have htake : ∀ fuel nodes, takeName fuel nodes none = some (none, nodes) := by
      intro fuel nodes
      cases fuel <;> rfl
    simp only [Call.run, findSerial, hall, hfirst, htake, ctrldevFree, Chain.freeFrom_none,
      Option.map_some]
    rw [← hfirst]

/-- A call that tries devices sets the static pointer, whatever is there. -/
theorem run_of_ne_nil (calls : List Call) (m : Memory) {c : Call}
    (hne : candidates c.fs c.filespec ≠ []) : ∃ m', c.run m = some m' ∧ Left (calls ++ [c]) m' := by
  have hleft : ∀ nodes : List Ctrldev,
      nodes.length = (m.grow none (accessible c.fs c.filespec)).nodes.length →
      Left (calls ++ [c]) { m.grow none (accessible c.fs c.filespec) with nodes := nodes } := by
    intro nodes hlen
    refine ⟨?_, ?_⟩
    · rw [leavesNodes_concat, if_neg hne]
      cases accessible c.fs c.filespec <;> rfl
    · intro n hn
      simp only [hlen]
      cases hnames : accessible c.fs c.filespec with
      | nil => rw [hnames] at hn; cases hn
      | cons name names =>
        rw [hnames] at hn
        cases hn
        simp [Memory.grow, Memory.store]
  cases c with
  | findSerialAll fs filespec =>
    have hall := findSerialAll_of_ne_nil hne m
    exact ⟨_, congrArg (fun r : Option Nat × Memory => some r.2) hall, hleft _ rfl⟩
  | findSerial fs filespec =>
    obtain ⟨nodes, hlen, hfind⟩ := findSerial_of_ne_nil hne m
    exact ⟨_, congrArg (Option.map Prod.snd) hfind, hleft nodes hlen⟩

theorem foldlM_run_concat (calls : List Call) (c : Call) (m : Memory) :
    (calls ++ [c]).foldlM Call.run m = (calls.foldlM Call.run m).bind fun m => c.run m := by
  rw [List.foldlM_append]
  cases calls.foldlM Call.run m <;> simp

theorem left_start : Left [] Memory.start := ⟨rfl, fun n hn => by cases hn⟩

/-- After every sequence of calls that uses no freed memory. -/
theorem left_of_run {calls : List Call} {m : Memory}
    (h : calls.foldlM Call.run Memory.start = some m) : Left calls m := by
  induction calls using List.reverseRecOn generalizing m with
  | nil =>
    cases h
    exact left_start
  | append_singleton calls c ih =>
    rw [foldlM_run_concat] at h
    obtain ⟨m', hcalls, hrun⟩ := Option.bind_eq_some_iff.mp h
    by_cases hnil : candidates c.fs c.filespec = []
    · exact (ih hcalls).run_of_nil hnil hrun
    · obtain ⟨m'', hrun', hleft⟩ := run_of_ne_nil calls m' hnil
      rw [hrun] at hrun'
      cases hrun'
      exact hleft

/-- The searches are independent exactly if a search that tries no device comes only when the
last one that tried a device has found none. -/
theorem independent_iff (calls : List Call) :
    Independent calls ↔
      ∀ before c after, calls = before ++ c :: after → candidates c.fs c.filespec = [] →
        leavesNodes before = false := by
  constructor
  · intro h before c after hcalls
    obtain ⟨m, hrun, hexact⟩ := h before c after hcalls
    exact (exact_iff (left_of_run hrun) c).mp hexact
  · intro h
    have hruns : ∀ before after, calls = before ++ after →
        ∃ m, before.foldlM Call.run Memory.start = some m := by
      intro before
      induction before using List.reverseRecOn with
      | nil => exact fun _ _ => ⟨_, rfl⟩
      | append_singleton before c ih =>
        intro after hcalls
        rw [List.append_assoc, List.singleton_append] at hcalls
        obtain ⟨m, hrun⟩ := ih _ hcalls
        have hstep : ∃ m', c.run m = some m' := by
          by_cases hnil : candidates c.fs c.filespec = []
          · have hsome := (left_of_run hrun).isSome
            rw [h before c after hcalls hnil, Option.isSome_eq_false_iff,
              Option.isNone_iff_eq_none] at hsome
            exact ⟨m, run_of_none hnil hsome⟩
          · obtain ⟨m', hm', -⟩ := run_of_ne_nil before m hnil
            exact ⟨m', hm'⟩
        obtain ⟨m', hm'⟩ := hstep
        exact ⟨m', by rw [foldlM_run_concat, hrun]; exact hm'⟩
    intro before c after hcalls
    obtain ⟨m, hrun⟩ := hruns before _ hcalls
    exact ⟨m, hrun, (exact_iff (left_of_run hrun) c).mpr (h before c after hcalls)⟩

/-- `find_serial("ttyS0")`, then `find_serial_all("")`: the second call returns the node that the
first one has freed. -/
theorem freed_node_is_returned : ¬ ∀ calls, Independent calls := by
  intro h
  let fs : FileSystem := ⟨fun _ => true, fun _ => none⟩
  obtain ⟨m, hrun, hexact⟩ := h
    [.findSerial fs ['t', 't', 'y', 'S', '0'], .findSerialAll fs []]
    [.findSerial fs ['t', 't', 'y', 'S', '0']] (.findSerialAll fs []) [] rfl
  have hleft := left_of_run hrun
  have hfalse := (exact_iff hleft _).mp hexact rfl
  have htrue : leavesNodes [.findSerial fs ['t', 't', 'y', 'S', '0']] = true := by decide
  rw [htrue] at hfalse
  cases hfalse

end Hdmi2usbd.Device
