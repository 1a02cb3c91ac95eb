import Mathlib.Data.List.Basic

/-!
# Chain — linked lists on a heap

Nodes are named by the order of their allocation, and a freed node keeps its name. A list is
built through the pointer to its last link (`setNext`) or laid down as a whole (`link`). Freeing
it touches no other node (`freeFrom_link`), and whoever frees a node twice gets no result.
-/

namespace Chain

structure Node (α : Type*) where
  val : α
  next : Option Nat
  freed : Bool
deriving DecidableEq

variable {α : Type*}

/-! ## Nodes that follow each other -/

/-- The pointer to a list whose first node has the name `n`. -/
def head (n : Nat) (vals : List α) : Option Nat :=
  match vals with
  | [] => none
  | _ :: _ => some n

/-- The nodes of a list, in the order of their names from `n` on. -/
def link (n : Nat) : List α → List (Node α)
  | [] => []
  | a :: as => ⟨a, head (n + 1) as, false⟩ :: link (n + 1) as

@[simp] theorem head_nil (n : Nat) : head n ([] : List α) = none := rfl

@[simp] theorem head_cons (n : Nat) (a : α) (as : List α) : head n (a :: as) = some n := rfl

@[simp] theorem link_nil (n : Nat) : link n ([] : List α) = [] := rfl

@[simp] theorem length_link (n : Nat) (as : List α) : (link n as).length = as.length := by
  induction as generalizing n with
  | nil => rfl
  | cons a as ih => rw [link, List.length_cons, List.length_cons, ih]

/-- What a pointer leads to: live nodes with their names and values. -/
inductive From (nodes : List (Node α)) : Option Nat → List (Nat × α) → Prop
  | nil : From nodes none []
  | cons {n : Nat} {a : α} {next : Option Nat} {rest : List (Nat × α)}
      (hnode : nodes[n]? = some ⟨a, next, false⟩) (hrest : From nodes next rest) :
      From nodes (some n) ((n, a) :: rest)

/-- A list with the names of its nodes. -/
def named (n : Nat) : List α → List (Nat × α)
  | [] => []
  | a :: as => (n, a) :: named (n + 1) as

theorem named_snd (n : Nat) (as : List α) : (named n as).map Prod.snd = as := by
  induction as generalizing n with
  | nil => rfl
  | cons a as ih => rw [named, List.map_cons, ih]

theorem le_of_mem_named {n i : Nat} {a : α} {as : List α} (h : (i, a) ∈ named n as) : n ≤ i := by
  induction as generalizing n with
  | nil => cases h
  | cons b as ih =>
    rcases List.mem_cons.mp h with heq | hmem
    · cases heq
      exact Nat.le_refl _
    · exact Nat.le_trans (Nat.le_succ _) (ih hmem)

theorem from_link (before : List (Node α)) (as : List α) :
    From (before ++ link before.length as) (head before.length as) (named before.length as) := by
  induction as generalizing before with
  | nil => exact .nil
  | cons a as ih =>
    -- the first node stands right behind the nodes before the list
    refine @From.cons _ _ _ a (head (before.length + 1) as) _ ?_ ?_
    · rw [List.getElem?_append_right (Nat.le_refl _), Nat.sub_self, link, List.getElem?_cons_zero]
    · have hrest := ih (before ++ [⟨a, head (before.length + 1) as, false⟩])
      rw [List.length_append, List.length_singleton, List.append_assoc] at hrest
      exact hrest

/-! ## Storing and freeing -/

def setNext (nodes : List (Node α)) (n : Nat) (next : Option Nat) : List (Node α) :=
  nodes.modify n fun node => { node with next := next }

def free (nodes : List (Node α)) (n : Nat) : List (Node α) :=
  nodes.modify n fun node => { node with freed := true }

@[simp] theorem length_setNext (nodes : List (Node α)) (n : Nat) (next : Option Nat) :
    (setNext nodes n next).length = nodes.length := List.length_modify ..

@[simp] theorem length_free (nodes : List (Node α)) (n : Nat) :
    (free nodes n).length = nodes.length := List.length_modify ..

theorem modify_append_of_lt {β : Type*} (f : β → β) {xs : List β} (ys : List β) {n : Nat}
    (hn : n < xs.length) : (xs ++ ys).modify n f = xs.modify n f ++ ys := by
  induction xs generalizing n with
  | nil => exact absurd hn (Nat.not_lt_zero _)
  | cons x xs ih =>
    cases n with
    | zero => rfl
    | succ n =>
      rw [List.cons_append, List.modify_succ_cons, List.modify_succ_cons,
        ih (Nat.lt_of_succ_lt_succ hn), List.cons_append]

theorem modify_append_length {β : Type*} (f : β → β) (xs : List β) (y : β) (ys : List β) :
    (xs ++ y :: ys).modify xs.length f = xs ++ f y :: ys := by
  induction xs with
  | nil => rfl
  | cons x xs ih =>
    rw [List.cons_append, List.length_cons, List.modify_succ_cons, ih, List.cons_append]

/-- A second store to the same link is the one that counts. -/
theorem setNext_setNext (nodes : List (Node α)) (n : Nat) (next next' : Option Nat) :
    setNext (setNext nodes n next) n next' = setNext nodes n next' := by
  simp only [setNext, List.modify_modify_eq]
  rfl

theorem setNext_last (nodes : List (Node α)) (a : α) (next next' : Option Nat) {n : Nat}
    (hn : n = nodes.length) :
    setNext (nodes ++ [⟨a, next, false⟩]) n next' = nodes ++ [⟨a, next', false⟩] := by
  rw [setNext, hn, modify_append_length]

/-- Free the nodes of a list one after the other; their number is enough for `fuel`. -/
def freeFrom : Nat → List (Node α) → Option Nat → Option (List (Node α))
  | _, nodes, none => some nodes
  | 0, _, some _ => none
  | fuel + 1, nodes, some n =>
    match nodes[n]? with
    | some node => if node.freed then none else freeFrom fuel (free nodes n) node.next
    | none => none

@[simp] theorem freeFrom_none (fuel : Nat) (nodes : List (Node α)) :
    freeFrom fuel nodes none = some nodes := by
  cases fuel <;> rfl

theorem freeFrom_link {fuel : Nat} (before : List (Node α)) (as : List α)
    (hfuel : as.length ≤ fuel) :
    freeFrom fuel (before ++ link before.length as) (head before.length as) =
      some (before ++ (link before.length as).map fun node => { node with freed := true }) := by
  induction as generalizing before fuel with
  | nil => rw [head_nil, freeFrom_none, link_nil, List.map_nil]
  | cons a as ih =>
    obtain ⟨fuel, rfl⟩ : ∃ n, fuel = n + 1 := ⟨fuel - 1, by simp at hfuel; omega⟩
    have hget : (before ++ link before.length (a :: as))[before.length]? =
        some ⟨a, head (before.length + 1) as, false⟩ := by
      rw [List.getElem?_append_right (Nat.le_refl _), Nat.sub_self, link, List.getElem?_cons_zero]
    have hfree : free (before ++ link before.length (a :: as)) before.length =
        (before ++ [⟨a, head (before.length + 1) as, true⟩]) ++ link (before.length + 1) as := by
      rw [link, free, modify_append_length, List.append_assoc]
      rfl
    -- the freed node joins the nodes before the list
    have hrest := ih (before ++ [⟨a, head (before.length + 1) as, true⟩])
      (Nat.le_of_succ_le_succ hfuel)
    rw [List.length_append, List.length_singleton] at hrest
    rw [head_cons, freeFrom, hget]
    simp only [Bool.false_eq_true, if_false]
    rw [hfree, hrest, link, List.map_cons, List.append_assoc]
    rfl

theorem length_freeFrom {fuel : Nat} {nodes nodes' : List (Node α)} {first : Option Nat}
    (h : freeFrom fuel nodes first = some nodes') : nodes'.length = nodes.length := by
  induction fuel generalizing nodes first with
  | zero =>
    cases first with
    | none => cases h; rfl
    | some n => cases h
  | succ fuel ih =>
    cases first with
    | none => cases h; rfl
    | some n =>
      rw [freeFrom] at h
      split at h
      · split at h
        · cases h
        · rw [ih h, length_free]
      · cases h

end Chain
