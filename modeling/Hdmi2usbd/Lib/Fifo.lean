import Mathlib.Data.List.Basic

/-!
# Fifo — the bounded queue

The abstract queue a ring buffer stands for: at most `cap` items, oldest first.
The bound is a field, so a queue over its capacity cannot be built. `put` takes
what fits, `get` and `peek` what is there.
-/

/-- A queue of at most `cap` items. -/
structure Fifo (α : Type*) where
  cap : Nat
  items : List α
  bounded : items.length ≤ cap

namespace Fifo

variable {α : Type*}

@[ext] theorem ext' {p q : Fifo α} (hcap : p.cap = q.cap) (hitems : p.items = q.items) : p = q := by
  cases p
  cases q
  simp_all

/-- The empty queue of capacity `cap`. -/
def empty (cap : Nat) : Fifo α := ⟨cap, [], Nat.zero_le _⟩

def used (q : Fifo α) : Nat := q.items.length

/-- How many more items fit. -/
def free (q : Fifo α) : Nat := q.cap - q.items.length

/-- Append the first `free` of `xs`. -/
def put (q : Fifo α) (xs : List α) : Fifo α where
  cap := q.cap
  items := q.items ++ xs.take q.free
  bounded := by
    have := q.bounded
    simp [free]
    omega

/-- Remove the first `n` items, or all of them. -/
def get (q : Fifo α) (n : Nat) : Fifo α where
  cap := q.cap
  items := q.items.drop n
  bounded := by
    have := q.bounded
    simp
    omega

def peek (q : Fifo α) (n : Nat) : List α := q.items.take n

def flush (q : Fifo α) : Fifo α := empty q.cap

section Lemmas

variable (q : Fifo α) (xs : List α) (n : Nat)

@[simp] theorem empty_cap : (empty n : Fifo α).cap = n := rfl
@[simp] theorem empty_items : (empty n : Fifo α).items = [] := rfl
@[simp] theorem put_cap : (q.put xs).cap = q.cap := rfl
@[simp] theorem put_items : (q.put xs).items = q.items ++ xs.take q.free := rfl
@[simp] theorem get_cap : (q.get n).cap = q.cap := rfl
@[simp] theorem get_items : (q.get n).items = q.items.drop n := rfl
@[simp] theorem flush_cap : q.flush.cap = q.cap := rfl
@[simp] theorem flush_items : q.flush.items = [] := rfl

end Lemmas

end Fifo
