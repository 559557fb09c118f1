import Mathlib.Tactic.Common

/-! Bounded queues. A full queue takes nothing in, and whoever waits to send waits until
something has been taken out. -/

namespace Lasper.Lib

variable {α : Type*} {capacity : ℕ}

structure Queue (α : Type*) (capacity : ℕ) where
  items : List α
  bounded : items.length ≤ capacity

namespace Queue

@[ext]
theorem ext {q q' : Queue α capacity} (h : q.items = q'.items) : q = q' := by
  cases q
  cases q'
  cases h
  rfl

def empty : Queue α capacity := ⟨[], Nat.zero_le capacity⟩

def full (q : Queue α capacity) : Bool := q.items.length = capacity

/-- Is there room for one more, and no more than that? -/
def nearlyFull (q : Queue α capacity) : Bool := q.items.length + 1 = capacity

def trySend (q : Queue α capacity) (a : α) : Option (Queue α capacity) :=
  if h : q.items.length < capacity then
    some ⟨q.items ++ [a], by rw [List.length_append, List.length_singleton]; omega⟩
  else none

def recv (q : Queue α capacity) : Option (α × Queue α capacity) :=
  match q with
  | ⟨[], _⟩ => none
  | ⟨a :: rest, bounded⟩ => some (a, ⟨rest, by rw [List.length_cons] at bounded; omega⟩)

/-- A queue with `n` equal items. -/
def replicate (n : ℕ) (a : α) (h : n ≤ capacity) : Queue α capacity :=
  ⟨List.replicate n a, by rw [List.length_replicate]; exact h⟩

variable {q q' : Queue α capacity} {a : α}

theorem full_eq_true : q.full = true ↔ q.items.length = capacity := decide_eq_true_iff

theorem full_eq_false : q.full = false ↔ q.items.length < capacity := by
  have hbounded := q.bounded
  rw [full, decide_eq_false_iff_not]
  omega

theorem trySend_items (h : q.trySend a = some q') : q'.items = q.items ++ [a] := by
  unfold trySend at h
  split at h
  · cases h
    rfl
  · cases h

theorem trySend_eq_none : q.trySend a = none ↔ q.full = true := by
  have hbounded := q.bounded
  rw [full_eq_true, trySend]
  split
  · simp
    omega
  · simp
    omega

theorem trySend_isSome (h : q.full = false) (a : α) : (q.trySend a).isSome = true := by
  rw [full_eq_false] at h
  simp [trySend, h]

/-- Sending fills a queue that is nearly full, and no other. -/
theorem trySend_full (h : q.trySend a = some q') : q'.full = q.nearlyFull := by
  simp [full, nearlyFull, trySend_items h]

theorem recv_items (h : q.recv = some (a, q')) : q.items = a :: q'.items := by
  obtain ⟨items, bounded⟩ := q
  cases items with
  | nil => cases h
  | cons b rest =>
    cases h
    rfl

/-- What has been taken from is not full. -/
theorem recv_full (h : q.recv = some (a, q')) : q'.full = false := by
  have hbounded := q.bounded
  rw [recv_items h, List.length_cons] at hbounded
  rw [full_eq_false]
  omega

theorem recv_eq_none : q.recv = none ↔ q.items = [] := by
  obtain ⟨items, bounded⟩ := q
  cases items <;> simp [recv]

theorem recv_isSome (h : q.full = true) (hcapacity : 0 < capacity) : q.recv.isSome = true := by
  rw [full_eq_true] at h
  cases hrecv : q.recv with
  | some taken => rfl
  | none =>
    rw [recv_eq_none] at hrecv
    rw [hrecv, List.length_nil] at h
    omega

theorem trySend_replicate {n : ℕ} (h : n + 1 ≤ capacity) :
    (replicate n a (Nat.le_of_succ_le h)).trySend a = some (replicate (n + 1) a h) := by
  have hlt : n < capacity := h
  simp [trySend, replicate, hlt, List.replicate_succ']

end Queue

end Lasper.Lib
