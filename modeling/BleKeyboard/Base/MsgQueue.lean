import Mathlib.Data.List.Basic

/-!
# Bounded message queues

A bounded FIFO whose occupancy never exceeds its capacity: the bound is a field,
so an overfull queue cannot be built. The four operations are the non-blocking
ones of a kernel message queue: a put into a full queue and a get from an empty
one fail and change nothing.
-/

namespace BleKeyboard.Base

universe u v

/-- A FIFO of at most `cap` messages, the head first. -/
structure MsgQueue (α : Type u) (cap : Nat) where
  items : List α
  bounded : items.length ≤ cap

namespace MsgQueue

variable {α : Type u} {cap : Nat}

/-- The empty queue. -/
def empty : MsgQueue α cap := ⟨[], Nat.zero_le _⟩

/-- Append a message; `none` if the queue is full. -/
def put (q : MsgQueue α cap) (a : α) : Option (MsgQueue α cap) :=
  if h : q.items.length < cap then
    some ⟨q.items ++ [a], by simpa using Nat.succ_le_of_lt h⟩
  else
    none

/-- The head message, left in place. -/
def peek (q : MsgQueue α cap) : Option α := q.items.head?

/-- The queue without its head; an empty queue stays empty. -/
def drop (q : MsgQueue α cap) : MsgQueue α cap :=
  ⟨q.items.tail, by
    rw [List.length_tail]
    exact Nat.le_trans (Nat.sub_le _ _) q.bounded⟩

/-- Take the head message; `none` if the queue is empty. -/
def get (q : MsgQueue α cap) : Option (α × MsgQueue α cap) :=
  q.peek.map fun a => (a, q.drop)

/-- The number of messages in the queue. -/
def numUsed (q : MsgQueue α cap) : Nat := q.items.length

@[ext] theorem ext {q r : MsgQueue α cap} (h : q.items = r.items) : q = r := by
  cases q
  cases r
  cases h
  rfl

instance [DecidableEq α] : DecidableEq (MsgQueue α cap) := fun q r =>
  decidable_of_iff (q.items = r.items) ⟨ext, fun h => h ▸ rfl⟩

@[simp] theorem drop_items (q : MsgQueue α cap) : q.drop.items = q.items.tail := rfl

/-- A put appends the message if there is room, and loses it otherwise. -/
theorem getD_put_items (q : MsgQueue α cap) (a : α) :
    ((q.put a).getD q).items = if q.items.length < cap then q.items ++ [a] else q.items := by
  rw [put]
  split <;> rfl

/-- The queue with a function applied to every message. -/
def map {β : Type v} (f : α → β) (q : MsgQueue α cap) : MsgQueue β cap :=
  ⟨q.items.map f, by
    rw [List.length_map]
    exact q.bounded⟩

@[simp] theorem map_items {β : Type v} (f : α → β) (q : MsgQueue α cap) :
    (q.map f).items = q.items.map f := rfl

end MsgQueue

end BleKeyboard.Base
