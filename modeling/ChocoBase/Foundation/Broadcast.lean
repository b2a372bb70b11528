import Mathlib.Data.List.Basic

/-!
# Bounded broadcast channels

A channel keeps its last messages for receivers that are slow.  A receiver that has
fallen behind by more than the capacity is told how many messages it has lost, and
continues with the oldest one that is left.
-/

namespace ChocoBase.Foundation

variable {ε : Type}

inductive Received (ε : Type) where
  | message (e : ε)
  | lagged (missed : Nat)

/-- A channel with one of its receivers: what was sent, and the number of the next message. -/
structure Broadcast (ε : Type) where
  sent : List ε
  next : Nat

namespace Broadcast

/-- A receiver that subscribes before anything is sent. -/
def empty : Broadcast ε := ⟨[], 0⟩

def send (c : Broadcast ε) (e : ε) : Broadcast ε := { c with sent := c.sent ++ [e] }

/-- Nothing while the receiver has to wait. -/
def recv (capacity : Nat) (c : Broadcast ε) : Option (Received ε × Broadcast ε) :=
  if c.next + capacity < c.sent.length then
    some (.lagged (c.sent.length - capacity - c.next),
      { c with next := c.sent.length - capacity })
  else c.sent[c.next]?.map fun e => (.message e, { c with next := c.next + 1 })

/-- What the receiver has taken, if it never fell behind. -/
def taken (c : Broadcast ε) : List ε := c.sent.take c.next

def pending (c : Broadcast ε) : List ε := c.sent.drop c.next

/-- The receiver has not fallen behind. -/
structure Within (capacity : Nat) (c : Broadcast ε) : Prop where
  next_le : c.next ≤ c.sent.length
  room : c.sent.length ≤ c.next + capacity

variable {capacity : Nat} {c c' : Broadcast ε} {e : ε}

theorem within_empty : (empty : Broadcast ε).Within capacity where
  next_le := Nat.le_refl _
  room := Nat.zero_le _

theorem Within.send (h : c.Within capacity) (hroom : c.pending.length < capacity) (e : ε) :
    (c.send e).Within capacity := by
  have hle := h.next_le
  simp only [pending, List.length_drop] at hroom
  constructor <;> simp only [Broadcast.send, List.length_append, List.length_singleton] <;> omega

/-- Within its capacity the channel hands over the next message. -/
theorem Within.recv {r : Received ε} (h : c.Within capacity)
    (hrecv : c.recv capacity = some (r, c')) :
    ∃ e, r = .message e ∧ c.sent[c.next]? = some e ∧ c' = { c with next := c.next + 1 } ∧
      c'.Within capacity := by
  unfold Broadcast.recv at hrecv
  rw [if_neg (Nat.not_lt.mpr h.room)] at hrecv
  obtain ⟨e, he, heq⟩ := Option.map_eq_some_iff.mp hrecv
  obtain ⟨rfl, rfl⟩ := Prod.mk.inj heq
  obtain ⟨hlt, -⟩ := List.getElem?_eq_some_iff.mp he
  have hroom := h.room
  exact ⟨e, rfl, he, rfl, hlt, Nat.le_trans hroom (by simp only; omega)⟩

theorem Within.recv_eq_none_iff (h : c.Within capacity) :
    c.recv capacity = none ↔ c.pending = [] := by
  unfold Broadcast.recv
  rw [if_neg (Nat.not_lt.mpr h.room)]
  simp [pending]

theorem taken_next (he : c.sent[c.next]? = some e) :
    taken { c with next := c.next + 1 } = c.taken ++ [e] := by
  simp only [taken, List.take_add_one, he, Option.toList_some]

theorem pending_eq_cons (he : c.sent[c.next]? = some e) :
    c.pending = e :: pending { c with next := c.next + 1 } := by
  obtain ⟨hlt, rfl⟩ := List.getElem?_eq_some_iff.mp he
  exact List.drop_eq_getElem_cons hlt

theorem Within.taken_send (h : c.Within capacity) : (c.send e).taken = c.taken :=
  List.take_append_of_le_length h.next_le

theorem taken_of_pending (h : c.pending = []) : c.taken = c.sent :=
  List.take_of_length_le (List.drop_eq_nil_iff.mp h)

end Broadcast

end ChocoBase.Foundation
