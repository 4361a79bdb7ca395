import Mathlib.Data.List.Count
import Mathlib.Tactic.TypeStar

/-!
# Lossless links

One direction of a connection that loses, repeats and reorders nothing. What is sent waits behind
what was sent before; the receiver takes the first of what waits. A link keeps what it has
delivered, so that what one side has sent and what the other has received can be counted at any
time: `count_send` and `inFlight_deliver` are the two accounts.
-/

namespace Lossless

variable {α : Type*}

structure Link (α : Type*) where
  delivered : List α
  pending : List α

namespace Link

/-- Nothing has been sent. -/
def empty : Link α := ⟨[], []⟩

/-- Everything sent so far, in order. -/
def sent (l : Link α) : List α := l.delivered ++ l.pending

def send (l : Link α) (xs : List α) : Link α := { l with pending := l.pending ++ xs }

/-- The receiver takes the first that waits. -/
def deliver (l : Link α) : Option (α × Link α) :=
  match l.pending with
  | [] => none
  | x :: xs => some (x, ⟨l.delivered ++ [x], xs⟩)

/-- How many of what was sent meet `p`. -/
def count (p : α → Bool) (l : Link α) : Nat := l.sent.countP p

/-- How many of what waits meet `p`. -/
def inFlight (p : α → Bool) (l : Link α) : Nat := l.pending.countP p

variable {p : α → Bool} {l l' : Link α} {x : α} {xs : List α}

theorem sent_send : (l.send xs).sent = l.sent ++ xs := (List.append_assoc ..).symm

@[simp] theorem count_send : (l.send xs).count p = l.count p + xs.countP p := by
  rw [count, sent_send, List.countP_append, count]

@[simp] theorem inFlight_send : (l.send xs).inFlight p = l.inFlight p + xs.countP p :=
  List.countP_append

@[simp] theorem send_nil : l.send [] = l := by
  simp [send]

theorem deliver_eq (h : l.deliver = some (x, l')) :
    l.pending = x :: l'.pending ∧ l'.delivered = l.delivered ++ [x] := by
  unfold deliver at h
  split at h
  · cases h
  · next hp =>
    cases h
    exact ⟨hp, rfl⟩

theorem sent_deliver (h : l.deliver = some (x, l')) : l'.sent = l.sent := by
  obtain ⟨hp, hd⟩ := deliver_eq h
  rw [sent, sent, hp, hd, List.append_assoc]
  rfl

/-- Delivery sends nothing. -/
theorem count_deliver (h : l.deliver = some (x, l')) : l'.count p = l.count p := by
  rw [count, sent_deliver h, count]

/-- What is delivered is no longer in flight. -/
theorem inFlight_deliver (h : l.deliver = some (x, l')) :
    l.inFlight p = l'.inFlight p + if p x then 1 else 0 := by
  rw [inFlight, (deliver_eq h).1, List.countP_cons, inFlight]

/-- Of what is sent once, nothing was delivered before. -/
theorem deliver_first (h : l.deliver = some (x, l')) (hx : p x = true) (hc : l.count p ≤ 1) :
    ∀ y ∈ l.delivered, p y = false := by
  rw [count, sent, (deliver_eq h).1, List.countP_append, List.countP_cons, if_pos hx] at hc
  have hnone : l.delivered.countP p = 0 := by omega
  exact fun y hy => by simpa using List.countP_eq_zero.mp hnone y hy

theorem inFlight_le_count : l.inFlight p ≤ l.count p := by
  rw [count, sent, List.countP_append]
  exact Nat.le_add_left ..

theorem inFlight_nil (h : l.pending = []) : l.inFlight p = 0 := by
  rw [inFlight, h]
  rfl

theorem deliver_none (h : l.pending = []) : l.deliver = none := by
  rw [deliver, h]

end Link

end Lossless
