import Mathlib.Logic.Function.Basic
import Mathlib.Data.List.Nodup

/-!
# Intrusive singly linked queues

The nodes carry their own link: the queue is a head, a tail and one `next` link
for every node there is, queued or not. `enqueue` clears the new node's link and
appends it behind the tail; `dequeue` unlinks the head.

`Mentions` is what the pointers lead to in any state, also a broken one: only
`enqueue` adds to it. `Represents q l` ties the pointers to the list of queued nodes. The two
operations keep it (`enqueue_represents`, `dequeue_represents`), `enqueue` only
when the node is not already queued.
-/

namespace Intrusive

variable {ν : Type*}

structure Queue (ν : Type*) where
  head : Option ν
  tail : Option ν
  next : ν → Option ν

/-- The empty queue over nodes whose links are all clear. -/
def Queue.empty : Queue ν := ⟨none, none, fun _ => none⟩

/-- Clear the link of `n` and append it behind the tail. -/
def Queue.enqueue [DecidableEq ν] (q : Queue ν) (n : ν) : Queue ν :=
  match q.tail with
  | none => ⟨some n, some n, Function.update q.next n none⟩
  | some t => ⟨q.head, some n, Function.update (Function.update q.next n none) t (some n)⟩

/-- Unlink the head; the result is the node, `none` when the head is null. -/
def Queue.dequeue [DecidableEq ν] (q : Queue ν) : Option ν × Queue ν :=
  match q.head with
  | none => (none, q)
  | some n =>
    (some n, ⟨q.next n, if (q.next n).isNone then none else q.tail,
      Function.update q.next n none⟩)

/-- The nodes met from a link on, at most `k` of them. -/
def walk (next : ν → Option ν) : Nat → Option ν → List ν
  | 0, _ => []
  | _ + 1, none => []
  | k + 1, some n => n :: walk next k (next n)

/-- `Chain next h l`: following `next` from the link `h` meets exactly the
nodes of `l`, in order, and then a null link. -/
def Chain (next : ν → Option ν) : Option ν → List ν → Prop
  | h, [] => h = none
  | h, n :: l => h = some n ∧ Chain next (next n) l

/-- The pointers of `q` represent the duplicate-free list `l`. -/
structure Represents (q : Queue ν) (l : List ν) : Prop where
  chain : Chain q.next q.head l
  tail : q.tail = l.getLast?
  nodup : l.Nodup

/-- A pointer of the queue leads to `n`, whether `n` is on the list or not. -/
def Queue.Mentions (q : Queue ν) (n : ν) : Prop :=
  q.head = some n ∨ q.tail = some n ∨ ∃ m, q.next m = some n

/-! ## Pointers -/

section Mentions

variable {q : Queue ν} {m n : ν}

theorem not_mentions_empty : ¬ (Queue.empty : Queue ν).Mentions n := by
  rintro (h | h | ⟨_, h⟩) <;> cases h

variable [DecidableEq ν]

theorem mentions_enqueue (h : (q.enqueue n).Mentions m) : m = n ∨ q.Mentions m := by
  have hupdate : ∀ (next : ν → Option ν) (k : ν) (o : Option ν) (k' : ν),
      Function.update next k o k' = some m → o = some m ∨ next k' = some m := by
    intro next k o k' h
    rw [Function.update_apply] at h
    split at h
    · exact .inl h
    · exact .inr h
  unfold Queue.enqueue at h
  split at h
  · rcases h with h | h | ⟨k, h⟩
    · exact .inl (Option.some.inj h).symm
    · exact .inl (Option.some.inj h).symm
    · rcases hupdate _ _ _ _ h with h | h
      · cases h
      · exact .inr (.inr (.inr ⟨k, h⟩))
  · rcases h with h | h | ⟨k, h⟩
    · exact .inr (.inl h)
    · exact .inl (Option.some.inj h).symm
    · rcases hupdate _ _ _ _ h with h | h
      · exact .inl (Option.some.inj h).symm
      · rcases hupdate _ _ _ _ h with h | h
        · cases h
        · exact .inr (.inr (.inr ⟨k, h⟩))

theorem mentions_dequeue (h : q.dequeue.2.Mentions m) : q.Mentions m := by
  unfold Queue.dequeue at h
  split at h
  · exact h
  · rcases h with h | h | ⟨k, h⟩
    · exact .inr (.inr ⟨_, h⟩)
    · dsimp only at h
      split at h
      · cases h
      · exact .inr (.inl h)
    · dsimp only at h
      rw [Function.update_apply] at h
      split at h
      · cases h
      · exact .inr (.inr ⟨k, h⟩)

theorem dequeue_head (h : q.dequeue.1 = some n) : q.head = some n := by
  unfold Queue.dequeue at h
  split at h
  · cases h
  · next hh => exact hh.trans h

theorem mentions_dequeued (h : q.dequeue.1 = some n) : q.Mentions n := .inl (dequeue_head h)

end Mentions

/-- Following the links from the head leads to `n`, so that `n` may be dequeued. -/
inductive Queue.Reaches (q : Queue ν) : ν → Prop
  | head {n : ν} (h : q.head = some n) : Queue.Reaches q n
  | next {m n : ν} (hm : Queue.Reaches q m) (h : q.next m = some n) : Queue.Reaches q n

section Reaches

variable {q : Queue ν} {m n : ν}

theorem Queue.Reaches.mentions (h : q.Reaches n) : q.Mentions n := by
  cases h with
  | head h => exact .inl h
  | next hm h => exact .inr (.inr ⟨_, h⟩)

theorem not_reaches_of_head (h : q.head = none) : ¬ q.Reaches n := by
  intro hr
  induction hr with
  | head h' => rw [h] at h'; cases h'
  | next _ _ ih => exact ih

variable [DecidableEq ν]

theorem reaches_enqueue (h : (q.enqueue n).Reaches m) : m = n ∨ q.Reaches m := by
  induction h with
  | @head m h =>
    unfold Queue.enqueue at h
    split at h
    · exact .inl (Option.some.inj h).symm
    · exact .inr (.head h)
  | @next k m _ h ih =>
    unfold Queue.enqueue at h
    split at h
    · dsimp only at h
      rw [Function.update_apply] at h
      split at h
      · cases h
      · next hne => exact .inr (.next (ih.resolve_left hne) h)
    · dsimp only at h
      rw [Function.update_apply] at h
      split at h
      · exact .inl (Option.some.inj h).symm
      · rw [Function.update_apply] at h
        split at h
        · cases h
        · next hne => exact .inr (.next (ih.resolve_left hne) h)

theorem reaches_dequeued (h : q.dequeue.1 = some n) : q.Reaches n := .head (dequeue_head h)

theorem reaches_dequeue (h : q.dequeue.2.Reaches m) : q.Reaches m := by
  unfold Queue.dequeue at h
  split at h
  · exact h
  · next n hn =>
    induction h with
    | head h => exact .next (.head hn) h
    | next _ h ih =>
      dsimp only at h
      rw [Function.update_apply] at h
      split at h
      · cases h
      · exact .next ih h

end Reaches

/-! ## Chains -/

theorem Chain.update [DecidableEq ν] {next : ν → Option ν} {n : ν} {v : Option ν} {l : List ν}
    {h : Option ν} (hn : n ∉ l) (hc : Chain next h l) :
    Chain (Function.update next n v) h l := by
  induction l generalizing h with
  | nil => exact hc
  | cons m l ih =>
    obtain ⟨rfl, hc⟩ := hc
    simp only [List.mem_cons, not_or] at hn
    refine ⟨rfl, ?_⟩
    rw [Function.update_of_ne (Ne.symm hn.1)]
    exact ih hn.2 hc

/-- Linking a fresh node behind the last one lengthens the chain by it. -/
theorem Chain.snoc [DecidableEq ν] {next : ν → Option ν} {n t : ν} {l : List ν} {h : Option ν}
    (hl : (l ++ [t]).Nodup) (hn : n ∉ l ++ [t]) (hnull : next n = none)
    (hc : Chain next h (l ++ [t])) :
    Chain (Function.update next t (some n)) h (l ++ [t] ++ [n]) := by
  induction l generalizing h with
  | nil =>
    obtain ⟨rfl, _⟩ := hc
    simp only [List.nil_append, List.mem_singleton] at hn
    exact ⟨rfl, by simp, by rw [Function.update_of_ne hn]; exact hnull⟩
  | cons m l ih =>
    obtain ⟨rfl, hc⟩ := hc
    obtain ⟨hm, hl⟩ := List.nodup_cons.mp hl
    obtain ⟨_, hn⟩ := not_or.mp (mt List.mem_cons.mpr hn)
    have hmt : m ≠ t := fun h => hm (by simp [h])
    refine ⟨rfl, ?_⟩
    rw [Function.update_of_ne hmt]
    exact ih hl hn hc

theorem Chain.walk_eq {next : ν → Option ν} {l : List ν} {h : Option ν} (hc : Chain next h l) :
    ∀ {k : Nat}, l.length ≤ k → walk next k h = l := by
  induction l generalizing h with
  | nil =>
    intro k _
    obtain rfl : h = none := hc
    cases k <;> rfl
  | cons n l ih =>
    intro k hk
    obtain ⟨rfl, hc⟩ := hc
    cases k with
    | zero => simp at hk
    | succ k => simp only [walk, ih hc (Nat.le_of_succ_le_succ hk)]

/-! ## The operations on represented queues -/

section Operations

variable {q : Queue ν} {l : List ν}

theorem empty_represents : Represents (Queue.empty : Queue ν) [] :=
  ⟨rfl, rfl, List.nodup_nil⟩

theorem Chain.mentions {next : ν → Option ν} {h : Option ν} {n : ν} (hc : Chain next h l)
    (hn : n ∈ l) : h = some n ∨ ∃ m, next m = some n := by
  induction l generalizing h with
  | nil => cases hn
  | cons m l ih =>
    obtain ⟨rfl, hc⟩ := hc
    rcases List.mem_cons.mp hn with rfl | hn
    · exact .inl rfl
    · exact .inr ((ih hc hn).elim (fun h => ⟨m, h⟩) id)

/-- A pointer leads to every node of the list. -/
theorem Represents.mentions (h : Represents q l) {n : ν} (hn : n ∈ l) : q.Mentions n :=
  (h.chain.mentions hn).imp_right .inr

theorem Chain.mem_of_head {next : ν → Option ν} {h : Option ν} {n : ν} (hc : Chain next h l)
    (hn : h = some n) : n ∈ l := by
  cases l with
  | nil => rw [hn] at hc; cases hc
  | cons m l =>
    rw [hn] at hc
    exact Option.some.inj hc.1 ▸ List.mem_cons_self

theorem Chain.mem_of_next {next : ν → Option ν} {h : Option ν} {m n : ν} (hc : Chain next h l)
    (hm : m ∈ l) (hn : next m = some n) : n ∈ l := by
  induction l generalizing h with
  | nil => cases hm
  | cons k l ih =>
    rcases List.mem_cons.mp hm with rfl | hm
    · exact List.mem_cons_of_mem _ (hc.2.mem_of_head hn)
    · exact List.mem_cons_of_mem _ (ih hc.2 hm)

/-- Nothing but the list is reached. -/
theorem Represents.mem_of_reaches (h : Represents q l) {n : ν} (hn : q.Reaches n) : n ∈ l := by
  induction hn with
  | head hn => exact h.chain.mem_of_head hn
  | next _ hn ih => exact h.chain.mem_of_next ih hn

/-- Both ends are null or none is. -/
theorem Represents.head_eq_none (h : Represents q l) : q.head = none ↔ q.tail = none := by
  rw [h.tail, List.getLast?_eq_none_iff]
  constructor
  · intro hh
    cases l with
    | nil => rfl
    | cons n l =>
      rw [h.chain.1] at hh
      cases hh
  · rintro rfl
    exact h.chain

/-- `walk` computes the represented list, given enough steps. -/
theorem Represents.walk_eq (h : Represents q l) {k : Nat} (hk : l.length ≤ k) :
    walk q.next k q.head = l :=
  h.chain.walk_eq hk

variable [DecidableEq ν]

/-- A node that is not queued is appended at the end. -/
theorem enqueue_represents (h : Represents q l) {n : ν} (hn : n ∉ l) :
    Represents (q.enqueue n) (l ++ [n]) := by
  obtain ⟨hc, ht, hl⟩ := h
  have hnd : (l ++ [n]).Nodup := List.nodup_append.mpr
    ⟨hl, List.nodup_singleton n, fun a ha b hb hab => hn (by simp_all)⟩
  have hc' : Chain (Function.update q.next n none) q.head l := hc.update hn
  rcases List.eq_nil_or_concat l with rfl | ⟨l, t, rfl⟩
  · simp only [List.getLast?_nil] at ht
    simp only [Queue.enqueue, ht]
    exact ⟨⟨rfl, by simp [Chain]⟩, rfl, hnd⟩
  · simp only [List.concat_eq_append] at *
    rw [List.getLast?_append, List.getLast?_singleton, Option.some_or] at ht
    simp only [Queue.enqueue, ht]
    exact ⟨hc'.snoc hl hn (by simp), by simp, hnd⟩

/-- Unlinking the head of a nonempty queue returns its first node. -/
theorem dequeue_represents {n : ν} (h : Represents q (n :: l)) :
    q.dequeue.1 = some n ∧ Represents q.dequeue.2 l := by
  obtain ⟨⟨hh, hc⟩, ht, hl⟩ := h
  obtain ⟨hn, hl⟩ := List.nodup_cons.mp hl
  simp only [Queue.dequeue, hh, true_and]
  refine ⟨hc.update hn, ?_, hl⟩
  cases l with
  | nil =>
    obtain hc : q.next n = none := hc
    simp [hc]
  | cons m l =>
    obtain ⟨hm, _⟩ := hc
    simpa [hm] using ht

theorem dequeue_none (h : q.dequeue.1 = none) : q.dequeue.2 = q := by
  unfold Queue.dequeue at h ⊢
  split at h
  · rfl
  · cases h

/-- A node leaves the queue with a clear link. -/
theorem dequeue_next {n : ν} (h : q.dequeue.1 = some n) : q.dequeue.2.next n = none := by
  have hh := dequeue_head h
  simp only [Queue.dequeue, hh, Function.update_self]

end Operations

end Intrusive
