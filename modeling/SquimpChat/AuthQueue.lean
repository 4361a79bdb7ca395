import Mathlib.Data.List.Count
import Mathlib.Data.Option.Basic
import SquimpChat.QueueIntegrity

/-!
# The auth queue by itself

The operations of the auth queue on their own: two pointers, a semaphore, and the `next` links
of all sessions, which may hold anything before a session is first enqueued. To their callers
they are a list of sessions: `auth_queue_enqueue` appends to it, `sqmp_auth_queue_dequeue`
waits until it is nonempty and takes its first.

Results:
1. `authQueue_fifo`: the operations refine that list in every sequence of them in which no
   session is enqueued while it is queued.
2. `serverRun_queue`: the queue of the server is run by these operations.
-/

namespace SquimpChat
open Octets Transition Intrusive

inductive QueueOp
  | enqueue (s : SessionId)
  | dequeue
deriving DecidableEq

/-- The globals and links of the auth queue, and the books of its operations. -/
structure AuthQueue where
  /-- `g_auth_queue_head`, `g_auth_queue_tail` and every session's `next` -/
  links : Queue SessionId
  /-- the count of `g_auth_queue_sem` -/
  sem : Nat
  /-- the sessions enqueued, in order -/
  enqueued : List SessionId
  /-- what the dequeues have returned, in order -/
  dequeued : List (Option SessionId)

namespace AuthQueue

/-- The queue behind `sqmp_auth_queue_init`. -/
def start (next : SessionId → Option SessionId) : AuthQueue where
  links := ⟨none, none, next⟩
  sem := 0
  enqueued := []
  dequeued := []

/-- `auth_queue_enqueue`. -/
def enqueue (q : AuthQueue) (s : SessionId) : AuthQueue where
  links := q.links.enqueue s
  sem := q.sem + 1
  enqueued := q.enqueued ++ [s]
  dequeued := q.dequeued

/-- `sqmp_auth_queue_dequeue`; `none` as long as it blocks in `sem_wait`. -/
def dequeue (q : AuthQueue) : Option AuthQueue :=
  if q.sem = 0 then none
  else some
    { links := q.links.dequeue.2
      sem := q.sem - 1
      enqueued := q.enqueued
      dequeued := q.dequeued ++ [q.links.dequeue.1] }

def step (q : AuthQueue) : QueueOp → Option AuthQueue
  | .enqueue s => some (q.enqueue s)
  | .dequeue => q.dequeue

/-- The session has been enqueued more often than dequeued. -/
def Holds (q : AuthQueue) (s : SessionId) : Prop := q.dequeued.count (some s) < q.enqueued.count s

/-- No session is enqueued while it is queued. -/
def Admissible (q : AuthQueue) (op : QueueOp) : Prop := ∀ s, op = .enqueue s → ¬ q.Holds s

instance {q : AuthQueue} {op : QueueOp} : Decidable (q.Admissible op) :=
  match op with
  | .enqueue s => decidable_of_iff (¬ q.dequeued.count (some s) < q.enqueued.count s)
      ⟨fun h _ he => by cases he; exact h, fun h => h s rfl⟩
  | .dequeue => isTrue fun _ he => nomatch he

end AuthQueue

/-- The operations on a list of sessions. -/
def fifoStep (l : List SessionId) : QueueOp → Option (List SessionId)
  | .enqueue s => some (l ++ [s])
  | .dequeue => match l with
    | [] => none
    | _ :: l => some l

/-! ## 1. Refinement -/

/-- The pointers represent the list, the semaphore counts it, and it is what has been enqueued
and not yet dequeued. -/
structure Refines (q : AuthQueue) (l : List SessionId) : Prop where
  represents : Represents q.links l
  count : q.sem = l.length
  account : q.enqueued.map some = q.dequeued ++ l.map some

namespace Refines

variable {q q' : AuthQueue} {l : List SessionId} {s : SessionId} {op : QueueOp}

theorem start (next : SessionId → Option SessionId) : Refines (.start next) [] :=
  ⟨⟨rfl, rfl, List.nodup_nil⟩, rfl, rfl⟩

/-- The sessions of the list are those that the queue holds. -/
theorem holds_iff (h : Refines q l) : q.Holds s ↔ s ∈ l := by
  have hcount : q.enqueued.count s = q.dequeued.count (some s) + l.count s := by
    have hmap := congrArg (List.count (some s)) h.account
    rwa [List.count_append, List.count_map_of_injective _ _ (Option.some_injective _),
      List.count_map_of_injective _ _ (Option.some_injective _)] at hmap
  rw [AuthQueue.Holds, hcount, ← List.count_pos_iff]
  omega

theorem enqueue (h : Refines q l) (hs : s ∉ l) : Refines (q.enqueue s) (l ++ [s]) where
  represents := enqueue_represents h.represents hs
  count := by
    rw [List.length_append, ← h.count]
    rfl
  account := by
    show (q.enqueued ++ [s]).map some = q.dequeued ++ (l ++ [s]).map some
    rw [List.map_append, h.account, List.map_append, List.append_assoc]

/-- A dequeue takes the first session of the list and clears its link. -/
theorem dequeue (h : Refines q (s :: l)) : ∃ q', q.dequeue = some q' ∧ Refines q' l ∧
    q'.enqueued = q.enqueued ∧ q'.dequeued = q.dequeued ++ [some s] ∧ q'.links.next s = none := by
  obtain ⟨hd, hr⟩ := dequeue_represents h.represents
  have hsem : q.sem = l.length + 1 := h.count
  refine ⟨_, if_neg (by omega), ⟨hr, ?_, ?_⟩, rfl, by rw [hd], dequeue_next hd⟩
  · show q.sem - 1 = l.length
    omega
  · show q.enqueued.map some = q.dequeued ++ [q.links.dequeue.1] ++ l.map some
    rw [h.account, hd, List.append_assoc]
    rfl

theorem step (h : Refines q l) (hop : q.Admissible op) :
    Option.Rel Refines (q.step op) (fifoStep l op) := by
  cases op with
  | enqueue s => exact .some (h.enqueue fun hs => hop s rfl (h.holds_iff.mpr hs))
  | dequeue =>
    cases l with
    | nil =>
      have hblocked : q.dequeue = none := if_pos h.count
      rw [AuthQueue.step, hblocked]
      exact .none
    | cons s l =>
      obtain ⟨q', hd, hr, _⟩ := h.dequeue
      rw [AuthQueue.step, hd]
      exact .some hr

end Refines

/-- Whatever the `next` fields hold at first: as long as no session is enqueued while it is
queued, the list from the head on is that of a FIFO, it is finite, without duplicates and ends at
the tail, and the dequeues return the sessions in the order in which they were enqueued. -/
theorem authQueue_fifo {next : SessionId → Option SessionId} {ops : List QueueOp} {q : AuthQueue}
    (hops : Along AuthQueue.step AuthQueue.Admissible (.start next) ops)
    (h : run AuthQueue.step (.start next) ops = some q) :
    ∃ l, run fifoStep [] ops = some l ∧ Chain q.links.next q.links.head l ∧ l.Nodup ∧
      q.links.tail = l.getLast? ∧ (q.links.head = none ↔ q.links.tail = none) ∧
      q.dequeued <+: q.enqueued.map some ∧
      ∀ q', q.dequeue = some q' → ∃ s, q'.dequeued = q.dequeued ++ [some s] ∧
        q.enqueued[q.dequeued.length]? = some s ∧ q'.links.next s = none := by
  have hrel := run_rel (fun _ _ _ => Refines.step) (Refines.start next) hops
  rw [h] at hrel
  cases hl : run fifoStep [] ops with
  | none =>
    rw [hl] at hrel
    cases hrel
  | some l =>
    rw [hl] at hrel
    cases hrel with
    | some hq =>
      refine ⟨l, rfl, hq.represents.chain, hq.represents.nodup, hq.represents.tail,
        hq.represents.head_eq_none, ⟨l.map some, hq.account.symm⟩, fun q' hd => ?_⟩
      cases l with
      | nil =>
        have hblocked : q.dequeue = none := if_pos hq.count
        rw [hblocked] at hd
        cases hd
      | cons s l =>
        obtain ⟨q'', hd', _, _, hout, hnext⟩ := hq.dequeue
        obtain rfl : q'' = q' := Option.some.inj (hd'.symm.trans hd)
        refine ⟨s, hout, ?_, hnext⟩
        have hget := congrArg (·[q.dequeued.length]?) hq.account
        simpa using hget

/-- Three sessions, each of which points to itself at first; session 0 is enqueued again. -/
theorem authQueue_requeued : ∃ q, run AuthQueue.step (.start some)
      [.enqueue 0, .enqueue 1, .dequeue, .enqueue 2, .enqueue 0, .dequeue] = some q ∧
    q.dequeued = [some 0, some 1] ∧ Chain q.links.next q.links.head [2, 0] ∧
      q.links.tail = some 0 := by
  obtain ⟨q, hr, hd⟩ := run_reaches AuthQueue.step (.start some)
    [.enqueue 0, .enqueue 1, .dequeue, .enqueue 2, .enqueue 0, .dequeue]
    (fun q => q.dequeued = [some 0, some 1]) (by decide)
  obtain ⟨l, hl, hchain, _, htail, _⟩ := authQueue_fifo (by decide) hr
  cases hl
  exact ⟨q, hr, hd, hchain, htail⟩

/-! ## 2. The server's queue -/

def Event.asQueueOp : Event → Option QueueOp
  | enqueued s => some (.enqueue s)
  | dequeued _ => some .dequeue
  | _ => none

/-- The operations on the auth queue in a run, in order. -/
def queueOps (tr : List Event) : List QueueOp := (tr.filterMap (·.asQueueOp)).reverse

/-- The operations of the run lead to the server's pointers and count. A dequeue that is past
`sem_wait` has not happened yet. -/
structure Replays (σ : Server) (q : AuthQueue) : Prop where
  run : run AuthQueue.step (.start fun _ => none) (queueOps σ.trace) = some q
  links : q.links = σ.queue
  sem : q.sem = σ.queueSem + σ.pc.inFlight

namespace Replays

variable {env : Env} {σ σ' : Server} {a : Action} {q : AuthQueue} {es tr : List Event}

theorem queueOps_append (hes : ∀ e ∈ es, e.isQueue = false) :
    queueOps (es ++ tr) = queueOps tr := by
  have h : es.filterMap (·.asQueueOp) = [] := List.filterMap_eq_nil_iff.mpr fun e he => by
    have := hes e he
    cases e <;> first | rfl | cases this
  rw [queueOps, List.filterMap_append, h, List.nil_append, queueOps]

theorem queueOps_cons {e : Event} {op : QueueOp} (h : e.asQueueOp = some op) :
    queueOps (e :: tr) = queueOps tr ++ [op] := by
  rw [queueOps, List.filterMap_cons_some h, List.reverse_cons, queueOps]

theorem init : Replays .init (.start fun _ => none) := ⟨rfl, rfl, rfl⟩

theorem idle (h : Replays σ q) (hi : QueueIdle σ σ') : Replays σ' q := by
  obtain ⟨es, htr, hes⟩ := hi.trace
  refine ⟨?_, h.links.trans hi.queue.symm, h.sem.trans hi.count.symm⟩
  rw [htr, queueOps_append hes, h.run]

/-- An operation that the server performs is one more of the replay. -/
theorem snoc (h : Replays σ q) {e : Event} {op : QueueOp} {q' : AuthQueue}
    (he : e.asQueueOp = some op) (hop : q.step op = some q') (hes : ∀ e ∈ es, e.isQueue = false)
    (htr : σ'.trace = e :: (es ++ σ.trace)) (hlinks : q'.links = σ'.queue)
    (hsem : q'.sem = σ'.queueSem + σ'.pc.inFlight) : Replays σ' q' := by
  refine ⟨?_, hlinks, hsem⟩
  rw [htr, queueOps_cons he, queueOps_append hes]
  exact run_append.mpr ⟨q, h.run, run_cons.mpr ⟨q', hop, rfl⟩⟩

theorem callback (h : Replays σ q) (hs : CallbackStep env σ a σ') : ∃ q', Replays σ' q' := by
  rcases callback_queue hs with ⟨_, hi⟩ | ⟨s, f, hacc⟩
  · exact ⟨q, h.idle hi⟩
  · obtain ⟨hqueue, hsem, hpc, es, htr, hes⟩ := accepted_queue hacc
    refine ⟨q.enqueue s, h.snoc rfl rfl hes htr ?_ ?_⟩
    · rw [hqueue, ← h.links]
      rfl
    · show q.sem + 1 = _
      rw [h.sem, hsem, hpc]
      omega

theorem main (h : Replays σ q) (hs : MainStep env σ a σ') : ∃ q', Replays σ' q' := by
  rcases main_queue hs with hi | ⟨hpc, hd⟩
  · exact ⟨q, h.idle hi⟩
  · have hsem : q.sem = σ.queueSem + 1 := by
      rw [h.sem, hpc]
      rfl
    have hstep : q.step .dequeue = some { q with
        links := q.links.dequeue.2
        sem := q.sem - 1
        dequeued := q.dequeued ++ [q.links.dequeue.1] } := if_neg (by omega)
    rcases hd with ⟨hnone, rfl⟩ | ⟨s, _, rfl⟩
    · refine ⟨_, h.snoc rfl hstep (List.forall_mem_nil _) rfl ?_ ?_⟩
      · rw [← h.links] at hnone
        show q.links.dequeue.2 = σ.queue
        rw [dequeue_none hnone, h.links]
      · show q.sem - 1 = σ.queueSem + _
        rw [hsem]
        cases σ.stop <;> rfl
    · refine ⟨_, h.snoc rfl hstep QueueLemmas.touched_isQueue rfl ?_ ?_⟩
      · show q.links.dequeue.2 = σ.queue.dequeue.2
        rw [h.links]
      · show q.sem - 1 = σ.queueSem
        omega

end Replays

/-- In every run the server's queue is what the operations of the run make of an empty one. -/
theorem serverRun_queue {env : Env} {acts : List Action} {σ : Server}
    (h : serverRun env acts = some σ) : ∃ q, Replays σ q :=
  run_always (I := fun σ => ∃ q, Replays σ q)
    (fun _ _ _ ⟨_, hq⟩ hs => (step_cases hs).elim hq.callback hq.main) ⟨_, .init⟩ h

end SquimpChat
