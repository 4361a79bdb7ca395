import SquimpChat.NameLength

/-!
# Auth queue integrity

The auth queue is a list of sessions to whoever uses it: AUTH_REQ appends one, the
worker takes the first, and the semaphore counts them. `QueueSound` says that the
pointers of the C code represent such a list.

The queue is intrusive, and `auth_queue_enqueue` clears the link of the session it
is given. The AUTH_REQ handler leaves its session in state AUTH, so a client can have
it enqueue a session that is still queued.

Results:
1. `queueSound_run`: the queue is sound in every run in which no AUTH_REQ is
   accepted for a session that waits in it.
2. `loop_stopped`: three AUTH_REQs of two sessions end the auth loop.
-/

namespace SquimpChat
open Octets Intrusive

variable {env : Env} {σ σ' : Server} {a : Action}

/-- The sessions on the list that starts at `g_auth_queue_head`; the semaphore bounds
their number. -/
def Server.waiting (σ : Server) : List SessionId :=
  walk σ.queue.next (σ.queueSem + 1) σ.queue.head

/-- A dequeue that has passed `sem_wait` and not yet unlinked the head. -/
def WorkerPc.inFlight : WorkerPc → Nat
  | unlink => 1
  | _ => 0

def Event.asEnqueued : Event → Option SessionId
  | enqueued s => some s
  | _ => none

def Event.asDequeued : Event → Option SessionId
  | dequeued o => o
  | _ => none

def Event.isQueue : Event → Bool
  | enqueued _ | dequeued _ => true
  | _ => false

/-- The sessions enqueued in a run, in order. -/
def enqueuedIn (tr : List Event) : List SessionId := (tr.filterMap (·.asEnqueued)).reverse

/-- The sessions the worker has dequeued, in order. -/
def dequeuedIn (tr : List Event) : List SessionId := (tr.filterMap (·.asDequeued)).reverse

/-- The state behind the unlink of the first session. -/
def unlinkedState (σ : Server) (s : SessionId) : Server :=
  { σ.append (.dequeued (some s) :: σ.touched s) with
    queue := σ.queue.dequeue.2
    pc := .dequeued s }

/-- The pointers represent the list `l` of the sessions enqueued and not yet dequeued,
and the semaphore counts it. -/
structure Queued (σ : Server) (l : List SessionId) : Prop where
  represents : Represents σ.queue l
  count : σ.queueSem + σ.pc.inFlight = l.length
  fifo : enqueuedIn σ.trace = dequeuedIn σ.trace ++ l

structure QueueSound (σ : Server) : Prop where
  list : ∃ l, Queued σ l
  /-- a dequeue that has passed `sem_wait` returns a session -/
  found : .dequeued none ∉ σ.trace
  /-- the auth loop ends only when the server is stopped -/
  loop : σ.pc.isEnding = true → σ.stop = true

/-- No AUTH_REQ is accepted for a session that is still queued. -/
def NotWaiting (σ : Server) (a : Action) : Prop := ∀ p ∈ authReqOn σ a, p.1 ∉ σ.waiting

instance : Decidable (NotWaiting σ a) := inferInstanceAs (Decidable (∀ _ ∈ _, _))

/-! ## 1. The invariant -/

theorem Queued.waiting_eq {l : List SessionId} (hq : Queued σ l) : σ.waiting = l := by
  refine hq.represents.walk_eq ?_
  have h := hq.count
  cases hpc : σ.pc <;> rw [hpc] at h <;> simp only [WorkerPc.inFlight] at h <;> omega

namespace QueueLemmas

variable {es tr : List Event}

theorem isQueue_of_isAuth {e : Event} (h : e.isAuth = false) : e.isQueue = false := by
  cases e <;> first | rfl | cases h

theorem enqueuedIn_append (hes : ∀ e ∈ es, e.isQueue = false) :
    enqueuedIn (es ++ tr) = enqueuedIn tr := by
  have h : es.filterMap (·.asEnqueued) = [] := List.filterMap_eq_nil_iff.mpr fun e he => by
    have := hes e he
    cases e <;> first | rfl | cases this
  simp only [enqueuedIn, List.filterMap_append, h, List.nil_append]

theorem dequeuedIn_append (hes : ∀ e ∈ es, e.isQueue = false) :
    dequeuedIn (es ++ tr) = dequeuedIn tr := by
  have h : es.filterMap (·.asDequeued) = [] := List.filterMap_eq_nil_iff.mpr fun e he => by
    have := hes e he
    cases e <;> first | rfl | cases this
  simp only [dequeuedIn, List.filterMap_append, h, List.nil_append]

theorem enqueuedIn_enqueued {s : SessionId} :
    enqueuedIn (.enqueued s :: tr) = enqueuedIn tr ++ [s] := by
  simp [enqueuedIn, Event.asEnqueued]

theorem dequeuedIn_dequeued {s : SessionId} :
    dequeuedIn (.dequeued (some s) :: tr) = dequeuedIn tr ++ [s] := by
  simp [dequeuedIn, Event.asDequeued]

theorem touched_isQueue {s : SessionId} : ∀ e ∈ σ.touched s, e.isQueue = false :=
  fun e he => isQueue_of_isAuth (touched_isAuth e he)

theorem inFlight_of_isEnding {pc : WorkerPc} (h : pc.isEnding = true) : pc.inFlight = 0 := by
  cases pc <;> first | rfl | cases h

end QueueLemmas
open QueueLemmas

/-- The step leaves the auth queue alone. -/
structure QueueIdle (σ σ' : Server) : Prop where
  pc : σ.pc = .unlink → σ'.pc = .unlink
  queue : σ'.queue = σ.queue
  count : σ'.queueSem + σ'.pc.inFlight = σ.queueSem + σ.pc.inFlight
  trace : ∃ es, σ'.trace = es ++ σ.trace ∧ ∀ e ∈ es, e.isQueue = false

/-- A callback enqueues the session of an accepted AUTH_REQ, or leaves the queue alone. -/
theorem callback_queue (h : CallbackStep env σ a σ') :
    (AuthIdle σ σ' ∧ QueueIdle σ σ') ∨ ∃ s f, AuthAccepted σ σ' a s f := by
  refine (callback_auth h).imp_left fun hidle => ⟨hidle, ?_, hidle.queue, ?_, ?_⟩
  · rw [hidle.pc]
    exact id
  · rw [hidle.queueSem, hidle.pc]
  · obtain ⟨es, htr, hes⟩ := hidle.trace
    exact ⟨es, htr, fun e he => isQueue_of_isAuth (hes e he)⟩

/-- The step enqueues the session. -/
structure QueueGrown (σ σ' : Server) (s : SessionId) : Prop where
  queue : σ'.queue = σ.queue.enqueue s
  queueSem : σ'.queueSem = σ.queueSem + 1
  pc : σ'.pc = σ.pc
  trace : ∃ es, σ'.trace = .enqueued s :: (es ++ σ.trace) ∧ ∀ e ∈ es, e.isQueue = false

theorem accepted_queue {s : SessionId} {f : AuthFields} (h : AuthAccepted σ σ' a s f) :
    QueueGrown σ σ' s := by
  obtain ⟨st, es, _, _, hes, rfl⟩ := h.state
  refine ⟨rfl, rfl, rfl, _, rfl, fun e he => ?_⟩
  rcases List.mem_append.mp he with he | he
  · exact isQueue_of_isAuth (hes e he)
  · rcases List.mem_cons.mp he with rfl | he
    · rfl
    · rcases List.mem_cons.mp he with rfl | he
      · rfl
      · exact touched_isQueue e he

/-- The main thread unlinks the head, or leaves the queue alone. -/
theorem main_queue (h : MainStep env σ a σ') :
    QueueIdle σ σ' ∨
      σ.pc = .unlink ∧ ((σ.queue.dequeue.1 = none ∧ σ' = { σ.append [.dequeued none] with
          pc := if σ.stop then .farewell 0 else .exited }) ∨
        ∃ s, σ.queue.dequeue.1 = some s ∧ σ' = unlinkedState σ s) := by
  have hcons : ∀ {e e' : Event} {s}, e.isQueue = false → e'.isQueue = false →
      ∀ e'' ∈ e :: e' :: σ.touched s, e''.isQueue = false := fun he he' =>
    List.forall_mem_cons.mpr ⟨he, List.forall_mem_cons.mpr ⟨he', touched_isQueue⟩⟩
  cases h
  case unlinkNull hpc hd => exact .inr ⟨hpc, .inl ⟨hd, rfl⟩⟩
  case unlink s hpc hd => exact .inr ⟨hpc, .inr ⟨s, hd, rfl⟩⟩
  case test hpc =>
    refine .inl ⟨by simp [hpc], rfl, ?_, [], rfl, List.forall_mem_nil _⟩
    rw [hpc]
    show σ.queueSem + (loopTest σ).inFlight = _
    exact loopTest_cases _ rfl rfl
  case semWait n hpc hn =>
    refine .inl ⟨fun _ => rfl, rfl, ?_, [], rfl, List.forall_mem_nil _⟩
    rw [hpc, hn]
    rfl
  case checkClosed s hpc hc =>
    refine .inl ⟨by simp [hpc], rfl, by rw [hpc]; rfl, _ :: _, rfl,
      List.forall_mem_cons.mpr ⟨?_, touched_isQueue⟩⟩
    split <;> rfl
  case verify s ok hpc hok =>
    refine .inl ⟨by simp [hpc], rfl, ?_, _, rfl, hcons rfl rfl⟩
    rw [hpc]
    cases ok <;> rfl
  case added s st r hpc hr =>
    exact .inl ⟨by simp [hpc], rfl, by rw [hpc]; rfl, _, rfl, hcons rfl rfl⟩
  case establish s hpc =>
    exact .inl ⟨by simp [hpc], rfl, by rw [hpc]; rfl, _, rfl, hcons rfl rfl⟩
  case respond s st ok b hpc hb =>
    exact .inl ⟨by simp [hpc], rfl, by rw [hpc]; rfl, _, rfl,
      List.forall_mem_cons.mpr ⟨rfl, touched_isQueue⟩⟩
  case ending es pc hpc hpc' hes =>
    refine .inl ⟨fun h => ?_, rfl, ?_, es, rfl, fun e he => ?_⟩
    · rw [h] at hpc
      cases hpc
    · show σ.queueSem + pc.inFlight = _
      rw [inFlight_of_isEnding hpc, inFlight_of_isEnding hpc']
    · obtain ⟨st, _, ⟨ok, rfl⟩ | rfl⟩ := hes e he <;> rfl
  case interrupted hpc hstop =>
    exact .inl ⟨by simp [hpc], rfl, by rw [hpc]; rfl, [], rfl, List.forall_mem_nil _⟩
  case signal => exact .inl ⟨id, rfl, rfl, [], rfl, List.forall_mem_nil _⟩
  all_goals exact .inl ⟨by simp [‹σ.pc = _›], rfl, by rw [‹σ.pc = _›]; rfl, _, rfl,
    touched_isQueue⟩

namespace Queued

variable {l : List SessionId}

/-- A step that leaves the queue and the semaphore alone. -/
theorem keep (hq : Queued σ l) (h : QueueIdle σ σ') : Queued σ' l := by
  obtain ⟨es, htr, hes⟩ := h.trace
  refine ⟨h.queue ▸ hq.represents, h.count.trans hq.count, ?_⟩
  rw [htr, enqueuedIn_append hes, dequeuedIn_append hes, hq.fifo]

/-- An AUTH_REQ of a session that is not queued appends it. -/
theorem accepted (hq : Queued σ l) {s : SessionId} {f : AuthFields}
    (h : AuthAccepted σ σ' a s f) (hs : s ∉ l) : Queued σ' (l ++ [s]) := by
  obtain ⟨hqueue, hsem, hpc, es, htr, hes⟩ := accepted_queue h
  refine ⟨?_, ?_, ?_⟩
  · rw [hqueue]
    exact enqueue_represents hq.represents hs
  · have hc := hq.count
    rw [hsem, hpc, List.length_append, List.length_singleton]
    omega
  · have hd : dequeuedIn (.enqueued s :: (es ++ σ.trace)) = dequeuedIn σ.trace :=
      dequeuedIn_append hes
    rw [htr, enqueuedIn_enqueued, enqueuedIn_append hes, hd, hq.fifo, List.append_assoc]

/-- The worker takes the first session. -/
theorem unlink (hq : Queued σ l) (hpc : σ.pc = .unlink) :
    ∃ s l', l = s :: l' ∧ σ.queue.dequeue.1 = some s ∧ Represents σ.queue.dequeue.2 l' := by
  have hc := hq.count
  rw [hpc] at hc
  cases l with
  | nil => simp [WorkerPc.inFlight] at hc
  | cons s l' =>
    obtain ⟨hd, hr⟩ := dequeue_represents hq.represents
    exact ⟨s, l', rfl, hd, hr⟩

/-- A callback appends the session of an accepted AUTH_REQ, or leaves the queue alone. -/
theorem callback (hq : Queued σ l) (hp : NotWaiting σ a) (h : CallbackStep env σ a σ') :
    (AuthIdle σ σ' ∧ Queued σ' l) ∨
      ∃ s f, AuthAccepted σ σ' a s f ∧ s ∉ l ∧ Queued σ' (l ++ [s]) := by
  rcases callback_queue h with ⟨hidle, hkept⟩ | ⟨s, f, hacc⟩
  · exact .inl ⟨hidle, hq.keep hkept⟩
  · obtain ⟨data, hon, _⟩ := hacc.on
    have hs : s ∉ l := hq.waiting_eq ▸ hp (s, data) hon
    exact .inr ⟨s, f, hacc, hs, hq.accepted hacc hs⟩

/-- The main thread takes the first session, or leaves the queue alone. -/
theorem main (hq : Queued σ l) (h : MainStep env σ a σ') :
    (QueueIdle σ σ' ∧ Queued σ' l) ∨
      ∃ s l', l = s :: l' ∧ σ.pc = .unlink ∧ σ' = unlinkedState σ s ∧ Queued σ' l' := by
  rcases main_queue h with hidle | ⟨hpc, hd⟩
  · exact .inl ⟨hidle, hq.keep hidle⟩
  · obtain ⟨s, l', rfl, hs, hr⟩ := hq.unlink hpc
    rcases hd with ⟨hd, _⟩ | ⟨s', hd, rfl⟩
    · rw [hs] at hd
      cases hd
    · rw [hs] at hd
      cases hd
      have hc := hq.count
      rw [hpc] at hc
      have he : enqueuedIn (.dequeued (some s) :: (σ.touched s ++ σ.trace)) = enqueuedIn σ.trace :=
        enqueuedIn_append touched_isQueue
      have hdq : dequeuedIn (.dequeued (some s) :: (σ.touched s ++ σ.trace)) =
          dequeuedIn σ.trace ++ [s] := by
        rw [dequeuedIn_dequeued, dequeuedIn_append touched_isQueue]
      refine .inr ⟨s, l', rfl, hpc, rfl, hr, Nat.succ.inj hc, ?_⟩
      simp only [unlinkedState, Server.append, List.cons_append, he, hdq, hq.fifo,
        List.append_assoc, List.nil_append]

end Queued

namespace QueueSound

theorem init : QueueSound .init where
  list := ⟨[], empty_represents, rfl, rfl⟩
  found := by simp [Server.init]
  loop := by simp [Server.init, WorkerPc.isEnding]

theorem callback (h : QueueSound σ) (hp : NotWaiting σ a) (hs : CallbackStep env σ a σ') :
    QueueSound σ' := by
  obtain ⟨l, hq⟩ := h.list
  refine ⟨?_, ?_, ?_⟩
  · rcases hq.callback hp hs with ⟨_, hq⟩ | ⟨s, f, _, _, hq⟩ <;> exact ⟨_, hq⟩
  · intro hn
    rcases callback_mem hs hn with hn | hn
    · exact callback_dequeues hn
    · exact h.found hn
  · rw [callback_pc hs, callback_stop hs]
    exact h.loop

theorem main (h : QueueSound σ) (hs : MainStep env σ a σ') : QueueSound σ' := by
  obtain ⟨l, hq⟩ := h.list
  refine ⟨?_, ?_, ?_⟩
  · rcases hq.main hs with ⟨_, hq⟩ | ⟨s, l', _, _, _, hq⟩ <;> exact ⟨_, hq⟩
  · intro hn
    rcases main_mem hs hn with hn | hn
    · obtain ⟨hpc, ho⟩ := main_dequeues hn
      obtain ⟨s, l', _, hd, _⟩ := hq.unlink hpc
      rw [hd] at ho
      cases ho
    · exact h.found hn
  · cases hs
    case test hpc =>
      show (loopTest σ).isEnding = true → σ.stop = true
      unfold loopTest
      split
      · exact fun _ => ‹_›
      · nofun
    case unlinkNull hpc hd =>
      obtain ⟨s, l', _, hd', _⟩ := hq.unlink hpc
      rw [hd'] at hd
      cases hd
    case verify s ok hpc hok => cases ok <;> nofun
    case ending es pc hpc hpc' hes => exact fun _ => h.loop hpc
    case interrupted hpc hstop => exact fun _ => hstop
    case signal => exact fun _ => rfl
    all_goals nofun

end QueueSound

/-- The queue is sound while no AUTH_REQ is accepted for a queued session. -/
theorem queueSound_run {acts : List Action} (hP : RunMeets env NotWaiting acts)
    (h : serverRun env acts = some σ) : QueueSound σ :=
  run_induction .init (fun _ _ _ _ _ hq hp hs =>
    (step_cases hs).elim (hq.callback hp) hq.main) hP h

/-! ## 2. Concrete runs -/

/-- Two sessions send an AUTH_REQ each, and one of them another once it is dequeued. -/
def queuedLogins : List Action :=
  greet 0 ++ greet 1 ++ [.received 0 abcReq, .received 1 abcReq] ++ List.replicate 4 .worker ++
    .received 0 abcReq :: List.replicate 15 .worker

theorem queueSound_queuedLogins : ∃ σ, serverRun (.fair none) queuedLogins = some σ ∧
    dequeuedIn σ.trace = [0, 1, 0] ∧ QueueSound σ := by
  obtain ⟨σ, hr, hd⟩ := serverRun_reaches (.fair none) queuedLogins
    (fun σ => dequeuedIn σ.trace = [0, 1, 0]) (by decide +kernel)
  exact ⟨σ, hr, hd, queueSound_run (by decide +kernel) hr⟩

/-- Session 0 sends a second AUTH_REQ while it is still in front of session 1 in the queue. -/
def requeuedLogin : List Action :=
  greet 0 ++ greet 1 ++ [.received 0 abcReq, .received 1 abcReq, .received 0 abcReq] ++
    List.replicate 11 .worker

/-- The worker's second dequeue finds no session, and the auth loop ends with `g_stop` 0. -/
theorem loop_stopped : ∃ env acts σ, RunMeets env ShortName acts ∧
    (∀ a ∈ acts, ∀ data ∈ a.packet, StructComplete data) ∧
      serverRun env acts = some σ ∧ ¬ QueueSound σ := by
  obtain ⟨σ, hr, hpc, hstop⟩ := serverRun_reaches (.fair none) requeuedLogin
    (fun σ => σ.pc.isEnding = true ∧ σ.stop = false) (by decide +kernel)
  refine ⟨.fair none, requeuedLogin, σ, by decide +kernel, by decide +kernel, hr, fun h => ?_⟩
  rw [h.loop hpc] at hstop
  cases hstop

end SquimpChat
