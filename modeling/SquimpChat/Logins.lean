import SquimpChat.Atomic
import SquimpChat.GhostUsers

/-!
# What atomic steps do to the sessions

The view of an atomic step that the results about sessions and registry need: which
session it moves, what becomes of the registry and of the auth queue. What it sends and on
which streams is left out, and so is `auth_stream`.

Results:
1. `login_cases`: an atomic step accepts an AUTH_REQ, is an iteration of the auth loop, or
   makes one of the changes that `Change` lists.
2. `atomic_queueSound`: the auth queue between two atomic steps.
-/

namespace SquimpChat
open Octets Transition StepLemmas OwnershipLemmas

variable {env : Env} {σ σ' : Server} {a : Action} {acts : List Action}

/-- The session but for its `auth_stream`. -/
def Session.detached (x : Session) : Session := { x with authStream := none }

/-- The session of a BYE, when the action is one. -/
def byeOn (σ : Server) : Action → Option SessionId
  | .received st data =>
    if dispatch serverHandles data = .ok (some .bye) then (σ.stream st).userData else none
  | _ => none

/-- The step leads to these sessions, this registry and these open connections, and it leaves
the auth queue alone. -/
structure Moves (σ σ' : Server) (session : SessionId → Session) (life : SessionId → Lifetime)
    (registry : Registry) (opened : SessionId → Prop) : Prop where
  session : ∀ s, (σ'.session s).detached = (session s).detached
  life : σ'.life = life
  registry : σ'.registry = registry
  opened : ∀ s, Open σ' s ↔ opened s
  queue : σ'.queue = σ.queue
  queueSem : σ'.queueSem = σ.queueSem
  trace : ∃ es, σ'.trace = es ++ σ.trace ∧ ∀ e ∈ es, e.isAuth = false

/-- The steps that leave the auth queue alone. -/
inductive Change (σ : Server) (a : Action) (σ' : Server) : Prop
  | kept (h : Moves σ σ' σ.session σ.life σ.registry (Open σ))
  | connected {c : ConnId} (hl : σ.life c = .unallocated)
      (h : Moves σ σ' (Function.update σ.session c .fresh) (Function.update σ.life c .live)
        σ.registry fun s => s = c ∨ Open σ s)
  | hello {s : SessionId} {id : UInt32} (ho : Open σ s) (hst : (σ.session s).state = .hello)
      (h : Moves σ σ' (Function.update σ.session s
        { σ.session s with sessionId := id, state := .auth }) σ.life σ.registry (Open σ))
  | bye {s : SessionId} (hon : byeOn σ a = some s) (ho : Open σ s)
      (hst : (σ.session s).state = .connEstablished)
      (h : Moves σ σ' (Function.update σ.session s { σ.session s with state := .closing }) σ.life
        (σ.registry.removeNamed (σ.session s).name) (Open σ))
  /-- the session is left to the worker -/
  | left {s : SessionId} (ha : a = .disconnected s) (ho : Open σ s)
      (hq : (σ.session s).authQueued = true)
      (h : Moves σ σ' (Function.update σ.session s { σ.session s with connClosed := true }) σ.life
        σ.registry fun t => t ≠ s ∧ Open σ t)
  | freed {s : SessionId} (ha : a = .disconnected s) (ho : Open σ s)
      (hq : (σ.session s).authQueued = false)
      (h : Moves σ σ' σ.session (Function.update σ.life s .freed) (registryWithout σ s)
        fun t => t ≠ s ∧ Open σ t)

/-- What an atomic step does to the sessions. -/
inductive LoginStep (env : Env) (σ : Server) (a : Action) (σ' : Server) : Prop
  | change (h : Change σ a σ')
  | authReq {s : SessionId} {f : AuthFields} (ho : Open σ s) (hst : (σ.session s).state = .auth)
      (h : AuthAccepted σ σ' a s f)
  | iteration (ha : a = .worker) (hpc : σ.pc = .semWait) (hsem : σ.queueSem ≠ 0)
      (h : Iteration env σ σ')

/-! ## 1. Every atomic step -/

namespace LoginLemmas

variable {st : StreamId} {s : SessionId} {data : Bytes}

/-- A packet of an established session moves the session only if it is a BYE. -/
theorem received_established (hd : dispatch serverHandles data ≠ .ok (some .bye))
    (hs : (σ.stream st).userData = some s) (hst : (σ.session s).state = .connEstablished) :
    (settle σ (some s) (onStreamRecv env σ st data)).session = σ.session := by
  have answers : ∀ {R} {r : Except OutOfRange Server},
      (∀ τ, r = .ok τ → Answers σ st s R τ) → (settle σ (some s) r).session = σ.session := by
    intro R r h
    cases r with
    | ok τ =>
      obtain ⟨es, rfl, _⟩ := h τ rfl
      rfl
    | error e => rfl
  obtain ⟨o, ho⟩ := dispatch_ok serverHandles data
  simp only [onStreamRecv, ho, ok_bind, withSession, hs]
  split
  · simp only [sqmpProcessHello, Server.append_session, hst]
    rfl
  · simp only [sqmpProcessAuthReq, Server.append_session, hst]
    rfl
  · exact answers (R := fun _ => True) fun τ h => sqmpProcessKeyReq_ok h
  · refine answers (R := Addresses σ (.received st data)) fun τ h => ?_
    rcases chatSendHead_ok ho (.inl rfl) hs h with h | ⟨_, r, he, h⟩
    · exact h
    · exact answers_touched.trans (chatSendForward_ok he h)
  · exact absurd ho hd
  · rfl

/-- The session of a packet has an open connection. -/
theorem open_of_receivable (hw : Wf σ) (hr : receivable σ st = true)
    (hs : (σ.stream st).userData = some s) : Open σ s := by
  obtain ⟨_, hp, _⟩ := receivable_iff.mp hr
  obtain ⟨rfl, hu, _⟩ := hw.stream_user hs
  exact ⟨hp, hu⟩

theorem open_setPhase {c : ConnId} {p : ConnPhase} (hp : p ≠ .connected) :
    Open (setPhase σ c p) s ↔ s ≠ c ∧ Open σ s := by
  unfold Open
  rw [setPhase_userData]
  rcases eq_or_ne s c with rfl | hne
  · rw [setPhase_phase_self]
    simp [hp]
  · rw [setPhase_phase_of_ne hne]
    simp [hne]

/-- A step that moves no connection. -/
theorem moves (hidle : AuthIdle σ σ') (hconn : σ'.conn = σ.conn) :
    Moves σ σ' σ'.session σ'.life σ'.registry (Open σ) :=
  ⟨fun _ => rfl, rfl, rfl, fun s => by unfold Open; rw [hconn], hidle.queue, hidle.queueSem,
    hidle.trace⟩

/-- `on_disconnected` moves its own connection only. -/
theorem moves_setPhase {τ : Server} {c : ConnId} {p : ConnPhase} (hp : p ≠ .connected)
    (hidle : AuthIdle σ (setPhase τ c p)) (hconn : τ.conn = σ.conn) :
    Moves σ (setPhase τ c p) τ.session τ.life τ.registry fun s => s ≠ c ∧ Open σ s := by
  refine ⟨fun _ => rfl, rfl, rfl, fun s => ?_, hidle.queue, hidle.queueSem, hidle.trace⟩
  rw [open_setPhase hp]
  unfold Open
  rw [hconn]

theorem disconnects_atomic (ha : a.isAtomic = true) {c : ConnId} {q : Bool}
    (h : Disconnects σ a c q) (hs : (σ.conn c).userData = some s) :
    a = .disconnected c ∧ (σ.conn c).phase = .connected ∧ (σ.session s).authQueued = q := by
  rcases h with ⟨rfl, hc, _, hq⟩ | ⟨rfl, _⟩
  · exact ⟨rfl, (callbackFree_iff.mp hc).1, (hq s hs).symm⟩
  · cases ha

theorem rest_change (h : RestStep σ a σ') : Change σ a σ' := by
  refine .kept ?_
  cases h with
  | ending hpc hpc' hes =>
    refine ⟨fun _ => rfl, rfl, rfl, fun _ => .rfl, rfl, rfl, _, rfl, fun e he => ?_⟩
    obtain ⟨st, _, ⟨ok, rfl⟩ | rfl⟩ := hes e he <;> rfl
  | _ => exact ⟨fun _ => rfl, rfl, rfl, fun _ => .rfl, rfl, rfl, [], rfl, by simp⟩

end LoginLemmas
open LoginLemmas

theorem callback_change (hw : Wf σ) (ha : a.isAtomic = true) (h : CallbackStep env σ a σ')
    (hidle : AuthIdle σ σ')
    (hbye : ∀ st data s, a = .received st data → (σ.stream st).userData = some s →
      (σ.session s).state = .connEstablished → byeOn σ a ≠ some s → σ'.session = σ.session) :
    Change σ a σ' := by
  cases id h with
  | @connected c hp =>
    refine .connected (hw.absent c hp).1 ⟨fun _ => rfl, rfl, rfl, fun s => ?_, rfl, rfl,
      hidle.trace⟩
    unfold Open
    rcases eq_or_ne s c with rfl | hne
    · simp
    · simp [hne]
  | @connectedNull c hp =>
    refine .kept ⟨fun _ => rfl, rfl, rfl, fun s => ?_, rfl, rfl, hidle.trace⟩
    unfold Open
    rcases eq_or_ne s c with rfl | hne
    · simp [hp]
    · simp [hne]
  | @streamOpened c st hc hst =>
    refine .kept ⟨fun _ => rfl, rfl, rfl, fun s => ?_, rfl, rfl, hidle.trace⟩
    unfold Open onStreamOpen
    rcases eq_or_ne s c with rfl | hne
    · simp
    · simp [hne]
  | ignored | answered => exact .kept (moves hidle rfl)
  | hello hr hs hst hok =>
    exact .hello (open_of_receivable hw hr hs) hst (moves hidle rfl)
  | authReq => exact absurd hidle.queueSem (Nat.succ_ne_self _)
  | @bye st s data hr hs hst =>
    have ho := open_of_receivable hw hr hs
    refine .bye (Decidable.not_not.mp fun hon => ?_) ho hst (moves hidle rfl)
    have hsame := congrArg (fun f => (f s).state) (hbye st data s rfl hs hst hon)
    simp [hst] at hsame
  | chatLookup | chatForward | disconnectLoad => cases ha
  | streamClosed hr hs =>
    exact .kept { moves hidle rfl with session := Server.update_proj Session.detached rfl }
  | streamClosedNull => exact .kept (moves hidle rfl)
  | @disconnectNull a c q hd hs =>
    have hm := moves_setPhase (by simp) hidle rfl
    refine .kept { hm with opened := fun s => (hm.opened s).trans ?_ }
    refine and_iff_right_of_imp ?_
    rintro ho rfl
    rw [ho.2] at hs
    cases hs
  | @left a c s es hd hs hes =>
    obtain rfl := (hw.user c s hs).1
    obtain ⟨rfl, hp, hq⟩ := disconnects_atomic ha hd hs
    exact .left rfl ⟨hp, hs⟩ hq (moves_setPhase (by simp) hidle rfl)
  | @freed a c s es hd hs hes =>
    obtain rfl := (hw.user c s hs).1
    obtain ⟨rfl, hp, hq⟩ := disconnects_atomic ha hd hs
    exact .freed rfl ⟨hp, hs⟩ hq (moves_setPhase (by simp) hidle rfl)

theorem login_cases (hb : Between σ) (h : atomicStep env σ a = some σ') :
    LoginStep env σ a σ' := by
  cases atomic_cases hb.rested h with
  | iteration hpc hsem hit => exact .iteration rfl hpc hsem hit
  | rest hstep => exact .change (rest_change hstep)
  | callback ha hstep =>
    rcases callback_auth hstep with hidle | ⟨s, f, hacc⟩
    · refine .change (callback_change hb.wf ha hstep hidle ?_)
      rintro st data s rfl hs hst hon
      have hr : (if receivable σ st = true then
          some (settle σ (σ.stream st).userData (onStreamRecv env σ st data)) else none) =
          some σ' := h
      split at hr
      · cases hr
        rw [hs]
        refine received_established (fun hd => hon ?_) hs hst
        simp only [byeOn, hd, if_true, hs]
      · cases hr
    · obtain ⟨st, es, hr, hs, _, _⟩ := hacc.state
      obtain ⟨data, hon, _⟩ := hacc.on
      obtain ⟨_, _, _, hst⟩ := authReqOn_some hon
      exact .authReq (open_of_receivable hb.wf hr hs) hst hacc

namespace Moves

variable {session : SessionId → Session} {life : SessionId → Lifetime} {registry : Registry}
  {opened : SessionId → Prop}

theorem state (h : Moves σ σ' session life registry opened) (s : SessionId) :
    (σ'.session s).state = (session s).state := by
  have heq := congrArg Session.state (h.session s)
  exact heq

theorem name (h : Moves σ σ' session life registry opened) (s : SessionId) :
    (σ'.session s).name = (session s).name := by
  have heq := congrArg Session.name (h.session s)
  exact heq

theorem connClosed (h : Moves σ σ' session life registry opened) (s : SessionId) :
    (σ'.session s).connClosed = (session s).connClosed := by
  have heq := congrArg Session.connClosed (h.session s)
  exact heq

theorem authQueued (h : Moves σ σ' session life registry opened) (s : SessionId) :
    (σ'.session s).authQueued = (session s).authQueued := by
  have heq := congrArg Session.authQueued (h.session s)
  exact heq

end Moves

namespace Change

/-- The registry behind a step that leaves the auth queue alone: it may have lost one name. -/
theorem registry (h : Change σ a σ') :
    σ'.registry = σ.registry ∨ ∃ k, σ'.registry = σ.registry.removeNamed k := by
  cases h with
  | kept h | connected hl h | hello ho hst h | left ha ho hq h => exact .inl h.registry
  | bye hon ho hst h => exact .inr ⟨_, h.registry⟩
  | freed ha ho hq h =>
    rw [h.registry, registryWithout]
    split
    · exact .inr ⟨_, rfl⟩
    · exact .inl rfl

theorem queue (h : Change σ a σ') : σ'.queue = σ.queue := by
  cases h with
  | kept h | connected hl h | hello ho hst h | left ha ho hq h | bye hon ho hst h
  | freed ha ho hq h => exact h.queue

theorem trace (h : Change σ a σ') :
    ∃ es, σ'.trace = es ++ σ.trace ∧ ∀ e ∈ es, e.isAuth = false := by
  cases h with
  | kept h | connected hl h | hello ho hst h | left ha ho hq h | bye hon ho hst h
  | freed ha ho hq h => exact h.trace

end Change

namespace LoginStep

theorem trace (h : LoginStep env σ a σ') : ∃ es, σ'.trace = es ++ σ.trace := by
  cases h with
  | change h =>
    obtain ⟨es, htr, _⟩ := h.trace
    exact ⟨es, htr⟩
  | authReq ho hst h =>
    obtain ⟨st, es, _, _, _, rfl⟩ := h.state
    exact ⟨_, rfl⟩
  | iteration ha hpc hsem h => cases h <;> exact ⟨_, rfl⟩

theorem distinct (h : LoginStep env σ a σ') (hd : σ.registry.Distinct) : σ'.registry.Distinct := by
  cases h with
  | change h =>
    rcases h.registry with hr | ⟨k, hr⟩
    · exact hr ▸ hd
    · exact hr ▸ Distinct.removeNamed hd k
  | authReq ho hst h =>
    obtain ⟨st, es, _, _, _, rfl⟩ := h.state
    exact hd
  | iteration ha hpc hsem h =>
    cases h with
    | admitted hq hc hadd hes =>
      exact Distinct.add hd (Option.ite_none_right_eq_some.mp hadd).2
    | _ => exact hd

end LoginStep

/-! ## 2. The auth queue -/

/-- Between two atomic steps the auth queue is the list `l`, counted by the semaphore. -/
structure Lined (σ : Server) (l : List SessionId) : Prop where
  represents : Intrusive.Represents σ.queue l
  count : σ.queueSem = l.length

namespace Lined

variable {l : List SessionId}

theorem init : Lined .init [] := ⟨Intrusive.empty_represents, rfl⟩

theorem waiting_eq (hl : Lined σ l) : σ.waiting = l :=
  hl.represents.walk_eq (by rw [hl.count]; exact Nat.le_succ _)

theorem moved (hl : Lined σ l) {session : SessionId → Session} {life : SessionId → Lifetime}
    {registry : Registry} {opened : SessionId → Prop}
    (h : Moves σ σ' session life registry opened) : Lined σ' l :=
  ⟨h.queue ▸ hl.represents, h.queueSem.trans hl.count⟩

theorem accepted (hl : Lined σ l) (hp : NotWaiting σ a) {s : SessionId} {f : AuthFields}
    (h : AuthAccepted σ σ' a s f) : s ∉ l ∧ Lined σ' (l ++ [s]) := by
  obtain ⟨data, hon, _⟩ := h.on
  have hs : s ∉ l := hl.waiting_eq ▸ hp (s, data) hon
  obtain ⟨st, es, _, _, _, rfl⟩ := h.state
  refine ⟨hs, Intrusive.enqueue_represents hl.represents hs, ?_⟩
  rw [List.length_append]
  exact congrArg (· + 1) hl.count

/-- `sem_wait` returns only when a session is queued. -/
theorem dequeue (hl : Lined σ l) (hsem : σ.queueSem ≠ 0) : ∃ s l', l = s :: l' ∧ s ∉ l' ∧
    σ.queue.dequeue.1 = some s ∧ Intrusive.Represents σ.queue.dequeue.2 l' ∧
      σ.queueSem - 1 = l'.length := by
  have hcount := hl.count
  cases l with
  | nil => exact absurd hcount hsem
  | cons s l' =>
    obtain ⟨hd, hr⟩ := Intrusive.dequeue_represents hl.represents
    refine ⟨s, l', rfl, (List.nodup_cons.mp hl.represents.nodup).1, hd, hr, ?_⟩
    rw [hcount]
    rfl

end Lined

end SquimpChat
