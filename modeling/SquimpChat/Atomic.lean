import SquimpChat.AuthSoundness

/-!
# Atomic callbacks and iterations

The coarser view of the server in which every callback and every iteration of the auth loop
is one step: `atomicStep` lets the main thread run on until it is blocked, at its loop test
or past its loop. An atomic run is a run of the small steps, so whatever holds in
all reachable states holds in those.

Results:
1. `atomicRun_serverRun`: an atomic run reaches states that the small steps reach.
2. `iteration_cases`: what an iteration does to the session it has dequeued.
3. `atomic_cases`: what an atomic step can do.
-/

namespace SquimpChat
open Octets Transition StepLemmas

variable (env : Env) (σ : Server)

/-! ## 1. Atomic steps -/

/-- The main thread is at its loop test, blocked in `sem_wait` or past its loop. -/
def WorkerPc.atRest : WorkerPc → Bool
  | test | semWait | farewell _ | shutdown _ | exited => true
  | _ => false

/-- The main thread's next steps, up to the first that leaves it at rest; at most `n`. -/
def workerRun : Nat → Server → Option Server
  | 0, _ => none
  | n + 1, σ => (workerStep env σ).bind fun σ' =>
    if σ'.pc.atRest then some σ' else workerRun n σ'

/-- A step of the atomic view. An iteration has no more than 10 small steps. -/
def atomicStep : Action → Option Server
  | .worker => workerRun env 10 σ
  | .chatLookup _ _ | .chatForward _ | .disconnectLoad _ | .disconnectRest _ => none
  | a => step env σ a

/-- An atomic run of the server from its start. -/
def atomicRun (acts : List Action) : Option Server := run (atomicStep env) .init acts

/-- Every step of an atomic run from the start meets `P`. -/
def AtomicMeets (P : Server → Action → Prop) (acts : List Action) : Prop :=
  Along (atomicStep env) P .init acts

instance (P : Server → Action → Prop) [∀ σ a, Decidable (P σ a)] (acts : List Action) :
    Decidable (AtomicMeets env P acts) :=
  inferInstanceAs (Decidable (Along ..))

/-- An atomic run that can be computed to its end. -/
theorem atomicRun_reaches (env : Env) (acts : List Action) (P : Server → Prop) [DecidablePred P]
    (h : (atomicRun env acts).any (fun σ => decide (P σ)) = true) :
    ∃ σ, atomicRun env acts = some σ ∧ P σ := run_reaches (atomicStep env) .init acts P h

/-- What `verify_credentials` answers for the staged fields of the session. -/
def verifies (s : SessionId) : Bool :=
  verifyCredentials env.users env.uninit (workerUsername (σ.session s))
    (σ.session s).authPasswordHash

/-- What an iteration for the session registers: nothing when its credentials are wrong, its
name is taken or the registry is full. -/
def admission (s : SessionId) : Option Registry :=
  if verifies env σ s then
    sqmpRegistryAdd σ.registry (σ.session s).authUsername (σ.session s).authUsernameLen
      (σ.session s).authStream (σ.session s).authPubkey
  else none

/-- The AUTH_RESP of an iteration, when the session has an `auth_stream`. -/
def response (s : SessionId) (ok b : Bool) : List Event :=
  ((σ.session s).authStream.map fun st =>
    .sent st (authRespPacket (σ.session s) ok) (σ.isLive st) b).toList

def Event.isUseAfterFree : Event → Bool
  | useAfterFree _ => true
  | _ => false

/-- The events but those about accesses to freed sessions. -/
def visible (es : List Event) : List Event := es.filter fun e => !e.isUseAfterFree

/-- The stream and the packet of a call of `sqmp_stream_send`. -/
def Event.asSent : Event → Option (StreamId × Packet)
  | sent st p _ _ => some (st, p)
  | _ => none

/-- What is sent, the latest first. -/
def sentIn (es : List Event) : List (StreamId × Packet) := es.filterMap (·.asSent)

/-- The events of a call of `verify_credentials`. -/
def verifiedEvents (s : SessionId) (ok : Bool) : List Event :=
  [.verified s (workerUsername (σ.session s)) (σ.session s).authPasswordHash ok,
    .copied .workerUsername (σ.session s).authUsernameLen.toNat]

/-- The events of a registration and of what follows it. -/
def admittedEvents (s : SessionId) : List Event :=
  [.established s (σ.session s).authName,
    .copied .sessionUsername (σ.session s).authUsernameLen.toNat,
    .registered s (σ.session s).authName (σ.session s).authStream (σ.session s).authPubkey,
    .copied .registryUsername (σ.session s).authUsernameLen.toNat]

/-- The main thread takes `s` from the queue and ends the iteration; `x` is the session
behind it. -/
def iterated (s : SessionId) (x : Session) (es : List Event) : Server :=
  { σ.append es with
    session := Function.update σ.session s x
    queue := σ.queue.dequeue.2
    queueSem := σ.queueSem - 1
    pc := .test }

/-- What an iteration of the auth loop does. -/
inductive Iteration : Server → Prop
  /-- `sem_wait` has returned, and the queue has no head -/
  | empty (hq : σ.queue.dequeue.1 = none) :
      Iteration { σ.append [.dequeued none] with
        queueSem := σ.queueSem - 1
        pc := if σ.stop then .farewell 0 else .exited }
  /-- the connection is gone: the session is freed -/
  | closed {s : SessionId} {es : List Event} (hq : σ.queue.dequeue.1 = some s)
      (hc : (σ.session s).connClosed = true)
      (hes : visible es = [if σ.life s = .live then .freed s else .doubleFree s,
        .dequeued (some s)]) :
      Iteration { iterated σ s { σ.session s with authQueued := false } es with
        life := Function.update σ.life s .freed }
  | refused {s : SessionId} {es : List Event} {b : Bool} (hq : σ.queue.dequeue.1 = some s)
      (hc : (σ.session s).connClosed = false) (hn : admission env σ s = none)
      (hes : visible es = response σ s false b ++ verifiedEvents σ s (verifies env σ s) ++
        [.dequeued (some s)]) :
      Iteration (iterated σ s { σ.session s with authQueued := false } es)
  | admitted {s : SessionId} {r : Registry} {es : List Event} {b : Bool}
      (hq : σ.queue.dequeue.1 = some s) (hc : (σ.session s).connClosed = false)
      (hr : admission env σ s = some r)
      (hes : visible es = response σ s true b ++ admittedEvents σ s ++ verifiedEvents σ s true ++
        [.dequeued (some s)]) :
      Iteration { iterated σ s { (σ.session s).establish with authQueued := false } es with
        registry := r }

/-- A step of the main thread outside its iterations: it changes nothing but where the
thread is. -/
inductive RestStep : Action → Server → Prop
  | test (hpc : σ.pc = .test) : RestStep .worker { σ with pc := loopTest σ }
  | ending {es : List Event} {pc : WorkerPc} (hpc : σ.pc.isEnding = true)
      (hpc' : pc.isEnding = true)
      (hes : ∀ e ∈ es, ∃ st, σ.registry.HasStream st ∧
        ((∃ ok, e = .sent st ⟨0, .bye⟩ (σ.isLive st) ok) ∨ e = .connShutdown st (σ.isLive st))) :
      RestStep .worker { σ.append es with pc := pc }
  | interrupted (hpc : σ.pc = .semWait) (hstop : σ.stop = true) :
      RestStep .interrupted { σ with pc := .farewell 0 }
  | signal : RestStep .signal { σ with stop := true }

variable {env σ} {σ' τ : Server} {a : Action} {acts : List Action}

/-! ## 2. Iterations -/

namespace AtomicLemmas

variable {n : Nat} {s : SessionId} {es es' : List Event}

theorem visible_touched : visible (σ.touched s) = [] := by
  unfold visible Server.touched
  split <;> rfl

theorem visible_append : visible (es ++ es') = visible es ++ visible es' := List.filter_append ..

theorem visible_cons {e : Event} (h : e.isUseAfterFree = false) :
    visible (e :: es) = e :: visible es := List.filter_cons_of_pos (by rw [h]; rfl)

theorem sentIn_visible : sentIn (visible es) = sentIn es := by
  unfold sentIn visible
  rw [List.filterMap_filter]
  congr 1
  funext e
  cases e <;> rfl

theorem sentIn_append : sentIn (es ++ es') = sentIn es ++ sentIn es' := List.filterMap_append ..

theorem workerRun_rest (hs : workerStep env σ = some τ) (hp : τ.pc.atRest = true) :
    workerRun env (n + 1) σ = some τ := by
  rw [workerRun, hs, Option.bind_some, if_pos hp]

theorem workerRun_next (hs : workerStep env σ = some τ) (hp : τ.pc.atRest = false) :
    workerRun env (n + 1) σ = workerRun env n τ := by
  rw [workerRun, hs, Option.bind_some, if_neg (by rw [hp]; exact Bool.false_ne_true)]

theorem append_append : (σ.append es).append es' = σ.append (es' ++ es) := by
  simp only [Server.append, List.append_assoc]

/-- The main thread is at `pc`. -/
def goto (σ : Server) (pc : WorkerPc) : Server := { σ with pc := pc }

theorem workerRun_responding (env : Env) (n : Nat) (σ : Server) (s : SessionId) (st : StreamId)
    (ok : Bool) :
    ∃ es b, visible es = [.sent st (authRespPacket (σ.session s) ok) (σ.isLive st) b] ∧
      workerRun env (n + 1) (goto σ (.responding s st ok)) = some (goto (σ.append es) .test) := by
  refine ⟨_ :: σ.touched s, env.streamSend (σ.append (σ.touched s)).trace.length, ?_,
    workerRun_rest rfl rfl⟩
  exact (visible_cons rfl).trans (congrArg _ visible_touched)

theorem workerRun_decided (env : Env) (n : Nat) (σ : Server) (s : SessionId) (ok : Bool) :
    ∃ es b, visible es = response σ s ok b ∧
      workerRun env (n + 2) (goto σ (.decided s ok)) = some (goto (σ.append es) .test) := by
  have hstep : workerStep env (goto σ (.decided s ok)) =
    some (workerLoadStream (goto σ (.decided s ok)) s ok) := rfl
  cases hst : (σ.session s).authStream with
  | none =>
    have hload : workerLoadStream (goto σ (.decided s ok)) s ok =
        goto (σ.append (σ.touched s)) .test := by
      simp only [workerLoadStream, goto, Server.append, hst]
      rfl
    refine ⟨σ.touched s, false, ?_, workerRun_rest (hstep.trans (by rw [hload])) rfl⟩
    rw [visible_touched, response, hst]
    rfl
  | some st =>
    have hload : workerLoadStream (goto σ (.decided s ok)) s ok =
        goto (σ.append (σ.touched s)) (.responding s st ok) := by
      simp only [workerLoadStream, goto, Server.append, hst]
      rfl
    obtain ⟨es, b, hes, hr⟩ := workerRun_responding env n
      (σ.append (σ.touched s)) s st ok
    refine ⟨es ++ σ.touched s, b, ?_, ?_⟩
    · rw [visible_append, visible_touched, List.append_nil, hes, response, hst]
      rfl
    · rw [workerRun_next (hstep.trans (by rw [hload])) rfl, hr, append_append]

theorem workerRun_added (env : Env) (n : Nat) (σ : Server) (s : SessionId) : ∃ es b,
    visible es = response σ s true b ++ [.established s (σ.session s).authName,
      .copied .sessionUsername (σ.session s).authUsernameLen.toNat] ∧
    workerRun env (n + 3) (goto σ (.added s)) =
      some (goto ((σ.append es).modify s .establish) .test) := by
  have hstep : workerStep env (goto σ (.added s)) = some (goto ((σ.append
      (.established s (σ.session s).establish.name ::
        .copied .sessionUsername (σ.session s).authUsernameLen.toNat ::
          σ.touched s)).modify s .establish) (.decided s true)) := rfl
  obtain ⟨es, b, hes, hr⟩ := workerRun_decided env n
    ((σ.append (.established s (σ.session s).establish.name ::
      .copied .sessionUsername (σ.session s).authUsernameLen.toNat ::
        σ.touched s)).modify s .establish) s true
  refine ⟨es ++ .established s (σ.session s).establish.name ::
    .copied .sessionUsername (σ.session s).authUsernameLen.toNat :: σ.touched s, b, ?_, ?_⟩
  · rw [visible_append, visible_cons rfl, visible_cons rfl, visible_touched, hes,
      AuthSoundnessLemmas.establish_name]
    simp [response, authRespPacket, Session.establish, Server.isLive]
  · rw [workerRun_next hstep rfl, hr, ← append_append]
    rfl

theorem workerRun_loaded_refused (env : Env) (n : Nat) (σ : Server) (s : SessionId)
    (hr : sqmpRegistryAdd σ.registry (σ.session s).authUsername (σ.session s).authUsernameLen
      (σ.session s).authStream (σ.session s).authPubkey = none) :
    ∃ es b, visible es = response σ s false b ∧
      workerRun env (n + 3) (goto σ (.loaded s (σ.session s).authStream)) =
        some (goto (σ.append es) .test) := by
  have hadd : workerStep env (goto σ (.loaded s (σ.session s).authStream)) =
      some (goto (σ.append (σ.touched s)) (.decided s false)) := by
    simp only [workerStep, workerAdd, goto, Server.append, hr]
    rfl
  obtain ⟨es, b, hes, h⟩ := workerRun_decided env n (σ.append (σ.touched s)) s false
  refine ⟨es ++ σ.touched s, b, ?_, ?_⟩
  · rw [visible_append, visible_touched, List.append_nil, hes]
    rfl
  · rw [workerRun_next hadd rfl, h, append_append]

theorem workerRun_loaded_admitted (env : Env) (n : Nat) (σ : Server) (s : SessionId) {r : Registry}
    (hr : sqmpRegistryAdd σ.registry (σ.session s).authUsername (σ.session s).authUsernameLen
      (σ.session s).authStream (σ.session s).authPubkey = some r) :
    ∃ es b, visible es = response σ s true b ++ admittedEvents σ s ∧
      workerRun env (n + 4) (goto σ (.loaded s (σ.session s).authStream)) =
        some (goto { (σ.append es).modify s .establish with registry := r } .test) := by
  have hadd : workerStep env (goto σ (.loaded s (σ.session s).authStream)) =
      some (goto { σ.append (.registered s (σ.session s).authName (σ.session s).authStream
        (σ.session s).authPubkey ::
          .copied .registryUsername (σ.session s).authUsernameLen.toNat :: σ.touched s) with
            registry := r } (.added s)) := by
    simp only [workerStep, workerAdd, goto, Server.append, hr]
    rfl
  obtain ⟨es, b, hes, h⟩ := workerRun_added env n
    { σ.append (.registered s (σ.session s).authName
        (σ.session s).authStream (σ.session s).authPubkey ::
        .copied .registryUsername (σ.session s).authUsernameLen.toNat :: σ.touched s) with
          registry := r } s
  refine ⟨es ++ .registered s (σ.session s).authName (σ.session s).authStream
    (σ.session s).authPubkey :: .copied .registryUsername (σ.session s).authUsernameLen.toNat ::
      σ.touched s, b, ?_, ?_⟩
  · rw [visible_append, visible_cons rfl, visible_cons rfl, visible_touched, hes, List.append_assoc]
    rfl
  · rw [workerRun_next hadd rfl, h, ← append_append]
    rfl

theorem workerRun_checked (env : Env) (n : Nat) (σ : Server) (s : SessionId) :
    ∃ ok, verifies env σ s = ok ∧ workerRun env (n + 1) (goto σ (.checked s)) =
      workerRun env n (goto (σ.append (.verified s (workerUsername (σ.session s))
        (σ.session s).authPasswordHash ok ::
          .copied .workerUsername (σ.session s).authUsernameLen.toNat :: σ.touched s))
            (if ok then .verified s else .decided s false)) := by
  refine ⟨_, rfl, workerRun_next rfl ?_⟩
  show (if verifies env σ s = true then WorkerPc.verified s else .decided s false).atRest = false
  split <;> rfl

theorem workerRun_checked_refused (n : Nat) (σ : Server) (s : SessionId)
    (hn : admission env σ s = none) : ∃ es b,
    visible es = response σ s false b ++ verifiedEvents σ s (verifies env σ s) ∧
    workerRun env (n + 6) (goto σ (.checked s)) = some (goto (σ.append es) .test) := by
  obtain ⟨ok, hok, hr⟩ := workerRun_checked env (n + 5) σ s
  unfold admission at hn
  rw [hok] at hn ⊢
  cases ok with
  | false =>
    obtain ⟨es, b, hes, h⟩ := workerRun_decided env (n + 3)
      (σ.append (.verified s (workerUsername (σ.session s)) (σ.session s).authPasswordHash false ::
        .copied .workerUsername (σ.session s).authUsernameLen.toNat :: σ.touched s)) s false
    refine ⟨es ++ .verified s (workerUsername (σ.session s)) (σ.session s).authPasswordHash false ::
      .copied .workerUsername (σ.session s).authUsernameLen.toNat :: σ.touched s, b, ?_,
      hr.trans (h.trans (by rw [append_append]))⟩
    rw [visible_append, hes, visible_cons rfl, visible_cons rfl, visible_touched]
    rfl
  | true =>
    obtain ⟨es, b, hes, h⟩ := workerRun_loaded_refused env (n + 1)
      ((σ.append (.verified s (workerUsername (σ.session s)) (σ.session s).authPasswordHash
        true :: .copied .workerUsername (σ.session s).authUsernameLen.toNat ::
          σ.touched s)).append (σ.touched s)) s hn
    refine ⟨es ++ (σ.touched s ++ .verified s (workerUsername (σ.session s))
      (σ.session s).authPasswordHash true ::
        .copied .workerUsername (σ.session s).authUsernameLen.toNat :: σ.touched s), b, ?_,
      hr.trans ?_⟩
    · rw [visible_append, hes, visible_append, visible_cons rfl, visible_cons rfl, visible_touched]
      rfl
    · rw [← append_append, ← append_append]
      exact (workerRun_next rfl rfl).trans h

theorem workerRun_checked_admitted (n : Nat) (σ : Server) (s : SessionId) {r : Registry}
    (hs : admission env σ s = some r) : ∃ es b,
    visible es = response σ s true b ++ admittedEvents σ s ++ verifiedEvents σ s true ∧
    workerRun env (n + 6) (goto σ (.checked s)) =
      some (goto { (σ.append es).modify s .establish with registry := r } .test) := by
  obtain ⟨ok, hok, hr⟩ := workerRun_checked env (n + 5) σ s
  unfold admission at hs
  rw [hok] at hs
  cases ok with
  | false => cases hs
  | true =>
    obtain ⟨es, b, hes, h⟩ := workerRun_loaded_admitted env n
      ((σ.append (.verified s (workerUsername (σ.session s)) (σ.session s).authPasswordHash
        true :: .copied .workerUsername (σ.session s).authUsernameLen.toNat ::
          σ.touched s)).append (σ.touched s)) s hs
    refine ⟨es ++ (σ.touched s ++ .verified s (workerUsername (σ.session s))
      (σ.session s).authPasswordHash true ::
        .copied .workerUsername (σ.session s).authUsernameLen.toNat :: σ.touched s), b, ?_,
      hr.trans ?_⟩
    · rw [visible_append, hes, visible_append, visible_cons rfl, visible_cons rfl, visible_touched]
      rfl
    · rw [← append_append, ← append_append]
      exact (workerRun_next rfl rfl).trans h

/-- The dequeue and the store to `auth_queued`. -/
def clearedState (σ : Server) (s : SessionId) : Server :=
  { (σ.append (σ.touched s ++ .dequeued (some s) :: σ.touched s)).modify s
      fun x => { x with authQueued := false } with
    queue := σ.queue.dequeue.2 }

theorem workerRun_unlink (n : Nat) (σ : Server) {s : SessionId} (hq : σ.queue.dequeue.1 = some s) :
    workerRun env (n + 2) (goto σ .unlink) =
      workerRun env n (goto (clearedState σ s) (.cleared s)) := by
  have hunlink : workerStep env (goto σ .unlink) = some (goto { σ.append
      (.dequeued (some s) :: σ.touched s) with queue := σ.queue.dequeue.2 } (.dequeued s)) := by
    show some (workerUnlink (goto σ .unlink)) = _
    unfold workerUnlink
    split
    · next q h =>
      have h : σ.queue.dequeue = (none, q) := h
      rw [h] at hq
      cases hq
    · next s' q h =>
      have h : σ.queue.dequeue = (some s', q) := h
      rw [h] at hq
      cases hq
      rw [h]
      rfl
  have hclear : workerStep env (goto { σ.append (.dequeued (some s) :: σ.touched s) with
      queue := σ.queue.dequeue.2 } (.dequeued s)) =
        some (goto (clearedState σ s) (.cleared s)) := by
    simp only [workerStep, goto, clearedState, Server.modify, Server.append, List.append_assoc]
    rfl
  rw [workerRun_next hunlink rfl, workerRun_next hclear rfl]

theorem workerRun_closed (s : SessionId) (hc : (σ.session s).connClosed = true) :
    workerRun env (n + 1) (goto σ (.cleared s)) =
      some (goto ((σ.append (σ.touched s)).free s) .test) := by
  refine workerRun_rest ?_ rfl
  simp only [workerStep, goto, workerCheck, Server.append, hc, if_true]
  rfl

theorem workerRun_open (s : SessionId) (hc : (σ.session s).connClosed = false) :
    workerRun env (n + 1) (goto σ (.cleared s)) =
      workerRun env n (goto (σ.append (σ.touched s)) (.checked s)) := by
  refine workerRun_next ?_ rfl
  simp only [workerStep, goto, workerCheck, Server.append, hc, Bool.false_eq_true, if_false]
  rfl

theorem verifies_cleared : verifies env ((clearedState σ s).append es) s = verifies env σ s := by
  simp [verifies, clearedState, workerUsername]

theorem admission_cleared : admission env ((clearedState σ s).append es) s = admission env σ s := by
  unfold admission
  rw [verifies_cleared]
  simp [clearedState]

/-- What the iteration records of the session does not depend on `auth_queued`. -/
theorem cleared_events (σ : Server) (s : SessionId) (es : List Event) :
    (∀ ok b, response ((clearedState σ s).append es) s ok b = response σ s ok b) ∧
    admittedEvents ((clearedState σ s).append es) s = admittedEvents σ s ∧
    ∀ ok, verifiedEvents ((clearedState σ s).append es) s ok = verifiedEvents σ s ok := by
  simp [response, admittedEvents, clearedState, authRespPacket, Session.authName, verifiedEvents,
    workerUsername, Server.isLive]

end AtomicLemmas
open AtomicLemmas

/-- What an iteration does. -/
theorem iteration_cases (hpc : σ.pc = .semWait) (h : workerRun env 10 σ = some σ') :
    σ.queueSem ≠ 0 ∧ Iteration env σ σ' := by
  have hsem : σ.queueSem ≠ 0 := by
    rintro h0
    rw [workerRun, show workerStep env σ = none by simp [workerStep, hpc, h0]] at h
    cases h
  refine ⟨hsem, ?_⟩
  let σ₁ : Server := { σ with queueSem := σ.queueSem - 1 }
  have hwait : workerStep env σ = some (goto σ₁ .unlink) := by
    simp [workerStep, hpc, hsem, goto, σ₁]
  rw [workerRun_next hwait rfl] at h
  cases hq : σ.queue.dequeue.1 with
  | none =>
    have hunlink : workerStep env (goto σ₁ .unlink) = some { σ₁.append [.dequeued none] with
        pc := if σ.stop then .farewell 0 else .exited } := by
      show some (workerUnlink (goto σ₁ .unlink)) = _
      unfold workerUnlink
      split
      · rfl
      · next s' q hd =>
        have hd : σ.queue.dequeue = (some s', q) := hd
        rw [hd] at hq
        cases hq
    rw [workerRun_rest hunlink (by dsimp only; split <;> rfl)] at h
    cases h
    exact .empty hq
  | some s =>
    rw [workerRun_unlink 7 σ₁ hq] at h
    cases hc : (σ.session s).connClosed with
    | true =>
      rw [workerRun_closed s (by simp [clearedState, σ₁, hc])] at h
      cases h
      have hes : visible ((if σ.life s = .live then .freed s else .doubleFree s) ::
          (σ.touched s ++ (σ.touched s ++ .dequeued (some s) :: σ.touched s))) =
          [if σ.life s = .live then .freed s else .doubleFree s, .dequeued (some s)] := by
        rw [visible_cons (by split <;> rfl), visible_append, visible_append, visible_cons rfl,
          visible_touched]
        rfl
      have hstep : Iteration env σ _ := .closed hq hc hes
      simp only [iterated, Server.append, List.cons_append, List.append_assoc] at hstep
      simp only [goto, Server.free, clearedState, Server.modify, Server.append, List.cons_append,
        List.append_assoc]
      exact hstep
    | false =>
      rw [workerRun_open s (by simp [clearedState, σ₁, hc])] at h
      have hcleared : visible (σ.touched s ++ (σ.touched s ++ .dequeued (some s) :: σ.touched s)) =
          [.dequeued (some s)] := by
        rw [visible_append, visible_append, visible_cons rfl, visible_touched]
        rfl
      obtain ⟨hresp, hadm, hver⟩ := cleared_events σ₁ s ((clearedState σ₁ s).touched s)
      cases hr : admission env σ s with
      | none =>
        obtain ⟨es, b, hes, hrun⟩ := workerRun_checked_refused 0
          ((clearedState σ₁ s).append ((clearedState σ₁ s).touched s)) s
          (admission_cleared.trans hr)
        rw [hrun] at h
        cases h
        have hes : visible (es ++ (σ.touched s ++ (σ.touched s ++ .dequeued (some s) ::
            σ.touched s))) = response σ s false b ++ verifiedEvents σ s (verifies env σ s) ++
              [.dequeued (some s)] := by
          rw [visible_append, hes, hcleared, hresp, hver, verifies_cleared]
          rfl
        have hstep : Iteration env σ _ := .refused hq hc hr hes
        simp only [iterated, Server.append, List.append_assoc] at hstep
        simp only [goto, clearedState, Server.modify, Server.append, List.append_assoc]
        exact hstep
      | some r =>
        obtain ⟨es, b, hes, hrun⟩ := workerRun_checked_admitted 0
          ((clearedState σ₁ s).append ((clearedState σ₁ s).touched s)) s
          (admission_cleared.trans hr)
        rw [hrun] at h
        cases h
        have hes : visible (es ++ (σ.touched s ++ (σ.touched s ++ .dequeued (some s) ::
            σ.touched s))) = response σ s true b ++ admittedEvents σ s ++
              verifiedEvents σ s true ++ [.dequeued (some s)] := by
          rw [visible_append, hes, hcleared, hresp, hadm, hver]
          rfl
        have hstep : Iteration env σ _ := .admitted hq hc hr hes
        simp only [iterated, Server.append, List.append_assoc] at hstep
        simp only [goto, clearedState, Server.modify, Server.append, List.append_assoc,
          Function.update_idem, Function.update_self]
        exact hstep

/-! ## 3. Atomic runs -/

/-- The actions of the atomic view. -/
def Action.isAtomic : Action → Bool
  | chatLookup _ _ | chatForward _ | disconnectLoad _ | disconnectRest _ => false
  | _ => true

/-- Nothing is under way between two atomic steps. -/
structure Rested (σ : Server) : Prop where
  pc : σ.pc.atRest = true
  chats : σ.chats = []
  phase : ∀ c q, (σ.conn c).phase ≠ .disconnecting q

/-- What an atomic step does. -/
inductive AtomicStep (env : Env) (σ : Server) : Action → Server → Prop
  | callback {a : Action} {σ' : Server} (ha : a.isAtomic = true) (h : CallbackStep env σ a σ') :
      AtomicStep env σ a σ'
  | iteration {σ' : Server} (hpc : σ.pc = .semWait) (hsem : σ.queueSem ≠ 0)
      (h : Iteration env σ σ') : AtomicStep env σ .worker σ'
  | rest {a : Action} {σ' : Server} (h : RestStep σ a σ') : AtomicStep env σ a σ'

namespace AtomicLemmas

theorem restStep_of_main (hpc : σ.pc ≠ .semWait) (hrest : σ.pc.atRest = true)
    (h : MainStep env σ .worker σ') : σ'.pc.atRest = true ∧ RestStep σ .worker σ' := by
  cases h
  case test hpc =>
    refine ⟨?_, .test hpc⟩
    show (loopTest σ).atRest = true
    exact loopTest_cases _ rfl rfl
  case ending es pc hpc hpc' hes =>
    refine ⟨?_, .ending hpc hpc' hes⟩
    cases pc <;> first | rfl | cases hpc'
  case semWait n hpc' hn => exact absurd hpc' hpc
  all_goals
    rw [‹σ.pc = _›] at hrest
    cases hrest

theorem workerRun_run {n : Nat} (h : workerRun env n σ = some σ') :
    ∃ m, run (step env) σ (List.replicate m .worker) = some σ' := by
  induction n generalizing σ with
  | zero => cases h
  | succ n ih =>
    obtain ⟨τ, hs, h⟩ := Option.bind_eq_some_iff.mp h
    split at h
    · cases h
      exact ⟨1, run_cons.mpr ⟨_, hs, rfl⟩⟩
    · obtain ⟨m, hr⟩ := ih h
      exact ⟨m + 1, run_cons.mpr ⟨τ, hs, hr⟩⟩

end AtomicLemmas

theorem atomicStep_isAtomic (h : atomicStep env σ a = some σ') : a.isAtomic = true := by
  cases a <;> first | rfl | cases h

theorem atomicStep_step (ha : a ≠ .worker) (h : atomicStep env σ a = some σ') :
    step env σ a = some σ' := by
  have hwhole := atomicStep_isAtomic h
  cases a <;> first | exact h | exact absurd rfl ha | cases hwhole

/-- An atomic step is a run of small steps of one kind. -/
theorem atomicStep_run (h : atomicStep env σ a = some σ') :
    ∃ as, run (step env) σ as = some σ' ∧ ∀ b ∈ as, b = a := by
  by_cases ha : a = .worker
  · subst ha
    obtain ⟨m, hr⟩ := workerRun_run h
    exact ⟨_, hr, fun b hb => List.eq_of_mem_replicate hb⟩
  · exact ⟨[a], run_cons.mpr ⟨σ', atomicStep_step ha h, rfl⟩, by simp⟩

/-- What can happen in an atomic step. -/
theorem atomic_cases (hrest : Rested σ) (h : atomicStep env σ a = some σ') :
    AtomicStep env σ a σ' := by
  by_cases ha : a = .worker
  · subst ha
    by_cases hpc : σ.pc = .semWait
    · obtain ⟨hsem, hit⟩ := iteration_cases hpc h
      exact .iteration hpc hsem hit
    · obtain ⟨τ, hs, h⟩ := Option.bind_eq_some_iff.mp h
      obtain ⟨hp, hstep⟩ := restStep_of_main hpc hrest.pc (workerStep_step hs)
      rw [if_pos hp] at h
      cases h
      exact .rest hstep
  · rcases step_cases (atomicStep_step ha h) with hs | hs
    · exact .callback (atomicStep_isAtomic h) hs
    · cases hs
      case interrupted hpc hstop => exact .rest (.interrupted hpc hstop)
      case signal => exact .rest .signal
      all_goals exact absurd rfl ha

theorem Rested.init : Rested .init where
  pc := rfl
  chats := rfl
  phase _ _ h := by cases h

theorem Rested.step (hrest : Rested σ) (h : AtomicStep env σ a σ') : Rested σ' := by
  cases h with
  | iteration hpc hsem h =>
    cases h with
    | empty hq =>
      refine ⟨?_, hrest.chats, hrest.phase⟩
      dsimp only
      split <;> rfl
    | _ => exact ⟨rfl, hrest.chats, hrest.phase⟩
  | rest h =>
    cases h with
    | test hpc =>
      refine ⟨?_, hrest.chats, hrest.phase⟩
      show (loopTest σ).atRest = true
      exact loopTest_cases _ rfl rfl
    | @ending es pc hpc hpc' hes =>
      refine ⟨?_, hrest.chats, hrest.phase⟩
      cases pc <;> first | rfl | cases hpc'
    | interrupted => exact ⟨rfl, hrest.chats, hrest.phase⟩
    | signal => exact ⟨hrest.pc, hrest.chats, hrest.phase⟩
  | callback ha h =>
    have conn : ∀ (c : ConnId) (k : Conn), (∀ q, k.phase ≠ .disconnecting q) →
        ∀ c' q, (Function.update σ.conn c k c').phase ≠ .disconnecting q := by
      intro c k hk c' q
      rw [Function.update_apply]
      split
      · exact hk q
      · exact hrest.phase c' q
    refine ⟨by rw [callback_pc h]; exact hrest.pc, ?_, ?_⟩
    · cases h with
      | chatLookup | chatForward => cases ha
      | _ => exact hrest.chats
    · cases h with
      | connected | connectedNull => exact conn _ _ (by simp)
      | @streamOpened c st hc hst => exact conn c _ (hrest.phase c)
      | disconnectLoad => cases ha
      | disconnectNull | left | freed => exact conn _ _ (by simp)
      | _ => exact hrest.phase

/-- An invariant of the small steps under a condition that the main thread's steps meet
is an invariant of the atomic steps under it. -/
theorem atomicStep_invariant {P : Server → Action → Prop} {I : Server → Prop}
    (hstep : ∀ σ a σ', I σ → P σ a → step env σ a = some σ' → I σ')
    (hworker : ∀ σ, P σ .worker) (hI : I σ) (hp : P σ a) (h : atomicStep env σ a = some σ') :
    I σ' := by
  by_cases ha : a = .worker
  · subst ha
    obtain ⟨as, hr, has⟩ := atomicStep_run h
    exact run_invariant hstep hI (along_of_mem (fun σ b hb => has b hb ▸ hworker σ) σ) hr
  · exact hstep σ a σ' hI hp (atomicStep_step ha h)

/-- An atomic run reaches a state that small steps reach. -/
theorem atomicRun_serverRun (h : atomicRun env acts = some σ) :
    ∃ acts', serverRun env acts' = some σ :=
  run_expand (fun _ _ _ hb => (atomicStep_run hb).imp fun _ h => h.1) h

/-- What is known of every state between two atomic steps. -/
structure Between (σ : Server) : Prop where
  wf : Wf σ
  known : Known σ
  rested : Rested σ

theorem Between.init : Between .init := ⟨.init, known_init, .init⟩

theorem Between.step (hb : Between σ) (h : atomicStep env σ a = some σ') : Between σ' := by
  obtain ⟨hw, hk⟩ := atomicStep_invariant (P := fun _ _ => True) (I := fun σ => Wf σ ∧ Known σ)
    (fun _ _ _ hi _ h => step_wf h hi.1 hi.2) (fun _ => trivial) ⟨hb.wf, hb.known⟩ trivial h
  exact ⟨hw, hk, hb.rested.step (atomic_cases hb.rested h)⟩

/-- The invariant rule of atomic runs: the step may use that the state is well formed and
that nothing is under way in it. -/
theorem atomic_induction {P : Server → Action → Prop} {I : Server → Prop} (hinit : I .init)
    (hstep : ∀ σ a σ', Between σ → I σ → P σ a → atomicStep env σ a = some σ' → I σ')
    (hP : AtomicMeets env P acts) (h : atomicRun env acts = some σ) : Between σ ∧ I σ := by
  refine run_invariant (I := fun σ => Between σ ∧ I σ) ?_ ⟨.init, hinit⟩ hP h
  rintro σ a σ' ⟨hb, hi⟩ hp hs
  exact ⟨hb.step hs, hstep σ a σ' hb hi hp hs⟩

/-- `abc` logs in, with one iteration of the worker. -/
def abcSession : List Action := greet 0 ++ [.received 0 abcReq, .worker, .worker]

end SquimpChat
