import SquimpChat.QueueIntegrity

/-!
# Session lifetime

`on_disconnected` and the worker decide by two flags who frees a session. The
worker stores 0 to `auth_queued` and then looks at `conn_closed`;
`on_disconnected` loads `auth_queued` and then either stores 1 to `conn_closed` or
frees. Neither order is atomic, and the worker goes on using the session after it has
cleared its flag.

Results:
1. `sessionsSafe_run`: no session is used after it is freed, freed twice or lost, in
   every run in which `on_disconnected` frees only sessions nobody refers to and
   leaves a session to the worker only while one check of `conn_closed` lies ahead.
2. `freed_under_worker`: one AUTH_REQ and a disconnect between two steps of the worker
   make it read a freed session.
-/

namespace SquimpChat
open Octets

variable {env : Env} {σ σ' : Server} {a : Action}

/-- The worker has dequeued the session and its check of `conn_closed` lies ahead. -/
def WorkerPc.checks : WorkerPc → SessionId → Bool
  | dequeued s, s' | cleared s, s' => s = s'
  | _, _ => false

/-- The session `on_disconnected` decides about in this step, and the value of
`auth_queued` it has loaded. -/
def decides (σ : Server) : Action → Option (SessionId × Bool)
  | .disconnected c => (σ.conn c).userData.map fun s => (s, (σ.session s).authQueued)
  | .disconnectRest c =>
    match (σ.conn c).phase with
    | .disconnecting queued => (σ.conn c).userData.map fun s => (s, queued)
    | _ => none
  | _ => none

/-- A session is freed only when it is neither queued nor in the worker's hands, and left
to the worker only when exactly one check of `conn_closed` lies ahead. -/
def DecidesRight (σ : Server) (a : Action) : Prop :=
  ∀ d ∈ decides σ a,
    if d.2 then (d.1 ∈ σ.waiting ↔ σ.pc.checks d.1 = false)
    else d.1 ∉ σ.waiting ∧ σ.pc.pending ≠ some d.1

instance : Decidable (DecidesRight σ a) := inferInstanceAs (Decidable (∀ _ ∈ _, _))

structure SessionsSafe (σ : Server) : Prop where
  untouched : ∀ s, .useAfterFree s ∉ σ.trace
  freedOnce : ∀ s, .doubleFree s ∉ σ.trace
  queued : ∀ s ∈ σ.waiting, σ.life s = .live
  reclaimed : ∀ c s, (σ.conn c).phase = .closed → (σ.conn c).userData = some s →
    s ∉ σ.waiting → σ.pc.pending ≠ some s → σ.life s = .freed

/-! ## 1. The invariant -/

/-- The life of one session, `l` being the auth queue. -/
structure Lifecycle (σ : Server) (l : List SessionId) (s : SessionId) : Prop where
  held : σ.pc.pending = some s ∨ s ∈ l → σ.life s = .live
  opened : (σ.conn s).userData = some s → (σ.conn s).phase ≠ .closed → σ.life s = .live
  closing : σ.life s = .live → (σ.session s).connClosed = true →
    (σ.conn s).phase = .closed ∧ (s ∈ l ↔ σ.pc.checks s = false)
  left : (σ.conn s).userData = some s → (σ.conn s).phase = .closed →
    σ.life s = .freed ∨ (σ.session s).connClosed = true

namespace SessionLifetimeLemmas

variable {s : SessionId} {l l' : List SessionId}

theorem decides_of {c : ConnId} {q : Bool} (h : Disconnects σ a c q)
    (hs : (σ.conn c).userData = some s) : decides σ a = some (s, q) := by
  rcases h with ⟨rfl, _, _, hq⟩ | ⟨rfl, hp⟩
  · simp [decides, hs, hq s hs]
  · simp [decides, hs, hp]

theorem checks_pending {pc : WorkerPc} (h : pc.checks s = true) : pc.pending = some s := by
  cases pc <;> simp_all [WorkerPc.checks, WorkerPc.pending]

end SessionLifetimeLemmas
open SessionLifetimeLemmas

namespace Lifecycle

variable {s : SessionId} {l l' : List SessionId}

/-- A step that does not concern the session. -/
theorem congr (h : Lifecycle σ l s) (hlife : σ'.life s = σ.life s)
    (hphase : (σ'.conn s).phase = (σ.conn s).phase)
    (huser : (σ'.conn s).userData = (σ.conn s).userData)
    (hclosed : (σ'.session s).connClosed = (σ.session s).connClosed)
    (hpending : σ'.pc.pending = some s → σ.pc.pending = some s ∨ s ∈ l)
    (hchecks : (σ.session s).connClosed = true → σ'.pc.checks s = σ.pc.checks s)
    (hmem : s ∈ l' ↔ s ∈ l) : Lifecycle σ' l' s where
  held hr := by
    rw [hlife]
    exact h.held (hr.elim hpending fun hm => .inr (hmem.mp hm))
  opened := by
    rw [huser, hphase, hlife]
    exact h.opened
  closing := by
    rw [hlife, hclosed, hphase, hmem]
    intro hl hc
    rw [hchecks hc]
    exact h.closing hl hc
  left := by
    rw [huser, hphase, hlife, hclosed]
    exact h.left

/-- A callback that changes neither the queue nor a connection nor a flag. -/
theorem idle (h : Lifecycle σ l s) (hpc : σ'.pc = σ.pc) (hlife : σ'.life = σ.life)
    (hconn : σ'.conn = σ.conn)
    (hclosed : (σ'.session s).connClosed = (σ.session s).connClosed) : Lifecycle σ' l s :=
  h.congr (by rw [hlife]) (by rw [hconn]) (by rw [hconn]) hclosed (by rw [hpc]; exact .inl)
    (by rw [hpc]; exact fun _ => rfl) Iff.rfl

/-- `on_disconnected` and `on_connected` move one connection. -/
theorem other {c : ConnId} (h : Lifecycle σ l s) (hne : s ≠ c) {k : Conn} (hpc : σ'.pc = σ.pc)
    (hlife : σ'.life s = σ.life s) (hconn : σ'.conn = Function.update σ.conn c k)
    (hclosed : (σ'.session s).connClosed = (σ.session s).connClosed) : Lifecycle σ' l s :=
  h.congr hlife (by rw [hconn, Function.update_of_ne hne])
    (by rw [hconn, Function.update_of_ne hne]) hclosed (by rw [hpc]; exact .inl)
    (by rw [hpc]; exact fun _ => rfl) Iff.rfl

/-- An AUTH_REQ is accepted on an open connection. -/
theorem accepted (hw : Wf σ) (h : Lifecycle σ l s) {s₀ : SessionId} {f : AuthFields}
    (hacc : AuthAccepted σ σ' a s₀ f) : Lifecycle σ' (l ++ [s₀]) s := by
  obtain ⟨st, es, hr, hs, _, rfl⟩ := hacc.state
  obtain ⟨hl, hphase, _⟩ := OwnershipLemmas.receivable_iff.mp hr
  obtain ⟨rfl, huser, _⟩ := hw.stream_user hs
  have hclosed : ((acceptedState σ st (σ.stream st).conn f es).session s).connClosed =
      (σ.session s).connClosed := by
    refine Server.update_proj Session.connClosed ?_ s
    rfl
  rcases eq_or_ne s (σ.stream st).conn with rfl | hne
  · have hlive := h.opened huser (by rw [hphase]; nofun)
    refine ⟨fun _ => hlive, fun _ _ => hlive, fun _ hc => ?_, fun _ hp => ?_⟩
    · have hc := (h.closing hlive (hclosed.symm.trans hc)).1
      rw [hphase] at hc
      cases hc
    · have hp : (σ.conn (σ.stream st).conn).phase = .closed := hp
      rw [hphase] at hp
      cases hp
  · exact h.congr rfl rfl rfl hclosed .inl (fun _ => rfl) (by simp [hne])

theorem connected (h : Lifecycle σ l s) {c : ConnId} : Lifecycle { σ with
      session := Function.update σ.session c .fresh
      life := Function.update σ.life c .live
      conn := Function.update σ.conn c ⟨.connected, some c, []⟩ } l s := by
  rcases eq_or_ne s c with rfl | hne
  · refine ⟨fun _ => ?_, fun _ _ => ?_, fun _ hc => ?_, fun _ hp => ?_⟩
    · simp
    · simp
    · simp [Session.fresh] at hc
    · simp at hp
  · exact h.other hne rfl (Function.update_of_ne hne _ _) rfl
      (by simp only [Function.update_of_ne hne])

theorem callback (hw : Wf σ) (h : Lifecycle σ l s) (hwait : σ.waiting = l)
    (hd : DecidesRight σ a) (hstep : CallbackStep env σ a σ') (hidle : AuthIdle σ σ') :
    Lifecycle σ' l s := by
  cases hstep with
  | authReq => exact absurd hidle.queueSem (Nat.succ_ne_self _)
  | connected hp => exact h.connected
  | @connectedNull c hp =>
    rcases eq_or_ne s c with rfl | hne
    · have habs := (hw.absent s hp).1
      refine ⟨h.held, fun hu => ?_, fun hl => ?_, fun hu => ?_⟩
      · simp at hu
      · rw [show σ.life s = .live from hl] at habs
        cases habs
      · simp at hu
    · exact h.other hne rfl rfl rfl rfl
  | @streamOpened c st hc hst =>
    have hkeep : ∀ c', ((onStreamOpen σ c st).conn c').phase = (σ.conn c').phase ∧
        ((onStreamOpen σ c st).conn c').userData = (σ.conn c').userData := by
      intro c'
      simp only [onStreamOpen, Function.update_apply]
      split
      · next heq => rw [heq]; exact ⟨rfl, rfl⟩
      · exact ⟨rfl, rfl⟩
    exact h.congr rfl (hkeep s).1 (hkeep s).2 rfl .inl (fun _ => rfl) Iff.rfl
  | hello | bye | streamClosed =>
    refine h.idle rfl rfl rfl (Server.update_proj Session.connClosed ?_ s)
    rfl
  | @disconnectLoad c q es hc hcl hq hes =>
    rcases eq_or_ne s c with rfl | hne
    · have hphase := (OwnershipLemmas.callbackFree_iff.mp hc).1
      refine ⟨h.held, fun hu _ => h.opened ?_ (by simp [hphase]), fun hl hcc => ?_,
        fun _ hp => ?_⟩
      · rwa [OwnershipLemmas.setPhase_userData] at hu
      · have hcl := (h.closing hl hcc).1
        rw [hphase] at hcl
        cases hcl
      · rw [OwnershipLemmas.setPhase_phase_self] at hp
        cases hp
    · exact h.other hne rfl rfl rfl rfl
  | @disconnectNull _ c q hdis hu =>
    rcases eq_or_ne s c with rfl | hne
    · have hopen := EventLemmas.disconnects_open hdis
      refine ⟨h.held, fun hu' => ?_, fun hl hcc => ?_, fun hu' => ?_⟩
      · rw [OwnershipLemmas.setPhase_userData, hu] at hu'
        cases hu'
      · exact absurd (h.closing hl hcc).1 hopen
      · rw [OwnershipLemmas.setPhase_userData, hu] at hu'
        cases hu'
    · exact h.other hne rfl rfl rfl rfl
  | @left _ c s₀ es hdis hs hes =>
    obtain ⟨rfl, _⟩ := hw.user c s₀ hs
    have hsoon := hd (s₀, true) (decides_of hdis hs)
    rw [if_pos rfl, hwait] at hsoon
    rcases eq_or_ne s s₀ with rfl | hne
    · have hlive := h.opened hs (EventLemmas.disconnects_open hdis)
      refine ⟨fun _ => hlive, fun _ _ => hlive, fun _ _ => ⟨?_, hsoon⟩, fun _ _ => .inr ?_⟩
      · rw [OwnershipLemmas.setPhase_phase_self]
      · simp [setPhase]
    · refine h.other hne rfl rfl rfl ?_
      simp only [setPhase, Server.modify, Server.append, Function.update_of_ne hne]
  | @freed _ c s₀ es hdis hs hes =>
    obtain ⟨rfl, _⟩ := hw.user c s₀ hs
    have hun := hd (s₀, false) (decides_of hdis hs)
    rw [if_neg Bool.false_ne_true, hwait] at hun
    rcases eq_or_ne s s₀ with rfl | hne
    · have hfreed : ∀ r p, (setPhase { (σ.append es).free s with registry := r } s p).life s =
          .freed := by
        intro r p
        simp [setPhase]
      refine ⟨fun hr => ?_, fun _ hp => ?_, fun hl => ?_, fun _ _ => .inl (hfreed _ _)⟩
      · exact absurd hr (not_or.mpr ⟨hun.2, hun.1⟩)
      · rw [OwnershipLemmas.setPhase_phase_self] at hp
        exact absurd rfl hp
      · rw [hfreed] at hl
        cases hl
    · exact h.other hne rfl (Function.update_of_ne hne _ _) rfl rfl
  | _ => exact h.idle rfl rfl rfl rfl

/-- The worker unlinks the first session of the queue. -/
theorem unlink (h : Lifecycle σ l s) (hpc : σ.pc = .unlink) {s₀ : SessionId}
    (hl : l = s₀ :: l') (hnd : l.Nodup) : Lifecycle (unlinkedState σ s₀) l' s := by
  subst hl
  rcases eq_or_ne s s₀ with rfl | hne
  · have hlive := h.held (.inr List.mem_cons_self)
    refine ⟨fun _ => hlive, fun _ _ => hlive, fun _ hc => ⟨(h.closing hlive hc).1, ?_⟩, h.left⟩
    simp [unlinkedState, WorkerPc.checks, (List.nodup_cons.mp hnd).1]
  · refine h.congr rfl rfl rfl rfl (fun hp => ?_) (fun _ => ?_) (by simp [hne])
    · exact absurd (Option.some.inj hp).symm hne
    · rw [hpc]
      simp [unlinkedState, WorkerPc.checks, hne.symm]

/-- Any other step of the main thread. -/
theorem main (h : Lifecycle σ l s) (hstep : MainStep env σ a σ')
    (hkeep : σ.pc = .unlink → σ'.pc = .unlink) : Lifecycle σ' l s := by
  have hne_checks : ∀ {s₀}, s ≠ s₀ → decide (s₀ = s) = false := fun hne =>
    decide_eq_false hne.symm
  -- between two states of the worker that have no check ahead
  have quiet : σ'.life s = σ.life s → (σ'.session s).connClosed = (σ.session s).connClosed →
      σ'.conn = σ.conn → (σ'.pc.pending = some s → σ.pc.pending = some s) →
      σ.pc.checks s = false → σ'.pc.checks s = false → Lifecycle σ' l s :=
    fun hlife hclosed hconn hpend hc hc' => h.congr hlife (by rw [hconn]) (by rw [hconn]) hclosed
      (fun hp => .inl (hpend hp)) (fun _ => by rw [hc, hc']) Iff.rfl
  cases hstep
  case unlink s₀ hpc hq => cases hkeep hpc
  case unlinkNull hpc hq =>
    have := hkeep hpc
    dsimp only at this
    split at this <;> cases this
  case clear s₀ hpc =>
    refine h.congr rfl rfl rfl (Server.update_proj Session.connClosed ?_ s) (fun hp => .inl ?_)
      (fun _ => ?_) Iff.rfl
    · rfl
    · rw [hpc]
      exact hp
    · rw [hpc]
      rfl
  case checkClosed s₀ hpc hc =>
    rcases eq_or_ne s s₀ with rfl | hne
    · have hlive := h.held (.inl (by rw [hpc]; rfl))
      obtain ⟨hphase, hm⟩ := h.closing hlive hc
      have hnot : s ∉ l := by
        rw [hm, hpc]
        simp [WorkerPc.checks]
      have hfreed : Function.update σ.life s .freed s = .freed := Function.update_self ..
      refine ⟨fun hr => ?_, fun _ hop => absurd hphase hop, fun hl => ?_, fun _ _ => .inl hfreed⟩
      · exact hr.elim nofun (absurd · hnot)
      · cases hfreed.symm.trans hl
    · refine quiet (Function.update_of_ne hne _ _) rfl rfl nofun ?_ rfl
      rw [hpc]
      exact hne_checks hne
  case checkOpen s₀ hpc hc =>
    refine h.congr rfl rfl rfl rfl (fun hp => .inl ?_) (fun hcc => ?_) Iff.rfl
    · rw [hpc]
      exact hp
    · rcases eq_or_ne s s₀ with rfl | hne
      · rw [hc] at hcc
        cases hcc
      · rw [hpc]
        exact (hne_checks hne).symm
  case establish s₀ hpc =>
    refine quiet rfl (Server.update_proj Session.connClosed ?_ s) rfl ?_ ?_ rfl
    · rfl
    · rw [hpc]
      exact id
    · rw [hpc]
      rfl
  case test hpc =>
    have hpend : (loopTest σ).pending = none := loopTest_cases _ rfl rfl
    have hchecks : (loopTest σ).checks s = false := loopTest_cases _ rfl rfl
    refine quiet rfl rfl rfl (fun hp => ?_) (by rw [hpc]; rfl) hchecks
    rw [show (loopTest σ).pending = some s from hp] at hpend
    cases hpend
  case verify s₀ ok hpc hok =>
    refine quiet rfl rfl rfl (fun hp => ?_) (by rw [hpc]; rfl) ?_
    · rw [hpc]
      cases ok <;> exact hp
    · cases ok <;> rfl
  case ending es pc hpc hpc' hes =>
    have hpend : pc.pending = none := OwnershipLemmas.pending_of_isEnding hpc'
    refine quiet rfl rfl rfl (fun hp => ?_) ?_ ?_
    · rw [show pc.pending = some s from hp] at hpend
      cases hpend
    · cases hp : σ.pc <;> rw [hp] at hpc <;> first | rfl | cases hpc
    · cases pc <;> first | rfl | cases hpc'
  case signal => exact h.congr rfl rfl rfl rfl .inl (fun _ => rfl) Iff.rfl
  case semWait n hpc hn => exact quiet rfl rfl rfl nofun (by rw [hpc]; rfl) rfl
  case interrupted hpc hstop => exact quiet rfl rfl rfl nofun (by rw [hpc]; rfl) rfl
  all_goals
    refine quiet rfl rfl rfl (fun hp => ?_) ?_ rfl
    · rw [‹σ.pc = _›]
      first | exact hp | cases hp
    · rw [‹σ.pc = _›]
      rfl

end Lifecycle

/-- A use of a freed session or a second free. -/
def Event.isFault : Event → Bool
  | useAfterFree _ | doubleFree _ => true
  | _ => false

structure SessionInv (σ : Server) : Prop where
  sessions : ∃ l, Queued σ l ∧ ∀ s, Lifecycle σ l s
  faults : ∀ e ∈ σ.trace, e.isFault = false

namespace SessionInv

variable {l : List SessionId}

theorem init : SessionInv .init where
  sessions := by
    refine ⟨[], ⟨Intrusive.empty_represents, rfl, rfl⟩, fun s => ⟨?_, nofun, nofun, nofun⟩⟩
    rintro (h | h) <;> cases h
  faults _ h := nomatch h

/-- Every session a callback looks at is allocated. -/
theorem accesses_live (hw : Wf σ) (hq : Queued σ l) (hs : ∀ s, Lifecycle σ l s) {s : SessionId}
    (h : Accesses σ s) : σ.life s = .live := by
  have hstream : ∀ {st s}, (σ.stream st).life = .live → (σ.stream st).userData = some s →
      σ.life s = .live := by
    intro st s hl hu
    obtain ⟨rfl, huser, _⟩ := hw.stream_user hu
    exact (hs _).opened huser (by rw [hw.live_connected hl]; nofun)
  cases h with
  | stream hr hu => exact hstream (OwnershipLemmas.receivable_iff.mp hr).1 hu
  | chat hp =>
    obtain ⟨hl, _, hu⟩ := hw.chat _ hp
    exact hstream hl hu
  | conn hp hu =>
    obtain ⟨rfl, _⟩ := hw.user _ _ hu
    exact (hs _).opened hu hp
  | tail ht =>
    rw [hq.represents.tail] at ht
    exact (hs _).held (.inr (List.mem_of_getLast? ht))

theorem callback (hi : SessionInv σ) (hw : Wf σ) (hp : NotWaiting σ a) (hd : DecidesRight σ a)
    (h : CallbackStep env σ a σ') : SessionInv σ' := by
  obtain ⟨l, hq, hs⟩ := hi.sessions
  refine ⟨?_, fun e he => ?_⟩
  · rcases hq.callback hp h with ⟨hidle, hq'⟩ | ⟨s, f, hacc, _, hq'⟩
    · exact ⟨l, hq', fun s => (hs s).callback hw hq.waiting_eq hd h hidle⟩
    · exact ⟨_, hq', fun s => (hs s).accepted hw hacc⟩
  · rcases callback_mem h he with he | he
    · cases he with
      | touched ha hl => exact absurd (accesses_live hw hq hs ha) hl
      | freed hdis hu =>
        obtain ⟨rfl, _⟩ := hw.user _ _ hu
        rw [if_pos ((hs _).opened hu (EventLemmas.disconnects_open hdis))]
        rfl
      | _ => rfl
    · exact hi.faults e he

theorem main (hi : SessionInv σ) (h : MainStep env σ a σ') : SessionInv σ' := by
  obtain ⟨l, hq, hs⟩ := hi.sessions
  refine ⟨?_, fun e he => ?_⟩
  · rcases hq.main h with ⟨hidle, hq'⟩ | ⟨s₀, l', hl, hpc, rfl, hq'⟩
    · exact ⟨l, hq', fun s => (hs s).main h hidle.pc⟩
    · exact ⟨l', hq', fun s => (hs s).unlink hpc hl hq.represents.nodup⟩
  · rcases main_mem h he with he | he
    · cases he with
      | touched ha hl =>
        refine absurd ((hs _).held ?_) hl
        refine ha.imp_right fun ⟨hpc, hhead⟩ => ?_
        obtain ⟨s', l', rfl, _, _⟩ := hq.unlink hpc
        rw [hq.represents.chain.1] at hhead
        cases hhead
        exact List.mem_cons_self
      | freed hpc hc =>
        rw [if_pos ((hs _).held (.inl (by rw [hpc]; rfl)))]
        rfl
      | _ => rfl
    · exact hi.faults e he

end SessionInv

/-- While `on_disconnected` decides right and no queued session sends an AUTH_REQ, sessions
are neither used nor freed after their free, nor lost. -/
theorem sessionsSafe_run {acts : List Action}
    (hP : RunMeets env (fun σ a => NotWaiting σ a ∧ DecidesRight σ a) acts)
    (h : serverRun env acts = some σ) : SessionsSafe σ := by
  have hi : SessionInv σ := run_induction .init (fun _ _ _ hw _ hi hp hs =>
    (step_cases hs).elim (hi.callback hw hp.1 hp.2) hi.main) hP h
  have hw := (run_wf h).1
  obtain ⟨l, hq, hs⟩ := hi.sessions
  refine ⟨fun s he => Bool.noConfusion (hi.faults _ he), fun s he => Bool.noConfusion (hi.faults _ he),
    fun s hm => (hs s).held (.inr (hq.waiting_eq ▸ hm)), fun c s hp hu hm hpend => ?_⟩
  obtain ⟨rfl, ha⟩ := hw.user c s hu
  rw [hq.waiting_eq] at hm
  rcases (hs s).left hu hp with hf | hc
  · exact hf
  · -- a session that is not freed still has its check ahead
    cases hl : σ.life s with
    | unallocated => exact absurd hl ha
    | freed => rfl
    | live =>
      have hcheck := ((hs s).closing hl hc).2
      have : σ.pc.checks s = true := by
        by_contra h
        exact hm (hcheck.mpr (by simpa using h))
      exact absurd (checks_pending this) hpend

/-! ## 2. Concrete runs -/

/-- `abc` disconnects while its AUTH_REQ is queued; the worker frees the session. -/
def disconnectQueuedLogin : List Action :=
  greet 0 ++ [.received 0 abcReq, .streamClosed 0, .disconnected 0] ++ List.replicate 5 .worker

theorem sessionsSafe_disconnectQueuedLogin :
    ∃ σ, serverRun (.fair abcUsers) disconnectQueuedLogin = some σ ∧
      .freed 0 ∈ σ.trace ∧ SessionsSafe σ := by
  obtain ⟨σ, hr, hf⟩ := serverRun_reaches (.fair abcUsers) disconnectQueuedLogin
    (fun σ => .freed 0 ∈ σ.trace) (by decide +kernel)
  exact ⟨σ, hr, hf, sessionsSafe_run (by decide +kernel) hr⟩

/-- `abc` disconnects right behind the worker's store to `auth_queued`. -/
def disconnectBehindClear : List Action :=
  greet 0 ++ .received 0 abcReq :: List.replicate 4 .worker ++
    [.streamClosed 0, .disconnected 0, .worker]

theorem freed_under_worker : ∃ env acts σ, serverRun env acts = some σ ∧
    .useAfterFree 0 ∈ σ.trace ∧ ¬ SessionsSafe σ := by
  obtain ⟨σ, hr, hu⟩ := serverRun_reaches (.fair abcUsers) disconnectBehindClear
    (fun σ => .useAfterFree 0 ∈ σ.trace) (by decide +kernel)
  exact ⟨.fair abcUsers, disconnectBehindClear, σ, hr, hu, fun h => h.untouched 0 hu⟩

end SquimpChat
