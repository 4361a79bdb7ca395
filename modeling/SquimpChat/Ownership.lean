import SquimpChat.Events

/-!
# Connections, streams and sessions

Which stream belongs to which connection and which session to both never changes
while the objects live. `Wf` says so, together with what MsQuic's order of events
gives: a connection that is shutting down has no open stream, and a handler that
is suspended holds its stream open. It holds in every reachable state, whatever the
clients do.

Results:
1. `Wf.live_connected`: an open stream's connection is connected.
2. `step_wf`, `run_wf`: every reachable state is well formed.
-/

namespace SquimpChat
open Octets

variable {env : Env} {σ σ' : Server} {a : Action}

structure Wf (σ : Server) : Prop where
  absent : ∀ c, (σ.conn c).phase = .absent →
    σ.life c = .unallocated ∧ (σ.conn c).userData = none ∧ (σ.conn c).streams = []
  user : ∀ c s, (σ.conn c).userData = some s → s = c ∧ σ.life s ≠ .unallocated
  opened : ∀ st, (σ.stream st).life ≠ .unallocated →
    st ∈ (σ.conn (σ.stream st).conn).streams ∧
    (σ.stream st).userData = (σ.conn (σ.stream st).conn).userData
  unopened : ∀ st, (σ.stream st).life = .unallocated → (σ.stream st).userData = none
  listed : ∀ c, ∀ st ∈ (σ.conn c).streams,
    (σ.stream st).life ≠ .unallocated ∧ (σ.stream st).conn = c
  shut : ∀ c, (σ.conn c).phase ≠ .connected → ∀ st ∈ (σ.conn c).streams,
    (σ.stream st).life ≠ .live
  chat : ∀ p ∈ σ.chats, (σ.stream p.stream).life = .live ∧
    p.conn = (σ.stream p.stream).conn ∧ (σ.stream p.stream).userData = some p.session
  authStream : ∀ s st, (σ.session s).authStream = some st →
    (σ.stream st).life = .live ∧ (σ.stream st).userData = some s

/-- The worker holds the session or the auth queue leads to it. -/
def Refers (σ : Server) (s : SessionId) : Prop := σ.pc.pending = some s ∨ σ.queue.Mentions s

/-- The queue and the worker refer to allocated or freed sessions, not to unused ids. -/
def Known (σ : Server) : Prop := ∀ s, Refers σ s → σ.life s ≠ .unallocated

/-! ## 1. Reading the guards -/

namespace OwnershipLemmas

variable {c c' : ConnId} {st : StreamId} {p : ConnPhase}

theorem isLive_iff : σ.isLive st = true ↔ (σ.stream st).life = .live := by
  simp [Server.isLive]

theorem streamsClosed_iff :
    streamsClosed σ c = true ↔ ∀ st ∈ (σ.conn c).streams, (σ.stream st).life ≠ .live := by
  simp [streamsClosed, Server.isLive]

theorem callbackFree_iff :
    callbackFree σ c = true ↔ (σ.conn c).phase = .connected ∧ ∀ p ∈ σ.chats, p.conn ≠ c := by
  simp [callbackFree]

theorem receivable_iff : receivable σ st = true ↔
    (σ.stream st).life = .live ∧ (σ.conn (σ.stream st).conn).phase = .connected ∧
      ∀ p ∈ σ.chats, p.conn ≠ (σ.stream st).conn := by
  rw [receivable, Bool.and_eq_true, isLive_iff, callbackFree_iff]

/-- An accepted AUTH_REQ is a RECEIVE on a stream of its session. -/
theorem authReqOn_some {s : SessionId} {data : Bytes} (h : authReqOn σ a = some (s, data)) :
    ∃ st, a = .received st data ∧ (σ.stream st).userData = some s ∧
      (σ.session s).state = .auth := by
  unfold authReqOn at h
  split at h
  · next st d =>
    split at h
    · obtain ⟨s', hs, he⟩ := Option.map_eq_some_iff.mp h
      cases he
      obtain ⟨hs, hst⟩ := Option.filter_eq_some_iff.mp hs
      exact ⟨st, rfl, hs, by simpa using hst⟩
    · cases h
  · cases h

theorem pending_of_isEnding {pc : WorkerPc} (h : pc.isEnding = true) : pc.pending = none := by
  cases pc <;> first | rfl | exact absurd h Bool.false_ne_true

theorem setPhase_userData : ((setPhase σ c p).conn c').userData = (σ.conn c').userData := by
  rw [setPhase_conn, Function.update_apply]
  split <;> simp_all

theorem setPhase_streams : ((setPhase σ c p).conn c').streams = (σ.conn c').streams := by
  rw [setPhase_conn, Function.update_apply]
  split <;> simp_all

theorem setPhase_phase_self : ((setPhase σ c p).conn c).phase = p := by
  rw [setPhase_conn, Function.update_self]

theorem setPhase_phase_of_ne (h : c' ≠ c) :
    ((setPhase σ c p).conn c').phase = (σ.conn c').phase := by
  rw [setPhase_conn, Function.update_of_ne h]

end OwnershipLemmas
open OwnershipLemmas

namespace Wf

variable {c : ConnId} {st : StreamId} {s : SessionId}

/-- The session of a stream is that of its connection. -/
theorem stream_user (hw : Wf σ) (hs : (σ.stream st).userData = some s) :
    s = (σ.stream st).conn ∧ (σ.conn s).userData = some s ∧ σ.life s ≠ .unallocated := by
  have hl : (σ.stream st).life ≠ .unallocated := fun h => by
    rw [hw.unopened st h] at hs
    cases hs
  rw [(hw.opened st hl).2] at hs
  obtain ⟨rfl, ha⟩ := hw.user _ _ hs
  exact ⟨rfl, hs, ha⟩

/-- An open stream's connection is connected. -/
theorem live_connected (hw : Wf σ) (h : (σ.stream st).life = .live) :
    (σ.conn (σ.stream st).conn).phase = .connected := by
  by_contra hp
  exact hw.shut _ hp st (hw.opened st (by rw [h]; nofun)).1 h

/-- A callback answers on open streams. -/
theorem own_live (hw : Wf σ) (h : OwnStream σ st) : (σ.stream st).life = .live := by
  rcases h with h | ⟨p, hp, rfl⟩
  · exact (receivable_iff.mp h).1
  · exact (hw.chat p hp).1

/-! ## 2. Every reachable state -/

theorem init : Wf .init where
  absent _ _ := ⟨rfl, rfl, rfl⟩
  user _ _ h := nomatch h
  opened _ h := absurd rfl h
  unopened _ _ := rfl
  listed _ _ h := nomatch h
  shut _ _ _ h := nomatch h
  chat _ h := nomatch h
  authStream _ _ h := nomatch h

/-- A step that opens and closes no stream and no connection. -/
theorem congr (hw : Wf σ)
    (hauth : ∀ s, (σ'.session s).authStream = (σ.session s).authStream)
    (hlife : ∀ s, σ'.life s = .unallocated ↔ σ.life s = .unallocated)
    (hstream : σ'.stream = σ.stream) (hconn : σ'.conn = σ.conn)
    (hchats : ∀ p ∈ σ'.chats, p ∈ σ.chats ∨ (σ.stream p.stream).life = .live ∧
      p.conn = (σ.stream p.stream).conn ∧ (σ.stream p.stream).userData = some p.session) :
    Wf σ' := by
  obtain ⟨absent, user, opened, unopened, listed, shut, chat, authStream⟩ := hw
  refine ⟨?_, ?_, ?_, ?_, ?_, ?_, ?_, ?_⟩
  · simpa only [hconn, hlife] using absent
  · simpa only [hconn, ne_eq, hlife] using user
  · simpa only [hconn, hstream] using opened
  · simpa only [hstream] using unopened
  · simpa only [hconn, hstream] using listed
  · simpa only [hconn, hstream] using shut
  · simpa only [hstream] using fun p hp => (hchats p hp).elim (chat p) id
  · simpa only [hauth, hstream] using authStream

theorem append (hw : Wf σ) (es : List Event) : Wf (σ.append es) :=
  hw.congr (fun _ => rfl) (fun _ => Iff.rfl) rfl rfl fun _ h => .inl h

/-- `on_disconnected` moves its connection on. -/
theorem setPhase (hw : Wf σ) {p : ConnPhase} (hp : p ≠ .absent)
    (hcl : ∀ st ∈ (σ.conn c).streams, (σ.stream st).life ≠ .live) : Wf (setPhase σ c p) where
  absent c' h := by
    rw [setPhase_userData, setPhase_streams]
    rcases eq_or_ne c' c with rfl | hne
    · rw [setPhase_phase_self] at h
      exact absurd h hp
    · rw [setPhase_phase_of_ne hne] at h
      exact hw.absent c' h
  user c' s h := by
    rw [setPhase_userData] at h
    exact hw.user c' s h
  opened st h := by
    rw [setPhase_userData, setPhase_streams]
    exact hw.opened st h
  unopened := hw.unopened
  listed c' st h := by
    rw [setPhase_streams] at h
    exact hw.listed c' st h
  shut c' h := by
    rw [setPhase_streams]
    rcases eq_or_ne c' c with rfl | hne
    · exact hcl
    · rw [setPhase_phase_of_ne hne] at h
      exact hw.shut c' h
  chat := hw.chat
  authStream := hw.authStream

/-- A connection begins, without streams, and perhaps with a new session. -/
theorem connect (hw : Wf σ) (hp : (σ.conn c).phase = .absent) {session : SessionId → Session}
    {life : SessionId → Lifetime} {o : Option SessionId} (hlife : ∀ s, s ≠ c → life s = σ.life s)
    (ho : ∀ s, o = some s → s = c ∧ life s ≠ .unallocated)
    (hauth : ∀ s st, (session s).authStream = some st → (σ.session s).authStream = some st) :
    Wf { σ with session, life, conn := Function.update σ.conn c ⟨.connected, o, []⟩ } where
  absent c' h := by
    rcases eq_or_ne c' c with rfl | hne
    · simp at h
    · simp only [Function.update_of_ne hne, hlife c' hne] at h ⊢
      exact hw.absent c' h
  user c' s h := by
    rcases eq_or_ne c' c with rfl | hne
    · simp only [Function.update_self] at h
      exact ho s h
    · simp only [Function.update_of_ne hne] at h
      obtain ⟨rfl, ha⟩ := hw.user c' s h
      exact ⟨rfl, by simpa only [hlife s hne] using ha⟩
  opened st h := by
    obtain ⟨hm, hu⟩ := hw.opened st h
    have hne : (σ.stream st).conn ≠ c := fun heq => by
      rw [heq, (hw.absent c hp).2.2] at hm
      cases hm
    simpa only [Function.update_of_ne hne] using ⟨hm, hu⟩
  unopened := hw.unopened
  listed c' st h := by
    rcases eq_or_ne c' c with rfl | hne
    · simp at h
    · simp only [Function.update_of_ne hne] at h
      exact hw.listed c' st h
  shut c' h := by
    rcases eq_or_ne c' c with rfl | hne
    · simp at h
    · simp only [Function.update_of_ne hne] at h ⊢
      exact hw.shut c' h
  chat := hw.chat
  authStream s st h := hw.authStream s st (hauth s st h)

/-- The peer starts a stream of a connection. -/
theorem openStream (hw : Wf σ) (hc : (σ.conn c).phase = .connected)
    (hst : (σ.stream st).life = .unallocated) : Wf (onStreamOpen σ c st) := by
  have hlisted : ∀ c', ∀ st' ∈ (σ.conn c').streams, st' ≠ st := by
    rintro c' st' h rfl
    exact (hw.listed c' st' h).1 hst
  have hlive : ∀ st', (σ.stream st').life = .live → st' ≠ st := by
    rintro st' h rfl
    rw [hst] at h
    cases h
  unfold onStreamOpen
  constructor
  case absent =>
    intro c' h
    rcases eq_or_ne c' c with rfl | hne
    · simp [hc] at h
    · simp only [Function.update_of_ne hne] at h ⊢
      exact hw.absent c' h
  case user =>
    intro c' s h
    rcases eq_or_ne c' c with rfl | hne
    · simp only [Function.update_self] at h
      exact hw.user c' s h
    · simp only [Function.update_of_ne hne] at h
      exact hw.user c' s h
  case opened =>
    intro st' h
    rcases eq_or_ne st' st with rfl | hne
    · simp
    · simp only [Function.update_of_ne hne] at h ⊢
      obtain ⟨hm, hu⟩ := hw.opened st' h
      rcases eq_or_ne (σ.stream st').conn c with heq | hne'
      · rw [heq] at hm hu ⊢
        simpa only [Function.update_self] using ⟨List.mem_cons_of_mem _ hm, hu⟩
      · simpa only [Function.update_of_ne hne'] using ⟨hm, hu⟩
  case unopened =>
    intro st' h
    rcases eq_or_ne st' st with rfl | hne
    · simp at h
    · simp only [Function.update_of_ne hne] at h ⊢
      exact hw.unopened st' h
  case listed =>
    intro c' st' h
    rcases eq_or_ne st' st with rfl | hne
    · rcases eq_or_ne c' c with rfl | hne'
      · simp
      · simp only [Function.update_of_ne hne'] at h
        exact absurd rfl (hlisted c' _ h)
    · simp only [Function.update_of_ne hne]
      rcases eq_or_ne c' c with rfl | hne'
      · simp only [Function.update_self] at h
        exact hw.listed c' st' ((List.mem_cons.mp h).resolve_left hne)
      · simp only [Function.update_of_ne hne'] at h
        exact hw.listed c' st' h
  case shut =>
    intro c' h st' hm
    rcases eq_or_ne c' c with rfl | hne
    · simp [hc] at h
    · simp only [Function.update_of_ne hne] at h hm
      simpa only [Function.update_of_ne (hlisted c' st' hm)] using hw.shut c' h st' hm
  case chat =>
    intro p hp
    have h := hw.chat p hp
    simpa only [Function.update_of_ne (hlive _ h.1)] using h
  case authStream =>
    intro s st' h
    have h := hw.authStream s st' h
    simpa only [Function.update_of_ne (hlive _ h.1)] using h

/-- A stream is closed; no session keeps it as its `auth_stream`. -/
theorem closeStream (hw : Wf σ) (hr : receivable σ st = true) {session : SessionId → Session}
    (hauth : ∀ s st', (session s).authStream = some st' →
      (σ.session s).authStream = some st' ∧ st' ≠ st) :
    Wf { σ with
      session
      stream := Function.update σ.stream st { σ.stream st with life := .freed } } := by
  obtain ⟨hl, _, hchats⟩ := receivable_iff.mp hr
  constructor
  case absent => exact hw.absent
  case user => exact hw.user
  case opened =>
    intro st' h
    rcases eq_or_ne st' st with rfl | hne
    · simpa only [Function.update_self] using hw.opened st' (by rw [hl]; nofun)
    · simp only [Function.update_of_ne hne] at h ⊢
      exact hw.opened st' h
  case unopened =>
    intro st' h
    rcases eq_or_ne st' st with rfl | hne
    · simp at h
    · simp only [Function.update_of_ne hne] at h ⊢
      exact hw.unopened st' h
  case listed =>
    intro c' st' h
    rcases eq_or_ne st' st with rfl | hne
    · simpa using (hw.listed c' st' h).2
    · simpa only [Function.update_of_ne hne] using hw.listed c' st' h
  case shut =>
    intro c' h st' hm
    rcases eq_or_ne st' st with rfl | hne
    · simp
    · simpa only [Function.update_of_ne hne] using hw.shut c' h st' hm
  case chat =>
    intro p hp
    have h := hw.chat p hp
    have hne : p.stream ≠ st := fun heq => hchats p hp (heq ▸ h.2.1)
    simpa only [Function.update_of_ne hne] using h
  case authStream =>
    intro s st' h
    obtain ⟨h, hne⟩ := hauth s st' h
    simpa only [Function.update_of_ne hne] using hw.authStream s st' h

/-- The decision of `on_disconnected` is made once the streams are closed. -/
theorem disconnects_closed (hw : Wf σ) {q : Bool} (h : Disconnects σ a c q) :
    ∀ st ∈ (σ.conn c).streams, (σ.stream st).life ≠ .live := by
  rcases h with ⟨_, _, hcl, _⟩ | ⟨_, hp⟩
  · exact streamsClosed_iff.mp hcl
  · exact hw.shut c (by rw [hp]; nofun)

/-- A change of one session that keeps its `auth_stream`. -/
theorem modify (hw : Wf σ) {f : Session → Session} (hf : ∀ x, (f x).authStream = x.authStream) :
    Wf (σ.modify s f) := by
  refine hw.congr (fun s' => ?_) (fun _ => Iff.rfl) rfl rfl fun _ h => .inl h
  simp only [Server.modify, Function.update_apply]
  split
  · next heq => rw [hf, heq]
  · rfl

theorem stage (hw : Wf σ) (hl : (σ.stream st).life = .live)
    (hs : (σ.stream st).userData = some s) (f : AuthFields) : Wf (σ.modify s (·.stage f st)) where
  absent := hw.absent
  user := hw.user
  opened := hw.opened
  unopened := hw.unopened
  listed := hw.listed
  shut := hw.shut
  chat := hw.chat
  authStream s' st' h := by
    rcases eq_or_ne s' s with rfl | hne
    · simp only [Server.modify_session, Function.update_self, Session.stage,
        Option.some.injEq] at h
      exact h ▸ ⟨hl, hs⟩
    · simp only [Server.modify_session, Function.update_of_ne hne] at h
      exact hw.authStream s' st' h

theorem free (hw : Wf σ) (hs : (σ.conn c).userData = some s) : Wf (σ.free s) := by
  refine hw.congr (fun _ => rfl) (fun s' => ?_) rfl rfl fun _ h => .inl h
  simp only [Server.free, Function.update_apply]
  split
  · next heq => simp [heq, (hw.user _ _ hs).2]
  · rfl

theorem callback (hw : Wf σ) (h : CallbackStep env σ a σ') : Wf σ' := by
  cases h with
  | connected hp =>
    refine hw.connect hp (fun s hne => Function.update_of_ne hne _ _) (fun s h => ?_)
      fun s st h => ?_
    · cases h
      simp
    · rw [Function.update_apply] at h
      split at h
      · cases h
      · exact h
  | connectedNull hp => exact hw.connect hp (fun _ _ => rfl) (by simp) fun _ _ h => h
  | streamOpened hc hst => exact hw.openStream (callbackFree_iff.mp hc).1 hst
  | ignored ha hes => exact hw.append _
  | answered ha hs hes => exact hw.append _
  | @hello st s data ok hr hs hst hok =>
    have h := hw.modify (s := s)
      (f := fun x => { x with sessionId := σ.nextSessionId, state := .auth }) fun _ => rfl
    exact h.congr (fun _ => rfl) (fun _ => Iff.rfl) rfl rfl fun _ h => .inl h
  | @authReq st s data f es hr hs hst hon hf hes =>
    have h := hw.stage (receivable_iff.mp hr).1 hs f
    exact h.congr (fun _ => rfl) (fun _ => Iff.rfl) rfl rfl fun _ h => .inl h
  | @bye st s data hr hs hst =>
    have h := hw.modify (s := s) (f := fun x => { x with state := .closing }) fun _ => rfl
    exact h.congr (fun _ => rfl) (fun _ => Iff.rfl) rfl rfl fun _ h => .inl h
  | @chatLookup st r s data hr hs hst he =>
    refine hw.congr (fun _ => rfl) (fun _ => Iff.rfl) rfl rfl fun p hp => ?_
    rcases List.mem_cons.mp hp with rfl | hp
    · exact .inr ⟨(receivable_iff.mp hr).1, rfl, hs⟩
    · exact .inl hp
  | chatForward hp hes =>
    exact hw.congr (fun _ => rfl) (fun _ => Iff.rfl) rfl rfl fun _ h =>
      .inl (List.mem_filter.mp h).1
  | @streamClosed st s hr hs =>
    have hauth : ∀ s' st', (Function.update σ.session s
        { σ.session s with authStream := none } s').authStream = some st' →
        (σ.session s').authStream = some st' ∧ st' ≠ st := by
      intro s' st' h
      rcases eq_or_ne s' s with rfl | hne
      · simp at h
      · rw [Function.update_of_ne hne] at h
        refine ⟨h, ?_⟩
        rintro rfl
        rw [(hw.authStream s' st' h).2] at hs
        exact hne (Option.some.inj hs)
    exact (hw.closeStream hr hauth).congr (fun _ => rfl) (fun _ => Iff.rfl) rfl rfl
      fun _ h => .inl h
  | @streamClosedNull st hr hs =>
    refine hw.closeStream hr fun s' st' h => ⟨h, ?_⟩
    rintro rfl
    rw [(hw.authStream s' st' h).2] at hs
    cases hs
  | disconnectLoad hc hcl hq hes =>
    exact (hw.append _).setPhase (by nofun) (streamsClosed_iff.mp hcl)
  | disconnectNull h hs => exact hw.setPhase (by nofun) (hw.disconnects_closed h)
  | @left a c s es h hs hes =>
    have hm := hw.modify (s := s) (f := fun x => { x with connClosed := true }) fun _ => rfl
    refine setPhase ?_ (by nofun) (hw.disconnects_closed h)
    exact hm.congr (fun _ => rfl) (fun _ => Iff.rfl) rfl rfl fun _ h => .inl h
  | @freed a c s es h hs hes =>
    refine setPhase ?_ (by nofun) (hw.disconnects_closed h)
    exact (hw.free hs).congr (fun _ => rfl) (fun _ => Iff.rfl) rfl rfl fun _ h => .inl h

/-- The main thread opens and closes nothing; it frees sessions it has dequeued. -/
theorem main (hw : Wf σ) (hk : Known σ) (h : MainStep env σ a σ') : Wf σ' := by
  cases h
  case clear s hpc =>
    have h := hw.modify (s := s) (f := fun x => { x with authQueued := false }) fun _ => rfl
    exact h.congr (fun _ => rfl) (fun _ => Iff.rfl) rfl rfl fun _ h => .inl h
  case establish s hpc =>
    have h := hw.modify (s := s) (f := .establish) fun _ => rfl
    exact h.congr (fun _ => rfl) (fun _ => Iff.rfl) rfl rfl fun _ h => .inl h
  case checkClosed s hpc hc =>
    have hl : σ.life s ≠ .unallocated := hk s (.inl (by rw [hpc]; rfl))
    refine hw.congr (fun _ => rfl) (fun s' => ?_) rfl rfl fun _ h => .inl h
    simp only [Server.free, Server.append, Function.update_apply]
    split
    · next heq => simp [heq, hl]
    · rfl
  all_goals exact hw.congr (fun _ => rfl) (fun _ => Iff.rfl) rfl rfl fun _ h => .inl h

end Wf

/-! ## 3. What the worker and the queue refer to -/

/-- Only an accepted AUTH_REQ makes the queue lead to another session. -/
theorem refers_callback {s : SessionId} (h : CallbackStep env σ a σ') (hr : Refers σ' s) :
    Refers σ s ∨ ∃ data, authReqOn σ a = some (s, data) := by
  cases h with
  | authReq hr' hs hst hon hf hes =>
    rcases hr with hr | hr
    · exact .inl (.inl hr)
    · rcases Intrusive.mentions_enqueue hr with rfl | hr
      · exact .inr ⟨_, hon⟩
      · exact .inl (.inr hr)
  | _ => exact .inl hr

/-- The main thread takes its session from the queue. -/
theorem pending_main {s : SessionId} (h : MainStep env σ a σ') (hp : σ'.pc.pending = some s) :
    σ.pc.pending = some s ∨ σ.queue.dequeue.1 = some s := by
  cases h
  case unlink s' hpc hq =>
    cases Option.some.inj hp
    exact .inr hq
  case test hpc =>
    have hnone : (loopTest σ).pending = none := loopTest_cases _ rfl rfl
    cases hnone.symm.trans hp
  case unlinkNull hpc hq =>
    dsimp only at hp
    split at hp <;> cases hp
  case verify s' ok hpc hok =>
    refine .inl ?_
    rw [hpc]
    dsimp only at hp
    split at hp <;> exact hp
  case ending es pc hpc hpc' hes => cases (pending_of_isEnding hpc').symm.trans hp
  case signal => exact .inl hp
  all_goals first | cases hp; done | exact .inl (by rw [‹σ.pc = _›]; exact hp)

theorem queue_main (h : MainStep env σ a σ') :
    σ'.queue = σ.queue ∨ σ'.queue = σ.queue.dequeue.2 := by
  cases h
  case unlink => exact .inr rfl
  all_goals exact .inl rfl

theorem refers_main {s : SessionId} (h : MainStep env σ a σ') (hr : Refers σ' s) :
    Refers σ s := by
  rcases hr with hr | hr
  · exact (pending_main h hr).imp_right Intrusive.mentions_dequeued
  · refine .inr ?_
    rcases queue_main h with hq | hq <;> rw [hq] at hr
    · exact hr
    · exact Intrusive.mentions_dequeue hr

/-- A session's storage is allocated once. -/
theorem life_callback {s : SessionId} (h : CallbackStep env σ a σ')
    (hl : σ.life s ≠ .unallocated) : σ'.life s ≠ .unallocated := by
  have hupdate : ∀ s' l, l ≠ Lifetime.unallocated →
      Function.update σ.life s' l s ≠ .unallocated := by
    intro s' l h
    rw [Function.update_apply]
    split
    · exact h
    · exact hl
  cases h with
  | connected hp => exact hupdate _ _ (by nofun)
  | freed h hs hes => exact hupdate _ _ (by nofun)
  | _ => exact hl

theorem life_main {s : SessionId} (h : MainStep env σ a σ') (hl : σ.life s ≠ .unallocated) :
    σ'.life s ≠ .unallocated := by
  cases h
  case checkClosed s' hpc hc =>
    simp only [Server.free, Server.append, Function.update_apply]
    split
    · simp
    · exact hl
  all_goals exact hl

/-- Well-formedness and `Known` go through the run together. -/
theorem step_wf (h : step env σ a = some σ') (hw : Wf σ) (hk : Known σ) : Wf σ' ∧ Known σ' := by
  rcases step_cases h with h | h
  · refine ⟨hw.callback h, fun s hr => life_callback h ?_⟩
    rcases refers_callback h hr with hr | ⟨data, hon⟩
    · exact hk s hr
    · obtain ⟨st, _, hs, _⟩ := authReqOn_some hon
      exact (hw.stream_user hs).2.2
  · exact ⟨hw.main hk h, fun s hr => life_main h (hk s (refers_main h hr))⟩

theorem known_init : Known .init := by
  rintro s (h | h)
  · cases h
  · exact absurd h Intrusive.not_mentions_empty

/-- Every reachable state is well formed. -/
theorem run_wf {acts : List Action} (h : serverRun env acts = some σ) : Wf σ ∧ Known σ :=
  Transition.run_always (I := fun σ => Wf σ ∧ Known σ)
    (fun _ _ _ hi h => step_wf h hi.1 hi.2) ⟨.init, known_init⟩ h

/-- The invariant rule for runs of the server: the step may use that the state is
well formed. -/
theorem run_induction {P : Server → Action → Prop} {I : Server → Prop} (hinit : I .init)
    (hstep : ∀ σ a σ', Wf σ → Known σ → I σ → P σ a → step env σ a = some σ' → I σ')
    {acts : List Action} (hP : RunMeets env P acts) (h : serverRun env acts = some σ) : I σ := by
  refine (Transition.run_invariant (I := fun σ => (Wf σ ∧ Known σ) ∧ I σ) ?_
    ⟨⟨.init, known_init⟩, hinit⟩ hP h).2
  rintro σ a σ' ⟨⟨hw, hk⟩, hi⟩ hp hs
  exact ⟨step_wf hs hw hk, hstep σ a σ' hw hk hi hp hs⟩

end SquimpChat
