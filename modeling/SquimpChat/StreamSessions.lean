import SquimpChat.LoginOrder
import Mathlib.Data.List.Induction

/-!
# The session of a stream

`on_stream_recv` passes the stream's user data to a handler, on both sides. The server sets it in
`on_stream_open` to the user data of the connection, which `on_connected` sets unless its
allocation fails. The client sets it in `main` behind `sqmp_stream_open`, and for no other stream:
it has no `on_stream_open`, and lets the peer open 16 streams.

Results:
1. `session_passed_iff`: a handler of the server gets a session exactly if `on_connected` has
   allocated it, one of the client exactly on the stream of `main` and behind its assignment.
2. `null_session`: a connection without a session, and a stream opened by the peer.
-/

namespace SquimpChat
open Octets Transition

/-! ## 1. The server -/

/-- The handler that `on_stream_recv` of the server calls, and the session it passes. -/
def handlerCall (σ : Server) (st : StreamId) (data : Bytes) : Option (MsgType × Option SessionId) :=
  match dispatch serverHandles data with
  | .ok (some t) => some (t, (σ.stream st).userData)
  | _ => none

/-- `on_connected` of the connection has run and its allocation has succeeded. -/
def SessionAllocated (env : Env) (acts : List Action) (c : ConnId) : Prop :=
  .connected c ∈ acts ∧ env.calloc c = true

namespace StreamSessionLemmas

variable {env : Env} {σ σ' : Server} {a : Action} {c : ConnId} {acts : List Action}

/-- A handler other than the empty one for ERROR has no session to work on. -/
theorem onStreamRecv_null {st : StreamId} {data : Bytes} {t : MsgType}
    (h : handlerCall σ st data = some (t, none)) (ht : t ≠ .error) :
    onStreamRecv env σ st data = .ok (σ.append [.nullSession]) := by
  unfold handlerCall at h
  split at h
  · next t' hd =>
    obtain ⟨ht', hs⟩ := Prod.mk.inj (Option.some.inj h)
    have handled : serverHandles t' = true := by
      unfold dispatch at hd
      split at hd
      · cases hd
      · obtain ⟨b, _, hd⟩ := bind_eq_ok.mp hd
        exact (Option.filter_eq_some_iff.mp (Except.ok.inj hd)).2
    rw [onStreamRecv, hd, ok_bind]
    cases t' with
    | error => exact absurd ht'.symm ht
    | hello | authReq | keyReq | chatSend | bye => simp only [withSession, hs]
    | _ => cases handled
  · cases h

/-- The user data of a connection is what `on_connected` leaves. -/
theorem step_userData (h : step env σ a = some σ') (hc : a ≠ .connected c) :
    (σ'.conn c).userData = (σ.conn c).userData := by
  rcases step_cases h with h | h
  · cases h with
    | connected | connectedNull =>
      exact congrArg Conn.userData (Function.update_of_ne (fun h => hc (by rw [h])) _ _)
    | @streamOpened c' st _ _ =>
      simp only [onStreamOpen, Function.update_apply]
      split
      · next h => rw [h]
      · rfl
    | disconnectLoad | disconnectNull | left | freed => exact OwnershipLemmas.setPhase_userData
    | _ => rfl
  · rw [LoginOrderLemmas.conn_main h]

theorem sessionAllocated_concat : SessionAllocated env (acts ++ [a]) c ↔
    SessionAllocated env acts c ∨ a = .connected c ∧ env.calloc c = true := by
  rw [SessionAllocated, List.mem_append, List.mem_singleton, or_and_right, eq_comm (a := a)]
  rfl

theorem userData_iff (hr : serverRun env acts = some σ) :
    (σ.conn c).userData ≠ none ↔ SessionAllocated env acts c := by
  refine run_history (I := fun acts σ => (σ.conn c).userData ≠ none ↔ SessionAllocated env acts c)
    ?_ (fun acts τ a σ hτ ih hs => ?_) hr
  · exact iff_of_false (fun h => h rfl) fun h => List.not_mem_nil h.1
  · rw [sessionAllocated_concat, ← ih]
    by_cases hc : a = .connected c
    · subst hc
      obtain ⟨hp, hs⟩ := Option.ite_none_right_eq_some.mp hs
      cases hs
      have hnone := ((run_wf hτ).1.absent c hp).2.1
      unfold onConnected
      split
      · next hm => simp [hm]
      · next hm => simp [hm, hnone]
    · simp [step_userData hs hc, hc]

end StreamSessionLemmas

/-! ## 2. The client -/

/-- Where `main` is with its stream. -/
inductive AttachPc
  /-- in `sqmp_quic_connect` -/
  | connecting
  /-- the connection has its user data -/
  | connected
  /-- `sqmp_stream_open` has returned the stream -/
  | opened (st : StreamId)
  /-- behind `sqmp_stream_set_user_data` -/
  | attached (st : StreamId)
  /-- `sqmp_stream_open` has failed -/
  | failed
deriving DecidableEq, Repr

/-- The client's streams. User data is the address of `session` in `main`, or NULL. -/
structure ClientStreams where
  client : Client
  phase : ConnPhase
  connUserData : Bool
  life : StreamId → Lifetime
  userData : StreamId → Bool
  /-- the open streams of the peer -/
  peer : List StreamId
  pc : AttachPc

inductive ClientStreamAction
  | connected
  /-- `sqmp_conn_set_user_data` -/
  | connSetUserData
  /-- `sqmp_stream_open` -/
  | streamOpen (st : StreamId)
  | streamOpenFailed
  /-- `sqmp_stream_set_user_data` -/
  | setUserData
  /-- PEER_STREAM_STARTED, and whether `calloc` succeeds -/
  | peerStreamStarted (st : StreamId) (alloc : Bool)
  /-- RECEIVE -/
  | received (st : StreamId) (data : Bytes)
  /-- SHUTDOWN_COMPLETE of a stream -/
  | streamClosed (st : StreamId)
  /-- SHUTDOWN_COMPLETE of the connection -/
  | disconnected
deriving DecidableEq

/-- `PeerBidiStreamCount` -/
def peerBidiStreamCount : Nat := 16

namespace ClientStreams

/-- Before the connection. -/
def init : ClientStreams where
  client := .init
  phase := .absent
  connUserData := false
  life _ := .unallocated
  userData _ := false
  peer := []
  pc := .connecting

variable (env : ClientEnv) (k : ClientStreams)

def receivable (st : StreamId) : Bool := k.phase = .connected && k.life st = .live

/-- The handler that `on_stream_recv` of the client calls, and whether it gets a session. -/
def handlerCall (st : StreamId) (data : Bytes) : Option (MsgType × Bool) :=
  match dispatch Client.handles data with
  | .ok (some t) => some (t, k.userData st)
  | _ => none

/-- A stream is there, without user data. -/
def startStream (st : StreamId) : ClientStreams :=
  { k with
    life := Function.update k.life st .live
    userData := Function.update k.userData st false }

def step : ClientStreamAction → Option ClientStreams
  | .connected =>
    if k.phase = .absent then some { k with phase := .connected } else none
  | .connSetUserData =>
    if k.phase ≠ .absent ∧ k.pc = .connecting then
      some { k with connUserData := true, pc := .connected }
    else none
  | .streamOpen st =>
    if k.pc = .connected ∧ k.life st = .unallocated then
      some { k.startStream st with pc := .opened st }
    else none
  | .streamOpenFailed => if k.pc = .connected then some { k with pc := .failed } else none
  | .setUserData =>
    match k.pc with
    | .opened st =>
      some { k with userData := Function.update k.userData st true, pc := .attached st }
    | _ => none
  | .peerStreamStarted st alloc =>
    if k.phase = .connected ∧ k.life st = .unallocated ∧ k.peer.length < peerBidiStreamCount then
      -- the stream is closed when `calloc` fails; there is no `on_stream_open` to call
      some (if alloc then { k.startStream st with peer := st :: k.peer } else k)
    else none
  | .received st data =>
    if k.receivable st then
      -- a handler that gets NULL leaves nothing to go on with
      some (if k.userData st then { k with client := k.client.receive env data } else k)
    else none
  | .streamClosed st =>
    if k.receivable st then
      some { k with life := Function.update k.life st .freed, peer := k.peer.erase st }
    else none
  | .disconnected => if k.phase = .connected then some { k with phase := .closed } else none

end ClientStreams

namespace StreamSessionLemmas

variable {env : ClientEnv} {k k' : ClientStreams} {a : ClientStreamAction} {st : StreamId}
  {acts : List ClientStreamAction}

/-- Only the stream of `main` has user data, and only behind the assignment. -/
structure Attached (k : ClientStreams) (acts : List ClientStreamAction) : Prop where
  userData : ∀ st, k.userData st = true ↔ k.pc = .attached st
  opened : ∀ st, .streamOpen st ∈ acts ↔ k.pc = .opened st ∨ k.pc = .attached st
  attached : .setUserData ∈ acts ↔ ∃ st, k.pc = .attached st
  allocated : ∀ st, k.pc = .opened st ∨ k.pc = .attached st → k.life st ≠ .unallocated

/-- What the steps of MsQuic leave alone. -/
theorem attached_keep (hi : Attached k acts) (hu : k'.userData = k.userData) (hpc : k'.pc = k.pc)
    (hl : ∀ st, k.life st ≠ .unallocated → k'.life st ≠ .unallocated)
    (ho : ∀ st, a ≠ .streamOpen st) (hs : a ≠ .setUserData) : Attached k' (acts ++ [a]) where
  userData st := by rw [hu, hpc, hi.userData]
  opened st := by
    rw [hpc, ← hi.opened]
    simp [(ho st).symm]
  attached := by
    rw [hpc, ← hi.attached]
    simp [Ne.symm hs]
  allocated st h := by
    rw [hpc] at h
    exact hl st (hi.allocated st h)

/-- Ahead of its stream, `main` goes on. -/
theorem attached_early (hi : Attached k acts) (hu : k'.userData = k.userData)
    (hpc : ∀ st, k.pc ≠ .opened st ∧ k.pc ≠ .attached st)
    (hpc' : ∀ st, k'.pc ≠ .opened st ∧ k'.pc ≠ .attached st)
    (ho : ∀ st, a ≠ .streamOpen st) (hs : a ≠ .setUserData) : Attached k' (acts ++ [a]) where
  userData st := by
    rw [hu, hi.userData]
    exact iff_of_false (hpc st).2 (hpc' st).2
  opened st := by
    have := (hi.opened st).not.mpr (not_or.mpr (hpc st))
    refine iff_of_false ?_ (not_or.mpr (hpc' st))
    simpa [(ho st).symm] using this
  attached := by
    have := hi.attached.not.mpr fun ⟨st, h⟩ => (hpc st).2 h
    refine iff_of_false ?_ fun ⟨st, h⟩ => (hpc' st).2 h
    simpa [Ne.symm hs] using this
  allocated st h := absurd h (not_or.mpr (hpc' st))

theorem attached_step (hi : Attached k acts) (h : k.step env a = some k') :
    Attached k' (acts ++ [a]) := by
  cases a with
  | connected | disconnected =>
    obtain ⟨_, h⟩ := Option.ite_none_right_eq_some.mp h
    cases h
    exact attached_keep hi rfl rfl (fun _ => id) nofun nofun
  | received st data =>
    obtain ⟨_, h⟩ := Option.ite_none_right_eq_some.mp h
    cases h
    split
    · exact attached_keep hi rfl rfl (fun _ => id) nofun nofun
    · exact attached_keep hi rfl rfl (fun _ => id) nofun nofun
  | streamClosed st =>
    obtain ⟨_, h⟩ := Option.ite_none_right_eq_some.mp h
    cases h
    refine attached_keep hi rfl rfl (fun st' h => ?_) nofun nofun
    simp only [Function.update_apply]
    split
    · nofun
    · exact h
  | peerStreamStarted st alloc =>
    obtain ⟨⟨_, hl, _⟩, h⟩ := Option.ite_none_right_eq_some.mp h
    cases h
    split
    · -- a new stream is not that of `main`
      refine ⟨fun st' => ?_, fun st' => ?_, ?_, fun st' h => ?_⟩
      · simp only [ClientStreams.startStream, Function.update_apply, ← hi.userData]
        split
        · next heq =>
          refine iff_of_false nofun fun h => ?_
          exact hi.allocated st' (.inr ((hi.userData st').mp h)) (heq ▸ hl)
        · rfl
      · simpa [ClientStreams.startStream] using hi.opened st'
      · simpa [ClientStreams.startStream] using hi.attached
      · simp only [ClientStreams.startStream, Function.update_apply]
        split
        · nofun
        · exact hi.allocated st' h
    · exact attached_keep hi rfl rfl (fun _ => id) nofun nofun
  | connSetUserData =>
    obtain ⟨⟨_, hpc⟩, h⟩ := Option.ite_none_right_eq_some.mp h
    cases h
    exact attached_early hi rfl (by simp [hpc]) (by simp) nofun nofun
  | streamOpenFailed =>
    obtain ⟨hpc, h⟩ := Option.ite_none_right_eq_some.mp h
    cases h
    exact attached_early hi rfl (by simp [hpc]) (by simp) nofun nofun
  | streamOpen st =>
    obtain ⟨⟨hpc, hl⟩, h⟩ := Option.ite_none_right_eq_some.mp h
    cases h
    have hnone : ∀ st, k.userData st = false := fun st => by
      rw [← Bool.not_eq_true, hi.userData, hpc]
      nofun
    have hout : ∀ st, .streamOpen st ∉ acts := fun st h => by
      rw [hi.opened, hpc] at h
      rcases h with h | h <;> cases h
    have hset : .setUserData ∉ acts := fun h => by
      obtain ⟨st, h⟩ := hi.attached.mp h
      exact nomatch hpc.symm.trans h
    refine ⟨fun st' => ?_, fun st' => ?_, ?_, fun st' h => ?_⟩
    · simp [ClientStreams.startStream, Function.update_apply, hnone]
    · simp [hout st', eq_comm]
    · simp [hset]
    · simp only [AttachPc.opened.injEq, reduceCtorEq, or_false] at h
      simp [ClientStreams.startStream, h]
  | setUserData =>
    rw [ClientStreams.step] at h
    split at h
    · next st hpc =>
      cases h
      refine ⟨fun st' => ?_, fun st' => ?_, ?_, fun st' h => ?_⟩
      · show Function.update k.userData st true st' = true ↔ AttachPc.attached st = .attached st'
        rw [Function.update_apply, AttachPc.attached.injEq]
        split
        · next heq => simp [heq]
        · next hne =>
          rw [hi.userData, hpc]
          simp [Ne.symm hne]
      · have := hi.opened st'
        rw [hpc] at this
        simpa using this
      · simp
      · simp only [AttachPc.attached.injEq, reduceCtorEq, false_or] at h
        exact hi.allocated st' (.inl (h ▸ hpc))
    · cases h

theorem attached_init : Attached .init [] := by
  constructor <;> simp [ClientStreams.init]

theorem attached_run (hr : run (ClientStreams.step env) .init acts = some k) : Attached k acts :=
  run_history (I := fun acts k => Attached k acts) attached_init
    (fun _ _ _ _ _ hi hs => attached_step hi hs) hr

theorem handlerCall_session {σ : Server} {st : StreamId} {data : Bytes} {t : MsgType}
    {s : Option SessionId} (h : handlerCall σ st data = some (t, s)) :
    s = (σ.stream st).userData := by
  unfold handlerCall at h
  split at h
  · exact (Prod.mk.inj (Option.some.inj h)).2.symm
  · cases h

theorem clientCall_session {data : Bytes} {t : MsgType} {s : Bool}
    (h : k.handlerCall st data = some (t, s)) : s = k.userData st := by
  unfold ClientStreams.handlerCall at h
  split at h
  · exact (Prod.mk.inj (Option.some.inj h)).2.symm
  · cases h

end StreamSessionLemmas
open StreamSessionLemmas

/-! ## 3. Both sides -/

/-- A packet of a type that has a handler finds a session: on the server exactly if `on_connected`
has allocated one for the connection, on the client exactly on the stream that `main` has opened
and given its session. -/
theorem session_passed_iff (env : Env) (envC : ClientEnv) :
    (∀ acts σ st data t s, serverRun env acts = some σ → receivable σ st = true →
      handlerCall σ st data = some (t, s) →
        (s ≠ none ↔ SessionAllocated env acts (σ.stream st).conn)) ∧
    ∀ acts k st data t s, run (ClientStreams.step envC) .init acts = some k →
      k.receivable st = true → k.handlerCall st data = some (t, s) →
        (s = true ↔ .streamOpen st ∈ acts ∧ .setUserData ∈ acts) := by
  refine ⟨fun acts σ st data t s hr hrec hcall => ?_, fun acts k st data t s hr _ hcall => ?_⟩
  · obtain ⟨hl, _⟩ := OwnershipLemmas.receivable_iff.mp hrec
    rw [handlerCall_session hcall, ((run_wf hr).1.opened st (by rw [hl]; nofun)).2, userData_iff hr]
  · have hi := attached_run hr
    rw [clientCall_session hcall, hi.userData, hi.opened, hi.attached]
    constructor
    · exact fun h => ⟨.inr h, st, h⟩
    · rintro ⟨h | h, st', h'⟩
      · exact nomatch h.symm.trans h'
      · exact h

/-- A client that has opened its stream. -/
def ownStream : List ClientStreamAction :=
  [.connected, .connSetUserData, .streamOpen 0, .setUserData]

/-- A connection with memory for its session, and the stream of `main`. -/
theorem session_passed : (∃ σ, serverRun (.fair none) (greet 0) = some σ ∧
      SessionAllocated (.fair none) (greet 0) 0) ∧
    ∃ k, run (ClientStreams.step (.fair .failing)) .init ownStream = some k ∧
      ∀ data t s, k.handlerCall 0 data = some (t, s) → s = true := by
  have h := session_passed_iff (.fair none) (.fair .failing)
  constructor
  · obtain ⟨σ, hr, hrec, hcall, hc⟩ : ∃ σ, serverRun (.fair none) (greet 0) = some σ ∧
        receivable σ 0 = true ∧ handlerCall σ 0 byeBytes = some (.bye, some 0) ∧
        (σ.stream 0).conn = 0 := ⟨_, rfl, rfl, rfl, rfl⟩
    have halloc := (h.1 _ σ 0 _ _ _ hr hrec hcall).mp nofun
    rw [hc] at halloc
    exact ⟨σ, hr, halloc⟩
  · obtain ⟨k, hr, hrec⟩ : ∃ k, run (ClientStreams.step (.fair .failing)) .init ownStream = some k ∧
        k.receivable 0 = true := ⟨_, rfl, rfl⟩
    exact ⟨k, hr, fun data t s hcall => (h.2 _ k 0 data t s hr hrec hcall).mpr (by decide)⟩

/-- A handler of the server without a session, since there was no memory for it, and one of the
client, since the peer has opened the stream. -/
theorem null_session : (∃ env acts σ, serverRun env acts = some σ ∧ receivable σ 0 = true ∧
      handlerCall σ 0 helloBytes = some (.hello, none) ∧
      onStreamRecv env σ 0 helloBytes = .ok (σ.append [.nullSession])) ∧
    ∃ env acts k, run (ClientStreams.step env) .init acts = some k ∧ k.receivable 1 = true ∧
      k.handlerCall 1 (Packet.mk 0 (.helloAck ⟨1, 0⟩)).bytes = some (.helloAck, false) := by
  refine ⟨⟨{ Env.fair none with calloc := fun _ => false }, [.connected 0, .streamOpened 0 0], _,
    rfl, rfl, rfl, onStreamRecv_null rfl nofun⟩, ?_⟩
  exact ⟨.fair .failing, ownStream ++ [.peerStreamStarted 1 true], _, rfl, rfl, rfl⟩

end SquimpChat
