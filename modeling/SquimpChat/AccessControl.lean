import SquimpChat.Logins

/-!
# Access control

KEY_REQ and CHAT_SEND are served in state CONN_ESTABLISHED, and only the worker puts a session
into it, behind `verify_credentials` and `sqmp_registry_add`. Whatever a client sends
before, it sees HELLO_ACK, ERROR and BYE packets on its own stream, and neither the registry nor
any other session changes.

Results:
1. `received_harmless`: a packet of a session that is not established.
2. `established_admitted`: an established session was admitted by an iteration.
3. `access_control`: keys and messages go out only for admitted sessions.
-/

namespace SquimpChat
open Octets Transition StepLemmas AtomicLemmas

variable {env : Env} {σ σ' : Server} {a : Action} {acts : List Action}

/-- What an unauthenticated peer may be sent. -/
def MsgType.isPublic : MsgType → Bool
  | helloAck | error | bye => true
  | _ => false

/-- The messages that carry a user's key or text. -/
def MsgType.isPrivate : MsgType → Bool
  | keyResp | chatDeliver => true
  | _ => false

/-- Packets are handled only for live sessions. -/
def ForLive (σ : Server) : Action → Prop
  | .received st _ => ∀ s ∈ (σ.stream st).userData, σ.life s = .live
  | _ => True

instance : Decidable (ForLive σ a) := by
  cases a <;> unfold ForLive <;> infer_instance

/-- The registry and the other sessions are as they were, and all that is sent goes to `st`
and is public. -/
structure Harmless (st : StreamId) (s : SessionId) (σ σ' : Server) : Prop where
  registry : σ'.registry = σ.registry
  others : ∀ t, t ≠ s → σ'.session t = σ.session t
  sent : ∃ es, σ'.trace = es ++ σ.trace ∧
    ∀ q ∈ sentIn es, q.1 = st ∧ q.2.msg.type.isPublic = true

/-- The next iteration dequeues the session, `verify_credentials` returns 1 for it and
`sqmp_registry_add` returns 0. -/
structure Admits (env : Env) (s : SessionId) (σ : Server) (a : Action) : Prop where
  worker : a = .worker
  iteration : σ.pc = .semWait ∧ σ.queueSem ≠ 0
  dequeued : σ.queue.dequeue.1 = some s
  verified : verifyCredentials env.users env.uninit (workerUsername (σ.session s))
    (σ.session s).authPasswordHash = true
  added : (sqmpRegistryAdd σ.registry (σ.session s).authUsername (σ.session s).authUsernameLen
    (σ.session s).authStream (σ.session s).authPubkey).isSome = true

/-- The step is a packet of the session, on this stream. -/
def PacketOf (σ : Server) (a : Action) (st : StreamId) (s : SessionId) : Prop :=
  (σ.stream st).userData = some s ∧ ∃ data, a = .received st data

/-! ## 1. Packets of sessions that are not established -/

namespace AccessControlLemmas

variable {st : StreamId} {s : SessionId} {data : Bytes} {es : List Event}

theorem sentIn_touched : sentIn (σ.touched s) = [] := by
  unfold Server.touched
  split <;> rfl

theorem asSent_touched {e : Event} (h : e ∈ σ.touched s) : e.asSent = none := by
  obtain ⟨_, rfl⟩ := mem_touched.mp h
  rfl

theorem harmless_append (hes : sentIn es = []) : Harmless st s σ (σ.append es) :=
  ⟨rfl, fun _ _ => rfl, es, rfl, by simp [hes]⟩

theorem harmless_touched : Harmless st s σ (σ.append (σ.touched s)) :=
  harmless_append sentIn_touched

theorem harmless_send {p : Packet} (hp : p.msg.type.isPublic = true) :
    Harmless st s σ (sqmpStreamSend env σ st p) :=
  ⟨rfl, fun _ _ => rfl, [sentEvent env σ st p], rfl, by simp [sentIn, sentEvent, Event.asSent, hp]⟩

theorem harmless_error {code : ErrorCode} {desc : String} :
    Harmless st s σ (sqmpSendError env σ st s code desc) := harmless_send rfl

theorem harmless_trans {τ : Server} (h : Harmless st s σ τ)
    (h' : Harmless st s τ σ') : Harmless st s σ σ' := by
  obtain ⟨hr, ho, es, htr, hes⟩ := h
  obtain ⟨hr', ho', es', htr', hes'⟩ := h'
  refine ⟨hr'.trans hr, fun t hne => (ho' t hne).trans (ho t hne), es' ++ es, ?_, fun q hq => ?_⟩
  · rw [htr', htr, List.append_assoc]
  · rw [sentIn_append] at hq
    exact (List.mem_append.mp hq).elim (hes' q) (hes q)

theorem sqmpProcessHello_harmless {τ : Server} (h : sqmpProcessHello env σ st s data = .ok τ) :
    Harmless st s σ τ := by
  unfold sqmpProcessHello at h
  dsimp only at h
  split at h
  · cases h
    exact harmless_trans harmless_touched harmless_error
  · obtain ⟨num, _, h⟩ := bind_eq_ok.mp h
    obtain ⟨found, _, h⟩ := bind_eq_ok.mp h
    split at h
    · cases h
      rw [acceptHello_eq]
      refine ⟨rfl, fun t hne => Function.update_of_ne hne _ _, _ :: σ.touched s, rfl, ?_⟩
      show ∀ q ∈ _ :: sentIn (σ.touched s), _
      rw [sentIn_touched]
      exact List.forall_mem_singleton.mpr ⟨rfl, rfl⟩
    · cases h
      have hbye : Harmless st s (sqmpSendError env (σ.append (σ.touched s)) st s .versionMismatch
          "no supported protocol version") (sqmpSendBye env _ st s) := harmless_send rfl
      exact harmless_trans harmless_touched (harmless_trans harmless_error hbye)

theorem sqmpProcessAuthReq_harmless {τ : Server} (h : sqmpProcessAuthReq env σ st s data = .ok τ) :
    Harmless st s σ τ := by
  unfold sqmpProcessAuthReq at h
  dsimp only at h
  split at h
  · cases h
    exact harmless_trans harmless_touched harmless_error
  · obtain ⟨f, _, h⟩ := bind_eq_ok.mp h
    cases h
    obtain ⟨es, hes, he⟩ := acceptAuthReq_eq σ st s f
    rw [he]
    refine ⟨rfl, fun t hne => Function.update_of_ne hne _ _, _, rfl, ?_⟩
    have hnone : sentIn es = [] := List.filterMap_eq_nil_iff.mpr fun e he => by
      obtain ⟨t, _, he⟩ := hes e he
      exact asSent_touched he
    show ∀ q ∈ sentIn (es ++ _), _
    rw [sentIn_append, hnone]
    show ∀ q ∈ sentIn (σ.touched s), _
    rw [sentIn_touched]
    exact List.forall_mem_nil _

/-- Every handler is guarded by the state, `on_stream_recv` itself sends nothing. -/
theorem onStreamRecv_harmless {τ : Server} (hs : (σ.stream st).userData = some s)
    (hst : (σ.session s).state ≠ .connEstablished) (h : onStreamRecv env σ st data = .ok τ) :
    Harmless st s σ τ := by
  obtain ⟨o, ho⟩ := dispatch_ok serverHandles data
  simp only [onStreamRecv, ho, ok_bind, withSession, hs] at h
  split at h
  · exact sqmpProcessHello_harmless h
  · exact sqmpProcessAuthReq_harmless h
  · simp only [sqmpProcessKeyReq, Server.append_session, ne_eq, hst, not_false_eq_true,
      if_true] at h
    cases h
    exact harmless_trans harmless_touched harmless_error
  · simp only [sqmpProcessChatSend, chatSendHead, Server.append_session, ne_eq, hst,
      not_false_eq_true, if_true] at h
    cases h
    exact harmless_trans harmless_touched harmless_error
  · simp only [sqmpProcessBye, Server.append_session, hst, if_false] at h
    cases h
    exact harmless_touched
  · cases h
    exact ⟨rfl, fun _ _ => rfl, [], rfl, List.forall_mem_nil _⟩

end AccessControlLemmas
open AccessControlLemmas

/-- A packet of a session that is not established. -/
theorem received_harmless {st : StreamId} {s : SessionId} {data : Bytes}
    (hs : (σ.stream st).userData = some s) (hst : (σ.session s).state ≠ .connEstablished)
    (h : atomicStep env σ (.received st data) = some σ') : Harmless st s σ σ' := by
  obtain ⟨_, h⟩ := Option.ite_none_right_eq_some.mp h
  cases h
  rw [hs]
  cases hr : onStreamRecv env σ st data with
  | ok τ => exact onStreamRecv_harmless hs hst hr
  | error e =>
    refine harmless_append ?_
    exact sentIn_touched

/-! ## 2. Established sessions -/

/-- The session takes over its staged name in an iteration that admits it. -/
structure Admitted (env : Env) (s : SessionId) (σ : Server) (a : Action) (σ' : Server) : Prop where
  admits : Admits env s σ a
  name : (σ'.session s).name = (σ.session s).authName
  verified : .verified s (cString (σ.session s).authName.2) (σ.session s).authPasswordHash true ∈
    σ'.trace
  registered : .registered s (σ.session s).authName (σ.session s).authStream
    (σ.session s).authPubkey ∈ σ'.trace

/-- An established session was established under its name before, or it is admitted. -/
theorem established_step {s : SessionId} (hb : Between σ) (h : atomicStep env σ a = some σ')
    (hst : (σ'.session s).state = .connEstablished) :
    ((σ.session s).state = .connEstablished ∧ (σ'.session s).name = (σ.session s).name) ∨
      Admitted env s σ a σ' := by
  -- the session is as it was, or moves to another state
  have moved : ∀ {t x},
      (∀ s, (σ'.session s).detached = (Function.update σ.session t x s).detached) →
      (x.state = .connEstablished → (σ.session t).state = .connEstablished ∧
        x.name = (σ.session t).name) →
      (σ.session s).state = .connEstablished ∧ (σ'.session s).name = (σ.session s).name := by
    intro t x hsession hx
    have hst' : (Function.update σ.session t x s).state = .connEstablished :=
      (congrArg Session.state (hsession s)).symm.trans hst
    have hname : (σ'.session s).name = (Function.update σ.session t x s).name := by
      have heq := congrArg Session.name (hsession s)
      exact heq
    rcases eq_or_ne s t with rfl | hne
    · rw [Function.update_self] at hst' hname
      exact ⟨(hx hst').1, hname.trans (hx hst').2⟩
    · rw [Function.update_of_ne hne] at hst' hname
      exact ⟨hst', hname⟩
  cases login_cases hb h with
  | change h =>
    refine .inl ?_
    cases h with
    | kept h | freed ha ho hq h =>
      rw [h.state] at hst
      exact ⟨hst, h.name s⟩
    | left ha ho hq h => exact moved h.session fun hx => ⟨hx, rfl⟩
    | connected hl h => exact moved h.session (by simp [Session.fresh])
    | hello ho hst h | bye hon ho hst h => exact moved h.session (by simp)
  | @authReq t f ho hauth h =>
    obtain ⟨st, es, _, _, _, rfl⟩ := h.state
    exact .inl (moved (fun _ => rfl) (by simp [Session.stage, hauth]))
  | iteration ha hpc hsem h =>
    cases h with
    | empty hq => exact .inl ⟨hst, rfl⟩
    | closed hq hc hes | refused hq hc hn hes =>
      exact .inl (moved (fun _ => rfl) fun hx => ⟨hx, rfl⟩)
    | @admitted t r es b hq hc hadd hes =>
      obtain ⟨hver, hadd⟩ := Option.ite_none_right_eq_some.mp hadd
      rcases eq_or_ne s t with rfl | hne
      · have hmem : ∀ e ∈ admittedEvents σ s ++ verifiedEvents σ s true, e ∈ es ++ σ.trace := by
          intro e he
          have he' : e ∈ visible es := by
            rw [hes, List.append_assoc, List.append_assoc]
            refine List.mem_append_right _ ?_
            rw [← List.append_assoc]
            exact List.mem_append_left _ he
          exact List.mem_append_left _ (List.mem_filter.mp he').1
        refine .inr ⟨⟨ha, ⟨hpc, hsem⟩, hq, hver, by rw [hadd]; rfl⟩, ?_, ?_, ?_⟩
        · simp only [iterated, Function.update_self]
          exact AuthSoundnessLemmas.establish_name _
        · exact hmem _ (by simp [verifiedEvents, workerUsername, Session.authName, countedName])
        · exact hmem _ (by simp [admittedEvents])
      · refine .inl ⟨?_, ?_⟩
        · simp only [iterated, Function.update_of_ne hne] at hst
          exact hst
        · simp only [iterated, Function.update_of_ne hne]

/-- An established session was admitted by an earlier iteration. -/
theorem established_admitted {s : SessionId} (h : atomicRun env acts = some σ)
    (hst : (σ.session s).state = .connEstablished) :
    Sometime (atomicStep env) (Admits env s) .init acts := by
  have hsince := run_since (I := Between) (P := Admits env s)
    (Q := fun σ => (σ.session s).state = .connEstablished) (fun _ _ _ => Between.step)
    (fun _ _ _ hb hs hst => (established_step hb hs hst).imp And.left Admitted.admits) .init h hst
  exact hsince.resolve_left (by simp [Server.init, Session.fresh])

/-! ## 3. Keys and messages -/

namespace AccessControlLemmas

variable {es : List Event}

theorem mem_sentIn {q : StreamId × Packet} :
    q ∈ sentIn es ↔ ∃ l ok, .sent q.1 q.2 l ok ∈ es := by
  simp only [sentIn, List.mem_filterMap]
  constructor
  · rintro ⟨e, he, hq⟩
    cases e <;> cases hq
    exact ⟨_, _, he⟩
  · rintro ⟨l, ok, he⟩
    exact ⟨_, he, rfl⟩

/-- An iteration sends an AUTH_RESP at most. -/
theorem iteration_public (h : Iteration env σ σ') (htr : σ'.trace = es ++ σ.trace) :
    ∀ q ∈ sentIn es, q.2.msg.type.isPrivate = false := by
  have response : ∀ {s ok b}, ∀ q ∈ sentIn (response σ s ok b), q.2.msg.type.isPrivate = false := by
    intro s ok b q hq
    cases hst : (σ.session s).authStream with
    | none => simp [SquimpChat.response, hst, sentIn] at hq
    | some st =>
      simp only [SquimpChat.response, hst, Option.map_some, Option.toList_some, sentIn,
        List.filterMap_cons, Event.asSent, List.filterMap_nil, List.mem_singleton] at hq
      rw [hq]
      rfl
  have visible : ∀ {es' vs}, σ'.trace = es' ++ σ.trace → visible es' = vs →
      (∀ q ∈ sentIn vs, q.2.msg.type.isPrivate = false) →
        ∀ q ∈ sentIn es, q.2.msg.type.isPrivate = false := by
    intro es' vs htr' hvs h
    rw [List.append_cancel_right (htr.symm.trans htr'), ← sentIn_visible, hvs]
    exact h
  cases h with
  | empty hq => exact visible rfl rfl (List.forall_mem_nil _)
  | closed hq hc hes =>
    refine visible rfl hes ?_
    split <;> exact List.forall_mem_nil _
  | refused hq hc hn hes =>
    refine visible rfl hes ?_
    rw [List.append_assoc, sentIn_append, show sentIn (verifiedEvents σ _ _ ++ _) = [] from rfl,
      List.append_nil]
    exact response
  | admitted hq hc hr hes =>
    refine visible rfl hes ?_
    rw [List.append_assoc, List.append_assoc, sentIn_append,
      show sentIn (admittedEvents σ _ ++ _) = [] from rfl, List.append_nil]
    exact response

/-- Private messages answer a packet. -/
theorem private_packet (hrest : Rested σ) (h : atomicStep env σ a = some σ')
    (htr : σ'.trace = es ++ σ.trace) {q : StreamId × Packet} (hq : q ∈ sentIn es)
    (hp : q.2.msg.type.isPrivate = true) : ∃ st s, PacketOf σ a st s := by
  have silent : ∀ {es'}, (∀ e ∈ es', e.asSent = none) → σ'.trace = es' ++ σ.trace → False := by
    intro es' hes' htr'
    rw [List.append_cancel_right (htr.symm.trans htr'), sentIn,
      List.filterMap_eq_nil_iff.mpr hes'] at hq
    cases hq
  cases atomic_cases hrest h with
  | callback ha h =>
    cases h with
    | @answered a st s es ha' hs hes =>
      obtain ⟨⟨data, rfl | rfl⟩, _⟩ := ha'
      · exact ⟨st, s, hs, data, rfl⟩
      · cases ha
    | @hello st s | @authReq st s | @bye st s => exact ⟨st, s, ‹_›, _, rfl⟩
    | chatLookup | chatForward | disconnectLoad => cases ha
    | ignored ha' hes => exact (silent (fun e he => by rw [hes e he]; rfl) rfl).elim
    | streamClosed hr hs => exact (silent (fun e he => asSent_touched he) rfl).elim
    | left hd hs hes => exact (silent (fun e he => asSent_touched (hes e he)) rfl).elim
    | freed hd hs hes =>
      refine (silent (List.forall_mem_cons.mpr
        ⟨?_, fun e he => asSent_touched (hes e he)⟩) rfl).elim
      split <;> rfl
    | _ => exact (silent (List.forall_mem_nil _) rfl).elim
  | iteration hpc hsem h =>
    rw [iteration_public h htr q hq] at hp
    cases hp
  | rest h =>
    cases h with
    | ending hpc hpc' hes =>
      obtain ⟨l, ok, he⟩ := mem_sentIn.mp hq
      rw [List.append_cancel_right htr.symm] at he
      obtain ⟨st, _, ⟨ok', he⟩ | he⟩ := hes _ he
      · simp only [Event.sent.injEq] at he
        rw [he.2.1] at hp
        cases hp
      · cases he
    | _ => exact (silent (List.forall_mem_nil _) rfl).elim

end AccessControlLemmas

theorem access_control
    (hP : AtomicMeets env (fun σ a => ShortName σ a ∧ ForLive σ a) acts)
    (h : atomicRun env acts = some σ) (hs : atomicStep env σ a = some σ') :
    (∀ es, σ'.trace = es ++ σ.trace → ∀ q ∈ sentIn es, q.2.msg.type.isPrivate = true →
      ∃ st s, PacketOf σ a st s ∧ Sometime (atomicStep env) (Admits env s) .init acts) ∧
    ∀ st s, PacketOf σ a st s → (σ.session s).state ≠ .connEstablished →
      Harmless st s σ σ' := by
  have hb : Between σ :=
    (atomic_induction (I := fun _ => True) trivial (fun _ _ _ _ _ _ _ => trivial) hP h).1
  have harmless : ∀ st s, PacketOf σ a st s → (σ.session s).state ≠ .connEstablished →
      Harmless st s σ σ' := by
    rintro st s ⟨hu, data, rfl⟩ hst
    exact received_harmless hu hst hs
  refine ⟨fun es htr q hq hp => ?_, harmless⟩
  obtain ⟨st, s, hpkt⟩ := private_packet hb.rested hs htr hq hp
  refine ⟨st, s, hpkt, established_admitted h ?_⟩
  -- a session that is not established would have been answered publicly
  by_contra hst
  obtain ⟨es', htr', hpub⟩ := (harmless st s hpkt hst).sent
  rw [List.append_cancel_right (htr.symm.trans htr')] at hq
  have hpub := (hpub q hq).2
  revert hp hpub
  cases q.2.msg.type <;> simp [MsgType.isPrivate, MsgType.isPublic]

/-! ## 4. A concrete run -/

/-- `abc` sends itself an empty message. -/
def abcChat : Action := .received 0 (emptyChat [97, 98, 99] 0)

theorem access_control_abcChat : ∃ σ σ' es q, atomicRun (.fair abcUsers) abcSession = some σ ∧
    atomicStep (.fair abcUsers) σ abcChat = some σ' ∧ σ'.trace = es ++ σ.trace ∧ q ∈ sentIn es ∧
    q.2.msg.type = .chatDeliver ∧ ∃ st s, PacketOf σ abcChat st s ∧
      Sometime (atomicStep (.fair abcUsers)) (Admits (.fair abcUsers) s) .init abcSession := by
  obtain ⟨σ, hr, hstep⟩ := atomicRun_reaches (.fair abcUsers) abcSession
    (fun σ => ((atomicStep (.fair abcUsers) σ abcChat).any fun σ' =>
      σ'.trace.drop 2 = σ.trace ∧
        ∃ q ∈ sentIn (σ'.trace.take 2), q.2.msg.type = .chatDeliver) = true)
    (by decide +kernel)
  obtain ⟨σ', hs, hev⟩ := (Option.any_eq_true _ _).mp hstep
  obtain ⟨htr, q, hq, ht⟩ := of_decide_eq_true hev
  have htr : σ'.trace = σ'.trace.take 2 ++ σ.trace := by rw [← htr, List.take_append_drop]
  have hac := access_control (by decide +kernel) hr hs
  exact ⟨σ, σ', _, q, hr, hs, htr, hq, ht, hac.1 _ htr q hq (by rw [ht]; rfl)⟩

end SquimpChat
