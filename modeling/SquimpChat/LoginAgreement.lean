import SquimpChat.ByeExchange
import SquimpChat.CompletePackets

/-!
# Agreement on a login

What the two ends of one connection know about each other. `Exchange` runs the client's program
and the server side by side, from the connection on; all the server's other clients may do what
they like, and both programs may be stopped at any point.

The argument goes along the connection. The client sends one AUTH_REQ, and it does so behind the
HELLO_ACK (`client_conforms`). So the server accepts one AUTH_REQ on the session, `LoginOf` follows
it through the auth queue and the worker, and the AUTH_RESP comes from its end.

Results:
1. `login_agreement`: a client that takes itself to be greeted or logged in is right, and the server
   has it under the name, the stream and the key it has sent.
-/

namespace SquimpChat
open Octets Transition Lossless RelayLemmas SessionIdLemmas

/-! ## 1. What the sides agree on -/

/-- The client has its connection, and no packet is sent yet. -/
structure AtConnect (env : Env) (st : StreamId) (s : SessionId) (w : Exchange) : Prop where
  reachable : ∃ acts, serverRun env acts = some w.server
  user : (w.server.stream st).userData = some s
  only : ∀ st', (w.server.stream st').userData = some s → st' = st
  state : (w.server.session s).state = .hello
  client : w.client = .init
  up : w.up = .empty
  down : w.down = .empty

/-- `main` of the client opens one stream. -/
def OneStream (s : SessionId) (_ : Exchange) : ExchangeAction → Prop
  | .server (.streamOpened c _) => c ≠ s
  | _ => True

instance {s : SessionId} {w : Exchange} : ∀ a, Decidable (OneStream s w a)
  | .server (.streamOpened c _) => inferInstanceAs (Decidable (c ≠ s))
  | .server (.connected _) | .server (.received ..) | .server (.chatLookup ..)
  | .server (.chatForward _) | .server (.streamClosed _) | .server (.disconnected _)
  | .server (.disconnectLoad _) | .server (.disconnectRest _) | .server .worker
  | .server .interrupted | .server .signal | .client _ | .toServer _ | .toClient => .isTrue trivial

/-- The packet asks for the login of the client's session, with this hash. -/
def AsksLogin (x : Session) (hash : Buf 32) (p : Packet) : Prop :=
  ∃ field, p.msg = .authReq ⟨x.usernameLen, field, hash, 32, x.clientPubkey.bytes⟩ ∧
    countedName x.usernameLen field = x.name ∧ x.usernameLen.toNat ≤ 32

/-- The login of the client has come to its end on the server. -/
structure LoginAgreed (st : StreamId) (s : SessionId) (w : Exchange) : Prop where
  state : (w.server.session s).state = .connEstablished ∨ (w.server.session s).state = .closing
  name : (w.server.session s).name = w.client.client.session.name
  registered : .registered s w.client.client.session.name (some st)
    w.client.client.session.clientPubkey ∈ w.server.trace
  /-- by the hash of an AUTH_REQ the client has sent -/
  verified : ∃ hash, (∃ p ∈ w.client.client.attempts, AsksLogin w.client.client.session hash p) ∧
    .verified s (cString w.client.client.session.name.2) hash true ∈ w.server.trace

/-- What the client takes for granted holds on the server. -/
structure Agrees (st : StreamId) (s : SessionId) (w : Exchange) : Prop where
  greeted : w.client.client.session.state ≠ .hello → (w.server.session s).state ≠ .hello ∧
    w.client.client.session.sessionId = (w.server.session s).sessionId
  accepted : w.client.client.session.state = .connEstablished → LoginAgreed st s w

/-! ## 2. The session on the server -/

/-- No login of the session is under way, and none has been. -/
structure Unlogged (σ : Server) (s : SessionId) : Prop where
  state : (σ.session s).state = .hello ∨ (σ.session s).state = .auth
  served : ¬ Serves σ s

/-- `verify_credentials` has accepted the name with the hash. -/
def Checked (σ : Server) (s : SessionId) (name : Key) (hash : Buf 32) : Prop :=
  .verified s (cString name.2) hash true ∈ σ.trace

/-- The session was added to the registry under the name, with the stream it has now. -/
def RegisteredAs (σ : Server) (st : StreamId) (s : SessionId) (name : Key) (key : Buf 32) : Prop :=
  ∃ o, .registered s name o key ∈ σ.trace ∧
    ((σ.session s).authStream = some st → o = some st)

/-- The session is established, or has been. -/
def Session.Past (x : Session) : Prop := x.state = .connEstablished ∨ x.state = .closing

/-- What the worker knows of the session at each place of its loop. -/
def LoginAt (st : StreamId) (s : SessionId) (name : Key) (hash key : Buf 32) (σ : Server) :
    WorkerPc → Prop
  | .verified t => t = s → Checked σ s name hash
  | .loaded t o => t = s → Checked σ s name hash ∧
    ((σ.session s).authStream = some st → o = some st)
  | .added t => t = s → Checked σ s name hash ∧ RegisteredAs σ st s name key
  | .decided t true => t = s → Checked σ s name hash ∧ RegisteredAs σ st s name key ∧
    (σ.session s).Past
  | .responding t st' true => t = s → Checked σ s name hash ∧
    (st' = st → .registered s name (some st) key ∈ σ.trace) ∧ (σ.session s).Past
  | _ => True

/-- How far the one AUTH_REQ of the session has come. -/
structure LoginOf (st : StreamId) (s : SessionId) (name : Key) (hash key : Buf 32) (σ : Server) :
    Prop where
  staged : (σ.session s).staged = (name, hash)
  pubkey : (σ.session s).authPubkey = key
  greeted : (σ.session s).state ≠ .hello
  named : (σ.session s).Past → (σ.session s).name = name
  worker : LoginAt st s name hash key σ σ.pc

/-- What a callback leaves of a login. -/
structure LoginFrame (x x' : Session) : Prop where
  staged : x'.staged = x.staged
  pubkey : x'.authPubkey = x.authPubkey
  name : x'.name = x.name
  state : x'.state = x.state ∨ x.state = .connEstablished ∧ x'.state = .closing
  stream : ∀ st, x'.authStream = some st → x.authStream = some st

/-- What a callback can do to the login of a session. -/
inductive LoginChange (σ σ' : Server) (a : Action) (s : SessionId) : Prop
  | kept (h : LoginFrame (σ.session s) (σ'.session s)) (hq : Serves σ' s → Serves σ s)
  | greeted (hst : (σ.session s).state = .hello) (hst' : (σ'.session s).state = .auth)
      (hq : Serves σ' s → Serves σ s)
  | asked {data : Bytes} {f : AuthFields} {st : StreamId}
      (hon : authReqOn σ a = some (s, data)) (hf : readAuthReq data = .ok f)
      (hu : (σ.stream st).userData = some s) (h : σ'.session s = (σ.session s).stage f st)

namespace LoginAgreementLemmas

section Server

variable {env : Env} {σ σ' : Server} {a : Action} {st : StreamId} {s : SessionId} {name : Key}
  {hash key : Buf 32}

theorem loginFrame_refl (x : Session) : LoginFrame x x :=
  ⟨rfl, rfl, rfl, .inl rfl, fun _ => id⟩

theorem loginFrame_update {t : SessionId} {x : Session}
    (h : t = s → LoginFrame (σ.session s) x) :
    LoginFrame (σ.session s) (Function.update σ.session t x s) := by
  rw [Function.update_apply]
  split
  · next heq => exact h heq.symm
  · exact loginFrame_refl _

theorem login_change (hw : Wf σ) (hu : (σ.stream st).userData = some s)
    (h : CallbackStep env σ a σ') : LoginChange σ σ' a s := by
  cases h with
  | @connected c hp =>
    refine .kept (loginFrame_update fun heq => ?_) id
    exact absurd (hw.absent c hp).1 (heq ▸ (hw.stream_user hu).2.2)
  | @hello _ t _ _ _ hs hst =>
    rcases eq_or_ne s t with rfl | hne
    · exact .greeted hst (by simp) id
    · refine .kept (loginFrame_update fun heq => absurd heq.symm hne) id
  | @authReq st' t data f es hr hs hst hon hf hes =>
    rcases eq_or_ne s t with rfl | hne
    · exact .asked hon hf hs (by simp [acceptedState])
    · refine .kept (loginFrame_update fun heq => absurd heq.symm hne) fun hq => ?_
      exact hq.imp_right fun hq => (Intrusive.reaches_enqueue hq).resolve_left hne
  | @bye _ t _ _ hs hst =>
    refine .kept (loginFrame_update fun heq => ?_) id
    subst heq
    exact ⟨rfl, rfl, rfl, .inr ⟨hst, rfl⟩, fun _ => id⟩
  | streamClosed =>
    refine .kept (loginFrame_update fun heq => ?_) id
    subst heq
    exact ⟨rfl, rfl, rfl, .inl rfl, fun _ h => by cases h⟩
  | left =>
    refine .kept (loginFrame_update fun heq => ?_) id
    subst heq
    exact ⟨rfl, rfl, rfl, .inl rfl, fun _ => id⟩
  | _ => exact .kept (loginFrame_refl _) id

theorem frame_past {x x' : Session} (h : LoginFrame x x') (hx : x.Past) : x'.Past := by
  rcases h.state with hst | ⟨_, hst⟩
  · rwa [Session.Past, hst]
  · exact .inr hst

theorem frame_past_before {x x' : Session} (h : LoginFrame x x') (hx : x'.Past) : x.Past := by
  rcases h.state with hst | ⟨hst, _⟩
  · rwa [Session.Past, hst] at hx
  · exact .inl hst

theorem frame_greeted {x x' : Session} (h : LoginFrame x x') (hx : x.state ≠ .hello) :
    x'.state ≠ .hello := by
  rcases h.state with hst | ⟨_, hst⟩ <;> rw [hst]
  · exact hx
  · nofun

/-- What the worker knows stays true while it does not move. -/
theorem loginAt_mono {pc : WorkerPc} (hmem : ∀ e ∈ σ.trace, e ∈ σ'.trace)
    (hf : LoginFrame (σ.session s) (σ'.session s)) (h : LoginAt st s name hash key σ pc) :
    LoginAt st s name hash key σ' pc := by
  have hreg : RegisteredAs σ st s name key → RegisteredAs σ' st s name key := fun ⟨o, ho, hst⟩ =>
    ⟨o, hmem _ ho, fun h => hst (hf.stream _ h)⟩
  unfold LoginAt at h ⊢
  split
  · exact fun ht => hmem _ (h ht)
  · exact fun ht => (h ht).imp (hmem _) fun h hst => h (hf.stream _ hst)
  · exact fun ht => (h ht).imp (hmem _) hreg
  · exact fun ht => (h ht).imp (hmem _) fun h => h.imp hreg (frame_past hf)
  · exact fun ht => (h ht).imp (hmem _) fun h => h.imp (fun h hst => hmem _ (h hst)) (frame_past hf)
  · trivial

/-- The session keeps what it has staged; the worker's place is given separately. -/
theorem loginOf_frame (hl : LoginOf st s name hash key σ)
    (hf : LoginFrame (σ.session s) (σ'.session s))
    (hw : LoginAt st s name hash key σ' σ'.pc) : LoginOf st s name hash key σ' :=
  ⟨hf.staged.trans hl.staged, hf.pubkey.trans hl.pubkey, frame_greeted hf hl.greeted,
    fun hs => hf.name.trans (hl.named (frame_past_before hf hs)), hw⟩

theorem loginOf_callback (hl : LoginOf st s name hash key σ) (h : CallbackStep env σ a σ')
    (hf : LoginFrame (σ.session s) (σ'.session s)) : LoginOf st s name hash key σ' := by
  obtain ⟨es, htr, _⟩ := callback_events h
  refine loginOf_frame hl hf (loginAt_mono (fun e he => ?_) hf (callback_pc h ▸ hl.worker))
  rw [htr]
  exact List.mem_append_right _ he

theorem frame_main (h : MainStep env σ a σ') (hne : σ.pc ≠ .added s) :
    LoginFrame (σ.session s) (σ'.session s) := by
  cases h
  case clear t hpc =>
    refine loginFrame_update fun heq => ?_
    subst heq
    exact ⟨rfl, rfl, rfl, .inl rfl, fun _ => id⟩
  case establish t hpc =>
    refine loginFrame_update fun heq => ?_
    exact absurd (heq ▸ hpc) hne
  all_goals exact loginFrame_refl _

/-- The worker moves on by one place of the login, or it is elsewhere. -/
theorem loginOf_main (hl : LoginOf st s name hash key σ) (h : MainStep env σ a σ') :
    LoginOf st s name hash key σ' := by
  obtain ⟨hname, hhash⟩ := Prod.mk.inj hl.staged
  have hmem : ∀ e ∈ σ.trace, e ∈ σ'.trace := by
    obtain ⟨es, htr, _⟩ := main_events h
    exact fun e he => htr ▸ List.mem_append_right _ he
  have hworker := hl.worker
  by_cases hadded : σ.pc = .added s
  · cases h
    case establish t hpc =>
      obtain rfl : t = s := by rw [hadded] at hpc; cases hpc; rfl
      rw [hadded] at hworker
      obtain ⟨hv, o, ho, hst⟩ := hworker rfl
      have hpast : ((Function.update σ.session t (σ.session t).establish) t).Past := by
        rw [Function.update_self]
        exact .inl rfl
      refine ⟨?_, ?_, ?_, fun _ => ?_, fun _ => ⟨hmem _ hv, ⟨o, hmem _ ho, ?_⟩, hpast⟩⟩
      · simpa [Session.staged, Session.establish, Session.authName] using hl.staged
      · simpa [Session.establish] using hl.pubkey
      · simp [Session.establish]
      · simp [AuthSoundnessLemmas.establish_name, hname]
      · simpa [Session.establish] using hst
    case signal => exact loginOf_frame hl (loginFrame_refl _) (hadded ▸ hworker)
    case ending hpc _ _ =>
      rw [hadded] at hpc
      cases hpc
    all_goals
      rw [hadded] at *
      contradiction
  · have hf := frame_main h hadded
    refine loginOf_frame hl hf ?_
    cases h
    case verify t ok hpc hok =>
      cases ok with
      | false => trivial
      | true =>
        rintro rfl
        rw [Checked, ← hname, ← hhash]
        exact List.mem_cons_self
    case load t hpc =>
      rw [hpc] at hworker
      rintro rfl
      exact ⟨hmem _ (hworker rfl), id⟩
    case added t o r hpc hr =>
      rw [hpc] at hworker
      rintro rfl
      obtain ⟨hv, ho⟩ := hworker rfl
      refine ⟨hmem _ hv, o, ?_, ho⟩
      rw [← hname, ← hl.pubkey]
      exact List.mem_cons_self
    case stream t ok st' hpc hst =>
      rw [hpc] at hworker
      cases ok with
      | false => trivial
      | true =>
        rintro rfl
        obtain ⟨hv, ⟨o, ho, hauth⟩, hpast⟩ := hworker rfl
        refine ⟨hmem _ hv, fun heq => hmem _ ?_, hpast⟩
        rwa [← hauth (heq ▸ hst)]
    case signal => exact loginAt_mono hmem hf hworker
    case test =>
      refine loopTest_cases _ ?_ ?_ <;> trivial
    case unlinkNull =>
      dsimp only
      split <;> trivial
    case establish t hpc =>
      rintro rfl
      exact absurd hpc hadded
    case ending pc _ hpc' _ => cases pc <;> trivial
    all_goals trivial

end Server

end LoginAgreementLemmas

/-! ## 3. The client's requests -/

/-- Who the client says it is. -/
def Session.identity (x : Session) : UInt8 × Buf 32 × Buf 32 :=
  (x.usernameLen, x.username, x.clientPubkey)

/-- How many of HELLO and AUTH_REQ can have been sent. -/
def SendPhase.rank : SendPhase → Nat
  | start => 0
  | greeted => 1
  | loggingIn | asked _ => 2

def Packet.isHello (p : Packet) : Bool := p.msg.type = .hello

def Packet.isAuthReq (p : Packet) : Bool := p.msg.type = .authReq

namespace LoginAgreementLemmas

section Client

variable {cenv : ClientEnv} {c c' : Client} {m m' : ClientMain} {a : MainAction} {p : Packet}
  {hash : Buf 32}

/-- HELLO and AUTH_REQ lead on to the next rank, and no packet leads back. -/
theorem next_rank {q q' : SendPhase} (h : q.next p.msg = some q') :
    (p.isHello = true → q.rank = 0 ∧ q'.rank = 1) ∧
      (p.isAuthReq = true → q.rank = 1 ∧ q'.rank = 2) ∧ q.rank ≤ q'.rank := by
  obtain ⟨sid, msg⟩ := p
  cases msg with
  | chatSend m =>
    cases q with
    | asked name =>
      simp only [SendPhase.next, Option.ite_none_right_eq_some] at h
      obtain ⟨_, h⟩ := h
      cases h
      simp [Packet.isHello, Packet.isAuthReq, Msg.type, SendPhase.rank]
    | _ => cases h
  | _ =>
    cases q <;> cases h <;> simp [Packet.isHello, Packet.isAuthReq, Msg.type, SendPhase.rank]

/-- The order of packets has one HELLO and one AUTH_REQ. -/
theorem sendPhase_once {ps : List Packet} {q : SendPhase} (h : sendPhase ps = some q) :
    ps.countP Packet.isHello ≤ min 1 q.rank ∧
      ps.countP Packet.isAuthReq ≤ min 1 (q.rank - 1) := by
  induction ps using List.reverseRecOn generalizing q with
  | nil =>
    cases h
    exact ⟨Nat.le_refl 0, Nat.le_refl 0⟩
  | append_singleton ps p ih =>
    rw [sendPhase, List.foldlM_append] at h
    obtain ⟨q₀, h₀, h⟩ := Option.bind_eq_some_iff.mp h
    obtain ⟨hh, ha⟩ := ih h₀
    obtain ⟨q₁, hq, hq₁⟩ := Option.bind_eq_some_iff.mp h
    cases hq₁
    obtain ⟨hhello, hauth, hle⟩ := next_rank hq
    rw [List.countP_append, List.countP_append, List.countP_singleton, List.countP_singleton]
    constructor
    · split
      · next hp =>
        have := hhello hp
        omega
      · omega
    · split
      · next hp =>
        have := hauth hp
        omega
      · omega

theorem asksLogin_congr {x x' : Session} (hx : x'.identity = x.identity) :
    AsksLogin x' hash p ↔ AsksLogin x hash p := by
  simp only [Session.identity, Prod.mk.injEq] at hx
  obtain ⟨hlen, hname, hkey⟩ := hx
  simp only [AsksLogin, Session.name, hlen, hname, hkey]

theorem receive_identity {data : Bytes} :
    (c.receive cenv data).session.identity = c.session.identity := by
  unfold Client.receive
  split
  · next c' h =>
    obtain ⟨o, ho, h⟩ := bind_eq_ok.mp h
    split at h
    · unfold Client.sqmpProcessHelloAck at h
      split at h
      · cases h
        rfl
      · obtain ⟨v, _, h⟩ := bind_eq_ok.mp h
        split at h
        · cases h
          rfl
        · obtain ⟨sid, _, h⟩ := bind_eq_ok.mp h
          cases h
          rfl
    · unfold Client.sqmpProcessAuthResp at h
      split at h
      · obtain ⟨status, _, h⟩ := bind_eq_ok.mp h
        split at h <;> cases h <;> rfl
      · cases h
        rfl
    · obtain ⟨key, rfl⟩ := ClientStateLemmas.sqmpProcessKeyResp_ok h
      rfl
    · rw [(ClientStateLemmas.sqmpProcessChatDeliver_ok h).1]
    · obtain ⟨code, desc, rfl⟩ := ClientStateLemmas.sqmpProcessError_ok h
      split <;> rfl
    · cases h
      rfl
    · cases h
      rfl
  · rfl

/-- The client changes its identity in `sqmp_login` only, and the state of its session when it
receives. -/
theorem client_session (h : m.step cenv a = some m') :
    ((∀ stdin, a ≠ .login stdin) → m'.client.session.identity = m.client.session.identity) ∧
      ((∀ data, a ≠ .receive data) → m'.client.session.state = m.client.session.state ∧
        m'.client.session.sessionId = m.client.session.sessionId) := by
  rcases ClientPacketLemmas.step_session h with ⟨data, rfl, rfl⟩ | ⟨stdin, rfl, rfl⟩ | ⟨_, _, _, hx⟩
  · refine ⟨fun _ => ?_, fun hr => absurd rfl (hr data)⟩
    rw [ClientPacketLemmas.receive_client, receive_identity]
  · have hst := (ClientPacketLemmas.login_spec cenv m stdin).1
    exact ⟨fun hl => absurd rfl (hl stdin), fun _ =>
      ⟨congrArg Standing.state hst, congrArg Standing.sessionId hst⟩⟩
  · rw [hx]
    exact ⟨fun _ => rfl, fun _ => ⟨rfl, rfl⟩⟩

/-- The AUTH_REQs of the client ask for its own login. -/
def OwnRequests (m : ClientMain) : Prop :=
  ∀ p ∈ m.client.attempts, p.isAuthReq = true → ∃ hash, AsksLogin m.client.session hash p

theorem isAuthReq_iff : p.isAuthReq = true ↔ p.msg.type = .authReq := decide_eq_true_iff

/-- What `sqmp_login` asks for is what it keeps. -/
theorem login_asks {name : Bytes} {sid : UInt32} {key : Buf 32} {x : Session}
    (hn : name.length ≤ 32) (hlen : c.session.usernameLen = UInt8.ofNat name.length)
    (hname : c.session.username = x.username.store name) (hkey : c.session.clientPubkey = key) :
    AsksLogin c.session hash ⟨sid, .authReq
      ⟨UInt8.ofNat name.length, (Buf.zero 32).store name, hash, 32, key.bytes⟩⟩ := by
  have hto : (UInt8.ofNat name.length).toNat = name.length := by
    rw [UInt8.toNat_ofNat']
    omega
  refine ⟨_, by rw [hlen, hkey], ?_, by rw [hlen, hto]; exact hn⟩
  have hfirst {b : Buf 32} : (b.store name).first name.length = name := by
    rw [Buf.first_store (Nat.le_refl _) hn, List.take_length]
  rw [Session.name, hname, hlen, countedName, countedName, hto, hfirst, hfirst]

theorem requests_step (hi : ClientPacketLemmas.ConformInv m) (ho : OwnRequests m)
    (h : m.step cenv a = some m') : OwnRequests m' ∧
      ((∃ p ∈ m.client.attempts, p.isAuthReq = true) →
        m'.client.session.identity = m.client.session.identity) := by
  have old : m'.client.session.identity = m.client.session.identity →
      ∀ p ∈ m.client.attempts, p.isAuthReq = true → ∃ hash, AsksLogin m'.client.session hash p :=
    fun hid p hp ht => (ho p hp ht).imp fun hash h => (asksLogin_congr hid).mpr h
  by_cases hl : ∃ stdin, a = .login stdin
  · obtain ⟨stdin, rfl⟩ := hl
    obtain ⟨hpc, h⟩ := Option.ite_none_right_eq_some.mp h
    cases h
    -- there is no AUTH_REQ before `sqmp_login`
    have hnone : ∀ p ∈ m.client.attempts, p.isAuthReq = false := by
      obtain ⟨q, hq, hs⟩ := hi.phase
      simp only [ClientPacketLemmas.Stands, hpc] at hs
      have hcount := (sendPhase_once hq).2
      rw [hs.1] at hcount
      exact fun p hp => by simpa using List.countP_eq_zero.mp (Nat.le_zero.mp hcount) p hp
    refine ⟨fun p hp ht => ?_, fun hasked => ?_⟩
    · rcases (ClientPacketLemmas.login_spec cenv m stdin).2 with
        ⟨hc, _⟩ | ⟨name, hash, key, ok, hn, hlen, hname, hkey, htr⟩
      · rw [hc] at hp
        rw [hnone p hp] at ht
        cases ht
      · rw [ClientPacketLemmas.attempts_log htr, List.mem_append] at hp
        rcases hp with hp | hp
        · rw [hnone p hp] at ht
          cases ht
        · cases List.mem_singleton.mp hp
          exact ⟨hash, login_asks hn hlen hname hkey⟩
    · obtain ⟨p, hp, ht⟩ := hasked
      rw [hnone p hp] at ht
      cases ht
  · have hid := (client_session h).1 fun stdin heq => hl ⟨stdin, heq⟩
    refine ⟨fun p hp ht => ?_, fun _ => hid⟩
    rcases clientMain_sends h with hat | ⟨q, hat, hq⟩
    · exact old hid p (hat ▸ hp) ht
    · rw [hat, List.mem_append] at hp
      rcases hp with hp | hp
      · exact old hid p hp ht
      · cases List.mem_singleton.mp hp
        rw [isAuthReq_iff] at ht
        cases hq with
        | authReq => exact absurd ⟨_, rfl⟩ hl
        | _ => cases ht

/-- What goes out on a step is among what the client gives to `sqmp_stream_send`. -/
theorem sentBetween_spec (h : m.step cenv a = some m') : ∃ ps,
    m'.client.attempts = m.client.attempts ++ ps ∧
      (sentBetween m.client m'.client).Sublist ps := by
  rcases clientMain_logs h with htr | ⟨e, htr, _⟩
  · refine ⟨[], by rw [Client.attempts, htr, List.append_nil, Client.attempts], ?_⟩
    have htr' : m'.client.trace = [] ++ m.client.trace := htr
    rw [ByeExchangeLemmas.sentBetween_eq htr']
    exact List.Sublist.refl _
  · refine ⟨_, ClientPacketLemmas.attempts_log htr, ?_⟩
    have htr' : m'.client.trace = [e] ++ m.client.trace := htr
    rw [ByeExchangeLemmas.sentBetween_eq htr']
    cases e with
    | sent p ok => cases ok <;> simp [ClientEvent.asSent, ClientEvent.packet]
    | _ => simp [ClientEvent.asSent]

end Client

end LoginAgreementLemmas

/-! ## 4. The two sides -/

/-- What every step of the two sides keeps. -/
structure HandshakeInv (st : StreamId) (s : SessionId) (w : Exchange) : Prop where
  wf : Wf w.server
  known : Known w.server
  ids : IdInv w.server
  user : (w.server.stream st).userData = some s
  only : ∀ st', (w.server.stream st').userData = some s → st' = st
  client : ClientPacketLemmas.ConformInv w.client
  requests : LoginAgreementLemmas.OwnRequests w.client
  up : w.up.sent.Sublist w.client.client.attempts
  down : ∀ p ∈ w.down.sent, .sent st p true true ∈ w.server.trace
  /-- an AUTH_RESP comes from the end of a login -/
  offers : ∀ p ∈ w.down.sent, p.msg.isLoginOk = true → LoginAgreed st s w
  agrees : Agrees st s w
  login : Unlogged w.server s ∨ ∃ hash,
    (∃ p ∈ w.up.delivered, AsksLogin w.client.client.session hash p) ∧
      LoginOf st s w.client.client.session.name hash w.client.client.session.clientPubkey w.server

namespace LoginAgreementLemmas

section Exchange

variable {env : Env} {cenv : ClientEnv} {st : StreamId} {s : SessionId} {w w' : Exchange}
  {σ' : Server} {b : Action}

theorem isAuthReq_of_asks {x : Session} {hash : Buf 32} {p : Packet} (h : AsksLogin x hash p) :
    p.isAuthReq = true := by
  obtain ⟨field, hm, _⟩ := h
  rw [isAuthReq_iff, hm]
  rfl

/-! ### The client moves -/

/-- What the agreement says of a client that keeps its identity. -/
theorem agreed_client {m' : ClientMain} {up : Link Packet}
    (hid : m'.client.session.identity = w.client.client.session.identity)
    (hsent : ∀ p ∈ w.client.client.attempts, p ∈ m'.client.attempts) (h : LoginAgreed st s w) :
    LoginAgreed st s { w with client := m', up } := by
  obtain ⟨hash, ⟨p, hp, hasks⟩, hv⟩ := h.verified
  have hasks' : AsksLogin m'.client.session hash p := (asksLogin_congr hid).mpr hasks
  simp only [Session.identity, Prod.mk.injEq] at hid
  obtain ⟨hlen, hname, hkey⟩ := hid
  have hn : m'.client.session.name = w.client.client.session.name := by
    rw [Session.name, hlen, hname, Session.name]
  refine ⟨h.state, h.name.trans hn.symm, ?_, hash, ⟨p, hsent p hp, hasks'⟩, ?_⟩
  · show Event.registered s m'.client.session.name _ m'.client.session.clientPubkey ∈ _
    rw [hn, hkey]
    exact h.registered
  · show Event.verified s (cString m'.client.session.name.2) hash true ∈ _
    rw [hn]
    exact hv

theorem agreed_sends (h : LoginAgreed st s w) :
    ∃ p ∈ w.client.client.attempts, p.isAuthReq = true := by
  obtain ⟨_, ⟨p, hp, hasks⟩, _⟩ := h.verified
  exact ⟨p, hp, isAuthReq_of_asks hasks⟩

theorem handshake_withClient {m' : ClientMain} {a : MainAction} (hi : HandshakeInv st s w)
    (h : w.client.step cenv a = some m')
    (ha : (m'.client.session.state ≠ .hello → (w.server.session s).state ≠ .hello ∧
        m'.client.session.sessionId = (w.server.session s).sessionId) ∧
      (m'.client.session.state = .connEstablished → LoginAgreed st s w)) :
    HandshakeInv st s (w.withClient st m') := by
  obtain ⟨ps, hat, hsub⟩ := sentBetween_spec h
  obtain ⟨hreq, hid⟩ := requests_step hi.client hi.requests h
  have hmem : ∀ p ∈ w.client.client.attempts, p ∈ m'.client.attempts := fun p hp =>
    hat ▸ List.mem_append_left _ hp
  have hagreed : ∀ {up : Link Packet}, LoginAgreed st s w →
      LoginAgreed st s { w with client := m', up } := fun h =>
    agreed_client (hid (agreed_sends h)) hmem h
  have hdelivered : (w.withClient st m').up.delivered = w.up.delivered := by
    unfold Exchange.withClient
    dsimp only
    split <;> rfl
  refine ⟨hi.wf, hi.known, hi.ids, hi.user, hi.only, ClientPacketLemmas.conform_step hi.client h,
    hreq, ?_, hi.down, fun p hp hok => hagreed (hi.offers p hp hok),
    ⟨ha.1, fun hst => hagreed (ha.2 hst)⟩, ?_⟩
  · show (w.withClient st m').up.sent.Sublist m'.client.attempts
    rw [hat]
    unfold Exchange.withClient
    dsimp only
    split
    · rw [Link.sent_send]
      exact hi.up.append hsub
    · exact hi.up.trans (List.sublist_append_left ..)
  · rw [hdelivered]
    refine hi.login.imp_right fun ⟨hash, ⟨p, hp, hasks⟩, hl⟩ => ?_
    have hkept := hid ⟨p, hi.up.subset (List.mem_append_left _ hp), isAuthReq_of_asks hasks⟩
    refine ⟨hash, ⟨p, hp, (asksLogin_congr hkept).mpr hasks⟩, ?_⟩
    simp only [Session.identity, Prod.mk.injEq] at hkept
    obtain ⟨hlen, hname, hkey⟩ := hkept
    have hn : m'.client.session.name = w.client.client.session.name := by
      rw [Session.name, hlen, hname, Session.name]
    show LoginOf st s m'.client.session.name hash m'.client.session.clientPubkey w.server
    rw [hn, hkey]
    exact hl

/-- The packets that move the client come from the server. -/
theorem receive_agrees (hi : HandshakeInv st s w) {p : Packet} (hp : p ∈ w.down.sent) :
    let x := (w.client.client.receive cenv p.bytes).session
    (x.state ≠ .hello → (w.server.session s).state ≠ .hello ∧
        x.sessionId = (w.server.session s).sessionId) ∧
      (x.state = .connEstablished → LoginAgreed st s w) := by
  intro x
  have hadv : Advance p.bytes w.client.client.session.standing
      (w.client.client.receive cenv p.bytes).session.standing := receive_advance _ _
  have hst : x.state = x.standing.state := rfl
  have hid : x.sessionId = x.standing.sessionId := rfl
  generalize hx : (w.client.client.receive cenv p.bytes).session.standing = y at hadv
  rw [hst, hid, hx]
  cases hadv with
  | stays | rejected => exact ⟨hi.agrees.greeted, hi.agrees.accepted⟩
  | @greeted sid hs hack =>
    refine ⟨fun _ => ?_, nofun⟩
    obtain ⟨ht, hv, hsid⟩ := hack
    obtain rfl : p.sessionId = sid :=
      Except.ok.inj ((ClientStateLemmas.sessionId_bytes p).symm.trans hsid)
    obtain ⟨id, msg⟩ := p
    cases msg with
    | helloAck m =>
      obtain ⟨s', hu, hst, hid⟩ := hi.ids.acked st id m true true (hi.down _ hp)
      obtain rfl := Option.some.inj (hu.symm.trans hi.user)
      exact ⟨hst, hid.symm⟩
    | _ => cases ht
  | accepted hs hacc =>
    have hgreet := hi.agrees.greeted (by rw [show w.client.client.session.state = _ from hs]; nofun)
    refine ⟨fun _ => hgreet, fun _ => hi.offers p hp ?_⟩
    obtain ⟨ht, hstatus⟩ := hacc
    obtain ⟨id, msg⟩ := p
    cases msg with
    | authResp m =>
      have : Pkt.authRespStatus (Packet.mk id (.authResp m)).bytes = .ok m.status :=
        ClientStateLemmas.readU8_message rfl
      rw [this] at hstatus
      simpa [Msg.isLoginOk] using Except.ok.inj hstatus
    | _ => cases ht

/-! ### The server moves -/

theorem only_step (hw : Wf w.server)
    (honly : ∀ st', (w.server.stream st').userData = some s → st' = st)
    (hP : ∀ st', b ≠ .streamOpened s st') (h : step env w.server b = some σ') :
    ∀ st', (σ'.stream st').userData = some s → st' = st := by
  intro st' hs
  rcases step_cases h with h | h
  · cases h with
    | @streamOpened c st₁ hc hst =>
      rcases eq_or_ne st' st₁ with rfl | hne
      · -- the new stream has the session of its connection
        have hs : (w.server.conn c).userData = some s := by simpa [onStreamOpen] using hs
        obtain ⟨rfl, _⟩ := hw.user c s hs
        exact absurd rfl (hP st')
      · exact honly st' (by simpa [onStreamOpen, hne] using hs)
    | @streamClosed st₁ | @streamClosedNull st₁ =>
      refine honly st' ?_
      rcases eq_or_ne st' st₁ with rfl | hne
      · simpa using hs
      · simpa [hne] using hs
    | _ => exact honly st' hs
  · exact honly st' (StreamLifetimeLemmas.stream_main h ▸ hs)

/-- The worker has another session. -/
theorem loginAt_other {name : Key} {hash key : Buf 32} {σ : Server} {pc : WorkerPc}
    (h : pc.pending ≠ some s) : LoginAt st s name hash key σ pc := by
  unfold LoginAt
  split
  case h_6 => trivial
  all_goals
    rintro rfl
    exact absurd rfl h

/-- The server accepts the AUTH_REQ. -/
theorem loginOf_asked {x : Session} {hash : Buf 32} {p : Packet} {σ : Server} {a : Action}
    {f : AuthFields} {st' : StreamId} (hul : Unlogged σ s) (hasks : AsksLogin x hash p)
    (hon : authReqOn σ a = some (s, p.bytes)) (hf : readAuthReq p.bytes = .ok f)
    (hpc : σ'.pc = σ.pc) (h : σ'.session s = (σ.session s).stage f st') :
    LoginOf st s x.name hash x.clientPubkey σ' := by
  obtain ⟨sid, msg⟩ := p
  obtain ⟨field, rfl, hname, hlen⟩ := hasks
  rw [readAuthReq_bytes sid _ field hash x.clientPubkey hlen] at hf
  obtain rfl := Except.ok.inj hf
  obtain ⟨_, _, _, hst⟩ := OwnershipLemmas.authReqOn_some hon
  have hstate : (σ'.session s).state = .auth := by
    rw [h]
    exact hst
  refine ⟨?_, by rw [h]; rfl, by rw [hstate]; nofun, fun hpast => ?_, loginAt_other ?_⟩
  · rw [h, AuthSoundnessLemmas.staged_stage, ← hname]
    · rfl
    · exact Buf.length_first hlen
    · exact hlen
  · rw [Session.Past, hstate] at hpast
    rcases hpast with hpast | hpast <;> cases hpast
  · rw [hpc]
    exact fun hp => hul.served (.inl hp)

/-- An AUTH_REQ that the server may accept on the session is the first of the client. -/
def FirstRequest (s : SessionId) (w : Exchange) (b : Action) : Prop :=
  ∀ data, authReqOn w.server b = some (s, data) → Unlogged w.server s ∧
    ∃ hash, ∃ p ∈ w.up.delivered, data = p.bytes ∧ AsksLogin w.client.client.session hash p

theorem login_step (hi : HandshakeInv st s w) (hon : FirstRequest s w b)
    (h : step env w.server b = some σ') : Unlogged σ' s ∨ ∃ hash,
    (∃ p ∈ w.up.delivered, AsksLogin w.client.client.session hash p) ∧
      LoginOf st s w.client.client.session.name hash w.client.client.session.clientPubkey σ' := by
  rcases step_cases h with hc | hm
  · cases login_change hi.wf hi.user hc with
    | kept hf hq =>
      refine hi.login.imp (fun hul => ⟨?_, fun hs => hul.served (hq hs)⟩) ?_
      · rcases hf.state with hst | ⟨hst, _⟩
        · rw [hst]
          exact hul.state
        · rcases hul.state with hst' | hst' <;> cases hst.symm.trans hst'
      · rintro ⟨hash, hp, hl⟩
        exact ⟨hash, hp, loginOf_callback hl hc hf⟩
    | greeted hst hst' hq =>
      rcases hi.login with hul | ⟨hash, _, hl⟩
      · exact .inl ⟨.inr hst', fun hs => hul.served (hq hs)⟩
      · exact absurd hst hl.greeted
    | asked hreq hf hu hs =>
      obtain ⟨hul, hash, p, hp, rfl, hasks⟩ := hon _ hreq
      exact .inr ⟨hash, ⟨p, hp, hasks⟩, loginOf_asked hul hasks hreq hf (callback_pc hc) hs⟩
  · rcases hi.login with hul | ⟨hash, hp, hl⟩
    · refine .inl ⟨?_, fun hs => hul.served (ByeExchangeLemmas.serves_main hm hs)⟩
      rcases LoginOrderLemmas.state_main hm (s := s) with hst | ⟨hpc, _⟩
      · rw [hst]
        exact hul.state
      · exact absurd (.inl (by rw [hpc]; rfl)) hul.served
    · exact .inr ⟨hash, hp, loginOf_main hl hm⟩

theorem past_step (hi : HandshakeInv st s w) (h : step env w.server b = some σ')
    (hp : (w.server.session s).Past) (hon : FirstRequest s w b) : (σ'.session s).Past := by
  have hul : ¬ Unlogged w.server s := fun hul => by
    rcases hp with hp | hp <;> rcases hul.state with hst | hst <;> cases hp.symm.trans hst
  rcases step_cases h with hc | hm
  · cases login_change hi.wf hi.user hc with
    | kept hf _ => exact frame_past hf hp
    | greeted hst _ _ => rcases hp with hp | hp <;> cases hp.symm.trans hst
    | asked hreq => exact absurd (hon _ hreq).1 hul
  · rcases LoginOrderLemmas.state_main hm (s := s) with hst | ⟨_, hst⟩
    · rwa [Session.Past, hst]
    · exact .inl hst

theorem agreed_server {down : Link Packet} (hi : HandshakeInv st s w)
    (h : step env w.server b = some σ') (hon : FirstRequest s w b) (ha : LoginAgreed st s w) :
    LoginAgreed st s { w with server := σ', down } := by
  have hpast : (σ'.session s).Past := past_step hi h ha.state hon
  have hmem : ∀ e ∈ w.server.trace, e ∈ σ'.trace := by
    obtain ⟨es, htr, _⟩ := sent_stream hi.wf h
    exact fun e he => htr ▸ List.mem_append_right _ he
  refine ⟨hpast, ?_, hmem _ ha.registered, ?_⟩
  · rcases login_step hi hon h with hul | ⟨_, _, hl⟩
    · rcases hpast with hp | hp <;> rcases hul.state with hst | hst <;> cases hp.symm.trans hst
    · exact hl.named hpast
  · obtain ⟨hash, hp, hv⟩ := ha.verified
    exact ⟨hash, hp, hmem _ hv⟩

/-- An AUTH_RESP with status OK finds the login at its end. -/
theorem agreed_of_response (hi : HandshakeInv st s w) (h : step env w.server b = some σ')
    {p : Packet} (hp : p ∈ packetsOn (newEvents w.server σ') st) (hok : p.msg.isLoginOk = true) :
    LoginAgreed st s w := by
  rw [LoginOrderLemmas.mem_packetsOn] at hp
  have hloaded : ∀ {t ok}, w.server.pc = .responding t st ok → p = authRespPacket
      (w.server.session t) ok → LoginAgreed st s w := by
    intro t ok hpc hp
    have hu := hi.ids.loaded t st (by rw [hpc]; rfl) (by rw [hpc]; rfl)
    obtain rfl := Option.some.inj (hu.symm.trans hi.user)
    subst hp
    cases ok with
    | false => cases hok
    | true =>
      rcases hi.login with hul | ⟨hash, ⟨q, hq, hasks⟩, hl⟩
      · exact absurd (.inl (by rw [hpc]; rfl)) hul.served
      · have hworker := hl.worker
        rw [hpc] at hworker
        obtain ⟨hv, hreg, hpast⟩ := hworker rfl
        exact ⟨hpast, hl.named hpast, hreg rfl, hash,
          ⟨q, hi.up.subset (List.mem_append_left _ hq), hasks⟩, hv⟩
  rcases step_sends hi.wf h with ⟨es, htr, hes⟩ | ⟨t, st', m, l, ok, _, _, htr, _⟩
  · rw [newEvents_eq htr] at hp
    cases hes st p true true hp with
    | refusal _ hr =>
      obtain ⟨sid, msg⟩ := p
      rcases hr.type with ht | ⟨ht, _⟩ <;> cases msg <;> first | cases ht; done | cases hok
    | authResp hpc hr => exact hloaded hpc hr
    | copied _ ht =>
      obtain ⟨sid, msg⟩ := p
      rcases ht with ht | ht <;> cases msg <;> first | cases ht; done | cases hok
    | farewell _ _ _ _ hr =>
      rw [hr] at hok
      cases hok
  · have htr : σ'.trace = (.sent st' ⟨w.server.nextSessionId, .helloAck m⟩ l ok ::
        w.server.touched t) ++ w.server.trace := htr
    rw [newEvents_eq htr] at hp
    rcases List.mem_cons.mp hp with hp | hp
    · cases hp
      cases hok
    · cases touched_isSent _ hp

theorem handshake_withServer (hi : HandshakeInv st s w) (h : step env w.server b = some σ')
    (hP : ∀ st', b ≠ .streamOpened s st') (hon : FirstRequest s w b) :
    HandshakeInv st s (w.withServer st σ') := by
  obtain ⟨hwf, hknown⟩ := step_wf h hi.wf hi.known
  have hlogin := login_step hi hon h
  have hmem : ∀ e ∈ w.server.trace, e ∈ σ'.trace := by
    obtain ⟨es, htr, _⟩ := sent_stream hi.wf h
    exact fun e he => htr ▸ List.mem_append_right _ he
  have hnew : ∀ p ∈ packetsOn (newEvents w.server σ') st, .sent st p true true ∈ σ'.trace :=
    fun p hp => List.mem_of_mem_take (LoginOrderLemmas.mem_packetsOn.mp hp)
  have hdown : ∀ p ∈ (w.withServer st σ').down.sent,
      p ∈ w.down.sent ∨ p ∈ packetsOn (newEvents w.server σ') st := by
    intro p hp
    unfold Exchange.withServer at hp
    dsimp only at hp
    split at hp
    · rwa [Link.sent_send, List.mem_append] at hp
    · exact .inl hp
  refine ⟨hwf, hknown, hi.ids.step hi.wf h, user_kept hi.wf h hi.user,
    only_step hi.wf hi.only hP h, hi.client, hi.requests, hi.up, fun p hp => ?_,
    fun p hp hok => ?_, ⟨fun hst => ?_, fun hst => ?_⟩, hlogin⟩
  · exact (hdown p hp).elim (fun hp => hmem _ (hi.down p hp)) (hnew p)
  · refine agreed_server hi h hon ?_
    exact (hdown p hp).elim (fun hp => hi.offers p hp hok) fun hp => agreed_of_response hi h hp hok
  · obtain ⟨hst, hid⟩ := hi.agrees.greeted hst
    obtain ⟨hst', hid'⟩ := hi.ids.past_hello hi.wf h hst
    exact ⟨hst', hid.trans hid'.symm⟩
  · exact agreed_server hi h hon (hi.agrees.accepted hst)

/-! ### Steps -/

theorem handshake_up {p : Packet} {up : Link Packet} (hi : HandshakeInv st s w)
    (h : w.up.deliver = some (p, up)) : HandshakeInv st s { w with up } := by
  refine ⟨hi.wf, hi.known, hi.ids, hi.user, hi.only, hi.client, hi.requests, ?_, hi.down,
    fun p hp hok => ?_, ⟨hi.agrees.greeted, fun hst => ?_⟩, ?_⟩
  · show up.sent.Sublist _
    rw [Link.sent_deliver h]
    exact hi.up
  · obtain ⟨hst, hn, hreg, hv⟩ := hi.offers p hp hok
    exact ⟨hst, hn, hreg, hv⟩
  · obtain ⟨hst, hn, hreg, hv⟩ := hi.agrees.accepted hst
    exact ⟨hst, hn, hreg, hv⟩
  · refine hi.login.imp_right fun ⟨hash, ⟨q, hq, hasks⟩, hl⟩ => ⟨hash, ⟨q, ?_, hasks⟩, hl⟩
    show q ∈ up.delivered
    rw [(Link.deliver_eq h).2]
    exact List.mem_append_left _ hq

theorem handshake_down {p : Packet} {down : Link Packet} (hi : HandshakeInv st s w)
    (h : w.down.deliver = some (p, down)) : HandshakeInv st s { w with down } := by
  have hsent : down.sent = w.down.sent := Link.sent_deliver h
  refine ⟨hi.wf, hi.known, hi.ids, hi.user, hi.only, hi.client, hi.requests, hi.up,
    fun p hp => hi.down p (hsent ▸ hp), fun p hp hok => ?_, ⟨hi.agrees.greeted, fun hst => ?_⟩,
    hi.login⟩
  · obtain ⟨hst, hn, hreg, hv⟩ := hi.offers p (hsent ▸ hp) hok
    exact ⟨hst, hn, hreg, hv⟩
  · obtain ⟨hst, hn, hreg, hv⟩ := hi.agrees.accepted hst
    exact ⟨hst, hn, hreg, hv⟩

/-- What is on its way to the server was sent by the client. -/
theorem deliver_attempts {p : Packet} {up : Link Packet} (hi : HandshakeInv st s w)
    (hd : w.up.deliver = some (p, up)) : p ∈ w.client.client.attempts :=
  hi.up.subset (by simp [Link.sent, (Link.deliver_eq hd).1])

/-- The client sends one AUTH_REQ. -/
theorem unlogged_of_request {p : Packet} {up : Link Packet} (hi : HandshakeInv st s w)
    (hd : w.up.deliver = some (p, up)) (ht : p.isAuthReq = true) : Unlogged w.server s := by
  refine hi.login.resolve_right ?_
  rintro ⟨_, ⟨q, hq, hasks⟩, _⟩
  have hone : w.up.count Packet.isAuthReq ≤ 1 := by
    obtain ⟨_, hphase, _⟩ := hi.client.phase
    exact hi.up.countP_le.trans ((sendPhase_once hphase).2.trans (Nat.min_le_left ..))
  have hnone := Link.deliver_first hd ht hone q hq
  rw [isAuthReq_of_asks hasks] at hnone
  cases hnone

theorem first_request {p : Packet} {up : Link Packet} (hi : HandshakeInv st s w)
    (hd : w.up.deliver = some (p, up)) {split : Bool} :
    FirstRequest s { w with up } (if split then .chatLookup st p.bytes else .received st p.bytes) := by
  intro data hon
  cases split with
  | true => cases hon
  | false =>
    obtain ⟨st', heq, _⟩ := OwnershipLemmas.authReqOn_some hon
    cases heq
    obtain ⟨hdisp, _⟩ := Option.ite_none_right_eq_some.mp hon
    rw [ClientStateLemmas.dispatch_bytes] at hdisp
    have ht : p.isAuthReq = true := by
      obtain ⟨ht, _⟩ := Option.filter_eq_some_iff.mp (Except.ok.inj hdisp)
      exact isAuthReq_iff.mpr (Option.some.inj ht)
    obtain ⟨hash, hasks⟩ := hi.requests p (deliver_attempts hi hd) ht
    have hul : Unlogged w.server s := unlogged_of_request hi hd ht
    refine ⟨hul, hash, p, ?_, rfl, hasks⟩
    show p ∈ up.delivered
    rw [(Link.deliver_eq hd).2]
    exact List.mem_concat_self

theorem handshake_step {a : ExchangeAction} (hi : HandshakeInv st s w) (hP : OneStream s w a)
    (h : w.step env cenv st a = some w') : HandshakeInv st s w' := by
  cases a with
  | client b =>
    obtain ⟨hmay, h⟩ := Option.ite_none_right_eq_some.mp h
    obtain ⟨m', hm, rfl⟩ := Option.map_eq_some_iff.mp h
    obtain ⟨hst, hid⟩ := (client_session hm).2 fun data heq => by
      subst heq
      cases hmay
    refine handshake_withClient hi hm ?_
    rw [hst, hid]
    exact ⟨hi.agrees.greeted, hi.agrees.accepted⟩
  | server b =>
    obtain ⟨hmay, h⟩ := Option.ite_none_right_eq_some.mp h
    obtain ⟨σ', hσ, rfl⟩ := Option.map_eq_some_iff.mp h
    refine handshake_withServer hi hσ (fun st' heq => ?_) fun data hon => ?_
    · subst heq
      exact hP rfl
    · -- the server receives on the client's stream by the link only
      obtain ⟨st', rfl, hu, _⟩ := OwnershipLemmas.authReqOn_some hon
      rw [hi.only st' hu] at hmay
      simp [Exchange.serverMay] at hmay
  | toServer split =>
    obtain ⟨⟨p, up⟩, hd, h⟩ := Option.bind_eq_some_iff.mp h
    obtain ⟨σ', hσ, rfl⟩ := Option.map_eq_some_iff.mp h
    refine handshake_withServer (handshake_up hi hd) hσ ?_ (first_request hi hd)
    intro st' heq
    cases split <;> cases heq
  | toClient =>
    obtain ⟨⟨p, down⟩, hd, h⟩ := Option.bind_eq_some_iff.mp h
    obtain ⟨m', hm, rfl⟩ := Option.map_eq_some_iff.mp h
    have hi' := handshake_down hi hd
    refine handshake_withClient hi' hm ?_
    obtain ⟨_, hm⟩ := Option.ite_none_right_eq_some.mp hm
    cases hm
    rw [ClientPacketLemmas.receive_client]
    refine receive_agrees hi' ?_
    show p ∈ down.sent
    rw [Link.sent_deliver hd, Link.sent, (Link.deliver_eq hd).1]
    simp

theorem handshake_init (h : AtConnect env st s w) : HandshakeInv st s w := by
  obtain ⟨acts, hr⟩ := h.reachable
  obtain ⟨hw, hk⟩ := run_wf hr
  have hi := IdInv.run hr
  refine ⟨hw, hk, hi, h.user, h.only, h.client ▸ ClientPacketLemmas.conform_init, ?_, ?_, ?_, ?_,
    ⟨?_, ?_⟩, .inl ⟨.inl h.state, ?_⟩⟩
  · rw [h.client]
    nofun
  · rw [h.up]
    exact List.nil_sublist _
  · rw [h.down]
    nofun
  · rw [h.down]
    nofun
  · rw [h.client]
    exact fun hst => absurd rfl hst
  · rw [h.client]
    nofun
  · exact fun hs => hi.refers s (hs.imp_right fun hs => hs.mentions) h.state

end Exchange

end LoginAgreementLemmas
open LoginAgreementLemmas

/-! ## 5. The law -/

/-- From the connection on, whatever either side and all other clients do: a client past HELLO has
its session's id, and a client that is logged in is logged in on the server, by its own AUTH_REQ,
under its name, on its stream and with its key. -/
theorem login_agreement (env : Env) (cenv : ClientEnv) (st : StreamId) (s : SessionId)
    (w₀ w : Exchange) (h₀ : AtConnect env st s w₀) (acts : List ExchangeAction)
    (hP : Along (Exchange.step env cenv st) (OneStream s) w₀ acts)
    (hr : run (Exchange.step env cenv st) w₀ acts = some w) : Agrees st s w := by
  have hi : HandshakeInv st s w :=
    run_invariant (fun _ _ _ hi hp h => handshake_step hi hp h) (handshake_init h₀) hP hr
  exact hi.agrees

/-! ## 6. A concrete run -/

/-- The client's connection and its stream. -/
def exchangeConnect : List ExchangeAction := [.server (.connected 0), .server (.streamOpened 0 0)]

namespace LoginAgreementLemmas

theorem exchangeConnect_atConnect : ∃ w, exchangeRun exchangeConnect = some w ∧
    AtConnect (.fair abcUsers) 0 0 w := by
  obtain ⟨w, hr, hu, hsingle, hst, hup, hdown⟩ := run_reaches
    (Exchange.step (.fair abcUsers) zeroKeys 0) .init exchangeConnect
    (fun w => (w.server.stream 0).userData = some 0 ∧ Single w.server 0 ∧
      (w.server.session 0).state = .hello ∧ w.up.sent = [] ∧ w.down.sent = []) (by decide +kernel)
  have hreach := ByeExchangeLemmas.server_reachable ⟨[], rfl⟩ hr
  have hlink : ∀ {l : Link Packet}, l.sent = [] → l = .empty := by
    rintro ⟨d, p⟩ h
    obtain ⟨rfl, rfl⟩ := List.append_eq_nil_iff.mp h
    rfl
  have hclient : w.client = .init := by
    have kept : ∀ {w w' : Exchange} {b : Action},
        w.step (.fair abcUsers) zeroKeys 0 (.server b) = some w' → w'.client = w.client := by
      intro w w' b h
      obtain ⟨_, h⟩ := Option.ite_none_right_eq_some.mp h
      obtain ⟨_, _, rfl⟩ := Option.map_eq_some_iff.mp h
      rfl
    obtain ⟨w₁, h₁, hr⟩ := run_cons.mp hr
    obtain ⟨w₂, h₂, hr⟩ := run_cons.mp hr
    cases hr
    exact (kept h₂).trans (kept h₁)
  obtain ⟨acts, hreach⟩ := hreach
  exact ⟨w, hr, ⟨acts, hreach⟩, hu, fun st' hs =>
    LoginOrderLemmas.single_unique (run_wf hreach).1 hsingle hu hs, hst, hclient, hlink hup,
    hlink hdown⟩

/-- The login of `exchangeLogin` behind its connection. -/
theorem exchangeLogin_split {w : Exchange} (hr : exchangeRun exchangeLogin = some w) :
    ∃ w₀, exchangeRun exchangeConnect = some w₀ ∧ AtConnect (.fair abcUsers) 0 0 w₀ ∧
      run (Exchange.step (.fair abcUsers) zeroKeys 0) w₀ (exchangeLogin.drop 2) = some w ∧
      Along (Exchange.step (.fair abcUsers) zeroKeys 0) (OneStream 0) w₀
        (exchangeLogin.drop 2) := by
  obtain ⟨w₀, hr₀, h₀⟩ := exchangeConnect_atConnect
  have hsplit : exchangeLogin = exchangeConnect ++ exchangeLogin.drop 2 := rfl
  rw [hsplit] at hr
  obtain ⟨w₁, hr₁, hr⟩ := run_append.mp hr
  obtain rfl := Option.some.inj (hr₀.symm.trans hr₁)
  have hone : ∀ a ∈ exchangeLogin.drop 2, OneStream 0 .init a := by decide
  exact ⟨w₀, hr₀, h₀, hr, along_of_mem (fun _ => hone) w₀⟩

end LoginAgreementLemmas

theorem agreement_exchangeLogin : ∃ w₀ w acts, exchangeRun exchangeConnect = some w₀ ∧
    AtConnect (.fair abcUsers) 0 0 w₀ ∧
    run (Exchange.step (.fair abcUsers) zeroKeys 0) w₀ acts = some w ∧
    w.client.client.session.state = .connEstablished ∧ LoginAgreed 0 0 w := by
  obtain ⟨w, hr, hst⟩ := run_reaches (Exchange.step (.fair abcUsers) zeroKeys 0) .init exchangeLogin
    (fun w => w.client.client.session.state = .connEstablished) (by decide +kernel)
  obtain ⟨w₀, hr₀, h₀, hr, hone⟩ := exchangeLogin_split hr
  exact ⟨w₀, w, _, hr₀, h₀, hr, hst,
    (login_agreement (.fair abcUsers) zeroKeys 0 0 w₀ w h₀ _ hone hr).accepted hst⟩

end SquimpChat
