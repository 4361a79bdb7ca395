import SquimpChat.ClientMain
import SquimpChat.ClientSession

/-!
# What the client sends

The main thread sends HELLO, AUTH_REQ, KEY_REQ, CHAT_SEND and its own BYE, the receiving thread
answers BYE. What they send in what order depends on what the server says and on signals.
`SendPhase` is the order by itself, a machine over the packets; `ClientSent` is what a step of the
client's model sends. `main` does not look at the result of `sqmp_login`: when it has failed, a server
that accepts the login all the same gets a KEY_REQ right behind the HELLO.

Results:
1. `clientMain_logs`: a step of the client sends one packet at most, one of `ClientSent`.
2. `client_conforms`: in every run, against any server, the packets sent are a word of `SendPhase`.
   Those that name the session come behind the HELLO_ACK that the client has taken, with its id, and
   those that need a login behind an AUTH_RESP that accepts it.
-/

namespace SquimpChat
open Octets Transition

/-! ## 1. The order of packets -/

/-- How far the packets of a client have come. -/
inductive SendPhase
  | start | greeted | loggingIn
  /-- the last packet was a KEY_REQ for this name -/
  | asked (name : Key)
deriving DecidableEq

/-- The phase behind a packet. A BYE may be an echo, at any time. -/
def SendPhase.next : SendPhase → Msg → Option SendPhase
  | p, .bye => some p
  | start, .hello _ => some greeted
  | greeted, .authReq _ => some loggingIn
  | greeted, .keyReq m | loggingIn, .keyReq m | asked _, .keyReq m =>
    some (asked (countedName m.usernameLen m.username))
  | asked name, .chatSend m =>
    if countedName m.recipientLen m.recipient = name then some loggingIn else none
  | _, _ => none

/-- The phase behind a list of packets; `none` when they come in another order. -/
def sendPhase (ps : List Packet) : Option SendPhase := ps.foldlM (fun q p => q.next p.msg) .start

def ClientEvent.packet : ClientEvent → Option Packet
  | sent p _ => some p
  | _ => none

/-- The packets given to `sqmp_stream_send` so far, in order. -/
def Client.attempts (c : Client) : List Packet := c.trace.reverse.filterMap (·.packet)

/-- A packet that names the session: all but HELLO and BYE. -/
def Msg.needsSession : Msg → Bool
  | .authReq _ | .keyReq _ | .chatSend _ => true
  | _ => false

/-- The client takes the session id of this HELLO_ACK. It has named no session before. -/
def TakesId (sid : UInt32) (m : ClientMain) (a : MainAction) : Prop :=
  (∃ data, a = .receive data ∧ AcksHello data sid) ∧ m.client.session.state = .hello ∧
    ∀ p ∈ m.client.attempts, p.msg.needsSession = false

/-- The client takes its login for accepted by this AUTH_RESP. It has used none before. -/
def TakesLogin (m : ClientMain) (a : MainAction) : Prop :=
  (∃ data, a = .receive data ∧ AcceptsLogin data) ∧ m.client.session.state = .auth ∧
    ∀ p ∈ m.client.attempts, p.msg.type ≠ .keyReq ∧ p.msg.type ≠ .chatSend

/-- The packets of a client are in order, and each comes with what it needs. -/
structure Conforms (env : ClientEnv) (acts : List MainAction) (m : ClientMain) : Prop where
  order : (sendPhase m.client.attempts).isSome = true
  greeted : ∀ p ∈ m.client.attempts, p.msg.needsSession = true →
    m.client.session.state ≠ .hello ∧ p.sessionId = m.client.session.sessionId ∧
      Sometime (ClientMain.step env) (TakesId p.sessionId) .init acts
  accepted : ∀ p ∈ m.client.attempts, p.msg.type = .keyReq ∨ p.msg.type = .chatSend →
    m.client.session.authOk = true ∧ Sometime (ClientMain.step env) TakesLogin .init acts
  /-- without an AUTH_REQ only `sqmp_login` can have failed -/
  asked : ∀ p ∈ m.client.attempts, p.msg.type = .keyReq →
    (∃ q ∈ m.client.attempts, q.msg.type = .authReq) ∨ m.loginFailed = true

/-! ## 2. What a step sends -/

/-- The packets a step of the client sends. -/
inductive ClientSent (env : ClientEnv) (m : ClientMain) : MainAction → Packet → Prop
  | hello (hpc : m.pc = .hello) : ClientSent env m .main Client.helloPacket
  | authReq {stdin name : Bytes} {hash key : Buf 32} (hpc : m.pc = .login)
      (hname : name.length ≤ 32) :
      ClientSent env m (.login stdin) ⟨m.client.session.sessionId,
        .authReq ⟨UInt8.ofNat name.length, (Buf.zero 32).store name, hash, 32, key.bytes⟩⟩
  | keyReq {recipient msg l : Bytes} (hpc : m.pc = .readline)
      (hl : chatLine l = .message recipient msg) :
      ClientSent env m (.line (some l)) (m.client.keyReqPacket recipient)
  | chatSend {recipient msg ciphertext : Bytes} {key : Buf 32} {nonce : Buf 12}
      (hpc : m.pc = .keyChecked recipient msg) :
      ClientSent env m .main (m.client.chatSendPacket recipient key nonce ciphertext)
  | bye (hpc : m.pc = .bye) : ClientSent env m .main ⟨m.client.session.sessionId, .bye⟩
  | echo {data : Bytes} (hb : isBye data = true) :
      ClientSent env m (.receive data) ⟨m.client.session.sessionId, .bye⟩

/-- The step sends one packet, or none. -/
def StepSends (env : ClientEnv) (m : ClientMain) (a : MainAction) (m' : ClientMain) : Prop :=
  m'.client.attempts = m.client.attempts ∨
    ∃ p, m'.client.attempts = m.client.attempts ++ [p] ∧ ClientSent env m a p

/-- The step leaves one event, or none; a packet sent is one of `ClientSent`. -/
def StepLogs (env : ClientEnv) (m : ClientMain) (a : MainAction) (m' : ClientMain) : Prop :=
  m'.client.trace = m.client.trace ∨
    ∃ e, m'.client.trace = e :: m.client.trace ∧ ∀ p ∈ e.packet, ClientSent env m a p

namespace ClientPacketLemmas

variable {env : ClientEnv} {m m' : ClientMain} {a : MainAction} {c c' : Client}

theorem attempts_log {e : ClientEvent} (h : c'.trace = e :: c.trace) :
    c'.attempts = c.attempts ++ e.packet.toList := by
  rw [Client.attempts, h, List.reverse_cons, List.filterMap_append, Client.attempts]
  cases hp : e.packet <;> simp [hp]

theorem attempts_send {p : Packet} : (c.sqmpStreamSend env p).attempts = c.attempts ++ [p] :=
  attempts_log (e := .sent p _) rfl

theorem sends_of_logs (h : StepLogs env m a m') : StepSends env m a m' := by
  rcases h with h | ⟨e, h, he⟩
  · exact .inl (by rw [Client.attempts, h, Client.attempts])
  · rw [StepSends, attempts_log h]
    cases hp : e.packet with
    | none => exact .inl (List.append_nil _)
    | some p => exact .inr ⟨p, rfl, he p hp⟩

theorem logs_send {p : Packet} {ok : Bool} (h : m'.client.trace = .sent p ok :: m.client.trace)
    (hp : ClientSent env m a p) : StepLogs env m a m' :=
  .inr ⟨_, h, fun q hq => by cases hq; exact hp⟩

/-- A handler leaves one event, or none, and sends nothing but the answer to a BYE. -/
theorem receive_trace {data : Bytes} : (c.receive env data).trace = c.trace ∨
    ∃ e, (c.receive env data).trace = e :: c.trace ∧ ∀ p ∈ e.packet, isBye data = true ∧
      p = ⟨c.session.sessionId, .bye⟩ := by
  have logs {c' : Client} {e : ClientEvent} (h : c'.trace = e :: c.trace) (he : e.packet = none) :
      c'.trace = c.trace ∨ ∃ e, c'.trace = e :: c.trace ∧ ∀ p ∈ e.packet, isBye data = true ∧
        p = ⟨c.session.sessionId, .bye⟩ :=
    .inr ⟨e, h, fun p hp => by rw [he] at hp; cases hp⟩
  unfold Client.receive
  split
  · next c' h =>
    obtain ⟨o, ho, h⟩ := bind_eq_ok.mp h
    split at h
    · unfold Client.sqmpProcessHelloAck at h
      split at h
      · cases h
        exact logs rfl rfl
      · obtain ⟨v, _, h⟩ := bind_eq_ok.mp h
        split at h
        · cases h
          exact logs rfl rfl
        · obtain ⟨sid, _, h⟩ := bind_eq_ok.mp h
          cases h
          exact .inl rfl
    · unfold Client.sqmpProcessAuthResp at h
      split at h
      · obtain ⟨status, _, h⟩ := bind_eq_ok.mp h
        split at h
        · cases h
          exact .inl rfl
        · cases h
          exact logs rfl rfl
      · cases h
        exact logs rfl rfl
    · obtain ⟨key, rfl⟩ := ClientStateLemmas.sqmpProcessKeyResp_ok h
      exact .inl rfl
    · rcases (ClientStateLemmas.sqmpProcessChatDeliver_ok h).2 with ⟨htr, _⟩ | ⟨_, _, htr⟩
      · exact logs htr rfl
      · exact logs htr rfl
    · obtain ⟨code, desc, rfl⟩ := ClientStateLemmas.sqmpProcessError_ok h
      split <;> exact logs rfl rfl
    · cases h
      refine .inr ⟨_, rfl, fun p hp => ⟨?_, ?_⟩⟩
      · rw [isBye, ho]
        rfl
      · cases hp
        rfl
    · cases h
      exact .inl rfl
  · exact logs rfl rfl

theorem receive_client {data : Bytes} :
    (m.receive env data).client = m.client.receive env data := by
  unfold ClientMain.receive
  dsimp only
  split <;> rfl

theorem receive_logs {data : Bytes} : StepLogs env m (.receive data) (m.receive env data) := by
  unfold StepLogs
  rw [receive_client]
  rcases receive_trace (c := m.client) with h | ⟨e, h, he⟩
  · exact .inl h
  · refine .inr ⟨e, h, fun p hp => ?_⟩
    obtain ⟨hb, rfl⟩ := he p hp
    exact .echo hb

/-- `sqmp_login` fails before its AUTH_REQ, or sends one under a name that fits. -/
theorem login_spec (env : ClientEnv) (m : ClientMain) (stdin : Bytes) :
    (m.login env stdin).client.session.standing = m.client.session.standing ∧
      ((m.login env stdin).client = m.client ∧ (m.login env stdin).loginFailed = true ∨
        ∃ (name : Bytes) (hash key : Buf 32) (ok : Bool), name.length ≤ 32 ∧
          (m.login env stdin).client.session.usernameLen = UInt8.ofNat name.length ∧
          (m.login env stdin).client.session.username = m.client.session.username.store name ∧
          (m.login env stdin).client.session.clientPubkey = key ∧
          (m.login env stdin).client.trace = .sent ⟨m.client.session.sessionId, .authReq
            ⟨UInt8.ofNat name.length, (Buf.zero 32).store name, hash, 32, key.bytes⟩⟩ ok ::
              m.client.trace) := by
  unfold ClientMain.login Client.sqmpLogin
  split
  · exact ⟨rfl, .inl ⟨rfl, rfl⟩⟩
  · next line rest _ =>
    dsimp only
    split
    · exact ⟨rfl, .inl ⟨rfl, rfl⟩⟩
    · next hlen =>
      split
      · exact ⟨rfl, .inl ⟨rfl, rfl⟩⟩
      · split
        · exact ⟨rfl, .inl ⟨rfl, rfl⟩⟩
        · exact ⟨rfl, .inr ⟨inputString line, _, _, _, by omega, rfl, rfl, rfl, rfl⟩⟩

theorem login_logs {stdin : Bytes} (hpc : m.pc = .login) :
    StepLogs env m (.login stdin) (m.login env stdin) := by
  rcases (login_spec env m stdin).2 with ⟨h, _⟩ | ⟨name, hash, key, ok, hname, _, _, _, h⟩
  · exact .inl (by rw [h])
  · exact logs_send h (.authReq hpc hname)

theorem line_logs {l : Option Bytes} (hpc : m.pc = .readline) :
    StepLogs env m (.line l) (m.line env l) := by
  unfold ClientMain.line
  split
  · exact .inl rfl
  · split
    · exact .inl rfl
    · exact .inl rfl
    · exact .inl rfl
    · exact .inl rfl
    · next hl => exact logs_send rfl (.keyReq hpc hl)

theorem main_logs (h : m.mainStep env = some m') : StepLogs env m .main m' := by
  unfold ClientMain.mainStep at h
  cases hp : m.pc
  all_goals rw [hp] at h
  case login | readline | done => cases h
  case hello =>
    cases h
    exact logs_send rfl (.hello hp)
  case bye =>
    cases h
    exact logs_send rfl (.bye hp)
  case keyChecked recipient msg =>
    cases h
    unfold StepLogs Client.sendCiphertext
    dsimp only
    split
    · split
      · exact .inl rfl
      · refine .inr ⟨_, rfl, fun q hq => ?_⟩
        cases hq
        exact .chatSend hp
    · exact .inl rfl
  case loginWait | authWait =>
    obtain ⟨_, _, rfl⟩ := Option.map_eq_some_iff.mp h
    exact .inl rfl
  case keyWait | disconnect =>
    obtain ⟨_, h⟩ := Option.ite_none_left_eq_some.mp h
    cases h
    exact .inl rfl
  all_goals
    cases h
    exact .inl rfl

end ClientPacketLemmas
open ClientPacketLemmas

/-- A step of the client leaves one event at most. -/
theorem clientMain_logs {env : ClientEnv} {m m' : ClientMain} {a : MainAction}
    (h : m.step env a = some m') : StepLogs env m a m' := by
  cases a with
  | main => exact main_logs h
  | login stdin =>
    obtain ⟨hpc, h⟩ := Option.ite_none_right_eq_some.mp h
    cases h
    exact login_logs hpc
  | line l =>
    obtain ⟨hpc, h⟩ := Option.ite_none_right_eq_some.mp h
    cases h
    exact line_logs hpc
  | receive data =>
    obtain ⟨_, h⟩ := Option.ite_none_right_eq_some.mp h
    cases h
    exact receive_logs
  | timeout =>
    simp only [ClientMain.step] at h
    split at h <;> cases h
    exact .inl rfl
  | signal k =>
    obtain ⟨_, h⟩ := Option.ite_none_left_eq_some.mp h
    cases h
    exact .inl rfl
  | deliver k | disconnected =>
    obtain ⟨_, h⟩ := Option.ite_none_right_eq_some.mp h
    cases h
    exact .inl rfl

/-- A step of the client sends at most one packet. -/
theorem clientMain_sends {env : ClientEnv} {m m' : ClientMain} {a : MainAction}
    (h : m.step env a = some m') : StepSends env m a m' := sends_of_logs (clientMain_logs h)

/-- Nothing but the posts of the client's semaphores differs. -/
def SameButPosts (x x' : Session) : Prop :=
  ∃ ready done key, x' = { x with loginReady := ready, authDone := done, keyFetchSem := key }

namespace ClientPacketLemmas

variable {env : ClientEnv} {m m' : ClientMain} {a : MainAction}

theorem main_session (h : m.mainStep env = some m') :
    SameButPosts m.client.session m'.client.session := by
  unfold ClientMain.mainStep at h
  cases hp : m.pc
  all_goals rw [hp] at h
  case login | readline | done => cases h
  case loginWait | authWait =>
    obtain ⟨_, _, rfl⟩ := Option.map_eq_some_iff.mp h
    exact ⟨_, _, _, rfl⟩
  case keyWait | disconnect =>
    obtain ⟨_, h⟩ := Option.ite_none_left_eq_some.mp h
    cases h
    exact ⟨_, _, _, rfl⟩
  case keyChecked =>
    cases h
    unfold Client.sendCiphertext
    dsimp only
    split
    · split <;> exact ⟨_, _, _, rfl⟩
    · exact ⟨_, _, _, rfl⟩
  all_goals
    cases h
    exact ⟨_, _, _, rfl⟩

theorem line_session {l : Option Bytes} :
    (m.line env l).client.session = m.client.session := by
  unfold ClientMain.line
  split
  · rfl
  · split <;> rfl

/-- A packet and `sqmp_login` change the session, the other steps its posts at most. -/
theorem step_session (h : m.step env a = some m') :
    (∃ data, a = .receive data ∧ m' = m.receive env data) ∨
    (∃ stdin, a = .login stdin ∧ m' = m.login env stdin) ∨
    SameButPosts m.client.session m'.client.session := by
  cases a with
  | main => exact .inr (.inr (main_session h))
  | receive data =>
    obtain ⟨_, h⟩ := Option.ite_none_right_eq_some.mp h
    cases h
    exact .inl ⟨data, rfl, rfl⟩
  | login stdin =>
    obtain ⟨_, h⟩ := Option.ite_none_right_eq_some.mp h
    cases h
    exact .inr (.inl ⟨stdin, rfl, rfl⟩)
  | line l =>
    obtain ⟨_, h⟩ := Option.ite_none_right_eq_some.mp h
    cases h
    exact .inr (.inr ⟨_, _, _, line_session⟩)
  | timeout =>
    simp only [ClientMain.step] at h
    split at h <;> cases h
    exact .inr (.inr ⟨_, _, _, rfl⟩)
  | signal k =>
    obtain ⟨_, h⟩ := Option.ite_none_left_eq_some.mp h
    cases h
    exact .inr (.inr ⟨_, _, _, rfl⟩)
  | deliver k | disconnected =>
    obtain ⟨_, h⟩ := Option.ite_none_right_eq_some.mp h
    cases h
    exact .inr (.inr ⟨_, _, _, rfl⟩)

/-- Only a packet advances the login. -/
theorem step_advance (h : m.step env a = some m') :
    (∃ data, a = .receive data ∧
      Advance data m.client.session.standing m'.client.session.standing) ∨
    m'.client.session.state = m.client.session.state ∧
      m'.client.session.sessionId = m.client.session.sessionId ∧
      m'.client.session.authOk = m.client.session.authOk := by
  rcases step_session h with ⟨data, rfl, rfl⟩ | ⟨stdin, _, rfl⟩ | ⟨_, _, _, hx⟩
  · refine .inl ⟨data, rfl, ?_⟩
    rw [receive_client]
    exact receive_advance m.client data
  · have hst := (login_spec env m stdin).1
    exact .inr ⟨congrArg Standing.state hst, congrArg Standing.sessionId hst,
      congrArg Standing.authOk hst⟩
  · rw [hx]
    exact .inr ⟨rfl, rfl, rfl⟩

end ClientPacketLemmas

/-! ## 3. What the main thread knows -/

namespace ClientPacketLemmas

/-- An AUTH_REQ was sent, or `sqmp_login` has failed. -/
def Asks (m : ClientMain) : Prop :=
  (∃ q ∈ m.client.attempts, q.msg.type = .authReq) ∨ m.loginFailed = true

/-- The KEY_REQ of `send_chat` is the last packet. -/
def Asked (recipient : Bytes) (q : SendPhase) : Prop :=
  q = .asked (countedName (UInt8.ofNat recipient.length) ((Buf.zero 32).store recipient))

/-- Where the main thread is, how far the packets have come, and what led there. -/
def Stands (m : ClientMain) (q : SendPhase) : Prop :=
  match m.pc with
  | .hello => q = .start
  | .loginWait _ => q = .greeted
  | .loginTest => q = .greeted ∧
    (m.client.session.state ≠ .hello ∨ m.client.interrupted = true)
  | .login => q = .greeted ∧ m.client.session.state ≠ .hello
  | .authWait _ | .authTest => (q = .greeted ∨ q = .loggingIn) ∧
    (Asks m ∨ m.client.interrupted = true)
  | .chatTest | .readline => q ≠ .start ∧ m.client.session.authOk = true ∧ Asks m
  | .keyWait recipient _ | .keyFetched recipient _ | .keyChecked recipient _ =>
    Asked recipient q ∧ m.client.session.authOk = true ∧ Asks m
  | .aliveTest | .bye | .disconnect | .done => True

/-- What no step takes back of a login. -/
structure Kept (x x' : Standing) : Prop where
  greeted : x.state ≠ .hello → x'.state ≠ .hello ∧ x'.sessionId = x.sessionId
  accepted : (x.authOk = true → x.state = .connEstablished) → x.authOk = true → x'.authOk = true
  ready : (0 < x.loginReady → x.state ≠ .hello) → 0 < x'.loginReady → x'.state ≠ .hello
  ok : (x.authOk = true → x.state = .connEstablished) →
    x'.authOk = true → x'.state = .connEstablished

theorem kept_refl (x : Standing) : Kept x x :=
  ⟨fun h => ⟨h, rfl⟩, fun _ h => h, fun h => h, fun h => h⟩

/-- A wait takes a post. -/
theorem kept_take {x : Standing} {n : Nat} (h : n ≤ x.loginReady) :
    Kept x { x with loginReady := n } :=
  ⟨fun h => ⟨h, rfl⟩, fun _ h => h, fun hr hn => hr (Nat.lt_of_lt_of_le hn h), fun h => h⟩

theorem kept_advance {data : Bytes} {x x' : Standing} (h : Advance data x x') : Kept x x' := by
  cases h with
  | stays => exact kept_refl x
  | greeted hst =>
    exact ⟨fun h => absurd hst h, fun _ h => h, fun _ _ => nofun,
      fun hok h => (nomatch hst.symm.trans (hok h))⟩
  | accepted hst =>
    exact ⟨fun _ => ⟨nofun, rfl⟩, fun _ _ => rfl, fun _ _ => nofun, fun _ _ => rfl⟩
  | rejected hst =>
    exact ⟨fun h => ⟨h, rfl⟩, fun hok h => (nomatch hst.symm.trans (hok h)), fun hr => hr, nofun⟩

/-- What every step keeps. -/
structure ConformInv (m : ClientMain) : Prop where
  phase : ∃ q, sendPhase m.client.attempts = some q ∧ Stands m q
  ready : 0 < m.client.session.loginReady → m.client.session.state ≠ .hello
  ok : m.client.session.authOk = true → m.client.session.state = .connEstablished
  greeted : ∀ p ∈ m.client.attempts, p.msg.needsSession = true →
    m.client.session.state ≠ .hello ∧ p.sessionId = m.client.session.sessionId
  accepted : ∀ p ∈ m.client.attempts, p.msg.type = .keyReq ∨ p.msg.type = .chatSend →
    m.client.session.authOk = true
  asked : ∀ p ∈ m.client.attempts, p.msg.type = .keyReq → Asks m

variable {env : ClientEnv} {m m' : ClientMain} {a : MainAction} {ps : List Packet} {q : SendPhase}

/-- A step that leads on from the phase before it. -/
structure LeadsOn (m m' : ClientMain) (ps : List Packet) : Prop where
  attempts : m'.client.attempts = m.client.attempts ++ ps
  kept : Kept m.client.session.standing m'.client.session.standing
  asks : Asks m → Asks m'
  phase : ∀ q, Stands m q → ∃ q', ps.foldlM (fun q p => q.next p.msg) q = some q' ∧ Stands m' q'
  needs : ∀ p ∈ ps, p.msg.needsSession = true →
    m.client.session.state ≠ .hello ∧ p.sessionId = m.client.session.sessionId
  accepted : ∀ p ∈ ps, p.msg.type = .keyReq ∨ p.msg.type = .chatSend →
    m.client.session.authOk = true
  asked : ∀ p ∈ ps, p.msg.type = .keyReq → Asks m

theorem asks_append (ht : m'.client.attempts = m.client.attempts ++ ps)
    (hf : m'.loginFailed = m.loginFailed) (ha : Asks m) : Asks m' := by
  rcases ha with ⟨q, hq, htype⟩ | hfail
  · exact .inl ⟨q, by rw [ht]; exact List.mem_append_left _ hq, htype⟩
  · exact .inr (hf.trans hfail)

theorem conformInv_step (hi : ConformInv m) (h : LeadsOn m m' ps) : ConformInv m' := by
  have hacc : m.client.session.authOk = true → m'.client.session.authOk = true :=
    h.kept.accepted hi.ok
  refine ⟨?_, h.kept.ready hi.ready, h.kept.ok hi.ok, fun p hp hn => ?_, fun p hp ht => ?_,
    fun p hp ht => ?_⟩
  · obtain ⟨q, hq, hs⟩ := hi.phase
    obtain ⟨q', hq', hs'⟩ := h.phase q hs
    refine ⟨q', ?_, hs'⟩
    rw [sendPhase, h.attempts, List.foldlM_append]
    exact Option.bind_eq_some_iff.mpr ⟨q, hq, hq'⟩
  all_goals rw [h.attempts, List.mem_append] at hp
  · obtain ⟨hst, hid⟩ := hp.elim (fun hp => hi.greeted p hp hn) (fun hp => h.needs p hp hn)
    obtain ⟨hst', hid'⟩ := h.kept.greeted hst
    exact ⟨hst', hid.trans hid'.symm⟩
  · exact hacc (hp.elim (fun hp => hi.accepted p hp ht) (fun hp => h.accepted p hp ht))
  · exact h.asks (hp.elim (fun hp => hi.asked p hp ht) (fun hp => h.asked p hp ht))

/-- A step that sends nothing. -/
theorem leadsOn_silent (ht : m'.client.attempts = m.client.attempts)
    (hk : Kept m.client.session.standing m'.client.session.standing)
    (hf : m'.loginFailed = m.loginFailed) (hs : ∀ q, Stands m q → Stands m' q) :
    LeadsOn m m' [] :=
  have ht : m'.client.attempts = m.client.attempts ++ [] := ht.trans (List.append_nil _).symm
  ⟨ht, hk, asks_append ht hf, fun q hq => ⟨q, rfl, hs q hq⟩, nofun, nofun, nofun⟩

/-- What happens beside the main thread leaves it where it stands. -/
theorem stands_beside (hi : ConformInv m)
    (hk : Kept m.client.session.standing m'.client.session.standing)
    (ha : Asks m → Asks m') (hint : m.client.interrupted = true → m'.client.interrupted = true)
    (hpc : m'.pc = m.pc) (hs : Stands m q) : Stands m' q := by
  have hst : m.client.session.state ≠ .hello → m'.client.session.state ≠ .hello :=
    fun h => (hk.greeted h).1
  have hok : m.client.session.authOk = true → m'.client.session.authOk = true :=
    hk.accepted hi.ok
  unfold Stands at hs ⊢
  rw [hpc]
  split at hs
  · exact hs
  · exact hs
  · exact ⟨hs.1, hs.2.imp hst hint⟩
  · exact ⟨hs.1, hst hs.2⟩
  · exact ⟨hs.1, hs.2.imp ha hint⟩
  · exact ⟨hs.1, hs.2.imp ha hint⟩
  · exact ⟨hs.1, hok hs.2.1, ha hs.2.2⟩
  · exact ⟨hs.1, hok hs.2.1, ha hs.2.2⟩
  · exact ⟨hs.1, hok hs.2.1, ha hs.2.2⟩
  · exact ⟨hs.1, hok hs.2.1, ha hs.2.2⟩
  · exact ⟨hs.1, hok hs.2.1, ha hs.2.2⟩
  all_goals trivial

theorem stands_interrupt {k : MainSignal} (hs : Stands m q) : Stands (m.handle k) q := by
  cases hpc : m.pc
  all_goals simp only [Stands, hpc] at hs
  case loginWait w => cases w <;> simpa only [Stands, ClientMain.handle, hpc, MainPc.interrupt]
  case authWait w =>
    cases w <;> simp only [Stands, ClientMain.handle, hpc, MainPc.interrupt] <;>
      exact ⟨hs.1, .inr trivial⟩
  case loginTest =>
    simp only [Stands, ClientMain.handle, hpc, MainPc.interrupt]
    exact ⟨hs.1, .inr trivial⟩
  case authTest =>
    simp only [Stands, ClientMain.handle, hpc, MainPc.interrupt]
    exact ⟨hs.1, .inr trivial⟩
  case aliveTest | bye | disconnect | done =>
    simp only [Stands, ClientMain.handle, hpc, MainPc.interrupt]
  all_goals
    simp only [Stands, ClientMain.handle, hpc, MainPc.interrupt]
    exact hs

/-! ### Each action -/

theorem leadsOn_receive {data : Bytes} (hi : ConformInv m) :
    ∃ ps, LeadsOn m (m.receive env data) ps := by
  have hk : Kept m.client.session.standing (m.receive env data).client.session.standing := by
    rw [receive_client]
    exact kept_advance (receive_advance m.client data)
  have hint : m.client.interrupted = true → (m.receive env data).client.interrupted = true := by
    rw [receive_client, (receive_posts env m.client data).interrupted]
    exact fun h => by rw [h, Bool.true_or]
  have hpc : (m.receive env data).pc = m.pc ∧
      (m.receive env data).loginFailed = m.loginFailed := by
    unfold ClientMain.receive
    dsimp only
    split <;> exact ⟨rfl, rfl⟩
  rcases sends_of_logs (receive_logs : StepLogs env m (.receive data) (m.receive env data))
    with ht | ⟨p, ht, hp⟩
  · have ht : (m.receive env data).client.attempts = m.client.attempts ++ [] :=
      ht.trans (List.append_nil _).symm
    exact ⟨[], ht, hk, asks_append ht hpc.2,
      fun q hs => ⟨q, rfl, stands_beside hi hk (asks_append ht hpc.2) hint hpc.1 hs⟩,
      nofun, nofun, nofun⟩
  · cases hp
    exact ⟨_, ht, hk, asks_append ht hpc.2,
      fun q hs => ⟨q, by cases q <;> rfl,
        stands_beside hi hk (asks_append ht hpc.2) hint hpc.1 hs⟩,
      by simp [Msg.needsSession], by simp [Msg.type], by simp [Msg.type]⟩

theorem leadsOn_login {stdin : Bytes} (hi : ConformInv m) (hpc : m.pc = .login) :
    ∃ ps, LeadsOn m (m.login env stdin) ps := by
  obtain ⟨q, _, hq⟩ := hi.phase
  simp only [Stands, hpc] at hq
  obtain ⟨hst, ⟨hc, hf⟩ | ⟨name, hash, key, ok, _, _, _, _, htr⟩⟩ := login_spec env m stdin
  · have hasks : Asks (m.login env stdin) := .inr hf
    refine ⟨[], by rw [hc, List.append_nil], hst ▸ kept_refl _, fun _ => hasks,
      fun q hs => ⟨q, rfl, ?_⟩, nofun, nofun, nofun⟩
    simp only [Stands, hpc] at hs
    exact ⟨.inl hs.1, .inl hasks⟩
  · have ht := attempts_log htr
    have hasks : Asks (m.login env stdin) := .inl ⟨_, by rw [ht]; exact List.mem_concat_self, rfl⟩
    refine ⟨_, ht, hst ▸ kept_refl _, fun _ => hasks, fun q hs => ⟨.loggingIn, ?_, ?_⟩,
      fun p hp _ => ?_, fun p hp => ?_, fun p hp => ?_⟩
    · simp only [Stands, hpc] at hs
      rw [hs.1]
      rfl
    · exact ⟨.inr rfl, .inl hasks⟩
    all_goals cases List.mem_singleton.mp hp
    · exact ⟨hq.2, rfl⟩
    · simp [Msg.type]
    · simp [Msg.type]

/-- Back to the test of the chat loop, after anything that needs a login. -/
theorem leadsOn_chatTest (hc : m'.client.attempts = m.client.attempts)
    (hk : Kept m.client.session.standing m'.client.session.standing)
    (hf : m'.loginFailed = m.loginFailed) (hpc : m'.pc = .chatTest)
    (hs : ∀ q, Stands m q → q ≠ .start ∧ m'.client.session.authOk = true ∧ Asks m) :
    LeadsOn m m' [] := by
  refine leadsOn_silent hc hk hf fun q hq => ?_
  obtain ⟨hne, hok, hasks⟩ := hs q hq
  simp only [Stands, hpc]
  exact ⟨hne, hok, asks_append (hc.trans (List.append_nil _).symm) hf hasks⟩

theorem leadsOn_line {l : Option Bytes} (hi : ConformInv m) (hpc : m.pc = .readline) :
    ∃ ps, LeadsOn m (m.line env l) ps := by
  obtain ⟨q, _, hq⟩ := hi.phase
  simp only [Stands, hpc] at hq
  obtain ⟨_, hok, hasks⟩ := hq
  have hst : m.client.session.state ≠ .hello := fun h => nomatch h.symm.trans (hi.ok hok)
  have hchat : ∀ q, Stands m q → q ≠ .start ∧ m.client.session.authOk = true ∧ Asks m :=
    fun q hs => by simpa only [Stands, hpc] using hs
  unfold ClientMain.line
  split
  · exact ⟨[], leadsOn_silent rfl (kept_refl _) rfl fun _ _ => trivial⟩
  · split
    · exact ⟨[], leadsOn_silent rfl (kept_refl _) rfl fun _ _ => trivial⟩
    · exact ⟨[], leadsOn_chatTest rfl (kept_refl _) rfl rfl hchat⟩
    · exact ⟨[], leadsOn_chatTest rfl (kept_refl _) rfl rfl hchat⟩
    · exact ⟨[], leadsOn_chatTest rfl (kept_refl _) rfl rfl hchat⟩
    · next recipient msg _ =>
      refine ⟨_, attempts_send, kept_refl _, asks_append attempts_send rfl,
        fun q hs => ⟨_, ?_, rfl, hok, asks_append attempts_send rfl hasks⟩, fun p hp _ => ?_,
        fun _ _ _ => hok, fun _ _ _ => hasks⟩
      · simp only [Stands, hpc] at hs
        cases q with
        | start => exact absurd rfl hs.1
        | greeted | loggingIn | asked => rfl
      · cases List.mem_singleton.mp hp
        exact ⟨hst, rfl⟩

theorem ne_start_of_asked {recipient : Bytes} (h : Asked recipient q) : q ≠ .start := by
  rw [h]
  nofun

/-- `send_chat` behind the wait for the key. -/
theorem leadsOn_ciphertext {recipient msg : Bytes} (hi : ConformInv m)
    (hpc : m.pc = .keyChecked recipient msg) :
    ∃ ps, LeadsOn m { m with client := m.client.sendCiphertext env recipient msg, pc := .chatTest }
      ps := by
  obtain ⟨q, _, hq⟩ := hi.phase
  simp only [Stands, hpc] at hq
  obtain ⟨_, hok, hasks⟩ := hq
  have hst : m.client.session.state ≠ .hello := fun h => nomatch h.symm.trans (hi.ok hok)
  have hchat : ∀ q, Stands m q → q ≠ .start ∧ m.client.session.authOk = true ∧ Asks m :=
    fun q hs => by
      simp only [Stands, hpc] at hs
      exact ⟨ne_start_of_asked hs.1, hs.2⟩
  unfold Client.sendCiphertext
  split
  · split
    · exact ⟨[], leadsOn_chatTest rfl (kept_refl _) rfl rfl hchat⟩
    · refine ⟨_, attempts_send, kept_refl _, asks_append attempts_send rfl,
        fun q hs => ⟨.loggingIn, ?_, nofun, hok, asks_append attempts_send rfl hasks⟩,
        fun p hp _ => ?_, fun _ _ _ => hok, fun _ _ _ => hasks⟩
      · simp only [Stands, hpc] at hs
        rw [hs.1]
        show (if _ = _ then some SendPhase.loggingIn else none).bind _ = _
        rw [if_pos rfl]
        rfl
      · cases List.mem_singleton.mp hp
        exact ⟨hst, rfl⟩
  · exact ⟨[], leadsOn_chatTest rfl (kept_refl _) rfl rfl hchat⟩

theorem standing_take {x : Session} {n : Nat} (h : n ≤ x.loginReady) :
    Kept x.standing { x with loginReady := n }.standing :=
  kept_take (x := x.standing) h

theorem leadsOn_main (hi : ConformInv m) (h : m.mainStep env = some m') :
    ∃ ps, LeadsOn m m' ps := by
  unfold ClientMain.mainStep at h
  obtain ⟨q, _, hq⟩ := hi.phase
  cases hpc : m.pc
  all_goals
    rw [hpc] at h
    simp only [Stands, hpc] at hq
  case login | readline | done => cases h
  case hello =>
    cases h
    refine ⟨_, attempts_send, kept_refl _, asks_append attempts_send rfl,
      fun q hs => ⟨.greeted, ?_, rfl⟩, fun p hp hn => ?_, by simp [Msg.type, Client.helloPacket],
      by simp [Msg.type, Client.helloPacket]⟩
    · simp only [Stands, hpc] at hs
      rw [hs]
      rfl
    · cases List.mem_singleton.mp hp
      cases hn
  case loginWait w =>
    obtain ⟨⟨n, w'⟩, hw, rfl⟩ := Option.map_eq_some_iff.mp h
    refine ⟨[], leadsOn_silent rfl (standing_take ?_) rfl fun q hs => ?_⟩
    · cases WaitPc.next_step hw <;> omega
    · simp only [Stands, hpc] at hs
      cases WaitPc.next_step hw with
      | blocks | retries => exact hs
      | takes _ h0 => exact ⟨hs, .inl (hi.ready h0)⟩
      | leaves hint => exact ⟨hs, .inr hint⟩
  case authWait w =>
    obtain ⟨⟨n, w'⟩, hw, rfl⟩ := Option.map_eq_some_iff.mp h
    refine ⟨[], leadsOn_silent rfl (kept_refl _) rfl fun q hs => ?_⟩
    simp only [Stands, hpc] at hs
    cases w' <;> exact hs
  case loginTest =>
    cases h
    refine ⟨[], leadsOn_silent rfl (kept_refl _) rfl fun q hs => ?_⟩
    simp only [Stands, hpc] at hs
    by_cases hint : m.client.interrupted = true
    · rw [if_pos hint]
      exact ⟨.inl hs.1, .inr hint⟩
    · rw [if_neg hint]
      exact ⟨hs.1, hs.2.resolve_right hint⟩
  case authTest =>
    cases h
    refine ⟨[], leadsOn_silent rfl (kept_refl _) rfl fun q hs => ?_⟩
    simp only [Stands, hpc] at hs
    by_cases hc : (!m.client.interrupted && m.client.session.authOk) = true
    · rw [if_pos hc]
      simp only [Bool.and_eq_true, Bool.not_eq_true'] at hc
      refine ⟨?_, hc.2, hs.2.resolve_right (by simp [hc.1])⟩
      rintro rfl
      rcases hs.1 with h | h <;> cases h
    · rw [if_neg hc]
      trivial
  case chatTest =>
    cases h
    refine ⟨[], leadsOn_silent rfl (kept_refl _) rfl fun q hs => ?_⟩
    simp only [Stands, hpc] at hs
    by_cases hint : m.client.interrupted = true
    · rw [if_pos hint]
      trivial
    · rw [if_neg hint]
      exact hs
  case keyWait recipient msg =>
    obtain ⟨_, h⟩ := Option.ite_none_left_eq_some.mp h
    cases h
    refine ⟨[], leadsOn_silent rfl (kept_refl _) rfl fun q hs => ?_⟩
    simp only [Stands, hpc] at hs
    exact hs
  case keyFetched recipient msg =>
    cases h
    refine ⟨[], leadsOn_silent rfl (kept_refl _) rfl fun q hs => ?_⟩
    simp only [Stands, hpc] at hs
    by_cases hz : m.client.session.keyFetchResult = Buf.zero 32
    · rw [if_pos hz]
      exact ⟨ne_start_of_asked hs.1, hs.2⟩
    · rw [if_neg hz]
      exact hs
  case keyChecked recipient msg =>
    cases h
    exact leadsOn_ciphertext hi hpc
  case aliveTest =>
    cases h
    refine ⟨[], leadsOn_silent rfl (kept_refl _) rfl fun q _ => ?_⟩
    by_cases ha : m.connAlive = true
    · rw [if_pos ha]
      trivial
    · rw [if_neg ha]
      trivial
  case bye =>
    cases h
    exact ⟨_, attempts_send, kept_refl _, asks_append attempts_send rfl,
      fun q hs => ⟨q, by cases q <;> rfl, trivial⟩, by simp [Msg.needsSession], by simp [Msg.type],
      by simp [Msg.type]⟩
  case disconnect =>
    obtain ⟨_, h⟩ := Option.ite_none_left_eq_some.mp h
    cases h
    exact ⟨[], leadsOn_silent rfl (kept_refl _) rfl fun _ _ => trivial⟩

theorem conform_step (hi : ConformInv m) (h : m.step env a = some m') : ConformInv m' := by
  obtain ⟨ps, hl⟩ : ∃ ps, LeadsOn m m' ps := by
    cases a with
    | main => exact leadsOn_main hi h
    | login stdin =>
      obtain ⟨hpc, h⟩ := Option.ite_none_right_eq_some.mp h
      cases h
      exact leadsOn_login hi hpc
    | line l =>
      obtain ⟨hpc, h⟩ := Option.ite_none_right_eq_some.mp h
      cases h
      exact leadsOn_line hi hpc
    | receive data =>
      obtain ⟨_, h⟩ := Option.ite_none_right_eq_some.mp h
      cases h
      exact leadsOn_receive hi
    | timeout =>
      simp only [ClientMain.step] at h
      split at h
      · next recipient msg hpc =>
        cases h
        refine ⟨[], leadsOn_chatTest rfl (kept_refl _) rfl rfl fun q hs => ?_⟩
        simp only [Stands, hpc] at hs
        exact ⟨ne_start_of_asked hs.1, hs.2⟩
      · cases h
    | signal k =>
      obtain ⟨_, h⟩ := Option.ite_none_left_eq_some.mp h
      cases h
      exact ⟨[], leadsOn_silent rfl (kept_refl _) rfl fun _ hs => hs⟩
    | deliver k =>
      obtain ⟨_, h⟩ := Option.ite_none_right_eq_some.mp h
      cases h
      exact ⟨[], leadsOn_silent rfl (kept_refl _) rfl fun _ hs => stands_interrupt hs⟩
    | disconnected =>
      obtain ⟨_, h⟩ := Option.ite_none_right_eq_some.mp h
      cases h
      refine ⟨[], leadsOn_silent rfl (kept_refl _) rfl fun q hs => ?_⟩
      exact stands_beside hi (kept_refl _) id (fun _ => rfl) rfl hs
  exact conformInv_step hi hl

theorem conform_init : ConformInv .init where
  phase := ⟨.start, rfl, rfl⟩
  ready h := absurd h (by decide)
  ok h := absurd h (by decide)
  greeted := nofun
  accepted := nofun
  asked := nofun

/-! ### What the packets go back to -/

/-- The id of a client past HELLO is that of the HELLO_ACK it has taken. -/
theorem takesId_run {acts : List MainAction} {sid : UInt32}
    (h : run (ClientMain.step env) .init acts = some m) (hst : m.client.session.state ≠ .hello)
    (hid : m.client.session.sessionId = sid) :
    Sometime (ClientMain.step env) (TakesId sid) .init acts := by
  refine (run_since (Q := fun m => m.client.session.state ≠ .hello ∧
    m.client.session.sessionId = sid) (fun _ _ _ => conform_step) ?_ conform_init h
    ⟨hst, hid⟩).resolve_left fun h => h.1 rfl
  -- a step either leaves the state and the id alone or is the one that takes them
  intro m a m' hi hs ⟨hst, hid⟩
  rcases step_advance hs with ⟨data, rfl, hadv⟩ | ⟨hst', hid', _⟩
  · rcases hadv.leaves_hello hst with ⟨hst, hid'⟩ | ⟨hhello, hack⟩
    · exact .inl ⟨hst, hid'.symm.trans hid⟩
    · refine .inr ⟨⟨data, rfl, hid ▸ hack⟩, hhello, fun p hp => ?_⟩
      exact Bool.eq_false_iff.mpr fun hn => (hi.greeted p hp hn).1 hhello
  · exact .inl ⟨hst' ▸ hst, hid'.symm.trans hid⟩

/-- A client that is logged in has taken an AUTH_RESP for it. -/
theorem takesLogin_run {acts : List MainAction}
    (h : run (ClientMain.step env) .init acts = some m)
    (hok : m.client.session.authOk = true) :
    Sometime (ClientMain.step env) TakesLogin .init acts := by
  refine (run_since (Q := fun m => m.client.session.authOk = true) (fun _ _ _ => conform_step) ?_
    conform_init h hok).resolve_left nofun
  intro m a m' hi hs hok
  rcases step_advance hs with ⟨data, rfl, hadv⟩ | ⟨_, _, hok'⟩
  · rcases hadv.accepted_of_authOk hok with hok | ⟨hauth, hacc⟩
    · exact .inl hok
    -- in state AUTH `auth_ok` is not set yet, and every KEY_REQ comes behind it
    · refine .inr ⟨⟨data, rfl, hacc⟩, hauth, fun p hp => ?_⟩
      have hnone : m.client.session.authOk ≠ true := fun h => nomatch (hi.ok h).symm.trans hauth
      exact not_or.mp fun ht => hnone (hi.accepted p hp ht)
  · exact .inl (hok'.symm.trans hok)

end ClientPacketLemmas

/-- Whatever the server, the user and the signals do, a client's packets are in order. -/
theorem client_conforms {env : ClientEnv} {acts : List MainAction} {m : ClientMain}
    (h : run (ClientMain.step env) .init acts = some m) : Conforms env acts m := by
  have hi := run_always (fun _ _ _ => conform_step) conform_init h
  obtain ⟨q, hq, _⟩ := hi.phase
  refine ⟨by rw [hq]; rfl, fun p hp hn => ?_, fun p hp ht => ?_, hi.asked⟩
  · obtain ⟨hst, hid⟩ := hi.greeted p hp hn
    exact ⟨hst, hid, takesId_run h hst hid.symm⟩
  · have hok := hi.accepted p hp ht
    exact ⟨hok, takesLogin_run h hok⟩

/-- Only keys are made, all of them zero. -/
def OpenSSL.zeroKeys : OpenSSL := { OpenSSL.failing with keygen := fun _ => some (Buf.zero 32) }

/-- A login as `abc` in session 1. -/
def clientLogin : List MainAction :=
  [.main, .receive (Packet.mk 1 (.helloAck ⟨1, 65535⟩)).bytes, .main, .main,
    .login [97, 98, 99, 10, 120, 10]]

/-- A message to `bob`, whose key does not come. -/
def unansweredChat : List MainAction :=
  clientLogin ++ [.receive (Packet.mk 1 (.authResp ⟨0, 1⟩)).bytes, .main, .main, .main,
    .line (some [98, 111, 98, 32, 104, 105]), .timeout]

theorem conforms_unansweredChat : ∃ m,
    run (ClientMain.step (.fair .zeroKeys)) .init unansweredChat = some m ∧
    m.client.attempts.map (·.msg.type) = [.hello, .authReq, .keyReq] ∧
    Conforms (.fair .zeroKeys) unansweredChat m := by
  obtain ⟨m, hr, ht⟩ := run_reaches (ClientMain.step (.fair .zeroKeys)) .init unansweredChat
    (fun m => m.client.attempts.map (·.msg.type) = [.hello, .authReq, .keyReq]) (by decide +kernel)
  exact ⟨m, hr, ht, client_conforms hr⟩

end SquimpChat
