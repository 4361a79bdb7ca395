import SquimpChat.ClientShutdown
import SquimpChat.SessionIds
import SquimpChat.Relay
import SquimpChat.Lib.Link

/-!
# The BYE exchange

Either side can send BYE, and the other is to echo it before the connection closes. Three places
of the code send one: the end of the client's `main`, the client's handler of BYE, and
`sqmp_registry_send_bye_all` when the server stops. The server's handler does not, and the client
comes to the end of `main` behind its handler as well.

`Exchange` joins a client and the server by two lossless links. Everything else goes on meanwhile:
the other clients, the auth loop, signals on both sides. The connection closes when nothing is in
flight, by whichever side notices first.

Results:
1. `bye_exchange_iff`: behind a login, a closed connection on which a BYE was sent has carried one
   in each direction exactly if `main` has not come to send its own while the connection was up.
2. `bye_unanswered`: a client that quits, and a server that stops.
-/

namespace SquimpChat
open Octets Transition Lossless RelayLemmas SessionIdLemmas

/-! ## 1. A client and the server -/

/-- A client and the server. -/
structure Exchange where
  client : ClientMain
  server : Server
  /-- from the client to the server -/
  up : Link Packet
  down : Link Packet

inductive ExchangeAction
  | client (a : MainAction)
  | server (a : Action)
  /-- the server receives the client's next packet; a CHAT_SEND handler may stop behind its
  lookup -/
  | toServer (split : Bool)
  | toClient

def ClientEvent.asSent : ClientEvent → Option Packet
  | sent p true => some p
  | _ => none

def ClientEvent.isSent : ClientEvent → Bool
  | sent .. => true
  | _ => false

/-- What the client has sent between two states, in order. -/
def sentBetween (c c' : Client) : List Packet :=
  (c'.trace.take (c'.trace.length - c.trace.length)).reverse.filterMap (·.asSent)

namespace Exchange

variable (env : Env) (cenv : ClientEnv) (st : StreamId) (w : Exchange)

/-- The connection is up on both sides. -/
def isOpen : Bool := w.server.isLive st && w.client.connAlive

/-- A connection that is up closes only when nothing is in flight. -/
def mayClose : Bool := !w.isOpen st || (w.up.pending.isEmpty && w.down.pending.isEmpty)

/-- The client moves on; what it sends on a connection that is up goes out. -/
def withClient (m : ClientMain) : Exchange :=
  { w with
    client := m
    up := if w.isOpen st then w.up.send (sentBetween w.client.client m.client) else w.up }

/-- The server moves on; what it sends on the client's stream goes out. -/
def withServer (σ : Server) : Exchange :=
  { w with
    server := σ
    down := if w.isOpen st then w.down.send (packetsOn (newEvents w.server σ) st) else w.down }

/-- The client receives from the link only. -/
def clientMay : MainAction → Bool
  | .receive _ => false
  | .disconnected => w.mayClose st
  | _ => true

/-- The server receives from the client's stream by the link only. -/
def serverMay : Action → Bool
  | .received st' _ | .chatLookup st' _ => st' ≠ st
  | .streamClosed st' => st' ≠ st || w.mayClose st
  | _ => true

def step : ExchangeAction → Option Exchange
  | .client a =>
    if w.clientMay st a then (w.client.step cenv a).map (w.withClient st) else none
  | .server a =>
    if w.serverMay st a then (SquimpChat.step env w.server a).map (w.withServer st) else none
  | .toServer split => w.up.deliver.bind fun (p, up) =>
    (SquimpChat.step env w.server
      (if split then .chatLookup st p.bytes else .received st p.bytes)).map
        ({ w with up }.withServer st)
  | .toClient => w.down.deliver.bind fun (p, down) =>
    (w.client.step cenv (.receive p.bytes)).map ({ w with down }.withClient st)

end Exchange

/-! ## 2. BYEs -/

def Packet.isBye (p : Packet) : Bool := p.msg.type = .bye

namespace Exchange

variable (w : Exchange)

/-- The BYEs the client has sent. -/
def clientByes : Nat := w.up.count Packet.isBye

/-- The BYEs the server has sent. -/
def serverByes : Nat := w.down.count Packet.isBye

/-- The BYEs the client has not received yet. -/
def byesToCome : Nat := w.down.inFlight Packet.isBye

end Exchange

/-- The worker has the session or the auth queue leads to it. -/
def Serves (σ : Server) (s : SessionId) : Prop := σ.pc.pending = some s ∨ σ.queue.Reaches s

/-- The client is logged in on the stream, once, and nobody has said BYE. -/
structure AfterLogin (env : Env) (st : StreamId) (s : SessionId) (w : Exchange) : Prop where
  reachable : ∃ acts, serverRun env acts = some w.server
  user : (w.server.stream st).userData = some s
  established : (w.server.session s).state = .connEstablished
  /-- the worker is done with the login -/
  served : ¬ Serves w.server s
  /-- there is one entry for it -/
  entry : ∀ i j, w.server.registry.streamAt i = some st → w.server.registry.streamAt j = some st →
    i = j
  isOpen : w.isOpen st = true
  clientByes : w.clientByes = 0
  serverByes : w.serverByes = 0

/-- The main thread does not send its BYE on a connection that is up. -/
def NoOwnBye (st : StreamId) (w : Exchange) : ExchangeAction → Prop
  | .client .main => w.client.pc = .bye → w.isOpen st = false
  | _ => True

instance {st : StreamId} {w : Exchange} : ∀ a, Decidable (NoOwnBye st w a)
  | .client .main => inferInstanceAs (Decidable (_ → _))
  | .client (.login _) | .client (.line _) | .client .timeout | .client (.signal _)
  | .client (.deliver _) | .client (.receive _) | .client .disconnected | .server _ | .toServer _
  | .toClient => .isTrue trivial

/-- The farewell loop is past the entry of the stream. -/
structure Spent (σ : Server) (st : StreamId) : Prop where
  ending : σ.pc.isEnding = true
  past : ∀ i, σ.pc = .farewell i → ∀ j, i ≤ j → σ.registry.streamAt j ≠ some st

/-- A session that has logged in on the stream once. -/
structure LoggedInOnce (σ : Server) (st : StreamId) (s : SessionId) : Prop where
  wf : Wf σ
  known : Known σ
  user : (σ.stream st).userData = some s
  past : (σ.session s).state = .connEstablished ∨ (σ.session s).state = .closing
  served : ¬ Serves σ s
  loaded : σ.pc.stream ≠ some st
  entry : ∀ i j, σ.registry.streamAt i = some st → σ.registry.streamAt j = some st → i = j

/-! ## 3. The client's packets -/

namespace ByeExchangeLemmas

section Client

variable {cenv : ClientEnv} {c c' : Client} {m m' : ClientMain} {es : List ClientEvent}

/-- Between the two states the client sends no BYE. -/
def Quiet (c c' : Client) : Prop :=
  ∃ es, c'.trace = es ++ c.trace ∧ ∀ p ok, .sent p ok ∈ es → p.isBye = false

theorem sentBetween_eq (h : c'.trace = es ++ c.trace) :
    sentBetween c c' = es.reverse.filterMap (·.asSent) := by
  rw [sentBetween, h, List.length_append, Nat.add_sub_cancel, List.take_left]

theorem Quiet.count (h : Quiet c c') : (sentBetween c c').countP Packet.isBye = 0 := by
  obtain ⟨es, htr, hes⟩ := h
  rw [sentBetween_eq htr, List.countP_eq_zero]
  intro p hp
  obtain ⟨e, he, hp⟩ := List.mem_filterMap.mp hp
  cases e with
  | sent q ok =>
    cases ok <;> cases hp
    rw [hes p true (List.mem_reverse.mp he)]
    nofun
  | _ => cases hp

theorem quiet_same (h : c'.trace = c.trace) : Quiet c c' := ⟨[], h, nofun⟩

theorem quiet_send {p : Packet} (hp : p.isBye = false) : Quiet c (c.sqmpStreamSend cenv p) := by
  refine ⟨[_], rfl, fun q ok he => ?_⟩
  cases List.mem_singleton.mp he
  exact hp

/-- Nothing but a line is logged. -/
theorem quiet_log {e : ClientEvent} (h : c'.trace = e :: c.trace) (he : e.isSent = false) :
    Quiet c c' := by
  refine ⟨[e], h, fun p ok hp => ?_⟩
  cases List.mem_singleton.mp hp
  cases he

theorem quiet_login {stdin : Bytes} : Quiet c (c.sqmpLogin cenv stdin).1 := by
  unfold Client.sqmpLogin
  split
  · exact quiet_same rfl
  · dsimp only
    split
    · exact quiet_same rfl
    · split
      · exact quiet_same rfl
      · split
        · exact quiet_same rfl
        · refine ⟨[_], rfl, fun q ok he => ?_⟩
          cases List.mem_singleton.mp he
          rfl

theorem quiet_sendCiphertext {recipient msg : Bytes} :
    Quiet c (c.sendCiphertext cenv recipient msg) := by
  unfold Client.sendCiphertext
  split
  · split
    · exact quiet_same rfl
    · exact quiet_send rfl
  · exact quiet_same rfl

theorem quiet_line {l : Option Bytes} : Quiet m.client (m.line cenv l).client := by
  unfold ClientMain.line
  split
  · exact quiet_same rfl
  · split
    · exact quiet_same rfl
    · exact quiet_same rfl
    · exact quiet_same rfl
    · exact quiet_same rfl
    · exact quiet_send rfl

/-- The main thread says BYE in one place, and leaves the connection alone. -/
theorem main_spec (h : m.mainStep cenv = some m') :
    m'.connAlive = m.connAlive ∧ (m.pc ≠ .bye → Quiet m.client m'.client) := by
  unfold ClientMain.mainStep at h
  cases hp : m.pc
  all_goals rw [hp] at h
  case login | readline | done => cases h
  case bye =>
    cases h
    exact ⟨rfl, fun hb => absurd rfl hb⟩
  case loginWait | authWait =>
    obtain ⟨_, _, rfl⟩ := Option.map_eq_some_iff.mp h
    exact ⟨rfl, fun _ => quiet_same rfl⟩
  case keyWait | disconnect =>
    obtain ⟨_, h⟩ := Option.ite_none_left_eq_some.mp h
    cases h
    exact ⟨rfl, fun _ => quiet_same rfl⟩
  case hello =>
    cases h
    exact ⟨rfl, fun _ => quiet_send rfl⟩
  case keyChecked =>
    cases h
    exact ⟨rfl, fun _ => quiet_sendCiphertext⟩
  all_goals
    cases h
    exact ⟨rfl, fun _ => quiet_same rfl⟩

theorem isBye_bytes {p : Packet} : SquimpChat.isBye p.bytes = p.isBye := by
  rw [SquimpChat.isBye, ClientStateLemmas.dispatch_bytes, Packet.isBye]
  cases p.msg <;> simp [Msg.type, Client.handles, Option.filter]

/-- The handlers other than that of BYE send nothing. -/
theorem quiet_receive {data : Bytes} (hb : SquimpChat.isBye data = false) :
    Quiet c (c.receive cenv data) := by
  unfold Client.receive
  split
  · next c' h =>
    obtain ⟨o, ho, h⟩ := bind_eq_ok.mp h
    split at h
    · unfold Client.sqmpProcessHelloAck at h
      split at h
      · cases h
        exact quiet_log rfl rfl
      · obtain ⟨v, _, h⟩ := bind_eq_ok.mp h
        split at h
        · cases h
          exact quiet_log rfl rfl
        · obtain ⟨sid, _, h⟩ := bind_eq_ok.mp h
          cases h
          exact quiet_same rfl
    · unfold Client.sqmpProcessAuthResp at h
      split at h
      · obtain ⟨status, _, h⟩ := bind_eq_ok.mp h
        split at h
        · cases h
          exact quiet_same rfl
        · cases h
          exact quiet_log rfl rfl
      · cases h
        exact quiet_log rfl rfl
    · obtain ⟨key, rfl⟩ := ClientStateLemmas.sqmpProcessKeyResp_ok h
      exact quiet_same rfl
    · rcases (ClientStateLemmas.sqmpProcessChatDeliver_ok h).2 with ⟨htr, _⟩ | ⟨_, _, htr⟩
      · exact quiet_log htr rfl
      · exact quiet_log htr rfl
    · obtain ⟨code, desc, rfl⟩ := ClientStateLemmas.sqmpProcessError_ok h
      split <;> exact quiet_log rfl rfl
    · rw [SquimpChat.isBye, ho] at hb
      simp at hb
    · cases h
      exact quiet_same rfl
  · exact quiet_log rfl rfl

/-- The handler of BYE sends one. -/
theorem receive_bye {data : Bytes} (hsend : ∀ n, cenv.streamSend n = true)
    (hb : SquimpChat.isBye data = true) :
    (sentBetween c (c.receive cenv data)).countP Packet.isBye = 1 := by
  have htr : (c.receive cenv data).trace =
      [.sent ⟨c.session.sessionId, .bye⟩ (cenv.streamSend c.trace.length)] ++ c.trace := by
    rw [Client.receive, ClientMainLemmas.onStreamRecv_bye hb]
    rfl
  rw [sentBetween_eq htr, hsend]
  rfl

theorem receive_client {data : Bytes} :
    (m.receive cenv data).client = m.client.receive cenv data := by
  unfold ClientMain.receive
  dsimp only
  split <;> rfl

theorem main_bye (hsend : ∀ n, cenv.streamSend n = true) :
    (sentBetween c (c.sqmpSendBye cenv)).countP Packet.isBye = 1 := by
  have htr : (c.sqmpSendBye cenv).trace =
      [.sent ⟨c.session.sessionId, .bye⟩ (cenv.streamSend c.trace.length)] ++ c.trace := rfl
  rw [sentBetween_eq htr, hsend]
  rfl

/-- The client loses its connection by `on_disconnected`, and says BYE at the end of `main` and
to a RECEIVE. -/
theorem client_spec {a : MainAction} (h : m.step cenv a = some m') :
    (a ≠ .disconnected → m'.connAlive = m.connAlive) ∧
      ((∀ data, a ≠ .receive data) → (a = .main → m.pc ≠ .bye) → Quiet m.client m'.client) := by
  cases a with
  | main =>
    obtain ⟨ha, hq⟩ := main_spec h
    exact ⟨fun _ => ha, fun _ hb => hq (hb rfl)⟩
  | receive data =>
    obtain ⟨_, h⟩ := Option.ite_none_right_eq_some.mp h
    cases h
    refine ⟨fun _ => ?_, fun hr => absurd rfl (hr data)⟩
    unfold ClientMain.receive
    dsimp only
    split <;> rfl
  | login stdin =>
    obtain ⟨_, h⟩ := Option.ite_none_right_eq_some.mp h
    cases h
    exact ⟨fun _ => rfl, fun _ _ => quiet_login⟩
  | line l =>
    obtain ⟨_, h⟩ := Option.ite_none_right_eq_some.mp h
    cases h
    refine ⟨fun _ => ?_, fun _ _ => quiet_line⟩
    unfold ClientMain.line
    split
    · rfl
    · split <;> rfl
  | timeout =>
    simp only [ClientMain.step] at h
    split at h
    · cases h
      exact ⟨fun _ => rfl, fun _ _ => quiet_same rfl⟩
    · cases h
  | signal k =>
    obtain ⟨_, h⟩ := Option.ite_none_left_eq_some.mp h
    cases h
    exact ⟨fun _ => rfl, fun _ _ => quiet_same rfl⟩
  | deliver k =>
    obtain ⟨_, h⟩ := Option.ite_none_right_eq_some.mp h
    cases h
    exact ⟨fun _ => rfl, fun _ _ => quiet_same rfl⟩
  | disconnected =>
    obtain ⟨_, h⟩ := Option.ite_none_right_eq_some.mp h
    cases h
    exact ⟨fun hd => absurd rfl hd, fun _ _ => quiet_same rfl⟩

end Client

/-! ### The server's packets -/

section Server

variable {env : Env} {σ σ' : Server} {a : Action} {st : StreamId} {s : SessionId} {i : Nat}

theorem streamAt_iff {r : Registry} : r.streamAt i = some st ↔
    ∃ e, r.slots[i]? = some e ∧ e.inUse = true ∧ e.stream = some st := by
  simp [Registry.streamAt, Option.bind_eq_some_iff, Option.filter_eq_some_iff, and_assoc]

theorem getElem_removeScan {k : Key} {es : List RegistryEntry} {e : RegistryEntry}
    (h : (removeScan k es)[i]? = some e) (hu : e.inUse = true) : es[i]? = some e := by
  induction es generalizing i with
  | nil => exact h
  | cons e₀ es ih =>
    rw [removeScan] at h
    split at h
    · cases i with
      | zero =>
        cases h
        cases hu
      | succ i => exact h
    · cases i with
      | zero => exact h
      | succ i => exact ih h

theorem streamAt_remove {r : Registry} {uname : Buf 32} {ulen : UInt8}
    (h : (sqmpRegistryRemove r uname ulen).streamAt i = some st) : r.streamAt i = some st := by
  obtain ⟨e, he, hu, hst⟩ := streamAt_iff.mp h
  exact streamAt_iff.mpr ⟨e, getElem_removeScan he hu, hu, hst⟩

/-- An add changes the slot it fills only. -/
theorem streamAt_add {r r' : Registry} {uname : Buf 32} {ulen : UInt8} {o : Option StreamId}
    {pubkey : Buf 32} (hr : sqmpRegistryAdd r uname ulen o pubkey = some r') (ho : o ≠ some st)
    (h : r'.streamAt i = some st) : r.streamAt i = some st := by
  unfold sqmpRegistryAdd at hr
  split at hr
  · next k _ =>
    cases hr
    obtain ⟨e, he, hu, hst⟩ := streamAt_iff.mp h
    simp only [List.getElem?_modify] at he
    split at he
    · obtain ⟨e₀, _, rfl⟩ := Option.map_eq_some_iff.mp he
      exact absurd hst ho
    · rw [id_map'] at he
      exact streamAt_iff.mpr ⟨e, he, hu, hst⟩
  · cases hr

theorem not_hello (hl : LoggedInOnce σ st s) : (σ.session s).state ≠ .hello := by
  rcases hl.past with h | h <;> rw [h] <;> decide

theorem not_auth (hl : LoggedInOnce σ st s) : (σ.session s).state ≠ .auth := by
  rcases hl.past with h | h <;> rw [h] <;> decide

/-- The session does not log in again. -/
theorem past_step (hl : LoggedInOnce σ st s) (h : step env σ a = some σ') :
    (σ'.session s).state = .connEstablished ∨ (σ'.session s).state = .closing := by
  have update : ∀ {t : SessionId} {x : Session}, (t = s → x.state = (σ.session s).state) →
      (Function.update σ.session t x s).state = .connEstablished ∨
        (Function.update σ.session t x s).state = .closing := by
    intro t x hx
    rw [Function.update_apply]
    split
    · next heq => exact hx heq.symm ▸ hl.past
    · exact hl.past
  rcases step_cases h with h | h
  · cases h with
    | @connected c hp =>
      refine update fun heq => ?_
      exact absurd (hl.wf.absent c hp).1 (heq ▸ (hl.wf.stream_user hl.user).2.2)
    | hello hr hs hst hok =>
      refine update fun heq => ?_
      subst heq
      exact absurd hst (not_hello hl)
    | @bye st' t data hr hs hst =>
      rcases eq_or_ne s t with rfl | hne
      · exact .inr (by simp)
      · simpa [hne] using hl.past
    | authReq | streamClosed | left => exact update fun heq => heq ▸ rfl
    | _ => exact hl.past
  · rcases LoginOrderLemmas.state_main h (s := s) with hst | ⟨_, hst⟩
    · rw [hst]
      exact hl.past
    · exact .inl hst

/-- The worker takes its session from the queue. -/
theorem serves_main (h : MainStep env σ a σ') (hs : Serves σ' s) : Serves σ s := by
  rcases hs with hs | hs
  · exact (pending_main h hs).imp_right Intrusive.reaches_dequeued
  · refine .inr ?_
    rcases queue_main h with hq | hq <;> rw [hq] at hs
    · exact hs
    · exact Intrusive.reaches_dequeue hs

theorem served_step (hl : LoggedInOnce σ st s) (h : step env σ a = some σ') : ¬ Serves σ' s := by
  intro hs
  rcases step_cases h with h | h
  · rcases hs with hs | hs
    · exact hl.served (.inl (callback_pc h ▸ hs))
    · cases h with
      | authReq _ _ hst _ _ _ =>
        refine hl.served (.inr ((Intrusive.reaches_enqueue hs).resolve_left fun heq => ?_))
        exact not_auth hl (heq ▸ hst)
      | _ => exact hl.served (.inr hs)
  · exact hl.served (serves_main h hs)

/-- The worker loads the stream for no other session. -/
theorem loaded_step (hl : LoggedInOnce σ st s) (h : step env σ a = some σ') :
    σ'.pc.stream ≠ some st := by
  intro hst
  rcases step_cases h with h | h
  · exact hl.loaded (callback_pc h ▸ hst)
  · rcases StreamLifetimeLemmas.loaded_main h hst with hpc | ⟨t, ht, _, ha⟩
    · exact hl.loaded (hpc ▸ hst)
    · obtain rfl := Option.some.inj ((hl.wf.authStream t st ha).2.symm.trans hl.user)
      exact hl.served (.inl ht)

theorem entry_step (hl : LoggedInOnce σ st s) (h : step env σ a = some σ')
    (hst : σ'.registry.streamAt i = some st) : σ.registry.streamAt i = some st := by
  rcases step_cases h with h | h
  · cases h with
    | bye => exact streamAt_remove hst
    | freed =>
      have hst : (registryWithout σ _).streamAt i = some st := hst
      unfold registryWithout at hst
      split at hst
      · exact streamAt_remove hst
      · exact hst
    | _ => exact hst
  · cases h
    case added t o r hpc hr =>
      refine streamAt_add hr (fun ho => hl.loaded ?_) hst
      rw [hpc, ← ho]
      rfl
    all_goals exact hst

theorem loggedIn_step (hl : LoggedInOnce σ st s) (h : step env σ a = some σ') :
    LoggedInOnce σ' st s where
  wf := (step_wf h hl.wf hl.known).1
  known := (step_wf h hl.wf hl.known).2
  user := user_kept hl.wf h hl.user
  past := past_step hl h
  served := served_step hl h
  loaded := loaded_step hl h
  entry i j hi hj := hl.entry i j (entry_step hl h hi) (entry_step hl h hj)

/-- The farewell loop goes on by one slot. -/
theorem worker_farewell (h : workerStep env σ = some σ') (hend : σ.pc.isEnding = true)
    (hpc' : σ'.pc = .farewell i) : ∃ k, σ.pc = .farewell k ∧ i = k + 1 := by
  cases hpc : σ.pc
  case farewell k =>
    simp only [workerStep, hpc] at h
    split at h
    · cases h
      cases hpc'
      exact ⟨k, rfl, rfl⟩
    · cases h
      cases hpc'
  case shutdown k =>
    simp only [workerStep, hpc] at h
    split at h <;> cases h <;> cases hpc'
  case exited => simp [workerStep, hpc] at h
  all_goals
    rw [hpc] at hend
    cases hend

theorem spent_step (hl : LoggedInOnce σ st s) (h : step env σ a = some σ') (hs : Spent σ st) :
    Spent σ' st := by
  have same : σ'.pc = σ.pc → Spent σ' st := fun hpc =>
    ⟨hpc ▸ hs.ending, fun i hi j hj hst => hs.past i (hpc ▸ hi) j hj (entry_step hl h hst)⟩
  rcases step_cases h with hc | hm
  · exact same (callback_pc hc)
  · cases hm
    case signal => exact same rfl
    case ending hend hend' _ =>
      refine ⟨hend', fun i hi j hj hst => ?_⟩
      obtain ⟨k, hk, rfl⟩ := worker_farewell h hend hi
      exact hs.past k hk j (Nat.le_of_succ_le hj) (entry_step hl h hst)
    all_goals
      have := hs.ending
      rw [‹σ.pc = _›] at this
      cases this

/-- The server says BYE to a session that has logged in once, when it comes to its entry. -/
theorem byes_step (hl : LoggedInOnce σ st s) (h : step env σ a = some σ') :
    (packetsOn (newEvents σ σ') st).countP Packet.isBye = 0 ∨
      (packetsOn (newEvents σ σ') st).countP Packet.isBye = 1 ∧ ¬ Spent σ st ∧ Spent σ' st := by
  by_cases hbye : ∃ p ∈ packetsOn (newEvents σ σ') st, p.isBye = true
  · refine .inr ?_
    obtain ⟨p, hp, hb⟩ := hbye
    replace hb : p.msg.type = .bye := of_decide_eq_true hb
    rw [LoginOrderLemmas.mem_packetsOn] at hp
    rcases step_sends hl.wf h with ⟨es, htr, hes⟩ | ⟨t, st', m, l, ok, hu, hst, htr, _⟩
    · rw [newEvents_eq htr] at hp ⊢
      cases hes st p true true hp with
      | refusal hs hr =>
        obtain rfl := Option.some.inj (hs.symm.trans hl.user)
        rcases hr.type with ht | ⟨_, hst⟩
        · rw [hb] at ht
          cases ht
        · exact absurd hst (not_hello hl)
      | authResp _ hr =>
        rw [hr] at hb
        cases hb
      | copied _ ht => rcases ht with ht | ht <;> rw [hb] at ht <;> cases ht
      | @farewell i ha hpc hi hst _ =>
        subst ha
        have hbefore : ¬ Spent σ st := fun hs => hs.past i hpc i (Nat.le_refl i) hst
        have hworker : workerStep env σ = some σ' := h
        simp only [workerStep, hpc, if_pos hi, sendByeAt, hst, Option.some.injEq] at hworker
        subst hworker
        obtain rfl : es = [sentEvent env σ st ⟨0, .bye⟩] :=
          List.append_cancel_right (htr.symm.trans rfl)
        refine ⟨?_, hbefore, ⟨rfl, fun k hk j hj hst' => ?_⟩⟩
        · rw [← List.mem_singleton.mp hp]
          simp [packetsOn, Event.packetOn, Packet.isBye, hb]
        · cases hk
          have := hl.entry i j hst (entry_step hl h hst')
          omega
    · have htr : σ'.trace = (.sent st' ⟨σ.nextSessionId, .helloAck m⟩ l ok :: σ.touched t) ++
          σ.trace := htr
      rw [newEvents_eq htr] at hp
      rcases List.mem_cons.mp hp with hp | hp
      · cases hp
        cases hb
      · cases touched_isSent _ hp
  · refine .inl (List.countP_eq_zero.mpr fun p hp hb => hbye ⟨p, hp, hb⟩)

end Server

end ByeExchangeLemmas

/-! ## 4. The accounts -/

/-- The BYEs of a login, and what is still to come of them. -/
structure ExchangeInv (st : StreamId) (s : SessionId) (w : Exchange) : Prop where
  login : LoggedInOnce w.server st s
  once : w.serverByes = 0 ∨ w.serverByes = 1 ∧ Spent w.server st
  /-- the client answers every BYE it receives -/
  answered : w.serverByes ≤ w.clientByes + w.byesToCome
  drained : w.isOpen st = false → w.up.pending = [] ∧ w.down.pending = []

/-- The BYEs of the client are its answers. -/
def Balanced (w : Exchange) : Prop := w.serverByes = w.clientByes + w.byesToCome

namespace ByeExchangeLemmas

variable {env : Env} {cenv : ClientEnv} {st : StreamId} {s : SessionId} {w w' : Exchange}
  {a : ExchangeAction}

/-! ### The connection -/

theorem isOpen_iff : w.isOpen st = true ↔
    (w.server.stream st).life = .live ∧ w.client.connAlive = true := by
  rw [Exchange.isOpen, Bool.and_eq_true, OwnershipLemmas.isLive_iff]

/-- The stream stays open until its own SHUTDOWN_COMPLETE. -/
theorem live_step {σ σ' : Server} {b : Action} (h : step env σ b = some σ')
    (hb : b ≠ .streamClosed st) (hl : (σ.stream st).life = .live) :
    (σ'.stream st).life = .live := by
  rcases step_cases h with h | h
  · exact StreamLifetimeLemmas.live_callback h hl hb
  · rw [StreamLifetimeLemmas.stream_main h, hl]

/-- A close of a connection that is up finds the links empty. -/
theorem drained_of_mayClose (hm : w.mayClose st = true) (ho : w.isOpen st = true) :
    w.up.pending = [] ∧ w.down.pending = [] := by
  simpa [Exchange.mayClose, ho] using hm

theorem deliver_open {up : Link Packet} {p : Packet} (hi : ExchangeInv st s w)
    (h : w.up.deliver = some (p, up) ∨ w.down.deliver = some (p, up)) : w.isOpen st = true := by
  by_contra ho
  obtain ⟨hup, hdown⟩ := hi.drained (by simpa using ho)
  rcases h with h | h
  · rw [Link.deliver_none hup] at h
    cases h
  · rw [Link.deliver_none hdown] at h
    cases h

theorem drained_step (hi : ExchangeInv st s w) (h : w.step env cenv st a = some w')
    (hc : w'.isOpen st = false) : w'.up.pending = [] ∧ w'.down.pending = [] := by
  have kept : ∀ {w₁ : Exchange}, w.isOpen st = true →
      ((w.server.stream st).life = .live → (w₁.server.stream st).life = .live) →
      (w.client.connAlive = true → w₁.client.connAlive = true) → w₁.isOpen st = true :=
    fun ho hs hc => isOpen_iff.mpr ((isOpen_iff.mp ho).imp hs hc)
  cases a with
  | client b =>
    obtain ⟨hmay, h⟩ := Option.ite_none_right_eq_some.mp h
    obtain ⟨m', hm, rfl⟩ := Option.map_eq_some_iff.mp h
    by_cases ho : w.isOpen st = true
    · obtain rfl : b = .disconnected := by
        by_contra hb
        have hopen : (w.withClient st m').isOpen st = true :=
          kept ho id fun ha => ((client_spec hm).1 hb).trans ha
        rw [hopen] at hc
        cases hc
      obtain ⟨_, hd⟩ := Option.ite_none_right_eq_some.mp hm
      cases hd
      have htr : w.client.onDisconnected.client.trace = [] ++ w.client.client.trace := rfl
      have hsent : sentBetween w.client.client w.client.onDisconnected.client = [] :=
        sentBetween_eq htr
      obtain ⟨hup, hdown⟩ := drained_of_mayClose hmay ho
      exact ⟨by simp [Exchange.withClient, ho, hsent, hup], hdown⟩
    · obtain ⟨hup, hdown⟩ := hi.drained (by simpa using ho)
      exact ⟨by simp [Exchange.withClient, ho, hup], hdown⟩
  | server b =>
    obtain ⟨hmay, h⟩ := Option.ite_none_right_eq_some.mp h
    obtain ⟨σ', hσ, rfl⟩ := Option.map_eq_some_iff.mp h
    by_cases ho : w.isOpen st = true
    · obtain rfl : b = .streamClosed st := by
        by_contra hb
        have hopen : (w.withServer st σ').isOpen st = true := kept ho (live_step hσ hb) id
        rw [hopen] at hc
        cases hc
      have hsent : packetsOn (newEvents w.server σ') st = [] := by
        obtain ⟨es, htr, hes⟩ : Sends (fun _ _ => False) w.server σ' :=
          (step_cases hσ).elim (callback_sends · rfl nofun) nofun
        rw [newEvents_eq htr, List.eq_nil_iff_forall_not_mem]
        exact fun p hp => hes st p true true (LoginOrderLemmas.mem_packetsOn.mp hp)
      obtain ⟨hup, hdown⟩ := drained_of_mayClose (by simpa [Exchange.serverMay] using hmay) ho
      exact ⟨hup, by simp [Exchange.withServer, ho, hsent, hdown]⟩
    · obtain ⟨hup, hdown⟩ := hi.drained (by simpa using ho)
      exact ⟨hup, by simp [Exchange.withServer, ho, hdown]⟩
  | toServer split =>
    obtain ⟨⟨p, up⟩, hd, h⟩ := Option.bind_eq_some_iff.mp h
    obtain ⟨σ', hσ, rfl⟩ := Option.map_eq_some_iff.mp h
    have hopen : (({ w with up }).withServer st σ').isOpen st = true :=
      kept (deliver_open hi (.inl hd)) (live_step hσ (by split <;> nofun)) id
    rw [hopen] at hc
    cases hc
  | toClient =>
    obtain ⟨⟨p, down⟩, hd, h⟩ := Option.bind_eq_some_iff.mp h
    obtain ⟨m', hm, rfl⟩ := Option.map_eq_some_iff.mp h
    have hopen : (({ w with down }).withClient st m').isOpen st = true :=
      kept (deliver_open hi (.inr hd)) id fun ha => ((client_spec hm).1 nofun).trans ha
    rw [hopen] at hc
    cases hc

/-! ### One step -/

/-- A step of the server adds its BYEs to those in flight. -/
theorem withServer_spec {b : Action} {σ : Server} (hl : LoggedInOnce w.server st s)
    (ho : w.serverByes = 0 ∨ w.serverByes = 1 ∧ Spent w.server st)
    (h : step env w.server b = some σ) :
    let w' := w.withServer st σ
    LoggedInOnce w'.server st s ∧ (w'.serverByes = 0 ∨ w'.serverByes = 1 ∧ Spent w'.server st) ∧
      w'.clientByes = w.clientByes ∧
      ∃ k, w'.serverByes = w.serverByes + k ∧ w'.byesToCome = w.byesToCome + k := by
  intro w'
  refine ⟨loggedIn_step hl h, ?_⟩
  have kept : w.serverByes = 0 ∨ w.serverByes = 1 ∧ Spent σ st :=
    ho.imp_right (And.imp_right (spent_step hl h))
  by_cases hopen : w.isOpen st = true
  · have hs : w'.serverByes =
        w.serverByes + (packetsOn (newEvents w.server σ) st).countP Packet.isBye := by
      simp [w', Exchange.withServer, hopen, Exchange.serverByes]
    have hf : w'.byesToCome =
        w.byesToCome + (packetsOn (newEvents w.server σ) st).countP Packet.isBye := by
      simp [w', Exchange.withServer, hopen, Exchange.byesToCome]
    refine ⟨?_, rfl, _, hs, hf⟩
    rcases byes_step hl h with hn | ⟨hn, hbefore, hspent⟩
    · rw [hs, hn]
      exact kept
    · rw [hs, hn, ho.resolve_right fun hs => hbefore hs.2]
      exact .inr ⟨rfl, hspent⟩
  · have hdown : w'.down = w.down := by simp [w', Exchange.withServer, hopen]
    have hs : w'.serverByes = w.serverByes := congrArg (Link.count Packet.isBye) hdown
    have hf : w'.byesToCome = w.byesToCome := congrArg (Link.inFlight Packet.isBye) hdown
    exact ⟨hs ▸ kept, rfl, 0, hs, hf⟩

/-- What the client sends goes out while the connection is up. -/
theorem withClient_spec {m : ClientMain} : (w.withClient st m).clientByes = w.clientByes +
    if w.isOpen st then (sentBetween w.client.client m.client).countP Packet.isBye else 0 := by
  unfold Exchange.withClient Exchange.clientByes
  split <;> simp

theorem withClient_quiet {m : ClientMain} (h : Quiet w.client.client m.client) :
    (w.withClient st m).clientByes = w.clientByes := by
  rw [withClient_spec, h.count, ite_self, Nat.add_zero]

theorem exchange_step (hsend : ∀ n, cenv.streamSend n = true) (hi : ExchangeInv st s w)
    (h : w.step env cenv st a = some w') :
    ExchangeInv st s w' ∧ (Balanced w' ↔ Balanced w ∧ NoOwnBye st w a) := by
  have hdrained := drained_step hi h
  have hanswered := hi.answered
  cases a with
  | client b =>
    obtain ⟨hmay, h⟩ := Option.ite_none_right_eq_some.mp h
    obtain ⟨m', hm, rfl⟩ := Option.map_eq_some_iff.mp h
    have hr : ∀ data, b ≠ .receive data := by
      rintro data rfl
      cases hmay
    have inv : ∀ n, (w.withClient st m').clientByes = w.clientByes + n →
        ExchangeInv st s (w.withClient st m') := fun n hn =>
      ⟨hi.login, hi.once, by
        show w.serverByes ≤ (w.withClient st m').clientByes + w.byesToCome
        omega, hdrained⟩
    by_cases hbye : b = .main ∧ w.client.pc = .bye ∧ w.isOpen st = true
    · -- the BYE at the end of `main`
      obtain ⟨rfl, hpc, ho⟩ := hbye
      have hn : (w.withClient st m').clientByes = w.clientByes + 1 := by
        have hm : w.client.mainStep cenv = some m' := hm
        simp only [ClientMain.mainStep, hpc, Option.some.injEq] at hm
        subst hm
        rw [withClient_spec, if_pos ho, main_bye hsend]
      refine ⟨inv 1 hn, iff_of_false ?_ fun hP => ?_⟩
      · show w.serverByes ≠ (w.withClient st m').clientByes + w.byesToCome
        omega
      · rw [hP.2 hpc] at ho
        cases ho
    · have hn : (w.withClient st m').clientByes = w.clientByes := by
        by_cases hpc : b = .main ∧ w.client.pc = .bye
        · rw [withClient_spec, if_neg fun ho => hbye ⟨hpc.1, hpc.2, ho⟩, Nat.add_zero]
        · exact withClient_quiet ((client_spec hm).2 hr fun hb hp => hpc ⟨hb, hp⟩)
      have hP : NoOwnBye st w (.client b) := by
        cases b with
        | main =>
          intro hpc
          simpa using fun ho => hbye ⟨rfl, hpc, ho⟩
        | _ => trivial
      refine ⟨inv 0 hn, ?_⟩
      have hb : Balanced (w.withClient st m') ↔ Balanced w := by
        show w.serverByes = (w.withClient st m').clientByes + w.byesToCome ↔ _
        rw [hn, Balanced]
      rw [hb, and_iff_left hP]
  | server b =>
    obtain ⟨_, h⟩ := Option.ite_none_right_eq_some.mp h
    obtain ⟨σ', hσ, rfl⟩ := Option.map_eq_some_iff.mp h
    obtain ⟨hl, ho, hc, k, hs, hf⟩ := withServer_spec hi.login hi.once hσ
    refine ⟨⟨hl, ho, by omega, hdrained⟩, ?_⟩
    simp only [Balanced, NoOwnBye, and_true]
    omega
  | toServer split =>
    obtain ⟨⟨p, up⟩, hd, h⟩ := Option.bind_eq_some_iff.mp h
    obtain ⟨σ', hσ, rfl⟩ := Option.map_eq_some_iff.mp h
    obtain ⟨hl, ho, hc, k, hs, hf⟩ :=
      withServer_spec (w := { w with up }) hi.login hi.once hσ
    have hup : Exchange.clientByes { w with up } = w.clientByes := Link.count_deliver hd
    have hdown : Exchange.serverByes { w with up } = w.serverByes := rfl
    have hcome : Exchange.byesToCome { w with up } = w.byesToCome := rfl
    refine ⟨⟨hl, ho, by omega, hdrained⟩, ?_⟩
    simp only [Balanced, NoOwnBye, and_true]
    omega
  | toClient =>
    obtain ⟨⟨p, down⟩, hd, h⟩ := Option.bind_eq_some_iff.mp h
    obtain ⟨m', hm, rfl⟩ := Option.map_eq_some_iff.mp h
    have ho : w.isOpen st = true := deliver_open hi (.inr hd)
    obtain ⟨_, hm'⟩ := Option.ite_none_right_eq_some.mp hm
    cases hm'
    -- the client answers the BYE it has received
    have hc : Exchange.clientByes (({ w with down } : Exchange).withClient st
        (w.client.receive cenv p.bytes)) = w.clientByes + if p.isBye then 1 else 0 := by
      have ho' : Exchange.isOpen st { w with down } = true := ho
      rw [withClient_spec, if_pos ho', receive_client]
      cases hb : p.isBye with
      | false => rw [(quiet_receive (isBye_bytes.trans hb)).count]; rfl
      | true => rw [receive_bye hsend (isBye_bytes.trans hb)]; rfl
    have hs : Exchange.serverByes { w with down } = w.serverByes := Link.count_deliver hd
    have hf : w.byesToCome = Exchange.byesToCome { w with down } + if p.isBye then 1 else 0 :=
      Link.inFlight_deliver hd
    refine ⟨⟨hi.login, ?_, ?_, hdrained⟩, ?_⟩
    · show Exchange.serverByes { w with down } = 0 ∨ Exchange.serverByes { w with down } = 1 ∧ _
      rw [hs]
      exact hi.once
    · show Exchange.serverByes { w with down } ≤ _ + Exchange.byesToCome { w with down }
      omega
    · show Exchange.serverByes { w with down } = _ + Exchange.byesToCome { w with down } ↔ _
      simp only [Balanced, NoOwnBye, and_true]
      omega

theorem pending_of_stream {pc : WorkerPc} (h : pc.stream = some st) : ∃ t, pc.pending = some t := by
  cases pc <;> simp_all [WorkerPc.stream, WorkerPc.pending]

theorem exchangeInv_afterLogin (h : AfterLogin env st s w) : ExchangeInv st s w where
  login := by
    obtain ⟨acts, hr⟩ := h.reachable
    obtain ⟨hw, hk⟩ := run_wf hr
    refine ⟨hw, hk, h.user, .inl h.established, h.served, fun hst => ?_, h.entry⟩
    -- the worker loads a stream of its own session
    obtain ⟨t, hp⟩ := pending_of_stream hst
    have ht := (IdInv.run hr).loaded t st hp hst
    obtain rfl := Option.some.inj (ht.symm.trans h.user)
    exact h.served (.inl hp)
  once := .inl h.serverByes
  answered := by rw [h.serverByes]; exact Nat.zero_le _
  drained hc := by
    rw [h.isOpen] at hc
    cases hc

end ByeExchangeLemmas
open ByeExchangeLemmas

/-! ## 5. The law -/

/-- Behind a login and on lossless links, a connection that has closed and on which a BYE was sent
has carried exactly one in each direction if and only if the main thread of the client has not
come to send its BYE while the connection was up. -/
theorem bye_exchange_iff (env : Env) (cenv : ClientEnv) (hsend : ∀ n, cenv.streamSend n = true)
    (st : StreamId) (s : SessionId) (w₀ w : Exchange) (h₀ : AfterLogin env st s w₀)
    (acts : List ExchangeAction) (hr : run (Exchange.step env cenv st) w₀ acts = some w)
    (hclosed : w.isOpen st = false) (hbye : 0 < w.clientByes + w.serverByes) :
    (w.clientByes = 1 ∧ w.serverByes = 1) ↔
      Along (Exchange.step env cenv st) (NoOwnBye st) w₀ acts := by
  have hstep : ∀ w a w', ExchangeInv st s w → w.step env cenv st a = some w' →
      ExchangeInv st s w' ∧ (Balanced w' ↔ Balanced w ∧ NoOwnBye st w a) :=
    fun _ _ _ hi h => exchange_step hsend hi h
  have hi₀ := exchangeInv_afterLogin h₀
  have hi : ExchangeInv st s w := run_always (fun w a w' hi h => (hstep w a w' hi h).1) hi₀ hr
  have hb₀ : Balanced w₀ := by
    have hcome : w₀.byesToCome ≤ w₀.serverByes := Link.inFlight_le_count
    have hs := h₀.serverByes
    have hc := h₀.clientByes
    show w₀.serverByes = w₀.clientByes + w₀.byesToCome
    omega
  have hrun := run_iff_along (fun w a w' hi h => (hstep w a w' hi h).1)
    (fun w a w' hi h => (hstep w a w' hi h).2) hi₀ hr
  have hcome : w.byesToCome = 0 := Link.inFlight_nil (hi.drained hclosed).2
  have honce : w.serverByes ≤ 1 := hi.once.elim (fun h => h ▸ Nat.zero_le 1) fun h => h.1.le
  have hbal : Balanced w ↔ w.serverByes = w.clientByes := by
    rw [Balanced, hcome, Nat.add_zero]
  rw [← and_iff_right (b := Along _ _ _ _) hb₀, ← hrun, hbal]
  omega

/-! ## 6. Concrete runs -/

def Exchange.init : Exchange := ⟨.init, .init, .empty, .empty⟩

/-- A run of a client of zero keys and a server with the account `abc`. -/
def exchangeRun (acts : List ExchangeAction) : Option Exchange :=
  run (Exchange.step (.fair abcUsers) zeroKeys 0) .init acts

/-- `abc` connects and logs in, up to its first prompt. -/
def exchangeLogin : List ExchangeAction :=
  [.server (.connected 0), .server (.streamOpened 0 0), .client .main, .toServer false, .toClient,
    .client .main, .client .main, .client (.login [97, 98, 99, newline, 98, newline]),
    .toServer false] ++ List.replicate 12 (.server .worker) ++
    [.toClient, .client .main, .client .main, .client .main]

/-- The server stops and says BYE, and the client answers. -/
def serverStops : List ExchangeAction :=
  [.server .signal, .server .interrupted, .server .worker, .toClient]

namespace ByeExchangeLemmas

theorem server_reachable {env : Env} {cenv : ClientEnv} {st : StreamId} {w w' : Exchange}
    {acts : List ExchangeAction} (hw : ∃ as, serverRun env as = some w.server)
    (hr : run (Exchange.step env cenv st) w acts = some w') :
    ∃ as, serverRun env as = some w'.server := by
  have extend : ∀ {σ σ' : Server} {b : Action}, (∃ as, serverRun env as = some σ) →
      SquimpChat.step env σ b = some σ' → ∃ as, serverRun env as = some σ' := by
    rintro σ σ' b ⟨as, hr⟩ hs
    exact ⟨as ++ [b], run_append.mpr ⟨σ, hr, run_cons.mpr ⟨σ', hs, rfl⟩⟩⟩
  refine run_always (I := fun w => ∃ as, serverRun env as = some w.server)
    (fun w a w' hw h => ?_) hw hr
  cases a with
  | client b =>
    obtain ⟨_, h⟩ := Option.ite_none_right_eq_some.mp h
    obtain ⟨m, _, rfl⟩ := Option.map_eq_some_iff.mp h
    exact hw
  | server b =>
    obtain ⟨_, h⟩ := Option.ite_none_right_eq_some.mp h
    obtain ⟨σ, hσ, rfl⟩ := Option.map_eq_some_iff.mp h
    exact extend hw hσ
  | toServer split =>
    obtain ⟨_, _, h⟩ := Option.bind_eq_some_iff.mp h
    obtain ⟨σ, hσ, rfl⟩ := Option.map_eq_some_iff.mp h
    exact extend hw hσ
  | toClient =>
    obtain ⟨_, _, h⟩ := Option.bind_eq_some_iff.mp h
    obtain ⟨m, _, rfl⟩ := Option.map_eq_some_iff.mp h
    exact hw

theorem exchangeLogin_afterLogin :
    ∃ w, exchangeRun exchangeLogin = some w ∧ AfterLogin (.fair abcUsers) 0 0 w := by
  obtain ⟨w, hr, hu, he, hp, hq, hone, ho, hc, hs⟩ := run_reaches
    (Exchange.step (.fair abcUsers) zeroKeys 0) .init exchangeLogin
    (fun w => (w.server.stream 0).userData = some 0 ∧
      (w.server.session 0).state = .connEstablished ∧ w.server.pc.pending = none ∧
      w.server.queue.head = none ∧
      (∀ i < registryMax, w.server.registry.streamAt i = some 0 → i = 0) ∧
      w.isOpen 0 = true ∧ w.clientByes = 0 ∧ w.serverByes = 0) (by decide +kernel)
  have hentry : ∀ i, w.server.registry.streamAt i = some 0 → i = 0 := by
    intro i hi
    obtain ⟨e, he, _⟩ := streamAt_iff.mp hi
    exact hone i ((List.getElem?_eq_some_iff.mp he).1.trans_eq w.server.registry.size) hi
  refine ⟨w, hr, server_reachable ⟨[], rfl⟩ hr, hu, he, ?_, ?_, ho, hc, hs⟩
  · rintro (hs | hs)
    · rw [hp] at hs
      cases hs
    · exact Intrusive.not_reaches_of_head hq hs
  · intro i j hi hj
    rw [hentry i hi, hentry j hj]

end ByeExchangeLemmas

/-- The connection closes before the main thread comes to its end. -/
theorem bye_exchange_serverStops : ∃ w₀ w, exchangeRun exchangeLogin = some w₀ ∧
    AfterLogin (.fair abcUsers) 0 0 w₀ ∧
    run (Exchange.step (.fair abcUsers) zeroKeys 0) w₀
      (serverStops ++ [.toServer false, .server (.streamClosed 0)]) = some w ∧
    w.clientByes = 1 ∧ w.serverByes = 1 := by
  obtain ⟨w₀, hr₀, h₀⟩ := exchangeLogin_afterLogin
  obtain ⟨w, hr, hc, hb⟩ := run_reaches (Exchange.step (.fair abcUsers) zeroKeys 0)
    .init (exchangeLogin ++ (serverStops ++ [.toServer false, .server (.streamClosed 0)]))
    (fun w => w.isOpen 0 = false ∧ 0 < w.clientByes + w.serverByes) (by decide +kernel)
  obtain ⟨w₁, hr₁, hr⟩ := run_append.mp hr
  obtain rfl := Option.some.inj (hr₀.symm.trans hr₁)
  have hown : Along (Exchange.step (.fair abcUsers) zeroKeys 0) (NoOwnBye 0) .init
      (exchangeLogin ++ (serverStops ++ [.toServer false, .server (.streamClosed 0)])) := by
    decide +kernel
  exact ⟨w₀, w, hr₀, h₀, hr, (bye_exchange_iff (.fair abcUsers) zeroKeys (fun _ => rfl) 0 0 w₀ w h₀
    _ hr hc hb).mpr (along_split hr₀ hown).2⟩

/-- A client that quits gets no BYE back, and one that has answered the server's BYE sends
another. -/
theorem bye_unanswered : ∃ w₀, exchangeRun exchangeLogin = some w₀ ∧
    AfterLogin (.fair abcUsers) 0 0 w₀ ∧
    (∃ acts w, run (Exchange.step (.fair abcUsers) zeroKeys 0) w₀ acts = some w ∧
      w.isOpen 0 = false ∧ w.client.pc = .done ∧ w.clientByes = 1 ∧ w.serverByes = 0) ∧
    ∃ acts w, run (Exchange.step (.fair abcUsers) zeroKeys 0) w₀ acts = some w ∧
      w.isOpen 0 = false ∧ w.client.pc = .done ∧ w.clientByes = 2 ∧ w.serverByes = 1 := by
  obtain ⟨w₀, hr₀, h₀⟩ := exchangeLogin_afterLogin
  have hends : ∀ acts, ∀ m n : Nat, (exchangeRun (exchangeLogin ++ acts)).any (fun w =>
      decide (w.isOpen 0 = false ∧ w.client.pc = .done ∧ w.clientByes = m ∧ w.serverByes = n)) =
        true → ∃ acts w, run (Exchange.step (.fair abcUsers) zeroKeys 0) w₀ acts =
      some w ∧ w.isOpen 0 = false ∧ w.client.pc = .done ∧ w.clientByes = m ∧ w.serverByes = n := by
    intro acts m n h
    obtain ⟨w, hr, hw⟩ := run_reaches _ _ _ _ h
    obtain ⟨w₁, hr₁, hr⟩ := run_append.mp hr
    obtain rfl := Option.some.inj (hr₀.symm.trans hr₁)
    exact ⟨acts, w, hr, hw⟩
  refine ⟨w₀, hr₀, h₀, hends ?_ 1 0 ?_, hends ?_ 2 1 ?_⟩
  · exact [.client (.line (some [113, 117, 105, 116])), .client .main, .client .main,
      .toServer false, .server (.streamClosed 0), .client .disconnected, .client .main]
  · decide +kernel
  · exact serverStops ++ [.client (.deliver .kill), .client (.line none), .client .main,
      .client .main, .toServer false, .toServer false, .server (.streamClosed 0),
      .client .disconnected, .client .main]
  · decide +kernel

end SquimpChat
