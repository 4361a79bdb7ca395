import SquimpChat.Handlers
import SquimpChat.Lib.Transition

/-!
# The server as a transition system

MsQuic's callbacks and the auth worker run on different threads. A callback is one
step, except that a CHAT_SEND may also run in two (its lookup, then the rest) and
so may `on_disconnected` (its load of `auth_queued`, then the rest). An iteration
of the auth loop in `main` is a sequence of steps, one for each access to shared
data; `WorkerPc` says where it is.

The mutexes are not modelled. Each critical section is one step, except the loops of
`sqmp_registry_send_bye_all` and `sqmp_registry_shutdown_connections`: a round is one
step, and the model lets other threads change the registry between two rounds.

What MsQuic promises is in the guards of `step`: the callbacks of one connection do
not overlap, no event arrives for a stream that is closed or a connection that has
completed its shutdown, and a connection completes its shutdown after its streams.
A run may close any stream at any point.
-/

namespace SquimpChat
open Octets

inductive Action
  /-- CONNECTED: `on_connected` -/
  | connected (c : ConnId)
  /-- PEER_STREAM_STARTED: `on_stream_open` -/
  | streamOpened (c : ConnId) (stream : StreamId)
  /-- RECEIVE with these bytes: `on_stream_recv` in one step -/
  | received (stream : StreamId) (data : Bytes)
  /-- RECEIVE of a CHAT_SEND: the handler up to its lookup -/
  | chatLookup (stream : StreamId) (data : Bytes)
  /-- the rest of the CHAT_SEND handler of the connection -/
  | chatForward (c : ConnId)
  /-- SHUTDOWN_COMPLETE of a stream: `on_stream_closed` -/
  | streamClosed (stream : StreamId)
  /-- SHUTDOWN_COMPLETE of a connection: `on_disconnected` in one step -/
  | disconnected (c : ConnId)
  /-- `on_disconnected` up to its load of `auth_queued` -/
  | disconnectLoad (c : ConnId)
  /-- the rest of `on_disconnected` -/
  | disconnectRest (c : ConnId)
  /-- the next step of the main thread -/
  | worker
  /-- `sem_wait` is interrupted by a signal -/
  | interrupted
  /-- SIGINT or SIGTERM: `sig_handler` -/
  | signal
deriving DecidableEq

/-- The bytes the action delivers. -/
def Action.packet : Action → Option Bytes
  | received _ data | chatLookup _ data => some data
  | _ => none

variable (env : Env) (σ : Server)

/-! ## The auth worker -/

/-- The unlink of `sqmp_auth_queue_dequeue`, and the end of the loop when it
returns NULL. -/
def workerUnlink : Server :=
  match σ.queue.dequeue with
  | (none, _) =>
    { σ.append [.dequeued none] with pc := if σ.stop then .farewell 0 else .exited }
  | (some s, q) =>
    { σ.append (.dequeued (some s) :: σ.touched s) with queue := q, pc := .dequeued s }

/-- `conn_closed` is loaded; a closed connection's session is freed. -/
def workerCheck (s : SessionId) : Server :=
  let σ := σ.append (σ.touched s)
  if (σ.session s).connClosed then { σ.free s with pc := .test }
  else { σ with pc := .checked s }

/-- The local copy of the name as a C string. -/
def workerUsername (x : Session) : Bytes :=
  cString (x.authUsername.first x.authUsernameLen.toNat)

/-- The name is copied and `verify_credentials` called. -/
def workerVerify (s : SessionId) : Server :=
  let x := σ.session s
  let ok := verifyCredentials env.users env.uninit (workerUsername x) x.authPasswordHash
  let σ := σ.append (.copied .workerUsername x.authUsernameLen.toNat :: σ.touched s)
  { σ.append [.verified s (workerUsername x) x.authPasswordHash ok] with
    pc := if ok then .verified s else .decided s false }

/-- `sqmp_registry_add` with the session's fields. -/
def workerAdd (s : SessionId) (stream : Option StreamId) : Server :=
  let x := σ.session s
  let σ := σ.append (σ.touched s)
  match sqmpRegistryAdd σ.registry x.authUsername x.authUsernameLen stream x.authPubkey with
  | none => { σ with pc := .decided s false }
  | some r =>
    { σ.append [.registered s x.authName stream x.authPubkey,
        .copied .registryUsername x.authUsernameLen.toNat] with
      registry := r, pc := .added s }

/-- The session takes over the staged name and becomes established. -/
def Session.establish (x : Session) : Session :=
  { x with
    usernameLen := x.authUsernameLen
    username := x.username.store (x.authUsername.first x.authUsernameLen.toNat)
    state := .connEstablished }

def workerEstablish (s : SessionId) : Server :=
  let x := σ.session s
  let σ := σ.append (.copied .sessionUsername x.authUsernameLen.toNat :: σ.touched s)
  { (σ.modify s .establish).append [.established s x.establish.name] with pc := .decided s true }

/-- `auth_stream` is loaded for the answer; without one the iteration ends. -/
def workerLoadStream (s : SessionId) (ok : Bool) : Server :=
  let σ := σ.append (σ.touched s)
  match (σ.session s).authStream with
  | none => { σ with pc := .test }
  | some st => { σ with pc := .responding s st ok }

/-- The AUTH_RESP packet of `send_auth_resp`. -/
def authRespPacket (x : Session) (ok : Bool) : Packet :=
  ⟨x.sessionId, .authResp ⟨(if ok then AuthStatus.ok else .invalid).code, x.sessionId⟩⟩

/-- `send_auth_resp`. -/
def sendAuthResp (stream : StreamId) (s : SessionId) (ok : Bool) : Server :=
  let σ := σ.append (σ.touched s)
  sqmpStreamSend env σ stream (authRespPacket (σ.session s) ok)

/-- The stream of slot `i` of the registry, when the slot is in use and has one. -/
def Registry.streamAt (r : Registry) (i : Nat) : Option StreamId :=
  (r.slots[i]?.filter (·.inUse)).bind (·.stream)

/-- A round of the loop of `sqmp_registry_send_bye_all`. -/
def sendByeAt (i : Nat) : Server :=
  match σ.registry.streamAt i with
  | none => σ
  | some st => sqmpStreamSend env σ st ⟨0, .bye⟩

/-- A round of the loop of `sqmp_registry_shutdown_connections`. -/
def shutdownAt (i : Nat) : Server :=
  match σ.registry.streamAt i with
  | none => σ
  | some st => σ.append [.connShutdown st (σ.isLive st)]

/-- One step of the main thread; `none` when it is blocked or has ended. -/
def workerStep : Option Server :=
  match σ.pc with
  | .test => some { σ with pc := if σ.stop then .farewell 0 else .semWait }
  | .semWait =>
    if σ.queueSem = 0 then none
    else some { σ with queueSem := σ.queueSem - 1, pc := .unlink }
  | .unlink => some (workerUnlink σ)
  | .dequeued s =>
    some { (σ.append (σ.touched s)).modify s fun x => { x with authQueued := false } with
      pc := .cleared s }
  | .cleared s => some (workerCheck σ s)
  | .checked s => some (workerVerify env σ s)
  | .verified s =>
    some { σ.append (σ.touched s) with pc := .loaded s (σ.session s).authStream }
  | .loaded s st => some (workerAdd σ s st)
  | .added s => some (workerEstablish σ s)
  | .decided s ok => some (workerLoadStream σ s ok)
  | .responding s st ok => some { sendAuthResp env σ st s ok with pc := .test }
  | .farewell i =>
    if i < registryMax then some { sendByeAt env σ i with pc := .farewell (i + 1) }
    else some { σ with pc := .shutdown 0 }
  | .shutdown i =>
    if i < registryMax then some { shutdownAt σ i with pc := .shutdown (i + 1) }
    else some { σ with pc := .exited }
  | .exited => none

/-! ## Steps -/

/-- MsQuic may call back for the connection: it is connected and none of its
callbacks is running. -/
def callbackFree (c : ConnId) : Bool :=
  (σ.conn c).phase = .connected && σ.chats.all (·.conn ≠ c)

/-- All streams of the connection are closed. -/
def streamsClosed (c : ConnId) : Bool := (σ.conn c).streams.all fun st => !σ.isLive st

/-- The state behind a handler of the session. A read outside the packet is
reported; every handler has looked at its session before. -/
def settle (s : Option SessionId) (r : Except OutOfRange Server) : Server :=
  match r with
  | .ok σ' => σ'
  | .error e => σ.append (.outOfRange e :: (s.map σ.touched).getD [])

/-- A CHAT_SEND handler stops behind its lookup. -/
def suspendChat (stream : StreamId) (s : SessionId) (data : Bytes) : Except OutOfRange Server :=
  chatSendHead env σ stream s data fun σ r =>
    .ok { σ with chats := ⟨(σ.stream stream).conn, stream, s, data, r⟩ :: σ.chats }

/-- A suspended CHAT_SEND handler goes on. -/
def resumeChat (p : PendingChat) : Server :=
  let σ := { σ with chats := σ.chats.filter (·.conn ≠ p.conn) }
  settle σ (some p.session)
    (chatSendForward env (σ.append (σ.touched p.session)) p.stream p.session p.pkt p.recipient)

def receivable (stream : StreamId) : Bool :=
  σ.isLive stream && callbackFree σ (σ.stream stream).conn

def step : Action → Option Server
  | .connected c =>
    if (σ.conn c).phase = .absent then some (onConnected env σ c) else none
  | .streamOpened c st =>
    if callbackFree σ c && (σ.stream st).life = .unallocated then some (onStreamOpen σ c st)
    else none
  | .received st data =>
    if receivable σ st then
      some (settle σ (σ.stream st).userData (onStreamRecv env σ st data))
    else none
  | .chatLookup st data =>
    if receivable σ st && dispatch serverHandles data = .ok (some .chatSend) then
      some (settle σ (σ.stream st).userData (withSession σ st fun s => suspendChat env σ st s data))
    else none
  | .chatForward c => (σ.chats.find? (·.conn = c)).map (resumeChat env σ)
  | .streamClosed st => if receivable σ st then some (onStreamClosed σ st) else none
  | .disconnected c =>
    if callbackFree σ c && streamsClosed σ c then some (onDisconnected σ c) else none
  | .disconnectLoad c =>
    if callbackFree σ c && streamsClosed σ c then some (disconnectLoad σ c) else none
  | .disconnectRest c =>
    match (σ.conn c).phase with
    | .disconnecting queued => some (disconnectRest σ c queued)
    | _ => none
  | .worker => workerStep env σ
  | .interrupted =>
    if σ.pc = .semWait ∧ σ.stop then some { σ with pc := .farewell 0 } else none
  | .signal => some { σ with stop := true }

/-- A run of the server from its start. -/
def serverRun (acts : List Action) : Option Server :=
  Transition.run (step env) .init acts

/-- Every step of a run from the start meets `P`. -/
def RunMeets (P : Server → Action → Prop) (acts : List Action) : Prop :=
  Transition.Along (step env) P .init acts

instance (P : Server → Action → Prop) [∀ σ a, Decidable (P σ a)] (acts : List Action) :
    Decidable (RunMeets env P acts) :=
  inferInstanceAs (Decidable (Transition.Along ..))

/-- A run that can be computed to its end. -/
theorem serverRun_reaches (env : Env) (acts : List Action) (P : Server → Prop) [DecidablePred P]
    (h : (serverRun env acts).any (fun σ => decide (P σ)) = true) :
    ∃ σ, serverRun env acts = some σ ∧ P σ := Transition.run_reaches (step env) .init acts P h

/-! ## Inputs for concrete runs -/

/-- Every send and allocation succeeds. -/
def Env.fair (users : Option Bytes) : Env where
  users
  uninit _ := 0
  streamSend _ := true
  malloc _ := true
  calloc _ := true

def helloBytes : Bytes :=
  (Packet.mk 0 (.hello ⟨1, (Buf.zero 8).store [1], 0, 0⟩)).bytes

/-- An AUTH_REQ with a zero hash and without a key, `pad` bytes in the key's place. -/
def authReqBytes (len : UInt8) (name pad : Bytes) : Bytes :=
  (Packet.mk 0 (.authReq ⟨len, (Buf.zero 32).store name, Buf.zero 32, 0, pad⟩)).bytes

/-- Connection `c` begins with stream `c` and a HELLO. -/
def greet (c : ConnId) : List Action :=
  [.connected c, .streamOpened c c, .received c helloBytes]

/-- An AUTH_REQ under the name `abc`. -/
def abcReq : Bytes := authReqBytes 3 [97, 98, 99] []

/-- A users file with one line: the name `abc` and a hash of zeros. -/
def abcUsers : Bytes := [97, 98, 99, 58] ++ List.replicate 64 48 ++ [10]

/-- `abc` logs in on connection 0. -/
def abcLogin : List Action := greet 0 ++ .received 0 abcReq :: List.replicate 11 .worker

def byeBytes : Bytes := (Packet.mk 0 .bye).bytes

/-- A CHAT_SEND with no ciphertext that announces `n` bytes of it. -/
def emptyChat (name : Bytes) (n : UInt32) : Bytes :=
  (Packet.mk 1 (.chatSend ⟨UInt8.ofNat name.length, (Buf.zero 32).store name, 32, Buf.zero 256,
    Buf.zero 12, n, []⟩)).bytes

end SquimpChat
