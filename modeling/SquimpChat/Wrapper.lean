import SquimpChat.Server
import SquimpChat.Connection
import SquimpChat.Framing
import SquimpChat.Lib.Ledger

/-!
# The MsQuic wrapper

`msquic_wrapper.c`: what it allocates for the context, the connections, the streams and the buffers
in flight, which handles of MsQuic it holds, and which callbacks of the program it calls. Server and
client use the same functions, so the model has both kinds of connections.

Every step leaves in the ledger what it has acquired, used and released. A failing allocation or call
is part of the action. What MsQuic promises is in the guards of `act`: the events of a connection end
with its SHUTDOWN_COMPLETE, which follows those of its streams; a stream's follows the SEND_COMPLETEs
of all its sends; no stream starts on a connection that has shut down; ListenerClose ends the events
of the listener, and RegistrationClose waits for the connections. What the functions ask of their
callers is `contract`, and `step` is a step of `act` that keeps to it.

Left out: what MsQuic does to a connection when `listener_cb` has closed its handle and rejects it,
because ConnectionSetConfiguration has failed; a second context; calls of the main thread behind
`sqmp_quic_destroy`. A use of the context stands for its API table and its registration too.
-/

namespace SquimpChat
open Octets Transition Ledger

namespace Quic

/-! ## 1. State -/

/-- What the wrapper acquires and has to release. -/
inductive Resource
  | ctx | api | registration | configuration | listener
  | conn (c : ConnId) | connectSem (c : ConnId) | closedSem (c : ConnId)
  /-- for ConnectionClose -/
  | connHandle (c : ConnId)
  | stream (st : StreamId)
  /-- for StreamClose -/
  | streamHandle (st : StreamId)
  /-- the handle of a stream as one for ConnectionClose -/
  | asConnHandle (st : StreamId)
  /-- `send_buf_t` of the `n`-th send -/
  | sendBuf (n : Nat)
  /-- the flat copy of a RECEIVE -/
  | flat (n : Nat)
deriving DecidableEq, Repr

/-- The calls of the functions in `sqmp_quic_config_t`. -/
inductive AppCall
  | onConnected (c : ConnId)
  | onDisconnected (c : ConnId)
  | onStreamOpen (c : ConnId) (st : StreamId)
  | onStreamRecv (st : StreamId) (data : Bytes)
  | onStreamPeerSendDone (st : StreamId)
  | onStreamClosed (st : StreamId)
deriving DecidableEq

/-- `sqmp_conn_t`. -/
structure Conn where
  life : Life
  isServer : Bool
  connected : Bool
  /-- SHUTDOWN_COMPLETE has come -/
  shut : Bool
  streams : List StreamId

/-- `sqmp_stream_t`. -/
structure Stream where
  life : Life
  conn : ConnId
  /-- StreamClose has been called by the program -/
  closing : Bool

/-- The wrapper's part of the process. -/
structure Wrapper where
  /-- `sqmp_quic_ctx_t` -/
  ctx : Life
  /-- `ctx->config` -/
  config : Life
  /-- `ctx->listener` -/
  listener : Life
  listening : Bool
  /-- `sqmp_quic_destroy` is in RegistrationClose -/
  destroying : Bool
  opened : List ConnId
  conn : ConnId → Conn
  stream : StreamId → Stream
  /-- the buffers MsQuic has, each with its stream -/
  sends : List (Nat × StreamId)
  sendBufs : Nat
  flats : Nat
  /-- latest first -/
  ledger : List (Op Resource)
  /-- latest first -/
  calls : List AppCall

inductive InitFailure
  | calloc | msQuicOpenVersion | registrationOpen
deriving DecidableEq, Repr

inductive ListenFailure
  | configurationOpen | configurationLoadCredential | listenerOpen | listenerStart
deriving DecidableEq, Repr

inductive AcceptFailure
  | calloc | connectionSetConfiguration
deriving DecidableEq, Repr

inductive StreamFailure
  | calloc | streamOpen | streamStart
deriving DecidableEq, Repr

inductive SendFailure
  | malloc | streamSend
deriving DecidableEq, Repr

inductive WrapperAction
  | sqmpQuicInit (failure : Option InitFailure)
  | sqmpQuicListen (failure : Option ListenFailure)
  /-- `sqmp_quic_connect` up to its first wait -/
  | sqmpQuicConnect (c : ConnId) (failure : Option ConnectFailure)
  /-- the end of `sqmp_quic_connect` without a connection, or of `sqmp_quic_disconnect` -/
  | closeConn (c : ConnId)
  /-- `sqmp_quic_destroy` up to RegistrationClose -/
  | destroy
  /-- the rest of `sqmp_quic_destroy` -/
  | destroyRest
  | newConnection (c : ConnId) (failure : Option AcceptFailure)
  | connEvent (c : ConnId) (e : ConnEvent)
  | peerStreamStarted (c : ConnId) (st : StreamId) (alloc : Bool)
  /-- `uninit` is what `malloc` leaves in the flat copy -/
  | receive (st : StreamId) (ev : RecvEvent) (uninit : Nat → UInt8)
  | peerSendShutdown (st : StreamId)
  | sendComplete (n : Nat)
  | streamShutdownComplete (st : StreamId)
  | sqmpStreamOpen (c : ConnId) (st : StreamId) (failure : Option StreamFailure)
  | sqmpStreamSend (st : StreamId) (failure : Option SendFailure)
  | sqmpStreamSendDone (st : StreamId)
  | sqmpStreamClose (st : StreamId)

/-- `calloc` does not fail on PEER_STREAM_STARTED. -/
def WrapperAction.allocates : WrapperAction → Bool
  | .peerStreamStarted _ _ alloc => alloc
  | _ => true

namespace Wrapper

/-- Before `sqmp_quic_init`. -/
def init : Wrapper where
  ctx := .absent
  config := .absent
  listener := .absent
  listening := false
  destroying := false
  opened := []
  conn := fun _ => ⟨.absent, false, false, false, []⟩
  stream := fun _ => ⟨.absent, 0, false⟩
  sends := []
  sendBufs := 0
  flats := 0
  ledger := []
  calls := []

variable (w : Wrapper)

/-- The operations, in program order. -/
@[simps]
def did (ops : List (Op Resource)) : Wrapper := { w with ledger := ops.reverse ++ w.ledger }

@[simps]
def call (c : AppCall) : Wrapper := { w with calls := c :: w.calls }

@[simps]
def setConn (c : ConnId) (x : Conn) : Wrapper := { w with conn := Function.update w.conn c x }

@[simps]
def setStream (st : StreamId) (x : Stream) : Wrapper :=
  { w with stream := Function.update w.stream st x }

/-! ## 2. The context -/

/-- `sqmp_quic_init`. -/
def sqmpQuicInit : Option InitFailure → Wrapper
  | some .calloc => w
  | some .msQuicOpenVersion => { w.did [.acquire .ctx, .release .ctx] with ctx := .gone }
  | some .registrationOpen =>
    { w.did [.acquire .ctx, .acquire .api, .release .api, .release .ctx] with ctx := .gone }
  | none => { w.did [.acquire .ctx, .acquire .api, .acquire .registration] with ctx := .present }

/-- `sqmp_quic_listen`. What it has opened before a failure stays in the context. -/
def sqmpQuicListen : Option ListenFailure → Wrapper
  | some .configurationOpen => w.did [.use .ctx]
  | some .configurationLoadCredential | some .listenerOpen =>
    { w.did [.use .ctx, .acquire .configuration, .use .configuration] with config := .present }
  | some .listenerStart =>
    { w.did [.use .ctx, .acquire .configuration, .use .configuration, .acquire .listener,
        .use .listener] with
      config := .present, listener := .present }
  | none =>
    { w.did [.use .ctx, .acquire .configuration, .use .configuration, .acquire .listener,
        .use .listener] with
      config := .present, listener := .present, listening := true }

/-- `calloc` of a connection and its semaphores. -/
def allocConn (c : ConnId) : List (Op Resource) :=
  [.acquire (.conn c), .acquire (.connectSem c), .acquire (.closedSem c)]

/-- `sem_destroy` of both semaphores, and `free(conn)`. -/
def freeConn (c : ConnId) : List (Op Resource) :=
  [.release (.connectSem c), .release (.closedSem c), .release (.conn c)]

/-- `sqmp_quic_connect` up to its first wait. -/
def sqmpQuicConnect (c : ConnId) : Option ConnectFailure → Wrapper
  | some .configurationOpen => w.did [.use .ctx]
  | some .configurationLoadCredential | some .calloc =>
    { w.did [.use .ctx, .acquire .configuration, .use .configuration] with config := .present }
  | some .connectionOpen =>
    { (w.did ([.use .ctx, .acquire .configuration, .use .configuration] ++ allocConn c ++
        freeConn c)).setConn c ⟨.gone, false, false, false, []⟩ with
      config := .present }
  | some .connectionStart =>
    { (w.did ([.use .ctx, .acquire .configuration, .use .configuration] ++ allocConn c ++
        [.acquire (.connHandle c), .use (.connHandle c), .use .configuration,
          .release (.connHandle c)] ++ freeConn c)).setConn c
        ⟨.gone, false, false, false, []⟩ with
      config := .present }
  | none =>
    { (w.did ([.use .ctx, .acquire .configuration, .use .configuration] ++ allocConn c ++
        [.acquire (.connHandle c), .use (.connHandle c), .use .configuration])).setConn c
        ⟨.present, false, false, false, []⟩ with
      config := .present, opened := c :: w.opened }

/-- The thread comes back from its last wait for `closed_sem`. -/
def closeConn (c : ConnId) : Wrapper :=
  (w.did ([.use (.conn c), .use (.closedSem c), .use .ctx, .release (.connHandle c)] ++
    freeConn c)).setConn c { w.conn c with life := .gone }

/-- The handle is closed when there is one. -/
def closing (x : Life) (r : Resource) : List (Op Resource) :=
  if x = .present then [.release r] else []

/-- The life behind `closing`. -/
def closed (x : Life) : Life := if x = .present then .gone else x

/-- `sqmp_quic_destroy` up to RegistrationClose. -/
def destroy : Wrapper :=
  { w.did ([.use .ctx] ++ closing w.listener .listener ++ closing w.config .configuration) with
    listener := closed w.listener, config := closed w.config, listening := false,
    destroying := true }

/-- RegistrationClose has returned. -/
def destroyRest : Wrapper :=
  { w.did [.use .ctx, .release .registration, .release .api, .release .ctx] with ctx := .gone }

/-! ## 3. Callbacks of MsQuic -/

/-- `listener_cb`. -/
def listenerCb (c : ConnId) : Option AcceptFailure → Wrapper
  | some .calloc => w.did [.use .ctx]
  | some .connectionSetConfiguration =>
    (w.did ([.use .ctx] ++ allocConn c ++ [.acquire (.connHandle c),
      .use (.connHandle c), .use .configuration, .release (.connHandle c)] ++
      freeConn c)).setConn c ⟨.gone, true, false, false, []⟩
  | none =>
    { (w.did ([.use .ctx] ++ allocConn c ++ [.acquire (.connHandle c),
        .use (.connHandle c), .use .configuration])).setConn c
        ⟨.present, true, false, false, []⟩ with
      opened := c :: w.opened }

/-- SHUTDOWN_COMPLETE of `conn_cb` behind `on_disconnected`. -/
def connCbEnd (c : ConnId) : Wrapper :=
  if (w.conn c).isServer then
    (w.did ([.use (.conn c), .use .ctx, .release (.connHandle c)] ++ freeConn c)).setConn c
      { w.conn c with life := .gone, shut := true }
  else
    (w.did [.use (.conn c), .use .ctx, .use (.closedSem c)]).setConn c
      { w.conn c with shut := true }

/-- The events of `conn_cb` that concern the connection itself. -/
def connCb (c : ConnId) : ConnEvent → Wrapper
  | .connected =>
    ((w.did [.use (.conn c), .use .ctx, .use (.connectSem c)]).setConn c
      { w.conn c with connected := true }).call (.onConnected c)
  | .shutdownInitiatedByTransport =>
    w.did ([.use (.conn c), .use .ctx] ++
      if (w.conn c).connected then [] else [.use (.connectSem c)])
  | .shutdownInitiatedByPeer => w.did [.use (.conn c), .use .ctx]
  | .shutdownComplete =>
    (if (w.conn c).connected then w.call (.onDisconnected c) else w).connCbEnd c

/-- A stream of the connection. -/
def addStream (c : ConnId) (st : StreamId) : Wrapper :=
  (w.setStream st ⟨.present, c, false⟩).setConn c
    { w.conn c with streams := st :: (w.conn c).streams }

/-- PEER_STREAM_STARTED of `conn_cb`. Without memory the stream's handle goes to ConnectionClose. -/
def connCbStream (c : ConnId) (st : StreamId) (alloc : Bool) : Wrapper :=
  if alloc then
    ((w.did [.use (.conn c), .use .ctx, .acquire (.streamHandle st),
      .acquire (.stream st), .use (.streamHandle st)]).addStream c st).call
        (.onStreamOpen c st)
  else
    w.did [.use (.conn c), .use .ctx, .acquire (.streamHandle st),
      .release (.asConnHandle st)]

/-- What `stream_cb` looks at first. -/
def streamUses (st : StreamId) : List (Op Resource) :=
  [.use (.stream st), .use (.conn (w.stream st).conn), .use .ctx]

/-- RECEIVE of `stream_cb`. -/
def streamCbReceive (st : StreamId) (ev : RecvEvent) (uninit : Nat → UInt8) : Wrapper :=
  match ev.received uninit with
  | some data =>
    { (w.did (w.streamUses st ++ [.acquire (.flat w.flats), .use (.flat w.flats),
        .release (.flat w.flats)])).call (.onStreamRecv st data) with
      flats := w.flats + 1 }
  | none => w.did (w.streamUses st)

/-- SEND_COMPLETE of `stream_cb`. -/
def streamCbSendComplete (st : StreamId) (n : Nat) : Wrapper :=
  { w.did (w.streamUses st ++ [.release (.sendBuf n)]) with
    sends := w.sends.filter (·.1 ≠ n) }

/-- SHUTDOWN_COMPLETE of `stream_cb`. -/
def streamCbShutdown (st : StreamId) : Wrapper :=
  (((w.did (w.streamUses st ++ (if (w.stream st).closing then []
    else [.release (.streamHandle st)]) ++ [.release (.stream st)])).setStream st
      { w.stream st with life := .gone })).call (.onStreamClosed st)

/-! ## 4. Streams -/

/-- `sqmp_stream_open`. -/
def sqmpStreamOpen (c : ConnId) (st : StreamId) : Option StreamFailure → Wrapper
  | some .calloc => w
  | some .streamOpen =>
    (w.did [.acquire (.stream st), .use (.conn c), .use .ctx, .use (.connHandle c),
      .release (.stream st)]).setStream st ⟨.gone, c, false⟩
  | some .streamStart =>
    (w.did [.acquire (.stream st), .use (.conn c), .use .ctx, .use (.connHandle c),
      .acquire (.streamHandle st), .use (.streamHandle st),
      .release (.streamHandle st), .release (.stream st)]).setStream st
        ⟨.gone, c, false⟩
  | none =>
    (w.did [.acquire (.stream st), .use (.conn c), .use .ctx, .use (.connHandle c),
      .acquire (.streamHandle st), .use (.streamHandle st)]).addStream c st

/-- `sqmp_stream_send`. -/
def sqmpStreamSend (st : StreamId) : Option SendFailure → Wrapper
  | some .malloc => w
  | some .streamSend =>
    { w.did ([.acquire (.sendBuf w.sendBufs)] ++ w.streamUses st ++
        [.use (.streamHandle st), .release (.sendBuf w.sendBufs)]) with
      sendBufs := w.sendBufs + 1 }
  | none =>
    { w.did ([.acquire (.sendBuf w.sendBufs)] ++ w.streamUses st ++
        [.use (.streamHandle st)]) with
      sendBufs := w.sendBufs + 1, sends := (w.sendBufs, st) :: w.sends }

/-- `sqmp_stream_send_done`. -/
def sqmpStreamSendDone (st : StreamId) : Wrapper :=
  w.did (w.streamUses st ++ [.use (.streamHandle st)])

/-- `sqmp_stream_close` up to the events that StreamClose delivers. -/
def sqmpStreamClose (st : StreamId) : Wrapper :=
  (w.did (w.streamUses st ++ [.use (.streamHandle st),
    .release (.streamHandle st)])).setStream st { w.stream st with closing := true }

/-! ## 5. Steps -/

/-- MsQuic may call `conn_cb`. -/
def connUp (c : ConnId) : Bool := (w.conn c).life = .present && !(w.conn c).shut

def streamUp (st : StreamId) : Bool := (w.stream st).life = .present

/-- The stream has not ended and was not closed. -/
def usable (st : StreamId) : Bool := w.streamUp st && !(w.stream st).closing

/-- A call that opens the configuration finds a context without one. -/
def configurable (opens : Bool) : Bool := w.ctx = .present && (!opens || w.config = .absent)

/-- What the functions of `msquic_wrapper.h` ask of their callers: `sqmp_quic_listen` and
`sqmp_quic_connect` get a context, for one of them once; a connection is used until it has been
closed, a stream until it has ended or `sqmp_stream_close` was called on it. A call that finds no
memory touches neither. -/
def contract : WrapperAction → Bool
  | .sqmpQuicListen f => w.configurable (f ≠ some .configurationOpen)
  | .sqmpQuicConnect _ f => w.configurable (f ≠ some .configurationOpen)
  | .closeConn c => (w.conn c).life = .present
  | .sqmpStreamOpen c _ f => f = some .calloc || (w.conn c).life = .present
  | .sqmpStreamSend st f => f = some .malloc || w.usable st
  | .sqmpStreamSendDone st | .sqmpStreamClose st => w.usable st
  | _ => true

/-- A step of MsQuic or of the program, whatever it is called on; `none` when MsQuic does not take
it, or the main thread is not there. -/
def act : WrapperAction → Option Wrapper
  | .sqmpQuicInit f => if w.ctx = .absent then some (w.sqmpQuicInit f) else none
  | .sqmpQuicListen f => if w.destroying = false then some (w.sqmpQuicListen f) else none
  | .sqmpQuicConnect c f =>
    if w.destroying = false ∧ (w.conn c).life = .absent then some (w.sqmpQuicConnect c f) else none
  -- `closed_sem` is posted for clients only
  | .closeConn c =>
    if (w.conn c).isServer = false ∧ (w.conn c).shut = true then some (w.closeConn c) else none
  -- without a context it returns at once
  | .destroy =>
    if w.destroying = false then some (if w.ctx = .present then w.destroy else w) else none
  | .destroyRest =>
    if w.destroying && w.ctx = .present && w.opened.all (fun c => (w.conn c).life = .gone) then
      some w.destroyRest
    else none
  | .newConnection c f =>
    if w.listening && (w.conn c).life = .absent then some (w.listenerCb c f) else none
  | .connEvent c e =>
    match e with
    | .connected =>
      if w.connUp c && !(w.conn c).connected then some (w.connCb c .connected) else none
    | .shutdownComplete =>
      if w.connUp c && (w.conn c).streams.all (fun st => !w.streamUp st) then
        some (w.connCb c .shutdownComplete)
      else none
    | e => if w.connUp c then some (w.connCb c e) else none
  | .peerStreamStarted c st alloc =>
    if w.connUp c && (w.conn c).connected && (w.stream st).life = .absent then
      some (w.connCbStream c st alloc)
    else none
  | .receive st ev uninit =>
    if w.streamUp st then some (w.streamCbReceive st ev uninit) else none
  | .peerSendShutdown st =>
    if w.streamUp st then some ((w.did (w.streamUses st)).call (.onStreamPeerSendDone st))
    else none
  | .sendComplete n =>
    (w.sends.find? (·.1 = n)).map fun p => w.streamCbSendComplete p.2 n
  | .streamShutdownComplete st =>
    if w.streamUp st && w.sends.all (·.2 ≠ st) then some (w.streamCbShutdown st) else none
  | .sqmpStreamOpen c st f =>
    if (w.stream st).life = .absent ∧ (f = none → (w.conn c).shut = false) then
      some (w.sqmpStreamOpen c st f)
    else none
  | .sqmpStreamSend st f => some (w.sqmpStreamSend st f)
  | .sqmpStreamSendDone st => some (w.sqmpStreamSendDone st)
  | .sqmpStreamClose st => some (w.sqmpStreamClose st)

/-- A step whose caller keeps to the contract. -/
def step (a : WrapperAction) : Option Wrapper := if w.contract a then w.act a else none

end Wrapper

end Quic

end SquimpChat
