import SquimpChat.Server

/-!
# The server's message handlers and callbacks

The handlers of `sqmp.c` that the server uses, its `on_stream_recv` and its
connection and stream callbacks. A handler that reads outside the packet has no
result; everything else is a function of the server's state.
-/

namespace SquimpChat
open Octets

variable (env : Env) (σ : Server)

/-! ## HELLO -/

/-- The loop over `hello->versions` from index `i`, at most `n` more rounds: is
version 1 among the first `num`? -/
def helloScan (pkt : Bytes) (num : Nat) : Nat → Nat → Except OutOfRange Bool
  | 0, _ => .ok false
  | n + 1, i =>
    if i < num then do
      let v ← Pkt.helloVersion pkt i
      if v = 1 then .ok true else helloScan pkt num n (i + 1)
    else .ok false

/-- The rest of `sqmp_process_hello` once version 1 is found. -/
def acceptHello (stream : StreamId) (s : SessionId) : Server :=
  let id := σ.nextSessionId
  let σ := { σ with nextSessionId := id + 1 }
  let σ := σ.modify s fun x => { x with sessionId := id }
  let σ := sqmpStreamSend env σ stream ⟨id, .helloAck ⟨1, 65535⟩⟩
  σ.modify s fun x => { x with state := .auth }

/-- `sqmp_process_hello`. -/
def sqmpProcessHello (stream : StreamId) (s : SessionId) (pkt : Bytes) :
    Except OutOfRange Server :=
  let σ := σ.append (σ.touched s)
  if (σ.session s).state ≠ .hello then
    .ok (sqmpSendError env σ stream s .unexpectedMsg "unexpected HELLO")
  else do
    let num ← Pkt.helloNumVersions pkt
    let hasV1 ← helloScan pkt num.toNat 8 0
    if hasV1 then .ok (acceptHello env σ stream s)
    else
      let σ := sqmpSendError env σ stream s .versionMismatch "no supported protocol version"
      .ok (sqmpSendBye env σ stream s)

/-! ## AUTH_REQ -/

/-- What `sqmp_process_auth_req` reads of the packet. -/
def readAuthReq (pkt : Bytes) : Except OutOfRange AuthFields := do
  let len ← Pkt.authReqUsernameLen pkt
  let username ← Pkt.authReqUsername pkt len.toNat
  let hash ← Pkt.authReqPasswordHash pkt
  let plen ← Pkt.authReqPubkeyLen pkt
  if plen = 32 then do
    let pubkey ← Pkt.authReqPublicKey pkt
    .ok ⟨len, username, hash, some pubkey⟩
  else .ok ⟨len, username, hash, none⟩

/-- The stores of `sqmp_process_auth_req` into the session. -/
def Session.stage (x : Session) (f : AuthFields) (stream : StreamId) : Session :=
  { x with
    authUsernameLen := f.usernameLen
    authUsername := x.authUsername.store f.username
    authPasswordHash := f.passwordHash
    authPubkey := f.pubkey.getD x.authPubkey
    authStream := some stream
    authQueued := true }

/-- `auth_queue_enqueue`: it writes the links of the session and of the tail. -/
def authQueueEnqueue (s : SessionId) : Server :=
  let σ := match σ.queue.tail with
    | some t => σ.append (σ.touched t)
    | none => σ
  { σ.append [.enqueued s] with queue := σ.queue.enqueue s, queueSem := σ.queueSem + 1 }

/-- The rest of `sqmp_process_auth_req` with the packet's fields. -/
def acceptAuthReq (stream : StreamId) (s : SessionId) (f : AuthFields) : Server :=
  let σ := σ.append [.copied .authUsername f.usernameLen.toNat, .authReq s f]
  let σ := σ.modify s (·.stage f stream)
  authQueueEnqueue σ s

/-- `sqmp_process_auth_req`. -/
def sqmpProcessAuthReq (stream : StreamId) (s : SessionId) (pkt : Bytes) :
    Except OutOfRange Server :=
  let σ := σ.append (σ.touched s)
  if (σ.session s).state ≠ .auth then
    .ok (sqmpSendError env σ stream s .unexpectedMsg "unexpected AUTH_REQ")
  else do
    let f ← readAuthReq pkt
    .ok (acceptAuthReq σ stream s f)

/-! ## CHAT_SEND -/

/-- The registry lookup of `sqmp_process_chat_send`. -/
def chatSendLookup (pkt : Bytes) : Except OutOfRange (Option StreamId) := do
  let n ← Pkt.chatNameLen pkt
  sqmpRegistryFind σ.registry (Pkt.chatName pkt n.toNat) n

/-- The CHAT_DELIVER message built from a CHAT_SEND of the session `x`. -/
def chatDeliverMsg (x : Session) (pkt : Bytes) : Except OutOfRange MsgChatDeliver := do
  let ciphertextLen ← Pkt.chatCiphertextLen pkt
  let encKeyLen ← Pkt.chatEncKeyLen pkt
  let encryptedKey ← Pkt.chatEncryptedKey pkt 256
  let nonce ← Pkt.chatNonce pkt
  let ciphertext ← Pkt.chatCiphertext pkt ciphertextLen.toNat
  .ok
    { senderLen := x.usernameLen
      sender := (Buf.zero 32).store (x.username.first x.usernameLen.toNat)
      encKeyLen, encryptedKey, nonce, ciphertextLen, ciphertext }

/-- Send the CHAT_DELIVER; an ERROR to the sender when that fails. -/
def forwardChat (stream : StreamId) (s : SessionId) (recipient : StreamId) (sid : UInt32)
    (m : MsgChatDeliver) : Server :=
  let σ := σ.append [.copied .deliverSender m.senderLen.toNat]
  let sent := sqmpStreamSend env σ recipient ⟨sid, .chatDeliver m⟩
  if env.streamSend σ.trace.length then sent
  else sqmpSendError env sent stream s .couldNotSend "could not deliver message"

/-- `sqmp_process_chat_send` from the allocation of the packet on. -/
def chatSendForward (stream : StreamId) (s : SessionId) (pkt : Bytes) (recipient : StreamId) :
    Except OutOfRange Server := do
  let _ ← Pkt.chatCiphertextLen pkt
  if env.malloc σ.trace.length then do
    let sid ← Pkt.sessionId pkt
    let m ← chatDeliverMsg (σ.session s) pkt
    .ok (forwardChat env σ stream s recipient sid m)
  else .ok (σ.append [.noMemory])

/-- `sqmp_process_chat_send` up to its lookup: an ERROR, or the recipient's stream
for the rest `k` of the handler. -/
def chatSendHead (stream : StreamId) (s : SessionId) (pkt : Bytes)
    (k : Server → StreamId → Except OutOfRange Server) : Except OutOfRange Server :=
  let σ := σ.append (σ.touched s)
  if (σ.session s).state ≠ .connEstablished then
    .ok (sqmpSendError env σ stream s .unexpectedMsg "unexpected CHAT_SEND")
  else do
    match ← chatSendLookup σ pkt with
    | none => .ok (sqmpSendError env σ stream s .userNotFound "recipient not online")
    | some recipient => k σ recipient

/-- `sqmp_process_chat_send`. -/
def sqmpProcessChatSend (stream : StreamId) (s : SessionId) (pkt : Bytes) :
    Except OutOfRange Server :=
  chatSendHead env σ stream s pkt fun σ recipient => chatSendForward env σ stream s pkt recipient

/-! ## KEY_REQ -/

/-- The KEY_RESP message for a requested name. -/
def keyRespMsg (ulen : UInt8) (name : Bytes) (pubkey : Buf 32) : MsgKeyResp :=
  ⟨ulen, (Buf.zero 32).store name, 32, pubkey.bytes⟩

/-- `sqmp_process_key_req`. -/
def sqmpProcessKeyReq (stream : StreamId) (s : SessionId) (pkt : Bytes) :
    Except OutOfRange Server :=
  let σ := σ.append (σ.touched s)
  if (σ.session s).state ≠ .connEstablished then
    .ok (sqmpSendError env σ stream s .unexpectedMsg "unexpected KEY_REQ")
  else do
    let n ← Pkt.keyReqUsernameLen pkt
    match ← sqmpRegistryGetPubkey σ.registry (Pkt.keyReqUsername pkt n.toNat) n with
    | none => .ok (sqmpSendError env σ stream s .userNotFound "user not found")
    | some pubkey =>
      if env.malloc σ.trace.length then do
        let sid ← Pkt.sessionId pkt
        let name ← Pkt.keyReqUsername pkt n.toNat
        let σ := σ.append [.copied .respUsername n.toNat]
        .ok (sqmpStreamSend env σ stream ⟨sid, .keyResp (keyRespMsg n name pubkey)⟩)
      else .ok (σ.append [.noMemory])

/-! ## BYE -/

/-- The rest of the server's `sqmp_process_bye` in CONN_ESTABLISHED. -/
def acceptBye (s : SessionId) : Server :=
  let x := σ.session s
  { σ.modify s fun x => { x with state := .closing } with
    registry := sqmpRegistryRemove σ.registry x.username x.usernameLen }

/-- `sqmp_process_bye` of `server.c`. -/
def sqmpProcessBye (s : SessionId) : Server :=
  let σ := σ.append (σ.touched s)
  if (σ.session s).state = .connEstablished then acceptBye σ s else σ

/-! ## Dispatch -/

/-- The types `on_stream_recv` of `server.c` has a case for. -/
def serverHandles : MsgType → Bool
  | .hello | .authReq | .keyReq | .chatSend | .error | .bye => true
  | _ => false

/-- The message type an `on_stream_recv` hands to a handler, `none` when it ignores
the packet; `handles` are its cases. -/
def dispatch (handles : MsgType → Bool) (data : Bytes) : Except OutOfRange (Option MsgType) :=
  if data.length < pktFixedLen then .ok none
  else do
    let b ← Pkt.msgType data
    .ok ((MsgType.ofCode b).filter handles)

/-- Call a handler with the session of the stream. -/
def withSession (stream : StreamId) (k : SessionId → Except OutOfRange Server) :
    Except OutOfRange Server :=
  match (σ.stream stream).userData with
  | none => .ok (σ.append [.nullSession])
  | some s => k s

/-- `on_stream_recv` of `server.c`. The default `sqmp_process_error` does nothing. -/
def onStreamRecv (stream : StreamId) (data : Bytes) : Except OutOfRange Server := do
  match ← dispatch serverHandles data with
  | some .hello => withSession σ stream fun s => sqmpProcessHello env σ stream s data
  | some .authReq => withSession σ stream fun s => sqmpProcessAuthReq env σ stream s data
  | some .keyReq => withSession σ stream fun s => sqmpProcessKeyReq env σ stream s data
  | some .chatSend => withSession σ stream fun s => sqmpProcessChatSend env σ stream s data
  | some .bye => withSession σ stream fun s => .ok (sqmpProcessBye σ s)
  | _ => .ok σ

/-! ## Connection and stream callbacks -/

/-- `on_connected`. The session of connection `c` is session `c`. -/
def onConnected (c : ConnId) : Server :=
  if env.calloc c then
    { σ with
      session := Function.update σ.session c .fresh
      life := Function.update σ.life c .live
      conn := Function.update σ.conn c ⟨.connected, some c, []⟩ }
  else { σ with conn := Function.update σ.conn c ⟨.connected, none, []⟩ }

/-- A stream the peer has started, and `on_stream_open`. -/
def onStreamOpen (c : ConnId) (stream : StreamId) : Server :=
  { σ with
    stream := Function.update σ.stream stream ⟨.live, c, (σ.conn c).userData⟩
    conn := Function.update σ.conn c
      { σ.conn c with streams := stream :: (σ.conn c).streams } }

/-- SHUTDOWN_COMPLETE of a stream: `on_stream_closed`, then `stream_cb` frees it. -/
def onStreamClosed (stream : StreamId) : Server :=
  let σ' := match (σ.stream stream).userData with
    | none => σ
    | some s => (σ.append (σ.touched s)).modify s fun x => { x with authStream := none }
  { σ' with stream := Function.update σ.stream stream { σ.stream stream with life := .freed } }

/-- The branch of `on_disconnected` that leaves the session to the worker. -/
def disconnectQueued (s : SessionId) : Server :=
  (σ.append (σ.touched s)).modify s fun x => { x with connClosed := true }

/-- The branch of `on_disconnected` that frees the session. -/
def disconnectFree (s : SessionId) : Server :=
  let σ := σ.append (σ.touched s)
  let x := σ.session s
  let σ := if x.state = .connEstablished then
      { σ with registry := sqmpRegistryRemove σ.registry x.username x.usernameLen }
    else σ
  σ.free s

/-- `conn_cb` frees the connection behind `on_disconnected`. -/
@[simps -isSimp]
def setPhase (c : ConnId) (p : ConnPhase) : Server :=
  { σ with conn := Function.update σ.conn c { σ.conn c with phase := p } }

/-- The first step of `on_disconnected`: load `auth_queued`. -/
def disconnectLoad (c : ConnId) : Server :=
  match (σ.conn c).userData with
  | none => setPhase σ c (.disconnecting false)
  | some s => setPhase (σ.append (σ.touched s)) c (.disconnecting (σ.session s).authQueued)

/-- The rest of `on_disconnected`, `queued` being the value loaded. -/
def disconnectRest (c : ConnId) (queued : Bool) : Server :=
  match (σ.conn c).userData with
  | none => setPhase σ c .closed
  | some s => setPhase (if queued then disconnectQueued σ s else disconnectFree σ s) c .closed

/-- `on_disconnected` in one step. -/
def onDisconnected (c : ConnId) : Server :=
  match (σ.conn c).userData with
  | none => setPhase σ c .closed
  | some s => disconnectRest (σ.append (σ.touched s)) c (σ.session s).authQueued

end SquimpChat
