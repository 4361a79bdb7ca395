import SquimpChat.Handlers

/-!
# The client's message handlers

The handlers of `sqmp.c` that the client uses, those of `client.c`, its `on_stream_recv`,
`sqmp_login` and the parts of `send_chat`. The receiving thread runs the handlers one after
the other on the session that the main thread shares; what they print and send is left in the
client's trace.

OpenSSL is a parameter: which keys it makes, and what it derives, encrypts and
decrypts. A failing call has no result.
-/

namespace SquimpChat
open Octets

/-- What the client calls of OpenSSL. `keygen n` and `randBytes n` are the results of
calls made when the trace has `n` events. -/
structure OpenSSL where
  keygen : Nat → Option (Buf 32)
  publicKey : Buf 32 → Buf 32
  derive : Buf 32 → Buf 32 → Option (Buf 32)
  sha256 : Bytes → Buf 32
  randBytes : Nat → Option (Buf 12)
  /-- the ciphertext with its tag behind it -/
  gcmEncrypt : Buf 32 → Buf 12 → Bytes → Option Bytes
  gcmDecrypt : Buf 32 → Buf 12 → Bytes → Bytes → Option Bytes

/-- What the client does not control. -/
structure ClientEnv where
  ssl : OpenSSL
  streamSend : Nat → Bool
  malloc : Nat → Bool

/-- Every send and allocation succeeds. -/
def ClientEnv.fair (ssl : OpenSSL) : ClientEnv := ⟨ssl, fun _ => true, fun _ => true⟩

/-- No call succeeds. -/
def OpenSSL.failing : OpenSSL where
  keygen _ := none
  publicKey := id
  derive _ _ := none
  sha256 _ := Buf.zero 32
  randBytes _ := none
  gcmEncrypt _ _ _ := none
  gcmDecrypt _ _ _ _ := none

/-- Why a received message is not shown. -/
inductive ChatFailure
  | cannotDecrypt | allocError | decryptFailed
deriving DecidableEq, Repr

inductive ClientEvent
  | sent (p : Packet) (ok : Bool)
  | error (code : UInt8) (desc : Bytes)
  | authFailed (status : UInt8)
  | unexpected (t : MsgType) (state : SessionState)
  | unsupportedVersion (v : UInt8)
  /-- a message is printed behind its sender's name, or an error in its place -/
  | chat (sender : Bytes) (text : Except ChatFailure Bytes)
  | outOfRange (e : OutOfRange)

structure Client where
  session : Session
  /-- `g_interrupted` -/
  interrupted : Bool
  /-- latest event first -/
  trace : List ClientEvent

/-- Why `sqmp_login` returns -1. -/
inductive LoginFailure
  | noUsername | badUsername | noPassword | noKey | notSent
deriving DecidableEq

/-- The first line of the input, at most `n` bytes of it, and the input behind them. -/
def takeLine : Nat → Bytes → Bytes × Bytes
  | 0, input => ([], input)
  | _ + 1, [] => ([], [])
  | n + 1, b :: input =>
    if b == newline then ([b], input)
    else (b :: (takeLine n input).1, (takeLine n input).2)

/-- `fgets(buf, size, stdin)`: what it stores before the NUL, and the input it leaves. -/
def fgets (size : Nat) (stdin : Bytes) : Option (Bytes × Bytes) :=
  if stdin.isEmpty then none else some (takeLine (size - 1) stdin)

/-- What `sqmp_login` keeps of a line: its C string without the newline at the end. -/
def inputString (line : Bytes) : Bytes :=
  let s := cString line
  if s.getLast? = some newline then s.dropLast else s

namespace Client

/-- The client before its HELLO. -/
def init : Client := ⟨.fresh, false, []⟩

@[simps]
def log (c : Client) (e : ClientEvent) : Client := { c with trace := e :: c.trace }

@[simps]
def modify (c : Client) (f : Session → Session) : Client := { c with session := f c.session }

variable (env : ClientEnv) (c : Client)

/-- `sqmp_stream_send` on the client's stream. -/
def sqmpStreamSend (p : Packet) : Client := c.log (.sent p (env.streamSend c.trace.length))

/-- `sqmp_send_bye`. -/
def sqmpSendBye : Client := sqmpStreamSend env c ⟨c.session.sessionId, .bye⟩

/-! ## Login -/

/-- The AUTH_REQ of `sqmp_login`. -/
def authReqPacket (username : Bytes) (passwordHash : Buf 32) : Packet :=
  ⟨c.session.sessionId,
    .authReq ⟨UInt8.ofNat username.length, (Buf.zero 32).store username, passwordHash, 32,
      c.session.clientPubkey.bytes⟩⟩

/-- `sqmp_login` from the key pair on. -/
def sqmpLoginAs (username : Bytes) (passwordHash privkey : Buf 32) :
    Client × Except LoginFailure Unit :=
  let c := c.modify fun x =>
    { x with clientPubkey := env.ssl.publicKey privkey, clientPrivkey := privkey }
  let p := c.authReqPacket username passwordHash
  let c := c.modify fun x =>
    { x with usernameLen := UInt8.ofNat username.length, username := x.username.store username }
  (c.sqmpStreamSend env p,
    if env.streamSend c.trace.length then .ok () else .error .notSent)

/-- `sqmp_login`, with what stdin holds. -/
def sqmpLogin (stdin : Bytes) : Client × Except LoginFailure Unit :=
  match fgets 33 stdin with
  | none => (c, .error .noUsername)
  | some (line, stdin) =>
    let username := inputString line
    if username.length = 0 ∨ username.length > 32 then (c, .error .badUsername)
    else
      match fgets 256 stdin with
      | none => (c, .error .noPassword)
      | some (line, _) =>
        match env.ssl.keygen c.trace.length with
        | none => (c, .error .noKey)
        | some privkey =>
          sqmpLoginAs env c username (env.ssl.sha256 (inputString line)) privkey

/-- `sqmp_process_hello_ack`. -/
def sqmpProcessHelloAck (pkt : Bytes) : Except OutOfRange Client :=
  if c.session.state ≠ .hello then .ok (c.log (.unexpected .helloAck c.session.state))
  else do
    let v ← Pkt.helloAckSelectedVersion pkt
    if v ≠ 1 then .ok (c.log (.unsupportedVersion v))
    else do
      let sid ← Pkt.sessionId pkt
      .ok (c.modify fun x =>
        { x with sessionId := sid, state := .auth, loginReady := x.loginReady + 1 })

/-- `sqmp_process_auth_resp`. -/
def sqmpProcessAuthResp (pkt : Bytes) : Except OutOfRange Client :=
  if c.session.state = .auth then do
    let status ← Pkt.authRespStatus pkt
    if status = AuthStatus.ok.code then
      .ok (c.modify fun x =>
        { x with state := .connEstablished, authOk := true, authDone := x.authDone + 1 })
    else
      .ok ((c.log (.authFailed status)).modify fun x =>
        { x with authOk := false, authDone := x.authDone + 1 })
  else
    .ok ((c.log (.unexpected .authResp c.session.state)).modify fun x =>
      { x with authDone := x.authDone + 1 })

/-! ## Keys and errors -/

/-- `key_fetch_result` is stored and `key_fetch_sem` posted. -/
def postKey (key : Buf 32) : Client :=
  c.modify fun x => { x with keyFetchResult := key, keyFetchSem := x.keyFetchSem + 1 }

/-- `sqmp_process_key_resp`. -/
def sqmpProcessKeyResp (pkt : Bytes) : Except OutOfRange Client := do
  let plen ← Pkt.keyRespPubkeyLen pkt
  if plen = 32 then do
    let key ← Pkt.keyRespPublicKey pkt
    .ok (c.postKey key)
  else .ok (c.postKey (Buf.zero 32))

/-- `sqmp_process_error` of `client.c`. -/
def sqmpProcessError (pkt : Bytes) : Except OutOfRange Client := do
  let code ← Pkt.errorCode pkt
  let n ← Pkt.errorDescLen pkt
  let desc ← Pkt.errorDescription pkt n.toNat
  let c := c.log (.error code desc)
  if code = ErrorCode.userNotFound.code then .ok (c.postKey (Buf.zero 32)) else .ok c

/-- `sqmp_process_bye` of `client.c`. -/
def sqmpProcessBye : Client := { sqmpSendBye env c with interrupted := true }

/-! ## Messages -/

/-- `decrypt_chat`. `ciphertext` is the read of `ciphertext_len` bytes, made only once
the key is derived. -/
def decryptChat (ssl : OpenSSL) (privkey ephemeralPub : Buf 32) (nonce : Buf 12)
    (ciphertextLen : Nat) (ciphertext : Except OutOfRange Bytes) :
    Except OutOfRange (Option Bytes) :=
  if ciphertextLen < 16 then .ok none
  else
    match ssl.derive privkey ephemeralPub with
    | none => .ok none
    | some shared => do
      let ct ← ciphertext
      let n := ciphertextLen - 16
      .ok (ssl.gcmDecrypt (ssl.sha256 shared.bytes) nonce (ct.take n) (ct.drop n))

/-- The message of a CHAT_DELIVER, or why there is none. -/
def readChat (pkt : Bytes) : Except OutOfRange (Except ChatFailure Bytes) := do
  let encKeyLen ← Pkt.chatEncKeyLen pkt
  if encKeyLen ≠ 32 then .ok (.error .cannotDecrypt)
  else do
    let ciphertextLen ← Pkt.chatCiphertextLen pkt
    if ciphertextLen < 16 then .ok (.error .cannotDecrypt)
    else if env.malloc c.trace.length then do
      let ephemeralPub ← Pkt.chatEncryptedKey pkt 32
      let nonce ← Pkt.chatNonce pkt
      match ← decryptChat env.ssl c.session.clientPrivkey ephemeralPub nonce ciphertextLen.toNat
          (Pkt.chatCiphertext pkt ciphertextLen.toNat) with
      | some plaintext => .ok (.ok plaintext)
      | none => .ok (.error .decryptFailed)
    else .ok (.error .allocError)

/-- `sqmp_process_chat_deliver` of `client.c`. -/
def sqmpProcessChatDeliver (pkt : Bytes) : Except OutOfRange Client :=
  if c.session.state ≠ .connEstablished then
    .ok (c.log (.unexpected .chatDeliver c.session.state))
  else do
    let n ← Pkt.chatNameLen pkt
    let sender ← Pkt.chatSenderStr pkt n.toNat
    let text ← readChat env c pkt
    .ok (c.log (.chat sender text))

/-! ## Sending a message -/

/-- `encrypt_chat`: the ephemeral public key, the nonce and the ciphertext with its tag. -/
def encryptChat (ssl : OpenSSL) (n : Nat) (peerPubkey : Buf 32) (plaintext : Bytes) :
    Option (Buf 32 × Buf 12 × Bytes) := do
  let ephemeral ← ssl.keygen n
  let shared ← ssl.derive ephemeral peerPubkey
  let nonce ← ssl.randBytes n
  let ciphertext ← ssl.gcmEncrypt (ssl.sha256 shared.bytes) nonce plaintext
  some (ssl.publicKey ephemeral, nonce, ciphertext)

/-- The KEY_REQ of `send_chat`. -/
def keyReqPacket (recipient : Bytes) : Packet :=
  ⟨c.session.sessionId,
    .keyReq ⟨UInt8.ofNat recipient.length, (Buf.zero 32).store recipient⟩⟩

/-- The CHAT_SEND of `send_chat`. -/
def chatSendPacket (recipient : Bytes) (ephemeralPub : Buf 32) (nonce : Buf 12)
    (ciphertext : Bytes) : Packet :=
  ⟨c.session.sessionId,
    .chatSend ⟨UInt8.ofNat recipient.length, (Buf.zero 32).store recipient, 32,
      (Buf.zero 256).store ephemeralPub.bytes, nonce, UInt32.ofNat ciphertext.length,
      ciphertext⟩⟩

/-! ## Dispatch -/

/-- The types `on_stream_recv` of `client.c` has a case for. -/
def handles : MsgType → Bool
  | .helloAck | .authResp | .keyResp | .chatDeliver | .error | .bye => true
  | _ => false

/-- `on_stream_recv` of `client.c`. -/
def onStreamRecv (data : Bytes) : Except OutOfRange Client := do
  match ← dispatch handles data with
  | some .helloAck => sqmpProcessHelloAck c data
  | some .authResp => sqmpProcessAuthResp c data
  | some .keyResp => sqmpProcessKeyResp c data
  | some .chatDeliver => sqmpProcessChatDeliver env c data
  | some .error => sqmpProcessError c data
  | some .bye => .ok (sqmpProcessBye env c)
  | _ => .ok c

/-- The client behind a RECEIVE; a read outside the packet is reported. -/
def receive (data : Bytes) : Client :=
  match onStreamRecv env c data with
  | .ok c' => c'
  | .error e => c.log (.outOfRange e)

/-- The client behind a list of RECEIVEs. -/
def receiveAll (packets : List Bytes) : Client := packets.foldl (receive env) c

end Client

end SquimpChat
