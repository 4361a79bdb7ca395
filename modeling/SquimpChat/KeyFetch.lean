import SquimpChat.ClientState
import SquimpChat.Lib.Transition

/-!
# Fetching the recipient's key

`send_chat` asks for the recipient's key, waits on `key_fetch_sem` and encrypts with what
is in `key_fetch_result`. The handlers of KEY_RESP and of ERROR store the result and post the
semaphore for any call, and for errors about a CHAT_SEND too; nothing says which request
a post belongs to.

The main thread's `send_chat` is a sequence of steps, one for each access to the shared
fields, and a handler of the receiving thread is one step. The server takes requests in
order and answers them in order, after any delay; it may send anything in between that
does not post the semaphore. Requests, answers and events are marked with the number of
their call, which is not in any packet.

Results:
1. `keysRight_run`: every message is encrypted with the key the server has given for its
   recipient and in answer to the same call, in every run in which each call finds the
   semaphore at 0 and is posted by its own answer only.
2. `drifted_key`: one ERROR for a CHAT_SEND, and a later message is encrypted with the key
   of the recipient before.
-/

namespace SquimpChat
open Octets

/-! ## 1. A client and its server -/

/-- A call of `send_chat`. `main` makes none for a longer recipient name. -/
structure SendCall where
  number : Nat
  recipient : Bytes
  msg : Bytes
  short : recipient.length ≤ 32
deriving DecidableEq

/-- The counted name of the recipient. -/
def SendCall.name (call : SendCall) : Key := (UInt8.ofNat call.recipient.length, call.recipient)

/-- Where the main thread is in `send_chat`. -/
inductive SendPc
  /-- between two calls -/
  | idle
  /-- in `sem_timedwait` -/
  | waiting (call : SendCall)
  /-- past the wait -/
  | fetched (call : SendCall)
  /-- `key_fetch_result` was not zero -/
  | checked (call : SendCall)
deriving DecidableEq

def SendPc.call : SendPc → Option SendCall
  | idle => none
  | waiting call | fetched call | checked call => some call

/-- A packet for the server and the call that has sent it. -/
structure Request where
  call : Nat
  packet : Packet

/-- A packet for the client and the call whose request it answers. -/
structure Reply where
  call : Option Nat
  packet : Packet

inductive KeyEvent
  /-- the server has answered the KEY_REQ of the call with this KEY_RESP -/
  | answered (call : Nat) (resp : MsgKeyResp)
  /-- `encrypt_chat` is called with this key -/
  | encrypted (call : SendCall) (key : Buf 32)
deriving DecidableEq

structure ChatSystem where
  client : Client
  pc : SendPc
  /-- the number of calls so far -/
  calls : Nat
  toServer : List Request
  toClient : List Reply
  /-- latest event first -/
  events : List KeyEvent

inductive ChatAction
  /-- `main` calls `send_chat`, which sends the KEY_REQ -/
  | sendChat (recipient msg : Bytes)
  /-- `sem_timedwait` takes a post -/
  | wake
  /-- `sem_timedwait` fails -/
  | timeout
  /-- `key_fetch_result` is compared with zeros -/
  | compare
  /-- the message is encrypted and sent -/
  | encrypt
  /-- the server takes a request; `found` is the key it has for the name in it -/
  | answer (found : Option (Buf 32))
  /-- the server sends a packet of another kind -/
  | push (p : Packet)
  /-- RECEIVE of the next packet -/
  | receive
deriving DecidableEq

/-- The message posts `key_fetch_sem`. -/
def Msg.posts : Msg → Bool
  | .keyResp _ => true
  | .error m => m.errorCode == ErrorCode.userNotFound.code
  | _ => false

/-- The server's answer: a KEY_REQ is answered by KEY_RESP or ERROR, a CHAT_SEND by ERROR or
not at all. `found` is the key the server has for the name. -/
def answerTo (m : Msg) (found : Option (Buf 32)) : Option Msg :=
  match m, found with
  | .keyReq m, some key =>
    some (.keyResp (keyRespMsg m.usernameLen (m.username.first m.usernameLen.toNat) key))
  | .keyReq _, none => some (.error (errorMsg .userNotFound "user not found"))
  | .chatSend _, none => some (.error (errorMsg .userNotFound "recipient not online"))
  | _, _ => none

namespace ChatSystem

def init : ChatSystem := ⟨.init, .idle, 0, [], [], []⟩

variable (env : ClientEnv) (w : ChatSystem)

/-- `sqmp_stream_send` of a request of the call. -/
def send (call : Nat) (p : Packet) : ChatSystem :=
  { w with
    client := w.client.sqmpStreamSend env p
    toServer := if env.streamSend w.client.trace.length then w.toServer ++ [⟨call, p⟩]
      else w.toServer }

/-- `send_chat` up to its wait. -/
def beginCall (call : SendCall) : ChatSystem :=
  { w.send env call.number (w.client.keyReqPacket call.recipient) with
    pc := .waiting call
    calls := w.calls + 1 }

/-- `send_chat` from its `malloc` on. -/
def encrypt (call : SendCall) : ChatSystem :=
  let key := w.client.session.keyFetchResult
  let n := w.client.trace.length
  let w := { w with pc := .idle }
  if env.malloc n then
    let w := { w with events := .encrypted call key :: w.events }
    match Client.encryptChat env.ssl n key call.msg with
    | none => w
    | some (ephemeralPub, nonce, ciphertext) =>
      w.send env call.number
        (w.client.chatSendPacket call.recipient ephemeralPub nonce ciphertext)
  else w

/-- The server sends a packet to the client. -/
def reply (call : Option Nat) (p : Packet) : ChatSystem :=
  { w with toClient := w.toClient ++ [⟨call, p⟩] }

def serve (x : Request) (found : Option (Buf 32)) : ChatSystem :=
  match answerTo x.packet.msg found with
  | none => w
  | some m =>
    { w.reply (some x.call) ⟨x.packet.sessionId, m⟩ with
      events := match m with
        | .keyResp resp => .answered x.call resp :: w.events
        | _ => w.events }

def step : ChatAction → Option ChatSystem
  | .sendChat recipient msg =>
    if h : w.pc = .idle ∧ recipient.length ≤ 32 then
      some (w.beginCall env ⟨w.calls, recipient, msg, h.2⟩)
    else none
  | .wake =>
    match w.pc with
    | .waiting call =>
      if w.client.session.keyFetchSem = 0 then none
      else some { w with
        client := w.client.modify fun x => { x with keyFetchSem := x.keyFetchSem - 1 }
        pc := .fetched call }
    | _ => none
  | .timeout =>
    match w.pc with
    | .waiting _ => if w.client.session.keyFetchSem = 0 then some { w with pc := .idle } else none
    | _ => none
  | .compare =>
    match w.pc with
    | .fetched call =>
      some { w with
        pc := if w.client.session.keyFetchResult = Buf.zero 32 then .idle else .checked call }
    | _ => none
  | .encrypt =>
    match w.pc with
    | .checked call => some (w.encrypt env call)
    | _ => none
  | .answer found =>
    match w.toServer with
    | [] => none
    | x :: xs => some ({ w with toServer := xs }.serve x found)
  | .push p => if p.msg.posts then none else some (w.reply none p)
  | .receive =>
    match w.toClient with
    | [] => none
    | y :: ys => some { w with toClient := ys, client := w.client.receive env y.packet.bytes }

end ChatSystem

/-! ## 2. Keys and recipients -/

/-- The server gave this key for the recipient, in answer to the KEY_REQ of the call. -/
def KeyEvent.Gives (call : SendCall) (key : Buf 32) : KeyEvent → Prop
  | answered n resp => n = call.number ∧
      countedName resp.usernameLen resp.username = call.name ∧ resp.publicKey = key.bytes
  | encrypted .. => False

instance {call : SendCall} {key : Buf 32} : ∀ e : KeyEvent, Decidable (e.Gives call key)
  | .answered .. => inferInstanceAs (Decidable (_ ∧ _ ∧ _))
  | .encrypted .. => isFalse id

/-- Every message is encrypted with a key that was given before for its call. -/
def KeysRight : List KeyEvent → Prop
  | [] => True
  | .encrypted call key :: es => (∃ e ∈ es, e.Gives call key) ∧ KeysRight es
  | .answered .. :: es => KeysRight es

instance KeysRight.decidable : ∀ es, Decidable (KeysRight es)
  | [] => isTrue trivial
  | .encrypted .. :: es =>
    have := KeysRight.decidable es
    inferInstanceAs (Decidable ((∃ _ ∈ _, _) ∧ _))
  | .answered .. :: es => KeysRight.decidable es

/-- A call of `send_chat` finds `key_fetch_sem` at 0, and until it returns only the answer
to its own request posts it. -/
def OwnAnswer (w : ChatSystem) : ChatAction → Prop
  | .sendChat .. => w.client.session.keyFetchSem = 0
  | .receive => ∀ y ∈ w.toClient.head?, y.packet.msg.posts = true →
      ∀ call ∈ w.pc.call, y.call = some call.number
  | _ => True

instance {w : ChatSystem} : ∀ a, Decidable (OwnAnswer w a)
  | .sendChat .. => inferInstanceAs (Decidable (_ = _))
  | .receive => inferInstanceAs (Decidable (∀ _ ∈ _, _ → ∀ _ ∈ _, _))
  | .wake | .timeout | .compare | .encrypt | .answer _ | .push _ => isTrue trivial

/-! ## 3. The server's handler -/

/-- The KEY_REQ handler of the server answers as `answerTo` says, with the key of a registered
user of that name. -/
theorem keyReq_answered (env : Env) {σ : Server} {s : SessionId} (st : StreamId) (sid : UInt32)
    (m : MsgKeyReq) (hst : (σ.session s).state = .connEstablished)
    (hn : m.usernameLen.toNat ≤ 32) (hmalloc : ∀ n, env.malloc n = true) :
    ∃ found a sid' ok es, answerTo (.keyReq m) found = some a ∧
      (∀ key ∈ found, ∃ e ∈ σ.registry.used, e.publicKey = key ∧
        e.key = countedName m.usernameLen m.username) ∧
      sqmpProcessKeyReq env σ st s (Packet.mk sid (.keyReq m)).bytes =
        .ok (σ.append (.sent st ⟨sid', a⟩ (σ.isLive st) ok :: es)) := by
  have hlen : Pkt.keyReqUsernameLen (Packet.mk sid (.keyReq m)).bytes = .ok m.usernameLen :=
    ClientStateLemmas.readU8_message rfl
  have hname : Pkt.keyReqUsername (Packet.mk sid (.keyReq m)).bytes m.usernameLen.toNat =
      .ok (m.username.first m.usernameLen.toNat) := by
    have hb : (Packet.mk sid (.keyReq m)).bytes = (header .keyReq sid ++ [m.usernameLen]) ++
        (m.username.first m.usernameLen.toNat ++ m.username.bytes.drop m.usernameLen.toNat) := by
      simp [Packet.bytes, Msg.bytes, Msg.type, Buf.first]
    rw [Pkt.keyReqUsername, hb]
    exact readAt_append (by simp) (Buf.length_first hn)
  obtain ⟨o, ho⟩ : ∃ o, findEntry (.ok (m.username.first m.usernameLen.toNat)) m.usernameLen
      σ.registry.slots = .ok o := findEntry_isOk _
  have hkey : sqmpRegistryGetPubkey σ.registry (.ok (m.username.first m.usernameLen.toNat))
      m.usernameLen = .ok (o.map (·.publicKey)) := by
    rw [sqmpRegistryGetPubkey, ho, ok_bind]
    rfl
  unfold sqmpProcessKeyReq
  dsimp only
  rw [if_neg (by rw [Server.append_session, hst]; exact not_not.mpr rfl), hlen, ok_bind, hname,
    Server.append_registry, hkey, ok_bind]
  cases o with
  | none => exact ⟨none, _, _, _, _, rfl, by simp, rfl⟩
  | some e =>
    obtain ⟨he, hul, hu⟩ := findEntry_ok ho
    have hek : e.key = countedName m.usernameLen m.username := Prod.ext hul (Except.ok.inj hu).symm
    dsimp only [Option.map_some]
    rw [if_pos (hmalloc _), ClientStateLemmas.sessionId_bytes, ok_bind, ok_bind]
    exact ⟨some e.publicKey, _, sid, _, .copied .respUsername m.usernameLen.toNat :: σ.touched s,
      rfl, fun key hk => ⟨e, he, Option.some.inj hk, hek⟩, rfl⟩

/-! ## 4. What posts the semaphore -/

namespace KeyFetchLemmas

variable {env : ClientEnv} {c c' : Client} {sid : UInt32} {data : Bytes}

theorem receive_keyResp (ulen : UInt8) (name : Bytes) (key : Buf 32) :
    c.receive env (Packet.mk sid (.keyResp (keyRespMsg ulen name key))).bytes = c.postKey key := by
  have hlen : Pkt.keyRespPubkeyLen (Packet.mk sid (.keyResp (keyRespMsg ulen name key))).bytes =
      .ok 32 := by
    have h : readU16 ((header .keyResp sid ++ ulen :: ((Buf.zero 32).store name).bytes) ++
        (leBytes 2 (32 : UInt16).toNat ++ (key.bytes ++ []))) 45 = .ok 32 :=
      readU16_append (by simp [Buf.length_eq])
    simpa [Pkt.keyRespPubkeyLen, Packet.bytes, Msg.bytes, keyRespMsg, Msg.type] using h
  have hkey : Pkt.keyRespPublicKey (Packet.mk sid (.keyResp (keyRespMsg ulen name key))).bytes =
      .ok key := by
    have hb : (Packet.mk sid (.keyResp (keyRespMsg ulen name key))).bytes =
        (header .keyResp sid ++ ulen :: (((Buf.zero 32).store name).bytes ++
          leBytes 2 (32 : UInt16).toNat)) ++ (key.bytes ++ []) := by
      simp [Packet.bytes, Msg.bytes, keyRespMsg, Msg.type]
    rw [Pkt.keyRespPublicKey, readBuf, hb, readAt_append (by simp [Buf.length_eq]) key.length_eq,
      ok_bind]
    exact congrArg Except.ok (Buf.ext_bytes (Buf.bytes_store key.length_eq))
  have h : c.onStreamRecv env (Packet.mk sid (.keyResp (keyRespMsg ulen name key))).bytes =
      .ok (c.postKey key) := by
    rw [Client.onStreamRecv, ClientStateLemmas.dispatch_bytes, ok_bind]
    show c.sqmpProcessKeyResp _ = _
    rw [Client.sqmpProcessKeyResp, hlen, ok_bind, if_pos rfl, hkey]
    rfl
  rw [Client.receive, h]

/-- The error USER_NOT_FOUND is printed, and posts the semaphore with zeros. -/
theorem receive_userNotFound {m : MsgError} (hc : m.errorCode = ErrorCode.userNotFound.code)
    (hn : m.descLen.toNat ≤ 128) : ∃ desc, c.receive env (Packet.mk sid (.error m)).bytes =
      (c.log (.error m.errorCode desc)).postKey (Buf.zero 32) := by
  have hcode : Pkt.errorCode (Packet.mk sid (.error m)).bytes = .ok m.errorCode :=
    ClientStateLemmas.readU8_message rfl
  have hlen : Pkt.errorDescLen (Packet.mk sid (.error m)).bytes = .ok m.descLen := by
    have h : readU8 ((header .error sid ++ [m.errorCode]) ++
        (m.descLen :: (m.description.bytes ++ []))) 13 = .ok m.descLen := readU8_append (by simp)
    simpa [Pkt.errorDescLen, Packet.bytes, Msg.bytes, Msg.type] using h
  obtain ⟨desc, hdesc⟩ : ∃ desc, Pkt.errorDescription (Packet.mk sid (.error m)).bytes
      m.descLen.toNat = .ok desc := by
    refine readStr_isOk _ _ ?_
    rw [Packet.length_bytes]
    exact Nat.add_le_add_left hn 14
  have h : c.onStreamRecv env (Packet.mk sid (.error m)).bytes =
      .ok ((c.log (.error m.errorCode desc)).postKey (Buf.zero 32)) := by
    rw [Client.onStreamRecv, ClientStateLemmas.dispatch_bytes, ok_bind]
    show c.sqmpProcessError _ = _
    rw [Client.sqmpProcessError, hcode, ok_bind, hlen, ok_bind, hdesc, ok_bind, if_pos hc]
  exact ⟨desc, by rw [Client.receive, h]⟩

/-- The key fetch is left alone. -/
def SameFetch (c c' : Client) : Prop :=
  c'.session.keyFetchSem = c.session.keyFetchSem ∧
    c'.session.keyFetchResult = c.session.keyFetchResult

theorem helloAck_fetch (h : c.sqmpProcessHelloAck data = .ok c') : SameFetch c c' := by
  unfold Client.sqmpProcessHelloAck at h
  split at h
  · cases h
    exact ⟨rfl, rfl⟩
  · obtain ⟨v, _, h⟩ := bind_eq_ok.mp h
    split at h
    · cases h
      exact ⟨rfl, rfl⟩
    · obtain ⟨sid, _, h⟩ := bind_eq_ok.mp h
      cases h
      exact ⟨rfl, rfl⟩

theorem authResp_fetch (h : c.sqmpProcessAuthResp data = .ok c') : SameFetch c c' := by
  unfold Client.sqmpProcessAuthResp at h
  split at h
  · obtain ⟨status, _, h⟩ := bind_eq_ok.mp h
    split at h <;> cases h <;> exact ⟨rfl, rfl⟩
  · cases h
    exact ⟨rfl, rfl⟩

/-- Only a KEY_RESP and the error USER_NOT_FOUND post the semaphore. -/
theorem receive_fetch {p : Packet} (hp : p.msg.posts = false) :
    SameFetch c (c.receive env p.bytes) := by
  unfold Client.receive
  split
  · next c' h =>
    rw [Client.onStreamRecv, ClientStateLemmas.dispatch_bytes, ok_bind] at h
    obtain ⟨sid, msg⟩ := p
    cases msg with
    | helloAck m => exact helloAck_fetch h
    | authResp m => exact authResp_fetch h
    | chatDeliver m =>
      obtain ⟨hsession, _⟩ := ClientStateLemmas.sqmpProcessChatDeliver_ok h
      rw [SameFetch, hsession]
      exact ⟨rfl, rfl⟩
    | error m =>
      have h : c.sqmpProcessError (Packet.mk sid (.error m)).bytes = .ok c' := h
      have hcode : Pkt.errorCode (Packet.mk sid (.error m)).bytes = .ok m.errorCode :=
        ClientStateLemmas.readU8_message rfl
      rw [Client.sqmpProcessError, hcode, ok_bind] at h
      obtain ⟨n, _, h⟩ := bind_eq_ok.mp h
      obtain ⟨desc, _, h⟩ := bind_eq_ok.mp h
      have hne : m.errorCode ≠ ErrorCode.userNotFound.code := beq_eq_false_iff_ne.mp hp
      dsimp only at h
      rw [if_neg hne] at h
      cases h
      exact ⟨rfl, rfl⟩
    | keyResp m => cases hp
    | _ =>
      cases h
      exact ⟨rfl, rfl⟩
  · exact ⟨rfl, rfl⟩

end KeyFetchLemmas
open KeyFetchLemmas

/-! ## 5. The invariant -/

/-- The requests and answers of a call that are on their way. -/
def ChatSystem.outstanding (w : ChatSystem) (n : Nat) : Nat :=
  w.toServer.countP (·.call = n) + w.toClient.countP (·.call = some n)

/-- `key_fetch_result` is zero or was given for the call. -/
def Holds (key : Buf 32) (es : List KeyEvent) (call : SendCall) : Prop :=
  key = Buf.zero 32 ∨ ∃ e ∈ es, e.Gives call key

/-- The packet answers the KEY_REQ of the call. -/
def AnswersCall (es : List KeyEvent) (call : SendCall) (p : Packet) : Prop :=
  (∃ sid ulen name key, p = ⟨sid, .keyResp (keyRespMsg ulen name key)⟩ ∧
    ∃ e ∈ es, e.Gives call key) ∨
  ∃ sid desc, p = ⟨sid, .error (errorMsg .userNotFound desc)⟩

/-- Where a call of `send_chat` is. -/
structure CallInv (w : ChatSystem) (call : SendCall) : Prop where
  number : call.number + 1 = w.calls
  request : ∀ x ∈ w.toServer, x.call = call.number →
    ∃ sid, x.packet = ⟨sid, .keyReq ⟨UInt8.ofNat call.recipient.length,
      (Buf.zero 32).store call.recipient⟩⟩
  reply : ∀ y ∈ w.toClient, y.call = some call.number → AnswersCall w.events call y.packet
  /-- the semaphore is posted once the answer is here, and then none is left -/
  progress : (w.pc = .waiting call ∧ w.client.session.keyFetchSem = 0 ∧
      w.outstanding call.number ≤ 1) ∨
    (w.outstanding call.number = 0 ∧ Holds w.client.session.keyFetchResult w.events call)
  nonzero : w.pc = .checked call → w.client.session.keyFetchResult ≠ Buf.zero 32

structure KeyInv (w : ChatSystem) : Prop where
  requests : ∀ x ∈ w.toServer, x.call < w.calls
  replies : ∀ y ∈ w.toClient, ∀ n ∈ y.call, n < w.calls
  current : ∀ call ∈ w.pc.call, CallInv w call
  right : KeysRight w.events

namespace KeyFetchLemmas

variable {w : ChatSystem} {call : SendCall} {es : List KeyEvent} {key : Buf 32}

theorem holds_mono {es' : List KeyEvent} (hes : ∀ e ∈ es, e ∈ es') (h : Holds key es call) :
    Holds key es' call :=
  h.imp_right fun ⟨e, he, hg⟩ => ⟨e, hes e he, hg⟩

theorem answersCall_mono {es' : List KeyEvent} (hes : ∀ e ∈ es, e ∈ es') {p : Packet}
    (h : AnswersCall es call p) : AnswersCall es' call p := by
  rcases h with ⟨sid, ulen, name, key, hp, e, he, hg⟩ | h
  · exact .inl ⟨sid, ulen, name, key, hp, e, hes e he, hg⟩
  · exact .inr h

theorem descLen_errorMsg (code : ErrorCode) (desc : String) :
    (errorMsg code desc).descLen.toNat ≤ 128 := by
  have h : (desc.toUTF8.toList.take 128).length ≤ 128 := List.length_take_le _ _
  show (UInt8.ofNat _).toNat ≤ 128
  rw [UInt8.toNat_ofNat']
  exact Nat.le_trans (Nat.mod_le _ _) h

/-- What the answer to a call leaves for it. -/
theorem receive_answer {env : ClientEnv} {c : Client} {p : Packet} (h : AnswersCall es call p) :
    Holds (c.receive env p.bytes).session.keyFetchResult es call := by
  rcases h with ⟨sid, ulen, name, key, rfl, hg⟩ | ⟨sid, desc, rfl⟩
  · rw [receive_keyResp]
    exact .inr hg
  · obtain ⟨_, h⟩ : ∃ shown, c.receive env (Packet.mk sid (.error (errorMsg .userNotFound desc))).bytes =
        (c.log (.error ErrorCode.userNotFound.code shown)).postKey (Buf.zero 32) :=
      receive_userNotFound rfl (descLen_errorMsg _ _)
    rw [h]
    exact .inl rfl

theorem posts_of_answersCall {p : Packet} (h : AnswersCall es call p) : p.msg.posts = true := by
  rcases h with ⟨_, _, _, _, rfl, _⟩ | ⟨_, _, rfl⟩ <;> rfl

/-- A request of the call is its KEY_REQ, and a KEY_RESP to it carries the recipient's name. -/
theorem gives_keyRespMsg (call : SendCall) (key : Buf 32) :
    (KeyEvent.answered call.number (keyRespMsg (UInt8.ofNat call.recipient.length)
      (((Buf.zero 32).store call.recipient).first (UInt8.ofNat call.recipient.length).toNat)
      key)).Gives call key := by
  have hlen : (UInt8.ofNat call.recipient.length).toNat = call.recipient.length := by
    rw [UInt8.toNat_ofNat']
    exact Nat.mod_eq_of_lt (Nat.lt_of_le_of_lt call.short (by decide))
  refine ⟨rfl, ?_, rfl⟩
  simp only [keyRespMsg, countedName, hlen,
    Buf.first_store (Nat.le_refl _) call.short, List.take_length, SendCall.name]

end KeyFetchLemmas
open KeyFetchLemmas

namespace CallInv

variable {env : ClientEnv} {w w' : ChatSystem} {call : SendCall}

/-- Past the wait, no answer to the call is left and its key is there. -/
theorem ready (h : CallInv w call) (hpc : w.pc ≠ .waiting call ∨
    w.client.session.keyFetchSem ≠ 0) : w.outstanding call.number = 0 ∧
      Holds w.client.session.keyFetchResult w.events call := by
  rcases h.progress with ⟨hw, hs, _⟩ | h
  · exact absurd hw (hpc.resolve_right (absurd hs))
  · exact h

/-- The main thread moves on behind the wait. -/
theorem next (h : CallInv w call) {pc : SendPc} {sem : Nat}
    (hpc : w.pc ≠ .waiting call ∨ w.client.session.keyFetchSem ≠ 0)
    (hnz : pc = .checked call → w.client.session.keyFetchResult ≠ Buf.zero 32) :
    CallInv { w with client := w.client.modify fun x => { x with keyFetchSem := sem }, pc } call :=
  ⟨h.number, h.request, h.reply, .inr (h.ready hpc), hnz⟩

/-- The server takes a request and answers it at most once. -/
theorem served (h : CallInv w call) {x : Request} {xs : List Request} (hs : w.toServer = x :: xs)
    (hs' : w'.toServer = xs) (hpc : w'.pc = w.pc) (hclient : w'.client = w.client)
    (hcalls : w'.calls = w.calls) (hes : ∀ e ∈ w.events, e ∈ w'.events)
    (hr : w'.toClient = w.toClient ∨ ∃ p, w'.toClient = w.toClient ++ [⟨some x.call, p⟩] ∧
      (x.call = call.number → AnswersCall w'.events call p)) : CallInv w' call := by
  have hout : w'.outstanding call.number ≤ w.outstanding call.number := by
    simp only [ChatSystem.outstanding, hs, hs', List.countP_cons]
    rcases hr with hr | ⟨p, hr, _⟩
    · rw [hr]
      omega
    · rw [hr, List.countP_append, List.countP_singleton]
      simp only [Option.some.injEq]
      omega
  constructor
  case number => rw [hcalls]; exact h.number
  case request =>
    intro x' hx'
    exact h.request x' (by rw [hs]; exact List.mem_cons_of_mem _ (hs' ▸ hx'))
  case reply =>
    intro y hy heq
    rcases hr with hr | ⟨p, hr, hp⟩ <;> rw [hr] at hy
    · exact answersCall_mono hes (h.reply y hy heq)
    · rcases List.mem_append.mp hy with hy | hy
      · exact answersCall_mono hes (h.reply y hy heq)
      · obtain rfl := List.mem_singleton.mp hy
        exact hp (Option.some.inj heq)
  case progress =>
    rw [hpc, hclient]
    refine h.progress.imp (fun ⟨hw, hsem, hle⟩ => ⟨hw, hsem, Nat.le_trans hout hle⟩)
      fun ⟨hle, hk⟩ => ⟨Nat.le_zero.mp (hle ▸ hout), holds_mono hes hk⟩
  case nonzero =>
    rw [hpc, hclient]
    exact h.nonzero

/-- The client receives a packet; only the answer to the call posts the semaphore. -/
theorem received (h : CallInv w call) {y : Reply} {ys : List Reply} (hy : w.toClient = y :: ys)
    (hown : y.packet.msg.posts = true → y.call = some call.number) :
    CallInv { w with toClient := ys, client := w.client.receive env y.packet.bytes } call := by
  have hout : w.outstanding call.number = (if y.call = some call.number then 1 else 0) +
      ({ w with toClient := ys, client := w.client.receive env y.packet.bytes } :
        ChatSystem).outstanding call.number := by
    simp only [ChatSystem.outstanding, hy, List.countP_cons, decide_eq_true_eq]
    omega
  have hreply : ∀ y' ∈ ys, y'.call = some call.number → AnswersCall w.events call y'.packet :=
    fun y' hy' => h.reply y' (by rw [hy]; exact List.mem_cons_of_mem _ hy')
  cases hposts : y.packet.msg.posts with
  | false =>
    obtain ⟨hsem, hres⟩ : SameFetch w.client (w.client.receive env y.packet.bytes) :=
      receive_fetch hposts
    have hne : y.call ≠ some call.number := by
      intro heq
      rw [posts_of_answersCall (h.reply y (by rw [hy]; exact List.mem_cons_self) heq)] at hposts
      cases hposts
    rw [if_neg hne, Nat.zero_add] at hout
    refine ⟨h.number, h.request, hreply, ?_, ?_⟩
    · rw [← hout]
      show _ ∧ (w.client.receive env y.packet.bytes).session.keyFetchSem = 0 ∧ _ ∨ _ ∧
        Holds (w.client.receive env y.packet.bytes).session.keyFetchResult w.events call
      rw [hsem, hres]
      exact h.progress
    · show w.pc = _ → (w.client.receive env y.packet.bytes).session.keyFetchResult ≠ _
      rw [hres]
      exact h.nonzero
  | true =>
    have heq := hown hposts
    rw [if_pos heq] at hout
    have hans := h.reply y (by rw [hy]; exact List.mem_cons_self) heq
    rcases h.progress with ⟨hw, _, hle⟩ | ⟨hz, _⟩
    · refine ⟨h.number, h.request, hreply, .inr ⟨?_, receive_answer hans⟩, fun hc => ?_⟩
      · omega
      · exact absurd (hw.symm.trans hc) nofun
    · omega

end CallInv

namespace KeyInv

variable {env : ClientEnv} {w w' : ChatSystem}

theorem init : KeyInv .init where
  requests _ h := nomatch h
  replies _ h := nomatch h
  current _ h := nomatch h
  right := trivial

/-- Between two calls nothing is asked of the semaphore. -/
theorem idle (hi : KeyInv w) (hpc : w'.pc = .idle) (hcalls : w'.calls = w.calls)
    (hserver : ∀ x ∈ w'.toServer, x ∈ w.toServer ∨ x.call < w.calls)
    (hclient : w'.toClient = w.toClient) (hright : KeysRight w'.events) : KeyInv w' where
  requests x hx := by
    rw [hcalls]
    exact (hserver x hx).elim (hi.requests x) id
  replies := by
    rw [hclient, hcalls]
    exact hi.replies
  current call h := by
    rw [hpc] at h
    cases h
  right := hright

/-- A call begins. -/
theorem begin (hi : KeyInv w) {call : SendCall} (hn : call.number = w.calls)
    (hsem : w.client.session.keyFetchSem = 0) : KeyInv (w.beginCall env call) := by
  have hserver : ∀ x ∈ (w.beginCall env call).toServer, x ∈ w.toServer ∨
      x = ⟨call.number, w.client.keyReqPacket call.recipient⟩ := by
    intro x hx
    simp only [ChatSystem.beginCall, ChatSystem.send] at hx
    split at hx
    · exact (List.mem_append.mp hx).imp_right List.mem_singleton.mp
    · exact .inl hx
  have hold : ∀ x ∈ w.toServer, x.call ≠ call.number := fun x hx heq =>
    Nat.lt_irrefl _ (hn ▸ heq ▸ hi.requests x hx)
  have hreply : ∀ y ∈ w.toClient, y.call ≠ some call.number := fun y hy heq =>
    Nat.lt_irrefl _ (hn ▸ hi.replies y hy call.number heq)
  constructor
  case requests =>
    intro x hx
    show x.call < w.calls + 1
    rcases hserver x hx with hx | rfl
    · exact Nat.lt_succ_of_lt (hi.requests x hx)
    · exact hn ▸ Nat.lt_succ_self _
  case replies => exact fun y hy n hyn => Nat.lt_succ_of_lt (hi.replies y hy n hyn)
  case right => exact hi.right
  case current =>
    intro call' h
    obtain rfl := Option.some.inj h
    constructor
    case number => exact congrArg (· + 1) hn
    case request =>
      intro x hx heq
      rcases hserver x hx with hx | rfl
      · exact absurd heq (hold x hx)
      · exact ⟨_, rfl⟩
    case reply => exact fun y hy heq => absurd heq (hreply y hy)
    case progress =>
      refine .inl ⟨rfl, hsem, ?_⟩
      have hc : w.toClient.countP (·.call = some call.number) = 0 :=
        List.countP_eq_zero.mpr fun y hy => by simpa using hreply y hy
      have hs : w.toServer.countP (·.call = call.number) = 0 :=
        List.countP_eq_zero.mpr fun x hx => by simpa using hold x hx
      simp only [ChatSystem.outstanding, ChatSystem.beginCall, ChatSystem.send]
      split
      · rw [List.countP_append, hs, hc, Nat.zero_add]
        exact List.countP_le_length
      · rw [hs, hc]
        decide
    case nonzero => nofun

/-- The server's answer to a KEY_REQ names its recipient. -/
theorem answer (hi : KeyInv w) {x : Request} {xs : List Request} (hs : w.toServer = x :: xs)
    (found : Option (Buf 32)) : KeyInv ({ w with toServer := xs }.serve x found) := by
  have hx : x.call < w.calls := hi.requests x (by rw [hs]; exact List.mem_cons_self)
  have hxs : ∀ x' ∈ xs, x'.call < w.calls := fun x' hx' =>
    hi.requests x' (by rw [hs]; exact List.mem_cons_of_mem _ hx')
  have hreplies : ∀ p, ∀ y ∈ w.toClient ++ [⟨some x.call, p⟩], ∀ n ∈ y.call, n < w.calls := by
    intro p y hy n hn
    rcases List.mem_append.mp hy with hy | hy
    · exact hi.replies y hy n hn
    · obtain rfl := List.mem_singleton.mp hy
      obtain rfl := Option.some.inj hn
      exact hx
  have herror : ∀ desc, KeyInv (({ w with toServer := xs } : ChatSystem).reply (some x.call)
      ⟨x.packet.sessionId, .error (errorMsg .userNotFound desc)⟩) := fun desc =>
    ⟨hxs, hreplies _, fun call hc => (hi.current call hc).served hs rfl rfl rfl rfl
      (fun _ he => he) (.inr ⟨_, rfl, fun _ => .inr ⟨_, desc, rfl⟩⟩), hi.right⟩
  have hnone : KeyInv { w with toServer := xs } :=
    ⟨hxs, hi.replies, fun call hc => (hi.current call hc).served hs rfl rfl rfl rfl
      (fun _ he => he) (.inl rfl), hi.right⟩
  unfold ChatSystem.serve answerTo
  cases hm : x.packet.msg with
  | keyReq m =>
    cases found with
    | none => exact herror _
    | some key =>
      refine ⟨hxs, hreplies _, fun call hc => ?_, hi.right⟩
      refine (hi.current call hc).served hs rfl rfl rfl rfl
        (fun _ he => List.mem_cons_of_mem _ he) (.inr ⟨_, rfl, fun heq => ?_⟩)
      -- the request is the call's KEY_REQ
      obtain ⟨sid, hp⟩ := (hi.current call hc).request x (by rw [hs]; exact List.mem_cons_self) heq
      rw [hp] at hm
      obtain rfl := Msg.keyReq.inj hm
      refine .inl ⟨_, _, _, key, rfl, _, List.mem_cons_self, ?_⟩
      rw [heq]
      exact gives_keyRespMsg call key
  | chatSend m =>
    cases found with
    | none => exact herror _
    | some key => exact hnone
  | _ => exact hnone

theorem push (hi : KeyInv w) (p : Packet) : KeyInv (w.reply none p) where
  requests := hi.requests
  replies y hy n hn := by
    rcases List.mem_append.mp hy with hy | hy
    · exact hi.replies y hy n hn
    · obtain rfl := List.mem_singleton.mp hy
      cases hn
  current call hc := by
    have h := hi.current call hc
    refine ⟨h.number, h.request, fun y hy heq => ?_, ?_, h.nonzero⟩
    · rcases List.mem_append.mp hy with hy | hy
      · exact h.reply y hy heq
      · obtain rfl := List.mem_singleton.mp hy
        cases heq
    · have hout : (w.reply none p).outstanding call.number = w.outstanding call.number := by
        simp [ChatSystem.outstanding, ChatSystem.reply, List.countP_append]
      rw [hout]
      exact h.progress
  right := hi.right

/-- A message is encrypted with the key of its own call. -/
theorem encrypt (hi : KeyInv w) {call : SendCall} (hpc : w.pc = .checked call) :
    KeyInv (w.encrypt env call) := by
  have hc : CallInv w call := hi.current call (by rw [hpc]; rfl)
  have hlt : call.number < w.calls := hc.number ▸ Nat.lt_succ_self _
  have hright : KeysRight (.encrypted call w.client.session.keyFetchResult :: w.events) := by
    obtain ⟨_, hk⟩ := hc.ready (.inl (by rw [hpc]; nofun))
    exact ⟨hk.resolve_left (hc.nonzero hpc), hi.right⟩
  unfold ChatSystem.encrypt
  dsimp only
  split
  · split
    · exact hi.idle rfl rfl (fun x hx => .inl hx) rfl hright
    · refine hi.idle rfl rfl (fun x hx => ?_) rfl hright
      simp only [ChatSystem.send] at hx
      split at hx
      · refine (List.mem_append.mp hx).imp_right fun hx => ?_
        obtain rfl := List.mem_singleton.mp hx
        exact hlt
      · exact .inl hx
  · exact hi.idle rfl rfl (fun x hx => .inl hx) rfl hi.right

theorem step (hi : KeyInv w) {a : ChatAction} (hP : OwnAnswer w a) (h : w.step env a = some w') :
    KeyInv w' := by
  cases a with
  | sendChat recipient msg =>
    simp only [ChatSystem.step] at h
    split at h
    · cases h
      exact hi.begin rfl hP
    · cases h
  | wake =>
    simp only [ChatSystem.step] at h
    split at h
    · next call hpc =>
      split at h
      · cases h
      · next hsem =>
        cases h
        refine ⟨hi.requests, hi.replies, fun call' hc => ?_, hi.right⟩
        obtain rfl := Option.some.inj hc
        exact (hi.current call (by rw [hpc]; rfl)).next (.inr hsem) nofun
    · cases h
  | timeout =>
    simp only [ChatSystem.step] at h
    split at h
    · split at h
      · cases h
        exact hi.idle rfl rfl (fun x hx => .inl hx) rfl hi.right
      · cases h
    · cases h
  | compare =>
    simp only [ChatSystem.step] at h
    split at h
    · next call hpc =>
      cases h
      split
      · exact hi.idle rfl rfl (fun x hx => .inl hx) rfl hi.right
      · next hnz =>
        refine ⟨hi.requests, hi.replies, fun call' hc => ?_, hi.right⟩
        obtain rfl := Option.some.inj hc
        exact (hi.current call (by rw [hpc]; rfl)).next (.inl (by rw [hpc]; nofun)) fun _ => hnz
    · cases h
  | encrypt =>
    simp only [ChatSystem.step] at h
    split at h
    · next call hpc =>
      cases h
      exact hi.encrypt hpc
    · cases h
  | answer found =>
    simp only [ChatSystem.step] at h
    split at h
    · cases h
    · next x xs hs =>
      cases h
      exact hi.answer hs found
  | push p =>
    simp only [ChatSystem.step] at h
    split at h
    · cases h
    · cases h
      exact hi.push p
  | receive =>
    simp only [ChatSystem.step] at h
    split at h
    · cases h
    · next y ys hy =>
      cases h
      refine ⟨hi.requests, fun y' hy' => ?_, fun call hc => ?_, hi.right⟩
      · exact hi.replies y' (by rw [hy]; exact List.mem_cons_of_mem _ hy')
      · exact (hi.current call hc).received hy fun hposts =>
          hP y (by rw [hy]; rfl) hposts call hc

end KeyInv

/-- While each call is posted by the answer to its own request only, every message is
encrypted with the key of its recipient. -/
theorem keysRight_run {env : ClientEnv} {acts : List ChatAction} {w : ChatSystem}
    (hP : Transition.Along (ChatSystem.step env) OwnAnswer .init acts)
    (h : Transition.run (ChatSystem.step env) .init acts = some w) : KeysRight w.events := by
  have hi : KeyInv w := Transition.run_invariant (fun _ _ _ hi hp hs => hi.step hp hs) .init hP h
  exact hi.right

/-! ## 6. Concrete runs -/

/-- Ciphers that encrypt nothing; a zero tag is appended. -/
def OpenSSL.plain : OpenSSL where
  keygen _ := some (Buf.zero 32)
  publicKey := id
  derive _ peer := some peer
  sha256 _ := Buf.zero 32
  randBytes _ := some (Buf.zero 12)
  gcmEncrypt _ _ plaintext := some (plaintext ++ List.replicate 16 0)
  gcmDecrypt _ _ ciphertext _ := some ciphertext

/-- A key of one letter. -/
def keyOf (b : UInt8) : Buf 32 := (Buf.zero 32).store [b]

/-- The recipient `[b]` is online and the answer comes in time. -/
def sendTo (b : UInt8) : List ChatAction :=
  [.sendChat [b] [104, 105], .answer (some (keyOf b)), .receive, .wake, .compare, .encrypt]

/-- A message to `b`, and one to `c` after another packet. -/
def twoMessages : List ChatAction :=
  sendTo 98 ++ [.answer (some (keyOf 98)), .push ⟨1, .bye⟩, .receive] ++ sendTo 99

def ChatSystem.encryptions (w : ChatSystem) : List (Nat × Buf 32) :=
  w.events.filterMap fun
    | .encrypted call key => some (call.number, key)
    | .answered .. => none

/-- A run of a client and its server that can be computed to its end. -/
theorem chatRun_reaches (env : ClientEnv) (acts : List ChatAction) (P : ChatSystem → Prop)
    [DecidablePred P]
    (h : (Transition.run (ChatSystem.step env) .init acts).any (fun w => decide (P w)) = true) :
    ∃ w, Transition.run (ChatSystem.step env) .init acts = some w ∧ P w :=
  Transition.run_reaches (ChatSystem.step env) .init acts P h

theorem keysRight_twoMessages :
    ∃ w, Transition.run (ChatSystem.step (.fair .plain)) .init twoMessages = some w ∧
      w.encryptions = [(1, keyOf 99), (0, keyOf 98)] ∧ KeysRight w.events := by
  obtain ⟨w, hr, he⟩ := chatRun_reaches (.fair .plain) twoMessages
    (fun w => w.encryptions = [(1, keyOf 99), (0, keyOf 98)]) (by decide +kernel)
  exact ⟨w, hr, he, keysRight_run (by decide +kernel) hr⟩

/-- `b` logs out behind its KEY_RESP, so its CHAT_SEND is answered by an ERROR. The call for
`c` fails on that post; the call for `d` takes the one of the KEY_RESP for `c`. -/
def loggedOutBetween : List ChatAction :=
  sendTo 98 ++ [.answer none, .receive,
    .sendChat [99] [104, 105], .wake, .compare, .answer (some (keyOf 99)), .receive,
    .sendChat [100] [104, 105], .wake, .compare, .encrypt]

/-- The message for `d` is encrypted with the key of `c`; no call has timed out. -/
theorem drifted_key : ∃ env acts w, .timeout ∉ acts ∧
    Transition.run (ChatSystem.step env) .init acts = some w ∧
      w.encryptions = [(2, keyOf 99), (0, keyOf 98)] ∧ ¬ KeysRight w.events := by
  obtain ⟨w, hr, he, hk⟩ := chatRun_reaches (.fair .plain) loggedOutBetween
    (fun w => w.encryptions = [(2, keyOf 99), (0, keyOf 98)] ∧ ¬ KeysRight w.events)
    (by decide +kernel)
  exact ⟨.fair .plain, loggedOutBetween, w, by decide, hr, he, hk⟩

end SquimpChat
