import SquimpChat.Session
import SquimpChat.Credentials
import SquimpChat.Lib.IntrusiveQueue

/-!
# The server's state and its message handlers

`Server` is everything the callbacks and the auth worker share: the sessions, the
streams and connections MsQuic calls back for, the registry, the auth queue with
its semaphore, and the worker's program counter. The handlers of `sqmp.c` and the
server's own callbacks are functions on it.

Memory that the C code touches wrongly is reported in the trace and the model
goes on: a freed session keeps its fields and its identity (`useAfterFree`,
`doubleFree`), a name that does not fit its field is cut (`copied` records how
many bytes were written). A read outside the received packet is an error of the
handler. So a run without such events is a run of the C code, and the results
about runs say which events cannot happen in them.

Calls whose outcome the program does not control (`StreamSend`, `malloc`, `calloc`)
are answered by the environment `Env`, for each call of the run.
-/

namespace SquimpChat
open Octets

abbrev ConnId := Nat

/-- What the program does not control. `streamSend n` and `malloc n` are the
outcomes of a call made when the trace has `n` events: such a call, or the error
behind it, always leaves an event. `calloc c` is the outcome in `on_connected` of
the connection `c`. -/
structure Env where
  users : Option Bytes
  uninit : Nat → UInt8
  streamSend : Nat → Bool
  malloc : Nat → Bool
  calloc : ConnId → Bool

inductive Lifetime
  | unallocated | live | freed
deriving DecidableEq, Repr

/-- `sqmp_stream_t` and whether its storage is allocated. -/
structure Stream where
  life : Lifetime
  conn : ConnId
  userData : Option SessionId

/-- How far MsQuic and `on_disconnected` are with a connection. `disconnecting q`
is `on_disconnected` between its load of `auth_queued`, which gave `q`, and the
rest. -/
inductive ConnPhase
  | absent | connected | disconnecting (queued : Bool) | closed
deriving DecidableEq, Repr

/-- `sqmp_conn_t`: its session and the streams opened on it so far. -/
structure Conn where
  phase : ConnPhase
  userData : Option SessionId
  streams : List StreamId

/-- A CHAT_SEND handler between its registry lookup and its send. -/
structure PendingChat where
  conn : ConnId
  stream : StreamId
  session : SessionId
  pkt : Bytes
  recipient : StreamId
deriving DecidableEq

/-- The destinations of the copies whose size is a name length. -/
inductive NameField
  | authUsername | workerUsername | sessionUsername | registryUsername
  | deliverSender | respUsername
deriving DecidableEq, Repr

/-- Where the main thread is in its auth loop; `s` is `pending`. -/
inductive WorkerPc
  /-- at the loop test -/
  | test
  /-- in `sem_wait` -/
  | semWait
  /-- past `sem_wait`, before the head is unlinked -/
  | unlink
  /-- the dequeue has returned `s` -/
  | dequeued (s : SessionId)
  /-- `auth_queued` of `s` is stored 0 -/
  | cleared (s : SessionId)
  /-- `conn_closed` of `s` was 0 -/
  | checked (s : SessionId)
  /-- `verify_credentials` has accepted -/
  | verified (s : SessionId)
  /-- `auth_stream` is loaded for `sqmp_registry_add` -/
  | loaded (s : SessionId) (stream : Option StreamId)
  /-- `sqmp_registry_add` has returned 0 -/
  | added (s : SessionId)
  /-- `ok` is final -/
  | decided (s : SessionId) (ok : Bool)
  /-- `auth_stream` is loaded for the AUTH_RESP -/
  | responding (s : SessionId) (stream : StreamId) (ok : Bool)
  /-- in `sqmp_registry_send_bye_all` at slot `i` -/
  | farewell (i : Nat)
  /-- in `sqmp_registry_shutdown_connections` at slot `i` -/
  | shutdown (i : Nat)
  /-- behind both loops, before `sqmp_quic_destroy`; what follows is not modelled here -/
  | exited
deriving DecidableEq, Repr

/-- The session the worker has dequeued and not yet finished with. -/
def WorkerPc.pending : WorkerPc → Option SessionId
  | dequeued s | cleared s | checked s | verified s | loaded s _ | added s | decided s _
  | responding s _ _ => some s
  | _ => none

/-- The fields of an AUTH_REQ the handler reads: the length byte, as many name
bytes as it says, the hash, and the key when `pubkey_len` is 32. -/
structure AuthFields where
  usernameLen : UInt8
  username : Bytes
  passwordHash : Buf 32
  pubkey : Option (Buf 32)
deriving DecidableEq

/-- The counted username an AUTH_REQ carries. -/
def AuthFields.name (f : AuthFields) : Key := (f.usernameLen, f.username)

/-- What a run leaves in its trace. -/
inductive Event
  /-- an AUTH_REQ with these fields was accepted on the session -/
  | authReq (s : SessionId) (f : AuthFields)
  | copied (field : NameField) (n : Nat)
  | enqueued (s : SessionId)
  | dequeued (s : Option SessionId)
  /-- `verify_credentials` was called with this C string and hash, and returned `ok` -/
  | verified (s : SessionId) (username : Bytes) (passwordHash : Buf 32) (ok : Bool)
  /-- `sqmp_registry_add` returned 0 for the session -/
  | registered (s : SessionId) (name : Key) (stream : Option StreamId) (pubkey : Buf 32)
  /-- the session entered CONN_ESTABLISHED under this name -/
  | established (s : SessionId) (name : Key)
  /-- `sqmp_stream_send`: whether the stream was live, and whether the send succeeded -/
  | sent (stream : StreamId) (p : Packet) (live ok : Bool)
  /-- `ConnectionShutdown` through a registered stream -/
  | connShutdown (stream : StreamId) (live : Bool)
  | freed (s : SessionId)
  | doubleFree (s : SessionId)
  | useAfterFree (s : SessionId)
  | nullSession
  /-- `malloc` has failed in a handler -/
  | noMemory
  | outOfRange (e : OutOfRange)
deriving DecidableEq

structure Server where
  session : SessionId → Session
  life : SessionId → Lifetime
  stream : StreamId → Stream
  conn : ConnId → Conn
  registry : Registry
  /-- `g_auth_queue_head`, `g_auth_queue_tail` and every session's `next` -/
  queue : Intrusive.Queue SessionId
  /-- the count of `g_auth_queue_sem` -/
  queueSem : Nat
  nextSessionId : UInt32
  /-- `g_stop` -/
  stop : Bool
  pc : WorkerPc
  chats : List PendingChat
  /-- latest event first -/
  trace : List Event

namespace Server

/-- The server before the first connection. -/
def init : Server where
  session := fun _ => .fresh
  life := fun _ => .unallocated
  stream := fun _ => ⟨.unallocated, 0, none⟩
  conn := fun _ => ⟨.absent, none, []⟩
  registry := .empty
  queue := .empty
  queueSem := 0
  nextSessionId := 1
  stop := false
  pc := .test
  chats := []
  trace := []

@[simps]
def append (σ : Server) (es : List Event) : Server := { σ with trace := es ++ σ.trace }

@[simps]
def modify (σ : Server) (s : SessionId) (f : Session → Session) : Server :=
  { σ with session := Function.update σ.session s (f (σ.session s)) }

/-- What an update leaves of the entry it writes, it leaves of every entry. -/
theorem update_proj {α β γ : Type} [DecidableEq α] (p : β → γ) {f : α → β} {a : α} {x : β}
    (h : p x = p (f a)) (b : α) : p (Function.update f a x b) = p (f b) := by
  rw [Function.update_apply]
  split
  · next heq => rw [h, heq]
  · rfl

def isLive (σ : Server) (st : StreamId) : Bool := (σ.stream st).life = .live

/-- The event an access to a session leaves: none when its storage is allocated. -/
def touched (σ : Server) (s : SessionId) : List Event :=
  if σ.life s = .live then [] else [.useAfterFree s]

/-- `free(session)`. -/
@[simps]
def free (σ : Server) (s : SessionId) : Server :=
  { σ with
    life := Function.update σ.life s .freed
    trace := (if σ.life s = .live then .freed s else .doubleFree s) :: σ.trace }

end Server

/-! ## Sending -/

variable (env : Env) (σ : Server)

def sentEvent (st : StreamId) (p : Packet) : Event :=
  .sent st p (σ.isLive st) (env.streamSend σ.trace.length)

/-- `sqmp_stream_send`. -/
def sqmpStreamSend (st : StreamId) (p : Packet) : Server := σ.append [sentEvent env σ st p]

/-- The ERROR message `sqmp_send_error` builds; the description is cut to its field. -/
def errorMsg (code : ErrorCode) (desc : String) : MsgError :=
  let d := desc.toUTF8.toList.take 128
  ⟨code.code, UInt8.ofNat d.length, (Buf.zero 128).store d⟩

/-- `sqmp_send_error`. -/
def sqmpSendError (st : StreamId) (s : SessionId) (code : ErrorCode) (desc : String) : Server :=
  sqmpStreamSend env σ st ⟨(σ.session s).sessionId, .error (errorMsg code desc)⟩

/-- `sqmp_send_bye`. -/
def sqmpSendBye (st : StreamId) (s : SessionId) : Server :=
  sqmpStreamSend env σ st ⟨(σ.session s).sessionId, .bye⟩

end SquimpChat
