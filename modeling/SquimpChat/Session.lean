import SquimpChat.Registry

/-!
# Sessions

`sqmp_session_t` without its `next` link, which the auth queue holds. The same
struct serves both sides: the server uses the `auth*` fields, the client the
semaphores, its key pair and the key-fetch slot. A semaphore is its count.
-/

namespace SquimpChat
open Octets

abbrev SessionId := Nat

/-- `enum sqmp_session_state_e`. -/
inductive SessionState
  | closed | hello | auth | connEstablished | closing
deriving DecidableEq, Repr

/-- `sqmp_session_t`. -/
structure Session where
  state : SessionState
  sessionId : UInt32
  usernameLen : UInt8
  username : Buf 32
  loginReady : Nat
  authDone : Nat
  authOk : Bool
  clientPubkey : Buf 32
  clientPrivkey : Buf 32
  authStream : Option StreamId
  authQueued : Bool
  connClosed : Bool
  authUsernameLen : UInt8
  authUsername : Buf 32
  authPasswordHash : Buf 32
  authPubkey : Buf 32
  keyFetchSem : Nat
  keyFetchResult : Buf 32

namespace Session

/-- A zeroed session in state HELLO: `on_connected` on the server, `main` on the
client. -/
def fresh : Session where
  state := .hello
  sessionId := 0
  usernameLen := 0
  username := Buf.zero 32
  loginReady := 0
  authDone := 0
  authOk := false
  clientPubkey := Buf.zero 32
  clientPrivkey := Buf.zero 32
  authStream := none
  authQueued := false
  connClosed := false
  authUsernameLen := 0
  authUsername := Buf.zero 32
  authPasswordHash := Buf.zero 32
  authPubkey := Buf.zero 32
  keyFetchSem := 0
  keyFetchResult := Buf.zero 32

/-- The counted username of the session. -/
def name (x : Session) : Key := countedName x.usernameLen x.username

/-- The counted username staged by the last AUTH_REQ. -/
def authName (x : Session) : Key := countedName x.authUsernameLen x.authUsername

end Session

end SquimpChat
