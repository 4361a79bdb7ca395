import SquimpChat.Lib.Octets

/-!
# The packets on the wire

The packed structs of `sqmp.h`. A packet is a 12-byte header (`sqmp_pkt_t`)
followed by the message struct of its type, integers little-endian. `Packet` is
what the senders build; `Packet.bytes` is its layout. The receivers never decode
a whole packet: each handler reads the fields it needs at their offsets, so the
field reads of a received byte string are definitions of their own
(`Pkt.*`), each one bounds-checked.

`Packet.length_bytes` gives the size of every packet a sender builds.
-/

namespace SquimpChat
open Octets

/-- `enum sqmp_msg_types_e`. -/
inductive MsgType
  | hello | helloAck | authReq | authResp | keyReq | keyResp | error | bye
  | chatSend | chatDeliver | chatAck
deriving DecidableEq, Repr

namespace MsgType

def code : MsgType → UInt8
  | hello => 0x01
  | helloAck => 0x02
  | authReq => 0x03
  | authResp => 0x04
  | keyReq => 0x05
  | keyResp => 0x06
  | error => 0x07
  | bye => 0x08
  | chatSend => 0x10
  | chatDeliver => 0x11
  | chatAck => 0x12

def all : List MsgType :=
  [hello, helloAck, authReq, authResp, keyReq, keyResp, error, bye, chatSend, chatDeliver, chatAck]

/-- The message type a `switch (pkt->msg_type)` selects. -/
def ofCode (b : UInt8) : Option MsgType := all.find? (fun t => t.code == b)

@[simp] theorem ofCode_code (t : MsgType) : ofCode t.code = some t := by
  cases t <;> decide

end MsgType

/-- `enum sqmp_error_code_e`. -/
inductive ErrorCode
  | general | userNotFound | couldNotSend | versionMismatch | unexpectedMsg
deriving DecidableEq, Repr

def ErrorCode.code : ErrorCode → UInt8
  | .general => 0x00
  | .userNotFound => 0x01
  | .couldNotSend => 0x02
  | .versionMismatch => 0x03
  | .unexpectedMsg => 0x04

/-- `enum sqmp_auth_status_e`. -/
inductive AuthStatus
  | ok | invalid
deriving DecidableEq, Repr

def AuthStatus.code : AuthStatus → UInt8
  | .ok => 0x00
  | .invalid => 0x01

/-! ## Message structs -/

structure MsgHello where
  numVersions : UInt8
  versions : Buf 8
  selectedVersion : UInt8
  maxMessageSize : UInt32
deriving DecidableEq

structure MsgHelloAck where
  selectedVersion : UInt8
  maxMessageSize : UInt32
deriving DecidableEq

structure MsgAuthReq where
  usernameLen : UInt8
  username : Buf 32
  passwordHash : Buf 32
  pubkeyLen : UInt16
  publicKey : Bytes
deriving DecidableEq

structure MsgAuthResp where
  status : UInt8
  sessionId : UInt32
deriving DecidableEq

structure MsgKeyReq where
  usernameLen : UInt8
  username : Buf 32
deriving DecidableEq

structure MsgKeyResp where
  usernameLen : UInt8
  username : Buf 32
  pubkeyLen : UInt16
  publicKey : Bytes
deriving DecidableEq

structure MsgError where
  errorCode : UInt8
  descLen : UInt8
  description : Buf 128
deriving DecidableEq

structure MsgChatSend where
  recipientLen : UInt8
  recipient : Buf 32
  encKeyLen : UInt16
  encryptedKey : Buf 256
  nonce : Buf 12
  ciphertextLen : UInt32
  ciphertext : Bytes
deriving DecidableEq

structure MsgChatDeliver where
  senderLen : UInt8
  sender : Buf 32
  encKeyLen : UInt16
  encryptedKey : Buf 256
  nonce : Buf 12
  ciphertextLen : UInt32
  ciphertext : Bytes
deriving DecidableEq

inductive Msg
  | hello (m : MsgHello)
  | helloAck (m : MsgHelloAck)
  | authReq (m : MsgAuthReq)
  | authResp (m : MsgAuthResp)
  | keyReq (m : MsgKeyReq)
  | keyResp (m : MsgKeyResp)
  | error (m : MsgError)
  | bye
  | chatSend (m : MsgChatSend)
  | chatDeliver (m : MsgChatDeliver)
deriving DecidableEq

def Msg.type : Msg → MsgType
  | hello _ => .hello
  | helloAck _ => .helloAck
  | authReq _ => .authReq
  | authResp _ => .authResp
  | keyReq _ => .keyReq
  | keyResp _ => .keyResp
  | error _ => .error
  | bye => .bye
  | chatSend _ => .chatSend
  | chatDeliver _ => .chatDeliver

/-- The bytes of the message struct, its reserved bytes zero. -/
def Msg.bytes : Msg → Bytes
  | hello m =>
    m.numVersions :: (m.versions.bytes ++ (m.selectedVersion ::
      (leBytes 4 m.maxMessageSize.toNat ++ [0, 0])))
  | helloAck m => m.selectedVersion :: (leBytes 4 m.maxMessageSize.toNat ++ [0, 0])
  | authReq m =>
    m.usernameLen :: (m.username.bytes ++ (m.passwordHash.bytes ++
      (leBytes 2 m.pubkeyLen.toNat ++ (m.publicKey ++ []))))
  | authResp m => m.status :: (leBytes 4 m.sessionId.toNat ++ [0, 0, 0])
  | keyReq m => m.usernameLen :: (m.username.bytes ++ [])
  | keyResp m =>
    m.usernameLen :: (m.username.bytes ++ (leBytes 2 m.pubkeyLen.toNat ++ (m.publicKey ++ [])))
  | error m => m.errorCode :: m.descLen :: (m.description.bytes ++ [])
  | bye => []
  | chatSend m =>
    m.recipientLen :: (m.recipient.bytes ++ (leBytes 2 m.encKeyLen.toNat ++
      (m.encryptedKey.bytes ++ (m.nonce.bytes ++ (leBytes 4 m.ciphertextLen.toNat ++
        (m.ciphertext ++ []))))))
  | chatDeliver m =>
    m.senderLen :: (m.sender.bytes ++ (leBytes 2 m.encKeyLen.toNat ++
      (m.encryptedKey.bytes ++ (m.nonce.bytes ++ (leBytes 4 m.ciphertextLen.toNat ++
        (m.ciphertext ++ []))))))

/-- A packet as its sender builds it: version 1, no flags, reserved bytes zero. -/
structure Packet where
  sessionId : UInt32
  msg : Msg
deriving DecidableEq

/-- `sqmp_pkt_t` without its body. -/
def header (t : MsgType) (sessionId : UInt32) : Bytes :=
  1 :: t.code :: 0 :: (leBytes 4 sessionId.toNat ++ [0, 0, 0, 0, 0])

def Packet.bytes (p : Packet) : Bytes := header p.msg.type p.sessionId ++ p.msg.bytes

/-- `SQMP_PKT_FIXED_LEN`. -/
def pktFixedLen : Nat := 12

/-- `sizeof` of the message struct of a type. `CHAT_ACK` is never sent or handled. -/
def msgFixedLen : MsgType → Nat
  | .hello => 16
  | .helloAck => 7
  | .authReq => 67
  | .authResp => 8
  | .keyReq => 33
  | .keyResp => 35
  | .error => 130
  | .bye => 0
  | .chatSend => 307
  | .chatDeliver => 307
  | .chatAck => 44

/-- A packet as long as the fixed struct of its type. -/
def StructComplete (data : Bytes) : Prop :=
  ∀ b ∈ data[1]?, ∀ t ∈ MsgType.ofCode b, pktFixedLen + msgFixedLen t ≤ data.length

instance (data : Bytes) : Decidable (StructComplete data) :=
  inferInstanceAs (Decidable (∀ _ ∈ _, ∀ _ ∈ _, _ ≤ _))

/-- The part of a message behind its fixed struct. -/
def Msg.flexible : Msg → Bytes
  | authReq m => m.publicKey
  | keyResp m => m.publicKey
  | chatSend m => m.ciphertext
  | chatDeliver m => m.ciphertext
  | _ => []

@[simp] theorem length_header (t : MsgType) (sid : UInt32) : (header t sid).length = 12 := by
  simp [header]

theorem Msg.length_bytes (m : Msg) : m.bytes.length = msgFixedLen m.type + m.flexible.length := by
  cases m <;> simp [Msg.bytes, Msg.type, Msg.flexible, msgFixedLen, Buf.length_eq] <;> omega

theorem Packet.length_bytes (p : Packet) :
    p.bytes.length = pktFixedLen + msgFixedLen p.msg.type + p.msg.flexible.length := by
  simp [Packet.bytes, Msg.length_bytes, pktFixedLen]
  omega

/-! ## Field reads of a received packet

`pkt` is the byte string handed to `on_stream_recv`; the offsets are those of
the packed structs. -/

namespace Pkt

def msgType (pkt : Bytes) : Except OutOfRange UInt8 := readU8 pkt 1
def sessionId (pkt : Bytes) : Except OutOfRange UInt32 := readU32 pkt 3

def helloNumVersions (pkt : Bytes) : Except OutOfRange UInt8 := readU8 pkt 12
def helloVersion (pkt : Bytes) (i : Nat) : Except OutOfRange UInt8 := readU8 pkt (13 + i)

def helloAckSelectedVersion (pkt : Bytes) : Except OutOfRange UInt8 := readU8 pkt 12

def authReqUsernameLen (pkt : Bytes) : Except OutOfRange UInt8 := readU8 pkt 12
def authReqUsername (pkt : Bytes) (n : Nat) : Except OutOfRange Bytes := readAt pkt 13 n
def authReqPasswordHash (pkt : Bytes) : Except OutOfRange (Buf 32) := readBuf pkt 45 32
def authReqPubkeyLen (pkt : Bytes) : Except OutOfRange UInt16 := readU16 pkt 77
def authReqPublicKey (pkt : Bytes) : Except OutOfRange (Buf 32) := readBuf pkt 79 32

def authRespStatus (pkt : Bytes) : Except OutOfRange UInt8 := readU8 pkt 12

def keyReqUsernameLen (pkt : Bytes) : Except OutOfRange UInt8 := readU8 pkt 12
def keyReqUsername (pkt : Bytes) (n : Nat) : Except OutOfRange Bytes := readAt pkt 13 n

def keyRespPubkeyLen (pkt : Bytes) : Except OutOfRange UInt16 := readU16 pkt 45
def keyRespPublicKey (pkt : Bytes) : Except OutOfRange (Buf 32) := readBuf pkt 47 32

def errorCode (pkt : Bytes) : Except OutOfRange UInt8 := readU8 pkt 12
def errorDescLen (pkt : Bytes) : Except OutOfRange UInt8 := readU8 pkt 13
/-- Printed with `%.*s`. -/
def errorDescription (pkt : Bytes) (n : Nat) : Except OutOfRange Bytes := readStr pkt 14 n

def chatNameLen (pkt : Bytes) : Except OutOfRange UInt8 := readU8 pkt 12
def chatName (pkt : Bytes) (n : Nat) : Except OutOfRange Bytes := readAt pkt 13 n
/-- The sender of a CHAT_DELIVER is printed with `%.*s`. -/
def chatSenderStr (pkt : Bytes) (n : Nat) : Except OutOfRange Bytes := readStr pkt 13 n
def chatEncKeyLen (pkt : Bytes) : Except OutOfRange UInt16 := readU16 pkt 45
def chatEncryptedKey (pkt : Bytes) (n : Nat) : Except OutOfRange (Buf n) := readBuf pkt 47 n
def chatNonce (pkt : Bytes) : Except OutOfRange (Buf 12) := readBuf pkt 303 12
def chatCiphertextLen (pkt : Bytes) : Except OutOfRange UInt32 := readU32 pkt 315
def chatCiphertext (pkt : Bytes) (n : Nat) : Except OutOfRange Bytes := readAt pkt 319 n

end Pkt

end SquimpChat
