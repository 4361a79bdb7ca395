import SquimpChat.ClientState

/-!
# Reading built packets

The receivers read fields at offsets, the senders lay out structs. Here the two meet: each
field of a CHAT_SEND, a CHAT_DELIVER or an AUTH_REQ is read back as its sender has
stored it. The two chat messages have one layout.

Results:
1. `chatReads`: the fields of a chat message.
2. `readAuthReq_bytes`: the fields of an AUTH_REQ.
-/

namespace SquimpChat
open Octets

/-- The packed layout that CHAT_SEND and CHAT_DELIVER share. -/
def chatLayout (t : MsgType) (sid : UInt32) (m : MsgChatDeliver) : Bytes :=
  header t sid ++ (m.senderLen :: (m.sender.bytes ++ (leBytes 2 m.encKeyLen.toNat ++
    (m.encryptedKey.bytes ++ (m.nonce.bytes ++ (leBytes 4 m.ciphertextLen.toNat ++
      (m.ciphertext ++ [])))))))

/-- A CHAT_SEND with its recipient in the place of a CHAT_DELIVER's sender. -/
def MsgChatSend.asDeliver (m : MsgChatSend) : MsgChatDeliver :=
  ⟨m.recipientLen, m.recipient, m.encKeyLen, m.encryptedKey, m.nonce, m.ciphertextLen, m.ciphertext⟩

theorem chatSend_bytes (sid : UInt32) (m : MsgChatSend) :
    (Packet.mk sid (.chatSend m)).bytes = chatLayout .chatSend sid m.asDeliver := rfl

theorem chatDeliver_bytes (sid : UInt32) (m : MsgChatDeliver) :
    (Packet.mk sid (.chatDeliver m)).bytes = chatLayout .chatDeliver sid m := rfl

/-! ## 1. Chat messages -/

/-- The reads of a received chat message give these fields. -/
structure ChatReads (data : Bytes) (m : MsgChatDeliver) : Prop where
  nameLen : Pkt.chatNameLen data = .ok m.senderLen
  name : ∀ n ≤ 32, Pkt.chatName data n = .ok (m.sender.first n)
  encKeyLen : Pkt.chatEncKeyLen data = .ok m.encKeyLen
  encryptedKey : Pkt.chatEncryptedKey data 256 = .ok m.encryptedKey
  /-- the client reads the ephemeral key at its start -/
  ephemeralKey : Pkt.chatEncryptedKey data 32 = .ok ((Buf.zero 32).store (m.encryptedKey.first 32))
  nonce : Pkt.chatNonce data = .ok m.nonce
  ciphertextLen : Pkt.chatCiphertextLen data = .ok m.ciphertextLen
  ciphertext : ∀ n, n = m.ciphertext.length → Pkt.chatCiphertext data n = .ok m.ciphertext

namespace PacketReadLemmas

variable {pre post : Bytes} {off n : Nat}

theorem readBuf_append {b : Buf n} (ho : pre.length = off) :
    readBuf (pre ++ (b.bytes ++ post)) off n = .ok b := by
  rw [readBuf, readAt_append ho b.length_eq, ok_bind]
  exact congrArg Except.ok (Buf.ext_bytes (Buf.bytes_store b.length_eq))

/-- A read of the first bytes of a field. -/
theorem readAt_first {k : Nat} {b : Buf n} (ho : pre.length = off) (hk : k ≤ n) :
    readAt (pre ++ (b.bytes ++ post)) off k = .ok (b.first k) := by
  have hsplit : b.bytes ++ post = b.first k ++ (b.bytes.drop k ++ post) := by
    rw [← List.append_assoc, Buf.first, List.take_append_drop]
  rw [hsplit]
  exact readAt_append ho (Buf.length_first hk)

end PacketReadLemmas
open PacketReadLemmas

theorem chatReads (t : MsgType) (sid : UInt32) (m : MsgChatDeliver) :
    ChatReads (chatLayout t sid m) m where
  nameLen := readU8_append (length_header t sid)
  name k hk := by
    have h : readAt ((header t sid ++ [m.senderLen]) ++ (m.sender.bytes ++ (leBytes 2
        m.encKeyLen.toNat ++ (m.encryptedKey.bytes ++ (m.nonce.bytes ++ (leBytes 4
        m.ciphertextLen.toNat ++ (m.ciphertext ++ []))))))) 13 k = .ok (m.sender.first k) :=
      readAt_first (by simp) hk
    simpa [Pkt.chatName, chatLayout] using h
  encKeyLen := by
    have h : readU16 ((header t sid ++ m.senderLen :: m.sender.bytes) ++ (leBytes 2
        m.encKeyLen.toNat ++ (m.encryptedKey.bytes ++ (m.nonce.bytes ++ (leBytes 4
        m.ciphertextLen.toNat ++ (m.ciphertext ++ [])))))) 45 = .ok m.encKeyLen :=
      readU16_append (by simp [Buf.length_eq])
    simpa [Pkt.chatEncKeyLen, chatLayout] using h
  encryptedKey := by
    have h : readBuf ((header t sid ++ m.senderLen :: (m.sender.bytes ++ leBytes 2
        m.encKeyLen.toNat)) ++ (m.encryptedKey.bytes ++ (m.nonce.bytes ++ (leBytes 4
        m.ciphertextLen.toNat ++ (m.ciphertext ++ []))))) 47 256 = .ok m.encryptedKey :=
      readBuf_append (by simp [Buf.length_eq])
    simpa [Pkt.chatEncryptedKey, chatLayout] using h
  ephemeralKey := by
    have h : readAt ((header t sid ++ m.senderLen :: (m.sender.bytes ++ leBytes 2
        m.encKeyLen.toNat)) ++ (m.encryptedKey.bytes ++ (m.nonce.bytes ++ (leBytes 4
        m.ciphertextLen.toNat ++ (m.ciphertext ++ []))))) 47 32 =
        .ok (m.encryptedKey.first 32) := readAt_first (by simp [Buf.length_eq]) (by decide)
    have h' : readAt (chatLayout t sid m) 47 32 = .ok (m.encryptedKey.first 32) := by
      simpa [chatLayout] using h
    rw [Pkt.chatEncryptedKey, readBuf, h', ok_bind]
    rfl
  nonce := by
    have h : readBuf ((header t sid ++ m.senderLen :: (m.sender.bytes ++ (leBytes 2
        m.encKeyLen.toNat ++ m.encryptedKey.bytes))) ++ (m.nonce.bytes ++ (leBytes 4
        m.ciphertextLen.toNat ++ (m.ciphertext ++ [])))) 303 12 = .ok m.nonce :=
      readBuf_append (by simp [Buf.length_eq])
    simpa [Pkt.chatNonce, chatLayout] using h
  ciphertextLen := by
    have h : readU32 ((header t sid ++ m.senderLen :: (m.sender.bytes ++ (leBytes 2
        m.encKeyLen.toNat ++ (m.encryptedKey.bytes ++ m.nonce.bytes)))) ++ (leBytes 4
        m.ciphertextLen.toNat ++ (m.ciphertext ++ []))) 315 = .ok m.ciphertextLen :=
      readU32_append (by simp [Buf.length_eq])
    simpa [Pkt.chatCiphertextLen, chatLayout] using h
  ciphertext n hn := by
    have h : readAt ((header t sid ++ m.senderLen :: (m.sender.bytes ++ (leBytes 2
        m.encKeyLen.toNat ++ (m.encryptedKey.bytes ++ (m.nonce.bytes ++ leBytes 4
        m.ciphertextLen.toNat))))) ++ (m.ciphertext ++ [])) 319 n = .ok m.ciphertext :=
      readAt_append (by simp [Buf.length_eq]) hn.symm
    simpa [Pkt.chatCiphertext, chatLayout] using h

theorem chatSend_reads (sid : UInt32) (m : MsgChatSend) :
    ChatReads (Packet.mk sid (.chatSend m)).bytes m.asDeliver := by
  rw [chatSend_bytes]
  exact chatReads ..

theorem chatDeliver_reads (sid : UInt32) (m : MsgChatDeliver) :
    ChatReads (Packet.mk sid (.chatDeliver m)).bytes m := by
  rw [chatDeliver_bytes]
  exact chatReads ..

/-- The client prints a sender's name that has no NUL as it was stored. -/
theorem chatSenderStr_bytes (sid : UInt32) (m : MsgChatDeliver) (hn : m.senderLen.toNat ≤ 32)
    (hplain : 0 ∉ m.sender.first m.senderLen.toNat) :
    Pkt.chatSenderStr (Packet.mk sid (.chatDeliver m)).bytes m.senderLen.toNat =
      .ok (m.sender.first m.senderLen.toNat) := by
  have hlen : (m.sender.first m.senderLen.toNat).length = m.senderLen.toNat := Buf.length_first hn
  obtain ⟨post, hb⟩ : ∃ post, (Packet.mk sid (.chatDeliver m)).bytes =
      (header .chatDeliver sid ++ [m.senderLen]) ++ (m.sender.first m.senderLen.toNat ++ post) := by
    refine ⟨m.sender.bytes.drop m.senderLen.toNat ++ (leBytes 2 m.encKeyLen.toNat ++
      (m.encryptedKey.bytes ++ (m.nonce.bytes ++ (leBytes 4 m.ciphertextLen.toNat ++
        (m.ciphertext ++ []))))), ?_⟩
    rw [chatDeliver_bytes, chatLayout, Buf.first, ← List.append_assoc (List.take _ _),
      List.take_append_drop]
    simp
  have hread : readStr ((header .chatDeliver sid ++ [m.senderLen]) ++
      (m.sender.first m.senderLen.toNat ++ post)) 13 (m.sender.first m.senderLen.toNat).length =
        .ok (m.sender.first m.senderLen.toNat) := readStr_append (by simp) hplain
  rw [Pkt.chatSenderStr, hb]
  rwa [hlen] at hread

/-! ## 2. AUTH_REQ -/

/-- An AUTH_REQ with a key of 32 bytes and a name that fits is read as it was built. -/
theorem readAuthReq_bytes (sid : UInt32) (len : UInt8) (name hash key : Buf 32)
    (hlen : len.toNat ≤ 32) :
    readAuthReq (Packet.mk sid (.authReq ⟨len, name, hash, 32, key.bytes⟩)).bytes =
      .ok ⟨len, name.first len.toNat, hash, some key⟩ := by
  have hl : Pkt.authReqUsernameLen
      (Packet.mk sid (.authReq ⟨len, name, hash, 32, key.bytes⟩)).bytes = .ok len :=
    readU8_append (length_header ..)
  have hn : readAt ((header .authReq sid ++ [len]) ++ (name.bytes ++ (hash.bytes ++ (leBytes 2
      (32 : UInt16).toNat ++ (key.bytes ++ []))))) 13 len.toNat = .ok (name.first len.toNat) :=
    readAt_first (by simp) hlen
  have hh : readBuf ((header .authReq sid ++ len :: name.bytes) ++ (hash.bytes ++ (leBytes 2
      (32 : UInt16).toNat ++ (key.bytes ++ [])))) 45 32 = .ok hash :=
    readBuf_append (by simp [Buf.length_eq])
  have hp : readU16 ((header .authReq sid ++ len :: (name.bytes ++ hash.bytes)) ++ (leBytes 2
      (32 : UInt16).toNat ++ (key.bytes ++ []))) 77 = .ok 32 :=
    readU16_append (by simp [Buf.length_eq])
  have hk : readBuf ((header .authReq sid ++ len :: (name.bytes ++ (hash.bytes ++ leBytes 2
      (32 : UInt16).toNat))) ++ (key.bytes ++ [])) 79 32 = .ok key :=
    readBuf_append (by simp [Buf.length_eq])
  have hb : (Packet.mk sid (.authReq ⟨len, name, hash, 32, key.bytes⟩)).bytes =
      header .authReq sid ++ (len :: (name.bytes ++ (hash.bytes ++ (leBytes 2 (32 : UInt16).toNat ++
        (key.bytes ++ []))))) := rfl
  simp only [List.append_assoc, List.cons_append, List.nil_append] at hn hh hp hk
  rw [readAuthReq, hl, ok_bind, Pkt.authReqUsername, hb, hn, ok_bind, Pkt.authReqPasswordHash, hh,
    ok_bind, Pkt.authReqPubkeyLen, hp, ok_bind, if_pos rfl, Pkt.authReqPublicKey, hk]
  rfl

end SquimpChat
