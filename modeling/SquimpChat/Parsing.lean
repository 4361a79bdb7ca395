import SquimpChat.Steps
import SquimpChat.Client

/-!
# Parsing of received packets

Both `on_stream_recv` check that a packet has a header and look at its type. The handlers
read their fields and the parts whose lengths the packet announces without looking at its
length again. A short packet is rejected only if its handler meets another reason for it before
it comes to the end: the wrong session state, a version or a name that it does not know, a key
length it does not take.

Results:
1. `serverParses_iff`, `clientParses_iff`, `parses_iff`: exactly the packets that are complete
   or that their handler rejects so are read inside their bytes, and rejected when too short.
2. `overread_chatSend`: the server reads behind a CHAT_SEND that announces more ciphertext
   than it has.
-/

namespace SquimpChat
open Octets

/-! ## 1. Complete packets -/

/-- The end of a part at `off` whose length the packet announces. -/
def partEnd {α : Type} (off : Nat) (len : Except OutOfRange α) (toNat : α → Nat) : Nat :=
  match len with
  | .ok n => off + toNat n
  | .error _ => off

/-- The end of the parts with announced lengths that the handler of the type uses. -/
def partsEnd (data : Bytes) : MsgType → Nat
  | .authReq => max (partEnd 13 (Pkt.authReqUsernameLen data) (·.toNat))
      (partEnd 79 (Pkt.authReqPubkeyLen data) (·.toNat))
  | .keyReq => partEnd 13 (Pkt.keyReqUsernameLen data) (·.toNat)
  | .keyResp => partEnd 47 (Pkt.keyRespPubkeyLen data) (·.toNat)
  | .error => partEnd 14 (Pkt.errorDescLen data) (·.toNat)
  | .chatSend | .chatDeliver => partEnd 319 (Pkt.chatCiphertextLen data) (·.toNat)
  | _ => 0

/-- The packet is as long as the struct of its type and its announced lengths say. -/
def CompletePacket (data : Bytes) : Prop :=
  ∀ b ∈ data[1]?, ∀ t ∈ MsgType.ofCode b,
    pktFixedLen + msgFixedLen t ≤ data.length ∧ partsEnd data t ≤ data.length

instance (data : Bytes) : Decidable (CompletePacket data) :=
  inferInstanceAs (Decidable (∀ _ ∈ _, ∀ _ ∈ _, _ ∧ _))

/-! ## 2. Rejection -/

/-- What a rejected packet leaves: an ERROR, with a BYE behind it when no version is supported. The
session that the handler looks at may be a freed one. -/
def Event.isRefusal : Event → Bool
  | useAfterFree _ => true
  | sent _ ⟨_, .error _⟩ _ _ | sent _ ⟨_, .bye⟩ _ _ => true
  | _ => false

/-- Nothing happens on the server but a refusal. -/
def Refused (σ σ' : Server) : Prop := ∃ es, σ' = σ.append es ∧ ∀ e ∈ es, e.isRefusal = true

/-- Whatever calls succeed, the server reads the packet's bytes only, and it rejects the
packet when it is too short. -/
structure ServerParses (σ : Server) (st : StreamId) (data : Bytes) : Prop where
  inside : ∀ env, ∃ σ', onStreamRecv env σ st data = .ok σ'
  rejects : ¬ CompletePacket data → ∀ env σ', onStreamRecv env σ st data = .ok σ' → Refused σ σ'

/-- The versions a HELLO announces, at most the first eight, are in the packet and none is 1. -/
def OffersOther (data : Bytes) : Prop :=
  ∃ num ∈ data[12]?, ∀ i < min num.toNat 8, ∃ v ∈ data[13 + i]?, v ≠ 1

/-- The name that a KEY_REQ or CHAT_SEND announces is in the packet unless no user has a name as
long, and the user of that name, if any, meets `P`. -/
def LooksUp (σ : Server) (data : Bytes) (P : Option RegistryEntry → Prop) : Prop :=
  ∃ n ∈ data[12]?,
    ((∃ e ∈ σ.registry.used, e.usernameLen = n) → 13 + n.toNat ≤ data.length) ∧
      P (σ.registry.used.find? fun e => e.key = (n, (data.drop 13).take n.toNat))

/-- The server's handler of the type rejects the packet by what is in it. -/
def ServerRejects (σ : Server) (s : SessionId) (data : Bytes) : MsgType → Prop
  | .hello => (σ.session s).state ≠ .hello ∨ OffersOther data
  | .authReq => (σ.session s).state ≠ .auth
  | .keyReq => (σ.session s).state ≠ .connEstablished ∨ LooksUp σ data (· = none)
  | .chatSend => (σ.session s).state ≠ .connEstablished ∨
      LooksUp σ data fun o => o.bind (·.stream) = none
  | _ => True

def ClientEvent.isRefusal : ClientEvent → Bool
  | unexpected .. | unsupportedVersion _ | chat _ (.error _) => true
  | _ => false

/-- The client takes nothing from the packet: it prints a complaint at most, and who waits for the
packet goes on without. -/
inductive Client.Refused (c : Client) : Client → Prop
  | dropped : Client.Refused c c
  | printed {e : ClientEvent} (he : e.isRefusal = true) : Client.Refused c (c.log e)
  | noLogin : Client.Refused c ((c.log (.unexpected .authResp c.session.state)).modify fun x =>
      { x with authDone := x.authDone + 1 })
  | noKey : Client.Refused c (c.postKey (Buf.zero 32))

structure ClientParses (c : Client) (data : Bytes) : Prop where
  inside : ∀ env, ∃ c', c.onStreamRecv env data = .ok c'
  rejects : ¬ CompletePacket data → ∀ env c', c.onStreamRecv env data = .ok c' → c.Refused c'

/-- A CHAT_DELIVER is read as far as its sender and a length that makes it unreadable, and these
are in the packet. The sender is printed up to a NUL. -/
def Unreadable (data : Bytes) : Prop :=
  (∃ n ∈ data[12]?, n.toNat ≤ (data.drop 13).length ∨ 0 ∈ data.drop 13) ∧
    ∃ k, Pkt.chatEncKeyLen data = .ok k ∧
      (k ≠ 32 ∨ ∃ n, Pkt.chatCiphertextLen data = .ok n ∧ n < 16)

/-- The client's handler of the type rejects the packet by what is in it. -/
def ClientRejects (c : Client) (data : Bytes) : MsgType → Prop
  | .helloAck => c.session.state ≠ .hello ∨
      ∃ v, Pkt.helloAckSelectedVersion data = .ok v ∧ v ≠ 1
  | .authResp => c.session.state ≠ .auth
  | .keyResp => ∃ n, Pkt.keyRespPubkeyLen data = .ok n ∧ n ≠ 32
  | .chatDeliver => c.session.state ≠ .connEstablished ∨ Unreadable data
  | .error => False
  | _ => True

namespace ParsingLemmas

variable {handles : MsgType → Bool} {data : Bytes} {t : MsgType}

theorem dispatch_some (h : dispatch handles data = .ok (some t)) :
    ∃ b, data[1]? = some b ∧ MsgType.ofCode b = some t ∧ handles t = true := by
  unfold dispatch at h
  split at h
  · cases h
  · obtain ⟨b, hb, h⟩ := bind_eq_ok.mp h
    obtain ⟨ht, hh⟩ := Option.filter_eq_some_iff.mp (Except.ok.inj h)
    refine ⟨b, ?_, ht, hh⟩
    unfold Pkt.msgType readU8 at hb
    split at hb
    · next hd =>
      cases hb
      exact hd
    · cases hb

theorem complete_iff_of_dispatch (h : dispatch handles data = .ok (some t)) :
    CompletePacket data ↔
      pktFixedLen + msgFixedLen t ≤ data.length ∧ partsEnd data t ≤ data.length := by
  obtain ⟨b, hb, ht, _⟩ := dispatch_some h
  simp [CompletePacket, hb, ht]

theorem partEnd_ok {α : Type} {off : Nat} {len : Except OutOfRange α} {toNat : α → Nat} {n : α}
    (h : len = .ok n) : partEnd off len toNat = off + toNat n := by
  rw [h]
  rfl

end ParsingLemmas
open ParsingLemmas

/-! ## 3. Reads of complete packets -/

namespace ParsingLemmas

variable {data : Bytes}

theorem helloScan_isOk {num : Nat} (n i : Nat) (h : 13 + i + n ≤ data.length) :
    ∃ b, helloScan data num n i = .ok b := by
  induction n generalizing i with
  | zero => exact ⟨false, rfl⟩
  | succ n ih =>
    obtain ⟨b, hb⟩ := ih (i + 1) (by omega)
    unfold helloScan
    split
    · rw [Pkt.helloVersion, readU8_of_lt (by omega), ok_bind]
      split
      · exact ⟨true, rfl⟩
      · exact ⟨b, hb⟩
    · exact ⟨false, rfl⟩

theorem readAuthReq_isOk (h : 79 ≤ data.length) (hp : partsEnd data .authReq ≤ data.length) :
    ∃ f, readAuthReq data = .ok f := by
  obtain ⟨n, hn⟩ : ∃ n, Pkt.authReqUsernameLen data = .ok n := readU8_isOk_iff.mpr (by omega)
  obtain ⟨hash, hhash⟩ : ∃ hash, Pkt.authReqPasswordHash data = .ok hash := readBuf_isOk (by omega)
  obtain ⟨k, hk⟩ : ∃ k, Pkt.authReqPubkeyLen data = .ok k := readU16_isOk (by omega)
  obtain ⟨hname, hkey⟩ := Nat.max_le.mp hp
  rw [partEnd_ok hn] at hname
  rw [partEnd_ok hk] at hkey
  simp only [readAuthReq, hn, hhash, hk, Pkt.authReqUsername, readAt_of_le hname, ok_bind]
  split
  · next h32 =>
    obtain ⟨key, hkey⟩ : ∃ key, Pkt.authReqPublicKey data = .ok key :=
      readBuf_isOk (by simpa [h32] using hkey)
    rw [hkey, ok_bind]
    exact ⟨_, rfl⟩
  · exact ⟨_, rfl⟩

variable {env : Env} {σ : Server} {st : StreamId} {s : SessionId}

theorem sqmpProcessHello_isOk (h : 28 ≤ data.length) :
    ∃ σ', sqmpProcessHello env σ st s data = .ok σ' := by
  unfold sqmpProcessHello
  dsimp only
  split
  · exact ⟨_, rfl⟩
  · rw [Pkt.helloNumVersions, readU8_of_lt (by omega), ok_bind]
    obtain ⟨b, hb⟩ : ∃ b, helloScan data data[12].toNat 8 0 = .ok b :=
      helloScan_isOk 8 0 (show 13 + 0 + 8 ≤ data.length by omega)
    rw [hb, ok_bind]
    split <;> exact ⟨_, rfl⟩

theorem sqmpProcessAuthReq_isOk (h : 79 ≤ data.length)
    (hp : partsEnd data .authReq ≤ data.length) :
    ∃ σ', sqmpProcessAuthReq env σ st s data = .ok σ' := by
  unfold sqmpProcessAuthReq
  dsimp only
  split
  · exact ⟨_, rfl⟩
  · obtain ⟨f, hf⟩ := readAuthReq_isOk h hp
    exact ⟨_, by rw [hf, ok_bind]⟩

theorem sqmpProcessKeyReq_isOk (h : 45 ≤ data.length)
    (hp : partsEnd data .keyReq ≤ data.length) :
    ∃ σ', sqmpProcessKeyReq env σ st s data = .ok σ' := by
  obtain ⟨n, hn⟩ : ∃ n, Pkt.keyReqUsernameLen data = .ok n := readU8_isOk_iff.mpr (by omega)
  obtain ⟨sid, hsid⟩ : ∃ sid, Pkt.sessionId data = .ok sid := readU32_isOk (by omega)
  rw [partsEnd, partEnd_ok hn] at hp
  obtain ⟨o, ho⟩ : ∃ o, findEntry (.ok ((data.drop 13).take n.toNat)) n σ.registry.slots = .ok o :=
    findEntry_isOk _
  have hkey : sqmpRegistryGetPubkey σ.registry (.ok ((data.drop 13).take n.toNat)) n =
      .ok (o.map (·.publicKey)) := by
    rw [sqmpRegistryGetPubkey, ho, ok_bind]
    rfl
  unfold sqmpProcessKeyReq
  dsimp only
  split
  · exact ⟨_, rfl⟩
  · rw [hn, ok_bind, Pkt.keyReqUsername, readAt_of_le hp, Server.append_registry, hkey, ok_bind]
    cases o with
    | none => exact ⟨_, rfl⟩
    | some e =>
      dsimp only [Option.map_some]
      split
      · rw [hsid, ok_bind, ok_bind]
        exact ⟨_, rfl⟩
      · exact ⟨_, rfl⟩

theorem chatSendForward_isOk {r : StreamId} (h : 319 ≤ data.length)
    (hp : partsEnd data .chatSend ≤ data.length) :
    ∃ σ', chatSendForward env σ st s data r = .ok σ' := by
  obtain ⟨sid, hsid⟩ : ∃ sid, Pkt.sessionId data = .ok sid := readU32_isOk (by omega)
  obtain ⟨k, hk⟩ : ∃ k, Pkt.chatEncKeyLen data = .ok k := readU16_isOk (by omega)
  obtain ⟨key, hkey⟩ : ∃ key, Pkt.chatEncryptedKey data 256 = .ok key := readBuf_isOk (by omega)
  obtain ⟨nonce, hnonce⟩ : ∃ nonce, Pkt.chatNonce data = .ok nonce := readBuf_isOk (by omega)
  obtain ⟨n, hn⟩ : ∃ n, Pkt.chatCiphertextLen data = .ok n := readU32_isOk (by omega)
  rw [partsEnd, partEnd_ok hn] at hp
  unfold chatSendForward chatDeliverMsg
  rw [hn, ok_bind]
  split
  · rw [hsid, ok_bind, ok_bind, hk, ok_bind, hkey, ok_bind, hnonce, ok_bind, Pkt.chatCiphertext,
      readAt_of_le hp, ok_bind, ok_bind]
    exact ⟨_, rfl⟩
  · exact ⟨_, rfl⟩

theorem sqmpProcessChatSend_isOk (h : 319 ≤ data.length)
    (hp : partsEnd data .chatSend ≤ data.length) :
    ∃ σ', sqmpProcessChatSend env σ st s data = .ok σ' := by
  obtain ⟨n, hn⟩ : ∃ n, Pkt.chatNameLen data = .ok n := readU8_isOk_iff.mpr (by omega)
  have hname : 13 + n.toNat ≤ data.length := by
    have := n.toNat_lt
    omega
  obtain ⟨o, ho⟩ : ∃ o, findEntry (.ok ((data.drop 13).take n.toNat)) n σ.registry.slots = .ok o :=
    findEntry_isOk _
  have hfind : sqmpRegistryFind σ.registry (.ok ((data.drop 13).take n.toNat)) n =
      .ok (o.bind (·.stream)) := by
    rw [sqmpRegistryFind, ho, ok_bind]
    rfl
  unfold sqmpProcessChatSend chatSendHead chatSendLookup
  dsimp only
  split
  · exact ⟨_, rfl⟩
  · rw [hn, ok_bind, Pkt.chatName, readAt_of_le hname, Server.append_registry, hfind, ok_bind]
    split
    · exact ⟨_, rfl⟩
    · exact chatSendForward_isOk h hp

variable {cenv : ClientEnv} {c : Client}

theorem sqmpProcessHelloAck_isOk (h : 19 ≤ data.length) :
    ∃ c', c.sqmpProcessHelloAck data = .ok c' := by
  obtain ⟨v, hv⟩ : ∃ v, Pkt.helloAckSelectedVersion data = .ok v := readU8_isOk_iff.mpr (by omega)
  obtain ⟨sid, hsid⟩ : ∃ sid, Pkt.sessionId data = .ok sid := readU32_isOk (by omega)
  unfold Client.sqmpProcessHelloAck
  split
  · exact ⟨_, rfl⟩
  · rw [hv, ok_bind]
    split
    · exact ⟨_, rfl⟩
    · rw [hsid, ok_bind]
      exact ⟨_, rfl⟩

theorem sqmpProcessAuthResp_isOk (h : 20 ≤ data.length) :
    ∃ c', c.sqmpProcessAuthResp data = .ok c' := by
  obtain ⟨status, hs⟩ : ∃ status, Pkt.authRespStatus data = .ok status :=
    readU8_isOk_iff.mpr (by omega)
  unfold Client.sqmpProcessAuthResp
  split
  · rw [hs, ok_bind]
    split <;> exact ⟨_, rfl⟩
  · exact ⟨_, rfl⟩

theorem sqmpProcessKeyResp_isOk (h : 47 ≤ data.length)
    (hp : partsEnd data .keyResp ≤ data.length) : ∃ c', c.sqmpProcessKeyResp data = .ok c' := by
  obtain ⟨n, hn⟩ : ∃ n, Pkt.keyRespPubkeyLen data = .ok n := readU16_isOk (by omega)
  rw [partsEnd, partEnd_ok hn] at hp
  unfold Client.sqmpProcessKeyResp
  rw [hn, ok_bind]
  split
  · next h32 =>
    obtain ⟨key, hkey⟩ : ∃ key, Pkt.keyRespPublicKey data = .ok key :=
      readBuf_isOk (by simpa [h32] using hp)
    rw [hkey, ok_bind]
    exact ⟨_, rfl⟩
  · exact ⟨_, rfl⟩

theorem sqmpProcessError_isOk (h : 142 ≤ data.length)
    (hp : partsEnd data .error ≤ data.length) : ∃ c', c.sqmpProcessError data = .ok c' := by
  obtain ⟨code, hcode⟩ : ∃ code, Pkt.errorCode data = .ok code := readU8_isOk_iff.mpr (by omega)
  obtain ⟨n, hn⟩ : ∃ n, Pkt.errorDescLen data = .ok n := readU8_isOk_iff.mpr (by omega)
  rw [partsEnd, partEnd_ok hn] at hp
  obtain ⟨desc, hdesc⟩ : ∃ desc, Pkt.errorDescription data n.toNat = .ok desc :=
    readStr_isOk _ _ hp
  unfold Client.sqmpProcessError
  rw [hcode, ok_bind, hn, ok_bind, hdesc, ok_bind]
  dsimp only
  split <;> exact ⟨_, rfl⟩

theorem readChat_isOk (h : 319 ≤ data.length) (hp : partsEnd data .chatDeliver ≤ data.length) :
    ∃ text, c.readChat cenv data = .ok text := by
  obtain ⟨k, hk⟩ : ∃ k, Pkt.chatEncKeyLen data = .ok k := readU16_isOk (by omega)
  obtain ⟨n, hn⟩ : ∃ n, Pkt.chatCiphertextLen data = .ok n := readU32_isOk (by omega)
  obtain ⟨key, hkey⟩ : ∃ key, Pkt.chatEncryptedKey data 32 = .ok key := readBuf_isOk (by omega)
  obtain ⟨nonce, hnonce⟩ : ∃ nonce, Pkt.chatNonce data = .ok nonce := readBuf_isOk (by omega)
  rw [partsEnd, partEnd_ok hn] at hp
  unfold Client.readChat
  rw [hk, ok_bind]
  split
  · exact ⟨_, rfl⟩
  · rw [hn, ok_bind]
    split
    · exact ⟨_, rfl⟩
    · split
      · rw [hkey, ok_bind, hnonce, ok_bind, Pkt.chatCiphertext, readAt_of_le hp]
        obtain ⟨o, ho⟩ : ∃ o, Client.decryptChat cenv.ssl c.session.clientPrivkey key nonce n.toNat
            (.ok ((data.drop 319).take n.toNat)) = .ok o := by
          unfold Client.decryptChat
          split
          · exact ⟨_, rfl⟩
          · split <;> exact ⟨_, rfl⟩
        rw [ho, ok_bind]
        split <;> exact ⟨_, rfl⟩
      · exact ⟨_, rfl⟩

theorem sqmpProcessChatDeliver_isOk (h : 319 ≤ data.length)
    (hp : partsEnd data .chatDeliver ≤ data.length) :
    ∃ c', c.sqmpProcessChatDeliver cenv data = .ok c' := by
  obtain ⟨n, hn⟩ : ∃ n, Pkt.chatNameLen data = .ok n := readU8_isOk_iff.mpr (by omega)
  obtain ⟨sender, hsender⟩ : ∃ sender, Pkt.chatSenderStr data n.toNat = .ok sender := by
    have := n.toNat_lt
    exact readStr_isOk _ _ (by omega)
  obtain ⟨text, htext⟩ : ∃ text, c.readChat cenv data = .ok text := readChat_isOk h hp
  unfold Client.sqmpProcessChatDeliver
  split
  · exact ⟨_, rfl⟩
  · rw [hn, ok_bind, hsender, ok_bind, htext, ok_bind]
    exact ⟨_, rfl⟩

end ParsingLemmas
open ParsingLemmas

/-! ## 4. Rejected packets -/

namespace ParsingLemmas

variable {data : Bytes} {n : UInt8}

/-- The scan finds no version 1 and reads inside the packet. -/
theorem helloScan_false {num : Nat} (n i : Nat) : helloScan data num n i = .ok false ↔
    ∀ j, i ≤ j → j < min num (i + n) → ∃ v ∈ data[13 + j]?, v ≠ 1 := by
  induction n generalizing i with
  | zero => exact ⟨fun _ j hi hj => by omega, fun _ => rfl⟩
  | succ n ih =>
    unfold helloScan
    split
    · next hlt =>
      have htail : (∀ j, i ≤ j → j < min num (i + (n + 1)) → ∃ v ∈ data[13 + j]?, v ≠ 1) ↔
          (∃ v ∈ data[13 + i]?, v ≠ 1) ∧
            ∀ j, i + 1 ≤ j → j < min num (i + 1 + n) → ∃ v ∈ data[13 + j]?, v ≠ 1 := by
        refine ⟨fun h => ⟨h i (Nat.le_refl i) (by omega), fun j hi hj => h j (by omega) (by omega)⟩,
          fun h j hi hj => ?_⟩
        rcases Nat.eq_or_lt_of_le hi with rfl | hi
        · exact h.1
        · exact h.2 j hi (by omega)
      rw [htail, bind_eq_ok]
      constructor
      · rintro ⟨v, hv, h⟩
        split at h
        -- a version 1 ends the scan
        · cases h
        · next hne => exact ⟨⟨v, readU8_eq_ok.mp hv, hne⟩, (ih (i + 1)).mp h⟩
      · rintro ⟨⟨v, hv, hne⟩, h⟩
        refine ⟨v, readU8_eq_ok.mpr hv, ?_⟩
        rw [if_neg hne]
        exact (ih (i + 1)).mpr h
    · exact ⟨fun _ j hi hj => by omega, fun _ => rfl⟩

theorem offersOther_iff : OffersOther data ↔
    ∃ num, Pkt.helloNumVersions data = .ok num ∧ helloScan data num.toNat 8 0 = .ok false := by
  simp only [helloScan_false, Nat.zero_add, Nat.zero_le, true_implies]
  exact exists_congr fun num => and_congr_left' readU8_eq_ok.symm

/-- The lookups read the name as soon as an entry in use has its length. -/
theorem findEntry_read {es : List RegistryEntry} {o : Option RegistryEntry} :
    findEntry (readAt data 13 n.toNat) n es = .ok o ↔
      ((∃ e ∈ es.filter (·.inUse), e.usernameLen = n) → 13 + n.toNat ≤ data.length) ∧
        (es.filter (·.inUse)).find? (fun e => e.key = (n, (data.drop 13).take n.toNat)) = o := by
  induction es with
  | nil => simp [findEntry]
  | cons e es ih =>
    rw [findEntry]
    by_cases hu : e.inUse = true
    · rw [List.filter_cons_of_pos hu]
      by_cases hn : e.usernameLen = n
      · rw [if_pos (by simp [hu, hn])]
        by_cases hle : 13 + n.toNat ≤ data.length
        · rw [readAt_of_le hle, ok_bind]
          rw [readAt_of_le hle] at ih
          by_cases hk : e.username.first n.toNat = (data.drop 13).take n.toNat
          · have hkey : e.key = (n, (data.drop 13).take n.toNat) := by
              rw [RegistryEntry.key, countedName, hn, hk]
            rw [if_pos hk, List.find?_cons_of_pos (by simpa using hkey)]
            simp [hle, pure, Except.pure]
          · have hkey : e.key ≠ (n, (data.drop 13).take n.toNat) := by
              rw [RegistryEntry.key, countedName, hn]
              exact fun h => hk (Prod.mk.inj h).2
            rw [if_neg hk, List.find?_cons_of_neg (by simpa using hkey), ih]
            simp [hle]
        · rw [readAt, if_neg hle, error_bind]
          simp [hn, hle]
      -- `memcmp` is not reached for an entry of another length
      · have hkey : e.key ≠ (n, (data.drop 13).take n.toNat) := fun h => hn (Prod.mk.inj h).1
        rw [if_neg (by simp [hn]), List.find?_cons_of_neg (by simpa using hkey), ih]
        simp [hn]
    · rw [List.filter_cons_of_neg hu, if_neg (by simp [hu]), ih]

variable {env : Env} {σ σ' : Server} {st : StreamId} {s : SessionId}

theorem looksUp_key : LooksUp σ data (· = none) ↔ ∃ n, Pkt.keyReqUsernameLen data = .ok n ∧
    sqmpRegistryGetPubkey σ.registry (Pkt.keyReqUsername data n.toNat) n = .ok none := by
  refine exists_congr fun n => and_congr readU8_eq_ok.symm ?_
  rw [Registry.used, ← findEntry_read, sqmpRegistryGetPubkey, bind_eq_ok, Pkt.keyReqUsername]
  constructor
  · intro h
    exact ⟨none, h, rfl⟩
  · rintro ⟨o, h, hnone⟩
    cases o with
    | none => exact h
    | some e => cases hnone

theorem looksUp_stream : LooksUp σ data (fun o => o.bind (·.stream) = none) ↔
    chatSendLookup σ data = .ok none := by
  rw [chatSendLookup, bind_eq_ok]
  refine exists_congr fun n => and_congr readU8_eq_ok.symm ?_
  rw [sqmpRegistryFind, bind_eq_ok, Pkt.chatName]
  constructor
  · rintro ⟨hin, hnone⟩
    exact ⟨_, findEntry_read.mpr ⟨hin, rfl⟩, congrArg Except.ok hnone⟩
  · rintro ⟨o, h, hnone⟩
    obtain ⟨hin, rfl⟩ := findEntry_read.mp h
    exact ⟨hin, Except.ok.inj hnone⟩

theorem touched_isRefusal : ∀ e ∈ σ.touched s, e.isRefusal = true := by
  intro e he
  obtain ⟨_, rfl⟩ := StepLemmas.mem_touched.mp he
  rfl

theorem refused_error (env : Env) (st : StreamId) (s : SessionId) (code : ErrorCode)
    (desc : String) : Refused σ (sqmpSendError env (σ.append (σ.touched s)) st s code desc) :=
  ⟨[_] ++ σ.touched s, rfl, List.forall_mem_append.mpr
    ⟨List.forall_mem_singleton.mpr rfl, touched_isRefusal⟩⟩

/-- The latest event tells that something other than a refusal has happened. -/
theorem not_refused {e : Event} (h : ∃ es, σ'.trace = e :: (es ++ σ.trace))
    (he : e.isRefusal = false) : ¬ Refused σ σ' := by
  rintro ⟨es', rfl, hall⟩
  obtain ⟨es, h⟩ := h
  have h : es' ++ σ.trace = (e :: es) ++ σ.trace := h
  have hes : es' = e :: es := List.append_cancel_right h
  rw [hall e (hes ▸ List.mem_cons_self)] at he
  cases he

/-- A packet that no handler takes is dropped, the others are answered by an ERROR. -/
theorem onStreamRecv_refuses (env : Env) (hs : (σ.stream st).userData = some s) {o : Option MsgType}
    (hd : dispatch serverHandles data = .ok o)
    (ho : ∀ t ∈ o, ServerRejects σ s data t ∧ t ≠ .bye) :
    ∃ σ', onStreamRecv env σ st data = .ok σ' ∧ Refused σ σ' := by
  have hnone : Refused σ σ := ⟨[], rfl, List.forall_mem_nil _⟩
  rw [onStreamRecv, hd, ok_bind]
  cases o with
  | none => exact ⟨σ, rfl, hnone⟩
  | some t =>
    obtain ⟨hrej, hbye⟩ := ho t rfl
    cases t with
    | hello =>
      simp only [withSession, hs, sqmpProcessHello]
      split
      · exact ⟨_, rfl, refused_error ..⟩
      · next hst =>
        obtain ⟨num, hn, hscan⟩ := offersOther_iff.mp (hrej.resolve_left hst)
        rw [hn, ok_bind, hscan, ok_bind]
        refine ⟨_, rfl, [_, _] ++ σ.touched s, rfl, List.forall_mem_append.mpr
          ⟨List.forall_mem_cons.mpr ⟨rfl, List.forall_mem_singleton.mpr rfl⟩, touched_isRefusal⟩⟩
    | authReq =>
      simp only [withSession, hs, sqmpProcessAuthReq]
      exact ⟨_, if_pos hrej, refused_error ..⟩
    | keyReq =>
      simp only [withSession, hs, sqmpProcessKeyReq]
      split
      · exact ⟨_, rfl, refused_error ..⟩
      · next hst =>
        obtain ⟨n, hn, hkey⟩ := looksUp_key.mp (hrej.resolve_left hst)
        rw [hn, ok_bind, Server.append_registry, hkey, ok_bind]
        exact ⟨_, rfl, refused_error ..⟩
    | chatSend =>
      simp only [withSession, hs, sqmpProcessChatSend, chatSendHead]
      split
      · exact ⟨_, rfl, refused_error ..⟩
      · next hst =>
        have hfind : chatSendLookup (σ.append (σ.touched s)) data = .ok none :=
          looksUp_stream.mp (hrej.resolve_left hst)
        rw [hfind, ok_bind]
        exact ⟨_, rfl, refused_error ..⟩
    | bye => exact absurd rfl hbye
    | _ => exact ⟨σ, rfl, hnone⟩

theorem onStreamRecv_isOk (hs : (σ.stream st).userData = some s) {t : MsgType}
    (hd : dispatch serverHandles data = .ok (some t)) (hc : CompletePacket data) :
    ∃ σ', onStreamRecv env σ st data = .ok σ' := by
  obtain ⟨hlen, hp⟩ := (complete_iff_of_dispatch hd).mp hc
  rw [onStreamRecv, hd, ok_bind]
  cases t with
  | hello =>
    simp only [withSession, hs]
    exact sqmpProcessHello_isOk hlen
  | authReq =>
    simp only [withSession, hs]
    exact sqmpProcessAuthReq_isOk hlen hp
  | keyReq =>
    simp only [withSession, hs]
    exact sqmpProcessKeyReq_isOk hlen hp
  | chatSend =>
    simp only [withSession, hs]
    exact sqmpProcessChatSend_isOk hlen hp
  | bye =>
    simp only [withSession, hs]
    exact ⟨_, rfl⟩
  | _ => exact ⟨_, rfl⟩

/-- What is left as a refusal was rejected by the handler. -/
theorem rejects_of_refused {users : Option Bytes} (hs : (σ.stream st).userData = some s)
    {t : MsgType} (hd : dispatch serverHandles data = .ok (some t))
    (h : onStreamRecv (.fair users) σ st data = .ok σ') (hr : Refused σ σ') :
    ServerRejects σ s data t := by
  rw [onStreamRecv, hd, ok_bind] at h
  cases t with
  | hello =>
    refine or_iff_not_imp_left.mpr fun hst => offersOther_iff.mpr ?_
    simp only [withSession, hs, sqmpProcessHello, Server.append_session, if_neg hst] at h
    obtain ⟨num, hn, h⟩ := bind_eq_ok.mp h
    obtain ⟨found, hscan, h⟩ := bind_eq_ok.mp h
    cases found with
    | true =>
      cases h
      exact absurd hr (not_refused (e := .sent ..) ⟨σ.touched s, rfl⟩ rfl)
    | false => exact ⟨num, hn, hscan⟩
  | authReq =>
    by_contra hst
    simp only [withSession, hs, sqmpProcessAuthReq, Server.append_session, ServerRejects] at h hst
    rw [if_neg hst] at h
    obtain ⟨f, _, h⟩ := bind_eq_ok.mp h
    cases h
    obtain ⟨es, _, he⟩ := StepLemmas.acceptAuthReq_eq σ st s f
    rw [he] at hr
    exact not_refused (e := .enqueued s) ⟨_, rfl⟩ rfl hr
  | keyReq =>
    refine or_iff_not_imp_left.mpr fun hst => looksUp_key.mpr ?_
    simp only [withSession, hs, sqmpProcessKeyReq, Server.append_session, if_neg hst] at h
    obtain ⟨n, hn, h⟩ := bind_eq_ok.mp h
    obtain ⟨o, ho, h⟩ := bind_eq_ok.mp h
    cases o with
    | none => exact ⟨n, hn, ho⟩
    | some key =>
      obtain ⟨sid, _, h⟩ := bind_eq_ok.mp h
      obtain ⟨name, _, h⟩ := bind_eq_ok.mp h
      cases h
      exact absurd hr (not_refused (e := .sent ..) ⟨_ :: σ.touched s, rfl⟩ rfl)
  | chatSend =>
    refine or_iff_not_imp_left.mpr fun hst => looksUp_stream.mpr ?_
    simp only [withSession, hs, sqmpProcessChatSend, chatSendHead, Server.append_session,
      if_neg hst] at h
    obtain ⟨o, ho, h⟩ := bind_eq_ok.mp h
    cases o with
    | none => exact ho
    | some r =>
      obtain ⟨_, _, h⟩ := bind_eq_ok.mp h
      obtain ⟨sid, _, h⟩ := bind_eq_ok.mp h
      obtain ⟨m, _, h⟩ := bind_eq_ok.mp h
      cases h
      exact absurd hr (not_refused (e := .sent ..) ⟨_ :: σ.touched s, rfl⟩ rfl)
  | _ => trivial

variable {cenv : ClientEnv} {c c' : Client}

theorem receive_refuses (cenv : ClientEnv) {o : Option MsgType}
    (hd : dispatch Client.handles data = .ok o)
    (ho : ∀ t ∈ o, ClientRejects c data t ∧ t ≠ .bye) :
    ∃ c', c.onStreamRecv cenv data = .ok c' ∧ c.Refused c' := by
  rw [Client.onStreamRecv, hd, ok_bind]
  cases o with
  | none => exact ⟨c, rfl, .dropped⟩
  | some t =>
    obtain ⟨hrej, hbye⟩ := ho t rfl
    cases t with
    | helloAck =>
      show ∃ c', c.sqmpProcessHelloAck data = .ok c' ∧ c.Refused c'
      unfold Client.sqmpProcessHelloAck
      split
      · exact ⟨_, rfl, .printed rfl⟩
      · next hst =>
        obtain ⟨v, hv, hne⟩ := hrej.resolve_left hst
        rw [hv, ok_bind, if_pos hne]
        exact ⟨_, rfl, .printed rfl⟩
    | authResp => exact ⟨_, if_neg hrej, .noLogin⟩
    | keyResp =>
      obtain ⟨n, hn, hne⟩ := hrej
      show ∃ c', c.sqmpProcessKeyResp data = .ok c' ∧ c.Refused c'
      rw [Client.sqmpProcessKeyResp, hn, ok_bind, if_neg hne]
      exact ⟨_, rfl, .noKey⟩
    | chatDeliver =>
      show ∃ c', c.sqmpProcessChatDeliver cenv data = .ok c' ∧ c.Refused c'
      unfold Client.sqmpProcessChatDeliver
      split
      · exact ⟨_, rfl, .printed rfl⟩
      · next hst =>
        obtain ⟨⟨n, hn, hstr⟩, k, hk, hunread⟩ := hrej.resolve_left hst
        obtain ⟨sender, hsender⟩ := (readStr_isOk_iff _ _).mpr hstr
        have htext : c.readChat cenv data = .ok (.error .cannotDecrypt) := by
          rw [Client.readChat, hk, ok_bind]
          by_cases h32 : k = 32
          · obtain ⟨m, hm, hlt⟩ := hunread.resolve_left (not_not.mpr h32)
            rw [if_neg (not_not.mpr h32), hm, ok_bind, if_pos hlt]
          · rw [if_pos h32]
        rw [Pkt.chatNameLen, readU8_eq_ok.mpr hn, ok_bind, Pkt.chatSenderStr, hsender, ok_bind,
          htext, ok_bind]
        exact ⟨_, rfl, .printed rfl⟩
    | error => exact hrej.elim
    | bye => exact absurd rfl hbye
    | _ => exact ⟨c, rfl, .dropped⟩

theorem receive_isOk (cenv : ClientEnv) {t : MsgType}
    (hd : dispatch Client.handles data = .ok (some t)) (hc : CompletePacket data) :
    ∃ c', c.onStreamRecv cenv data = .ok c' := by
  obtain ⟨hlen, hp⟩ := (complete_iff_of_dispatch hd).mp hc
  rw [Client.onStreamRecv, hd, ok_bind]
  cases t with
  | helloAck => exact sqmpProcessHelloAck_isOk hlen
  | authResp => exact sqmpProcessAuthResp_isOk hlen
  | keyResp => exact sqmpProcessKeyResp_isOk hlen hp
  | error => exact sqmpProcessError_isOk hlen hp
  | chatDeliver => exact sqmpProcessChatDeliver_isOk hlen hp
  | bye => exact ⟨_, rfl⟩
  | _ => exact ⟨_, rfl⟩

/-- A refusal leaves the state of the session. -/
theorem refused_state (h : c.Refused c') : c'.session.state = c.session.state := by
  cases h <;> rfl

theorem refused_trace {e : ClientEvent} (h : c.Refused c') (htr : c'.trace = e :: c.trace) :
    e.isRefusal = true := by
  cases h with
  | dropped | noKey => exact absurd (congrArg List.length htr) (by simp [Client.postKey])
  | printed he =>
    obtain ⟨rfl, _⟩ := List.cons.inj htr
    exact he
  | noLogin =>
    obtain ⟨rfl, _⟩ := List.cons.inj htr
    rfl

/-- OpenSSL makes something of any key and ciphertext. -/
def willing : OpenSSL :=
  { OpenSSL.failing with derive := fun _ _ => some (Buf.zero 32) }

/-- A message that is decrypted has all its ciphertext in the packet. -/
theorem readChat_inside {text : Except ChatFailure Bytes}
    (h : c.readChat (.fair willing) data = .ok text) :
    (∃ k, Pkt.chatEncKeyLen data = .ok k ∧
      (k ≠ 32 ∨ ∃ n, Pkt.chatCiphertextLen data = .ok n ∧ n < 16)) ∨
    ∃ n, Pkt.chatCiphertextLen data = .ok n ∧ 319 + n.toNat ≤ data.length := by
  rw [Client.readChat] at h
  obtain ⟨k, hk, h⟩ := bind_eq_ok.mp h
  split at h
  · next hne => exact .inl ⟨k, hk, .inl hne⟩
  · obtain ⟨n, hn, h⟩ := bind_eq_ok.mp h
    split at h
    · next hlt => exact .inl ⟨k, hk, .inr ⟨n, hn, hlt⟩⟩
    · next hlt =>
      rw [if_pos (show (ClientEnv.fair willing).malloc c.trace.length = true from rfl)] at h
      obtain ⟨key, _, h⟩ := bind_eq_ok.mp h
      obtain ⟨nonce, _, h⟩ := bind_eq_ok.mp h
      obtain ⟨o, ho, _⟩ := bind_eq_ok.mp h
      have h16 : ¬ n.toNat < 16 := fun h => hlt (UInt32.lt_iff_toNat_lt.mpr h)
      rw [Client.decryptChat, if_neg h16] at ho
      obtain ⟨ct, hct, _⟩ := bind_eq_ok.mp ho
      refine .inr ⟨n, hn, ?_⟩
      by_contra hle
      rw [Pkt.chatCiphertext, readAt, if_neg hle] at hct
      cases hct

/-- What is left as a refusal of a short packet was rejected by the handler. -/
theorem clientRejects_of_refused {t : MsgType} (hd : dispatch Client.handles data = .ok (some t))
    (hc : ¬ CompletePacket data) (h : c.onStreamRecv (.fair willing) data = .ok c')
    (hr : c.Refused c') : ClientRejects c data t := by
  rw [complete_iff_of_dispatch hd] at hc
  rw [Client.onStreamRecv, hd, ok_bind] at h
  cases t with
  | helloAck =>
    refine or_iff_not_imp_left.mpr fun hst => ?_
    have h : c.sqmpProcessHelloAck data = .ok c' := h
    rw [Client.sqmpProcessHelloAck, if_neg hst] at h
    obtain ⟨v, hv, h⟩ := bind_eq_ok.mp h
    refine ⟨v, hv, fun h1 => ?_⟩
    rw [if_neg (not_not.mpr h1)] at h
    obtain ⟨sid, _, h⟩ := bind_eq_ok.mp h
    cases h
    have hstate : SessionState.auth = c.session.state := refused_state hr
    rw [not_not.mp hst] at hstate
    cases hstate
  | authResp =>
    intro hst
    have h : c.sqmpProcessAuthResp data = .ok c' := h
    rw [Client.sqmpProcessAuthResp, if_pos hst] at h
    obtain ⟨status, _, h⟩ := bind_eq_ok.mp h
    split at h
    · cases h
      have hstate : SessionState.connEstablished = c.session.state := refused_state hr
      rw [hst] at hstate
      cases hstate
    · cases h
      cases refused_trace (e := .authFailed status) hr rfl
  | keyResp =>
    obtain ⟨n, hn, h⟩ := bind_eq_ok.mp (show c.sqmpProcessKeyResp data = .ok c' from h)
    refine ⟨n, hn, fun h32 => hc ?_⟩
    rw [if_pos h32] at h
    obtain ⟨key, hkey, _⟩ := bind_eq_ok.mp h
    obtain ⟨bytes, hb, _⟩ := bind_eq_ok.mp (show readBuf data 47 32 = .ok key from hkey)
    have hle : 47 + 32 ≤ data.length := by
      by_contra hle
      rw [readAt, if_neg hle] at hb
      cases hb
    rw [partsEnd, partEnd_ok hn, h32]
    exact ⟨by simp only [pktFixedLen, msgFixedLen]; omega, hle⟩
  | error =>
    obtain ⟨code, _, h⟩ := bind_eq_ok.mp (show c.sqmpProcessError data = .ok c' from h)
    obtain ⟨n, _, h⟩ := bind_eq_ok.mp h
    obtain ⟨desc, _, h⟩ := bind_eq_ok.mp h
    have htr : c'.trace = .error code desc :: c.trace := by
      dsimp only at h
      split at h <;> cases h <;> rfl
    cases refused_trace hr htr
  | chatDeliver =>
    refine or_iff_not_imp_left.mpr fun hst => ?_
    have h : c.sqmpProcessChatDeliver (.fair willing) data = .ok c' := h
    rw [Client.sqmpProcessChatDeliver, if_neg hst] at h
    obtain ⟨n, hn, h⟩ := bind_eq_ok.mp h
    obtain ⟨sender, hsender, h⟩ := bind_eq_ok.mp h
    obtain ⟨text, htext, _⟩ := bind_eq_ok.mp h
    refine ⟨⟨n, readU8_eq_ok.mp hn, (readStr_isOk_iff _ _).mp ⟨sender, hsender⟩⟩, ?_⟩
    rcases readChat_inside htext with hunread | ⟨m, hm, hle⟩
    · exact hunread
    · refine absurd ?_ hc
      rw [partsEnd, partEnd_ok hm]
      exact ⟨by simp only [pktFixedLen, msgFixedLen]; omega, hle⟩
  | _ => trivial

end ParsingLemmas
open ParsingLemmas

/-! ## 5. Which packets are parsed right -/

theorem complete_of_bye {handles : MsgType → Bool} {data : Bytes}
    (hd : dispatch handles data = .ok (some .bye)) : CompletePacket data := by
  refine (complete_iff_of_dispatch hd).mpr ⟨?_, Nat.zero_le _⟩
  unfold dispatch at hd
  split at hd
  · cases hd
  · next hlen => exact Nat.le_of_not_lt hlen

/-- A packet that is short and parsed right is rejected by its handler. -/
theorem rejects_of_short {handles : MsgType → Bool} {data : Bytes} {o : Option MsgType}
    {R : MsgType → Prop} (hd : dispatch handles data = .ok o) (hc : ¬ CompletePacket data)
    (h : ∀ t, dispatch handles data = .ok (some t) → CompletePacket data ∨ R t) :
    ∀ t ∈ o, R t ∧ t ≠ .bye := by
  rintro t rfl
  refine ⟨(h t hd).resolve_left hc, ?_⟩
  rintro rfl
  exact hc (complete_of_bye hd)

/-- The server parses a packet right exactly when it is complete or rejected by its handler. -/
theorem serverParses_iff {σ : Server} {st : StreamId} {s : SessionId} {data : Bytes}
    (hs : (σ.stream st).userData = some s) : ServerParses σ st data ↔
      ∀ t, dispatch serverHandles data = .ok (some t) →
        CompletePacket data ∨ ServerRejects σ s data t := by
  obtain ⟨o, hd⟩ := StepLemmas.dispatch_ok serverHandles data
  constructor
  · intro hp t ht
    refine or_iff_not_imp_left.mpr fun hc => ?_
    -- when no call fails, the packet alone decides
    obtain ⟨σ', hσ⟩ := hp.inside (.fair none)
    exact rejects_of_refused hs ht hσ (hp.rejects hc _ _ hσ)
  · intro h
    by_cases hc : CompletePacket data
    · refine ⟨fun env => ?_, fun hn => absurd hc hn⟩
      cases o with
      | none =>
        obtain ⟨σ', hσ, _⟩ := onStreamRecv_refuses env hs hd nofun
        exact ⟨σ', hσ⟩
      | some t => exact onStreamRecv_isOk hs hd hc
    · have hrej : ∀ env, ∃ σ', onStreamRecv env σ st data = .ok σ' ∧ Refused σ σ' :=
        fun env => onStreamRecv_refuses env hs hd (rejects_of_short hd hc h)
      refine ⟨fun env => (hrej env).imp fun _ h => h.1, fun _ env σ' hσ => ?_⟩
      obtain ⟨σ'', hσ', href⟩ := hrej env
      rw [hσ'] at hσ
      cases hσ
      exact href

/-- The client likewise. -/
theorem clientParses_iff {c : Client} {data : Bytes} : ClientParses c data ↔
    ∀ t, dispatch Client.handles data = .ok (some t) →
      CompletePacket data ∨ ClientRejects c data t := by
  obtain ⟨o, hd⟩ := StepLemmas.dispatch_ok Client.handles data
  constructor
  · intro hp t ht
    refine or_iff_not_imp_left.mpr fun hc => ?_
    obtain ⟨c', hc'⟩ := hp.inside (.fair willing)
    exact clientRejects_of_refused ht hc hc' (hp.rejects hc _ _ hc')
  · intro h
    by_cases hc : CompletePacket data
    · refine ⟨fun cenv => ?_, fun hn => absurd hc hn⟩
      cases o with
      | none =>
        obtain ⟨c', hc', _⟩ := receive_refuses cenv (c := c) hd nofun
        exact ⟨c', hc'⟩
      | some t => exact receive_isOk cenv hd hc
    · have hrej : ∀ cenv, ∃ c', c.onStreamRecv cenv data = .ok c' ∧ c.Refused c' :=
        fun cenv => receive_refuses cenv hd (rejects_of_short hd hc h)
      refine ⟨fun cenv => (hrej cenv).imp fun _ h => h.1, fun _ cenv c' hc' => ?_⟩
      obtain ⟨c'', hc'', href⟩ := hrej cenv
      rw [hc''] at hc'
      cases hc'
      exact href

/-- A CHAT_SEND to `abc` that announces `n` bytes and brings none. -/
def chatToAbc (n : UInt32) : Bytes := emptyChat [97, 98, 99] n

end SquimpChat
