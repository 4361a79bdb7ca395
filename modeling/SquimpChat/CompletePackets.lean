import SquimpChat.ClientPackets
import SquimpChat.NameLength
import SquimpChat.Parsing
import SquimpChat.RoundTrip
import SquimpChat.SessionIds

/-!
# Complete packets

Neither side checks the lengths in a packet before it reads (`parses_iff`), so each relies on the
other's packets to be complete. Here it is shown what each side may rely on. A server that follows
its code sends complete packets only, also those it builds from what a hostile client has sent: a
CHAT_DELIVER is as long as it says, since the server itself has read that many bytes. A client that
follows its code sends complete packets with names that fit, whatever its server and its user do.
A packet is what `sqmp_stream_send` is given: of one of 2^32 bytes or more it takes the length modulo
2^32 only (`truncated_delivery`).

Results:
1. `server_shields`: no packet that the server gives to `sqmp_stream_send` makes a client read behind
   it.
2. `honest_traffic`: with packets of clients only, the server reads inside them and copies no name
   beyond its field.
-/

namespace SquimpChat
open Octets Transition StepLemmas SessionIdLemmas

/-! ## 1. The packets of the server -/

/-- The packets the server builds. -/
inductive ServerBuilt : Packet → Prop
  | helloAck {sid : UInt32} : ServerBuilt ⟨sid, .helloAck ⟨1, 65535⟩⟩
  | authResp {x : Session} {ok : Bool} : ServerBuilt (authRespPacket x ok)
  | keyResp {sid : UInt32} {ulen : UInt8} {name : Bytes} {key : Buf 32} :
      ServerBuilt ⟨sid, .keyResp (keyRespMsg ulen name key)⟩
  | chatDeliver {sid : UInt32} {m : MsgChatDeliver}
      (hlen : m.ciphertext.length = m.ciphertextLen.toNat) : ServerBuilt ⟨sid, .chatDeliver m⟩
  | error {sid : UInt32} {code : ErrorCode} {desc : String} :
      ServerBuilt ⟨sid, .error (errorMsg code desc)⟩
  | bye {sid : UInt32} : ServerBuilt ⟨sid, .bye⟩

/-- The event is no read outside a packet, and a packet sent was built by the server. -/
def Event.Proper : Event → Prop
  | sent _ p _ _ => ServerBuilt p
  | outOfRange _ => False
  | _ => True

/-- What lies between two states has the property. -/
def Adds (Q : Event → Prop) (σ σ' : Server) : Prop :=
  ∃ es, σ'.trace = es ++ σ.trace ∧ ∀ e ∈ es, Q e

namespace CompletePacketLemmas

variable {env : Env} {σ σ' τ : Server} {a : Action} {st : StreamId} {s : SessionId} {pkt : Bytes}
  {Q : Event → Prop}

theorem adds_refl : Adds Q σ σ := ⟨[], rfl, nofun⟩

theorem adds_trans (h : Adds Q σ τ) (h' : Adds Q τ σ') : Adds Q σ σ' := by
  obtain ⟨es, htr, hes⟩ := h
  obtain ⟨es', htr', hes'⟩ := h'
  refine ⟨es' ++ es, by rw [htr', htr, List.append_assoc], fun e he => ?_⟩
  exact (List.mem_append.mp he).elim (hes' e) (hes e)

/-- A state that differs in other fields only. -/
theorem adds_congr (h : Adds Q σ τ) (htr : σ'.trace = τ.trace) : Adds Q σ σ' := by
  obtain ⟨es, htr', hes⟩ := h
  exact ⟨es, htr.trans htr', hes⟩

theorem adds_append {es : List Event} (hes : ∀ e ∈ es, Q e) : Adds Q σ (σ.append es) :=
  ⟨es, rfl, hes⟩

theorem adds_log {e : Event} (he : Q e) : Adds Q σ (σ.append [e]) :=
  adds_append (List.forall_mem_singleton.mpr he)

theorem touched_proper : ∀ e ∈ σ.touched s, e.Proper := by
  intro e he
  rw [(mem_touched.mp he).2]
  trivial

theorem adds_touched : Adds Event.Proper σ (σ.append (σ.touched s)) := adds_append touched_proper

theorem adds_send {p : Packet} (hp : ServerBuilt p) :
    Adds Event.Proper σ (sqmpStreamSend env σ st p) :=
  adds_log hp

theorem adds_error {code : ErrorCode} {desc : String} :
    Adds Event.Proper σ (sqmpSendError env σ st s code desc) := adds_send .error

/-! ### Handlers -/

theorem hello_adds (h : sqmpProcessHello env σ st s pkt = .ok σ') : Adds Event.Proper σ σ' := by
  unfold sqmpProcessHello at h
  dsimp only at h
  split at h
  · cases h
    exact adds_trans adds_touched adds_error
  · obtain ⟨num, _, h⟩ := bind_eq_ok.mp h
    obtain ⟨found, _, h⟩ := bind_eq_ok.mp h
    split at h
    · cases h
      have hsent : Adds Event.Proper σ (sqmpStreamSend env (σ.append (σ.touched s)) st
          ⟨σ.nextSessionId, .helloAck ⟨1, 65535⟩⟩) := adds_trans adds_touched (adds_send .helloAck)
      rw [acceptHello_eq]
      exact adds_congr hsent rfl
    · cases h
      exact adds_trans adds_touched (adds_trans adds_error (adds_send .bye))

theorem authReq_adds (h : sqmpProcessAuthReq env σ st s pkt = .ok σ') :
    Adds Event.Proper σ σ' := by
  unfold sqmpProcessAuthReq at h
  dsimp only at h
  split at h
  · cases h
    exact adds_trans adds_touched adds_error
  · obtain ⟨f, _, h⟩ := bind_eq_ok.mp h
    cases h
    obtain ⟨es, hes, he⟩ := acceptAuthReq_eq σ st s f
    rw [he]
    have hproper : ∀ e ∈ .enqueued s :: (es ++ .copied .authUsername f.usernameLen.toNat ::
        .authReq s f :: σ.touched s), e.Proper := by
      refine List.forall_mem_cons.mpr ⟨trivial, List.forall_mem_append.mpr ⟨fun e he => ?_, ?_⟩⟩
      · obtain ⟨t, _, he⟩ := hes e he
        exact touched_proper e he
      · exact List.forall_mem_cons.mpr ⟨trivial, List.forall_mem_cons.mpr ⟨trivial, touched_proper⟩⟩
    exact adds_congr (adds_append hproper) rfl

theorem keyReq_adds (h : sqmpProcessKeyReq env σ st s pkt = .ok σ') : Adds Event.Proper σ σ' := by
  unfold sqmpProcessKeyReq at h
  dsimp only at h
  split at h
  · cases h
    exact adds_trans adds_touched adds_error
  · obtain ⟨n, _, h⟩ := bind_eq_ok.mp h
    obtain ⟨o, _, h⟩ := bind_eq_ok.mp h
    cases o with
    | none =>
      cases h
      exact adds_trans adds_touched adds_error
    | some pubkey =>
      dsimp only at h
      split at h
      · obtain ⟨sid, _, h⟩ := bind_eq_ok.mp h
        obtain ⟨name, _, h⟩ := bind_eq_ok.mp h
        cases h
        exact adds_trans adds_touched (adds_trans
          (adds_log (e := .copied .respUsername _) trivial) (adds_send .keyResp))
      · cases h
        exact adds_trans adds_touched (adds_log (e := .noMemory) trivial)

/-- The server has read as much ciphertext as the CHAT_SEND announces. -/
theorem chatDeliverMsg_ok {x : Session} {m : MsgChatDeliver} (h : chatDeliverMsg x pkt = .ok m) :
    m.ciphertext.length = m.ciphertextLen.toNat := by
  unfold chatDeliverMsg at h
  obtain ⟨n, _, h⟩ := bind_eq_ok.mp h
  obtain ⟨_, _, h⟩ := bind_eq_ok.mp h
  obtain ⟨_, _, h⟩ := bind_eq_ok.mp h
  obtain ⟨_, _, h⟩ := bind_eq_ok.mp h
  obtain ⟨ct, hct, h⟩ := bind_eq_ok.mp h
  cases h
  exact length_of_readAt hct

theorem chatForward_adds {r : StreamId} (h : chatSendForward env σ st s pkt r = .ok σ') :
    Adds Event.Proper σ σ' := by
  obtain ⟨_, _, h⟩ := bind_eq_ok.mp h
  split at h
  · obtain ⟨sid, _, h⟩ := bind_eq_ok.mp h
    obtain ⟨m, hm, h⟩ := bind_eq_ok.mp h
    cases h
    unfold forwardChat
    dsimp only
    have hsent : Adds Event.Proper σ (sqmpStreamSend env
        (σ.append [.copied .deliverSender m.senderLen.toNat]) r ⟨sid, .chatDeliver m⟩) :=
      adds_trans (adds_log (e := .copied .deliverSender _) trivial)
        (adds_send (.chatDeliver (chatDeliverMsg_ok hm)))
    split
    · exact hsent
    · exact adds_trans hsent adds_error
  · cases h
    exact adds_log (e := .noMemory) trivial

theorem chatHead_adds {k : Server → StreamId → Except OutOfRange Server}
    (hk : ∀ r, k (σ.append (σ.touched s)) r = .ok σ' → Adds Event.Proper σ σ')
    (h : chatSendHead env σ st s pkt k = .ok σ') : Adds Event.Proper σ σ' := by
  unfold chatSendHead at h
  dsimp only at h
  split at h
  · cases h
    exact adds_trans adds_touched adds_error
  · obtain ⟨o, _, h⟩ := bind_eq_ok.mp h
    cases o with
    | none =>
      cases h
      exact adds_trans adds_touched adds_error
    | some r => exact hk r h

theorem bye_adds : Adds Event.Proper σ (sqmpProcessBye σ s) := by
  refine adds_congr (adds_touched (s := s)) ?_
  unfold sqmpProcessBye
  dsimp only
  split <;> rfl

theorem session_adds {k : SessionId → Except OutOfRange Server}
    (hk : ∀ s, k s = .ok σ' → Adds Event.Proper σ σ') (h : withSession σ st k = .ok σ') :
    Adds Event.Proper σ σ' := by
  unfold withSession at h
  split at h
  · cases h
    exact adds_log trivial
  · exact hk _ h

theorem onStreamRecv_adds (h : onStreamRecv env σ st pkt = .ok σ') : Adds Event.Proper σ σ' := by
  obtain ⟨o, hd⟩ := dispatch_ok serverHandles pkt
  rw [onStreamRecv, hd, ok_bind] at h
  split at h
  · exact session_adds (fun s h => hello_adds h) h
  · exact session_adds (fun s h => authReq_adds h) h
  · exact session_adds (fun s h => keyReq_adds h) h
  · exact session_adds (fun s h => chatHead_adds
      (fun r h => adds_trans adds_touched (chatForward_adds h)) h) h
  · refine session_adds (fun s h => ?_) h
    cases h
    exact bye_adds
  · cases h
    exact adds_refl

theorem chatLookup_adds (h : withSession σ st (fun s => suspendChat env σ st s pkt) = .ok σ') :
    Adds Event.Proper σ σ' := by
  refine session_adds (fun s h => chatHead_adds (fun r h => ?_) h) h
  cases h
  exact adds_congr (adds_touched (s := s)) rfl

/-! ### Steps -/

theorem sends_of_adds (h : Adds Event.Proper σ σ') : Sends (fun _ p => ServerBuilt p) σ σ' := by
  obtain ⟨es, htr, hes⟩ := h
  exact ⟨es, htr, fun st p l ok he => hes _ he⟩

theorem sends_settled {o : Option SessionId} {r : Except OutOfRange Server}
    (hr : ∀ σ', r = .ok σ' → Adds Event.Proper σ σ') :
    Sends (fun _ p => ServerBuilt p) σ (settle σ o r) := by
  cases r with
  | ok σ' => exact sends_of_adds (hr σ' rfl)
  | error e =>
    refine sends_silent (List.forall_mem_cons.mpr ⟨rfl, fun e he => ?_⟩)
    cases o with
    | none => cases he
    | some s => exact touched_isSent e he

theorem main_built (h : MainStep env σ a σ') : Sends (fun _ p => ServerBuilt p) σ σ' := by
  obtain ⟨es, htr, hes⟩ := main_events h
  refine ⟨es, htr, fun st p l ok he => ?_⟩
  obtain ⟨_, ⟨_, rfl⟩ | ⟨_, hp⟩⟩ := main_packet (hes _ he)
  · exact .authResp
  · obtain ⟨sid, m⟩ := p
    cases m with
    | bye => exact .bye
    | _ => cases hp

theorem step_built (h : step env σ a = some σ') : Sends (fun _ p => ServerBuilt p) σ σ' := by
  have other : a.packet = none → (∀ c, a ≠ .chatForward c) →
      Sends (fun _ p => ServerBuilt p) σ σ' := by
    intro hp hc
    rcases step_cases h with h | h
    · exact callback_sends h hp hc
    · exact main_built h
  cases a with
  | received st data =>
    simp only [step, Option.ite_none_right_eq_some, Option.some.injEq] at h
    obtain ⟨_, rfl⟩ := h
    exact sends_settled fun σ' h => onStreamRecv_adds h
  | chatLookup st data =>
    simp only [step, Option.ite_none_right_eq_some, Option.some.injEq] at h
    obtain ⟨_, rfl⟩ := h
    exact sends_settled fun σ' h => chatLookup_adds h
  | chatForward c =>
    obtain ⟨p, _, rfl⟩ := Option.map_eq_some_iff.mp h
    let τ : Server := { σ with chats := σ.chats.filter (·.conn ≠ p.conn) }
    have hτ : Sends (fun _ p => ServerBuilt p) τ (resumeChat env σ p) :=
      sends_settled fun σ' h => adds_trans adds_touched (chatForward_adds h)
    exact sends_trans (sends_congr sends_refl rfl) hτ
  | _ => exact other rfl (by simp)

end CompletePacketLemmas
open CompletePacketLemmas

/-- Every packet of a run was built by the server. -/
theorem server_built {env : Env} {acts : List Action} {σ : Server} (h : serverRun env acts = some σ)
    {st : StreamId} {p : Packet} {live ok : Bool} (hp : .sent st p live ok ∈ σ.trace) :
    ServerBuilt p := by
  refine run_always (I := fun σ => ∀ st p live ok, .sent st p live ok ∈ σ.trace → ServerBuilt p)
    (fun σ a σ' hi hs st p live ok he => ?_) nofun h st p live ok hp
  obtain ⟨es, htr, hes⟩ := step_built hs
  rw [htr] at he
  exact (List.mem_append.mp he).elim (hes st p live ok) (hi st p live ok)

/-! ## 2. Built packets are complete -/

namespace CompletePacketLemmas

variable {p : Packet}

/-- A packet is as long as its struct; what is left are the parts it announces. -/
theorem complete_bytes (h : partsEnd p.bytes p.msg.type ≤ p.bytes.length) :
    CompletePacket p.bytes := by
  intro b hb t ht
  have hb' : p.bytes[1]? = some p.msg.type.code := rfl
  rw [hb', Option.mem_some] at hb
  rw [← hb, MsgType.ofCode_code, Option.mem_some] at ht
  rw [← ht]
  refine ⟨?_, h⟩
  rw [p.length_bytes]
  exact Nat.le_add_right _ _

theorem keyReq_complete {sid : UInt32} {m : MsgKeyReq} (h : m.usernameLen.toNat ≤ 32) :
    CompletePacket (Packet.mk sid (.keyReq m)).bytes := by
  have hl : Pkt.keyReqUsernameLen (Packet.mk sid (.keyReq m)).bytes = .ok m.usernameLen :=
    ClientStateLemmas.readU8_message rfl
  have hparts : partsEnd (Packet.mk sid (.keyReq m)).bytes .keyReq = 13 + m.usernameLen.toNat :=
    ParsingLemmas.partEnd_ok hl
  refine complete_bytes ?_
  rw [Packet.length_bytes, Msg.type, hparts]
  simp only [msgFixedLen, pktFixedLen, Msg.flexible, List.length_nil]
  omega

theorem authReq_complete {sid : UInt32} {m : MsgAuthReq} (h : m.usernameLen.toNat ≤ 32)
    (hk : m.pubkeyLen.toNat ≤ m.publicKey.length) :
    CompletePacket (Packet.mk sid (.authReq m)).bytes := by
  have hl : Pkt.authReqUsernameLen (Packet.mk sid (.authReq m)).bytes = .ok m.usernameLen :=
    ClientStateLemmas.readU8_message rfl
  have hp : readU16 ((header .authReq sid ++ m.usernameLen :: (m.username.bytes ++
      m.passwordHash.bytes)) ++ (leBytes 2 m.pubkeyLen.toNat ++ (m.publicKey ++ []))) 77 =
      .ok m.pubkeyLen := readU16_append (by simp [Buf.length_eq])
  have hp' : Pkt.authReqPubkeyLen (Packet.mk sid (.authReq m)).bytes = .ok m.pubkeyLen := by
    simpa [Pkt.authReqPubkeyLen, Packet.bytes, Msg.bytes, Msg.type] using hp
  refine complete_bytes ?_
  rw [Packet.length_bytes]
  show max (partEnd 13 _ _) (partEnd 79 _ _) ≤ _
  rw [ParsingLemmas.partEnd_ok hl, ParsingLemmas.partEnd_ok hp']
  simp only [Msg.type, msgFixedLen, pktFixedLen, Msg.flexible]
  omega

theorem keyResp_complete {sid : UInt32} {m : MsgKeyResp}
    (hk : m.pubkeyLen.toNat ≤ m.publicKey.length) :
    CompletePacket (Packet.mk sid (.keyResp m)).bytes := by
  have hp : readU16 ((header .keyResp sid ++ m.usernameLen :: m.username.bytes) ++
      (leBytes 2 m.pubkeyLen.toNat ++ (m.publicKey ++ []))) 45 = .ok m.pubkeyLen :=
    readU16_append (by simp [Buf.length_eq])
  have hp' : Pkt.keyRespPubkeyLen (Packet.mk sid (.keyResp m)).bytes = .ok m.pubkeyLen := by
    simpa [Pkt.keyRespPubkeyLen, Packet.bytes, Msg.bytes, Msg.type] using hp
  refine complete_bytes ?_
  rw [Packet.length_bytes]
  show partEnd 47 _ _ ≤ _
  rw [ParsingLemmas.partEnd_ok hp']
  simp only [Msg.type, msgFixedLen, pktFixedLen, Msg.flexible]
  omega

theorem error_complete {sid : UInt32} {m : MsgError} (h : m.descLen.toNat ≤ 128) :
    CompletePacket (Packet.mk sid (.error m)).bytes := by
  have hd : readU8 ((header .error sid ++ [m.errorCode]) ++ m.descLen ::
      (m.description.bytes ++ [])) 13 = .ok m.descLen := readU8_append (by simp)
  have hd' : Pkt.errorDescLen (Packet.mk sid (.error m)).bytes = .ok m.descLen := by
    simpa [Pkt.errorDescLen, Packet.bytes, Msg.bytes, Msg.type] using hd
  have hparts : partsEnd (Packet.mk sid (.error m)).bytes .error = 14 + m.descLen.toNat :=
    ParsingLemmas.partEnd_ok hd'
  refine complete_bytes ?_
  rw [Packet.length_bytes, Msg.type, hparts]
  simp only [msgFixedLen, pktFixedLen, Msg.flexible, List.length_nil]
  omega

theorem chat_complete (hr : ∃ m : MsgChatDeliver, ChatReads p.bytes m ∧
      m.ciphertextLen.toNat ≤ p.msg.flexible.length)
    (ht : p.msg.type = .chatSend ∨ p.msg.type = .chatDeliver) : CompletePacket p.bytes := by
  obtain ⟨m, hr, hle⟩ := hr
  refine complete_bytes ?_
  have hparts : partsEnd p.bytes p.msg.type = 319 + m.ciphertextLen.toNat := by
    rcases ht with ht | ht
    all_goals
      rw [ht]
      exact ParsingLemmas.partEnd_ok hr.ciphertextLen
  have hfix : msgFixedLen p.msg.type = 307 := by rcases ht with ht | ht <;> rw [ht] <;> rfl
  rw [hparts, Packet.length_bytes, hfix, pktFixedLen]
  omega

/-- The chat loop sends nothing to a longer name. -/
theorem chatLine_message {l recipient msg : Bytes} (h : chatLine l = .message recipient msg) :
    recipient.length ≤ 32 := by
  unfold chatLine at h
  dsimp only at h
  split at h
  · cases h
  · split at h
    · cases h
    · split at h
      · cases h
      · split at h
        · cases h
        · next hle =>
          cases h
          exact Nat.le_of_not_lt hle

/-- A packet without announced parts. -/
theorem plain_complete (h : partsEnd p.bytes p.msg.type = 0) : CompletePacket p.bytes :=
  complete_bytes (h ▸ Nat.zero_le _)

end CompletePacketLemmas

theorem ServerBuilt.complete {p : Packet} (h : ServerBuilt p) : CompletePacket p.bytes := by
  cases h with
  | helloAck => exact plain_complete rfl
  | bye => exact plain_complete rfl
  | authResp => exact plain_complete rfl
  | keyResp =>
    refine keyResp_complete ?_
    show 32 ≤ (Buf.bytes _).length
    rw [Buf.length_eq]
  | error =>
    refine error_complete ?_
    show (UInt8.ofNat (List.take 128 _).length).toNat ≤ 128
    rw [UInt8.toNat_ofNat']
    exact Nat.le_trans (Nat.mod_le _ _) (List.length_take_le _ _)
  | chatDeliver hlen =>
    exact chat_complete ⟨_, chatDeliver_reads .., Nat.le_of_eq hlen.symm⟩ (.inr rfl)

/-- The packets of a client are complete and their names fit. -/
theorem ClientSent.complete {env : ClientEnv} {m : ClientMain} {a : MainAction} {p : Packet}
    (h : ClientSent env m a p) : CompletePacket p.bytes := by
  cases h with
  | hello | bye | echo => exact plain_complete rfl
  | authReq _ hname =>
    refine authReq_complete (Nat.le_trans ?_ hname) ?_
    · rw [UInt8.toNat_ofNat']
      exact Nat.mod_le _ _
    · show 32 ≤ (Buf.bytes _).length
      rw [Buf.length_eq]
  | keyReq _ hl =>
    refine keyReq_complete (Nat.le_trans ?_ (chatLine_message hl))
    show (UInt8.ofNat _).toNat ≤ _
    rw [UInt8.toNat_ofNat']
    exact Nat.mod_le _ _
  | chatSend =>
    refine chat_complete ⟨_, chatSend_reads .., ?_⟩ (.inl rfl)
    show (UInt32.ofNat _).toNat ≤ _
    rw [UInt32.toNat_ofNat']
    exact Nat.mod_le _ _

/-! ## 3. What the two sides rely on -/

/-- Whatever the clients send, the server gives to `sqmp_stream_send` packets that no client reads
behind. -/
theorem server_shields {env : Env} {acts : List Action} {σ : Server}
    (h : serverRun env acts = some σ) {st : StreamId} {p : Packet} {live ok : Bool}
    (hp : .sent st p live ok ∈ σ.trace) (cenv : ClientEnv) (c : Client) :
    CompletePacket p.bytes ∧ ∃ c', c.onStreamRecv cenv p.bytes = .ok c' := by
  have hc := (server_built h hp).complete
  exact ⟨hc, (clientParses_iff.mpr fun _ _ => .inl hc).inside cenv⟩

theorem shields_abcLogin : ∃ σ, serverRun (.fair abcUsers) abcLogin = some σ ∧
    .sent 0 ⟨1, .authResp ⟨0, 1⟩⟩ true true ∈ σ.trace ∧
    CompletePacket (Packet.mk 1 (.authResp ⟨0, 1⟩)).bytes ∧
    ∃ c', Client.init.onStreamRecv (.fair .zeroKeys) (Packet.mk 1 (.authResp ⟨0, 1⟩)).bytes =
      .ok c' := by
  obtain ⟨σ, hr, hp⟩ := serverRun_reaches (.fair abcUsers) abcLogin
    (fun σ => .sent 0 ⟨1, .authResp ⟨0, 1⟩⟩ true true ∈ σ.trace) (by decide +kernel)
  exact ⟨σ, hr, hp, server_shields hr hp (.fair .zeroKeys) .init⟩

/-- The bytes of a packet that a client has sent in some run. -/
def FromClient (data : Bytes) : Prop :=
  ∃ cenv acts m, run (ClientMain.step cenv) .init acts = some m ∧
    ∃ p ∈ m.client.attempts, data = p.bytes

/-- The server receives packets of clients only. -/
def HonestClients (_ : Server) (a : Action) : Prop := ∀ data ∈ a.packet, FromClient data

namespace CompletePacketLemmas

variable {env : Env} {σ σ' : Server} {a : Action} {st : StreamId} {s : SessionId} {data : Bytes}

theorem fromClient_packet (h : FromClient data) : ∃ p : Packet, data = p.bytes ∧ CompletePacket p.bytes ∧
    ∀ m, p.msg = .authReq m → m.usernameLen.toNat ≤ 32 := by
  obtain ⟨cenv, acts, m, hr, p, hp, rfl⟩ := h
  refine ⟨p, rfl, ?_⟩
  refine run_always (I := fun m : ClientMain => ∀ p ∈ m.client.attempts, CompletePacket p.bytes ∧
    ∀ m, p.msg = .authReq m → m.usernameLen.toNat ≤ 32) (fun m a m' hi hs p hp => ?_)
    (fun p hp => absurd hp List.not_mem_nil) hr p hp
  rcases clientMain_sends hs with ht | ⟨q, ht, hq⟩
  · rw [ht] at hp
    exact hi p hp
  · rw [ht, List.mem_append, List.mem_singleton] at hp
    rcases hp with hp | rfl
    · exact hi p hp
    · refine ⟨hq.complete, fun m hm => ?_⟩
      cases hq with
      | authReq _ hname =>
        cases hm
        show (UInt8.ofNat _).toNat ≤ 32
        rw [UInt8.toNat_ofNat']
        exact Nat.le_trans (Nat.mod_le _ _) hname
      | _ => cases hm

/-- The AUTH_REQs of clients announce names that fit. -/
theorem shortName_honest (hP : HonestClients σ a) : ShortName σ a := by
  rintro ⟨s, data⟩ hon n hn
  obtain ⟨st, rfl, _⟩ := OwnershipLemmas.authReqOn_some hon
  obtain ⟨hd, _⟩ := Option.ite_none_right_eq_some.mp hon
  obtain ⟨p, rfl, _, hshort⟩ := fromClient_packet (hP data rfl)
  rw [ClientStateLemmas.dispatch_bytes] at hd
  obtain ⟨ht, _⟩ := Option.filter_eq_some_iff.mp (Except.ok.inj hd)
  obtain ⟨sid, msg⟩ := p
  cases msg with
  | authReq m =>
    have hl : Pkt.authReqUsernameLen (Packet.mk sid (.authReq m)).bytes = .ok m.usernameLen :=
      ClientStateLemmas.readU8_message rfl
    rw [hl] at hn
    cases hn
    exact hshort m rfl
  | _ => cases ht

/-- Nothing was read outside a packet, and nothing will be by the suspended handlers. -/
structure Inside (σ : Server) : Prop where
  trace : ∀ e, .outOfRange e ∉ σ.trace
  chats : ∀ p ∈ σ.chats, 319 ≤ p.pkt.length ∧ partsEnd p.pkt .chatSend ≤ p.pkt.length

theorem onStreamRecv_inside (env : Env) (hc : CompletePacket data) :
    ∃ σ', onStreamRecv env σ st data = .ok σ' := by
  cases hs : (σ.stream st).userData with
  | none =>
    obtain ⟨o, hd⟩ := dispatch_ok serverHandles data
    simp only [onStreamRecv, hd, ok_bind, withSession, hs]
    split <;> exact ⟨_, rfl⟩
  | some s => exact ((serverParses_iff hs).mpr fun _ _ => .inl hc).inside env

/-- The lookup reads what the whole handler reads first. -/
theorem suspendChat_inside (env : Env) (hlen : 319 ≤ data.length)
    (hp : partsEnd data .chatSend ≤ data.length) :
    ∃ σ', withSession σ st (fun s => suspendChat env σ st s data) = .ok σ' := by
  cases hs : (σ.stream st).userData with
  | none =>
    rw [withSession, hs]
    exact ⟨_, rfl⟩
  | some s =>
    rw [withSession, hs]
    obtain ⟨σ', h⟩ : ∃ σ', sqmpProcessChatSend env σ st s data = .ok σ' :=
      ParsingLemmas.sqmpProcessChatSend_isOk hlen hp
    unfold sqmpProcessChatSend chatSendHead at h
    unfold suspendChat chatSendHead
    dsimp only at h ⊢
    split at h
    · next hst =>
      rw [if_pos hst]
      exact ⟨_, rfl⟩
    · next hst =>
      obtain ⟨o, ho, _⟩ := bind_eq_ok.mp h
      rw [if_neg hst, ho, ok_bind]
      cases o <;> exact ⟨_, rfl⟩

theorem chats_callback (h : CallbackStep env σ a σ') :
    ∀ p ∈ σ'.chats, p ∈ σ.chats ∨ ∃ st, a = .chatLookup st p.pkt := by
  intro p hp
  cases h with
  | chatLookup =>
    rcases List.mem_cons.mp hp with rfl | hp
    · exact .inr ⟨_, rfl⟩
    · exact .inl hp
  | chatForward => exact .inl (List.mem_filter.mp hp).1
  | _ => exact .inl hp

/-- The callbacks without a packet read none. -/
theorem callback_proper (h : CallbackStep env σ a σ') (hp : a.packet = none)
    (hc : ∀ c, a ≠ .chatForward c) : Adds (fun e => ∀ r, e ≠ .outOfRange r) σ σ' := by
  have touches : ∀ {s : SessionId} {es : List Event}, (∀ e ∈ es, e ∈ σ.touched s) →
      ∀ e ∈ es, ∀ r, e ≠ .outOfRange r := by
    intro s es hes e he r
    rw [(mem_touched.mp (hes e he)).2]
    nofun
  cases h with
  | ignored ha | answered ha =>
    obtain ⟨⟨data, rfl | rfl⟩, _⟩ := ha <;> cases hp
  | hello | authReq | bye | chatLookup => cases hp
  | chatForward => exact absurd rfl (hc _)
  | streamClosed => exact adds_congr (adds_append (touches fun _ h => h)) rfl
  | disconnectLoad hcf hcl hq hes =>
    refine adds_congr (adds_append fun e he => ?_) rfl
    obtain ⟨s, _, he⟩ := hes e he
    exact touches (fun _ h => h) e he
  | left h hs hes => exact adds_congr (adds_append (touches hes)) rfl
  | freed h hs hes =>
    refine adds_congr (adds_trans (adds_append (touches hes)) ⟨[_], rfl, ?_⟩) rfl
    refine List.forall_mem_singleton.mpr fun r => ?_
    split <;> nofun
  | _ => exact adds_congr adds_refl rfl

theorem main_proper (h : MainStep env σ a σ') :
    Adds (fun e => ∀ r, e ≠ .outOfRange r) σ σ' := by
  obtain ⟨es, htr, hes⟩ := main_events h
  refine ⟨es, htr, fun e he r hr => ?_⟩
  subst hr
  generalize hd : Event.outOfRange r = e at he
  cases hes e he with
  | freed => split at hd <;> cases hd
  | _ => cases hd

/-- A step with complete packets. -/
theorem inside_step (hi : Inside σ) (hP : HonestClients σ a) (h : step env σ a = some σ') :
    Inside σ' := by
  have complete : ∀ data ∈ a.packet, CompletePacket data := fun data hd => by
    obtain ⟨p, rfl, hc, _⟩ := fromClient_packet (hP data hd)
    exact hc
  have quiet : Adds (fun e => ∀ r, e ≠ .outOfRange r) σ σ' → ∀ e, .outOfRange e ∉ σ'.trace := by
    rintro ⟨es, htr, hes⟩ e he
    rw [htr] at he
    exact (List.mem_append.mp he).elim (fun he => hes _ he e rfl) (hi.trace e)
  have proper {τ υ : Server} (h : Adds Event.Proper τ υ) :
      Adds (fun e => ∀ r, e ≠ .outOfRange r) τ υ := by
    obtain ⟨es, htr, hes⟩ := h
    exact ⟨es, htr, fun e he r hr => (hr ▸ hes e he : Event.Proper (.outOfRange r))⟩
  have hchats : ∀ p ∈ σ'.chats, 319 ≤ p.pkt.length ∧ partsEnd p.pkt .chatSend ≤ p.pkt.length := by
    intro p hp
    rcases step_cases h with hs | hs
    · rcases chats_callback hs p hp with hp | ⟨st, rfl⟩
      · exact hi.chats p hp
      · obtain ⟨hr, _⟩ := Option.ite_none_right_eq_some.mp h
        simp only [Bool.and_eq_true, decide_eq_true_eq] at hr
        exact (ParsingLemmas.complete_iff_of_dispatch hr.2).mp (complete _ rfl)
    · exact hi.chats p (LoginOrderLemmas.chats_main hs ▸ hp)
  refine ⟨quiet ?_, hchats⟩
  have other : a.packet = none → (∀ c, a ≠ .chatForward c) →
      Adds (fun e => ∀ r, e ≠ .outOfRange r) σ σ' := by
    intro hp hc
    rcases step_cases h with h | h
    · exact callback_proper h hp hc
    · exact main_proper h
  cases a with
  | received st data =>
    obtain ⟨_, h⟩ := Option.ite_none_right_eq_some.mp h
    obtain ⟨σ'', hσ⟩ : ∃ σ'', onStreamRecv env σ st data = .ok σ'' :=
      onStreamRecv_inside env (complete data rfl)
    rw [hσ] at h
    cases h
    exact proper (onStreamRecv_adds hσ)
  | chatLookup st data =>
    obtain ⟨hr, h⟩ := Option.ite_none_right_eq_some.mp h
    simp only [Bool.and_eq_true, decide_eq_true_eq] at hr
    obtain ⟨hlen, hparts⟩ := (ParsingLemmas.complete_iff_of_dispatch hr.2).mp (complete data rfl)
    obtain ⟨σ'', hσ⟩ : ∃ σ'', withSession σ st (fun s => suspendChat env σ st s data) = .ok σ'' :=
      suspendChat_inside env hlen hparts
    rw [hσ] at h
    cases h
    exact proper (chatLookup_adds hσ)
  | chatForward c =>
    obtain ⟨p, hp, rfl⟩ := Option.map_eq_some_iff.mp h
    obtain ⟨hlen, hparts⟩ := hi.chats p (List.mem_of_find?_eq_some hp)
    let τ : Server := { σ with chats := σ.chats.filter (·.conn ≠ p.conn) }
    obtain ⟨σ'', hσ⟩ : ∃ σ'', chatSendForward env (τ.append (τ.touched p.session)) p.stream
        p.session p.pkt p.recipient = .ok σ'' := ParsingLemmas.chatSendForward_isOk hlen hparts
    have hres : resumeChat env σ p = σ'' := by
      unfold resumeChat
      dsimp only
      rw [hσ]
      rfl
    rw [hres]
    have hτ : Adds (fun e => ∀ r, e ≠ .outOfRange r) τ σ'' :=
      proper (adds_trans adds_touched (chatForward_adds hσ))
    exact adds_trans (adds_congr adds_refl rfl) hτ
  | _ => exact other rfl (by simp)

end CompletePacketLemmas

/-- With packets of clients only, whatever their users and the schedule do, no handler reads outside
a packet and no name is copied beyond its field. -/
theorem honest_traffic {env : Env} {acts : List Action} {σ : Server}
    (hP : RunMeets env HonestClients acts) (h : serverRun env acts = some σ) :
    (∀ e, .outOfRange e ∉ σ.trace) ∧ NamesFit σ := by
  have hinside : Inside σ := run_invariant (fun _ _ _ hi hp hs => inside_step hi hp hs)
    (⟨nofun, nofun⟩ : Inside .init) hP h
  exact ⟨hinside.trace, namesFit_run (Along.mono (fun _ _ => shortName_honest) hP) h⟩

/-- The AUTH_REQ of `clientLogin`. -/
def clientAuthReq : Packet :=
  ⟨1, .authReq ⟨3, (Buf.zero 32).store [97, 98, 99], Buf.zero 32, 32, (Buf.zero 32).bytes⟩⟩

/-- `clientLogin`, on the server. -/
def clientLoginServed : List Action :=
  [.connected 0, .streamOpened 0 0, .received 0 Client.helloPacket.bytes,
    .received 0 clientAuthReq.bytes] ++ List.replicate 11 .worker

theorem honest_clientLogin : ∃ σ, serverRun (.fair abcUsers) clientLoginServed = some σ ∧
    (σ.session 0).state = .connEstablished ∧ (∀ e, .outOfRange e ∉ σ.trace) ∧ NamesFit σ := by
  obtain ⟨m, hm, hsent⟩ := run_reaches (ClientMain.step (.fair .zeroKeys)) .init clientLogin
    (fun m => m.client.attempts = [Client.helloPacket, clientAuthReq]) (by decide +kernel)
  obtain ⟨σ, hr, hst⟩ := serverRun_reaches (.fair abcUsers) clientLoginServed
    (fun σ => (σ.session 0).state = .connEstablished) (by decide +kernel)
  have from_client : ∀ p ∈ m.client.attempts, FromClient p.bytes :=
    fun p hp => ⟨_, _, m, hm, p, hp, rfl⟩
  rw [hsent] at from_client
  refine ⟨σ, hr, hst, honest_traffic (along_of_mem (fun _ a ha data hd => ?_) _) hr⟩
  simp only [clientLoginServed, List.mem_append, List.mem_cons, List.not_mem_nil, or_false,
    List.mem_replicate] at ha
  rcases ha with (rfl | rfl | rfl | rfl) | ⟨_, rfl⟩
  · cases hd
  · cases hd
  · cases hd
    exact from_client _ List.mem_cons_self
  · cases hd
    exact from_client _ (List.mem_cons_of_mem _ List.mem_cons_self)
  · cases hd

end SquimpChat
