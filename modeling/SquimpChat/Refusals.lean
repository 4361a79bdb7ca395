import SquimpChat.LoginAgreement

/-!
# Refusals

The server answers a message that its session's state does not allow with an ERROR
UNEXPECTED_MSG, and a HELLO without a version it knows with VERSION_MISMATCH. The client's program
keeps to the order the server asks for: each of its packets leaves when the server's session has
come to the state for it, and the session is still there when the packet arrives. Only the client's
BYE takes the session further, and the main thread may be in the chat loop when the receiving
thread sends it.

Results:
1. `never_refused`: no packet of the client is refused before the server has received its BYE.
-/

namespace SquimpChat
open Octets Transition Lossless RelayLemmas SessionIdLemmas StepLemmas
  LoginAgreementLemmas

/-! ## 1. Polite answers -/

/-- An ERROR that says the packet should not have been sent. -/
def Packet.refuses (p : Packet) : Bool :=
  match p.msg with
  | .error m => m.errorCode = ErrorCode.unexpectedMsg.code ∨
      m.errorCode = ErrorCode.versionMismatch.code
  | _ => false

/-- Nothing is refused on any stream. -/
def Polite (_ : StreamId) (p : Packet) : Prop := p.refuses = false

/-- Nothing is refused on the stream. -/
def PoliteOn (st st' : StreamId) (p : Packet) : Prop := st' = st → p.refuses = false

namespace RefusalLemmas

variable {env : Env} {σ σ' : Server} {st st' r : StreamId} {s : SessionId} {pkt : Bytes}
  {Q R : StreamId → Packet → Prop}

theorem sends_mono (hQ : ∀ st p, Q st p → R st p) (h : Sends Q σ σ') : Sends R σ σ' := by
  obtain ⟨es, htr, hes⟩ := h
  exact ⟨es, htr, fun st p l ok he => hQ st p (hes st p l ok he)⟩

theorem politeOn_of_polite (h : Sends Polite σ σ') : Sends (PoliteOn st) σ σ' :=
  sends_mono (fun _ _ h _ => h) h

/-! ### Handlers in their state -/

theorem hello_polite (hst : (σ.session s).state = .hello)
    (h : sqmpProcessHello env σ st s Client.helloPacket.bytes = .ok σ') : Sends Polite σ σ' := by
  have hst' : ¬ ((σ.append (σ.touched s)).session s).state ≠ .hello := not_not.mpr hst
  have hnum : Pkt.helloNumVersions Client.helloPacket.bytes = .ok 1 := by decide +kernel
  have hscan : helloScan Client.helloPacket.bytes (1 : UInt8).toNat 8 0 = .ok true := by
    decide +kernel
  unfold sqmpProcessHello at h
  dsimp only at h
  rw [if_neg hst', hnum, ok_bind, hscan, ok_bind, if_pos rfl] at h
  cases h
  rw [acceptHello_eq]
  refine ⟨_ :: σ.touched s, rfl, fun st p l ok he => ?_⟩
  rcases List.mem_cons.mp he with he | he
  · cases he
    rfl
  · cases touched_isSent _ he

theorem authReq_polite (hst : (σ.session s).state = .auth)
    (h : sqmpProcessAuthReq env σ st s pkt = .ok σ') : Sends Polite σ σ' := by
  have hst' : ¬ ((σ.append (σ.touched s)).session s).state ≠ .auth := not_not.mpr hst
  unfold sqmpProcessAuthReq at h
  dsimp only at h
  rw [if_neg hst'] at h
  obtain ⟨f, _, h⟩ := bind_eq_ok.mp h
  cases h
  obtain ⟨es, hes, he⟩ := acceptAuthReq_eq σ st s f
  rw [he]
  have hsilent : ∀ e ∈ .enqueued s :: (es ++
      .copied .authUsername f.usernameLen.toNat :: .authReq s f :: σ.touched s),
      e.isSent = false := by
    refine List.forall_mem_cons.mpr ⟨rfl, List.forall_mem_append.mpr ⟨fun e he => ?_, ?_⟩⟩
    · obtain ⟨t, _, he⟩ := hes e he
      exact touched_isSent e he
    · exact List.forall_mem_cons.mpr ⟨rfl, List.forall_mem_cons.mpr ⟨rfl, touched_isSent⟩⟩
  exact sends_congr (sends_silent hsilent) rfl

theorem error_polite {code : ErrorCode} {desc : String} (hc : code ≠ .unexpectedMsg)
    (hv : code ≠ .versionMismatch) : Sends Polite σ (sqmpSendError env σ st s code desc) := by
  refine sends_send ?_
  cases code <;> first | rfl | contradiction

theorem keyReq_polite (hst : (σ.session s).state = .connEstablished)
    (h : sqmpProcessKeyReq env σ st s pkt = .ok σ') : Sends Polite σ σ' := by
  have hst' : ¬ ((σ.append (σ.touched s)).session s).state ≠ .connEstablished := not_not.mpr hst
  unfold sqmpProcessKeyReq at h
  dsimp only at h
  rw [if_neg hst'] at h
  obtain ⟨n, _, h⟩ := bind_eq_ok.mp h
  obtain ⟨o, _, h⟩ := bind_eq_ok.mp h
  cases o with
  | none =>
    cases h
    exact sends_trans sends_touched (error_polite nofun nofun)
  | some pubkey =>
    dsimp only at h
    split at h
    · obtain ⟨sid, _, h⟩ := bind_eq_ok.mp h
      obtain ⟨name, _, h⟩ := bind_eq_ok.mp h
      cases h
      refine sends_trans sends_touched (sends_trans (sends_silent ?_) (sends_send rfl))
      simp [Event.isSent]
    · cases h
      exact sends_trans sends_touched sends_noMemory

theorem chatForward_polite {r : StreamId} (h : chatSendForward env σ st s pkt r = .ok σ') :
    Sends Polite σ σ' := by
  obtain ⟨_, _, h⟩ := bind_eq_ok.mp h
  split at h
  · obtain ⟨sid, _, h⟩ := bind_eq_ok.mp h
    obtain ⟨m, _, h⟩ := bind_eq_ok.mp h
    cases h
    have hsent : Sends Polite σ (sqmpStreamSend env
        (σ.append [.copied .deliverSender m.senderLen.toNat]) r ⟨sid, .chatDeliver m⟩) :=
      sends_trans (sends_silent (by simp [Event.isSent])) (sends_send rfl)
    unfold forwardChat
    dsimp only
    split
    · exact hsent
    · exact sends_trans hsent (error_polite (by decide) (by decide))
  · cases h
    exact sends_noMemory

theorem chatHead_polite {k : Server → StreamId → Except OutOfRange Server}
    (hst : (σ.session s).state = .connEstablished)
    (hk : ∀ r, k (σ.append (σ.touched s)) r = .ok σ' → Sends Polite (σ.append (σ.touched s)) σ')
    (h : chatSendHead env σ st s pkt k = .ok σ') : Sends Polite σ σ' := by
  have hst' : ¬ ((σ.append (σ.touched s)).session s).state ≠ .connEstablished := not_not.mpr hst
  unfold chatSendHead at h
  dsimp only at h
  rw [if_neg hst'] at h
  obtain ⟨o, _, h⟩ := bind_eq_ok.mp h
  cases o with
  | none =>
    cases h
    exact sends_trans sends_touched (error_polite nofun nofun)
  | some r => exact sends_trans sends_touched (hk r h)

theorem bye_polite : Sends Polite σ (sqmpProcessBye σ s) := by
  refine sends_congr (sends_touched (s := s)) ?_
  unfold sqmpProcessBye
  dsimp only
  split <;> rfl

/-- The session's state is the one the packet is for. -/
def Allowed (x : SessionState) (p : Packet) : Prop :=
  match p.msg with
  | .hello _ => p = Client.helloPacket ∧ x = .hello
  | .authReq _ => x = .auth
  | .keyReq _ | .chatSend _ => x = .connEstablished
  | _ => True

theorem received_polite {p : Packet} (hs : (σ.stream st).userData = some s)
    (ha : Allowed (σ.session s).state p) (h : onStreamRecv env σ st p.bytes = .ok σ') :
    Sends Polite σ σ' := by
  simp only [onStreamRecv, ClientStateLemmas.dispatch_bytes, ok_bind, withSession, hs] at h
  obtain ⟨sid, msg⟩ := p
  cases msg with
  | hello m =>
    obtain ⟨hp, hst⟩ := ha
    rw [hp] at h
    exact hello_polite hst h
  | authReq m => exact authReq_polite ha h
  | keyReq m => exact keyReq_polite ha h
  | chatSend m => exact chatHead_polite ha (fun r h => chatForward_polite h) h
  | bye =>
    cases h
    exact bye_polite
  | _ =>
    cases h
    exact sends_refl

theorem chatLookup_polite {p : Packet} (hs : (σ.stream st).userData = some s)
    (ha : Allowed (σ.session s).state p) (hd : dispatch serverHandles p.bytes = .ok (some .chatSend))
    (h : withSession σ st (fun s => suspendChat env σ st s p.bytes) = .ok σ') :
    Sends Polite σ σ' := by
  rw [withSession, hs] at h
  rw [ClientStateLemmas.dispatch_bytes] at hd
  obtain ⟨ht, _⟩ := Option.filter_eq_some_iff.mp (Except.ok.inj hd)
  obtain ⟨sid, msg⟩ := p
  cases msg with
  | chatSend m =>
    refine chatHead_polite ha (fun r h => ?_) h
    cases h
    exact sends_congr sends_refl rfl
  | _ => cases ht

/-! ### Other streams, and the main thread -/

/-- A packet on another stream is answered there, or by a CHAT_DELIVER. -/
theorem elsewhere_polite (hne : st' ≠ st) (h : onStreamRecv env σ st' pkt = .ok σ') :
    Sends (PoliteOn st) σ σ' := by
  cases hs : (σ.stream st').userData with
  | none =>
    have hnull : Sends (PoliteOn st) σ (σ.append [.nullSession]) :=
      sends_silent (by simp [Event.isSent])
    obtain ⟨o, hd⟩ := dispatch_ok serverHandles pkt
    simp only [onStreamRecv, hd, ok_bind, withSession, hs] at h
    split at h <;> cases h <;> first | exact hnull | exact sends_refl
  | some s =>
    have hown : ∀ p, Refusal (σ.session s) p → PoliteOn st st' p := fun _ _ heq => absurd heq hne
    have hchat : ∀ p : Packet, p.msg.type = .chatDeliver → ∀ r, PoliteOn st r p := by
      rintro ⟨_, msg⟩ ht r _
      cases msg <;> first | rfl | cases ht
    obtain ⟨o, hd⟩ := dispatch_ok serverHandles pkt
    simp only [onStreamRecv, hd, ok_bind, withSession, hs] at h
    split at h
    · rcases hello_sends hown h with h | ⟨_, rfl⟩
      · exact h
      · rw [acceptHello_eq]
        refine ⟨_ :: σ.touched s, rfl, fun st p l ok he => ?_⟩
        rcases List.mem_cons.mp he with he | he
        · cases he
          exact fun _ => rfl
        · cases touched_isSent _ he
    · exact authReq_sends hown h
    · exact keyReq_sends hown (fun p _ _ _ heq => absurd heq hne) h
    · refine chatHead_sends hown (fun r _ h => ?_) h
      exact chatForward_sends hown (fun p ht _ _ => hchat p ht r) h
    · cases h
      exact politeOn_of_polite bye_polite
    · cases h
      exact sends_refl

theorem main_polite {a : Action} (h : MainStep env σ a σ') : Sends Polite σ σ' := by
  obtain ⟨es, htr, hes⟩ := main_events h
  refine ⟨es, htr, fun st p l ok he => ?_⟩
  obtain ⟨_, hsent⟩ := main_packet (hes _ he)
  cases hsent with
  | authResp _ hp =>
    rw [hp]
    rfl
  | bye _ hp =>
    obtain ⟨_, msg⟩ := p
    cases msg <;> first | rfl | cases hp

theorem settle_polite {r : Except OutOfRange Server} {o : Option SessionId}
    (hr : ∀ σ', r = .ok σ' → Sends Q σ σ') : Sends Q σ (settle σ o r) := by
  cases r with
  | ok σ' => exact hr σ' rfl
  | error e =>
    refine sends_silent (List.forall_mem_cons.mpr ⟨rfl, ?_⟩)
    cases o with
    | none => nofun
    | some s => exact touched_isSent

theorem forwarded_polite {c : ConnId} (h : step env σ (.chatForward c) = some σ') :
    Sends Polite σ σ' := by
  obtain ⟨p, _, rfl⟩ := Option.map_eq_some_iff.mp h
  let τ : Server := { σ with chats := σ.chats.filter (·.conn ≠ p.conn) }
  have hτ : Sends Polite τ (resumeChat env σ p) :=
    settle_polite fun σ' h => sends_trans sends_touched (chatForward_polite h)
  exact sends_trans (sends_congr sends_refl rfl) hτ

/-- A step that receives nothing on the stream refuses nothing there. -/
theorem beside_polite {b : Action} (h : step env σ b = some σ')
    (hr : ∀ data, b ≠ .received st data) (hl : ∀ data, b ≠ .chatLookup st data) :
    Sends (PoliteOn st) σ σ' := by
  have other : b.packet = none → (∀ c, b ≠ .chatForward c) → Sends (PoliteOn st) σ σ' := by
    intro hp hc
    rcases step_cases h with h | h
    · exact callback_sends h hp hc
    · exact politeOn_of_polite (main_polite h)
  cases b with
  | received st' data =>
    obtain ⟨_, h⟩ := Option.ite_none_right_eq_some.mp h
    cases h
    exact settle_polite fun σ' h => elsewhere_polite (fun heq => hr data (by rw [heq])) h
  | chatLookup st' data =>
    have hne : st' ≠ st := fun heq => hl data (by rw [heq])
    obtain ⟨_, h⟩ := Option.ite_none_right_eq_some.mp h
    cases h
    refine settle_polite fun σ' h => ?_
    cases hs : (σ.stream st').userData with
    | none =>
      rw [withSession, hs] at h
      cases h
      exact sends_silent (by simp [Event.isSent])
    | some s =>
      rw [withSession, hs] at h
      refine chatHead_sends (fun _ _ heq => absurd heq hne) (fun r _ h => ?_) h
      cases h
      exact sends_congr (sends_touched (s := s)) rfl
  | chatForward c => exact politeOn_of_polite (forwarded_polite h)
  | _ => exact other rfl (by simp)

end RefusalLemmas

/-! ## 2. A client is welcome -/

/-- How the server's session keeps up with the client's packets. -/
structure Welcome (st : StreamId) (s : SessionId) (w : Exchange) : Prop where
  hellos : ∀ p ∈ w.client.client.attempts, p.isHello = true → p = Client.helloPacket
  waiting : (∀ p ∈ w.up.delivered, p.isHello = false) → (w.server.session s).state = .hello
  /-- before the BYE -/
  welcome : (∀ p ∈ w.up.delivered, p.isBye = false) → (w.server.session s).state ≠ .closing ∧
    ∀ p ∈ w.down.sent, p.refuses = false

namespace RefusalLemmas

variable {env : Env} {cenv : ClientEnv} {st : StreamId} {s : SessionId} {w w' : Exchange}
  {σ σ' : Server} {b : Action} {p : Packet} {up : Link Packet}

theorem isHello_iff : p.isHello = true ↔ p.msg.type = .hello := decide_eq_true_iff

/-- A packet that is not for the session's state leaves it alone. -/
theorem session_quiet (hs : (σ.stream st).userData = some s) (hh : p.isHello = false)
    (ha : p.isAuthReq = false)
    (hb : p.isBye = true → (σ.session s).state ≠ .connEstablished)
    (h : onStreamRecv env σ st p.bytes = .ok σ') : σ'.session = σ.session := by
  have answers {R : StreamId → Prop} (h : Answers σ st s R σ') : σ'.session = σ.session := by
    obtain ⟨es, rfl, _⟩ := h
    rfl
  have hd := ClientStateLemmas.dispatch_bytes serverHandles p
  simp only [onStreamRecv, hd, ok_bind, withSession, hs] at h
  obtain ⟨sid, msg⟩ := p
  cases msg with
  | hello => cases hh
  | authReq => cases ha
  | keyReq => exact answers (R := fun _ => True) (sqmpProcessKeyReq_ok h)
  | chatSend =>
    rcases chatSendHead_ok (R := fun _ => True) hd (.inl rfl) hs h
      with h | ⟨_, r, _, h⟩
    · exact answers h
    · exact answers (answers_touched.trans (chatSendForward_ok (R := fun _ => True) trivial h))
  | bye =>
    cases h
    unfold sqmpProcessBye
    dsimp only
    split
    · next hst => exact absurd hst (hb rfl)
    · rfl
  | _ =>
    cases h
    rfl

/-- Behind a packet for its state, other than BYE, the session is still open. -/
theorem not_closing (hc : LoginChange σ σ' b s) (hst : (σ.session s).state ≠ .connEstablished)
    (hst' : (σ.session s).state ≠ .closing) : (σ'.session s).state ≠ .closing := by
  cases hc with
  | kept hf _ =>
    rcases hf.state with h | ⟨h, _⟩
    · rwa [h]
    · exact absurd h hst
  | greeted _ h _ =>
    rw [h]
    nofun
  | asked _ _ _ h =>
    rw [h]
    exact hst'

/-- The client's next packet finds the session in the state it is for. -/
theorem allowed_next (hi : HandshakeInv st s w) (hw : Welcome st s w)
    (hd : w.up.deliver = some (p, up))
    (hst : (w.server.session s).state ≠ .closing) : Allowed (w.server.session s).state p := by
  have hp := deliver_attempts hi hd
  have logged : p.msg.type = .keyReq ∨ p.msg.type = .chatSend →
      (w.server.session s).state = .connEstablished := fun ht =>
    (hi.agrees.accepted (hi.client.ok (hi.client.accepted p hp ht))).state.resolve_right hst
  obtain ⟨sid, msg⟩ := p
  cases msg with
  | hello m =>
    have hone : w.up.count Packet.isHello ≤ 1 := by
      obtain ⟨_, hphase, _⟩ := hi.client.phase
      exact hi.up.countP_le.trans ((sendPhase_once hphase).1.trans (Nat.min_le_left ..))
    exact ⟨hw.hellos _ hp rfl, hw.waiting (Link.deliver_first hd rfl hone)⟩
  | authReq m =>
    have hul := unlogged_of_request hi hd rfl
    exact hul.state.resolve_left (hi.agrees.greeted (hi.client.greeted _ hp rfl).1).1
  | keyReq m => exact logged (.inl rfl)
  | chatSend m => exact logged (.inr rfl)
  | _ => trivial

/-- A packet other than HELLO does not find the session in HELLO, or leaves it there. -/
theorem quiet_in_hello (hi : HandshakeInv st s w) (hd : w.up.deliver = some (p, up))
    (hst : (w.server.session s).state = .hello) : p.isAuthReq = false := by
  by_contra ht
  have hp := deliver_attempts hi hd
  have hneeds : p.msg.needsSession = true := by
    obtain ⟨sid, msg⟩ := p
    cases msg <;> first | rfl | simp [Packet.isAuthReq, Msg.type] at ht
  exact (hi.agrees.greeted (hi.client.greeted _ hp hneeds).1).1 hst

/-! ### Steps -/

theorem hellos_step {a : MainAction} {m' : ClientMain} (hw : Welcome st s w)
    (h : w.client.step cenv a = some m') :
    ∀ p ∈ m'.client.attempts, p.isHello = true → p = Client.helloPacket := by
  intro p hp hh
  rcases clientMain_sends h with hat | ⟨q, hat, hq⟩
  · exact hw.hellos p (hat ▸ hp) hh
  · rw [hat, List.mem_append] at hp
    rcases hp with hp | hp
    · exact hw.hellos p hp hh
    · cases List.mem_singleton.mp hp
      rw [isHello_iff] at hh
      cases hq with
      | hello => rfl
      | _ => cases hh

theorem welcome_withClient {a : MainAction} {m' : ClientMain} (hw : Welcome st s w)
    (h : w.client.step cenv a = some m') : Welcome st s (w.withClient st m') := by
  have hdelivered : (w.withClient st m').up.delivered = w.up.delivered := by
    unfold Exchange.withClient
    dsimp only
    split <;> rfl
  refine ⟨hellos_step hw h, ?_, ?_⟩
  · rw [hdelivered]
    exact hw.waiting
  · rw [hdelivered]
    exact hw.welcome

/-- The server moves: `P` is what its step says of the packets on the stream. -/
theorem welcome_withServer (hw : Welcome st s w) (hsend : Sends (PoliteOn st) w.server σ' ∨
      ∃ p ∈ w.up.delivered, p.isBye = true)
    (hwait : (∀ p ∈ w.up.delivered, p.isHello = false) → (σ'.session s).state = .hello)
    (hopen : (∀ p ∈ w.up.delivered, p.isBye = false) → (σ'.session s).state ≠ .closing) :
    Welcome st s (w.withServer st σ') := by
  refine ⟨hw.hellos, hwait, fun hbye => ⟨hopen hbye, fun p hp => ?_⟩⟩
  have hbye : ∀ p ∈ w.up.delivered, p.isBye = false := hbye
  have hsend := hsend.resolve_right fun ⟨q, hq, hb⟩ => nomatch hb.symm.trans (hbye q hq)
  unfold Exchange.withServer at hp
  dsimp only at hp
  split at hp
  · rw [Link.sent_send, List.mem_append] at hp
    rcases hp with hp | hp
    · exact (hw.welcome hbye).2 p hp
    · obtain ⟨es, htr, hes⟩ := hsend
      rw [newEvents_eq htr, LoginOrderLemmas.mem_packetsOn] at hp
      exact hes st p true true hp rfl
  · exact (hw.welcome hbye).2 p hp

/-- What happens beside the client's stream neither greets the session nor closes it. -/
theorem beside_state (hi : HandshakeInv st s w) (h : step env w.server b = some σ')
    (hr : ∀ data, b ≠ .received st data) :
    ((w.server.session s).state = .hello → (σ'.session s).state = .hello) ∧
      ((w.server.session s).state ≠ .closing → (σ'.session s).state ≠ .closing) := by
  have same : (σ'.session s).state = (w.server.session s).state →
      ((w.server.session s).state = .hello → (σ'.session s).state = .hello) ∧
        ((w.server.session s).state ≠ .closing → (σ'.session s).state ≠ .closing) :=
    fun h => ⟨h.trans, fun hst => h ▸ hst⟩
  rcases step_cases h with hc | hm
  · cases hc with
    | @connected c hp =>
      have hne : s ≠ c := fun heq => (hi.wf.stream_user hi.user).2.2 (heq ▸ (hi.wf.absent c hp).1)
      exact same (by simp [hne])
    | @hello st' t _ _ _ hs | @bye st' t _ _ hs | @authReq st' t _ _ _ _ hs =>
      have hne : s ≠ t := by
        rintro rfl
        exact absurd rfl (hi.only st' hs ▸ hr _)
      exact same (by simp [acceptedState, hne])
    | streamClosed | left =>
      refine same (Server.update_proj Session.state ?_ s)
      rfl
    | _ => exact same rfl
  · rcases LoginOrderLemmas.state_main hm (s := s) with hst | ⟨hpc, hst⟩
    · exact same hst
    · refine ⟨fun hh => absurd hh (hi.ids.refers s (.inl (by rw [hpc]; rfl))), fun _ => ?_⟩
      rw [hst]
      decide

theorem lookup_session {data : Bytes}
    (h : withSession σ st (fun s => suspendChat env σ st s data) = .ok σ')
    (hd : dispatch serverHandles data = .ok (some .chatSend)) : σ'.session = σ.session := by
  unfold withSession at h
  split at h
  · cases h
    rfl
  · next hs =>
    rcases chatSendHead_ok (R := fun _ => True) hd (.inr rfl) hs h
      with ⟨es, rfl, _⟩ | ⟨_, r, _, h⟩
    · rfl
    · cases h
      rfl

/-- The reaction of the server to the client's next packet. -/
structure Reaction (st : StreamId) (s : SessionId) (w : Exchange) (p : Packet) (σ' : Server) :
    Prop where
  sends : Allowed (w.server.session s).state p → Sends (PoliteOn st) w.server σ'
  waits : p.isHello = false → (w.server.session s).state = .hello → (σ'.session s).state = .hello
  stays : p.isBye = false → Allowed (w.server.session s).state p →
    (w.server.session s).state ≠ .closing → (σ'.session s).state ≠ .closing

theorem received_reaction (hi : HandshakeInv st s w) (hd : w.up.deliver = some (p, up))
    (h : step env w.server (.received st p.bytes) = some σ') : Reaction st s w p σ' := by
  have hstep := step_cases h
  obtain ⟨_, h⟩ := Option.ite_none_right_eq_some.mp h
  cases h
  cases hr : onStreamRecv env w.server st p.bytes with
  | error e =>
    refine ⟨fun _ => settle_polite nofun, fun _ => id, fun _ _ => id⟩
  | ok σ' =>
    rw [hr] at hstep
    refine ⟨fun ha => politeOn_of_polite (received_polite hi.user ha hr), fun hh hst => ?_,
      fun hb ha hst => ?_⟩
    · have ha := quiet_in_hello hi hd hst
      have hq : σ'.session = w.server.session :=
        session_quiet hi.user hh ha (fun _ => by rw [hst]; nofun) hr
      show (σ'.session s).state = .hello
      rw [hq, hst]
    · show (σ'.session s).state ≠ .closing
      by_cases hq : p.isHello = false ∧ p.isAuthReq = false
      · rw [session_quiet hi.user hq.1 hq.2 (fun h => nomatch hb.symm.trans h) hr]
        exact hst
      · have hchange : LoginChange w.server σ' (.received st p.bytes) s :=
          login_change hi.wf hi.user (hstep.resolve_right nofun)
        refine not_closing hchange ?_ hst
        obtain ⟨sid, msg⟩ := p
        cases msg with
        | hello =>
          rw [ha.2]
          nofun
        | authReq =>
          rw [show (w.server.session s).state = .auth from ha]
          nofun
        | _ => exact absurd ⟨rfl, rfl⟩ hq

theorem lookup_reaction (hi : HandshakeInv st s w)
    (h : step env w.server (.chatLookup st p.bytes) = some σ') : Reaction st s w p σ' := by
  obtain ⟨hmay, h⟩ := Option.ite_none_right_eq_some.mp h
  cases h
  simp only [Bool.and_eq_true, decide_eq_true_eq] at hmay
  cases hr : withSession w.server st fun s => suspendChat env w.server st s p.bytes with
  | error e =>
    refine ⟨fun _ => settle_polite nofun, fun _ => id, fun _ _ => id⟩
  | ok σ' =>
    have hq : σ'.session = w.server.session := lookup_session hr hmay.2
    refine ⟨fun ha => politeOn_of_polite (chatLookup_polite hi.user ha hmay.2 hr), fun _ hst => ?_,
      fun _ _ hst => ?_⟩
    · show (σ'.session s).state = .hello
      rw [hq, hst]
    · show (σ'.session s).state ≠ .closing
      rwa [hq]

theorem welcome_received (hi : HandshakeInv st s w) (hw : Welcome st s w)
    (hd : w.up.deliver = some (p, up)) (hr : Reaction st s w p σ') :
    Welcome st s (({ w with up } : Exchange).withServer st σ') := by
  have hdel : up.delivered = w.up.delivered ++ [p] := (Link.deliver_eq hd).2
  have split : ∀ f : Packet → Bool, (∀ q ∈ up.delivered, f q = false) →
      (∀ q ∈ w.up.delivered, f q = false) ∧ f p = false := fun f h => by
    rw [hdel] at h
    exact ⟨fun q hq => h q (List.mem_append_left _ hq), h p List.mem_concat_self⟩
  have hup : Welcome st s { w with up } :=
    ⟨hw.hellos, fun h => hw.waiting (split _ h).1, fun h => hw.welcome (split _ h).1⟩
  refine welcome_withServer hup ?_ (fun hh => ?_) fun hb => ?_
  · by_cases hbye : ∃ q ∈ up.delivered, q.isBye = true
    · exact .inr hbye
    · have hb : ∀ q ∈ up.delivered, q.isBye = false := fun q hq => by
        simpa using fun h => hbye ⟨q, hq, h⟩
      exact .inl (hr.sends (allowed_next hi hw hd (hw.welcome (split _ hb).1).1))
  · obtain ⟨hh, hp⟩ := split _ hh
    exact hr.waits hp (hw.waiting hh)
  · obtain ⟨hb, hp⟩ := split _ hb
    have hst := (hw.welcome hb).1
    exact hr.stays hp (allowed_next hi hw hd hst) hst

theorem welcome_step {a : ExchangeAction} (hi : HandshakeInv st s w) (hw : Welcome st s w)
    (h : w.step env cenv st a = some w') : Welcome st s w' := by
  cases a with
  | client b =>
    obtain ⟨_, h⟩ := Option.ite_none_right_eq_some.mp h
    obtain ⟨m', hm, rfl⟩ := Option.map_eq_some_iff.mp h
    exact welcome_withClient hw hm
  | server b =>
    obtain ⟨hmay, h⟩ := Option.ite_none_right_eq_some.mp h
    obtain ⟨σ', hσ, rfl⟩ := Option.map_eq_some_iff.mp h
    have hrecv : ∀ data, b ≠ .received st data := by
      rintro data rfl
      simp [Exchange.serverMay] at hmay
    have hlook : ∀ data, b ≠ .chatLookup st data := by
      rintro data rfl
      simp [Exchange.serverMay] at hmay
    obtain ⟨hhello, hclosing⟩ := beside_state hi hσ hrecv
    exact welcome_withServer hw (.inl (beside_polite hσ hrecv hlook))
      (fun h => hhello (hw.waiting h)) fun h => hclosing (hw.welcome h).1
  | toServer split =>
    obtain ⟨⟨p, up⟩, hd, h⟩ := Option.bind_eq_some_iff.mp h
    obtain ⟨σ', hσ, rfl⟩ := Option.map_eq_some_iff.mp h
    refine welcome_received hi hw hd ?_
    cases split with
    | true => exact lookup_reaction hi hσ
    | false => exact received_reaction hi hd hσ
  | toClient =>
    obtain ⟨⟨p, down⟩, hd, h⟩ := Option.bind_eq_some_iff.mp h
    obtain ⟨m', hm, rfl⟩ := Option.map_eq_some_iff.mp h
    have hw' : Welcome st s { w with down } := ⟨hw.hellos, hw.waiting, fun hb =>
      (hw.welcome hb).imp_right fun h q hq => h q (Link.sent_deliver hd ▸ hq)⟩
    exact welcome_withClient hw' hm

theorem welcome_init (h : AtConnect env st s w) : Welcome st s w := by
  refine ⟨?_, fun _ => h.state, fun _ => ⟨?_, ?_⟩⟩
  · rw [h.client]
    nofun
  · rw [h.state]
    nofun
  · rw [h.down]
    nofun

end RefusalLemmas
open RefusalLemmas

/-- From the connection on, whatever the schedule, the user and the other clients do: the server
refuses no packet of the client's program before it has received the client's BYE. -/
theorem never_refused (env : Env) (cenv : ClientEnv) (st : StreamId) (s : SessionId)
    (w₀ w : Exchange) (h₀ : AtConnect env st s w₀) (acts : List ExchangeAction)
    (hP : Along (Exchange.step env cenv st) (OneStream s) w₀ acts)
    (hr : run (Exchange.step env cenv st) w₀ acts = some w)
    (hbye : ∀ p ∈ w.up.delivered, p.isBye = false) : ∀ p ∈ w.down.sent, p.refuses = false := by
  have hi : HandshakeInv st s w ∧ Welcome st s w :=
    run_invariant (I := fun w => HandshakeInv st s w ∧ Welcome st s w)
      (fun _ _ _ hi hp h => ⟨handshake_step hi.1 hp h, welcome_step hi.1 hi.2 h⟩)
      ⟨handshake_init h₀, welcome_init h₀⟩ hP hr
  exact (hi.2.welcome hbye).2

theorem never_refused_exchangeLogin : ∃ w₀ w acts, exchangeRun exchangeConnect = some w₀ ∧
    AtConnect (.fair abcUsers) 0 0 w₀ ∧
    run (Exchange.step (.fair abcUsers) zeroKeys 0) w₀ acts = some w ∧
    w.down.sent.map (·.msg.type) = [.helloAck, .authResp] ∧
    ∀ p ∈ w.down.sent, p.refuses = false := by
  obtain ⟨w, hr, hsent, hbye⟩ := run_reaches (Exchange.step (.fair abcUsers) zeroKeys 0) .init
    exchangeLogin (fun w => w.down.sent.map (·.msg.type) = [.helloAck, .authResp] ∧
      ∀ p ∈ w.up.delivered, p.isBye = false) (by decide +kernel)
  obtain ⟨w₀, hr₀, h₀, hr, hone⟩ := exchangeLogin_split hr
  exact ⟨w₀, w, _, hr₀, h₀, hr, hsent,
    never_refused (.fair abcUsers) zeroKeys 0 0 w₀ w h₀ _ hone hr hbye⟩

end SquimpChat
