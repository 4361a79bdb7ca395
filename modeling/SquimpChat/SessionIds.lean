import SquimpChat.LoginOrder

/-!
# Session ids on the wire

HELLO_ACK assigns a session its id, and every packet has a session id in its header. ERROR,
AUTH_RESP and the BYE of `sqmp_send_bye` take it from the session of the stream. KEY_RESP and
CHAT_DELIVER copy the header of the packet they answer or forward, which is the client's own
choice, and of CHAT_DELIVER not even the recipient's; `sqmp_registry_send_bye_all` leaves it 0.

Results:
1. `idsConsistent_iff`: the packets on every stream carry the id of its session's HELLO_ACK in
   exactly the runs in which every copied id is that of the session it is sent to.
2. `farewell_id`: a login and the stop of the server.
-/

namespace SquimpChat
open Octets Transition StepLemmas

variable (env : Env) (σ : Server)

/-! ## 1. Ids -/

/-- Behind the HELLO_ACK of a session, every packet on its streams carries the id given there. -/
def IdsConsistent : Prop :=
  ∀ later earlier st₀ id m l₀ ok₀,
    σ.trace = later ++ .sent st₀ ⟨id, .helloAck m⟩ l₀ ok₀ :: earlier →
    ∀ st p l ok, .sent st p l ok ∈ later → (σ.stream st).userData = (σ.stream st₀).userData →
      p.sessionId = id

/-- The id is that of the stream's session, when this has one. -/
def OwnId (st : StreamId) (id : UInt32) : Prop :=
  ∀ s ∈ (σ.stream st).userData, (σ.session s).state ≠ .hello → id = (σ.session s).sessionId

/-- The allocation of the handler's answer succeeds. -/
def allocates (s : SessionId) : Bool := env.malloc (σ.append (σ.touched s)).trace.length

/-- The KEY_REQ is answered with a KEY_RESP. -/
def answersKey (s : SessionId) (pkt : Bytes) : Bool :=
  (σ.session s).state = .connEstablished && allocates env σ s &&
  match Pkt.keyReqUsernameLen pkt with
  | .ok n =>
    match sqmpRegistryGetPubkey σ.registry (Pkt.keyReqUsername pkt n.toNat) n with
    | .ok (some _) => true
    | _ => false
  | .error _ => false

/-- The stream the lookup of a CHAT_SEND finds. -/
def chatStream (s : SessionId) (pkt : Bytes) : Option StreamId :=
  if (σ.session s).state = .connEstablished then
    match chatSendLookup σ pkt with
    | .ok o => o
    | .error _ => none
  else none

/-- The CHAT_DELIVER is built and sent. -/
def forwards (s : SessionId) (pkt : Bytes) : Bool :=
  allocates env σ s && (chatDeliverMsg (σ.session s) pkt).isOk

/-- A packet whose id is not taken from a session: its stream and the id. -/
def looseId : Action → Option (StreamId × UInt32)
  | .received st data => (σ.stream st).userData.bind fun s =>
    match dispatch serverHandles data with
    | .ok (some .keyReq) =>
      if answersKey env σ s data then (Pkt.sessionId data).toOption.map (st, ·) else none
    | .ok (some .chatSend) => (chatStream σ s data).bind fun r =>
      if forwards env σ s data then (Pkt.sessionId data).toOption.map (r, ·) else none
    | _ => none
  | .chatForward c => (σ.chats.find? (·.conn = c)).bind fun p =>
    if forwards env σ p.session p.pkt then (Pkt.sessionId p.pkt).toOption.map (p.recipient, ·)
    else none
  | .worker =>
    match σ.pc with
    | .farewell i => if i < registryMax then (σ.registry.streamAt i).map (·, 0) else none
    | _ => none
  | _ => none

/-- Such an id is that of the session it is sent to. -/
def CopiesOwn (a : Action) : Prop := ∀ q ∈ looseId env σ a, OwnId σ q.1 q.2

instance (st : StreamId) (id : UInt32) : Decidable (OwnId σ st id) :=
  inferInstanceAs (Decidable (∀ _ ∈ _, _ → _))

instance (a : Action) : Decidable (CopiesOwn env σ a) :=
  inferInstanceAs (Decidable (∀ _ ∈ _, _))

/-- An ERROR to the session, or the BYE when it has no supported version. -/
structure Refusal (x : Session) (p : Packet) : Prop where
  type : p.msg.type = .error ∨ p.msg.type = .bye ∧ x.state = .hello
  id : p.sessionId = x.sessionId

/-- The packets a step sends, other than HELLO_ACK. -/
inductive SentAs (a : Action) (st : StreamId) (p : Packet) : Prop
  | refusal {s : SessionId} (hs : (σ.stream st).userData = some s) (hp : Refusal (σ.session s) p)
  | authResp {s : SessionId} {ok : Bool} (hpc : σ.pc = .responding s st ok)
      (hp : p = authRespPacket (σ.session s) ok)
  | copied (hq : looseId env σ a = some (st, p.sessionId))
      (hm : p.msg.type = .keyResp ∨ p.msg.type = .chatDeliver)
  | farewell {i : Nat} (ha : a = .worker) (hpc : σ.pc = .farewell i) (hi : i < registryMax)
      (hst : σ.registry.streamAt i = some st) (hp : p = ⟨0, .bye⟩)

variable {env σ}
variable {σ' : Server} {a : Action}

def Event.isSent : Event → Bool
  | sent .. => true
  | _ => false

/-- What is sent between two states is `Q`. -/
def Sends (Q : StreamId → Packet → Prop) (σ σ' : Server) : Prop :=
  ∃ es, σ'.trace = es ++ σ.trace ∧ ∀ st p l ok, .sent st p l ok ∈ es → Q st p

/-- A packet with the id is sent on the stream. -/
def SendsId (st : StreamId) (id : UInt32) (σ σ' : Server) : Prop :=
  ∃ es p l ok, σ'.trace = es ++ σ.trace ∧ .sent st p l ok ∈ es ∧ p.sessionId = id

/-- The step sends the session its HELLO_ACK, and nothing else. -/
def Acks (σ σ' : Server) (s : SessionId) : Prop :=
  ∃ st m l ok, (σ.stream st).userData = some s ∧ (σ.session s).state = .hello ∧
    σ'.trace = .sent st ⟨σ.nextSessionId, .helloAck m⟩ l ok :: (σ.touched s ++ σ.trace) ∧
    (σ'.session s).state = .auth ∧ (σ'.session s).sessionId = σ.nextSessionId

namespace SessionIdLemmas

variable {Q : StreamId → Packet → Prop} {st : StreamId} {s : SessionId} {pkt : Bytes}

theorem sends_refl : Sends Q σ σ := ⟨[], rfl, nofun⟩

theorem sends_trans {τ : Server} (h : Sends Q σ τ) (h' : Sends Q τ σ') : Sends Q σ σ' := by
  obtain ⟨es, htr, hes⟩ := h
  obtain ⟨es', htr', hes'⟩ := h'
  refine ⟨es' ++ es, by rw [htr', htr, List.append_assoc], fun st p l ok he => ?_⟩
  exact (List.mem_append.mp he).elim (hes' st p l ok) (hes st p l ok)

/-- A state that differs in other fields only. -/
theorem sends_congr {τ : Server} (h : Sends Q σ τ) (htr : σ'.trace = τ.trace) : Sends Q σ σ' := by
  obtain ⟨es, htr', hes⟩ := h
  exact ⟨es, htr.trans htr', hes⟩

theorem sends_silent {es : List Event} (hes : ∀ e ∈ es, e.isSent = false) :
    Sends Q σ (σ.append es) := by
  refine ⟨es, rfl, fun st p l ok he => ?_⟩
  cases hes _ he

theorem touched_isSent : ∀ e ∈ σ.touched s, e.isSent = false := by
  intro e he
  rw [(mem_touched.mp he).2]
  rfl

theorem sends_touched : Sends Q σ (σ.append (σ.touched s)) := sends_silent touched_isSent

theorem sends_noMemory : Sends Q σ (σ.append [.noMemory]) := sends_silent (by simp [Event.isSent])

theorem sends_send {p : Packet} (hq : Q st p) : Sends Q σ (sqmpStreamSend env σ st p) := by
  refine ⟨[_], rfl, fun st' p' l ok he => ?_⟩
  cases List.mem_singleton.mp he
  exact hq

theorem sends_free : Sends Q σ (σ.free s) := by
  refine ⟨[_], rfl, fun st p l ok he => ?_⟩
  have := List.mem_singleton.mp he
  split at this <;> cases this

/-- ERROR and BYE to the stream of the session. -/
theorem sends_error {code : ErrorCode} {desc : String}
    (hown : ∀ p, Refusal (σ.session s) p → Q st p) :
    Sends Q σ (sqmpSendError env σ st s code desc) :=
  sends_send (hown _ ⟨.inl rfl, rfl⟩)

/-! ### Handlers -/

section Handlers

variable (hown : ∀ p, Refusal (σ.session s) p → Q st p)
include hown

theorem hello_sends (h : sqmpProcessHello env σ st s pkt = .ok σ') : Sends Q σ σ' ∨
      (σ.session s).state = .hello ∧ σ' = acceptHello env (σ.append (σ.touched s)) st s := by
  unfold sqmpProcessHello at h
  dsimp only at h
  split at h
  · cases h
    exact .inl (sends_trans sends_touched (sends_error hown))
  · next hst =>
    obtain ⟨num, _, h⟩ := bind_eq_ok.mp h
    obtain ⟨found, _, h⟩ := bind_eq_ok.mp h
    split at h
    · cases h
      exact .inr ⟨not_not.mp hst, rfl⟩
    · cases h
      refine .inl (sends_trans sends_touched (sends_trans (sends_error hown) (sends_send ?_)))
      exact hown _ ⟨.inr ⟨rfl, not_not.mp hst⟩, rfl⟩

theorem authReq_sends (h : sqmpProcessAuthReq env σ st s pkt = .ok σ') : Sends Q σ σ' := by
  unfold sqmpProcessAuthReq at h
  dsimp only at h
  split at h
  · cases h
    exact sends_trans sends_touched (sends_error hown)
  · obtain ⟨f, _, h⟩ := bind_eq_ok.mp h
    cases h
    obtain ⟨es, hes, he⟩ := acceptAuthReq_eq σ st s f
    rw [he]
    have hquiet : Sends Q σ (σ.append (.enqueued s :: (es ++
        .copied .authUsername f.usernameLen.toNat :: .authReq s f :: σ.touched s))) := by
      refine sends_silent (List.forall_mem_cons.mpr ⟨rfl, List.forall_mem_append.mpr ⟨?_, ?_⟩⟩)
      · intro e he
        obtain ⟨t, _, he⟩ := hes e he
        exact touched_isSent e he
      · exact List.forall_mem_cons.mpr ⟨rfl, List.forall_mem_cons.mpr ⟨rfl, touched_isSent⟩⟩
    exact sends_congr hquiet rfl

theorem keyReq_sends
    (hcopy : ∀ p : Packet, p.msg.type = .keyResp → answersKey env σ s pkt = true →
      Pkt.sessionId pkt = .ok p.sessionId → Q st p)
    (h : sqmpProcessKeyReq env σ st s pkt = .ok σ') : Sends Q σ σ' := by
  unfold sqmpProcessKeyReq at h
  dsimp only at h
  split at h
  · cases h
    exact sends_trans sends_touched (sends_error hown)
  · next hst =>
    obtain ⟨n, hn, h⟩ := bind_eq_ok.mp h
    obtain ⟨o, ho, h⟩ := bind_eq_ok.mp h
    cases o with
    | none =>
      cases h
      exact sends_trans sends_touched (sends_error hown)
    | some pubkey =>
      dsimp only at h
      split at h
      · next hm =>
        obtain ⟨sid, hsid, h⟩ := bind_eq_ok.mp h
        obtain ⟨name, _, h⟩ := bind_eq_ok.mp h
        cases h
        refine sends_trans sends_touched (sends_trans (sends_silent ?_) (sends_send ?_))
        · simp [Event.isSent]
        · refine hcopy _ rfl ?_ hsid
          have hst' : (σ.session s).state = .connEstablished := not_not.mp hst
          have hm' : allocates env σ s = true := hm
          have ho' : sqmpRegistryGetPubkey σ.registry (Pkt.keyReqUsername pkt n.toNat) n =
            .ok (some pubkey) := ho
          simp only [answersKey, hst', hm', hn, ho']
          rfl
      · cases h
        exact sends_trans sends_touched sends_noMemory

/-- `sqmp_process_chat_send` behind its lookup. -/
theorem chatForward_sends {r : StreamId}
    (hcopy : ∀ p : Packet, p.msg.type = .chatDeliver → forwards env σ s pkt = true →
      Pkt.sessionId pkt = .ok p.sessionId → Q r p)
    (h : chatSendForward env (σ.append (σ.touched s)) st s pkt r = .ok σ') : Sends Q σ σ' := by
  obtain ⟨_, _, h⟩ := bind_eq_ok.mp h
  split at h
  · next hm =>
    obtain ⟨sid, hsid, h⟩ := bind_eq_ok.mp h
    obtain ⟨m, hmsg, h⟩ := bind_eq_ok.mp h
    cases h
    have hmsg' : chatDeliverMsg (σ.session s) pkt = .ok m := hmsg
    have hm' : allocates env σ s = true := hm
    have hfw : forwards env σ s pkt = true := by
      simp [forwards, hm', hmsg', Except.isOk, Except.toBool]
    refine sends_trans (sends_touched (s := s)) ?_
    unfold forwardChat
    dsimp only
    have hsent : Sends Q (σ.append (σ.touched s)) (sqmpStreamSend env
        ((σ.append (σ.touched s)).append [.copied .deliverSender m.senderLen.toNat]) r
        ⟨sid, .chatDeliver m⟩) :=
      sends_trans (sends_silent (by simp [Event.isSent])) (sends_send (hcopy _ rfl hfw hsid))
    split
    · exact hsent
    · exact sends_trans hsent (sends_error hown)
  · cases h
    exact sends_trans sends_touched sends_noMemory

theorem chatHead_sends {k : Server → StreamId → Except OutOfRange Server}
    (hk : ∀ r, chatStream σ s pkt = some r → k (σ.append (σ.touched s)) r = .ok σ' → Sends Q σ σ')
    (h : chatSendHead env σ st s pkt k = .ok σ') : Sends Q σ σ' := by
  unfold chatSendHead at h
  dsimp only at h
  split at h
  · cases h
    exact sends_trans sends_touched (sends_error hown)
  · next hst =>
    obtain ⟨o, ho, h⟩ := bind_eq_ok.mp h
    cases o with
    | none =>
      cases h
      exact sends_trans sends_touched (sends_error hown)
    | some r =>
      refine hk r ?_ h
      have hst' : (σ.session s).state = .connEstablished := not_not.mp hst
      have ho' : chatSendLookup σ pkt = .ok (some r) := ho
      rw [chatStream, if_pos hst', ho']

end Handlers

/-! ### Steps -/

theorem sends_settle {r : Except OutOfRange Server} (hr : ∀ σ', r = .ok σ' → Sends Q σ σ') :
    Sends Q σ (settle σ (some s) r) := by
  cases r with
  | ok σ' => exact hr σ' rfl
  | error e =>
    exact sends_silent (List.forall_mem_cons.mpr ⟨rfl, touched_isSent⟩)

theorem acks_accept (hs : (σ.stream st).userData = some s) (hst : (σ.session s).state = .hello) :
    Acks σ (acceptHello env (σ.append (σ.touched s)) st s) s := by
  rw [acceptHello_eq]
  refine ⟨st, _, _, _, hs, hst, rfl, ?_, ?_⟩ <;> simp

theorem received_sends (hs : (σ.stream st).userData = some s)
    (h : onStreamRecv env σ st pkt = .ok σ') :
    Sends (SentAs env σ (.received st pkt)) σ σ' ∨ Acks σ σ' s := by
  obtain ⟨o, hd⟩ := dispatch_ok serverHandles pkt
  have hown : ∀ p, Refusal (σ.session s) p → SentAs env σ (.received st pkt) st p := fun p hp =>
    .refusal hs hp
  simp only [onStreamRecv, hd, ok_bind, withSession, hs] at h
  split at h
  · rcases hello_sends hown h with h | ⟨hst, rfl⟩
    · exact .inl h
    · exact .inr (acks_accept hs hst)
  · exact .inl (authReq_sends hown h)
  · refine .inl (keyReq_sends hown (fun p hm ha hid => .copied ?_ (.inl hm)) h)
    simp [looseId, hs, hd, ha, hid, Except.toOption]
  · refine .inl (chatHead_sends hown (fun r hr h => ?_) h)
    refine chatForward_sends hown (fun p hm hf hid => .copied ?_ (.inr hm)) h
    simp [looseId, hs, hd, hr, hf, hid, Except.toOption]
  · cases h
    refine .inl (sends_congr (sends_touched (s := s)) ?_)
    unfold sqmpProcessBye
    dsimp only
    split <;> rfl
  · cases h
    exact .inl sends_refl

theorem chatLookup_sends (hs : (σ.stream st).userData = some s)
    (h : suspendChat env σ st s pkt = .ok σ') :
    Sends (SentAs env σ (.chatLookup st pkt)) σ σ' := by
  refine chatHead_sends (fun p hp => .refusal hs hp) (fun r _ h => ?_) h
  cases h
  exact sends_congr (sends_touched (s := s)) rfl

theorem chatForward_step_sends (hw : Wf σ) {c : ConnId}
    (h : step env σ (.chatForward c) = some σ') : Sends (SentAs env σ (.chatForward c)) σ σ' := by
  obtain ⟨p, hp, rfl⟩ := Option.map_eq_some_iff.mp h
  obtain ⟨_, _, hs⟩ := hw.chat p (List.mem_of_find?_eq_some hp)
  let τ : Server := { σ with chats := σ.chats.filter (·.conn ≠ p.conn) }
  have hτ : Sends (SentAs env σ (.chatForward c)) τ (resumeChat env σ p) := by
    refine sends_settle fun σ' h => ?_
    refine chatForward_sends (fun q hq => .refusal hs hq)
      (fun q hm hf hid => .copied ?_ (.inr hm)) h
    have hf' : forwards env σ p.session p.pkt = true := hf
    simp [looseId, hp, hf', hid, Except.toOption]
  exact sends_trans (sends_congr sends_refl rfl) hτ

/-- The other callbacks send nothing. -/
theorem callback_sends (h : CallbackStep env σ a σ') (hp : a.packet = none)
    (hc : ∀ c, a ≠ .chatForward c) : Sends Q σ σ' := by
  have touches : ∀ {s es}, Touches σ s es → ∀ e ∈ es, e.isSent = false :=
    fun h e he => touched_isSent e (h e he)
  cases h with
  | ignored ha hes => exact sends_silent fun e he => hes e he ▸ rfl
  | answered ha hs hes =>
    obtain ⟨⟨data, rfl | rfl⟩, _⟩ := ha <;> cases hp
  | chatForward => exact absurd rfl (hc _)
  | streamClosed => exact sends_congr sends_touched rfl
  | disconnectLoad hcf hcl hq hes =>
    refine sends_congr (sends_silent fun e he => ?_) rfl
    obtain ⟨s, _, he⟩ := hes e he
    exact touched_isSent e he
  | left h hs hes => exact sends_congr (sends_silent (touches hes)) rfl
  | freed h hs hes =>
    exact sends_congr (sends_trans (sends_silent (touches hes)) sends_free) rfl
  | hello | authReq | bye | chatLookup => cases hp
  | _ => exact sends_congr sends_refl rfl

/-- The BYEs at the end come from `sqmp_registry_send_bye_all`. -/
theorem ending_sends (hend : σ.pc.isEnding = true) (h : workerStep env σ = some σ') :
    Sends (SentAs env σ .worker) σ σ' := by
  cases hpc : σ.pc
  case farewell i =>
    simp only [workerStep, hpc] at h
    split at h
    · next hi =>
      cases h
      unfold sendByeAt
      cases hst : σ.registry.streamAt i with
      | none => exact sends_congr sends_refl rfl
      | some st => exact sends_congr (sends_send (.farewell rfl hpc hi hst rfl)) rfl
    · cases h
      exact sends_congr sends_refl rfl
  case shutdown i =>
    simp only [workerStep, hpc] at h
    split at h
    · cases h
      unfold shutdownAt
      cases σ.registry.streamAt i with
      | none => exact sends_congr sends_refl rfl
      | some st =>
        refine sends_congr (sends_silent (List.forall_mem_cons.mpr ⟨?_, List.forall_mem_nil _⟩)) rfl
        rfl
    · cases h
      exact sends_congr sends_refl rfl
  case exited => simp [workerStep, hpc] at h
  all_goals
    rw [hpc] at hend
    cases hend

theorem worker_sends (h : workerStep env σ = some σ') :
    Sends (SentAs env σ .worker) σ σ' := by
  have behind : ∀ {s e e'}, e.isSent = false → e'.isSent = false →
      Sends (SentAs env σ .worker) σ (σ.append (e :: e' :: σ.touched s)) := fun he he' =>
    sends_silent (List.forall_mem_cons.mpr ⟨he, List.forall_mem_cons.mpr ⟨he', touched_isSent⟩⟩)
  cases workerStep_step h
  case test | semWait => exact sends_congr sends_refl rfl
  case unlinkNull =>
    refine sends_congr (sends_silent (List.forall_mem_cons.mpr ⟨?_, List.forall_mem_nil _⟩)) rfl
    rfl
  case unlink s _ _ =>
    exact sends_congr (sends_silent (List.forall_mem_cons.mpr ⟨rfl, touched_isSent⟩)) rfl
  case checkClosed => exact sends_congr (sends_trans sends_touched sends_free) rfl
  case verify | added | establish => exact sends_congr (behind rfl rfl) rfl
  case respond s st ok b hpc hb =>
    refine ⟨_, rfl, fun st' p l ok' he => ?_⟩
    rcases List.mem_cons.mp he with he | he
    · cases he
      exact .authResp hpc rfl
    · cases touched_isSent _ he
  case ending hend _ _ => exact ending_sends hend h
  all_goals exact sends_congr sends_touched rfl

/-- Without a session a handler call sends nothing. -/
theorem null_sends (hs : (σ.stream st).userData = none) {k : SessionId → Except OutOfRange Server} :
    Sends Q σ (settle σ none (withSession σ st k)) := by
  rw [withSession, hs]
  exact sends_silent (List.forall_mem_cons.mpr ⟨rfl, List.forall_mem_nil _⟩)

theorem received_null_sends (hs : (σ.stream st).userData = none) :
    Sends Q σ (settle σ none (onStreamRecv env σ st pkt)) := by
  obtain ⟨o, hd⟩ := dispatch_ok serverHandles pkt
  simp only [onStreamRecv, hd, ok_bind]
  split
  all_goals first | exact null_sends hs | exact sends_refl

/-- What a step sends. -/
theorem step_sends (hw : Wf σ) (h : step env σ a = some σ') :
    Sends (SentAs env σ a) σ σ' ∨ ∃ s, Acks σ σ' s := by
  have other : a.packet = none → (∀ c, a ≠ .chatForward c) → a ≠ .worker →
      Sends (SentAs env σ a) σ σ' := by
    intro hp hc hne
    rcases step_cases h with h | h
    · exact callback_sends h hp hc
    · cases h <;> first | exact absurd rfl hne | exact sends_congr sends_refl rfl
  cases a with
  | received st data =>
    simp only [step, Option.ite_none_right_eq_some, Option.some.injEq] at h
    obtain ⟨_, rfl⟩ := h
    cases hs : (σ.stream st).userData with
    | none => exact .inl (received_null_sends hs)
    | some s =>
      cases hrecv : onStreamRecv env σ st data with
      | ok σ' => exact (received_sends hs hrecv).imp_right fun h => ⟨s, h⟩
      | error e => exact .inl (sends_settle (by simp))
  | chatLookup st data =>
    simp only [step, Option.ite_none_right_eq_some, Option.some.injEq] at h
    obtain ⟨_, rfl⟩ := h
    cases hs : (σ.stream st).userData with
    | none => exact .inl (null_sends hs)
    | some s =>
      rw [withSession, hs]
      exact .inl (sends_settle fun σ' h => chatLookup_sends hs h)
  | chatForward c => exact .inl (chatForward_step_sends hw h)
  | worker => exact .inl (worker_sends h)
  | _ => exact .inl (other rfl (by simp) (by simp))

/-! ### Loose ids -/

theorem toOption_some {ε α : Type} {e : Except ε α} {x : α} (h : e.toOption = some x) :
    e = .ok x := by
  cases e with
  | error => cases h
  | ok y => exact congrArg _ (Option.some.inj h)

theorem answersKey_sends (st : StreamId) {id : UInt32} (h : answersKey env σ s pkt = true)
    (hid : Pkt.sessionId pkt = .ok id) :
    ∃ σ', sqmpProcessKeyReq env σ st s pkt = .ok σ' ∧ SendsId st id σ σ' := by
  simp only [answersKey, Bool.and_eq_true, decide_eq_true_eq] at h
  obtain ⟨⟨hst, hm⟩, h⟩ := h
  split at h
  · next n hn =>
    split at h
    · next key hkey =>
      -- the name that was found has been read
      obtain ⟨e, hfind, he⟩ := bind_eq_ok.mp hkey
      obtain ⟨e, rfl⟩ : ∃ e', e = some e' := by
        cases e with
        | none => cases he
        | some e' => exact ⟨e', rfl⟩
      obtain ⟨_, _, hname⟩ := findEntry_ok hfind
      refine ⟨sqmpStreamSend env ((σ.append (σ.touched s)).append [.copied .respUsername n.toNat])
        st ⟨id, .keyResp (keyRespMsg n e.key.2 key)⟩, ?_,
        _ :: _ :: σ.touched s, _, _, _, rfl, List.mem_cons_self, rfl⟩
      have hst' : ((σ.append (σ.touched s)).session s).state = .connEstablished := hst
      unfold sqmpProcessKeyReq
      dsimp only
      rw [if_neg (not_not.mpr hst'), hn, ok_bind]
      have hkey' : sqmpRegistryGetPubkey (σ.append (σ.touched s)).registry
        (Pkt.keyReqUsername pkt n.toNat) n = .ok (some key) := hkey
      have hm' : env.malloc (σ.append (σ.touched s)).trace.length = true := hm
      rw [hkey', ok_bind]
      dsimp only
      rw [if_pos hm', hid, ok_bind, hname, ok_bind]
    · cases h
  · cases h

theorem forwards_sends (st r : StreamId) {id : UInt32} (h : forwards env σ s pkt = true)
    (hid : Pkt.sessionId pkt = .ok id) :
    ∃ σ', chatSendForward env (σ.append (σ.touched s)) st s pkt r = .ok σ' ∧
      SendsId r id σ σ' := by
  simp only [forwards, Bool.and_eq_true] at h
  obtain ⟨hm, h⟩ := h
  cases hmsg : chatDeliverMsg (σ.session s) pkt with
  | error e =>
    rw [hmsg] at h
    cases h
  | ok m =>
    obtain ⟨n, hn, _⟩ := bind_eq_ok.mp hmsg
    have hm' : env.malloc (σ.append (σ.touched s)).trace.length = true := hm
    have hmsg' : chatDeliverMsg ((σ.append (σ.touched s)).session s) pkt = .ok m := hmsg
    refine ⟨forwardChat env (σ.append (σ.touched s)) st s r id m, ?_, ?_⟩
    · unfold chatSendForward
      rw [hn, ok_bind, if_pos hm', hid, ok_bind, hmsg', ok_bind]
    · unfold forwardChat
      dsimp only
      split
      · exact ⟨_ :: _ :: σ.touched s, _, _, _, rfl, List.mem_cons_self, rfl⟩
      · exact ⟨_ :: _ :: _ :: σ.touched s, _, _, _, rfl,
          List.mem_cons_of_mem _ List.mem_cons_self, rfl⟩

theorem chatHead_forwards {r : StreamId} {k : Server → StreamId → Except OutOfRange Server}
    (h : chatStream σ s pkt = some r) :
    chatSendHead env σ st s pkt k = k (σ.append (σ.touched s)) r := by
  unfold chatStream at h
  split at h
  · next hst =>
    split at h
    · next o ho =>
      have ho' : chatSendLookup (σ.append (σ.touched s)) pkt = .ok o := ho
      have hst' : ((σ.append (σ.touched s)).session s).state = .connEstablished := hst
      unfold chatSendHead
      dsimp only
      rw [if_neg (not_not.mpr hst'), ho', ok_bind, h]
    · cases h
  · cases h

theorem loose_sends {id : UInt32} (h : step env σ a = some σ')
    (hq : looseId env σ a = some (st, id)) : SendsId st id σ σ' := by
  cases a with
  | received st' data =>
    simp only [step, Option.ite_none_right_eq_some, Option.some.injEq] at h
    obtain ⟨_, rfl⟩ := h
    obtain ⟨s, hs, hq⟩ := Option.bind_eq_some_iff.mp hq
    rw [hs]
    split at hq
    · next hd =>
      simp only [Option.ite_none_right_eq_some, Option.map_eq_some_iff] at hq
      obtain ⟨ha, _, hid, hq⟩ := hq
      cases hq
      obtain ⟨σ', hok, hsend⟩ := answersKey_sends st ha (toOption_some hid)
      have hrecv : onStreamRecv env σ st data = .ok σ' := by
        rw [onStreamRecv, hd, ok_bind]
        show withSession σ st _ = _
        rw [withSession, hs]
        exact hok
      rwa [hrecv]
    · next hd =>
      obtain ⟨r, hr, hq⟩ := Option.bind_eq_some_iff.mp hq
      simp only [Option.ite_none_right_eq_some, Option.map_eq_some_iff] at hq
      obtain ⟨hf, _, hid, hq⟩ := hq
      cases hq
      obtain ⟨σ', hok, hsend⟩ := forwards_sends st' st hf (toOption_some hid)
      have hrecv : onStreamRecv env σ st' data = .ok σ' := by
        rw [onStreamRecv, hd, ok_bind]
        show withSession σ st' _ = _
        rw [withSession, hs]
        exact (chatHead_forwards hr).trans hok
      rwa [hrecv]
    · cases hq
  | chatForward c =>
    obtain ⟨p, hp, rfl⟩ := Option.map_eq_some_iff.mp h
    obtain ⟨p', hp', hq⟩ := Option.bind_eq_some_iff.mp hq
    obtain rfl := Option.some.inj (hp.symm.trans hp')
    simp only [Option.ite_none_right_eq_some, Option.map_eq_some_iff] at hq
    obtain ⟨hf, _, hid, hq⟩ := hq
    cases hq
    let τ : Server := { σ with chats := σ.chats.filter (·.conn ≠ p.conn) }
    have hf' : forwards env τ p.session p.pkt = true := hf
    obtain ⟨σ', hok, hsend⟩ := forwards_sends p.stream p.recipient hf'
      (toOption_some hid)
    have hres : resumeChat env σ p = σ' := by
      show settle τ (some p.session) (chatSendForward env (τ.append (τ.touched p.session)) p.stream
        p.session p.pkt p.recipient) = σ'
      rw [hok]
      rfl
    rw [hres]
    exact hsend
  | worker =>
    simp only [looseId] at hq
    split at hq
    · next i hpc =>
      simp only [Option.ite_none_right_eq_some, Option.map_eq_some_iff] at hq
      obtain ⟨hi, st', hst, hq⟩ := hq
      cases hq
      simp only [step, workerStep, hpc, if_pos hi, Option.some.injEq, sendByeAt, hst] at h
      subst h
      exact ⟨[_], _, _, _, rfl, List.mem_cons_self, rfl⟩
    · cases hq
  | _ => cases hq

end SessionIdLemmas

/-! ## 2. Greeted sessions -/

/-- The ids of the sessions are those of the HELLO_ACKs. -/
structure IdInv (σ : Server) : Prop where
  acked : ∀ st id m l ok, .sent st ⟨id, .helloAck m⟩ l ok ∈ σ.trace →
    ∃ s, (σ.stream st).userData = some s ∧ (σ.session s).state ≠ .hello ∧
      (σ.session s).sessionId = id
  greeted : ∀ s, (σ.session s).state ≠ .hello → ∃ st m l ok,
    .sent st ⟨(σ.session s).sessionId, .helloAck m⟩ l ok ∈ σ.trace ∧
      (σ.stream st).userData = some s
  refers : ∀ s, Refers σ s → (σ.session s).state ≠ .hello
  sent : ∀ st p l ok, .sent st p l ok ∈ σ.trace → (σ.stream st).life ≠ .unallocated
  held : ∀ st, Held σ st → (σ.stream st).life ≠ .unallocated
  loaded : ∀ s st, σ.pc.pending = some s → σ.pc.stream = some st →
    (σ.stream st).userData = some s

namespace SessionIdLemmas

variable {st : StreamId} {s : SessionId}

/-- A session gets an id, and leaves HELLO, by its HELLO_ACK only. -/
theorem session_callback (h : CallbackStep env σ a σ') :
    (((σ'.session s).state = .hello ↔ (σ.session s).state = .hello) ∧
        (σ'.session s).sessionId = (σ.session s).sessionId) ∨
      ((σ.conn s).phase = .absent ∧ (σ'.session s).state = .hello) ∨ Acks σ σ' s := by
  have update : ∀ {t : SessionId} {x : Session},
      (x.state = .hello ↔ (σ.session t).state = .hello) →
      x.sessionId = (σ.session t).sessionId →
        ((Function.update σ.session t x s).state = .hello ↔ (σ.session s).state = .hello) ∧
          (Function.update σ.session t x s).sessionId = (σ.session s).sessionId := by
    intro t x hx hid
    rw [Function.update_apply]
    split
    · next heq => exact heq ▸ ⟨hx, hid⟩
    · exact ⟨Iff.rfl, rfl⟩
  cases h with
  | @connected c hp =>
    rcases eq_or_ne s c with rfl | hne
    · exact .inr (.inl ⟨hp, by simp [Session.fresh]⟩)
    · exact .inl (by simp [Function.update_of_ne hne])
  | @hello st t data ok hr hs hst hok =>
    rcases eq_or_ne s t with rfl | hne
    · refine .inr (.inr ⟨st, _, _, _, hs, hst, rfl, ?_, ?_⟩) <;> simp
    · exact .inl (by simp [Function.update_of_ne hne])
  | bye hr hs hst => exact .inl (update (by simp [hst]) rfl)
  | authReq | streamClosed | left => exact .inl (update Iff.rfl rfl)
  | _ => exact .inl ⟨Iff.rfl, rfl⟩

theorem session_main (h : MainStep env σ a σ')
    (hr : ∀ s, Refers σ s → (σ.session s).state ≠ .hello) :
    ((σ'.session s).state = .hello ↔ (σ.session s).state = .hello) ∧
      (σ'.session s).sessionId = (σ.session s).sessionId := by
  cases h
  case clear t hpc =>
    rcases eq_or_ne s t with rfl | hne <;> simp [*]
  case establish t hpc =>
    have ht := hr t (.inl (by rw [hpc]; rfl))
    rcases eq_or_ne s t with rfl | hne
    · simp [Session.establish, ht]
    · simp [hne]
  all_goals exact ⟨Iff.rfl, rfl⟩

theorem stream_step (h : step env σ a = some σ') (hl : (σ.stream st).life ≠ .unallocated) :
    (σ'.stream st).userData = (σ.stream st).userData ∧ (σ'.stream st).life ≠ .unallocated := by
  rcases step_cases h with h | h
  · obtain ⟨_, hu, hlife⟩ := LoginOrderLemmas.stream_callback h hl
    refine ⟨hu, ?_⟩
    rcases hlife with hlife | hlife <;> rw [hlife]
    · exact hl
    · nofun
  · rw [StreamLifetimeLemmas.stream_main h]
    exact ⟨rfl, hl⟩

theorem user_allocated (hw : Wf σ) (hs : (σ.stream st).userData = some s) :
    (σ.stream st).life ≠ .unallocated := by
  intro hl
  rw [hw.unopened st hl] at hs
  cases hs

/-- A stream keeps its session. -/
theorem user_kept (hw : Wf σ) (h : step env σ a = some σ')
    (hu : (σ.stream st).userData = some s) : (σ'.stream st).userData = some s := by
  rw [(stream_step h (user_allocated hw hu)).1, hu]

theorem not_sentAs_ack {id : UInt32} {m : MsgHelloAck} (h : SentAs env σ a st ⟨id, .helloAck m⟩) :
    False := by
  cases h with
  | refusal _ hp => rcases hp.type with hm | ⟨hm, _⟩ <;> cases hm
  | authResp _ hp => cases hp
  | copied _ hm => rcases hm with hm | hm <;> cases hm
  | farewell _ _ _ _ hp => cases hp

/-- Packets are sent on the stream of a callback and on held streams. -/
theorem sent_stream (hw : Wf σ) (h : step env σ a = some σ') :
    ∃ es, σ'.trace = es ++ σ.trace ∧ ∀ st p l ok, .sent st p l ok ∈ es →
      (σ.stream st).life = .live ∨ Held σ st := by
  rcases step_cases h with h | h
  · obtain ⟨es, htr, hes⟩ := callback_events h
    refine ⟨es, htr, fun st p l ok he => ?_⟩
    cases (callback_packet (hes _ he)).2 with
    | reply hst _ | helloAck hst _ => exact .inl (hw.own_live hst)
    | deliver hst _ => exact .inr (hst.imp Addresses.hasStream .inl)
  · obtain ⟨es, htr, hes⟩ := main_events h
    refine ⟨es, htr, fun st p l ok he => ?_⟩
    cases (main_packet (hes _ he)).2 with
    | authResp hpc _ => exact .inr (.inr (.inr (by rw [hpc]; rfl)))
    | bye hst _ => exact .inr (.inl hst)

end SessionIdLemmas
open SessionIdLemmas

namespace IdInv

variable {st : StreamId} {s : SessionId}

theorem init : IdInv .init where
  acked _ _ _ _ _ h := nomatch h
  greeted _ h := absurd rfl h
  refers s h := absurd h (fun h => known_init s h rfl)
  sent _ _ _ _ h := nomatch h
  held st h := by
    rcases h with ⟨e, he, _⟩ | ⟨p, hp, _⟩ | h
    · simp [Server.init] at he
    · cases hp
    · cases h
  loaded _ _ h := nomatch h

/-- A session past HELLO keeps its id. -/
theorem past_hello (hi : IdInv σ) (hw : Wf σ) (h : step env σ a = some σ')
    (hs : (σ.session s).state ≠ .hello) :
    (σ'.session s).state ≠ .hello ∧ (σ'.session s).sessionId = (σ.session s).sessionId := by
  rcases step_cases h with h | h
  · rcases session_callback h (s := s) with ⟨hst, hid⟩ | ⟨hp, _⟩ | ⟨_, _, _, _, _, hst, _⟩
    · exact ⟨fun h => hs (hst.mp h), hid⟩
    · obtain ⟨st, _, _, _, _, hu⟩ := hi.greeted s hs
      exact absurd (hw.absent s hp).1 (hw.stream_user hu).2.2
    · exact absurd hst hs
  · obtain ⟨hst, hid⟩ := session_main h hi.refers (s := s)
    exact ⟨fun h => hs (hst.mp h), hid⟩

theorem greeted_step (hi : IdInv σ) (hw : Wf σ) (h : step env σ a = some σ')
    (hs : (σ'.session s).state ≠ .hello) : ∃ st m l ok,
      .sent st ⟨(σ'.session s).sessionId, .helloAck m⟩ l ok ∈ σ'.trace ∧
        (σ'.stream st).userData = some s := by
  have old : (σ.session s).state ≠ .hello → ∃ st m l ok,
      .sent st ⟨(σ'.session s).sessionId, .helloAck m⟩ l ok ∈ σ'.trace ∧
        (σ'.stream st).userData = some s := by
    intro hs
    obtain ⟨st, m, l, ok, he, hu⟩ := hi.greeted s hs
    obtain ⟨es, htr, _⟩ := sent_stream hw h
    refine ⟨st, m, l, ok, ?_, ?_⟩
    · rw [htr, (hi.past_hello hw h hs).2]
      exact List.mem_append_right _ he
    · exact user_kept hw h hu
  rcases step_cases h with hc | hm
  · rcases session_callback hc (s := s) with
      ⟨hst, _⟩ | ⟨_, hst⟩ | ⟨st, m, l, ok, hu, _, htr, _, hid⟩
    · exact old fun h => hs (hst.mpr h)
    · exact absurd hst hs
    · refine ⟨st, m, l, ok, ?_, ?_⟩
      · rw [htr, hid]
        exact List.mem_cons_self
      · exact user_kept hw h hu
  · exact old fun h => hs ((session_main hm hi.refers).1.mpr h)

theorem acked_step (hi : IdInv σ) (hw : Wf σ) (h : step env σ a = some σ') {id : UInt32}
    {m : MsgHelloAck} {l ok : Bool} (he : .sent st ⟨id, .helloAck m⟩ l ok ∈ σ'.trace) :
    ∃ s, (σ'.stream st).userData = some s ∧ (σ'.session s).state ≠ .hello ∧
      (σ'.session s).sessionId = id := by
  have old : .sent st ⟨id, .helloAck m⟩ l ok ∈ σ.trace → ∃ s, (σ'.stream st).userData = some s ∧
      (σ'.session s).state ≠ .hello ∧ (σ'.session s).sessionId = id := by
    intro he
    obtain ⟨s, hu, hs, hid⟩ := hi.acked st id m l ok he
    obtain ⟨hs', hid'⟩ := hi.past_hello hw h hs
    exact ⟨s, user_kept hw h hu, hs', by rw [hid', hid]⟩
  rcases step_sends hw h with ⟨es, htr, hes⟩ | ⟨s, st', m', l', ok', hu, hst, htr, hst', hid⟩
  · rw [htr] at he
    rcases List.mem_append.mp he with he | he
    · exact (not_sentAs_ack (hes _ _ _ _ he)).elim
    · exact old he
  · rw [htr] at he
    rcases List.mem_cons.mp he with he | he
    · cases he
      refine ⟨s, user_kept hw h hu, ?_, hid⟩
      rw [hst']
      nofun
    · rcases List.mem_append.mp he with he | he
      · cases touched_isSent _ he
      · exact old he

/-- The streams a step sends on have been opened. -/
theorem sends_opened (hi : IdInv σ) (hw : Wf σ) (h : step env σ a = some σ') :
    ∃ es, σ'.trace = es ++ σ.trace ∧
      ∀ st p l ok, .sent st p l ok ∈ es → (σ.stream st).life ≠ .unallocated := by
  obtain ⟨es, htr, hes⟩ := sent_stream hw h
  refine ⟨es, htr, fun st p l ok he => ?_⟩
  rcases hes st p l ok he with hlive | hheld
  · rw [hlive]
    nofun
  · exact hi.held st hheld

theorem step (hi : IdInv σ) (hw : Wf σ) (h : step env σ a = some σ') : IdInv σ' where
  acked st id m l ok he := hi.acked_step hw h he
  greeted s hs := hi.greeted_step hw h hs
  refers s hr := by
    refine (hi.past_hello hw h ?_).1
    rcases step_cases h with h | h
    · rcases refers_callback h hr with hr | ⟨data, hon⟩
      · exact hi.refers s hr
      · obtain ⟨_, _, _, hst⟩ := OwnershipLemmas.authReqOn_some hon
        rw [hst]
        nofun
    · exact hi.refers s (refers_main h hr)
  sent st p l ok he := by
    refine (stream_step h ?_).2
    obtain ⟨es, htr, hes⟩ := hi.sends_opened hw h
    rw [htr] at he
    rcases List.mem_append.mp he with he | he
    · exact hes st p l ok he
    · exact hi.sent st p l ok he
  held st hst := by
    refine (stream_step h ?_).2
    rcases step_cases h with h | h
    · exact hi.held st (StreamLifetimeLemmas.held_callback h hst)
    · rcases StreamLifetimeLemmas.held_main h hst with hst | ⟨s, hs⟩
      · exact hi.held st hst
      · exact ne_of_eq_of_ne (hw.authStream s st hs).1 nofun
  loaded s st hp hst := by
    refine user_kept hw h ?_
    rcases step_cases h with h | h
    · rw [callback_pc h] at hp hst
      exact hi.loaded s st hp hst
    · rcases StreamLifetimeLemmas.loaded_main h hst with hpc | ⟨t, _, ht, ha⟩
      · exact hi.loaded s st (hpc ▸ hp) (hpc ▸ hst)
      · obtain rfl := Option.some.inj (ht.symm.trans hp)
        exact (hw.authStream t st ha).2

theorem run {acts : List Action} (h : serverRun env acts = some σ) : IdInv σ :=
  run_induction init (fun _ _ _ hw _ hi _ hs => hi.step hw hs)
    (along_of_forall (fun _ _ => trivial) _ _) h

end IdInv

/-! ## 3. The law -/

namespace SessionIdLemmas

variable {st : StreamId} {s : SessionId}

/-- What a step sends carries the ids of the sessions, unless its id is loose. -/
theorem ownId_sent (hi : IdInv σ) (hP : CopiesOwn env σ a) {p : Packet} (h : SentAs env σ a st p) :
    OwnId σ st p.sessionId := by
  intro s hs hst
  cases h with
  | refusal hu hp =>
    obtain rfl := Option.some.inj (hu.symm.trans hs)
    exact hp.id
  | authResp hpc hp =>
    have hu := hi.loaded _ _ (by rw [hpc]; rfl) (by rw [hpc]; rfl)
    obtain rfl := Option.some.inj (hu.symm.trans hs)
    rw [hp]
    rfl
  | copied hq _ => exact hP _ hq s hs hst
  | farewell ha hpc hi hst' hp =>
    subst ha hp
    refine hP (st, 0) ?_ s hs hst
    simp [looseId, hpc, hi, hst']

theorem idsConsistent_init : IdsConsistent .init := by
  intro later earlier st₀ id m l₀ ok₀ htr
  simp [Server.init] at htr

/-- An event that is not among the new ones is an old one. -/
theorem split_old {α : Type} {new old later earlier : List α} {e : α}
    (h : new ++ old = later ++ e :: earlier) (he : e ∉ new) :
    ∃ mid, later = new ++ mid ∧ old = mid ++ e :: earlier := by
  rcases List.append_eq_append_iff.mp h with ⟨mid, hl, ho⟩ | ⟨mid, hn, ho⟩
  · exact ⟨mid, hl, ho⟩
  · cases mid with
    | nil => exact ⟨[], by simpa using hn.symm, by simpa using ho.symm⟩
    | cons e' mid =>
      cases ho
      exact absurd (hn ▸ List.mem_append_right _ List.mem_cons_self) he

/-- The streams of a packet that was sent keep their session. -/
theorem sent_user (hi : IdInv σ) (h : step env σ a = some σ') {p : Packet} {l ok : Bool}
    (he : .sent st p l ok ∈ σ.trace) : (σ'.stream st).userData = (σ.stream st).userData :=
  (stream_step h (hi.sent st p l ok he)).1

theorem copiesOwn_of_consistent (hi : IdInv σ) (hw : Wf σ) (h : step env σ a = some σ')
    (hc : IdsConsistent σ') : CopiesOwn env σ a := by
  rintro ⟨st, id⟩ hq s hs hst
  obtain ⟨st₀, m, l₀, ok₀, he₀, hu₀⟩ := hi.greeted s hst
  obtain ⟨later, earlier, htr₀⟩ := List.append_of_mem he₀
  obtain ⟨es, p, l, ok, htr, he, rfl⟩ := loose_sends h hq
  refine hc (es ++ later) earlier st₀ _ m l₀ ok₀ ?_ st p l ok (List.mem_append_left _ he) ?_
  · rw [htr, htr₀, List.append_assoc]
  · rw [user_kept hw h hs, sent_user hi h he₀, hu₀]

theorem consistent_of_step (hi : IdInv σ) (hw : Wf σ) (h : step env σ a = some σ')
    (hc : IdsConsistent σ') : IdsConsistent σ := by
  intro later earlier st₀ id m l₀ ok₀ htr₀ st p l ok he hu
  obtain ⟨es, htr, _⟩ := sent_stream hw h
  refine hc (es ++ later) earlier st₀ id m l₀ ok₀ ?_ st p l ok (List.mem_append_right _ he) ?_
  · rw [htr, htr₀, List.append_assoc]
  · rw [sent_user hi h (htr₀ ▸ List.mem_append_left _ he), hu,
      sent_user hi h (htr₀ ▸ List.mem_append_right _ List.mem_cons_self)]

theorem consistent_step (hi : IdInv σ) (hw : Wf σ) (h : step env σ a = some σ')
    (hc : IdsConsistent σ) (hP : CopiesOwn env σ a) : IdsConsistent σ' := by
  intro later earlier st₀ id m l₀ ok₀ htr' st p l ok he hu
  have old : ∀ mid, σ.trace = mid ++ .sent st₀ ⟨id, .helloAck m⟩ l₀ ok₀ :: earlier →
      .sent st p l ok ∈ mid → p.sessionId = id := by
    intro mid hmid he
    refine hc mid earlier st₀ id m l₀ ok₀ hmid st p l ok he ?_
    rw [← sent_user hi h (hmid ▸ List.mem_append_left _ he), hu,
      sent_user hi h (hmid ▸ List.mem_append_right _ List.mem_cons_self)]
  obtain ⟨es, htr, hopened⟩ := hi.sends_opened hw h
  -- a new packet behind an old HELLO_ACK
  have new : ∀ mid, σ.trace = mid ++ .sent st₀ ⟨id, .helloAck m⟩ l₀ ok₀ :: earlier →
      .sent st p l ok ∈ es → ∃ s, (σ.stream st).userData = some s ∧
        (σ.session s).state ≠ .hello ∧ (σ.session s).sessionId = id := by
    intro mid hmid he
    have he₀ : .sent st₀ ⟨id, .helloAck m⟩ l₀ ok₀ ∈ σ.trace :=
      hmid ▸ List.mem_append_right _ List.mem_cons_self
    obtain ⟨s, hs, hst, hid⟩ := hi.acked st₀ id m l₀ ok₀ he₀
    refine ⟨s, ?_, hst, hid⟩
    rw [← (stream_step h (hopened st p l ok he)).1, hu, sent_user hi h he₀, hs]
  rcases step_sends hw h with ⟨es', htr'', hes⟩ | ⟨s', st', m', l', ok', hu', hst', htr'', _⟩
  · obtain rfl : es = es' := List.append_cancel_right (htr.symm.trans htr'')
    obtain ⟨mid, rfl, hmid⟩ := split_old (htr.symm.trans htr') fun he =>
      not_sentAs_ack (hes _ _ _ _ he)
    rcases List.mem_append.mp he with he | he
    · obtain ⟨s, hs, hst, rfl⟩ := new mid hmid he
      exact ownId_sent hi hP (hes st p l ok he) s hs hst
    · exact old mid hmid he
  · cases later with
    | nil => cases he
    | cons e later =>
      rw [htr''] at htr'
      obtain ⟨rfl, htl⟩ := List.cons.inj htr'
      obtain ⟨mid, rfl, hmid⟩ := split_old htl fun he => nomatch touched_isSent _ he
      rcases List.mem_cons.mp he with he' | he
      · -- a second HELLO_ACK of the session
        have hes : .sent st p l ok ∈ es := by
          rw [← List.cons_append] at htr''
          rw [List.append_cancel_right (htr.symm.trans htr''), he']
          exact List.mem_cons_self
        obtain ⟨s, hs, hst, _⟩ := new mid hmid hes
        cases he'
        obtain rfl := Option.some.inj (hs.symm.trans hu')
        exact absurd hst' hst
      · rcases List.mem_append.mp he with he | he
        · cases touched_isSent _ he
        · exact old mid hmid he

end SessionIdLemmas

/-- The ids on the wire are consistent in exactly the runs in which every KEY_REQ that is answered
and every CHAT_SEND that is delivered carries the id of the session its answer goes to, and the
server is stopped with no registered stream of another id than 0. -/
theorem idsConsistent_iff (env : Env) (acts : List Action) (σ : Server)
    (h : serverRun env acts = some σ) :
    IdsConsistent σ ↔ RunMeets env (CopiesOwn env) acts := by
  have hinv : ∀ σ a σ', (Wf σ ∧ Known σ) ∧ IdInv σ → step env σ a = some σ' →
      (Wf σ' ∧ Known σ') ∧ IdInv σ' := fun _ _ _ ⟨⟨hw, hk⟩, hi⟩ hs =>
    ⟨step_wf hs hw hk, hi.step hw hs⟩
  have hstep : ∀ σ a σ', (Wf σ ∧ Known σ) ∧ IdInv σ → step env σ a = some σ' →
      (IdsConsistent σ' ↔ IdsConsistent σ ∧ CopiesOwn env σ a) := fun _ _ _ ⟨⟨hw, _⟩, hi⟩ hs =>
    ⟨fun hc => ⟨consistent_of_step hi hw hs hc, copiesOwn_of_consistent hi hw hs hc⟩,
      fun ⟨hc, hP⟩ => consistent_step hi hw hs hc hP⟩
  have hrun := run_iff_along hinv hstep ⟨⟨.init, known_init⟩, .init⟩ h
  exact hrun.trans (and_iff_right idsConsistent_init)

/-! ## 4. Concrete runs -/

/-- `abc` logs in and asks for its own key, under its session's id. -/
def ownKeyReq : List Action :=
  abcLogin ++ [.received 0 (Packet.mk 1 (.keyReq ⟨3, (Buf.zero 32).store [97, 98, 99]⟩)).bytes]

theorem idsConsistent_ownKeyReq :
    ∃ σ, serverRun (.fair abcUsers) ownKeyReq = some σ ∧ IdsConsistent σ := by
  obtain ⟨σ, hr, _⟩ := serverRun_reaches (.fair abcUsers) ownKeyReq (fun _ => True)
    (by decide +kernel)
  exact ⟨σ, hr, (idsConsistent_iff _ _ _ hr).mpr (by decide +kernel)⟩

/-- `abc` is logged in when the server is stopped: its session has the id 1. -/
def stopBehindLogin : List Action := abcLogin ++ [.signal, .worker, .worker]

theorem farewell_id : ∃ env acts σ, (∀ a ∈ acts, ∀ data ∈ a.packet, StructComplete data) ∧
    serverRun env acts = some σ ∧ (packetsOn σ.trace 0).map (fun p => (p.msg.type, p.sessionId)) =
      [(.helloAck, 1), (.authResp, 1), (.bye, 0)] ∧ ¬ IdsConsistent σ := by
  obtain ⟨σ, hr, hp, hack, hbye⟩ := serverRun_reaches (.fair abcUsers) stopBehindLogin
    (fun σ => (packetsOn σ.trace 0).map (fun p => (p.msg.type, p.sessionId)) =
        [(.helloAck, 1), (.authResp, 1), (.bye, 0)] ∧
      σ.trace.getLast? = some (.sent 0 ⟨1, .helloAck ⟨1, 65535⟩⟩ true true) ∧
      .sent 0 ⟨0, .bye⟩ true true ∈ σ.trace) (by decide +kernel)
  refine ⟨.fair abcUsers, stopBehindLogin, σ, by decide +kernel, hr, hp, fun h => ?_⟩
  obtain ⟨later, htr⟩ := List.getLast?_eq_some_iff.mp hack
  rw [htr] at hbye
  have hbye := (List.mem_append.mp hbye).resolve_right (by simp)
  have hid := h later [] 0 1 _ true true htr 0 _ true true hbye rfl
  exact absurd hid (by decide)

end SquimpChat
