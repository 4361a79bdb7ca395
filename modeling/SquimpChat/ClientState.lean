import SquimpChat.Client

/-!
# The client's session state

What the client's `session->state` depends on: of the packets a server sends, only a
HELLO_ACK and an AUTH_RESP move it, each in one state. `nextState` is that state machine,
and the handlers refine it whatever they read, print and send besides.

Results:
1. `receiveAll_state`: the client's state behind a list of packets.
2. `nextStates_established`: it is CONN_ESTABLISHED only behind an AUTH_RESP with status OK.
3. `receiveAll_discards`: a CHAT_DELIVER is discarded only in another state.
-/

namespace SquimpChat
open Octets

/-- The message tells the client that it is logged in. -/
def Msg.isLoginOk : Msg → Bool
  | .authResp m => m.status == AuthStatus.ok.code
  | _ => false

/-- The answers to HELLO and AUTH_REQ. -/
def Msg.isAnswer : Msg → Bool
  | .helloAck _ | .authResp _ => true
  | _ => false

/-- The client's state behind a message. -/
def nextState : SessionState → Msg → SessionState
  | .hello, .helloAck m => if m.selectedVersion = 1 then .auth else .hello
  | .auth, .authResp m => if m.status = AuthStatus.ok.code then .connEstablished else .auth
  | s, _ => s

/-- The client's state behind the messages, from its start. -/
def nextStates (ms : List Msg) : SessionState := ms.foldl nextState .hello

/-! ## 1. Reading the sender's packets -/

namespace ClientStateLemmas

theorem msgType_bytes (p : Packet) : Pkt.msgType p.bytes = .ok p.msg.type.code := rfl

/-- The dispatcher selects the type the sender gave the packet. -/
theorem dispatch_bytes (handles : MsgType → Bool) (p : Packet) :
    dispatch handles p.bytes = .ok ((some p.msg.type).filter handles) := by
  have hlen : ¬ p.bytes.length < pktFixedLen := by
    rw [p.length_bytes]
    omega
  rw [dispatch, if_neg hlen, msgType_bytes, ok_bind, MsgType.ofCode_code]

theorem sessionId_bytes (p : Packet) : Pkt.sessionId p.bytes = .ok p.sessionId := by
  have h : readU32 ([1, p.msg.type.code, 0] ++ (leBytes 4 p.sessionId.toNat ++
      ([0, 0, 0, 0, 0] ++ p.msg.bytes))) 3 = .ok p.sessionId := readU32_append rfl
  simpa [Pkt.sessionId, Packet.bytes, header] using h

/-- The first byte of the message stands behind the header. -/
theorem readU8_message {p : Packet} {b : UInt8} {rest : Bytes} (h : p.msg.bytes = b :: rest) :
    readU8 p.bytes 12 = .ok b := by
  rw [Packet.bytes, h]
  exact readU8_append (length_header ..)

end ClientStateLemmas
open ClientStateLemmas

/-! ## 2. The state behind a packet -/

namespace ClientStateLemmas

variable {env : ClientEnv} {c c' : Client} {data : Bytes}

theorem sqmpProcessChatDeliver_ok (h : c.sqmpProcessChatDeliver env data = .ok c') :
    c'.session = c.session ∧ (c'.trace = .unexpected .chatDeliver c.session.state :: c.trace ∧
      c.session.state ≠ .connEstablished ∨
      ∃ sender text, c'.trace = .chat sender text :: c.trace) := by
  unfold Client.sqmpProcessChatDeliver at h
  split at h
  · next hst =>
    cases h
    exact ⟨rfl, .inl ⟨rfl, hst⟩⟩
  · obtain ⟨n, _, h⟩ := bind_eq_ok.mp h
    obtain ⟨sender, _, h⟩ := bind_eq_ok.mp h
    obtain ⟨text, _, h⟩ := bind_eq_ok.mp h
    cases h
    exact ⟨rfl, .inr ⟨sender, text, rfl⟩⟩

theorem sqmpProcessKeyResp_ok (h : c.sqmpProcessKeyResp data = .ok c') :
    ∃ key, c' = c.postKey key := by
  obtain ⟨n, _, h⟩ := bind_eq_ok.mp h
  split at h
  · obtain ⟨key, _, h⟩ := bind_eq_ok.mp h
    cases h
    exact ⟨key, rfl⟩
  · cases h
    exact ⟨_, rfl⟩

theorem sqmpProcessError_ok (h : c.sqmpProcessError data = .ok c') :
    ∃ code desc, c' = if code = ErrorCode.userNotFound.code
      then (c.log (.error code desc)).postKey (Buf.zero 32) else c.log (.error code desc) := by
  obtain ⟨code, _, h⟩ := bind_eq_ok.mp h
  obtain ⟨n, _, h⟩ := bind_eq_ok.mp h
  obtain ⟨desc, _, h⟩ := bind_eq_ok.mp h
  refine ⟨code, desc, ?_⟩
  dsimp only at h
  split at h
  · next he =>
    cases h
    exact (if_pos he).symm
  · next he =>
    cases h
    exact (if_neg he).symm

theorem nextState_other {s : SessionState} {m : Msg} (h : m.isAnswer = false) :
    nextState s m = s := by
  cases m with
  | helloAck | authResp => cases h
  | _ => cases s <;> rfl

/-- The effect of a packet on the state, and what it leaves about discarded messages. -/
theorem onStreamRecv_bytes {p : Packet} (h : c.onStreamRecv env p.bytes = .ok c') :
    c'.session.state = nextState c.session.state p.msg ∧
      ∀ s, .unexpected .chatDeliver s ∈ c'.trace → .unexpected .chatDeliver s ∈ c.trace ∨
        p.msg.type = .chatDeliver ∧ c.session.state ≠ .connEstablished := by
  rw [Client.onStreamRecv, dispatch_bytes, ok_bind] at h
  obtain ⟨sid, msg⟩ := p
  cases msg with
  | helloAck m =>
    have hv : Pkt.helloAckSelectedVersion (Packet.mk sid (.helloAck m)).bytes =
      .ok m.selectedVersion := readU8_message rfl
    have h : c.sqmpProcessHelloAck (Packet.mk sid (.helloAck m)).bytes = .ok c' := h
    rw [Client.sqmpProcessHelloAck, hv, sessionId_bytes, ok_bind, ok_bind] at h
    split at h
    · next hst =>
      cases h
      refine ⟨?_, fun s hs => .inl ((List.mem_cons.mp hs).resolve_left nofun)⟩
      show c.session.state = nextState c.session.state (.helloAck m)
      cases hc : c.session.state <;> first | rfl | exact absurd hc hst
    · next hst =>
      rw [not_not.mp hst]
      split at h <;> cases h
      · next hne =>
        refine ⟨?_, fun s hs => .inl ((List.mem_cons.mp hs).resolve_left nofun)⟩
        exact (not_not.mp hst).trans (if_neg hne).symm
      · next heq => exact ⟨(if_pos (not_not.mp heq)).symm, fun s hs => .inl hs⟩
  | authResp m =>
    have hv : Pkt.authRespStatus (Packet.mk sid (.authResp m)).bytes = .ok m.status :=
      readU8_message rfl
    have h : c.sqmpProcessAuthResp (Packet.mk sid (.authResp m)).bytes = .ok c' := h
    rw [Client.sqmpProcessAuthResp, hv, ok_bind] at h
    split at h
    · next hst =>
      rw [hst]
      split at h <;> cases h
      · next hok => exact ⟨(if_pos hok).symm, fun s hs => .inl hs⟩
      · next hok =>
        refine ⟨?_, fun s hs => .inl ((List.mem_cons.mp hs).resolve_left nofun)⟩
        exact hst.trans (if_neg hok).symm
    · next hst =>
      cases h
      refine ⟨?_, fun s hs => .inl ((List.mem_cons.mp hs).resolve_left nofun)⟩
      show c.session.state = nextState c.session.state (.authResp m)
      cases hc : c.session.state <;> first | rfl | exact absurd hc hst
  | keyResp m =>
    obtain ⟨key, rfl⟩ := sqmpProcessKeyResp_ok h
    exact ⟨(nextState_other rfl).symm, fun s hs => .inl hs⟩
  | error m =>
    obtain ⟨code, desc, rfl⟩ := sqmpProcessError_ok h
    rw [nextState_other rfl]
    split
    · exact ⟨rfl, fun s hs => .inl ((List.mem_cons.mp hs).resolve_left nofun)⟩
    · exact ⟨rfl, fun s hs => .inl ((List.mem_cons.mp hs).resolve_left nofun)⟩
  | chatDeliver m =>
    obtain ⟨hsession, htr⟩ := sqmpProcessChatDeliver_ok h
    rw [nextState_other rfl, hsession]
    refine ⟨rfl, fun s hs => ?_⟩
    rcases htr with ⟨htr, hst⟩ | ⟨sender, text, htr⟩
    · exact .inr ⟨rfl, hst⟩
    · rw [htr] at hs
      exact .inl ((List.mem_cons.mp hs).resolve_left nofun)
  | bye =>
    cases h
    refine ⟨(nextState_other rfl).symm, fun s hs => .inl ?_⟩
    exact (List.mem_cons.mp hs).resolve_left nofun
  | hello | authReq | keyReq | chatSend =>
    cases h
    exact ⟨(nextState_other rfl).symm, fun s hs => .inl hs⟩

/-- Only a HELLO_ACK and an AUTH_RESP move the state, and these can be read. -/
theorem onStreamRecv_bytes_error {p : Packet} {e : OutOfRange}
    (h : c.onStreamRecv env p.bytes = .error e) :
    nextState c.session.state p.msg = c.session.state := by
  rw [Client.onStreamRecv, dispatch_bytes, ok_bind] at h
  obtain ⟨sid, msg⟩ := p
  cases msg with
  | helloAck m =>
    have hv : Pkt.helloAckSelectedVersion (Packet.mk sid (.helloAck m)).bytes =
      .ok m.selectedVersion := readU8_message rfl
    have h : c.sqmpProcessHelloAck (Packet.mk sid (.helloAck m)).bytes = .error e := h
    rw [Client.sqmpProcessHelloAck, hv, sessionId_bytes, ok_bind, ok_bind] at h
    split at h
    · cases h
    · split at h <;> cases h
  | authResp m =>
    have hv : Pkt.authRespStatus (Packet.mk sid (.authResp m)).bytes = .ok m.status :=
      readU8_message rfl
    have h : c.sqmpProcessAuthResp (Packet.mk sid (.authResp m)).bytes = .error e := h
    rw [Client.sqmpProcessAuthResp, hv, ok_bind] at h
    split at h
    · split at h <;> cases h
    · cases h
  | _ => exact nextState_other rfl

end ClientStateLemmas
open ClientStateLemmas

variable {env : ClientEnv}

theorem receive_state (c : Client) (p : Packet) :
    (c.receive env p.bytes).session.state = nextState c.session.state p.msg := by
  unfold Client.receive
  split
  · next h => exact (onStreamRecv_bytes h).1
  · next h => exact (onStreamRecv_bytes_error h).symm

theorem receive_discards {c : Client} {p : Packet} {s : SessionState}
    (h : .unexpected .chatDeliver s ∈ (c.receive env p.bytes).trace) :
    .unexpected .chatDeliver s ∈ c.trace ∨
      p.msg.type = .chatDeliver ∧ c.session.state ≠ .connEstablished := by
  unfold Client.receive at h
  split at h
  · next hok => exact (onStreamRecv_bytes hok).2 s h
  · exact .inl ((List.mem_cons.mp h).resolve_left nofun)

/-! ## 3. The state behind a list of packets -/

/-- The client's state follows the messages it receives. -/
theorem receiveAll_state (ps : List Packet) :
    (Client.init.receiveAll env (ps.map (·.bytes))).session.state = nextStates (ps.map (·.msg)) := by
  suffices h : ∀ (ps : List Packet) (c : Client), (c.receiveAll env (ps.map (·.bytes))).session.state =
      (ps.map (·.msg)).foldl nextState c.session.state from h ps .init
  intro ps
  induction ps with
  | nil => exact fun c => rfl
  | cons p ps ih =>
    intro c
    have h := ih (c.receive env p.bytes)
    rw [receive_state] at h
    exact h

theorem nextStates_append (ms ms' : List Msg) :
    nextStates (ms ++ ms') = ms'.foldl nextState (nextStates ms) := List.foldl_append

/-- A message moves the state one step on, or not at all. -/
theorem nextState_cases (s : SessionState) (m : Msg) : nextState s m = s ∨
    (s = .hello ∧ nextState s m = .auth) ∨
      (s = .auth ∧ m.isLoginOk = true ∧ nextState s m = .connEstablished) := by
  cases m with
  | helloAck m =>
    cases s with
    | hello =>
      by_cases h : m.selectedVersion = 1
      · exact .inr (.inl ⟨rfl, if_pos h⟩)
      · exact .inl (if_neg h)
    | _ => exact .inl rfl
  | authResp m =>
    cases s with
    | auth =>
      by_cases h : m.status = AuthStatus.ok.code
      · exact .inr (.inr ⟨rfl, beq_iff_eq.mpr h, if_pos h⟩)
      · exact .inl (if_neg h)
    | _ => exact .inl rfl
  | _ => exact .inl (nextState_other rfl)

/-- The states a client can be in behind its HELLO. -/
theorem nextStates_cases (ms : List Msg) :
    nextStates ms = .hello ∨ nextStates ms = .auth ∨ nextStates ms = .connEstablished := by
  suffices h : ∀ (ms : List Msg) (s : SessionState), s = .hello ∨ s = .auth ∨ s = .connEstablished →
      ms.foldl nextState s = .hello ∨ ms.foldl nextState s = .auth ∨
        ms.foldl nextState s = .connEstablished from h ms .hello (.inl rfl)
  intro ms
  induction ms with
  | nil => exact fun s hs => hs
  | cons m ms ih =>
    refine fun s hs => ih (nextState s m) ?_
    rcases nextState_cases s m with h | ⟨_, h⟩ | ⟨_, _, h⟩ <;> rw [h]
    · exact hs
    · exact .inr (.inl rfl)
    · exact .inr (.inr rfl)

/-- A client that is logged in stays so. -/
theorem nextStates_append_established {ms : List Msg} (h : nextStates ms = .connEstablished)
    (ms' : List Msg) : nextStates (ms ++ ms') = .connEstablished := by
  rw [nextStates_append, h]
  induction ms' with
  | nil => rfl
  | cons m ms' ih =>
    rcases nextState_cases .connEstablished m with hm | ⟨hm, _⟩ | ⟨hm, _⟩
    · rw [List.foldl_cons, hm, ih]
    · cases hm
    · cases hm

/-- A client that is past HELLO stays so. -/
theorem nextStates_append_ne_hello {ms : List Msg} (h : nextStates ms ≠ .hello)
    (ms' : List Msg) : nextStates (ms ++ ms') ≠ .hello := by
  rw [nextStates_append]
  revert h
  generalize nextStates ms = s
  induction ms' generalizing s with
  | nil => exact id
  | cons m ms' ih =>
    intro h
    refine ih _ ?_
    rcases nextState_cases s m with hm | ⟨_, hm⟩ | ⟨_, _, hm⟩ <;> rw [hm]
    · exact h
    · nofun
    · nofun

/-- An established client has been told so. -/
theorem nextStates_established {ms : List Msg} (h : nextStates ms = .connEstablished) :
    ∃ m ∈ ms, m.isLoginOk = true := by
  suffices hs : ∀ (ms : List Msg) (s : SessionState), s ≠ .connEstablished →
      ms.foldl nextState s = .connEstablished → ∃ m ∈ ms, m.isLoginOk = true from
    hs ms .hello nofun h
  intro ms
  induction ms with
  | nil => exact fun s hne h => absurd h hne
  | cons m ms ih =>
    intro s hne h
    have later : nextState s m ≠ .connEstablished → ∃ m' ∈ m :: ms, m'.isLoginOk = true := by
      intro hm
      obtain ⟨m', hm', hok⟩ := ih _ hm h
      exact ⟨m', List.mem_cons_of_mem _ hm', hok⟩
    rcases nextState_cases s m with hm | ⟨_, hm⟩ | ⟨_, hok, _⟩
    · exact later (by rw [hm]; exact hne)
    · exact later (by rw [hm]; nofun)
    · exact ⟨m, List.mem_cons_self, hok⟩

/-- A CHAT_DELIVER that finds its client established is not discarded. -/
theorem receiveAll_discards {ps : List Packet}
    (h : ∀ pre p post, ps = pre ++ p :: post → p.msg.type = .chatDeliver →
      nextStates (pre.map (·.msg)) = .connEstablished) (s : SessionState) :
    .unexpected .chatDeliver s ∉ (Client.init.receiveAll env (ps.map (·.bytes))).trace := by
  suffices hs : ∀ (post pre : List Packet), ps = pre ++ post → ∀ c : Client,
      c.session.state = nextStates (pre.map (·.msg)) → .unexpected .chatDeliver s ∉ c.trace →
        .unexpected .chatDeliver s ∉ (c.receiveAll env (post.map (·.bytes))).trace from
    hs ps [] rfl .init rfl (by simp [Client.init])
  intro post
  induction post with
  | nil => exact fun _ _ c _ hc => hc
  | cons p post ih =>
    intro pre hps c hst hc
    refine ih (pre ++ [p]) (by rw [hps, List.append_assoc]; rfl) _ ?_ fun hd => ?_
    · rw [receive_state, hst, List.map_append, nextStates_append]
      rfl
    · rcases receive_discards hd with hd | ⟨ht, hne⟩
      · exact hc hd
      · exact hne (hst.trans (h pre p post hps ht))

end SquimpChat
