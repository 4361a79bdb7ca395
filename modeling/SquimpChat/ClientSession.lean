import SquimpChat.ClientState
import Mathlib.Data.List.Induction

/-!
# The client's session against any server

What a hostile server can do to the login of a client: it sends any packets in any order, and
the handlers share the session. `Standing` is the part of the session that the login is about,
and `Advance` is all that a packet can do to it, whatever its type and its fields: a HELLO_ACK
acts in HELLO, an AUTH_RESP in AUTH, and nothing else acts.

Results:
1. `receive_advance`: a packet advances the standing by one step of `Advance`.
2. `session_invariants`: what holds of the session behind any list of packets, and what each
   packet of the list has done to it.
-/

namespace SquimpChat
open Octets

/-- The value of a state in `enum sqmp_session_state_e`. -/
def SessionState.code : SessionState → Nat
  | closed => 0
  | hello => 1
  | auth => 2
  | connEstablished => 3
  | closing => 4

/-- The fields of the client's session that its login is about. -/
structure Standing where
  state : SessionState
  authOk : Bool
  sessionId : UInt32
  loginReady : Nat

def Session.standing (x : Session) : Standing := ⟨x.state, x.authOk, x.sessionId, x.loginReady⟩

/-- A HELLO_ACK that selects version 1 and assigns the id. -/
def AcksHello (data : Bytes) (sid : UInt32) : Prop :=
  Pkt.msgType data = .ok MsgType.helloAck.code ∧ Pkt.helloAckSelectedVersion data = .ok 1 ∧
    Pkt.sessionId data = .ok sid

/-- An AUTH_RESP with status OK. -/
def AcceptsLogin (data : Bytes) : Prop :=
  Pkt.msgType data = .ok MsgType.authResp.code ∧
    Pkt.authRespStatus data = .ok AuthStatus.ok.code

/-- What a packet can do to a login. -/
inductive Advance (data : Bytes) (x : Standing) : Standing → Prop
  | stays : Advance data x x
  | greeted {sid : UInt32} (hst : x.state = .hello) (h : AcksHello data sid) :
      Advance data x { x with state := .auth, sessionId := sid, loginReady := x.loginReady + 1 }
  | accepted (hst : x.state = .auth) (h : AcceptsLogin data) :
      Advance data x { x with state := .connEstablished, authOk := true }
  | rejected (hst : x.state = .auth) : Advance data x { x with authOk := false }

/-- The step HELLO → AUTH. -/
def Greets (x x' : Standing) : Prop := x.state = .hello ∧ x'.state = .auth

instance (x x' : Standing) : Decidable (Greets x x') := inferInstanceAs (Decidable (_ ∧ _))

/-- What the packet may have done to the session. -/
structure KeepsOrder (data : Bytes) (x x' : Standing) : Prop where
  forward : x.state.code ≤ x'.state.code
  sessionId : x'.sessionId ≠ x.sessionId → Greets x x'
  greeted : Greets x x' → AcksHello data x'.sessionId
  ready : x'.loginReady = x.loginReady + if Greets x x' then 1 else 0
  established : x'.state = .connEstablished → x.state ≠ .connEstablished →
    x.state = .auth ∧ AcceptsLogin data

/-! ## 1. One packet -/

namespace ClientSessionLemmas

variable {env : ClientEnv} {c c' : Client} {data : Bytes}

theorem msgType_of_dispatch {handles : MsgType → Bool} {t : MsgType}
    (h : dispatch handles data = .ok (some t)) : Pkt.msgType data = .ok t.code := by
  unfold dispatch at h
  split at h
  · cases h
  · obtain ⟨b, hb, h⟩ := bind_eq_ok.mp h
    obtain ⟨ht, _⟩ := Option.filter_eq_some_iff.mp (Except.ok.inj h)
    have hcode := List.find?_some ht
    rw [hb, ← beq_iff_eq.mp hcode]

theorem helloAck_advance (ht : Pkt.msgType data = .ok MsgType.helloAck.code)
    (h : c.sqmpProcessHelloAck data = .ok c') :
    Advance data c.session.standing c'.session.standing := by
  unfold Client.sqmpProcessHelloAck at h
  split at h
  · cases h
    exact .stays
  · next hst =>
    obtain ⟨v, hv, h⟩ := bind_eq_ok.mp h
    split at h
    · cases h
      exact .stays
    · next hone =>
      obtain ⟨sid, hsid, h⟩ := bind_eq_ok.mp h
      cases h
      rw [not_not.mp hone] at hv
      exact .greeted (not_not.mp hst) ⟨ht, hv, hsid⟩

theorem authResp_advance (ht : Pkt.msgType data = .ok MsgType.authResp.code)
    (h : c.sqmpProcessAuthResp data = .ok c') :
    Advance data c.session.standing c'.session.standing := by
  unfold Client.sqmpProcessAuthResp at h
  split at h
  · next hst =>
    obtain ⟨status, hs, h⟩ := bind_eq_ok.mp h
    split at h
    · next hok =>
      cases h
      rw [hok] at hs
      exact .accepted hst ⟨ht, hs⟩
    · cases h
      exact .rejected hst
  · cases h
    exact .stays

theorem onStreamRecv_advance (h : c.onStreamRecv env data = .ok c') :
    Advance data c.session.standing c'.session.standing := by
  obtain ⟨o, hd, h⟩ := bind_eq_ok.mp h
  split at h
  · exact helloAck_advance (msgType_of_dispatch hd) h
  · exact authResp_advance (msgType_of_dispatch hd) h
  · obtain ⟨key, rfl⟩ := ClientStateLemmas.sqmpProcessKeyResp_ok h
    exact .stays
  · obtain ⟨hsession, _⟩ := ClientStateLemmas.sqmpProcessChatDeliver_ok h
    rw [hsession]
    exact .stays
  · obtain ⟨code, desc, rfl⟩ := ClientStateLemmas.sqmpProcessError_ok h
    split <;> exact .stays
  · cases h
    exact .stays
  · cases h
    exact .stays

end ClientSessionLemmas
open ClientSessionLemmas

variable {env : ClientEnv}

/-- A packet advances the standing by one step, or not at all. -/
theorem receive_advance (c : Client) (data : Bytes) :
    Advance data c.session.standing (c.receive env data).session.standing := by
  unfold Client.receive
  split
  · next h => exact onStreamRecv_advance h
  · exact .stays

namespace Advance

variable {data : Bytes} {x x' : Standing}

theorem keepsOrder (h : Advance data x x') : KeepsOrder data x x' := by
  have self (y : Standing) : ¬ Greets y y := fun h => nomatch h.1.symm.trans h.2
  cases h with
  | stays =>
    exact ⟨Nat.le_refl _, fun h => absurd rfl h, fun h => absurd h (self x),
      by rw [if_neg (self x), Nat.add_zero], fun h hne => absurd h hne⟩
  | greeted hst hack =>
    have hcode : x.state.code ≤ SessionState.auth.code := by rw [hst]; decide
    exact ⟨hcode, fun _ => ⟨hst, rfl⟩, fun _ => hack, by rw [if_pos ⟨hst, rfl⟩], nofun⟩
  | accepted hst hok =>
    have hg : ¬ Greets x { x with state := .connEstablished, authOk := true } :=
      fun h => nomatch h.2
    have hcode : x.state.code ≤ SessionState.connEstablished.code := by rw [hst]; decide
    exact ⟨hcode, fun h => absurd rfl h, fun h => absurd h hg,
      by rw [if_neg hg, Nat.add_zero], fun _ _ => ⟨hst, hok⟩⟩
  | rejected hst =>
    have hg : ¬ Greets x { x with authOk := false } := fun h => nomatch hst.symm.trans h.1
    exact ⟨Nat.le_refl _, fun h => absurd rfl h, fun h => absurd h hg,
      by rw [if_neg hg, Nat.add_zero], fun h hne => absurd h hne⟩

/-- A session past HELLO is as it was, or has left HELLO with the id of the HELLO_ACK. -/
theorem leaves_hello (h : Advance data x x') (hst : x'.state ≠ .hello) :
    x.state ≠ .hello ∧ x'.sessionId = x.sessionId ∨
      x.state = .hello ∧ AcksHello data x'.sessionId := by
  cases h with
  | stays => exact .inl ⟨hst, rfl⟩
  | greeted hhello hack => exact .inr ⟨hhello, hack⟩
  | accepted hauth | rejected hauth => exact .inl ⟨fun h => (nomatch h.symm.trans hauth), rfl⟩

theorem accepted_of_authOk (h : Advance data x x') (hok : x'.authOk = true) :
    x.authOk = true ∨ x.state = .auth ∧ AcceptsLogin data := by
  cases h with
  | stays | greeted => exact .inl hok
  | accepted hauth hacc => exact .inr ⟨hauth, hacc⟩
  | rejected => cases hok

/-- The flag and the post follow the state. -/
structure Consistent (n : Nat) (x : Standing) : Prop where
  state : x.state = .hello ∨ x.state = .auth ∨ x.state = .connEstablished
  authOk : x.authOk = true ↔ x.state = .connEstablished
  ready : x.loginReady = n + if x.state = .hello then 0 else 1

theorem consistent {n : Nat} (h : Advance data x x') (hx : Consistent n x) : Consistent n x' := by
  cases h with
  | stays => exact hx
  | greeted hst hack =>
    have hok : x.authOk ≠ true := fun h => nomatch hst.symm.trans (hx.authOk.mp h)
    refine ⟨.inr (.inl rfl), ⟨fun h => absurd h hok, nofun⟩, ?_⟩
    rw [hx.ready, if_pos hst]
    rfl
  | accepted hst hok =>
    refine ⟨.inr (.inr rfl), ⟨fun _ => rfl, fun _ => rfl⟩, ?_⟩
    rw [hx.ready, hst]
    rfl
  | rejected hst =>
    exact ⟨hx.state, ⟨nofun, fun h => nomatch hst.symm.trans h⟩, hx.ready⟩

end Advance

/-! ## 2. Any list of packets -/

section Runs

variable {c : Client}

theorem receiveAll_concat (pre : List Bytes) (data : Bytes) :
    c.receiveAll env (pre ++ [data]) = (c.receiveAll env pre).receive env data :=
  List.foldl_concat ..

/-- The client's standing behind the packets. -/
def standingBehind (env : ClientEnv) (c : Client) (packets : List Bytes) : Standing :=
  (c.receiveAll env packets).session.standing

theorem advance_behind (pre : List Bytes) (data : Bytes) :
    Advance data (standingBehind env c pre) (standingBehind env c (pre ++ [data])) := by
  rw [standingBehind, standingBehind, receiveAll_concat]
  exact receive_advance ..

/-- States only grow along the packets. -/
theorem code_behind_le (env : ClientEnv) (c : Client) (pre post : List Bytes) :
    (standingBehind env c pre).state.code ≤ (standingBehind env c (pre ++ post)).state.code := by
  induction post generalizing pre with
  | nil => rw [List.append_nil]
  | cons data post ih =>
    have h := ih (pre ++ [data])
    rw [List.append_assoc] at h
    exact Nat.le_trans (advance_behind pre data).keepsOrder.forward h

/-- The step HELLO → AUTH is taken once. -/
theorem greets_once {pre pre' post post' : List Bytes} {data data' : Bytes}
    (hp : pre ++ data :: post = pre' ++ data' :: post')
    (h : Greets (standingBehind env c pre) (standingBehind env c (pre ++ [data])))
    (h' : Greets (standingBehind env c pre') (standingBehind env c (pre' ++ [data']))) :
    pre = pre' := by
  -- behind the first of two such steps the state is past HELLO
  have later : ∀ {p q : List Bytes} {d : Bytes} {r : List Bytes},
      (standingBehind env c (p ++ [d])).state = .auth → q = p ++ d :: r →
        (standingBehind env c q).state ≠ .hello := by
    intro p q d r hauth hq hhello
    have hle := code_behind_le env c (p ++ [d]) r
    rw [List.append_assoc, List.singleton_append, ← hq, hauth, hhello] at hle
    exact absurd hle (by decide)
  rcases List.append_eq_append_iff.mp hp with ⟨as, hpre', has⟩ | ⟨as, hpre, has⟩
  · cases as with
    | nil => rw [hpre', List.append_nil]
    | cons b bs =>
      obtain ⟨rfl, _⟩ := List.cons.inj has
      exact absurd h'.1 (later h.2 hpre')
  · cases as with
    | nil => rw [hpre, List.append_nil]
    | cons b bs =>
      obtain ⟨rfl, _⟩ := List.cons.inj has
      exact absurd h.1 (later h'.2 hpre)

theorem consistent_behind (env : ClientEnv) (hst : c.session.state = .hello)
    (hok : c.session.authOk = false) (packets : List Bytes) :
    Advance.Consistent c.session.loginReady (standingBehind env c packets) := by
  induction packets using List.reverseRecOn with
  | nil =>
    refine ⟨.inl hst, ⟨fun h => ?_, fun h => ?_⟩, ?_⟩
    · cases hok.symm.trans h
    · cases hst.symm.trans h
    · show c.session.loginReady = _ + if c.session.state = .hello then 0 else 1
      rw [if_pos hst, Nat.add_zero]
  | append_singleton pre data ih => exact (advance_behind pre data).consistent ih

end Runs

/-- The session of a client against any server: the flag agrees with the state, `login_ready`
is posted once and exactly for the step HELLO → AUTH, and each packet keeps to the order. -/
theorem session_invariants (env : ClientEnv) (c : Client) (hst : c.session.state = .hello)
    (hok : c.session.authOk = false) (packets : List Bytes) :
    let x := (c.receiveAll env packets).session
    (x.authOk = true ↔ x.state = .connEstablished) ∧
    (x.loginReady = c.session.loginReady + if x.state = .hello then 0 else 1) ∧
    (∀ pre data post, packets = pre ++ data :: post →
      KeepsOrder data (standingBehind env c pre) (standingBehind env c (pre ++ [data]))) ∧
    (∀ pre data post pre' data' post', packets = pre ++ data :: post →
      packets = pre' ++ data' :: post' →
      Greets (standingBehind env c pre) (standingBehind env c (pre ++ [data])) →
      Greets (standingBehind env c pre') (standingBehind env c (pre' ++ [data'])) →
      pre = pre') := by
  have h := consistent_behind env hst hok packets
  refine ⟨h.authOk, h.ready, fun pre data _ _ => (advance_behind pre data).keepsOrder, ?_⟩
  rintro pre data post pre' data' post' hp hp' hg hg'
  exact greets_once (hp.symm.trans hp') hg hg'

/-- Two HELLO_ACKs with different ids and two AUTH_RESPs, the last one rejecting. -/
def answeredTwice : List Bytes :=
  [(Packet.mk 7 (.helloAck ⟨1, 65535⟩)).bytes, (Packet.mk 8 (.helloAck ⟨1, 65535⟩)).bytes,
    (Packet.mk 7 (.authResp ⟨0, 7⟩)).bytes, (Packet.mk 7 (.authResp ⟨1, 7⟩)).bytes]

theorem session_answeredTwice :
    let x := (Client.init.receiveAll (.fair .failing) answeredTwice).session
    x.state = .connEstablished ∧ x.sessionId = 7 ∧ x.authOk = true ∧ x.loginReady = 1 := by
  intro x
  obtain ⟨hok, hready, _⟩ := session_invariants (.fair .failing) .init rfl rfl answeredTwice
  have hst : x.state = .connEstablished := by decide
  have hne : x.state ≠ .hello := by rw [hst]; nofun
  rw [if_neg hne] at hready
  exact ⟨hst, by decide, hok.mpr hst, hready⟩

end SquimpChat
