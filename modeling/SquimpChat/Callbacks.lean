import SquimpChat.Ownership
import SquimpChat.WrapperLedger

/-!
# The wrapper and the server together

The process of the server: MsQuic calls back into the wrapper, and the wrapper calls the functions
of `server.c`. Between two callbacks the main thread and the suspended handlers go on.

The guards of the server's `step` are assumptions about the order of its callbacks. Here they are
results: the wrapper's guards are those that MsQuic documents, its callers keep to their contract,
and whatever the wrapper calls is enabled on the server.

Results:
1. `made_action`: the calls of a step are those for MsQuic's event; a RECEIVE is handed over as one
   block of bytes.
2. `process_accepts`: in every run of the process the server is in a state of its own runs, and
   takes the next callback.
-/

namespace SquimpChat
open Octets Transition Ledger

namespace Quic

/-! ## 1. The process -/

/-- The callback of `server.c`. -/
def AppCall.action : AppCall → Option Action
  | .onConnected c => some (.connected c)
  | .onDisconnected c => some (.disconnected c)
  | .onStreamOpen c st => some (.streamOpened c st)
  | .onStreamRecv st data => some (.received st data)
  -- `server.c` leaves `on_stream_peer_send_done` NULL
  | .onStreamPeerSendDone _ => none
  | .onStreamClosed st => some (.streamClosed st)

/-- The calls of a step, in order. -/
def Wrapper.made (w w' : Wrapper) : List AppCall :=
  (w'.calls.take (w'.calls.length - w.calls.length)).reverse

/-- `server.c` opens neither connections nor streams. -/
def WrapperAction.ofServer : WrapperAction → Bool
  | .sqmpQuicConnect _ _ | .sqmpStreamOpen _ _ _ => false
  | _ => true

/-- The first step of a callback that may run in two. -/
def firstStep : Action → Action
  | .received st data => .chatLookup st data
  | .disconnected c => .disconnectLoad c
  | b => b

/-- The action is none of a new callback. -/
def ownStep : Action → Bool
  | .worker | .interrupted | .signal | .chatForward _ | .disconnectRest _ => true
  | _ => false

structure Process where
  wrapper : Wrapper
  server : Server

inductive ProcessAction
  /-- with `split` the callback stops behind its first step -/
  | msQuic (a : WrapperAction) (split : Bool)
  | own (b : Action)

namespace Process

def init : Process := ⟨.init, .init⟩

variable (env : Env) (p : Process)

def step : ProcessAction → Option Process
  | .msQuic a split =>
    if a.ofServer then
      (p.wrapper.step a).bind fun w =>
        (run (SquimpChat.step env) p.server
          (((p.wrapper.made w).filterMap AppCall.action).map fun b =>
            if split then firstStep b else b)).map (⟨w, ·⟩)
    else none
  | .own b =>
    if ownStep b then (SquimpChat.step env p.server b).map fun σ => { p with server := σ } else none

end Process

/-- What MsQuic's event is for the server. -/
def WrapperAction.event (w : Wrapper) : WrapperAction → Option Action
  | .connEvent c .connected => some (.connected c)
  | .connEvent c .shutdownComplete =>
    if (w.conn c).connected then some (.disconnected c) else none
  | .peerStreamStarted c st true => some (.streamOpened c st)
  | .receive st ev _ => if ev.allocated then some (.received st ev.bytes) else none
  | .streamShutdownComplete st => some (.streamClosed st)
  | _ => none

/-- The connection whose callback it is. -/
def WrapperAction.conn (w : Wrapper) : WrapperAction → Option ConnId
  | .connEvent c _ | .peerStreamStarted c _ _ => some c
  | .receive st _ _ | .streamShutdownComplete st => some (w.stream st).conn
  | _ => none

/-! ## 2. What the wrapper calls -/

namespace CallbackLemmas

variable {w w' : Wrapper} {a : WrapperAction}

theorem made_append {l : List AppCall} (h : w'.calls = l ++ w.calls) :
    w.made w' = l.reverse := by
  rw [Wrapper.made, h, List.length_append, Nat.add_sub_cancel, List.take_left]

/-- A step makes the call for MsQuic's event, if any. -/
theorem act_calls (h : w.act a = some w') : ∃ l, w'.calls = l ++ w.calls ∧
    l.reverse.filterMap AppCall.action = (a.event w).toList := by
  cases a with
  | connEvent c e =>
    cases e with
    | connected =>
      obtain ⟨_, ⟨⟩⟩ := Option.ite_none_right_eq_some.mp h
      exact ⟨[.onConnected c], rfl, rfl⟩
    | shutdownComplete =>
      obtain ⟨_, ⟨⟩⟩ := Option.ite_none_right_eq_some.mp h
      have hend : ∀ w : Wrapper, (w.connCbEnd c).calls = w.calls := fun w => by
        unfold Wrapper.connCbEnd
        split <;> rfl
      unfold Wrapper.connCb WrapperAction.event
      dsimp only
      rw [hend]
      split
      · exact ⟨[.onDisconnected c], rfl, rfl⟩
      · exact ⟨[], rfl, rfl⟩
    | shutdownInitiatedByTransport | shutdownInitiatedByPeer =>
      obtain ⟨_, ⟨⟩⟩ := Option.ite_none_right_eq_some.mp h
      exact ⟨[], rfl, rfl⟩
  | peerStreamStarted c st alloc =>
    obtain ⟨_, ⟨⟩⟩ := Option.ite_none_right_eq_some.mp h
    cases alloc with
    | true => exact ⟨[.onStreamOpen c st], rfl, rfl⟩
    | false => exact ⟨[], rfl, rfl⟩
  | receive st ev uninit =>
    obtain ⟨_, ⟨⟩⟩ := Option.ite_none_right_eq_some.mp h
    rw [Wrapper.streamCbReceive, received_eq, WrapperAction.event]
    by_cases ha : ev.allocated = true
    · rw [if_pos ha, if_pos ha]
      exact ⟨[.onStreamRecv st ev.bytes], rfl, rfl⟩
    · rw [if_neg ha, if_neg ha]
      exact ⟨[], rfl, rfl⟩
  | peerSendShutdown st =>
    obtain ⟨_, ⟨⟩⟩ := Option.ite_none_right_eq_some.mp h
    exact ⟨[.onStreamPeerSendDone st], rfl, rfl⟩
  | streamShutdownComplete st =>
    obtain ⟨_, ⟨⟩⟩ := Option.ite_none_right_eq_some.mp h
    exact ⟨[.onStreamClosed st], rfl, rfl⟩
  | sendComplete n =>
    obtain ⟨_, _, rfl⟩ := Option.map_eq_some_iff.mp h
    exact ⟨[], rfl, rfl⟩
  | sqmpQuicInit f | sqmpQuicListen f | sqmpQuicConnect c f | newConnection c f
  | sqmpStreamOpen c st f =>
    obtain ⟨_, ⟨⟩⟩ := Option.ite_none_right_eq_some.mp h
    refine ⟨[], ?_, rfl⟩
    rcases f with _ | _ | _ | _ | _ | _ <;> rfl
  | sqmpStreamSend st f =>
    cases h
    refine ⟨[], ?_, rfl⟩
    rcases f with _ | _ | _ <;> rfl
  | sqmpStreamSendDone st | sqmpStreamClose st =>
    cases h
    exact ⟨[], rfl, rfl⟩
  | destroy =>
    obtain ⟨_, ⟨⟩⟩ := Option.ite_none_right_eq_some.mp h
    refine ⟨[], ?_, rfl⟩
    split <;> rfl
  | _ =>
    obtain ⟨_, ⟨⟩⟩ := Option.ite_none_right_eq_some.mp h
    exact ⟨[], rfl, rfl⟩

theorem made_action (h : w.act a = some w') :
    (w.made w').filterMap AppCall.action = (a.event w).toList := by
  obtain ⟨l, hl, he⟩ := act_calls h
  rw [made_append hl, he]

end CallbackLemmas

/-! ## 3. What both know -/

/-- How far the server takes a connection that is `x` for the wrapper. -/
def Mirrored (x : Conn) (phase : ConnPhase) : Prop :=
  if x.connected = true then
    if x.shut = true then phase ≠ .absent ∧ phase ≠ .connected else phase = .connected
  else phase = .absent

def lifetime : Life → Lifetime
  | .absent => .unallocated
  | .present => .live
  | .gone => .freed

/-- The server and the wrapper agree on connections and streams. -/
structure Mirrors (w : Wrapper) (σ : Server) : Prop where
  conn : ∀ c, Mirrored (w.conn c) (σ.conn c).phase
  streams : ∀ c, (w.conn c).connected = true →
    ∀ st ∈ (σ.conn c).streams, st ∈ (w.conn c).streams
  stream : ∀ st, (σ.stream st).life = lifetime (w.stream st).life
  owner : ∀ st, (w.stream st).life = .present →
    (σ.stream st).conn = (w.stream st).conn ∧ (w.conn (w.stream st).conn).connected = true
  fresh : ∀ c, (w.conn c).life = .absent → (w.conn c).connected = false

namespace Mirrors

variable {w w' : Wrapper} {σ σ' : Server} {c : ConnId} {st : StreamId}

protected theorem init : Mirrors .init .init where
  conn _ := rfl
  streams _ h := nomatch h
  stream _ := rfl
  owner _ h := nomatch h
  fresh _ _ := rfl

/-- Neither side has changed a connection or a stream. -/
protected theorem same (hm : Mirrors w σ) (hwc : w'.conn = w.conn) (hws : w'.stream = w.stream)
    (hc : σ'.conn = σ.conn) (hs : σ'.stream = σ.stream) : Mirrors w' σ' where
  conn := by
    rw [hwc, hc]
    exact hm.conn
  streams := by
    rw [hwc, hc]
    exact hm.streams
  stream := by
    rw [hws, hs]
    exact hm.stream
  owner := by
    rw [hwc, hws, hs]
    exact hm.owner
  fresh := by
    rw [hwc]
    exact hm.fresh

/-- A connection is `x` for the wrapper now and `y` for the server. -/
protected theorem atConn {x : Conn} {y : SquimpChat.Conn} (hm : Mirrors w σ)
    (hwc : w'.conn = Function.update w.conn c x) (hws : w'.stream = w.stream)
    (hc : σ'.conn = Function.update σ.conn c y) (hs : σ'.stream = σ.stream)
    (hxy : Mirrored x y.phase)
    (hstreams : x.connected = true → ∀ st ∈ y.streams, st ∈ x.streams)
    (hup : (w.conn c).connected = true → x.connected = true) (hl : x.life ≠ .absent) :
    Mirrors w' σ' where
  conn c' := by
    rw [hwc, hc]
    rcases eq_or_ne c' c with rfl | hne
    · rwa [Function.update_self, Function.update_self]
    · rw [Function.update_of_ne hne, Function.update_of_ne hne]
      exact hm.conn c'
  streams c' := by
    rw [hwc, hc]
    rcases eq_or_ne c' c with rfl | hne
    · rwa [Function.update_self, Function.update_self]
    · rw [Function.update_of_ne hne, Function.update_of_ne hne]
      exact hm.streams c'
  stream := by
    rw [hws, hs]
    exact hm.stream
  owner st h := by
    rw [hws] at h ⊢
    rw [hwc, hs]
    obtain ⟨heq, hcon⟩ := hm.owner st h
    rcases eq_or_ne (w.stream st).conn c with hst | hne
    · rw [hst, Function.update_self]
      exact ⟨heq.trans hst, hup (hst ▸ hcon)⟩
    · rw [Function.update_of_ne hne]
      exact ⟨heq, hcon⟩
  fresh c' h := by
    rw [hwc] at h ⊢
    rcases eq_or_ne c' c with rfl | hne
    · rw [Function.update_self] at h
      exact absurd h hl
    · rw [Function.update_of_ne hne] at h ⊢
      exact hm.fresh c' h

/-- A stream is `x` for the wrapper now and `y` for the server. -/
protected theorem atStream {x : Stream} {y : SquimpChat.Stream} (hm : Mirrors w σ)
    (hwc : w'.conn = w.conn) (hws : w'.stream = Function.update w.stream st x)
    (hc : σ'.conn = σ.conn) (hs : σ'.stream = Function.update σ.stream st y)
    (hxy : y.life = lifetime x.life)
    (hown : x.life = .present → y.conn = x.conn ∧ (w.conn x.conn).connected = true) :
    Mirrors w' σ' where
  conn := by
    rw [hwc, hc]
    exact hm.conn
  streams := by
    rw [hwc, hc]
    exact hm.streams
  stream st' := by
    rw [hws, hs]
    rcases eq_or_ne st' st with rfl | hne
    · rwa [Function.update_self, Function.update_self]
    · rw [Function.update_of_ne hne, Function.update_of_ne hne]
      exact hm.stream st'
  owner st' := by
    rw [hws, hs, hwc]
    rcases eq_or_ne st' st with rfl | hne
    · rwa [Function.update_self, Function.update_self]
    · rw [Function.update_of_ne hne, Function.update_of_ne hne]
      exact hm.owner st'
  fresh := by
    rw [hwc]
    exact hm.fresh

/-- The server does not know of the wrapper's change. -/
protected theorem setConn {x : Conn} (hm : Mirrors w σ)
    (hwc : w'.conn = Function.update w.conn c x) (hws : w'.stream = w.stream)
    (hx : x.connected = (w.conn c).connected) (hl : x.life ≠ .absent)
    (hup : (w.conn c).connected = true →
      x.shut = (w.conn c).shut ∧ x.streams = (w.conn c).streams) : Mirrors w' σ := by
  refine hm.atConn hwc hws (Function.update_eq_self c σ.conn).symm rfl ?_ (fun h => ?_)
    (fun h => hx.trans h) hl
  · have h := hm.conn c
    unfold Mirrored at h ⊢
    rw [hx]
    split
    · next hcon =>
      rw [(hup hcon).1]
      rwa [if_pos hcon] at h
    · next hcon => rwa [if_neg hcon] at h
  · rw [hx] at h
    rw [(hup h).2]
    exact hm.streams c h

end Mirrors

/-- What an action does to connections and streams. -/
def Effect (σ σ' : Server) : Action → Prop
  | .connected c => σ'.stream = σ.stream ∧
    ∃ u, σ'.conn = Function.update σ.conn c ⟨.connected, u, []⟩
  | .streamOpened c st => σ' = onStreamOpen σ c st
  | .streamClosed st => σ'.conn = σ.conn ∧
    σ'.stream = Function.update σ.stream st { σ.stream st with life := .freed }
  | .disconnected c | .disconnectLoad c | .disconnectRest c => σ'.stream = σ.stream ∧
    ∃ p, p ≠ .absent ∧ p ≠ .connected ∧ σ'.conn = (setPhase σ c p).conn
  | _ => σ'.conn = σ.conn ∧ σ'.stream = σ.stream

namespace CallbackLemmas

open OwnershipLemmas

variable {env : Env} {w w' : Wrapper} {σ σ' : Server} {a : WrapperAction} {b : Action}
  {c : ConnId} {st : StreamId}

theorem effect_disconnects {q : Bool} (h : Disconnects σ b c q) {p : ConnPhase}
    (hp : p ≠ .absent ∧ p ≠ .connected) (hs : σ'.stream = σ.stream)
    (hc : σ'.conn = (setPhase σ c p).conn) : Effect σ σ' b := by
  rcases h with ⟨rfl, _⟩ | ⟨rfl, _⟩
  · exact ⟨hs, p, hp.1, hp.2, hc⟩
  · exact ⟨hs, p, hp.1, hp.2, hc⟩

theorem effect_step (h : step env σ b = some σ') : Effect σ σ' b := by
  rcases step_cases h with h | h
  · cases h with
    | connected hp | connectedNull hp => exact ⟨rfl, _, rfl⟩
    | streamOpened hc hst => rfl
    | ignored ha hes | answered ha hs hes =>
      obtain ⟨⟨data, rfl | rfl⟩, _⟩ := ha
      · exact ⟨rfl, rfl⟩
      · exact ⟨rfl, rfl⟩
    | streamClosed hr hs | streamClosedNull hr hs => exact ⟨rfl, rfl⟩
    | @disconnectLoad c q => exact ⟨rfl, .disconnecting q, nofun, nofun, rfl⟩
    | disconnectNull hd | left hd | freed hd =>
      exact effect_disconnects (p := .closed) hd ⟨nofun, nofun⟩ rfl rfl
    | _ => exact ⟨rfl, rfl⟩
  · cases h <;> exact ⟨rfl, rfl⟩

/-- The first step of a callback does to connections and streams what the callback does. -/
theorem effect_callback {split : Bool}
    (h : step env σ (if split then firstStep b else b) = some σ') : Effect σ σ' b := by
  cases split with
  | false => exact effect_step h
  | true =>
    have h := effect_step (b := firstStep b) h
    cases b <;> exact h

/-- Behind SHUTDOWN_COMPLETE. -/
theorem connCbEnd_effect (h : w.connUp c = true) : ∃ x : Conn,
    (w.connCbEnd c).conn = Function.update w.conn c x ∧ (w.connCbEnd c).stream = w.stream ∧
      x.connected = (w.conn c).connected ∧ x.shut = true ∧ x.streams = (w.conn c).streams ∧
      x.life ≠ .absent := by
  have hl := (WrapperLemmas.connUp_iff.mp h).1
  unfold Wrapper.connCbEnd
  split
  · exact ⟨_, rfl, rfl, rfl, rfl, rfl, nofun⟩
  · exact ⟨_, rfl, rfl, rfl, rfl, rfl, fun h => by cases hl.symm.trans h⟩

/-- A step that is no event for the server. -/
theorem mirrors_silent (hm : Mirrors w σ) (ha : a.ofServer = true) (h : w.act a = some w')
    (he : a.event w = none) : Mirrors w' σ := by
  cases a with
  | sqmpQuicConnect c f | sqmpStreamOpen c st f => cases ha
  | newConnection c f =>
    obtain ⟨hg, ⟨⟩⟩ := Option.ite_none_right_eq_some.mp h
    have hf : (w.conn c).connected = false :=
      hm.fresh c (of_decide_eq_true (Bool.and_eq_true_iff.mp hg).2)
    match f with
    | some .calloc => exact hm.same rfl rfl rfl rfl
    | some .connectionSetConfiguration =>
      exact hm.setConn (x := ⟨.gone, true, false, false, []⟩) rfl rfl hf.symm nofun
        fun h => by cases hf.symm.trans h
    | none =>
      exact hm.setConn (x := ⟨.present, true, false, false, []⟩) rfl rfl hf.symm nofun
        fun h => by cases hf.symm.trans h
  | closeConn c =>
    obtain ⟨_, ⟨⟩⟩ := Option.ite_none_right_eq_some.mp h
    exact hm.setConn (x := { w.conn c with life := .gone }) rfl rfl rfl nofun
      fun _ => ⟨rfl, rfl⟩
  | connEvent c e =>
    cases e with
    | connected => cases he
    | shutdownComplete =>
      obtain ⟨hg, ⟨⟩⟩ := Option.ite_none_right_eq_some.mp h
      have hf : (w.conn c).connected = false := by
        cases hcon : (w.conn c).connected with
        | false => rfl
        | true =>
          rw [WrapperAction.event, if_pos hcon] at he
          cases he
      rw [Wrapper.connCb, if_neg (by rw [hf]; exact Bool.false_ne_true)]
      obtain ⟨x, hwc, hws, hx, _, _, hl⟩ := connCbEnd_effect (Bool.and_eq_true_iff.mp hg).1
      exact hm.setConn hwc hws hx hl fun h => by cases hf.symm.trans h
    | shutdownInitiatedByTransport | shutdownInitiatedByPeer =>
      obtain ⟨_, ⟨⟩⟩ := Option.ite_none_right_eq_some.mp h
      exact hm.same rfl rfl rfl rfl
  | peerStreamStarted c st alloc =>
    obtain ⟨_, ⟨⟩⟩ := Option.ite_none_right_eq_some.mp h
    cases alloc with
    | true => cases he
    | false => exact hm.same rfl rfl rfl rfl
  | receive st ev uninit =>
    obtain ⟨_, ⟨⟩⟩ := Option.ite_none_right_eq_some.mp h
    unfold Wrapper.streamCbReceive
    split <;> exact hm.same rfl rfl rfl rfl
  | streamShutdownComplete st => cases he
  | sendComplete n =>
    obtain ⟨_, _, rfl⟩ := Option.map_eq_some_iff.mp h
    exact hm.same rfl rfl rfl rfl
  | sqmpStreamClose st =>
    cases h
    exact hm.atStream rfl rfl rfl (Function.update_eq_self st σ.stream).symm (hm.stream st)
      (hm.owner st)
  | sqmpQuicInit f | sqmpQuicListen f =>
    obtain ⟨_, ⟨⟩⟩ := Option.ite_none_right_eq_some.mp h
    rcases f with _ | _ | _ | _ | _ <;> exact hm.same rfl rfl rfl rfl
  | sqmpStreamSend st f =>
    cases h
    rcases f with _ | _ | _ <;> exact hm.same rfl rfl rfl rfl
  | sqmpStreamSendDone st =>
    cases h
    exact hm.same rfl rfl rfl rfl
  | destroy =>
    obtain ⟨_, ⟨⟩⟩ := Option.ite_none_right_eq_some.mp h
    split <;> exact hm.same rfl rfl rfl rfl
  | _ =>
    obtain ⟨_, ⟨⟩⟩ := Option.ite_none_right_eq_some.mp h
    exact hm.same rfl rfl rfl rfl

/-- A step that is an event for the server, and the callback or its first step. -/
theorem mirrors_event (hm : Mirrors w σ) (h : w.act a = some w') (he : a.event w = some b)
    {split : Bool} (hs : step env σ (if split then firstStep b else b) = some σ') :
    Mirrors w' σ' := by
  cases a with
  | connEvent c e =>
    cases e with
    | connected =>
      obtain ⟨hg, ⟨⟩⟩ := Option.ite_none_right_eq_some.mp h
      simp only [Bool.and_eq_true, WrapperLemmas.connUp_iff] at hg
      obtain ⟨⟨hl, hsh⟩, _⟩ := hg
      cases he
      obtain ⟨hst, u, hc⟩ := effect_callback hs
      refine hm.atConn (x := { w.conn c with connected := true }) rfl rfl hc hst ?_
        (fun _ => nofun) (fun _ => rfl) (fun h => by cases hl.symm.trans h)
      unfold Mirrored
      rw [if_pos rfl, hsh]
      rfl
    | shutdownComplete =>
      obtain ⟨hg, ⟨⟩⟩ := Option.ite_none_right_eq_some.mp h
      have hup := (Bool.and_eq_true_iff.mp hg).1
      cases hcon : (w.conn c).connected with
      | false =>
        rw [WrapperAction.event, if_neg (by rw [hcon]; exact Bool.false_ne_true)] at he
        cases he
      | true =>
        rw [WrapperAction.event, if_pos hcon] at he
        cases he
        obtain ⟨hst, p, hpa, hpc, hc⟩ := effect_callback hs
        rw [Wrapper.connCb, if_pos hcon]
        obtain ⟨x, hwc, hws, hx, hsh, hstr, hl⟩ :=
          connCbEnd_effect (w := w.call (.onDisconnected c)) hup
        refine hm.atConn hwc hws hc hst ?_ (fun _ => ?_) (fun h => hx.trans h) hl
        · unfold Mirrored
          rw [if_pos (hx.trans hcon), if_pos hsh]
          exact ⟨hpa, hpc⟩
        · rw [hstr]
          exact hm.streams c hcon
    | shutdownInitiatedByTransport | shutdownInitiatedByPeer => cases he
  | peerStreamStarted c st alloc =>
    obtain ⟨hg, ⟨⟩⟩ := Option.ite_none_right_eq_some.mp h
    simp only [Bool.and_eq_true, WrapperLemmas.connUp_iff] at hg
    obtain ⟨⟨⟨hl, _⟩, hcon⟩, _⟩ := hg
    cases alloc with
    | false => cases he
    | true =>
      cases he
      obtain rfl := effect_callback hs
      have hconn : Mirrors (w.setConn c { w.conn c with streams := st :: (w.conn c).streams })
          { σ with
            conn := Function.update σ.conn c
              { σ.conn c with streams := st :: (σ.conn c).streams } } :=
        hm.atConn rfl rfl rfl rfl (hm.conn c) (fun _ => List.cons_subset_cons st (hm.streams c hcon))
          id (fun h => by cases hl.symm.trans h)
      refine hconn.atStream (x := ⟨.present, c, false⟩) rfl rfl rfl rfl rfl fun _ => ⟨rfl, ?_⟩
      rw [Wrapper.setConn_conn, Function.update_self]
      exact hcon
  | receive st ev uninit =>
    obtain ⟨_, ⟨⟩⟩ := Option.ite_none_right_eq_some.mp h
    obtain ⟨_, ⟨⟩⟩ := Option.ite_none_right_eq_some.mp he
    obtain ⟨hc, hst⟩ := effect_callback hs
    unfold Wrapper.streamCbReceive
    split <;> exact hm.same rfl rfl hc hst
  | streamShutdownComplete st =>
    obtain ⟨_, ⟨⟩⟩ := Option.ite_none_right_eq_some.mp h
    cases he
    obtain ⟨hc, hst⟩ := effect_callback hs
    exact hm.atStream (x := { w.stream st with life := .gone }) rfl rfl hc hst rfl
      fun h => by cases h
  | _ => cases he

/-- The server takes the callback of an event, unless one of the connection is suspended. -/
theorem event_enabled (env : Env) (hm : Mirrors w σ) (ho : w.Ordered) (h : w.act a = some w')
    (he : a.event w = some b) (hf : ∀ q ∈ σ.chats, a.conn w ≠ some q.conn) :
    ∃ σ', step env σ b = some σ' := by
  -- the connection is up for the server
  have hup : ∀ c, (w.conn c).shut = false → (w.conn c).connected = true →
      (∀ q ∈ σ.chats, q.conn ≠ c) → callbackFree σ c = true := by
    intro c hsh hcon hq
    have hp := hm.conn c
    rw [Mirrored, if_pos hcon, if_neg (by rw [hsh]; exact Bool.false_ne_true)] at hp
    exact callbackFree_iff.mpr ⟨hp, hq⟩
  have hreceivable : ∀ st, (w.stream st).life = .present →
      (∀ q ∈ σ.chats, q.conn ≠ (w.stream st).conn) → receivable σ st = true := by
    intro st hl hq
    obtain ⟨heq, hcon⟩ := hm.owner st hl
    rw [receivable, Bool.and_eq_true, isLive_iff, hm.stream st, hl, heq]
    exact ⟨rfl, hup _ (ho.owner st hl).2.1 hcon hq⟩
  cases a with
  | connEvent c e =>
    cases e with
    | connected =>
      obtain ⟨hg, _⟩ := Option.ite_none_right_eq_some.mp h
      cases he
      have hp := hm.conn c
      rw [Mirrored, if_neg (by simpa using (Bool.and_eq_true_iff.mp hg).2)] at hp
      exact ⟨_, if_pos hp⟩
    | shutdownComplete =>
      obtain ⟨hg, _⟩ := Option.ite_none_right_eq_some.mp h
      simp only [Bool.and_eq_true, WrapperLemmas.connUp_iff, List.all_eq_true] at hg
      obtain ⟨⟨_, hsh⟩, hall⟩ := hg
      rw [WrapperAction.event] at he
      split at he
      · next hcon =>
        cases he
        have hfree := hup c hsh hcon fun q hq heq => hf q hq (by rw [heq]; rfl)
        have hclosed : streamsClosed σ c = true := streamsClosed_iff.mpr fun st hst hl => by
          have hw := hall st (hm.streams c hcon st hst)
          rw [hm.stream st] at hl
          cases hlife : (w.stream st).life <;> simp_all [lifetime, Wrapper.streamUp]
        exact ⟨_, if_pos (Bool.and_eq_true_iff.mpr ⟨hfree, hclosed⟩)⟩
      · cases he
    | shutdownInitiatedByTransport | shutdownInitiatedByPeer => cases he
  | peerStreamStarted c st alloc =>
    obtain ⟨hg, _⟩ := Option.ite_none_right_eq_some.mp h
    simp only [Bool.and_eq_true, WrapperLemmas.connUp_iff, decide_eq_true_eq] at hg
    obtain ⟨⟨⟨_, hsh⟩, hcon⟩, hst⟩ := hg
    cases alloc with
    | false => cases he
    | true =>
      cases he
      have hfree := hup c hsh hcon fun q hq heq => hf q hq (by rw [heq]; rfl)
      have hun : (σ.stream st).life = .unallocated := by rw [hm.stream st, hst]; rfl
      exact ⟨_, if_pos (Bool.and_eq_true_iff.mpr ⟨hfree, decide_eq_true hun⟩)⟩
  | receive st ev uninit =>
    obtain ⟨hg, _⟩ := Option.ite_none_right_eq_some.mp h
    obtain ⟨_, ⟨⟩⟩ := Option.ite_none_right_eq_some.mp he
    exact ⟨_, if_pos (hreceivable st (of_decide_eq_true hg)
      fun q hq heq => hf q hq (by rw [heq]; rfl))⟩
  | streamShutdownComplete st =>
    obtain ⟨hg, _⟩ := Option.ite_none_right_eq_some.mp h
    cases he
    exact ⟨_, if_pos (hreceivable st (of_decide_eq_true (Bool.and_eq_true_iff.mp hg).1)
      fun q hq heq => hf q hq (by rw [heq]; rfl))⟩
  | _ => cases he

/-- A step of the server that begins no callback. -/
theorem mirrors_own (hm : Mirrors w σ) (hb : ownStep b = true) (h : step env σ b = some σ') :
    Mirrors w σ' := by
  have heff := effect_step h
  cases b with
  | worker | interrupted | signal | chatForward c => exact hm.same rfl rfl heff.1 heff.2
  | disconnectRest c =>
    obtain ⟨hst, p, hpa, hpc, hc⟩ := heff
    -- `on_disconnected` has begun, so SHUTDOWN_COMPLETE has come
    have hph : ∃ q, (σ.conn c).phase = .disconnecting q := by
      cases hp : (σ.conn c).phase with
      | disconnecting q => exact ⟨q, rfl⟩
      | _ => rw [step, hp] at h; cases h
    obtain ⟨q, hph⟩ := hph
    have hx := hm.conn c
    unfold Mirrored at hx
    rw [hph] at hx
    split at hx
    · next hcon =>
      split at hx
      · next hsh =>
        refine hm.atConn (Function.update_eq_self c w.conn).symm rfl hc hst ?_
          (fun _ => hm.streams c hcon) id fun hl => ?_
        · rw [Mirrored, if_pos hcon, if_pos hsh]
          exact ⟨hpa, hpc⟩
        · cases (hm.fresh c hl).symm.trans hcon
      · cases hx
    · cases hx
  | _ => cases hb

structure ProcessInv (env : Env) (p : Process) : Prop where
  mirrors : Mirrors p.wrapper p.server
  ordered : p.wrapper.Ordered
  reachable : ∃ acts, serverRun env acts = some p.server

theorem ProcessInv.extend {p : Process} (hi : ProcessInv env p) (acts : List Action)
    (h : run (step env) p.server acts = some σ) : ∃ acts, serverRun env acts = some σ := by
  obtain ⟨before, hr⟩ := hi.reachable
  exact ⟨before ++ acts, run_append.mpr ⟨_, hr, h⟩⟩

variable {p p' : Process}

theorem step_msQuic {split : Bool} (ha : a.ofServer = true) (h : p.wrapper.step a = some w') :
    p.step env (.msQuic a split) =
      (run (step env) p.server ((a.event p.wrapper).toList.map fun b =>
        if split then firstStep b else b)).map (⟨w', ·⟩) := by
  rw [Process.step, if_pos ha, h, Option.bind_some, made_action (WrapperLemmas.step_iff.mp h).2]

theorem step_processInv {pa : ProcessAction} (hi : ProcessInv env p)
    (h : p.step env pa = some p') : ProcessInv env p' := by
  cases pa with
  | own b =>
    obtain ⟨hb, h⟩ := Option.ite_none_right_eq_some.mp h
    obtain ⟨σ, hs, rfl⟩ := Option.map_eq_some_iff.mp h
    exact ⟨mirrors_own hi.mirrors hb hs, hi.ordered,
      hi.extend [b] (run_cons.mpr ⟨σ, hs, rfl⟩)⟩
  | msQuic a split =>
    obtain ⟨ha, h'⟩ := Option.ite_none_right_eq_some.mp h
    obtain ⟨w', hw, _⟩ := Option.bind_eq_some_iff.mp h'
    rw [step_msQuic ha hw] at h
    obtain ⟨σ, hr, rfl⟩ := Option.map_eq_some_iff.mp h
    obtain ⟨hk, hw⟩ := WrapperLemmas.step_iff.mp hw
    refine ⟨?_, (WrapperLemmas.act_keeps hi.ordered hk hw).1, hi.extend _ hr⟩
    cases he : a.event p.wrapper with
    | none =>
      rw [he] at hr
      cases hr
      exact mirrors_silent hi.mirrors ha hw he
    | some b =>
      rw [he] at hr
      obtain ⟨σ', hs, hr⟩ := run_cons.mp hr
      cases hr
      exact mirrors_event hi.mirrors hw he hs

theorem run_processInv {acts : List ProcessAction}
    (h : run (Process.step env) .init acts = some p) : ProcessInv env p :=
  run_always (fun _ _ _ hi hs => step_processInv hi hs) ⟨.init, .init, [], rfl⟩ h

end CallbackLemmas

open CallbackLemmas

variable {env : Env} {p : Process} {w : Wrapper} {a : WrapperAction} {acts : List ProcessAction}

/-- The server is in a state of its own runs, and takes the next callback of the wrapper: the one
MsQuic's event is for, with the bytes of a RECEIVE in one block. No callback begins while another
of its connection is suspended. -/
theorem process_accepts (h : run (Process.step env) .init acts = some p)
    (ha : a.ofServer = true) (hw : p.wrapper.step a = some w)
    (hf : ∀ q ∈ p.server.chats, a.conn p.wrapper ≠ some q.conn) :
    (∃ bs, serverRun env bs = some p.server) ∧
      ∃ σ, run (step env) p.server (a.event p.wrapper).toList = some σ ∧
        p.step env (.msQuic a false) = some ⟨w, σ⟩ := by
  have hi := run_processInv h
  have hrun : ∃ σ, run (step env) p.server (a.event p.wrapper).toList = some σ := by
    cases he : a.event p.wrapper with
    | none => exact ⟨_, rfl⟩
    | some b =>
      obtain ⟨_, hact⟩ := WrapperLemmas.step_iff.mp hw
      obtain ⟨σ, hs⟩ := event_enabled env hi.mirrors hi.ordered hact he hf
      exact ⟨σ, run_cons.mpr ⟨σ, hs, rfl⟩⟩
  obtain ⟨σ, hr⟩ := hrun
  refine ⟨hi.reachable, σ, hr, ?_⟩
  rw [step_msQuic ha hw]
  simp only [Bool.false_eq_true, if_false, List.map_id', hr, Option.map_some]

/-- A connection with a stream, and the main thread at its first wait. -/
def greeting : List ProcessAction :=
  [.msQuic (.sqmpQuicInit none) false, .msQuic (.sqmpQuicListen none) false,
    .msQuic (.newConnection 0 none) false, .own .worker, .msQuic (.connEvent 0 .connected) false,
    .msQuic (.peerStreamStarted 0 0 true) false]

/-- A HELLO in two buffers. -/
def helloEvent : WrapperAction :=
  .receive 0 (.ofBuffers [helloBytes.take 5, helloBytes.drop 5]) fun _ => 255

theorem accepts_greeting : ∃ p w σ, run (Process.step (.fair none)) .init greeting = some p ∧
    run (step (.fair none)) p.server [.received 0 helloBytes] = some σ ∧
    p.step (.fair none) (.msQuic helloEvent false) = some ⟨w, σ⟩ := by
  obtain ⟨p, hr, hw, hc⟩ := run_reaches (Process.step (.fair none)) .init greeting
    (fun p => (p.wrapper.step helloEvent).isSome = true ∧ p.server.chats = []) (by decide)
  obtain ⟨w, hw⟩ := Option.isSome_iff_exists.mp hw
  obtain ⟨_, σ, hs, hp⟩ := process_accepts hr rfl hw (by rw [hc]; nofun)
  exact ⟨p, w, σ, hr, hs, hp⟩

end Quic

end SquimpChat
