import SquimpChat.StreamLifetime
import SquimpChat.ClientState

/-!
# The order of login and delivery

A user can be found in the registry from `sqmp_registry_add` on; its client learns that it is
logged in three steps of the worker later, by the AUTH_RESP. A client drops every
CHAT_DELIVER it receives before.

Results:
1. `loginOrdered_run`: no message is dropped so, in every run in which no CHAT_SEND of an
   established session asks for a user between its registration and its AUTH_RESP.
2. `delivered_before_login`: a CHAT_SEND handled between these two steps.
-/

namespace SquimpChat
open Octets StreamLifetimeLemmas

variable {env : Env} {σ σ' : Server} {a : Action}

/-! ## 1. What a client receives -/

/-- The packet MsQuic delivers on the stream for this event. -/
def Event.packetOn (st : StreamId) : Event → Option Packet
  | sent st' p true true => if st' = st then some p else none
  | _ => none

/-- The packets sent on a stream, in order. -/
def packetsOn (tr : List Event) (st : StreamId) : List Packet :=
  (tr.filterMap (Event.packetOn st)).reverse

/-- The state of a client that has received all of them. -/
def clientOn (tr : List Event) (st : StreamId) : SessionState :=
  nextStates ((packetsOn tr st).map (·.msg))

/-- The stream is the only one of its connection; a client opens one. -/
def Single (σ : Server) (st : StreamId) : Prop := (σ.conn (σ.stream st).conn).streams = [st]

structure LoginOrdered (σ : Server) : Prop where
  /-- an AUTH_RESP with status OK precedes a CHAT_DELIVER, which finds its client
  established -/
  delivered : ∀ st, Single σ st → ∀ pre p post, packetsOn σ.trace st = pre ++ p :: post →
    p.msg.type = .chatDeliver → (∃ q ∈ pre, q.msg.isLoginOk = true) ∧
      ∀ cenv, (Client.init.receiveAll cenv (pre.map (·.bytes))).session.state = .connEstablished
  /-- no CHAT_DELIVER is discarded -/
  shown : ∀ st, Single σ st → ∀ cenv s, .unexpected .chatDeliver s ∉
    (Client.init.receiveAll cenv ((packetsOn σ.trace st).map (·.bytes))).trace

/-- The session is registered and its client does not know yet. -/
def WorkerPc.unanswered : WorkerPc → Option SessionId
  | added s | decided s true | responding s _ true => some s
  | _ => none

/-- A CHAT_SEND of an established session does not ask for a user whose AUTH_RESP is
outstanding. -/
def AsksAnswered (σ : Server) (a : Action) : Prop :=
  ∀ k ∈ chatAsked σ a, ∀ e ∈ σ.registry.used, e.key = k →
    ∀ st ∈ e.stream, ∀ s ∈ σ.pc.unanswered, (σ.stream st).userData ≠ some s

instance : Decidable (AsksAnswered σ a) :=
  inferInstanceAs (Decidable (∀ _ ∈ _, ∀ _ ∈ _, _ → ∀ _ ∈ _, ∀ _ ∈ _, _))

namespace LoginOrderLemmas

variable {es tr : List Event} {st : StreamId} {p : Packet}

theorem packetOn_eq_some {e : Event} : e.packetOn st = some p ↔ e = .sent st p true true := by
  unfold Event.packetOn
  split
  · split <;> simp_all
  · simp_all

theorem packetsOn_append : packetsOn (es ++ tr) st = packetsOn tr st ++ packetsOn es st := by
  simp [packetsOn]

theorem mem_packetsOn : p ∈ packetsOn es st ↔ .sent st p true true ∈ es := by
  simp only [packetsOn, List.mem_reverse, List.mem_filterMap, packetOn_eq_some, exists_eq_right]

theorem clientOn_append_established (h : clientOn tr st = .connEstablished) :
    clientOn (es ++ tr) st = .connEstablished := by
  rw [clientOn, packetsOn_append, List.map_append]
  exact nextStates_append_established h _

theorem clientOn_append_ne_hello (h : clientOn tr st ≠ .hello) :
    clientOn (es ++ tr) st ≠ .hello := by
  rw [clientOn, packetsOn_append, List.map_append]
  exact nextStates_append_ne_hello h _

/-- A packet a callback sends goes out on an open stream; a message goes to a recipient. -/
theorem callback_sent (h : CallbackEvent σ a (.sent st p true true)) :
    (σ.stream st).life = .live ∧ (p.msg.type = .chatDeliver → Recipient σ a st) := by
  obtain ⟨hl, hsent⟩ := callback_packet h
  refine ⟨OwnershipLemmas.isLive_iff.mp hl.symm, fun ht => ?_⟩
  cases hsent with
  | reply _ hp =>
    rcases p with ⟨_, msg⟩
    cases msg <;> first | exact absurd hp Bool.false_ne_true | cases ht
  | helloAck _ hp => cases ht.symm.trans hp
  | deliver hst _ => exact hst

theorem main_sent (h : MainEvent env σ (.sent st p true true)) :
    (σ.stream st).life = .live ∧ p.msg.type ≠ .chatDeliver := by
  obtain ⟨hl, hsent⟩ := main_packet h
  refine ⟨OwnershipLemmas.isLive_iff.mp hl.symm, ?_⟩
  cases hsent with
  | authResp _ hp =>
    rw [hp]
    nofun
  | bye _ hp =>
    rw [hp]
    nofun

theorem clientOn_sent :
    clientOn (.sent st p true true :: tr) st = nextState (clientOn tr st) p.msg := by
  have h : packetsOn (.sent st p true true :: tr) st = packetsOn tr st ++ [p] := by
    simp [packetsOn, Event.packetOn]
  rw [clientOn, h, List.map_append, nextStates_append]
  rfl

end LoginOrderLemmas
open LoginOrderLemmas

/-! ## 2. The invariant -/

/-- The stream belongs to the session, which answers on it while it is open. -/
structure Tied (σ : Server) (s : SessionId) (st : StreamId) : Prop where
  user : (σ.stream st).userData = some s
  auth : (σ.stream st).life ≠ .freed → (σ.session s).authStream = some st

/-- The worker is about to tell the client of the stream that it is logged in. -/
def Answering (σ : Server) (st : StreamId) : Prop :=
  ∃ s, σ.pc.unanswered = some s ∧ Tied σ s st ∧
    ((σ.stream st).life ≠ .freed → ∀ st' ok, σ.pc = .responding s st' ok → st' = st)

/-- The client of the stream knows that it is logged in, or hears nothing any more. -/
def Settled (σ : Server) (st : StreamId) : Prop :=
  (σ.stream st).life = .freed ∨ clientOn σ.trace st = .connEstablished

/-- Every CHAT_DELIVER finds its client established. -/
def Ordered (ps : List Packet) : Prop :=
  ∀ pre p post, ps = pre ++ p :: post → p.msg.type = .chatDeliver →
    nextStates (pre.map (·.msg)) = .connEstablished

structure StreamOrder (σ : Server) (st : StreamId) : Prop where
  entry : σ.registry.HasStream st → Settled σ st ∨ Answering σ st
  chat : ∀ p ∈ σ.chats, p.recipient = st → Settled σ st
  loaded : ∀ s, σ.pc = .loaded s (some st) → Tied σ s st
  /-- the server is past HELLO only when it has acknowledged it -/
  greeted : ∀ s, (σ.stream st).userData = some s → (σ.session s).state ≠ .hello →
    clientOn σ.trace st ≠ .hello
  ordered : Ordered (packetsOn σ.trace st)

structure OrderInv (σ : Server) : Prop where
  held : ∀ st, Held σ st → (σ.stream st).life ≠ .unallocated
  silent : ∀ st, (σ.stream st).life = .unallocated → packetsOn σ.trace st = []
  started : ∀ s, (σ.conn s).streams = [] → (σ.session s).state = .hello
  referred : ∀ s, Refers σ s → (σ.session s).state ≠ .hello
  order : ∀ st, Single σ st → StreamOrder σ st

namespace LoginOrderLemmas

variable {st st' : StreamId} {s : SessionId}

theorem ordered_append {ps qs : List Packet} (h : Ordered ps)
    (hq : ∀ q ∈ qs, q.msg.type = .chatDeliver →
      nextStates (ps.map (·.msg)) = .connEstablished) : Ordered (ps ++ qs) := by
  intro pre p post heq ht
  rcases List.append_eq_append_iff.mp heq with ⟨mid, rfl, hmid⟩ | ⟨mid, rfl, hmid⟩
  · have hp : p ∈ qs := by
      rw [hmid]
      simp
    rw [List.map_append]
    exact nextStates_append_established (hq p hp ht) _
  · cases mid with
    | nil =>
      rw [List.append_nil] at hq
      have hp : p ∈ qs := by
        rw [← List.nil_append qs, ← hmid]
        exact List.mem_cons_self
      exact hq p hp ht
    | cons p' mid =>
      obtain ⟨rfl, _⟩ := List.cons.inj hmid
      exact h pre p mid rfl ht

/-! ### Streams -/

theorem single_allocated (hw : Wf σ) (h : Single σ st) : (σ.stream st).life ≠ .unallocated := by
  refine (hw.listed (σ.stream st).conn st ?_).1
  rw [h]
  exact List.mem_cons_self

theorem single_unique (hw : Wf σ) (h : Single σ st) (hs : (σ.stream st).userData = some s)
    (hs' : (σ.stream st').userData = some s) : st' = st := by
  have hl : (σ.stream st').life ≠ .unallocated := fun hl => by
    rw [hw.unopened st' hl] at hs'
    cases hs'
  have hm := (hw.opened st' hl).1
  rw [← (hw.stream_user hs').1, (hw.stream_user hs).1, h] at hm
  exact List.mem_singleton.mp hm

/-- A stream keeps its connection and session, and is closed at most once. -/
theorem stream_callback (h : CallbackStep env σ a σ') (hl : (σ.stream st).life ≠ .unallocated) :
    (σ'.stream st).conn = (σ.stream st).conn ∧
      (σ'.stream st).userData = (σ.stream st).userData ∧
      ((σ'.stream st).life = (σ.stream st).life ∨ (σ'.stream st).life = .freed) := by
  cases h with
  | @streamOpened c st' hc hst =>
    have hne : st ≠ st' := fun heq => hl (heq ▸ hst)
    simp [onStreamOpen, hne]
  | @streamClosed st' | @streamClosedNull st' =>
    rcases eq_or_ne st st' with rfl | hne
    · simp
    · simp [hne]
  | _ => exact ⟨rfl, rfl, .inl rfl⟩

/-- The only stream of a connection has been so, or is just opened. -/
theorem single_callback (h : CallbackStep env σ a σ') (hs : Single σ' st) :
    Single σ st ∨ ∃ c, (σ.conn c).streams = [] ∧ (σ.stream st).life = .unallocated ∧
      σ' = onStreamOpen σ c st := by
  have kept : σ'.stream = σ.stream →
      (∀ c, (σ'.conn c).streams = (σ.conn c).streams ∨ (σ'.conn c).streams = []) → Single σ st := by
    intro hstream hconn
    unfold Single at hs ⊢
    rw [hstream] at hs
    rcases hconn (σ.stream st).conn with heq | heq
    · exact heq ▸ hs
    · rw [heq] at hs
      cases hs
  have connect : ∀ c (x : Conn), x.streams = [] → ∀ c',
      (Function.update σ.conn c x c').streams = (σ.conn c').streams ∨
        (Function.update σ.conn c x c').streams = [] := by
    intro c x hx c'
    rcases eq_or_ne c' c with rfl | hne
    · rw [Function.update_self]
      exact .inr hx
    · rw [Function.update_of_ne hne]
      exact .inl rfl
  cases h with
  | connected | connectedNull => exact .inl (kept rfl (connect _ _ rfl))
  | @streamOpened c st' hc hst =>
    unfold Single onStreamOpen at hs
    rcases eq_or_ne st st' with rfl | hne
    · simp only [Function.update_self] at hs
      exact .inr ⟨c, (List.cons.inj hs).2, hst, rfl⟩
    · refine .inl ?_
      simp only [Function.update_of_ne hne] at hs
      rcases eq_or_ne (σ.stream st).conn c with heq | hne'
      · rw [heq, Function.update_self] at hs
        exact absurd (List.cons.inj hs).1.symm hne
      · rw [Function.update_of_ne hne'] at hs
        exact hs
  | @streamClosed st' | @streamClosedNull st' =>
    refine .inl ?_
    unfold Single at hs ⊢
    rcases eq_or_ne st st' with rfl | hne
    · simp only [Function.update_self] at hs
      exact hs
    · simp only [Function.update_of_ne hne] at hs
      exact hs
  | disconnectLoad | disconnectNull | left | freed =>
    exact .inl (kept rfl fun _ => .inl OwnershipLemmas.setPhase_streams)
  | _ => exact .inl hs

/-- A connection that has no stream had none. -/
theorem streams_callback (hw : Wf σ) (h : CallbackStep env σ a σ') {c : ConnId}
    (hs : (σ'.conn c).streams = []) : (σ.conn c).streams = [] := by
  cases h with
  | @connected c' hp | @connectedNull c' hp =>
    rcases eq_or_ne c c' with rfl | hne
    · exact (hw.absent c hp).2.2
    · simpa only [Function.update_of_ne hne] using hs
  | @streamOpened c' st' hc hst =>
    rcases eq_or_ne c c' with rfl | hne
    · simp [onStreamOpen] at hs
    · simpa only [onStreamOpen, Function.update_of_ne hne] using hs
  | disconnectLoad | disconnectNull | left | freed =>
    rw [OwnershipLemmas.setPhase_streams] at hs
    exact hs
  | _ => exact hs

theorem conn_main (h : MainStep env σ a σ') : σ'.conn = σ.conn := by
  cases h <;> rfl

theorem chats_main (h : MainStep env σ a σ') : σ'.chats = σ.chats := by
  cases h <;> rfl

theorem single_main (h : MainStep env σ a σ') (hs : Single σ' st) : Single σ st := by
  unfold Single at hs ⊢
  rwa [conn_main h, stream_main h] at hs

/-! ### Sessions -/

/-- A callback that changes the state of a session takes a packet of it. The server is past
HELLO once it has sent the HELLO_ACK. -/
theorem state_callback (hsend : ∀ n, env.streamSend n = true) (h : CallbackStep env σ a σ') :
    (σ'.session s).state = (σ.session s).state ∨
      ((σ.conn s).phase = .absent ∧ (σ'.session s).state = .hello) ∨
      ∃ st, receivable σ st = true ∧ (σ.stream st).userData = some s ∧
        (σ'.session s).state ≠ .hello ∧
        ((σ.session s).state ≠ .hello ∨ clientOn σ'.trace st ≠ .hello) := by
  cases h with
  | @connected c hp =>
    rcases eq_or_ne s c with rfl | hne
    · refine .inr (.inl ⟨hp, ?_⟩)
      simp only [Function.update_self]
      rfl
    · simp only [Function.update_of_ne hne]
      exact .inl trivial
  | @hello st s' data ok hr hs hst hok =>
    rcases eq_or_ne s s' with rfl | hne
    · refine .inr (.inr ⟨st, hr, hs, ?_, .inr ?_⟩)
      · simp
      · obtain ⟨n, rfl⟩ := hok
        have hlive := OwnershipLemmas.isLive_iff.mpr (OwnershipLemmas.receivable_iff.mp hr).1
        show clientOn (.sent st _ (σ.isLive st) (env.streamSend n) :: (σ.touched s ++ σ.trace)) st ≠ _
        rw [hlive, hsend, clientOn_sent]
        cases clientOn (σ.touched s ++ σ.trace) st <;> nofun
    · simp [Function.update_of_ne hne]
  | @bye st s' data hr hs hst =>
    rcases eq_or_ne s s' with rfl | hne
    · refine .inr (.inr ⟨st, hr, hs, ?_, .inl ?_⟩)
      · simp
      · rw [hst]
        nofun
    · simp [Function.update_of_ne hne]
  | authReq | streamClosed | left =>
    refine .inl (Server.update_proj Session.state ?_ s)
    rfl
  | _ => exact .inl rfl

theorem state_main (h : MainStep env σ a σ') : (σ'.session s).state = (σ.session s).state ∨
    σ.pc = .added s ∧ (σ'.session s).state = .connEstablished := by
  cases h
  case clear s' hpc =>
    refine .inl ?_
    rcases eq_or_ne s s' with rfl | hne
    · simp
    · simp [hne]
  case establish s' hpc =>
    rcases eq_or_ne s s' with rfl | hne
    · exact .inr ⟨hpc, by simp [Session.establish]⟩
    · exact .inl (by simp [hne])
  all_goals exact .inl rfl

/-- The worker does not touch `auth_stream`. -/
theorem authStream_main (h : MainStep env σ a σ') :
    (σ'.session s).authStream = (σ.session s).authStream := by
  cases h
  case clear s' hpc | establish s' hpc =>
    rcases eq_or_ne s s' with rfl | hne
    · simp [Session.establish]
    · simp [hne]
  all_goals rfl

theorem tied_callback (hw : Wf σ) (h : CallbackStep env σ a σ') (hs : Single σ st)
    (ht : Tied σ s st) : Tied σ' s st := by
  obtain ⟨_, huser, hlife⟩ := stream_callback h (single_allocated hw hs)
  refine ⟨huser.trans ht.user, fun hl => ?_⟩
  have hauth := ht.auth fun hf => hl (hlife.elim (·.trans hf) id)
  cases h with
  | @connected c hp =>
    have hne : s ≠ c := by
      rintro rfl
      have h := (hw.absent s hp).2.1
      rw [(hw.stream_user ht.user).2.1] at h
      cases h
    simpa only [Function.update_of_ne hne] using hauth
  | @hello st' s' =>
    rcases eq_or_ne s s' with rfl | hne
    · simpa using hauth
    · simpa [hne] using hauth
  | @left a c s' =>
    rcases eq_or_ne s s' with rfl | hne
    · simpa [setPhase] using hauth
    · simpa [setPhase, hne] using hauth
  | @authReq st' s' data f es hr hs' hst hon hf hes =>
    rcases eq_or_ne s s' with rfl | hne
    · simp [acceptedState, Session.stage, single_unique hw hs ht.user hs']
    · simpa [acceptedState, hne] using hauth
  | @bye st' s' =>
    rcases eq_or_ne s s' with rfl | hne
    · simpa using hauth
    · simpa [hne] using hauth
  | @streamClosed st' s' hr hs' =>
    rcases eq_or_ne s s' with rfl | hne
    · -- the stream closed is this one
      refine absurd ?_ hl
      rw [single_unique hw hs ht.user hs']
      simp
    · simpa [hne] using hauth
  | _ => exact hauth

theorem tied_main (h : MainStep env σ a σ') (ht : Tied σ s st) : Tied σ' s st where
  user := by rw [stream_main h]; exact ht.user
  auth := by rw [stream_main h, authStream_main h]; exact ht.auth

theorem settled_append (hf : (σ.stream st).life = .freed → (σ'.stream st).life = .freed)
    (htr : ∃ es, σ'.trace = es ++ σ.trace) (h : Settled σ st) : Settled σ' st := by
  obtain ⟨es, htr⟩ := htr
  refine h.imp hf fun h => ?_
  rw [htr]
  exact clientOn_append_established h

/-- A packet for a stream that is not settled is no CHAT_DELIVER. -/
theorem ordered_events (ho : Ordered (packetsOn σ.trace st)) (htr : σ'.trace = es ++ σ.trace)
    (hes : ∀ p, .sent st p true true ∈ es → (σ.stream st).life = .live ∧
      (p.msg.type = .chatDeliver → Settled σ st)) : Ordered (packetsOn σ'.trace st) := by
  rw [htr, packetsOn_append]
  refine ordered_append ho fun q hq ht => ?_
  obtain ⟨hl, hs⟩ := hes q (mem_packetsOn.mp hq)
  rcases hs ht with hf | h
  · rw [hl] at hf
    cases hf
  · exact h

theorem greeted_append {tr : List Event} (htr : ∃ es, σ'.trace = es ++ tr)
    (h : clientOn tr st ≠ .hello) : clientOn σ'.trace st ≠ .hello := by
  obtain ⟨es, htr⟩ := htr
  rw [htr]
  exact clientOn_append_ne_hello h

theorem hasStream_callback (h : CallbackStep env σ a σ') (hst : σ'.registry.HasStream st) :
    σ.registry.HasStream st := by
  cases h with
  | bye => exact hasStream_remove hst
  | freed => exact hasStream_without hst
  | _ => exact hst

/-- A message goes only to a stream whose client knows that it is logged in. -/
theorem StreamOrder.recipient (hi : StreamOrder σ st) (hP : AsksAnswered σ a)
    (h : Recipient σ a st) : Settled σ st := by
  rcases h with h | ⟨p, hp, hr⟩
  · refine (hi.entry h.hasStream).resolve_right ?_
    rintro ⟨s, hpc, ht, _⟩
    obtain ⟨e, he, hst, hk⟩ := h
    exact hP e.key hk e he rfl st hst s hpc ht.user
  · exact hi.chat p hp hr

end LoginOrderLemmas
open LoginOrderLemmas

namespace StreamOrder

variable {st : StreamId}

theorem callback (hi : StreamOrder σ st) (hw : Wf σ) (hsend : ∀ n, env.streamSend n = true)
    (hs : Single σ st) (hP : AsksAnswered σ a) (h : CallbackStep env σ a σ') :
    StreamOrder σ' st := by
  obtain ⟨es, htr, hes⟩ := callback_events h
  obtain ⟨_, huser, hlife⟩ := stream_callback h (single_allocated hw hs)
  have hsettled : Settled σ st → Settled σ' st :=
    settled_append (fun hf => hlife.elim (·.trans hf) id) ⟨es, htr⟩
  have hto : Recipient σ a st → Settled σ st := LoginOrderLemmas.StreamOrder.recipient hi hP
  constructor
  case entry =>
    intro hst
    refine (hi.entry (hasStream_callback h hst)).imp hsettled ?_
    rintro ⟨s, hpc, ht, hresp⟩
    rw [← callback_pc h] at hpc hresp
    exact ⟨s, hpc, tied_callback hw h hs ht,
      fun hl => hresp fun hf => hl (hlife.elim (·.trans hf) id)⟩
  case chat =>
    intro p hp hr
    refine hsettled ?_
    cases h with
    | chatLookup _ _ _ he =>
      rcases List.mem_cons.mp hp with rfl | hp
      · exact hto (.inl (hr ▸ he))
      · exact hi.chat p hp hr
    | chatForward => exact hi.chat p (List.mem_filter.mp hp).1 hr
    | _ => exact hi.chat p hp hr
  case loaded =>
    intro s hpc
    rw [callback_pc h] at hpc
    exact tied_callback hw h hs (hi.loaded s hpc)
  case greeted =>
    intro s hu hst
    rw [huser] at hu
    rcases state_callback hsend h with hstate | ⟨_, hstate⟩ | ⟨st', _, hu', _, hstate⟩
    · exact greeted_append ⟨es, htr⟩ (hi.greeted s hu (hstate ▸ hst))
    · exact absurd hstate hst
    · rw [single_unique hw hs hu hu'] at hstate
      exact hstate.elim (fun h => greeted_append ⟨es, htr⟩ (hi.greeted s hu h)) id
  case ordered =>
    refine ordered_events hi.ordered htr fun p hp => ?_
    obtain ⟨hl, hd⟩ := callback_sent (hes _ hp)
    exact ⟨hl, fun ht => hto (hd ht)⟩

/-- The answer reaches the client, or another step of the worker is due. -/
theorem answering_main (hi : StreamOrder σ st) (hw : Wf σ) (hsend : ∀ n, env.streamSend n = true)
    (hs : Single σ st) (href : ∀ s, Refers σ s → (σ.session s).state ≠ .hello)
    (h : MainStep env σ a σ') (ha : Answering σ st) : Settled σ' st ∨ Answering σ' st := by
  obtain ⟨s, hpc, ht, hresp⟩ := ha
  have ht' := tied_main h ht
  have other : ∀ pc, σ.pc = pc → pc.unanswered = none → Settled σ' st ∨ Answering σ' st := by
    intro pc hp hn
    rw [hp, hn] at hpc
    cases hpc
  cases h
  case signal => exact .inr ⟨s, hpc, ht', hresp⟩
  case establish s' hp =>
    rw [hp] at hpc
    cases hpc
    exact .inr ⟨s, rfl, ht', fun _ => nofun⟩
  case noStream s' ok hp hnone =>
    cases ok with
    | false => exact other _ hp rfl
    | true =>
      rw [hp] at hpc
      cases hpc
      refine .inl (.inl ?_)
      by_contra hl
      have hauth := ht.auth hl
      rw [hnone] at hauth
      cases hauth
  case stream s' ok st' hp hst' =>
    cases ok with
    | false => exact other _ hp rfl
    | true =>
      rw [hp] at hpc
      cases hpc
      refine .inr ⟨s, rfl, ht', fun hl st'' ok h => ?_⟩
      cases h
      exact Option.some.inj (hst'.symm.trans (ht.auth hl))
  case respond s' st' ok b hp hb =>
    cases ok with
    | false => exact other _ hp rfl
    | true =>
      by_cases hl : (σ.stream st).life = .freed
      · exact .inl (.inl hl)
      · refine .inl (.inr ?_)
        have hst : ∀ s, σ.pc.unanswered = some s → s' = s := by
          intro s hs
          rw [hp] at hs
          exact Option.some.inj hs
        obtain rfl := hst s hpc
        obtain rfl := hresp hl st' true hp
        obtain ⟨n, rfl⟩ := hb
        have hlive : σ.isLive st' = true := by
          refine OwnershipLemmas.isLive_iff.mpr ?_
          have := single_allocated hw hs
          cases hst : (σ.stream st').life <;> simp_all
        -- the client is past HELLO, so the AUTH_RESP establishes it
        have hne : clientOn (σ.touched s' ++ σ.trace) st' ≠ .hello :=
          clientOn_append_ne_hello (hi.greeted s' ht.user (href s' (.inl (by rw [hp]; rfl))))
        show clientOn (.sent st' _ (σ.isLive st') (env.streamSend n) ::
          (σ.touched s' ++ σ.trace)) st' = _
        rw [hlive, hsend, clientOn_sent]
        rcases nextStates_cases ((packetsOn (σ.touched s' ++ σ.trace) st').map (·.msg)) with h | h | h
        · exact absurd h hne
        · rw [clientOn, h]
          rfl
        · rw [clientOn, h]
          rfl
  case ending es pc hp hp' hes =>
    exact other _ rfl (by cases hpc : σ.pc <;> first | rfl | (rw [hpc] at hp; cases hp))
  all_goals exact other _ ‹σ.pc = _› rfl

theorem main (hi : StreamOrder σ st) (hw : Wf σ) (hsend : ∀ n, env.streamSend n = true)
    (hs : Single σ st) (href : ∀ s, Refers σ s → (σ.session s).state ≠ .hello)
    (h : MainStep env σ a σ') : StreamOrder σ' st := by
  obtain ⟨es, htr, hes⟩ := main_events h
  have hsettled : Settled σ st → Settled σ' st :=
    settled_append (fun hf => by rw [stream_main h]; exact hf) ⟨es, htr⟩
  have hentry : σ.registry.HasStream st → Settled σ' st ∨ Answering σ' st := fun hst =>
    (hi.entry hst).elim (.inl ∘ hsettled) (hi.answering_main hw hsend hs href h)
  have htied : ∀ s, Tied σ s st → Tied σ' s st := fun s => tied_main h
  constructor
  case entry =>
    intro hst
    cases h
    case added s o r hp hr =>
      obtain ⟨e', _, _, hstream, _, hused⟩ := mem_used_add hr
      obtain ⟨e, he, hes⟩ := hst
      rcases (hused e).mp he with he | rfl
      · exact hentry ⟨e, he, hes⟩
      · obtain rfl := hstream.symm.trans hes
        exact .inr ⟨s, rfl, htied s (hi.loaded s hp), fun _ => nofun⟩
    all_goals exact hentry hst
  case chat =>
    intro p hp hr
    rw [chats_main h] at hp
    exact hsettled (hi.chat p hp hr)
  case loaded =>
    intro s hpc
    refine htied s ?_
    have hload : σ'.pc.stream = some st := by rw [hpc]; rfl
    rcases StreamLifetimeLemmas.loaded_main h hload with heq | ⟨t, _, ht, ha⟩
    · exact hi.loaded s (heq ▸ hpc)
    · rw [hpc] at ht
      obtain rfl : s = t := Option.some.inj ht
      exact ⟨(hw.authStream s st ha).2, fun _ => ha⟩
  case greeted =>
    intro s hu hst
    rw [stream_main h] at hu
    refine greeted_append ⟨es, htr⟩ (hi.greeted s hu ?_)
    rcases state_main h with hstate | ⟨hp, _⟩
    · exact hstate ▸ hst
    · exact href s (.inl (by rw [hp]; rfl))
  case ordered =>
    refine ordered_events hi.ordered htr fun p hp => ?_
    obtain ⟨hl, hd⟩ := main_sent (hes _ hp)
    exact ⟨hl, fun ht => absurd ht hd⟩

end StreamOrder

namespace LoginOrderLemmas

variable {st : StreamId}

/-- On a stream that is not open yet nothing is sent. -/
theorem silent_events (hs : packetsOn σ.trace st = []) (htr : σ'.trace = es ++ σ.trace)
    (hl : (σ.stream st).life = .unallocated)
    (hes : ∀ p, .sent st p true true ∈ es → (σ.stream st).life = .live) :
    packetsOn σ'.trace st = [] := by
  rw [htr, packetsOn_append, hs, List.nil_append]
  refine List.eq_nil_iff_forall_not_mem.mpr fun p hp => ?_
  have hlive := hes p (mem_packetsOn.mp hp)
  rw [hl] at hlive
  cases hlive

end LoginOrderLemmas
open LoginOrderLemmas

namespace OrderInv

theorem init : OrderInv .init where
  held st h := by
    rcases h with ⟨e, he, _⟩ | ⟨p, hp, _⟩ | h
    · simp [Server.init] at he
    · cases hp
    · cases h
  silent _ _ := rfl
  started _ _ := rfl
  referred s h := by
    rcases h with h | h
    · cases h
    · exact absurd h Intrusive.not_mentions_empty
  order _ h := nomatch h

/-- A connection's first stream is opened before anything has happened on it. -/
theorem opened (hi : OrderInv σ) (hw : Wf σ) {c : ConnId} {st : StreamId}
    (hc : (σ.conn c).streams = []) (hst : (σ.stream st).life = .unallocated) :
    StreamOrder (onStreamOpen σ c st) st where
  entry h := absurd hst (hi.held st (.inl h))
  chat p hp hr := absurd hst (hi.held st (.inr (.inl ⟨p, hp, hr⟩)))
  loaded s hpc := absurd hst (hi.held st (.inr (.inr (by
    rw [show σ.pc = _ from hpc]
    rfl))))
  greeted s hu hst := by
    simp only [onStreamOpen, Function.update_self] at hu
    obtain ⟨rfl, _⟩ := hw.user c s hu
    exact absurd (hi.started s hc) hst
  ordered := by
    intro pre p post heq
    have hnil : packetsOn σ.trace st = [] := hi.silent st hst
    rw [show packetsOn (onStreamOpen σ c st).trace st = [] from hnil] at heq
    exact absurd (congrArg List.length heq) (by simp)

theorem callback (hi : OrderInv σ) (hw : Wf σ) (hk : Known σ)
    (hsend : ∀ n, env.streamSend n = true) (hP : AsksAnswered σ a)
    (h : CallbackStep env σ a σ') : OrderInv σ' := by
  obtain ⟨es, htr, hes⟩ := callback_events h
  constructor
  case held =>
    intro st hst hl
    have hne := hi.held st (held_callback h hst)
    obtain ⟨_, _, hlife⟩ := stream_callback h hne
    rw [hl] at hlife
    exact hlife.elim (fun h => hne h.symm) nofun
  case silent =>
    intro st hl
    have hl' : (σ.stream st).life = .unallocated := by
      by_contra hne
      obtain ⟨_, _, hlife⟩ := stream_callback h hne
      rw [hl] at hlife
      exact hlife.elim (fun h => hne h.symm) nofun
    exact silent_events (hi.silent st hl') htr hl' fun p hp => (callback_sent (hes _ hp)).1
  case started =>
    intro s hs
    rcases state_callback (s := s) hsend h with hstate | ⟨_, hstate⟩ | ⟨st, hr, hu, _⟩
    · rw [hstate]
      exact hi.started s (streams_callback hw h hs)
    · exact hstate
    · -- a packet has arrived on a stream of the connection
      have hm := (hw.opened st (by rw [(OwnershipLemmas.receivable_iff.mp hr).1]; nofun)).1
      rw [← (hw.stream_user hu).1, streams_callback hw h hs] at hm
      cases hm
  case referred =>
    intro s hr
    have hold : (σ.session s).state ≠ .hello ∧ σ.life s ≠ .unallocated := by
      rcases refers_callback h hr with hr | ⟨data, hon⟩
      · exact ⟨hi.referred s hr, hk s hr⟩
      · obtain ⟨st, _, hs, hst⟩ := OwnershipLemmas.authReqOn_some hon
        refine ⟨?_, (hw.stream_user hs).2.2⟩
        rw [hst]
        nofun
    rcases state_callback (s := s) hsend h with hstate | ⟨hp, _⟩ | ⟨_, _, _, hstate, _⟩
    · rw [hstate]
      exact hold.1
    · exact absurd (hw.absent s hp).1 hold.2
    · exact hstate
  case order =>
    intro st hs
    rcases single_callback h hs with hs | ⟨c, hc, hst, rfl⟩
    · exact (hi.order st hs).callback hw hsend hs hP h
    · exact hi.opened hw hc hst

theorem main (hi : OrderInv σ) (hw : Wf σ) (hsend : ∀ n, env.streamSend n = true)
    (h : MainStep env σ a σ') : OrderInv σ' := by
  obtain ⟨es, htr, hes⟩ := main_events h
  constructor
  case held =>
    intro st hst
    rw [stream_main h]
    rcases held_main h hst with hst | ⟨s, hs⟩
    · exact hi.held st hst
    · rw [(hw.authStream s st hs).1]
      nofun
  case silent =>
    intro st hl
    rw [stream_main h] at hl
    exact silent_events (hi.silent st hl) htr hl fun p hp => (main_sent (hes _ hp)).1
  case started =>
    intro s hs
    rw [conn_main h] at hs
    rcases state_main (s := s) h with hstate | ⟨hp, _⟩
    · rw [hstate]
      exact hi.started s hs
    · exact absurd (hi.started s hs) (hi.referred s (.inl (by rw [hp]; rfl)))
  case referred =>
    intro s hr
    rcases state_main (s := s) h with hstate | ⟨_, hstate⟩
    · rw [hstate]
      exact hi.referred s (refers_main h hr)
    · rw [hstate]
      nofun
  case order =>
    intro st hs
    have hs := single_main h hs
    exact (hi.order st hs).main hw hsend hs hi.referred h

end OrderInv

/-- While no CHAT_SEND asks for a user whose AUTH_RESP is outstanding, every client knows
that it is logged in before a message arrives, and discards none. -/
theorem loginOrdered_run {acts : List Action} (hsend : ∀ n, env.streamSend n = true)
    (hP : RunMeets env AsksAnswered acts) (h : serverRun env acts = some σ) : LoginOrdered σ := by
  have hi : OrderInv σ := run_induction .init (fun _ _ _ hw hk hi hp hs =>
    (step_cases hs).elim (hi.callback hw hk hsend hp) (hi.main hw hsend)) hP h
  constructor
  case delivered =>
    intro st hs pre p post heq ht
    have hest := (hi.order st hs).ordered pre p post heq ht
    refine ⟨?_, fun cenv => (receiveAll_state pre).trans hest⟩
    obtain ⟨m, hm, hok⟩ := nextStates_established hest
    obtain ⟨q, hq, rfl⟩ := List.mem_map.mp hm
    exact ⟨q, hq, hok⟩
  case shown =>
    intro st hs cenv s
    exact receiveAll_discards (hi.order st hs).ordered s

/-! ## 3. Concrete runs -/

instance {st : StreamId} : Decidable (Single σ st) := inferInstanceAs (Decidable (_ = _))

/-- `abc` logs in and sends a message to itself. -/
def ownMessage : List Action := abcLogin ++ [.received 0 (emptyChat [97, 98, 99] 0)]

theorem loginOrdered_ownMessage : ∃ σ, serverRun (.fair abcUsers) ownMessage = some σ ∧
    Single σ 0 ∧ (packetsOn σ.trace 0).map (·.msg.type) = [.helloAck, .authResp, .chatDeliver] ∧
      LoginOrdered σ := by
  obtain ⟨σ, hr, hs, hp⟩ := serverRun_reaches (.fair abcUsers) ownMessage (fun σ => Single σ 0 ∧
    (packetsOn σ.trace 0).map (·.msg.type) = [.helloAck, .authResp, .chatDeliver])
    (by decide +kernel)
  exact ⟨σ, hr, hs, hp, loginOrdered_run (fun _ => rfl) (by decide +kernel) hr⟩

/-- Two users with a hash of zeros: `abc` and `bob`. -/
def twoUsers : Bytes := abcUsers ++ [98, 111, 98, 58] ++ List.replicate 64 48 ++ [10]

/-- `abc` is logged in; its message to `bob` is handled right behind the registration of
`bob`. -/
def messageBehindAdd : List Action :=
  abcLogin ++ greet 1 ++ .received 1 (authReqBytes 3 [98, 111, 98] []) ::
    List.replicate 8 .worker ++ .received 0 (emptyChat [98, 111, 98] 0) :: List.replicate 3 .worker

theorem delivered_before_login : ∃ env acts σ, (∀ n, env.streamSend n = true) ∧
    serverRun env acts = some σ ∧ Single σ 1 ∧
      (packetsOn σ.trace 1).map (·.msg.type) = [.helloAck, .chatDeliver, .authResp] ∧
        ¬ LoginOrdered σ := by
  obtain ⟨σ, hr, hs, hp⟩ := serverRun_reaches (.fair twoUsers) messageBehindAdd (fun σ =>
    Single σ 1 ∧ (packetsOn σ.trace 1).map (·.msg.type) = [.helloAck, .chatDeliver, .authResp])
    (by decide +kernel)
  refine ⟨.fair twoUsers, messageBehindAdd, σ, fun _ => rfl, hr, hs, hp, fun h => ?_⟩
  obtain ⟨p, ps, hps, hp, htl⟩ := List.map_eq_cons_iff.mp hp
  obtain ⟨q, qs, rfl, hq, _⟩ := List.map_eq_cons_iff.mp htl
  obtain ⟨⟨r, hr, hok⟩, _⟩ := h.delivered 1 hs [p] q qs hps hq
  rw [List.mem_singleton.mp hr] at hok
  cases hm : p.msg <;> rw [hm] at hp hok <;> first | exact absurd hok Bool.false_ne_true | cases hp

end SquimpChat
