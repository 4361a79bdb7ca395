import SquimpChat.Steps

/-!
# What a step leaves in the trace

`CallbackEvent` and `MainEvent` list the events of a step together with what held
when they happened. A property of all events of a run is an invariant as soon as
these events have it.

Results:
1. `callback_events`, `main_events`: the events of a step.
2. `callback_auth`: a callback accepts an AUTH_REQ or leaves all logins alone.
-/

namespace SquimpChat
open Octets StepLemmas

/-! ## Callbacks -/

/-- The sessions a callback looks at. -/
inductive Accesses (σ : Server) : SessionId → Prop
  | stream {st : StreamId} {s : SessionId} (hr : receivable σ st = true)
      (hs : (σ.stream st).userData = some s) : Accesses σ s
  | chat {p : PendingChat} (hp : p ∈ σ.chats) : Accesses σ p.session
  | conn {c : ConnId} {s : SessionId} (hp : (σ.conn c).phase ≠ .closed)
      (hs : (σ.conn c).userData = some s) : Accesses σ s
  | tail {s : SessionId} (hs : σ.queue.tail = some s) : Accesses σ s

/-- The streams a callback answers on: the packet's own and that of a suspended handler. -/
def OwnStream (σ : Server) (st : StreamId) : Prop :=
  receivable σ st = true ∨ ∃ p ∈ σ.chats, p.stream = st

/-- The streams a CHAT_SEND is forwarded to. -/
def Recipient (σ : Server) (a : Action) (st : StreamId) : Prop :=
  Addresses σ a st ∨ ∃ p ∈ σ.chats, p.recipient = st

/-- What a callback may leave in the trace. -/
inductive CallbackEvent (σ : Server) (a : Action) : Event → Prop
  | touched {s : SessionId} (ha : Accesses σ s) (h : σ.life s ≠ .live) :
      CallbackEvent σ a (.useAfterFree s)
  | reply {st : StreamId} {p : Packet} {ok : Bool} (hst : OwnStream σ st)
      (hp : p.msg.isReply = true) : CallbackEvent σ a (.sent st p (σ.isLive st) ok)
  | helloAck {st : StreamId} {sid : UInt32} {m : MsgHelloAck} {ok : Bool} (hst : OwnStream σ st) :
      CallbackEvent σ a (.sent st ⟨sid, .helloAck m⟩ (σ.isLive st) ok)
  | deliver {st : StreamId} {sid : UInt32} {m : MsgChatDeliver} {ok : Bool}
      (hst : Recipient σ a st) : CallbackEvent σ a (.sent st ⟨sid, .chatDeliver m⟩ (σ.isLive st) ok)
  | sender {s : SessionId} :
      CallbackEvent σ a (.copied .deliverSender (σ.session s).usernameLen.toNat)
  | respName {e : RegistryEntry} (he : e ∈ σ.registry.used) :
      CallbackEvent σ a (.copied .respUsername e.usernameLen.toNat)
  | nullSession : CallbackEvent σ a .nullSession
  | noMemory : CallbackEvent σ a .noMemory
  | outOfRange {e : OutOfRange} : CallbackEvent σ a (.outOfRange e)
  | authReq {s : SessionId} {data : Bytes} {f : AuthFields}
      (hon : authReqOn σ a = some (s, data)) (hf : readAuthReq data = .ok f) :
      CallbackEvent σ a (.authReq s f)
  | authCopied {s : SessionId} {data : Bytes} {f : AuthFields}
      (hon : authReqOn σ a = some (s, data)) (hf : readAuthReq data = .ok f) :
      CallbackEvent σ a (.copied .authUsername f.usernameLen.toNat)
  | enqueued {s : SessionId} {data : Bytes} (hon : authReqOn σ a = some (s, data)) :
      CallbackEvent σ a (.enqueued s)
  | freed {c : ConnId} {s : SessionId} (h : Disconnects σ a c false)
      (hs : (σ.conn c).userData = some s) :
      CallbackEvent σ a (if σ.life s = .live then .freed s else .doubleFree s)

namespace EventLemmas

variable {σ : Server} {a : Action}

theorem event_of_answer {st : StreamId} {s : SessionId} {R : StreamId → Prop} {e : Event}
    (h : Answer σ st s R e) (ha : Accesses σ s) (hst : OwnStream σ st)
    (hR : ∀ r, R r → Recipient σ a r) : CallbackEvent σ a e := by
  cases h with
  | touched h => exact .touched ha h
  | reply hp => exact .reply hst hp
  | deliver hr => exact .deliver (hR _ hr)
  | sender => exact .sender
  | respName he => exact .respName he
  | noMemory => exact .noMemory
  | outOfRange => exact .outOfRange

theorem event_of_touched {s : SessionId} {e : Event} (ha : Accesses σ s) (h : e ∈ σ.touched s) :
    CallbackEvent σ a e := by
  obtain ⟨hl, rfl⟩ := mem_touched.mp h
  exact .touched ha hl

theorem disconnects_open {c : ConnId} {q : Bool} (h : Disconnects σ a c q) :
    (σ.conn c).phase ≠ .closed := by
  rcases h with ⟨_, hc, _⟩ | ⟨_, hp⟩
  · simp only [callbackFree, Bool.and_eq_true, decide_eq_true_eq] at hc
    rw [hc.1]
    nofun
  · rw [hp]
    nofun

end EventLemmas
open EventLemmas

theorem callback_events {env : Env} {σ σ' : Server} {a : Action} (h : CallbackStep env σ a σ') :
    ∃ es, σ'.trace = es ++ σ.trace ∧ ∀ e ∈ es, CallbackEvent σ a e := by
  cases h with
  | ignored ha hes => exact ⟨_, rfl, fun e he => hes e he ▸ .nullSession⟩
  | answered ha hs hes =>
    exact ⟨_, rfl, fun e he => event_of_answer (hes e he) (.stream ha.2 hs) (.inl ha.2)
      fun _ h => .inl h⟩
  | hello hr hs hst hok =>
    refine ⟨_, rfl, List.forall_mem_cons.mpr ⟨.helloAck (.inl hr), fun e he => ?_⟩⟩
    exact event_of_touched (.stream hr hs) he
  | authReq hr hs hst hon hf hes =>
    refine ⟨_, rfl, List.forall_mem_cons.mpr ⟨.enqueued hon, fun e he => ?_⟩⟩
    rcases List.mem_append.mp he with he | he
    · obtain ⟨t, ht, he⟩ := hes e he
      exact event_of_touched (.tail ht) he
    · rcases List.mem_cons.mp he with rfl | he
      · exact .authCopied hon hf
      · rcases List.mem_cons.mp he with rfl | he
        · exact .authReq hon hf
        · exact event_of_touched (.stream hr hs) he
  | bye hr hs hst => exact ⟨_, rfl, fun e he => event_of_touched (.stream hr hs) he⟩
  | chatLookup hr hs hst he => exact ⟨_, rfl, fun e he => event_of_touched (.stream hr hs) he⟩
  | @chatForward p es hp hes =>
    exact ⟨_, rfl, fun e he => event_of_answer (hes e he) (.chat hp) (.inr ⟨p, hp, rfl⟩)
      fun r hr => .inr ⟨p, hp, hr.symm⟩⟩
  | streamClosed hr hs => exact ⟨_, rfl, fun e he => event_of_touched (.stream hr hs) he⟩
  | disconnectLoad hc hcl hq hes =>
    refine ⟨_, rfl, fun e he => ?_⟩
    obtain ⟨s, hs, he⟩ := hes e he
    exact event_of_touched (.conn (disconnects_open (.inl ⟨rfl, hc, hcl, hq⟩)) hs) he
  | left h hs hes =>
    exact ⟨_, rfl, fun e he => event_of_touched (.conn (disconnects_open h) hs) (hes e he)⟩
  | @freed _ _ s es h hs hes =>
    refine ⟨_ :: es, rfl, List.forall_mem_cons.mpr ⟨.freed h hs, fun e he => ?_⟩⟩
    exact event_of_touched (.conn (disconnects_open h) hs) (hes e he)
  | _ => exact ⟨[], rfl, by simp⟩

/-- An event of the trace is one of the step, or was there before. -/
theorem callback_mem {env : Env} {σ σ' : Server} {a : Action} (h : CallbackStep env σ a σ')
    {e : Event} (he : e ∈ σ'.trace) : CallbackEvent σ a e ∨ e ∈ σ.trace := by
  obtain ⟨es, htr, hes⟩ := callback_events h
  rw [htr] at he
  exact (List.mem_append.mp he).imp_left (hes e)

/-- The events of the login of a session. -/
def Event.isAuth : Event → Bool
  | authReq .. | enqueued _ | dequeued _ | verified .. | registered .. | established .. => true
  | _ => false

/-- Nothing happens to the auth queue or to a login. -/
structure AuthIdle (σ σ' : Server) : Prop where
  trace : ∃ es, σ'.trace = es ++ σ.trace ∧ ∀ e ∈ es, e.isAuth = false
  queue : σ'.queue = σ.queue
  queueSem : σ'.queueSem = σ.queueSem
  pc : σ'.pc = σ.pc

/-- An AUTH_REQ is accepted. -/
structure AuthAccepted (σ σ' : Server) (a : Action) (s : SessionId) (f : AuthFields) : Prop where
  on : ∃ data, authReqOn σ a = some (s, data) ∧ readAuthReq data = .ok f
  state : ∃ st es, receivable σ st = true ∧ (σ.stream st).userData = some s ∧
    (∀ e ∈ es, e.isAuth = false) ∧ σ' = acceptedState σ st s f es

theorem touched_isAuth {σ : Server} {s : SessionId} : ∀ e ∈ σ.touched s, e.isAuth = false := by
  intro e he
  obtain ⟨_, rfl⟩ := mem_touched.mp he
  rfl

/-- Callbacks touch a login only by accepting an AUTH_REQ. -/
theorem callback_auth {env : Env} {σ σ' : Server} {a : Action} (h : CallbackStep env σ a σ') :
    AuthIdle σ σ' ∨ ∃ s f, AuthAccepted σ σ' a s f := by
  have answers : ∀ {st s R} {es : List Event}, (∀ e ∈ es, Answer σ st s R e) →
      ∀ e ∈ es, e.isAuth = false := fun hes e he => by cases hes e he <;> rfl
  cases h with
  | @authReq st s data f es hr hs hst hon hf hes =>
    refine .inr ⟨s, f, ⟨data, hon, hf⟩, st, es, hr, hs, fun e he => ?_, rfl⟩
    obtain ⟨t, _, he⟩ := hes e he
    exact touched_isAuth e he
  | ignored ha hes => exact .inl ⟨⟨_, rfl, fun e he => hes e he ▸ rfl⟩, rfl, rfl, rfl⟩
  | answered ha hs hes => exact .inl ⟨⟨_, rfl, answers hes⟩, rfl, rfl, rfl⟩
  | chatForward hp hes => exact .inl ⟨⟨_, rfl, answers hes⟩, rfl, rfl, rfl⟩
  | hello hr hs hst hok =>
    exact .inl ⟨⟨_, rfl, List.forall_mem_cons.mpr ⟨rfl, touched_isAuth⟩⟩, rfl, rfl, rfl⟩
  | bye | chatLookup | streamClosed => exact .inl ⟨⟨_, rfl, touched_isAuth⟩, rfl, rfl, rfl⟩
  | disconnectLoad hc hcl hq hes =>
    refine .inl ⟨⟨_, rfl, fun e he => ?_⟩, rfl, rfl, rfl⟩
    obtain ⟨s, _, he⟩ := hes e he
    exact touched_isAuth e he
  | left h hs hes =>
    exact .inl ⟨⟨_, rfl, fun e he => touched_isAuth e (hes e he)⟩, rfl, rfl, rfl⟩
  | freed h hs hes =>
    refine .inl ⟨⟨_ :: _, rfl, List.forall_mem_cons.mpr ⟨?_, fun e he => ?_⟩⟩, rfl, rfl, rfl⟩
    · split <;> rfl
    · exact touched_isAuth e (hes e he)
  | _ => exact .inl ⟨⟨[], rfl, by simp⟩, rfl, rfl, rfl⟩

/-- A packet that a callback sends. -/
inductive CallbackSent (σ : Server) (a : Action) (st : StreamId) (p : Packet) : Prop
  | reply (hst : OwnStream σ st) (hp : p.msg.isReply = true)
  | helloAck (hst : OwnStream σ st) (hp : p.msg.type = .helloAck)
  | deliver (hst : Recipient σ a st) (hp : p.msg.type = .chatDeliver)

theorem callback_packet {σ : Server} {a : Action} {st : StreamId} {p : Packet} {live ok : Bool}
    (h : CallbackEvent σ a (.sent st p live ok)) :
    live = σ.isLive st ∧ CallbackSent σ a st p := by
  generalize hd : Event.sent st p live ok = e at h
  cases h with
  | reply hst hp =>
    cases hd
    exact ⟨rfl, .reply hst hp⟩
  | helloAck hst =>
    cases hd
    exact ⟨rfl, .helloAck hst rfl⟩
  | deliver hst =>
    cases hd
    exact ⟨rfl, .deliver hst rfl⟩
  | freed => split at hd <;> cases hd
  | _ => cases hd

theorem callback_dequeues {σ : Server} {a : Action} {o : Option SessionId} :
    ¬ CallbackEvent σ a (.dequeued o) := by
  intro h
  generalize hd : Event.dequeued o = e at h
  cases h with
  | freed => split at hd <;> cases hd
  | _ => cases hd

theorem callback_registers {σ : Server} {a : Action} {s : SessionId} {k : Key}
    {o : Option StreamId} {pk : Buf 32} : ¬ CallbackEvent σ a (.registered s k o pk) := by
  intro h
  generalize hd : Event.registered s k o pk = e at h
  cases h with
  | freed => split at hd <;> cases hd
  | _ => cases hd

/-! ## The main thread -/

/-- What a step of the main thread may leave in the trace. -/
inductive MainEvent (env : Env) (σ : Server) : Event → Prop
  | touched {s : SessionId} (hs : σ.pc.pending = some s ∨ σ.pc = .unlink ∧ σ.queue.head = some s)
      (h : σ.life s ≠ .live) : MainEvent env σ (.useAfterFree s)
  | dequeued {o : Option SessionId} (hpc : σ.pc = .unlink) (ho : σ.queue.dequeue.1 = o) :
      MainEvent env σ (.dequeued o)
  | freed {s : SessionId} (hpc : σ.pc = .cleared s) (hc : (σ.session s).connClosed = true) :
      MainEvent env σ (if σ.life s = .live then .freed s else .doubleFree s)
  | copied {s : SessionId} {field : NameField} :
      MainEvent env σ (.copied field (σ.session s).authUsernameLen.toNat)
  | verified {s : SessionId} {ok : Bool} (hpc : σ.pc = .checked s) :
      MainEvent env σ (.verified s (workerUsername (σ.session s)) (σ.session s).authPasswordHash ok)
  | registered {s : SessionId} {st : Option StreamId} (hpc : σ.pc = .loaded s st) :
      MainEvent env σ (.registered s (σ.session s).authName st (σ.session s).authPubkey)
  | established {s : SessionId} (hpc : σ.pc = .added s) :
      MainEvent env σ (.established s (σ.session s).establish.name)
  | authResp {s : SessionId} {st : StreamId} {ok b : Bool} (hpc : σ.pc = .responding s st ok) :
      MainEvent env σ (.sent st (authRespPacket (σ.session s) ok) (σ.isLive st) b)
  | bye {st : StreamId} {ok : Bool} (hst : σ.registry.HasStream st) :
      MainEvent env σ (.sent st ⟨0, .bye⟩ (σ.isLive st) ok)
  | connShutdown {st : StreamId} (hst : σ.registry.HasStream st) :
      MainEvent env σ (.connShutdown st (σ.isLive st))

theorem main_events {env : Env} {σ σ' : Server} {a : Action} (h : MainStep env σ a σ') :
    ∃ es, σ'.trace = es ++ σ.trace ∧ ∀ e ∈ es, MainEvent env σ e := by
  have touched : ∀ s, σ.pc.pending = some s → ∀ e ∈ σ.touched s, MainEvent env σ e := by
    intro s hs e he
    obtain ⟨hl, rfl⟩ := mem_touched.mp he
    exact .touched (.inl hs) hl
  cases h
  case test | semWait | interrupted | signal => exact ⟨[], rfl, by simp⟩
  case unlinkNull hpc hq => exact ⟨[_], rfl, by simpa using .dequeued hpc hq⟩
  case unlink s hpc hq =>
    refine ⟨_, rfl, List.forall_mem_cons.mpr ⟨.dequeued hpc hq, fun e he => ?_⟩⟩
    obtain ⟨hl, rfl⟩ := mem_touched.mp he
    exact .touched (.inr ⟨hpc, Intrusive.dequeue_head hq⟩) hl
  case checkClosed s hpc hc =>
    exact ⟨_ :: _, rfl, List.forall_mem_cons.mpr ⟨.freed hpc hc, touched s (by rw [hpc]; rfl)⟩⟩
  case verify s ok hpc hok =>
    exact ⟨_, rfl, List.forall_mem_cons.mpr ⟨.verified hpc, List.forall_mem_cons.mpr
      ⟨.copied, touched s (by rw [hpc]; rfl)⟩⟩⟩
  case added s st r hpc hr =>
    exact ⟨_, rfl, List.forall_mem_cons.mpr ⟨.registered hpc, List.forall_mem_cons.mpr
      ⟨.copied, touched s (by rw [hpc]; rfl)⟩⟩⟩
  case establish s hpc =>
    exact ⟨_, rfl, List.forall_mem_cons.mpr ⟨.established hpc, List.forall_mem_cons.mpr
      ⟨.copied, touched s (by rw [hpc]; rfl)⟩⟩⟩
  case respond s st ok b hpc hb =>
    exact ⟨_, rfl, List.forall_mem_cons.mpr ⟨.authResp hpc, touched s (by rw [hpc]; rfl)⟩⟩
  case ending es pc hpc hpc' hes =>
    refine ⟨es, rfl, fun e he => ?_⟩
    obtain ⟨st, hst, ⟨ok, rfl⟩ | rfl⟩ := hes e he
    · exact .bye hst
    · exact .connShutdown hst
  all_goals exact ⟨_, rfl, touched _ (by rw [‹σ.pc = _›]; rfl)⟩

theorem main_mem {env : Env} {σ σ' : Server} {a : Action} (h : MainStep env σ a σ') {e : Event}
    (he : e ∈ σ'.trace) : MainEvent env σ e ∨ e ∈ σ.trace := by
  obtain ⟨es, htr, hes⟩ := main_events h
  rw [htr] at he
  exact (List.mem_append.mp he).imp_left (hes e)

/-- A packet that the main thread sends. -/
inductive MainSent (σ : Server) (st : StreamId) (p : Packet) : Prop
  | authResp {s : SessionId} {ok : Bool} (hpc : σ.pc = .responding s st ok)
      (hp : p = authRespPacket (σ.session s) ok)
  | bye (hst : σ.registry.HasStream st) (hp : p.msg.type = .bye)

section Main

variable {env : Env} {σ : Server}

theorem main_packet {st : StreamId} {p : Packet} {live ok : Bool}
    (h : MainEvent env σ (.sent st p live ok)) : live = σ.isLive st ∧ MainSent σ st p := by
  generalize hd : Event.sent st p live ok = e at h
  cases h with
  | authResp hpc =>
    cases hd
    exact ⟨rfl, .authResp hpc rfl⟩
  | bye hst =>
    cases hd
    exact ⟨rfl, .bye hst rfl⟩
  | freed => split at hd <;> cases hd
  | _ => cases hd

theorem main_dequeues {o : Option SessionId} (h : MainEvent env σ (.dequeued o)) :
    σ.pc = .unlink ∧ σ.queue.dequeue.1 = o := by
  generalize hd : Event.dequeued o = e at h
  cases h with
  | dequeued hpc ho =>
    cases hd
    exact ⟨hpc, ho⟩
  | freed => split at hd <;> cases hd
  | _ => cases hd

theorem main_registers {s : SessionId} {k : Key} {o : Option StreamId} {pk : Buf 32}
    (h : MainEvent env σ (.registered s k o pk)) : σ.pc = .loaded s o := by
  generalize hd : Event.registered s k o pk = e at h
  cases h with
  | registered hpc =>
    cases hd
    exact hpc
  | freed => split at hd <;> cases hd
  | _ => cases hd

end Main

end SquimpChat
