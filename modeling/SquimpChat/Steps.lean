import SquimpChat.System

/-!
# What a step can do

The inversion of `step`. A callback either answers a packet, which only lengthens
the trace (`Answer` says by which events), or makes one of the changes of state
that `CallbackStep` lists; a step of the main thread is one of `MainStep`. The
invariants of the following modules split on these constructors and look into
no handler.

`authReqOn` names the AUTH_REQs that the handler accepts: most conditions on runs
are about them.

Results:
1. `onStreamRecv_ok`: what a handler call does.
2. `step_cases`: every step of the system is a `CallbackStep` or a `MainStep`.
-/

namespace SquimpChat
open Octets

variable (env : Env) (σ : Server)

/-- The messages a handler answers with on the packet's own stream. -/
def Msg.isReply : Msg → Bool
  | .error _ | .bye | .keyResp _ => true
  | _ => false

/-- The events of a packet of session `s` on the stream `st` that changes no state.
A CHAT_SEND may reach the streams of `R`. -/
inductive Answer (st : StreamId) (s : SessionId) (R : StreamId → Prop) : Event → Prop
  | touched (h : σ.life s ≠ .live) : Answer st s R (.useAfterFree s)
  | reply {p : Packet} {ok : Bool} (hp : p.msg.isReply = true) :
      Answer st s R (.sent st p (σ.isLive st) ok)
  | deliver {r : StreamId} {sid : UInt32} {m : MsgChatDeliver} {ok : Bool} (hr : R r) :
      Answer st s R (.sent r ⟨sid, .chatDeliver m⟩ (σ.isLive r) ok)
  | sender : Answer st s R (.copied .deliverSender (σ.session s).usernameLen.toNat)
  | respName {e : RegistryEntry} (he : e ∈ σ.registry.used) :
      Answer st s R (.copied .respUsername e.usernameLen.toNat)
  | noMemory : Answer st s R .noMemory
  | outOfRange {e : OutOfRange} : Answer st s R (.outOfRange e)

/-- Only answers are added to the trace. -/
def Answers (st : StreamId) (s : SessionId) (R : StreamId → Prop) (σ' : Server) : Prop :=
  ∃ es, σ' = σ.append es ∧ ∀ e ∈ es, Answer σ st s R e

/-- The session and the packet of an AUTH_REQ in state AUTH, when the action is one. -/
def authReqOn : Action → Option (SessionId × Bytes)
  | .received st data =>
    if dispatch serverHandles data = .ok (some .authReq) then
      ((σ.stream st).userData.filter fun s => (σ.session s).state = .auth).map (·, data)
    else none
  | _ => none

/-! ## Steps -/

/-- Accesses to a session leave an event only when it is not allocated. -/
def Touches (s : SessionId) (es : List Event) : Prop := ∀ e ∈ es, e ∈ σ.touched s

/-- A RECEIVE on the stream of an idle connection. -/
def Receives (a : Action) (st : StreamId) : Prop :=
  (∃ data, a = .received st data ∨ a = .chatLookup st data) ∧ receivable σ st = true

/-- The connection's `on_disconnected` decides, `queued` being its load of `auth_queued`. -/
def Disconnects (a : Action) (c : ConnId) (queued : Bool) : Prop :=
  (a = .disconnected c ∧ callbackFree σ c = true ∧ streamsClosed σ c = true ∧
    ∀ s, (σ.conn c).userData = some s → queued = (σ.session s).authQueued) ∨
  (a = .disconnectRest c ∧ (σ.conn c).phase = .disconnecting queued)

/-- The registry behind the free of a session. -/
def registryWithout (s : SessionId) : Registry :=
  if (σ.session s).state = .connEstablished then
    sqmpRegistryRemove σ.registry (σ.session s).username (σ.session s).usernameLen
  else σ.registry

/-- The state behind an accepted AUTH_REQ; the write to the tail's link has left `es`. -/
def acceptedState (st : StreamId) (s : SessionId) (f : AuthFields) (es : List Event) : Server :=
  { (σ.append (.enqueued s :: (es ++ .copied .authUsername f.usernameLen.toNat ::
      .authReq s f :: σ.touched s))).modify s (·.stage f st) with
    queue := σ.queue.enqueue s
    queueSem := σ.queueSem + 1 }

def Registry.HasStream (r : Registry) (st : StreamId) : Prop := ∃ e ∈ r.used, e.stream = some st

/-- The counted name a CHAT_SEND asks for. -/
def chatRecipient (data : Bytes) : Option Key :=
  if dispatch serverHandles data = .ok (some .chatSend) then
    match Pkt.chatNameLen data with
    | .ok n => (Pkt.chatName data n.toNat).toOption.map (n, ·)
    | .error _ => none
  else none

/-- The counted name that the CHAT_SEND of an established session asks for, when the action is
one. -/
def chatAsked : Action → Option Key
  | .received st data | .chatLookup st data =>
    if (σ.stream st).userData.any (fun s => (σ.session s).state = .connEstablished) then
      chatRecipient data
    else none
  | _ => none

/-- The action is a CHAT_SEND to the name of an entry with this stream. -/
def Addresses (a : Action) (r : StreamId) : Prop :=
  ∃ e ∈ σ.registry.used, e.stream = some r ∧ chatAsked σ a = some e.key

theorem Addresses.hasStream {σ : Server} {a : Action} {r : StreamId} (h : Addresses σ a r) :
    σ.registry.HasStream r := by
  obtain ⟨e, he, hr, _⟩ := h
  exact ⟨e, he, hr⟩

inductive CallbackStep : Action → Server → Prop
  | connected {c : ConnId} (hp : (σ.conn c).phase = .absent) :
      CallbackStep (.connected c) { σ with
        session := Function.update σ.session c .fresh
        life := Function.update σ.life c .live
        conn := Function.update σ.conn c ⟨.connected, some c, []⟩ }
  | connectedNull {c : ConnId} (hp : (σ.conn c).phase = .absent) :
      CallbackStep (.connected c) { σ with conn := Function.update σ.conn c ⟨.connected, none, []⟩ }
  | streamOpened {c : ConnId} {st : StreamId} (hc : callbackFree σ c = true)
      (hst : (σ.stream st).life = .unallocated) :
      CallbackStep (.streamOpened c st) (onStreamOpen σ c st)
  | ignored {a : Action} {st : StreamId} {es : List Event} (ha : Receives σ a st)
      (hes : ∀ e ∈ es, e = .nullSession) : CallbackStep a (σ.append es)
  | answered {a : Action} {st : StreamId} {s : SessionId} {es : List Event} (ha : Receives σ a st)
      (hs : (σ.stream st).userData = some s)
      (hes : ∀ e ∈ es, Answer σ st s (Addresses σ a) e) : CallbackStep a (σ.append es)
  | hello {st : StreamId} {s : SessionId} {data : Bytes} {ok : Bool}
      (hr : receivable σ st = true) (hs : (σ.stream st).userData = some s)
      (hst : (σ.session s).state = .hello) (hok : ∃ n, ok = env.streamSend n) :
      CallbackStep (.received st data)
        { (σ.append (.sent st ⟨σ.nextSessionId, .helloAck ⟨1, 65535⟩⟩ (σ.isLive st) ok ::
            σ.touched s)).modify s
            fun x => { x with sessionId := σ.nextSessionId, state := .auth } with
          nextSessionId := σ.nextSessionId + 1 }
  | authReq {st : StreamId} {s : SessionId} {data : Bytes} {f : AuthFields} {es : List Event}
      (hr : receivable σ st = true) (hs : (σ.stream st).userData = some s)
      (hst : (σ.session s).state = .auth) (hon : authReqOn σ (.received st data) = some (s, data))
      (hf : readAuthReq data = .ok f)
      (hes : ∀ e ∈ es, ∃ t, σ.queue.tail = some t ∧ e ∈ σ.touched t) :
      CallbackStep (.received st data) (acceptedState σ st s f es)
  | bye {st : StreamId} {s : SessionId} {data : Bytes} (hr : receivable σ st = true)
      (hs : (σ.stream st).userData = some s) (hst : (σ.session s).state = .connEstablished) :
      CallbackStep (.received st data)
        { (σ.append (σ.touched s)).modify s fun x => { x with state := .closing } with
          registry := sqmpRegistryRemove σ.registry (σ.session s).username
            (σ.session s).usernameLen }
  | chatLookup {st r : StreamId} {s : SessionId} {data : Bytes} (hr : receivable σ st = true)
      (hs : (σ.stream st).userData = some s) (hst : (σ.session s).state = .connEstablished)
      (he : Addresses σ (.chatLookup st data) r) :
      CallbackStep (.chatLookup st data) { σ.append (σ.touched s) with
        chats := ⟨(σ.stream st).conn, st, s, data, r⟩ :: σ.chats }
  | chatForward {p : PendingChat} {es : List Event} (hp : p ∈ σ.chats)
      (hes : ∀ e ∈ es, Answer σ p.stream p.session (· = p.recipient) e) :
      CallbackStep (.chatForward p.conn) { σ.append es with
        chats := σ.chats.filter (·.conn ≠ p.conn) }
  | streamClosed {st : StreamId} {s : SessionId} (hr : receivable σ st = true)
      (hs : (σ.stream st).userData = some s) :
      CallbackStep (.streamClosed st)
        { (σ.append (σ.touched s)).modify s fun x => { x with authStream := none } with
          stream := Function.update σ.stream st { σ.stream st with life := .freed } }
  | streamClosedNull {st : StreamId} (hr : receivable σ st = true)
      (hs : (σ.stream st).userData = none) :
      CallbackStep (.streamClosed st)
        { σ with stream := Function.update σ.stream st { σ.stream st with life := .freed } }
  | disconnectLoad {c : ConnId} {q : Bool} {es : List Event} (hc : callbackFree σ c = true)
      (hcl : streamsClosed σ c = true)
      (hq : ∀ s, (σ.conn c).userData = some s → q = (σ.session s).authQueued)
      (hes : ∀ e ∈ es, ∃ s, (σ.conn c).userData = some s ∧ e ∈ σ.touched s) :
      CallbackStep (.disconnectLoad c) (setPhase (σ.append es) c (.disconnecting q))
  | disconnectNull {a : Action} {c : ConnId} {q : Bool} (h : Disconnects σ a c q)
      (hs : (σ.conn c).userData = none) : CallbackStep a (setPhase σ c .closed)
  /-- the session is left to the worker -/
  | left {a : Action} {c : ConnId} {s : SessionId} {es : List Event} (h : Disconnects σ a c true)
      (hs : (σ.conn c).userData = some s) (hes : Touches σ s es) :
      CallbackStep a (setPhase
        ((σ.append es).modify s fun x => { x with connClosed := true }) c .closed)
  | freed {a : Action} {c : ConnId} {s : SessionId} {es : List Event}
      (h : Disconnects σ a c false) (hs : (σ.conn c).userData = some s) (hes : Touches σ s es) :
      CallbackStep a (setPhase
        { (σ.append es).free s with registry := registryWithout σ s } c .closed)

/-- The main thread is past its loop. -/
def WorkerPc.isEnding : WorkerPc → Bool
  | farewell _ | shutdown _ | exited => true
  | _ => false

/-- The loop ends, or the thread waits for the next session. -/
def loopTest : WorkerPc := if σ.stop then .farewell 0 else .semWait

@[elab_as_elim]
theorem loopTest_cases {motive : WorkerPc → Prop} (hf : motive (.farewell 0))
    (hs : motive .semWait) : motive (loopTest σ) := by
  unfold loopTest
  split
  · exact hf
  · exact hs

inductive MainStep : Action → Server → Prop
  | test (hpc : σ.pc = .test) : MainStep .worker { σ with pc := loopTest σ }
  | semWait {n : Nat} (hpc : σ.pc = .semWait) (hn : σ.queueSem = n + 1) :
      MainStep .worker { σ with queueSem := n, pc := .unlink }
  | unlinkNull (hpc : σ.pc = .unlink) (hq : σ.queue.dequeue.1 = none) :
      MainStep .worker { σ.append [.dequeued none] with
        pc := if σ.stop then .farewell 0 else .exited }
  | unlink {s : SessionId} (hpc : σ.pc = .unlink) (hq : σ.queue.dequeue.1 = some s) :
      MainStep .worker { σ.append (.dequeued (some s) :: σ.touched s) with
        queue := σ.queue.dequeue.2
        pc := .dequeued s }
  | clear {s : SessionId} (hpc : σ.pc = .dequeued s) :
      MainStep .worker
        { (σ.append (σ.touched s)).modify s fun x => { x with authQueued := false } with
          pc := .cleared s }
  | checkClosed {s : SessionId} (hpc : σ.pc = .cleared s)
      (hc : (σ.session s).connClosed = true) :
      MainStep .worker { (σ.append (σ.touched s)).free s with pc := .test }
  | checkOpen {s : SessionId} (hpc : σ.pc = .cleared s) (hc : (σ.session s).connClosed = false) :
      MainStep .worker { σ.append (σ.touched s) with pc := .checked s }
  | verify {s : SessionId} {ok : Bool} (hpc : σ.pc = .checked s)
      (hok : verifyCredentials env.users env.uninit (workerUsername (σ.session s))
        (σ.session s).authPasswordHash = ok) :
      MainStep .worker { σ.append (.verified s (workerUsername (σ.session s))
          (σ.session s).authPasswordHash ok ::
          .copied .workerUsername (σ.session s).authUsernameLen.toNat :: σ.touched s) with
        pc := if ok then .verified s else .decided s false }
  | load {s : SessionId} (hpc : σ.pc = .verified s) :
      MainStep .worker { σ.append (σ.touched s) with pc := .loaded s (σ.session s).authStream }
  | addFailed {s : SessionId} {st : Option StreamId} (hpc : σ.pc = .loaded s st) :
      MainStep .worker { σ.append (σ.touched s) with pc := .decided s false }
  | added {s : SessionId} {st : Option StreamId} {r : Registry} (hpc : σ.pc = .loaded s st)
      (hr : sqmpRegistryAdd σ.registry (σ.session s).authUsername (σ.session s).authUsernameLen st
        (σ.session s).authPubkey = some r) :
      MainStep .worker { σ.append (.registered s (σ.session s).authName st
          (σ.session s).authPubkey ::
          .copied .registryUsername (σ.session s).authUsernameLen.toNat :: σ.touched s) with
        registry := r
        pc := .added s }
  | establish {s : SessionId} (hpc : σ.pc = .added s) :
      MainStep .worker { (σ.append (.established s (σ.session s).establish.name ::
          .copied .sessionUsername (σ.session s).authUsernameLen.toNat ::
          σ.touched s)).modify s .establish with
        pc := .decided s true }
  | noStream {s : SessionId} {ok : Bool} (hpc : σ.pc = .decided s ok)
      (hst : (σ.session s).authStream = none) :
      MainStep .worker { σ.append (σ.touched s) with pc := .test }
  | stream {s : SessionId} {ok : Bool} {st : StreamId} (hpc : σ.pc = .decided s ok)
      (hst : (σ.session s).authStream = some st) :
      MainStep .worker { σ.append (σ.touched s) with pc := .responding s st ok }
  | respond {s : SessionId} {st : StreamId} {ok b : Bool} (hpc : σ.pc = .responding s st ok)
      (hb : ∃ n, b = env.streamSend n) :
      MainStep .worker { σ.append (.sent st (authRespPacket (σ.session s) ok) (σ.isLive st) b ::
          σ.touched s) with
        pc := .test }
  | ending {es : List Event} {pc : WorkerPc} (hpc : σ.pc.isEnding = true)
      (hpc' : pc.isEnding = true)
      (hes : ∀ e ∈ es, ∃ st, σ.registry.HasStream st ∧
        ((∃ ok, e = .sent st ⟨0, .bye⟩ (σ.isLive st) ok) ∨ e = .connShutdown st (σ.isLive st))) :
      MainStep .worker { σ.append es with pc := pc }
  | interrupted (hpc : σ.pc = .semWait) (hstop : σ.stop = true) :
      MainStep .interrupted { σ with pc := .farewell 0 }
  | signal : MainStep .signal { σ with stop := true }

theorem registryWithout_subset {σ : Server} {s : SessionId} {e : RegistryEntry}
    (h : e ∈ (registryWithout σ s).used) : e ∈ σ.registry.used := by
  unfold registryWithout at h
  split at h
  · exact used_remove_subset h
  · exact h

/-! ## 1. Handlers -/

section Handlers

variable {env σ}
variable {st : StreamId} {s : SessionId} {R : StreamId → Prop} {pkt : Bytes} {σ' : Server}

theorem Answers.refl : Answers σ st s R σ := ⟨[], rfl, by simp⟩

theorem Answers.single {e : Event} (he : Answer σ st s R e) : Answers σ st s R (σ.append [e]) :=
  ⟨[e], rfl, by simpa using he⟩

/-- Answers look at nothing that answers change. -/
theorem Answers.trans (h : Answers σ st s R σ') {σ'' : Server} (h' : Answers σ' st s R σ'') :
    Answers σ st s R σ'' := by
  obtain ⟨es, rfl, hes⟩ := h
  obtain ⟨es', rfl, hes'⟩ := h'
  refine ⟨es' ++ es, by simp [Server.append], fun e he => ?_⟩
  rcases List.mem_append.mp he with he | he
  · cases hes' e he with
    | touched h => exact .touched h
    | reply hp => exact .reply hp
    | deliver hr => exact .deliver hr
    | sender => exact .sender
    | respName hu => exact .respName hu
    | noMemory => exact .noMemory
    | outOfRange => exact .outOfRange
  · exact hes e he

namespace StepLemmas

theorem mem_touched {e : Event} : e ∈ σ.touched s ↔ σ.life s ≠ .live ∧ e = .useAfterFree s := by
  unfold Server.touched
  split <;> simp_all

theorem answers_touched : Answers σ st s R (σ.append (σ.touched s)) := by
  refine ⟨_, rfl, fun e he => ?_⟩
  obtain ⟨hl, rfl⟩ := mem_touched.mp he
  exact .touched hl

theorem answers_send {p : Packet} (hp : p.msg.isReply = true) :
    Answers σ st s R (sqmpStreamSend env σ st p) := Answers.single (.reply hp)

theorem answers_deliver {r : StreamId} (hr : R r) (sid : UInt32) (m : MsgChatDeliver) :
    Answers σ st s R (sqmpStreamSend env σ r ⟨sid, .chatDeliver m⟩) := Answers.single (.deliver hr)

theorem answers_error {code : ErrorCode} {desc : String} :
    Answers σ st s R (sqmpSendError env σ st s code desc) := answers_send rfl

theorem answers_forward {r : StreamId} {sid : UInt32} {m : MsgChatDeliver}
    (hm : m.senderLen = (σ.session s).usernameLen) (hr : R r) :
    Answers σ st s R (forwardChat env σ st s r sid m) := by
  have hcopy : Answers σ st s R (σ.append [.copied .deliverSender m.senderLen.toNat]) :=
    Answers.single (hm ▸ .sender)
  unfold forwardChat
  dsimp only
  have hsent : Answers σ st s R (sqmpStreamSend env
      (σ.append [.copied .deliverSender m.senderLen.toNat]) r ⟨sid, .chatDeliver m⟩) :=
    hcopy.trans (answers_deliver hr sid m)
  split
  · exact hsent
  · exact hsent.trans answers_error

theorem chatSendForward_ok {r : StreamId} (hr : R r)
    (h : chatSendForward env σ st s pkt r = .ok σ') : Answers σ st s R σ' := by
  obtain ⟨_, _, h⟩ := bind_eq_ok.mp h
  split at h
  · obtain ⟨sid, _, h⟩ := bind_eq_ok.mp h
    obtain ⟨m, hm, h⟩ := bind_eq_ok.mp h
    cases h
    refine answers_forward ?_ hr
    simp only [chatDeliverMsg, bind_eq_ok] at hm
    obtain ⟨_, _, _, _, _, _, _, _, _, _, hm⟩ := hm
    cases hm
    rfl
  · cases h
    exact .single .noMemory

/-- The lookup answers with the stream of an in-use entry of the requested name. -/
theorem chatSendLookup_ok {r : StreamId} (h : chatSendLookup σ pkt = .ok (some r)) {a : Action}
    (hd : dispatch serverHandles pkt = .ok (some .chatSend))
    (ha : a = .received st pkt ∨ a = .chatLookup st pkt) (hs : (σ.stream st).userData = some s)
    (hst : (σ.session s).state = .connEstablished) : Addresses σ a r := by
  obtain ⟨n, hn, h⟩ := bind_eq_ok.mp h
  obtain ⟨e, he, hr, rfl, hname⟩ := find_ok h
  refine ⟨e, he, hr, ?_⟩
  have hasked : chatAsked σ a = chatRecipient pkt := by
    rcases ha with rfl | rfl <;> simp [chatAsked, hs, hst]
  rw [hasked, chatRecipient, if_pos hd, hn]
  dsimp only
  rw [hname]
  rfl

/-- A CHAT_SEND is answered, or goes on with the stream of an in-use entry. -/
theorem chatSendHead_ok {k : Server → StreamId → Except OutOfRange Server} {a : Action}
    (hd : dispatch serverHandles pkt = .ok (some .chatSend))
    (ha : a = .received st pkt ∨ a = .chatLookup st pkt) (hs : (σ.stream st).userData = some s)
    (h : chatSendHead env σ st s pkt k = .ok σ') :
    Answers σ st s R σ' ∨
      (σ.session s).state = .connEstablished ∧
      ∃ r, Addresses σ a r ∧ k (σ.append (σ.touched s)) r = .ok σ' := by
  unfold chatSendHead at h
  dsimp only at h
  split at h
  · cases h
    exact .inl (answers_touched.trans answers_error)
  · next hst =>
    obtain ⟨o, ho, h⟩ := bind_eq_ok.mp h
    cases o with
    | none =>
      cases h
      exact .inl (answers_touched.trans answers_error)
    | some r =>
      have hst := not_not.mp hst
      exact .inr ⟨hst, r, chatSendLookup_ok ho hd ha hs hst, h⟩

theorem sqmpProcessKeyReq_ok (h : sqmpProcessKeyReq env σ st s pkt = .ok σ') :
    Answers σ st s R σ' := by
  unfold sqmpProcessKeyReq at h
  dsimp only at h
  split at h
  · cases h
    exact answers_touched.trans answers_error
  · obtain ⟨n, _, h⟩ := bind_eq_ok.mp h
    obtain ⟨o, ho, h⟩ := bind_eq_ok.mp h
    cases o with
    | none =>
      cases h
      exact answers_touched.trans answers_error
    | some pubkey =>
      dsimp only at h
      split at h
      · obtain ⟨sid, _, h⟩ := bind_eq_ok.mp h
        obtain ⟨name, _, h⟩ := bind_eq_ok.mp h
        cases h
        obtain ⟨e, hf, ho⟩ := bind_eq_ok.mp ho
        cases e with
        | none => cases ho
        | some e =>
          obtain ⟨he, rfl, _⟩ := findEntry_ok hf
          refine answers_touched.trans ?_
          exact Answers.trans (Answers.single (.respName he)) (answers_send rfl)
      · cases h
        exact answers_touched.trans (.single .noMemory)

theorem callbackStep_of_answers {a : Action} (ha : Receives σ a st)
    (hs : (σ.stream st).userData = some s) (h : Answers σ st s (Addresses σ a) σ') :
    CallbackStep env σ a σ' := by
  obtain ⟨es, rfl, hes⟩ := h
  exact .answered ha hs hes

theorem acceptHello_eq : acceptHello env σ st s =
    { (σ.append [.sent st ⟨σ.nextSessionId, .helloAck ⟨1, 65535⟩⟩ (σ.isLive st)
        (env.streamSend σ.trace.length)]).modify s
        fun x => { x with sessionId := σ.nextSessionId, state := .auth } with
      nextSessionId := σ.nextSessionId + 1 } := by
  simp only [acceptHello, Server.modify, sqmpStreamSend, Server.append, Function.update_idem,
    Function.update_self]
  rfl

theorem sqmpProcessHello_ok {data : Bytes} (hr : receivable σ st = true)
    (hs : (σ.stream st).userData = some s) (h : sqmpProcessHello env σ st s data = .ok σ') :
    CallbackStep env σ (.received st data) σ' := by
  have answered : Answers σ st s (Addresses σ (.received st data)) σ' →
      CallbackStep env σ (.received st data) σ' :=
    callbackStep_of_answers ⟨⟨data, .inl rfl⟩, hr⟩ hs
  unfold sqmpProcessHello at h
  dsimp only at h
  split at h
  · cases h
    exact answered (answers_touched.trans answers_error)
  · next hst =>
    obtain ⟨num, _, h⟩ := bind_eq_ok.mp h
    obtain ⟨found, _, h⟩ := bind_eq_ok.mp h
    split at h
    · cases h
      rw [acceptHello_eq]
      exact .hello hr hs (not_not.mp hst) ⟨_, rfl⟩
    · cases h
      exact answered (answers_touched.trans (answers_error.trans (answers_send rfl)))

/-- The fields of an accepted AUTH_REQ: as many name bytes as the length byte says. -/
theorem readAuthReq_ok {f : AuthFields} (h : readAuthReq pkt = .ok f) :
    Pkt.authReqUsernameLen pkt = .ok f.usernameLen ∧
      f.username.length = f.usernameLen.toNat := by
  obtain ⟨n, hn, h⟩ := bind_eq_ok.mp h
  obtain ⟨u, hu, h⟩ := bind_eq_ok.mp h
  obtain ⟨_, _, h⟩ := bind_eq_ok.mp h
  obtain ⟨_, _, h⟩ := bind_eq_ok.mp h
  have hl := length_of_readAt hu
  split at h
  · obtain ⟨_, _, h⟩ := bind_eq_ok.mp h
    cases h
    exact ⟨hn, hl⟩
  · cases h
    exact ⟨hn, hl⟩

theorem acceptAuthReq_eq (σ : Server) (st : StreamId) (s : SessionId) (f : AuthFields) :
    ∃ es, (∀ e ∈ es, ∃ t, σ.queue.tail = some t ∧ e ∈ σ.touched t) ∧
      acceptAuthReq (σ.append (σ.touched s)) st s f = acceptedState σ st s f es := by
  unfold acceptedState
  cases ht : σ.queue.tail with
  | none =>
    refine ⟨[], by simp, ?_⟩
    simp [acceptAuthReq, authQueueEnqueue, Server.append, Server.modify, ht]
  | some t =>
    refine ⟨σ.touched t, fun e he => ⟨t, rfl, he⟩, ?_⟩
    simp only [acceptAuthReq, authQueueEnqueue, Server.append, Server.modify, ht, List.append_assoc,
      List.cons_append, List.nil_append]
    rfl

theorem sqmpProcessAuthReq_ok {data : Bytes} (hr : receivable σ st = true)
    (hd : dispatch serverHandles data = .ok (some .authReq))
    (hs : (σ.stream st).userData = some s) (h : sqmpProcessAuthReq env σ st s data = .ok σ') :
    CallbackStep env σ (.received st data) σ' := by
  unfold sqmpProcessAuthReq at h
  dsimp only at h
  split at h
  · cases h
    exact callbackStep_of_answers ⟨⟨data, .inl rfl⟩, hr⟩ hs (answers_touched.trans answers_error)
  · next hst =>
    obtain ⟨f, hf, h⟩ := bind_eq_ok.mp h
    cases h
    have hst : (σ.session s).state = .auth := not_not.mp hst
    have hon : authReqOn σ (.received st data) = some (s, data) := by
      simp [authReqOn, hd, hs, hst]
    obtain ⟨es, hes, he⟩ := acceptAuthReq_eq σ st s f
    rw [he]
    exact .authReq hr hs hst hon hf hes

theorem sqmpProcessBye_step {data : Bytes} (hr : receivable σ st = true)
    (hs : (σ.stream st).userData = some s) :
    CallbackStep env σ (.received st data) (sqmpProcessBye σ s) := by
  unfold sqmpProcessBye
  dsimp only
  split
  · next hst => exact .bye hr hs hst
  · exact callbackStep_of_answers ⟨⟨data, .inl rfl⟩, hr⟩ hs answers_touched


/-- The dispatcher itself reads only the header, whose length it has checked. -/
theorem dispatch_ok (handles : MsgType → Bool) (data : Bytes) :
    ∃ o, dispatch handles data = .ok o := by
  unfold dispatch
  split
  · exact ⟨none, rfl⟩
  · next h =>
    rw [pktFixedLen, Nat.not_lt] at h
    exact ⟨_, by rw [Pkt.msgType, readU8_of_lt (by omega), ok_bind]⟩

/-- A handler call that fails has still touched its session. -/
theorem settle_step {a : Action} {r : Except OutOfRange Server} (ha : Receives σ a st)
    (hs : (σ.stream st).userData = some s) (hr : ∀ σ', r = .ok σ' → CallbackStep env σ a σ') :
    CallbackStep env σ a (settle σ (some s) r) := by
  cases r with
  | ok σ' => exact hr σ' rfl
  | error e =>
    refine .answered ha hs fun e' he => ?_
    rcases List.mem_cons.mp he with rfl | he
    · exact .outOfRange
    · obtain ⟨hl, rfl⟩ := mem_touched.mp he
      exact .touched hl

/-- Without a session a handler call does nothing but dereference it. -/
theorem settle_null_step {a : Action} {r : Except OutOfRange Server} (ha : Receives σ a st)
    (hr : r = .ok σ ∨ r = .ok (σ.append [.nullSession])) :
    CallbackStep env σ a (settle σ none r) := by
  rcases hr with rfl | rfl
  · show CallbackStep env σ a (σ.append [])
    exact .ignored ha (by simp)
  · show CallbackStep env σ a (σ.append [.nullSession])
    exact .ignored ha (by simp)

theorem sqmpProcessChatSend_step {data : Bytes} (hr : receivable σ st = true)
    (hd : dispatch serverHandles data = .ok (some .chatSend))
    (hs : (σ.stream st).userData = some s) (h : sqmpProcessChatSend env σ st s data = .ok σ') :
    CallbackStep env σ (.received st data) σ' := by
  refine callbackStep_of_answers ⟨⟨data, .inl rfl⟩, hr⟩ hs ?_
  rcases chatSendHead_ok hd (.inl rfl) hs h with h | ⟨_, r, he, h⟩
  · exact h
  · exact answers_touched.trans (chatSendForward_ok he h)

theorem suspendChat_step {data : Bytes} (hr : receivable σ st = true)
    (hd : dispatch serverHandles data = .ok (some .chatSend))
    (hs : (σ.stream st).userData = some s) (h : suspendChat env σ st s data = .ok σ') :
    CallbackStep env σ (.chatLookup st data) σ' := by
  rcases chatSendHead_ok hd (.inr rfl) hs h with h | ⟨hst, r, he, h⟩
  · exact callbackStep_of_answers ⟨⟨data, .inr rfl⟩, hr⟩ hs h
  · cases h
    exact .chatLookup hr hs hst he

theorem resumeChat_step {p : PendingChat} (hp : p ∈ σ.chats) :
    CallbackStep env σ (.chatForward p.conn) (resumeChat env σ p) := by
  unfold resumeChat settle
  dsimp only
  split
  · next h =>
    obtain ⟨es, rfl, hes⟩ :=
      answers_touched.trans (chatSendForward_ok (R := (· = p.recipient)) rfl h)
    refine .chatForward hp fun e he => ?_
    cases hes e he with
    | touched h => exact .touched h
    | reply hm => exact .reply hm
    | deliver hr => exact .deliver hr
    | sender => exact .sender
    | respName hu => exact .respName hu
    | noMemory => exact .noMemory
    | outOfRange => exact .outOfRange
  · next e h =>
    have hes : ∀ e' ∈ .outOfRange e :: σ.touched p.session,
        Answer σ p.stream p.session (· = p.recipient) e' := by
      intro e' he
      rcases List.mem_cons.mp he with rfl | he
      · exact .outOfRange
      · obtain ⟨hl, rfl⟩ := mem_touched.mp he
        exact .touched hl
    exact .chatForward hp hes

theorem received_step {data : Bytes} (hr : receivable σ st = true) :
    CallbackStep env σ (.received st data)
      (settle σ (σ.stream st).userData (onStreamRecv env σ st data)) := by
  have ha : Receives σ (.received st data) st := ⟨⟨data, .inl rfl⟩, hr⟩
  obtain ⟨o, hd⟩ := dispatch_ok serverHandles data
  cases hs : (σ.stream st).userData with
  | none =>
    refine settle_null_step ha ?_
    simp only [onStreamRecv, hd, ok_bind, withSession, hs]
    split
    all_goals first | exact .inr rfl | exact .inl rfl
  | some s =>
    refine settle_step ha hs fun σ' h => ?_
    simp only [onStreamRecv, hd, ok_bind, withSession, hs] at h
    split at h
    · exact sqmpProcessHello_ok hr hs h
    · exact sqmpProcessAuthReq_ok hr hd hs h
    · exact callbackStep_of_answers ha hs (sqmpProcessKeyReq_ok h)
    · exact sqmpProcessChatSend_step hr hd hs h
    · cases h
      exact sqmpProcessBye_step hr hs
    · cases h
      exact callbackStep_of_answers ha hs Answers.refl


theorem chatLookup_step {data : Bytes} (hr : receivable σ st = true)
    (hd : dispatch serverHandles data = .ok (some .chatSend)) :
    CallbackStep env σ (.chatLookup st data) (settle σ (σ.stream st).userData
      (withSession σ st fun s => suspendChat env σ st s data)) := by
  have ha : Receives σ (.chatLookup st data) st := ⟨⟨data, .inr rfl⟩, hr⟩
  unfold withSession
  cases hs : (σ.stream st).userData with
  | none => exact settle_null_step ha (.inr rfl)
  | some s => exact settle_step ha hs fun σ' h => suspendChat_step hr hd hs h


end StepLemmas

end Handlers
open StepLemmas

/-! ## 2. Every step -/

namespace StepLemmas

variable {env σ}
variable {c : ConnId} {q : Bool}

theorem onStreamClosed_step {st : StreamId} (hr : receivable σ st = true) :
    CallbackStep env σ (.streamClosed st) (onStreamClosed σ st) := by
  unfold onStreamClosed
  cases hs : (σ.stream st).userData with
  | none => exact .streamClosedNull hr hs
  | some s => exact .streamClosed hr hs

theorem disconnectLoad_step (hc : callbackFree σ c = true) (hcl : streamsClosed σ c = true) :
    CallbackStep env σ (.disconnectLoad c) (disconnectLoad σ c) := by
  unfold disconnectLoad
  cases hs : (σ.conn c).userData with
  | none =>
    show CallbackStep env σ _ (setPhase (σ.append []) c (.disconnecting false))
    exact .disconnectLoad hc hcl (fun s h => by rw [hs] at h; cases h) (by simp)
  | some s =>
    refine .disconnectLoad hc hcl (fun s' h => ?_) fun e he => ⟨s, hs, he⟩
    rw [hs] at h
    cases h
    rfl

theorem disconnectFree_eq {s : SessionId} : disconnectFree σ s =
    { (σ.append (σ.touched s)).free s with registry := registryWithout σ s } := by
  unfold disconnectFree registryWithout
  dsimp only [Server.append]
  split <;> rfl

/-- `on_disconnected` behind its load; `es` is what the load itself has left in the trace. -/
theorem disconnectRest_step {a : Action} {es : List Event} (h : Disconnects σ a c q)
    (hes : ∀ s, (σ.conn c).userData = some s → Touches σ s es)
    (hnull : (σ.conn c).userData = none → es = []) :
    CallbackStep env σ a (disconnectRest (σ.append es) c q) := by
  cases hs : (σ.conn c).userData with
  | none =>
    simp only [disconnectRest, Server.append_conn, hs]
    rw [hnull hs]
    exact .disconnectNull h hs
  | some s =>
    simp only [disconnectRest, Server.append_conn, hs]
    have ht : Touches σ s (σ.touched s ++ es) := fun e he =>
      (List.mem_append.mp he).elim id (hes s hs e)
    cases q with
    | true =>
      have : CallbackStep env σ a _ := .left h hs ht
      simp only [Server.append, List.append_assoc] at this
      exact this
    | false =>
      have : CallbackStep env σ a _ := .freed h hs ht
      simp only [Server.append, List.append_assoc] at this
      simp only [Bool.false_eq_true, if_false, disconnectFree_eq]
      exact this

theorem streamAt_some {r : Registry} {i : Nat} {st : StreamId} (h : r.streamAt i = some st) :
    r.HasStream st := by
  obtain ⟨e, he, hst⟩ := Option.bind_eq_some_iff.mp h
  obtain ⟨hm, hu⟩ := Option.filter_eq_some_iff.mp he
  exact ⟨e, List.mem_filter.mpr ⟨List.mem_of_getElem? hm, hu⟩, hst⟩

theorem farewell_step {i : Nat} (hpc : σ.pc = .farewell i) :
    MainStep env σ .worker { sendByeAt env σ i with pc := .farewell (i + 1) } := by
  have hend : σ.pc.isEnding = true := by rw [hpc]; rfl
  unfold sendByeAt
  cases h : σ.registry.streamAt i with
  | none =>
    show MainStep env σ .worker { σ.append [] with pc := .farewell (i + 1) }
    exact .ending hend rfl (by simp)
  | some st =>
    show MainStep env σ .worker { σ.append [sentEvent env σ st ⟨0, .bye⟩] with
      pc := .farewell (i + 1) }
    refine .ending hend rfl fun e he => ?_
    exact ⟨st, streamAt_some h, .inl ⟨_, List.mem_singleton.mp he⟩⟩

theorem shutdown_step {i : Nat} (hpc : σ.pc = .shutdown i) :
    MainStep env σ .worker { shutdownAt σ i with pc := .shutdown (i + 1) } := by
  have hend : σ.pc.isEnding = true := by rw [hpc]; rfl
  unfold shutdownAt
  cases h : σ.registry.streamAt i with
  | none =>
    show MainStep env σ .worker { σ.append [] with pc := .shutdown (i + 1) }
    exact .ending hend rfl (by simp)
  | some st =>
    show MainStep env σ .worker { σ.append [.connShutdown st (σ.isLive st)] with
      pc := .shutdown (i + 1) }
    refine .ending hend rfl fun e he => ?_
    exact ⟨st, streamAt_some h, .inr (List.mem_singleton.mp he)⟩

theorem workerUnlink_step (hpc : σ.pc = .unlink) : MainStep env σ .worker (workerUnlink σ) := by
  unfold workerUnlink
  split
  · next q h => exact .unlinkNull hpc (by rw [h])
  · next s q h =>
    have hstep : MainStep env σ .worker _ := .unlink hpc (by rw [h])
    rwa [h] at hstep

theorem workerStep_step {σ' : Server} (h : workerStep env σ = some σ') :
    MainStep env σ .worker σ' := by
  unfold workerStep at h
  split at h
  · next hpc => cases h; exact .test hpc
  · next hpc =>
    split at h
    · cases h
    · next hn =>
      cases h
      exact .semWait hpc (by omega)
  · next hpc => cases h; exact workerUnlink_step hpc
  · next s hpc => cases h; exact .clear hpc
  · next s hpc =>
    cases h
    unfold workerCheck
    dsimp only
    split
    · next hc => exact .checkClosed hpc hc
    · next hc => exact .checkOpen hpc (by simpa using hc)
  · next s hpc => cases h; exact .verify hpc rfl
  · next s hpc => cases h; exact .load hpc
  · next s st hpc =>
    cases h
    unfold workerAdd
    dsimp only
    split
    · exact .addFailed hpc
    · next r hr => exact .added hpc hr
  · next s hpc => cases h; exact .establish hpc
  · next s ok hpc =>
    cases h
    unfold workerLoadStream
    dsimp only
    split
    · next hst => exact .noStream hpc hst
    · next st hst => exact .stream hpc hst
  · next s st ok hpc => cases h; exact .respond hpc ⟨_, rfl⟩
  · next i hpc =>
    split at h <;> cases h
    · exact farewell_step hpc
    · show MainStep env σ .worker { σ.append [] with pc := .shutdown 0 }
      exact .ending (by rw [hpc]; rfl) rfl (by simp)
  · next i hpc =>
    split at h <;> cases h
    · exact shutdown_step hpc
    · show MainStep env σ .worker { σ.append [] with pc := .exited }
      exact .ending (by rw [hpc]; rfl) rfl (by simp)
  · cases h

end StepLemmas
open StepLemmas

/-- What a step of the system can do. -/
theorem step_cases {env : Env} {σ σ' : Server} {a : Action} (h : step env σ a = some σ') :
    CallbackStep env σ a σ' ∨ MainStep env σ a σ' := by
  cases a with
  | connected c =>
    simp only [step, Option.ite_none_right_eq_some, Option.some.injEq] at h
    obtain ⟨hp, rfl⟩ := h
    unfold onConnected
    split
    · exact .inl (.connected hp)
    · exact .inl (.connectedNull hp)
  | streamOpened c st =>
    simp only [step, Bool.and_eq_true, decide_eq_true_eq, Option.ite_none_right_eq_some,
      Option.some.injEq] at h
    obtain ⟨⟨hc, hst⟩, rfl⟩ := h
    exact .inl (.streamOpened hc hst)
  | received st data =>
    simp only [step, Option.ite_none_right_eq_some, Option.some.injEq] at h
    obtain ⟨hr, rfl⟩ := h
    exact .inl (received_step hr)
  | chatLookup st data =>
    simp only [step, Bool.and_eq_true, decide_eq_true_eq, Option.ite_none_right_eq_some,
      Option.some.injEq] at h
    obtain ⟨⟨hr, hd⟩, rfl⟩ := h
    exact .inl (chatLookup_step hr hd)
  | chatForward c =>
    obtain ⟨p, hp, rfl⟩ := Option.map_eq_some_iff.mp h
    have hc := List.find?_some hp
    simp only [decide_eq_true_eq] at hc
    subst hc
    exact .inl (resumeChat_step (List.mem_of_find?_eq_some hp))
  | streamClosed st =>
    simp only [step, Option.ite_none_right_eq_some, Option.some.injEq] at h
    obtain ⟨hr, rfl⟩ := h
    exact .inl (onStreamClosed_step hr)
  | disconnected c =>
    simp only [step, Bool.and_eq_true, Option.ite_none_right_eq_some, Option.some.injEq] at h
    obtain ⟨⟨hc, hcl⟩, rfl⟩ := h
    unfold onDisconnected
    split
    · next hs =>
      exact .inl (.disconnectNull (q := false) (.inl ⟨rfl, hc, hcl, by simp [hs]⟩) hs)
    · next s hs =>
      refine .inl (disconnectRest_step (.inl ⟨rfl, hc, hcl, fun s' h => ?_⟩) (fun s' h => ?_) ?_)
      · rw [hs] at h
        cases h
        rfl
      · rw [hs] at h
        cases h
        exact fun e he => he
      · simp [hs]
  | disconnectLoad c =>
    simp only [step, Bool.and_eq_true, Option.ite_none_right_eq_some, Option.some.injEq] at h
    obtain ⟨⟨hc, hcl⟩, rfl⟩ := h
    exact .inl (disconnectLoad_step hc hcl)
  | disconnectRest c =>
    simp only [step] at h
    split at h
    · next q hq =>
      cases h
      have hnone : ∀ s, (σ.conn c).userData = some s → Touches σ s [] := fun s _ => by
        simp [Touches]
      exact .inl (disconnectRest_step (.inr ⟨rfl, hq⟩) hnone fun _ => rfl)
    · cases h
  | worker => exact .inr (workerStep_step h)
  | interrupted =>
    simp only [step, Option.ite_none_right_eq_some, Option.some.injEq] at h
    obtain ⟨⟨hpc, hstop⟩, rfl⟩ := h
    exact .inr (.interrupted hpc hstop)
  | signal =>
    cases h
    exact .inr .signal

theorem callback_pc {env : Env} {σ σ' : Server} {a : Action} (h : CallbackStep env σ a σ') :
    σ'.pc = σ.pc := by
  cases h <;> rfl

theorem callback_stop {env : Env} {σ σ' : Server} {a : Action} (h : CallbackStep env σ a σ') :
    σ'.stop = σ.stop := by
  cases h <;> rfl

end SquimpChat
