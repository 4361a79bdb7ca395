import SquimpChat.Events
import SquimpChat.Ownership

/-!
# Rejected requests

A request that the server rejects leaves it as it was: bytes that no handler gets, and packets
that a handler answers by an ERROR, be it behind a lookup or behind a failed send. The worker
rejects a login by an AUTH_RESP with status INVALID, and until it decides to admit one it
stores nothing but `auth_queued`.

Results:
1. `received_verdict`: a packet is answered by an ERROR exactly in the cases of `Rejects`.
2. `rejected_intact`: rejected requests change neither sessions, registry, auth queue nor
   session ids, and iterations that end INVALID change no account.
-/

namespace SquimpChat
open Octets Transition StepLemmas

variable {env : Env} {σ σ' : Server} {a : Action} {st : StreamId} {s : SessionId} {data : Bytes}

/-- The stream an ERROR is sent on. -/
def Event.errorStream : Event → Option StreamId
  | sent st p _ _ => if p.msg.type = .error then some st else none
  | _ => none

/-- The streams of the ERRORs sent so far, latest first. -/
def Server.errors (σ : Server) : List StreamId := σ.trace.filterMap (·.errorStream)

/-- What a rejected request leaves alone. -/
structure Intact (σ σ' : Server) : Prop where
  session : σ'.session = σ.session
  registry : σ'.registry = σ.registry
  queue : σ'.queue = σ.queue
  queueSem : σ'.queueSem = σ.queueSem
  nextSessionId : σ'.nextSessionId = σ.nextSessionId

/-- The type byte of the packet is none that `on_stream_recv` has a case for. -/
def Unhandled (data : Bytes) : Prop :=
  ∃ b, Pkt.msgType data = .ok b ∧ (MsgType.ofCode b).filter serverHandles = none

/-- When the handler of a type answers a packet of the session by an ERROR. -/
inductive Rejects (env : Env) (σ : Server) (s : SessionId) (data : Bytes) : MsgType → Prop
  | hello (hst : (σ.session s).state ≠ .hello) : Rejects env σ s data .hello
  | version {num : UInt8} (hn : Pkt.helloNumVersions data = .ok num)
      (hv : helloScan data num.toNat 8 0 = .ok false) : Rejects env σ s data .hello
  | authReq (hst : (σ.session s).state ≠ .auth) : Rejects env σ s data .authReq
  | keyReq (hst : (σ.session s).state ≠ .connEstablished) : Rejects env σ s data .keyReq
  | userNotFound {n : UInt8} (hn : Pkt.keyReqUsernameLen data = .ok n)
      (hf : sqmpRegistryGetPubkey σ.registry (Pkt.keyReqUsername data n.toNat) n = .ok none) :
      Rejects env σ s data .keyReq
  | chatSend (hst : (σ.session s).state ≠ .connEstablished) : Rejects env σ s data .chatSend
  | recipientNotFound (hf : chatSendLookup σ data = .ok none) : Rejects env σ s data .chatSend
  /-- the CHAT_DELIVER is built, and `sqmp_stream_send` fails -/
  | notDelivered {r : StreamId} (hf : chatSendLookup σ data = .ok (some r))
      (hm : env.malloc (σ.touched s ++ σ.trace).length = true)
      (hsend : env.streamSend ((σ.touched s ++ σ.trace).length + 1) = false) :
      Rejects env σ s data .chatSend

theorem Intact.refl : Intact σ σ := ⟨rfl, rfl, rfl, rfl, rfl⟩

/-- One ERROR on the packet's stream and no change exactly if `P`, else no ERROR. -/
def Verdict (P : Prop) (st : StreamId) (σ σ' : Server) : Prop :=
  P ∧ σ'.errors = st :: σ.errors ∧ Intact σ σ' ∨ ¬ P ∧ σ'.errors = σ.errors

/-! ## 1. Handlers -/

namespace RejectionLemmas

variable {code : ErrorCode} {desc : String} {es : List Event}

theorem errors_append : (σ.append es).errors = es.filterMap (·.errorStream) ++ σ.errors :=
  List.filterMap_append

theorem errorStream_touched {e : Event} (h : e ∈ σ.touched s) : e.errorStream = none := by
  rw [(mem_touched.mp h).2]
  rfl

theorem errors_touched : (σ.append (σ.touched s)).errors = σ.errors := by
  rw [errors_append, List.filterMap_eq_nil_iff.mpr fun _ => errorStream_touched, List.nil_append]

/-- An ERROR to the packet's stream behind the look at the session. -/
theorem verdict_error {P : Prop} (hp : P) :
    Verdict P st σ (sqmpSendError env (σ.append (σ.touched s)) st s code desc) :=
  .inl ⟨hp, congrArg (st :: ·) errors_touched, rfl, rfl, rfl, rfl, rfl⟩

theorem sqmpProcessHello_verdict (h : sqmpProcessHello env σ st s data = .ok σ') :
    Verdict (Rejects env σ s data .hello) st σ σ' := by
  unfold sqmpProcessHello at h
  dsimp only at h
  split at h
  · next hst =>
    cases h
    exact verdict_error (.hello hst)
  · next hst =>
    obtain ⟨num, hn, h⟩ := bind_eq_ok.mp h
    obtain ⟨found, hv, h⟩ := bind_eq_ok.mp h
    cases found with
    | true =>
      cases h
      refine .inr ⟨fun hrej => ?_, ?_⟩
      · cases hrej with
        | hello hst' => exact hst hst'
        | version hn' hv' =>
          rw [hn] at hn'
          cases hn'
          rw [hv] at hv'
          cases hv'
      · rw [acceptHello_eq]
        exact errors_touched (s := s)
    | false =>
      cases h
      exact .inl ⟨.version hn hv, congrArg (st :: ·) errors_touched, rfl, rfl, rfl, rfl, rfl⟩

theorem sqmpProcessAuthReq_verdict (h : sqmpProcessAuthReq env σ st s data = .ok σ') :
    Verdict (Rejects env σ s data .authReq) st σ σ' := by
  unfold sqmpProcessAuthReq at h
  dsimp only at h
  split at h
  · next hst =>
    cases h
    exact verdict_error (.authReq hst)
  · next hst =>
    obtain ⟨f, hf, h⟩ := bind_eq_ok.mp h
    cases h
    refine .inr ⟨fun hrej => ?_, ?_⟩
    · cases hrej with
      | authReq hst' => exact hst hst'
    · obtain ⟨es, hes, he⟩ := acceptAuthReq_eq σ st s f
      have hnone : ∀ e ∈ .enqueued s :: (es ++ .copied .authUsername f.usernameLen.toNat ::
          .authReq s f :: σ.touched s), e.errorStream = none := by
        refine List.forall_mem_cons.mpr ⟨rfl, List.forall_mem_append.mpr ⟨fun e he => ?_, ?_⟩⟩
        · obtain ⟨t, _, he⟩ := hes e he
          exact errorStream_touched he
        · exact List.forall_mem_cons.mpr
            ⟨rfl, List.forall_mem_cons.mpr ⟨rfl, fun _ => errorStream_touched⟩⟩
      rw [he]
      show (σ.append _).errors = _
      rw [errors_append, List.filterMap_eq_nil_iff.mpr hnone, List.nil_append]

theorem sqmpProcessKeyReq_verdict (h : sqmpProcessKeyReq env σ st s data = .ok σ') :
    Verdict (Rejects env σ s data .keyReq) st σ σ' := by
  unfold sqmpProcessKeyReq at h
  dsimp only at h
  split at h
  · next hst =>
    cases h
    exact verdict_error (.keyReq hst)
  · next hst =>
    obtain ⟨n, hn, h⟩ := bind_eq_ok.mp h
    obtain ⟨o, ho, h⟩ := bind_eq_ok.mp h
    cases o with
    | none =>
      cases h
      exact verdict_error (.userNotFound hn ho)
    | some key =>
      refine .inr ⟨fun hrej => ?_, ?_⟩
      · cases hrej with
        | keyReq hst' => exact hst hst'
        | userNotFound hn' ho' =>
          rw [hn] at hn'
          cases hn'
          rw [show sqmpRegistryGetPubkey σ.registry _ n = .ok (some key) from ho] at ho'
          cases ho'
      · dsimp only at h
        split at h
        · obtain ⟨sid, _, h⟩ := bind_eq_ok.mp h
          obtain ⟨name, _, h⟩ := bind_eq_ok.mp h
          cases h
          exact errors_touched (s := s)
        · cases h
          exact errors_touched

/-- The handler of a CHAT_SEND rejects it, or goes on with the recipient's stream. -/
theorem chatSendHead_cases {k : Server → StreamId → Except OutOfRange Server}
    (h : chatSendHead env σ st s data k = .ok σ') :
    (Rejects env σ s data .chatSend ∧ ∃ code desc,
        σ' = sqmpSendError env (σ.append (σ.touched s)) st s code desc) ∨
      (σ.session s).state = .connEstablished ∧ ∃ r, chatSendLookup σ data = .ok (some r) ∧
        k (σ.append (σ.touched s)) r = .ok σ' := by
  unfold chatSendHead at h
  dsimp only at h
  split at h
  · next hst =>
    cases h
    exact .inl ⟨.chatSend hst, _, _, rfl⟩
  · next hst =>
    obtain ⟨o, ho, h⟩ := bind_eq_ok.mp h
    cases o with
    | none =>
      cases h
      exact .inl ⟨.recipientNotFound ho, _, _, rfl⟩
    | some r => exact .inr ⟨not_not.mp hst, r, ho, h⟩

/-- The rest of the handler changes nothing, and sends an ERROR exactly behind a failed send. -/
theorem chatSendForward_intact {r : StreamId} (h : chatSendForward env σ st s data r = .ok σ') :
    Intact σ σ' ∧ σ'.chats = σ.chats ∧
      Verdict (env.malloc σ.trace.length = true ∧ env.streamSend (σ.trace.length + 1) = false)
        st σ σ' := by
  obtain ⟨_, _, h⟩ := bind_eq_ok.mp h
  split at h
  · next hm =>
    obtain ⟨sid, _, h⟩ := bind_eq_ok.mp h
    obtain ⟨m, _, h⟩ := bind_eq_ok.mp h
    cases h
    unfold forwardChat
    dsimp only
    split
    · next hs =>
      refine ⟨⟨rfl, rfl, rfl, rfl, rfl⟩, rfl, .inr ⟨fun hfail => ?_, rfl⟩⟩
      rw [show env.streamSend (σ.trace.length + 1) = true from hs] at hfail
      cases hfail.2
    · next hs =>
      exact ⟨⟨rfl, rfl, rfl, rfl, rfl⟩, rfl,
        .inl ⟨⟨hm, Bool.eq_false_iff.mpr hs⟩, rfl, rfl, rfl, rfl, rfl, rfl⟩⟩
  · next hm =>
    cases h
    exact ⟨⟨rfl, rfl, rfl, rfl, rfl⟩, rfl, .inr ⟨fun hfail => hm hfail.1, rfl⟩⟩

theorem sqmpProcessChatSend_verdict (h : sqmpProcessChatSend env σ st s data = .ok σ') :
    Verdict (Rejects env σ s data .chatSend) st σ σ' := by
  rcases chatSendHead_cases h with ⟨hrej, _, _, rfl⟩ | ⟨hst, r, hr, h⟩
  · exact verdict_error hrej
  · obtain ⟨hi, _, hv⟩ := chatSendForward_intact h
    rcases hv with ⟨⟨hm, hs⟩, he, _⟩ | ⟨hn, he⟩
    · exact .inl ⟨.notDelivered hr hm hs, he.trans (congrArg (st :: ·) errors_touched), hi.session,
        hi.registry, hi.queue, hi.queueSem, hi.nextSessionId⟩
    · refine .inr ⟨fun hrej => ?_, he.trans errors_touched⟩
      cases hrej with
      | chatSend hst' => exact hst' hst
      | recipientNotFound hf =>
        rw [hr] at hf
        cases hf
      | notDelivered _ hm hs => exact hn ⟨hm, hs⟩

theorem dispatch_unhandled (h : data.length < pktFixedLen ∨ Unhandled data) :
    dispatch serverHandles data = .ok none := by
  unfold dispatch
  split
  · rfl
  · next hlen =>
    obtain ⟨b, hb, hf⟩ := h.resolve_left hlen
    rw [hb, ok_bind, hf]

end RejectionLemmas
open RejectionLemmas

/-- A packet that a handler has read is answered by an ERROR exactly if it is rejected. -/
theorem received_verdict {t : MsgType} (hd : dispatch serverHandles data = .ok (some t))
    (hs : (σ.stream st).userData = some s) (h : onStreamRecv env σ st data = .ok σ') :
    Verdict (Rejects env σ s data t) st σ σ' := by
  simp only [onStreamRecv, hd, ok_bind, withSession, hs] at h
  cases t with
  | hello => exact sqmpProcessHello_verdict h
  | authReq => exact sqmpProcessAuthReq_verdict h
  | keyReq => exact sqmpProcessKeyReq_verdict h
  | chatSend => exact sqmpProcessChatSend_verdict h
  | bye =>
    cases h
    refine .inr ⟨?_, ?_⟩
    · rintro ⟨⟩
    · unfold sqmpProcessBye
      dsimp only
      split <;> exact errors_touched
  | _ =>
    cases h
    refine .inr ⟨?_, rfl⟩
    rintro ⟨⟩

/-! ## 2. Steps -/

/-- The step handles a packet that came on the stream, or a half of it. -/
inductive Handles (σ : Server) : Action → StreamId → Bytes → Prop
  | received {st : StreamId} {data : Bytes} : Handles σ (.received st data) st data
  | lookup {st : StreamId} {data : Bytes} : Handles σ (.chatLookup st data) st data
  | forward {c : ConnId} {p : PendingChat} (hp : σ.chats.find? (·.conn = c) = some p) :
      Handles σ (.chatForward c) p.stream p.pkt

theorem Verdict.errors {P : Prop} (h : Verdict P st σ σ') :
    σ'.errors = σ.errors ∨ σ'.errors = st :: σ.errors ∧ Intact σ σ' :=
  h.elim (fun h => .inr h.2) fun h => .inl h.2

namespace RejectionLemmas

theorem errors_settle {o : Option SessionId} {e : OutOfRange} :
    (settle σ o (.error e)).errors = σ.errors := by
  cases o with
  | none => rfl
  | some s => exact errors_touched (s := s)

theorem onStreamRecv_null (hs : (σ.stream st).userData = none)
    (h : onStreamRecv env σ st data = .ok σ') : σ'.errors = σ.errors := by
  obtain ⟨o, hd⟩ := dispatch_ok serverHandles data
  simp only [onStreamRecv, hd, ok_bind, withSession, hs] at h
  split at h <;> cases h <;> rfl

theorem received_errors (h : step env σ (.received st data) = some σ') :
    receivable σ st = true ∧ σ'.chats = σ.chats ∧
      (σ'.errors = σ.errors ∨ σ'.errors = st :: σ.errors ∧ Intact σ σ') := by
  have hchats : σ'.chats = σ.chats := by
    rcases step_cases h with h | h <;> cases h <;> rfl
  obtain ⟨hr, he⟩ := Option.ite_none_right_eq_some.mp h
  cases he
  refine ⟨hr, hchats, ?_⟩
  cases hres : onStreamRecv env σ st data with
  | error e => exact .inl errors_settle
  | ok τ =>
    cases hs : (σ.stream st).userData with
    | none => exact .inl (onStreamRecv_null hs hres)
    | some s =>
      obtain ⟨_ | t, hd⟩ := dispatch_ok serverHandles data
      · simp only [onStreamRecv, hd, ok_bind] at hres
        cases hres
        exact .inl rfl
      · exact (received_verdict hd hs hres).errors

theorem suspendChat_cases (h : suspendChat env σ st s data = .ok σ') : Intact σ σ' ∧
    (σ'.errors = σ.errors ∨ σ'.errors = st :: σ.errors ∧ σ'.chats = σ.chats) := by
  rcases chatSendHead_cases h with ⟨_, _, _, rfl⟩ | ⟨_, r, _, h⟩
  · exact ⟨⟨rfl, rfl, rfl, rfl, rfl⟩, .inr ⟨congrArg (st :: ·) errors_touched, rfl⟩⟩
  · cases h
    exact ⟨⟨rfl, rfl, rfl, rfl, rfl⟩, .inl errors_touched⟩

theorem chatLookup_errors (h : step env σ (.chatLookup st data) = some σ') :
    receivable σ st = true ∧ Intact σ σ' ∧
      (σ'.errors = σ.errors ∨ σ'.errors = st :: σ.errors ∧ σ'.chats = σ.chats) := by
  obtain ⟨hc, he⟩ := Option.ite_none_right_eq_some.mp h
  cases he
  refine ⟨(Bool.and_eq_true_iff.mp hc).1, ?_⟩
  unfold withSession
  cases (σ.stream st).userData with
  | none => exact ⟨⟨rfl, rfl, rfl, rfl, rfl⟩, .inl rfl⟩
  | some s =>
    dsimp only
    cases hres : suspendChat env σ st s data with
    | error e => exact ⟨⟨rfl, rfl, rfl, rfl, rfl⟩, .inl errors_settle⟩
    | ok τ => exact suspendChat_cases hres

theorem resumeChat_errors {p : PendingChat} : Intact σ (resumeChat env σ p) ∧
    (resumeChat env σ p).chats = σ.chats.filter (·.conn ≠ p.conn) ∧
      ((resumeChat env σ p).errors = σ.errors ∨
        (resumeChat env σ p).errors = p.stream :: σ.errors) := by
  unfold resumeChat
  dsimp only
  cases hres : chatSendForward env _ p.stream p.session p.pkt p.recipient with
  | error e => exact ⟨⟨rfl, rfl, rfl, rfl, rfl⟩, rfl, .inl errors_settle⟩
  | ok τ =>
    obtain ⟨hi, hc, hv⟩ := chatSendForward_intact hres
    refine ⟨⟨hi.session, hi.registry, hi.queue, hi.queueSem, hi.nextSessionId⟩, hc, ?_⟩
    rcases hv.errors with h | ⟨h, _⟩
    · exact .inl (h.trans errors_touched)
    · exact .inr (h.trans (congrArg (p.stream :: ·) errors_touched))

/-- No handler is suspended for a stream whose connection runs no callback. -/
theorem no_chat (hw : Wf σ) (hr : receivable σ st = true) : ∀ p ∈ σ.chats, p.stream ≠ st := by
  rintro p hp rfl
  exact (OwnershipLemmas.receivable_iff.mp hr).2.2 p hp (hw.chat p hp).2.1

/-- The handler of a suspended CHAT_SEND is the only one of its stream. -/
theorem no_chat_behind (hw : Wf σ) {p : PendingChat} (hp : p ∈ σ.chats) :
    ∀ q ∈ σ.chats.filter (·.conn ≠ p.conn), q.stream ≠ p.stream := by
  intro q hq hst
  obtain ⟨hq, hne⟩ := List.mem_filter.mp hq
  refine of_decide_eq_true hne ?_
  rw [(hw.chat q hq).2.1, (hw.chat p hp).2.1, hst]

theorem received_unhandled (hd : data.length < pktFixedLen ∨ Unhandled data)
    (h : step env σ (.received st data) = some σ') : σ' = σ := by
  obtain ⟨_, he⟩ := Option.ite_none_right_eq_some.mp h
  rw [onStreamRecv, dispatch_unhandled hd, ok_bind] at he
  exact (Option.some.inj he).symm

end RejectionLemmas

/-! ## 3. Iterations of the worker -/

/-- The names and states of all sessions and the registry. -/
structure AccountsKept (σ σ' : Server) : Prop where
  state : ∀ s, (σ'.session s).state = (σ.session s).state
  username : ∀ s, (σ'.session s).username = (σ.session s).username
  usernameLen : ∀ s, (σ'.session s).usernameLen = (σ.session s).usernameLen
  registry : σ'.registry = σ.registry

/-- The worker does not go back to the loop test. -/
def SameIteration (env : Env) (σ : Server) (a : Action) : Prop :=
  σ.pc ≠ .test → ∀ σ' ∈ step env σ a, σ'.pc ≠ .test

instance : Decidable (SameIteration env σ a) :=
  inferInstanceAs (Decidable (_ → ∀ _ ∈ _, _))

/-- A step of the worker keeps the accounts. -/
def WorkerKeeps (env : Env) (σ : Server) (a : Action) : Prop :=
  a = .worker → ∀ σ' ∈ step env σ a, AccountsKept σ σ'

/-- The step has sent an AUTH_RESP with status INVALID. -/
def SendsInvalid (σ σ' : Server) : Prop :=
  ∃ es st p live ok id, σ'.trace = es ++ σ.trace ∧ .sent st p live ok ∈ es ∧
    p.msg = .authResp ⟨AuthStatus.invalid.code, id⟩

/-- The iteration has added its entry to the registry. -/
def WorkerPc.granted : WorkerPc → Bool
  | added _ | decided _ true | responding _ _ true => true
  | _ => false

theorem AccountsKept.of_eq (hs : σ'.session = σ.session) (hr : σ'.registry = σ.registry) :
    AccountsKept σ σ' :=
  ⟨fun s => by rw [hs], fun s => by rw [hs], fun s => by rw [hs], hr⟩

theorem AccountsKept.trans {τ : Server} (h : AccountsKept σ τ) (h' : AccountsKept τ σ') :
    AccountsKept σ σ' where
  state s := (h'.state s).trans (h.state s)
  username s := (h'.username s).trans (h.username s)
  usernameLen s := (h'.usernameLen s).trans (h.usernameLen s)
  registry := h'.registry.trans h.registry

namespace RejectionLemmas

/-- The worker changes accounts only behind a granted login. -/
theorem main_keeps (h : MainStep env σ a σ') : AccountsKept σ σ' ∨ σ'.pc.granted = true := by
  cases h
  case clear s hpc =>
    exact .inl ⟨Server.update_proj _ rfl, Server.update_proj _ rfl, Server.update_proj _ rfl, rfl⟩
  case added => exact .inr rfl
  case establish => exact .inr rfl
  all_goals exact .inl (.of_eq rfl rfl)

/-- A granted login stays granted until the iteration ends. -/
theorem granted_step (hg : σ.pc.granted = true) (hsame : SameIteration env σ a)
    (h : step env σ a = some σ') : σ'.pc.granted = true := by
  have hne : σ.pc ≠ .test := by
    intro hpc
    rw [hpc] at hg
    cases hg
  have htest := hsame hne σ' h
  rcases step_cases h with h | h
  · rw [callback_pc h]
    exact hg
  · cases h
    case signal => exact hg
    case establish => rfl
    case stream s ok st hpc _ =>
      rw [hpc] at hg
      cases ok
      · cases hg
      · rfl
    case noStream | respond => exact absurd rfl htest
    case ending hpc _ _ =>
      generalize σ.pc = pc at hpc hg
      cases pc <;>
        first | exact absurd hg Bool.false_ne_true | exact absurd hpc Bool.false_ne_true
    all_goals
      rw [‹σ.pc = _›] at hg
      cases hg

/-- An INVALID AUTH_RESP is sent at the end of an iteration that has granted nothing. -/
theorem sendsInvalid_pc (h : MainStep env σ a σ') (hinv : SendsInvalid σ σ') :
    ∃ s st, σ.pc = .responding s st false := by
  obtain ⟨es, st, p, live, ok, id, htr, he, hp⟩ := hinv
  obtain ⟨es', htr', hes⟩ := main_events h
  obtain rfl : es = es' := List.append_cancel_right (htr.symm.trans htr')
  cases (main_packet (hes _ he)).2 with
  | @authResp s b hpc hb =>
    cases b with
    | false => exact ⟨s, st, hpc⟩
    | true =>
      rw [hb] at hp
      cases hp
  | bye _ hb =>
    rw [hp] at hb
    cases hb

/-- Before the end of such an iteration the worker has changed no account. -/
theorem worker_keeps {acts : List Action} {τ : Server} (hend : τ.pc.granted = false)
    (hsame : Along (step env) (SameIteration env) σ acts) (hr : run (step env) σ acts = some τ) :
    Along (step env) (WorkerKeeps env) σ acts := by
  induction acts generalizing σ with
  | nil => trivial
  | cons a acts ih =>
    obtain ⟨υ, hs, hr⟩ := run_cons.mp hr
    have hsame' := (along_cons hsame hs).2
    have hgranted : υ.pc.granted ≠ true := by
      intro hg
      have hτ : τ.pc.granted = true := run_invariant (I := fun σ => σ.pc.granted = true)
        (fun _ _ _ hg hp h => granted_step hg hp h) hg hsame' hr
      rw [hend] at hτ
      cases hτ
    refine ⟨?_, ?_⟩
    · rintro rfl σ' hσ'
      obtain rfl : υ = σ' := Option.some.inj (hs.symm.trans hσ')
      exact (main_keeps (workerStep_step hs)).resolve_right hgranted
    · rw [hs]
      exact ih hsame' hr

/-- The step that sends the answer changes no account either. -/
theorem respond_keeps {st : StreamId} (hpc : σ.pc = .responding s st false) :
    WorkerKeeps env σ .worker := by
  intro _ σ' h
  refine (main_keeps (workerStep_step h)).resolve_right fun hg => ?_
  have h : workerStep env σ = some σ' := h
  rw [workerStep, hpc] at h
  cases h
  cases hg

/-- Steps of the worker that each keep the accounts keep them together. -/
theorem accountsKept_run {acts : List Action} (h : Along (step env) (WorkerKeeps env) σ acts)
    (hall : ∀ a ∈ acts, a = .worker) (hr : run (step env) σ acts = some σ') :
    AccountsKept σ σ' := by
  induction acts generalizing σ with
  | nil =>
    cases hr
    exact .of_eq rfl rfl
  | cons a acts ih =>
    obtain ⟨τ, hs, hr⟩ := run_cons.mp hr
    obtain ⟨hkeep, h⟩ := along_cons h hs
    obtain ⟨ha, hall⟩ := List.forall_mem_cons.mp hall
    exact (hkeep ha τ hs).trans (ih h hall hr)

end RejectionLemmas
open RejectionLemmas

/-! ## 4. Every run -/

/-- Handling a packet never sends more than one ERROR, to the packet's stream, behind which
nothing of the handler is left to run. It changes nothing if the packet is too short, of an
unhandled type or answered by an ERROR, or if a CHAT_SEND is handled in two halves. In an
iteration that ends in an INVALID AUTH_RESP the worker's steps change no account. -/
theorem rejected_intact {acts : List Action} (h : serverRun env acts = some σ) :
    (∀ a st data σ', Handles σ a st data → step env σ a = some σ' →
      (σ'.errors = σ.errors ∨
        σ'.errors = st :: σ.errors ∧ ∀ p ∈ σ'.chats, p.stream ≠ st) ∧
      (data.length < pktFixedLen ∨ Unhandled data ∨ σ'.errors ≠ σ.errors ∨
        a ≠ .received st data → Intact σ σ')) ∧
    ∀ acts τ τ', Along (step env) (SameIteration env) σ acts → run (step env) σ acts = some τ →
      step env τ .worker = some τ' → SendsInvalid τ τ' →
        Along (step env) (WorkerKeeps env) σ (acts ++ [.worker]) ∧
          ((∀ a ∈ acts, a = .worker) → AccountsKept σ τ') := by
  have hw : Wf σ := (run_wf h).1
  refine ⟨fun a st data σ' ha hs => ?_, fun acts τ τ' hsame hr hs hinv => ?_⟩
  · cases ha with
    | received =>
      obtain ⟨hrecv, hchats, he⟩ := received_errors hs
      refine ⟨he.imp_right fun he => ⟨he.1, hchats ▸ no_chat hw hrecv⟩, fun hrej => ?_⟩
      rcases hrej with hlen | hun | hne | hne
      · exact received_unhandled (.inl hlen) hs ▸ .refl
      · exact received_unhandled (.inr hun) hs ▸ .refl
      · exact (he.resolve_left hne).2
      · exact absurd rfl hne
    | lookup =>
      obtain ⟨hrecv, hi, he⟩ := chatLookup_errors hs
      refine ⟨he.imp_right fun ⟨he, hchats⟩ => ⟨he, ?_⟩, fun _ => hi⟩
      rw [hchats]
      exact no_chat hw hrecv
    | @forward c p hp =>
      obtain ⟨p', hp', hs⟩ := Option.map_eq_some_iff.mp hs
      obtain rfl : p = p' := Option.some.inj (hp.symm.trans hp')
      subst hs
      obtain ⟨hi, hchats, he⟩ : _ ∧ (resumeChat env σ p).chats = _ ∧ _ := resumeChat_errors
      refine ⟨he.imp_right fun he => ⟨he, ?_⟩, fun _ => hi⟩
      rw [hchats]
      exact no_chat_behind hw (List.mem_of_find?_eq_some hp)
  · obtain ⟨s, st, hpc⟩ := sendsInvalid_pc (workerStep_step hs) hinv
    have hend : τ.pc.granted = false := by
      rw [hpc]
      rfl
    have hkeeps : Along (step env) (WorkerKeeps env) σ (acts ++ [.worker]) := by
      refine along_append hr (worker_keeps hend hsame hr) ⟨respond_keeps hpc, ?_⟩
      rw [hs]
      trivial
    refine ⟨hkeeps, fun hall => accountsKept_run hkeeps (fun a ha => ?_)
      (run_append.mpr ⟨τ, hr, run_cons.mpr ⟨τ', hs, rfl⟩⟩)⟩
    rcases List.mem_append.mp ha with ha | ha
    · exact hall a ha
    · exact List.mem_singleton.mp ha

/-- An AUTH_REQ waits for the worker, and no users file lets it in. -/
def strangerWaits : List Action := greet 0 ++ [.received 0 abcReq]

/-- A second HELLO is answered by an ERROR, and the AUTH_REQ by an INVALID. -/
theorem rejected_strangerWaits : ∃ σ, serverRun (.fair none) strangerWaits = some σ ∧
    (∃ σ', step (.fair none) σ (.received 0 helloBytes) = some σ' ∧ σ'.errors = 0 :: σ.errors ∧
      Intact σ σ') ∧
    ∃ τ τ', run (step (.fair none)) σ (.replicate 7 .worker) = some τ ∧
      step (.fair none) τ .worker = some τ' ∧ SendsInvalid τ τ' ∧ AccountsKept σ τ' := by
  obtain ⟨σ, hr, hany, hsame, hrun⟩ := serverRun_reaches (.fair none) strangerWaits
    (fun σ => (step (.fair none) σ (.received 0 helloBytes)).any
        (fun σ' => σ'.errors = 0 :: σ.errors) = true ∧
      Along (step (.fair none)) (SameIteration (.fair none)) σ (.replicate 7 .worker) ∧
      (run (step (.fair none)) σ (.replicate 7 .worker)).any
        (fun τ => τ.pc = .responding 0 0 false) = true) (by decide +kernel)
  obtain ⟨hpacket, hworker⟩ := rejected_intact hr
  obtain ⟨σ', hs, he⟩ := (Option.any_eq_true _ _).mp hany
  obtain ⟨τ, hτ, hpc⟩ := (Option.any_eq_true _ _).mp hrun
  replace he := of_decide_eq_true he
  replace hpc := of_decide_eq_true hpc
  have hstep : step (.fair none) τ .worker =
      some { sendAuthResp (.fair none) τ 0 0 false with pc := .test } := by
    rw [step, workerStep, hpc]
  have hinv : SendsInvalid τ { sendAuthResp (.fair none) τ 0 0 false with pc := .test } :=
    ⟨_ :: τ.touched 0, _, _, _, _, _, rfl, List.mem_cons_self, rfl⟩
  refine ⟨σ, hr, ⟨σ', hs, he, ?_⟩, τ, _, hτ, hstep, hinv, ?_⟩
  · exact (hpacket _ _ _ _ .received hs).2 (.inr (.inr (.inl (by simp [he]))))
  · exact (hworker _ _ _ hsame hτ hstep hinv).2 (fun a ha => List.eq_of_mem_replicate ha)

end SquimpChat
