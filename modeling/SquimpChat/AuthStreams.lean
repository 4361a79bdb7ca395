import SquimpChat.QueueIntegrity
import SquimpChat.LoginOrder

/-!
# Logins on several streams

The streams of a connection share one session, and the session has one `auth_stream`: the
AUTH_REQ handler stores the stream of the packet there, the worker loads it twice, and
`on_stream_closed` clears it, whichever stream is closed. A stream of the session that closes
while the login of another one is under way takes the answer and the registered stream with it.

Results:
1. `login_served`: closing a stream leaves the other streams' logins alone exactly if
   `auth_stream` is that stream or NULL; in runs in which every close is so, and no AUTH_REQ
   overtakes another of its session, an AUTH_REQ on a stream that stays open is queued, in the
   worker's hands, or answered on that stream, what is registered for it holds the stream, and
   the worker's next steps answer it.
2. `close_takes_answer`: a second stream that opens and closes behind an AUTH_REQ.
-/

namespace SquimpChat
open Octets Transition QueueLemmas

variable {env : Env} {σ σ' : Server} {a : Action}

/-! ## 1. Logins -/

/-- The worker has dequeued the session and is yet to load `auth_stream` for the answer. -/
def WorkerPc.undecided : WorkerPc → Option SessionId
  | dequeued s | cleared s | checked s | verified s | loaded s _ | added s | decided s _ => some s
  | _ => none

/-- The close of a stream finds `auth_stream` NULL or on that stream. -/
def ClosesOwn (σ : Server) : Action → Prop
  | .streamClosed st => ∀ s ∈ (σ.stream st).userData, ∀ st' ∈ (σ.session s).authStream, st' = st
  | _ => True

/-- No AUTH_REQ is accepted for a session that is queued, and none on another stream than the
one whose login the worker is at. -/
def OneLogin (σ : Server) : Action → Prop
  | .received st data => ∀ p ∈ authReqOn σ (.received st data), p.1 ∉ σ.waiting ∧
      (σ.pc.undecided = some p.1 → ∀ st' ∈ (σ.session p.1).authStream, st' = st)
  | _ => True

/-- Logins of one session do not meet. -/
def LoginsApart (σ : Server) (a : Action) : Prop := ClosesOwn σ a ∧ OneLogin σ a

instance : ∀ a, Decidable (ClosesOwn σ a)
  | .streamClosed _ => inferInstanceAs (Decidable (∀ _ ∈ _, ∀ _ ∈ _, _))
  | .connected _ | .streamOpened .. | .received .. | .chatLookup .. | .chatForward _
  | .disconnected _ | .disconnectLoad _ | .disconnectRest _ | .worker | .interrupted
  | .signal => isTrue trivial

instance : ∀ a, Decidable (OneLogin σ a)
  | .received st data => inferInstanceAs (Decidable (∀ p ∈ authReqOn σ (.received st data), _ ∧ _))
  | .connected _ | .streamOpened .. | .streamClosed _ | .chatLookup .. | .chatForward _
  | .disconnected _ | .disconnectLoad _ | .disconnectRest _ | .worker | .interrupted
  | .signal => isTrue trivial

instance : Decidable (LoginsApart σ a) := inferInstanceAs (Decidable (_ ∧ _))

/-- The handler accepts an AUTH_REQ of the session on the stream. -/
def AcceptsOn (σ : Server) (st : StreamId) (data : Bytes) (s : SessionId) : Prop :=
  authReqOn σ (.received st data) = some (s, data) ∧ ∃ f, readAuthReq data = .ok f

/-- The step changes `auth_stream` of no session where it is another stream. -/
def ClosesOnly (σ σ' : Server) (st : StreamId) : Prop :=
  ∀ s, (σ'.session s).authStream ≠ (σ.session s).authStream → (σ.session s).authStream = some st

/-- Of the events behind the dequeue: what is registered for the session holds the stream, and
nothing is answered. -/
structure InHand (s : SessionId) (st : StreamId) (es : List Event) : Prop where
  registered : ∀ k o pk, .registered s k o pk ∈ es → o = some st
  unanswered : ∀ st' p l ok, .sent st' p l ok ∈ es → p.msg.type ≠ .authResp

/-- The worker has dequeued the session and answered on the stream, which was open; `es` are the
events since the AUTH_REQ. -/
def AnsweredOn (s : SessionId) (st : StreamId) (es : List Event) : Prop :=
  ∃ (later post pre : List Event) (p : Packet) (ok : Bool),
    es = later ++ .sent st p true ok :: post ++ .dequeued (some s) :: pre ∧
    .dequeued (some s) ∉ pre ∧ InHand s st post ∧ p.msg.type = .authResp

/-- What has become of an AUTH_REQ of the session on the stream. -/
inductive LoginServed (σ : Server) (s : SessionId) (st : StreamId) (es : List Event) : Prop
  | queued (hq : s ∈ σ.waiting) (ha : (σ.session s).authStream = some st)
      (hes : .dequeued (some s) ∉ es)
  /-- the worker has dequeued the session and will answer on the stream -/
  | held {post pre : List Event} (hes : es = post ++ .dequeued (some s) :: pre)
      (hpre : .dequeued (some s) ∉ pre) (hpost : InHand s st post)
      (hpc : (∃ ok, σ.pc = .responding s st ok) ∨ σ.pc.undecided = some s ∧
        (σ.session s).authStream = some st ∧ ∀ o, σ.pc = .loaded s o → o = some st)
  | answered (h : AnsweredOn s st es)

/-! ## 2. Closed connections -/

/-- `conn_closed` is set by the last callback of the connection. -/
def ClosedOff (σ : Server) : Prop :=
  ∀ s, (σ.session s).connClosed = true → (σ.conn s).phase = .closed

/-- How far the worker is from its next dequeue. -/
def WorkerPc.rank : WorkerPc → Nat
  | dequeued _ => 11
  | cleared _ => 10
  | checked _ => 9
  | verified _ => 8
  | loaded .. => 7
  | added _ => 6
  | decided .. => 5
  | responding .. => 4
  | test => 3
  | semWait => 2
  | unlink => 1
  | farewell _ | shutdown _ | exited => 0

/-- Every iteration of the worker's loop takes one session off the queue. -/
def Server.backlog (σ : Server) : Nat := 12 * σ.waiting.length + σ.pc.rank

/-- What holds while logins stay apart. -/
structure LoginInv (σ : Server) : Prop where
  wf : Wf σ
  known : Known σ
  sound : QueueSound σ
  closedOff : ClosedOff σ

namespace AuthStreamLemmas

variable {s : SessionId} {st : StreamId} {es : List Event} {l : List SessionId}

theorem closedOff_init : ClosedOff .init := nofun

/-- A phase that is set to closed, or where it was not closed before. -/
theorem setPhase_closed {c : ConnId} {p : ConnPhase} (hp : p = .closed ∨ (σ.conn c).phase ≠ .closed)
    (h : (σ.conn s).phase = .closed) : ((setPhase σ c p).conn s).phase = .closed := by
  rcases eq_or_ne s c with rfl | hne
  · rw [OwnershipLemmas.setPhase_phase_self]
    exact hp.resolve_right fun hp => hp h
  · rw [OwnershipLemmas.setPhase_phase_of_ne hne, h]

theorem closedOff_callback (hc : ClosedOff σ) (hw : Wf σ) (h : CallbackStep env σ a σ') :
    ClosedOff σ' := by
  intro s hs
  cases h with
  | @connected c hp =>
    have hne : s ≠ c := by
      rintro rfl
      simp [Session.fresh] at hs
    simp only [Function.update_of_ne hne] at hs ⊢
    exact hc s hs
  | @connectedNull c hp =>
    have hne : s ≠ c := by
      rintro rfl
      rw [hc s hs] at hp
      cases hp
    simp only [Function.update_of_ne hne]
    exact hc s hs
  | @streamOpened c st _ _ =>
    have := hc s hs
    simp only [onStreamOpen, Function.update_apply]
    split
    · next heq => rw [← heq, this]
    · exact this
  | disconnectLoad hcf =>
    have hphase := (OwnershipLemmas.callbackFree_iff.mp hcf).1
    exact setPhase_closed (.inr (by simp [hphase])) (hc s hs)
  | disconnectNull => exact setPhase_closed (.inl rfl) (hc s hs)
  | freed => exact setPhase_closed (.inl rfl) (hc s hs)
  | @left _ c s₀ _ _ hu _ =>
    rcases eq_or_ne s c with rfl | hne
    · exact OwnershipLemmas.setPhase_phase_self
    · rw [OwnershipLemmas.setPhase_phase_of_ne hne]
      have hne' : s ≠ s₀ := fun heq => hne (heq.trans (hw.user _ _ hu).1)
      refine hc s ?_
      simpa [setPhase, hne'] using hs
  | hello | authReq | bye | streamClosed =>
    refine hc s ((Server.update_proj Session.connClosed ?_ s).symm.trans hs)
    rfl
  | _ => exact hc s hs

theorem closedOff_main (hc : ClosedOff σ) (h : MainStep env σ a σ') : ClosedOff σ' := by
  intro s hs
  rw [LoginOrderLemmas.conn_main h]
  cases h
  case clear | establish =>
    refine hc s ((Server.update_proj Session.connClosed ?_ s).symm.trans hs)
    rfl
  all_goals exact hc s hs

/-! ### What an AUTH_REQ leaves -/

/-- `auth_stream` is written by an accepted AUTH_REQ and by the close of a stream. -/
theorem authStream_callback (hw : Wf σ) (h : CallbackStep env σ a σ')
    (hl : σ.life s ≠ .unallocated) : (σ'.session s).authStream = (σ.session s).authStream ∨
      (∃ st data, a = .received st data ∧ authReqOn σ a = some (s, data) ∧
        (σ'.session s).authStream = some st) ∨
      ∃ st, a = .streamClosed st ∧ (σ.stream st).userData = some s ∧
        (σ'.stream st).life = .freed := by
  cases h with
  | @connected c hp =>
    refine .inl (congrArg Session.authStream (Function.update_of_ne ?_ _ _))
    rintro rfl
    exact hl (hw.absent s hp).1
  | @authReq st t data f es hr hs hst hon hf hes =>
    rcases eq_or_ne s t with rfl | hne
    · exact .inr (.inl ⟨st, data, rfl, hon, by simp [acceptedState, Session.stage]⟩)
    · exact .inl (congrArg Session.authStream (Function.update_of_ne hne _ _))
  | @streamClosed st t hr hs =>
    rcases eq_or_ne s t with rfl | hne
    · exact .inr (.inr ⟨st, rfl, hs, by simp⟩)
    · exact .inl (congrArg Session.authStream (Function.update_of_ne hne _ _))
  | hello | bye | left =>
    refine .inl (Server.update_proj Session.authStream ?_ s)
    rfl
  | _ => exact .inl rfl

theorem notWaiting (hP : LoginsApart σ a) : NotWaiting σ a := by
  rintro ⟨s, data⟩ hon
  obtain ⟨st, rfl, _⟩ := OwnershipLemmas.authReqOn_some hon
  exact (hP.2 (s, data) hon).1

/-- A stream that is open now was open before, when it was allocated. -/
theorem live_callback (h : CallbackStep env σ a σ') (hl : (σ.stream st).life ≠ .unallocated)
    (hlive : (σ'.stream st).life = .live) : (σ.stream st).life = .live := by
  rcases (LoginOrderLemmas.stream_callback h hl).2.2 with h' | h'
  · rw [← h', hlive]
  · rw [hlive] at h'
    cases h'

/-- A login that is under way keeps its stream as long as that is open. -/
theorem authStream_kept (hw : Wf σ) (hk : Known σ) (hP : LoginsApart σ a)
    (h : CallbackStep env σ a σ') (hr : s ∈ σ.waiting ∨ σ.pc.undecided = some s)
    (href : Refers σ s) (hlive : (σ'.stream st).life = .live)
    (ha : (σ.session s).authStream = some st) : (σ'.session s).authStream = some st := by
  rcases authStream_callback hw h (hk s href) with h' | ⟨st', data, rfl, hon, h'⟩ |
      ⟨st', rfl, hu, hfreed⟩
  · rw [h', ha]
  · obtain ⟨hnot, hsame⟩ := hP.2 (s, data) hon
    rcases hr with hr | hr
    · exact absurd hr hnot
    · rw [h', hsame hr st ha]
  · -- the stream that closes is the login's own
    obtain rfl : st = st' := hP.1 s hu st ha
    rw [hlive] at hfreed
    cases hfreed

theorem undecided_pending {pc : WorkerPc} (h : pc.undecided = some s) : pc.pending = some s := by
  cases pc <;> first | exact h | cases h

theorem reply_type {m : Msg} (h : m.isReply = true) : m.type ≠ .authResp := by
  cases m <;> simp_all [Msg.isReply, Msg.type]

theorem inHand_append {es' : List Event} (h' : InHand s st es') (h : InHand s st es) :
    InHand s st (es' ++ es) where
  registered k o pk he := (List.mem_append.mp he).elim (h'.registered k o pk) (h.registered k o pk)
  unanswered st' p l ok he :=
    (List.mem_append.mp he).elim (h'.unanswered st' p l ok) (h.unanswered st' p l ok)

/-- Callbacks register nothing and send no AUTH_RESP. -/
theorem inHand_callback (hes : ∀ e ∈ es, CallbackEvent σ a e) : InHand s st es where
  registered k o pk he := absurd (hes _ he) callback_registers
  unanswered st' p l ok he := by
    cases (callback_packet (hes _ he)).2 with
    | reply _ hp => exact reply_type hp
    | helloAck _ hp | deliver _ hp =>
      rw [hp]
      nofun

theorem not_dequeued_callback (hes : ∀ e ∈ es, CallbackEvent σ a e) :
    .dequeued (some s) ∉ es := fun he => callback_dequeues (hes _ he)

theorem answeredOn_append {new : List Event} (h : AnsweredOn s st es) :
    AnsweredOn s st (new ++ es) := by
  obtain ⟨later, post, pre, p, ok, rfl, h⟩ := h
  exact ⟨new ++ later, post, pre, p, ok, by simp only [List.append_assoc], h⟩

theorem served_callback (hq : Queued σ l) (hw : Wf σ) (hk : Known σ) (hP : LoginsApart σ a)
    (h : CallbackStep env σ a σ') {new : List Event} (hnew : ∀ e ∈ new, CallbackEvent σ a e)
    (hlive : (σ'.stream st).life = .live) (hs : LoginServed σ s st es) :
    LoginServed σ' s st (new ++ es) := by
  cases hs with
  | queued hmem ha hes =>
    have href : Refers σ s := .inr (hq.represents.mentions (hq.waiting_eq ▸ hmem))
    refine .queued ?_ (authStream_kept hw hk hP h (.inl hmem) href hlive ha) ?_
    · rw [hq.waiting_eq] at hmem
      rcases hq.callback (notWaiting hP) h with ⟨_, hq'⟩ | ⟨s', f, _, _, hq'⟩
      · rw [hq'.waiting_eq]
        exact hmem
      · rw [hq'.waiting_eq]
        exact List.mem_append_left _ hmem
    · exact fun he => (List.mem_append.mp he).elim (not_dequeued_callback hnew) hes
  | @held post pre hes hpre hpost hpc =>
    refine .held (by rw [hes, List.append_assoc]) hpre
      (inHand_append (inHand_callback hnew) hpost) ?_
    rw [callback_pc h]
    refine hpc.imp_right fun ⟨hund, ha, hload⟩ => ⟨hund, ?_, hload⟩
    exact authStream_kept hw hk hP h (.inr hund) (.inl (undecided_pending hund)) hlive ha
  | answered h => exact .answered (answeredOn_append h)

/-! ### The worker -/

/-- The worker registers the session with the stream it has loaded. -/
theorem inHand_main (hes : ∀ e ∈ es, MainEvent env σ e)
    (hload : ∀ o, σ.pc = .loaded s o → o = some st)
    (hresp : ∀ s' st' ok, σ.pc ≠ .responding s' st' ok) : InHand s st es where
  registered k o pk he := hload o (main_registers (hes _ he))
  unanswered st' p l ok he := by
    cases (main_packet (hes _ he)).2 with
    | authResp hpc _ => exact absurd hpc (hresp _ _ _)
    | bye _ hp =>
      rw [hp]
      nofun

theorem inHand_touched {s' : SessionId} : InHand s st (σ.touched s') where
  registered k o pk he := by
    cases (StepLemmas.mem_touched.mp he).2
  unanswered st' p l ok he := by
    cases (StepLemmas.mem_touched.mp he).2

theorem not_dequeued_touched {s' : SessionId} : .dequeued (some s) ∉ σ.touched s' := fun he =>
  nomatch (StepLemmas.mem_touched.mp he).2

theorem not_dequeued_idle (h : QueueIdle σ σ') (htr : σ'.trace = es ++ σ.trace) :
    .dequeued (some s) ∉ es := by
  obtain ⟨es', htr', hes⟩ := h.trace
  obtain rfl : es = es' := List.append_cancel_right (htr.symm.trans htr')
  exact fun he => nomatch hes _ he

/-- A queued session stays queued until the worker takes it. -/
theorem queued_main (hq : Queued σ l) (h : MainStep env σ a σ') (hmem : s ∈ σ.waiting)
    (ha : (σ.session s).authStream = some st) (hes : .dequeued (some s) ∉ es) :
    ∃ new, σ'.trace = new ++ σ.trace ∧ LoginServed σ' s st (new ++ es) := by
  have ha' : (σ'.session s).authStream = some st := by
    rw [LoginOrderLemmas.authStream_main h, ha]
  rw [hq.waiting_eq] at hmem
  rcases hq.main h with ⟨hidle, hq'⟩ | ⟨s', l', rfl, hpc, rfl, hq'⟩
  · obtain ⟨new, htr, _⟩ := hidle.trace
    refine ⟨new, htr, .queued (hq'.waiting_eq ▸ hmem) ha' fun he => ?_⟩
    exact (List.mem_append.mp he).elim (not_dequeued_idle hidle htr) hes
  · refine ⟨_, rfl, ?_⟩
    have hpre : .dequeued (some s) ∉ σ.touched s' ++ es := fun he =>
      (List.mem_append.mp he).elim not_dequeued_touched hes
    rcases eq_or_ne s s' with rfl | hne
    · exact @LoginServed.held _ _ _ _ [] _ rfl hpre ⟨nofun, nofun⟩ (.inr ⟨rfl, ha', nofun⟩)
    · refine .queued ?_ ha' fun he => ?_
      · rw [hq'.waiting_eq]
        exact (List.mem_cons.mp hmem).resolve_left hne
      · rcases List.mem_cons.mp he with he | he
        · exact hne (Option.some.inj (Event.dequeued.inj he))
        · exact hpre he

theorem authResp_type {x : Session} {ok : Bool} : (authRespPacket x ok).msg.type = .authResp := by
  cases ok <;> rfl

/-- What the worker holds it brings to its answer. -/
theorem held_main (hc : ClosedOff σ) (hw : Wf σ) (hlive : (σ.stream st).life = .live)
    (hu : (σ.stream st).userData = some s) (h : MainStep env σ a σ') {post pre : List Event}
    (hpre : .dequeued (some s) ∉ pre) (hpost : InHand s st post)
    (hpc : (∃ ok, σ.pc = .responding s st ok) ∨ σ.pc.undecided = some s ∧
      (σ.session s).authStream = some st ∧ ∀ o, σ.pc = .loaded s o → o = some st) :
    ∃ new, σ'.trace = new ++ σ.trace ∧
      LoginServed σ' s st (new ++ (post ++ .dequeued (some s) :: pre)) := by
  rcases hpc with ⟨ok, hpc⟩ | ⟨hpc, ha, hload⟩
  · cases h
    case respond s' st' ok' b hpc' hb =>
      rw [hpc] at hpc'
      cases hpc'
      rw [OwnershipLemmas.isLive_iff.mpr hlive]
      refine ⟨_, rfl, .answered ⟨[], σ.touched s ++ post, pre, authRespPacket (σ.session s) ok, b,
        ?_, hpre, inHand_append inHand_touched hpost, authResp_type⟩⟩
      simp only [List.nil_append, List.cons_append, List.append_assoc]
    case signal => exact ⟨[], rfl, .held rfl hpre hpost (.inl ⟨ok, hpc⟩)⟩
    case ending hend _ _ =>
      rw [hpc] at hend
      cases hend
    all_goals
      rw [hpc] at *
      contradiction
  · obtain ⟨new, htr, hnew⟩ := main_events h
    have hresp : ∀ s' st' ok, σ.pc ≠ .responding s' st' ok := by
      intro s' st' ok hr
      rw [hr] at hpc
      cases hpc
    have hpost' := inHand_append (inHand_main hnew hload hresp) hpost
    have ha' : (σ'.session s).authStream = some st := by
      rw [LoginOrderLemmas.authStream_main h, ha]
    refine ⟨new, htr, .held (List.append_assoc ..).symm hpre hpost' ?_⟩
    cases h
    case checkClosed s' hpc' hclosed =>
      rw [hpc'] at hpc
      cases hpc
      -- the connection of an open stream is connected
      have hphase := hw.live_connected hlive
      rw [← (hw.stream_user hu).1, hc s hclosed] at hphase
      cases hphase
    case noStream s' ok hpc' hst =>
      rw [hpc'] at hpc
      cases hpc
      rw [hst] at ha
      cases ha
    case stream s' ok st' hpc' hst =>
      rw [hpc'] at hpc
      cases hpc
      obtain rfl : st' = st := Option.some.inj (hst.symm.trans ha)
      exact .inl ⟨ok, rfl⟩
    case load s' hpc' =>
      rw [hpc'] at hpc
      cases hpc
      exact .inr ⟨rfl, ha', fun o ho => by cases ho; exact ha⟩
    case verify s' ok hpc' hok =>
      rw [hpc'] at hpc
      cases hpc
      refine .inr ⟨?_, ha', fun o ho => ?_⟩
      · show WorkerPc.undecided (if ok then _ else _) = _
        split <;> rfl
      · dsimp only at ho
        split at ho <;> cases ho
    case signal => exact .inr ⟨hpc, ha', hload⟩
    case ending hend _ _ =>
      have hpend := undecided_pending hpc
      rw [OwnershipLemmas.pending_of_isEnding hend] at hpend
      cases hpend
    all_goals
      rw [‹σ.pc = _›] at hpc
      cases hpc <;> exact .inr ⟨rfl, ha', nofun⟩

theorem served_main (hi : LoginInv σ) (hlive : (σ.stream st).life = .live)
    (hu : (σ.stream st).userData = some s) (h : MainStep env σ a σ') (hs : LoginServed σ s st es) :
    ∃ new, σ'.trace = new ++ σ.trace ∧ LoginServed σ' s st (new ++ es) := by
  cases hs with
  | queued hmem ha hes =>
    obtain ⟨l, hq⟩ := hi.sound.list
    exact queued_main hq h hmem ha hes
  | held hes hpre hpost hpc => exact hes ▸ held_main hi.closedOff hi.wf hlive hu h hpre hpost hpc
  | answered hs =>
    obtain ⟨new, htr, _⟩ := main_events h
    exact ⟨new, htr, .answered (answeredOn_append hs)⟩

/-! ### Runs -/

theorem loginInv_init : LoginInv .init where
  wf := .init
  known := known_init
  sound := .init
  closedOff := closedOff_init

theorem loginInv_step (hi : LoginInv σ) (hP : LoginsApart σ a) (h : step env σ a = some σ') :
    LoginInv σ' where
  wf := (step_wf h hi.wf hi.known).1
  known := (step_wf h hi.wf hi.known).2
  sound := (step_cases h).elim (hi.sound.callback (notWaiting hP)) hi.sound.main
  closedOff := (step_cases h).elim (closedOff_callback hi.closedOff hi.wf)
    (closedOff_main hi.closedOff)

/-- An accepted AUTH_REQ is queued with its stream. -/
theorem served_accepted {data : Bytes} (hi : LoginInv σ) (hP : LoginsApart σ (.received st data))
    (ha : AcceptsOn σ st data s) (h : step env σ (.received st data) = some σ') :
    (σ'.stream st).userData = some s ∧ (σ'.stream st).life ≠ .unallocated ∧
      LoginServed σ' s st [] := by
  obtain ⟨hon, f, hf⟩ := ha
  obtain ⟨st', heq, hs, hst⟩ := OwnershipLemmas.authReqOn_some hon
  cases heq
  have hd : dispatch serverHandles data = .ok (some .authReq) := by
    by_contra hd
    simp [authReqOn, hd] at hon
  obtain ⟨es, hes, he⟩ := StepLemmas.acceptAuthReq_eq σ st s f
  have hr : receivable σ st = true := by
    by_contra hr
    simp [step, hr] at h
  obtain rfl : acceptedState σ st s f es = σ' := by
    simpa [step, hr, onStreamRecv, hd, ok_bind, withSession, hs, sqmpProcessAuthReq, hst, hf,
      settle, he] using h
  have hacc : AuthAccepted σ (acceptedState σ st s f es) (.received st data) s f := by
    refine ⟨⟨data, hon, hf⟩, st, es, hr, hs, fun e he => ?_, rfl⟩
    obtain ⟨t, _, he⟩ := hes e he
    exact touched_isAuth e he
  obtain ⟨l, hq⟩ := hi.sound.list
  have hq' := hq.accepted hacc (hq.waiting_eq ▸ (hP.2 (s, data) hon).1)
  refine ⟨hs, ?_, .queued ?_ ?_ (List.not_mem_nil)⟩
  · exact ne_of_eq_of_ne (OwnershipLemmas.receivable_iff.mp hr).1 (by decide)
  · rw [hq'.waiting_eq]
    exact List.mem_append_right _ List.mem_cons_self
  · simp [acceptedState, Session.stage]

/-! ### The worker's way to the answer -/

theorem rank_main (h : MainStep env σ .worker σ') (hend : σ.pc.isEnding = false)
    (hu : σ.pc = .unlink → σ'.pc = .unlink) : σ'.pc.rank < σ.pc.rank := by
  cases h
  case test hpc =>
    rw [hpc]
    show (loopTest σ).rank < _
    exact loopTest_cases _ (by decide) (by decide)
  case verify s ok hpc hok =>
    rw [hpc]
    cases ok <;> simp [WorkerPc.rank]
  case unlinkNull hpc hd =>
    have := hu hpc
    dsimp only at this
    split at this <;> cases this
  case unlink hpc hd => cases hu hpc
  case ending hpc _ _ =>
    rw [hpc] at hend
    cases hend
  all_goals
    rw [‹σ.pc = _›]
    simp [WorkerPc.rank]

/-- Until it has answered, the worker goes on. -/
theorem worker_advances (env : Env) (hi : LoginInv σ) (hs : LoginServed σ s st es)
    (hn : ¬ AnsweredOn s st es) (hstop : σ.stop = false) : ∃ σ', step env σ .worker = some σ' ∧
      MainStep env σ .worker σ' ∧ σ'.backlog < σ.backlog ∧ σ'.stop = false := by
  obtain ⟨l, hq⟩ := hi.sound.list
  have hend : σ.pc.isEnding = false := by
    by_contra he
    rw [hi.sound.loop (by simpa using he)] at hstop
    cases hstop
  obtain ⟨σ', h⟩ : ∃ σ', workerStep env σ = some σ' := by
    cases hpc : σ.pc
    case semWait =>
      have hsem : σ.queueSem ≠ 0 := by
        cases hs with
        | queued hmem =>
          have hlen := List.length_pos_of_mem (hq.waiting_eq ▸ hmem)
          have hc := hq.count
          rw [hpc] at hc
          simp only [WorkerPc.inFlight] at hc
          omega
        | held _ _ _ hheld => simp [hpc, WorkerPc.undecided] at hheld
        | answered ha => exact absurd ha hn
      exact ⟨_, by rw [workerStep, hpc]; exact if_neg hsem⟩
    case farewell | shutdown | exited =>
      rw [hpc] at hend
      cases hend
    all_goals exact ⟨_, by rw [workerStep, hpc]⟩
  have hmain := StepLemmas.workerStep_step h
  refine ⟨σ', h, hmain, ?_, ?_⟩
  · rcases hq.main hmain with ⟨hidle, hq'⟩ | ⟨s', l', rfl, hpc, rfl, hq'⟩
    · have := rank_main hmain hend hidle.pc
      rw [Server.backlog, Server.backlog, hq.waiting_eq, hq'.waiting_eq]
      omega
    · rw [Server.backlog, Server.backlog, hq.waiting_eq, hq'.waiting_eq, hpc]
      simp only [unlinkedState, WorkerPc.rank, List.length_cons]
      omega
  · cases hmain <;> exact hstop

/-- The worker alone brings a login to its answer. -/
theorem worker_answers (hi : LoginInv σ) (hlive : (σ.stream st).life = .live)
    (hu : (σ.stream st).userData = some s) (hs : LoginServed σ s st es) (hstop : σ.stop = false) :
    ∃ k σ' new, run (step env) σ (List.replicate k .worker) = some σ' ∧
      σ'.trace = new ++ σ.trace ∧ AnsweredOn s st (new ++ es) := by
  induction hb : σ.backlog using Nat.strong_induction_on generalizing σ es with
  | _ n ih =>
    by_cases hn : AnsweredOn s st es
    · exact ⟨0, σ, [], rfl, rfl, hn⟩
    · obtain ⟨τ, hstep, hmain, hlt, hstop'⟩ := worker_advances env hi hs hn hstop
      obtain ⟨new, htr, hs'⟩ := served_main hi hlive hu hmain hs
      have hst := StreamLifetimeLemmas.stream_main hmain
      have hi' := loginInv_step hi (a := .worker) ⟨trivial, trivial⟩ hstep
      obtain ⟨k, σ', new', hr, htr', ha⟩ :=
        ih _ (hb ▸ hlt) hi' (hst ▸ hlive) (hst ▸ hu) hs' hstop' rfl
      refine ⟨k + 1, σ', new' ++ new, ?_, by rw [htr', htr, List.append_assoc], ?_⟩
      · exact run_cons.mpr ⟨τ, hstep, hr⟩
      · rwa [List.append_assoc]

/-- As long as the stream is open, its login is served; `tr` is the trace at the AUTH_REQ. -/
structure Serving (s : SessionId) (st : StreamId) (tr : List Event) (σ : Server) : Prop where
  inv : LoginInv σ
  user : (σ.stream st).userData = some s
  allocated : (σ.stream st).life ≠ .unallocated
  served : (σ.stream st).life = .live → ∃ es, σ.trace = es ++ tr ∧ LoginServed σ s st es

theorem serving_step {tr : List Event} (hs : Serving s st tr σ) (hP : LoginsApart σ a)
    (h : step env σ a = some σ') : Serving s st tr σ' := by
  have hi' := loginInv_step hs.inv hP h
  rcases step_cases h with h | h
  · obtain ⟨_, huser, hlife⟩ := LoginOrderLemmas.stream_callback h hs.allocated
    refine ⟨hi', huser.trans hs.user, ?_, fun hlive => ?_⟩
    · rcases hlife with hlife | hlife <;> rw [hlife]
      · exact hs.allocated
      · nofun
    · obtain ⟨es, htr, hserved⟩ := hs.served (live_callback h hs.allocated hlive)
      obtain ⟨new, htr', hnew⟩ := callback_events h
      obtain ⟨l, hq⟩ := hs.inv.sound.list
      refine ⟨new ++ es, by rw [htr', htr, List.append_assoc], ?_⟩
      exact served_callback hq hs.inv.wf hs.inv.known hP h hnew hlive hserved
  · have hstream := StreamLifetimeLemmas.stream_main h
    refine ⟨hi', ?_, ?_, fun hlive => ?_⟩
    · rw [hstream, hs.user]
    · rw [hstream]
      exact hs.allocated
    · rw [hstream] at hlive
      obtain ⟨es, htr, hserved⟩ := hs.served hlive
      obtain ⟨new, htr', hserved'⟩ := served_main hs.inv hlive hs.user h hserved
      exact ⟨new ++ es, by rw [htr', htr, List.append_assoc], hserved'⟩

theorem readAuthReq_isOk {data : Bytes} (h : (readAuthReq data).isOk = true) :
    ∃ f, readAuthReq data = .ok f := by
  cases hf : readAuthReq data with
  | error e =>
    rw [hf] at h
    cases h
  | ok f => exact ⟨f, rfl⟩

/-- `on_stream_closed` clears `auth_stream` whatever stream it is. -/
theorem closesOnly_iff (h : step env σ (.streamClosed st) = some σ') :
    ClosesOnly σ σ' st ↔ ClosesOwn σ (.streamClosed st) := by
  have hr : receivable σ st = true := by
    by_contra hr
    simp [step, hr] at h
  obtain rfl : onStreamClosed σ st = σ' := by simpa [step, hr] using h
  constructor
  · intro hc s hs st' hst'
    have hnone : ((onStreamClosed σ st).session s).authStream = none := by
      simp [onStreamClosed, Option.mem_def.mp hs]
    have hst := hc s (by simp [hnone, Option.mem_def.mp hst'])
    exact Option.some.inj (hst'.symm.trans hst)
  · intro hc s hne
    cases hs : (σ.stream st).userData with
    | none => simp [onStreamClosed, hs] at hne
    | some s' =>
      obtain rfl : s = s' := by
        by_contra hss
        simp [onStreamClosed, hs, hss] at hne
      cases hst : (σ.session s).authStream with
      | none => simp [onStreamClosed, hs, hst] at hne
      | some st' => rw [hc s hs st' hst]

end AuthStreamLemmas
open AuthStreamLemmas

/-! ## 3. The law -/

/-- Closing a stream changes `auth_stream` only where it is that stream if and only if it is that
stream or NULL. When every close is so and logins of one session do not meet, an AUTH_REQ on a
stream that stays open is served on it, and unless the server is stopped the worker's steps alone
bring it to its answer. -/
theorem login_served (env : Env) :
    (∀ σ σ' st, step env σ (.streamClosed st) = some σ' →
      (ClosesOnly σ σ' st ↔ ClosesOwn σ (.streamClosed st))) ∧
    ∀ acts₁ acts₂ σ₁ τ σ s st data,
      RunMeets env LoginsApart (acts₁ ++ .received st data :: acts₂) →
      serverRun env acts₁ = some σ₁ → AcceptsOn σ₁ st data s →
      step env σ₁ (.received st data) = some τ → run (step env) τ acts₂ = some σ →
      (σ.stream st).life = .live → ∃ es, σ.trace = es ++ τ.trace ∧ LoginServed σ s st es ∧
        (σ.stop = false → ∃ k σ' es', run (step env) σ (List.replicate k .worker) = some σ' ∧
          σ'.trace = es' ++ τ.trace ∧ AnsweredOn s st es') := by
  refine ⟨fun σ σ' st h => closesOnly_iff h, ?_⟩
  intro acts₁ acts₂ σ₁ τ σ s st data hP hr₁ ha hτ hr hlive
  obtain ⟨hP₁, hP₂⟩ := along_split hr₁ hP
  obtain ⟨hPa, hP₂⟩ := along_cons hP₂ hτ
  have hi₁ : LoginInv σ₁ :=
    run_invariant (fun _ _ _ hi hp hs => loginInv_step hi hp hs) loginInv_init hP₁ hr₁
  obtain ⟨hu, hl, hs⟩ := served_accepted hi₁ hPa ha hτ
  have hτs : Serving s st τ.trace τ :=
    ⟨loginInv_step hi₁ hPa hτ, hu, hl, fun _ => ⟨[], rfl, hs⟩⟩
  have hσ : Serving s st τ.trace σ :=
    run_invariant (fun _ _ _ hi hp hs => serving_step hi hp hs) hτs hP₂ hr
  obtain ⟨es, htr, hs⟩ := hσ.served hlive
  refine ⟨es, htr, hs, fun hstop => ?_⟩
  obtain ⟨k, σ', new, hrun, htr', hans⟩ := worker_answers hσ.inv hlive hσ.user hs hstop
  exact ⟨k, σ', new ++ es, hrun, by rw [htr', htr, List.append_assoc], hans⟩

/-! ## 4. Concrete runs -/

/-- The connection has a second stream. -/
def secondStream : List Action := greet 0 ++ [.streamOpened 0 1]

theorem login_served_besideClosed : ∃ σ₁ τ σ, serverRun (.fair abcUsers)
      (secondStream ++ [.streamClosed 1]) = some σ₁ ∧ AcceptsOn σ₁ 0 abcReq 0 ∧
    step (.fair abcUsers) σ₁ (.received 0 abcReq) = some τ ∧
      run (step (.fair abcUsers)) τ (List.replicate 11 .worker) = some σ ∧
      ∃ es, σ.trace = es ++ τ.trace ∧ LoginServed σ 0 0 es := by
  obtain ⟨σ, hr, hlive⟩ := serverRun_reaches (.fair abcUsers)
    (secondStream ++ [.streamClosed 1] ++ .received 0 abcReq :: List.replicate 11 .worker)
    (fun σ => (σ.stream 0).life = .live) (by decide +kernel)
  obtain ⟨σ₁, hr₁, hon, hf⟩ := serverRun_reaches (.fair abcUsers)
    (secondStream ++ [.streamClosed 1]) (fun σ => authReqOn σ (.received 0 abcReq) =
      some (0, abcReq) ∧ (readAuthReq abcReq).isOk = true) (by decide +kernel)
  have ha : AcceptsOn σ₁ 0 abcReq 0 := ⟨hon, readAuthReq_isOk hf⟩
  obtain ⟨_, hr₁', hr⟩ := run_append.mp hr
  obtain rfl := Option.some.inj (hr₁.symm.trans hr₁')
  obtain ⟨τ, hτ, hr⟩ := run_cons.mp hr
  obtain ⟨es, htr, hs, _⟩ := (login_served (.fair abcUsers)).2 _ _ _ _ _ 0 0 abcReq
    (by decide +kernel) hr₁ ha hτ hr hlive
  exact ⟨σ₁, τ, σ, hr₁, ha, hτ, hr, es, htr, hs⟩

def Event.isAuthResp : Event → Bool
  | sent _ p _ _ => p.msg.type = .authResp
  | _ => false

/-- The second stream of the connection closes between the AUTH_REQ on the first and the worker's
iteration. -/
theorem close_takes_answer : ∃ env acts₁ σ₁ τ υ acts₂ σ,
    (∀ a ∈ acts₁ ++ [.received 0 abcReq], ∀ data ∈ a.packet, StructComplete data) ∧
    serverRun env acts₁ = some σ₁ ∧ AcceptsOn σ₁ 0 abcReq 0 ∧
    step env σ₁ (.received 0 abcReq) = some τ ∧ step env τ (.streamClosed 1) = some υ ∧
    ¬ ClosesOnly τ υ 1 ∧ run (step env) υ acts₂ = some σ ∧
      (σ.stream 0).life = .live ∧ σ.stop = false ∧
      (∃ e ∈ σ.registry.used, e.stream = none) ∧
      ∀ es, σ.trace = es ++ τ.trace → ¬ LoginServed σ 0 0 es := by
  obtain ⟨σ, hr, hlive, hstop, he, hst, hpc, hresp⟩ := serverRun_reaches (.fair abcUsers)
    (secondStream ++ .received 0 abcReq :: .streamClosed 1 :: List.replicate 11 .worker)
    (fun σ => (σ.stream 0).life = .live ∧ σ.stop = false ∧
      (∃ e ∈ σ.registry.used, e.stream = none) ∧ (σ.session 0).authStream = none ∧ σ.pc = .semWait ∧
      ∀ e ∈ σ.trace, e.isAuthResp = false) (by decide +kernel)
  obtain ⟨σ₁, hr₁, hr⟩ := run_append.mp hr
  obtain ⟨τ, hτ, hr⟩ := run_cons.mp hr
  obtain ⟨υ, hυ, hrun⟩ := run_cons.mp hr
  obtain ⟨σ₁', hr₁', hon, hf⟩ := serverRun_reaches (.fair abcUsers) secondStream
    (fun σ => authReqOn σ (.received 0 abcReq) = some (0, abcReq) ∧
      (readAuthReq abcReq).isOk = true) (by decide +kernel)
  obtain rfl := Option.some.inj (hr₁'.symm.trans hr₁)
  obtain ⟨τ', hτ', hown⟩ := serverRun_reaches (.fair abcUsers)
    (secondStream ++ [.received 0 abcReq]) (fun σ => ¬ ClosesOwn σ (.streamClosed 1))
    (by decide +kernel)
  rw [serverRun, run_append.mpr ⟨_, hr₁, run_cons.mpr ⟨τ, hτ, rfl⟩⟩] at hτ'
  obtain rfl := Option.some.inj hτ'
  refine ⟨.fair abcUsers, secondStream, σ₁', τ, υ, _, σ, by decide +kernel, hr₁,
    ⟨hon, readAuthReq_isOk hf⟩, hτ, hυ, (closesOnly_iff hυ).not.mpr hown, hrun, hlive, hstop, he,
    ?_⟩
  intro es htr hs
  cases hs with
  | queued _ ha _ =>
    rw [hst] at ha
    cases ha
  | held _ _ _ hheld => simp [hpc, WorkerPc.undecided] at hheld
  | answered ha =>
    obtain ⟨later, post, pre, p, ok, rfl, _, _, hp⟩ := ha
    have hsent := hresp (.sent 0 p true ok) (by rw [htr]; simp)
    simp [Event.isAuthResp, hp] at hsent

end SquimpChat
