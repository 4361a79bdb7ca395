import SquimpChat.AccessControl

/-!
# Where an entry comes from

An entry is filled from fields the AUTH_REQ handler has staged in the session, maybe several
times before the worker reads them. The trace has the AUTH_REQs, the verifications and the
registrations, so that it tells which AUTH_REQ an entry was made of: the latest of its
session before the registration. The name and the hash are those of this AUTH_REQ, and
so is the key if the AUTH_REQ carries one.

Results:
1. `registrations_run`: in every state of an atomic run each in-use entry is the last
   registration of its name, and each established session has the name of one of its
   AUTH_REQs.
-/

namespace SquimpChat
open Octets Transition StepLemmas AtomicLemmas AuthSoundnessLemmas

variable {env : Env} {σ σ' : Server} {a : Action} {acts : List Action}

/-- The latest AUTH_REQ of a session in a trace. -/
def lastAuthReq (tr : List Event) (s : SessionId) : Option AuthFields :=
  tr.findSome? (Event.authReqOf s)

/-- The staged fields of the session are those of the AUTH_REQ. -/
structure Session.Stages (x : Session) (f : AuthFields) : Prop where
  staged : x.staged = (f.name, f.passwordHash)
  key : ∀ k ∈ f.pubkey, x.authPubkey = k

/-- The last registration of the entry's name is for `s` and has the entry's fields; `pre` is
the trace before it. -/
def RegisteredBy (tr : List Event) (e : RegistryEntry) (s : SessionId) (pre : List Event) : Prop :=
  ∃ post, tr = post ++ .registered s e.key e.stream e.publicKey :: pre ∧
    ∀ ev ∈ post, ev.registeredAs e.key = none

/-- The latest AUTH_REQ of the session carries the name, and it was verified last. -/
structure Granted (tr : List Event) (s : SessionId) (name : Key) (f : AuthFields) : Prop where
  latest : lastAuthReq tr s = some f
  name_eq : f.name = name
  verified : lastVerified tr = some (s, cString name.2, f.passwordHash, true)

/-- The session that the step admits. -/
def admitting (env : Env) (σ : Server) : Action → Option SessionId
  | .worker =>
    if σ.pc = .semWait ∧ σ.queueSem ≠ 0 then
      σ.queue.dequeue.1.filter fun s =>
        (σ.session s).connClosed = false ∧ (admission env σ s).isSome = true
    else none
  | _ => none

/-- What a step does to the entries: there are no new ones, or one is added for the session
that the step admits. -/
inductive EntryStep (env : Env) (σ : Server) (a : Action) (σ' : Server) : Prop
  | kept {es : List Event} (hnone : admitting env σ a = none)
      (hsub : ∀ e ∈ σ'.registry.used, e ∈ σ.registry.used) (htr : σ'.trace = es ++ σ.trace)
      (hes : ∀ ev ∈ es, ∀ k, ev.registeredAs k = none)
  | added {s : SessionId} {e : RegistryEntry} {f : AuthFields} {post pre : List Event}
      (hsome : admitting env σ a = some s) (hname : e.key = (σ.session s).authName)
      (hused : ∀ e', e' ∈ σ'.registry.used ↔ e' ∈ σ.registry.used ∨ e' = e)
      (hnew : ∀ e' ∈ σ.registry.used, e'.key ≠ e.key)
      (htr : σ'.trace = post ++ .registered s e.key e.stream e.publicKey :: (pre ++ σ.trace))
      (hpost : ∀ ev ∈ post, ∀ k, ev.registeredAs k = none)
      (hpre : ∀ ev ∈ pre, ∀ k, ev.registeredAs k = none)
      (hf : lastAuthReq σ.trace s = some f) (hg : Granted (pre ++ σ.trace) s e.key f)
      (hk : ∀ k ∈ f.pubkey, e.publicKey = k)

/-- What is staged of the queued sessions comes from their latest AUTH_REQs. -/
def Staged (σ : Server) : Prop :=
  ∀ s, σ.queue.Mentions s → ∃ f, lastAuthReq σ.trace s = some f ∧ (σ.session s).Stages f

structure Registrations (σ : Server) : Prop where
  distinct : σ.registry.Distinct
  staged : Staged σ
  entries : ∀ e ∈ σ.registry.used, ∃ s pre f, RegisteredBy σ.trace e s pre ∧
    Granted pre s e.key f ∧ ∀ k ∈ f.pubkey, e.publicKey = k
  names : ∀ s, (σ.session s).state = .connEstablished →
    ∃ f, .authReq s f ∈ σ.trace ∧ f.name = (σ.session s).name

/-! ## 1. Traces -/

namespace RegistrationLemmas

variable {s t : SessionId} {es tr pre : List Event} {e : RegistryEntry} {f : AuthFields}

theorem authReqOf_of_isAuth {ev : Event} (h : ev.isAuth = false) : ev.authReqOf s = none := by
  cases ev <;> first | rfl | cases h

theorem registeredAs_of_isAuth {ev : Event} {k : Key} (h : ev.isAuth = false) :
    ev.registeredAs k = none := by
  cases ev <;> first | rfl | cases h

theorem lastAuthReq_append (hes : ∀ ev ∈ es, ev.authReqOf s = none) :
    lastAuthReq (es ++ tr) s = lastAuthReq tr s := by
  rw [lastAuthReq, List.findSome?_append, List.findSome?_eq_none_iff.mpr hes]
  rfl

theorem lastAuthReq_cons {ev : Event} (h : ev.authReqOf s = none) :
    lastAuthReq (ev :: tr) s = lastAuthReq tr s := by
  rw [lastAuthReq, List.findSome?_cons, h]
  rfl

theorem lastAuthReq_self : lastAuthReq (.authReq s f :: tr) s = some f := by
  rw [lastAuthReq, List.findSome?_cons, Event.authReqOf, if_pos rfl]

theorem mem_of_lastAuthReq (h : lastAuthReq tr s = some f) : .authReq s f ∈ tr := by
  obtain ⟨ev, hev, h⟩ := List.exists_of_findSome?_eq_some h
  rw [Event.authReqOf_eq_some] at h
  exact h ▸ hev

theorem registeredBy_append (h : RegisteredBy tr e s pre)
    (hes : ∀ ev ∈ es, ev.registeredAs e.key = none) : RegisteredBy (es ++ tr) e s pre := by
  obtain ⟨post, rfl, hpost⟩ := h
  refine ⟨es ++ post, (List.append_assoc ..).symm, fun ev hev => ?_⟩
  exact (List.mem_append.mp hev).elim (hes ev) (hpost ev)

/-- Splitting a filtered trace at one of its events. -/
theorem split_visible {xs ys : List Event} {ev : Event} (h : visible es = xs ++ ev :: ys) :
    ∃ post pre, es = post ++ ev :: pre ∧ visible post = xs ∧ visible pre = ys := by
  obtain ⟨l₁, l₂, rfl, h₁, h₂⟩ := List.filter_eq_append_iff.mp h
  obtain ⟨m₁, m₂, rfl, hm, _, h₂⟩ := List.filter_eq_cons_iff.mp h₂
  refine ⟨l₁ ++ m₁, m₂, (List.append_assoc ..).symm, ?_, h₂⟩
  rw [visible_append, show visible m₁ = [] from List.filter_eq_nil_iff.mpr hm, List.append_nil]
  exact h₁

/-- The events that are filtered out register nothing and request nothing. -/
theorem of_visible {α : Type} {g : Event → Option α} (hg : ∀ s, g (.useAfterFree s) = none)
    (h : ∀ ev ∈ visible es, g ev = none) : ∀ ev ∈ es, g ev = none := by
  intro ev hev
  cases hv : ev.isUseAfterFree with
  | false => exact h ev (List.mem_filter.mpr ⟨hev, by rw [hv]; rfl⟩)
  | true => cases ev <;> first | exact hg _ | cases hv

end RegistrationLemmas
open RegistrationLemmas

/-! ## 2. Steps -/

namespace RegistrationLemmas

variable {s : SessionId} {f : AuthFields} {es tr pre : List Event} {e : RegistryEntry}

theorem lastVerified_visible (tr : List Event) : lastVerified (visible tr) = lastVerified tr := by
  induction tr with
  | nil => rfl
  | cons ev tr ih =>
    cases hv : ev.isUseAfterFree with
    | true =>
      rw [visible, List.filter_cons_of_neg (by rw [hv]; decide), ← visible, ih]
      cases ev <;> first | rfl | cases hv
    | false =>
      rw [visible_cons hv]
      cases ev <;> first | exact ih | rfl

theorem mem_response {ok b : Bool} {ev : Event} (h : ev ∈ response σ s ok b) :
    ∃ st, ev = .sent st (authRespPacket (σ.session s) ok) (σ.isLive st) b := by
  obtain ⟨st, _, rfl⟩ := Option.map_eq_some_iff.mp (Option.mem_toList.mp h)
  exact ⟨st, rfl⟩

/-- An iteration requests nothing. -/
theorem iteration_authReq (h : Iteration env σ σ') :
    ∃ es, σ'.trace = es ++ σ.trace ∧ ∀ s, ∀ ev ∈ es, ev.authReqOf s = none := by
  have requests : ∀ {es vs : List Event}, visible es = vs →
      (∀ s, ∀ ev ∈ vs, ev.authReqOf s = none) →
      ∀ s, ∀ ev ∈ es, ev.authReqOf s = none :=
    fun hes hvs s => of_visible (fun _ => rfl) (hes ▸ hvs s)
  have responds : ∀ {s t ok b}, ∀ ev ∈ response σ t ok b, ev.authReqOf s = none := by
    intro s t ok b ev hev
    obtain ⟨st, rfl⟩ := mem_response hev
    rfl
  cases h with
  | empty hq => exact ⟨[.dequeued none], rfl, fun s => List.forall_mem_singleton.mpr rfl⟩
  | closed hq hc hes =>
    refine ⟨_, rfl, requests hes fun s => List.forall_mem_cons.mpr ⟨?_, ?_⟩⟩
    · split <;> rfl
    · exact List.forall_mem_singleton.mpr rfl
  | refused hq hc hn hes =>
    refine ⟨_, rfl, requests hes fun s ev hev => ?_⟩
    simp only [List.mem_append, verifiedEvents, List.mem_cons, List.not_mem_nil, or_false] at hev
    rcases hev with (hev | rfl | rfl) | rfl
    · exact responds ev hev
    all_goals rfl
  | admitted hq hc hr hes =>
    refine ⟨_, rfl, requests hes fun s ev hev => ?_⟩
    simp only [List.mem_append, admittedEvents, verifiedEvents, List.mem_cons, List.not_mem_nil,
      or_false] at hev
    rcases hev with ((hev | rfl | rfl | rfl | rfl) | rfl | rfl) | rfl
    · exact responds ev hev
    all_goals rfl

theorem stages_update {t : SessionId} {x : Session} (hf : (σ.session s).Stages f)
    (hx : x.staged = (σ.session t).staged) (hk : x.authPubkey = (σ.session t).authPubkey) :
    (Function.update σ.session t x s).Stages f where
  staged := (Server.update_proj Session.staged hx s).trans hf.staged
  key k hm := (Server.update_proj Session.authPubkey hk s).trans (hf.key k hm)

/-- An iteration stages nothing. -/
theorem iteration_stages (h : Iteration env σ σ') (hf : (σ.session s).Stages f) :
    (σ'.session s).Stages f := by
  cases h with
  | empty hq => exact hf
  | closed | refused | admitted => exact stages_update hf rfl rfl

theorem iteration_mentions (h : Iteration env σ σ') (hm : σ'.queue.Mentions s) :
    σ.queue.Mentions s := by
  cases h with
  | empty hq => exact hm
  | closed | refused | admitted => exact Intrusive.mentions_dequeue hm

/-- What is staged of a queued session stays when no AUTH_REQ is accepted. -/
theorem change_stages (hk : Known σ) (h : Change σ a σ') (hm : σ.queue.Mentions s)
    (hf : (σ.session s).Stages f) : (σ'.session s).Stages f := by
  have detached : ∀ {x : Session}, (σ'.session s).detached = x.detached → x.Stages f →
      (σ'.session s).Stages f := by
    intro x heq hx
    have hst := congrArg Session.staged heq
    have hkey := congrArg Session.authPubkey heq
    exact ⟨Eq.trans hst hx.staged, fun k hm => Eq.trans hkey (hx.key k hm)⟩
  cases h with
  | kept h | freed ha ho hq h => exact detached (h.session s) hf
  | @connected c hl h =>
    have hne : s ≠ c := fun heq => hk s (.inr hm) (heq ▸ hl)
    refine detached (h.session s) ?_
    rwa [Function.update_of_ne hne]
  | hello ho hst h | bye hon ho hst h | left ha ho hq h =>
    exact detached (h.session s) (stages_update hf rfl rfl)

theorem acceptedState_trace (st : StreamId) : (acceptedState σ st s f es).trace = .enqueued s ::
    (es ++ .copied .authUsername f.usernameLen.toNat :: .authReq s f ::
      (σ.touched s ++ σ.trace)) := by
  simp [acceptedState]

/-- An accepted AUTH_REQ is the latest of its session and is what it stages. -/
theorem authReq_staged (hshort : ShortName σ a) (h : AuthAccepted σ σ' a s f) :
    lastAuthReq σ'.trace s = some f ∧ (σ'.session s).Stages f := by
  obtain ⟨data, hon, hf⟩ := h.on
  obtain ⟨st, es, _, _, hes, rfl⟩ := h.state
  constructor
  · rw [acceptedState_trace, lastAuthReq_cons rfl,
      lastAuthReq_append fun ev hev => authReqOf_of_isAuth (hes ev hev), lastAuthReq_cons rfl,
      lastAuthReq_self]
  · simp only [acceptedState, Server.modify, Function.update_self]
    refine ⟨staged_stage (readAuthReq_ok hf).2 (NamesFit.short hshort hon hf), fun k hk => ?_⟩
    show f.pubkey.getD _ = k
    rw [Option.mem_def.mp hk]
    rfl

theorem authReq_others {t : SessionId} (h : AuthAccepted σ σ' a s f) (hne : t ≠ s) :
    lastAuthReq σ'.trace t = lastAuthReq σ.trace t ∧ σ'.session t = σ.session t := by
  obtain ⟨st, es, _, _, hes, rfl⟩ := h.state
  have hother : Event.authReqOf t (.authReq s f) = none := if_neg (Ne.symm hne)
  constructor
  · rw [acceptedState_trace, lastAuthReq_cons rfl,
      lastAuthReq_append fun ev hev => authReqOf_of_isAuth (hes ev hev), lastAuthReq_cons rfl,
      lastAuthReq_cons hother]
    exact lastAuthReq_append fun ev hev => authReqOf_of_isAuth (touched_isAuth ev hev)
  · exact Function.update_of_ne hne _ _

/-- The registration of an iteration that admits the session. -/
theorem admitted_registration {b : Bool}
    (hes : visible es = response σ s true b ++ admittedEvents σ s ++ verifiedEvents σ s true ++
      [.dequeued (some s)]) :
    ∃ post pre, es = post ++ .registered s (σ.session s).authName (σ.session s).authStream
        (σ.session s).authPubkey :: pre ∧
      (∀ ev ∈ post, ∀ k, ev.registeredAs k = none) ∧
      (∀ ev ∈ pre, ∀ t, ev.authReqOf t = none) ∧ (∀ ev ∈ pre, ∀ k, ev.registeredAs k = none) ∧
      lastVerified (pre ++ σ.trace) = some (s, cString (σ.session s).authName.2,
        (σ.session s).authPasswordHash, true) := by
  have hsplit : visible es = (response σ s true b ++ [.established s (σ.session s).authName,
      .copied .sessionUsername (σ.session s).authUsernameLen.toNat]) ++
      .registered s (σ.session s).authName (σ.session s).authStream (σ.session s).authPubkey ::
      (.copied .registryUsername (σ.session s).authUsernameLen.toNat ::
        verifiedEvents σ s true ++ [.dequeued (some s)]) := by
    rw [hes, admittedEvents]
    simp
  obtain ⟨post, pre, rfl, hpost, hpre⟩ := split_visible hsplit
  refine ⟨post, pre, rfl, fun ev hev k => ?_, fun ev hev t => ?_, fun ev hev k => ?_, ?_⟩
  · refine of_visible (g := (·.registeredAs k)) (fun _ => rfl) ?_ ev hev
    rw [hpost]
    intro ev hev
    simp only [List.mem_append, List.mem_cons, List.not_mem_nil, or_false] at hev
    rcases hev with hev | rfl | rfl
    · obtain ⟨st, rfl⟩ := mem_response hev
      rfl
    all_goals rfl
  · refine of_visible (g := (·.authReqOf t)) (fun _ => rfl) ?_ ev hev
    rw [hpre]
    simp [verifiedEvents, Event.authReqOf]
  · refine of_visible (g := (·.registeredAs k)) (fun _ => rfl) ?_ ev hev
    rw [hpre]
    simp [verifiedEvents, Event.registeredAs]
  · rw [← lastVerified_visible, visible_append, hpre]
    rfl

/-- An older registration stays the last one of its name. -/
theorem registeredBy_older {post pre' : List Event} {t : SessionId} {k : Key}
    {st : Option StreamId} {pk : Buf 32} (h : RegisteredBy tr e s pre) (hne : k ≠ e.key)
    (hpost : ∀ ev ∈ post, ∀ k, ev.registeredAs k = none)
    (hpre : ∀ ev ∈ pre', ∀ k, ev.registeredAs k = none) :
    RegisteredBy (post ++ .registered t k st pk :: (pre' ++ tr)) e s pre := by
  have heq : post ++ .registered t k st pk :: (pre' ++ tr) =
      (post ++ .registered t k st pk :: pre') ++ tr := by simp
  rw [heq]
  refine registeredBy_append h fun ev hev => ?_
  rcases List.mem_append.mp hev with hev | hev
  · exact hpost ev hev _
  · rcases List.mem_cons.mp hev with rfl | hev
    · exact if_neg hne
    · exact hpre ev hev _

theorem staged_step (hs : Staged σ) (hb : Between σ) (hshort : ShortName σ a)
    (h : atomicStep env σ a = some σ') : Staged σ' := by
  intro s hm
  cases login_cases hb h with
  | change h =>
    obtain ⟨es, htr, hes⟩ := h.trace
    rw [h.queue] at hm
    obtain ⟨f, hf, hx⟩ := hs s hm
    refine ⟨f, ?_, change_stages hb.known h hm hx⟩
    rw [htr, lastAuthReq_append fun ev hev => authReqOf_of_isAuth (hes ev hev), hf]
  | @authReq t f ho hst h =>
    rcases eq_or_ne s t with rfl | hne
    · exact ⟨f, authReq_staged hshort h⟩
    · obtain ⟨hlast, hsame⟩ := authReq_others h hne
      obtain ⟨_, _, _, _, _, rfl⟩ := h.state
      rw [hlast, hsame]
      exact hs s ((Intrusive.mentions_enqueue hm).resolve_left hne)
  | iteration ha hpc hsem h =>
    obtain ⟨es, htr, hes⟩ := iteration_authReq h
    obtain ⟨f, hf, hx⟩ := hs s (iteration_mentions h hm)
    refine ⟨f, ?_, iteration_stages h hx⟩
    rw [htr, lastAuthReq_append (hes s), hf]

theorem admitting_eq_none (h : ∀ s ∈ σ.queue.dequeue.1, (σ.session s).connClosed = false →
    admission env σ s = none) : admitting env σ a = none := by
  unfold admitting
  split
  · split
    · refine Option.filter_eq_none_iff.mpr fun s hs => ?_
      have := h s hs
      simp only [decide_eq_true_eq, not_and]
      intro hc
      simp [this hc]
    · rfl
  · rfl

/-- Only an iteration admits a session. -/
theorem admitting_idle (h : ¬ (a = .worker ∧ σ.pc = .semWait)) : admitting env σ a = none := by
  unfold admitting
  split
  · rw [if_neg fun hc => h ⟨rfl, hc.1⟩]
  · rfl

theorem iteration_entry (hs : Staged σ) (hpc : σ.pc = .semWait) (hsem : σ.queueSem ≠ 0)
    (h : Iteration env σ σ') : EntryStep env σ .worker σ' := by
  have kept : ∀ {es : List Event}, (∀ ev ∈ visible es, ∀ k, ev.registeredAs k = none) →
      ∀ ev ∈ es, ∀ k, ev.registeredAs k = none := fun hes ev hev k =>
    of_visible (g := (·.registeredAs k)) (fun _ => rfl) (fun ev hev => hes ev hev k) ev hev
  cases h with
  | empty hq =>
    refine .kept (admitting_eq_none ?_) (fun _ he => he)
      (show _ = [Event.dequeued none] ++ σ.trace from rfl) ?_
    · rw [hq]
      simp
    · exact List.forall_mem_singleton.mpr fun _ => rfl
  | @closed s es hq hc hes =>
    refine .kept (admitting_eq_none ?_) (fun _ he => he) rfl (kept fun ev hev k => ?_)
    · rw [hq]
      simp [hc]
    · rw [hes] at hev
      simp only [List.mem_cons, List.not_mem_nil, or_false] at hev
      rcases hev with rfl | rfl
      · split <;> rfl
      · rfl
  | @refused s es b hq hc hn hes =>
    refine .kept (admitting_eq_none ?_) (fun _ he => he) rfl (kept fun ev hev k => ?_)
    · rw [hq]
      simp [hn]
    · rw [hes] at hev
      simp only [List.mem_append, verifiedEvents, List.mem_cons, List.not_mem_nil, or_false] at hev
      rcases hev with (hev | rfl | rfl) | rfl
      · obtain ⟨st, rfl⟩ := mem_response hev
        rfl
      all_goals rfl
  | @admitted t r es b hq hc hadd hes =>
    have hsome : admitting env σ .worker = some t := by
      rw [admitting, if_pos ⟨hpc, hsem⟩, hq]
      simp [hc, hadd]
    obtain ⟨post, pre, rfl, hpost, hreq, hpre, hlast⟩ := admitted_registration hes
    obtain ⟨_, hadd⟩ := Option.ite_none_right_eq_some.mp hadd
    obtain ⟨e', hkey, _, hstream, hpub, hused⟩ := mem_used_add hadd
    have hkey : e'.key = (σ.session t).authName := hkey
    obtain ⟨f, hf, hx⟩ := hs t (Intrusive.mentions_dequeued hq)
    obtain ⟨hname, hhash⟩ := Prod.mk.inj hx.staged
    refine .added (f := f) hsome hkey hused (fun e he => hkey ▸ (add_cases hadd).1 e he) ?_ hpost
      hpre hf ⟨?_, ?_, ?_⟩ fun k hk => hpub.trans (hx.key k hk)
    · rw [hkey, hstream, hpub]
      exact List.append_assoc ..
    · rw [lastAuthReq_append fun ev hev => hreq ev hev t, hf]
    · exact (hkey.trans hname).symm
    · rw [hlast, hkey, ← hhash]

theorem entry_cases (hs : Staged σ) (hd : σ.registry.Distinct) (hb : Between σ)
    (h : atomicStep env σ a = some σ') : EntryStep env σ a σ' := by
  by_cases hw : a = .worker ∧ σ.pc = .semWait
  · obtain ⟨rfl, hpc⟩ := hw
    obtain ⟨hsem, hit⟩ := iteration_cases hpc h
    exact iteration_entry hs hpc hsem hit
  · have hnone : admitting env σ a = none := admitting_idle hw
    cases login_cases hb h with
    | change h =>
      obtain ⟨es, htr, hes⟩ := h.trace
      refine .kept hnone (fun e he => ?_) htr fun ev hev k => registeredAs_of_isAuth (hes ev hev)
      rcases h.registry with hr | ⟨k, hr⟩
      · exact hr ▸ he
      · rw [hr] at he
        exact ((mem_used_removeNamed hd).mp he).1
    | @authReq t f ho hst h =>
      obtain ⟨st, es, _, _, hes, rfl⟩ := h.state
      refine .kept hnone (fun _ he => he) rfl fun ev hev k => ?_
      simp only [List.mem_cons, List.mem_append] at hev
      rcases hev with rfl | hev | rfl | rfl | hev
      · rfl
      · exact registeredAs_of_isAuth (hes ev hev)
      · rfl
      · rfl
      · exact registeredAs_of_isAuth (touched_isAuth ev hev)
    | iteration ha hpc hsem h => exact absurd ⟨ha, hpc⟩ hw

end RegistrationLemmas
open RegistrationLemmas

/-! ## 3. The invariant -/

namespace Registrations

variable {s : SessionId}

theorem init : Registrations .init where
  distinct := distinct_empty
  staged s h := absurd h Intrusive.not_mentions_empty
  entries e he := by
    rw [show Server.init.registry.used = [] from used_empty] at he
    cases he
  names s h := by simp [Server.init, Session.fresh] at h

theorem names_step (hi : Registrations σ) (hb : Between σ) (h : atomicStep env σ a = some σ')
    (hst : (σ'.session s).state = .connEstablished) :
    ∃ f, .authReq s f ∈ σ'.trace ∧ f.name = (σ'.session s).name := by
  obtain ⟨es, htr⟩ := (login_cases hb h).trace
  rw [htr]
  rcases established_step hb h hst with ⟨hst, hname⟩ | hadm
  · obtain ⟨f, hf, hn⟩ := hi.names s hst
    exact ⟨f, List.mem_append_right _ hf, hn.trans hname.symm⟩
  · obtain ⟨f, hf, hx⟩ := hi.staged s (Intrusive.mentions_dequeued hadm.admits.dequeued)
    have hn : (σ.session s).authName = f.name := congrArg Prod.fst hx.staged
    exact ⟨f, List.mem_append_right _ (mem_of_lastAuthReq hf), hn.symm.trans hadm.name.symm⟩

theorem entries_step (hi : Registrations σ) (h : EntryStep env σ a σ') :
    ∀ e ∈ σ'.registry.used, ∃ s pre f, RegisteredBy σ'.trace e s pre ∧ Granted pre s e.key f ∧
      ∀ k ∈ f.pubkey, e.publicKey = k := by
  intro e he
  cases h with
  | kept _ hsub htr hes =>
    obtain ⟨s, pre, f, hr, hg, hk⟩ := hi.entries e (hsub e he)
    exact ⟨s, pre, f, htr ▸ registeredBy_append hr fun ev hev => hes ev hev e.key, hg, hk⟩
  | added _ _ hused hnew htr hpost hpre _ hg hk =>
    rcases (hused e).mp he with he | rfl
    · obtain ⟨s, pre, f, hr, hg, hk⟩ := hi.entries e he
      exact ⟨s, pre, f, htr ▸ registeredBy_older hr (hnew e he).symm hpost hpre, hg, hk⟩
    · exact ⟨_, _, _, ⟨_, htr, fun ev hev => hpost ev hev _⟩, hg, hk⟩

theorem step (hi : Registrations σ) (hb : Between σ) (hshort : ShortName σ a)
    (h : atomicStep env σ a = some σ') : Registrations σ' where
  distinct := (login_cases hb h).distinct hi.distinct
  staged := staged_step hi.staged hb hshort h
  entries := hi.entries_step (entry_cases hi.staged hi.distinct hb h)
  names _ := hi.names_step hb h

end Registrations

/-- The invariant holds in every state of an atomic run. -/
theorem registrations_run (hP : AtomicMeets env ShortName acts) (h : atomicRun env acts = some σ) :
    Between σ ∧ Registrations σ :=
  atomic_induction .init (fun _ _ _ hb hi hp hs => hi.step hb hp hs) hP h

end SquimpChat
