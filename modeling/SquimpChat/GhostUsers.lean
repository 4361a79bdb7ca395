import SquimpChat.AuthSoundness
import SquimpChat.SessionLifetime

/-!
# Ghost users

An entry of the registry is taken away by the BYE handler or by `on_disconnected`, which
look at the session's state. The worker registers the user before it stores the state, and
`auth_queued` is cleared long before both, so `on_disconnected` may find a session in
state AUTH, with its flag clear, whose user is being registered: nobody removes the entry.

Results:
1. `noGhosts_run`: every entry belongs to an open connection, in every run in which no
   disconnect lands between the worker's store to `auth_queued` and its store of the state.
2. `ghost_user`: one AUTH_REQ and one such disconnect leave an entry behind for good.
-/

namespace SquimpChat
open Octets

variable {env : Env} {σ σ' : Server} {a : Action}

def Event.registeredAs (k : Key) : Event → Option SessionId
  | registered s name _ _ => if name = k then some s else none
  | _ => none

def Event.isRegistration : Event → Bool
  | registered .. => true
  | _ => false

/-- The session the name was last registered for. -/
def ownerOf (tr : List Event) (k : Key) : Option SessionId := tr.findSome? (Event.registeredAs k)

/-- The worker logs this session in: it has dequeued it and not yet stored its state. -/
def WorkerPc.inLogin : WorkerPc → Option SessionId
  | dequeued s | cleared s | checked s | verified s | loaded s _ | added s => some s
  | _ => none

/-- Entries of sessions whose connection is gone do not occur, whether the worker has
finished or not. -/
structure NoGhosts (σ : Server) : Prop where
  gone : ∀ c s, (σ.conn c).phase = .closed → (σ.conn c).userData = some s →
    ∀ e ∈ σ.registry.used, ownerOf σ.trace e.key ≠ some s
  /-- the user can be registered again -/
  again : ∀ c s, (σ.conn c).phase = .closed → (σ.conn c).userData = some s →
    ∀ ulen uname, ownerOf σ.trace (countedName ulen uname) = some s →
      (∃ e ∈ σ.registry.slots, e.inUse = false) →
        ∀ st pk, (sqmpRegistryAdd σ.registry uname ulen st pk).isSome = true

/-! ## 1. Conditions -/

/-- `on_disconnected` is one step. -/
def Action.isWhole : Action → Bool
  | disconnectLoad _ | disconnectRest _ => false
  | _ => true

/-- The session has not sent an AUTH_REQ before. -/
def FirstAuthReq (σ : Server) (s : SessionId) : Prop := ∀ e ∈ σ.trace, e.authReqOf s = none

instance {s : SessionId} : Decidable (FirstAuthReq σ s) :=
  inferInstanceAs (Decidable (∀ e ∈ σ.trace, e.authReqOf s = none))

/-- Every session sends at most one AUTH_REQ. -/
def OneAuthReq (σ : Server) (a : Action) : Prop := ∀ p ∈ authReqOn σ a, FirstAuthReq σ p.1

instance : Decidable (OneAuthReq σ a) := inferInstanceAs (Decidable (∀ _ ∈ _, _))

/-- An AUTH_REQ is its session's first, or the worker is through with those before. -/
def OneAtATime (σ : Server) (a : Action) : Prop :=
  ∀ p ∈ authReqOn σ a, FirstAuthReq σ p.1 ∨ (p.1 ∉ σ.waiting ∧ σ.pc.pending ≠ some p.1)

instance : Decidable (OneAtATime σ a) := inferInstanceAs (Decidable (∀ _ ∈ _, _))

/-- The session of a disconnect is not being logged in, unless its `auth_queued` is still
set. -/
def OutsideLogin (σ : Server) (a : Action) : Prop :=
  ∀ d ∈ decides σ a, σ.pc.inLogin = some d.1 → σ.pc = .dequeued d.1

instance : Decidable (OutsideLogin σ a) := inferInstanceAs (Decidable (∀ _ ∈ _, _))

/-! ## 2. The invariant -/

/-- The connection of the session is open. -/
def Open (σ : Server) (s : SessionId) : Prop :=
  (σ.conn s).phase = .connected ∧ (σ.conn s).userData = some s

/-- Where a session is on its way through the login, `l` being the auth queue. -/
structure LoginState (σ : Server) (l : List SessionId) (s : SessionId) : Prop where
  requested : σ.pc.pending = some s ∨ s ∈ l → ∃ f, .authReq s f ∈ σ.trace
  alone : σ.pc.pending = some s → s ∉ l
  flag : (σ.session s).authQueued = true ↔ s ∈ l ∨ σ.pc = .dequeued s
  opened : s ∈ l ∨ σ.pc.checks s = true → (σ.session s).connClosed = false → Open σ s
  /-- behind its check of `conn_closed` the worker is not overtaken -/
  kept : σ.pc.inLogin = some s → σ.pc.checks s = false → Open σ s

/-- The entry belongs to a session that is still there to remove it. -/
structure OwnedBy (σ : Server) (l : List SessionId) (e : RegistryEntry) (s : SessionId) :
    Prop where
  owner : ownerOf σ.trace e.key = some s
  opened : Open σ s
  unqueued : s ∉ l
  named : (σ.pc = .added s ∧ (σ.session s).authName = e.key) ∨
    (σ.pc.inLogin ≠ some s ∧ (σ.session s).state = .connEstablished ∧
      (σ.session s).name = e.key)

/-- Up to its registration a session has no entry. -/
theorem OwnedBy.added_of_inLogin {l : List SessionId} {e : RegistryEntry} {s : SessionId}
    (ho : OwnedBy σ l e s) (h : σ.pc.inLogin = some s) :
    σ.pc = .added s ∧ (σ.session s).authName = e.key :=
  ho.named.resolve_right fun hn => hn.1 h

structure GhostInv (σ : Server) (l : List SessionId) : Prop where
  distinct : σ.registry.Distinct
  login : ∀ s, LoginState σ l s
  owned : ∀ e ∈ σ.registry.used, ∃ s, OwnedBy σ l e s

namespace GhostLemmas

variable {s : SessionId} {l l' : List SessionId} {es tr : List Event} {k : Key}

theorem isRegistration_of_isLogin {e : Event} (h : e.isLogin = false) :
    e.isRegistration = false := by
  cases e <;> first | rfl | cases h

theorem touched_isRegistration : ∀ e ∈ σ.touched s, e.isRegistration = false :=
  fun e he => isRegistration_of_isLogin (AuthSoundnessLemmas.touched_isLogin e he)

theorem ownerOf_append (hes : ∀ e ∈ es, e.isRegistration = false) :
    ownerOf (es ++ tr) k = ownerOf tr k := by
  have h : es.findSome? (Event.registeredAs k) = none := by
    refine List.findSome?_eq_none_iff.mpr fun e he => ?_
    have := hes e he
    cases e <;> first | rfl | cases this
  rw [ownerOf, List.findSome?_append, h]
  rfl

theorem ownerOf_registered {st : Option StreamId} {pk : Buf 32} :
    ownerOf (.registered s k st pk :: tr) k = some s := by
  simp [ownerOf, Event.registeredAs]

theorem ownerOf_registered_of_ne {k' : Key} {st : Option StreamId} {pk : Buf 32} (h : k' ≠ k) :
    ownerOf (.registered s k' st pk :: tr) k = ownerOf tr k := by
  simp [ownerOf, Event.registeredAs, h]

theorem inLogin_pending {pc : WorkerPc} (h : pc.inLogin = some s) : pc.pending = some s := by
  cases pc <;> first | exact h | cases h

theorem inLogin_of_checks {pc : WorkerPc} (h : pc.checks s = true) : pc.inLogin = some s := by
  cases pc <;> simp_all [WorkerPc.checks, WorkerPc.inLogin]

theorem distinct_without (hd : σ.registry.Distinct) : (registryWithout σ s).Distinct := by
  unfold registryWithout
  split
  · exact Distinct.remove hd _ _
  · exact hd

/-- A session that sends an AUTH_REQ in its turn is neither queued nor in the worker's
hands. -/
theorem idle_of_oneAtATime (hi : GhostInv σ l) (hq : Queued σ l) (hone : OneAtATime σ a)
    {data : Bytes} (hon : authReqOn σ a = some (s, data)) : s ∉ l ∧ σ.pc.pending ≠ some s := by
  rcases hone (s, data) hon with hfirst | hidle
  · have hnone : ∀ f, .authReq s f ∉ σ.trace := fun f hf => by
      have := hfirst _ hf
      rw [Event.authReqOf_eq_some.mpr rfl] at this
      cases this
    refine ⟨fun hm => ?_, fun hp => ?_⟩
    · obtain ⟨f, hf⟩ := (hi.login s).requested (.inr hm)
      exact hnone f hf
    · obtain ⟨f, hf⟩ := (hi.login s).requested (.inl hp)
      exact hnone f hf
  · rwa [hq.waiting_eq] at hidle

end GhostLemmas
open GhostLemmas

/-- The worker is where it was with the session, or further on, behind its login. -/
structure WorkerPc.Keeps (pc pc' : WorkerPc) (s : SessionId) : Prop where
  pending : pc'.pending = some s → pc.pending = some s
  dequeued : pc' = .dequeued s ↔ pc = .dequeued s
  checks : pc'.checks s = true → pc.checks s = true
  inLogin : pc'.inLogin = some s → pc.inLogin = some s
  checked : pc'.inLogin = some s → pc'.checks s = false → pc.checks s = false
  added : pc = .added s → pc' = .added s

/-- The step changes nothing that the session's login depends on. -/
structure LoginKept (σ σ' : Server) (l l' : List SessionId) (s : SessionId) : Prop where
  pc : σ.pc.Keeps σ'.pc s
  mem : s ∈ l' ↔ s ∈ l
  flag : (σ'.session s).authQueued = (σ.session s).authQueued
  closed : (σ'.session s).connClosed = (σ.session s).connClosed
  authName : (σ'.session s).authName = (σ.session s).authName
  opened : Open σ s → Open σ' s
  established : (σ.session s).state = .connEstablished →
    (σ'.session s).state = .connEstablished ∧ (σ'.session s).name = (σ.session s).name

namespace GhostLemmas

variable {s : SessionId} {l l' : List SessionId}

theorem keeps_refl {pc : WorkerPc} : pc.Keeps pc s := ⟨id, .rfl, id, id, fun _ => id, id⟩

theorem pending_of_checks {pc : WorkerPc} (h : pc.checks s = true) : pc.pending = some s :=
  SessionLifetimeLemmas.checks_pending h

/-- The worker is busy with other sessions before and after. -/
theorem keeps_other {pc pc' : WorkerPc} (h : pc.pending ≠ some s) (h' : pc'.pending ≠ some s) :
    pc.Keeps pc' s where
  pending hp := absurd hp h'
  dequeued := by
    constructor
    · rintro rfl
      exact absurd rfl h'
    · rintro rfl
      exact absurd rfl h
  checks hc := absurd (pending_of_checks hc) h'
  inLogin hi := absurd (inLogin_pending hi) h'
  checked hi := absurd (inLogin_pending hi) h'
  added := by
    rintro rfl
    exact absurd rfl h

/-- The worker is through with the login. -/
theorem keeps_over {pc pc' : WorkerPc} (h : pc'.inLogin = none)
    (hp : pc'.pending = some s → pc.pending = some s) (hd : pc ≠ .dequeued s)
    (ha : pc ≠ .added s) : pc.Keeps pc' s where
  pending := hp
  dequeued := by
    refine ⟨?_, fun h => absurd h hd⟩
    rintro rfl
    cases h
  checks hc := by
    rw [inLogin_of_checks hc] at h
    cases h
  inLogin hi := by
    rw [hi] at h
    cases h
  checked hi := by
    rw [hi] at h
    cases h
  added h := absurd h ha

/-- The worker is through with the login and lets go of the session. -/
theorem keeps_done {pc pc' : WorkerPc} (h : pc'.pending = none) (hd : pc ≠ .dequeued s)
    (ha : pc ≠ .added s) : pc.Keeps pc' s := by
  refine keeps_over ?_ (by simp [h]) hd ha
  cases hi : pc'.inLogin with
  | none => rfl
  | some s' =>
    rw [inLogin_pending hi] at h
    cases h

end GhostLemmas
open GhostLemmas

/-- The session and the worker are as they were. -/
theorem LoginKept.of_eq {s : SessionId} {l : List SessionId} (hpc : σ'.pc = σ.pc)
    (hsession : σ'.session s = σ.session s) (hopen : Open σ s → Open σ' s) :
    LoginKept σ σ' l l s where
  pc := hpc ▸ keeps_refl
  mem := .rfl
  flag := by rw [hsession]
  closed := by rw [hsession]
  authName := by rw [hsession]
  opened := hopen
  established h := by rw [hsession]; exact ⟨h, rfl⟩

theorem LoginState.keep {s : SessionId} {l l' : List SessionId} (h : LoginState σ l s)
    (hk : LoginKept σ σ' l l' s) (htr : ∀ e ∈ σ.trace, e ∈ σ'.trace) : LoginState σ' l' s where
  requested hr := by
    obtain ⟨f, hf⟩ := h.requested (hr.imp hk.pc.pending hk.mem.mp)
    exact ⟨f, htr _ hf⟩
  alone hp hm := h.alone (hk.pc.pending hp) (hk.mem.mp hm)
  flag := by rw [hk.flag, hk.mem, hk.pc.dequeued, h.flag]
  opened hr hc := by
    rw [hk.closed] at hc
    exact hk.opened (h.opened (hr.imp hk.mem.mp hk.pc.checks) hc)
  kept hl hc := hk.opened (h.kept (hk.pc.inLogin hl) (hk.pc.checked hl hc))

theorem OwnedBy.keep {s : SessionId} {l l' : List SessionId} {e : RegistryEntry}
    (h : OwnedBy σ l e s) (hk : LoginKept σ σ' l l' s)
    (howner : ownerOf σ'.trace e.key = ownerOf σ.trace e.key) : OwnedBy σ' l' e s where
  owner := howner.trans h.owner
  opened := hk.opened h.opened
  unqueued hm := h.unqueued (hk.mem.mp hm)
  named := by
    rcases h.named with ⟨hpc, hn⟩ | ⟨hpc, hst, hn⟩
    · exact .inl ⟨hk.pc.added hpc, hk.authName.trans hn⟩
    · obtain ⟨hst', hn'⟩ := hk.established hst
      exact .inr ⟨mt hk.pc.inLogin hpc, hst', hn'.trans hn⟩

namespace GhostInv

variable {l l' : List SessionId}

theorem init : GhostInv .init [] where
  distinct := distinct_empty
  login s := ⟨by simp [Server.init, WorkerPc.pending], nofun, by simp [Server.init, Session.fresh],
    by simp [Server.init, WorkerPc.checks], nofun⟩
  owned e he := by
    rw [show Server.init.registry.used = [] from used_empty] at he
    cases he

/-- A step keeps a session's login as it is, or it is looked at in particular. -/
theorem move (hi : GhostInv σ l) (hd : σ'.registry.Distinct)
    (htr : ∀ e ∈ σ.trace, e ∈ σ'.trace)
    (howner : ∀ e ∈ σ.registry.used, ownerOf σ'.trace e.key = ownerOf σ.trace e.key)
    (hused : ∀ e ∈ σ'.registry.used, e ∈ σ.registry.used ∨ ∃ s, OwnedBy σ' l' e s)
    (hs : ∀ s, LoginKept σ σ' l l' s ∨ (LoginState σ' l' s ∧
      ∀ e ∈ σ.registry.used, e ∈ σ'.registry.used → OwnedBy σ l e s → OwnedBy σ' l' e s)) :
    GhostInv σ' l' where
  distinct := hd
  login s := (hs s).elim (fun hk => (hi.login s).keep hk htr) And.left
  owned e he := by
    rcases hused e he with hold | hnew
    · obtain ⟨s, ho⟩ := hi.owned e hold
      rcases hs s with hk | ⟨_, hown⟩
      · exact ⟨s, ho.keep hk (howner e hold)⟩
      · exact ⟨s, hown e hold he ho⟩
    · exact hnew

/-- A callback that leaves the queue alone: it touches the login of one session at most. -/
theorem quiet (hi : GhostInv σ l) (h : CallbackStep env σ a σ') (s₀ : SessionId)
    (hd : σ'.registry.Distinct) (hsub : ∀ e ∈ σ'.registry.used, e ∈ σ.registry.used)
    (hs : ∀ s ≠ s₀, LoginKept σ σ' l l' s)
    (hs₀ : LoginKept σ σ' l l' s₀ ∨ (LoginState σ' l' s₀ ∧ ∀ e ∈ σ.registry.used,
      e ∈ σ'.registry.used → OwnedBy σ l e s₀ → OwnedBy σ' l' e s₀)) : GhostInv σ' l' := by
  obtain ⟨es, htr, hes⟩ := callback_events h
  refine hi.move hd (fun e he => ?_) (fun e he => ?_) (fun e he => .inl (hsub e he)) fun s => ?_
  · exact htr ▸ List.mem_append_right _ he
  · rw [htr, ownerOf_append fun e he =>
      isRegistration_of_isLogin (AuthSoundnessLemmas.callback_isLogin (hes e he))]
  · rcases eq_or_ne s s₀ with rfl | hne
    · exact hs₀
    · exact .inl (hs s hne)

/-- `on_disconnected` leaves no entry of its session. -/
theorem disconnects (hi : GhostInv σ l) {c : ConnId} {q : Bool}
    (hdis : Disconnects σ a c q) (hu : (σ.conn c).userData = some c)
    (hwhole : a.isWhole = true) (hout : OutsideLogin σ a) :
    (q = true ↔ c ∈ l ∨ σ.pc = .dequeued c) ∧ (σ.pc.inLogin = some c → σ.pc = .dequeued c) := by
  refine ⟨?_, hout (c, q) (SessionLifetimeLemmas.decides_of hdis hu)⟩
  rcases hdis with ⟨_, _, _, hq⟩ | ⟨rfl, _⟩
  · rw [hq c hu, (hi.login c).flag]
  · cases hwhole

theorem accepted (hi : GhostInv σ l) (hw : Wf σ) (h : CallbackStep env σ a σ') {s₀ : SessionId}
    {f : AuthFields} (hacc : AuthAccepted σ σ' a s₀ f) (hnew : s₀ ∉ l)
    (hp : σ.pc.pending ≠ some s₀) : GhostInv σ' (l ++ [s₀]) := by
  obtain ⟨data, hon, hf⟩ := hacc.on
  obtain ⟨st, es, hr, hs, _, rfl⟩ := hacc.state
  obtain ⟨_, _, _, hst⟩ := OwnershipLemmas.authReqOn_some hon
  have hopen : Open σ s₀ := by
    obtain ⟨rfl, huser, _⟩ := hw.stream_user hs
    exact ⟨(OwnershipLemmas.receivable_iff.mp hr).2.1, huser⟩
  refine hi.quiet h s₀ hi.distinct (fun _ => id) (fun s hne => ?_) (.inr ⟨?_, ?_⟩)
  · have hsession : (acceptedState σ st s₀ f es).session s = σ.session s :=
      Function.update_of_ne hne _ _
    have hk : LoginKept σ (acceptedState σ st s₀ f es) l l s := .of_eq rfl hsession id
    exact { hk with mem := by simp [hne] }
  · refine ⟨fun _ => ⟨f, by simp [acceptedState]⟩, fun h => absurd h hp, ?_, fun _ _ => hopen,
      fun _ _ => hopen⟩
    simp [acceptedState, Session.stage]
  · -- the session of an entry is past state AUTH, or the worker's
    intro e _ _ ho
    rcases ho.named with ⟨hpc, _⟩ | ⟨_, he, _⟩
    · rw [hpc] at hp
      exact absurd rfl hp
    · rw [hst] at he
      cases he

theorem callback (hi : GhostInv σ l) (hw : Wf σ) (hk : Known σ) (hq : Queued σ l)
    (hwhole : a.isWhole = true) (hout : OutsideLogin σ a) (h : CallbackStep env σ a σ')
    (hidle : AuthIdle σ σ') : GhostInv σ' l := by
  -- a step that moves the connection `c` and perhaps its session
  have conn : ∀ {c k}, σ'.conn = Function.update σ.conn c k →
      (∀ s ≠ c, σ'.session s = σ.session s) → ∀ s ≠ c, LoginKept σ σ' l l s := by
    intro c k hconn hsession s hne
    refine .of_eq hidle.pc (hsession s hne) fun ho => ?_
    unfold Open at ho ⊢
    rwa [hconn, Function.update_of_ne hne]
  -- a step that moves the session `s₀` of an open connection
  have session : ∀ {s₀ x}, σ'.conn = σ.conn → σ'.session = Function.update σ.session s₀ x →
      ∀ s ≠ s₀, LoginKept σ σ' l l s := by
    intro s₀ x hconn hsession s hne
    refine .of_eq hidle.pc (by rw [hsession, Function.update_of_ne hne]) fun ho => ?_
    rwa [Open, hconn]
  cases id h with
  | authReq => exact absurd hidle.queueSem (Nat.succ_ne_self _)
  | @connected c hp =>
    refine hi.quiet h c hi.distinct (fun _ => id)
      (conn rfl fun s hne => Function.update_of_ne hne _ _) (.inr ⟨?_, fun e _ _ ho => ?_⟩)
    · have hnew : ¬ Refers σ c := fun hr => hk c hr (hw.absent c hp).1
      have hm : c ∉ l := fun hm => hnew (.inr (hq.represents.mentions hm))
      have hpend : σ.pc.pending ≠ some c := fun hp => hnew (.inl hp)
      refine ⟨fun hr => (hr.elim hpend hm).elim, fun hp => absurd hp hpend, ?_, ?_, ?_⟩
      · have hpc : σ.pc ≠ .dequeued c := fun hpc => hpend (by rw [hpc]; rfl)
        simp [Session.fresh, hm, hpc]
      · exact fun hr => (hr.elim hm fun hc => hpend (pending_of_checks hc)).elim
      · exact fun hl => absurd (inLogin_pending hl) hpend
    · rw [ho.opened.1] at hp
      cases hp
  | @connectedNull c hp =>
    refine hi.quiet h c hi.distinct (fun _ => id) (conn rfl fun _ _ => rfl) (.inl ?_)
    refine .of_eq rfl rfl fun ho => ?_
    rw [ho.1] at hp
    cases hp
  | @streamOpened c st hc hst =>
    refine hi.quiet h c hi.distinct (fun _ => id) (conn rfl fun _ _ => rfl) (.inl ?_)
    refine .of_eq rfl rfl fun ho => ?_
    simpa [Open, onStreamOpen] using ho
  | @hello st s data ok hr hs hst hok =>
    refine hi.quiet h s hi.distinct (fun _ => id) (session rfl rfl) (.inl ?_)
    refine ⟨keeps_refl, .rfl, ?_, ?_, ?_, id, fun he => ?_⟩
    · simp
    · simp
    · simp [Session.authName]
    · rw [hst] at he
      cases he
  | @bye st s data hr hs hst =>
    refine hi.quiet h s (Distinct.remove hi.distinct _ _) (fun _ => used_remove_subset)
      (session rfl rfl) (.inr ⟨?_, fun e _ he ho => ?_⟩)
    · have hl := hi.login s
      refine ⟨fun hr => ?_, hl.alone, by simpa using hl.flag,
        fun hr hc => hl.opened hr (by simpa using hc), hl.kept⟩
      obtain ⟨f, hf⟩ := hl.requested hr
      exact ⟨f, List.mem_append_right _ hf⟩
    · have hne := ((mem_used_remove hi.distinct).mp he).2
      rcases ho.named with ⟨hpc, hn⟩ | ⟨_, _, hn⟩
      · refine ⟨(ownerOf_append touched_isRegistration).trans ho.owner, ho.opened,
          ho.unqueued, .inl ⟨hpc, ?_⟩⟩
        simpa [Session.authName] using hn
      · exact absurd hn.symm hne
  | @streamClosed st s hr hs =>
    refine hi.quiet h s hi.distinct (fun _ => id) (session rfl rfl) (.inl ?_)
    refine ⟨keeps_refl, .rfl, ?_, ?_, ?_, id, fun he => ?_⟩
    · simp
    · simp
    · simp [Session.authName]
    · simpa [Session.name] using he
  | disconnectLoad => cases hwhole
  | @disconnectNull _ c q hdis hu =>
    refine hi.quiet h c hi.distinct (fun _ => id) (conn rfl fun _ _ => rfl) (.inl ?_)
    refine .of_eq rfl rfl fun ho => ?_
    rw [ho.2] at hu
    cases hu
  | @left _ c s es hdis hs hes =>
    obtain ⟨rfl, _⟩ := hw.user c s hs
    obtain ⟨hflag, hlogin⟩ := hi.disconnects hdis hs hwhole hout
    refine hi.quiet h s hi.distinct (fun _ => id)
      (conn rfl fun s hne => Function.update_of_ne hne _ _) (.inr ⟨?_, fun e _ _ ho => ?_⟩)
    · have hl := hi.login s
      refine ⟨fun hr => ?_, hl.alone, ?_, fun _ hc => ?_, fun hin hc => ?_⟩
      · obtain ⟨f, hf⟩ := hl.requested hr
        exact ⟨f, List.mem_append_right _ hf⟩
      · simpa [setPhase] using hl.flag
      · simp [setPhase] at hc
      · have hpc : σ.pc = .dequeued s := hlogin hin
        have hc : σ.pc.checks s = false := hc
        simp [hpc, WorkerPc.checks] at hc
    · rcases hflag.mp rfl with hm | hpc
      · exact absurd hm ho.unqueued
      · have hadd := (ho.added_of_inLogin (by rw [hpc]; rfl)).1
        rw [hpc] at hadd
        cases hadd
  | @freed _ c s es hdis hs hes =>
    obtain ⟨rfl, _⟩ := hw.user c s hs
    obtain ⟨hflag, hlogin⟩ := hi.disconnects hdis hs hwhole hout
    have hidleFlag : ¬ (s ∈ l ∨ σ.pc = .dequeued s) := fun hr => Bool.noConfusion (hflag.mpr hr)
    have hnot : σ.pc.inLogin ≠ some s := fun hin => hidleFlag (.inr (hlogin hin))
    have hchecks : σ.pc.checks s ≠ true := fun hc => hnot (inLogin_of_checks hc)
    refine hi.quiet h s (distinct_without hi.distinct) (fun _ => registryWithout_subset)
      (conn rfl fun _ _ => rfl) (.inr ⟨?_, fun e _ he ho => ?_⟩)
    · have hl := hi.login s
      refine ⟨fun hr => ?_, hl.alone, hl.flag, fun hr => ?_, fun hin => absurd hin hnot⟩
      · obtain ⟨f, hf⟩ := hl.requested hr
        exact ⟨f, List.mem_cons_of_mem _ (List.mem_append_right _ hf)⟩
      · exact (hr.elim (fun hm => hidleFlag (.inl hm)) hchecks).elim
    · rcases ho.named with ⟨hadd, _⟩ | ⟨_, hst, hn⟩
      · rw [hadd] at hnot
        exact absurd rfl hnot
      · have he : e ∈ (registryWithout σ s).used := he
        rw [registryWithout, if_pos hst, mem_used_remove hi.distinct] at he
        exact absurd hn.symm he.2
  | _ =>
    exact hi.quiet h 0 hi.distinct (fun _ => id) (fun _ _ => .of_eq rfl rfl id)
      (.inl (.of_eq rfl rfl id))

/-- A step of the main thread that registers nobody and keeps every session's login. -/
theorem idle (hi : GhostInv σ l) {es : List Event} (hregistry : σ'.registry = σ.registry)
    (htr : σ'.trace = es ++ σ.trace) (hes : ∀ e ∈ es, e.isRegistration = false)
    (hs : ∀ s, LoginKept σ σ' l l' s ∨ (LoginState σ' l' s ∧
      ∀ e ∈ σ.registry.used, ¬ OwnedBy σ l e s)) : GhostInv σ' l' := by
  refine hi.move (hregistry ▸ hi.distinct) (fun e he => ?_) (fun e he => ?_) (fun e he => ?_)
    fun s => (hs s).imp_right (And.imp_right fun hno e he _ ho => absurd ho (hno e he))
  · exact htr ▸ List.mem_append_right _ he
  · rw [htr, ownerOf_append hes]
  · exact .inl (hregistry ▸ he)

theorem unlink (hi : GhostInv σ l) (hpc : σ.pc = .unlink) {s₀ : SessionId} (hl : l = s₀ :: l')
    (hnd : l.Nodup) : GhostInv (unlinkedState σ s₀) l' := by
  subst hl
  refine hi.idle rfl rfl (List.forall_mem_cons.mpr ⟨rfl, touched_isRegistration⟩)
    fun s => ?_
  rcases eq_or_ne s s₀ with rfl | hne
  · have hs := hi.login s
    have hnot : s ∉ l' := (List.nodup_cons.mp hnd).1
    refine .inr ⟨⟨fun _ => ?_, fun _ => hnot, ?_, fun _ hc => ?_, fun _ hc => ?_⟩, fun e _ ho => ?_⟩
    · obtain ⟨f, hf⟩ := hs.requested (.inr List.mem_cons_self)
      exact ⟨f, List.mem_cons_of_mem _ (List.mem_append_right _ hf)⟩
    · exact hs.flag.trans (by simp [unlinkedState])
    · exact hs.opened (.inl List.mem_cons_self) hc
    · simp [unlinkedState, WorkerPc.checks] at hc
    · exact ho.unqueued List.mem_cons_self
  · refine .inl ⟨keeps_other ?_ ?_, by simp [hne], rfl, rfl, rfl, id, fun he => ⟨he, rfl⟩⟩
    · simp [hpc, WorkerPc.pending]
    · exact fun h => hne (Option.some.inj h).symm

/-- The registered name belongs to the worker's session from here on. -/
theorem added (hi : GhostInv σ l) {s₀ : SessionId} {st : Option StreamId} {r : Registry}
    (hpc : σ.pc = .loaded s₀ st)
    (hr : sqmpRegistryAdd σ.registry (σ.session s₀).authUsername (σ.session s₀).authUsernameLen st
      (σ.session s₀).authPubkey = some r) :
    GhostInv { σ.append (.registered s₀ (σ.session s₀).authName st (σ.session s₀).authPubkey ::
      .copied .registryUsername (σ.session s₀).authUsernameLen.toNat :: σ.touched s₀) with
        registry := r, pc := .added s₀ } l := by
  have hs₀ := hi.login s₀
  have hnot : s₀ ∉ l := hs₀.alone (by rw [hpc]; rfl)
  have hopen : Open σ s₀ := hs₀.kept (by rw [hpc]; rfl) (by rw [hpc]; rfl)
  obtain ⟨hnew, _⟩ := add_cases hr
  obtain ⟨e', hkey, _, _, _, hused⟩ := mem_used_add hr
  refine hi.move (Distinct.add hi.distinct hr) (fun e he => ?_) (fun e he => ?_) (fun e he => ?_)
    fun s => .inl ⟨?_, .rfl, rfl, rfl, rfl, id, fun he => ⟨he, rfl⟩⟩
  · exact List.mem_cons_of_mem _ (List.mem_cons_of_mem _ (List.mem_append_right _ he))
  · have hes : ∀ e ∈ .copied .registryUsername (σ.session s₀).authUsernameLen.toNat ::
        σ.touched s₀, e.isRegistration = false :=
      List.forall_mem_cons.mpr ⟨rfl, touched_isRegistration⟩
    exact (ownerOf_registered_of_ne (hnew e he).symm).trans (ownerOf_append hes)
  · refine ((hused e).mp he).imp_right ?_
    rintro rfl
    refine ⟨s₀, ?_, hopen, hnot, .inl ⟨rfl, hkey.symm⟩⟩
    rw [hkey]
    exact ownerOf_registered
  · rw [hpc]
    constructor <;> simp [WorkerPc.pending, WorkerPc.checks, WorkerPc.inLogin]

/-- The session is established under the registered name. -/
theorem establish (hi : GhostInv σ l) {s₀ : SessionId} (hpc : σ.pc = .added s₀) :
    GhostInv { (σ.append (.established s₀ (σ.session s₀).establish.name ::
      .copied .sessionUsername (σ.session s₀).authUsernameLen.toNat ::
      σ.touched s₀)).modify s₀ .establish with pc := .decided s₀ true } l := by
  have hsession : ∀ {x : Session} {s}, s ≠ s₀ →
      Function.update σ.session s₀ x s = σ.session s := fun hne => Function.update_of_ne hne _ _
  have howner : ∀ n m k, ownerOf (.established s₀ n :: .copied .sessionUsername m ::
      (σ.touched s₀ ++ σ.trace)) k = ownerOf σ.trace k := by
    intro n m k
    have hes : ∀ e ∈ .established s₀ n :: .copied .sessionUsername m :: σ.touched s₀,
        e.isRegistration = false := List.forall_mem_cons.mpr
      ⟨rfl, List.forall_mem_cons.mpr ⟨rfl, touched_isRegistration⟩⟩
    have h : ownerOf (_ ++ σ.trace) k = ownerOf σ.trace k := ownerOf_append hes
    exact h
  refine hi.move hi.distinct (fun e he => ?_) (fun e _ => howner _ _ e.key) (fun e he => .inl he)
    fun s => ?_
  · exact List.mem_cons_of_mem _ (List.mem_cons_of_mem _ (List.mem_append_right _ he))
  · rcases eq_or_ne s s₀ with rfl | hne
    · have hs := hi.login s
      have hnot : s ∉ l := hs.alone (by rw [hpc]; rfl)
      refine .inr ⟨⟨fun _ => ?_, fun _ => hnot, ?_, fun hr => ?_, fun hc => ?_⟩,
        fun e _ _ ho => ?_⟩
      · obtain ⟨f, hf⟩ := hs.requested (.inl (by rw [hpc]; rfl))
        exact ⟨f, List.mem_cons_of_mem _ (List.mem_cons_of_mem _ (List.mem_append_right _ hf))⟩
      · have hflag := hs.flag
        rw [hpc] at hflag
        simpa [Session.establish] using hflag
      · rcases hr with hr | hr
        · exact absurd hr hnot
        · cases hr
      · cases hc
      · refine ⟨(howner _ _ e.key).trans ho.owner, ho.opened, hnot, .inr ?_⟩
        have hn := (ho.added_of_inLogin (by rw [hpc]; rfl)).2
        refine ⟨by simp [WorkerPc.inLogin], by simp [Session.establish], ?_⟩
        rw [← hn, ← AuthSoundnessLemmas.establish_name]
        simp
    · refine .inl ⟨keeps_other ?_ ?_, .rfl, ?_, ?_, ?_, id, fun he => ?_⟩
      · rw [hpc]
        exact fun h => hne (Option.some.inj h).symm
      · exact fun h => hne (Option.some.inj h).symm
      · exact congrArg Session.authQueued (hsession hne)
      · exact congrArg Session.connClosed (hsession hne)
      · exact congrArg Session.authName (hsession hne)
      · exact ⟨(congrArg Session.state (hsession hne)).trans he,
          congrArg Session.name (hsession hne)⟩

/-- The worker takes `auth_queued` back. -/
theorem clear (hi : GhostInv σ l) {s₀ : SessionId} (hpc : σ.pc = .dequeued s₀) :
    GhostInv { (σ.append (σ.touched s₀)).modify s₀ fun x => { x with authQueued := false } with
      pc := .cleared s₀ } l := by
  refine hi.idle rfl rfl touched_isRegistration fun s => ?_
  rcases eq_or_ne s s₀ with rfl | hne
  · have hs := hi.login s
    have hnot : s ∉ l := hs.alone (by rw [hpc]; rfl)
    refine .inr ⟨⟨fun _ => ?_, fun _ => hnot, ?_, fun _ hc => ?_, fun _ hc => ?_⟩, fun e _ ho => ?_⟩
    · obtain ⟨f, hf⟩ := hs.requested (.inl (by rw [hpc]; rfl))
      exact ⟨f, List.mem_append_right _ hf⟩
    · simp [hnot]
    · refine hs.opened (.inr (by rw [hpc]; simp [WorkerPc.checks])) ?_
      simpa using hc
    · simp [WorkerPc.checks] at hc
    · have hadd := (ho.added_of_inLogin (by rw [hpc]; rfl)).1
      rw [hpc] at hadd
      cases hadd
  · have hk : LoginKept σ { (σ.append (σ.touched s₀)).modify s₀
        fun x => { x with authQueued := false } with pc := .cleared s₀ } l l s := by
      refine ⟨keeps_other ?_ ?_, .rfl, ?_, ?_, ?_, id, ?_⟩
      · rw [hpc]
        exact fun h => hne (Option.some.inj h).symm
      · exact fun h => hne (Option.some.inj h).symm
      all_goals simp [Function.update_of_ne hne]
    exact .inl hk

/-- The connection of the session is open where the worker looks. -/
theorem checkOpen (hi : GhostInv σ l) {s₀ : SessionId} (hpc : σ.pc = .cleared s₀)
    (hc : (σ.session s₀).connClosed = false) :
    GhostInv { σ.append (σ.touched s₀) with pc := .checked s₀ } l := by
  refine hi.idle rfl rfl touched_isRegistration fun s => ?_
  rcases eq_or_ne s s₀ with rfl | hne
  · have hs := hi.login s
    have hnot : s ∉ l := hs.alone (by rw [hpc]; rfl)
    have hopen : Open σ s := hs.opened (.inr (by rw [hpc]; simp [WorkerPc.checks])) hc
    refine .inr ⟨⟨fun _ => ?_, fun _ => hnot, ?_, fun _ _ => hopen, fun _ _ => hopen⟩,
      fun e _ ho => ?_⟩
    · obtain ⟨f, hf⟩ := hs.requested (.inl (by rw [hpc]; rfl))
      exact ⟨f, List.mem_append_right _ hf⟩
    · have hflag := hs.flag
      rw [hpc] at hflag
      simpa using hflag
    · have hadd := (ho.added_of_inLogin (by rw [hpc]; rfl)).1
      rw [hpc] at hadd
      cases hadd
  · refine .inl ⟨keeps_other ?_ ?_, .rfl, rfl, rfl, rfl, id, fun he => ⟨he, rfl⟩⟩
    · rw [hpc]
      exact fun h => hne (Option.some.inj h).symm
    · exact fun h => hne (Option.some.inj h).symm

theorem main (hi : GhostInv σ l) (h : MainStep env σ a σ')
    (hkeep : σ.pc = .unlink → σ'.pc = .unlink) : GhostInv σ' l := by
  have htouched : ∀ s, ∀ e ∈ σ.touched s, e.isRegistration = false := fun _ =>
    touched_isRegistration
  -- the worker moves on, and everything else stays
  have kept : ∀ {es}, σ'.session = σ.session → σ'.conn = σ.conn → σ'.registry = σ.registry →
      σ'.trace = es ++ σ.trace → (∀ e ∈ es, e.isRegistration = false) → (∀ s, σ.pc.Keeps σ'.pc s) →
      GhostInv σ' l := by
    intro es hsession hconn hregistry htr hes hpc
    refine hi.idle hregistry htr hes fun s => .inl ⟨hpc s, .rfl, ?_, ?_, ?_, ?_, ?_⟩
    · rw [hsession]
    · rw [hsession]
    · rw [hsession]
    · unfold Open
      rw [hconn]
      exact id
    · rw [hsession]
      exact fun he => ⟨he, rfl⟩
  cases id h
  case clear s hpc => exact hi.clear hpc
  case added s st r hpc hr => exact hi.added hpc hr
  case establish s hpc => exact hi.establish hpc
  case signal =>
    exact kept rfl rfl rfl (show σ.trace = [] ++ σ.trace from rfl) (by simp) fun _ => keeps_refl
  case checkOpen s₀ hpc hc => exact hi.checkOpen hpc hc
  case verify s₀ ok hpc hok =>
    refine kept rfl rfl rfl rfl (List.forall_mem_cons.mpr
      ⟨rfl, List.forall_mem_cons.mpr ⟨rfl, htouched _⟩⟩) fun s => ?_
    rw [hpc]
    cases ok with
    | false => exact keeps_over rfl id (by simp) (by simp)
    | true => constructor <;> simp [WorkerPc.pending, WorkerPc.checks, WorkerPc.inLogin]
  case load s₀ hpc =>
    refine kept rfl rfl rfl rfl (htouched _) fun s => ?_
    rw [hpc]
    constructor <;> simp [WorkerPc.pending, WorkerPc.checks, WorkerPc.inLogin]
  case unlink s₀ hpc hd =>
    cases hkeep hpc
  case unlinkNull hpc hd =>
    have hn := hkeep hpc
    dsimp only at hn
    split at hn <;> cases hn
  case test hpc =>
    refine kept rfl rfl rfl (show σ.trace = [] ++ σ.trace from rfl) (by simp) fun s => ?_
    rw [hpc]
    refine keeps_done ?_ (by simp) (by simp)
    show (loopTest σ).pending = none
    exact loopTest_cases _ rfl rfl
  case ending es pc hpc hpc' hes =>
    refine kept rfl rfl rfl rfl (fun e he => ?_) fun s => keeps_other ?_ ?_
    · obtain ⟨st, _, ⟨ok, rfl⟩ | rfl⟩ := hes e he <;> rfl
    · simp [OwnershipLemmas.pending_of_isEnding hpc]
    · simp [OwnershipLemmas.pending_of_isEnding hpc']
  case checkClosed s₀ hpc hc =>
    refine kept rfl rfl rfl (show _ = (_ :: _) ++ σ.trace from rfl)
      (List.forall_mem_cons.mpr ⟨?_, htouched _⟩) fun s => ?_
    · split <;> rfl
    · rw [hpc]
      exact keeps_done rfl (by simp) (by simp)
  case respond s₀ st ok b hpc hb =>
    refine kept rfl rfl rfl rfl (List.forall_mem_cons.mpr ⟨rfl, htouched _⟩) fun s => ?_
    rw [hpc]
    exact keeps_done rfl (by simp) (by simp)
  case semWait n hpc hn =>
    refine kept rfl rfl rfl (show σ.trace = [] ++ σ.trace from rfl) (by simp) fun s => ?_
    rw [hpc]
    exact keeps_done rfl (by simp) (by simp)
  case interrupted hpc hstop =>
    refine kept rfl rfl rfl (show σ.trace = [] ++ σ.trace from rfl) (by simp) fun s => ?_
    rw [hpc]
    exact keeps_done rfl (by simp) (by simp)
  all_goals
    refine kept rfl rfl rfl rfl (htouched _) fun s => ?_
    rw [‹σ.pc = _›]
    first
    | exact keeps_done rfl (by simp) (by simp)
    | exact keeps_over rfl id (by simp) (by simp)

end GhostInv

/-- While no connection goes down in the middle of the worker's login, every entry of the
registry has an open connection behind it. -/
theorem noGhosts_run {acts : List Action}
    (hP : RunMeets env (fun σ a => a.isWhole = true ∧ OneAtATime σ a ∧ OutsideLogin σ a) acts)
    (h : serverRun env acts = some σ) : NoGhosts σ := by
  have hi : ∃ l, Queued σ l ∧ GhostInv σ l := by
    refine run_induction (I := fun σ => ∃ l, Queued σ l ∧ GhostInv σ l) ?_ ?_ hP h
    · exact ⟨[], ⟨Intrusive.empty_represents, rfl, rfl⟩, .init⟩
    · rintro σ a σ' hw hk ⟨l, hq, hi⟩ ⟨hwhole, hone, hout⟩ hs
      have hnot : NotWaiting σ a := fun p hp => by
        rw [hq.waiting_eq]
        exact (idle_of_oneAtATime hi hq hone hp).1
      rcases step_cases hs with hs | hs
      · rcases hq.callback hnot hs with ⟨hidle, hq'⟩ | ⟨s, f, hacc, hm, hq'⟩
        · exact ⟨l, hq', hi.callback hw hk hq hwhole hout hs hidle⟩
        · obtain ⟨data, hon, _⟩ := hacc.on
          exact ⟨_, hq', hi.accepted hw hs hacc hm (idle_of_oneAtATime hi hq hone hon).2⟩
      · rcases hq.main hs with ⟨hidle, hq'⟩ | ⟨s₀, l', hl, hpc, rfl, hq'⟩
        · exact ⟨l, hq', hi.main hs hidle.pc⟩
        · exact ⟨l', hq', hi.unlink hpc hl hq.represents.nodup⟩
  obtain ⟨l, _, hi⟩ := hi
  have hgone : ∀ c s, (σ.conn c).phase = .closed → (σ.conn c).userData = some s →
      ∀ e ∈ σ.registry.used, ownerOf σ.trace e.key ≠ some s := by
    intro c s hp hu e he ho
    obtain ⟨s', hs'⟩ := hi.owned e he
    obtain ⟨rfl, _⟩ := (run_wf h).1.user c s hu
    rw [hs'.owner] at ho
    cases ho
    rw [hs'.opened.1] at hp
    cases hp
  refine ⟨hgone, fun c s hp hu ulen uname ho hfree st pk => ?_⟩
  refine add_succeeds (fun e he hk => ?_) hfree st pk
  exact hgone c s hp hu e he (by rw [hk, ho])

/-! ## 3. Concrete runs -/

/-- `abc` logs in and disconnects. -/
def loginAndLeave : List Action := abcLogin ++ [.streamClosed 0, .disconnected 0]

theorem noGhosts_loginAndLeave : ∃ σ, serverRun (.fair abcUsers) loginAndLeave = some σ ∧
    ownerOf σ.trace (3, [97, 98, 99]) = some 0 ∧ (σ.conn 0).phase = .closed ∧ NoGhosts σ := by
  obtain ⟨σ, hr, ho, hp⟩ := serverRun_reaches (.fair abcUsers) loginAndLeave
    (fun σ => ownerOf σ.trace (3, [97, 98, 99]) = some 0 ∧ (σ.conn 0).phase = .closed)
    (by decide +kernel)
  exact ⟨σ, hr, ho, hp, noGhosts_run (by decide +kernel) hr⟩

/-- `abc` disconnects right behind its registration; the worker finishes the iteration. -/
def disconnectBehindAdd : List Action :=
  greet 0 ++ .received 0 abcReq :: List.replicate 8 .worker ++
    [.streamClosed 0, .disconnected 0, .worker, .worker]

theorem ghost_user : ∃ env acts σ e, RunMeets env OneAuthReq acts ∧
    (∀ a ∈ acts, a.isWhole = true) ∧ serverRun env acts = some σ ∧ σ.pc = .test ∧
      (σ.conn 0).phase = .closed ∧ (σ.conn 0).userData = some 0 ∧ e ∈ σ.registry.used ∧
        ownerOf σ.trace e.key = some 0 := by
  obtain ⟨σ, hr, hpc, hp, hu, e, he, ho⟩ := serverRun_reaches (.fair abcUsers) disconnectBehindAdd
    (fun σ => σ.pc = .test ∧ (σ.conn 0).phase = .closed ∧ (σ.conn 0).userData = some 0 ∧
      ∃ e ∈ σ.registry.used, ownerOf σ.trace e.key = some 0) (by decide +kernel)
  exact ⟨.fair abcUsers, disconnectBehindAdd, σ, e, by decide +kernel, by decide, hr, hpc, hp, hu,
    he, ho⟩

end SquimpChat
