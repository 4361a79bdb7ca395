import SquimpChat.NameLength

/-!
# Authentication soundness

The worker verifies a copy of the staged name and hash, but it registers the session's
staged fields, and the AUTH_REQ handler rewrites these as long as the session is in
state AUTH. `Sound` says what a login must be backed by: a name enters the registry,
or becomes the name of an established session, only right behind a verification
that accepted this name together with the hash of one AUTH_REQ of the same session.

Results:
1. `sound_run`: `Sound` holds in every run in which no AUTH_REQ with another name
   lands between the accepting verification and the end of the login.
2. `login_as_somebody_else`: one such AUTH_REQ registers a name nobody has verified.
-/

namespace SquimpChat
open Octets

variable {env : Env} {σ σ' : Server} {a : Action}

/-! ## 1. Soundness of a trace -/

/-- The last call of `verify_credentials` in a trace: the session, the C string, the
hash and the answer. -/
def lastVerified : List Event → Option (SessionId × Bytes × Buf 32 × Bool)
  | [] => none
  | .verified s u h ok :: _ => some (s, u, h, ok)
  | _ :: tr => lastVerified tr

def Event.authReqOf (s : SessionId) : Event → Option AuthFields
  | authReq s' f => if s' = s then some f else none
  | _ => none

theorem Event.authReqOf_eq_some {s : SessionId} {e : Event} {f : AuthFields} :
    e.authReqOf s = some f ↔ e = .authReq s f := by
  cases e <;> simp [authReqOf]

/-- One AUTH_REQ of the session carried this name, and the last verification accepted
its C string with the hash of the same AUTH_REQ. -/
def Backed (tr : List Event) (s : SessionId) (name : Key) : Prop :=
  ∃ f, .authReq s f ∈ tr ∧ f.name = name ∧
    lastVerified tr = some (s, cString name.2, f.passwordHash, true)

/-- Each registration and each establishment in the trace is backed by what precedes it. -/
def Sound : List Event → Prop
  | [] => True
  | .registered s name _ _ :: tr => Backed tr s name ∧ Sound tr
  | .established s name :: tr => Backed tr s name ∧ Sound tr
  | _ :: tr => Sound tr

/-- The AUTH_REQs of the session in a trace decide `Backed`. -/
theorem backed_iff {tr : List Event} {s : SessionId} {name : Key} :
    Backed tr s name ↔ ∃ f ∈ tr.filterMap (Event.authReqOf s), f.name = name ∧
      lastVerified tr = some (s, cString name.2, f.passwordHash, true) := by
  simp only [Backed, List.mem_filterMap, Event.authReqOf_eq_some]
  constructor
  · rintro ⟨f, hf, h⟩
    exact ⟨f, ⟨_, hf, rfl⟩, h⟩
  · rintro ⟨f, ⟨_, hf, rfl⟩, h⟩
    exact ⟨f, hf, h⟩

instance (tr : List Event) (s : SessionId) (name : Key) : Decidable (Backed tr s name) :=
  decidable_of_iff' _ backed_iff

instance Sound.decidable : ∀ tr, Decidable (Sound tr)
  | [] => isTrue trivial
  | e :: tr => by
    have := Sound.decidable tr
    cases e <;> unfold Sound <;> infer_instance

/-- The staged name and hash. -/
def Session.staged (x : Session) : Key × Buf 32 := (x.authName, x.authPasswordHash)

def Event.isLogin : Event → Bool
  | verified .. | registered .. | established .. => true
  | _ => false

/-- The session whose credentials the worker has accepted and is about to use. -/
def WorkerPc.accepted : WorkerPc → Option SessionId
  | verified s | loaded s _ | added s => some s
  | _ => none

/-- An AUTH_REQ accepted for that session carries the name already staged. -/
def SameName (σ : Server) (a : Action) : Prop :=
  ∀ p ∈ authReqOn σ a, σ.pc.accepted = some p.1 →
    ∀ f ∈ (readAuthReq p.2).toOption, f.name = (σ.session p.1).authName

instance : Decidable (SameName σ a) := inferInstanceAs (Decidable (∀ _ ∈ _, _))

namespace AuthSoundnessLemmas

variable {es tr : List Event} {s : SessionId} {name : Key}

theorem lastVerified_append (hes : ∀ e ∈ es, e.isLogin = false) :
    lastVerified (es ++ tr) = lastVerified tr := by
  induction es with
  | nil => rfl
  | cons e es ih =>
    obtain ⟨he, htl⟩ := List.forall_mem_cons.mp hes
    rw [List.cons_append]
    cases e <;> first | exact ih htl | cases he

theorem sound_append (hes : ∀ e ∈ es, e.isLogin = false) (h : Sound tr) : Sound (es ++ tr) := by
  induction es with
  | nil => exact h
  | cons e es ih =>
    obtain ⟨he, htl⟩ := List.forall_mem_cons.mp hes
    rw [List.cons_append]
    cases e <;> first | exact ih htl | cases he

theorem backed_append (hes : ∀ e ∈ es, e.isLogin = false) (h : Backed tr s name) :
    Backed (es ++ tr) s name := by
  obtain ⟨f, hf, hn, hl⟩ := h
  exact ⟨f, List.mem_append_right _ hf, hn, by rw [lastVerified_append hes, hl]⟩

theorem touched_isLogin : ∀ e ∈ σ.touched s, e.isLogin = false := by
  intro e he
  obtain ⟨_, rfl⟩ := StepLemmas.mem_touched.mp he
  rfl

/-- No callback verifies, registers or establishes anything. -/
theorem callback_isLogin {e : Event} (h : CallbackEvent σ a e) : e.isLogin = false := by
  cases h with
  | freed => split <;> rfl
  | _ => rfl

/-- What an AUTH_REQ stages: a name that fits is staged as it was sent. -/
theorem staged_stage {x : Session} {f : AuthFields} {st : StreamId}
    (hlen : f.username.length = f.usernameLen.toNat) (hfit : f.usernameLen.toNat ≤ 32) :
    (x.stage f st).staged = (f.name, f.passwordHash) := by
  have hfirst : (x.authUsername.store f.username).first f.usernameLen.toNat = f.username := by
    rw [Buf.first_store (Nat.le_of_eq hlen.symm) hfit, ← hlen, List.take_length]
  simp only [Session.staged, Session.authName, countedName, Session.stage, AuthFields.name, hfirst]

/-- A callback accepts an AUTH_REQ, or it leaves the queue's references and what is
staged of every session that exists. -/
theorem callback_staged (hw : Wf σ) (h : CallbackStep env σ a σ') :
    (∀ s, (Refers σ' s → Refers σ s) ∧
      (σ.life s ≠ .unallocated → (σ'.session s).staged = (σ.session s).staged)) ∨
    ∃ s data f st, authReqOn σ a = some (s, data) ∧ readAuthReq data = .ok f ∧
      .authReq s f ∈ σ'.trace ∧
        σ'.session = Function.update σ.session s ((σ.session s).stage f st) := by
  cases h with
  | @connected c hp =>
    refine .inl fun s => ⟨id, fun hl => ?_⟩
    have hne : s ≠ c := fun heq => hl (heq ▸ (hw.absent c hp).1)
    exact congrArg Session.staged (Function.update_of_ne hne _ _)
  | authReq hr hs hst hon hf hes => exact .inr ⟨_, _, _, _, hon, hf, by simp [acceptedState], rfl⟩
  | hello | bye | streamClosed | left =>
    refine .inl fun s => ⟨id, fun _ => Server.update_proj Session.staged ?_ s⟩
    rfl
  | _ => exact .inl fun _ => ⟨id, fun _ => rfl⟩

/-- The main thread stages nothing. -/
theorem main_staged (h : MainStep env σ a σ') (s : SessionId) :
    (σ'.session s).staged = (σ.session s).staged := by
  cases h
  case clear | establish =>
    refine Server.update_proj Session.staged ?_ s
    rfl
  all_goals rfl

/-- The established name is the staged one. -/
theorem establish_name (x : Session) : x.establish.name = x.authName := by
  simp only [Session.name, Session.establish, Session.authName, countedName,
    RegistryLemmas.first_store_first]

theorem pending_of_accepted {pc : WorkerPc} (h : pc.accepted = some s) : pc.pending = some s := by
  cases pc <;> first | exact h | cases h

end AuthSoundnessLemmas
open AuthSoundnessLemmas

/-! ## 2. The invariant -/

structure AuthInv (σ : Server) : Prop where
  /-- the worker's and the queued sessions' staged fields come from one AUTH_REQ -/
  staged : ∀ s, Refers σ s → ∃ f, .authReq s f ∈ σ.trace ∧
    (σ.session s).staged = (f.name, f.passwordHash)
  accepted : ∀ s, σ.pc.accepted = some s → Backed σ.trace s (σ.session s).authName
  sound : Sound σ.trace

namespace AuthInv

theorem init : AuthInv .init where
  staged s h := absurd rfl (known_init s h)
  accepted _ h := nomatch h
  sound := trivial

theorem callback (hi : AuthInv σ) (hw : Wf σ) (hk : Known σ) (hshort : ShortName σ a)
    (hsame : SameName σ a) (h : CallbackStep env σ a σ') : AuthInv σ' := by
  obtain ⟨es, htr, hes⟩ := callback_events h
  replace hes : ∀ e ∈ es, e.isLogin = false := fun e he => callback_isLogin (hes e he)
  have hpc := callback_pc h
  have hmem : ∀ {e}, e ∈ σ.trace → e ∈ σ'.trace := fun he => htr ▸ List.mem_append_right _ he
  have hsound : Sound σ'.trace := htr ▸ sound_append hes hi.sound
  rcases callback_staged hw h with hkeep | ⟨s', data, f, st, hon, hf, hreq, hsession⟩
  · refine ⟨fun s hr => ?_, fun s hacc => ?_, hsound⟩
    · obtain ⟨f, hf, hst⟩ := hi.staged s ((hkeep s).1 hr)
      exact ⟨f, hmem hf, ((hkeep s).2 (hk s ((hkeep s).1 hr))).trans hst⟩
    · rw [hpc] at hacc
      have hl := hk s (.inl (pending_of_accepted hacc))
      have hname := congrArg Prod.fst ((hkeep s).2 hl)
      rw [htr, show (σ'.session s).authName = (σ.session s).authName from hname]
      exact backed_append hes (hi.accepted s hacc)
  · have hst : (σ'.session s').staged = (f.name, f.passwordHash) := by
      rw [hsession, Function.update_self]
      exact staged_stage (StepLemmas.readAuthReq_ok hf).2 (NamesFit.short hshort hon hf)
    have hother : ∀ s, s ≠ s' → σ'.session s = σ.session s := fun s hne => by
      rw [hsession, Function.update_of_ne hne]
    refine ⟨fun s hr => ?_, fun s hacc => ?_, hsound⟩
    · rcases eq_or_ne s s' with rfl | hne
      · exact ⟨f, hreq, hst⟩
      · rcases refers_callback h hr with hr | ⟨_, hon'⟩
        · obtain ⟨f, hf, hst⟩ := hi.staged s hr
          exact ⟨f, hmem hf, by rw [hother s hne, hst]⟩
        · rw [hon'] at hon
          cases hon
          exact absurd rfl hne
    · rw [hpc] at hacc
      have hname : (σ'.session s).authName = (σ.session s).authName := by
        rcases eq_or_ne s s' with rfl | hne
        · have hf' := hsame (s, data) hon hacc f (by rw [hf]; rfl)
          exact (congrArg Prod.fst hst).trans hf'
        · rw [hother s hne]
      rw [htr, hname]
      exact backed_append hes (hi.accepted s hacc)

/-- A step of the main thread that is not part of a login. -/
theorem idle (hi : AuthInv σ) (h : MainStep env σ a σ') {es : List Event}
    (hacc : σ'.pc.accepted = none) (htr : σ'.trace = es ++ σ.trace)
    (hes : ∀ e ∈ es, e.isLogin = false) : AuthInv σ' where
  staged s hr := by
    obtain ⟨f, hf, hst⟩ := hi.staged s (refers_main h hr)
    exact ⟨f, htr ▸ List.mem_append_right _ hf, (main_staged h s).trans hst⟩
  accepted s h := by
    rw [hacc] at h
    cases h
  sound := htr ▸ sound_append hes hi.sound

theorem main (hi : AuthInv σ) (h : MainStep env σ a σ') : AuthInv σ' := by
  have htouched : ∀ s, ∀ e ∈ σ.touched s, e.isLogin = false := fun _ => touched_isLogin
  have hsound : ∀ s, Sound (σ.touched s ++ σ.trace) := fun s => sound_append (htouched s) hi.sound
  have hstaged : ∀ s, Refers σ' s → ∃ f, .authReq s f ∈ σ'.trace ∧
      (σ'.session s).staged = (f.name, f.passwordHash) := by
    intro s hr
    obtain ⟨es, htr, _⟩ := main_events h
    obtain ⟨f, hf, hst⟩ := hi.staged s (refers_main h hr)
    exact ⟨f, htr ▸ List.mem_append_right _ hf, (main_staged h s).trans hst⟩
  cases id h
  case verify s ok hpc hok =>
    obtain ⟨f, hf, hst⟩ := hi.staged s (.inl (by rw [hpc]; rfl))
    obtain ⟨hname, hhash⟩ := Prod.mk.inj hst
    refine ⟨hstaged, fun s' hacc => ?_, ?_⟩
    · dsimp only at hacc
      cases ok with
      | false => cases hacc
      | true =>
        cases hacc
        refine ⟨f, by simp [hf], hname.symm, ?_⟩
        rw [← hhash]
        rfl
    · exact hsound s
  case load s hpc =>
    refine ⟨hstaged, fun s' hacc => ?_, hsound s⟩
    cases hacc
    exact backed_append (htouched s) (hi.accepted s (by rw [hpc]; rfl))
  case added s st r hpc hr =>
    have hb := backed_append (htouched s) (hi.accepted s (by rw [hpc]; rfl))
    obtain ⟨f, hf, hn, hl⟩ := hb
    refine ⟨hstaged, fun s' hacc => ?_, ?_, hsound s⟩
    · cases hacc
      exact ⟨f, List.mem_cons_of_mem _ (List.mem_cons_of_mem _ hf), hn, hl⟩
    · exact ⟨f, List.mem_cons_of_mem _ hf, hn, hl⟩
  case establish s hpc =>
    have hb := backed_append (htouched s) (hi.accepted s (by rw [hpc]; rfl))
    obtain ⟨f, hf, hn, hl⟩ := hb
    refine ⟨hstaged, nofun, ?_, hsound s⟩
    rw [establish_name]
    exact ⟨f, List.mem_cons_of_mem _ hf, hn, hl⟩
  case test hpc =>
    refine hi.idle h ?_ (show σ.trace = [] ++ σ.trace from rfl) (by simp)
    simp only [loopTest]
    split <;> rfl
  case unlinkNull hpc hq =>
    refine hi.idle h ?_ (show _ = [_] ++ σ.trace from rfl) (by simp [Event.isLogin])
    dsimp only
    split <;> rfl
  case unlink s hpc hq => exact hi.idle h rfl rfl (List.forall_mem_cons.mpr ⟨rfl, htouched s⟩)
  case checkClosed s hpc hc =>
    refine hi.idle h rfl (show _ = (_ :: _) ++ σ.trace from rfl)
      (List.forall_mem_cons.mpr ⟨?_, htouched s⟩)
    split <;> rfl
  case respond s st ok b hpc hb =>
    exact hi.idle h rfl rfl (List.forall_mem_cons.mpr ⟨rfl, htouched s⟩)
  case ending es pc hpc hpc' hes =>
    refine hi.idle h ?_ rfl fun e he => ?_
    · cases pc <;> first | rfl | cases hpc'
    · obtain ⟨st, _, ⟨ok, rfl⟩ | rfl⟩ := hes e he <;> rfl
  case signal => exact ⟨hi.staged, hi.accepted, hi.sound⟩
  case semWait | interrupted =>
    exact hi.idle h rfl (show σ.trace = [] ++ σ.trace from rfl) (by simp)
  all_goals exact hi.idle h rfl rfl (htouched _)

end AuthInv

/-- While no AUTH_REQ under another name lands in the worker's login, every login is
backed by one AUTH_REQ of its session and the verification of its name and hash. -/
theorem sound_run {acts : List Action}
    (hP : RunMeets env (fun σ a => ShortName σ a ∧ SameName σ a) acts)
    (h : serverRun env acts = some σ) : Sound σ.trace := by
  have hi : AuthInv σ := run_induction .init (fun _ _ _ hw hk hi hp hs =>
    (step_cases hs).elim (hi.callback hw hk hp.1 hp.2) hi.main) hP h
  exact hi.sound

/-! ## 3. Concrete runs -/

theorem sound_abcLogin : ∃ σ, serverRun (.fair abcUsers) abcLogin = some σ ∧
    .established 0 (3, [97, 98, 99]) ∈ σ.trace ∧ Sound σ.trace := by
  obtain ⟨σ, hr, he⟩ := serverRun_reaches (.fair abcUsers) abcLogin
    (fun σ => .established 0 (3, [97, 98, 99]) ∈ σ.trace) (by decide +kernel)
  exact ⟨σ, hr, he, sound_run (by decide +kernel) hr⟩

/-- `abc` sends a second AUTH_REQ, under the name `xyz`, once the worker has verified the
first. -/
def xyzLogin : List Action :=
  greet 0 ++ .received 0 abcReq :: List.replicate 6 .worker ++
    [.received 0 (authReqBytes 3 [120, 121, 122] []), .worker, .worker]

theorem login_as_somebody_else : ∃ env acts σ, RunMeets env ShortName acts ∧
    (∀ a ∈ acts, ∀ data ∈ a.packet, StructComplete data) ∧
      serverRun env acts = some σ ∧ ¬ Sound σ.trace := by
  obtain ⟨σ, hr, hc⟩ := serverRun_reaches (.fair abcUsers) xyzLogin
    (fun σ => ¬ Sound σ.trace) (by decide +kernel)
  exact ⟨.fair abcUsers, xyzLogin, σ, by decide +kernel, by decide +kernel, hr, hc⟩

end SquimpChat
