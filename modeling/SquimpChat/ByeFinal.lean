import SquimpChat.Registrations
import SquimpChat.SessionRegistry

/-!
# A BYE is final

The BYE handler acts in CONN_ESTABLISHED and ignores the packet otherwise. A session that has
said BYE there is out of the registry and stays in CLOSING. A session that says BYE in AUTH
stays in AUTH: its AUTH_REQ, queued or still to come, will log it in.

Results:
1. `bye_final`: behind a BYE the session is never established and has no entry, in every run
   in which a session sends one AUTH_REQ and says BYE only when that has been dealt with.
2. `bye_ignored`: a BYE while the AUTH_REQ waits in the queue.
-/

namespace SquimpChat
open Octets Transition StepLemmas AtomicLemmas RegistrationLemmas

variable {env : Env} {σ σ' : Server} {a : Action} {acts acts' : List Action}

/-- A session in AUTH says BYE only when its AUTH_REQ was sent and is off the queue. -/
def ByeBehindLogin (σ : Server) (a : Action) : Prop :=
  ∀ s ∈ byeOn σ a, (σ.session s).state = .auth → ¬ FirstAuthReq σ s ∧ ¬ σ.queue.Reaches s

/-- An entry belongs to an established session of its name. -/
def Owned (σ : Server) : Prop :=
  ∀ e ∈ σ.registry.used, ∀ s, ownerOf σ.trace e.key = some s →
    Established σ s ∧ (σ.session s).name = e.key

/-- The session is past HELLO and has no login ahead. -/
structure Finished (σ : Server) (s : SessionId) : Prop where
  allocated : σ.life s ≠ .unallocated
  requested : (σ.session s).state = .auth → ¬ FirstAuthReq σ s
  unqueued : ¬ σ.queue.Reaches s
  started : (σ.session s).state ≠ .hello
  unestablished : (σ.session s).state ≠ .connEstablished

/-! ## 1. Owners of entries -/

namespace ByeLemmas

variable {s t : SessionId} {l l' : List SessionId} {tr : List Event} {e : RegistryEntry}

theorem ownerOf_none {es : List Event} {k : Key} (hes : ∀ ev ∈ es, ev.registeredAs k = none) :
    ownerOf (es ++ tr) k = ownerOf tr k := by
  rw [ownerOf, List.findSome?_append, List.findSome?_eq_none_iff.mpr hes]
  rfl

/-- A session that is alive and established was alive before. -/
theorem live_before (hb : Between σ) (h : atomicStep env σ a = some σ') (ht : Established σ' t) :
    σ.life t = .live := by
  obtain ⟨hl, hst⟩ := ht
  cases login_cases hb h with
  | change h =>
    cases h with
    | kept h | hello _ _ h | bye _ _ _ h | left _ _ _ h => rwa [h.life] at hl
    | @connected c hl' h =>
      rw [h.state] at hst
      rw [h.life] at hl
      rcases eq_or_ne t c with rfl | hne
      · rw [Function.update_self] at hst
        cases hst
      · rwa [Function.update_of_ne hne] at hl
    | @freed s _ _ _ h =>
      rw [h.life] at hl
      rcases eq_or_ne t s with rfl | hne
      · simp at hl
      · rwa [Function.update_of_ne hne] at hl
  | authReq ho hst' h =>
    obtain ⟨st, es, _, _, _, rfl⟩ := h.state
    exact hl
  | iteration ha hpc hsem h =>
    cases h with
    | @closed s es hq hc hes =>
      have hl : Function.update σ.life s .freed t = .live := hl
      rcases eq_or_ne t s with rfl | hne
      · simp at hl
      · rwa [Function.update_of_ne hne] at hl
    | empty | refused | admitted => exact hl

/-- The established session of the entry's name was established, and is the owner. -/
theorem owner_kept (hb : Between σ) (hm : Matched σ) (ho : Owned σ)
    (h : atomicStep env σ a = some σ') (he : e ∈ σ.registry.used)
    (hs : ownerOf σ.trace e.key = some s) (ht : Established σ' t)
    (hn : (σ'.session t).name = e.key) : t = s := by
  obtain ⟨hes, hname⟩ := ho e he s hs
  rcases established_step hb h ht.2 with ⟨hst, hn'⟩ | hadm
  · refine hm.alone t s ⟨live_before hb h ht, hst⟩ hes ?_
    rw [← hn', hn, hname]
  · -- `sqmp_registry_add` would have found the entry
    obtain ⟨r, hr⟩ := Option.isSome_iff_exists.mp hadm.admits.added
    exact absurd (hn.symm.trans hadm.name) ((add_cases hr).1 e he)

/-- The step of a BYE is its handler. -/
theorem byeOn_step (hon : byeOn σ a = some s) (h : atomicStep env σ a = some σ') :
    (∃ st, (σ.stream st).userData = some s) ∧ σ' = sqmpProcessBye σ s := by
  unfold byeOn at hon
  split at hon
  · split at hon
    · next hd =>
      obtain ⟨_, h⟩ := Option.ite_none_right_eq_some.mp h
      cases h
      refine ⟨⟨_, hon⟩, ?_⟩
      simp only [onStreamRecv, hd, ok_bind, withSession, hon]
      rfl
    · cases hon
  · cases hon

end ByeLemmas
open ByeLemmas

theorem Owned.step {l l' : List SessionId} (ho : Owned σ) (hb : Between σ) (hr : Registrations σ)
    (hi : Agree σ l) (hi' : Agree σ' l') (h : atomicStep env σ a = some σ') : Owned σ' := by
  intro e he s hs
  obtain ⟨t, ht, hn⟩ := (hi'.names.entry e.key).mp ⟨e, he, rfl⟩
  suffices heq : t = s by
    rw [← heq]
    exact ⟨ht, hn⟩
  cases entry_cases hr.staged hr.distinct hb h with
  | kept hnone hsub htr hes =>
    rw [htr, ownerOf_none fun ev hev => hes ev hev _] at hs
    exact owner_kept hb hi.names ho h (hsub e he) hs ht hn
  | @added s' e' f post pre hsome hname hused hnew htr hpost hpre hf hg hk =>
    rcases (hused e).mp he with he | rfl
    · have hne : e'.key ≠ e.key := (hnew e he).symm
      rw [htr, ownerOf_none fun ev hev => hpost ev hev _, GhostLemmas.ownerOf_registered_of_ne hne,
        ownerOf_none fun ev hev => hpre ev hev _] at hs
      exact owner_kept hb hi.names ho h he hs ht hn
    · rw [htr, ownerOf_none fun ev hev => hpost ev hev _, GhostLemmas.ownerOf_registered] at hs
      cases hs
      rcases established_step hb h ht.2 with ⟨hst, hn'⟩ | hadm
      · obtain ⟨e', he', hk'⟩ := (hi.names.entry e.key).mpr
          ⟨t, ⟨live_before hb h ht, hst⟩, hn'.symm.trans hn⟩
        exact absurd hk' (hnew e' he')
      · have ha := hadm.admits
        rw [ha.worker, admitting, if_pos ha.iteration, ha.dequeued] at hsome
        exact Option.some.inj (Option.filter_eq_some_iff.mp hsome).1

/-! ## 2. Finished sessions -/

namespace Finished

variable {s : SessionId}

/-- An AUTH_REQ that was sent stays in the trace. -/
theorem firstAuthReq_mono {es : List Event} (htr : σ'.trace = es ++ σ.trace)
    (h : FirstAuthReq σ' s) : FirstAuthReq σ s :=
  fun ev hev => h ev (htr ▸ List.mem_append_right _ hev)

/-- A step that leaves the session's state as it is. -/
theorem kept {es : List Event} (hf : Finished σ s)
    (hst : (σ'.session s).state = (σ.session s).state) (hl : σ'.life s ≠ .unallocated)
    (hq : ¬ σ'.queue.Reaches s) (htr : σ'.trace = es ++ σ.trace) : Finished σ' s where
  allocated := hl
  requested h := mt (firstAuthReq_mono htr) (hf.requested (hst.symm.trans h))
  unqueued := hq
  started := by
    rw [hst]
    exact hf.started
  unestablished := by
    rw [hst]
    exact hf.unestablished

theorem change (hf : Finished σ s) (h : Change σ a σ') : Finished σ' s := by
  obtain ⟨es, htr, _⟩ := h.trace
  have same : (σ'.session s).state = (σ.session s).state → σ'.life s ≠ .unallocated →
      Finished σ' s := fun hst hl => hf.kept hst hl (h.queue ▸ hf.unqueued) htr
  cases h with
  | kept h => exact same (h.state s) (by rw [h.life]; exact hf.allocated)
  | @connected c hl h =>
    have hne : s ≠ c := fun heq => hf.allocated (heq ▸ hl)
    refine same ?_ ?_
    · rw [h.state, Function.update_of_ne hne]
    · rw [h.life, Function.update_of_ne hne]
      exact hf.allocated
  | @hello t id ho hst h =>
    have hne : s ≠ t := fun heq => hf.started (heq ▸ hst)
    exact same (by rw [h.state, Function.update_of_ne hne]) (by rw [h.life]; exact hf.allocated)
  | @bye t hon ho hst h =>
    have hne : s ≠ t := fun heq => hf.unestablished (heq ▸ hst)
    exact same (by rw [h.state, Function.update_of_ne hne]) (by rw [h.life]; exact hf.allocated)
  | @left t ha ho hq h =>
    refine same ?_ (by rw [h.life]; exact hf.allocated)
    rw [h.state, Function.update_apply]
    split
    · next heq => rw [heq]
    · rfl
  | @freed t ha ho hq h =>
    refine same (h.state s) ?_
    rw [h.life, Function.update_apply]
    split
    · simp
    · exact hf.allocated

theorem step (hf : Finished σ s) (hb : Between σ) (hone : OneAuthReq σ a)
    (h : atomicStep env σ a = some σ') : Finished σ' s := by
  cases login_cases hb h with
  | change h => exact hf.change h
  | @authReq t f ho hst h =>
    obtain ⟨data, hon, _⟩ := h.on
    have hne : s ≠ t := by
      rintro rfl
      exact hf.requested hst (hone (s, data) hon)
    obtain ⟨_, hsame⟩ := authReq_others h hne
    obtain ⟨st, es, _, _, _, rfl⟩ := h.state
    refine hf.kept (by rw [hsame]) hf.allocated (fun hq => ?_) rfl
    exact hf.unqueued ((Intrusive.reaches_enqueue hq).resolve_left hne)
  | iteration ha hpc hsem h =>
    obtain ⟨es, htr, _⟩ := iteration_authReq h
    have hne : ∀ {t}, σ.queue.dequeue.1 = some t → s ≠ t := by
      rintro t hq rfl
      exact hf.unqueued (Intrusive.reaches_dequeued hq)
    have hqueue : ¬ σ.queue.dequeue.2.Reaches s := fun hq =>
      hf.unqueued (Intrusive.reaches_dequeue hq)
    cases h with
    | empty hq => exact hf.kept rfl hf.allocated hf.unqueued htr
    | closed hq | refused hq | admitted hq =>
      refine hf.kept ?_ ?_ hqueue htr
      · simp [iterated, hne hq]
      · simpa [iterated, hne hq] using hf.allocated

end Finished

/-! ## 3. Runs -/

/-- What holds in every state of the runs considered here. -/
structure ByeInv (σ : Server) : Prop where
  between : Between σ
  registrations : Registrations σ
  agree : ∃ l, Agree σ l
  owned : Owned σ

namespace ByeInv

variable {s : SessionId}

theorem init : ByeInv .init where
  between := .init
  registrations := .init
  agree := ⟨[], .init⟩
  owned e he := by
    rw [show Server.init.registry.used = [] from used_empty] at he
    cases he

/-- A session that sends its first AUTH_REQ is not in the queue. -/
theorem notWaiting (hi : ByeInv σ) (hone : OneAuthReq σ a) : NotWaiting σ a := by
  intro p hp hw
  obtain ⟨l, hl⟩ := hi.agree
  rw [hl.lined.waiting_eq] at hw
  obtain ⟨f, hf, _⟩ := hi.registrations.staged p.1 (hl.lined.represents.mentions hw)
  have hnone := hone p hp _ (mem_of_lastAuthReq hf)
  rw [Event.authReqOf_eq_some.mpr rfl] at hnone
  cases hnone

theorem step (hi : ByeInv σ) (hshort : ShortName σ a) (hone : OneAuthReq σ a)
    (h : atomicStep env σ a = some σ') : ByeInv σ' := by
  obtain ⟨l, hl⟩ := hi.agree
  obtain ⟨l', hl'⟩ := hl.step hi.between (hi.notWaiting hone) h
  exact ⟨hi.between.step h, hi.registrations.step hi.between hshort h, ⟨l', hl'⟩,
    hi.owned.step hi.between hi.registrations hl hl' h⟩

/-- A session that has said BYE is finished. -/
theorem bye (hi : ByeInv σ) (hbye : ByeBehindLogin σ a) (hon : byeOn σ a = some s)
    (hst : (σ.session s).state ≠ .hello) (h : atomicStep env σ a = some σ') : Finished σ' s := by
  obtain ⟨l, hl⟩ := hi.agree
  have hqueue : (σ.session s).state ≠ .auth → ¬ σ.queue.Reaches s := fun hst hq =>
    hst (hl.waits s (hl.lined.represents.mem_of_reaches hq)).2.1
  obtain ⟨⟨st, hs⟩, hσ'⟩ := byeOn_step hon h
  have halloc : σ.life s ≠ .unallocated := (hi.between.wf.stream_user hs).2.2
  subst hσ'
  by_cases hest : (σ.session s).state = .connEstablished
  · have hclosing : ((sqmpProcessBye σ s).session s).state = .closing := by
      simp [sqmpProcessBye, acceptBye, hest]
    rw [sqmpProcessBye, Server.append_session, if_pos hest] at hclosing ⊢
    refine ⟨halloc, fun hauth => ?_, hqueue (by simp [hest]), ?_, ?_⟩
    · rw [hclosing] at hauth
      cases hauth
    · simp [hclosing]
    · simp [hclosing]
  · rw [sqmpProcessBye, Server.append_session, if_neg hest]
    refine ⟨halloc, fun hauth => (hbye s hon hauth).1 ∘ Finished.firstAuthReq_mono rfl, ?_, hst,
      hest⟩
    by_cases hauth : (σ.session s).state = .auth
    · exact (hbye s hon hauth).2
    · exact hqueue hauth

end ByeInv

/-- Once a session past HELLO has said BYE, it is not established in any later state and the
registry has no entry for it. -/
theorem bye_final {s : SessionId}
    (hP : AtomicMeets env (fun σ a => ShortName σ a ∧ OneAuthReq σ a ∧ ByeBehindLogin σ a)
      (acts ++ a :: acts'))
    (h : atomicRun env acts = some σ) (hon : byeOn σ a = some s)
    (hst : (σ.session s).state ≠ .hello) (h' : run (atomicStep env) σ (a :: acts') = some σ') :
    (σ'.session s).state ≠ .connEstablished ∧
      ∀ e ∈ σ'.registry.used, ownerOf σ'.trace e.key ≠ some s := by
  obtain ⟨hP, hP'⟩ := along_split h hP
  have hi : ByeInv σ := run_invariant (I := ByeInv)
    (fun _ _ _ hi hp hs => hi.step hp.1 hp.2.1 hs) .init hP h
  obtain ⟨τ, hs, hr⟩ := run_cons.mp h'
  obtain ⟨hp, hP'⟩ := along_cons hP' hs
  obtain ⟨hi', hf⟩ := run_invariant (I := fun σ => ByeInv σ ∧ Finished σ s)
    (fun _ _ _ hi hp hs => ⟨hi.1.step hp.1 hp.2.1 hs, hi.2.step hi.1.between hp.2.1 hs⟩)
    ⟨hi.step hp.1 hp.2.1 hs, hi.bye hp.2.2 hon hst hs⟩ hP' hr
  exact ⟨hf.unestablished, fun e he hown => hf.unestablished (hi'.owned e he s hown).1.2⟩

/-! ## 4. Concrete runs -/

/-- `abc` says BYE on connection 0 and logs in again on connection 1. -/
def abcReturns : List Action := greet 1 ++ [.received 1 abcReq, .worker, .worker]

theorem bye_final_abcReturns : ∃ σ σ', atomicRun (.fair abcUsers) abcSession = some σ ∧
    run (atomicStep (.fair abcUsers)) σ (.received 0 byeBytes :: abcReturns) = some σ' ∧
      σ'.registry.used.map (fun e => ownerOf σ'.trace e.key) = [some 1] ∧
        (σ'.session 0).state ≠ .connEstablished ∧
          ∀ e ∈ σ'.registry.used, ownerOf σ'.trace e.key ≠ some 0 := by
  have hP : AtomicMeets (.fair abcUsers) (fun σ a => ShortName σ a ∧ OneAuthReq σ a ∧
      ∀ s ∈ byeOn σ a, (σ.session s).state ≠ .auth)
        (abcSession ++ .received 0 byeBytes :: abcReturns) := by decide +kernel
  obtain ⟨σ', hr', hown⟩ := atomicRun_reaches (.fair abcUsers)
    (abcSession ++ .received 0 byeBytes :: abcReturns)
    (fun σ => σ.registry.used.map (fun e => ownerOf σ.trace e.key) = [some 1]) (by decide +kernel)
  obtain ⟨τ, hr, hon, hst⟩ := atomicRun_reaches (.fair abcUsers) abcSession (fun σ =>
    byeOn σ (.received 0 byeBytes) = some 0 ∧ (σ.session 0).state ≠ .hello) (by decide +kernel)
  obtain ⟨σ, hσ, hr'⟩ := run_append.mp hr'
  obtain rfl : τ = σ := Option.some.inj (hr.symm.trans hσ)
  refine ⟨τ, σ', hr, hr', hown, bye_final (Along.mono (fun σ a hp => ⟨hp.1, hp.2.1, ?_⟩) hP) hr hon
    hst hr'⟩
  exact fun s hs hauth => absurd hauth (hp.2.2 s hs)

/-- `abc` has sent its AUTH_REQ. -/
def abcWaits : List Action := greet 0 ++ [.received 0 abcReq]

theorem bye_ignored : ∃ env acts a acts' σ σ' s,
    AtomicMeets env (fun σ a => ShortName σ a ∧ OneAuthReq σ a) (acts ++ a :: acts') ∧
      atomicRun env acts = some σ ∧ byeOn σ a = some s ∧ (σ.session s).state ≠ .hello ∧
        run (atomicStep env) σ (a :: acts') = some σ' ∧
          (σ'.session s).state = .connEstablished ∧
            ∃ e ∈ σ'.registry.used, ownerOf σ'.trace e.key = some s := by
  obtain ⟨σ', hr', hst', hown⟩ := atomicRun_reaches (.fair abcUsers)
    (abcWaits ++ [.received 0 byeBytes, .worker, .worker]) (fun σ =>
      (σ.session 0).state = .connEstablished ∧
        ∃ e ∈ σ.registry.used, ownerOf σ.trace e.key = some 0) (by decide +kernel)
  obtain ⟨τ, hr, hon, hst⟩ := atomicRun_reaches (.fair abcUsers) abcWaits (fun σ =>
    byeOn σ (.received 0 byeBytes) = some 0 ∧ (σ.session 0).state ≠ .hello) (by decide +kernel)
  obtain ⟨σ, hσ, hr'⟩ := run_append.mp hr'
  obtain rfl : τ = σ := Option.some.inj (hr.symm.trans hσ)
  exact ⟨.fair abcUsers, abcWaits, .received 0 byeBytes, [.worker, .worker], τ, σ', 0,
    by decide +kernel, hr, hon, hst, hr', hst', hown⟩

end SquimpChat
