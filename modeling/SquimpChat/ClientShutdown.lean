import SquimpChat.ClientMain

/-!
# Leaving the waits of the login

What wakes the main thread out of its waits for `login_ready` and `auth_done`: a post, or a signal
whose handler runs while the thread is blocked. `g_interrupted` alone wakes nothing, since each
wait looks at it only behind an interrupted `sem_wait`. A signal that is handled earlier, by the
first wait or between the waits, leaves nothing for the second one; nor does an `sqmp_login` that
fails, since `main` does not look at its result and waits for an AUTH_RESP that will not come.

Results:
1. `not_stuck`: the main thread is never stuck in a run in which every signal and every failing
   login comes in time; a signal or a failing login that does not lets the main thread alone run
   into a wait that nothing ends.
2. `interrupted_login_stuck`: Ctrl+C during the first wait.
-/

namespace SquimpChat
open Octets Transition ClientMainLemmas

/-- The main thread has not been in the wait for `auth_done` yet. -/
def MainPc.BeforeAuthWait : MainPc → Prop
  | .hello | .loginWait _ | .loginTest | .login | .authWait .call => True
  | _ => False

/-- The main thread has yet to look at `login_ready`. -/
def MainPc.BeforeLoginWait : MainPc → Prop
  | .hello | .loginWait .call => True
  | _ => False

instance : DecidablePred MainPc.BeforeAuthWait := fun pc => by
  unfold MainPc.BeforeAuthWait
  split <;> infer_instance

instance : DecidablePred MainPc.BeforeLoginWait := fun pc => by
  unfold MainPc.BeforeLoginWait
  split <;> infer_instance

namespace ClientMain

/-- In `sem_wait` with count 0. -/
def Blocked (m : ClientMain) : Prop :=
  m.pc = .loginWait .blocked ∧ m.client.session.loginReady = 0 ∨
    m.pc = .authWait .blocked ∧ m.client.session.authDone = 0

/-- The client is to end, or no AUTH_REQ is outstanding. -/
def Doomed (m : ClientMain) : Prop := m.client.interrupted = true ∨ m.loginFailed = true

/-- Blocked without a signal that could wake it, and nothing to wait for. -/
def Stuck (m : ClientMain) : Prop := m.Blocked ∧ m.pending = [] ∧ m.Doomed

instance (m : ClientMain) : Decidable m.Blocked := inferInstanceAs (Decidable (_ ∨ _))
instance (m : ClientMain) : Decidable m.Doomed := inferInstanceAs (Decidable (_ ∨ _))
instance (m : ClientMain) : Decidable m.Stuck := inferInstanceAs (Decidable (_ ∧ _))

/-- The waits ahead find their semaphores posted. -/
def WaitsPosted (m : ClientMain) : Prop :=
  0 < m.client.session.authDone ∧ (m.pc.BeforeLoginWait → 0 < m.client.session.loginReady)

instance (m : ClientMain) : Decidable m.WaitsPosted := inferInstanceAs (Decidable (_ ∧ _))

end ClientMain

/-- The last pending signal is handled only once the main thread is in the wait for `auth_done`, or
when the waits ahead of it are posted; `sqmp_login` fails only with a signal pending or
`auth_done` posted. -/
def InTime (env : ClientEnv) (m : ClientMain) : MainAction → Prop
  | .deliver k => m.pending.erase k ≠ [] ∨ ¬ m.pc.BeforeAuthWait ∨ m.WaitsPosted
  | .login stdin => (m.client.sqmpLogin env stdin).2 = .ok () ∨ m.pending ≠ [] ∨
      0 < m.client.session.authDone
  | _ => True

instance {env : ClientEnv} {m : ClientMain} : ∀ a, Decidable (InTime env m a)
  | .deliver _ => inferInstanceAs (Decidable (_ ∨ _ ∨ _))
  | .login _ => inferInstanceAs (Decidable (_ ∨ _ ∨ _))
  | .main | .line _ | .timeout | .signal _ | .receive _ | .disconnected => isTrue trivial

/-! ## 1. What keeps the main thread going -/

namespace ClientShutdownLemmas

/-- Past the waits, or with a signal or the posts that lead there. -/
structure Going (m : ClientMain) : Prop where
  eintr : m.pc = .loginWait .eintr ∨ m.pc = .authWait .eintr → m.client.interrupted = true
  going : m.Doomed → m.pending ≠ [] ∨ (¬ m.pc.BeforeAuthWait ∧ m.pc ≠ .authWait .blocked) ∨
    0 < m.client.session.authDone ∧
      (m.pc.BeforeLoginWait ∨ m.pc = .loginWait .blocked → 0 < m.client.session.loginReady)

variable {env : ClientEnv} {m m' : ClientMain} {a : MainAction}

theorem going_not_stuck (hg : Going m) : ¬ m.Stuck := by
  rintro ⟨hb, hp, hd⟩
  rcases hg.going hd with h | ⟨hpc, hne⟩ | ⟨hauth, hlogin⟩
  · exact h hp
  · rcases hb with ⟨h, _⟩ | ⟨h, _⟩
    · exact hpc (by rw [h]; trivial)
    · exact hne h
  · rcases hb with ⟨h, h0⟩ | ⟨_, h0⟩
    · exact Nat.ne_of_gt (hlogin (.inr h)) h0
    · exact Nat.ne_of_gt hauth h0

/-- Past the waits. -/
def Past (pc : MainPc) : Prop := ¬ pc.BeforeAuthWait ∧ pc ≠ .authWait .blocked

theorem going_past (hp : Past m.pc) (he : m.pc ≠ .authWait .eintr) : Going m where
  eintr h := by
    rcases h with h | h
    · rw [h] at hp
      exact absurd trivial hp.1
    · exact absurd h he
  going _ := .inr (.inl hp)

/-- Ahead of the waits, a signal or the posts lead past them. -/
theorem going_early (hg : Going m) (hpc : ¬ Past m.pc) (hd : m.Doomed) :
    m.pending ≠ [] ∨ 0 < m.client.session.authDone ∧
      (m.pc.BeforeLoginWait ∨ m.pc = .loginWait .blocked → 0 < m.client.session.loginReady) :=
  (hg.going hd).imp_right fun h => h.resolve_left hpc

/-- The thread goes on behind its first wait. -/
theorem going_on (hg : Going m) (hpc : ¬ Past m.pc)
    (hi : m'.client.interrupted = m.client.interrupted)
    (hf : m'.loginFailed = m.loginFailed) (hp : m'.pending = m.pending)
    (ha : m'.client.session.authDone = m.client.session.authDone)
    (hpc' : m'.pc = .loginTest ∨ m'.pc = .login ∨ m'.pc = .authWait .call) : Going m' where
  eintr h := by rcases hpc' with h' | h' | h' <;> rw [h'] at h <;> simp at h
  going hd := by
    rw [ClientMain.Doomed, hi, hf] at hd
    rw [hp, ha]
    refine (going_early hg hpc hd).imp_right fun h => .inr ⟨h.1, fun h' => ?_⟩
    rcases hpc' with hpc' | hpc' | hpc' <;> simp [hpc', MainPc.BeforeLoginWait] at h'

/-- What a packet and a signal leave, as long as a signal becomes pending with the flag. -/
theorem going_event (hg : Going m) (hpc : m'.pc = m.pc) (hf : m'.loginFailed = m.loginFailed)
    (hi : m.client.interrupted = true → m'.client.interrupted = true)
    (hl : m.client.session.loginReady ≤ m'.client.session.loginReady)
    (ha : m.client.session.authDone ≤ m'.client.session.authDone)
    (hp : m'.pending ≠ [] ∨ m'.pending = m.pending ∧
      m'.client.interrupted = m.client.interrupted) : Going m' where
  eintr h := hi (hg.eintr (hpc ▸ h))
  going hd := by
    rcases hp with hp | ⟨hp, hi'⟩
    · exact .inl hp
    · rw [ClientMain.Doomed, hi', hf] at hd
      rw [hp, hpc]
      exact (hg.going hd).imp_right (.imp_right fun h =>
        ⟨Nat.lt_of_lt_of_le h.1 ha, fun hb => Nat.lt_of_lt_of_le (h.2 hb) hl⟩)

theorem insert_ne_nil (k : MainSignal) (l : List MainSignal) : l.insert k ≠ [] :=
  List.ne_nil_of_mem List.mem_insert_self

theorem going_receive (hg : Going m) (data : Bytes) : Going (m.receive env data) := by
  have hp := receive_posts env m.client data
  unfold ClientMain.receive
  dsimp only
  split
  · next hb =>
    refine going_event hg rfl rfl (fun h => ?_) hp.loginReady hp.authDone
      (.inl (insert_ne_nil _ _))
    show (m.client.receive env data).interrupted = true
    rw [hp.interrupted, hb, Bool.or_true]
  · next hb =>
    have hi : (m.client.receive env data).interrupted = m.client.interrupted := by
      rw [hp.interrupted, Bool.eq_false_iff.mpr hb, Bool.or_false]
    exact going_event hg rfl rfl (fun h => hi.trans h) hp.loginReady hp.authDone
      (.inr ⟨rfl, hi⟩)

theorem past_interrupt {pc : MainPc} (h : ¬ pc.BeforeAuthWait) : Past pc.interrupt := by
  cases pc with
  | authWait w =>
    cases w with
    | call => exact absurd trivial h
    | blocked | eintr => exact ⟨id, nofun⟩
  | hello | loginTest | login => exact absurd trivial h
  | loginWait w => exact absurd trivial h
  | _ => exact ⟨id, nofun⟩

/-- The handler of a signal leads out of the first wait. -/
theorem beforeLoginWait_of_interrupt {pc : MainPc}
    (h : pc.interrupt.BeforeLoginWait ∨ pc.interrupt = .loginWait .blocked) :
    pc.BeforeLoginWait := by
  cases pc with
  | hello => trivial
  | loginWait w =>
    cases w with
    | call => trivial
    | blocked | eintr => rcases h with h | h <;> cases h
  | authWait w => cases w <;> rcases h with h | h <;> cases h
  | _ => rcases h with h | h <;> cases h

/-- A signal that is handled in time. -/
theorem going_handle {k : MainSignal} (hP : InTime env m (.deliver k)) :
    Going (m.handle k) where
  eintr _ := rfl
  going _ := by
    rcases hP with h | h | ⟨ha, hl⟩
    · exact .inl h
    · exact .inr (.inl (past_interrupt h))
    · exact .inr (.inr ⟨ha, fun h => hl (beforeLoginWait_of_interrupt h)⟩)

theorem going_login {stdin : Bytes} (hg : Going m) (hpc : m.pc = .login)
    (hP : InTime env m (.login stdin)) : Going (m.login env stdin) := by
  obtain ⟨_, ha, hi⟩ := sqmpLogin_posts env m.client stdin
  refine ⟨nofun, fun hd => ?_⟩
  have h : m.pending ≠ [] ∨ 0 < m.client.session.authDone := by
    rcases hd with hd | hd
    · have hearly : ¬ Past m.pc := fun h => h.1 (by rw [hpc]; trivial)
      exact (going_early hg hearly (.inl (hi.symm.trans hd))).imp_right And.left
    · exact hP.resolve_left (of_decide_eq_true hd)
  refine h.imp_right fun h => .inr ⟨Nat.lt_of_lt_of_eq h ha.symm, fun hb => ?_⟩
  rcases hb with hb | hb <;> cases hb

/-- Both branches of a test lead past the waits. -/
theorem going_ite {c : Prop} [Decidable c] {pc pc' : MainPc} (h : Past pc ∧ pc ≠ .authWait .eintr)
    (h' : Past pc' ∧ pc' ≠ .authWait .eintr) : Going { m with pc := if c then pc else pc' } := by
  by_cases hc : c
  · rw [if_pos hc]
    exact going_past h.1 h.2
  · rw [if_neg hc]
    exact going_past h'.1 h'.2

theorem going_main (hg : Going m) (h : m.mainStep env = some m') : Going m' := by
  have hearly : ∀ {pc}, m.pc = pc → pc.BeforeAuthWait → ¬ Past m.pc := fun h hb hp => hp.1 (h ▸ hb)
  unfold ClientMain.mainStep at h
  split at h
  · next hpc =>
    cases h
    refine ⟨nofun, fun hd => ?_⟩
    exact (going_early hg (hearly hpc trivial) hd).imp_right fun h =>
      .inr ⟨h.1, fun _ => h.2 (.inl (by rw [hpc]; trivial))⟩
  · next w hpc =>
    obtain ⟨⟨n, w'⟩, hw, h⟩ := Option.map_eq_some_iff.mp h
    cases h
    cases WaitPc.next_step hw with
    | blocks h0 =>
      refine ⟨nofun, fun hd => ?_⟩
      rcases going_early hg (hearly hpc trivial) hd with h | h
      · exact .inl h
      · exact absurd h0 (Nat.ne_of_gt (h.2 (.inl (by rw [hpc]; trivial))))
    | takes => exact going_on hg (hearly hpc trivial) rfl rfl rfl rfl (.inl rfl)
    | leaves => exact going_on hg (hearly hpc trivial) rfl rfl rfl rfl (.inl rfl)
    | retries hi =>
      rw [hg.eintr (.inl hpc)] at hi
      cases hi
  · next hpc =>
    cases h
    refine going_on hg (hearly hpc trivial) rfl rfl rfl rfl (.inr ?_)
    show ite _ _ _ = _ ∨ ite _ _ _ = _
    split
    · exact .inr rfl
    · exact .inl rfl
  · cases h
  · next w hpc =>
    obtain ⟨⟨n, w'⟩, hw, h⟩ := Option.map_eq_some_iff.mp h
    cases h
    cases WaitPc.next_step hw with
    | blocks h0 =>
      refine ⟨nofun, fun hd => ?_⟩
      rcases going_early hg (hearly hpc trivial) hd with h | h
      · exact .inl h
      · exact absurd h0 (Nat.ne_of_gt h.1)
    | takes => exact going_past ⟨id, nofun⟩ nofun
    | leaves => exact going_past ⟨id, nofun⟩ nofun
    | retries hi =>
      rw [hg.eintr (.inr hpc)] at hi
      cases hi
  · cases h
    exact going_ite ⟨⟨id, nofun⟩, nofun⟩ ⟨⟨id, nofun⟩, nofun⟩
  · cases h
    exact going_ite ⟨⟨id, nofun⟩, nofun⟩ ⟨⟨id, nofun⟩, nofun⟩
  · cases h
  · obtain ⟨_, h⟩ := Option.ite_none_left_eq_some.mp h
    cases h
    exact going_past ⟨id, nofun⟩ nofun
  · cases h
    exact going_ite ⟨⟨id, nofun⟩, nofun⟩ ⟨⟨id, nofun⟩, nofun⟩
  · cases h
    exact going_past ⟨id, nofun⟩ nofun
  · cases h
    exact going_ite ⟨⟨id, nofun⟩, nofun⟩ ⟨⟨id, nofun⟩, nofun⟩
  · cases h
    exact going_past ⟨id, nofun⟩ nofun
  · obtain ⟨_, h⟩ := Option.ite_none_left_eq_some.mp h
    cases h
    exact going_past ⟨id, nofun⟩ nofun
  · cases h

theorem going_line (l : Option Bytes) : Going (m.line env l) := by
  cases l with
  | none => exact going_past ⟨id, nofun⟩ nofun
  | some l =>
    unfold ClientMain.line
    dsimp only
    split <;> exact going_past ⟨id, nofun⟩ nofun

theorem going_step (hg : Going m) (hP : InTime env m a) (h : m.step env a = some m') :
    Going m' := by
  cases a with
  | main => exact going_main hg h
  | login stdin =>
    obtain ⟨hpc, h⟩ := Option.ite_none_right_eq_some.mp h
    cases h
    exact going_login hg hpc hP
  | line l =>
    obtain ⟨_, h⟩ := Option.ite_none_right_eq_some.mp h
    cases h
    exact going_line l
  | timeout =>
    rw [ClientMain.step] at h
    split at h
    · cases h
      exact going_past ⟨id, nofun⟩ nofun
    · cases h
  | signal k =>
    obtain ⟨_, h⟩ := Option.ite_none_left_eq_some.mp h
    cases h
    exact going_event hg rfl rfl id (Nat.le_refl _) (Nat.le_refl _) (.inl (insert_ne_nil _ _))
  | deliver k =>
    obtain ⟨_, h⟩ := Option.ite_none_right_eq_some.mp h
    cases h
    exact going_handle hP
  | receive data =>
    obtain ⟨_, h⟩ := Option.ite_none_right_eq_some.mp h
    cases h
    exact going_receive hg data
  | disconnected =>
    obtain ⟨_, h⟩ := Option.ite_none_right_eq_some.mp h
    cases h
    exact going_event hg rfl rfl (fun _ => rfl) (Nat.le_refl _) (Nat.le_refl _)
      (.inl (insert_ne_nil _ _))

theorem going_init : Going .init where
  eintr h := by rcases h with h | h <;> cases h
  going h := by rcases h with h | h <;> cases h

end ClientShutdownLemmas
open ClientShutdownLemmas

/-! ## 2. What leads into a wait that nothing ends -/

/-- The main thread alone, without a packet and without a signal, gets stuck. -/
def GetsStuck (env : ClientEnv) (m : ClientMain) : Prop :=
  ∃ acts m', (∀ a ∈ acts, a.ofMain = true) ∧ run (ClientMain.step env) m acts = some m' ∧ m'.Stuck

namespace ClientShutdownLemmas

variable {env : ClientEnv} {m m' : ClientMain} {a : MainAction}

theorem getsStuck_of_step (ha : a.ofMain = true) (h : m.step env a = some m')
    (hs : GetsStuck env m') : GetsStuck env m := by
  obtain ⟨acts, m'', hof, hr, hs⟩ := hs
  refine ⟨a :: acts, m'', ?_, run_cons.mpr ⟨m', h, hr⟩, hs⟩
  exact List.forall_mem_cons.mpr ⟨ha, hof⟩

theorem getsStuck_of_stuck (hs : m.Stuck) : GetsStuck env m := ⟨[], m, nofun, rfl, hs⟩

/-- The wait for `auth_done` without a signal, a post or a purpose. -/
theorem getsStuck_authCall (hpc : m.pc = .authWait .call) (hp : m.pending = [])
    (ha : m.client.session.authDone = 0) (hd : m.Doomed) : GetsStuck env m := by
  have h : m.step env .main = some { m with
      client := m.client.modify fun x => { x with authDone := m.client.session.authDone }
      pc := .authWait .blocked } := by
    rw [ClientMain.step, ClientMain.mainStep, hpc]
    simp [WaitPc.next, ha]
  exact getsStuck_of_step rfl h (getsStuck_of_stuck ⟨.inr ⟨rfl, ha⟩, hp, hd⟩)

theorem getsStuck_login (hpc : m.pc = .login) (hp : m.pending = [])
    (ha : m.client.session.authDone = 0) (hi : m.client.interrupted = true) : GetsStuck env m := by
  obtain ⟨_, ha', hi'⟩ := sqmpLogin_posts env m.client []
  have h : m.step env (.login []) = some (m.login env []) := if_pos hpc
  exact getsStuck_of_step rfl h
    (getsStuck_authCall rfl hp (ha'.trans ha) (.inl (hi'.trans hi)))

theorem getsStuck_loginTest (hpc : m.pc = .loginTest) (hp : m.pending = [])
    (ha : m.client.session.authDone = 0) (hi : m.client.interrupted = true) : GetsStuck env m := by
  have h : m.step env .main = some { m with pc := .authWait .call } := by
    rw [ClientMain.step, ClientMain.mainStep, hpc]
    simp [hi]
  exact getsStuck_of_step rfl h (getsStuck_authCall rfl hp ha (.inl hi))

/-- A first wait that a signal has ended. -/
theorem getsStuck_loginEintr (hpc : m.pc = .loginWait .eintr) (hp : m.pending = [])
    (ha : m.client.session.authDone = 0) (hi : m.client.interrupted = true) : GetsStuck env m := by
  have h : m.step env .main = some { m with
      client := m.client.modify fun x => { x with loginReady := m.client.session.loginReady }
      pc := .loginTest } := by
    rw [ClientMain.step, ClientMain.mainStep, hpc]
    simp [WaitPc.next, hi]
  exact getsStuck_of_step rfl h (getsStuck_loginTest rfl hp ha hi)

/-- A wait ahead that is not posted. -/
theorem getsStuck_loginCall (hpc : m.pc = .loginWait .call) (hp : m.pending = [])
    (ha : 0 < m.client.session.loginReady → m.client.session.authDone = 0)
    (hi : m.client.interrupted = true) : GetsStuck env m := by
  by_cases hl : m.client.session.loginReady = 0
  · have h : m.step env .main = some { m with
        client := m.client.modify fun x => { x with loginReady := m.client.session.loginReady }
        pc := .loginWait .blocked } := by
      rw [ClientMain.step, ClientMain.mainStep, hpc]
      simp [WaitPc.next, hl]
    exact getsStuck_of_step rfl h (getsStuck_of_stuck ⟨.inl ⟨rfl, hl⟩, hp, .inl hi⟩)
  · have h : m.step env .main = some { m with
        client := m.client.modify fun x => { x with loginReady := m.client.session.loginReady - 1 }
        pc := .loginTest } := by
      rw [ClientMain.step, ClientMain.mainStep, hpc]
      simp [WaitPc.next, hl]
    exact getsStuck_of_step rfl h (getsStuck_loginTest rfl hp (ha (Nat.pos_of_ne_zero hl)) hi)

theorem getsStuck_hello (hpc : m.pc = .hello) (hp : m.pending = [])
    (ha : 0 < m.client.session.loginReady → m.client.session.authDone = 0)
    (hi : m.client.interrupted = true) : GetsStuck env m := by
  have h : m.step env .main = some { m with
      client := m.client.sqmpStreamSend env Client.helloPacket
      pc := .loginWait .call } := by
    rw [ClientMain.step, ClientMain.mainStep, hpc]
  exact getsStuck_of_step rfl h (getsStuck_loginCall rfl hp ha hi)

/-- A signal that is handled too early. -/
theorem getsStuck_handle {k : MainSignal} (hP : ¬ InTime env m (.deliver k)) :
    GetsStuck env (m.handle k) := by
  obtain ⟨hp, hP⟩ := not_or.mp hP
  obtain ⟨hpc, hw⟩ := not_or.mp hP
  rw [not_not] at hp hpc
  have ha : ∀ {pc}, m.pc = pc → ¬ pc.BeforeLoginWait → m.client.session.authDone = 0 := by
    rintro pc rfl hb
    by_contra h
    exact hw ⟨Nat.pos_of_ne_zero h, fun hb' => absurd hb' hb⟩
  have hl : 0 < m.client.session.loginReady → m.client.session.authDone = 0 := fun hl => by
    by_contra h
    exact hw ⟨Nat.pos_of_ne_zero h, fun _ => hl⟩
  have hint : ∀ {pc}, m.pc = pc → (m.handle k).pc = pc.interrupt := by
    rintro pc rfl
    rfl
  cases h : m.pc with
  | hello => exact getsStuck_hello (hint h) hp hl rfl
  | loginWait w =>
    cases w with
    | call => exact getsStuck_loginCall (hint h) hp hl rfl
    | blocked | eintr => exact getsStuck_loginEintr (hint h) hp (ha h id) rfl
  | loginTest => exact getsStuck_loginTest (hint h) hp (ha h id) rfl
  | login => exact getsStuck_login (hint h) hp (ha h id) rfl
  | authWait w =>
    rw [h] at hpc
    cases w with
    | call => exact getsStuck_authCall (hint h) hp (ha h id) (.inl rfl)
    | blocked | eintr => exact hpc.elim
  | _ =>
    rw [h] at hpc
    exact hpc.elim

/-- A login that fails and leaves nothing to wait for. -/
theorem getsStuck_failedLogin {stdin : Bytes} (hP : ¬ InTime env m (.login stdin)) :
    GetsStuck env (m.login env stdin) := by
  obtain ⟨hfail, hP⟩ := not_or.mp hP
  obtain ⟨hp, ha⟩ := not_or.mp hP
  obtain ⟨_, ha', _⟩ := sqmpLogin_posts env m.client stdin
  exact getsStuck_authCall rfl (not_not.mp hp) (ha'.trans (Nat.eq_zero_of_not_pos ha))
    (.inr (decide_eq_true hfail))

end ClientShutdownLemmas
open ClientShutdownLemmas

/-- The main thread is not stuck in any state of a run whose signals and failing logins come in
time; behind one that does not, it gets stuck by its own steps. -/
theorem not_stuck {env : ClientEnv} {acts : List MainAction} {m : ClientMain}
    (hP : Along (ClientMain.step env) (InTime env) .init acts)
    (hr : run (ClientMain.step env) .init acts = some m) :
    ¬ m.Stuck ∧ ∀ a m', m.step env a = some m' → ¬ InTime env m a → GetsStuck env m' := by
  have hg : Going m := run_invariant (fun _ _ _ hg hP h => going_step hg hP h) going_init hP hr
  refine ⟨going_not_stuck hg, fun a m' h hP => ?_⟩
  cases a with
  | deliver k =>
    obtain ⟨_, h⟩ := Option.ite_none_right_eq_some.mp h
    cases h
    exact getsStuck_handle hP
  | login stdin =>
    obtain ⟨_, h⟩ := Option.ite_none_right_eq_some.mp h
    cases h
    exact getsStuck_failedLogin hP
  | _ => exact absurd trivial hP

/-- Every key pair is zero. -/
def zeroKeys : ClientEnv := .fair { OpenSSL.failing with keygen := fun _ => some (Buf.zero 32) }

/-- Ctrl+C while the client waits for its AUTH_RESP. -/
def interruptedAuth : List MainAction :=
  [.main, .receive (Packet.mk 7 (.helloAck ⟨1, 0⟩)).bytes, .main, .main,
    .login [97, newline, 98, newline], .main, .signal .interrupt, .deliver .interrupt, .main, .main]

theorem not_stuck_interruptedAuth : ∃ m, run (ClientMain.step zeroKeys) .init interruptedAuth =
    some m ∧ m.pc = .aliveTest ∧ ¬ m.Stuck := by
  obtain ⟨m, hr, hpc⟩ : ∃ m, run (ClientMain.step zeroKeys) .init interruptedAuth = some m ∧
    m.pc = .aliveTest := ⟨_, rfl, rfl⟩
  exact ⟨m, hr, hpc, (not_stuck (by decide) hr).1⟩

/-- Ctrl+C during the first wait: the second one has nothing to end it. -/
theorem interrupted_login_stuck : ∃ env acts m, run (ClientMain.step env) .init acts = some m ∧
    m.pc = .authWait .blocked ∧ m.client.interrupted = true ∧ m.Stuck := by
  refine ⟨zeroKeys, [.main, .main, .signal .interrupt, .deliver .interrupt, .main, .main, .main], _,
    rfl, rfl, rfl, ?_⟩
  decide

end SquimpChat
