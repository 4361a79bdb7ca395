import Mathlib.Data.List.Destutter
import SquimpChat.Logins

/-!
# The order of session states

HELLO → AUTH → CONN_ESTABLISHED → CLOSING. The handlers look at the state before they
change it, but the worker stores CONN_ESTABLISHED without a look at what is there. It does so for
a session it has taken from the auth queue, and a session that waits there a second time
may have been established and have said BYE in between.

Results:
1. `statesForward_run`: the states of every session come in order, each at most once, in
   every run in which no session says BYE while it waits in the auth queue.
2. `established_again`: two AUTH_REQs and a BYE between their two iterations.
-/

namespace SquimpChat
open Octets Transition

variable {env : Env} {σ σ' : Server} {a : Action} {acts : List Action}

/-- The states that may follow a state, in their order. -/
def SessionState.path : SessionState → List SessionState
  | hello => [hello, auth, connEstablished, closing]
  | auth => [auth, connEstablished, closing]
  | connEstablished => [connEstablished, closing]
  | closing => [closing]
  | closed => [closed]

/-- The state stays, or the next one on its path follows. -/
def SessionState.Advances (x y : SessionState) : Prop := x = y ∨ x.path = x :: y.path

/-- The states of a session in a run, repetitions left out. -/
def stateHistory (env : Env) (acts : List Action) (s : SessionId) : List SessionState :=
  ((trail (atomicStep env) .init acts).map fun σ => (σ.session s).state).destutter (· ≠ ·)

/-- An established session says BYE only when the auth queue does not lead to it. -/
def ByeOffQueue (σ : Server) (a : Action) : Prop :=
  ∀ s ∈ byeOn σ a, (σ.session s).state = .connEstablished → ¬ σ.queue.Reaches s

/-! ## 1. Steps -/

/-- The sessions in the queue are in AUTH, or were and have been established since. -/
structure InOrder (σ : Server) : Prop where
  queued : ∀ s, σ.queue.Reaches s →
    (σ.session s).state = .auth ∨ (σ.session s).state = .connEstablished
  unused : ∀ s, σ.life s = .unallocated → (σ.session s).state = .hello

namespace InOrder

variable {s : SessionId}

theorem init : InOrder .init :=
  ⟨fun _ h => absurd h (Intrusive.not_reaches_of_head rfl), fun _ _ => rfl⟩

theorem known (hb : Between σ) (h : σ.queue.Reaches s) : σ.life s ≠ .unallocated :=
  hb.known s (.inr h.mentions)

/-- One session moves to the next state, and it is not on the queue behind that unless it is
in AUTH or established. -/
theorem moved (ho : InOrder σ) {x : Session} {registry : Registry} {opened : SessionId → Prop}
    (h : Moves σ σ' (Function.update σ.session s x) σ.life registry opened)
    (hx : (σ.session s).state.Advances x.state) (hl : σ.life s ≠ .unallocated)
    (hq : σ.queue.Reaches s → x.state = .auth ∨ x.state = .connEstablished) :
    InOrder σ' ∧ ∀ t, (σ.session t).state.Advances (σ'.session t).state := by
  refine ⟨⟨fun t ht => ?_, fun t ht => ?_⟩, fun t => ?_⟩
  · rw [h.queue] at ht
    rw [h.state]
    rcases eq_or_ne t s with rfl | hne
    · rw [Function.update_self]
      exact hq ht
    · rw [Function.update_of_ne hne]
      exact ho.queued t ht
  · rw [h.life] at ht
    rw [h.state]
    rcases eq_or_ne t s with rfl | hne
    · exact absurd ht hl
    · rw [Function.update_of_ne hne]
      exact ho.unused t ht
  · rw [h.state]
    rcases eq_or_ne t s with rfl | hne
    · rw [Function.update_self]
      exact hx
    · rw [Function.update_of_ne hne]
      exact .inl rfl

/-- No session changes its state, and the queue leads to no other sessions. -/
theorem kept (ho : InOrder σ) (hst : ∀ s, (σ'.session s).state = (σ.session s).state)
    (hq : ∀ s, σ'.queue.Reaches s → σ.queue.Reaches s)
    (hl : ∀ s, σ'.life s = .unallocated → σ.life s = .unallocated) :
    InOrder σ' ∧ ∀ t, (σ.session t).state.Advances (σ'.session t).state := by
  refine ⟨⟨fun s hs => ?_, fun s hs => ?_⟩, fun t => .inl (hst t).symm⟩
  · rw [hst]
    exact ho.queued s (hq s hs)
  · rw [hst]
    exact ho.unused s (hl s hs)

theorem change (ho : InOrder σ) (hb : Between σ) (hbye : ByeOffQueue σ a) (h : Change σ a σ') :
    InOrder σ' ∧ ∀ t, (σ.session t).state.Advances (σ'.session t).state := by
  have allocated : ∀ {s}, Open σ s → σ.life s ≠ .unallocated := fun ho => (hb.wf.user _ _ ho.2).2
  cases h with
  | kept h =>
    exact ho.kept h.state (fun s => by rw [h.queue]; exact id) fun s => by rw [h.life]; exact id
  | @connected c hl h =>
    have hfresh := ho.unused c hl
    have hst : ∀ s, (σ'.session s).state = (σ.session s).state := by
      intro s
      rw [h.state]
      rcases eq_or_ne s c with rfl | hne
      · rw [Function.update_self, hfresh]
        rfl
      · rw [Function.update_of_ne hne]
    refine ho.kept hst (fun s => by rw [h.queue]; exact id) fun s hs => ?_
    rw [h.life] at hs
    rcases eq_or_ne s c with rfl | hne
    · exact hl
    · rwa [Function.update_of_ne hne] at hs
  | hello hopen hst h =>
    exact ho.moved h (by rw [hst]; exact .inr rfl) (allocated hopen) fun _ => .inl rfl
  | @bye s hon hopen hst h =>
    -- a session that is still queued would be established again behind its BYE
    refine ho.moved h (by rw [hst]; exact .inr rfl) (allocated hopen) fun hq => ?_
    exact absurd hq (hbye s hon hst)
  | @left s ha hopen hq h =>
    exact ho.moved h (.inl rfl) (allocated hopen) (ho.queued s)
  | @freed s ha hopen hq h =>
    refine ho.kept h.state (fun s => by rw [h.queue]; exact id) fun t ht => ?_
    rw [h.life] at ht
    rcases eq_or_ne t s with rfl | hne
    · simp at ht
    · rwa [Function.update_of_ne hne] at ht

theorem iteration (ho : InOrder σ) (hb : Between σ) (h : Iteration env σ σ') :
    InOrder σ' ∧ ∀ t, (σ.session t).state.Advances (σ'.session t).state := by
  cases h with
  | empty hq => exact ho.kept (fun _ => rfl) (fun _ => id) fun _ => id
  | refused hq hc hn hes =>
    exact ho.kept (Server.update_proj Session.state rfl) (fun _ => Intrusive.reaches_dequeue)
      fun _ => id
  | @closed s es hq hc hes =>
    refine ho.kept (Server.update_proj Session.state rfl)
      (fun _ => Intrusive.reaches_dequeue) fun t ht => ?_
    have ht : Function.update σ.life s .freed t = .unallocated := ht
    rcases eq_or_ne t s with rfl | hne
    · simp at ht
    · rwa [Function.update_of_ne hne] at ht
  | @admitted s r es b hq hc hadd hes =>
    have hs := Intrusive.reaches_dequeued hq
    have hsession : ∀ t, t ≠ s → Function.update σ.session s
        { (σ.session s).establish with authQueued := false } t = σ.session t :=
      fun t hne => Function.update_of_ne hne _ _
    refine ⟨⟨fun t ht => ?_, fun t ht => ?_⟩, fun t => ?_⟩
    · rcases eq_or_ne t s with rfl | hne
      · exact .inr (by simp [iterated, Session.establish])
      · simp only [iterated, hsession t hne]
        exact ho.queued t (Intrusive.reaches_dequeue ht)
    · rcases eq_or_ne t s with rfl | hne
      · exact absurd (show σ.life t = .unallocated from ht) (known hb hs)
      · simp only [iterated, hsession t hne]
        exact ho.unused t ht
    · rcases eq_or_ne t s with rfl | hne
      · have hst : (Function.update σ.session t
            { (σ.session t).establish with authQueued := false } t).state = .connEstablished := by
          simp [Session.establish]
        simp only [iterated, hst]
        rcases ho.queued t hs with hauth | hest
        · rw [hauth]
          exact .inr rfl
        · exact .inl hest
      · simp only [iterated, hsession t hne]
        exact .inl rfl

theorem step (ho : InOrder σ) (hb : Between σ) (hbye : ByeOffQueue σ a)
    (h : atomicStep env σ a = some σ') :
    InOrder σ' ∧ ∀ t, (σ.session t).state.Advances (σ'.session t).state := by
  cases login_cases hb h with
  | change h => exact ho.change hb hbye h
  | iteration ha hpc hsem h => exact ho.iteration hb h
  | @authReq s f hopen hst h =>
    obtain ⟨st, es, _, _, _, rfl⟩ := h.state
    have hstate : ∀ t, ((acceptedState σ st s f es).session t).state = (σ.session t).state := by
      intro t
      rcases eq_or_ne t s with rfl | hne
      · simp [acceptedState, Session.stage]
      · simp [acceptedState, hne]
    refine ⟨⟨fun t ht => ?_, fun t ht => ?_⟩, fun t => .inl (hstate t).symm⟩
    · rw [hstate]
      rcases Intrusive.reaches_enqueue ht with rfl | ht
      · exact .inl hst
      · exact ho.queued t ht
    · rw [hstate]
      exact ho.unused t ht

end InOrder

/-! ## 2. Runs -/

/-- A list of states in which each advances to the next runs along the path of the first. -/
theorem destutter_prefix {x : SessionState} {l : List SessionState}
    (h : (x :: l).IsChain SessionState.Advances) : l.destutter' (· ≠ ·) x <+: x.path := by
  induction l generalizing x with
  | nil => cases x <;> decide
  | cons y l ih =>
    obtain ⟨hxy, hl⟩ := List.isChain_cons_cons.mp h
    by_cases hne : x = y
    · rw [List.destutter'_cons_neg _ (by simpa using hne)]
      subst hne
      exact ih hl
    · rw [List.destutter'_cons_pos _ hne, hxy.resolve_left hne]
      exact List.cons_prefix_cons.mpr ⟨rfl, ih hl⟩

/-- As long as sessions say BYE only when they are off the auth queue, the states of every
session come in order and each of them at most once. -/
theorem statesForward_run (hP : AtomicMeets env (fun σ a => ShortName σ a ∧ ByeOffQueue σ a) acts)
    (s : SessionId) : stateHistory env acts s <+: [.hello, .auth, .connEstablished, .closing] := by
  have hchain := trail_isChain (I := fun σ => Between σ ∧ InOrder σ)
    (R := fun σ σ' => (σ.session s).state.Advances (σ'.session s).state)
    (fun σ a σ' hi hp h => by
      obtain ⟨ho, hadv⟩ := hi.2.step hi.1 hp.2 h
      exact ⟨⟨hi.1.step h, ho⟩, hadv s⟩) ⟨.init, .init⟩ hP
  have hstates := (List.isChain_map fun σ : Server => (σ.session s).state).mpr hchain
  obtain ⟨l, hl⟩ : ∃ l, trail (atomicStep env) .init acts = .init :: l := by
    cases acts <;> exact ⟨_, rfl⟩
  unfold stateHistory
  rw [hl, List.map_cons] at hstates ⊢
  exact destutter_prefix hstates

/-! ## 3. Concrete runs -/

/-- `abc` logs in and says BYE. -/
def abcLeaves : List Action := abcSession ++ [.received 0 byeBytes]

theorem statesForward_abcLeaves :
    stateHistory (.fair abcUsers) abcLeaves 0 = [.hello, .auth, .connEstablished, .closing] ∧
      ∀ s, stateHistory (.fair abcUsers) abcLeaves s <+:
        [.hello, .auth, .connEstablished, .closing] := by
  have hP : AtomicMeets (.fair abcUsers) (fun σ a => ShortName σ a ∧
      ∀ s ∈ byeOn σ a, (σ.session s).state = .connEstablished → σ.queue.head = none) abcLeaves := by
    decide +kernel
  refine ⟨by decide +kernel, statesForward_run (Along.mono (fun σ a hp => ⟨hp.1, ?_⟩) hP)⟩
  exact fun s hs hst => Intrusive.not_reaches_of_head (hp.2 s hs hst)

/-- `abc` sends its AUTH_REQ twice, and says BYE between the two iterations. -/
def byeBetween : List Action :=
  greet 0 ++ [.received 0 abcReq, .received 0 abcReq, .worker, .worker, .received 0 byeBytes,
    .worker, .worker]

theorem established_again : ∃ env acts s, AtomicMeets env ShortName acts ∧
    (∀ a ∈ acts, ∀ data ∈ a.packet, StructComplete data) ∧
      stateHistory env acts s =
        [.hello, .auth, .connEstablished, .closing, .connEstablished] ∧
          ¬ stateHistory env acts s <+: [.hello, .auth, .connEstablished, .closing] := by
  have hhist : stateHistory (.fair abcUsers) byeBetween 0 =
      [.hello, .auth, .connEstablished, .closing, .connEstablished] := by decide +kernel
  refine ⟨.fair abcUsers, byeBetween, 0, by decide +kernel, by decide +kernel, hhist, ?_⟩
  rw [hhist]
  decide

end SquimpChat
