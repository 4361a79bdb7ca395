import SquimpChat.Ownership

/-!
# Name lengths

An AUTH_REQ announces the length of its name in a byte, and no function compares
it with the 32 bytes that every name field has. The length goes from the session's
staged fields to the worker's buffer, to the registry and the session, and from
there into CHAT_DELIVER and KEY_RESP.

Results:
1. `namesFit_run`: as long as no accepted AUTH_REQ announces more than 32 bytes,
   every length kept anywhere is at most 32, and so is every copy of a name.
2. `name_overflow`: one AUTH_REQ that announces 255 bytes breaks this.
-/

namespace SquimpChat
open Octets

variable {env : Env} {σ σ' : Server} {a : Action}

/-- No AUTH_REQ that the handler accepts announces a name longer than its field. -/
def ShortName (σ : Server) (a : Action) : Prop :=
  ∀ p ∈ authReqOn σ a, ∀ n ∈ (Pkt.authReqUsernameLen p.2).toOption, n.toNat ≤ 32

instance : Decidable (ShortName σ a) := inferInstanceAs (Decidable (∀ _ ∈ _, _))

def Session.Fits (x : Session) : Prop :=
  x.authUsernameLen.toNat ≤ 32 ∧ x.usernameLen.toNat ≤ 32

def CopiesFit (tr : List Event) : Prop := ∀ field n, .copied field n ∈ tr → n ≤ 32

/-- Every kept name length is at most 32 and every copy of a name stays in its field. -/
structure NamesFit (σ : Server) : Prop where
  session : ∀ s, (σ.session s).Fits
  entry : ∀ e ∈ σ.registry.used, e.usernameLen.toNat ≤ 32
  copied : CopiesFit σ.trace

/-! ## 1. The invariant -/

namespace NameLengthLemmas

theorem fits_update {session : SessionId → Session} (hs : ∀ s, (session s).Fits) {s : SessionId}
    {x : Session} (hx : x.Fits) (s' : SessionId) : (Function.update session s x s').Fits := by
  rw [Function.update_apply]
  split
  · exact hx
  · exact hs s'

theorem copiesFit_append {es tr : List Event} (hes : CopiesFit es) (htr : CopiesFit tr) :
    CopiesFit (es ++ tr) :=
  fun field n h => (List.mem_append.mp h).elim (hes field n) (htr field n)

end NameLengthLemmas
open NameLengthLemmas

namespace NamesFit

theorem init : NamesFit .init where
  session _ := ⟨Nat.zero_le _, Nat.zero_le _⟩
  entry _ h := by simp [Server.init] at h
  copied _ _ h := nomatch h

/-- An accepted AUTH_REQ stages a short name. -/
theorem short {s : SessionId} {data : Bytes} {f : AuthFields} (hp : ShortName σ a)
    (hon : authReqOn σ a = some (s, data)) (hf : readAuthReq data = .ok f) :
    f.usernameLen.toNat ≤ 32 := by
  refine hp (s, data) hon f.usernameLen ?_
  rw [(StepLemmas.readAuthReq_ok hf).1]
  rfl

theorem answer (hn : NamesFit σ) {st : StreamId} {s : SessionId} {R : StreamId → Prop}
    {field : NameField} {n : Nat} (h : Answer σ st s R (.copied field n)) : n ≤ 32 := by
  cases h with
  | sender => exact (hn.session s).2
  | respName he => exact hn.entry _ he

theorem callback (hn : NamesFit σ) (hp : ShortName σ a) (h : CallbackStep env σ a σ') :
    NamesFit σ' := by
  have hcopied : CopiesFit σ'.trace := by
    obtain ⟨es, htr, hes⟩ := callback_events h
    rw [htr]
    refine copiesFit_append (fun field n he => ?_) hn.copied
    generalize hc : Event.copied field n = e at he
    cases hes e he with
    | sender =>
      cases hc
      exact (hn.session _).2
    | respName hu =>
      cases hc
      exact hn.entry _ hu
    | authCopied hon hf =>
      cases hc
      exact short hp hon hf
    | freed => split at hc <;> cases hc
    | _ => cases hc
  cases h with
  | connected _ => exact ⟨fits_update hn.session (init.session 0), hn.entry, hcopied⟩
  | hello | streamClosed | left =>
    exact ⟨fits_update hn.session (hn.session _), hn.entry, hcopied⟩
  | authReq hr hs hst hon hf hes =>
    exact ⟨fits_update hn.session ⟨short hp hon hf, (hn.session _).2⟩, hn.entry, hcopied⟩
  | bye hr hs hst =>
    exact ⟨fits_update hn.session (hn.session _), fun e he => hn.entry e (used_remove_subset he),
      hcopied⟩
  | freed h hs hes =>
    exact ⟨hn.session, fun e he => hn.entry e (registryWithout_subset he), hcopied⟩
  | _ => exact ⟨hn.session, hn.entry, hcopied⟩

theorem main (hn : NamesFit σ) (h : MainStep env σ a σ') : NamesFit σ' := by
  have hcopied : CopiesFit σ'.trace := by
    obtain ⟨es, htr, hes⟩ := main_events h
    rw [htr]
    refine copiesFit_append (fun field n he => ?_) hn.copied
    generalize hc : Event.copied field n = e at he
    cases hes e he with
    | @copied s =>
      cases hc
      exact (hn.session s).1
    | freed => split at hc <;> cases hc
    | _ => cases hc
  cases h
  case clear s hpc => exact ⟨fits_update hn.session (hn.session s), hn.entry, hcopied⟩
  case establish s hpc =>
    exact ⟨fits_update hn.session ⟨(hn.session s).1, (hn.session s).1⟩, hn.entry, hcopied⟩
  case added s st r hpc hr =>
    obtain ⟨e', _, hlen, _, _, hused⟩ := mem_used_add hr
    refine ⟨hn.session, fun e he => ?_, hcopied⟩
    rcases (hused e).mp he with he | rfl
    · exact hn.entry e he
    · rw [hlen]
      exact (hn.session s).1
  all_goals exact ⟨hn.session, hn.entry, hcopied⟩

end NamesFit

/-- While the accepted AUTH_REQs announce short names, all lengths and copies fit. -/
theorem namesFit_run {acts : List Action} (hP : RunMeets env ShortName acts)
    (h : serverRun env acts = some σ) : NamesFit σ :=
  run_induction .init (fun _ _ _ _ _ hn hp hs =>
    (step_cases hs).elim (hn.callback hp) hn.main) hP h

/-- A login under a name of three bytes. -/
def shortLogin : List Action :=
  greet 0 ++ .received 0 abcReq :: List.replicate 8 .worker

theorem namesFit_shortLogin : ∃ σ, serverRun (.fair none) shortLogin = some σ ∧ NamesFit σ := by
  obtain ⟨σ, hr, _⟩ := serverRun_reaches (.fair none) shortLogin (fun _ => True) (by decide +kernel)
  exact ⟨σ, hr, namesFit_run (by decide +kernel) hr⟩

/-! ## 2. A long name -/

/-- The AUTH_REQ announces 255 bytes; its struct is complete and the bytes are there. -/
def longLogin : List Action :=
  greet 0 ++ [.received 0 (authReqBytes 255 [] (List.replicate 200 0))]

theorem name_overflow : ∃ env acts σ,
    (∀ a ∈ acts, ∀ data ∈ a.packet, StructComplete data) ∧
      serverRun env acts = some σ ∧ ¬ NamesFit σ := by
  obtain ⟨σ, hr, hc⟩ := serverRun_reaches (.fair none) longLogin
    (fun σ => .copied .authUsername 255 ∈ σ.trace) (by decide +kernel)
  refine ⟨.fair none, longLogin, σ, by decide +kernel, hr, fun hn => ?_⟩
  exact absurd (hn.copied _ _ hc) (by decide)

end SquimpChat
