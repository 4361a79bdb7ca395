import SquimpChat.Ownership

/-!
# Stream lifetime

The registry, a suspended CHAT_SEND and the worker hold pointers to streams of
connections whose callbacks run meanwhile. `on_stream_closed` clears only the session's
`auth_stream`; the wrapper frees the stream right behind it.

Results:
1. `streamsLive_run`: in every run in which a stream is closed only when nobody holds
   it, the registered streams are open and every packet is sent on an open stream.
2. `bye_on_closed_stream`: a client that closes its stream without a BYE makes the
   server send on freed memory.
-/

namespace SquimpChat
open Octets

variable {env : Env} {σ σ' : Server} {a : Action}

/-- The stream the worker has loaded. -/
def WorkerPc.stream : WorkerPc → Option StreamId
  | loaded _ st => st
  | responding _ st _ => some st
  | _ => none

/-- An in-use entry, a CHAT_SEND behind its lookup or the worker holds the stream. -/
def Held (σ : Server) (st : StreamId) : Prop :=
  σ.registry.HasStream st ∨ (∃ p ∈ σ.chats, p.recipient = st) ∨ σ.pc.stream = some st

instance (r : Registry) (st : StreamId) : Decidable (r.HasStream st) :=
  inferInstanceAs (Decidable (∃ _ ∈ _, _))

instance (σ : Server) (st : StreamId) : Decidable (Held σ st) :=
  inferInstanceAs (Decidable (_ ∨ _ ∨ _))

/-- Only a stream that nobody holds is closed. -/
def ClosesUnheld (σ : Server) : Action → Prop
  | .streamClosed st => ¬ Held σ st
  | _ => True

instance : ∀ a, Decidable (ClosesUnheld σ a)
  | .streamClosed st => inferInstanceAs (Decidable (¬ Held σ st))
  | .connected _ | .streamOpened .. | .received .. | .chatLookup .. | .chatForward _
  | .disconnected _ | .disconnectLoad _ | .disconnectRest _ | .worker | .interrupted
  | .signal => isTrue trivial

structure StreamsLive (σ : Server) : Prop where
  entry : ∀ st, σ.registry.HasStream st → (σ.stream st).life = .live
  sent : ∀ st p live ok, .sent st p live ok ∈ σ.trace → live = true

/-! ## 1. The invariant -/

namespace StreamLifetimeLemmas

variable {st : StreamId}

theorem hasStream_remove {r : Registry} {uname : Buf 32} {ulen : UInt8}
    (h : (sqmpRegistryRemove r uname ulen).HasStream st) : r.HasStream st := by
  obtain ⟨e, he, hst⟩ := h
  exact ⟨e, used_remove_subset he, hst⟩

theorem hasStream_without {s : SessionId} (h : (registryWithout σ s).HasStream st) :
    σ.registry.HasStream st := by
  obtain ⟨e, he, hst⟩ := h
  exact ⟨e, registryWithout_subset he, hst⟩

/-- Callbacks take streams from the registry only. -/
theorem held_callback (h : CallbackStep env σ a σ') (hst : Held σ' st) : Held σ st := by
  cases h with
  | bye => exact hst.imp_left hasStream_remove
  | freed => exact hst.imp_left hasStream_without
  | chatLookup hr hs hest he =>
    rcases hst with h | ⟨p, hp, rfl⟩ | h
    · exact .inl h
    · rcases List.mem_cons.mp hp with rfl | hp
      · exact .inl he.hasStream
      · exact .inr (.inl ⟨p, hp, rfl⟩)
    · exact .inr (.inr h)
  | chatForward hp hes =>
    rcases hst with h | ⟨p, hp, rfl⟩ | h
    · exact .inl h
    · exact .inr (.inl ⟨p, (List.mem_filter.mp hp).1, rfl⟩)
    · exact .inr (.inr h)
  | _ => exact hst

/-- The worker loads its stream from the session it has. -/
theorem loaded_main (h : MainStep env σ a σ') (hst : σ'.pc.stream = some st) : σ'.pc = σ.pc ∨
    ∃ s, σ.pc.pending = some s ∧ σ'.pc.pending = some s ∧ (σ.session s).authStream = some st := by
  have none : ∀ pc : WorkerPc, pc.stream = none → pc.stream ≠ some st := by
    intro pc hn h
    rw [hn] at h
    cases h
  cases h
  case load s hpc => exact .inr ⟨s, by rw [hpc]; rfl, rfl, hst⟩
  case stream s ok st' hpc hs => exact .inr ⟨s, by rw [hpc]; rfl, rfl, hs.trans hst⟩
  case signal => exact .inl rfl
  case test => exact absurd hst (none (loopTest σ) (loopTest_cases _ rfl rfl))
  case unlinkNull | verify => exact absurd hst (none _ (by split <;> rfl))
  case ending pc _ hpc' _ =>
    exact absurd hst (none pc (by cases pc <;> first | rfl | cases hpc'))
  all_goals exact absurd hst (none _ rfl)

/-- The worker takes streams from sessions and passes them to the registry. -/
theorem held_main (h : MainStep env σ a σ') (hst : Held σ' st) :
    Held σ st ∨ ∃ s, (σ.session s).authStream = some st := by
  rcases hst with hst | hst | hst
  · cases h
    case added s o r hp hr =>
      obtain ⟨e', _, _, hstream, _, hused⟩ := mem_used_add hr
      obtain ⟨e, he, hs⟩ := hst
      rcases (hused e).mp he with he | rfl
      · exact .inl (.inl ⟨e, he, hs⟩)
      · refine .inl (.inr (.inr ?_))
        rw [hp, ← hs, hstream]
        rfl
    all_goals exact .inl (.inl hst)
  · cases h <;> exact .inl (.inr (.inl hst))
  · rcases loaded_main h hst with hpc | ⟨s, _, _, hs⟩
    · exact .inl (.inr (.inr (hpc ▸ hst)))
    · exact .inr ⟨s, hs⟩

/-- A stream stays open until its own SHUTDOWN_COMPLETE. -/
theorem live_callback (h : CallbackStep env σ a σ') (hl : (σ.stream st).life = .live)
    (ha : a ≠ .streamClosed st) : (σ'.stream st).life = .live := by
  have hne : ∀ {st'}, a = .streamClosed st' → st ≠ st' := fun h heq => ha (heq ▸ h)
  cases h with
  | @streamOpened c st' hc hst =>
    simp only [onStreamOpen, Function.update_apply]
    split
    · rfl
    · exact hl
  | streamClosed =>
    simp only [Function.update_of_ne (hne rfl)]
    exact hl
  | streamClosedNull =>
    simp only [Function.update_of_ne (hne rfl)]
    exact hl
  | _ => exact hl

theorem stream_main (h : MainStep env σ a σ') : σ'.stream = σ.stream := by
  cases h <;> rfl

end StreamLifetimeLemmas
open StreamLifetimeLemmas

/-- Every held stream is open, and so was every stream a packet was sent on. -/
structure StreamInv (σ : Server) : Prop where
  held : ∀ st, Held σ st → (σ.stream st).life = .live
  sent : ∀ st p live ok, .sent st p live ok ∈ σ.trace → live = true

namespace StreamInv

theorem init : StreamInv .init where
  held st h := by
    rcases h with ⟨e, he, _⟩ | ⟨p, hp, _⟩ | h
    · simp [Server.init] at he
    · cases hp
    · cases h
  sent _ _ _ _ h := nomatch h

theorem callback (hi : StreamInv σ) (hw : Wf σ) (hp : ClosesUnheld σ a)
    (h : CallbackStep env σ a σ') : StreamInv σ' where
  held st hst := by
    have hheld := held_callback h hst
    refine live_callback h (hi.held st hheld) ?_
    rintro rfl
    exact hp hheld
  sent st p live ok hmem := by
    rcases callback_mem h hmem with he | he
    · obtain ⟨rfl, hsent⟩ := callback_packet he
      refine OwnershipLemmas.isLive_iff.mpr ?_
      cases hsent with
      | reply hst _ | helloAck hst _ => exact hw.own_live hst
      | deliver hst _ => exact hi.held st (hst.imp Addresses.hasStream .inl)
    · exact hi.sent st p live ok he

theorem main (hi : StreamInv σ) (hw : Wf σ) (h : MainStep env σ a σ') : StreamInv σ' where
  held st hst := by
    rw [stream_main h]
    rcases held_main h hst with hst | ⟨s, hs⟩
    · exact hi.held st hst
    · exact (hw.authStream s st hs).1
  sent st p live ok hmem := by
    rcases main_mem h hmem with he | he
    · obtain ⟨rfl, hsent⟩ := main_packet he
      refine OwnershipLemmas.isLive_iff.mpr (hi.held st ?_)
      cases hsent with
      | authResp hpc _ => exact .inr (.inr (by rw [hpc]; rfl))
      | bye hst _ => exact .inl hst
    · exact hi.sent st p live ok he

end StreamInv

/-- While only unheld streams are closed, no registered stream is closed and no packet
is sent on a closed stream. -/
theorem streamsLive_run {acts : List Action} (hP : RunMeets env ClosesUnheld acts)
    (h : serverRun env acts = some σ) : StreamsLive σ := by
  have hi : StreamInv σ := run_induction .init (fun _ _ _ hw _ hi hp hs =>
    (step_cases hs).elim (hi.callback hw hp) (hi.main hw)) hP h
  exact ⟨fun st hst => hi.held st (.inl hst), hi.sent⟩

/-! ## 2. Concrete runs -/

/-- `abc` logs in, logs out with a BYE and closes its stream. -/
def byeThenClose : List Action := abcLogin ++ [.received 0 byeBytes, .streamClosed 0, .disconnected 0]

theorem streamsLive_byeThenClose :
    ∃ σ, serverRun (.fair abcUsers) byeThenClose = some σ ∧ StreamsLive σ := by
  obtain ⟨σ, hr, _⟩ := serverRun_reaches (.fair abcUsers) byeThenClose (fun _ => True)
    (by decide +kernel)
  exact ⟨σ, hr, streamsLive_run (by decide +kernel) hr⟩

/-- `abc` logs in and closes its stream; before the connection is gone the server is
stopped and says goodbye to the registered users. -/
def closeThenStop : List Action := abcLogin ++ [.streamClosed 0, .signal, .worker, .worker]

theorem bye_on_closed_stream : ∃ env acts σ, serverRun env acts = some σ ∧
    .sent 0 ⟨0, .bye⟩ false true ∈ σ.trace ∧ ¬ StreamsLive σ := by
  obtain ⟨σ, hr, hs⟩ := serverRun_reaches (.fair abcUsers) closeThenStop
    (fun σ => .sent 0 ⟨0, .bye⟩ false true ∈ σ.trace) (by decide +kernel)
  exact ⟨.fair abcUsers, closeThenStop, σ, hr, hs, fun h => Bool.false_ne_true (h.sent _ _ _ _ hs)⟩

end SquimpChat
