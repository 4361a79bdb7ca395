import SquimpChat.Session
import SquimpChat.Lib.Transition

/-!
# Connecting and disconnecting

The client's part of `msquic_wrapper.c`: one thread runs `sqmp_quic_connect` and then
`sqmp_quic_disconnect` on its result, and MsQuic calls `conn_cb` on a thread of its own. They
share `connected`, `connect_sem` and `closed_sem`. MsQuic delivers the events of a connection one
by one. The handler of CONNECTED is two steps, since the thread may read `connected` before the
post; the others write one shared field.

`conn_cb` posts `connect_sem` for CONNECTED and for a shutdown by the transport, but not for one
by the peer. A connection that ends without either leaves `sqmp_quic_connect` in its first wait.

Results:
1. `conn_sound_iff`: connecting and disconnecting come to their end, and free the connection once,
   exactly in the runs whose SHUTDOWN_COMPLETE has a CONNECTED or a transport shutdown before it.
2. `peer_shutdown_strands`: the peer gives up before CONNECTED.
-/

namespace SquimpChat
open Transition

/-- The events of `conn_cb` that concern the connection itself. -/
inductive ConnEvent
  | connected | shutdownInitiatedByTransport | shutdownInitiatedByPeer | shutdownComplete
deriving DecidableEq, Repr

/-- The calls that can end `sqmp_quic_connect` before its first wait. -/
inductive ConnectFailure
  | configurationOpen | configurationLoadCredential | calloc | connectionOpen | connectionStart
deriving DecidableEq, Repr

/-- How often `free(conn)` is called behind the failure. -/
def ConnectFailure.frees : ConnectFailure → Nat
  | .connectionOpen | .connectionStart => 1
  | .configurationOpen | .configurationLoadCredential | .calloc => 0

/-- Where the thread is. -/
inductive ConnectPc
  /-- before the calls of `sqmp_quic_connect` that can fail -/
  | opening
  /-- `sem_wait(&conn->connect_sem)` -/
  | waitConnect
  /-- `if (!conn->connected)` -/
  | testConnected
  /-- `sem_wait(&conn->closed_sem)` in `sqmp_quic_connect` -/
  | waitClosed
  /-- from `ConnectionClose` to the return of NULL -/
  | close
  /-- `sqmp_quic_connect` has returned -/
  | returned
  /-- `sem_wait(&conn->closed_sem)` in `sqmp_quic_disconnect` -/
  | disconnectWait
  /-- from `ConnectionClose` to the end of `sqmp_quic_disconnect` -/
  | disconnectClose
  | done
deriving DecidableEq, Repr

/-- What `sqmp_quic_connect` returns. -/
inductive ConnectResult
  | conn | null
deriving DecidableEq, Repr

/-- The `sqmp_conn_t` of the client, its thread and what MsQuic has delivered. -/
structure ConnState where
  connected : Bool
  connectSem : Nat
  closedSem : Nat
  /-- calls of `free(conn)` -/
  frees : Nat
  pc : ConnectPc
  result : Option ConnectResult
  /-- `ConnectionStart` has succeeded -/
  started : Bool
  /-- latest event first -/
  events : List ConnEvent
  /-- the handler of CONNECTED is before its `sem_post` -/
  posting : Bool
deriving DecidableEq

inductive ConnAction
  /-- the calls up to `ConnectionStart`, and the one that fails -/
  | setUp (failure : Option ConnectFailure)
  /-- MsQuic calls `conn_cb` -/
  | event (e : ConnEvent)
  /-- the `sem_post` behind CONNECTED -/
  | post
  /-- the next step of the thread -/
  | thread
  /-- a signal interrupts a wait of the thread -/
  | interrupted
deriving DecidableEq

namespace ConnState

/-- Before `sqmp_quic_connect`. -/
def init : ConnState := ⟨false, 0, 0, 0, .opening, none, false, [], false⟩

variable (s : ConnState)

/-- `sqmp_quic_connect` up to its first wait. -/
def setUp : Option ConnectFailure → ConnState
  | none => { s with started := true, pc := .waitConnect }
  | some f => { s with frees := s.frees + f.frees, pc := .returned, result := some .null }

/-- `conn_cb`, for CONNECTED up to its `sem_post`. -/
def connCb (e : ConnEvent) : ConnState :=
  let s := { s with events := e :: s.events }
  match e with
  | .connected => { s with connected := true, posting := true }
  | .shutdownInitiatedByTransport =>
    if s.connected then s else { s with connectSem := s.connectSem + 1 }
  | .shutdownInitiatedByPeer => s
  | .shutdownComplete => { s with closedSem := s.closedSem + 1 }

/-- MsQuic may deliver the event: no callback is running, each event comes once, and
SHUTDOWN_COMPLETE is the last. -/
def deliverable (e : ConnEvent) : Bool :=
  s.started && !s.posting && e ∉ s.events && .shutdownComplete ∉ s.events

/-- The thread is in a wait for a semaphore with count 0. -/
def Blocked : Prop :=
  s.pc = .waitConnect ∧ s.connectSem = 0 ∨
    (s.pc = .waitClosed ∨ s.pc = .disconnectWait) ∧ s.closedSem = 0

instance : Decidable s.Blocked := inferInstanceAs (Decidable (_ ∨ _))

/-- One step of the thread; `none` when it waits or has ended. -/
def threadStep : Option ConnState :=
  match s.pc with
  | .opening | .done => none
  | .waitConnect =>
    if s.connectSem = 0 then none
    else some { s with connectSem := s.connectSem - 1, pc := .testConnected }
  | .testConnected =>
    if s.connected then some { s with pc := .returned, result := some .conn }
    else some { s with pc := .waitClosed }
  | .waitClosed =>
    if s.closedSem = 0 then none else some { s with closedSem := s.closedSem - 1, pc := .close }
  | .close => some { s with frees := s.frees + 1, pc := .returned, result := some .null }
  | .returned =>
    -- `sqmp_quic_disconnect` returns at once when it is called with NULL
    if s.result = some .conn then some { s with pc := .disconnectWait }
    else some { s with pc := .done }
  | .disconnectWait =>
    if s.closedSem = 0 then none
    else some { s with closedSem := s.closedSem - 1, pc := .disconnectClose }
  | .disconnectClose => some { s with frees := s.frees + 1, pc := .done }

def step : ConnAction → Option ConnState
  | .setUp f => if s.pc = .opening then some (s.setUp f) else none
  | .event e => if s.deliverable e then some (s.connCb e) else none
  | .post =>
    if s.posting then some { s with connectSem := s.connectSem + 1, posting := false } else none
  | .thread => s.threadStep
  -- `sem_wait` fails with EINTR and is called again
  | .interrupted => if s.Blocked then some s else none

end ConnState

/-- What the thread may rely on once SHUTDOWN_COMPLETE has been handled, and who frees the
connection. -/
structure ConnSound (s : ConnState) : Prop where
  released : .shutdownComplete ∈ s.events → ¬ s.Blocked
  connected : s.result = some .conn → .connected ∈ s.events
  freedOnce : s.frees ≤ 1
  freedBehind : s.started = true → 0 < s.frees → .shutdownComplete ∈ s.events
  /-- the thread's own steps lead to its end -/
  ends : .shutdownComplete ∈ s.events → ∃ n t, run ConnState.step s (List.replicate n .thread) =
    some t ∧ t.pc = .done ∧ t.frees = 1

/-! ## 1. What the two threads keep -/

namespace ConnectionLemmas

/-- The posts of `closed_sem` that the thread has taken. -/
def taken : ConnectPc → Option ConnectResult → Nat
  | .close, _ | .disconnectClose, _ | .done, _ | .returned, some .null => 1
  | _, _ => 0

/-- The calls of `free(conn)` behind a started connection. -/
def freesDue : ConnectPc → Option ConnectResult → Nat
  | .done, _ | .returned, some .null => 1
  | _, _ => 0

theorem freesDue_le_taken (p : ConnectPc) (r : Option ConnectResult) :
    freesDue p r ≤ taken p r := by
  cases p with
  | returned => rcases r with _ | _ | _ <;> decide
  | done => exact Nat.le_refl 1
  | _ => exact Nat.zero_le _

/-- What has been returned where the thread is. -/
def Returned : ConnectPc → Option ConnectResult → Prop
  | .opening, r | .waitConnect, r | .testConnected, r | .waitClosed, r | .close, r => r = none
  | .returned, r => r ≠ none
  | .disconnectWait, r | .disconnectClose, r => r = some .conn
  | .done, _ => True

/-- CONNECTED or a shutdown by the transport was delivered. -/
def Announced (s : ConnState) : Prop :=
  .connected ∈ s.events ∨ .shutdownInitiatedByTransport ∈ s.events

/-- What every step keeps. -/
structure ConnInv (s : ConnState) : Prop where
  opening : s.pc = .opening → s = .init
  returned : Returned s.pc s.result
  connected : s.connected = true ↔ .connected ∈ s.events
  nonNull : s.result = some .conn → s.connected = true
  posting : s.posting = true → .connected ∈ s.events ∧ .shutdownComplete ∉ s.events
  waiting : s.pc = .waitConnect → s.posting = false → (0 < s.connectSem ↔ Announced s)
  past : s.started = true → s.pc ≠ .waitConnect → Announced s
  idle : s.started = false → s.events = [] ∧ s.frees ≤ 1 ∧
    (s.pc = .opening ∨ s.pc = .returned ∧ s.result = some .null ∨ s.pc = .done)
  once : s.events.count .shutdownComplete ≤ 1
  closed : s.started = true →
    s.closedSem + taken s.pc s.result = s.events.count .shutdownComplete
  freed : s.started = true → s.frees = freesDue s.pc s.result

variable {s t : ConnState}

theorem init_inv : ConnInv .init where
  opening _ := rfl
  returned := rfl
  connected := by simp [ConnState.init]
  nonNull := nofun
  posting := nofun
  waiting := nofun
  past := nofun
  idle _ := ⟨rfl, Nat.zero_le _, .inl rfl⟩
  once := Nat.zero_le _
  closed := nofun
  freed := nofun

theorem setUp_inv (f : Option ConnectFailure) : ConnInv (ConnState.init.setUp f) := by
  cases f with
  | none =>
    exact { opening := nofun, returned := rfl, connected := by simp [ConnState.setUp, ConnState.init],
            nonNull := nofun, posting := nofun,
            waiting := fun _ _ => by simp [ConnState.setUp, ConnState.init, Announced],
            past := fun _ h => absurd rfl h, idle := nofun, once := Nat.zero_le _,
            closed := fun _ => rfl, freed := fun _ => rfl }
  | some f =>
    have hf : f.frees ≤ 1 := by cases f <;> decide
    exact { opening := nofun, returned := nofun,
            connected := by simp [ConnState.setUp, ConnState.init],
            nonNull := nofun, posting := nofun, waiting := nofun, past := nofun,
            idle := fun _ => ⟨rfl, by simpa [ConnState.setUp, ConnState.init] using hf,
              .inr (.inl ⟨rfl, rfl⟩)⟩,
            once := Nat.zero_le _, closed := nofun, freed := nofun }

/-! ### A callback -/

/-- The guard of a callback. -/
theorem deliverable_iff {e : ConnEvent} : s.deliverable e = true ↔ s.started = true ∧
    s.posting = false ∧ e ∉ s.events ∧ .shutdownComplete ∉ s.events := by
  simp [ConnState.deliverable, and_assoc]

/-- What a callback writes. -/
theorem connCb_eq (s : ConnState) (e : ConnEvent) : s.connCb e =
    { s with
      events := e :: s.events
      connected := s.connected || e == .connected
      posting := s.posting || e == .connected
      connectSem := s.connectSem +
        if s.connected = false ∧ e = .shutdownInitiatedByTransport then 1 else 0
      closedSem := s.closedSem + if e = .shutdownComplete then 1 else 0 } := by
  obtain ⟨connected, _, _, _, _, _, _, _, posting⟩ := s
  cases e <;> cases connected <;> cases posting <;> rfl

theorem connCb_inv {e : ConnEvent} (hi : ConnInv s) (hd : s.deliverable e = true) :
    ConnInv (s.connCb e) := by
  obtain ⟨hst, hpost, he, hc⟩ := deliverable_iff.mp hd
  have hcount : s.events.count .shutdownComplete = 0 := List.count_eq_zero.mpr hc
  rw [connCb_eq]
  refine { opening := fun h => ?_, returned := hi.returned, connected := ?_, nonNull := fun h => ?_,
           posting := fun h => ?_, waiting := fun h h' => ?_,
           past := fun h h' => ?_, idle := fun h => ?_, once := ?_, closed := fun _ => ?_,
           freed := hi.freed }
  · rw [hi.opening h] at hst
    cases hst
  · rw [Bool.or_eq_true, beq_iff_eq, hi.connected, List.mem_cons, or_comm, eq_comm (a := e)]
  · simp [hi.nonNull h]
  · rw [hpost, Bool.false_or, beq_iff_eq] at h
    simp [h, hc]
  · rw [hpost, Bool.false_or, beq_eq_false_iff_ne] at h'
    have hw := hi.waiting h hpost
    by_cases ht : e = .shutdownInitiatedByTransport
    · subst ht
      refine iff_of_true ?_ (.inr List.mem_cons_self)
      -- a connection that is connected has posted before
      by_cases hcon : s.connected = true
      · exact Nat.lt_of_lt_of_le (hw.mpr (.inl (hi.connected.mp hcon))) (Nat.le_add_right _ _)
      · rw [if_pos ⟨Bool.eq_false_iff.mpr hcon, rfl⟩]
        exact Nat.succ_pos _
    · rw [if_neg fun h => ht h.2, Nat.add_zero, hw]
      simp [Announced, Ne.symm h', Ne.symm ht]
  · exact (hi.past h h').imp (List.mem_cons_of_mem _) (List.mem_cons_of_mem _)
  · rw [hst] at h
    cases h
  · rw [List.count_cons, hcount]
    split <;> omega
  · have := hi.closed hst
    rw [List.count_cons]
    simp only [beq_iff_eq]
    omega

theorem post_inv (hi : ConnInv s) (hp : s.posting = true) :
    ConnInv { s with connectSem := s.connectSem + 1, posting := false } where
  opening h := by
    rw [hi.opening h] at hp
    cases hp
  returned := hi.returned
  connected := hi.connected
  nonNull := hi.nonNull
  posting := nofun
  waiting _ _ := iff_of_true (Nat.succ_pos _) (.inl (hi.posting hp).1)
  past := hi.past
  idle := hi.idle
  once := hi.once
  closed := hi.closed
  freed := hi.freed

/-! ### A step of the thread -/

/-- A thread that is neither before its start nor behind its result has a started connection. -/
theorem started {p : ConnectPc} (hi : ConnInv s) (hpc : s.pc = p)
    (hp : p ≠ .opening ∧ p ≠ .returned ∧ p ≠ .done) : s.started = true := by
  by_contra h
  obtain ⟨_, _, h | h | h⟩ := hi.idle (Bool.not_eq_true _ ▸ h)
  · exact hp.1 (hpc.symm.trans h)
  · exact hp.2.1 (hpc.symm.trans h.1)
  · exact hp.2.2 (hpc.symm.trans h)

/-- Behind its first wait the thread runs on an announced connection. -/
theorem running {p : ConnectPc} (hi : ConnInv s) (hpc : s.pc = p)
    (hp : (p ≠ .opening ∧ p ≠ .returned ∧ p ≠ .done) ∧ p ≠ .waitConnect) :
    s.started = true ∧ Announced s := by
  have hst := started hi hpc hp.1
  exact ⟨hst, hi.past hst fun h => hp.2 (hpc.symm.trans h)⟩

/-- Nothing is delivered before the start. -/
theorem started_of_event {e : ConnEvent} (hi : ConnInv s) (he : e ∈ s.events) :
    s.started = true := by
  by_contra h
  rw [(hi.idle (Bool.not_eq_true _ ▸ h)).1] at he
  cases he

/-- The thread goes on, and its books on `closed_sem` and `free` stay balanced. -/
theorem moved_inv {p : ConnectPc} {r : Option ConnectResult} {c k f : Nat} (hi : ConnInv s)
    (hst : s.started = true) (ha : Announced s) (hp : p ≠ .opening ∧ p ≠ .waitConnect)
    (hret : Returned p r) (hr : r = some .conn → s.connected = true)
    (hk : k + taken p r = s.closedSem + taken s.pc s.result)
    (hf : f + freesDue s.pc s.result = s.frees + freesDue p r) :
    ConnInv { s with pc := p, result := r, connectSem := c, closedSem := k, frees := f } where
  opening h := absurd h hp.1
  returned := hret
  connected := hi.connected
  nonNull := hr
  posting := hi.posting
  waiting h := absurd h hp.2
  past _ _ := ha
  idle h := by
    rw [hst] at h
    cases h
  once := hi.once
  closed _ := hk.trans (hi.closed hst)
  freed _ := by
    have := hi.freed hst
    show f = freesDue p r
    omega

/-- How far the thread has to go. -/
def remaining : ConnectPc → Nat
  | .opening => 8
  | .waitConnect => 7
  | .testConnected => 6
  | .waitClosed => 5
  | .close => 4
  | .returned => 3
  | .disconnectWait => 2
  | .disconnectClose => 1
  | .done => 0

/-- The thread leaves what MsQuic has delivered as it is, and comes closer to its end. -/
theorem threadStep_inv (hi : ConnInv s) (h : s.threadStep = some t) :
    ConnInv t ∧ t.events = s.events ∧ t.started = s.started ∧ remaining t.pc < remaining s.pc := by
  have hret := hi.returned
  unfold ConnState.threadStep at h
  split at h
  · cases h
  · cases h
  · next hpc =>
    obtain ⟨hsem, h⟩ := Option.ite_none_left_eq_some.mp h
    cases h
    have hw := hi.waiting hpc
    have hst := started hi hpc (by decide)
    rw [hpc] at hret
    have hret : s.result = none := hret
    have ha : Announced s := by
      by_cases hp : s.posting = true
      · exact .inl (hi.posting hp).1
      · exact (hw (Bool.not_eq_true _ ▸ hp)).mp (Nat.pos_of_ne_zero hsem)
    refine ⟨moved_inv hi hst ha ⟨nofun, nofun⟩ hret hi.nonNull ?_ ?_, rfl, rfl, ?_⟩
    · simp [taken, hpc, hret]
    · simp [freesDue, hpc, hret]
    · simp [remaining, hpc]
  · next hpc =>
    obtain ⟨hst, ha⟩ := running hi hpc (by decide)
    rw [hpc] at hret
    have hret : s.result = none := hret
    split at h <;> cases h
    · next hcon =>
      refine ⟨moved_inv hi hst ha ⟨nofun, nofun⟩ nofun (fun _ => hcon) ?_ ?_, rfl, rfl, ?_⟩
      · simp [taken, hpc]
      · simp [freesDue, hpc]
      · simp [remaining, hpc]
    · refine ⟨moved_inv hi hst ha ⟨nofun, nofun⟩ hret hi.nonNull ?_ ?_, rfl, rfl, ?_⟩
      · simp [taken, hpc]
      · simp [freesDue, hpc]
      · simp [remaining, hpc]
  · next hpc =>
    obtain ⟨hsem, h⟩ := Option.ite_none_left_eq_some.mp h
    cases h
    obtain ⟨hst, ha⟩ := running hi hpc (by decide)
    rw [hpc] at hret
    refine ⟨moved_inv hi hst ha ⟨nofun, nofun⟩ hret hi.nonNull ?_ ?_, rfl, rfl, ?_⟩
    · rw [hpc]
      exact Nat.sub_add_cancel (Nat.pos_of_ne_zero hsem)
    · simp [freesDue, hpc]
    · simp [remaining, hpc]
  · next hpc =>
    cases h
    obtain ⟨hst, ha⟩ := running hi hpc (by decide)
    refine ⟨moved_inv hi hst ha ⟨nofun, nofun⟩ nofun nofun ?_ ?_, rfl, rfl, ?_⟩
    · rw [hpc]
      rfl
    · rw [hpc]
      rfl
    · simp [remaining, hpc]
  · next hpc =>
    rw [hpc] at hret
    split at h <;> cases h
    · next hres =>
      have hst : s.started = true := by
        by_contra h
        obtain ⟨_, _, h | h | h⟩ := hi.idle (Bool.not_eq_true _ ▸ h)
        · exact nomatch hpc.symm.trans h
        · exact nomatch hres.symm.trans h.2
        · exact nomatch hpc.symm.trans h
      have ha := hi.past hst (by rw [hpc]; nofun)
      refine ⟨moved_inv hi hst ha ⟨nofun, nofun⟩ hres hi.nonNull ?_ ?_, rfl, rfl, ?_⟩
      · simp [taken, hpc, hres]
      · simp [freesDue, hpc, hres]
      · simp [remaining, hpc]
    · next hres =>
      have hnull : s.result = some .null := by
        cases hr : s.result with
        | none => exact absurd hr hret
        | some r =>
          cases r with
          | conn => exact absurd hr hres
          | null => rfl
      refine ⟨?_, rfl, rfl, by simp [remaining, hpc]⟩
      exact { opening := nofun, returned := trivial, connected := hi.connected,
              nonNull := hi.nonNull, posting := hi.posting, waiting := nofun,
              past := fun h _ => hi.past h (by rw [hpc]; nofun),
              idle := fun h => ⟨(hi.idle h).1, (hi.idle h).2.1, .inr (.inr rfl)⟩,
              once := hi.once,
              closed := fun h => by
                have := hi.closed h
                rwa [hpc, hnull] at this
              freed := fun h => by
                have := hi.freed h
                rwa [hpc, hnull] at this }
  · next hpc =>
    obtain ⟨hsem, h⟩ := Option.ite_none_left_eq_some.mp h
    cases h
    obtain ⟨hst, ha⟩ := running hi hpc (by decide)
    rw [hpc] at hret
    refine ⟨moved_inv hi hst ha ⟨nofun, nofun⟩ hret hi.nonNull ?_ ?_, rfl, rfl, ?_⟩
    · rw [hpc]
      exact Nat.sub_add_cancel (Nat.pos_of_ne_zero hsem)
    · simp [freesDue, hpc]
    · simp [remaining, hpc]
  · next hpc =>
    cases h
    obtain ⟨hst, ha⟩ := running hi hpc (by decide)
    rw [hpc] at hret
    refine ⟨moved_inv hi hst ha ⟨nofun, nofun⟩ trivial hi.nonNull ?_ ?_, rfl, rfl, ?_⟩
    · rw [hpc]
      rfl
    · rw [hpc]
      rfl
    · simp [remaining, hpc]

end ConnectionLemmas
open ConnectionLemmas

/-! ## 2. Runs -/

namespace ConnectionLemmas

variable {s t : ConnState} {a : ConnAction} {acts : List ConnAction}

theorem step_inv (hi : ConnInv s) (h : s.step a = some t) : ConnInv t := by
  cases a with
  | setUp f =>
    obtain ⟨hpc, h⟩ := Option.ite_none_right_eq_some.mp h
    cases h
    rw [hi.opening hpc]
    exact setUp_inv f
  | event e =>
    obtain ⟨hd, h⟩ := Option.ite_none_right_eq_some.mp h
    cases h
    exact connCb_inv hi hd
  | post =>
    obtain ⟨hp, h⟩ := Option.ite_none_right_eq_some.mp h
    cases h
    exact post_inv hi hp
  | thread => exact (threadStep_inv hi h).1
  | interrupted =>
    obtain ⟨_, h⟩ := Option.ite_none_right_eq_some.mp h
    cases h
    exact hi

theorem run_inv (hr : run ConnState.step .init acts = some s) : ConnInv s :=
  run_always (fun _ _ _ => step_inv) init_inv hr

/-- An event is delivered by its own step only. -/
theorem step_events {e : ConnEvent} (hi : ConnInv s) (h : s.step a = some t) :
    e ∈ t.events ↔ e ∈ s.events ∨ a = .event e := by
  cases a with
  | setUp f =>
    obtain ⟨_, h⟩ := Option.ite_none_right_eq_some.mp h
    cases h
    cases f <;> simp [ConnState.setUp]
  | event e' =>
    obtain ⟨_, h⟩ := Option.ite_none_right_eq_some.mp h
    cases h
    rw [connCb_eq, ConnAction.event.injEq]
    exact List.mem_cons.trans (or_comm.trans (or_congr_right eq_comm))
  | post =>
    obtain ⟨_, h⟩ := Option.ite_none_right_eq_some.mp h
    cases h
    simp
  | thread => simp [(threadStep_inv hi h).2.1]
  | interrupted =>
    obtain ⟨_, h⟩ := Option.ite_none_right_eq_some.mp h
    cases h
    simp

theorem run_events {e : ConnEvent} (hi : ConnInv s) (hr : run ConnState.step s acts = some t) :
    e ∈ t.events ↔ e ∈ s.events ∨ .event e ∈ acts := by
  induction acts generalizing s with
  | nil =>
    cases hr
    simp
  | cons a acts ih =>
    obtain ⟨u, hu, hr⟩ := run_cons.mp hr
    rw [ih (step_inv hi hu) hr, step_events hi hu, or_assoc, List.mem_cons, eq_comm (a := a)]

/-! ### The thread behind SHUTDOWN_COMPLETE -/

theorem posting_false (hi : ConnInv s) (hc : .shutdownComplete ∈ s.events) : s.posting = false := by
  by_contra h
  exact (hi.posting (Bool.not_eq_false _ ▸ h)).2 hc

/-- Behind SHUTDOWN_COMPLETE the thread is blocked by a connection that was never announced, and
by nothing else. -/
theorem blocked_iff (hi : ConnInv s) (hc : .shutdownComplete ∈ s.events) :
    s.Blocked ↔ s.pc = .waitConnect ∧ ¬ Announced s := by
  have hw := fun hpc => hi.waiting hpc (posting_false hi hc)
  constructor
  · rintro (⟨hpc, h⟩ | ⟨hpc, h⟩)
    · exact ⟨hpc, fun ha => Nat.lt_irrefl 0 (h ▸ (hw hpc).mpr ha)⟩
    · -- its `sem_post` has been made and not been taken
      have hcl := hi.closed (started_of_event hi hc)
      have htaken : taken s.pc s.result = 0 := by rcases hpc with h | h <;> simp [h, taken]
      rw [h, htaken, eq_comm, List.count_eq_zero] at hcl
      exact absurd hc hcl
  · rintro ⟨hpc, ha⟩
    exact .inl ⟨hpc, Nat.eq_zero_of_not_pos fun h => ha ((hw hpc).mp h)⟩

/-- A thread that is not blocked goes on until it is done. -/
theorem threadStep_isSome (hb : ¬ s.Blocked) (ho : s.pc ≠ .opening) (hd : s.pc ≠ .done) :
    ∃ t, s.threadStep = some t := by
  unfold ConnState.Blocked at hb
  unfold ConnState.threadStep
  split
  · next h => exact absurd h ho
  · next h => exact absurd h hd
  · next h => exact ⟨_, if_neg fun h' => hb (.inl ⟨h, h'⟩)⟩
  · split <;> exact ⟨_, rfl⟩
  · next h => exact ⟨_, if_neg fun h' => hb (.inr ⟨.inl h, h'⟩)⟩
  · exact ⟨_, rfl⟩
  · split <;> exact ⟨_, rfl⟩
  · next h => exact ⟨_, if_neg fun h' => hb (.inr ⟨.inr h, h'⟩)⟩
  · exact ⟨_, rfl⟩

/-- A thread that is not blocked behind SHUTDOWN_COMPLETE reaches its end. -/
theorem ends (hi : ConnInv s) (hc : .shutdownComplete ∈ s.events) (hb : ¬ s.Blocked) :
    ∃ n t, run ConnState.step s (List.replicate n .thread) = some t ∧
      t.pc = .done ∧ t.frees = 1 := by
  have hst := started_of_event hi hc
  induction hn : remaining s.pc using Nat.strong_induction_on generalizing s with
  | _ n ih =>
    by_cases hd : s.pc = .done
    · refine ⟨0, s, rfl, hd, ?_⟩
      rw [hi.freed hst, hd]
      rfl
    · have ho : s.pc ≠ .opening := fun h => by
        rw [hi.opening h] at hst
        cases hst
      obtain ⟨u, hu⟩ := threadStep_isSome hb ho hd
      obtain ⟨hi', hev, hst', hlt⟩ := threadStep_inv hi hu
      have hb' : ¬ u.Blocked := by
        rw [blocked_iff hi' (hev ▸ hc)]
        rintro ⟨hpc, _⟩
        -- only the set-up leads to the first wait
        rw [hpc] at hlt
        have : remaining s.pc ≤ 7 := by
          cases h : s.pc <;> first | decide | exact absurd h ho
        exact absurd hlt (Nat.not_lt.mpr this)
      obtain ⟨n, t, hr, ht⟩ := ih _ (hn ▸ hlt) hi' (hev ▸ hc) hb' (hst'.trans hst) rfl
      exact ⟨n + 1, t, run_cons.mpr ⟨u, hu, hr⟩, ht⟩

/-- All but the release of the first wait holds in every state. -/
theorem sound_of_released (hi : ConnInv s) (hb : .shutdownComplete ∈ s.events → ¬ s.Blocked) :
    ConnSound s where
  released := hb
  connected h := hi.connected.mp (hi.nonNull h)
  freedOnce := by
    by_cases hst : s.started = true
    · rw [hi.freed hst]
      unfold freesDue
      split <;> omega
    · exact (hi.idle (Bool.not_eq_true _ ▸ hst)).2.1
  freedBehind hst hf := by
    have hcl := hi.closed hst
    rw [hi.freed hst] at hf
    have := freesDue_le_taken s.pc s.result
    exact List.count_pos_iff.mp (by omega)
  ends hc := ends hi hc (hb hc)

/-- A connection that completes its shutdown without having been announced has its thread in the
first wait. -/
theorem stranded (hi : ConnInv s) (hc : .shutdownComplete ∈ s.events) (ha : ¬ Announced s) :
    s.Blocked := by
  refine (blocked_iff hi hc).mpr ⟨?_, ha⟩
  by_contra hpc
  exact ha (hi.past (started_of_event hi hc) hpc)

end ConnectionLemmas
open ConnectionLemmas

/-- Connecting and disconnecting are sound in a run exactly if SHUTDOWN_COMPLETE comes behind
CONNECTED or a shutdown by the transport. -/
theorem conn_sound_iff {acts : List ConnAction} {s : ConnState}
    (hr : run ConnState.step .init acts = some s) : ConnSound s ↔
      (.event .shutdownComplete ∈ acts → .event .connected ∈ acts ∨
        .event .shutdownInitiatedByTransport ∈ acts) := by
  have hi := run_inv hr
  have hev : ∀ e, e ∈ s.events ↔ .event e ∈ acts := fun e => by
    rw [run_events init_inv hr]
    simp [ConnState.init]
  have hann : Announced s ↔ .event .connected ∈ acts ∨
      .event .shutdownInitiatedByTransport ∈ acts := or_congr (hev _) (hev _)
  rw [← hev, ← hann]
  constructor
  · intro h hc
    by_contra ha
    exact h.released hc (stranded hi hc ha)
  · exact fun h => sound_of_released hi fun hc hb => ((blocked_iff hi hc).mp hb).2 (h hc)

/-- The transport gives the connection up before CONNECTED. -/
def refusedConnect : List ConnAction :=
  .setUp none :: .event .shutdownInitiatedByTransport :: .event .shutdownComplete ::
    List.replicate 5 .thread

theorem conn_refused : ∃ s, run ConnState.step .init refusedConnect = some s ∧ s.pc = .done ∧
    s.result = some .null ∧ ConnSound s := by
  obtain ⟨s, hr, hpc, hres⟩ : ∃ s, run ConnState.step .init refusedConnect = some s ∧ s.pc = .done ∧
    s.result = some .null := ⟨_, rfl, rfl, rfl⟩
  exact ⟨s, hr, hpc, hres, (conn_sound_iff hr).mpr (by decide)⟩

/-- The peer closes the connection before CONNECTED: the thread waits for ever. -/
theorem peer_shutdown_strands : ∃ s, run ConnState.step .init [.setUp none, .interrupted,
      .event .shutdownInitiatedByPeer, .event .shutdownComplete] = some s ∧
    .shutdownComplete ∈ s.events ∧ s.Blocked ∧ ¬ ConnSound s := by
  refine ⟨_, rfl, by decide, by decide, fun h => ?_⟩
  exact h.released (by decide) (by decide)

end SquimpChat
