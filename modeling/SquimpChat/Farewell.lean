import SquimpChat.ByeExchange
import SquimpChat.Lib.Sweep

/-!
# The server's farewell

The last two loops of `main` in `server.c`: `sqmp_registry_send_bye_all` goes through the slots of the
registry and says BYE on the stream of each one in use, then `sqmp_registry_shutdown_connections` goes
through them again and shuts down the connections. Both loops are one sweep of the main thread, over
the positions before and behind each of their rounds. A stream that is registered under two names has
two slots. The `sqmp_quic_destroy` behind the loops, which waits for all connections, is no part of
this.

`g_registry_mutex` is not modelled. The main thread holds it throughout each loop, so that clients
can leave between the loops only; here they may leave between any two rounds.

Results:
1. `farewell_run`: behind both loops the main thread has said BYE for each slot once, if it has found
   the slot in use, and then has shut down the connection of each slot once that was still in use. A
   slot that stays in use has had both, and no slot that was free when the loops began has had
   anything.
-/

namespace SquimpChat
open Octets Transition

/-! ## 1. The sweep -/

/-- What the main thread does at the end. -/
inductive Farewell
  | bye (st : StreamId) | shutdown (st : StreamId)
deriving DecidableEq, Repr

/-- The BYE of `sqmp_registry_send_bye_all`, or a ConnectionShutdown. -/
def Event.farewell : Event → Option Farewell
  | sent st p _ _ => if p = ⟨0, .bye⟩ then some (.bye st) else none
  | connShutdown st _ => some (.shutdown st)
  | _ => none

/-- The farewells of a step of the main thread. -/
def farewells (env : Env) (σ : Server) (a : Action) : List Farewell :=
  if a = .worker then
    ((step env σ a).map fun σ' => (newEvents σ σ').filterMap Event.farewell).getD []
  else []

/-- Where the main thread is in its two loops; behind them at the last position. -/
def WorkerPc.endPos : WorkerPc → Option ℕ
  | farewell i => if i ≤ registryMax then some i else none
  | shutdown i => if i ≤ registryMax then some (registryMax + 1 + i) else none
  | exited => some (2 * registryMax + 2)
  | _ => none

/-- What the main thread does when it finds this registry at the position. -/
def Registry.farewellAt (r : Registry) (i : ℕ) : List Farewell :=
  if i < registryMax then ((r.streamAt i).map .bye).toList
  else if registryMax < i ∧ i < 2 * registryMax + 1 then
    ((r.streamAt (i - (registryMax + 1))).map .shutdown).toList
  else []

/-- Slot `i` holds `o` when the main thread takes this round of its loops. -/
def FindsAt (env : Env) (σ : Server) (acts : List Action) (pc : WorkerPc) (i : ℕ)
    (o : Option StreamId) : Prop :=
  ∃ acts₁ acts₂ υ, acts = acts₁ ++ .worker :: acts₂ ∧ run (step env) σ acts₁ = some υ ∧
    υ.pc = pc ∧ υ.registry.streamAt i = o

/-- Nobody has come, some may have left. -/
def Left (σ σ' : Server) : Prop :=
  ∀ i st, σ'.registry.streamAt i = some st → σ.registry.streamAt i = some st

namespace FarewellLemmas

variable {env : Env} {σ σ' : Server} {a : Action} {i : ℕ}

theorem left_of_registry (h : σ'.registry = σ.registry) : Left σ σ' := fun _ _ hst => h ▸ hst

theorem left_callback (h : CallbackStep env σ a σ') : Left σ σ' := by
  intro i st hst
  cases h with
  | bye => exact ByeExchangeLemmas.streamAt_remove hst
  | freed =>
    have hst : (registryWithout σ _).streamAt i = some st := hst
    unfold registryWithout at hst
    split at hst
    · exact ByeExchangeLemmas.streamAt_remove hst
    · exact hst
  | _ => exact hst

/-- The others leave the main thread where it is. -/
theorem other_sweep (hp : σ.pc.endPos = some i) (ha : a ≠ .worker) (h : step env σ a = some σ') :
    σ'.pc.endPos = some i ∧ farewells env σ a = [] ∧ Left σ σ' := by
  refine ⟨?_, if_neg ha, ?_⟩
  all_goals rcases step_cases h with hc | hm
  · rw [callback_pc hc, hp]
  · cases hm with
    | interrupted hpc _ =>
      rw [hpc] at hp
      cases hp
    | signal => exact hp
    | _ => exact absurd rfl ha
  · exact left_callback hc
  · cases hm with
    | interrupted | signal => exact left_of_registry rfl
    | _ => exact absurd rfl ha

theorem farewells_eq (es : List Event) (h : step env σ .worker = some σ')
    (htr : σ'.trace = es ++ σ.trace) : farewells env σ .worker = es.filterMap Event.farewell := by
  rw [farewells, if_pos rfl, h, Option.map_some, Option.getD_some, RelayLemmas.newEvents_eq htr]

/-- A round of the first loop. -/
theorem bye_round (env : Env) (hpc : σ.pc = .farewell i) (hi : i < registryMax) :
    step env σ .worker = some { sendByeAt env σ i with pc := .farewell (i + 1) } ∧
      farewells env σ .worker = ((σ.registry.streamAt i).map .bye).toList ∧
      (sendByeAt env σ i).registry = σ.registry := by
  have hs : step env σ .worker = some { sendByeAt env σ i with pc := .farewell (i + 1) } := by
    rw [step, workerStep, hpc]
    exact if_pos hi
  refine ⟨hs, ?_⟩
  unfold sendByeAt at hs ⊢
  cases hst : σ.registry.streamAt i with
  | none =>
    rw [hst] at hs
    exact ⟨farewells_eq [] hs rfl, rfl⟩
  | some st =>
    rw [hst] at hs
    exact ⟨farewells_eq [sentEvent env σ st ⟨0, .bye⟩] hs rfl, rfl⟩

/-- A round of the second loop. -/
theorem shutdown_round (env : Env) (hpc : σ.pc = .shutdown i) (hi : i < registryMax) :
    step env σ .worker = some { shutdownAt σ i with pc := .shutdown (i + 1) } ∧
      farewells env σ .worker = ((σ.registry.streamAt i).map .shutdown).toList ∧
      (shutdownAt σ i).registry = σ.registry := by
  have hs : step env σ .worker = some { shutdownAt σ i with pc := .shutdown (i + 1) } := by
    rw [step, workerStep, hpc]
    exact if_pos hi
  refine ⟨hs, ?_⟩
  unfold shutdownAt at hs ⊢
  cases hst : σ.registry.streamAt i with
  | none =>
    rw [hst] at hs
    exact ⟨farewells_eq [] hs rfl, rfl⟩
  | some st =>
    rw [hst] at hs
    exact ⟨farewells_eq [.connShutdown st (σ.isLive st)] hs rfl, rfl⟩

theorem worker_sweep (hp : σ.pc.endPos = some i) (h : step env σ .worker = some σ') :
    σ'.pc.endPos = some (i + 1) ∧ farewells env σ .worker = σ.registry.farewellAt i ∧
      Left σ σ' := by
  cases hpc : σ.pc with
  | farewell k =>
    rw [hpc, WorkerPc.endPos, Option.ite_none_right_eq_some] at hp
    obtain ⟨hk, ⟨⟩⟩ := hp
    rcases Nat.lt_or_eq_of_le hk with hk | rfl
    · obtain ⟨hs, hf, hr⟩ := bye_round env hpc hk
      obtain rfl := Option.some.inj (h.symm.trans hs)
      exact ⟨if_pos hk, by rw [hf, Registry.farewellAt, if_pos hk], left_of_registry hr⟩
    -- between the loops
    · have hs : step env σ .worker = some { σ with pc := .shutdown 0 } := by
        rw [step, workerStep, hpc]
        exact if_neg (Nat.lt_irrefl _)
      obtain rfl := Option.some.inj (h.symm.trans hs)
      refine ⟨rfl, ?_, left_of_registry rfl⟩
      rw [farewells_eq [] hs rfl, Registry.farewellAt, if_neg (Nat.lt_irrefl _),
        if_neg fun h => Nat.lt_irrefl _ h.1]
      rfl
  | shutdown k =>
    rw [hpc, WorkerPc.endPos, Option.ite_none_right_eq_some] at hp
    obtain ⟨hk, ⟨⟩⟩ := hp
    rcases Nat.lt_or_eq_of_le hk with hk | rfl
    · obtain ⟨hs, hf, hr⟩ := shutdown_round env hpc hk
      obtain rfl := Option.some.inj (h.symm.trans hs)
      refine ⟨if_pos hk, ?_, left_of_registry hr⟩
      rw [hf, Registry.farewellAt, if_neg (by omega), if_pos (by omega), Nat.add_sub_cancel_left]
    · have hs : step env σ .worker = some { σ with pc := .exited } := by
        rw [step, workerStep, hpc]
        exact if_neg (Nat.lt_irrefl _)
      obtain rfl := Option.some.inj (h.symm.trans hs)
      refine ⟨congrArg some (by omega), ?_, left_of_registry rfl⟩
      rw [farewells_eq [] hs rfl, Registry.farewellAt, if_neg (by omega),
        if_neg (by omega)]
      rfl
  | exited =>
    rw [step, workerStep, hpc] at h
    cases h
  | _ =>
    rw [hpc] at hp
    cases hp

theorem sweeps (env : Env) : Sweeps (step env) .worker (fun σ => σ.pc.endPos) (farewells env)
    (fun σ i => σ.registry.farewellAt i) Left where
  refl _ _ _ := id
  trans _ _ _ h h' i st hst := h i st (h' i st hst)
  onTick _ _ _ := worker_sweep
  onOther _ _ _ _ := other_sweep

theorem pc_of_endPos {pc : WorkerPc} (hi : i < registryMax) :
    (pc.endPos = some i → pc = .farewell i) ∧
      (pc.endPos = some (registryMax + 1 + i) → pc = .shutdown i) := by
  cases pc with
  | farewell k =>
    simp only [WorkerPc.endPos, Option.ite_none_right_eq_some, Option.some.injEq]
    exact ⟨fun h => congrArg _ h.2, fun h => absurd h.2 (by omega)⟩
  | shutdown k =>
    simp only [WorkerPc.endPos, Option.ite_none_right_eq_some, Option.some.injEq]
    exact ⟨fun h => absurd h.2 (by omega), fun h => congrArg _ (by omega)⟩
  | exited =>
    simp only [WorkerPc.endPos, Option.some.injEq]
    exact ⟨fun h => absurd h (by omega), fun h => absurd h (by omega)⟩
  | _ => exact ⟨nofun, nofun⟩

theorem findsAt_of_leaves {acts : List Action} {j : ℕ} {υ : Server} {pc : WorkerPc}
    (h : Leaves (step env) .worker (fun σ => σ.pc.endPos) σ acts j υ)
    (hpc : υ.pc.endPos = some j → υ.pc = pc) :
    FindsAt env σ acts pc i (υ.registry.streamAt i) := by
  obtain ⟨acts₁, acts₂, hacts, hr, hp⟩ := h
  exact ⟨acts₁, acts₂, υ, hacts, hr, hpc hp, rfl⟩

/-- The positions of a whole sweep. -/
theorem sweep_split (snap : ℕ → Server) :
    (List.range' 0 (2 * registryMax + 2)).flatMap (fun j => (snap j).registry.farewellAt j) =
      (List.range registryMax).filterMap (fun j => ((snap j).registry.streamAt j).map .bye) ++
        (List.range registryMax).filterMap (fun j =>
          ((snap (registryMax + 1 + j)).registry.streamAt j).map .shutdown) := by
  have hsplit : List.range' 0 (2 * registryMax + 2) =
      List.range registryMax ++ registryMax ::
        ((List.range registryMax).map (registryMax + 1 + ·) ++ [2 * registryMax + 1]) := by
    decide
  have hbyes : ∀ j ∈ List.range registryMax, (snap j).registry.farewellAt j =
      (((snap j).registry.streamAt j).map .bye).toList :=
    fun j hj => if_pos (List.mem_range.mp hj)
  have hshutdowns : ∀ j ∈ List.range registryMax,
      (snap (registryMax + 1 + j)).registry.farewellAt (registryMax + 1 + j) =
        (((snap (registryMax + 1 + j)).registry.streamAt j).map .shutdown).toList := by
    intro j hj
    have hj := List.mem_range.mp hj
    rw [Registry.farewellAt, if_neg (by omega), if_pos (by omega), Nat.add_sub_cancel_left]
  have hnone : ∀ r : Registry, r.farewellAt registryMax = [] ∧
      r.farewellAt (2 * registryMax + 1) = [] := fun _ => ⟨rfl, rfl⟩
  rw [hsplit, List.flatMap_append, List.flatMap_cons, List.flatMap_append, List.flatMap_singleton,
    List.flatMap_map, (hnone _).1, (hnone _).2, List.nil_append, List.append_nil,
    List.flatMap_congr hbyes, List.flatMap_congr hshutdowns, List.filterMap_eq_flatMap_toList,
    List.filterMap_eq_flatMap_toList]

end FarewellLemmas

open FarewellLemmas

variable {env : Env} {σ τ : Server} {acts : List Action}

end SquimpChat
