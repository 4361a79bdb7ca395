import SquimpChat.Lib.Transition

/-!
# Sweeps

A thread goes through the positions `0, 1, ...` one by one and puts something out at each, while
other actions change what it will find. `pos` is where it is and `tick` its action; what it puts out
is `found` of the state it comes to the position in.

`Sweeps.pos_run` counts the positions. `Sweeps.outputs_run` says what the steps of a run have put
out: for each position what was found there, in order. A relation that the steps keep links the states
it was found in, and these are states the run goes through.
-/

namespace Transition

variable {σ α β : Type*}

/-- What the steps of the run put out, in order. -/
def outputs (step : σ → α → Option σ) (out : σ → α → List β) : σ → List α → List β
  | _, [] => []
  | s, a :: as =>
    match step s a with
    | none => []
    | some t => out s a ++ outputs step out t as

/-- Only `tick` moves the thread, by one position, and only it puts anything out. -/
structure Sweeps (step : σ → α → Option σ) (tick : α) (pos : σ → Option ℕ)
    (out : σ → α → List β) (found : σ → ℕ → List β) (R : σ → σ → Prop) : Prop where
  refl : ∀ s, R s s
  trans : ∀ s t u, R s t → R t u → R s u
  onTick : ∀ s t i, pos s = some i → step s tick = some t →
    pos t = some (i + 1) ∧ out s tick = found s i ∧ R s t
  onOther : ∀ s t i a, pos s = some i → a ≠ tick → step s a = some t →
    pos t = some i ∧ out s a = [] ∧ R s t

/-- The run has come to the state `u` when the thread leaves position `j`. -/
def Leaves (step : σ → α → Option σ) (tick : α) (pos : σ → Option ℕ) (s : σ) (as : List α) (j : ℕ)
    (u : σ) : Prop :=
  ∃ as₁ as₂, as = as₁ ++ tick :: as₂ ∧ run step s as₁ = some u ∧ pos u = some j

variable [DecidableEq α] {step : σ → α → Option σ} {tick : α} {pos : σ → Option ℕ}
  {out : σ → α → List β} {found : σ → ℕ → List β} {R : σ → σ → Prop} {s t : σ} {i : ℕ}
  {as : List α}

/-- The thread has moved as often as it has taken a step. -/
theorem Sweeps.pos_run (hw : Sweeps step tick pos out found R) (hp : pos s = some i)
    (hr : run step s as = some t) : pos t = some (i + as.count tick) := by
  induction as generalizing s i with
  | nil =>
    cases hr
    exact hp
  | cons a as ih =>
    obtain ⟨u, hs, hr⟩ := run_cons.mp hr
    rcases eq_or_ne a tick with rfl | hne
    · rw [List.count_cons_self, Nat.add_comm _ 1, ← Nat.add_assoc]
      exact ih (hw.onTick s u i hp hs).1 hr
    · rw [List.count_cons_of_ne hne]
      exact ih (hw.onOther s u i a hp hne hs).1 hr

omit [DecidableEq α] in
theorem Sweeps.rel_run (hw : Sweeps step tick pos out found R) (hp : pos s = some i)
    (hr : run step s as = some t) : R s t := by
  induction as generalizing s i with
  | nil =>
    cases hr
    exact hw.refl t
  | cons a as ih =>
    obtain ⟨u, hs, hr⟩ := run_cons.mp hr
    rcases eq_or_ne a tick with rfl | hne
    · obtain ⟨hu, _, hR⟩ := hw.onTick s u i hp hs
      exact hw.trans _ _ _ hR (ih hu hr)
    · obtain ⟨hu, _, hR⟩ := hw.onOther s u i a hp hne hs
      exact hw.trans _ _ _ hR (ih hu hr)

omit [DecidableEq α] in
theorem Leaves.cons {a : α} {u v : σ} {j : ℕ} (hs : step s a = some u)
    (h : Leaves step tick pos u as j v) : Leaves step tick pos s (a :: as) j v := by
  obtain ⟨as₁, as₂, rfl, hr, hp⟩ := h
  exact ⟨a :: as₁, as₂, rfl, run_cons.mpr ⟨u, hs, hr⟩, hp⟩

/-- The sweep of a run: `snap j` is the state in which the thread leaves position `j`. -/
theorem Sweeps.outputs_run (hw : Sweeps step tick pos out found R) (hp : pos s = some i)
    (hr : run step s as = some t) : ∃ snap : ℕ → σ,
      outputs step out s as = (List.range' i (as.count tick)).flatMap (fun j => found (snap j) j) ∧
      (∀ j, i ≤ j → j < i + as.count tick → Leaves step tick pos s as j (snap j)) ∧
      ∀ j k, i ≤ j → j ≤ k → k < i + as.count tick →
        R s (snap j) ∧ R (snap j) (snap k) ∧ R (snap k) t := by
  induction as generalizing s i with
  | nil =>
    cases hr
    exact ⟨fun _ => t, rfl, fun j hij hj => absurd hj (by rw [List.count_nil]; omega),
      fun j k hij hjk hk => absurd hk (by rw [List.count_nil]; omega)⟩
  | cons a as ih =>
    obtain ⟨u, hs, hr⟩ := run_cons.mp hr
    rcases eq_or_ne a tick with rfl | hne
    · obtain ⟨hu, hout, hR⟩ := hw.onTick s u i hp hs
      obtain ⟨snap, heq, hleaves, hsnap⟩ := ih hu hr
      rw [List.count_cons_self]
      refine ⟨fun j => if j = i then s else snap j, ?_, fun j hij hj => ?_,
        fun j k hij hjk hk => ?_⟩
      · rw [outputs, hs]
        dsimp only
        rw [hout, heq, List.range'_succ, List.flatMap_cons, if_pos rfl]
        refine congrArg _ (List.flatMap_congr fun j hj => ?_)
        have hne : j ≠ i := by
          have := (List.mem_range'_1.mp hj).1
          omega
        rw [if_neg hne]
      · dsimp only
        split
        · next heq => exact ⟨[], as, rfl, rfl, heq ▸ hp⟩
        · exact (hleaves j (by omega) (by omega)).cons hs
      · -- position `i` is the one the thread is at
        have hst : R s t := hw.trans _ _ _ hR (hw.rel_run hu hr)
        have hlater : ∀ k, i < k → k < i + (as.count a + 1) → R s (snap k) ∧ R (snap k) t :=
          fun k hik hk => (hsnap k k hik (Nat.le_refl k) (by omega)).imp (hw.trans _ _ _ hR)
            And.right
        dsimp only
        rcases Nat.eq_or_lt_of_le hij with rfl | hij
        · rcases Nat.eq_or_lt_of_le hjk with rfl | hjk
          · rw [if_pos rfl]
            exact ⟨hw.refl s, hw.refl s, hst⟩
          · rw [if_pos rfl, if_neg (Nat.ne_of_gt hjk)]
            exact ⟨hw.refl s, hlater k hjk hk⟩
        · rw [if_neg (Nat.ne_of_gt hij), if_neg (by omega)]
          exact (hsnap j k hij hjk (by omega)).imp (hw.trans _ _ _ hR) id
    · obtain ⟨hu, hout, hR⟩ := hw.onOther s u i a hp hne hs
      obtain ⟨snap, heq, hleaves, hsnap⟩ := ih hu hr
      rw [List.count_cons_of_ne hne]
      refine ⟨snap, ?_, fun j hij hj => (hleaves j hij hj).cons hs, fun j k hij hjk hk => ?_⟩
      · rw [outputs, hs, ← heq]
        dsimp only
        rw [hout, List.nil_append]
      · exact (hsnap j k hij hjk hk).imp (hw.trans _ _ _ hR) id

end Transition
