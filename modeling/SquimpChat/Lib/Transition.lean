import Mathlib.Data.List.Chain
import Mathlib.Logic.Basic

/-!
# Finite runs of a partial step function

A system is a partial step function `step : σ → α → Option σ`: `none` means that
the action is not enabled. `run` performs a list of actions, `Along` says that
every step a run takes meets a condition on the state before it and on the
action.

`run_invariant` is the induction every safety result uses: what one conditioned
step preserves, a conditioned run preserves. `run_since` looks back from a state that
has a property to the step that made it hold, and `run_expand` turns a run of big steps
into one of the small steps they consist of.
-/

namespace Transition

variable {σ α : Type*} {step : σ → α → Option σ}

/-- Perform the actions in order; `none` when one of them is not enabled. -/
def run (step : σ → α → Option σ) : σ → List α → Option σ
  | s, [] => some s
  | s, a :: as => (step s a).bind fun s' => run step s' as

/-- `Along step P s as`: each action of the run of `as` from `s`, up to the
first one that is not enabled, meets `P` in the state it is taken in. -/
def Along (step : σ → α → Option σ) (P : σ → α → Prop) : σ → List α → Prop
  | _, [] => True
  | s, a :: as => P s a ∧
      match step s a with
      | none => True
      | some s' => Along step P s' as

instance Along.decidable (step : σ → α → Option σ) (P : σ → α → Prop)
    [∀ s a, Decidable (P s a)] : ∀ s as, Decidable (Along step P s as)
  | _, [] => isTrue trivial
  | s, a :: as =>
    have : Decidable (match step s a with
        | none => True
        | some s' => Along step P s' as) :=
      match step s a with
      | none => isTrue trivial
      | some s' => Along.decidable step P s' as
    inferInstanceAs (Decidable (P s a ∧ _))

@[simp] theorem run_nil (s : σ) : run step s [] = some s := rfl

theorem run_cons {s s' : σ} {a : α} {as : List α} :
    run step s (a :: as) = some s' ↔ ∃ t, step s a = some t ∧ run step t as = some s' := by
  simp [run, Option.bind_eq_some_iff]

/-- A run that can be computed to its end. -/
theorem run_reaches (step : σ → α → Option σ) (s : σ) (as : List α) (P : σ → Prop)
    [DecidablePred P] (h : (run step s as).any (fun t => decide (P t)) = true) :
    ∃ t, run step s as = some t ∧ P t := by
  obtain ⟨t, hr, hp⟩ := (Option.any_eq_true _ _).mp h
  exact ⟨t, hr, of_decide_eq_true hp⟩

theorem along_cons {P : σ → α → Prop} {s t : σ} {a : α} {as : List α}
    (h : Along step P s (a :: as)) (hs : step s a = some t) : P s a ∧ Along step P t as := by
  obtain ⟨hp, ht⟩ := h
  rw [hs] at ht
  exact ⟨hp, ht⟩

theorem along_of_mem {P : σ → α → Prop} {as : List α} (hP : ∀ s, ∀ a ∈ as, P s a) (s : σ) :
    Along step P s as := by
  induction as generalizing s with
  | nil => trivial
  | cons a as ih =>
    refine ⟨hP s a List.mem_cons_self, ?_⟩
    cases step s a with
    | none => trivial
    | some t => exact ih (fun s b hb => hP s b (List.mem_cons_of_mem _ hb)) t

theorem along_of_forall {P : σ → α → Prop} (hP : ∀ s a, P s a) (as : List α) (s : σ) :
    Along step P s as := along_of_mem (fun s a _ => hP s a) s

/-- A condition on steps may be weakened. -/
theorem Along.mono {P Q : σ → α → Prop} (hPQ : ∀ s a, P s a → Q s a) :
    ∀ {as : List α} {s : σ}, Along step P s as → Along step Q s as
  | [], _, _ => trivial
  | a :: as, s, ⟨hp, ht⟩ => by
    refine ⟨hPQ s a hp, ?_⟩
    cases hs : step s a with
    | none => trivial
    | some t =>
      rw [hs] at ht
      exact Along.mono hPQ ht

/-- The invariant rule: an invariant that each conditioned step preserves holds
in every state that a conditioned run from a state of the invariant reaches. -/
theorem run_invariant {P : σ → α → Prop} {I : σ → Prop}
    (hstep : ∀ s a t, I s → P s a → step s a = some t → I t) :
    ∀ {as : List α} {s s' : σ}, I s → Along step P s as → run step s as = some s' → I s'
  | [], s, s', hI, _, hr => by
    cases hr
    exact hI
  | a :: as, s, s', hI, hP, hr => by
    obtain ⟨t, hs, hr⟩ := run_cons.mp hr
    obtain ⟨hp, hP⟩ := along_cons hP hs
    exact run_invariant hstep (hstep s a t hI hp hs) hP hr

/-- The invariant rule for steps without a condition. -/
theorem run_always {I : σ → Prop} (hstep : ∀ s a t, I s → step s a = some t → I t) {as : List α}
    {s s' : σ} (hI : I s) (hr : run step s as = some s') : I s' :=
  run_invariant (P := fun _ _ => True) (fun s a t hI _ h => hstep s a t hI h) hI
    (along_of_forall (fun _ _ => trivial) as s) hr

/-- The simulation rule: steps of two machines that agree on what is enabled and keep a
relation between the states do so in whole runs. -/
theorem run_rel {τ : Type*} {step' : τ → α → Option τ} {P : σ → α → Prop} {R : σ → τ → Prop}
    (hstep : ∀ s t a, R s t → P s a → Option.Rel R (step s a) (step' t a)) {as : List α} {s : σ}
    {t : τ} (hR : R s t) (hP : Along step P s as) :
    Option.Rel R (run step s as) (run step' t as) := by
  induction as generalizing s t with
  | nil => exact .some hR
  | cons a as ih =>
    have hrel := hstep s t a hR hP.1
    rw [run, run]
    generalize hs : step s a = o at hrel ⊢
    generalize step' t a = o' at hrel ⊢
    cases hrel with
    | none => exact .none
    | some hR' => exact ih hR' (along_cons hP hs).2

/-- A property that a step keeps exactly if it meets `P` holds at the end of exactly the runs
that meet `P` in every step. -/
theorem run_iff_along {P : σ → α → Prop} {I Q : σ → Prop}
    (hinv : ∀ s a t, I s → step s a = some t → I t)
    (hstep : ∀ s a t, I s → step s a = some t → (Q t ↔ Q s ∧ P s a)) {as : List α} {s s' : σ}
    (hI : I s) (hr : run step s as = some s') : Q s' ↔ Q s ∧ Along step P s as := by
  induction as generalizing s with
  | nil =>
    cases hr
    exact (and_iff_left trivial).symm
  | cons a as ih =>
    obtain ⟨t, hs, hr⟩ := run_cons.mp hr
    have halong : Along step P s (a :: as) ↔ P s a ∧ Along step P t as := by
      rw [Along, hs]
    rw [ih (hinv s a t hI hs) hr, hstep s a t hI hs, halong, and_assoc]

/-- The states a run goes through, up to the first action that is not enabled. -/
def trail (step : σ → α → Option σ) : σ → List α → List σ
  | s, [] => [s]
  | s, a :: as =>
    s :: match step s a with
      | none => []
      | some t => trail step t as

theorem trail_head (s : σ) (as : List α) : (trail step s as).head? = some s := by
  cases as <;> rfl

/-- A relation that the conditioned steps keep to links the states of a run. -/
theorem trail_isChain {P : σ → α → Prop} {I : σ → Prop} {R : σ → σ → Prop}
    (hstep : ∀ s a t, I s → P s a → step s a = some t → I t ∧ R s t) {as : List α} {s : σ}
    (hI : I s) (hP : Along step P s as) : (trail step s as).IsChain R := by
  induction as generalizing s with
  | nil => exact .singleton s
  | cons a as ih =>
    unfold trail
    split
    · exact .singleton s
    · next t hs =>
      obtain ⟨hp, hP⟩ := along_cons hP hs
      obtain ⟨hI, hR⟩ := hstep s a t hI hp hs
      refine List.isChain_cons.mpr ⟨fun u hu => ?_, ih hI hP⟩
      rw [trail_head] at hu
      exact Option.some.inj hu ▸ hR

/-! ## Looking back -/

/-- Some step of the run meets `P` in the state it is taken in. -/
def Sometime (step : σ → α → Option σ) (P : σ → α → Prop) (s : σ) (as : List α) : Prop :=
  ∃ as₁ a as₂ t, as = as₁ ++ a :: as₂ ∧ run step s as₁ = some t ∧ P t a

/-- What holds at the end of a run held from the start, or since a step that meets `P`.
The step may use an invariant. -/
theorem run_since {P : σ → α → Prop} {I Q : σ → Prop}
    (hinv : ∀ s a t, I s → step s a = some t → I t)
    (hstep : ∀ s a t, I s → step s a = some t → Q t → Q s ∨ P s a) {as : List α} {s s' : σ}
    (hI : I s) (hr : run step s as = some s') (hQ : Q s') : Q s ∨ Sometime step P s as := by
  induction as generalizing s with
  | nil =>
    cases hr
    exact .inl hQ
  | cons a as ih =>
    obtain ⟨t, hs, hr⟩ := run_cons.mp hr
    rcases ih (hinv s a t hI hs) hr with hQ | ⟨as₁, b, as₂, u, rfl, hu, hp⟩
    · exact (hstep s a t hI hs hQ).imp_right fun hp => ⟨[], a, as, s, rfl, rfl, hp⟩
    · exact .inr ⟨a :: as₁, b, as₂, u, rfl, run_cons.mpr ⟨t, hs, hu⟩, hp⟩

/-! ## Composition -/

theorem run_append {as bs : List α} {s s' : σ} :
    run step s (as ++ bs) = some s' ↔ ∃ t, run step s as = some t ∧ run step t bs = some s' := by
  induction as generalizing s with
  | nil => simp
  | cons a as ih =>
    rw [List.cons_append, run_cons]
    simp only [ih, run_cons]
    constructor
    · rintro ⟨u, hu, t, ht, hr⟩
      exact ⟨t, ⟨u, hu, ht⟩, hr⟩
    · rintro ⟨t, ⟨u, hu, ht⟩, hr⟩
      exact ⟨u, hu, t, ht, hr⟩

/-- The invariant rule for what a state tells of the run that has led to it. -/
theorem run_history {I : List α → σ → Prop} {s₀ : σ} (hinit : I [] s₀)
    (hstep : ∀ as s a t, run step s₀ as = some s → I as s → step s a = some t → I (as ++ [a]) t)
    {as : List α} {s : σ} (hr : run step s₀ as = some s) : I as s := by
  induction as using List.reverseRecOn generalizing s with
  | nil =>
    cases hr
    exact hinit
  | append_singleton as a ih =>
    obtain ⟨t, ht, hr⟩ := run_append.mp hr
    obtain ⟨u, hs, hu⟩ := run_cons.mp hr
    cases hu
    exact hstep as t a s ht (ih ht) hs

theorem along_append {P : σ → α → Prop} {as bs : List α} {s t : σ} (hr : run step s as = some t)
    (hP : Along step P s as) (hQ : Along step P t bs) : Along step P s (as ++ bs) := by
  induction as generalizing s with
  | nil =>
    cases hr
    exact hQ
  | cons a as ih =>
    obtain ⟨u, hu, hr⟩ := run_cons.mp hr
    obtain ⟨hp, hP⟩ := along_cons hP hu
    refine ⟨hp, ?_⟩
    rw [hu]
    exact ih hr hP

theorem along_split {P : σ → α → Prop} {as bs : List α} {s t : σ} (hr : run step s as = some t)
    (hP : Along step P s (as ++ bs)) : Along step P s as ∧ Along step P t bs := by
  induction as generalizing s with
  | nil =>
    cases hr
    exact ⟨trivial, hP⟩
  | cons a as ih =>
    obtain ⟨u, hu, hr⟩ := run_cons.mp hr
    obtain ⟨hp, hP⟩ := along_cons hP hu
    obtain ⟨hP, hQ⟩ := ih hr hP
    refine ⟨⟨hp, ?_⟩, hQ⟩
    rw [hu]
    exact hP

/-- A run of steps that are themselves runs is a run. -/
theorem run_expand {β : Type*} {big : σ → β → Option σ}
    (hbig : ∀ s b t, big s b = some t → ∃ as, run step s as = some t) {bs : List β} {s s' : σ}
    (hr : run big s bs = some s') : ∃ as, run step s as = some s' := by
  induction bs generalizing s with
  | nil => exact ⟨[], hr⟩
  | cons b bs ih =>
    obtain ⟨t, hb, hr⟩ := run_cons.mp hr
    obtain ⟨as, ht⟩ := hbig s b t hb
    obtain ⟨as', hs'⟩ := ih hr
    exact ⟨as ++ as', run_append.mpr ⟨t, ht, hs'⟩⟩

end Transition
