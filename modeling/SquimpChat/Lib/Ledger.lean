import Mathlib.Logic.Function.Basic
import Mathlib.Data.List.Count
import Mathlib.Tactic.TypeStar

/-!
# Ledgers of resources

What a program does with what it owns: it acquires a resource, uses it and releases it. A ledger
is the list of these operations, latest first. In a clean ledger every resource is acquired before
its first use, at most once, and neither used nor released behind its release.

A program is checked against its own bookkeeping `f`, which says for each resource whether it is
there. `leads_clean` is the step: operations that are legal by the bookkeeping keep the ledger
clean. `settled_counts` is the account at the end, when nothing is held any more.
-/

namespace Ledger

variable {ρ : Type*}

inductive Op (ρ : Type*)
  | acquire (r : ρ) | use (r : ρ) | release (r : ρ)
deriving DecidableEq, Repr

inductive Life
  | absent | present | gone
deriving DecidableEq, Repr

variable [DecidableEq ρ]

/-- How far the ledger takes a resource. -/
def life (r : ρ) : List (Op ρ) → Life
  | [] => .absent
  | .acquire r' :: l => if r' = r then .present else life r l
  | .release r' :: l => if r' = r then .gone else life r l
  | .use _ :: l => life r l

/-- The operation is legal when the lives are `f`. -/
def Legal (f : ρ → Life) : Op ρ → Prop
  | .acquire r => f r = .absent
  | .use r | .release r => f r = .present

instance (f : ρ → Life) : ∀ op, Decidable (Legal f op)
  | .acquire _ | .use _ | .release _ => inferInstanceAs (Decidable (_ = _))

/-- Every operation of the ledger is legal behind the ones before it. -/
def Clean : List (Op ρ) → Prop
  | [] => True
  | op :: l => Legal (life · l) op ∧ Clean l

instance Clean.decidable : ∀ l : List (Op ρ), Decidable (Clean l)
  | [] => isTrue trivial
  | _ :: l =>
    have := Clean.decidable l
    inferInstanceAs (Decidable (_ ∧ _))

/-- Nothing is held. -/
def Settled (l : List (Op ρ)) : Prop := ∀ r, life r l ≠ .present

/-- The bookkeeping `f` is right; it may write off what was never acquired. -/
def Tracks (l : List (Op ρ)) (f : ρ → Life) : Prop :=
  ∀ r, f r = life r l ∨ life r l = .absent ∧ f r = .gone

/-- The lives behind an operation. -/
def after (f : ρ → Life) : Op ρ → ρ → Life
  | .acquire r => Function.update f r .present
  | .release r => Function.update f r .gone
  | .use _ => f

/-- The operations, in program order, are legal by the bookkeeping `f` and lead to `g`. -/
def Leads (f : ρ → Life) : List (Op ρ) → (ρ → Life) → Prop
  | [], g => ∀ r, g r = f r ∨ f r = .absent ∧ g r = .gone
  | op :: ops, g => Legal f op ∧ Leads (after f op) ops g

variable {l : List (Op ρ)} {f g : ρ → Life} {op : Op ρ} {ops : List (Op ρ)} {r : ρ}

theorem tracks_nil : Tracks ([] : List (Op ρ)) fun _ => .absent := fun _ => .inl rfl

theorem Tracks.present (h : Tracks l f) (hr : f r = .present) : life r l = .present := by
  rcases h r with h | ⟨_, h⟩
  · exact h.symm.trans hr
  · cases h.symm.trans hr

theorem Tracks.of_present (h : Tracks l f) (hr : life r l = .present) : f r = .present := by
  rcases h r with h | ⟨h, _⟩
  · exact h.trans hr
  · cases h.symm.trans hr

theorem Tracks.absent (h : Tracks l f) (hr : f r = .absent) : life r l = .absent := by
  rcases h r with h | ⟨_, h⟩
  · exact h.symm.trans hr
  · cases h.symm.trans hr

theorem Tracks.legal (h : Tracks l f) (hop : Legal f op) : Legal (life · l) op := by
  cases op with
  | acquire r => exact h.absent hop
  | use r | release r => exact h.present hop

theorem Tracks.after (h : Tracks l f) : Tracks (op :: l) (Ledger.after f op) := by
  intro r
  cases op with
  | acquire r' | release r' =>
    rcases eq_or_ne r' r with rfl | hne
    · simp [Ledger.after, life]
    · simpa [Ledger.after, life, hne, hne.symm] using h r
  | use r' => exact h r

/-- What the bookkeeping writes off as never to come. -/
theorem Tracks.writeOff (h : Tracks l f) (hg : ∀ r, g r = f r ∨ f r = .absent ∧ g r = .gone) :
    Tracks l g := by
  intro r
  rcases hg r with heq | ⟨hf, hg⟩
  · rw [heq]
    exact h r
  · exact .inr ⟨h.absent hf, hg⟩

/-- Operations that are legal by a right bookkeeping keep the ledger clean, and the bookkeeping
right. -/
theorem leads_clean (ht : Tracks l f) (hc : Clean l) (h : Leads f ops g) :
    Clean (ops.reverse ++ l) ∧ Tracks (ops.reverse ++ l) g := by
  induction ops generalizing l f with
  | nil => exact ⟨hc, ht.writeOff h⟩
  | cons op ops ih =>
    rw [List.reverse_cons, List.append_assoc]
    exact ih ht.after ⟨ht.legal h.1, hc⟩ h.2

theorem clean_of_append {es : List (Op ρ)} (h : Clean (es ++ l)) : Clean l := by
  induction es with
  | nil => exact h
  | cons e es ih => exact ih h.2

theorem life_absent_of_append {es : List (Op ρ)} (h : life r (es ++ l) = .absent) :
    life r l = .absent := by
  induction es with
  | nil => exact h
  | cons e es ih =>
    cases e with
    | acquire r' | release r' =>
      rw [List.cons_append, life] at h
      split at h
      · cases h
      · exact ih h
    | use r' => exact ih h

/-- What was not acquired since was there before. -/
theorem life_present_of_append {es : List (Op ρ)} (hes : .acquire r ∉ es)
    (h : life r (es ++ l) = .present) : life r l = .present := by
  induction es with
  | nil => exact h
  | cons e es ih =>
    have hes' : .acquire r ∉ es := fun hm => hes (.tail _ hm)
    cases e with
    | acquire r' =>
      have hne : r' ≠ r := fun heq => hes (heq ▸ .head _)
      rw [List.cons_append, life, if_neg hne] at h
      exact ih hes' h
    | release r' =>
      rw [List.cons_append, life] at h
      split at h
      -- `gone` is never `present` again
      · cases h
      · exact ih hes' h
    | use r' => exact ih hes' h

theorem legal_of_clean {before later : List (Op ρ)} (hops : ops = before ++ op :: later)
    (h : Clean (ops.reverse ++ l)) : Legal (life · (before.reverse ++ l)) op := by
  rw [hops, List.reverse_append, List.reverse_cons, List.append_assoc, List.append_assoc] at h
  exact (clean_of_append h).1

/-- What the operations use was there before them, unless they have acquired it themselves. -/
theorem Tracks.used (ht : Tracks l f) (hc : Clean (ops.reverse ++ l)) (before : List (Op ρ))
    {later : List (Op ρ)} (hops : ops = before ++ .use r :: later) (hb : .acquire r ∉ before) :
    f r = .present :=
  ht.of_present (life_present_of_append (fun hm => hb (List.mem_reverse.mp hm))
    (legal_of_clean hops hc))

/-- What the operations acquire was not there before them. -/
theorem Tracks.acquired (ht : Tracks l f) (hc : Clean (ops.reverse ++ l)) (before : List (Op ρ))
    {later : List (Op ρ)} (hops : ops = before ++ .acquire r :: later) : f r ≠ .present :=
  fun hf => by cases (life_absent_of_append (legal_of_clean hops hc)).symm.trans (ht.present hf)

/-- In a clean ledger a resource is acquired and released once at most. -/
theorem clean_counts (h : Clean l) (r : ρ) :
    l.count (.acquire r) = (if life r l = .absent then 0 else 1) ∧
      l.count (.release r) = if life r l = .gone then 1 else 0 := by
  induction l with
  | nil => exact ⟨rfl, rfl⟩
  | cons op l ih =>
    obtain ⟨hop, hl⟩ := h
    obtain ⟨ha, hr⟩ := ih hl
    cases op with
    | acquire r' | release r' =>
      rcases eq_or_ne r' r with rfl | hne
      · have hop : life r' l = _ := hop
        simp [life, ha, hr, hop]
      · simp [life, ha, hr, hne]
    | use r' =>
      have hne : ∀ op : Op ρ, op = .acquire r ∨ op = .release r → op ≠ .use r' := by
        rintro _ (rfl | rfl) <;> nofun
      rw [List.count_cons_of_ne (hne _ (.inl rfl)).symm, List.count_cons_of_ne (hne _ (.inr rfl)).symm]
      exact ⟨ha, hr⟩

/-- When nothing is held, everything acquired was released, once. -/
theorem settled_counts (h : Clean l) (hs : Settled l) (r : ρ) :
    l.count (.release r) = l.count (.acquire r) ∧ l.count (.acquire r) ≤ 1 := by
  obtain ⟨ha, hr⟩ := clean_counts h r
  rw [ha, hr]
  cases hl : life r l with
  | absent | gone => simp
  | present => exact absurd hl (hs r)

end Ledger
