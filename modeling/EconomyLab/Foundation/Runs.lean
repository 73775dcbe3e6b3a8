import Mathlib.Data.List.Basic

/-!
# Runs whose steps meet a condition

A run is a fold of its steps. A step lemma about the steps that meet a condition gives,
by induction, what every state of such a run satisfies.
-/

namespace EconomyLab.Foundation

universe u v
variable {σ : Type u} {α : Type v}

def RunMeets (step : σ → α → σ) (meets : σ → α → Prop) : σ → List α → Prop
  | _, [] => True
  | s, a :: run => meets s a ∧ RunMeets step meets (step s a) run

instance RunMeets.decide (step : σ → α → σ) (meets : σ → α → Prop) [∀ s a, Decidable (meets s a)] :
    (s : σ) → (run : List α) → Decidable (RunMeets step meets s run)
  | _, [] => .isTrue trivial
  | s, a :: run =>
    have := RunMeets.decide step meets (step s a) run
    inferInstanceAs (Decidable (_ ∧ _))

namespace RunMeets

variable {step : σ → α → σ} {meets : σ → α → Prop} {s : σ}

theorem append {run more : List α} (h : RunMeets step meets s (run ++ more)) :
    RunMeets step meets s run ∧ RunMeets step meets (run.foldl step s) more := by
  induction run generalizing s with
  | nil => exact ⟨trivial, h⟩
  | cons a run ih =>
    obtain ⟨ha, hrest⟩ := h
    obtain ⟨hrun, hmore⟩ := ih hrest
    exact ⟨⟨ha, hrun⟩, hmore⟩

variable {run : List α} {a : α}

theorem imp {meets' : σ → α → Prop} (himp : ∀ s a, meets s a → meets' s a)
    (h : RunMeets step meets s run) : RunMeets step meets' s run := by
  induction run generalizing s with
  | nil => trivial
  | cons a run ih => exact ⟨himp s a h.1, ih h.2⟩

theorem inv {I : σ → Prop} (hstep : ∀ s a, I s → meets s a → I (step s a))
    (h : RunMeets step meets s run) (hs : I s) : I (run.foldl step s) := by
  induction run generalizing s with
  | nil => exact hs
  | cons a run ih => exact ih h.2 (hstep s a hs h.1)

theorem before {I : σ → Prop} (hstep : ∀ s a, I s → meets s a → I (step s a))
    {run pre post : List α} (h : RunMeets step meets s run) (hs : I s)
    (hrun : run = pre ++ a :: post) :
    I (pre.foldl step s) ∧ meets (pre.foldl step s) a := by
  subst hrun
  obtain ⟨hpre, hpost⟩ := h.append
  exact ⟨hpre.inv hstep hs, hpost.1⟩

theorem of_before (h : ∀ pre a post, run = pre ++ a :: post → meets (pre.foldl step s) a) :
    RunMeets step meets s run := by
  induction run generalizing s with
  | nil => trivial
  | cons a run ih =>
    refine ⟨h [] a run rfl, ih ?_⟩
    intro pre b post hrun
    exact h (a :: pre) b post (by rw [hrun, List.cons_append])

theorem snoc (h : RunMeets step meets s run) (ha : meets (run.foldl step s) a) :
    RunMeets step meets s (run ++ [a]) := by
  induction run generalizing s with
  | nil => exact ⟨ha, trivial⟩
  | cons b run ih => exact ⟨h.1, ih h.2 ha⟩

theorem at_step {run pre post : List α} (h : RunMeets step meets s run)
    (hrun : run = pre ++ a :: post) :
    meets (pre.foldl step s) a := by
  subst hrun
  exact h.append.2.1

end RunMeets

/-- Where every step that finds something left lowers a measure, nothing is left after as many steps. -/
theorem exists_done {s : Nat → σ} {left : σ → Prop} (measure : σ → Nat)
    (hstep : ∀ n, left (s n) → measure (s (n + 1)) < measure (s n)) :
    ∃ n ≤ measure (s 0), ¬ left (s n) := by
  by_contra hall
  have hleft : ∀ n ≤ measure (s 0), left (s n) := fun n hn => by
    apply Classical.byContradiction
    intro hdone
    exact hall ⟨n, hn, hdone⟩
  have hlower : ∀ n ≤ measure (s 0) + 1, measure (s n) + n ≤ measure (s 0) := by
    intro n
    induction n with
    | zero => exact fun _ => Nat.le_refl _
    | succ n ih =>
      intro hn
      have hbefore := ih (by omega)
      have hfall := hstep n (hleft n (by omega))
      omega
  have hover := hlower (measure (s 0) + 1) (Nat.le_refl _)
  omega

end EconomyLab.Foundation
