import Mathlib.Data.List.Basic

/-!
# Trials on a shared state

A trial gives a value and a new state, or it fails, and what it wrote until then is to be taken
back. Several trials can be run each on its own, or all together.
-/

namespace EconomyLab.Foundation

universe u v w

/-- What a piece of work answers, and the state it leaves, a failing one included. -/
abbrev Trial (σ : Type u) (ε : Type v) (α : Type w) := σ → Except ε α × σ

namespace Trial

variable {σ : Type u} {ε : Type v} {α : Type w}

/-- A trial that fails leaves the state it found. -/
def isolated (trial : Trial σ ε α) : Trial σ ε α := fun s =>
  match trial s with
  | (.ok a, s') => (.ok a, s')
  | (.error e, _) => (.error e, s)

def each : List (Trial σ ε α) → σ → List (Except ε α) × σ
  | [], s => ([], s)
  | trial :: trials, s =>
    let first := trial.isolated s
    let rest := each trials first.2
    (first.1 :: rest.1, rest.2)

/-- All trials in order; the first that fails ends the run where it stands. -/
def together : List (Trial σ ε α) → Trial σ ε (List α)
  | [], s => (.ok [], s)
  | trial :: trials, s =>
    match trial s with
    | (.error e, s') => (.error e, s')
    | (.ok a, s') =>
      match together trials s' with
      | (.error e, s'') => (.error e, s'')
      | (.ok values, s'') => (.ok (a :: values), s'')

/-- No trial fails for a reason of the given kind. -/
def Without (kind : ε → Bool) (trials : List (Trial σ ε α)) : Prop :=
  ∀ trial ∈ trials, ∀ s e s', trial s = (.error e, s') → kind e = false

section Isolated

variable {trial : Trial σ ε α} {s s' : σ}

theorem isolated_ok {a : α} (h : trial s = (.ok a, s')) : trial.isolated s = (.ok a, s') := by
  simp [isolated, h]

theorem isolated_error {e : ε} (h : trial s = (.error e, s')) : trial.isolated s = (.error e, s) := by
  simp [isolated, h]

end Isolated

theorem each_length (trials : List (Trial σ ε α)) (s : σ) : (each trials s).1.length = trials.length := by
  induction trials generalizing s with
  | nil => simp [each]
  | cons trial trials ih => simp [each, ih]

theorem each_append (trials more : List (Trial σ ε α)) (s : σ) :
    each (trials ++ more) s =
      ((each trials s).1 ++ (each more (each trials s).2).1, (each more (each trials s).2).2) := by
  induction trials generalizing s with
  | nil => simp [each]
  | cons trial trials ih => simp [each, ih]

variable {trials : List (Trial σ ε α)} {s s' : σ} {e : ε}

theorem each_of_together_ok {values : List α}
    (h : together trials s = (.ok values, s')) : each trials s = (values.map .ok, s') := by
  induction trials generalizing s values with
  | nil =>
    cases h
    simp [each]
  | cons trial trials ih =>
    rcases hfirst : trial s with ⟨answer, t⟩
    cases answer with
    | error e => simp [together, hfirst] at h
    | ok a =>
      rcases hrest : together trials t with ⟨answers, t'⟩
      cases answers with
      | error e => simp [together, hfirst, hrest] at h
      | ok rest =>
        simp only [together, hfirst, hrest, Prod.mk.injEq, Except.ok.injEq] at h
        obtain ⟨rfl, rfl⟩ := h
        simp [each, isolated_ok hfirst, ih hrest]

theorem together_error
    (h : together trials s = (.error e, s')) : ∃ trial ∈ trials, ∃ t t', trial t = (.error e, t') := by
  induction trials generalizing s with
  | nil => simp [together] at h
  | cons trial trials ih =>
    rcases hfirst : trial s with ⟨answer, t⟩
    cases answer with
    | error found =>
      simp only [together, hfirst, Prod.mk.injEq, Except.error.injEq] at h
      obtain ⟨rfl, rfl⟩ := h
      exact ⟨trial, List.mem_cons_self, s, t, hfirst⟩
    | ok a =>
      rcases hrest : together trials t with ⟨answers, t'⟩
      cases answers with
      | ok rest => simp [together, hfirst, hrest] at h
      | error found =>
        simp only [together, hfirst, hrest, Prod.mk.injEq, Except.error.injEq] at h
        obtain ⟨rfl, rfl⟩ := h
        obtain ⟨failing, hmem, hfails⟩ := ih hrest
        exact ⟨failing, List.mem_cons_of_mem _ hmem, hfails⟩

theorem Without.together {kind : ε → Bool} (h : Without kind trials)
    (hrun : together trials s = (.error e, s')) : kind e = false := by
  obtain ⟨trial, hmem, t, t', hfails⟩ := together_error hrun
  exact h trial hmem t e t' hfails

theorem each_singleton_error {trial : Trial σ ε α}
    (h : together [trial] s = (.error e, s')) : each [trial] s = ([.error e], s) := by
  rcases hfirst : trial s with ⟨answer, t⟩
  cases answer with
  | ok a => simp [together, hfirst] at h
  | error found =>
    simp only [together, hfirst, Prod.mk.injEq, Except.error.injEq] at h
    obtain ⟨rfl, -⟩ := h
    simp [each, isolated_error hfirst]

end Trial

end EconomyLab.Foundation
