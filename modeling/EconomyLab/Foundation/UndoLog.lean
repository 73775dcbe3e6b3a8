import Mathlib.Data.List.Basic
import Mathlib.Tactic.Cases

/-!
# Undo logs and savepoints

While a transaction is open every write records a reverser; rolling back runs them
newest first. The specification is a value that keeps its earlier versions: rolling
back returns to one of them. A log whose reversers are exact simulates it.
-/

namespace EconomyLab.Foundation

universe u v

/-- Rows with the reversers of the open transaction, newest first; `none` outside one. -/
structure Journaled (σ : Type u) where
  rows : σ
  undos : Option (List (σ → σ))

/-- Rows with the versions they had before each write of the open transaction. -/
structure Versioned (α : Type v) where
  rows : α
  past : Option (List α)

namespace Journaled

variable {σ : Type u}

def recording (j : Journaled σ) : Bool := j.undos.isSome

/-- Transactions do not nest: an open one refuses. -/
def begin (j : Journaled σ) : Option (Journaled σ) :=
  match j.undos with
  | some _ => none
  | none => some { j with undos := some [] }

def commit (j : Journaled σ) : Journaled σ := { j with undos := none }

def unwind : List (σ → σ) → σ → σ
  | [], s => s
  | undo :: undos, s => unwind undos (undo s)

def rollback (j : Journaled σ) : Journaled σ :=
  match j.undos with
  | none => j
  | some undos => ⟨unwind undos j.rows, none⟩

def record (j : Journaled σ) (undo : σ → σ) : Journaled σ :=
  { j with undos := j.undos.map (undo :: ·) }

def mark (j : Journaled σ) : Nat := (j.undos.map List.length).getD 0

def popTo (mark : Nat) : σ → List (σ → σ) → σ × List (σ → σ)
  | s, [] => (s, [])
  | s, undo :: undos =>
    if mark < undos.length + 1 then popTo mark (undo s) undos else (s, undo :: undos)

def rollbackTo (j : Journaled σ) (mark : Nat) : Journaled σ :=
  match j.undos with
  | none => j
  | some undos => ⟨(popTo mark j.rows undos).1, some (popTo mark j.rows undos).2⟩

def write (j : Journaled σ) (rows : σ) (undo : σ → σ) : Journaled σ :=
  { j with rows := rows }.record undo

end Journaled

namespace Versioned

variable {α : Type v}

def recording (v : Versioned α) : Bool := v.past.isSome

def begin (v : Versioned α) : Option (Versioned α) :=
  match v.past with
  | some _ => none
  | none => some { v with past := some [] }

def commit (v : Versioned α) : Versioned α := { v with past := none }

def oldest : α → List α → α
  | a, [] => a
  | _, p :: past => oldest p past

def rollback (v : Versioned α) : Versioned α :=
  match v.past with
  | none => v
  | some past => ⟨oldest v.rows past, none⟩

def mark (v : Versioned α) : Nat := (v.past.map List.length).getD 0

def popTo (mark : Nat) : α → List α → α × List α
  | a, [] => (a, [])
  | a, p :: past => if mark < past.length + 1 then popTo mark p past else (a, p :: past)

def rollbackTo (v : Versioned α) (mark : Nat) : Versioned α :=
  match v.past with
  | none => v
  | some past => ⟨(popTo mark v.rows past).1, some (popTo mark v.rows past).2⟩

def write (v : Versioned α) (rows : α) : Versioned α :=
  ⟨rows, v.past.map (v.rows :: ·)⟩

/-- The rows as they were when the transaction had made `mark` writes. -/
def versionAt (v : Versioned α) (mark : Nat) : Option α :=
  v.past.bind fun past => if mark ≤ past.length then some (popTo mark v.rows past).1 else none

theorem popTo_length_le (mark : Nat) (a : α) (past : List α) :
    (popTo mark a past).2.length = min mark past.length := by
  induction past generalizing a with
  | nil => simp [popTo]
  | cons p past ih =>
    unfold popTo
    split
    · rw [ih, List.length_cons]
      omega
    · rw [List.length_cons]
      omega

theorem popTo_popTo {m n : Nat} (h : m ≤ n) (a : α) (past : List α) :
    popTo m (popTo n a past).1 (popTo n a past).2 = popTo m a past := by
  induction past generalizing a with
  | nil => simp [popTo]
  | cons p past ih =>
    by_cases hn : n < past.length + 1
    · have hm : m < past.length + 1 := Nat.lt_of_le_of_lt h hn
      simp only [popTo, hn, hm, if_true]
      exact ih p
    · simp [popTo, hn]

theorem popTo_zero (a : α) (past : List α) : popTo 0 a past = (oldest a past, []) := by
  induction past generalizing a with
  | nil => rfl
  | cons p past ih => simp [popTo, oldest, ih]

theorem popTo_length_self (a : α) (past : List α) : popTo past.length a past = (a, past) := by
  cases past <;> simp [popTo]

variable {v : Versioned α} {a : α}

theorem versionAt_mark (h : v.recording) : v.versionAt v.mark = some v.rows := by
  obtain ⟨rows, past⟩ := v
  cases past with
  | none => simp [recording] at h
  | some past => simp [versionAt, mark, popTo_length_self]

theorem versionAt_write {m : Nat} (h : v.versionAt m = some a) (b : α) :
    (v.write b).versionAt m = some a := by
  obtain ⟨rows, past⟩ := v
  cases past with
  | none => simp [versionAt] at h
  | some past =>
    have hm : m ≤ past.length := by
      by_contra hm
      simp [versionAt, hm] at h
    have hle : m < past.length + 1 := Nat.lt_succ_of_le hm
    have hle' : m ≤ past.length + 1 := Nat.le_of_lt hle
    simp only [versionAt, Option.bind_some, hm, if_true] at h
    simpa [versionAt, write, popTo, hle, hle'] using h

theorem versionAt_rollbackTo {m n : Nat} (h : v.versionAt m = some a)
    (hmn : m ≤ n) : (v.rollbackTo n).versionAt m = some a := by
  obtain ⟨rows, past⟩ := v
  cases past with
  | none => simp [versionAt] at h
  | some past =>
    have hm : m ≤ past.length := by
      by_contra hm
      simp [versionAt, hm] at h
    have hlen : m ≤ (popTo n rows past).2.length := by
      rw [popTo_length_le]
      exact Nat.le_min.mpr ⟨hmn, hm⟩
    simp only [versionAt, Option.bind_some, hm, if_true] at h
    simpa [versionAt, rollbackTo, hlen, popTo_popTo hmn] using h

theorem rollbackTo_rows {m : Nat} (h : v.versionAt m = some a) : (v.rollbackTo m).rows = a := by
  obtain ⟨rows, past⟩ := v
  cases past with
  | none => simp [versionAt] at h
  | some past =>
    simp only [versionAt, Option.bind_some] at h
    split at h
    · simpa [rollbackTo] using h
    · cases h

theorem rollback_rows (h : v.versionAt 0 = some a) : v.rollback.rows = a := by
  obtain ⟨rows, past⟩ := v
  cases past with
  | none => simp [versionAt] at h
  | some past => simpa [versionAt, rollback, popTo_zero] using h

/-- The rows and every version they can be rolled back to. -/
def All (P : α → Prop) (v : Versioned α) : Prop :=
  P v.rows ∧ ∀ past, v.past = some past → ∀ a ∈ past, P a

variable {P : α → Prop}

theorem All.write (h : v.All P) {next : α} (hn : P next) : (v.write next).All P := by
  refine ⟨hn, ?_⟩
  intro past hp
  obtain ⟨rows, old⟩ := v
  cases old with
  | none => cases hp
  | some old =>
    cases hp
    intro a ha
    rcases List.mem_cons.mp ha with rfl | ha
    · exact h.1
    · exact h.2 old rfl a ha

theorem all_popTo (mark : Nat) {past : List α} (ha : P a) (hp : ∀ b ∈ past, P b) :
    P (popTo mark a past).1 ∧ ∀ b ∈ (popTo mark a past).2, P b := by
  induction past generalizing a with
  | nil => exact ⟨ha, hp⟩
  | cons p past ih =>
    unfold popTo
    split
    · exact ih (hp p List.mem_cons_self) fun b hb => hp b (List.mem_cons_of_mem _ hb)
    · exact ⟨ha, hp⟩

theorem All.rollbackTo (h : v.All P) (mark : Nat) : (v.rollbackTo mark).All P := by
  obtain ⟨rows, past⟩ := v
  cases past with
  | none => exact h
  | some past =>
    have hp := all_popTo mark h.1 (h.2 past rfl)
    refine ⟨hp.1, ?_⟩
    intro past' he
    cases he
    exact hp.2

theorem All.rollback (h : v.All P) : v.rollback.All P := by
  obtain ⟨rows, past⟩ := v
  cases past with
  | none => exact h
  | some past =>
    have hp := all_popTo 0 h.1 (h.2 past rfl)
    rw [popTo_zero] at hp
    refine ⟨hp.1, ?_⟩
    intro past' he
    cases he

theorem All.begin (h : v.All P) : (v.begin.getD v).All P := by
  obtain ⟨rows, past⟩ := v
  cases past with
  | none => exact ⟨h.1, by simp [Versioned.begin]⟩
  | some past => exact h

theorem All.commit (h : v.All P) : v.commit.All P :=
  ⟨h.1, by simp [Versioned.commit]⟩

end Versioned

/-! ## A log with exact reversers simulates the versions -/

section Simulation

variable {σ : Type u} {α : Type v} (R : σ → α → Prop)

/-- Each reverser takes the rows back to ones related to the version before that write. -/
inductive Reverts : σ → List (σ → σ) → List α → Prop
  | nil (s : σ) : Reverts s [] []
  | cons {s : σ} {undo : σ → σ} {undos : List (σ → σ)} {p : α} {past : List α} :
      R (undo s) p → Reverts (undo s) undos past → Reverts s (undo :: undos) (p :: past)

structure Simulates (j : Journaled σ) (v : Versioned α) : Prop where
  rows : R j.rows v.rows
  undos : match j.undos, v.past with
    | none, none => True
    | some undos, some past => Reverts R j.rows undos past
    | _, _ => False

variable {R}

variable {s : σ} {undos : List (σ → σ)} {past : List α} {a : α}

theorem Reverts.unwind (h : Reverts R s undos past) (ha : R s a) :
    R (Journaled.unwind undos s) (Versioned.oldest a past) := by
  induction h generalizing a with
  | nil s => exact ha
  | cons hp _ ih => exact ih hp

theorem Reverts.length_eq (h : Reverts R s undos past) : undos.length = past.length := by
  induction h with
  | nil => rfl
  | cons _ _ ih => simp [ih]

theorem Reverts.popTo (h : Reverts R s undos past) (ha : R s a) (m : Nat) :
    R (Journaled.popTo m s undos).1 (Versioned.popTo m a past).1 ∧
      Reverts R (Journaled.popTo m s undos).1 (Journaled.popTo m s undos).2
        (Versioned.popTo m a past).2 := by
  induction h generalizing a with
  | nil s => exact ⟨ha, Reverts.nil s⟩
  | cons hp ht ih =>
    simp only [Journaled.popTo, Versioned.popTo, ht.length_eq]
    split
    · exact ih hp
    · exact ⟨ha, Reverts.cons hp ht⟩

namespace Simulates

variable {j : Journaled σ} {v : Versioned α}

theorem recording_eq (h : Simulates R j v) : j.recording = v.recording := by
  obtain ⟨s, undos⟩ := j
  obtain ⟨a, past⟩ := v
  have := h.undos
  cases undos <;> cases past <;> simp_all [Journaled.recording, Versioned.recording]

theorem mark_eq (h : Simulates R j v) : j.mark = v.mark := by
  obtain ⟨s, undos⟩ := j
  obtain ⟨a, past⟩ := v
  have hu := h.undos
  cases undos with
  | none => cases past <;> simp_all [Journaled.mark, Versioned.mark]
  | some undos =>
    cases past with
    | none => simp at hu
    | some past => simpa [Journaled.mark, Versioned.mark] using Reverts.length_eq hu

theorem commit (h : Simulates R j v) : Simulates R j.commit v.commit :=
  ⟨h.rows, trivial⟩

theorem begin (h : Simulates R j v) :
    Simulates R (j.begin.getD j) (v.begin.getD v) := by
  obtain ⟨s, undos⟩ := j
  obtain ⟨a, past⟩ := v
  have hu := h.undos
  cases undos with
  | none =>
    cases past with
    | none => exact ⟨h.rows, Reverts.nil s⟩
    | some past => simp at hu
  | some undos =>
    cases past with
    | none => simp at hu
    | some past => exact h

theorem write (h : Simulates R j v) {rows : σ} {undo : σ → σ} (hrows : R rows a)
    (hundo : undo rows = j.rows) : Simulates R (j.write rows undo) (v.write a) := by
  obtain ⟨s, undos⟩ := j
  obtain ⟨b, past⟩ := v
  have hu := h.undos
  refine ⟨hrows, ?_⟩
  cases undos with
  | none =>
    cases past with
    | none => trivial
    | some past => simp at hu
  | some undos =>
    cases past with
    | none => simp at hu
    | some past =>
      have hb : R (undo rows) b := by rw [hundo]; exact h.rows
      have hr : Reverts R (undo rows) undos past := by rw [hundo]; exact hu
      exact Reverts.cons hb hr

theorem rollback (h : Simulates R j v) : Simulates R j.rollback v.rollback := by
  obtain ⟨s, undos⟩ := j
  obtain ⟨a, past⟩ := v
  have hu := h.undos
  cases undos with
  | none =>
    cases past with
    | none => exact h
    | some past => simp at hu
  | some undos =>
    cases past with
    | none => simp at hu
    | some past => exact ⟨Reverts.unwind hu h.rows, trivial⟩

theorem rollbackTo (h : Simulates R j v) (m : Nat) :
    Simulates R (j.rollbackTo m) (v.rollbackTo m) := by
  obtain ⟨s, undos⟩ := j
  obtain ⟨a, past⟩ := v
  have hu := h.undos
  cases undos with
  | none =>
    cases past with
    | none => exact h
    | some past => simp at hu
  | some undos =>
    cases past with
    | none => simp at hu
    | some past =>
      have hp := Reverts.popTo hu h.rows m
      exact ⟨hp.1, hp.2⟩

end Simulates

end Simulation

namespace Journaled

variable {σ : Type u}

/-- Unwinding what `j'` recorded past `j` gives the rows of `j` back. -/
def Extends (j j' : Journaled σ) : Prop :=
  match j.undos, j'.undos with
  | none, none => True
  | some undos, some undos' => ∃ new, undos' = new ++ undos ∧ unwind new j'.rows = j.rows
  | _, _ => False

theorem unwind_append (us vs : List (σ → σ)) (s : σ) :
    unwind (us ++ vs) s = unwind vs (unwind us s) := by
  induction us generalizing s with
  | nil => rfl
  | cons u us ih => exact ih (u s)

theorem Extends.refl (j : Journaled σ) : j.Extends j := by
  unfold Extends
  cases j.undos with
  | none => trivial
  | some undos => exact ⟨[], rfl, rfl⟩

theorem Extends.trans {j j' j'' : Journaled σ} (h : j.Extends j') (h' : j'.Extends j'') :
    j.Extends j'' := by
  unfold Extends at *
  cases hu : j.undos with
  | none =>
    cases hu' : j'.undos with
    | none =>
      cases hu'' : j''.undos with
      | none => trivial
      | some us'' => simp [hu', hu''] at h'
    | some us => simp [hu, hu'] at h
  | some us =>
    cases hu' : j'.undos with
    | none => simp [hu, hu'] at h
    | some us' =>
      cases hu'' : j''.undos with
      | none => simp [hu', hu''] at h'
      | some us'' =>
        simp only [hu, hu'] at h
        simp only [hu', hu''] at h'
        obtain ⟨new, rfl, hrows⟩ := h
        obtain ⟨new', rfl, hrows'⟩ := h'
        refine ⟨new' ++ new, (List.append_assoc ..).symm, ?_⟩
        rw [unwind_append, hrows', hrows]

theorem Extends.write (j : Journaled σ) {rows : σ} {undo : σ → σ} (h : undo rows = j.rows) :
    j.Extends (j.write rows undo) := by
  obtain ⟨s, undos⟩ := j
  cases undos with
  | none => trivial
  | some undos => exact ⟨[undo], rfl, h⟩

/-- A transaction that failed leaves the rows it began with. -/
theorem Extends.rollback {j j' : Journaled σ} (h : Extends { j with undos := some [] } j') :
    j'.rollback = { j with undos := none } := by
  obtain ⟨s', undos'⟩ := j'
  cases undos' with
  | none => simp [Extends] at h
  | some undos' =>
    obtain ⟨new, hnew, hrows⟩ := h
    rw [List.append_nil] at hnew
    subst hnew
    exact congrArg (Journaled.mk · none) hrows

end Journaled

end EconomyLab.Foundation
