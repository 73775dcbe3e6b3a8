import EconomyLab.Foundation.UndoLog

/-!
# Reversers that are exact up to what can be seen

Some writes are not taken back to the very rows they found, only to rows that read the
same. `near s t` says that `t` may stand for `s`; a journal recoils when its reversers lead
from whatever may stand for the rows now to something that may stand for the rows then.
-/

namespace EconomyLab.Foundation

universe u

namespace Journaled

variable {σ : Type u} {near : σ → σ → Prop}

/-- Since `j` the reversers recorded in `j'` lead back to the rows of `j`, up to `near`. -/
def Recoils (near : σ → σ → Prop) (j j' : Journaled σ) : Prop :=
  match j.undos, j'.undos with
  | none, none => True
  | some undos, some undos' =>
    ∃ new, undos' = new ++ undos ∧ ∀ t, near j'.rows t → near j.rows (unwind new t)
  | _, _ => False

namespace Recoils

variable {j j' : Journaled σ}

theorem refl (near : σ → σ → Prop) (j : Journaled σ) : Recoils near j j := by
  unfold Recoils
  cases j.undos with
  | none => trivial
  | some undos => exact ⟨[], rfl, fun t h => h⟩

/-- A recorded write, when its reverser leads from what may stand for the new rows to what
may stand for the old ones. -/
theorem write (h : Recoils near j j') {rows : σ} {undo : σ → σ}
    (hundo : ∀ t, near rows t → near j'.rows (undo t)) : Recoils near j (j'.write rows undo) := by
  unfold Recoils at *
  cases hu : j.undos with
  | none =>
    cases hu' : j'.undos with
    | none => simp [Journaled.write, record, hu']
    | some undos' => simp [hu, hu'] at h
  | some undos =>
    cases hu' : j'.undos with
    | none => simp [hu, hu'] at h
    | some undos' =>
      simp only [hu, hu'] at h
      obtain ⟨new, rfl, hnew⟩ := h
      simp only [Journaled.write, record, hu', Option.map_some]
      exact ⟨undo :: new, rfl, fun t ht => hnew _ (hundo t ht)⟩

/-- A change that records nothing, when what may stand for the new rows may stand for the old. -/
theorem silent (h : Recoils near j j') {rows : σ} (hrows : ∀ t, near rows t → near j'.rows t) :
    Recoils near j { j' with rows := rows } := by
  unfold Recoils at *
  cases hu : j.undos with
  | none =>
    cases hu' : j'.undos with
    | none => trivial
    | some undos' => simp [hu, hu'] at h
  | some undos =>
    cases hu' : j'.undos with
    | none => simp [hu, hu'] at h
    | some undos' =>
      simp only [hu, hu'] at h
      obtain ⟨new, rfl, hnew⟩ := h
      exact ⟨new, rfl, fun t ht => hnew t (hrows t ht)⟩

theorem popTo_append (new undos : List (σ → σ)) (s : σ) :
    popTo undos.length s (new ++ undos) = (unwind new s, undos) := by
  induction new generalizing s with
  | nil =>
    cases undos with
    | nil => rfl
    | cons undo undos => simp [popTo, unwind]
  | cons undo new ih =>
    have hlt : undos.length < (new ++ undos).length + 1 := by
      rw [List.length_append]
      omega
    simp only [List.cons_append, popTo, if_pos hlt, unwind]
    exact ih (undo s)

/-- Rolling back to the mark of `j` leaves rows that may stand for the rows of `j`. -/
theorem rollbackTo (h : Recoils near j j') (hopen : j.recording = true)
    (hrefl : near j'.rows j'.rows) :
    near j.rows (j'.rollbackTo j.mark).rows ∧ (j'.rollbackTo j.mark).undos = j.undos := by
  unfold Recoils at h
  cases hu : j.undos with
  | none => simp [recording, hu] at hopen
  | some undos =>
    cases hu' : j'.undos with
    | none => simp [hu, hu'] at h
    | some undos' =>
      simp only [hu, hu'] at h
      obtain ⟨new, rfl, hnew⟩ := h
      simp only [Journaled.rollbackTo, hu', mark, hu, Option.map_some, Option.getD_some, popTo_append]
      exact ⟨hnew _ hrefl, trivial⟩

/-- Rolling a transaction back that began at `j`. -/
theorem rollback {rows : σ} (h : Recoils near ⟨rows, some []⟩ j') (hrefl : near j'.rows j'.rows) :
    near rows j'.rollback.rows ∧ j'.rollback.undos = none := by
  unfold Recoils at h
  cases hu' : j'.undos with
  | none => simp [hu'] at h
  | some undos' =>
    simp only [hu', List.append_nil] at h
    obtain ⟨new, rfl, hnew⟩ := h
    simp only [Journaled.rollback, hu']
    exact ⟨hnew _ hrefl, trivial⟩

end Recoils

@[simp] theorem write_recording (j : Journaled σ) (rows : σ) (undo : σ → σ) :
    (j.write rows undo).recording = j.recording := by
  simp [Journaled.write, record, recording]

@[simp] theorem rollbackTo_recording (j : Journaled σ) (mark : Nat) :
    (j.rollbackTo mark).recording = j.recording := by
  obtain ⟨rows, undos⟩ := j
  cases undos <;> rfl

theorem Extends.recording_eq {j j' : Journaled σ} (h : j.Extends j') :
    j'.recording = j.recording := by
  unfold Extends at h
  unfold recording
  cases hu : j.undos with
  | none =>
    cases hu' : j'.undos with
    | none => rfl
    | some undos' => simp [hu, hu'] at h
  | some undos =>
    cases hu' : j'.undos with
    | none => simp [hu, hu'] at h
    | some undos' => rfl

/-- A write that is undone exactly recoils, whatever stands for the rows being the rows. -/
theorem Extends.recoils {j j' : Journaled σ} (h : j.Extends j') : Recoils Eq j j' := by
  unfold Extends at h
  unfold Recoils
  cases hu : j.undos with
  | none =>
    cases hu' : j'.undos with
    | none => trivial
    | some undos' => simp [hu, hu'] at h
  | some undos =>
    cases hu' : j'.undos with
    | none => simp [hu, hu'] at h
    | some undos' =>
      simp only [hu, hu'] at h
      obtain ⟨new, hnew, hrows⟩ := h
      refine ⟨new, hnew, fun t ht => ?_⟩
      subst ht
      exact hrows.symm

end Journaled

end EconomyLab.Foundation
