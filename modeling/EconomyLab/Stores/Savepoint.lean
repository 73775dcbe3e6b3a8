import EconomyLab.Stores.View

/-!
# Savepoints

Rolling back to a mark gives the marked rows back, and leaves only what no journal records: the
ledger's sequence, the minted ids and the clock's readings.
-/

namespace EconomyLab

open Foundation Journaled

/-- Every journal rolls back to the mark it had in `marked`. -/
def World.rollbackTo (marked w : World) : World :=
  { w with
    ledger := { w.ledger with book := w.ledger.book.rollbackTo marked.ledger.book.mark }
    idempotency := w.idempotency.rollbackTo marked.idempotency.mark
    sales := w.sales.rollbackTo marked.sales.mark
    outbox := w.outbox.rollbackTo marked.outbox.mark
    sagas := w.sagas.rollbackTo marked.sagas.mark
    entitlements := w.entitlements.rollbackTo marked.entitlements.mark
    subscriptions := w.subscriptions.rollbackTo marked.subscriptions.mark
    promos := w.promos.rollbackTo marked.promos.mark
    trust := w.trust.rollbackTo marked.trust.mark
    accruals := w.accruals.rollbackTo marked.accruals.mark }

theorem AddsKeys.extends {j j' : Journaled IdempotencyTables} (h : AddsKeys j j') : j.Extends j' := by
  unfold AddsKeys at h
  unfold Journaled.Extends
  cases hu : j.undos with
  | none =>
    cases hu' : j'.undos with
    | none => trivial
    | some undos' => simp [hu, hu'] at h
  | some undos =>
    cases hu' : j'.undos with
    | none => simp [hu, hu'] at h
    | some undos' =>
      simp only [hu, hu'] at h
      obtain ⟨new, keys, born, hnew, hunwind, hkeys, hborn, hsame, hbsame⟩ := h
      refine ⟨new, hnew, ?_⟩
      obtain ⟨⟨committed, bornAt⟩, undos⟩ := j
      rw [hunwind]
      unfold IdempotencyTables.without
      congr 1
      · ext1 k
        by_cases hk : k ∈ keys
        · simpa [hk] using (hkeys k hk).symm
        · simpa [hk] using hsame k hk
      · ext1 k
        by_cases hk : k ∈ born
        · simpa [hk] using (hborn k hk).symm
        · simpa [hk] using hbsame k hk

/-- Rolling back to the mark of an open journal undoes all that was written since. -/
theorem Foundation.Journaled.Extends.rollbackTo {σ : Type} {j j' : Journaled σ} (h : j.Extends j')
    (hopen : j.recording = true) : j'.rollbackTo j.mark = j := by
  obtain ⟨hrows, hundos⟩ := h.recoils.rollbackTo hopen rfl
  rcases hj : j'.rollbackTo j.mark with ⟨rows, undos⟩
  rw [hj] at hrows hundos
  simp only at hrows hundos
  rw [← hrows, hundos]

namespace World

structure Recording (w : World) : Prop where
  ledger : w.ledger.book.recording = true
  idempotency : w.idempotency.recording = true
  sales : w.sales.recording = true
  outbox : w.outbox.recording = true
  sagas : w.sagas.recording = true
  entitlements : w.entitlements.recording = true
  subscriptions : w.subscriptions.recording = true
  promos : w.promos.recording = true
  trust : w.trust.recording = true
  accruals : w.accruals.recording = true

theorem opened_recording (w : World) : w.opened.Recording :=
  ⟨rfl, rfl, rfl, rfl, rfl, rfl, rfl, rfl, rfl, rfl⟩

variable {w w' : World}

theorem Extends.recording (h : w.Extends w') (hr : w.Recording) (ht : w'.trust.recording = true) :
    w'.Recording where
  ledger := h.ledger.recording_eq.trans hr.ledger
  idempotency := h.idempotency.extends.recording_eq.trans hr.idempotency
  sales := h.sales.recording_eq.trans hr.sales
  outbox := h.outbox.recording_eq.trans hr.outbox
  sagas := h.sagas.recording_eq.trans hr.sagas
  entitlements := h.entitlements.recording_eq.trans hr.entitlements
  subscriptions := h.subscriptions.recording_eq.trans hr.subscriptions
  promos := h.promos.recording_eq.trans hr.promos
  trust := ht
  accruals := h.accruals.recording_eq.trans hr.accruals

/-- The rows of `w` with what `w'` has burned. -/
def burned (w w' : World) : World :=
  { w with ledger := { w.ledger with seq := w'.ledger.seq }, ticks := w'.ticks, minted := w'.minted }

theorem rollbackTo_eq (h : w.Extends w') (hr : w.Recording) :
    w.rollbackTo w' = { w.burned w' with trust := w'.trust.rollbackTo w.trust.mark } := by
  unfold World.rollbackTo World.burned
  rw [h.ledger.rollbackTo hr.ledger, h.idempotency.extends.rollbackTo hr.idempotency,
    h.sales.rollbackTo hr.sales, h.outbox.rollbackTo hr.outbox, h.sagas.rollbackTo hr.sagas,
    h.entitlements.rollbackTo hr.entitlements, h.subscriptions.rollbackTo hr.subscriptions,
    h.promos.rollbackTo hr.promos, h.accruals.rollbackTo hr.accruals]
  obtain ⟨ledger, idempotency, sales, outbox, sagas, entitlements, subscriptions, promos, accruals, trust,
    movements, reservations, ticks, minted⟩ := w'
  have hmovements : movements = w.movements := h.movements
  have hreservations : reservations = w.reservations := h.reservations
  rw [hmovements, hreservations]

theorem rollbackTo_view (h : w.Extends w') (hr : w.Recording) :
    (w.rollbackTo w').view = (w.burned w').view := by
  rw [rollbackTo_eq h hr]
  rfl

theorem rollbackTo_recording (h : w.Extends w') (hr : w.Recording) (ht : w'.trust.recording = true) :
    (w.rollbackTo w').Recording := by
  rw [rollbackTo_eq h hr]
  exact { hr with trust := (Journaled.rollbackTo_recording _ _).trans ht }

theorem rollbackTo_sound (h : w.Extends w') (hr : w.Recording) (hs : w.Sound) :
    (w.rollbackTo w').Sound := by
  rw [rollbackTo_eq h hr]
  exact ⟨hs.lots, hs.columns⟩

theorem rollbackAll_view (hc : w.Closed) (h : w.opened.Extends w') :
    w'.rollbackAll.view = (w.burned w').view := by
  have hsame := rollbackAll_sameTables hc h
  have hview : ∀ v : World, w.SameTables v → v.view = (w.burned v).view := by
    intro v hv
    obtain ⟨⟨book, seq⟩, idempotency, sales, outbox, sagas, entitlements, subscriptions, promos, accruals,
      trust, movements, reservations, ticks, minted⟩ := v
    obtain ⟨hledger, hidempotency, hsales, houtbox, hsagas, hentitlements, hsubscriptions, hpromos,
      haccruals, hmovements, hreservations⟩ := hv
    cases hledger
    cases hidempotency
    cases hsales
    cases houtbox
    cases hsagas
    cases hentitlements
    cases hsubscriptions
    cases hpromos
    cases haccruals
    cases hmovements
    cases hreservations
    rfl
  exact hview _ hsame

theorem burned_view {v v' : World} (h : w.view = v.view) (h' : w'.view = v'.view) :
    (w.burned w').view = (v.burned v').view := by
  have hburned : ∀ a b : World, (a.burned b).view = a.view.burned b.view := fun _ _ => rfl
  rw [hburned, hburned, h, h']

end World

end EconomyLab
