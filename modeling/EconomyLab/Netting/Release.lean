import EconomyLab.Netting.Posting

/-!
# Releasing a session's reservations

A process registry is released by the session object that holds it; a shared one by
whoever claims the release key first.
-/

namespace EconomyLab

open Foundation

namespace World

theorem pendingOf_addReservation (w : World) (account a : AccountRef) (delta : Int) :
    (w.addReservation account delta).pendingOf a =
      w.pendingOf a + if account = a then delta else 0 := by
  by_cases ha : account = a
  · subst ha
    simp [addReservation, pendingOf]
  · simp [addReservation, pendingOf, ha, Ne.symm ha]

/-- A world with other reservations, and nothing else changed. -/
structure Reserves (w w' : World) : Prop where
  same : w' = { w with reservations := w'.reservations }

theorem Reserves.refl (w : World) : w.Reserves w := ⟨rfl⟩

theorem Reserves.trans {w w' w'' : World} (h : w.Reserves w') (h' : w'.Reserves w'') :
    w.Reserves w'' := by
  refine ⟨?_⟩
  rw [h'.same, h.same]

theorem Reserves.ready {w w' : World} (h : w.Reserves w') (hw : w.Ready) : w'.Ready := by
  rw [h.same]
  obtain ⟨h1, h2, h3, h4, h5, h6, h7, h8, h9, h10⟩ := hw.closed
  exact ⟨⟨h1, h2, h3, h4, h5, h6, h7, h8, h9, h10⟩, hw.honest⟩

theorem Reserves.ledger {w w' : World} (h : w.Reserves w') : w'.ledger = w.ledger := by
  rw [h.same]

theorem Reserves.movements {w w' : World} (h : w.Reserves w') : w'.movements = w.movements := by
  rw [h.same]

theorem Reserves.balanceOf {w w' : World} (h : w.Reserves w') (a : AccountRef) :
    w'.balanceOf a = w.balanceOf a := by
  rw [h.same]
  rfl

theorem addReservation_reserves (w : World) (account : AccountRef) (delta : Int) :
    w.Reserves (w.addReservation account delta) := ⟨rfl⟩

end World

theorem foldl_addReservation (entries : List (AccountRef × Int)) (sign : Int) (w : World) :
    w.Reserves (entries.foldl (fun w p => w.addReservation p.1 (sign * p.2)) w) ∧
      ∀ a, (entries.foldl (fun w p => w.addReservation p.1 (sign * p.2)) w).pendingOf a =
        w.pendingOf a + sign * total entries a := by
  induction entries generalizing w with
  | nil => exact ⟨World.Reserves.refl w, by simp⟩
  | cons p entries ih =>
    obtain ⟨hres, hpend⟩ := ih (w.addReservation p.1 (sign * p.2))
    refine ⟨(w.addReservation_reserves p.1 (sign * p.2)).trans hres, ?_⟩
    intro a
    rw [List.foldl_cons, hpend, World.pendingOf_addReservation, total_cons]
    split <;> ring

theorem releaseAll_spec (movements : List Movement) (w : World) :
    w.Reserves (releaseAll movements w) ∧
      ∀ a, (releaseAll movements w).pendingOf a =
        w.pendingOf a - total (walletDeltas movements) a := by
  have hfold := foldl_addReservation (walletDeltas movements) (-1) w
  simp only [neg_one_mul] at hfold
  exact hfold

/-- Whether this release takes the session's reservations out of the registry. -/
def InstanceSession.releases (s : InstanceSession) (w : World) : Bool :=
  !s.released && (s.scope = .process ||
    (w.idempotency.rows.committed.get (releaseKey s.sessionId)).isNone)

theorem claimRelease_cases (env : Env) (sessionId : String) {w : World} (hw : w.Ready) :
    (∃ txn w', w.idempotency.rows.committed.get (releaseKey sessionId) = some txn ∧
      transaction (claimRelease env sessionId) w = (.ok false, w') ∧ w.SameTables w' ∧ w'.Ready) ∨
    (w.idempotency.rows.committed.get (releaseKey sessionId) = none ∧
      ∃ txn w', transaction (claimRelease env sessionId) w = (.ok true, w') ∧ w'.Ready ∧
        w'.ledger.book = w.ledger.book ∧ w'.movements = w.movements ∧
        w'.reservations = w.reservations ∧
        w'.idempotency.rows.committed =
          w.idempotency.rows.committed.set (releaseKey sessionId) txn) := by
  have hclosed := transaction_closed (claimRelease env sessionId) hw.closed
  have hbegin := hw.closed.beginAll
  cases hk : w.idempotency.rows.committed.get (releaseKey sessionId) with
  | some txn =>
    left
    have hk' : w.opened.idempotency.rows.committed.get (releaseKey sessionId) = some txn := hk
    have htr : transaction (claimRelease env sessionId) w = (.ok false, w.opened.commitAll) := by
      simp only [transaction, hbegin, claimRelease, Txn.claiming, hk', Txn.run_pure]
    have hsame := World.opened_commitAll hw.closed
    rw [htr] at hclosed
    exact ⟨txn, _, rfl, htr, hsame, hsame.ready hclosed hw⟩
  | none =>
    right
    have hk' : w.opened.idempotency.rows.committed.get (releaseKey sessionId) = none := hk
    obtain ⟨history, hh⟩ := hw.honest
    rcases htr : transaction (claimRelease env sessionId) w with ⟨res, w'⟩
    have hafter := htr
    simp only [transaction, hbegin, claimRelease, Txn.claiming, hk', Txn.run_bind, Txn.now,
      Txn.run_pure, Prod.mk.injEq] at hafter
    obtain ⟨rfl, rfl⟩ := hafter
    exact ⟨rfl, _, _, rfl, ⟨World.commitAll_closed _, history, hh⟩,
      congrArg (Journaled.mk w.ledger.book.rows) hw.closed.ledger.symm, rfl, rfl, rfl⟩

/-- A release always goes through; who wins the claim takes the reservations back. -/
theorem releaseReservations_ok (env : Env) (s : InstanceSession) {w : World} (hw : w.Ready) :
    ∃ w', releaseReservations env s w = (.ok (), { s with released := true }, w') ∧ w'.Ready ∧
      w'.ledger.book = w.ledger.book ∧ w'.movements = w.movements ∧
      (∀ a, w'.pendingOf a = w.pendingOf a -
        if s.releases w then total (walletDeltas s.accepted) a else 0) := by
  unfold releaseReservations InstanceSession.releases
  by_cases hr : s.released = true
  · have hs : ({ s with released := true } : InstanceSession) = s := by rw [← hr]
    rw [if_pos hr, hs]
    exact ⟨w, rfl, hw, rfl, rfl, by simp [hr]⟩
  · rw [if_neg hr]
    have hr' : s.released = false := by simpa using hr
    obtain ⟨hres, hpend⟩ := releaseAll_spec s.accepted w
    cases hscope : s.scope with
    | process =>
      refine ⟨_, rfl, hres.ready hw, congrArg MemoryLedger.book hres.ledger,
        by rw [hres.same], ?_⟩
      intro a
      rw [hpend]
      simp [hr']
    | shared =>
      rcases claimRelease_cases env s.sessionId hw with
        ⟨txn, w', hk, htr, hsame, hready⟩ | ⟨hk, txn, w', htr, hready, hbook, hmv, hresv, -⟩
      · refine ⟨w', by simp only [htr], hready, hsame.ledger, hsame.movements, ?_⟩
        intro a
        simp [World.pendingOf, hsame.reservations, hk]
      · obtain ⟨hres', hpend'⟩ := releaseAll_spec s.accepted w'
        refine ⟨_, by simp only [htr], hres'.ready hready,
          (congrArg MemoryLedger.book hres'.ledger).trans hbook, by rw [hres'.same, ← hmv], ?_⟩
        intro a
        rw [hpend']
        simp [World.pendingOf, hresv, hk, hr']

end EconomyLab
