import EconomyLab.Netting.Settling

/-!
# What recording a movement does

The screen adds a movement's wallet deltas to the registry and checks each debited wallet
against the session's opening balance. A movement it lets through enters the session.
-/

namespace EconomyLab

open Foundation

/-! ## The screen -/

def Screened (s : InstanceSession) (w : World) (a : AccountRef) : Prop :=
  ∃ opening, s.opening.get a = some opening ∧ 0 ≤ opening + w.pendingOf a

/-- The opening balances the session remembers, or the ledger's where it has none. -/
def openingOf (s : InstanceSession) (w : World) (a : AccountRef) : Int :=
  (s.opening.get a).getD (w.balanceOf a)

theorem openingBalance_spec {account : AccountRef} {s s' : InstanceSession} {w : World} {opening : Int}
    (h : openingBalance account s w = .ok (opening, s')) :
    s' = { s with opening := s'.opening } ∧ s'.opening.get account = some opening ∧
      (∀ a v, s.opening.get a = some v → s'.opening.get a = some v) ∧
      ∀ a, openingOf s' w a = openingOf s w a := by
  unfold openingBalance at h
  cases hk : s.opening.get account with
  | some known =>
    rw [hk] at h
    cases h
    exact ⟨rfl, hk, fun _ _ hv => hv, fun _ => rfl⟩
  | none =>
    rw [hk] at h
    obtain ⟨balance, hb, h⟩ := except_bind_ok.mp h
    rw [except_pure_ok] at h
    cases h
    have hbal : balance.minor = w.balanceOf account := (toAmount_eq_ok.mp hb).2
    refine ⟨rfl, by simp, ?_, ?_⟩
    · intro a v hv
      have hne : a ≠ account := by
        rintro rfl
        rw [hk] at hv
        cases hv
      simpa [hne] using hv
    · intro a
      by_cases ha : a = account
      · subst ha
        simp [openingOf, hk, hbal]
      · simp [openingOf, ha]

theorem unwindReservations_reserves (applied : List (AccountRef × Int)) (w : World) :
    w.Reserves (unwindReservations applied w) := by
  unfold unwindReservations
  generalize applied.reverse = entries
  induction entries generalizing w with
  | nil => exact World.Reserves.refl w
  | cons p entries ih => exact (w.addReservation_reserves p.1 (-p.2)).trans (ih _)

/-- What the screen leaves behind when it lets a movement through. -/
structure Passed (legs : List Leg) (s : InstanceSession) (w : World) (s' : InstanceSession)
    (w' : World) : Prop where
  kept : ∀ a, Screened s w a → Screened s' w' a
  screened : ∀ leg ∈ legs, isWalletAccount leg.account = true → leg.delta < 0 →
    Screened s' w' leg.account
  pending : ∀ a, isWalletAccount a = true → w'.pendingOf a = w.pendingOf a + total (deltas legs) a
  opening : ∀ a v, s'.opening.get a = some v → v = openingOf s w a

/-- The screen touches the registry and the remembered openings, and nothing else. -/
theorem reserveLegs_spec (legs : List Leg) (applied : List (AccountRef × Int)) (s : InstanceSession)
    (w : World) :
    (reserveLegs legs applied s w).2.1 =
        { s with opening := (reserveLegs legs applied s w).2.1.opening } ∧
      w.Reserves (reserveLegs legs applied s w).2.2 ∧
      ((reserveLegs legs applied s w).1 = .ok none →
        Passed legs s w (reserveLegs legs applied s w).2.1 (reserveLegs legs applied s w).2.2) := by
  induction legs generalizing applied s w with
  | nil =>
    refine ⟨rfl, World.Reserves.refl w, ?_⟩
    intro _
    refine ⟨fun _ h => h, by simp, by simp [reserveLegs], ?_⟩
    intro a v hv
    simp only [reserveLegs] at hv
    simp [openingOf, hv]
  | cons leg legs ih =>
    unfold reserveLegs
    by_cases hwallet : isWalletAccount leg.account = true
    · simp only [hwallet, Bool.not_true, Bool.false_eq_true, if_false]
      cases hd : balanceDelta leg with
      | error e => exact ⟨rfl, unwindReservations_reserves applied w, fun h => by cases h⟩
      | ok delta =>
        have hdm : delta.minor = leg.delta := (balanceDelta_minor hd).2
        have hadd := w.addReservation_reserves leg.account delta.minor
        have hpend := fun a => w.pendingOf_addReservation leg.account a delta.minor
        have hopening : ∀ (s : InstanceSession) a,
            openingOf s (w.addReservation leg.account delta.minor) a = openingOf s w a :=
          fun _ _ => rfl
        simp only
        by_cases hpos : 0 ≤ delta.minor
        · rw [if_pos hpos]
          obtain ⟨hs, hres, hok⟩ := ih (applied ++ [(leg.account, delta.minor)]) s
            (w.addReservation leg.account delta.minor)
          refine ⟨hs, hadd.trans hres, ?_⟩
          intro h
          obtain ⟨hkept, hscr, hpnd, hop⟩ := hok h
          refine ⟨?_, ?_, ?_, ?_⟩
          · rintro a ⟨opening, ho, hnn⟩
            apply hkept
            refine ⟨opening, ho, ?_⟩
            rw [hpend]
            split <;> omega
          · intro l hl hw hneg
            rcases List.mem_cons.mp hl with rfl | hl
            · omega
            · exact hscr l hl hw hneg
          · intro a ha
            rw [hpnd a ha, hpend, deltas_cons, total_cons, hdm]
            ring
          · intro a v hv
            rw [hop a v hv, hopening]
        · rw [if_neg hpos]
          cases ho : openingBalance leg.account s (w.addReservation leg.account delta.minor) with
          | error e =>
            exact ⟨rfl, hadd.trans (unwindReservations_reserves _ _), fun h => by cases h⟩
          | ok found =>
            obtain ⟨opening, s₁⟩ := found
            obtain ⟨hs₁, hknown, hmono, hsame⟩ := openingBalance_spec ho
            simp only
            by_cases hshort :
                opening + (w.addReservation leg.account delta.minor).pendingOf leg.account < 0
            · rw [if_pos hshort]
              exact ⟨hs₁, hadd.trans (unwindReservations_reserves _ _), fun h => by cases h⟩
            · rw [if_neg hshort]
              obtain ⟨hs, hres, hok⟩ := ih (applied ++ [(leg.account, delta.minor)]) s₁
                (w.addReservation leg.account delta.minor)
              refine ⟨?_, hadd.trans hres, ?_⟩
              · rw [hs, hs₁]
              intro h
              obtain ⟨hkept, hscr, hpnd, hop⟩ := hok h
              have hhead : Screened s₁ (w.addReservation leg.account delta.minor) leg.account :=
                ⟨opening, hknown, by omega⟩
              refine ⟨?_, ?_, ?_, ?_⟩
              · rintro a ⟨o, hoa, hnn⟩
                by_cases ha : a = leg.account
                · subst ha
                  exact hkept _ hhead
                · apply hkept
                  refine ⟨o, hmono a o hoa, ?_⟩
                  rw [hpend, if_neg (Ne.symm ha), add_zero]
                  exact hnn
              · intro l hl hw hneg
                rcases List.mem_cons.mp hl with rfl | hl
                · exact hkept _ hhead
                · exact hscr l hl hw hneg
              · intro a ha
                rw [hpnd a ha, hpend, deltas_cons, total_cons, hdm]
                ring
              · intro a v hv
                rw [hop a v hv, hsame, hopening]
    · have hwallet' : isWalletAccount leg.account = false := by simpa using hwallet
      simp only [hwallet', Bool.not_false, if_true]
      obtain ⟨hs, hres, hok⟩ := ih applied s w
      refine ⟨hs, hres, ?_⟩
      intro h
      obtain ⟨hkept, hscr, hpnd, hop⟩ := hok h
      refine ⟨hkept, ?_, ?_, hop⟩
      · intro l hl hw hneg
        rcases List.mem_cons.mp hl with rfl | hl
        · rw [hwallet'] at hw
          cases hw
        · exact hscr l hl hw hneg
      · intro a ha
        have hne : leg.account ≠ a := by
          rintro rfl
          exact hwallet ha
        rw [hpnd a ha, deltas_cons, total_cons, if_neg hne, zero_add]

def screenView (s : InstanceSession) (w : World) (legs : List Leg) (a : AccountRef) : Int :=
  openingOf s w a + w.pendingOf a + total (deltas legs) a

theorem exists_debit_of_total_neg {legs : List Leg} {a : AccountRef} (h : total (deltas legs) a < 0) :
    ∃ leg ∈ legs, leg.account = a ∧ leg.delta < 0 := by
  induction legs with
  | nil => simp at h
  | cons leg legs ih =>
    rw [deltas_cons, total_cons] at h
    by_cases hl : leg.account = a ∧ leg.delta < 0
    · exact ⟨leg, List.mem_cons_self, hl.1, hl.2⟩
    · have hrest : total (deltas legs) a < 0 := by
        by_cases ha : leg.account = a
        · have hd : ¬ leg.delta < 0 := fun hd => hl ⟨ha, hd⟩
          simp only [ha, if_true] at h
          omega
        · simpa [ha] using h
      obtain ⟨l, hm, ha, hd⟩ := ih hrest
      exact ⟨l, List.mem_cons_of_mem _ hm, ha, hd⟩

/-- A movement the screen lets through leaves no debited wallet with a negative figure. -/
theorem Passed.view_nonneg {legs : List Leg} {s s' : InstanceSession} {w w' : World}
    (h : Passed legs s w s' w') {a : AccountRef} (ha : isWalletAccount a = true)
    (hneg : total (deltas legs) a < 0) : 0 ≤ screenView s w legs a := by
  obtain ⟨leg, hl, rfl, hd⟩ := exists_debit_of_total_neg hneg
  obtain ⟨opening, ho, hnn⟩ := h.screened leg hl ha hd
  rw [h.opening _ _ ho, h.pending _ ha] at hnn
  unfold screenView
  omega

def nextMovement (env : Env) (request : MovementRequest) (s : InstanceSession) (w : World) : Movement where
  sessionId := s.sessionId
  seq := s.seq
  idempotencyKey := request.idempotencyKey
  legs := request.legs
  prevHash := s.head
  hash := chain env.digest s.head request.idempotencyKey request.legs
  recordedAt := env.clock w.ticks

/-- A call that adds no movement: it was refused, it faulted, or its key was known. -/
structure Unrecorded (s : InstanceSession) (w : World) (s' : InstanceSession) (w' : World) : Prop where
  session : s' = { s with opening := s'.opening, outcomes := s'.outcomes }
  outcomes : ∀ k, s.outcomes.get k ≠ none → s'.outcomes.get k ≠ none
  world : w.Reserves w'

/-- A movement entered the session and its batch, which a full one then flushed. -/
structure Recorded (env : Env) (request : MovementRequest) (s : InstanceSession) (w : World)
    (s' : InstanceSession) (w' : World) : Prop where
  unsettled : s.settled = false
  fresh : s.outcomes.get request.idempotencyKey = none
  checked : requireMovementLegs request.legs = .ok ()
  passed : ∃ s₁ w₁ : _, Passed request.legs s w s₁ w₁
  after : ∃ (s₁ : InstanceSession) (w₁ : World),
    s₁ = { s with
      opening := s₁.opening
      seq := s.seq + 1
      head := (nextMovement env request s w).hash
      accepted := s.accepted ++ [nextMovement env request s w]
      pending := s.pending ++ [nextMovement env request s w]
      outcomes := s.outcomes.set request.idempotencyKey (.accepted s.seq) } ∧
    w₁ = { w with reservations := w₁.reservations, ticks := w₁.ticks } ∧
    ((s', w') = (s₁, w₁) ∨ (s', w') = (flush s₁ w₁).2)

theorem record_cases (env : Env) (request : MovementRequest) (s : InstanceSession) (w : World) :
    Unrecorded s w (record env request s w).2.1 (record env request s w).2.2 ∨
      Recorded env request s w (record env request s w).2.1 (record env request s w).2.2 := by
  unfold record
  cases hset : s.settled with
  | true =>
    left
    exact ⟨rfl, fun _ h => h, World.Reserves.refl w⟩
  | false =>
    simp only [Bool.false_eq_true, if_false]
    cases hout : s.outcomes.get request.idempotencyKey with
    | some outcome =>
      left
      exact ⟨rfl, fun _ h => h, World.Reserves.refl w⟩
    | none =>
      simp only
      unfold reserve
      cases hreq : requireMovementLegs request.legs with
      | error e =>
        left
        exact ⟨rfl, fun _ h => h, World.Reserves.refl w⟩
      | ok u =>
        obtain ⟨hs, hres, hok⟩ := reserveLegs_spec request.legs [] s w
        rcases hr : reserveLegs request.legs [] s w with ⟨res, s₁, w₁⟩
        rw [hr] at hs hres hok
        simp only at hs hres hok ⊢
        cases res with
        | error e =>
          left
          simp only
          refine ⟨?_, ?_, hres⟩
          · rw [hs]
          · rw [hs]
            exact fun _ h => h
        | ok verdict =>
          cases verdict with
          | some code =>
            left
            simp only
            refine ⟨?_, ?_, hres⟩
            · rw [hs]
              rfl
            · rw [hs]
              intro k hk
              simp only [InstanceSession.remember]
              by_cases he : k = request.idempotencyKey <;> simp [he, hk]
          | none =>
            right
            have hw₁ : w₁.ticks = w.ticks := by rw [hres.same]
            refine ⟨hset, hout, hreq, ⟨s₁, w₁, hok rfl⟩, (accept env request s₁ w₁).1,
              (accept env request s₁ w₁).2, ?_, ?_, ?_⟩
            · unfold accept nextMovement
              rw [hs, hw₁]
              rfl
            · rw [hres.same]
              rfl
            · by_cases hfull : (accept env request s₁ w₁).1.maxBatch ≤
                  (accept env request s₁ w₁).1.pending.length
              · right
                simp only [hfull, if_true]
                rcases hf : flush (accept env request s₁ w₁).1 (accept env request s₁ w₁).2 with
                  ⟨r, s₂, w₂⟩
                cases r <;> rfl
              · left
                simp only [hfull, if_false]

def brokenJournal : Fault :=
  fault .chainBroken
    "The session journal failed to re-derive; refusing to settle over a tampered journal."

theorem flush_sessionId (s : InstanceSession) (w : World) : (flush s w).2.1.sessionId = s.sessionId := by
  unfold flush
  split
  · rfl
  · split <;> rfl

end EconomyLab
