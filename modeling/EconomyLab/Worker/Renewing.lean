import EconomyLab.Chain.Chronicle
import EconomyLab.Worker.Subscriptions

/-!
# What a renewal reads of the history

Two stores that differ only in how much history their ledgers still hold answer every step
of a renewal alike but two: the matured funds of the buyer and the first charge.
-/

namespace EconomyLab

open Foundation

/-! ## Steps that read no history -/

/-- The same store, but for the log and what is indexed from it. -/
structure World.Alike (w w' : World) : Prop where
  rest : w' = { w with ledger := w'.ledger }
  heads : w'.ledger.tables.heads = w.ledger.tables.heads
  balances : w'.ledger.tables.balances = w.ledger.tables.balances
  seq : w'.ledger.seq = w.ledger.seq

namespace World.Alike

variable {w w' : World} (h : w.Alike w')
include h

theorem idempotency : w'.idempotency = w.idempotency := by rw [h.rest]

theorem ticks : w'.ticks = w.ticks := by rw [h.rest]

theorem withIdempotency (j : Journaled IdempotencyTables) :
    (w.withIdempotency j).Alike (w'.withIdempotency j) := by
  refine ⟨?_, h.heads, h.balances, h.seq⟩
  unfold World.withIdempotency
  rw [h.rest]

end World.Alike

namespace Txn

variable {α β : Type}

/-- The step answers alike on stores that are alike, and keeps them alike. -/
def Blind (x : Txn α) : Prop :=
  ∀ w w' : World, w.Alike w' → (x.run w').1 = (x.run w).1 ∧ (x.run w).2.Alike (x.run w').2

theorem Blind.lift (r : Except Fault α) : Blind (Txn.lift r) := fun _ _ h => ⟨rfl, h⟩

theorem Blind.pure (a : α) : Blind (Pure.pure a : Txn α) := fun _ _ h => ⟨rfl, h⟩

theorem Blind.bind {x : Txn α} {f : α → Txn β} (hx : Blind x) (hf : ∀ a, Blind (f a)) :
    Blind (x >>= f) := by
  intro w w' h
  obtain ⟨hanswer, halike⟩ := hx w w' h
  rw [run_bind, run_bind]
  rcases hr : x.run w with ⟨res, w₁⟩
  rcases hr' : x.run w' with ⟨res', w₁'⟩
  rw [hr, hr'] at hanswer halike
  simp only at hanswer
  subst hanswer
  cases res' with
  | error e => exact ⟨rfl, halike⟩
  | ok a => exact hf a w₁ w₁' halike

theorem Blind.beside {x : Txn α} (hledger : ∀ w, (x.run w).2.ledger = w.ledger)
    (h : ∀ (w : World) (l : MemoryLedger),
      x.run { w with ledger := l } = ((x.run w).1, { (x.run w).2 with ledger := l })) : Blind x := by
  intro w w' ha
  have hrun := h w w'.ledger
  rw [← ha.rest] at hrun
  rw [hrun]
  refine ⟨rfl, rfl, ?_, ?_, ?_⟩
  · rw [hledger w]
    exact ha.heads
  · rw [hledger w]
    exact ha.balances
  · rw [hledger w]
    exact ha.seq

theorem Blind.now (env : Env) : Blind (Txn.now env) := .beside (fun _ => rfl) fun _ _ => rfl

theorem Blind.mint (env : Env) (kind : String) : Blind (Txn.mint env kind) :=
  .beside (fun _ => rfl) fun _ _ => rfl

theorem Blind.markBilled (id : String) (nextDueAt expectedDueAt : Int) :
    Blind (Txn.markBilled id nextDueAt expectedDueAt) := .beside (fun _ => rfl) fun _ _ => rfl

theorem Blind.entitlement (write : EntitlementWrite) : Blind (Txn.entitlement write) :=
  .beside (fun _ => rfl) fun _ _ => rfl

theorem Blind.putAccruals (batch : List AccrualRow) : Blind (Txn.putAccruals batch) :=
  .beside (fun _ => rfl) fun _ _ => rfl

theorem Blind.emit (env : Env) (draft : EventDraft) : Blind (Txn.emit env draft) := by
  apply Blind.bind (Blind.mint env "evt")
  intro id
  apply Blind.bind (Blind.now env)
  intro occurredAt
  apply Blind.bind (Blind.mint env "obx")
  intro messageId
  exact .beside (fun _ => rfl) fun _ _ => rfl

theorem Blind.balance (account : AccountRef) : Blind (Txn.balance account) := by
  intro w w' h
  refine ⟨?_, h⟩
  simp only [Txn.balance, run_read, LedgerTables.balance, LedgerTables.balanceOf, h.balances]

theorem Blind.postEntry (env : Env) (posting : Posting) : Blind (Txn.postEntry env posting) := by
  intro w w' h
  have hticks := h.ticks
  obtain ⟨hanswer, hseq⟩ := postEntry_congr env.digest (env.clock w.ticks) posting h.heads h.balances h.seq
  have hrun : (Txn.postEntry env posting).run w' =
      ((EconomyLab.postEntry env.digest (env.clock w.ticks) posting w'.ledger).1,
        { w' with
          ledger := (EconomyLab.postEntry env.digest (env.clock w.ticks) posting w'.ledger).2
          ticks := w.ticks + 1 }) := by
    simp only [Txn.postEntry, hticks]
  have hrest : { w' with
      ledger := (EconomyLab.postEntry env.digest (env.clock w.ticks) posting w'.ledger).2
      ticks := w.ticks + 1 } = { w with
      ledger := (EconomyLab.postEntry env.digest (env.clock w.ticks) posting w'.ledger).2
      ticks := w.ticks + 1 } := by
    rw [h.rest]
  rw [hrun, hanswer]
  refine ⟨rfl, ?_⟩
  rcases postEntry_row env.digest (env.clock w.ticks) posting w.ledger with
    ⟨e, hres, hbook⟩ | ⟨row, next, -, hrow, -, hnext, -, -, happ⟩
  · rcases postEntry_row env.digest (env.clock w.ticks) posting w'.ledger with
      ⟨e', -, hbook'⟩ | ⟨row', next', -, -, -, -, -, -, happ'⟩
    · refine ⟨hrest, ?_, ?_, hseq⟩
      · simp only [Txn.postEntry, MemoryLedger.tables, hbook, hbook']
        exact h.heads
      · simp only [Txn.postEntry, MemoryLedger.tables, hbook, hbook']
        exact h.balances
    · rw [happ', hres] at hanswer
      cases hanswer
  · rcases postEntry_row env.digest (env.clock w.ticks) posting w'.ledger with
      ⟨e', hres', -⟩ | ⟨row', next', -, hrow', -, hnext', -, -, happ'⟩
    · rw [happ, hres'] at hanswer
      cases hanswer
    · have hlinks : row'.links = row.links := by
        rw [happ, happ'] at hanswer
        simp only [Except.ok.injEq, Transaction.mk.injEq] at hanswer
        exact hanswer.2.2.2.1
      have hlegs : row'.legs = row.legs :=
        congrArg Posting.legs (hrow'.trans hrow.symm)
      have hsame : next' = next := by
        rw [h.balances, hlegs, hnext] at hnext'
        exact (Except.ok.inj hnext').symm
      have hheads : w'.ledger.book.rows.heads = w.ledger.book.rows.heads := h.heads
      refine ⟨hrest, ?_, ?_, hseq⟩
      · simp only [Txn.postEntry, MemoryLedger.tables, happ, happ', Journaled.write, Journaled.record,
          applyPosting, hlinks, hheads]
      · simp only [Txn.postEntry, MemoryLedger.tables, happ, happ', Journaled.write, Journaled.record,
          applyPosting, hsame]

theorem Blind.claiming (env : Env) (key : String) {onDuplicate : Transaction → Txn α}
    {body : Txn ((Transaction × β) ⊕ α)} {after : Transaction → β → Txn α}
    (hd : ∀ txn, Blind (onDuplicate txn)) (hb : Blind body) (ha : ∀ txn b, Blind (after txn b)) :
    Blind (Txn.claiming env key onDuplicate body after) := by
  intro w w' h
  unfold Txn.claiming
  simp only [h.idempotency, h.ticks]
  cases hc : w.idempotency.rows.committed.get key with
  | some txn => exact hd txn w w' h
  | none =>
    obtain ⟨hanswer, halike⟩ :=
      hb _ _ (h.withIdempotency (claimKey (env.clock w.ticks) key w.idempotency))
    simp only
    rcases hr : body.run (w.withIdempotency (claimKey (env.clock w.ticks) key w.idempotency)) with
      ⟨res, w₁⟩
    rcases hr' : body.run (w'.withIdempotency (claimKey (env.clock w.ticks) key w.idempotency)) with
      ⟨res', w₁'⟩
    rw [hr, hr'] at hanswer halike
    simp only at hanswer halike
    subst hanswer
    cases res' with
    | error e => exact ⟨rfl, halike⟩
    | ok out =>
      cases out with
      | inr a => exact ⟨rfl, halike⟩
      | inl out =>
        simp only [halike.idempotency, halike.ticks]
        exact ha out.1 out.2 _ _ (halike.withIdempotency _)

end Txn

section Renewal

open Txn

variable {env : Env} {config : Config} {sub : Subscription}

theorem postRenewal_blind (billingKey : String) : Blind (postRenewal env config sub billingKey) := by
  unfold postRenewal
  apply Blind.bind (Blind.lift _)
  intro feeMinor
  apply Blind.bind (Blind.lift _)
  intro net
  apply Blind.bind (Blind.lift _)
  intro fee
  apply Blind.bind (Blind.lift _)
  intro toSeller
  apply Blind.bind (Blind.lift _)
  intro toRevenue
  apply Blind.bind (Blind.mint env "txn")
  intro txnId
  apply Blind.bind (Blind.postEntry env _)
  intro transaction
  cases config.accrualDrain with
  | false => exact Blind.pure transaction
  | true =>
    apply Blind.bind (Blind.lift _)
    intro rows
    apply Blind.bind (Blind.putAccruals rows)
    intro _
    exact Blind.pure transaction

theorem chargePeriod_blind {anchored : Txn Unit} (h : Blind anchored) :
    Blind (chargePeriod env config sub anchored) := by
  apply Blind.claiming
  · exact fun _ => Blind.pure _
  · apply Blind.bind (Blind.markBilled _ _ _)
    intro billed
    cases billed with
    | false => exact Blind.pure _
    | true =>
      apply Blind.bind h
      intro _
      apply Blind.bind (postRenewal_blind _)
      intro transaction
      exact Blind.pure _
  · intro transaction _
    apply Blind.bind (Blind.entitlement _)
    intro _
    apply Blind.bind (Blind.emit env _)
    intro _
    exact Blind.pure _

theorem renewOver_blind {cleared : Int → Amount → Txn Bool} {anchored : Txn Unit}
    (hc : ∀ now available, Blind (cleared now available)) (ha : Blind anchored) :
    Blind (renewOver env config sub cleared anchored) := by
  apply Blind.bind (Blind.balance _)
  intro available
  apply Blind.bind (Blind.lift _)
  intro _
  by_cases hshort : available.minor < sub.price.minor
  · simp only [if_pos hshort]
    exact Blind.pure _
  · simp only [if_neg hshort]
    apply Blind.bind (Blind.now env)
    intro now
    apply Blind.bind (hc now available)
    intro ready
    cases ready with
    | false => exact Blind.pure _
    | true => exact chargePeriod_blind ha

theorem markBilled_run (id : String) (nextDueAt expectedDueAt : Int) (w : World) :
    ∃ w₁ : World, w₁.ledger = w.ledger ∧ (Txn.markBilled id nextDueAt expectedDueAt).run w =
      (.ok ((w.subscriptions.rows.get id).any (·.nextDueAt = expectedDueAt)), w₁) :=
  ⟨((Txn.markBilled id nextDueAt expectedDueAt).run w).2, rfl, rfl⟩

variable {reads : MemoryLedger → Except Fault Unit} {w : World}

theorem billPeriod_anchored (h : reads w.ledger = .ok ()) :
    (billPeriod env config sub (Txn.read fun w => reads w.ledger)).run w =
      (billPeriod env config sub (pure ())).run w := by
  obtain ⟨w₁, hledger, hrun⟩ := markBilled_run sub.id (sub.nextDueAt + sub.periodMs) sub.nextDueAt w
  unfold billPeriod
  rw [run_bind_ok hrun, run_bind_ok hrun]
  cases (w.subscriptions.rows.get sub.id).any (·.nextDueAt = sub.nextDueAt) with
  | false => rfl
  | true =>
    have hread : (Txn.read fun w => reads w.ledger).run w₁ = (.ok (), w₁) := by
      rw [run_read, hledger, h]
    simp only [if_true]
    rw [run_bind_ok hread]
    rfl

theorem billPeriod_unanchored {e : Fault} (h : reads w.ledger = .error e) :
    ((billPeriod env config sub (Txn.read fun w => reads w.ledger)).run w).1 = .error e ∨
      ((billPeriod env config sub (Txn.read fun w => reads w.ledger)).run w).1 = .ok (.inr .lost) := by
  obtain ⟨w₁, hledger, hrun⟩ := markBilled_run sub.id (sub.nextDueAt + sub.periodMs) sub.nextDueAt w
  unfold billPeriod
  rw [run_bind_ok hrun]
  cases (w.subscriptions.rows.get sub.id).any (·.nextDueAt = sub.nextDueAt) with
  | false => exact Or.inr rfl
  | true =>
    have hread : (Txn.read fun w => reads w.ledger).run w₁ = (.error e, w₁) := by
      rw [run_read, hledger, h]
    left
    simp only [if_true]
    rw [run_bind_error hread]

/-- A period is charged when its first charge re-derives and nothing else stands in the way. -/
theorem chargePeriod_charged_iff :
    ((chargePeriod env config sub (Txn.read fun w => reads w.ledger)).run w).1 = .ok .charged ↔
      reads w.ledger = .ok () ∧ ((chargePeriod env config sub (pure ())).run w).1 = .ok .charged := by
  unfold chargePeriod Txn.claiming
  simp only
  cases hc : w.idempotency.rows.committed.get (renewalKey sub) with
  | some txn => simp
  | none =>
    have hledger : (w.withIdempotency
      (claimKey (env.clock w.ticks) (renewalKey sub) w.idempotency)).ledger =
        w.ledger := rfl
    generalize w.withIdempotency (claimKey (env.clock w.ticks) (renewalKey sub) w.idempotency) = claimed
      at hledger
    simp only
    cases hr : reads w.ledger with
    | ok _ =>
      have hclaimed : reads claimed.ledger = .ok () := hledger ▸ hr
      rw [billPeriod_anchored hclaimed]
      exact (and_iff_right rfl).symm
    | error e =>
      have hclaimed : reads claimed.ledger = .error e := hledger ▸ hr
      have hbody := @billPeriod_unanchored env config sub reads claimed e hclaimed
      rcases hout : (billPeriod env config sub (Txn.read fun w => reads w.ledger)).run claimed with
        ⟨res, w₁⟩
      rw [hout] at hbody
      simp only at hbody
      rcases hbody with rfl | rfl
      · simp
      · simp

/-- A renewal charges when the buyer's cleared funds cover it, its first charge re-derives, and the
rest, which reads no history, would charge. -/
theorem renew_charged_iff :
    ((renew env config sub).run w).1 = .ok .charged ↔
      (∃ available, w.ledger.tables.balance (spendable sub.userId) = .ok available ∧
        maturedAtLeast w.ledger.tables (spendable sub.userId) (env.clock w.ticks) config sub.price
          (some available) = .ok true) ∧
      assertSubscriptionAnchored env.digest w.ledger.tables sub = .ok () ∧
      ((renewOver env config sub (fun _ _ => pure true) (pure ())).run w).1 = .ok .charged := by
  unfold renew renewOver
  cases hbal : w.ledger.tables.balance (spendable sub.userId) with
  | error e =>
    have hread : (Txn.balance (spendable sub.userId)).run w = (.error e, w) := by
      simp only [Txn.balance, run_read, hbal]
    rw [run_bind_error hread, run_bind_error hread]
    simp
  | ok available =>
    have hread : (Txn.balance (spendable sub.userId)).run w = (.ok available, w) := by
      simp only [Txn.balance, run_read, hbal]
    rw [run_bind_ok hread, run_bind_ok hread]
    cases assertSameCurrency available sub.price with
    | error e =>
      rw [run_bind_error (run_lift (.error e) w), run_bind_error (run_lift (.error e) w)]
      simp
    | ok _ =>
      rw [run_bind_ok (run_lift (.ok ()) w), run_bind_ok (run_lift (.ok ()) w)]
      by_cases hshort : available.minor < sub.price.minor
      · simp [hshort]
      · have hnow : (Txn.now env).run w = (.ok (env.clock w.ticks), { w with ticks := w.ticks + 1 }) := rfl
        simp only [if_neg hshort]
        rw [run_bind_ok hnow, run_bind_ok hnow, run_bind_ok (run_pure true _)]
        obtain ⟨w₁, hw₁, hledger⟩ : ∃ w₁ : World, w₁ = { w with ticks := w.ticks + 1 } ∧
            w₁.ledger = w.ledger := ⟨_, rfl, rfl⟩
        rw [← hw₁, if_pos rfl]
        have hclear : (Txn.read fun v => maturedAtLeast v.ledger.tables (spendable sub.userId)
            (env.clock w.ticks) config sub.price (some available)).run w₁ =
              (maturedAtLeast w.ledger.tables (spendable sub.userId) (env.clock w.ticks) config sub.price
                (some available), w₁) := by
          rw [run_read, hledger]
        cases hm : maturedAtLeast w.ledger.tables (spendable sub.userId) (env.clock w.ticks)
          config sub.price
            (some available) with
        | error e =>
          rw [hm] at hclear
          rw [run_bind_error hclear]
          simp [hm]
        | ok ready =>
          rw [hm] at hclear
          rw [run_bind_ok hclear]
          cases ready with
          | false => simp [hm]
          | true =>
            have hcharged := @chargePeriod_charged_iff env config sub
              (fun l => assertSubscriptionAnchored env.digest l.tables sub) w₁
            rw [hledger] at hcharged
            simp only [if_true, hcharged]
            constructor
            · exact fun h => ⟨⟨available, rfl, hm⟩, h⟩
            · exact fun h => h.2

end Renewal

end EconomyLab
