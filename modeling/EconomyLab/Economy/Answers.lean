import EconomyLab.Economy.Footprints
import EconomyLab.Economy.Grants

/-!
# What a submit answers

A submit either commits, or answers that its work was done before, or refuses. Only the first
changes rows: a handler answers a duplicate before it has written anything, and a refusal rolls back.
-/

namespace EconomyLab

open Foundation

/-- The same rows, balances and recorded keys; windows, counters and waiting keys may differ. -/
structure World.Still (w w' : World) : Prop where
  ledger : w'.ledger.tables = w.ledger.tables
  committed : w'.idempotency.rows.committed = w.idempotency.rows.committed
  rows : w'.rowStores = w.rowStores

namespace World.Still

theorem refl (w : World) : w.Still w := ⟨rfl, rfl, rfl⟩

theorem trans {w w' w'' : World} (h : w.Still w') (h' : w'.Still w'') : w.Still w'' :=
  ⟨h'.ledger.trans h.ledger, h'.committed.trans h.committed, h'.rows.trans h.rows⟩

theorem of_sameTables {w w' : World} (h : w.SameTables w') : w.Still w' := by
  refine ⟨?_, ?_, h.rowStores⟩
  · unfold MemoryLedger.tables
    rw [h.ledger]
  · rw [h.idempotency]

end World.Still

theorem World.Fronts.still {w w' : World} (h : w.Fronts w') : w.Still w' := by
  refine ⟨h.ledger, h.committed, ?_⟩
  unfold World.rowStores
  rw [h.sales, h.outbox, h.sagas, h.entitlements, h.subscriptions, h.promos, h.accruals]

/-! ## Handlers that answer a duplicate -/

/-- Not the answer to work that was done before. -/
def Outcome.Original (outcome : Outcome) : Prop := ∀ transaction, outcome ≠ .duplicate transaction

theorem original_committed (transaction : Transaction) : (Outcome.committed transaction).Original := by
  intro duplicate h
  cases h

theorem original_rejected (detail : RejectionDetail) : (Outcome.rejected detail).Original := by
  intro duplicate h
  cases h

namespace Work

variable {α β : Type} {P : α → Prop} {Q : β → Prop}

/-- Whatever the work answers is as `P` says. -/
def Ends (P : α → Prop) (x : Work α) : Prop := ∀ w w' a, x.txn.run w = (.ok a, w') → P a

theorem Ends.pure {a : α} (h : P a) : Ends P (Pure.pure a) := by
  intro w w' b hrun
  cases hrun
  exact h

theorem Ends.bind {x : Work α} {f : α → Work β} (hx : Ends P x) (hf : ∀ a, P a → Ends Q (f a)) :
    Ends Q (x >>= f) := by
  intro w w' b h
  obtain ⟨a, w₁, hrun, h⟩ := Txn.bind_ok h
  exact hf a (hx w w₁ a hrun) w₁ w' b h

theorem Ends.step {x : Work α} {f : α → Work β} (hf : ∀ a, Ends Q (f a)) : Ends Q (x >>= f) := by
  intro w w' b h
  obtain ⟨a, w₁, -, h⟩ := Txn.bind_ok h
  exact hf a w₁ w' b h

/-- Where the work answers a duplicate, it has changed nothing. -/
def Idles (x : Work Outcome) : Prop :=
  ∀ w w' transaction, x.txn.run w = (.ok (.duplicate transaction), w') → w.Still w'

theorem Ends.idles {x : Work Outcome} (h : Ends Outcome.Original x) : Idles x :=
  fun w w' transaction hrun => absurd rfl (h w w' _ hrun transaction)

theorem Idles.duplicate (transaction : Transaction) : Idles (Pure.pure (.duplicate transaction)) := by
  intro w w' other h
  cases h
  exact .refl w

theorem Idles.step {x : Work α} {f : α → Work Outcome} (hx : ∀ w : World, w.Still (x.txn.run w).2)
    (hf : ∀ a, Idles (f a)) : Idles (x >>= f) := by
  intro w w' transaction h
  obtain ⟨a, w₁, hrun, h⟩ := Txn.bind_ok h
  have hfirst := hx w
  rw [hrun] at hfirst
  exact hfirst.trans (hf a w₁ w' transaction h)

/-- Behind a reversal key, only the taken key is answered with a duplicate. -/
theorem Idles.claiming {env : Env} {key : String} {hkey : isReversalKey key = true}
    {body : Work (Transaction ⊕ Outcome)} {after : Transaction → Work Outcome}
    (hbody : Ends (fun out => out.isLeft = true) body)
    (hafter : ∀ transaction, Ends Outcome.Original (after transaction)) :
    Idles (Work.claiming env key hkey answerDuplicate body after) := by
  intro w w' transaction h
  change (Txn.claiming _ _ _ _ _).run w = _ at h
  simp only [Txn.claiming] at h
  cases hget : w.idempotency.rows.committed.get key with
  | some recorded =>
    rw [hget] at h
    cases h
    exact .refl w
  | none =>
    rw [hget] at h
    simp only at h
    split at h
    · cases h
    · rename_i out w₁ hrun
      obtain ⟨posted, w₂, hposted, hlast⟩ := Txn.bind_ok hrun
      have hleft := hbody _ _ _ hposted
      cases posted with
      | inl posted => cases hlast
      | inr outcome => cases hleft
    · exact absurd rfl (hafter _ _ _ _ h transaction)

end Work

section Handlers

open Work (Ends Idles)

variable (env : Env) (config : Config)

theorem topUp_original (rates : Rates) (o : TopUpOperation) :
    Ends Outcome.Original (topUp env config rates o) := by
  unfold topUp
  iterate 6 (apply Ends.step; intro _)
  split
  · intro w w' outcome h
    cases h
  · iterate 6 (apply Ends.step; intro _)
    exact .pure (original_committed _)

def RefusesAfresh (refused : Option Outcome) : Prop := ∀ outcome, refused = some outcome → outcome.Original

theorem refusesAfresh_none : RefusesAfresh none := by
  intro outcome h
  cases h

theorem refusesAfresh_rejected (detail : RejectionDetail) : RefusesAfresh (some (.rejected detail)) := by
  intro outcome h
  cases h
  exact original_rejected detail

theorem screenMaturity_screens (account : AccountRef) (amount live : Amount) :
    Ends RefusesAfresh (screenMaturity env config account amount live) := by
  unfold screenMaturity
  iterate 2 (apply Ends.step; intro _)
  split
  · exact .pure refusesAfresh_none
  · iterate 2 (apply Ends.step; intro _)
    exact .pure (refusesAfresh_rejected _)

theorem spend_original (o : SpendOperation) : Ends Outcome.Original (spend env config o) := by
  unfold spend
  iterate 5 (apply Ends.step; intro _)
  split
  · exact .pure (original_rejected _)
  · iterate 3 (apply Ends.step; intro _)
    refine Ends.bind (screenMaturity_screens env config _ _ _) ?_
    intro immature himmature
    cases immature with
    | some refused => exact .pure (himmature refused rfl)
    | none =>
      iterate 7 (apply Ends.step; intro _)
      exact .pure (original_committed _)

theorem screenSpendable_screens (userId : String) (plan : SpendPlan) :
    Ends RefusesAfresh (screenSpendable env config userId plan) := by
  unfold screenSpendable
  iterate 2 (apply Ends.step; intro _)
  split
  · exact .pure (refusesAfresh_rejected _)
  · exact screenMaturity_screens env config _ _ _

theorem subscribe_original (o : SubscribeOperation) : Ends Outcome.Original (subscribe env config o) := by
  unfold subscribe
  iterate 4 (apply Ends.step; intro _)
  split
  · exact .pure (original_rejected _)
  · iterate 2 (apply Ends.step; intro _)
    refine Ends.bind (screenSpendable_screens env config _ _) ?_
    intro refused hrefused
    cases refused with
    | some refused => exact .pure (hrefused refused rfl)
    | none =>
      iterate 4 (apply Ends.step; intro _)
      exact .pure (original_committed _)

theorem refund_idles (o : RefundOperation) : Idles (refund env o) := by
  unfold refund
  apply Idles.step fun w => .refl w
  intro _
  apply Idles.step fun w => .refl w
  intro sale
  cases sale with
  | none => exact (Ends.pure (original_rejected _)).idles
  | some sale =>
    iterate 3 (apply Idles.step (fun w => .refl w); intro _)
    apply Idles.claiming
    · apply Ends.step
      exact fun _ => .pure rfl
    · intro transaction
      apply Ends.step
      exact fun _ => .pure (original_committed _)

theorem clawback_idles (o : ClawbackOperation) : Idles (clawback env o) := by
  unfold clawback
  apply Idles.step fun w => .refl w
  intro amount
  cases o.orderId with
  | none =>
    apply Ends.idles
    apply Ends.step
    exact fun _ => .pure (original_committed _)
  | some orderId =>
    apply Idles.step fun w => .refl w
    intro _
    apply Idles.claiming
    · apply Ends.step
      exact fun _ => .pure rfl
    · exact fun transaction => .pure (original_committed _)

theorem adjust_original (o : AdjustOperation) : Ends Outcome.Original (adjust env o) := by
  iterate 6 (apply Ends.step; intro _)
  exact .pure (original_committed _)

theorem reverse_idles (o : ReverseOperation) : Idles (reverse env o) := by
  iterate 5 (apply Idles.step (fun w => .refl w); intro _)
  apply Idles.claiming
  · iterate 3 (apply Ends.step; intro _)
    exact .pure rfl
  · exact fun transaction => .pure (original_committed _)

theorem cancelSubscription_original (o : CancelSubscriptionOperation) :
    Ends Outcome.Original (cancelSubscription env o) := by
  unfold cancelSubscription
  iterate 2 (apply Ends.step; intro _)
  split
  · exact .pure (original_rejected _)
  · split
    · exact .pure (original_rejected _)
    · iterate 3 (apply Ends.step; intro _)
      exact .pure (original_committed _)

theorem grantEntitlement_original (o : GrantEntitlementOperation) :
    Ends Outcome.Original (grantEntitlement env o) := by
  iterate 4 (apply Ends.step; intro _)
  exact .pure (original_committed _)

theorem revokeEntitlement_original (o : RevokeEntitlementOperation) :
    Ends Outcome.Original (revokeEntitlement env o) := by
  unfold revokeEntitlement
  iterate 2 (apply Ends.step; intro _)
  split
  · exact .pure (original_rejected _)
  · iterate 2 (apply Ends.step; intro _)
    exact .pure (original_committed _)

theorem grantPromo_original (o : GrantPromoOperation) : Ends Outcome.Original (grantPromo env o) := by
  iterate 7 (apply Ends.step; intro _)
  exact .pure (original_committed _)

theorem screenRequest_refuses (payees : Option PayeeDirectory) (userId : String) (amount : Amount) :
    Ends RefusesAfresh (screenRequest env config payees userId amount) := by
  unfold screenRequest
  split
  · apply Ends.step
    exact fun _ => .pure (refusesAfresh_rejected _)
  · iterate 2 (apply Ends.step; intro _)
    split
    · exact .pure (refusesAfresh_rejected _)
    · split
      · exact .pure (refusesAfresh_rejected _)
      · exact .pure refusesAfresh_none

theorem screenEarned_refuses (userId : String) (amount : Amount) :
    Ends RefusesAfresh (screenEarned env config userId amount) := by
  unfold screenEarned
  iterate 4 (apply Ends.step; intro _)
  split
  · exact .pure (refusesAfresh_rejected _)
  · exact screenMaturity_screens env config _ _ _

theorem requestPayout_original (rates : Rates) (payees : Option PayeeDirectory)
    (o : RequestPayoutOperation) :
    Ends Outcome.Original (requestPayout env config rates payees o) := by
  unfold requestPayout
  apply Ends.step
  intro amount
  refine Ends.bind (screenRequest_refuses env config payees _ _) ?_
  intro refused hrefused
  cases refused with
  | some refused => exact .pure (hrefused refused rfl)
  | none =>
    refine Ends.bind (screenEarned_refuses env config _ _) ?_
    intro refused hrefused
    cases refused with
    | some refused => exact .pure (hrefused refused rfl)
    | none =>
      iterate 8 (apply Ends.step; intro _)
      exact .pure (original_committed _)

/-- A saga that another actor moved is left as it stands. -/
theorem advanceSaga_still {id : String} {source target : SagaState} {patch : Saga → Saga} {w w' : World}
    (h : (Work.advanceSaga id source target patch).txn.run w = (.ok false, w')) : w' = w := by
  obtain ⟨hanswer, hworld⟩ := Prod.mk.inj h
  have hmoved : (w.sagas.rows.rows.get id).any (·.state = source) = false := Except.ok.inj hanswer
  rw [← hworld]
  have hsame : (SagaWrite.advance id source target patch).run w.sagas = w.sagas := by
    simp only [SagaWrite.run]
    cases hget : w.sagas.rows.rows.get id with
    | none => rfl
    | some saga =>
      rw [hget] at hmoved
      have hstate : saga.state ≠ source := by simpa using hmoved
      simp only [if_neg hstate]
  rw [hsame]

theorem undoPayout_idles (o : ReversePayoutOperation) (saga : Saga) :
    Idles (undoPayout env config o saga) := by
  apply Idles.step fun w => ⟨rfl, rfl, rfl⟩
  intro updatedAt w w' transaction h
  obtain ⟨advanced, w₁, hrun, h⟩ := Txn.bind_ok h
  cases advanced with
  | false =>
    have hsame : w₁ = w := advanceSaga_still hrun
    have hlast : w₁ = w' := congrArg Prod.snd h
    rw [← hlast, hsame]
    exact .refl w
  | true =>
    have hrest : Ends Outcome.Original (do
        let _ ← Work.read (fun w => assertSagaAnchored env.digest w.ledger.tables saga) fun _ => rfl
        let txnId ← Work.mint env "txn"
        let legs ← Work.lift (undoLegs saga)
        let transaction ← Work.postEntry env
          ⟨txnId, routePlatformLegs legs o.userId config.platformShards, reversePayoutMeta o saga⟩
        return .committed transaction) := by
      iterate 4 (apply Ends.step; intro _)
      exact .pure (original_committed _)
    exact absurd rfl (hrest _ _ _ h transaction)

theorem reversePayout_idles (o : ReversePayoutOperation) : Idles (reversePayout env config o) := by
  unfold reversePayout
  iterate 4 (apply Idles.step (fun w => .refl w); intro _)
  have hlive : ∀ saga (w : World), w.Still ((refuseLiveSubmitted env config o saga).txn.run w).2 := by
    intro saga w
    unfold refuseLiveSubmitted
    split
    · exact .refl w
    · exact ⟨rfl, rfl, rfl⟩
  apply Idles.step (hlive _)
  intro _
  split
  · exact .duplicate _
  · exact undoPayout_idles env config o _

theorem settlePayout_idles (o : SettlePayoutOperation) : Idles (settlePayout env config o) := by
  unfold settlePayout
  apply Idles.step fun w => .refl w
  intro saga
  split
  · exact .duplicate _
  · apply Ends.idles
    unfold settleSubmitted
    iterate 9 (apply Ends.step; intro _)
    exact .pure (original_committed _)

end Handlers

theorem handlerOf_idles (ports : Ports) (env : Env) (config : Config) (operation : Operation) :
    (handlerOf ports env config operation).Idles := by
  cases operation with
  | topUp o => exact (topUp_original env config ports.rates o).idles
  | spend o => exact (spend_original env config o).idles
  | refund o => exact refund_idles env o
  | clawback o => exact clawback_idles env o
  | requestPayout o => exact (requestPayout_original env config ports.rates ports.payees o).idles
  | subscribe o => exact (subscribe_original env config o).idles
  | cancelSubscription o => exact (cancelSubscription_original env o).idles
  | grantEntitlement o => exact (grantEntitlement_original env o).idles
  | revokeEntitlement o => exact (revokeEntitlement_original env o).idles
  | grantPromo o => exact (grantPromo_original env o).idles
  | adjust o => exact (adjust_original env o).idles
  | reverse o => exact reverse_idles env o
  | reversePayout o => exact reversePayout_idles env config o
  | settlePayout o => exact settlePayout_idles env config o

end EconomyLab
