import EconomyLab.Economy.Commits

/-!
# Who opens promo grants

No operation but a promo grant writes the rows of promo grants, and a promo grant opens one
row at most, for a positive amount of credits. So whatever is submitted, a grant that has a row
keeps it as it is.
-/

namespace EconomyLab

open Foundation

def Txn.SparesPromos {α : Type} (x : Txn α) : Prop := ∀ w, (x.run w).2.promos = w.promos

namespace Txn.SparesPromos

variable {α β : Type}

theorem pure (a : α) : SparesPromos (Pure.pure a : Txn α) := fun _ => Eq.refl _

theorem bind {x : Txn α} {f : α → Txn β} (hx : SparesPromos x) (hf : ∀ a, SparesPromos (f a)) :
    SparesPromos (x >>= f) :=
  bind_related (fun w w' => w'.promos = w.promos) (fun h h' => h'.trans h) hx hf

theorem claiming {env : Env} {key : String} {onDuplicate : Transaction → Txn α}
    {body : Txn ((Transaction × β) ⊕ α)} {after : Transaction → β → Txn α}
    (hduplicate : ∀ transaction, SparesPromos (onDuplicate transaction)) (hbody : SparesPromos body)
    (hafter : ∀ transaction b, SparesPromos (after transaction b)) :
    SparesPromos (Txn.claiming env key onDuplicate body after) :=
  claiming_related (fun w w' => w'.promos = w.promos) (fun h h' => h'.trans h) (fun _ _ => Eq.refl _)
    hduplicate hbody hafter

end Txn.SparesPromos

namespace Work

variable {α β : Type}

def SparesPromos (x : Work α) : Prop := Txn.SparesPromos x.txn

namespace SparesPromos

theorem pure {a : α} : SparesPromos (Pure.pure a : Work α) := fun _ => Eq.refl _

theorem bind {x : Work α} {f : α → Work β} (hx : SparesPromos x) (hf : ∀ a, SparesPromos (f a)) :
    SparesPromos (x >>= f) := Txn.SparesPromos.bind hx hf

theorem step {x : Work α} {f : α → Work β} (hx : ∀ w, (x.txn.run w).2.promos = w.promos)
    (hf : ∀ a, SparesPromos (f a)) : SparesPromos (x >>= f) := bind hx hf

theorem claiming {env : Env} {key : String} {hkey : isReversalKey key = true}
    {onDuplicate : Transaction → Work α} {body : Work (Transaction ⊕ α)} {after : Transaction → Work α}
    (hduplicate : ∀ transaction, SparesPromos (onDuplicate transaction)) (hbody : SparesPromos body)
    (hafter : ∀ transaction, SparesPromos (after transaction)) :
    SparesPromos (Work.claiming env key hkey onDuplicate body after) :=
  Txn.SparesPromos.claiming hduplicate (Txn.SparesPromos.bind hbody fun _ => .pure _)
    fun transaction _ => hafter transaction

end SparesPromos

end Work

/-! ## The handlers -/

section Handlers

variable (env : Env) (config : Config)

theorem topUp_sparesPromos (rates : Rates) (o : TopUpOperation) :
    (topUp env config rates o).SparesPromos := by
  unfold topUp
  iterate 6 (apply Work.SparesPromos.step (fun _ => Eq.refl _); intro _)
  split
  · exact fun _ => Eq.refl _
  · iterate 6 (apply Work.SparesPromos.step (fun _ => Eq.refl _); intro _)
    exact .pure

theorem recordAccruals_sparesPromos (orderId routeKey : String) (charge : Charge)
    (transaction : Transaction) :
    (recordAccruals config orderId routeKey charge transaction).SparesPromos := by
  unfold recordAccruals
  split
  · exact .pure
  · apply Work.SparesPromos.step fun _ => Eq.refl _
    exact fun rows _ => Eq.refl _

theorem screenMaturity_sparesPromos (account : AccountRef) (amount live : Amount) :
    (screenMaturity env config account amount live).SparesPromos := by
  unfold screenMaturity
  iterate 2 (apply Work.SparesPromos.step (fun _ => Eq.refl _); intro _)
  split
  · exact .pure
  · iterate 2 (apply Work.SparesPromos.step (fun _ => Eq.refl _); intro _)
    exact .pure

theorem spend_sparesPromos (o : SpendOperation) : (spend env config o).SparesPromos := by
  unfold spend
  iterate 5 (apply Work.SparesPromos.step (fun _ => Eq.refl _); intro _)
  split
  · exact .pure
  · iterate 3 (apply Work.SparesPromos.step (fun _ => Eq.refl _); intro _)
    apply Work.SparesPromos.bind (screenMaturity_sparesPromos env config _ _ _)
    intro immature
    cases immature with
    | some refused => exact .pure
    | none =>
      iterate 5 (apply Work.SparesPromos.step (fun _ => Eq.refl _); intro _)
      apply Work.SparesPromos.bind (recordAccruals_sparesPromos config _ _ _ _)
      intro _
      apply Work.SparesPromos.step fun _ => Eq.refl _
      exact fun _ => .pure

theorem screenSpendable_sparesPromos (userId : String) (plan : SpendPlan) :
    (screenSpendable env config userId plan).SparesPromos := by
  unfold screenSpendable
  iterate 2 (apply Work.SparesPromos.step (fun _ => Eq.refl _); intro _)
  split
  · exact .pure
  · exact screenMaturity_sparesPromos env config _ _ _

theorem openSubscription_sparesPromos (o : SubscribeOperation) (plan : SpendPlan) :
    (openSubscription env config o plan).SparesPromos := by
  apply Work.SparesPromos.step fun _ => Eq.refl _
  intro subscriptionId
  have hcharge : (postCharge env config o plan subscriptionId).SparesPromos := by
    iterate 3 (apply Work.SparesPromos.step (fun _ => Eq.refl _); intro _)
    apply Work.SparesPromos.bind (recordAccruals_sparesPromos config _ _ _ _)
    exact fun _ => .pure
  apply hcharge.bind
  intro _
  iterate 2 (apply Work.SparesPromos.step (fun _ => Eq.refl _); intro _)
  exact .pure

theorem subscribe_sparesPromos (o : SubscribeOperation) : (subscribe env config o).SparesPromos := by
  unfold subscribe
  iterate 4 (apply Work.SparesPromos.step (fun _ => Eq.refl _); intro _)
  split
  · exact .pure
  · iterate 2 (apply Work.SparesPromos.step (fun _ => Eq.refl _); intro _)
    apply Work.SparesPromos.bind (screenSpendable_sparesPromos env config _ _)
    intro refused
    cases refused with
    | some refused => exact .pure
    | none => exact openSubscription_sparesPromos env config o _

theorem reverseSale_sparesPromos (posting : Posting) : (reverseSale posting).SparesPromos := by
  iterate 3 (apply Work.SparesPromos.step (fun _ => Eq.refl _); intro _)
  exact .pure

theorem reverseParked_sparesPromos (posting : Posting) (claimed saleRows : List AccrualRow)
    (txnId : String) :
    (reverseParked env posting claimed saleRows txnId).SparesPromos := by
  unfold reverseParked
  iterate 4 (apply Work.SparesPromos.step (fun _ => Eq.refl _); intro _)
  split
  · exact .pure
  · iterate 3 (apply Work.SparesPromos.step (fun _ => Eq.refl _); intro _)
    exact .pure

theorem reverseOrder_sparesPromos (o : RefundOperation) (sale : Sale) (posting : Posting) :
    (reverseOrder env o sale posting).SparesPromos := by
  unfold reverseOrder
  iterate 2 (apply Work.SparesPromos.step (fun _ => Eq.refl _); intro _)
  simp only
  split
  · apply (reverseSale_sparesPromos posting).bind
    exact fun reversal _ => Eq.refl _
  · apply (reverseParked_sparesPromos env posting _ _ _).bind
    exact fun reversal _ => Eq.refl _

theorem refund_sparesPromos (o : RefundOperation) : (refund env o).SparesPromos := by
  unfold refund
  iterate 2 (apply Work.SparesPromos.step (fun _ => Eq.refl _); intro _)
  split
  · exact .pure
  · iterate 3 (apply Work.SparesPromos.step (fun _ => Eq.refl _); intro _)
    apply Work.SparesPromos.claiming
    · exact fun _ => .pure
    · exact (reverseOrder_sparesPromos env o _ _).bind fun _ => .pure
    · intro _
      apply Work.SparesPromos.step fun _ => Eq.refl _
      exact fun _ => .pure

theorem postClawback_sparesPromos (o : ClawbackOperation) (amount : Amount) :
    (postClawback env o amount).SparesPromos := by
  iterate 4 (apply Work.SparesPromos.step (fun _ => Eq.refl _); intro _)
  exact fun _ => Eq.refl _

theorem clawback_sparesPromos (o : ClawbackOperation) : (clawback env o).SparesPromos := by
  unfold clawback
  apply Work.SparesPromos.step fun _ => Eq.refl _
  intro amount
  cases o.orderId with
  | none =>
    apply (postClawback_sparesPromos env o amount).bind
    exact fun _ => .pure
  | some orderId =>
    apply Work.SparesPromos.step fun _ => Eq.refl _
    intro _
    apply Work.SparesPromos.claiming
    · exact fun _ => .pure
    · exact (postClawback_sparesPromos env o amount).bind fun _ => .pure
    · exact fun _ => .pure

theorem adjust_sparesPromos (o : AdjustOperation) : (adjust env o).SparesPromos := by
  iterate 6 (apply Work.SparesPromos.step (fun _ => Eq.refl _); intro _)
  exact .pure

theorem reverse_sparesPromos (o : ReverseOperation) : (reverse env o).SparesPromos := by
  iterate 5 (apply Work.SparesPromos.step (fun _ => Eq.refl _); intro _)
  apply Work.SparesPromos.claiming
  · exact fun _ => .pure
  · iterate 3 (apply Work.SparesPromos.step (fun _ => Eq.refl _); intro _)
    exact .pure
  · exact fun _ => .pure

theorem lifecycleMarker_sparesPromos : (lifecycleMarker env).SparesPromos := by
  iterate 2 (apply Work.SparesPromos.step (fun _ => Eq.refl _); intro _)
  exact .pure

theorem cancelSubscription_sparesPromos (o : CancelSubscriptionOperation) :
    (cancelSubscription env o).SparesPromos := by
  unfold cancelSubscription
  iterate 2 (apply Work.SparesPromos.step (fun _ => Eq.refl _); intro _)
  split
  · exact .pure
  · split
    · exact .pure
    · iterate 2 (apply Work.SparesPromos.step (fun _ => Eq.refl _); intro _)
      exact (lifecycleMarker_sparesPromos env).bind fun _ => .pure

theorem grantEntitlement_sparesPromos (o : GrantEntitlementOperation) :
    (grantEntitlement env o).SparesPromos := by
  iterate 3 (apply Work.SparesPromos.step (fun _ => Eq.refl _); intro _)
  exact (lifecycleMarker_sparesPromos env).bind fun _ => .pure

theorem revokeEntitlement_sparesPromos (o : RevokeEntitlementOperation) :
    (revokeEntitlement env o).SparesPromos := by
  unfold revokeEntitlement
  apply Work.SparesPromos.step fun _ => Eq.refl _
  intro _
  have howns : (owns env o.userId o.sku).SparesPromos := by
    unfold owns
    apply Work.SparesPromos.step fun _ => Eq.refl _
    intro _
    split
    · exact .pure
    · split
      · exact .pure
      · split
        · exact .pure
        · apply Work.SparesPromos.step fun _ => Eq.refl _
          exact fun _ => .pure
  apply howns.bind
  intro _
  split
  · exact .pure
  · apply Work.SparesPromos.step fun _ => Eq.refl _
    intro _
    exact (lifecycleMarker_sparesPromos env).bind fun _ => .pure

theorem requestPayout_sparesPromos (rates : Rates) (payees : Option PayeeDirectory)
    (o : RequestPayoutOperation) :
    (requestPayout env config rates payees o).SparesPromos := by
  unfold requestPayout
  apply Work.SparesPromos.step fun _ => Eq.refl _
  intro amount
  have hretry : ∀ last, (retryAt env config last).SparesPromos := by
    intro last
    cases last with
    | none => exact .pure
    | some last =>
      apply Work.SparesPromos.step fun _ => Eq.refl _
      exact fun _ => .pure
  have hscreen : (screenRequest env config payees o.userId amount).SparesPromos := by
    unfold screenRequest
    split
    · apply Work.SparesPromos.step fun _ => Eq.refl _
      exact fun _ => .pure
    · apply Work.SparesPromos.step fun _ => Eq.refl _
      intro _
      apply (hretry _).bind
      intro due
      cases due with
      | some due => exact .pure
      | none =>
        simp only
        split
        · exact .pure
        · exact .pure
  have hearned : (screenEarned env config o.userId amount).SparesPromos := by
    unfold screenEarned
    iterate 4 (apply Work.SparesPromos.step (fun _ => Eq.refl _); intro _)
    split
    · exact .pure
    · exact screenMaturity_sparesPromos env config _ _ _
  apply hscreen.bind
  intro refused
  cases refused with
  | some refused => exact .pure
  | none =>
    apply hearned.bind
    intro refused
    cases refused with
    | some refused => exact .pure
    | none =>
      iterate 8 (apply Work.SparesPromos.step (fun _ => Eq.refl _); intro _)
      exact .pure

theorem loadSaga_sparesPromos (kind sagaId : String) : (loadSaga kind sagaId).SparesPromos :=
  fun _ => Eq.refl _

theorem reversePayout_sparesPromos (o : ReversePayoutOperation) :
    (reversePayout env config o).SparesPromos := by
  unfold reversePayout
  apply Work.SparesPromos.step fun _ => Eq.refl _
  intro _
  apply (loadSaga_sparesPromos _ _).bind
  intro saga
  iterate 2 (apply Work.SparesPromos.step (fun _ => Eq.refl _); intro _)
  have hlive : (refuseLiveSubmitted env config o saga).SparesPromos := by
    unfold refuseLiveSubmitted
    split
    · exact .pure
    · apply Work.SparesPromos.step fun _ => Eq.refl _
      exact fun now _ => Eq.refl _
  apply hlive.bind
  intro _
  split
  · exact .pure
  · unfold undoPayout
    iterate 2 (apply Work.SparesPromos.step (fun _ => Eq.refl _); intro _)
    split
    · exact .pure
    · iterate 4 (apply Work.SparesPromos.step (fun _ => Eq.refl _); intro _)
      exact .pure

theorem settlePayout_sparesPromos (o : SettlePayoutOperation) :
    (settlePayout env config o).SparesPromos := by
  unfold settlePayout
  apply (loadSaga_sparesPromos _ _).bind
  intro saga
  split
  · exact .pure
  · iterate 2 (apply Work.SparesPromos.step (fun _ => Eq.refl _); intro _)
    unfold settleSubmitted
    iterate 2 (apply Work.SparesPromos.step (fun _ => Eq.refl _); intro _)
    have hentries : ∀ usd fee net, (postSettlementEntries env config saga usd fee net).SparesPromos := by
      intro usd fee net
      have hlock : ∀ reserveRef, (lockReserve reserveRef).SparesPromos := by
        intro reserveRef
        unfold lockReserve
        split
        · exact .pure
        · exact fun _ => Eq.refl _
      apply (hlock _).bind
      intro _
      iterate 6 (apply Work.SparesPromos.step (fun _ => Eq.refl _); intro _)
      exact .pure
    apply (hentries _ _ _).bind
    intro _
    iterate 4 (apply Work.SparesPromos.step (fun _ => Eq.refl _); intro _)
    exact .pure

end Handlers

structure GrantsFiled (t : OrderedTable String PromoGrant) : Prop where
  distinct : t.keys.Nodup
  own : ∀ id grant, t.get id = some grant → grant.id = id
  positive : ∀ id grant, t.get id = some grant → 0 < grant.amount.minor

/-- Rows that are filed stay filed, and every grant that has a row keeps it. -/
def KeepsGrants (t t' : OrderedTable String PromoGrant) : Prop :=
  GrantsFiled t → GrantsFiled t' ∧ ∀ id grant, t.get id = some grant → t'.get id = some grant

theorem KeepsGrants.refl (t : OrderedTable String PromoGrant) : KeepsGrants t t :=
  fun h => ⟨h, fun _ _ hget => hget⟩

theorem KeepsGrants.of_eq {j j' : Journaled (OrderedTable String PromoGrant)} (h : j' = j) :
    KeepsGrants j.rows j'.rows := by
  rw [h]
  exact .refl _

theorem KeepsGrants.trans {t t' t'' : OrderedTable String PromoGrant} (h : KeepsGrants t t')
    (h' : KeepsGrants t' t'') :
    KeepsGrants t t'' := by
  intro hfiled
  obtain ⟨hfiled', hkept⟩ := h hfiled
  obtain ⟨hfiled'', hkept'⟩ := h' hfiled'
  exact ⟨hfiled'', fun id grant hget => hkept' id grant (hkept id grant hget)⟩

theorem KeepsGrants.start {grant : PromoGrant} (hpositive : 0 < grant.amount.minor)
    (j : Journaled (OrderedTable String PromoGrant)) :
    KeepsGrants j.rows ((PromoWrite.start grant).run j).rows := by
  intro hfiled
  unfold PromoWrite.run
  simp only
  cases hget : j.rows.get grant.id with
  | some there => exact ⟨hfiled, fun _ _ h => h⟩
  | none =>
    change GrantsFiled (j.rows.set grant.id grant) ∧ ∀ id g, _ → (j.rows.set grant.id grant).get id =
      some g
    refine ⟨⟨OrderedTable.nodup_keys_set hfiled.distinct _ _, ?_, ?_⟩, ?_⟩
    · intro id g h
      rw [OrderedTable.get_set] at h
      split at h
      · rename_i hid
        rw [hid, ← Option.some.inj h]
      · exact hfiled.own id g h
    · intro id g h
      rw [OrderedTable.get_set] at h
      split at h
      · rw [← Option.some.inj h]
        exact hpositive
      · exact hfiled.positive id g h
    · intro id g h
      have hne : id ≠ grant.id := by
        rintro rfl
        rw [hget] at h
        cases h
      rw [OrderedTable.get_set, if_neg hne]
      exact h

/-! ## A submit -/

def Txn.KeepsGrants {α : Type} (x : Txn α) : Prop :=
  ∀ w, EconomyLab.KeepsGrants w.promos.rows (x.run w).2.promos.rows

namespace Txn.KeepsGrants

variable {α β : Type}

theorem of_spares {x : Txn α} (h : SparesPromos x) : KeepsGrants x := fun w => .of_eq (h w)

theorem bind {x : Txn α} {f : α → Txn β} (hx : KeepsGrants x) (hf : ∀ a, KeepsGrants (f a)) :
    KeepsGrants (x >>= f) :=
  bind_related (fun w w' => EconomyLab.KeepsGrants w.promos.rows w'.promos.rows) (fun h h' => h.trans h')
    hx hf

theorem lift {r : Except Fault α} {f : α → Txn β} (hf : ∀ a, r = .ok a → KeepsGrants (f a)) :
    KeepsGrants (Txn.lift r >>= f) := by
  intro w
  rw [run_bind, run_lift]
  cases r with
  | error e => exact .refl _
  | ok a => exact hf a (Eq.refl _) w

theorem claiming {env : Env} {key : String} {onDuplicate : Transaction → Txn α}
    {body : Txn ((Transaction × β) ⊕ α)} {after : Transaction → β → Txn α}
    (hduplicate : ∀ transaction, KeepsGrants (onDuplicate transaction)) (hbody : KeepsGrants body)
    (hafter : ∀ transaction b, KeepsGrants (after transaction b)) :
    KeepsGrants (Txn.claiming env key onDuplicate body after) :=
  claiming_related (fun w w' => EconomyLab.KeepsGrants w.promos.rows w'.promos.rows)
    (fun h h' => h.trans h') (fun _ _ => .refl _) hduplicate hbody hafter

end Txn.KeepsGrants

theorem grantPromo_keepsGrants (env : Env) (o : GrantPromoOperation) :
    (grantPromo env o).txn.KeepsGrants := by
  apply Txn.KeepsGrants.lift
  intro amount hamount
  obtain ⟨hsame, -, hpositive⟩ := requirePositiveCredit_ok hamount
  apply Txn.KeepsGrants.bind (.of_spares fun _ => Eq.refl _)
  intro now
  apply Txn.KeepsGrants.bind (.of_spares fun _ => Eq.refl _)
  intro expiresAt
  apply Txn.KeepsGrants.bind (.of_spares fun _ => Eq.refl _)
  intro txnId
  apply Txn.KeepsGrants.bind (.of_spares fun _ => Eq.refl _)
  intro legs
  apply Txn.KeepsGrants.bind (.of_spares fun _ => Eq.refl _)
  intro transaction
  have hopens : Txn.KeepsGrants (Txn.promo
      (.start ⟨transaction.id, o.userId, amount, expiresAt, false⟩)) := by
    intro w
    apply KeepsGrants.start _ w.promos
    rw [hsame]
    exact hpositive
  apply Txn.KeepsGrants.bind hopens
  exact fun _ => .of_spares (.pure _)

theorem handlerOf_keepsGrants (ports : Ports) (env : Env) (config : Config) (operation : Operation) :
    (handlerOf ports env config operation).txn.KeepsGrants := by
  cases operation with
  | topUp o => exact .of_spares (topUp_sparesPromos env config ports.rates o)
  | spend o => exact .of_spares (spend_sparesPromos env config o)
  | refund o => exact .of_spares (refund_sparesPromos env o)
  | clawback o => exact .of_spares (clawback_sparesPromos env o)
  | requestPayout o => exact .of_spares (requestPayout_sparesPromos env config ports.rates ports.payees o)
  | subscribe o => exact .of_spares (subscribe_sparesPromos env config o)
  | cancelSubscription o => exact .of_spares (cancelSubscription_sparesPromos env o)
  | grantEntitlement o => exact .of_spares (grantEntitlement_sparesPromos env o)
  | revokeEntitlement o => exact .of_spares (revokeEntitlement_sparesPromos env o)
  | grantPromo o => exact grantPromo_keepsGrants env o
  | adjust o => exact .of_spares (adjust_sparesPromos env o)
  | reverse o => exact .of_spares (reverse_sparesPromos env o)
  | reversePayout o => exact .of_spares (reversePayout_sparesPromos env config o)
  | settlePayout o => exact .of_spares (settlePayout_sparesPromos env config o)

theorem preClaimOf_sparesPromos (operation : Operation) : Txn.SparesPromos (preClaimOf operation) := by
  cases operation with
  | spend o => exact Txn.SparesPromos.bind (fun _ => Eq.refl _) fun _ => .pure _
  | _ => exact .pure _

section Submit

variable (ports : Ports) (env : Env) (config : Config) (operation : Operation)

theorem screenRisk_sparesPromos : Txn.SparesPromos (screenRisk (registry ports) env config operation) := by
  unfold screenRisk
  split
  · apply Txn.SparesPromos.bind fun _ => Eq.refl _
    intro now
    split
    · exact .pure _
    · apply Txn.SparesPromos.bind fun _ => Eq.refl _
      intro check
      apply Txn.SparesPromos.bind fun _ => Eq.refl _
      exact fun velocity => .pure _
  · exact .pure _

theorem screenFunds_sparesPromos : Txn.SparesPromos (screenFunds (registry ports) operation) := by
  intro w
  exact congrArg World.promos (screenFunds_reads operation (registry_orderly ports) w)

theorem emitEvents_sparesPromos (transaction : Transaction) :
    Txn.SparesPromos (emitEvents (registry ports) env operation transaction) := by
  unfold emitEvents
  split
  · exact .pure _
  · apply Txn.SparesPromos.bind fun _ => Eq.refl _
    intro id
    apply Txn.SparesPromos.bind fun _ => Eq.refl _
    exact fun messageId _ => Eq.refl _

theorem runClaimed_keepsGrants : Txn.KeepsGrants (runClaimed (registry ports) env config operation) := by
  apply Txn.KeepsGrants.claiming
  · exact fun transaction => .of_spares (.pure _)
  · apply Txn.KeepsGrants.bind (.of_spares (preClaimOf_sparesPromos operation))
    intro duplicate
    cases duplicate with
    | some duplicate => exact .of_spares (.pure _)
    | none =>
      apply Txn.KeepsGrants.bind (.of_spares (screenRisk_sparesPromos ports env config operation))
      intro denied
      cases denied with
      | some denied => exact .of_spares (.pure _)
      | none =>
        apply Txn.KeepsGrants.bind (.of_spares (screenFunds_sparesPromos ports operation))
        intro refused
        cases refused with
        | some refused => exact .of_spares (.pure _)
        | none =>
          apply Txn.KeepsGrants.bind (handlerOf_keepsGrants ports env config operation)
          intro outcome
          cases outcome with
          | committed transaction => exact .of_spares (.pure _)
          | duplicate transaction => exact .of_spares (.pure _)
          | rejected detail => exact .of_spares (.pure _)
  · intro transaction _
    apply Txn.KeepsGrants.bind (.of_spares (emitEvents_sparesPromos ports env operation transaction))
    exact fun _ => .of_spares (.pure _)

structure World.Settled (w : World) : Prop where
  closed : w.Closed
  sound : w.Sound

/-- Putting an attempt back outside a transaction opens none. -/
theorem putBack_settled (check : Option RiskCheck) {w : World} (h : w.Settled) :
    (putBack check w).Settled ∧ (putBack check w).promos = w.promos := by
  cases check with
  | none => exact ⟨h, Eq.refl _⟩
  | some check =>
    have htrust : (TrustTables.insert check.subject check.attempt w.trust).undos = none :=
      TrustTables.insert_closed h.closed.trust
    exact ⟨⟨{ h.closed with trust := htrust }, ⟨h.sound.lots, h.sound.columns⟩⟩, Eq.refl _⟩

theorem submit_keepsGrants (now : Int) {w : World} (h : w.Settled) :
    (submit (registry ports) env config operation now w).2.Settled ∧
      KeepsGrants w.promos.rows (submit (registry ports) env config operation now w).2.promos.rows := by
  unfold submit
  cases screenOperation (registry ports) config operation now with
  | error e => exact ⟨h, .refl _⟩
  | ok refused =>
    cases refused with
    | some refused => exact ⟨h, .refl _⟩
    | none =>
      rw [h.closed.beginAll]
      simp only
      have hext := (runClaimed (registry ports) env config operation).undoable w.opened
        (opened_sound h.sound)
      have hkept := runClaimed_keepsGrants ports env config operation w.opened
      rcases hr : (runClaimed (registry ports) env config operation).run w.opened with ⟨res, done⟩
      rw [hr] at hext hkept
      simp only
      cases rejectionsRollBack res with
      | ok outcome => exact ⟨⟨World.commitAll_closed _, ⟨hext.sound.lots, hext.sound.columns⟩⟩, hkept⟩
      | error thrown =>
        have hsame := World.rollbackAll_sameTables h.closed hext
        obtain ⟨hsettled, hpromos⟩ := putBack_settled (staged (registry ports) env operation w.opened)
          ⟨World.rollbackAll_closed done, hsame.sound h.sound⟩
        exact ⟨hsettled, .of_eq (hpromos.trans hsame.promos)⟩

end Submit

end EconomyLab
