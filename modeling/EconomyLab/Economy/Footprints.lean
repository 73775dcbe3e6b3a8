import EconomyLab.Economy.Commits

/-!
# Which stores an operation writes

Beside the ledger and the keys, every handler writes the rows of a few stores only. Its kind tells
which, and a submit adds nothing to them but the outbox.
-/

namespace EconomyLab

open Foundation

inductive RowStore
  | sales
  | outbox
  | sagas
  | entitlements
  | subscriptions
  | promos
  | accruals
deriving DecidableEq

structure RowStores where
  sales : OrderedTable String Sale
  outbox : OutboxTables
  sagas : SagaTables
  entitlements : OrderedTable String EntitlementRow
  subscriptions : OrderedTable String Subscription
  promos : OrderedTable String PromoGrant
  accruals : AccrualTables

def World.rowStores (w : World) : RowStores :=
  ⟨w.sales.rows, w.outbox.rows, w.sagas.rows, w.entitlements.rows, w.subscriptions.rows, w.promos.rows,
    w.accruals.rows⟩

def RowStores.Agree (r r' : RowStores) : RowStore → Prop
  | .sales => r'.sales = r.sales
  | .outbox => r'.outbox = r.outbox
  | .sagas => r'.sagas = r.sagas
  | .entitlements => r'.entitlements = r.entitlements
  | .subscriptions => r'.subscriptions = r.subscriptions
  | .promos => r'.promos = r.promos
  | .accruals => r'.accruals = r.accruals

def RowStores.Within (stores : List RowStore) (r r' : RowStores) : Prop :=
  ∀ store, store ∉ stores → r.Agree r' store

namespace RowStores

variable {stores : List RowStore} {r r' r'' : RowStores}

theorem Agree.refl (r : RowStores) (store : RowStore) : r.Agree r store := by
  cases store with
  | _ => exact Eq.refl _

theorem Agree.trans {store : RowStore} (h : r.Agree r' store) (h' : r'.Agree r'' store) :
    r.Agree r'' store := by
  cases store with
  | _ => exact Eq.trans h' h

theorem Within.of_eq (h : r' = r) : Within stores r r' := fun store _ => h ▸ .refl r store

theorem Within.trans (h : Within stores r r') (h' : Within stores r' r'') : Within stores r r'' :=
  fun store hstore => (h store hstore).trans (h' store hstore)

theorem Within.mono {more : List RowStore} (h : Within stores r r') (hsub : stores ⊆ more) :
    Within more r r' :=
  fun store hstore => h store fun hmem => hstore (hsub hmem)

end RowStores

theorem World.SameTables.rowStores {w w' : World} (h : w.SameTables w') : w'.rowStores = w.rowStores := by
  unfold World.rowStores
  rw [h.sales, h.outbox, h.sagas, h.entitlements, h.subscriptions, h.promos, h.accruals]

/-! ## Footprints -/

/-- Every store outside the list stays as it is, and no minted id is taken back. -/
structure World.Spares (stores : List RowStore) (w w' : World) : Prop where
  rows : RowStores.Within stores w.rowStores w'.rowStores
  minted : w.minted ≤ w'.minted

namespace World.Spares

variable {stores : List RowStore} {w w' w'' : World}

theorem trans (h : Spares stores w w') (h' : Spares stores w' w'') : Spares stores w w'' :=
  ⟨h.rows.trans h'.rows, h.minted.trans h'.minted⟩

theorem mono {more : List RowStore} (h : Spares stores w w') (hsub : stores ⊆ more) : Spares more w w' :=
  ⟨h.rows.mono hsub, h.minted⟩

/-- A change of the ledger, the keys, the velocity windows or the clock at most. -/
theorem of_same (h : w'.rowStores = w.rowStores ∧ w'.minted = w.minted) : Spares stores w w' :=
  ⟨.of_eq h.1, h.2.ge⟩

end World.Spares

variable {α β : Type} {stores : List RowStore}

def Txn.WritesOnly (stores : List RowStore) (x : Txn α) : Prop := ∀ w, World.Spares stores w (x.run w).2

namespace Txn.WritesOnly

theorem mono {more : List RowStore} {x : Txn α} (h : WritesOnly stores x) (hsub : stores ⊆ more) :
    WritesOnly more x := fun w => (h w).mono hsub

theorem nothing {x : Txn α}
    (h : ∀ w, (x.run w).2.rowStores = w.rowStores ∧ (x.run w).2.minted = w.minted) :
    WritesOnly stores x := fun w => .of_same (h w)

theorem pure (a : α) : WritesOnly stores (Pure.pure a : Txn α) := nothing fun _ => ⟨Eq.refl _, Eq.refl _⟩

theorem bind {x : Txn α} {f : α → Txn β} (hx : WritesOnly stores x) (hf : ∀ a, WritesOnly stores (f a)) :
    WritesOnly stores (x >>= f) :=
  bind_related (World.Spares stores) (fun h h' => h.trans h') hx hf

theorem step {x : Txn α} {f : α → Txn β}
    (hx : ∀ w, (x.run w).2.rowStores = w.rowStores ∧ (x.run w).2.minted = w.minted)
    (hf : ∀ a, WritesOnly stores (f a)) : WritesOnly stores (x >>= f) := bind (nothing hx) hf

theorem mint {env : Env} {kind : String} {f : String → Txn β} (hf : ∀ id, WritesOnly stores (f id)) :
    WritesOnly stores (Txn.mint env kind >>= f) := by
  apply bind _ hf
  intro w
  exact ⟨.of_eq (Eq.refl _), Nat.le_succ _⟩

theorem claiming {env : Env} {key : String} {onDuplicate : Transaction → Txn α}
    {body : Txn ((Transaction × β) ⊕ α)} {after : Transaction → β → Txn α}
    (hduplicate : ∀ transaction, WritesOnly stores (onDuplicate transaction))
    (hbody : WritesOnly stores body) (hafter : ∀ transaction b, WritesOnly stores (after transaction b)) :
    WritesOnly stores (Txn.claiming env key onDuplicate body after) :=
  claiming_related (World.Spares stores) (fun h h' => h.trans h')
    (fun _ _ => .of_same ⟨Eq.refl _, Eq.refl _⟩) hduplicate hbody
    hafter

end Txn.WritesOnly

namespace Work

def WritesOnly (stores : List RowStore) (x : Work α) : Prop := Txn.WritesOnly stores x.txn

namespace WritesOnly

theorem pure {a : α} : WritesOnly stores (Pure.pure a : Work α) := Txn.WritesOnly.pure a

theorem bind {x : Work α} {f : α → Work β} (hx : WritesOnly stores x) (hf : ∀ a, WritesOnly stores (f a)) :
    WritesOnly stores (x >>= f) := Txn.WritesOnly.bind hx hf

theorem step {x : Work α} {f : α → Work β}
    (hx : ∀ w, (x.txn.run w).2.rowStores = w.rowStores ∧ (x.txn.run w).2.minted = w.minted)
    (hf : ∀ a, WritesOnly stores (f a)) : WritesOnly stores (x >>= f) := Txn.WritesOnly.step hx hf

theorem mint {env : Env} {kind : String} {f : String → Work β} (hf : ∀ id, WritesOnly stores (f id)) :
    WritesOnly stores (Work.mint env kind >>= f) := Txn.WritesOnly.mint hf

theorem claiming {env : Env} {key : String} {hkey : isReversalKey key = true}
    {onDuplicate : Transaction → Work α} {body : Work (Transaction ⊕ α)} {after : Transaction → Work α}
    (hduplicate : ∀ transaction, WritesOnly stores (onDuplicate transaction))
    (hbody : WritesOnly stores body) (hafter : ∀ transaction, WritesOnly stores (after transaction)) :
    WritesOnly stores (Work.claiming env key hkey onDuplicate body after) :=
  Txn.WritesOnly.claiming hduplicate (Txn.WritesOnly.bind hbody fun _ => .pure _)
    fun transaction _ => hafter transaction

theorem one {x : Work α} {name : RowStore}
    (h : ∀ w, (∀ store, store ≠ name → RowStores.Agree w.rowStores (x.txn.run w).2.rowStores store) ∧
      (x.txn.run w).2.minted = w.minted)
    (hname : name ∈ stores) : WritesOnly stores x := by
  intro w
  refine ⟨?_, (h w).2.ge⟩
  intro store hstore
  apply (h w).1 store
  rintro rfl
  exact hstore hname

theorem sale (write : SaleWrite) (h : .sales ∈ stores) : WritesOnly stores (Work.sale write) := by
  refine one (fun w => ⟨?_, Eq.refl _⟩) h
  intro store hne
  cases store <;> first | exact Eq.refl _ | exact absurd (Eq.refl _) hne

theorem entitlement (write : EntitlementWrite) (h : .entitlements ∈ stores) :
    WritesOnly stores (Work.entitlement write) := by
  refine one (fun w => ⟨?_, Eq.refl _⟩) h
  intro store hne
  cases store <;> first | exact Eq.refl _ | exact absurd (Eq.refl _) hne

theorem subscription (write : SubscriptionWrite) (h : .subscriptions ∈ stores) :
    WritesOnly stores (Work.subscription write) := by
  refine one (fun w => ⟨?_, Eq.refl _⟩) h
  intro store hne
  cases store <;> first | exact Eq.refl _ | exact absurd (Eq.refl _) hne

theorem saga (write : SagaWrite) (h : .sagas ∈ stores) : WritesOnly stores (Work.saga write) := by
  refine one (fun w => ⟨?_, Eq.refl _⟩) h
  intro store hne
  cases store <;> first | exact Eq.refl _ | exact absurd (Eq.refl _) hne

theorem advanceSaga (id : String) (source target : SagaState) (patch : Saga → Saga) (h : .sagas ∈ stores) :
    WritesOnly stores (Work.advanceSaga id source target patch) := by
  refine one (fun w => ⟨?_, Eq.refl _⟩) h
  intro store hne
  cases store <;> first | exact Eq.refl _ | exact absurd (Eq.refl _) hne

theorem promo (write : PromoWrite) (h : .promos ∈ stores) : WritesOnly stores (Work.promo write) := by
  refine one (fun w => ⟨?_, Eq.refl _⟩) h
  intro store hne
  cases store <;> first | exact Eq.refl _ | exact absurd (Eq.refl _) hne

theorem putAccruals (batch : List AccrualRow) (h : .accruals ∈ stores) :
    WritesOnly stores (Work.putAccruals batch) := by
  refine one (fun w => ⟨?_, Eq.refl _⟩) h
  intro store hne
  cases store <;> first | exact Eq.refl _ | exact absurd (Eq.refl _) hne

theorem markAccruals (keys : List (String × String × Nat)) (status : AccrualStatus) (settledTxnId : String)
    (h : .accruals ∈ stores) : WritesOnly stores (Work.markAccruals keys status settledTxnId) := by
  refine one (fun w => ⟨?_, Eq.refl _⟩) h
  intro store hne
  cases store <;> first | exact Eq.refl _ | exact absurd (Eq.refl _) hne

theorem emit (env : Env) (draft : Txn.EventDraft) (h : .outbox ∈ stores) :
    WritesOnly stores (Work.emit env draft) := by
  intro w
  refine ⟨?_, Nat.le_add_right _ 2⟩
  intro store hstore
  cases store with
  | outbox => exact absurd h hstore
  | _ => exact Eq.refl _

end WritesOnly

end Work

/-! ## The handlers -/

open Work (WritesOnly)

section Handlers

variable (env : Env) (config : Config)

theorem topUp_writesOnly (rates : Rates) (o : TopUpOperation) :
    WritesOnly [] (topUp env config rates o) := by
  unfold topUp
  iterate 6
    (first | apply WritesOnly.mint | apply WritesOnly.step fun _ => ⟨Eq.refl _, Eq.refl _⟩)
    intro _
  split
  · exact Txn.WritesOnly.nothing fun _ => ⟨Eq.refl _, Eq.refl _⟩
  · iterate 6
      (first | apply WritesOnly.mint | apply WritesOnly.step fun _ => ⟨Eq.refl _, Eq.refl _⟩)
      intro _
    exact .pure

theorem recordAccruals_writesOnly (orderId routeKey : String) (charge : Charge) (transaction : Transaction)
    (h : .accruals ∈ stores) :
    WritesOnly stores (recordAccruals config orderId routeKey charge transaction) := by
  unfold recordAccruals
  split
  · exact .pure
  · apply WritesOnly.step fun _ => ⟨Eq.refl _, Eq.refl _⟩
    exact fun rows => .putAccruals rows h

theorem screenMaturity_writesOnly (account : AccountRef) (amount live : Amount) :
    WritesOnly stores (screenMaturity env config account amount live) := by
  unfold screenMaturity
  iterate 2
    (first | apply WritesOnly.mint | apply WritesOnly.step fun _ => ⟨Eq.refl _, Eq.refl _⟩)
    intro _
  split
  · exact .pure
  · iterate 2
      (first | apply WritesOnly.mint | apply WritesOnly.step fun _ => ⟨Eq.refl _, Eq.refl _⟩)
      intro _
    exact .pure

theorem spend_writesOnly (o : SpendOperation) :
    WritesOnly [.sales, .entitlements, .accruals] (spend env config o) := by
  unfold spend
  iterate 5
    (first | apply WritesOnly.mint | apply WritesOnly.step fun _ => ⟨Eq.refl _, Eq.refl _⟩)
    intro _
  split
  · exact .pure
  · iterate 3
      (first | apply WritesOnly.mint | apply WritesOnly.step fun _ => ⟨Eq.refl _, Eq.refl _⟩)
      intro _
    apply WritesOnly.bind (screenMaturity_writesOnly env config _ _ _)
    intro immature
    cases immature with
    | some refused => exact .pure
    | none =>
      iterate 4
        (first | apply WritesOnly.mint | apply WritesOnly.step fun _ => ⟨Eq.refl _, Eq.refl _⟩)
        intro _
      apply WritesOnly.bind (.sale _ (by simp))
      intro _
      apply WritesOnly.bind (recordAccruals_writesOnly config _ _ _ _ (by simp))
      intro _
      apply WritesOnly.bind (.entitlement _ (by simp))
      exact fun _ => .pure

theorem screenSpendable_writesOnly (userId : String) (plan : SpendPlan) :
    WritesOnly stores (screenSpendable env config userId plan) := by
  unfold screenSpendable
  iterate 2
    (first | apply WritesOnly.mint | apply WritesOnly.step fun _ => ⟨Eq.refl _, Eq.refl _⟩)
    intro _
  split
  · exact .pure
  · exact screenMaturity_writesOnly env config _ _ _

theorem openSubscription_writesOnly (o : SubscribeOperation) (plan : SpendPlan) :
    WritesOnly [.subscriptions, .entitlements, .accruals] (openSubscription env config o plan) := by
  apply WritesOnly.mint
  intro subscriptionId
  have hcharge : WritesOnly [.subscriptions, .entitlements, .accruals]
      (postCharge env config o plan subscriptionId) := by
    iterate 3
      (first | apply WritesOnly.mint | apply WritesOnly.step fun _ => ⟨Eq.refl _, Eq.refl _⟩)
      intro _
    apply WritesOnly.bind (recordAccruals_writesOnly config _ _ _ _ (by simp))
    exact fun _ => .pure
  apply hcharge.bind
  intro _
  apply WritesOnly.bind (.subscription _ (by simp))
  intro _
  apply WritesOnly.bind (.entitlement _ (by simp))
  exact fun _ => .pure

theorem subscribe_writesOnly (o : SubscribeOperation) :
    WritesOnly [.subscriptions, .entitlements, .accruals] (subscribe env config o) := by
  unfold subscribe
  iterate 4
    (first | apply WritesOnly.mint | apply WritesOnly.step fun _ => ⟨Eq.refl _, Eq.refl _⟩)
    intro _
  split
  · exact .pure
  · iterate 2
      (first | apply WritesOnly.mint | apply WritesOnly.step fun _ => ⟨Eq.refl _, Eq.refl _⟩)
      intro _
    apply WritesOnly.bind (screenSpendable_writesOnly env config _ _)
    intro refused
    cases refused with
    | some refused => exact .pure
    | none => exact openSubscription_writesOnly env config o _

theorem reverseParked_writesOnly (posting : Posting) (claimed saleRows : List AccrualRow) (txnId : String)
    (h : .accruals ∈ stores) : WritesOnly stores (reverseParked env posting claimed saleRows txnId) := by
  unfold reverseParked
  iterate 3
    (first | apply WritesOnly.mint | apply WritesOnly.step fun _ => ⟨Eq.refl _, Eq.refl _⟩)
    intro _
  apply WritesOnly.bind (.markAccruals _ _ _ h)
  intro _
  split
  · exact .pure
  · iterate 2
      (first | apply WritesOnly.mint | apply WritesOnly.step fun _ => ⟨Eq.refl _, Eq.refl _⟩)
      intro _
    apply WritesOnly.bind (.putAccruals _ h)
    exact fun _ => .pure

theorem reverseOrder_writesOnly (o : RefundOperation) (sale : Sale) (posting : Posting)
    (h : .accruals ∈ stores) :
    WritesOnly stores (reverseOrder env o sale posting) := by
  unfold reverseOrder
  iterate 2
    (first | apply WritesOnly.mint | apply WritesOnly.step fun _ => ⟨Eq.refl _, Eq.refl _⟩)
    intro _
  simp only
  split
  · have hsale : WritesOnly stores (reverseSale posting) := by
      iterate 3
        (first | apply WritesOnly.mint | apply WritesOnly.step fun _ => ⟨Eq.refl _, Eq.refl _⟩)
        intro _
      exact .pure
    apply hsale.bind
    exact fun reversal => Txn.WritesOnly.nothing fun _ => ⟨Eq.refl _, Eq.refl _⟩
  · apply (reverseParked_writesOnly env posting _ _ _ h).bind
    exact fun reversal => Txn.WritesOnly.nothing fun _ => ⟨Eq.refl _, Eq.refl _⟩

theorem refund_writesOnly (o : RefundOperation) :
    WritesOnly [.entitlements, .accruals] (refund env o) := by
  unfold refund
  iterate 2
    (first | apply WritesOnly.mint | apply WritesOnly.step fun _ => ⟨Eq.refl _, Eq.refl _⟩)
    intro _
  split
  · exact .pure
  · iterate 3
      (first | apply WritesOnly.mint | apply WritesOnly.step fun _ => ⟨Eq.refl _, Eq.refl _⟩)
      intro _
    apply WritesOnly.claiming
    · exact fun _ => .pure
    · exact (reverseOrder_writesOnly env o _ _ (by simp)).bind fun _ => .pure
    · intro _
      apply WritesOnly.bind (.entitlement _ (by simp))
      exact fun _ => .pure

theorem postClawback_writesOnly (o : ClawbackOperation) (amount : Amount) :
    WritesOnly [] (postClawback env o amount) := by
  iterate 4
    (first | apply WritesOnly.mint | apply WritesOnly.step fun _ => ⟨Eq.refl _, Eq.refl _⟩)
    intro _
  exact Txn.WritesOnly.nothing fun _ => ⟨Eq.refl _, Eq.refl _⟩

theorem clawback_writesOnly (o : ClawbackOperation) : WritesOnly [] (clawback env o) := by
  unfold clawback
  apply WritesOnly.step fun _ => ⟨Eq.refl _, Eq.refl _⟩
  intro amount
  cases o.orderId with
  | none =>
    apply (postClawback_writesOnly env o amount).bind
    exact fun _ => .pure
  | some orderId =>
    apply WritesOnly.step fun _ => ⟨Eq.refl _, Eq.refl _⟩
    intro _
    apply WritesOnly.claiming
    · exact fun _ => .pure
    · exact (postClawback_writesOnly env o amount).bind fun _ => .pure
    · exact fun _ => .pure

theorem adjust_writesOnly (o : AdjustOperation) : WritesOnly [] (adjust env o) := by
  iterate 6
    (first | apply WritesOnly.mint | apply WritesOnly.step fun _ => ⟨Eq.refl _, Eq.refl _⟩)
    intro _
  exact .pure

theorem reverse_writesOnly (o : ReverseOperation) : WritesOnly [] (reverse env o) := by
  iterate 5
    (first | apply WritesOnly.mint | apply WritesOnly.step fun _ => ⟨Eq.refl _, Eq.refl _⟩)
    intro _
  apply WritesOnly.claiming
  · exact fun _ => .pure
  · iterate 3
      (first | apply WritesOnly.mint | apply WritesOnly.step fun _ => ⟨Eq.refl _, Eq.refl _⟩)
      intro _
    exact .pure
  · exact fun _ => .pure

theorem lifecycleMarker_writesOnly : WritesOnly stores (lifecycleMarker env) := by
  iterate 2
    (first | apply WritesOnly.mint | apply WritesOnly.step fun _ => ⟨Eq.refl _, Eq.refl _⟩)
    intro _
  exact .pure

theorem cancelSubscription_writesOnly (o : CancelSubscriptionOperation) :
    WritesOnly [.subscriptions] (cancelSubscription env o) := by
  unfold cancelSubscription
  iterate 2
    (first | apply WritesOnly.mint | apply WritesOnly.step fun _ => ⟨Eq.refl _, Eq.refl _⟩)
    intro _
  split
  · exact .pure
  · split
    · exact .pure
    · apply WritesOnly.step fun _ => ⟨Eq.refl _, Eq.refl _⟩
      intro _
      apply WritesOnly.bind (.subscription _ (by simp))
      intro _
      exact (lifecycleMarker_writesOnly env).bind fun _ => .pure

theorem grantEntitlement_writesOnly (o : GrantEntitlementOperation) :
    WritesOnly [.entitlements] (grantEntitlement env o) := by
  iterate 2
    (first | apply WritesOnly.mint | apply WritesOnly.step fun _ => ⟨Eq.refl _, Eq.refl _⟩)
    intro _
  apply WritesOnly.bind (.entitlement _ (by simp))
  intro _
  exact (lifecycleMarker_writesOnly env).bind fun _ => .pure

theorem owns_writesOnly (userId sku : String) : WritesOnly stores (owns env userId sku) := by
  unfold owns
  apply WritesOnly.step fun _ => ⟨Eq.refl _, Eq.refl _⟩
  intro _
  split
  · exact .pure
  · split
    · exact .pure
    · split
      · exact .pure
      · apply WritesOnly.step fun _ => ⟨Eq.refl _, Eq.refl _⟩
        exact fun _ => .pure

theorem revokeEntitlement_writesOnly (o : RevokeEntitlementOperation) :
    WritesOnly [.entitlements] (revokeEntitlement env o) := by
  unfold revokeEntitlement
  apply WritesOnly.step fun _ => ⟨Eq.refl _, Eq.refl _⟩
  intro _
  apply (owns_writesOnly env o.userId o.sku).bind
  intro _
  split
  · exact .pure
  · apply WritesOnly.bind (.entitlement _ (by simp))
    intro _
    exact (lifecycleMarker_writesOnly env).bind fun _ => .pure

theorem grantPromo_writesOnly (o : GrantPromoOperation) : WritesOnly [.promos] (grantPromo env o) := by
  iterate 6
    (first | apply WritesOnly.mint | apply WritesOnly.step fun _ => ⟨Eq.refl _, Eq.refl _⟩)
    intro _
  apply WritesOnly.bind (.promo _ (by simp))
  exact fun _ => .pure

theorem screenRequest_writesOnly (payees : Option PayeeDirectory) (userId : String) (amount : Amount) :
    WritesOnly stores (screenRequest env config payees userId amount) := by
  have hretry : ∀ last, WritesOnly stores (retryAt env config last) := by
    intro last
    cases last with
    | none => exact .pure
    | some last =>
      apply WritesOnly.step fun _ => ⟨Eq.refl _, Eq.refl _⟩
      exact fun _ => .pure
  unfold screenRequest
  split
  · apply WritesOnly.step fun _ => ⟨Eq.refl _, Eq.refl _⟩
    exact fun _ => .pure
  · apply WritesOnly.step fun _ => ⟨Eq.refl _, Eq.refl _⟩
    intro _
    apply (hretry _).bind
    intro due
    cases due with
    | some due => exact .pure
    | none =>
      simp only
      split
      · exact .pure
      · exact .pure

theorem screenEarned_writesOnly (userId : String) (amount : Amount) :
    WritesOnly stores (screenEarned env config userId amount) := by
  unfold screenEarned
  iterate 4
    (first | apply WritesOnly.mint | apply WritesOnly.step fun _ => ⟨Eq.refl _, Eq.refl _⟩)
    intro _
  split
  · exact .pure
  · exact screenMaturity_writesOnly env config _ _ _

theorem requestPayout_writesOnly (rates : Rates) (payees : Option PayeeDirectory)
    (o : RequestPayoutOperation) :
    WritesOnly [.sagas] (requestPayout env config rates payees o) := by
  unfold requestPayout
  apply WritesOnly.step fun _ => ⟨Eq.refl _, Eq.refl _⟩
  intro amount
  apply (screenRequest_writesOnly env config payees _ _).bind
  intro refused
  cases refused with
  | some refused => exact .pure
  | none =>
    apply (screenEarned_writesOnly env config _ _).bind
    intro refused
    cases refused with
    | some refused => exact .pure
    | none =>
      iterate 7
        (first | apply WritesOnly.mint | apply WritesOnly.step fun _ => ⟨Eq.refl _, Eq.refl _⟩)
        intro _
      apply WritesOnly.bind (.saga _ (by simp))
      exact fun _ => .pure

theorem reversePayout_writesOnly (o : ReversePayoutOperation) :
    WritesOnly [.sagas] (reversePayout env config o) := by
  unfold reversePayout
  iterate 4
    (first | apply WritesOnly.mint | apply WritesOnly.step fun _ => ⟨Eq.refl _, Eq.refl _⟩)
    intro _
  have hlive : ∀ saga, WritesOnly [.sagas] (refuseLiveSubmitted env config o saga) := by
    intro saga
    unfold refuseLiveSubmitted
    split
    · exact .pure
    · apply WritesOnly.step fun _ => ⟨Eq.refl _, Eq.refl _⟩
      exact fun now => Txn.WritesOnly.nothing fun _ => ⟨Eq.refl _, Eq.refl _⟩
  apply (hlive _).bind
  intro _
  split
  · exact .pure
  · unfold undoPayout
    apply WritesOnly.step fun _ => ⟨Eq.refl _, Eq.refl _⟩
    intro _
    apply WritesOnly.bind (.advanceSaga _ _ _ _ (by simp))
    intro _
    split
    · exact .pure
    · iterate 4
        (first | apply WritesOnly.mint | apply WritesOnly.step fun _ => ⟨Eq.refl _, Eq.refl _⟩)
        intro _
      exact .pure

theorem postSettlementEntries_writesOnly (saga : Saga) (usd fee net : Amount) :
    WritesOnly stores (postSettlementEntries env config saga usd fee net) := by
  have hlock : ∀ reserveRef, WritesOnly stores (lockReserve reserveRef) := by
    intro reserveRef
    unfold lockReserve
    split
    · exact .pure
    · exact Txn.WritesOnly.nothing fun _ => ⟨Eq.refl _, Eq.refl _⟩
  apply (hlock _).bind
  intro _
  iterate 6
    (first | apply WritesOnly.mint | apply WritesOnly.step fun _ => ⟨Eq.refl _, Eq.refl _⟩)
    intro _
  exact .pure

theorem settlePayout_writesOnly (o : SettlePayoutOperation) :
    WritesOnly [.sagas, .outbox] (settlePayout env config o) := by
  unfold settlePayout
  apply WritesOnly.step fun _ => ⟨Eq.refl _, Eq.refl _⟩
  intro saga
  split
  · exact .pure
  · iterate 2
      (first | apply WritesOnly.mint | apply WritesOnly.step fun _ => ⟨Eq.refl _, Eq.refl _⟩)
      intro _
    unfold settleSubmitted
    iterate 2
      (first | apply WritesOnly.mint | apply WritesOnly.step fun _ => ⟨Eq.refl _, Eq.refl _⟩)
      intro _
    apply (postSettlementEntries_writesOnly env config saga _ _ _).bind
    intro _
    apply WritesOnly.step fun _ => ⟨Eq.refl _, Eq.refl _⟩
    intro _
    apply WritesOnly.bind (.advanceSaga _ _ _ _ (by simp))
    intro _
    apply WritesOnly.step fun _ => ⟨Eq.refl _, Eq.refl _⟩
    intro _
    apply WritesOnly.bind (.emit _ _ (by simp))
    exact fun _ => .pure

end Handlers

def storesOf : Operation → List RowStore
  | .topUp _ => []
  | .spend _ => [.sales, .entitlements, .accruals]
  | .refund _ => [.entitlements, .accruals]
  | .clawback _ => []
  | .requestPayout _ => [.sagas]
  | .subscribe _ => [.subscriptions, .entitlements, .accruals]
  | .cancelSubscription _ => [.subscriptions]
  | .grantEntitlement _ => [.entitlements]
  | .revokeEntitlement _ => [.entitlements]
  | .grantPromo _ => [.promos]
  | .adjust _ => []
  | .reverse _ => []
  | .reversePayout _ => [.sagas]
  | .settlePayout _ => [.sagas, .outbox]

theorem handlerOf_writesOnly (ports : Ports) (env : Env) (config : Config) (operation : Operation) :
    WritesOnly (storesOf operation) (handlerOf ports env config operation) := by
  cases operation with
  | topUp o => exact topUp_writesOnly env config ports.rates o
  | spend o => exact spend_writesOnly env config o
  | refund o => exact refund_writesOnly env o
  | clawback o => exact clawback_writesOnly env o
  | requestPayout o => exact requestPayout_writesOnly env config ports.rates ports.payees o
  | subscribe o => exact subscribe_writesOnly env config o
  | cancelSubscription o => exact cancelSubscription_writesOnly env o
  | grantEntitlement o => exact grantEntitlement_writesOnly env o
  | revokeEntitlement o => exact revokeEntitlement_writesOnly env o
  | grantPromo o => exact grantPromo_writesOnly env o
  | adjust o => exact adjust_writesOnly env o
  | reverse o => exact reverse_writesOnly env o
  | reversePayout o => exact reversePayout_writesOnly env config o
  | settlePayout o => exact settlePayout_writesOnly env config o

theorem preClaimOf_writesOnly (operation : Operation) : Txn.WritesOnly stores (preClaimOf operation) := by
  apply Txn.WritesOnly.nothing
  cases operation with
  | _ => exact fun _ => ⟨Eq.refl _, Eq.refl _⟩

section Submit

variable (ports : Ports) (env : Env) (config : Config) (operation : Operation)

theorem screenRisk_writesOnly :
    Txn.WritesOnly stores (screenRisk (registry ports) env config operation) := by
  unfold screenRisk
  split
  · apply Txn.WritesOnly.step fun _ => ⟨Eq.refl _, Eq.refl _⟩
    intro now
    split
    · exact .pure _
    · iterate 2 (apply Txn.WritesOnly.step (fun _ => ⟨Eq.refl _, Eq.refl _⟩); intro _)
      exact .pure _
  · exact .pure _

theorem screenFunds_writesOnly : Txn.WritesOnly stores (screenFunds (registry ports) operation) := by
  apply Txn.WritesOnly.nothing
  intro w
  rw [screenFunds_reads operation (registry_orderly ports) w]
  exact ⟨Eq.refl _, Eq.refl _⟩

theorem emitEvents_writesOnly (transaction : Transaction) (h : .outbox ∈ stores) :
    Txn.WritesOnly stores (emitEvents (registry ports) env operation transaction) := by
  unfold emitEvents
  split
  · exact .pure _
  · iterate 2 (apply Txn.WritesOnly.mint; intro _)
    intro w
    refine ⟨?_, Nat.le_refl _⟩
    intro store hstore
    cases store with
    | outbox => exact absurd h hstore
    | _ => exact Eq.refl _

theorem runClaimed_writesOnly :
    Txn.WritesOnly (.outbox :: storesOf operation) (runClaimed (registry ports) env config operation) := by
  apply Txn.WritesOnly.claiming
  · exact fun transaction => .pure _
  · apply Txn.WritesOnly.bind (preClaimOf_writesOnly operation)
    intro duplicate
    cases duplicate with
    | some duplicate => exact .pure _
    | none =>
      apply Txn.WritesOnly.bind (screenRisk_writesOnly ports env config operation)
      intro denied
      cases denied with
      | some denied => exact .pure _
      | none =>
        apply Txn.WritesOnly.bind (screenFunds_writesOnly ports operation)
        intro refused
        cases refused with
        | some refused => exact .pure _
        | none =>
          have hhandler := handlerOf_writesOnly ports env config operation
          apply Txn.WritesOnly.bind (Txn.WritesOnly.mono hhandler (List.subset_cons_self _ _))
          intro outcome
          cases outcome with
          | committed transaction => exact .pure _
          | duplicate transaction => exact .pure _
          | rejected detail => exact .pure _
  · intro transaction _
    apply Txn.WritesOnly.bind (emitEvents_writesOnly ports env operation transaction List.mem_cons_self)
    exact fun _ => .pure _

end Submit

end EconomyLab
