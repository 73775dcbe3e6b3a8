import EconomyLab.Operations.Refund

/-!
# Subscriptions

The first period is charged like a purchase with one seller, and the row that later renewals
charge by is opened beside it. Canceling moves no money.
-/

namespace EconomyLab

open Foundation

/-- The longest accepted period: ten years of 365 days. -/
def MAX_PERIOD_MS : Int := 10 * 365 * 24 * 60 * 60000

def rejectSelfSubscription (operation : SubscribeOperation) : Except Fault Unit :=
  if operation.userId = operation.sellerId then
    .error (fault .malformedOperation
      "subscribe.userId and subscribe.sellerId must differ; a buyer cannot subscribe to themselves.")
  else .ok ()

def validateFields (operation : SubscribeOperation) : Except Fault Unit :=
  if operation.periodMs ≤ 0 ∨ MAX_PERIOD_MS < operation.periodMs then
    .error (fault .malformedOperation
      "subscribe.periodMs must be a finite positive integer no larger than the ten-year ceiling.")
  else if isBlank operation.sku then
    .error (fault .malformedOperation "subscribe.sku must be a non-empty string.")
  else .ok ()

def validatedPrice (price : Amount) (config : Config) : Except Fault Amount :=
  if price.currency ≠ .credit then .error (fault .malformedOperation "subscribe.price must be CREDIT.")
  else if price.minor < config.subscriptionPriceMinMinor ∨
    config.subscriptionPriceMaxMinor < price.minor then
    .error (fault .malformedOperation "subscribe.price is outside the configured price band.")
  else .ok price

/-- Revenue pays the seller the whole promo part; there is no fee on it. -/
def subscribePromoLegs (operation : SubscribeOperation) (promoPart : Amount) : Except Fault (List Leg) :=
  do
  if promoPart.minor = 0 then return []
  else
    let toFloat ← credit SYSTEM.PROMO_FLOAT promoPart
    let toSeller ← credit (earned operation.sellerId) promoPart
    return [debit (promo operation.userId) promoPart, toFloat, debit SYSTEM.REVENUE promoPart, toSeller]

def subscribeSpendableLegs (config : Config) (operation : SubscribeOperation) (spendablePart : Amount) :
    Except Fault (List Leg) := do
  if spendablePart.minor = 0 then return []
  else
    let feeMinor ← feeForPrice spendablePart.minor config.platformFeeBps
    let toSeller ← credit (earned operation.sellerId) (← toAmount .credit (spendablePart.minor - feeMinor))
    let toHouse ← credit SYSTEM.REVENUE (← toAmount .credit feeMinor)
    return [debit (spendable operation.userId) spendablePart, toSeller, toHouse]

def buildSubscribeLegs (config : Config) (operation : SubscribeOperation) (plan : SpendPlan) :
    Except Fault (List Leg) := do
  return (← subscribePromoLegs operation plan.promoPart) ++
    (← subscribeSpendableLegs config operation plan.spendablePart)

/-- Without the split the lines stay on the bare platform accounts. -/
def subscribeLegs (config : Config) (operation : SubscribeOperation) (charge : Charge) : List Leg :=
  if config.accrualDrain then
    routePlatformLegs charge.legs operation.idempotencyKey config.platformShards
  else charge.legs

def subscribeMeta (operation : SubscribeOperation) (subscriptionId : String) (charge : Charge) : Meta :=
  [("kind", .string "subscribe"), ("sku", .string operation.sku), ("sellerId", .string operation.sellerId),
    ("subscriptionId", .string subscriptionId), ("userId", .string operation.userId),
    ("price", .string (encodeAmount operation.price)), ("periodMs", .number operation.periodMs)] ++
    charge.sealed_

def activeFor (w : World) (userId sku sellerId : String) : Option Subscription :=
  w.subscriptions.rows.values.find? fun sub =>
    sub.userId = userId && sub.sku = sku && sub.sellerId = sellerId && sub.state = .active

/-- The refusal of a short balance, or of a draw on funds that still wait. -/
def screenSpendable (env : Env) (config : Config) (userId : String) (plan : SpendPlan) :
    Work (Option Outcome) := do
  let have_ ← Work.balance (spendable userId)
  Work.lift (assertSameCurrency have_ plan.spendablePart)
  if have_.minor < plan.spendablePart.minor then
    return some (.rejected (.insufficientFunds (spendable userId) plan.spendablePart have_))
  else screenMaturity env config (spendable userId) plan.spendablePart have_

/-- The rows are keyed by the posting, since a subscription has no order. -/
def postCharge (env : Env) (config : Config) (operation : SubscribeOperation) (plan : SpendPlan)
    (subscriptionId : String) : Work Transaction := do
  let built ← Work.lift (buildSubscribeLegs config operation plan)
  let charge := parkCharge config built
  let txnId ← Work.mint env "txn"
  let transaction ← Work.postEntry env
    ⟨txnId, subscribeLegs config operation charge, subscribeMeta operation subscriptionId charge⟩
  recordAccruals config transaction.id operation.idempotencyKey charge transaction
  return transaction

def subscriptionOf (operation : SubscribeOperation) (subscriptionId : String) (transaction : Transaction) :
    Subscription where
  id := subscriptionId
  userId := operation.userId
  sellerId := operation.sellerId
  sku := operation.sku
  price := operation.price
  txnId := transaction.id
  periodMs := operation.periodMs
  state := .active
  period := 1
  attempts := 0
  nextDueAt := transaction.postedAt + operation.periodMs
  updatedAt := transaction.postedAt

/-- The id is minted before the charge, so that the sealed metadata can name the row it opens. -/
def openSubscription (env : Env) (config : Config) (operation : SubscribeOperation) (plan : SpendPlan) :
    Work Outcome := do
  let subscriptionId ← Work.mint env "sub"
  let transaction ← postCharge env config operation plan subscriptionId
  Work.subscription (.start (subscriptionOf operation subscriptionId transaction))
  Work.entitlement (.grant operation.userId operation.sku
    ⟨none, none, some (transaction.postedAt + operation.periodMs),
      some ("subscription:" ++ subscriptionId)⟩)
  return .committed transaction

def subscribe (env : Env) (config : Config) (operation : SubscribeOperation) : Work Outcome := do
  Work.lift (rejectSelfSubscription operation)
  Work.lift (validateFields operation)
  let price ← Work.lift (validatedPrice operation.price config)
  let existing ← Work.read (fun w => .ok (activeFor w operation.userId operation.sku operation.sellerId))
    fun _ => rfl
  if existing.isSome then return .rejected (.alreadySubscribed operation.userId operation.sku)
  else do
    let promoBalance ← Work.balance (promo operation.userId)
    let plan ← Work.lift (planSpend price promoBalance)
    match ← screenSpendable env config operation.userId plan with
    | some refused => return refused
    | none => openSubscription env config operation plan

def assertSubscriptionId (subscriptionId : String) : Except Fault Unit :=
  if isBlank subscriptionId then
    .error (fault .malformedOperation "cancelSubscription requires a non-empty subscriptionId.")
  else .ok ()

def assertMayCancel (actor : Principal) (sub : Subscription) : Except Fault Unit :=
  match actor with
  | .user userId =>
    if userId = sub.userId then .ok ()
    else .error (fault .unauthorized "A user may cancel only their own subscription.")
  | _ => .ok ()

/-- The receipt of an operation that moves no money. -/
def lifecycleMarker (env : Env) : Work Transaction := do
  let txnId ← Work.mint env "txn"
  let postedAt ← Work.now env
  return ⟨txnId, postedAt, [], [], []⟩

def cancelSubscription (env : Env) (operation : CancelSubscriptionOperation) : Work Outcome := do
  Work.lift (assertSubscriptionId operation.subscriptionId)
  let found ← Work.read (fun w => .ok (w.subscriptions.rows.get operation.subscriptionId)) fun _ => rfl
  match found with
  | none => return .rejected (.unknownSubscription operation.subscriptionId)
  | some sub =>
    if sub.state = .canceled then return .rejected (.unknownSubscription operation.subscriptionId)
    else do
      Work.lift (assertMayCancel operation.actor sub)
      Work.subscription (.cancel operation.subscriptionId)
      let transaction ← lifecycleMarker env
      return .committed transaction

section Legs

variable {config : Config} {operation : SubscribeOperation} {plan : SpendPlan} {legs : List Leg}

theorem subscribePromoLegs_part {promoPart : Amount} (hpromo : 0 ≤ promoPart.minor)
    (h : subscribePromoLegs operation promoPart = .ok legs) :
    ChargePart (debit (promo operation.userId) promoPart) [operation.sellerId] legs := by
  unfold subscribePromoLegs at h
  split at h
  · rename_i hzero
    obtain rfl := except_pure_ok.mp h
    exact Or.inl ⟨hzero, rfl⟩
  · obtain ⟨toFloat, hfloat, h⟩ := except_bind_ok.mp h
    obtain ⟨toSeller, hseller, h⟩ := except_bind_ok.mp h
    obtain rfl := except_pure_ok.mp h
    right
    refine ⟨[toFloat, debit SYSTEM.REVENUE promoPart, toSeller], rfl, ?_⟩
    intro leg hleg
    simp only [List.mem_cons, List.not_mem_nil, or_false] at hleg
    rcases hleg with rfl | rfl | rfl
    · exact Or.inl (credit_ok hfloat).1
    · exact Or.inr (Or.inl rfl)
    · have hminor := (credit_ok hseller).2
      exact Or.inr (Or.inr ⟨operation.sellerId, List.mem_singleton_self _, (credit_ok hseller).1, by
        omega⟩)

theorem subscribeSpendableLegs_part {spendablePart : Amount}
    (h : subscribeSpendableLegs config operation spendablePart = .ok legs) :
    ChargePart (debit (spendable operation.userId) spendablePart) [operation.sellerId] legs := by
  unfold subscribeSpendableLegs at h
  split at h
  · rename_i hzero
    obtain rfl := except_pure_ok.mp h
    exact Or.inl ⟨hzero, rfl⟩
  · obtain ⟨fee, hfee, h⟩ := except_bind_ok.mp h
    obtain ⟨net, hnet, h⟩ := except_bind_ok.mp h
    obtain ⟨toSeller, hseller, h⟩ := except_bind_ok.mp h
    obtain ⟨kept, -, h⟩ := except_bind_ok.mp h
    obtain ⟨toHouse, hhouse, h⟩ := except_bind_ok.mp h
    obtain rfl := except_pure_ok.mp h
    right
    refine ⟨[toSeller, toHouse], rfl, ?_⟩
    intro leg hleg
    simp only [List.mem_cons, List.not_mem_nil, or_false] at hleg
    rcases hleg with rfl | rfl
    · have hminor := (credit_ok hseller).2
      have hkept := (toAmount_eq_ok.mp hnet).2
      have hle := feeForPrice_le hfee
      exact Or.inr (Or.inr ⟨operation.sellerId, List.mem_singleton_self _, (credit_ok hseller).1, by
        omega⟩)
    · exact Or.inr (Or.inl (credit_ok hhouse).1)

theorem buildSubscribeLegs_charge (hpromo : 0 ≤ plan.promoPart.minor)
    (h : buildSubscribeLegs config operation plan = .ok legs) :
    ChargeLegs operation.userId [operation.sellerId] plan legs := by
  obtain ⟨promoLegs, hpromoLegs, h⟩ := except_bind_ok.mp h
  obtain ⟨rest, hrest, h⟩ := except_bind_ok.mp h
  obtain rfl := except_pure_ok.mp h
  exact .of_parts (subscribePromoLegs_part hpromo hpromoLegs) (subscribeSpendableLegs_part hrest)

end Legs

def subscribeShards (config : Config) : Nat := if config.accrualDrain then config.platformShards else 1

theorem subscribeLegs_charged (config : Config) (operation : SubscribeOperation) (built : List Leg) :
    subscribeLegs config operation (parkCharge config built) =
      chargedLegs config.accrualDrain operation.idempotencyKey (subscribeShards config) built := by
  unfold subscribeLegs chargedLegs subscribeShards
  rw [parkCharge_legs]
  cases config.accrualDrain with
  | true => rfl
  | false => rfl

theorem subscribeLocks_covers (config : Config) (operation : SubscribeOperation) {account : AccountRef}
    (h : account ∈ chargeLocks operation.userId [operation.sellerId] operation.idempotencyKey
      (subscribeShards config) config.accrualDrain) :
    account ∈ LOCK_SETS.subscribe operation config.platformShards config.accrualDrain := by
  unfold subscribeShards at h
  unfold LOCK_SETS.subscribe
  cases hmode : config.accrualDrain with
  | true =>
    rw [hmode] at h
    exact h
  | false =>
    rw [hmode] at h
    exact h

section Watched

variable (env : Env) (config : Config)

theorem screenSpendable_guarded {β : Type} {s : Watch} {userId : String} {plan : SpendPlan}
    {f : Option Outcome → Work β} {Q : β → Watch → Prop}
    (hnone : Work.Guarded { s with reading := true } (f none) Q)
    (hsome : ∀ detail, Calm (.rejected detail) →
      Work.Guarded { s with reading := true } (f (some (.rejected detail))) Q) :
    Work.Guarded s (screenSpendable env config userId plan >>= f) Q := by
  have hscreen : Work.Guarded s (screenSpendable env config userId plan) fun out s' =>
      s' = { s with reading := true } ∧
        (out = none ∨ ∃ detail, Calm (.rejected detail) ∧ out = some (.rejected detail)) := by
    apply Work.Guarded.balance
    intro have_
    apply Work.Guarded.step fun _ => rfl
    intro _
    split
    · exact .pure ⟨rfl, Or.inr ⟨.insufficientFunds (spendable userId) plan.spendablePart have_, nofun,
        rfl⟩⟩
    · have hkept := @screenMaturity_guarded env config (Option Outcome) { s with reading := true }
        (spendable userId) plan.spendablePart have_ (fun out => Pure.pure out)
        (fun out s' => s' = { s with reading := true } ∧
          (out = none ∨ ∃ detail, Calm (.rejected detail) ∧ out = some (.rejected detail)))
        (.pure ⟨rfl, Or.inl rfl⟩)
        fun source availableAt => .pure ⟨rfl, Or.inr ⟨.fundsImmature source availableAt, nofun, rfl⟩⟩
      exact hkept.of_pure
  apply hscreen.bind
  rintro out s' ⟨rfl, rfl | ⟨detail, hcalm, rfl⟩⟩
  · exact hnone
  · exact hsome detail hcalm

theorem subscribe_calm (operation : SubscribeOperation) :
    Work.Yields (subscribe env config operation) Calm := by
  apply Work.Yields.bind
  intro _
  apply Work.Yields.bind
  intro _
  apply Work.Yields.bind
  intro price
  apply Work.Yields.bind
  intro existing
  split
  · exact Work.Yields.pure (by exact nofun)
  · apply Work.Yields.bind
    intro promoBalance
    apply Work.Yields.bind
    intro plan
    have hscreen : Work.Guarded (.start []) (screenSpendable env config operation.userId plan)
        fun out _ => ∀ refused, out = some refused → Calm refused := by
      apply Work.Guarded.of_pure
      apply screenSpendable_guarded
      · exact .pure fun refused h => absurd h (Option.some_ne_none refused).symm
      · rintro detail hcalm
        exact .pure fun refused h => Option.some.inj h ▸ hcalm
    refine Work.Yields.bind_of hscreen.yields ?_
    intro out hout
    split
    · rename_i refused
      exact Work.Yields.pure (hout refused rfl)
    · apply Work.Yields.bind
      intro subscriptionId
      apply Work.Yields.bind
      intro transaction
      apply Work.Yields.bind
      intro _
      apply Work.Yields.bind
      exact fun _ => Work.Yields.pure (calm_committed transaction)

/-- A subscription posts on accounts it has locked, and a committed one what its plan says. -/
theorem subscribe_guarded (operation : SubscribeOperation) (hprice : 0 < operation.price.minor)
    (w : World) :
    Work.GuardedAt w (.start (LOCK_SETS.subscribe operation config.platformShards config.accrualDrain))
      (subscribe env config operation) fun outcome s =>
        Calm outcome ∧ s.locked = LOCK_SETS.subscribe operation config.platformShards config.accrualDrain ∧
        ((∃ transaction, outcome = .committed transaction) → operation.userId ≠ operation.sellerId ∧
          ∃ promoBalance plan built, w.ledger.tables.balance (promo operation.userId) = .ok promoBalance ∧
            planSpend operation.price promoBalance = .ok plan ∧ buildSubscribeLegs config operation plan =
              .ok built ∧
            ChargeWatch operation.userId [operation.sellerId] operation.price.minor
              operation.idempotencyKey
              (subscribeShards config) config.accrualDrain plan built s) := by
  apply Work.GuardedAt.lift
  intro _ hself
  apply Work.GuardedAt.lift
  intro _ _
  apply Work.GuardedAt.lift
  intro price hvalidated
  have hsame : price = operation.price := by
    unfold validatedPrice at hvalidated
    split at hvalidated
    · cases hvalidated
    · split at hvalidated
      · cases hvalidated
      · exact (Except.ok.inj hvalidated).symm
  subst hsame
  have hdiffer : operation.userId ≠ operation.sellerId := by
    intro he
    unfold rejectSelfSubscription at hself
    rw [if_pos he] at hself
    cases hself
  apply Work.GuardedAt.read
  intro existing _
  split
  · refine .pure ⟨fun _ _ h => (by cases h), rfl, ?_⟩
    rintro ⟨transaction, h⟩
    cases h
  · apply Work.GuardedAt.balance
    intro promoBalance hpromo
    apply Work.GuardedAt.lift
    intro plan hplan
    have hsplits := planSpend_splits hprice hplan
    apply screenSpendable_guarded
    · apply Work.Guarded.step fun _ => rfl
      intro subscriptionId
      have hcharge : Work.Guarded
          ⟨LOCK_SETS.subscribe operation config.platformShards config.accrualDrain, true, []⟩
          (postCharge env config operation plan subscriptionId) fun _ s =>
            s.locked = LOCK_SETS.subscribe operation config.platformShards config.accrualDrain ∧
            ∃ built, buildSubscribeLegs config operation plan = .ok built ∧
              ChargeWatch operation.userId [operation.sellerId] operation.price.minor
                operation.idempotencyKey
                (subscribeShards config) config.accrualDrain plan built s := by
        apply Work.Guarded.lift
        intro built hbuilt
        have hlegs := buildSubscribeLegs_charge hsplits.promo hbuilt
        apply Work.Guarded.step fun _ => rfl
        intro txnId
        apply Work.Guarded.postEntry
        · intro leg hleg
          simp only [dropZeroLegs, subscribeLegs_charged, List.mem_filter, ne_eq,
            decide_eq_true_eq] at hleg
          exact subscribeLocks_covers config operation (hlegs.charged_covered _ _ _ hleg.1 hleg.2)
        · intro transaction
          apply recordAccruals_guarded
          refine .pure ⟨rfl, built, hbuilt, hsplits, hlegs, ?_⟩
          exact congrArg (List.filter _) (subscribeLegs_charged config operation built)
      apply hcharge.bind
      rintro transaction s ⟨hlocked, built, hbuilt, hwatch⟩
      apply Work.Guarded.step fun _ => rfl
      intro _
      apply Work.Guarded.step fun _ => rfl
      exact fun _ => .pure ⟨calm_committed transaction, hlocked,
        fun _ => ⟨hdiffer, promoBalance, plan, built, hpromo, hplan, hbuilt, hwatch⟩⟩
    · intro detail hcalm
      refine .pure ⟨hcalm, rfl, ?_⟩
      rintro ⟨transaction, h⟩
      cases h

theorem cancelSubscription_staysOn (operation : CancelSubscriptionOperation) :
    StaysOn [] (cancelSubscription env operation) := by
  apply Work.Guarded.step fun _ => rfl
  intro _
  apply Work.Guarded.step fun _ => rfl
  intro found
  cases found with
  | none => exact .pure ⟨nofun, rfl⟩
  | some sub =>
    simp only
    split
    · exact .pure ⟨nofun, rfl⟩
    · apply Work.Guarded.step fun _ => rfl
      intro _
      apply Work.Guarded.step fun _ => rfl
      intro _
      apply Work.Guarded.step fun _ => rfl
      exact fun transaction => .pure ⟨calm_committed transaction, rfl⟩

end Watched

end EconomyLab
