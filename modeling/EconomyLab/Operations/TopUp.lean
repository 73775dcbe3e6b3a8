import EconomyLab.Operations.Charges

/-!
# Credits bought and granted

A top-up posts twice, since one posting cannot mix currencies: the credits it issues, and the
cash that backs them. A promo grant is the house's own liability until it is spent or expires.
-/

namespace EconomyLab

open Foundation

/-- The rates port: what a buyer pays, what backs a credit, and what a payout converts at. -/
structure Rates where
  buy : Rate
  par : Rate
  payout : Int → Rate

def requireSource (source : String) : Except Fault Unit :=
  if isBlank source then
    .error (fault .malformedOperation "topUp.source must be a non-empty funding source.")
  else .ok ()

def requireBundleAmount (amount : Amount) (bundles : Option (List Int)) : Except Fault Unit :=
  match bundles with
  | none => .ok ()
  | some bundles =>
    if amount.minor ∈ bundles then .ok ()
    else .error (fault .malformedOperation "topUp.amount is not in the configured purchase catalog.")

def issuanceLegs (userId : String) (amount : Amount) : Except Fault (List Leg) := do
  return [debit SYSTEM.STORED_VALUE amount, ← credit (spendable userId) amount]

/-- The cash a top-up brings in: its backing, and the spread between the buy rate and par. -/
def cashLegs (backingUsd marginUsd grossUsd : Amount) : Except Fault (List Leg) := do
  let margin := if marginUsd.minor > 0 then [debit SYSTEM.REVENUE_USD marginUsd] else []
  return debit SYSTEM.TRUST_CASH backingUsd :: margin ++ [← credit SYSTEM.USD_CLEARING grossUsd]

def topUp (env : Env) (config : Config) (rates : Rates) (operation : TopUpOperation) : Work Outcome := do
  Work.lift (requireSource operation.source)
  let amount ← Work.lift (requirePositiveCredit operation.amount "topUp.amount")
  Work.lift (requireBundleAmount amount config.topUpBundlesMinor)
  let grossUsd ← Work.lift (convertCeil amount rates.buy .usd)
  let backingUsd ← Work.lift (convertCeil amount rates.par .usd)
  let marginUsd ← Work.lift (toAmount .usd (grossUsd.minor - backingUsd.minor))
  if marginUsd.minor < 0 then
    Work.lift (.error (fault .configInvalid "Rates are misordered: buy is below par."))
  else do
    let cash ← Work.lift (cashLegs backingUsd marginUsd grossUsd)
    let issuanceId ← Work.mint env "txn"
    let issued ← Work.lift (issuanceLegs operation.userId amount)
    let cashId ← Work.mint env "txn"
    let issuance ← Work.postEntry env ⟨issuanceId,
      routePlatformLegs issued operation.idempotencyKey config.platformShards,
      [("kind", .string "topUp"), ("source", .string operation.source)]⟩
    let _ ← Work.postEntry env ⟨cashId,
      routePlatformLegs cash operation.idempotencyKey config.platformShards,
      [("kind", .string "topUp.cash"), ("rateId", .string rates.buy.rateId),
        ("parRateId", .string rates.par.rateId)]⟩
    return .committed issuance

def MAX_EXPIRY_AHEAD_MS : Int := 5 * 365 * 24 * 60 * 60000

def futureExpiresAt (expiresAt now : Int) (label : String) : Except Fault Int :=
  if expiresAt ≤ now then
    .error (fault .malformedOperation (label ++ " must be a whole-millisecond timestamp in the future."))
  else if expiresAt > now + MAX_EXPIRY_AHEAD_MS then
    .error (fault .malformedOperation (label ++ " is too far in the future."))
  else .ok expiresAt

def promoGrantLegs (userId : String) (amount : Amount) : Except Fault (List Leg) := do
  return [debit SYSTEM.PROMO_FLOAT amount, ← credit (promo userId) amount]

def grantPromo (env : Env) (operation : GrantPromoOperation) : Work Outcome := do
  let amount ← Work.lift (requirePositiveCredit operation.amount "grantPromo.amount")
  let now ← Work.now env
  let expiresAt ← Work.lift (futureExpiresAt operation.expiresAt now "grantPromo.expiresAt")
  let txnId ← Work.mint env "txn"
  let legs ← Work.lift (promoGrantLegs operation.userId amount)
  let transaction ← Work.postEntry env ⟨txnId, legs,
    [("kind", .string "grantPromo"), ("expiresAt", .number expiresAt)]⟩
  Work.promo (.start ⟨transaction.id, operation.userId, amount, expiresAt, false⟩)
  return .committed transaction

/-- A handler that stays on what was locked for it, and leaves the velocity screen to the pipeline. -/
def StaysOn (locked : List AccountRef) (x : Work Outcome) : Prop :=
  Work.Guarded (.start locked) x fun outcome s => Calm outcome ∧ s.locked = locked

variable {legs : List Leg}

theorem mem_routed {key : String} {shards : Nat} {leg : Leg}
    (h : leg ∈ routePlatformLegs legs key shards) :
    ∃ line ∈ legs, leg.account = platformShard line.account key shards := by
  rw [routePlatformLegs_eq] at h
  obtain ⟨line, hline, rfl⟩ := List.mem_map.mp h
  exact ⟨line, hline, rfl⟩

theorem routed_covered {accounts locked : List AccountRef} {key : String} {shards : Nat}
    {txnId : String} {fields : Meta} (hlegs : ∀ leg ∈ legs, leg.account ∈ accounts)
    (hlocked : ∀ account ∈ accounts, platformShard account key shards ∈ locked) :
    ∀ leg ∈ (dropZeroLegs ⟨txnId, routePlatformLegs legs key shards, fields⟩).legs,
      leg.account ∈ locked := by
  intro leg hleg
  obtain ⟨line, hline, haccount⟩ := mem_routed (List.mem_filter.mp hleg).1
  exact haccount ▸ hlocked line.account (hlegs line hline)

theorem dropZero_covered {locked : List AccountRef} {txnId : String} {fields : Meta}
    (hlegs : ∀ leg ∈ legs, leg.account ∈ locked) :
    ∀ leg ∈ (dropZeroLegs ⟨txnId, legs, fields⟩).legs, leg.account ∈ locked :=
  fun leg hleg => hlegs leg (List.mem_filter.mp hleg).1

theorem issuanceLegs_accounts {userId : String} {amount : Amount}
    (h : issuanceLegs userId amount = .ok legs) :
    ∀ leg ∈ legs, leg.account ∈ [SYSTEM.STORED_VALUE, spendable userId] := by
  obtain ⟨line, hline, h⟩ := except_bind_ok.mp h
  obtain rfl := except_pure_ok.mp h
  intro leg hleg
  rcases List.mem_cons.mp hleg with rfl | hleg
  · exact List.mem_cons_self
  · obtain rfl := List.mem_singleton.mp hleg
    exact (credit_ok hline).1 ▸ List.mem_cons_of_mem _ List.mem_cons_self

theorem cashLegs_accounts {backingUsd marginUsd grossUsd : Amount}
    (h : cashLegs backingUsd marginUsd grossUsd = .ok legs) :
    ∀ leg ∈ legs, leg.account ∈ [SYSTEM.TRUST_CASH, SYSTEM.USD_CLEARING, SYSTEM.REVENUE_USD] := by
  obtain ⟨line, hline, h⟩ := except_bind_ok.mp h
  obtain rfl := except_pure_ok.mp h
  intro leg hleg
  simp only [List.cons_append, List.mem_cons, List.mem_append, List.not_mem_nil, or_false] at hleg ⊢
  rcases hleg with rfl | hleg | rfl
  · exact Or.inl rfl
  · split at hleg
    · obtain rfl := List.mem_singleton.mp hleg
      exact Or.inr (Or.inr rfl)
    · cases hleg
  · exact Or.inr (Or.inl (credit_ok hline).1)

theorem topUp_staysOn (env : Env) (config : Config) (rates : Rates) (operation : TopUpOperation) :
    StaysOn (LOCK_SETS.topUp operation config.platformShards) (topUp env config rates operation) := by
  apply Work.Guarded.step fun _ => rfl
  intro _
  apply Work.Guarded.step fun _ => rfl
  intro amount
  apply Work.Guarded.step fun _ => rfl
  intro _
  apply Work.Guarded.step fun _ => rfl
  intro grossUsd
  apply Work.Guarded.step fun _ => rfl
  intro backingUsd
  apply Work.Guarded.step fun _ => rfl
  intro marginUsd
  split
  · exact fun w => ⟨trivial, nofun⟩
  · apply Work.Guarded.lift
    intro cash hcash
    apply Work.Guarded.step fun _ => rfl
    intro issuanceId
    apply Work.Guarded.lift
    intro issued hissued
    apply Work.Guarded.step fun _ => rfl
    intro cashId
    apply Work.Guarded.postEntry
    · apply routed_covered (issuanceLegs_accounts hissued)
      intro account haccount
      simp only [Watch.start, LOCK_SETS.topUp, List.mem_cons, List.not_mem_nil, or_false] at haccount ⊢
      rcases haccount with rfl | rfl
      · exact Or.inr (Or.inl rfl)
      · exact Or.inl (platformShard_wallet _ _ _ _)
    · intro issuance
      apply Work.Guarded.postEntry
      · apply routed_covered (cashLegs_accounts hcash)
        intro account haccount
        simp only [Watch.start, LOCK_SETS.topUp, List.mem_cons, List.not_mem_nil, or_false] at haccount ⊢
        rcases haccount with rfl | rfl | rfl
        · exact Or.inr (Or.inr (Or.inl rfl))
        · exact Or.inr (Or.inr (Or.inr (Or.inl rfl)))
        · exact Or.inr (Or.inr (Or.inr (Or.inr rfl)))
      · exact fun _ => .pure ⟨calm_committed issuance, rfl⟩

theorem promoGrantLegs_accounts {userId : String} {amount : Amount}
    (h : promoGrantLegs userId amount = .ok legs) :
    ∀ leg ∈ legs, leg.account ∈ [promo userId, SYSTEM.PROMO_FLOAT] := by
  obtain ⟨line, hline, h⟩ := except_bind_ok.mp h
  obtain rfl := except_pure_ok.mp h
  intro leg hleg
  rcases List.mem_cons.mp hleg with rfl | hleg
  · exact List.mem_cons_of_mem _ List.mem_cons_self
  · obtain rfl := List.mem_singleton.mp hleg
    exact (credit_ok hline).1 ▸ List.mem_cons_self

theorem grantPromo_staysOn (env : Env) (operation : GrantPromoOperation) :
    StaysOn (LOCK_SETS.grantPromo operation) (grantPromo env operation) := by
  apply Work.Guarded.step fun _ => rfl
  intro amount
  apply Work.Guarded.step fun _ => rfl
  intro now
  apply Work.Guarded.step fun _ => rfl
  intro expiresAt
  apply Work.Guarded.step fun _ => rfl
  intro txnId
  apply Work.Guarded.lift
  intro legs hlegs
  apply Work.Guarded.postEntry (dropZero_covered (promoGrantLegs_accounts hlegs))
  intro transaction
  apply Work.Guarded.step fun _ => rfl
  exact fun _ => .pure ⟨calm_committed transaction, rfl⟩

end EconomyLab
