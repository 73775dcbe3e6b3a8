import EconomyLab.Operations.Spend

/-!
# What a charge posts

A purchase and a first period debit the payer's two balances and credit sellers and the house.
Parking and routing change where the credits go, and nothing about what the payer pays.
-/

namespace EconomyLab

open Foundation

/-! ## The lines of a charge -/

/-- A line of the house, or a credit to one of the sellers. -/
def SideLeg (sellers : List String) (leg : Leg) : Prop :=
  leg.account = SYSTEM.PROMO_FLOAT ∨ leg.account = SYSTEM.REVENUE ∨
    ∃ seller ∈ sellers, leg.account = earned seller ∧ leg.amount.minor ≤ 0

theorem system_ne_wallet {a : AccountRef} (ha : a ∈ SYSTEM.values) (owner : String) (kind : AccountKind) :
    a ≠ wallet owner kind := by
  rintro rfl
  have hkind := walletKindOf_system ha
  rw [walletKindOf_wallet] at hkind
  cases hkind

theorem promoFloat_system : SYSTEM.PROMO_FLOAT ∈ SYSTEM.values := by decide

theorem revenue_system : SYSTEM.REVENUE ∈ SYSTEM.values := by decide

theorem settlementAccrual_system : SYSTEM.SETTLEMENT_ACCRUAL ∈ SYSTEM.values := by decide

theorem wallet_ne_of_kind {owner owner' : String} {kind kind' : AccountKind} (h : kind ≠ kind') :
    wallet owner kind ≠ wallet owner' kind' := fun he => h (wallet_inj.mp he).2

variable {sellers : List String} {recipients : List Recipient} {leg : Leg} {owner : String}
  {kind : AccountKind}

theorem SideLeg.ne_wallet (h : SideLeg sellers leg) (hkind : kind ≠ .earned) :
    leg.account ≠ wallet owner kind := by
  rcases h with h | h | ⟨seller, -, h, -⟩
  · exact h ▸ system_ne_wallet promoFloat_system owner kind
  · exact h ▸ system_ne_wallet revenue_system owner kind
  · exact h ▸ wallet_ne_of_kind hkind.symm

/-- One of the payer's debits with its credits; a part of nothing has no lines. -/
def ChargePart (head : Leg) (sellers : List String) (legs : List Leg) : Prop :=
  head.amount.minor = 0 ∧ legs = [] ∨
    ∃ rest, legs = head :: rest ∧ ∀ leg ∈ rest, SideLeg sellers leg

theorem Leg.delta_of_zero (h : leg.amount.minor = 0) : leg.delta = 0 := by
  unfold Leg.delta
  split <;> omega

theorem ChargePart.wallets {head : Leg} {legs : List Leg}
    (h : ChargePart head sellers legs) (hkind : kind ≠ .earned) :
    total (deltas legs) (wallet owner kind) = if head.account = wallet owner kind then
      head.delta else 0 := by
  rcases h with ⟨hzero, rfl⟩ | ⟨rest, rfl, hrest⟩
  · simp only [deltas_nil, total_nil, Leg.delta_of_zero hzero, ite_self]
  · have hnone : total (deltas rest) (wallet owner kind) = 0 :=
      total_deltas_eq_zero fun leg hleg => (hrest leg hleg).ne_wallet hkind
    simp only [deltas_cons, total_cons, hnone, Int.add_zero]

/-- The lines of a charge of `plan` to `payer`, before any of them is parked or routed. -/
structure ChargeLegs (payer : String) (sellers : List String) (plan : SpendPlan) (legs : List Leg) :
    Prop where
  sides : ∀ leg ∈ legs, leg.account = promo payer ∨ leg.account = spendable payer ∨ SideLeg sellers leg
  wallets : ∀ owner kind, kind ≠ AccountKind.earned → total (deltas legs) (wallet owner kind) =
    (if promo payer = wallet owner kind then (debit (promo payer) plan.promoPart).delta else 0) +
      if spendable payer = wallet owner kind then (debit (spendable payer) plan.spendablePart).delta else 0

theorem ChargePart.sides {head : Leg} {legs : List Leg} (h : ChargePart head sellers legs) :
    ∀ leg ∈ legs, leg.account = head.account ∨ SideLeg sellers leg := by
  intro leg hleg
  rcases h with ⟨-, rfl⟩ | ⟨rest, rfl, hrest⟩
  · cases hleg
  · rcases List.mem_cons.mp hleg with rfl | hleg
    · exact Or.inl rfl
    · exact Or.inr (hrest leg hleg)

theorem ChargeLegs.of_parts {payer : String} {plan : SpendPlan} {promoLegs legs : List Leg}
    (hpromo : ChargePart (debit (promo payer) plan.promoPart) sellers promoLegs)
    (hlegs : ChargePart (debit (spendable payer) plan.spendablePart) sellers legs) :
    ChargeLegs payer sellers plan (promoLegs ++ legs) where
  sides := by
    intro leg hleg
    rcases List.mem_append.mp hleg with hleg | hleg
    · exact (hpromo.sides leg hleg).imp id Or.inr
    · exact Or.inr (hlegs.sides leg hleg)
  wallets := by
    intro owner kind hkind
    simp only [deltas_append, total_append, hpromo.wallets hkind, hlegs.wallets hkind]
    rfl

/-- What a charge hands to the ledger: parked under the split, then routed. -/
def chargedLegs (accrual : Bool) (key : String) (shards : Nat) (built : List Leg) : List Leg :=
  routePlatformLegs (if accrual then (parkEarnedLegs built).1 else built) key shards

section Charged

variable {payer : String} {sellers : List String} {plan : SpendPlan} {built : List Leg}
  (h : ChargeLegs payer sellers plan built) (accrual : Bool) (key : String) (shards : Nat)
include h

theorem ChargeLegs.charged_wallets (hkind : kind ≠ .earned) :
    total (deltas (chargedLegs accrual key shards built)) (wallet owner kind) =
      (if promo payer = wallet owner kind then (debit (promo payer) plan.promoPart).delta else 0) +
        if spendable payer = wallet owner kind then
          (debit (spendable payer) plan.spendablePart).delta else 0 := by
  rw [← h.wallets owner kind hkind, chargedLegs, total_routed]
  cases accrual with
  | true => exact total_parked hkind built owner
  | false => rfl

/-- Under the split no earned balance moves; without it the credits stay what they were. -/
theorem ChargeLegs.charged_earned (owner : String) :
    total (deltas (chargedLegs accrual key shards built)) (earned owner) =
      if accrual then 0 else total (deltas built) (earned owner) := by
  unfold earned
  rw [chargedLegs, total_routed]
  cases accrual with
  | false => rfl
  | true =>
    have hzero : ∀ leg ∈ (parkEarnedLegs built).1, leg.account = wallet owner .earned → leg.delta = 0 := by
      intro leg hleg ha
      obtain ⟨line, hline, rfl⟩ := List.mem_map.mp hleg
      split at ha
      · exact absurd ha (system_ne_wallet settlementAccrual_system owner .earned)
      · rename_i hcredit
        rw [if_neg hcredit]
        have hkind : walletKindOf line.account = some .earned := ha ▸ walletKindOf_wallet owner .earned
        have hnot : ¬ line.amount.minor < 0 := fun hneg => hcredit (isEarnedCredit_iff.mpr ⟨hkind, hneg⟩)
        have hminor : line.amount.minor ≤ 0 := by
          rcases h.sides line hline with hp | hs | hside | hside | ⟨seller, -, -, hminor⟩
          · exact absurd (hp.symm.trans ha) (wallet_ne_of_kind nofun)
          · exact absurd (hs.symm.trans ha) (wallet_ne_of_kind nofun)
          · exact absurd (hside.symm.trans ha) (system_ne_wallet promoFloat_system owner .earned)
          · exact absurd (hside.symm.trans ha) (system_ne_wallet revenue_system owner .earned)
          · exact hminor
        exact Leg.delta_of_zero (by omega)
    have hfilter := total_filter (p := fun _ => false) fun leg hleg ha _ => hzero leg hleg ha
    simp only [List.filter_false] at hfilter
    exact hfilter.symm

def chargeLocks (payer : String) (sellers : List String) (key : String) (shards : Nat) (accrual : Bool) :
    List AccountRef :=
  [promo payer, spendable payer, platformShard SYSTEM.PROMO_FLOAT key shards,
    platformShard SYSTEM.REVENUE key shards] ++
  if accrual then [platformShard SYSTEM.SETTLEMENT_ACCRUAL key shards] else sellers.map earned

omit h in
theorem routed_wallet {account : AccountRef}
    (ha : account = wallet owner kind) : platformShard account key shards = wallet owner kind :=
  platformShard_eq_wallet.mpr ha

/-- A line that is not empty is on an account of the lock set. -/
theorem ChargeLegs.charged_covered (hleg : leg ∈ chargedLegs accrual key shards built)
    (hminor : leg.amount.minor ≠ 0) : leg.account ∈ chargeLocks payer sellers key shards accrual := by
  rw [chargedLegs, routePlatformLegs_eq] at hleg
  obtain ⟨line, hline, rfl⟩ := List.mem_map.mp hleg
  have hlocked : line.account = promo payer ∨ line.account = spendable payer ∨
      line.account = SYSTEM.PROMO_FLOAT ∨ line.account = SYSTEM.REVENUE ∨
      line.account = (if accrual then SYSTEM.SETTLEMENT_ACCRUAL else line.account) ∧
        (accrual = false → ∃ seller ∈ sellers, line.account = earned seller) := by
    cases accrual with
    | false =>
      rcases h.sides line hline with hp | hs | hf | hr | ⟨seller, hseller, ha, -⟩
      · exact Or.inl hp
      · exact Or.inr (Or.inl hs)
      · exact Or.inr (Or.inr (Or.inl hf))
      · exact Or.inr (Or.inr (Or.inr (Or.inl hr)))
      · exact Or.inr (Or.inr (Or.inr (Or.inr ⟨rfl, fun _ => ⟨seller, hseller, ha⟩⟩)))
    | true =>
      obtain ⟨first, hfirst, hmoved⟩ := List.mem_map.mp hline
      split at hmoved
      · subst hmoved
        exact Or.inr (Or.inr (Or.inr (Or.inr ⟨rfl, nofun⟩)))
      · rename_i hcredit
        subst hmoved
        rcases h.sides first hfirst with hp | hs | hf | hr | ⟨seller, hseller, ha, hneg⟩
        · exact Or.inl hp
        · exact Or.inr (Or.inl hs)
        · exact Or.inr (Or.inr (Or.inl hf))
        · exact Or.inr (Or.inr (Or.inr (Or.inl hr)))
        · have hkind : walletKindOf first.account = some .earned := ha ▸ walletKindOf_wallet seller .earned
          have hnonzero : first.amount.minor ≠ 0 := hminor
          have hcredited : first.amount.minor < 0 := by omega
          exact absurd (isEarnedCredit_iff.mpr ⟨hkind, hcredited⟩) hcredit
  simp only [chargeLocks, List.mem_append, List.mem_cons, List.not_mem_nil, or_false]
  rcases hlocked with ha | ha | ha | ha | ⟨ha, hsellers⟩
  · exact Or.inl (Or.inl (routed_wallet key shards ha))
  · exact Or.inl (Or.inr (Or.inl (routed_wallet key shards ha)))
  · exact Or.inl (Or.inr (Or.inr (Or.inl (congrArg (platformShard · key shards) ha))))
  · exact Or.inl (Or.inr (Or.inr (Or.inr (congrArg (platformShard · key shards) ha))))
  · right
    cases accrual with
    | true => exact List.mem_singleton.mpr (congrArg (platformShard · key shards) ha)
    | false =>
      obtain ⟨seller, hseller, hearned⟩ := hsellers rfl
      exact List.mem_map.mpr ⟨seller, hseller, (routed_wallet key shards hearned).symm⟩

end Charged

/-! ## The lines of a purchase -/

theorem credit_ok {account : AccountRef} {amount : Amount} (h : credit account amount = .ok leg) :
    leg.account = account ∧ leg.amount.minor = -amount.minor := by
  obtain ⟨negated, hnegated, hleg⟩ := except_bind_ok.mp h
  cases hleg
  exact ⟨rfl, (toAmount_eq_ok.mp hnegated).2⟩

theorem mem_mapM_ok {α β : Type} {f : α → Except Fault β} {xs : List α} {ys : List β}
    (h : xs.mapM f = .ok ys) : ∀ y ∈ ys, ∃ x ∈ xs, f x = .ok y := by
  induction xs generalizing ys with
  | nil =>
    cases h
    exact nofun
  | cons x xs ih =>
    simp only [List.mapM_cons] at h
    obtain ⟨y, hy, hrest⟩ := except_bind_ok.mp h
    obtain ⟨rest, hxs, hys⟩ := except_bind_ok.mp hrest
    cases hys
    intro z hz
    rcases List.mem_cons.mp hz with rfl | hz
    · exact ⟨x, List.mem_cons_self, hy⟩
    · obtain ⟨x', hx', hf⟩ := ih hxs z hz
      exact ⟨x', List.mem_cons_of_mem _ hx', hf⟩

theorem mulDiv_floor {value num den result : Int} (hden : 0 < den)
    (h : mulDiv value num den .floor = .ok result) : result = value * num / den := by
  rw [mulDiv, divRound_floor _ hden] at h
  exact (checkI64_eq_ok.mp h).2

theorem applyBps_nonneg {minor bps share : Int} (hminor : 0 ≤ minor) (hbps : 0 ≤ bps)
    (h : applyBps minor bps = .ok share) : 0 ≤ share := by
  have hden : (0 : Int) < BPS_TOTAL := by decide
  rw [mulDiv_floor hden h]
  exact Int.ediv_nonneg (Int.mul_nonneg hminor hbps) hden.le

theorem feeForPrice_le {minor fee : Int} {bps : Nat} (h : feeForPrice minor bps = .ok fee) :
    fee ≤ minor := by
  obtain ⟨units, -, hfee⟩ := except_bind_ok.mp h
  simp only [except_pure_ok] at hfee
  split at hfee
  · exact hfee.ge
  · omega

def PositiveShares (recipients : List Recipient) : Prop := ∀ r ∈ recipients, 0 < r.shareBps

theorem checkRecipients_positive {buyerId what : String} {seen : List String} {sum : Int}
    (h : checkRecipients buyerId what seen sum recipients = .ok ()) :
    PositiveShares recipients := by
  induction recipients generalizing seen sum with
  | nil => exact nofun
  | cons recipient recipients ih =>
    unfold checkRecipients at h
    split at h
    · cases h
    · split at h
      · cases h
      · split at h
        · cases h
        · rename_i hshare
          intro r hr
          rcases List.mem_cons.mp hr with rfl | hr
          · omega
          · exact ih h r hr

theorem assertRecipientShares_positive {buyerId what : String}
    (h : assertRecipientShares recipients buyerId what = .ok ()) : PositiveShares recipients := by
  unfold assertRecipientShares at h
  split at h
  · cases h
  · exact checkRecipients_positive h

section Purchase

variable {operation : SpendOperation} {plan : SpendPlan} {legs : List Leg}

theorem promoShare_side {amount : Amount} {recipient : Recipient}
    (h : promoShare amount recipient = .ok legs) :
    ∀ leg ∈ legs, leg.account = earned recipient.sellerId ∧ leg.amount.minor ≤ 0 := by
  obtain ⟨share, -, hshare⟩ := except_bind_ok.mp h
  split at hshare
  · rename_i hpos
    obtain ⟨total, htotal, hrest⟩ := except_bind_ok.mp hshare
    obtain ⟨leg, hleg, hlegs⟩ := except_bind_ok.mp hrest
    cases hlegs
    intro other hother
    obtain rfl := List.mem_singleton.mp hother
    have hminor : other.amount.minor = -share :=
      (credit_ok hleg).2.trans (congrArg _ (toAmount_eq_ok.mp htotal).2)
    exact ⟨(credit_ok hleg).1, by omega⟩
  · cases hshare
    exact fun leg hleg => absurd hleg List.not_mem_nil

theorem promoLegs_part (h : promoLegs operation plan = .ok legs) :
    ChargePart (debit (promo operation.buyerId) plan.promoPart)
      (operation.recipients.map Recipient.sellerId)
      legs := by
  unfold promoLegs at h
  split at h
  · rename_i hzero
    cases h
    exact Or.inl ⟨hzero, rfl⟩
  · obtain ⟨toFloat, hfloat, h⟩ := except_bind_ok.mp h
    obtain ⟨shares, hshares, h⟩ := except_bind_ok.mp h
    obtain ⟨distributed, -, h⟩ := except_bind_ok.mp h
    obtain ⟨total, -, h⟩ := except_bind_ok.mp h
    cases h
    right
    refine ⟨toFloat :: shares.flatten ++ [debit SYSTEM.REVENUE total], rfl, ?_⟩
    intro leg hleg
    simp only [List.mem_append, List.mem_cons, List.not_mem_nil, or_false] at hleg
    rcases hleg with (rfl | hleg) | rfl
    · exact Or.inl (credit_ok hfloat).1
    · obtain ⟨lines, hlines, hmem⟩ := List.mem_flatten.mp hleg
      obtain ⟨recipient, hrecipient, hshare⟩ := mem_mapM_ok hshares lines hlines
      obtain ⟨haccount, hminor⟩ := promoShare_side hshare leg hmem
      exact Or.inr (Or.inr ⟨recipient.sellerId, List.mem_map_of_mem hrecipient, haccount, hminor⟩)
    · exact Or.inr (Or.inl rfl)

theorem splitLegs_side {price : Amount} {feeBps : Nat}
    (hshares : PositiveShares recipients) (h : splitLegs price recipients feeBps = .ok legs) :
    ∀ leg ∈ legs, SideLeg (recipients.map Recipient.sellerId) leg := by
  obtain ⟨_, -, h⟩ := except_bind_ok.mp h
  obtain ⟨fee, hfee, h⟩ := except_bind_ok.mp h
  obtain ⟨sellers, hsellers, h⟩ := except_bind_ok.mp h
  obtain ⟨_, -, h⟩ := except_bind_ok.mp h
  obtain ⟨kept, -, h⟩ := except_bind_ok.mp h
  obtain ⟨house, hhouse, h⟩ := except_bind_ok.mp h
  cases h
  have hnet : 0 ≤ price.minor - fee := by
    have hle := feeForPrice_le hfee
    omega
  intro leg hleg
  rcases List.mem_append.mp hleg with hleg | hleg
  · obtain ⟨recipient, hrecipient, hcredit⟩ := mem_mapM_ok hsellers leg hleg
    obtain ⟨share, hshare, hrest⟩ := except_bind_ok.mp hcredit
    obtain ⟨amount, hamount, hcredited⟩ := except_bind_ok.mp hrest
    have hpos := applyBps_nonneg hnet (hshares recipient hrecipient).le hshare
    have hminor : leg.amount.minor = -share :=
      (credit_ok hcredited).2.trans (congrArg _ (toAmount_eq_ok.mp hamount).2)
    exact Or.inr (Or.inr ⟨recipient.sellerId, List.mem_map_of_mem hrecipient, (credit_ok hcredited).1, by
      omega⟩)
  · obtain rfl := List.mem_singleton.mp hleg
    exact Or.inr (Or.inl (credit_ok hhouse).1)

theorem spendableLegs_part {config : Config} (hshares : PositiveShares operation.recipients)
    (h : spendableLegs config operation plan = .ok legs) :
    ChargePart (debit (spendable operation.buyerId) plan.spendablePart)
      (operation.recipients.map Recipient.sellerId) legs := by
  unfold spendableLegs at h
  split at h
  · rename_i hzero
    cases h
    exact Or.inl ⟨hzero, rfl⟩
  · obtain ⟨credits, hcredits, h⟩ := except_bind_ok.mp h
    obtain rfl := except_pure_ok.mp h
    exact Or.inr ⟨credits, rfl, splitLegs_side hshares hcredits⟩

theorem buildSpendLegs_charge {config : Config} (hshares : PositiveShares operation.recipients)
    (h : buildSpendLegs config operation plan = .ok legs) :
    ChargeLegs operation.buyerId (operation.recipients.map Recipient.sellerId) plan legs := by
  obtain ⟨promoPart, hpromo, h⟩ := except_bind_ok.mp h
  obtain ⟨rest, hrest, h⟩ := except_bind_ok.mp h
  obtain rfl := except_pure_ok.mp h
  exact .of_parts (promoLegs_part hpromo) (spendableLegs_part hshares hrest)

end Purchase

/-! ## What a purchase posts -/

structure SpendPlan.Splits (plan : SpendPlan) (price : Int) : Prop where
  promo : 0 ≤ plan.promoPart.minor
  spendable : 0 ≤ plan.spendablePart.minor
  sum : plan.promoPart.minor + plan.spendablePart.minor = price

theorem planSpend_splits {price promoBalance : Amount} {plan : SpendPlan} (hprice : 0 < price.minor)
    (h : planSpend price promoBalance = .ok plan) : plan.Splits price.minor := by
  obtain ⟨promoPart, hpromo, h⟩ := except_bind_ok.mp h
  obtain ⟨rest, hrest, h⟩ := except_bind_ok.mp h
  cases h
  have hpromoMinor := (toAmount_eq_ok.mp hpromo).2
  have hrestMinor := (toAmount_eq_ok.mp hrest).2
  have havailable : 0 ≤ if promoBalance.minor > 0 then promoBalance.minor else 0 := by
    split <;> omega
  revert hpromoMinor hrestMinor havailable
  generalize (if promoBalance.minor > 0 then promoBalance.minor else 0) = available
  intro hpromoMinor hrestMinor havailable
  constructor
  · show 0 ≤ promoPart.minor
    rw [hpromoMinor]
    split <;> omega
  · show 0 ≤ rest.minor
    rw [hrestMinor]
    split <;> omega
  · show promoPart.minor + rest.minor = price.minor
    omega

theorem requirePositiveCredit_ok {amount checked : Amount} {label : String}
    (h : requirePositiveCredit amount label = .ok checked) :
    checked = amount ∧ amount.currency = .credit ∧ 0 < amount.minor := by
  unfold requirePositiveCredit at h
  split at h
  · cases h
  · rename_i hcurrency
    split at h
    · cases h
    · rename_i hminor
      cases h
      exact ⟨rfl, not_not.mp hcurrency, by omega⟩

/-- The answers of a handler: the velocity screen belongs to the pipeline. -/
def Calm (outcome : Outcome) : Prop :=
  ∀ window limitMinor, outcome ≠ .rejected (.riskDenied window limitMinor)

theorem calm_committed (transaction : Transaction) : Calm (.committed transaction) := nofun

theorem calm_duplicate (transaction : Transaction) : Calm (.duplicate transaction) := nofun

structure ChargeWatch (payer : String) (sellers : List String) (price : Int) (key : String) (shards : Nat)
    (accrual : Bool) (plan : SpendPlan) (built : List Leg) (s : Watch) : Prop where
  splits : plan.Splits price
  charge : ChargeLegs payer sellers plan built
  posted : s.posted = (chargedLegs accrual key shards built).filter (·.amount.minor ≠ 0)

theorem ChargeWatch.total {payer : String} {price : Int} {key : String}
    {shards : Nat} {accrual : Bool} {plan : SpendPlan} {built : List Leg} {s : Watch}
    (h : ChargeWatch payer sellers price key shards accrual plan built s) (a : AccountRef) :
    total (deltas s.posted) a = total (deltas (chargedLegs accrual key shards built)) a := by
  rw [h.posted]
  apply total_filter
  intro leg _ _ hzero
  exact Leg.delta_of_zero (by simpa using hzero)

theorem checkSellers_wallets {seen : List String} (h : checkSellers seen recipients = .ok ()) :
    ∀ r ∈ recipients, isWalletAccount (earned r.sellerId) = true := by
  induction recipients generalizing seen with
  | nil => exact fun r hr => absurd hr List.not_mem_nil
  | cons recipient recipients ih =>
    unfold checkSellers at h
    split at h
    · cases h
    · split at h
      · cases h
      · rename_i hwallet
        simp only [Bool.or_eq_true, Bool.not_eq_true', not_or, Bool.not_eq_false] at hwallet
        intro r hr
        rcases List.mem_cons.mp hr with rfl | hr
        · exact hwallet.1
        · exact ih h r hr

theorem assertSpendShape_wallets {operation : SpendOperation} (h : assertSpendShape operation = .ok ()) :
    ∀ r ∈ operation.recipients, isWalletAccount (earned r.sellerId) = true := by
  unfold assertSpendShape at h
  split at h
  · cases h
  · split at h
    · cases h
    · exact checkSellers_wallets h

theorem spendLocks_eq (operation : SpendOperation) (shards : Nat) (accrual : Bool) :
    LOCK_SETS.spend operation shards accrual = chargeLocks operation.buyerId
      (operation.recipients.map Recipient.sellerId) operation.idempotencyKey shards accrual := by
  simp only [LOCK_SETS.spend, chargeLocks, List.map_map]
  rfl

theorem parkCharge_legs (config : Config) (built : List Leg) :
    (parkCharge config built).legs = if config.accrualDrain then (parkEarnedLegs built).1 else built := by
  unfold parkCharge
  split <;> rfl

section Watched

variable (env : Env) (config : Config)

theorem screenMaturity_guarded {β : Type} {s : Watch} {account : AccountRef} {amount live : Amount}
    {f : Option Outcome → Work β} {Q : β → Watch → Prop} (hnone : Work.Guarded s (f none) Q)
    (hsome : ∀ source availableAt,
      Work.Guarded s (f (some (.rejected (.fundsImmature source availableAt)))) Q) :
    Work.Guarded s (screenMaturity env config account amount live >>= f) Q := by
  have hscreen : Work.Guarded s (screenMaturity env config account amount live) fun out s' =>
      s' = s ∧ (out = none ∨ ∃ source availableAt, out =
        some (.rejected (.fundsImmature source availableAt))) := by
    apply Work.Guarded.step fun _ => rfl
    intro now
    apply Work.Guarded.step fun _ => rfl
    intro cleared
    split
    · exact .pure ⟨rfl, Or.inl rfl⟩
    · apply Work.Guarded.step fun _ => rfl
      intro now
      apply Work.Guarded.step fun _ => rfl
      exact fun blocker => .pure ⟨rfl, Or.inr ⟨blocker.1, blocker.2, rfl⟩⟩
  apply hscreen.bind
  rintro out s' ⟨rfl, rfl | ⟨source, availableAt, rfl⟩⟩
  · exact hnone
  · exact hsome source availableAt

theorem recordAccruals_guarded {β : Type} {s : Watch} {orderId routeKey : String} {charge : Charge}
    {transaction : Transaction} {f : Unit → Work β} {Q : β → Watch → Prop} (hf : Work.Guarded s (f ()) Q) :
    Work.Guarded s (recordAccruals config orderId routeKey charge transaction >>= f) Q := by
  have hrecord : Work.Guarded s (recordAccruals config orderId routeKey charge transaction) fun _ s' =>
      s' = s := by
    unfold recordAccruals
    split
    · exact .pure rfl
    · apply Work.Guarded.step fun _ => rfl
      exact fun rows w => ⟨trivial, fun _ => rfl⟩
  apply hrecord.bind
  rintro _ s' rfl
  exact hf

/-- A purchase posts on accounts it has locked, and a committed one what its plan says. -/
theorem spend_guarded (operation : SpendOperation) :
    Work.Guarded (.start (LOCK_SETS.spend operation config.platformShards config.accrualDrain))
      (spend env config operation) fun outcome s =>
        Calm outcome ∧ s.locked = LOCK_SETS.spend operation config.platformShards config.accrualDrain ∧
        ((∃ transaction, outcome = .committed transaction) →
          (∀ r ∈ operation.recipients, isWalletAccount (earned r.sellerId) = true) ∧
          ∃ plan built, ChargeWatch operation.buyerId (operation.recipients.map Recipient.sellerId)
            operation.price.minor operation.idempotencyKey config.platformShards config.accrualDrain plan
              built s) := by
  apply Work.Guarded.lift
  intro _ hshape
  apply Work.Guarded.lift
  intro price hprice
  obtain ⟨rfl, -, hpos⟩ := requirePositiveCredit_ok hprice
  apply Work.Guarded.lift
  intro _ hshares
  apply Work.Guarded.lift
  intro recipientId _
  apply Work.Guarded.step fun _ => rfl
  intro existing
  split
  · exact .pure ⟨nofun, rfl, nofun⟩
  · apply Work.Guarded.balance
    intro promoBalance
    apply Work.Guarded.lift
    intro plan hplan
    apply Work.Guarded.balance
    intro live
    apply screenMaturity_guarded
    · apply Work.Guarded.lift
      intro built hbuilt
      have hcharge := buildSpendLegs_charge (assertRecipientShares_positive hshares) hbuilt
      apply Work.Guarded.step fun _ => rfl
      intro txnId
      have hlegs : routePlatformLegs (parkCharge config built).legs operation.idempotencyKey
        config.platformShards =
          chargedLegs config.accrualDrain operation.idempotencyKey config.platformShards built := by
        rw [parkCharge_legs]
        rfl
      apply Work.Guarded.postEntry
      · intro leg hleg
        simp only [dropZeroLegs, hlegs, List.mem_filter, ne_eq, decide_eq_true_eq] at hleg
        have hcovered := hcharge.charged_covered _ _ _ hleg.1 hleg.2
        rw [← spendLocks_eq] at hcovered
        exact hcovered
      · intro transaction
        apply Work.Guarded.step fun _ => rfl
        intro sale
        apply Work.Guarded.step fun _ => rfl
        intro _
        apply recordAccruals_guarded
        apply Work.Guarded.step fun _ => rfl
        intro _
        refine .pure ⟨calm_committed transaction, rfl, fun _ =>
          ⟨assertSpendShape_wallets hshape, plan, built, ?_⟩⟩
        exact ⟨planSpend_splits hpos hplan, hcharge, congrArg (List.filter _) hlegs⟩
    · exact fun source availableAt => .pure ⟨nofun, rfl, nofun⟩

end Watched

end EconomyLab
