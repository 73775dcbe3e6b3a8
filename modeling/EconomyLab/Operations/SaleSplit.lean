import EconomyLab.Operations.Charges
import EconomyLab.Operations.Shards
import EconomyLab.Rounding

/-!
# How a sale is split

The legs of a purchase as lines of plain amounts. Shares are floors, so what they leave of a
part is never negative and goes to revenue, and the lines of each part sum to zero.
-/

namespace EconomyLab

open Foundation

/-! ## The shares -/

def shareOf (minor bps : Int) : Int := minor * bps / BPS_TOTAL

def distributed (minor : Int) (recipients : List Recipient) : Int :=
  (recipients.map fun r => shareOf minor r.shareBps).sum

def feeOf (minor : Int) (bps : Nat) : Int :=
  let fee := -(-(minor * bps) / (BPS_TOTAL * SCALE)) * SCALE
  if fee > minor then minor else fee

variable {minor part bps : Int} {plan : SpendPlan} (accrual : Bool) (key : String) (shards : Nat)
  (built : List Leg)

theorem shareOf_nonneg (hminor : 0 ≤ minor) (hbps : 0 ≤ bps) : 0 ≤ shareOf minor bps :=
  Int.ediv_nonneg (Int.mul_nonneg hminor hbps) (by decide)

theorem shareOf_mul_le (minor bps : Int) : shareOf minor bps * BPS_TOTAL ≤ minor * bps :=
  Int.ediv_mul_le _ (by decide)

theorem shareOf_le (hminor : 0 ≤ minor) (hbps : bps ≤ BPS_TOTAL) : shareOf minor bps ≤ minor := by
  have hmul := shareOf_mul_le minor bps
  have hle : minor * bps ≤ minor * BPS_TOTAL := Int.mul_le_mul_of_nonneg_left hbps hminor
  exact Int.le_of_mul_le_mul_right (hmul.trans hle) (by decide)

theorem shareOf_add_mul_le (minor minor' bps : Int) :
    (shareOf minor bps + shareOf minor' bps) * BPS_TOTAL ≤ (minor + minor') * bps := by
  have h := shareOf_mul_le minor bps
  have h' := shareOf_mul_le minor' bps
  calc (shareOf minor bps + shareOf minor' bps) * BPS_TOTAL
      = shareOf minor bps * BPS_TOTAL + shareOf minor' bps * BPS_TOTAL := Int.add_mul _ _ _
    _ ≤ minor * bps + minor' * bps := Int.add_le_add h h'
    _ = (minor + minor') * bps := (Int.add_mul _ _ _).symm

structure WholeShares (recipients : List Recipient) : Prop where
  positive : PositiveShares recipients
  bounded : ∀ r ∈ recipients, r.shareBps ≤ BPS_TOTAL
  sum : (recipients.map Recipient.shareBps).sum = BPS_TOTAL

variable {recipients : List Recipient} {config : Config} {operation : SpendOperation}

theorem checkRecipients_whole {buyerId what : String} {seen : List String} {sum : Int}
    (h : checkRecipients buyerId what seen sum recipients = .ok ()) :
    (∀ r ∈ recipients, r.shareBps ≤ BPS_TOTAL) ∧ sum + (recipients.map Recipient.shareBps).sum =
      BPS_TOTAL := by
  induction recipients generalizing seen sum with
  | nil =>
    unfold checkRecipients at h
    split at h
    · rename_i hsum
      exact ⟨fun _ hr => absurd hr List.not_mem_nil, (Int.add_zero sum).trans hsum⟩
    · cases h
  | cons recipient recipients ih =>
    unfold checkRecipients at h
    split at h
    · cases h
    · split at h
      · cases h
      · split at h
        · cases h
        · rename_i hshare
          obtain ⟨hbounded, hsum⟩ := ih h
          have hmax : BPS_TOTAL = 10000 := rfl
          constructor
          · intro r hr
            rcases List.mem_cons.mp hr with rfl | hr
            · omega
            · exact hbounded r hr
          · rw [List.map_cons, List.sum_cons, ← Int.add_assoc]
            exact hsum

theorem assertRecipientShares_whole {buyerId what : String}
    (h : assertRecipientShares recipients buyerId what = .ok ()) : WholeShares recipients := by
  have hpositive := assertRecipientShares_positive h
  unfold assertRecipientShares at h
  split at h
  · cases h
  · obtain ⟨hbounded, hsum⟩ := checkRecipients_whole h
    exact ⟨hpositive, hbounded, (Int.zero_add _).symm.trans hsum⟩

theorem distributed_nonneg (hminor : 0 ≤ minor)
    (hshares : PositiveShares recipients) : 0 ≤ distributed minor recipients := by
  induction recipients with
  | nil => exact le_refl 0
  | cons r recipients ih =>
    have hhead := shareOf_nonneg hminor (hshares r List.mem_cons_self).le
    have hrest := ih fun s hs => hshares s (List.mem_cons_of_mem _ hs)
    exact (Int.add_nonneg hhead hrest).trans List.sum_cons.ge

theorem distributed_mul_le (minor : Int) (recipients : List Recipient) :
    distributed minor recipients * BPS_TOTAL ≤ minor * (recipients.map Recipient.shareBps).sum := by
  induction recipients with
  | nil => simp [distributed]
  | cons r recipients ih =>
    have hhead := shareOf_mul_le minor r.shareBps
    have hcons : distributed minor (r :: recipients) = shareOf minor r.shareBps + distributed minor
      recipients :=
      List.sum_cons
    rw [hcons, List.map_cons, List.sum_cons, Int.add_mul, Int.mul_add]
    omega

theorem distributed_le {minor : Int} {recipients : List Recipient} (hshares : WholeShares recipients) :
    distributed minor recipients ≤ minor := by
  have hmul := distributed_mul_le minor recipients
  rw [hshares.sum] at hmul
  exact Int.le_of_mul_le_mul_right hmul (by decide)

theorem feeOf_bounds (hminor : 0 ≤ minor) (bps : Nat) :
    0 ≤ feeOf minor bps ∧ feeOf minor bps ≤ minor := by
  unfold feeOf
  have hprod : 0 ≤ minor * (bps : Int) := Int.mul_nonneg hminor (Int.natCast_nonneg bps)
  have hneg : -(minor * (bps : Int)) / (BPS_TOTAL * SCALE) ≤ 0 :=
    Int.ediv_le_of_le_mul (by decide) (by omega)
  have hfee : 0 ≤ -(-(minor * (bps : Int)) / (BPS_TOTAL * SCALE)) * SCALE := Int.mul_nonneg (by
    omega) (by decide)
  simp only
  split <;> omega

theorem applyBps_eq {minor : Amount} (hminor : 0 ≤ minor.minor) (hpositive : 0 < bps)
    (hbps : bps ≤ BPS_TOTAL) : applyBps minor.minor bps = .ok (shareOf minor.minor bps) := by
  have hnonneg := shareOf_nonneg hminor hpositive.le
  have hle := shareOf_le hminor hbps
  have hrange := minor.inRange.2
  have hfits : I64 (shareOf minor.minor bps) := ⟨by omega, by omega⟩
  rw [applyBps, mulDiv, divRound_floor _ (by decide)]
  exact checkI64_eq_ok.mpr ⟨hfits, rfl⟩

theorem distributedOf_eq {minor : Amount} (hminor : 0 ≤ minor.minor)
    (hpositive : PositiveShares recipients) (hbounded : ∀ r ∈ recipients, r.shareBps ≤ BPS_TOTAL) :
    distributedOf minor.minor recipients = .ok (distributed minor.minor recipients) := by
  induction recipients with
  | nil => rfl
  | cons r recipients ih =>
    have hrest := ih (fun s hs => hpositive s (List.mem_cons_of_mem _ hs))
      fun s hs => hbounded s (List.mem_cons_of_mem _ hs)
    rw [distributedOf, applyBps_eq hminor (hpositive r List.mem_cons_self) (hbounded r List.mem_cons_self),
      hrest]
    rfl

theorem feeForPrice_eq {minor : Amount} {bps : Nat} (hminor : 0 ≤ minor.minor) (hbps : bps ≤ 10000) :
    feeForPrice minor.minor bps = .ok (feeOf minor.minor bps) := by
  have hprod : 0 ≤ minor.minor * (bps : Int) := Int.mul_nonneg hminor (Int.natCast_nonneg bps)
  have hle : minor.minor * (bps : Int) ≤ minor.minor * 10000 :=
    Int.mul_le_mul_of_nonneg_left (by exact_mod_cast hbps) hminor
  have hden : BPS_TOTAL * SCALE = 1000000 := rfl
  have hrange := minor.inRange.2
  have hfits : I64 (-(-(minor.minor * (bps : Int)) / (BPS_TOTAL * SCALE))) := by
    rw [hden]
    constructor <;> omega
  have hunits : mulDiv minor.minor bps (BPS_TOTAL * SCALE) .ceil =
      .ok (-(-(minor.minor * (bps : Int)) / (BPS_TOTAL * SCALE))) := by
    rw [mulDiv, divRound_ceil _ (by decide)]
    exact checkI64_eq_ok.mpr ⟨hfits, rfl⟩
  rw [feeForPrice, hunits]
  rfl

/-- What the spendable part leaves the sellers. -/
def netOf (minor : Int) (bps : Nat) : Int := minor - feeOf minor bps

theorem netOf_bounds (hminor : 0 ≤ minor) (bps : Nat) :
    0 ≤ netOf minor bps ∧ netOf minor bps ≤ minor := by
  obtain ⟨hnonneg, hle⟩ := feeOf_bounds hminor bps
  unfold netOf
  omega

/-- What revenue keeps of the spendable part: the fee and what rounding left. -/
def keptOf (minor : Int) (bps : Nat) (recipients : List Recipient) : Int :=
  feeOf minor bps + (netOf minor bps - distributed (netOf minor bps) recipients)

theorem keptOf_bounds {minor : Int} {bps : Nat} {recipients : List Recipient} (hminor : 0 ≤ minor)
    (hshares : WholeShares recipients) :
    0 ≤ keptOf minor bps recipients ∧ keptOf minor bps recipients ≤ minor := by
  obtain ⟨hfee, -⟩ := feeOf_bounds hminor bps
  obtain ⟨hnet, -⟩ := netOf_bounds hminor bps
  have hle := @distributed_le (netOf minor bps) _ hshares
  have hnonneg := distributed_nonneg hnet hshares.positive
  have hsplit : netOf minor bps = minor - feeOf minor bps := rfl
  unfold keptOf
  omega

def netAmount (part : Amount) (hpart : 0 ≤ part.minor) (bps : Nat) : Amount :=
  ⟨part.currency, netOf part.minor bps, by
    obtain ⟨hnonneg, hle⟩ := netOf_bounds hpart bps
    have hrange := part.inRange.2
    exact ⟨by omega, by omega⟩⟩

theorem revenueForSplit_eq {part : Amount} {bps : Nat}
    (hpart : 0 ≤ part.minor) (hshares : WholeShares recipients) (hbps : bps ≤ 10000) :
    revenueForSplit part recipients bps = .ok (keptOf part.minor bps recipients) := by
  have hnet : 0 ≤ (netAmount part hpart bps).minor := (netOf_bounds hpart bps).1
  have hdistributed := distributedOf_eq hnet hshares.positive hshares.bounded
  have hsame : (netAmount part hpart bps).minor = part.minor - feeOf part.minor bps := rfl
  rw [hsame] at hdistributed
  rw [revenueForSplit, feeForPrice_eq hpart hbps]
  simp only [bind, Except.bind, hdistributed]
  rfl

/-! ## The legs as lines -/

def Leg.line (leg : Leg) : AccountRef × Int := (leg.account, leg.amount.minor)

/-- What the legs store under one account together; debits are positive. -/
def amountOn (legs : List Leg) (account : AccountRef) : Int := total (legs.map Leg.line) account

structure Lines (currency : Currency) (lines : List (AccountRef × Int)) (legs : List Leg) : Prop where
  lines : legs.map Leg.line = lines
  currency : ∀ leg ∈ legs, leg.amount.currency = currency

namespace Lines

variable {currency : Currency} {lines later : List (AccountRef × Int)} {legs legs' : List Leg}

theorem nil : Lines currency [] [] := ⟨rfl, fun _ hleg => absurd hleg List.not_mem_nil⟩

theorem append (h : Lines currency lines legs) (h' : Lines currency later legs') :
    Lines currency (lines ++ later) (legs ++ legs') := by
  refine ⟨?_, ?_⟩
  · rw [List.map_append, h.lines, h'.lines]
  · intro leg hleg
    rcases List.mem_append.mp hleg with hleg | hleg
    · exact h.currency leg hleg
    · exact h'.currency leg hleg

theorem cons {leg : Leg} {line : AccountRef × Int} (hline : leg.line = line)
    (hcurrency : leg.amount.currency = currency) (h : Lines currency lines legs) :
    Lines currency (line :: lines) (leg :: legs) := by
  refine ⟨?_, ?_⟩
  · rw [List.map_cons, hline, h.lines]
  · intro other hother
    rcases List.mem_cons.mp hother with rfl | hother
    · exact hcurrency
    · exact h.currency other hother

end Lines

theorem credit_eq (account : AccountRef) {amount : Amount} (hamount : 0 ≤ amount.minor) :
    ∃ leg, credit account amount = .ok leg ∧ leg.line = (account, -amount.minor) ∧
      leg.amount.currency = amount.currency := by
  have hrange := amount.inRange.2
  have hfits : I64 (-amount.minor) := ⟨by omega, by omega⟩
  refine ⟨⟨account, amount.currency, -amount.minor, hfits⟩, ?_, rfl, rfl⟩
  rw [credit, toAmount_ok hfits]
  rfl

theorem toAmount_part {part : Int} {whole : Amount} (currency : Currency) (hnonneg : 0 ≤ part)
    (hle : part ≤ whole.minor) : ∃ amount, toAmount currency part = .ok amount ∧ amount.minor = part ∧
      amount.currency = currency := by
  have hrange := whole.inRange.2
  have hfits : I64 part := ⟨by omega, by omega⟩
  exact ⟨_, toAmount_ok hfits, rfl, rfl⟩

def promoShares (part : Int) (recipients : List Recipient) : List (AccountRef × Int) :=
  (recipients.filter fun r => shareOf part r.shareBps > 0).map fun r =>
    (earned r.sellerId, -shareOf part r.shareBps)

theorem promoShares_eq {part : Amount} (hpart : 0 ≤ part.minor)
    (hpositive : PositiveShares recipients) (hbounded : ∀ r ∈ recipients, r.shareBps ≤ BPS_TOTAL) :
    ∃ shares, recipients.mapM (promoShare part) = .ok shares ∧
      Lines part.currency (promoShares part.minor recipients) shares.flatten := by
  induction recipients with
  | nil => exact ⟨[], rfl, .nil⟩
  | cons r recipients ih =>
    obtain ⟨shares, hshares, hlines⟩ := ih (fun s hs => hpositive s (List.mem_cons_of_mem _ hs))
      fun s hs => hbounded s (List.mem_cons_of_mem _ hs)
    have hbps := hbounded r List.mem_cons_self
    have hshare := applyBps_eq hpart (hpositive r List.mem_cons_self) hbps
    have hnonneg := shareOf_nonneg hpart (hpositive r List.mem_cons_self).le
    obtain ⟨amount, hamount, hminor, hcurrency⟩ := toAmount_part part.currency hnonneg
      (shareOf_le hpart hbps)
    obtain ⟨leg, hleg, hline, hlegCurrency⟩ := @credit_eq (earned r.sellerId) amount (hminor ▸ hnonneg)
    by_cases hsome : shareOf part.minor r.shareBps > 0
    · refine ⟨[leg] :: shares, ?_, ?_⟩
      · have hfirst : promoShare part r = .ok [leg] := by
          simp only [promoShare, hshare, bind, Except.bind, if_pos hsome, hamount, hleg]
          rfl
        rw [List.mapM_cons, hfirst, hshares]
        rfl
      · have hfilter : promoShares part.minor (r :: recipients) =
            (earned r.sellerId, -shareOf part.minor r.shareBps) :: promoShares part.minor recipients := by
          simp only [promoShares, List.filter_cons, decide_eq_true hsome, if_true, List.map_cons]
        rw [hfilter]
        exact .cons (hline.trans (congrArg _ (congrArg _ hminor))) (hlegCurrency.trans hcurrency) hlines
    · refine ⟨[] :: shares, ?_, ?_⟩
      · have hfirst : promoShare part r = .ok [] := by
          simp only [promoShare, hshare, bind, Except.bind, if_neg hsome]
          rfl
        rw [List.mapM_cons, hfirst, hshares]
        rfl
      · have hfilter : promoShares part.minor (r :: recipients) = promoShares part.minor recipients := by
          simp only [promoShares, List.filter_cons, decide_eq_false hsome, Bool.false_eq_true, if_false]
        rw [hfilter]
        exact hlines

def promoLines (buyerId : String) (part : Int) (recipients : List Recipient) : List (AccountRef × Int) :=
  if part = 0 then []
  else (promo buyerId, part) :: (SYSTEM.PROMO_FLOAT, -part) :: promoShares part recipients ++
    [(SYSTEM.REVENUE, distributed part recipients)]

theorem promoLegs_eq {operation : SpendOperation} {plan : SpendPlan} (hpart : 0 ≤ plan.promoPart.minor)
    (hshares : WholeShares operation.recipients) : ∃ legs, promoLegs operation plan = .ok legs ∧
      Lines plan.promoPart.currency (promoLines operation.buyerId plan.promoPart.minor
        operation.recipients) legs := by
  unfold promoLegs promoLines
  by_cases hzero : plan.promoPart.minor = 0
  · rw [if_pos hzero, if_pos hzero]
    exact ⟨[], rfl, .nil⟩
  · rw [if_neg hzero, if_neg hzero]
    obtain ⟨toFloat, hfloat, hfloatLine, hfloatCurrency⟩ := credit_eq SYSTEM.PROMO_FLOAT hpart
    obtain ⟨shares, hmap, hlines⟩ := promoShares_eq hpart hshares.positive hshares.bounded
    obtain ⟨sum, hsum, hsumMinor, hsumCurrency⟩ := toAmount_part plan.promoPart.currency
      (distributed_nonneg hpart hshares.positive) (distributed_le hshares)
    refine ⟨[debit (promo operation.buyerId) plan.promoPart, toFloat] ++ shares.flatten ++
      [debit SYSTEM.REVENUE sum],
      ?_, ?_⟩
    · simp only [hfloat, hmap, distributedOf_eq hpart hshares.positive hshares.bounded, hsum,
        bind, Except.bind]
      rfl
    · have hlast : Lines plan.promoPart.currency
        [(SYSTEM.REVENUE, distributed plan.promoPart.minor operation.recipients)]
          [debit SYSTEM.REVENUE sum] := .cons (congrArg _ hsumMinor) hsumCurrency .nil
      exact .cons rfl rfl (.cons hfloatLine hfloatCurrency (hlines.append hlast))

def netShares (net : Int) (recipients : List Recipient) : List (AccountRef × Int) :=
  recipients.map fun r => (earned r.sellerId, -shareOf net r.shareBps)

theorem netShares_eq {price net : Amount} {recipients : List Recipient} (hnet : 0 ≤ net.minor)
    (hpositive : PositiveShares recipients) (hbounded : ∀ r ∈ recipients, r.shareBps ≤ BPS_TOTAL) :
    ∃ legs, recipients.mapM (sellerCredit price net.minor) = .ok legs ∧
      Lines price.currency (netShares net.minor recipients) legs := by
  induction recipients with
  | nil => exact ⟨[], rfl, .nil⟩
  | cons r recipients ih =>
    obtain ⟨legs, hlegs, hlines⟩ := ih (fun s hs => hpositive s (List.mem_cons_of_mem _ hs))
      fun s hs => hbounded s (List.mem_cons_of_mem _ hs)
    have hbps := hbounded r List.mem_cons_self
    have hshare := applyBps_eq hnet (hpositive r List.mem_cons_self) hbps
    have hnonneg := shareOf_nonneg hnet (hpositive r List.mem_cons_self).le
    obtain ⟨amount, hamount, hminor, hcurrency⟩ := toAmount_part price.currency hnonneg
      (shareOf_le hnet hbps)
    obtain ⟨leg, hleg, hline, hlegCurrency⟩ := @credit_eq (earned r.sellerId) amount (hminor ▸ hnonneg)
    have hfirst : sellerCredit price net.minor r = .ok leg := by
      simp only [sellerCredit, hshare, bind, Except.bind, hamount, hleg]
    refine ⟨leg :: legs, ?_, ?_⟩
    · rw [List.mapM_cons, hfirst, hlegs]
      rfl
    · exact .cons (hline.trans (congrArg _ (congrArg _ hminor))) (hlegCurrency.trans hcurrency) hlines

def spendableLines (buyerId : String) (part : Int) (bps : Nat) (recipients : List Recipient) :
    List (AccountRef × Int) :=
  if part = 0 then []
  else (spendable buyerId, part) :: netShares (netOf part bps) recipients ++
    [(SYSTEM.REVENUE, -keptOf part bps recipients)]

theorem spendableLegs_eq
    (hpart : 0 ≤ plan.spendablePart.minor) (hshares : WholeShares operation.recipients)
    (hbps : config.platformFeeBps ≤ 10000) : ∃ legs, spendableLegs config operation plan = .ok legs ∧
      Lines plan.spendablePart.currency (spendableLines operation.buyerId plan.spendablePart.minor
        config.platformFeeBps operation.recipients) legs := by
  unfold spendableLegs spendableLines
  by_cases hzero : plan.spendablePart.minor = 0
  · rw [if_pos hzero, if_pos hzero]
    exact ⟨[], rfl, .nil⟩
  · rw [if_neg hzero, if_neg hzero]
    have hnet : 0 ≤ (netAmount plan.spendablePart hpart config.platformFeeBps).minor :=
      (netOf_bounds hpart _).1
    obtain ⟨legs, hlegs, hlines⟩ := @netShares_eq plan.spendablePart _ _ hnet hshares.positive
      hshares.bounded
    obtain ⟨hkeptNonneg, hkeptLe⟩ := @keptOf_bounds _ config.platformFeeBps _ hpart hshares
    obtain ⟨kept, hkept, hkeptMinor, hkeptCurrency⟩ :=
      toAmount_part plan.spendablePart.currency hkeptNonneg hkeptLe
    obtain ⟨house, hhouse, hhouseLine, hhouseCurrency⟩ :=
      @credit_eq SYSTEM.REVENUE kept (hkeptMinor ▸ hkeptNonneg)
    have hsum : assertShareSum operation.recipients = .ok () := by
      unfold assertShareSum
      rw [hshares.sum]
      simp
    have hsame : (netAmount plan.spendablePart hpart config.platformFeeBps).minor =
        plan.spendablePart.minor - feeOf plan.spendablePart.minor config.platformFeeBps := rfl
    have hsplit : splitLegs plan.spendablePart operation.recipients config.platformFeeBps =
        .ok (legs ++ [house]) := by
      rw [hsame] at hlegs
      simp only [splitLegs, hsum, feeForPrice_eq hpart hbps, hlegs, revenueForSplit_eq hpart hshares hbps,
        hkept, hhouse, bind, Except.bind]
      rfl
    refine ⟨debit (spendable operation.buyerId) plan.spendablePart :: (legs ++ [house]), ?_, ?_⟩
    · simp only [hsplit, bind, Except.bind]
      rfl
    · have hlast : Lines plan.spendablePart.currency
          [(SYSTEM.REVENUE, -keptOf plan.spendablePart.minor config.platformFeeBps operation.recipients)]
          [house] :=
        .cons (hhouseLine.trans (congrArg _ (congrArg _ hkeptMinor)))
          (hhouseCurrency.trans hkeptCurrency) .nil
      exact .cons rfl rfl (hlines.append hlast)

theorem planSpend_eq {price : Amount} (promoBalance : Amount) (hprice : 0 ≤ price.minor) :
    ∃ plan, planSpend price promoBalance = .ok plan ∧
      plan.promoPart.minor = min (max promoBalance.minor 0) price.minor ∧
      plan.promoPart.minor + plan.spendablePart.minor = price.minor ∧
      plan.promoPart.currency = price.currency ∧ plan.spendablePart.currency = price.currency := by
  have hpart : (if (if promoBalance.minor > 0 then promoBalance.minor else 0) < price.minor then
      (if promoBalance.minor > 0 then promoBalance.minor else 0) else price.minor) =
      min (max promoBalance.minor 0) price.minor := by
    split <;> split <;> omega
  have hnonneg : 0 ≤ min (max promoBalance.minor 0) price.minor := by omega
  have hle : min (max promoBalance.minor 0) price.minor ≤ price.minor := by omega
  obtain ⟨promoPart, hpromo, hpromoMinor, hpromoCurrency⟩ := toAmount_part price.currency hnonneg hle
  obtain ⟨rest, hrest, hrestMinor, hrestCurrency⟩ := @toAmount_part
    (price.minor - min (max promoBalance.minor 0) price.minor) price price.currency (by omega) (by omega)
  refine ⟨⟨promoPart, rest⟩, ?_, hpromoMinor, by
    simp only [hpromoMinor, hrestMinor]; omega, hpromoCurrency, hrestCurrency⟩
  simp only [planSpend, hpart, hpromo, hrest, bind, Except.bind]
  rfl

/-! ## The lines after parking and routing -/

def isParked (accrual : Bool) (line : AccountRef × Int) : Bool :=
  accrual && (walletKindOf line.1 = some .earned && decide (line.2 < 0))

def chargedLine (accrual : Bool) (key : String) (shards : Nat) (line : AccountRef × Int) :
    AccountRef × Int :=
  (platformShard (if isParked accrual line then SYSTEM.SETTLEMENT_ACCRUAL else line.1) key shards, line.2)

theorem chargedLegs_eq : chargedLegs accrual key shards built = built.map fun leg =>
      { leg with account := (chargedLine accrual key shards leg.line).1 } := by
  rw [chargedLegs, routePlatformLegs_eq]
  cases accrual with
  | false => rfl
  | true =>
    simp only [if_true, parkEarnedLegs, List.map_map]
    apply List.map_congr_left
    intro leg _
    have hsame : isParked true leg.line = isEarnedCredit leg := rfl
    simp only [Function.comp_apply, chargedLine, hsame]
    split <;> rfl

theorem chargedLegs_lines : (chargedLegs accrual key shards built).map Leg.line =
      (built.map Leg.line).map (chargedLine accrual key shards) := by
  rw [chargedLegs_eq, List.map_map, List.map_map]
  rfl

theorem chargedLegs_amounts :
    (chargedLegs accrual key shards built).map Leg.amount = built.map Leg.amount := by
  rw [chargedLegs_eq, List.map_map]
  rfl

theorem total_map_eq {lines : List (AccountRef × Int)} {f : AccountRef × Int → AccountRef × Int}
    {a b : AccountRef} (haccount : ∀ line ∈ lines, (f line).1 = b ↔ line.1 = a)
    (hsame : ∀ line ∈ lines, (f line).2 = line.2) :
    total (lines.map f) b = total lines a := by
  induction lines with
  | nil => rfl
  | cons line lines ih =>
    have hrest := ih (fun l hl => haccount l (List.mem_cons_of_mem _ hl)) fun l hl =>
      hsame l (List.mem_cons_of_mem _ hl)
    rw [List.map_cons, total_cons, total_cons, hrest, hsame line List.mem_cons_self]
    simp only [haccount line List.mem_cons_self]

/-- Two accounts of the platform, or one and a wallet, never share a shard. -/
theorem platformShard_inj {a b : AccountRef} (ha : Named a) (hb : Named b) (key : String) (shards : Nat) :
    platformShard a key shards = platformShard b key shards ↔ a = b := by
  constructor
  · intro h
    cases hb with
    | system hb =>
      have hmem := @platformShard_mem b key shards
      rw [← h] at hmem
      exact (mem_shardsOf_iff hb ha key shards).mp hmem
    | wallet owner kind =>
      rw [platformShard_wallet] at h
      exact platformShard_eq_wallet.mp h
  · rintro rfl
    rfl

theorem accrual_named : Named SYSTEM.SETTLEMENT_ACCRUAL := .system settlementAccrual_system

/-- Lines of a charge: on named accounts, and on earned balances only credits. -/
def ChargeLines (lines : List (AccountRef × Int)) : Prop :=
  ∀ line ∈ lines, Named line.1 ∧ line.1 ≠ SYSTEM.SETTLEMENT_ACCRUAL ∧
    (walletKindOf line.1 = some .earned → (∃ seller, line.1 = earned seller) ∧ line.2 ≤ 0)

section ChargedLines

variable {lines : List (AccountRef × Int)} (h : ChargeLines lines) (accrual : Bool) (key : String)
  (shards : Nat)
include h

theorem charged_total {a : AccountRef} (ha : Named a) (haccrual : a ≠ SYSTEM.SETTLEMENT_ACCRUAL)
    (hkind : accrual = true → walletKindOf a ≠ some .earned) :
    total (lines.map (chargedLine accrual key shards)) (platformShard a key shards) = total lines a := by
  apply total_map_eq
  · intro line hline
    have hnamed := (h line hline).1
    unfold chargedLine
    by_cases hparked : isParked accrual line = true
    · simp only [hparked, if_true, platformShard_inj accrual_named ha]
      constructor
      · intro heq
        exact absurd heq.symm haccrual
      · rintro rfl
        simp only [isParked, Bool.and_eq_true, decide_eq_true_eq] at hparked
        exact absurd hparked.2.1 (hkind hparked.1)
    · simp only [hparked, Bool.false_eq_true, if_false, platformShard_inj hnamed ha]
  · exact fun _ _ => rfl

theorem parked_total : total (lines.map (chargedLine true key shards))
      (platformShard SYSTEM.SETTLEMENT_ACCRUAL key shards) =
      ((lines.filter (isParked true)).map Prod.snd).sum := by
  induction lines with
  | nil => rfl
  | cons line lines ih =>
    have hrest := ih fun l hl => h l (List.mem_cons_of_mem _ hl)
    obtain ⟨hnamed, hother, -⟩ := h line List.mem_cons_self
    have haccount : (chargedLine true key shards line).1 =
      platformShard SYSTEM.SETTLEMENT_ACCRUAL key shards ↔
        isParked true line = true := by
      unfold chargedLine
      by_cases hparked : isParked true line = true
      · simp only [hparked, if_true]
      · simp only [hparked, Bool.false_eq_true, if_false, platformShard_inj hnamed accrual_named,
          iff_false]
        exact hother
    rw [List.map_cons, total_cons, hrest, List.filter_cons]
    by_cases hparked : isParked true line = true
    · rw [if_pos (haccount.mpr hparked), if_pos hparked, List.map_cons, List.sum_cons]
      rfl
    · rw [if_neg (mt haccount.mp hparked), if_neg hparked, Int.zero_add]

/-- The parked shares of a seller are what the charge credits to it. -/
theorem parked_shares (seller : String) :
    total ((lines.filter (isParked true)).map fun line => (ownerOf line.1, -line.2)) seller =
      -total lines (earned seller) := by
  induction lines with
  | nil => rfl
  | cons line lines ih =>
    have hrest := ih fun l hl => h l (List.mem_cons_of_mem _ hl)
    obtain ⟨-, -, hearned⟩ := h line List.mem_cons_self
    rw [List.filter_cons, total_cons]
    by_cases hparked : isParked true line = true
    · have hkind : walletKindOf line.1 = some .earned := by
        simp only [isParked, Bool.true_and, Bool.and_eq_true, decide_eq_true_eq] at hparked
        exact hparked.1
      obtain ⟨⟨owner, howner⟩, -⟩ := hearned hkind
      have hsame : ownerOf line.1 = seller ↔ line.1 = earned seller := by
        rw [howner, earned, ownerOf_wallet, earned, wallet_inj]
        simp only [and_true]
      rw [if_pos hparked, List.map_cons, total_cons, hrest]
      simp only [hsame]
      split <;> omega
    · have hzero : line.1 = earned seller → line.2 = 0 := by
        intro haccount
        have hkind : walletKindOf line.1 = some .earned := haccount ▸ walletKindOf_wallet seller .earned
        have hle := (hearned hkind).2
        simp only [isParked, Bool.true_and, hkind, decide_true, decide_eq_true_eq] at hparked
        omega
      rw [if_neg hparked, hrest]
      split
      · rename_i haccount
        rw [hzero haccount, Int.zero_add]
      · rw [Int.zero_add]

theorem unparked_earned (seller : String) :
    total (lines.map (chargedLine true key shards)) (earned seller) = 0 := by
  have hnone : ∀ line ∈ lines, (chargedLine true key shards line).1 = earned seller → line.2 = 0 := by
    intro line hline haccount
    obtain ⟨-, -, hearned⟩ := h line hline
    unfold chargedLine at haccount
    by_cases hparked : isParked true line = true
    · simp only [hparked, if_true] at haccount
      exact absurd (platformShard_eq_wallet.mp haccount)
        (system_ne_wallet settlementAccrual_system seller .earned)
    · simp only [hparked, Bool.false_eq_true, if_false] at haccount
      have hself := platformShard_eq_wallet.mp haccount
      have hkind : walletKindOf line.1 = some .earned := hself ▸ walletKindOf_wallet seller .earned
      have hle := (hearned hkind).2
      simp only [isParked, Bool.true_and, hkind, decide_true, decide_eq_true_eq] at hparked
      omega
  clear h
  induction lines with
  | nil => rfl
  | cons line lines ih =>
    rw [List.map_cons, total_cons, ih fun l hl => hnone l (List.mem_cons_of_mem _ hl)]
    split
    · rename_i haccount
      exact (Int.add_zero _).trans (hnone line List.mem_cons_self haccount)
    · rfl

end ChargedLines

/-! ## The lines of a purchase -/

theorem checkSellers_nodup {seen : List String}
    (h : checkSellers seen recipients = .ok ()) : (recipients.map Recipient.sellerId).Nodup ∧
      ∀ r ∈ recipients, r.sellerId ∉ seen := by
  induction recipients generalizing seen with
  | nil => exact ⟨List.nodup_nil, fun _ hr => absurd hr List.not_mem_nil⟩
  | cons recipient recipients ih =>
    unfold checkSellers at h
    split at h
    · cases h
    · rename_i hseen
      split at h
      · cases h
      · obtain ⟨hnodup, hother⟩ := ih h
        constructor
        · rw [List.map_cons, List.nodup_cons]
          refine ⟨?_, hnodup⟩
          intro hmem
          obtain ⟨r, hr, hsame⟩ := List.mem_map.mp hmem
          exact hother r hr (hsame ▸ List.mem_cons_self)
        · intro r hr
          rcases List.mem_cons.mp hr with rfl | hr
          · exact hseen
          · exact fun hmem => hother r hr (List.mem_cons_of_mem _ hmem)

theorem assertSpendShape_nodup (h : assertSpendShape operation = .ok ()) :
    (operation.recipients.map Recipient.sellerId).Nodup := by
  unfold assertSpendShape at h
  split at h
  · cases h
  · split at h
    · cases h
    · exact (checkSellers_nodup h).1

theorem earned_inj {seller seller' : String} : earned seller = earned seller' ↔ seller = seller' := by
  rw [earned, earned, wallet_inj]
  simp only [and_true]

theorem total_netShares {net : Int}
    (hnodup : (recipients.map Recipient.sellerId).Nodup) {r : Recipient} (hr : r ∈ recipients) :
    total (netShares net recipients) (earned r.sellerId) = -shareOf net r.shareBps := by
  apply total_of_mem
  · have hkeys : (netShares net recipients).map Prod.fst =
        (recipients.map Recipient.sellerId).map earned := by
      simp only [netShares, List.map_map]
      rfl
    rw [hkeys]
    exact hnodup.map fun _ _ heq => earned_inj.mp heq
  · exact List.mem_map.mpr ⟨r, hr, rfl⟩

theorem total_promoShares (hpart : 0 ≤ part) (hshares : PositiveShares recipients) (a : AccountRef) :
    total (promoShares part recipients) a = total (netShares part recipients) a := by
  induction recipients with
  | nil => rfl
  | cons r recipients ih =>
    have hrest := ih fun s hs => hshares s (List.mem_cons_of_mem _ hs)
    have hnonneg := shareOf_nonneg hpart (hshares r List.mem_cons_self).le
    have hcons : netShares part (r :: recipients) =
        (earned r.sellerId, -shareOf part r.shareBps) :: netShares part recipients := rfl
    rw [hcons, total_cons, ← hrest]
    by_cases hsome : shareOf part r.shareBps > 0
    · have hfilter : promoShares part (r :: recipients) =
          (earned r.sellerId, -shareOf part r.shareBps) :: promoShares part recipients := by
        simp only [promoShares, List.filter_cons, decide_eq_true hsome, if_true, List.map_cons]
      rw [hfilter, total_cons]
    · have hfilter : promoShares part (r :: recipients) = promoShares part recipients := by
        simp only [promoShares, List.filter_cons, decide_eq_false hsome, Bool.false_eq_true, if_false]
      have hzero : -shareOf part r.shareBps = 0 := by omega
      rw [hfilter, hzero, ite_self, Int.zero_add]

theorem mem_promoShares {line : AccountRef × Int} (h : line ∈ promoShares part recipients) :
    ∃ r ∈ recipients, line = (earned r.sellerId, -shareOf part r.shareBps) := by
  obtain ⟨r, hr, rfl⟩ := List.mem_map.mp h
  exact ⟨r, (List.mem_filter.mp hr).1, rfl⟩

theorem sum_netShares (net : Int) (recipients : List Recipient) :
    ((netShares net recipients).map Prod.snd).sum = -distributed net recipients := by
  induction recipients with
  | nil => rfl
  | cons r recipients ih =>
    have hcons : netShares net (r :: recipients) =
        (earned r.sellerId, -shareOf net r.shareBps) :: netShares net recipients := rfl
    have hshares : distributed net (r :: recipients) = shareOf net r.shareBps + distributed net
      recipients :=
      List.sum_cons
    rw [hcons, List.map_cons, List.sum_cons, ih, hshares]
    omega

theorem sum_promoShares (hpart : 0 ≤ part) (hshares : PositiveShares recipients) :
    ((promoShares part recipients).map Prod.snd).sum = -distributed part recipients := by
  induction recipients with
  | nil => rfl
  | cons r recipients ih =>
    have hrest := ih fun s hs => hshares s (List.mem_cons_of_mem _ hs)
    have hnonneg := shareOf_nonneg hpart (hshares r List.mem_cons_self).le
    have hcons : distributed part (r :: recipients) = shareOf part r.shareBps + distributed part
      recipients :=
      List.sum_cons
    unfold promoShares at hrest ⊢
    rw [List.filter_cons, hcons]
    split
    · rw [List.map_cons, List.map_cons, List.sum_cons, hrest]
      omega
    · rename_i hnone
      simp only [gt_iff_lt, decide_eq_true_eq, not_lt] at hnone
      rw [hrest]
      omega

theorem house_charge {a : AccountRef} (ha : a ∈ SYSTEM.values) (hother : a ≠ SYSTEM.SETTLEMENT_ACCRUAL)
    (v : Int) :
    Named (a, v).1 ∧ (a, v).1 ≠ SYSTEM.SETTLEMENT_ACCRUAL ∧
      (walletKindOf (a, v).1 = some .earned → (∃ seller, (a, v).1 = earned seller) ∧ (a, v).2 ≤ 0) := by
  refine ⟨.system ha, hother, ?_⟩
  intro hkind
  rw [walletKindOf_system ha] at hkind
  cases hkind

theorem shareOf_zero (bps : Int) : shareOf 0 bps = 0 := by
  rw [shareOf, Int.zero_mul]
  rfl

theorem total_netShares_zero (recipients : List Recipient) (a : AccountRef) :
    total (netShares 0 recipients) a = 0 := by
  induction recipients with
  | nil => rfl
  | cons r recipients ih =>
    have hcons : netShares 0 (r :: recipients) = (earned r.sellerId, -shareOf 0 r.shareBps) :: netShares 0
      recipients :=
      rfl
    rw [hcons, total_cons, ih, shareOf_zero, Int.neg_zero, ite_self]
    rfl

section Parts

variable {buyerId : String} {part : Int} {bps : Nat} {recipients : List Recipient} (hpart : 0 ≤ part)
  (hshares : WholeShares recipients)
include hpart hshares

omit hpart hshares in
theorem mem_promoLines {line : AccountRef × Int} (h : line ∈ promoLines buyerId part recipients) :
    line = (promo buyerId, part) ∨ line = (SYSTEM.PROMO_FLOAT, -part) ∨
      (∃ r ∈ recipients, line = (earned r.sellerId, -shareOf part r.shareBps)) ∨
      line = (SYSTEM.REVENUE, distributed part recipients) := by
  unfold promoLines at h
  split at h
  · exact absurd h List.not_mem_nil
  · simp only [List.mem_append, List.mem_cons, List.not_mem_nil, or_false] at h
    rcases h with (h | h | h) | h
    · exact Or.inl h
    · exact Or.inr (Or.inl h)
    · exact Or.inr (Or.inr (Or.inl (mem_promoShares h)))
    · exact Or.inr (Or.inr (Or.inr h))

omit hpart hshares in
theorem mem_spendableLines {line : AccountRef × Int}
    (h : line ∈ spendableLines buyerId part bps recipients) :
    line = (spendable buyerId, part) ∨
      (∃ r ∈ recipients, line = (earned r.sellerId, -shareOf (netOf part bps) r.shareBps)) ∨
      line = (SYSTEM.REVENUE, -keptOf part bps recipients) := by
  unfold spendableLines at h
  split at h
  · exact absurd h List.not_mem_nil
  · simp only [List.mem_append, List.mem_cons, List.not_mem_nil, or_false] at h
    rcases h with (h | h) | h
    · exact Or.inl h
    · obtain ⟨r, hr, rfl⟩ := List.mem_map.mp h
      exact Or.inr (Or.inl ⟨r, hr, rfl⟩)
    · exact Or.inr (Or.inr h)

theorem promoLines_charge : ChargeLines (promoLines buyerId part recipients) := by
  intro line hline
  rcases mem_promoLines hline with rfl | rfl | ⟨r, hr, rfl⟩ | rfl
  · refine ⟨.wallet buyerId .promo, (system_ne_wallet settlementAccrual_system _ _).symm, ?_⟩
    intro hkind
    rw [promo, walletKindOf_wallet] at hkind
    cases hkind
  · exact house_charge promoFloat_system (by decide) _
  · have hnonneg := shareOf_nonneg hpart (hshares.positive r hr).le
    exact ⟨.wallet r.sellerId .earned, (system_ne_wallet settlementAccrual_system _ _).symm,
      fun _ => ⟨⟨r.sellerId, rfl⟩, by omega⟩⟩
  · exact house_charge revenue_system (by decide) _

theorem spendableLines_charge : ChargeLines (spendableLines buyerId part bps recipients) := by
  intro line hline
  rcases mem_spendableLines hline with rfl | ⟨r, hr, rfl⟩ | rfl
  · refine ⟨.wallet buyerId .spendable, (system_ne_wallet settlementAccrual_system _ _).symm, ?_⟩
    intro hkind
    rw [spendable, walletKindOf_wallet] at hkind
    cases hkind
  · have hnonneg := shareOf_nonneg (netOf_bounds hpart bps).1 (hshares.positive r hr).le
    exact ⟨.wallet r.sellerId .earned, (system_ne_wallet settlementAccrual_system _ _).symm,
      fun _ => ⟨⟨r.sellerId, rfl⟩, by omega⟩⟩
  · exact house_charge revenue_system (by decide) _

/-- Of the promo part only the buyer's line and what revenue pays are debits. -/
theorem promoLines_signs {line : AccountRef × Int} (h : line ∈ promoLines buyerId part recipients) :
    if line.1 = promo buyerId ∨ line.1 = SYSTEM.REVENUE then 0 ≤ line.2 else line.2 ≤ 0 := by
  rcases mem_promoLines h with rfl | rfl | ⟨r, hr, rfl⟩ | rfl
  · rw [if_pos (Or.inl rfl)]
    exact hpart
  · have hnot : ¬ (SYSTEM.PROMO_FLOAT = promo buyerId ∨ SYSTEM.PROMO_FLOAT = SYSTEM.REVENUE) :=
      not_or.mpr ⟨system_ne_wallet promoFloat_system _ _, by decide⟩
    rw [if_neg hnot]
    exact Int.neg_nonpos_of_nonneg hpart
  · have hnot : ¬ (earned r.sellerId = promo buyerId ∨ earned r.sellerId = SYSTEM.REVENUE) :=
      not_or.mpr ⟨wallet_ne_of_kind nofun, (system_ne_wallet revenue_system _ _).symm⟩
    rw [if_neg hnot]
    exact Int.neg_nonpos_of_nonneg (shareOf_nonneg hpart (hshares.positive r hr).le)
  · rw [if_pos (Or.inr rfl)]
    exact distributed_nonneg hpart hshares.positive

theorem spendableLines_signs {line : AccountRef × Int}
    (h : line ∈ spendableLines buyerId part bps recipients) :
    if line.1 = spendable buyerId then 0 ≤ line.2 else line.2 ≤ 0 := by
  rcases mem_spendableLines h with rfl | ⟨r, hr, rfl⟩ | rfl
  · rw [if_pos rfl]
    exact hpart
  · have hnot : earned r.sellerId ≠ spendable buyerId := wallet_ne_of_kind nofun
    rw [if_neg hnot]
    exact Int.neg_nonpos_of_nonneg (shareOf_nonneg (netOf_bounds hpart bps).1 (hshares.positive r hr).le)
  · have hnot : SYSTEM.REVENUE ≠ spendable buyerId := system_ne_wallet revenue_system _ _
    rw [if_neg hnot]
    exact Int.neg_nonpos_of_nonneg (keptOf_bounds hpart hshares).1

theorem total_promoLines (a : AccountRef) : total (promoLines buyerId part recipients) a =
    (if promo buyerId = a then part else 0) + (if SYSTEM.PROMO_FLOAT = a then -part else 0) +
      total (netShares part recipients) a + if SYSTEM.REVENUE =
        a then distributed part recipients else 0 := by
  unfold promoLines
  split
  · rename_i hzero
    subst hzero
    have hnonneg := distributed_nonneg hpart hshares.positive
    have hle := @distributed_le 0 _ hshares
    have hnone : distributed 0 recipients = 0 := by omega
    simp only [total_nil, total_netShares_zero, hnone, Int.neg_zero, ite_self, Int.add_zero]
  · simp only [List.cons_append, total_cons, total_append, total_promoShares hpart hshares.positive,
      total_nil]
    omega

theorem total_spendableLines (a : AccountRef) : total (spendableLines buyerId part bps recipients) a =
    (if spendable buyerId = a then part else 0) + total (netShares (netOf part bps) recipients) a +
      if SYSTEM.REVENUE = a then -keptOf part bps recipients else 0 := by
  unfold spendableLines
  split
  · rename_i hzero
    subst hzero
    obtain ⟨hnet, hnetLe⟩ := netOf_bounds hpart bps
    have hnone : netOf 0 bps = 0 := by omega
    obtain ⟨hkept, hkeptLe⟩ := @keptOf_bounds _ bps _ hpart hshares
    have hnoneKept : keptOf 0 bps recipients = 0 := by omega
    simp only [total_nil, hnone, total_netShares_zero, hnoneKept, Int.neg_zero, ite_self, Int.add_zero]
  · simp only [List.cons_append, total_cons, total_append, total_nil]
    omega

theorem sum_promoLines : ((promoLines buyerId part recipients).map Prod.snd).sum = 0 := by
  unfold promoLines
  split
  · rfl
  · simp only [List.cons_append, List.map_cons, List.map_append, List.sum_cons, List.sum_append,
      List.map_nil, List.sum_nil, sum_promoShares hpart hshares.positive]
    omega

omit hpart hshares in
theorem sum_spendableLines : ((spendableLines buyerId part bps recipients).map Prod.snd).sum = 0 := by
  unfold spendableLines
  split
  · rfl
  · simp only [List.cons_append, List.map_cons, List.map_append, List.sum_cons, List.sum_append,
      List.map_nil, List.sum_nil, sum_netShares, keptOf, netOf]
    omega

end Parts

theorem zeroSum_of_lines {legs : List Leg} {lines : List (AccountRef × Int)} (h : Lines .credit lines legs)
    (hsum : (lines.map Prod.snd).sum = 0) : ZeroSum legs := by
  have hminors : (legs.map fun leg => leg.amount.minor) = lines.map Prod.snd := by
    rw [← h.lines, List.map_map]
    rfl
  have hamounts : currencyAmounts legs = (legs.map fun leg => leg.amount.minor).map fun minor =>
      (Currency.credit, minor) := by
    unfold currencyAmounts
    rw [List.map_map]
    apply List.map_congr_left
    intro leg hleg
    simp only [Function.comp_apply, h.currency leg hleg]
  intro c
  rw [hamounts, hminors]
  cases c with
  | usd =>
    apply total_eq_zero
    intro hmem
    obtain ⟨entry, hentry, heq⟩ := List.mem_map.mp hmem
    obtain ⟨minor, -, rfl⟩ := List.mem_map.mp hentry
    cases heq
  | credit =>
    have hall : ((lines.map Prod.snd).map fun minor => (Currency.credit, minor)).filter (·.1 = .credit) =
        (lines.map Prod.snd).map fun minor => (Currency.credit, minor) := by
      apply List.filter_eq_self.mpr
      intro entry hentry
      obtain ⟨minor, -, rfl⟩ := List.mem_map.mp hentry
      rfl
    have hsnd : ((fun minor => (Currency.credit, minor)) : Int → Currency × Int) =
      Prod.mk Currency.credit := rfl
    rw [total, hall, List.map_map, hsnd]
    have hid : (Prod.snd ∘ Prod.mk Currency.credit : Int → Int) = id := rfl
    rw [hid, List.map_id]
    exact hsum

/-- A purchase in its two parts, before it is parked and routed, and what it comes to after. -/
structure SaleSplit (config : Config) (operation : SpendOperation) (promoBalance : Amount)
    (plan : SpendPlan) (promoPart rest : List Leg) : Prop where
  built : buildSpendLegs config operation plan = .ok (promoPart ++ rest)
  promo_first : plan.promoPart.minor = min (max promoBalance.minor 0) operation.price.minor
  whole : plan.promoPart.minor + plan.spendablePart.minor = operation.price.minor
  promo_signs : ∀ leg ∈ promoPart, if leg.account = promo operation.buyerId ∨ leg.account =
    SYSTEM.REVENUE then
    0 ≤ leg.amount.minor else leg.amount.minor ≤ 0
  rest_signs : ∀ leg ∈ rest, if leg.account = spendable operation.buyerId then 0 ≤ leg.amount.minor
    else leg.amount.minor ≤ 0
  sellers : ∀ r ∈ operation.recipients,
    amountOn (promoPart ++ rest) (earned r.sellerId) = -(shareOf plan.promoPart.minor r.shareBps +
      shareOf (netOf plan.spendablePart.minor config.platformFeeBps) r.shareBps) ∧
    (shareOf plan.promoPart.minor r.shareBps + shareOf
      (netOf plan.spendablePart.minor config.platformFeeBps)
      r.shareBps) * BPS_TOTAL ≤ operation.price.minor * r.shareBps
  fee : ∀ transaction, ∃ sale, saleOf operation plan transaction config.platformFeeBps = .ok sale ∧
    amountOn rest SYSTEM.REVENUE = -sale.fee.minor

def postedSale (config : Config) (operation : SpendOperation) (built : List Leg) : List Leg :=
  chargedLegs config.accrualDrain operation.idempotencyKey config.platformShards built

def saleLines (config : Config) (operation : SpendOperation) (plan : SpendPlan) :
    List (AccountRef × Int) :=
  promoLines operation.buyerId plan.promoPart.minor operation.recipients ++
    spendableLines operation.buyerId plan.spendablePart.minor config.platformFeeBps operation.recipients

structure SaleRequest (config : Config) (operation : SpendOperation) : Prop where
  price : requirePositiveCredit operation.price "spend.price" = .ok operation.price
  shape : assertSpendShape operation = .ok ()
  shares : assertRecipientShares operation.recipients operation.buyerId "spend" = .ok ()
  fee : config.platformFeeBps ≤ 10000

theorem SaleRequest.split (h : SaleRequest config operation)
    (promoBalance : Amount) : ∃ plan promoPart rest, planSpend operation.price promoBalance = .ok plan ∧
      plan.Splits operation.price.minor ∧ SaleSplit config operation promoBalance plan promoPart rest ∧
      Lines .credit (saleLines config operation plan) (promoPart ++ rest) := by
  obtain ⟨-, hcredit, hprice⟩ := requirePositiveCredit_ok h.price
  have hshares := assertRecipientShares_whole h.shares
  have hnodup := assertSpendShape_nodup h.shape
  obtain ⟨plan, hplan, hfirst, hwhole, hpromoCurrency, hrestCurrency⟩ :=
    planSpend_eq promoBalance hprice.le
  have hsplits := planSpend_splits hprice hplan
  obtain ⟨promoPart, hpromoPart, hpromoLines⟩ := @promoLegs_eq operation plan hsplits.promo hshares
  obtain ⟨rest, hrest, hrestLines⟩ := spendableLegs_eq hsplits.spendable hshares h.fee
  rw [hpromoCurrency, hcredit] at hpromoLines
  rw [hrestCurrency, hcredit] at hrestLines
  have hsaleLines : Lines .credit (saleLines config operation plan) (promoPart ++ rest) :=
    hpromoLines.append hrestLines
  refine ⟨plan, promoPart, rest, hplan, hsplits, ?_, hsaleLines⟩
  exact {
    built := by
      simp only [buildSpendLegs, hpromoPart, hrest, bind, Except.bind]
      rfl
    promo_first := hfirst
    whole := hwhole
    promo_signs := by
      intro leg hleg
      have hline : leg.line ∈ promoLines operation.buyerId plan.promoPart.minor operation.recipients :=
        hpromoLines.lines ▸ List.mem_map_of_mem hleg
      exact promoLines_signs hsplits.promo hshares hline
    rest_signs := by
      intro leg hleg
      have hline : leg.line ∈ spendableLines operation.buyerId plan.spendablePart.minor
        config.platformFeeBps
          operation.recipients := hrestLines.lines ▸ List.mem_map_of_mem hleg
      exact spendableLines_signs hsplits.spendable hshares hline
    sellers := by
      intro r hr
      have hpromoSeller : promo operation.buyerId ≠ earned r.sellerId := wallet_ne_of_kind nofun
      have hspendableSeller : spendable operation.buyerId ≠ earned r.sellerId := wallet_ne_of_kind nofun
      have hfloatSeller : SYSTEM.PROMO_FLOAT ≠ earned r.sellerId := system_ne_wallet promoFloat_system _ _
      have hrevenueSeller : SYSTEM.REVENUE ≠ earned r.sellerId := system_ne_wallet revenue_system _ _
      have htotal : amountOn (promoPart ++ rest) (earned r.sellerId) =
          total (saleLines config operation plan) (earned r.sellerId) := by
        rw [amountOn, hsaleLines.lines]
      constructor
      · rw [htotal, saleLines, total_append, total_promoLines hsplits.promo hshares,
          total_spendableLines hsplits.spendable hshares]
        simp only [if_neg hpromoSeller, if_neg hspendableSeller, if_neg hfloatSeller,
          if_neg hrevenueSeller, total_netShares hnodup hr]
        omega
      · have hmul := shareOf_add_mul_le plan.promoPart.minor
          (netOf plan.spendablePart.minor config.platformFeeBps) r.shareBps
        have hnet := (netOf_bounds hsplits.spendable config.platformFeeBps).2
        have hle : (plan.promoPart.minor + netOf plan.spendablePart.minor
          config.platformFeeBps) * r.shareBps ≤
            operation.price.minor * r.shareBps :=
          Int.mul_le_mul_of_nonneg_right (by omega) (hshares.positive r hr).le
        exact hmul.trans hle
    fee := by
      intro transaction
      obtain ⟨hkept, hkeptLe⟩ := @keptOf_bounds _ config.platformFeeBps _ hsplits.spendable hshares
      obtain ⟨fee, hfee, hfeeMinor, -⟩ := toAmount_part operation.price.currency hkept hkeptLe
      have hrevenue : SYSTEM.REVENUE ≠ spendable operation.buyerId := system_ne_wallet revenue_system _ _
      have hnone : total (netShares (netOf plan.spendablePart.minor config.platformFeeBps)
        operation.recipients)
          SYSTEM.REVENUE = 0 := by
        apply total_eq_zero
        intro hmem
        obtain ⟨line, hline, haccount⟩ := List.mem_map.mp hmem
        obtain ⟨r, -, rfl⟩ := List.mem_map.mp hline
        exact system_ne_wallet revenue_system r.sellerId .earned haccount.symm
      have hsale : saleOf operation plan transaction config.platformFeeBps = .ok {
          orderId := operation.orderId
          buyerId := operation.buyerId
          sku := operation.sku
          recipientId := some (operation.giftTo.getD operation.buyerId)
          price := operation.price
          fee := fee
          legs := transaction.legs
          txnId := transaction.id
          postedAt := transaction.postedAt } := by
        simp only [saleOf, revenueForSplit_eq hsplits.spendable hshares h.fee, hfee, bind, Except.bind]
        rfl
      refine ⟨_, hsale, ?_⟩
      rw [amountOn, hrestLines.lines, total_spendableLines hsplits.spendable hshares, if_neg hrevenue.symm,
        hnone, if_pos rfl, hfeeMinor]
      omega }

structure PostedSplit (config : Config) (operation : SpendOperation) (plan : SpendPlan)
    (built : List Leg) : Prop where
  balanced : ZeroSum (postedSale config operation built)
  amounts : (postedSale config operation built).map Leg.amount = built.map Leg.amount
  promo_paid : amountOn (postedSale config operation built) (promo operation.buyerId) =
    plan.promoPart.minor
  spendable_paid : amountOn (postedSale config operation built) (spendable operation.buyerId) =
    plan.spendablePart.minor
  revenue : amountOn (postedSale config operation built)
    (platformShard SYSTEM.REVENUE operation.idempotencyKey config.platformShards) =
      amountOn built SYSTEM.REVENUE
  unparked : config.accrualDrain = false → ∀ seller,
    amountOn (postedSale config operation built) (earned seller) = amountOn built (earned seller)
  parked : config.accrualDrain = true → ∃ shares, (parkCharge config built).shares = some shares ∧
    (∀ seller, total shares seller = -amountOn built (earned seller)) ∧
    amountOn (postedSale config operation built)
      (platformShard SYSTEM.SETTLEMENT_ACCRUAL operation.idempotencyKey config.platformShards) =
        -(shares.map Prod.snd).sum ∧
    ∀ seller, amountOn (postedSale config operation built) (earned seller) = 0

theorem saleLines_charge
    (hsplits : plan.Splits operation.price.minor) (hshares : WholeShares operation.recipients) :
    ChargeLines (saleLines config operation plan) := by
  intro line hline
  rcases List.mem_append.mp hline with hline | hline
  · exact promoLines_charge hsplits.promo hshares line hline
  · exact spendableLines_charge hsplits.spendable hshares line hline

theorem posted_split {built : List Leg}
    (hsplits : plan.Splits operation.price.minor) (hshares : WholeShares operation.recipients)
    (hlines : Lines .credit (saleLines config operation plan) built) :
    PostedSplit config operation plan built := by
  have hcharge : ChargeLines (saleLines config operation plan) := saleLines_charge hsplits hshares
  have hposted : (postedSale config operation built).map Leg.line = (saleLines config operation plan).map
      (chargedLine config.accrualDrain operation.idempotencyKey config.platformShards) := by
    rw [postedSale, chargedLegs_lines, hlines.lines]
  have hbuilt : ∀ a, amountOn built a = total (saleLines config operation plan) a := by
    intro a
    rw [amountOn, hlines.lines]
  have hwallet : ∀ kind, kind ≠ AccountKind.earned →
      amountOn (postedSale config operation built) (wallet operation.buyerId kind) =
        total (saleLines config operation plan) (wallet operation.buyerId kind) := by
    intro kind hkind
    have htotal := charged_total hcharge config.accrualDrain operation.idempotencyKey config.platformShards
      (.wallet operation.buyerId kind) (system_ne_wallet settlementAccrual_system _ _).symm fun _ => by
        rw [walletKindOf_wallet]
        exact fun heq => hkind (Option.some.inj heq)
    rw [platformShard_wallet] at htotal
    rw [amountOn, hposted, htotal]
  have hsellers : ∀ (net : Int) (kind : AccountKind), kind ≠ .earned →
      total (netShares net operation.recipients) (wallet operation.buyerId kind) = 0 := by
    intro net kind hkind
    apply total_eq_zero
    intro hmem
    obtain ⟨line, hline, haccount⟩ := List.mem_map.mp hmem
    obtain ⟨r, -, rfl⟩ := List.mem_map.mp hline
    exact wallet_ne_of_kind hkind.symm haccount
  have hfloat : ∀ kind, SYSTEM.PROMO_FLOAT ≠ wallet operation.buyerId kind :=
    system_ne_wallet promoFloat_system _
  have hrevenue : ∀ kind, SYSTEM.REVENUE ≠ wallet operation.buyerId kind :=
    system_ne_wallet revenue_system _
  exact {
    balanced := by
      apply @zeroSum_of_lines _ ((saleLines config operation plan).map
        (chargedLine config.accrualDrain operation.idempotencyKey config.platformShards))
      · refine ⟨hposted, ?_⟩
        intro leg hleg
        rw [postedSale, chargedLegs_eq] at hleg
        obtain ⟨line, hline, rfl⟩ := List.mem_map.mp hleg
        exact hlines.currency line hline
      · have hsnd : ((saleLines config operation plan).map
            (chargedLine config.accrualDrain operation.idempotencyKey config.platformShards)).map
              Prod.snd =
            (saleLines config operation plan).map Prod.snd := by
          rw [List.map_map]
          rfl
        rw [hsnd, saleLines, List.map_append, List.sum_append, sum_promoLines hsplits.promo hshares,
          sum_spendableLines]
        rfl
    amounts := chargedLegs_amounts _ _ _ _
    promo_paid := by
      have hother : spendable operation.buyerId ≠ wallet operation.buyerId .promo :=
        wallet_ne_of_kind nofun
      rw [promo, hwallet .promo nofun, saleLines, total_append, total_promoLines hsplits.promo hshares,
        total_spendableLines hsplits.spendable hshares, if_neg (hfloat _), if_neg (hrevenue _),
          if_neg (hrevenue _),
        hsellers _ .promo nofun, hsellers _ .promo nofun, if_neg hother, promo, if_pos rfl]
      omega
    spendable_paid := by
      have hother : promo operation.buyerId ≠ wallet operation.buyerId .spendable :=
        wallet_ne_of_kind nofun
      rw [spendable, hwallet .spendable nofun, saleLines, total_append,
        total_promoLines hsplits.promo hshares,
        total_spendableLines hsplits.spendable hshares, if_neg (hfloat _), if_neg (hrevenue _),
          if_neg (hrevenue _),
        hsellers _ .spendable nofun, hsellers _ .spendable nofun, if_neg hother, spendable, if_pos rfl]
      omega
    revenue := by
      rw [amountOn, hposted, hbuilt]
      exact charged_total hcharge _ _ _ (.system revenue_system) (by decide) fun _ => by
        rw [walletKindOf_system revenue_system]
        exact nofun
    unparked := by
      intro haccrual seller
      have htotal := charged_total hcharge config.accrualDrain operation.idempotencyKey
        config.platformShards
        (.wallet seller .earned) (system_ne_wallet settlementAccrual_system _ _).symm fun hdrain =>
          absurd (haccrual.symm.trans hdrain) Bool.false_ne_true
      rw [platformShard_wallet] at htotal
      rw [amountOn, hposted, hbuilt, earned, htotal]
    parked := by
      intro haccrual
      have hshares : (parkCharge config built).shares = some (parkEarnedLegs built).2 := by
        rw [parkCharge, if_pos haccrual]
      have hfilter : (built.filter isEarnedCredit).map
        (fun leg => (ownerOf leg.account, -leg.amount.minor)) =
          ((saleLines config operation plan).filter (isParked true)).map fun line =>
          (ownerOf line.1, -line.2) := by
        rw [← hlines.lines, List.filter_map, List.map_map]
        rfl
      have hsum : (((parkEarnedLegs built).2).map Prod.snd).sum =
          -(((saleLines config operation plan).filter (isParked true)).map Prod.snd).sum := by
        have hneg : ((saleLines config operation plan).filter (isParked true)).map
            (Prod.snd ∘ fun line => (ownerOf line.1, -line.2)) =
            (((saleLines config operation plan).filter (isParked true)).map Prod.snd).map fun minor =>
              -minor := by
          rw [List.map_map]
          rfl
        rw [parkEarnedLegs, hfilter, sum_tally, List.map_map, hneg, List.sum_neg]
      refine ⟨_, hshares, ?_, ?_, ?_⟩
      · intro seller
        rw [parkEarnedLegs, tally_total, hfilter, parked_shares hcharge, hbuilt]
      · rw [amountOn, hposted, haccrual, parked_total hcharge, hsum]
        omega
      · intro seller
        rw [amountOn, hposted, haccrual, unparked_earned hcharge] }

end EconomyLab
