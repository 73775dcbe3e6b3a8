import Mathlib.Algebra.Order.BigOperators.Group.List
import EconomyLab.Economy.Ownership
import EconomyLab.Netting.ChunkLegs
import EconomyLab.Operations.SaleSplit

/-!
# What a sale posts

A purchase splits its price exactly, and away from the bounds of the ledger's integers its posting
passes every check of an entry once the funds screen passed.
-/

namespace EconomyLab

open Foundation Text

theorem abs_delta (leg : Leg) : |leg.delta| = |leg.amount.minor| := by
  unfold Leg.delta
  split
  · rfl
  · exact abs_neg _

def moved (legs : List Leg) : Int := (legs.map fun leg => |leg.amount.minor|).sum

theorem balancesFit_of_room {legs : List Leg} {b : AccountRef → Int}
    (h : ∀ a, |b a| + moved legs ≤ 2 ^ 63 - 1) :
    BalancesFit b legs := by
  induction legs generalizing b with
  | nil => trivial
  | cons leg legs ih =>
    have hcons : moved (leg :: legs) = |leg.delta| + moved legs := by
      rw [abs_delta]
      exact List.sum_cons
    have hrest : 0 ≤ moved legs := by
      apply List.sum_nonneg
      intro x hx
      obtain ⟨line, -, rfl⟩ := List.mem_map.mp hx
      exact abs_nonneg _
    have hroom := h leg.account
    rw [hcons] at hroom
    have hsum := abs_add_le (b leg.account) leg.delta
    have hdelta := abs_le.mp (le_refl |leg.delta|)
    have hafter := abs_le.mp (le_refl |b leg.account + leg.delta|)
    have hbefore := abs_nonneg (b leg.account)
    refine ⟨⟨by omega, by omega⟩, ⟨by omega, by omega⟩, ih ?_⟩
    intro a
    by_cases ha : a = leg.account
    · subst ha
      rw [Function.update_self]
      omega
    · rw [Function.update_of_ne ha]
      have hother := h a
      rw [hcons] at hother
      have hnonneg := abs_nonneg leg.delta
      omega

theorem sum_filter_nonzero {legs : List Leg} {f : Leg → Int}
    (h : ∀ leg ∈ legs, leg.amount.minor = 0 → f leg = 0) :
    ((legs.filter (·.amount.minor ≠ 0)).map f).sum = (legs.map f).sum := by
  induction legs with
  | nil => rfl
  | cons leg legs ih =>
    have hrest := ih fun l hl => h l (List.mem_cons_of_mem _ hl)
    rw [List.filter_cons, List.map_cons, List.sum_cons]
    split
    · rw [List.map_cons, List.sum_cons, hrest]
    · rename_i hzero
      have hminor : leg.amount.minor = 0 := by simpa using hzero
      rw [hrest, h leg List.mem_cons_self hminor, Int.zero_add]

/-! ## The checks of an entry -/

theorem dropZero_zeroSum {posting : Posting} (h : ZeroSum posting.legs) :
    ZeroSum (dropZeroLegs posting).legs := by
  intro c
  rw [← h c]
  unfold currencyAmounts dropZeroLegs
  generalize posting.legs = legs
  induction legs with
  | nil => rfl
  | cons leg legs ih =>
    rw [List.filter_cons, List.map_cons, total_cons]
    split
    · rw [List.map_cons, total_cons, ih]
    · rename_i hzero
      have hminor : leg.amount.minor = 0 := by simpa using hzero
      rw [ih, hminor, ite_self, Int.zero_add]

theorem currency_wallet (owner : String) (kind kind' : AccountKind) :
    currency (wallet owner kind) = currency (wallet owner kind') := by
  rw [currency, currency, traitsOf_wallet, traitsOf_wallet]

theorem currency_of_isWallet {ref : AccountRef} (h : isWalletAccount ref = true) :
    currency ref = .credit ∧ isDebitNormal ref = false := by
  have hplatform : ¬ startsWith ref "platform:" = true := by
    simp only [isWalletAccount, Bool.and_eq_true, Bool.not_eq_true'] at h
    rw [h.2]
    exact Bool.false_ne_true
  have htraits := traitsOf_none hplatform
  rw [currency, isDebitNormal, htraits]
  exact ⟨rfl, rfl⟩

theorem isKnownAccount_named {ref : AccountRef} (h : Named ref) (key : String) (shards : Nat) :
    isKnownAccount (platformShard ref key shards) = true := by
  unfold isKnownAccount
  rw [Bool.or_eq_true]
  cases h with
  | system h =>
    left
    rw [List.contains_iff_mem]
    rcases platformShard_cases ref key shards with hs | ⟨-, shard, hs⟩
    · rw [hs, baseOf_system h]
      exact h
    · rw [hs, baseOf_shardRef h]
      exact h
  | wallet owner kind =>
    right
    rw [platformShard_wallet, walletKindOf_wallet]
    rfl

/-- Which accounts a purchase credits, and that they are not debit-normal or not guarded. -/
theorem notGuarded_shard {base : AccountRef} (h : base ∈ [SYSTEM.PROMO_FLOAT, SYSTEM.REVENUE])
    (key : String) (shards : Nat) : isUserGuarded (platformShard base key shards) = false := by
  have hsystem : base ∈ SYSTEM.values := by
    simp only [List.mem_cons, List.not_mem_nil, or_false] at h
    rcases h with rfl | rfl <;> decide
  have hclass : classify base = .houseLiability := by
    simp only [List.mem_cons, List.not_mem_nil, or_false] at h
    rcases h with rfl | rfl <;> decide
  have hsame : classify (platformShard base key shards) = .houseLiability := by
    have htraits : ∃ traits, traitsOf base = some traits ∧ traits.class = .houseLiability := by
      simp only [List.mem_cons, List.not_mem_nil, or_false] at h
      rcases h with rfl | rfl
      · exact ⟨⟨.credit, true, .houseLiability⟩, by decide, rfl⟩
      · exact ⟨⟨.credit, false, .houseLiability⟩, by decide, rfl⟩
    obtain ⟨traits, htraits, hliability⟩ := htraits
    rcases platformShard_cases base key shards with hs | ⟨-, shard, hs⟩
    · rw [hs, classify, htraits]
      exact hliability
    · rw [hs, classify, traitsOf_shardRef hsystem, htraits]
      exact hliability
  unfold isUserGuarded
  rw [hsame]
  rfl

variable {config : Config} {w w' : World}

theorem screenNeeds_passed {account : AccountRef} {need : Amount}
    (h : (screenNeeds [(account, need)]).run w = (.ok none, w')) :
    ∃ have_, w.ledger.tables.balance account = .ok have_ ∧ have_.currency = need.currency ∧
      need.minor ≤ have_.minor := by
  obtain ⟨have_, w₁, hread, h⟩ := Txn.bind_ok h
  obtain ⟨_, w₂, hsame, h⟩ := Txn.bind_ok h
  have hcurrency : have_.currency = need.currency := by
    have hcheck : assertSameCurrency have_ need = .ok () := congrArg Prod.fst hsame
    unfold assertSameCurrency at hcheck
    split at hcheck
    · assumption
    · cases hcheck
  refine ⟨have_, congrArg Prod.fst hread, hcurrency, ?_⟩
  split at h
  · cases h
  · rename_i hcovered
    omega

theorem accrual_creditNormal : isDebitNormal SYSTEM.SETTLEMENT_ACCRUAL = false := by decide

section Accepted

variable {config : Config} {operation : SpendOperation} {plan : SpendPlan} {built : List Leg}
  (h : SaleRequest config operation) (hsplits : plan.Splits operation.price.minor)
  (hlines : Lines .credit (saleLines config operation plan) built)
include h hsplits hlines

/-- Where the lines of a purchase go: but for the buyer's own, they do not lower a guarded account. -/
theorem posted_account {leg : Leg} (hleg : leg ∈ postedSale config operation built) :
    ∃ account, Named account ∧ leg.account = platformShard account operation.idempotencyKey
      config.platformShards ∧
      leg.amount.currency = .credit ∧
      (account = promo operation.buyerId ∨ account = spendable operation.buyerId ∨
        currency account = .credit ∧ (isUserGuarded leg.account = true → 0 ≤ leg.delta)) := by
  have hshares := assertRecipientShares_whole h.shares
  have hwallets := assertSpendShape_wallets h.shape
  rw [postedSale, chargedLegs_eq] at hleg
  obtain ⟨line, hline, rfl⟩ := List.mem_map.mp hleg
  have hcredit := hlines.currency line hline
  have hmem : line.line ∈ saleLines config operation plan := hlines.lines ▸ List.mem_map_of_mem hline
  obtain ⟨hnamed, -, -⟩ := saleLines_charge hsplits hshares line.line hmem
  by_cases hparked : isParked config.accrualDrain line.line = true
  · have hto : (chargedLine config.accrualDrain operation.idempotencyKey config.platformShards
      line.line).1 =
        platformShard SYSTEM.SETTLEMENT_ACCRUAL operation.idempotencyKey config.platformShards := by
      simp only [chargedLine, hparked, if_true]
    rw [hto]
    refine ⟨SYSTEM.SETTLEMENT_ACCRUAL, accrual_named, rfl, hcredit, Or.inr (Or.inr ⟨by
      decide, fun _ => ?_⟩)⟩
    have hnegative : line.amount.minor < 0 := by
      simp only [isParked, Bool.and_eq_true, decide_eq_true_eq] at hparked
      exact hparked.2.2
    simp only [Leg.delta, platformShard_isDebitNormal, accrual_creditNormal, Bool.false_eq_true, if_false]
    omega
  · have hto : (chargedLine config.accrualDrain operation.idempotencyKey config.platformShards
      line.line).1 =
        platformShard line.account operation.idempotencyKey config.platformShards := by
      simp only [chargedLine, hparked, Bool.false_eq_true, if_false]
      rfl
    rw [hto]
    refine ⟨line.account, hnamed, rfl, hcredit, ?_⟩
    have hseller : ∀ (net : Int) (r : Recipient), r ∈ operation.recipients → 0 ≤ net →
        line.line = (earned r.sellerId, -shareOf net r.shareBps) → currency line.account = .credit ∧
        0 ≤ Leg.delta ⟨platformShard line.account operation.idempotencyKey config.platformShards,
          line.amount⟩ := by
      intro net r hr hnonneg heq
      have haccount : line.account = earned r.sellerId := congrArg Prod.fst heq
      have hminor : line.amount.minor = -shareOf net r.shareBps := congrArg Prod.snd heq
      obtain ⟨hcurrency, hnormal⟩ := currency_of_isWallet (hwallets r hr)
      have hshare := shareOf_nonneg hnonneg (hshares.positive r hr).le
      rw [haccount]
      refine ⟨hcurrency, ?_⟩
      simp only [Leg.delta, platformShard_isDebitNormal, hnormal, Bool.false_eq_true, if_false]
      omega
    have hhouse : ∀ base, base ∈ [SYSTEM.PROMO_FLOAT, SYSTEM.REVENUE] → line.account = base →
        currency line.account = .credit ∧
          isUserGuarded (platformShard line.account operation.idempotencyKey config.platformShards) =
            false := by
      rintro base hbase rfl
      refine ⟨?_, notGuarded_shard hbase _ _⟩
      simp only [List.mem_cons, List.not_mem_nil, or_false] at hbase
      rcases hbase with h | h <;> rw [h] <;> decide
    have hspared : ∀ base, base ∈ [SYSTEM.PROMO_FLOAT, SYSTEM.REVENUE] → line.account = base →
        currency line.account = .credit ∧
          (isUserGuarded (platformShard line.account operation.idempotencyKey config.platformShards) =
            true →
            0 ≤ Leg.delta ⟨platformShard line.account operation.idempotencyKey config.platformShards,
              line.amount⟩) := by
      intro base hbase haccount
      obtain ⟨hcurrency, hunguarded⟩ := hhouse base hbase haccount
      exact ⟨hcurrency, fun hguarded => absurd (hunguarded.symm.trans hguarded) Bool.false_ne_true⟩
    rcases List.mem_append.mp hmem with hmem | hmem
    · rcases mem_promoLines hmem with heq | heq | ⟨r, hr, heq⟩ | heq
      · exact Or.inl (congrArg Prod.fst heq)
      · exact Or.inr (Or.inr (hspared SYSTEM.PROMO_FLOAT (by decide) (congrArg Prod.fst heq)))
      · obtain ⟨hcurrency, hdelta⟩ := hseller _ r hr hsplits.promo heq
        exact Or.inr (Or.inr ⟨hcurrency, fun _ => hdelta⟩)
      · exact Or.inr (Or.inr (hspared SYSTEM.REVENUE (by decide) (congrArg Prod.fst heq)))
    · rcases mem_spendableLines hmem with heq | ⟨r, hr, heq⟩ | heq
      · exact Or.inr (Or.inl (congrArg Prod.fst heq))
      · obtain ⟨hcurrency, hdelta⟩ := hseller _ r hr (netOf_bounds hsplits.spendable _).1 heq
        exact Or.inr (Or.inr ⟨hcurrency, fun _ => hdelta⟩)
      · exact Or.inr (Or.inr (hspared SYSTEM.REVENUE (by decide) (congrArg Prod.fst heq)))

/-- The lines of a purchase move no balance by more than four times its price. -/
theorem moved_le : moved (postedSale config operation built) ≤ 4 * operation.price.minor := by
  have hshares := assertRecipientShares_whole h.shares
  have hposted : moved (postedSale config operation built) =
      ((saleLines config operation plan).map fun line => |line.2|).sum := by
    rw [moved, postedSale, chargedLegs_eq, ← hlines.lines, List.map_map, List.map_map]
    rfl
  have habs : ∀ net : Int, 0 ≤ net → ((netShares net operation.recipients).map fun line => |line.2|).sum =
      distributed net operation.recipients := by
    intro net hnet
    have hpositive := hshares.positive
    generalize operation.recipients = recipients at hpositive
    induction recipients with
    | nil => rfl
    | cons r recipients ih =>
      have hrest := ih fun s hs => hpositive s (List.mem_cons_of_mem _ hs)
      have hcons : netShares net (r :: recipients) =
          (earned r.sellerId, -shareOf net r.shareBps) :: netShares net recipients := rfl
      have hsum : distributed net (r :: recipients) = shareOf net r.shareBps + distributed net
        recipients :=
        List.sum_cons
      have hnonneg := shareOf_nonneg hnet (hpositive r List.mem_cons_self).le
      rw [hcons, List.map_cons, List.sum_cons, hrest, hsum, abs_neg, abs_of_nonneg hnonneg]
  have hfilter : ((promoShares plan.promoPart.minor operation.recipients).map fun line => |line.2|).sum ≤
      ((netShares plan.promoPart.minor operation.recipients).map fun line => |line.2|).sum := by
    apply List.Sublist.sum_le_sum
    · exact (List.filter_sublist.map _).map _
    · intro x hx
      obtain ⟨line, -, rfl⟩ := List.mem_map.mp hx
      exact abs_nonneg _
  have hpromoSum := habs plan.promoPart.minor hsplits.promo
  have hnet := netOf_bounds hsplits.spendable config.platformFeeBps
  have hnetSum := habs _ hnet.1
  have hpromoDist := distributed_nonneg hsplits.promo hshares.positive
  have hpromoLe := @distributed_le plan.promoPart.minor _ hshares
  have hnetDist := distributed_nonneg hnet.1 hshares.positive
  obtain ⟨hkept, -⟩ := @keptOf_bounds _ config.platformFeeBps _ hsplits.spendable hshares
  have hpromoPart : ((promoLines operation.buyerId plan.promoPart.minor operation.recipients).map
      fun line => |line.2|).sum ≤ 4 * plan.promoPart.minor := by
    unfold promoLines
    split
    · rename_i hzero
      rw [hzero]
      exact le_refl 0
    · simp only [List.cons_append, List.map_cons, List.map_append, List.map_nil, List.sum_cons,
        List.sum_append, List.sum_nil, abs_neg, abs_of_nonneg hsplits.promo, abs_of_nonneg hpromoDist]
      omega
  have hrest : ((spendableLines operation.buyerId plan.spendablePart.minor config.platformFeeBps
      operation.recipients).map fun line => |line.2|).sum ≤ 2 * plan.spendablePart.minor := by
    unfold spendableLines
    split
    · rename_i hzero
      rw [hzero]
      exact le_refl 0
    · simp only [List.cons_append, List.map_cons, List.map_append, List.map_nil, List.sum_cons,
        List.sum_append, List.sum_nil, abs_neg, abs_of_nonneg hsplits.spendable,
        abs_of_nonneg hkept, hnetSum]
      simp only [keptOf, netOf]
      omega
  have hsum := hsplits.sum
  have hnonneg := hsplits.spendable
  rw [hposted, saleLines, List.map_append, List.sum_append]
  omega

/-- A purchase that passed the funds screen passes the checks of an entry. -/
theorem posted_checked {ports : Ports} {promoBalance : Amount} {txnId : String}
    {fields : Meta} (hplan : planSpend operation.price promoBalance = .ok plan)
    (hpromo : w.ledger.tables.balance (promo operation.buyerId) = .ok promoBalance)
    (hfirst : plan.promoPart.minor = min (max promoBalance.minor 0) operation.price.minor)
    (hscreen : (screenFunds (registry ports) (.spend operation)).run w = (.ok none, w'))
    (hroom : ∀ a, |w.ledger.tables.balanceOf a| + 4 * operation.price.minor ≤ 2 ^ 63 - 1) :
    Checked w.ledger.tables (dropZeroLegs ⟨txnId, postedSale config operation built, fields⟩) := by
  have hshares := assertRecipientShares_whole h.shares
  have hsplit := posted_split hsplits hshares hlines
  have hneeds : (screenNeeds [(spendable operation.buyerId, plan.spendablePart)]).run w =
      (.ok none, w') := by
    have hread : (spendFundsNeeded operation).run w =
        (.ok [(spendable operation.buyerId, plan.spendablePart)], w) := by
      have hbalance : (Txn.balance (promo operation.buyerId)).run w = (.ok promoBalance, w) :=
        Prod.ext hpromo rfl
      have hplanned : (Txn.lift (planSpend operation.price promoBalance)).run w = (.ok plan, w) :=
        Prod.ext hplan rfl
      unfold spendFundsNeeded
      rw [Txn.run_bind_ok hbalance, Txn.run_bind_ok hplanned]
      rfl
    exact (Txn.run_bind_ok hread).symm.trans hscreen
  obtain ⟨live, hlive, hliveCurrency, hcovered⟩ := screenNeeds_passed hneeds
  obtain ⟨hspendableCurrency, hspendableMinor⟩ := toAmount_eq_ok.mp hlive
  have hpromoMinor := (toAmount_eq_ok.mp hpromo).2
  obtain ⟨-, hpriceCredit, hprice⟩ := requirePositiveCredit_ok h.price
  have hpartCurrency : plan.spendablePart.currency = .credit := by
    obtain ⟨part, hpart, hplan⟩ := except_bind_ok.mp hplan
    obtain ⟨rest, hrest, hplan⟩ := except_bind_ok.mp hplan
    cases hplan
    exact (toAmount_eq_ok.mp hrest).1.trans hpriceCredit
  have hbuyer : ∀ kind, currency (wallet operation.buyerId kind) = .credit := by
    intro kind
    rw [currency_wallet operation.buyerId kind .spendable]
    exact hspendableCurrency.symm.trans (hliveCurrency.trans hpartCurrency)
  have hdropped : ∀ leg ∈ (dropZeroLegs ⟨txnId, postedSale config operation built, fields⟩).legs,
      leg ∈ postedSale config operation built := fun leg hleg => (List.mem_filter.mp hleg).1
  have hrange : ∀ a, I64 (w.ledger.tables.balanceOf a) := by
    intro a
    have habs := abs_le.mp (le_refl |w.ledger.tables.balanceOf a|)
    have hle := hroom a
    exact ⟨by omega, by omega⟩
  have hfit : BalancesFit w.ledger.tables.balanceOf
      (dropZeroLegs ⟨txnId, postedSale config operation built, fields⟩).legs := by
    apply balancesFit_of_room
    intro a
    have hsame : moved (dropZeroLegs ⟨txnId, postedSale config operation built, fields⟩).legs =
        moved (postedSale config operation built) :=
      sum_filter_nonzero fun leg _ hzero => by rw [hzero, abs_zero]
    have hle := moved_le h hsplits hlines
    have hhere := hroom a
    rw [hsame]
    omega
  refine ⟨assertSingleCurrencyPerLeg_ok_iff.mpr ?_, assertBalanced_ok_iff.mpr
    (dropZero_zeroSum hsplit.balanced),
    assertKnownAccounts_ok_iff.mpr ?_, (assertNoOverdraft_ok_iff hrange hfit).mpr ?_⟩
  · intro leg hleg
    obtain ⟨account, -, haccount, hcurrency, hcases⟩ := posted_account h hsplits hlines (hdropped leg hleg)
    rw [hcurrency, haccount, platformShard_currency]
    rcases hcases with rfl | rfl | ⟨hcredit, -⟩
    · exact (hbuyer .promo).symm
    · exact (hbuyer .spendable).symm
    · exact hcredit.symm
  · intro leg hleg
    obtain ⟨account, hnamed, haccount, -⟩ := posted_account h hsplits hlines (hdropped leg hleg)
    exact haccount ▸ isKnownAccount_named hnamed _ _
  · intro a hguarded hnegative
    rw [dropZeroLegs_total] at hnegative ⊢
    change Foundation.total (deltas (postedSale config operation built)) a < 0 at hnegative
    change 0 ≤ w.ledger.tables.balanceOf a + Foundation.total
      (deltas (postedSale config operation built)) a
    have hmoved : Foundation.total (deltas (postedSale config operation built)) a =
        naturalOf a (amountOn (postedSale config operation built) a) := total_deltas _ a
    have hown : ∀ {part available : Int}, amountOn (postedSale config operation built) a =
      part → 0 ≤ part →
        part ≤ available → w.ledger.tables.balanceOf a = available →
        0 ≤ w.ledger.tables.balanceOf a + Foundation.total
          (deltas (postedSale config operation built)) a := by
      intro part available hpart hnonneg hle hbalance
      rw [hmoved, hpart, hbalance]
      unfold naturalOf
      split <;> omega
    by_cases hpromoAccount : a = promo operation.buyerId
    · subst hpromoAccount
      by_cases hnone : plan.promoPart.minor = 0
      · have hstill : Foundation.total (deltas (postedSale config operation built))
            (promo operation.buyerId) = 0 := by
          rw [hmoved, hsplit.promo_paid, hnone]
          exact naturalOf_zero _
        omega
      · have hpart := hsplits.promo
        exact hown hsplit.promo_paid hpart (by omega) hpromoMinor.symm
    · by_cases hspendableAccount : a = spendable operation.buyerId
      · subst hspendableAccount
        exact hown hsplit.spendable_paid hsplits.spendable hcovered hspendableMinor.symm
      · have hraised : 0 ≤ Foundation.total (deltas (postedSale config operation built)) a := by
          apply total_deltas_nonneg
          rintro leg hleg rfl
          obtain ⟨account, -, haccount, -, hcases⟩ := posted_account h hsplits hlines hleg
          rcases hcases with rfl | rfl | ⟨-, hdelta⟩
          · exact absurd (haccount.trans (platformShard_wallet _ _ _ _)) hpromoAccount
          · exact absurd (haccount.trans (platformShard_wallet _ _ _ _)) hspendableAccount
          · exact hdelta hguarded
        omega

end Accepted

variable {env : Env} {transaction : Transaction}

theorem recordAccruals_ledger {orderId routeKey : String} {charge : Charge} {u : Unit}
    (h : (recordAccruals config orderId routeKey charge transaction).txn.run w = (.ok u, w')) :
    w'.ledger = w.ledger := by
  unfold recordAccruals at h
  split at h
  · exact (congrArg (fun r => r.2.ledger) h).symm
  · obtain ⟨rows, w₁, hrows, h⟩ := Txn.bind_ok h
    have hfirst : w₁.ledger = w.ledger := (congrArg (fun r => r.2.ledger) hrows).symm
    have hput : w'.ledger = w₁.ledger := (congrArg (fun r => r.2.ledger) h).symm
    exact hput.trans hfirst

structure SalePosting (config : Config) (operation : SpendOperation) (transaction : Transaction)
    (w w' : World) :
    Prop where
  posted : ∃ promoBalance plan built, ∃ row : StoredPosting,
    w.ledger.tables.balance (promo operation.buyerId) = .ok promoBalance ∧
    planSpend operation.price promoBalance = .ok plan ∧ buildSpendLegs config operation plan = .ok built ∧
    row.legs = (postedSale config operation built).filter (·.amount.minor ≠ 0) ∧ row.txnId =
      transaction.id ∧
    w'.ledger.tables.log = w.ledger.tables.log ++ [row]

theorem screenMaturity_ledger {account : AccountRef} {amount live : Amount} {refused : Option Outcome}
    (h : (screenMaturity env config account amount live).txn.run w = (.ok refused, w')) :
    w'.ledger = w.ledger ∧
      ∀ transaction, refused ≠ some (.committed transaction) := by
  obtain ⟨now, w₁, hnow, h⟩ := Txn.bind_ok h
  obtain ⟨cleared, w₂, hcleared, h⟩ := Txn.bind_ok h
  have hfirst : w₁.ledger = w.ledger := (congrArg (fun r => r.2.ledger) hnow).symm
  have hsecond : w₂.ledger = w₁.ledger := (congrArg (fun r => r.2.ledger) hcleared).symm
  beta_reduce at h
  by_cases hpass : cleared = true
  · rw [if_pos hpass] at h
    cases h
    exact ⟨hsecond.trans hfirst, fun _ => nofun⟩
  · rw [if_neg hpass] at h
    obtain ⟨later, w₃, hlater, h⟩ := Txn.bind_ok h
    obtain ⟨blocker, w₄, hblocker, h⟩ := Txn.bind_ok h
    have hthird : w₃.ledger = w₂.ledger := (congrArg (fun r => r.2.ledger) hlater).symm
    have hfourth : w₄.ledger = w₃.ledger := (congrArg (fun r => r.2.ledger) hblocker).symm
    cases h
    exact ⟨hfourth.trans (hthird.trans (hsecond.trans hfirst)), fun _ => nofun⟩

theorem chargeSpend_posts {operation : SpendOperation} {recipientId : String} {plan : SpendPlan}
    (h : (chargeSpend env config operation recipientId plan).txn.run w =
      (.ok (.committed transaction), w')) :
    ∃ built, ∃ row : StoredPosting, buildSpendLegs config operation plan = .ok built ∧
      row.legs = (postedSale config operation built).filter (·.amount.minor ≠ 0) ∧ row.txnId =
        transaction.id ∧
      w'.ledger.tables.log = w.ledger.tables.log ++ [row] := by
  obtain ⟨built, w₁, hbuilt, h⟩ := Txn.bind_ok h
  obtain ⟨txnId, w₂, hid, h⟩ := Txn.bind_ok h
  obtain ⟨posted, w₃, hposted, h⟩ := Txn.bind_ok h
  obtain ⟨sale, w₄, hsale, h⟩ := Txn.bind_ok h
  obtain ⟨_, w₅, hfiled, h⟩ := Txn.bind_ok h
  obtain ⟨_, w₆, hrows, h⟩ := Txn.bind_ok h
  obtain ⟨_, w₇, hgranted, h⟩ := Txn.bind_ok h
  cases h
  obtain ⟨row, hrow, hrowId, -, hlog, -⟩ := postEntry_posted hposted
  have hbefore : w₂.ledger = w.ledger :=
    (congrArg (fun r => r.2.ledger) hid).symm.trans (congrArg (fun r => r.2.ledger) hbuilt).symm
  have hafter : w'.ledger = w₃.ledger := by
    have hgrantedSame : w'.ledger = w₆.ledger := (congrArg (fun r => r.2.ledger) hgranted).symm
    have hrowsSame : w₆.ledger = w₅.ledger := recordAccruals_ledger hrows
    have hfiledSame : w₅.ledger = w₄.ledger := (congrArg (fun r => r.2.ledger) hfiled).symm
    have hsaleSame : w₄.ledger = w₃.ledger := (congrArg (fun r => r.2.ledger) hsale).symm
    exact hgrantedSame.trans (hrowsSame.trans (hfiledSame.trans hsaleSame))
  refine ⟨built, row, congrArg Prod.fst hbuilt, ?_, hrowId, ?_⟩
  · have hlegs : routePlatformLegs (parkCharge config built).legs operation.idempotencyKey
      config.platformShards =
        postedSale config operation built := by
      rw [parkCharge_legs]
      rfl
    exact hlegs ▸ congrArg Posting.legs hrow
  · rw [hafter, hlog, hbefore]

theorem spend_posts {operation : SpendOperation}
    (h : (spend env config operation).txn.run w = (.ok (.committed transaction), w')) :
    SalePosting config operation transaction w w' := by
  obtain ⟨_, w₁, hshape, h⟩ := Txn.bind_ok h
  obtain ⟨price, w₂, hprice, h⟩ := Txn.bind_ok h
  obtain ⟨_, w₃, hshares, h⟩ := Txn.bind_ok h
  obtain ⟨recipientId, w₄, hrecipient, h⟩ := Txn.bind_ok h
  obtain ⟨existing, w₅, hexisting, h⟩ := Txn.bind_ok h
  obtain rfl : w = w₁ := congrArg Prod.snd hshape
  obtain rfl : w = w₂ := congrArg Prod.snd hprice
  obtain rfl : w = w₃ := congrArg Prod.snd hshares
  obtain rfl : w = w₄ := congrArg Prod.snd hrecipient
  obtain rfl : w = w₅ := congrArg Prod.snd hexisting
  obtain ⟨rfl, -⟩ := requirePositiveCredit_ok (congrArg Prod.fst hprice)
  beta_reduce at h
  by_cases hsold : existing.isSome = true
  · rw [if_pos hsold] at h
    cases h
  · rw [if_neg hsold] at h
    obtain ⟨promoBalance, w₆, hpromo, h⟩ := Txn.bind_ok h
    obtain ⟨plan, w₇, hplan, h⟩ := Txn.bind_ok h
    obtain ⟨live, w₈, hlive, h⟩ := Txn.bind_ok h
    obtain ⟨refused, w₉, hscreen, h⟩ := Txn.bind_ok h
    obtain rfl : w = w₆ := congrArg Prod.snd hpromo
    obtain rfl : w = w₇ := congrArg Prod.snd hplan
    obtain rfl : w = w₈ := congrArg Prod.snd hlive
    obtain ⟨hledger, hrefusal⟩ := screenMaturity_ledger hscreen
    cases refused with
    | some outcome =>
      have houtcome : outcome = .committed transaction := Except.ok.inj (congrArg Prod.fst h)
      exact absurd (congrArg some houtcome) (hrefusal transaction)
    | none =>
      obtain ⟨built, row, hbuilt, hrow, hrowId, hlog⟩ := chargeSpend_posts h
      exact ⟨promoBalance, plan, built, row, congrArg Prod.fst hpromo, congrArg Prod.fst hplan, hbuilt,
        hrow, hrowId,
        hledger ▸ hlog⟩

/-- A sale is split exactly, whatever the price, the promo balance and the shares: its legs net to
zero and are what each party is due, a purchase that passed the funds screen is accepted, and one
that commits has posted them. -/
theorem sale_split_exact (config : Config) (operation : SpendOperation) (h : SaleRequest config operation)
    (promoBalance : Amount) : ∃ plan promoPart rest, planSpend operation.price promoBalance = .ok plan ∧
      SaleSplit config operation promoBalance plan promoPart rest ∧
      PostedSplit config operation plan (promoPart ++ rest) ∧
      (∀ (ports : Ports) (w w' : World) (txnId : String) (fields : Meta),
        w.ledger.tables.balance (promo operation.buyerId) = .ok promoBalance →
        (screenFunds (registry ports) (.spend operation)).run w = (.ok none, w') →
        (∀ a, |w.ledger.tables.balanceOf a| + 4 * operation.price.minor ≤ 2 ^ 63 - 1) →
        Checked w.ledger.tables (dropZeroLegs
          ⟨txnId, postedSale config operation (promoPart ++ rest), fields⟩)) ∧
      ∀ (env : Env) (w w' : World) (transaction : Transaction),
        w.ledger.tables.balance (promo operation.buyerId) = .ok promoBalance →
        (spend env config operation).txn.run w = (.ok (.committed transaction), w') →
        ∃ row : StoredPosting, w'.ledger.tables.log = w.ledger.tables.log ++ [row] ∧ row.txnId =
          transaction.id ∧
          row.legs = (postedSale config operation (promoPart ++ rest)).filter (·.amount.minor ≠ 0) := by
  obtain ⟨plan, promoPart, rest, hplan, hsplits, hsplit, hlines⟩ := h.split promoBalance
  refine ⟨plan, promoPart, rest, hplan, hsplit, posted_split hsplits (assertRecipientShares_whole h.shares)
    hlines,
    ?_, ?_⟩
  · intro ports w w' txnId fields hpromo hscreen hroom
    exact posted_checked h hsplits hlines hplan hpromo hsplit.promo_first hscreen hroom
  · intro env w w' transaction hpromo hrun
    obtain ⟨promoBalance', plan', built, row, hpromo', hplan', hbuilt, hrow, hrowId, hlog⟩ :=
      (spend_posts hrun).posted
    obtain rfl : promoBalance = promoBalance' := Except.ok.inj (hpromo.symm.trans hpromo')
    obtain rfl : plan = plan' := Except.ok.inj (hplan.symm.trans hplan')
    obtain rfl : promoPart ++ rest = built := Except.ok.inj (hsplit.built.symm.trans hbuilt)
    exact ⟨row, hlog, hrowId, hrow⟩

theorem abs_total_deltas_le (legs : List Leg) (a : AccountRef) :
    |Foundation.total (deltas legs) a| ≤ moved legs := by
  induction legs with
  | nil => exact le_refl 0
  | cons leg legs ih =>
    have hcons : moved (leg :: legs) = |leg.delta| + moved legs := by
      rw [abs_delta]
      exact List.sum_cons
    rw [deltas_cons, total_cons, hcons]
    split
    · exact (abs_add_le _ _).trans (Int.add_le_add_left ih _)
    · have hnonneg := abs_nonneg leg.delta
      rw [Int.zero_add]
      omega

theorem posted_room {env : Env} {posting : Posting} {w : World} {n : Int}
    (hok : ((Work.postEntry env posting).txn.run w).1.toOption.isSome = true)
    (hroom : ∀ a, |w.ledger.tables.balanceOf a| ≤ n) (a : AccountRef) :
    |((Work.postEntry env posting).txn.run w).2.ledger.tables.balanceOf a| ≤
      n + moved (dropZeroLegs posting).legs := by
  rcases hrun : (Work.postEntry env posting).txn.run w with ⟨res, w'⟩
  rw [hrun] at hok
  cases res with
  | error e => cases hok
  | ok transaction =>
    obtain ⟨row, hrow, -, -, -, hbalance⟩ := postEntry_posted hrun
    have hlegs : row.legs = (dropZeroLegs posting).legs := congrArg Posting.legs hrow
    rw [hbalance a, hlegs]
    exact (abs_add_le _ _).trans (Int.add_le_add (hroom a) (abs_total_deltas_le _ a))

theorem I64.neg_two_hundred : I64 (-200) := by decide

def partlyPromo : World :=
  ((Work.postEntry tickEnv ⟨"t1", [⟨SYSTEM.PROMO_FLOAT, ⟨.credit, 200, .two_hundred⟩⟩,
    ⟨promo "a", ⟨.credit, -200, .neg_two_hundred⟩⟩], []⟩).txn.run tenCredits).2

theorem partlyPromo_room (a : AccountRef) : |partlyPromo.ledger.tables.balanceOf a| ≤ 2400 := by
  have hten : ∀ a, |tenCredits.ledger.tables.balanceOf a| ≤ 0 + 2000 :=
    posted_room (by decide +kernel) fun a => le_of_eq (abs_zero (α := Int))
  exact posted_room (by decide +kernel) hten a

/-- Neither share comes out even, of the promo part or of what the fee leaves of the rest. -/
def sharedSale : SpendOperation :=
  ⟨"k1", .user "a", "o", "a", "sku_o", ⟨.credit, 1000, .thousand⟩, [⟨"s", 3333⟩, ⟨"t", 6667⟩], false, none⟩

theorem purchase_split_exact : ∃ plan built,
    planSpend sharedSale.price ⟨.credit, 200, .two_hundred⟩ = .ok plan ∧
    PostedSplit twoShards sharedSale plan built ∧
    amountOn built (earned "s") = -(66 + 233) ∧ amountOn built (earned "t") = -(133 + 466) ∧
    Checked partlyPromo.ledger.tables
      (dropZeroLegs ⟨"t2", postedSale twoShards sharedSale built, []⟩) := by
  obtain ⟨plan, promoPart, rest, hplan, hsplit, hposted, hchecked, -⟩ :=
    sale_split_exact twoShards sharedSale ⟨rfl, rfl, rfl, by decide⟩ ⟨.credit, 200, .two_hundred⟩
  obtain ⟨hpromoPart, hrest⟩ : plan.promoPart.minor = 200 ∧ plan.spendablePart.minor = 800 := by
    have hfirst : plan.promoPart.minor = 200 := hsplit.promo_first
    have hwhole : plan.promoPart.minor + plan.spendablePart.minor = 1000 := hsplit.whole
    omega
  refine ⟨plan, promoPart ++ rest, hplan, hposted, ?_, ?_, ?_⟩
  · have hs := (hsplit.sellers ⟨"s", 3333⟩ (List.mem_cons_self ..)).1
    rw [hpromoPart, hrest] at hs
    exact hs
  · have ht := (hsplit.sellers ⟨"t", 6667⟩ (List.mem_cons_of_mem _ (List.mem_singleton_self _))).1
    rw [hpromoPart, hrest] at ht
    exact ht
  · have hscreen : (screenFunds (registry parPorts) (.spend sharedSale)).run partlyPromo =
        (.ok none, partlyPromo) := rfl
    apply hchecked parPorts partlyPromo partlyPromo "t2" [] (by decide +kernel) hscreen
    intro a
    have hroom := partlyPromo_room a
    have hprice : sharedSale.price.minor = 1000 := rfl
    omega

end EconomyLab
