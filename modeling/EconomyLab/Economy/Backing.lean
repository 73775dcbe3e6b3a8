import EconomyLab.Economy.Commits
import EconomyLab.Operations.Shards
import EconomyLab.Rounding

/-!
# The cash behind issued credits

Every top-up rounds its own backing up, so over any number of them the trust cash covers the
credits at par, by less than a unit for each.
-/

namespace EconomyLab

open Foundation

/-- The payment covers the backing, the two postings balance, and the second one brings the
backing into the trust. -/
structure Backs (config : Config) (rates : Rates) (operation : TopUpOperation)
    (gross backing margin : Amount) (issuance cash : StoredPosting) : Prop where
  bought : convertCeil operation.amount rates.buy .usd = .ok gross
  valued : convertCeil operation.amount rates.par .usd = .ok backing
  spread : gross.minor = backing.minor + margin.minor
  nonneg : 0 ≤ margin.minor
  issues : ∃ legs, issuanceLegs operation.userId operation.amount = .ok legs ∧
    issuance.legs = (routePlatformLegs legs operation.idempotencyKey config.platformShards).filter
      (·.amount.minor ≠ 0)
  pays : ∃ legs, cashLegs backing margin gross = .ok legs ∧
    cash.legs = (routePlatformLegs legs operation.idempotencyKey config.platformShards).filter
      (·.amount.minor ≠ 0)
  issuance_balanced : ZeroSum issuance.legs
  cash_balanced : ZeroSum cash.legs

structure ToppedUp (config : Config) (rates : Rates) (operation : TopUpOperation)
    (transaction : Transaction) (w w' : World) : Prop where
  posted : ∃ gross backing margin issuance cash, Backs config rates operation gross backing margin
    issuance cash ∧
    issuance.txnId = transaction.id ∧ w'.ledger.tables.log = w.ledger.tables.log ++ [issuance, cash] ∧
    ∀ a, w'.ledger.tables.balanceOf a = w.ledger.tables.balanceOf a + total
      (deltas (issuance.legs ++ cash.legs)) a

variable {legs : List Leg} {config : Config}

theorem topUp_posts {env : Env} {rates : Rates} {operation : TopUpOperation}
    {w w' : World} {transaction : Transaction}
    (h : (topUp env config rates operation).txn.run w = (.ok (.committed transaction), w')) :
    ToppedUp config rates operation transaction w w' := by
  obtain ⟨_, w₁, hsource, h⟩ := Txn.bind_ok h
  obtain ⟨amount, w₂, hamount, h⟩ := Txn.bind_ok h
  obtain ⟨_, w₃, hbundle, h⟩ := Txn.bind_ok h
  obtain ⟨gross, w₄, hgross, h⟩ := Txn.bind_ok h
  obtain ⟨backing, w₅, hbacking, h⟩ := Txn.bind_ok h
  obtain ⟨margin, w₆, hmargin, h⟩ := Txn.bind_ok h
  obtain rfl : w = w₁ := congrArg Prod.snd hsource
  obtain rfl : w = w₂ := congrArg Prod.snd hamount
  obtain rfl : w = w₃ := congrArg Prod.snd hbundle
  obtain rfl : w = w₄ := congrArg Prod.snd hgross
  obtain rfl : w = w₅ := congrArg Prod.snd hbacking
  obtain rfl : w = w₆ := congrArg Prod.snd hmargin
  obtain ⟨rfl, -⟩ := requirePositiveCredit_ok (congrArg Prod.fst hamount)
  beta_reduce at h
  by_cases hnegative : margin.minor < 0
  · rw [if_pos hnegative] at h
    cases h
  · rw [if_neg hnegative] at h
    obtain ⟨cash, w₇, hcash, h⟩ := Txn.bind_ok h
    obtain ⟨issuanceId, w₈, hid, h⟩ := Txn.bind_ok h
    obtain ⟨issued, w₉, hissued, h⟩ := Txn.bind_ok h
    obtain ⟨cashId, w₁₀, hid', h⟩ := Txn.bind_ok h
    obtain ⟨issuance, w₁₁, hissuance, h⟩ := Txn.bind_ok h
    obtain ⟨_, w₁₂, hpaid, h⟩ := Txn.bind_ok h
    cases h
    obtain rfl : w = w₇ := congrArg Prod.snd hcash
    obtain rfl : { w with minted := w.minted + 1 } = w₈ := congrArg Prod.snd hid
    obtain rfl : { w with minted := w.minted + 1 } = w₉ := congrArg Prod.snd hissued
    obtain rfl : { w with minted := w.minted + 1 + 1 } = w₁₀ := congrArg Prod.snd hid'
    obtain ⟨row, hrow, hrowId, hbalanced, hlog, hbalance⟩ := postEntry_posted hissuance
    obtain ⟨row', hrow', -, hbalanced', hlog', hbalance'⟩ := postEntry_posted hpaid
    have hminor := (toAmount_eq_ok.mp (congrArg Prod.fst hmargin : toAmount _ _ = .ok margin)).2
    refine ⟨gross, backing, margin, row, row', ⟨congrArg Prod.fst hgross, congrArg Prod.fst hbacking,
      by omega, by omega, ⟨issued, congrArg Prod.fst hissued, congrArg Posting.legs hrow⟩,
      ⟨cash, congrArg Prod.fst hcash, congrArg Posting.legs hrow'⟩, hbalanced, hbalanced'⟩, hrowId, ?_, ?_⟩
    · rw [hlog', hlog, List.append_assoc]
      rfl
    · intro a
      rw [hbalance', hbalance, deltas_append, total_append, Int.add_assoc]

theorem issuanceLegs_named {userId : String} {amount : Amount}
    (h : issuanceLegs userId amount = .ok legs) : ∀ leg ∈ legs, Named leg.account := by
  intro leg hleg
  have haccount := issuanceLegs_accounts h leg hleg
  simp only [List.mem_cons, List.not_mem_nil, or_false] at haccount
  rcases haccount with h | h
  · exact h ▸ .system (by decide)
  · exact h ▸ .wallet userId .spendable

theorem cashLegs_named {backing margin gross : Amount}
    (h : cashLegs backing margin gross = .ok legs) : ∀ leg ∈ legs, Named leg.account := by
  intro leg hleg
  have haccount := cashLegs_accounts h leg hleg
  simp only [List.mem_cons, List.not_mem_nil, or_false] at haccount
  rcases haccount with h | h | h
  · exact h ▸ .system (by decide)
  · exact h ▸ .system (by decide)
  · exact h ▸ .system (by decide)

theorem total_deltas_absent {a : AccountRef} (h : ∀ leg ∈ legs, leg.account ≠ a) :
    total (deltas legs) a = 0 := by
  apply total_eq_zero
  intro hmem
  obtain ⟨leg, hleg, haccount⟩ := List.mem_map.mp (mem_deltas_account.mp hmem)
  exact h leg hleg haccount

theorem issuanceLegs_trust {userId : String} {amount : Amount}
    (h : issuanceLegs userId amount = .ok legs) : total (deltas legs) SYSTEM.TRUST_CASH = 0 := by
  apply total_deltas_absent
  intro leg hleg
  have haccount := issuanceLegs_accounts h leg hleg
  simp only [List.mem_cons, List.not_mem_nil, or_false] at haccount
  rcases haccount with h | h
  · exact h ▸ by decide
  · exact h ▸ (system_ne_wallet (by decide) userId .spendable).symm

theorem cashLegs_trust {backing margin gross : Amount} (h : cashLegs backing margin gross = .ok legs) :
    total (deltas legs) SYSTEM.TRUST_CASH = backing.minor := by
  obtain ⟨line, hline, h⟩ := except_bind_ok.mp h
  obtain rfl := except_pure_ok.mp h
  have hnormal : isDebitNormal SYSTEM.TRUST_CASH = true := by decide
  have hdelta : (debit SYSTEM.TRUST_CASH backing).delta = backing.minor := if_pos hnormal
  have hrest : total (deltas ((if margin.minor > 0 then [debit SYSTEM.REVENUE_USD margin] else []) ++
    [line]))
      SYSTEM.TRUST_CASH = 0 := by
    apply total_deltas_absent
    intro leg hleg
    rcases List.mem_append.mp hleg with hleg | hleg
    · split at hleg
      · obtain rfl := List.mem_singleton.mp hleg
        exact (by decide : SYSTEM.REVENUE_USD ≠ SYSTEM.TRUST_CASH)
      · cases hleg
    · obtain rfl := List.mem_singleton.mp hleg
      exact (credit_ok hline).1 ▸ by decide
  have haccount : (debit SYSTEM.TRUST_CASH backing).account = SYSTEM.TRUST_CASH := rfl
  rw [List.cons_append, deltas_cons, total_cons, hrest, hdelta, if_pos haccount, Int.add_zero]

def trustCash (config : Config) (w : World) : Int :=
  acrossShards SYSTEM.TRUST_CASH config.platformShards w.ledger.tables.balanceOf

theorem acrossShards_dropZero {base : AccountRef} (hbase : base ∈ SYSTEM.values)
    (hlegs : ∀ leg ∈ legs, Named leg.account) (key : String) (shards : Nat) :
    acrossShards base shards (total
      (deltas ((routePlatformLegs legs key shards).filter (·.amount.minor ≠ 0)))) =
      total (deltas legs) base := by
  rw [← acrossShards_routed hbase hlegs key shards]
  have hsame := fun a => dropZeroLegs_total ⟨"", routePlatformLegs legs key shards, []⟩ a
  exact congrArg (acrossShards base shards) (funext hsame)

theorem ToppedUp.trust {rates : Rates} {operation : TopUpOperation}
    {transaction : Transaction} {w w' : World} (h : ToppedUp config rates operation transaction w w') :
    ∃ backing, convertCeil operation.amount rates.par .usd = .ok backing ∧
      trustCash config w' = trustCash config w + backing.minor := by
  obtain ⟨gross, backing, margin, issuance, cash, hbacks, -, -, hbalance⟩ := h.posted
  refine ⟨backing, hbacks.valued, ?_⟩
  obtain ⟨issued, hissued, hissuance⟩ := hbacks.issues
  obtain ⟨paid, hpaid, hcash⟩ := hbacks.pays
  have htrust : SYSTEM.TRUST_CASH ∈ SYSTEM.values := by decide
  have hmoved : ∀ a, total (deltas (issuance.legs ++ cash.legs)) a =
      total (deltas issuance.legs) a + total (deltas cash.legs) a := by
    intro a
    rw [deltas_append, total_append]
  have hfrom := acrossShards_dropZero htrust (issuanceLegs_named hissued) operation.idempotencyKey
    config.platformShards
  have hto := acrossShards_dropZero htrust (cashLegs_named hpaid) operation.idempotencyKey
    config.platformShards
  unfold trustCash
  calc acrossShards SYSTEM.TRUST_CASH config.platformShards w'.ledger.tables.balanceOf
      = acrossShards SYSTEM.TRUST_CASH config.platformShards fun a => w.ledger.tables.balanceOf a +
          (total (deltas issuance.legs) a + total (deltas cash.legs) a) :=
        congrArg _ (funext fun a => (hbalance a).trans (congrArg _ (hmoved a)))
    _ = acrossShards SYSTEM.TRUST_CASH config.platformShards w.ledger.tables.balanceOf +
          (acrossShards SYSTEM.TRUST_CASH config.platformShards (total (deltas issuance.legs)) +
            acrossShards SYSTEM.TRUST_CASH config.platformShards (total (deltas cash.legs))) := by
        rw [acrossShards_add, acrossShards_add]
    _ = acrossShards SYSTEM.TRUST_CASH config.platformShards
      w.ledger.tables.balanceOf + backing.minor := by
        rw [hissuance, hcash, hfrom, hto, issuanceLegs_trust hissued, cashLegs_trust hpaid, Int.zero_add]

structure TopUpStep where
  operation : TopUpOperation
  transaction : Transaction
  before : World
  after : World

def topUpStep (w : World) : Operation → Slot × World → List TopUpStep
  | .topUp operation, (.ok (.committed transaction), w') => [⟨operation, transaction, w, w'⟩]
  | _, _ => []

/-- The top-ups that commit while operations of any kinds are submitted one by one. -/
def committedTopUps (ports : Ports) (env : Env) (config : Config) :
    List (Operation × Int) → World → List TopUpStep
  | [], _ => []
  | (operation, now) :: operations, w =>
    let done := submit (registry ports) env config operation now w
    topUpStep w operation done ++ committedTopUps ports env config operations done.2

def issuedCredit (steps : List TopUpStep) : Int := (steps.map (·.operation.amount.minor)).sum

def addedCash (config : Config) (steps : List TopUpStep) : Int :=
  (steps.map fun step => trustCash config step.after - trustCash config step.before).sum

theorem mem_committedTopUps {ports : Ports} {env : Env}
    {operations : List (Operation × Int)} {w : World} {step : TopUpStep}
    (h : step ∈ committedTopUps ports env config operations w) :
    ToppedUp config ports.rates step.operation step.transaction step.before step.after := by
  induction operations generalizing w with
  | nil => exact absurd h List.not_mem_nil
  | cons entry operations ih =>
    obtain ⟨operation, now⟩ := entry
    rcases List.mem_append.mp h with h | h
    · unfold topUpStep at h
      split at h
      · rename_i o transaction w' hdone
        obtain rfl := List.mem_singleton.mp h
        obtain ⟨w₁, w₂, hfronts, hrun, hfiles⟩ := (submit_committed (registry_orderly ports) hdone).handled
        obtain ⟨gross, backing, margin, issuance, cash, hbacks, hid, hlog, hbalance⟩ :=
          (topUp_posts hrun).posted
        refine ⟨gross, backing, margin, issuance, cash, hbacks, hid, ?_, ?_⟩
        · rw [hfiles.ledger, hlog, hfronts.ledger]
        · intro a
          rw [hfiles.ledger, hbalance, hfronts.ledger]
      · exact absurd h List.not_mem_nil
    · exact ih h

theorem addedCash_bounds {rates : Rates} {steps : List TopUpStep}
    (h : ∀ step ∈ steps, ToppedUp config rates step.operation step.transaction step.before step.after) :
    issuedCredit steps * rates.par.rate ≤ 10 ^ rates.par.scale * addedCash config steps ∧
      10 ^ rates.par.scale * addedCash config steps ≤
        issuedCredit steps * rates.par.rate + steps.length * (10 ^ rates.par.scale - 1) := by
  induction steps with
  | nil => simp [issuedCredit, addedCash]
  | cons step steps ih =>
    obtain ⟨hbelow, habove⟩ := ih fun s hs => h s (List.mem_cons_of_mem _ hs)
    obtain ⟨backing, hbacking, htrust⟩ := (h step List.mem_cons_self).trust
    obtain ⟨-, hlow, hhigh⟩ := convertCeil_bounds hbacking
    have hissued : issuedCredit (step :: steps) = step.operation.amount.minor + issuedCredit steps :=
      List.sum_cons
    have hadded : addedCash config (step :: steps) = backing.minor + addedCash config steps := by
      simp only [addedCash, List.map_cons, List.sum_cons, htrust]
      ring
    rw [hissued, hadded, List.length_cons]
    push_cast
    constructor
    · linarith
    · linarith

/-- Top-ups are backed: each posts a gross payment of backing and a margin that is not negative,
and over any number of them the cash covers the credits at par, by less than a unit for each. -/
theorem topUps_backed (ports : Ports) (env : Env) (config : Config) (operations : List (Operation × Int))
    (w : World) :
    let steps := committedTopUps ports env config operations w
    (∀ step ∈ steps, ToppedUp config ports.rates step.operation step.transaction step.before step.after) ∧
    issuedCredit steps * ports.rates.par.rate / 10 ^ ports.rates.par.scale ≤ addedCash config steps ∧
    issuedCredit steps * ports.rates.par.rate ≤ 10 ^ ports.rates.par.scale * addedCash config steps ∧
    (steps ≠ [] → 10 ^ ports.rates.par.scale * addedCash config steps <
      issuedCredit steps * ports.rates.par.rate + steps.length * 10 ^ ports.rates.par.scale) ∧
    ∀ amount gross backing, rateGte ports.rates.buy ports.rates.par = true → 0 ≤ amount.minor →
      convertCeil amount ports.rates.buy .usd = .ok gross → convertCeil amount ports.rates.par .usd =
        .ok backing →
      backing.minor ≤ gross.minor := by
  intro steps
  have hsteps : ∀ step ∈ steps, ToppedUp config ports.rates step.operation step.transaction step.before
    step.after :=
    fun step hstep => mem_committedTopUps hstep
  obtain ⟨hbelow, habove⟩ := addedCash_bounds hsteps
  refine ⟨hsteps, ?_, hbelow, ?_, fun _ _ _ hrates hamount => convertCeil_mono hrates hamount⟩
  · apply Int.ediv_le_of_le_mul (scale_pos _)
    rw [Int.mul_comm (addedCash config steps)]
    exact hbelow
  · intro hsome
    have hlength : 0 < steps.length := List.length_pos_iff.mpr hsome
    have hpositive : (0 : Int) < steps.length := by exact_mod_cast hlength
    linarith

end EconomyLab
