import EconomyLab.Economy.Submits
import EconomyLab.Worker.Subscriptions

/-!
# The renewal sweep

A sweep works on the rows it claimed. Each is renewed in one transaction, and what did not end in a charge
is written back later: a retry puts the claimed row back whole, a lapse ends the subscription. Other sweeps
and callers move between any two of these calls, so a row may be renewed from a state long past. The key of
the billing period still lets one charge through.
-/

namespace EconomyLab

open Foundation

/-! ## One subscription -/

def lapsedEvent (sub : Subscription) : Txn.EventDraft where
  type := "economy.subscription.lapsed"
  subject := sub.userId
  data := [("subscriptionId", .string sub.id), ("userId", .string sub.userId), ("sku", .string sub.sku),
    ("period", .number sub.period)]
  audience := "client"

def lapseAtomically (env : Env) (sub : Subscription) : Txn Unit := do
  Txn.subscription (.markLapsed sub.id)
  Txn.entitlement (.revoke sub.userId sub.sku)
  Txn.emit env (lapsedEvent sub)

inductive BillOutcome
  | charged
  | lapsed
  | deadLettered (reason : Option ErrorCode)
  | retrying (code : String)
  /-- Another sweep has billed the period. -/
  | untouched
deriving DecidableEq

structure SweepSummary where
  charged : List String
  lapsed : List String
  deadLettered : List (String × Option ErrorCode)
  retrying : List (String × String)

def SweepSummary.add (tally : SweepSummary) (id : String) : BillOutcome → SweepSummary
  | .charged => { tally with charged := tally.charged ++ [id] }
  | .lapsed => { tally with lapsed := tally.lapsed ++ [id] }
  | .deadLettered reason => { tally with deadLettered := tally.deadLettered ++ [(id, reason)] }
  | .retrying code => { tally with retrying := tally.retrying ++ [(id, code)] }
  | .untouched => tally

section Bill

variable (env : Env) (config : Config) (sub : Subscription)

/-- The cap counts the failure at hand, on the row as it was claimed. -/
def retryOutcome (code : String) : BillOutcome :=
  if config.maxSubscriptionAttempts ≤ sub.attempts + 1 then .lapsed else .retrying code

def billOutcome : Except Fault Renewal → BillOutcome
  | .ok .charged => .charged
  | .ok .underfunded => .lapsed
  | .ok .immature => retryOutcome config sub "FUNDS_IMMATURE"
  | .ok .lost => .untouched
  | .error e =>
    if (normalizeError e).retryable then retryOutcome config sub
      (((normalizeError e).code.map ErrorCode.text).getD "")
    else .deadLettered (normalizeError e).code

/-- The row as it was claimed goes back into the table, with the attempt counted. -/
def openRow (row : Subscription) (w : World) : World :=
  { w with subscriptions := (SubscriptionWrite.start row).run w.subscriptions }

def BillOutcome.settle (outcome : BillOutcome) (w : World) : World :=
  match outcome with
  | .charged => w
  | .untouched => w
  | .lapsed => (transaction (lapseAtomically env sub) w).2
  | .deadLettered _ => (transaction (lapseAtomically env sub) w).2
  | .retrying _ => openRow { sub with attempts := sub.attempts + 1 } w

def billOne (s : SweepSummary × World) : SweepSummary × World :=
  let renewed := transaction (renew env config sub) s.2
  let outcome := billOutcome config sub renewed.1
  (s.1.add sub.id outcome, outcome.settle env sub renewed.2)

end Bill

/-- `subscriptions.claimDue`. -/
def claimDueSubscriptions (rows : OrderedTable String Subscription) (now : Int) (limit : Nat) :
    List Subscription :=
  (rows.values.filter fun sub => sub.state = .active && sub.nextDueAt ≤ now).take limit

def sweepDueSubscriptions (env : Env) (config : Config) (now : Int) (limit : Nat) (w : World) :
    SweepSummary × World :=
  (claimDueSubscriptions w.subscriptions.rows now limit).foldl (fun s sub => billOne env config sub s)
    (⟨[], [], [], []⟩, w)

structure RenewalStep where
  sub : Subscription
  before : World
  result : Except Fault Renewal
  after : World

structure Billing where
  world : World
  claimed : List Subscription
  renewed : List RenewalStep

inductive BillingEvent
  | submit (operation : Operation) (now : Int)
  | claim (now : Int) (limit : Nat)
  /-- The transaction for a claimed row. -/
  | renew (n : Nat)
  /-- The write that follows a renewal; a sweep that stopped never gets there. -/
  | settle (n : Nat)

namespace Billing

def start (w : World) : Billing := ⟨w, [], []⟩

section Calls

variable (ports : Ports) (env : Env) (config : Config)

def step (s : Billing) : BillingEvent → Billing
  | .submit operation now =>
    { s with world := (submit (registry ports) env config operation now s.world).2 }
  | .claim now limit =>
    { s with claimed := s.claimed ++ claimDueSubscriptions s.world.subscriptions.rows now limit }
  | .renew n =>
    match s.claimed[n]? with
    | none => s
    | some sub =>
      let done := transaction (renew env config sub) s.world
      { s with world := done.2, renewed := s.renewed ++ [⟨sub, s.world, done.1, done.2⟩] }
  | .settle n =>
    match s.renewed[n]? with
    | none => s
    | some r => { s with world := (billOutcome config r.sub r.result).settle env r.sub s.world }

def run (events : List BillingEvent) (s : Billing) : Billing := events.foldl (step ports env config) s

end Calls

end Billing

/-! ## Steps beside the books -/

/-- The step posts nothing and files no key. -/
def Txn.OffBooks {α : Type} (x : Txn α) : Prop :=
  ∀ w, (x.run w).2.ledger = w.ledger ∧
    (x.run w).2.idempotency.rows.committed = w.idempotency.rows.committed

namespace Txn.OffBooks

variable {α β : Type} {env : Env}

theorem lift (r : Except Fault α) : OffBooks (Txn.lift r) := fun _ => ⟨rfl, rfl⟩

theorem read (f : World → Except Fault α) : OffBooks (Txn.read f) := fun _ => ⟨rfl, rfl⟩

theorem pure (a : α) : OffBooks (Pure.pure a : Txn α) := fun _ => ⟨rfl, rfl⟩

theorem bind {x : Txn α} {f : α → Txn β} (hx : OffBooks x) (hf : ∀ a, OffBooks (f a)) :
    OffBooks (x >>= f) := by
  intro w
  have hfirst := hx w
  rw [Txn.run_bind]
  rcases hrun : x.run w with ⟨res, w₁⟩
  rw [hrun] at hfirst
  cases res with
  | error e => exact hfirst
  | ok a =>
    obtain ⟨hledger, hkeys⟩ := hf a w₁
    exact ⟨hledger.trans hfirst.1, hkeys.trans hfirst.2⟩

theorem now : OffBooks (Txn.now env) := fun _ => ⟨rfl, rfl⟩

theorem mint (kind : String) : OffBooks (Txn.mint env kind) := fun _ => ⟨rfl, rfl⟩

theorem subscription (write : SubscriptionWrite) : OffBooks (Txn.subscription write) := fun _ => ⟨rfl, rfl⟩

theorem entitlement (write : EntitlementWrite) : OffBooks (Txn.entitlement write) := fun _ => ⟨rfl, rfl⟩

theorem markBilled (id : String) (nextDueAt expectedDueAt : Int) :
    OffBooks (Txn.markBilled id nextDueAt expectedDueAt) := fun _ => ⟨rfl, rfl⟩

theorem putAccruals (batch : List AccrualRow) : OffBooks (Txn.putAccruals batch) := fun _ => ⟨rfl, rfl⟩

theorem emit (draft : EventDraft) : OffBooks (Txn.emit env draft) := by
  apply bind (mint "evt")
  intro id
  apply bind now
  intro occurredAt
  apply bind (mint "obx")
  intro messageId
  exact fun _ => ⟨rfl, rfl⟩

theorem ok {x : Txn α} (hx : OffBooks x) {w w' : World} {a : α} (h : x.run w = (.ok a, w')) :
    w'.ledger = w.ledger ∧ w'.idempotency.rows.committed = w.idempotency.rows.committed := by
  have hboth := hx w
  rw [h] at hboth
  exact hboth

end Txn.OffBooks

theorem lapseAtomically_offBooks (env : Env) (sub : Subscription) :
    (lapseAtomically env sub).OffBooks := by
  apply Txn.OffBooks.bind (.subscription _)
  intro _
  apply Txn.OffBooks.bind (.entitlement _)
  intro _
  exact .emit _

/-! ## A renewal -/

section Renewal

variable {env : Env} {config : Config} {sub : Subscription} {w w' : World}

def OffWallets (legs : List Leg) : Prop := ∀ leg ∈ legs, walletKindOf leg.account ≠ some .spendable

theorem offWallets_pair {toSeller toRevenue : Leg}
    (hseller : walletKindOf toSeller.account ≠ some .spendable)
    (hrevenue : walletKindOf toRevenue.account ≠ some .spendable) : OffWallets [toSeller, toRevenue] := by
  intro leg hleg
  rcases List.mem_cons.mp hleg with rfl | hleg
  · exact hseller
  · rw [List.mem_singleton.mp hleg]
    exact hrevenue

theorem offWallets_routed {legs : List Leg} (h : OffWallets legs) (key : String) (shards : Nat) :
    OffWallets (routePlatformLegs legs key shards) := by
  unfold routePlatformLegs
  split
  · exact h
  · intro leg hleg
    obtain ⟨source, hsource, rfl⟩ := List.mem_map.mp hleg
    simp only
    rcases platformShard_cases source.account key shards with heq | ⟨hbase, shard, heq⟩
    · rw [heq]
      exact h source hsource
    · rw [heq, walletKindOf_shardRef hbase]
      intro hnone
      cases hnone

theorem offWallets_parked {legs : List Leg} (h : OffWallets legs) :
    OffWallets (parkEarnedLegs legs).1 := by
  intro leg hleg
  obtain ⟨source, hsource, rfl⟩ := List.mem_map.mp hleg
  split
  · rw [walletKindOf_system (by decide : SYSTEM.SETTLEMENT_ACCRUAL ∈ SYSTEM.values)]
    intro hnone
    cases hnone
  · exact h source hsource

theorem route_cons (owner : String) (amount : Amount) (legs : List Leg) (key : String) (shards : Nat) :
    routePlatformLegs (debit (spendable owner) amount :: legs) key shards =
      debit (spendable owner) amount :: routePlatformLegs legs key shards := by
  unfold routePlatformLegs
  split
  · rfl
  · simp [debit, spendable]

theorem park_cons (owner : String) (amount : Amount) (legs : List Leg) :
    (parkEarnedLegs (debit (spendable owner) amount :: legs)).1 =
      debit (spendable owner) amount :: (parkEarnedLegs legs).1 := by
  simp [parkEarnedLegs, isEarnedCredit, debit, spendable]

/-- The one posting of a charge, under the transaction that is filed: the price leaves the buyer's wallet,
and no other wallet is touched. -/
def ChargePosted (sub : Subscription) (transaction : Transaction) (w w' : World) : Prop :=
  ∃ row legs, w'.ledger.tables.log = w.ledger.tables.log ++ [row] ∧ row.txnId = transaction.id ∧
    row.legs = (debit (spendable sub.userId) sub.price :: legs).filter (·.amount.minor ≠ 0) ∧
      OffWallets legs ∧
    row.fields.take 2 = [("kind", .string "subscriptions.renew"), ("subscriptionId", .string sub.id)]

theorem ChargePosted.moved {transaction : Transaction} {v v' : World}
    (h : ChargePosted sub transaction w w') (hbefore : w.ledger.tables = v.ledger.tables)
    (hafter : v'.ledger.tables = w'.ledger.tables) :
    ChargePosted sub transaction v v' := by
  obtain ⟨row, legs, hlog, hrest⟩ := h
  refine ⟨row, legs, ?_, hrest⟩
  rw [hafter, hlog, hbefore]

theorem postEntry_posts {posting : Posting} {transaction : Transaction}
    (h : (Txn.postEntry env posting).run w = (.ok transaction, w')) :
    w'.idempotency = w.idempotency ∧ ∃ row, w'.ledger.tables.log = w.ledger.tables.log ++ [row] ∧
      row.txnId = transaction.id ∧ row.posting = dropZeroLegs posting := by
  obtain ⟨hres, rfl⟩ := Prod.mk.inj h
  refine ⟨rfl, ?_⟩
  rcases postEntry_row env.digest (env.clock w.ticks) posting w.ledger with
    ⟨e, herror, -⟩ | ⟨row, next, -, hrow, -, -, -, -, happ⟩
  · rw [herror] at hres
    cases hres
  · rw [happ] at hres
    cases hres
    refine ⟨row, ?_, rfl, hrow⟩
    simp only [happ]
    rfl

theorem postRenewal_posts {key : String} {transaction : Transaction}
    (h : (postRenewal env config sub key).run w = (.ok transaction, w')) :
    w'.idempotency.rows.committed = w.idempotency.rows.committed ∧ ChargePosted sub transaction w w' := by
  unfold postRenewal at h
  obtain ⟨feeMinor, w₁, h₁, h⟩ := Txn.bind_ok h
  obtain ⟨net, w₂, h₂, h⟩ := Txn.bind_ok h
  obtain ⟨fee, w₃, h₃, h⟩ := Txn.bind_ok h
  obtain ⟨toSeller, w₄, h₄, h⟩ := Txn.bind_ok h
  obtain ⟨toRevenue, w₅, h₅, h⟩ := Txn.bind_ok h
  obtain ⟨txnId, w₆, h₆, h⟩ := Txn.bind_ok h
  obtain ⟨posted, w₇, hposted, h⟩ := Txn.bind_ok h
  have hbefore : w₆.ledger = w.ledger ∧ w₆.idempotency.rows.committed = w.idempotency.rows.committed := by
    obtain ⟨-, rfl⟩ := Prod.mk.inj h₁
    obtain ⟨-, rfl⟩ := Prod.mk.inj h₂
    obtain ⟨-, rfl⟩ := Prod.mk.inj h₃
    obtain ⟨-, rfl⟩ := Prod.mk.inj h₄
    obtain ⟨-, rfl⟩ := Prod.mk.inj h₅
    exact (Txn.OffBooks.mint "txn").ok h₆
  have hothers : OffWallets [toSeller, toRevenue] := by
    have hseller := (credit_ok (Prod.mk.inj h₄).1).1
    have hrevenue := (credit_ok (Prod.mk.inj h₅).1).1
    apply offWallets_pair
    · rw [hseller]
      simp [earned]
    · rw [hrevenue, walletKindOf_system (by decide : SYSTEM.REVENUE ∈ SYSTEM.values)]
      intro hnone
      cases hnone
  obtain ⟨hidempotency, row, hlog, hid, hrow⟩ := postEntry_posts hposted
  have hfields : row.fields.take 2 =
      [("kind", .string "subscriptions.renew"), ("subscriptionId", .string sub.id)] :=
    congrArg (fun posting : Posting => posting.fields.take 2) hrow
  have hlegs : ∃ legs, row.legs = (debit (spendable sub.userId) sub.price :: legs).filter
    (·.amount.minor ≠ 0) ∧
      OffWallets legs := by
    have hposting := congrArg Posting.legs hrow
    cases hdrain : config.accrualDrain with
    | false =>
      simp only [hdrain] at hposting
      exact ⟨[toSeller, toRevenue], hposting, hothers⟩
    | true =>
      simp only [hdrain, if_true] at hposting
      refine ⟨routePlatformLegs (parkEarnedLegs [toSeller, toRevenue]).1 key config.platformShards, ?_,
        offWallets_routed (offWallets_parked hothers) _ _⟩
      rw [← route_cons, ← park_cons]
      exact hposting
  -- The accrual rows follow the posting and leave the books alone.
  have hafter : transaction = posted ∧ w'.ledger = w₇.ledger ∧
      w'.idempotency.rows.committed = w₇.idempotency.rows.committed := by
    split at h
    · cases h
      exact ⟨rfl, rfl, rfl⟩
    · obtain ⟨rows, w₈, h₈, hrest⟩ := Txn.bind_ok h
      obtain ⟨_, w₉, h₉, hdone⟩ := Txn.bind_ok hrest
      obtain ⟨-, rfl⟩ := Prod.mk.inj h₈
      obtain ⟨hledger, hkeys⟩ := (Txn.OffBooks.putAccruals rows).ok h₉
      cases hdone
      exact ⟨rfl, hledger, hkeys⟩
  obtain ⟨rfl, hledger, hkeys⟩ := hafter
  constructor
  · rw [hkeys, hidempotency, hbefore.2]
  · obtain ⟨legs, hrowLegs, hoff⟩ := hlegs
    refine ⟨row, legs, ?_, hid, hrowLegs, hoff, hfields⟩
    rw [hledger, hlog, hbefore.1]

theorem billPeriod_run {anchored : Txn Unit} (hanchored : anchored.OffBooks)
    {out : (Transaction × Unit) ⊕ Renewal}
    (h : (billPeriod env config sub anchored).run w = (.ok out, w')) :
    w'.idempotency.rows.committed = w.idempotency.rows.committed ∧
      ((∃ transaction, out = .inl (transaction, ()) ∧ ChargePosted sub transaction w w') ∨
        out = .inr .lost ∧ w'.ledger = w.ledger) := by
  unfold billPeriod at h
  obtain ⟨billed, w₁, hbilled, h⟩ := Txn.bind_ok h
  obtain ⟨hledger, hkeys⟩ := (Txn.OffBooks.markBilled _ _ _).ok hbilled
  cases billed with
  | false =>
    cases h
    exact ⟨hkeys, Or.inr ⟨rfl, hledger⟩⟩
  | true =>
    obtain ⟨_, w₂, hanchor, h⟩ := Txn.bind_ok h
    obtain ⟨transaction, w₃, hpost, h⟩ := Txn.bind_ok h
    obtain ⟨hledger', hkeys'⟩ := hanchored.ok hanchor
    obtain ⟨hkept, hposted⟩ := postRenewal_posts hpost
    cases h
    refine ⟨hkept.trans (hkeys'.trans hkeys), Or.inl ⟨transaction, rfl, ?_⟩⟩
    exact hposted.moved (congrArg MemoryLedger.tables (hledger'.trans hledger)) rfl

/-- What a renewal that ends did: a charge files the period's key, which was free, and posts once; nothing
else posts or files. -/
structure Renewed (sub : Subscription) (renewal : Renewal) (w w' : World) : Prop where
  charged : renewal = .charged → w.idempotency.rows.committed.get (renewalKey sub) = none ∧
    ∃ transaction, w'.idempotency.rows.committed =
      w.idempotency.rows.committed.set (renewalKey sub) transaction ∧ ChargePosted sub transaction w w'
  kept : renewal ≠ .charged → w'.ledger.tables = w.ledger.tables ∧
    w'.idempotency.rows.committed = w.idempotency.rows.committed

theorem Renewed.of_kept {renewal : Renewal} (hne : renewal ≠ .charged) (hledger : w'.ledger = w.ledger)
    (hkeys : w'.idempotency.rows.committed = w.idempotency.rows.committed) : Renewed sub renewal w w' :=
  ⟨fun h => absurd h hne, fun _ => ⟨congrArg MemoryLedger.tables hledger, hkeys⟩⟩

theorem Renewed.moved {renewal : Renewal} {v v' : World} (h : Renewed sub renewal w w')
    (hbefore : w.ledger.tables = v.ledger.tables)
    (hkeys : w.idempotency.rows.committed = v.idempotency.rows.committed)
    (hafter : v'.ledger.tables = w'.ledger.tables)
    (hkeys' : v'.idempotency.rows.committed = w'.idempotency.rows.committed) :
    Renewed sub renewal v v' := by
  constructor
  · intro hcharged
    obtain ⟨hfree, transaction, hset, hposted⟩ := h.charged hcharged
    rw [hkeys] at hfree hset
    exact ⟨hfree, transaction, hkeys'.trans hset, hposted.moved hbefore hafter⟩
  · intro hne
    obtain ⟨hledger, hkept⟩ := h.kept hne
    exact ⟨hafter.trans (hledger.trans hbefore), hkeys'.trans (hkept.trans hkeys)⟩

theorem chargePeriod_renewed {anchored : Txn Unit} (hanchored : anchored.OffBooks) {renewal : Renewal}
    (h : (chargePeriod env config sub anchored).run w = (.ok renewal, w')) : Renewed sub renewal w w' := by
  simp only [chargePeriod, Txn.claiming] at h
  cases hget : w.idempotency.rows.committed.get (renewalKey sub) with
  | some transaction =>
    rw [hget] at h
    cases h
    exact .of_kept (by decide) rfl rfl
  | none =>
    rw [hget] at h
    simp only at h
    rcases hbody : (billPeriod env config sub anchored).run
      (w.withIdempotency (claimKey (env.clock w.ticks) (renewalKey sub) w.idempotency)) with ⟨res, w₁⟩
    rw [hbody] at h
    cases res with
    | error e => cases h
    | ok out =>
      obtain ⟨hkeys, hcases⟩ := billPeriod_run hanchored hbody
      rcases hcases with ⟨transaction, rfl, hposted⟩ | ⟨rfl, hledger⟩
      · simp only at h
        obtain ⟨_, w₂, hgrant, h⟩ := Txn.bind_ok h
        obtain ⟨_, w₃, hemit, h⟩ := Txn.bind_ok h
        cases h
        obtain ⟨hledger₂, hkeys₂⟩ := (Txn.OffBooks.entitlement _).ok hgrant
        obtain ⟨hledger₃, hkeys₃⟩ := (Txn.OffBooks.emit _).ok hemit
        refine ⟨fun _ => ⟨hget, transaction, ?_, ?_⟩, fun hne => absurd rfl hne⟩
        · rw [hkeys₃, hkeys₂]
          exact congrArg (fun committed => Table.set committed (renewalKey sub) transaction) hkeys
        · exact hposted.moved rfl (congrArg MemoryLedger.tables (hledger₃.trans hledger₂))
      · cases h
        exact .of_kept (by decide) hledger hkeys

theorem renew_renewed {renewal : Renewal} (h : (renew env config sub).run w = (.ok renewal, w')) :
    Renewed sub renewal w w' := by
  unfold renew renewOver at h
  obtain ⟨available, w₁, h₁, h⟩ := Txn.bind_ok h
  obtain ⟨_, w₂, h₂, h⟩ := Txn.bind_ok h
  obtain ⟨-, rfl⟩ := Prod.mk.inj h₁
  obtain ⟨-, rfl⟩ := Prod.mk.inj h₂
  split at h
  · cases h
    exact .of_kept (by decide) rfl rfl
  · obtain ⟨now, w₃, h₃, h⟩ := Txn.bind_ok h
    obtain ⟨ready, w₄, h₄, h⟩ := Txn.bind_ok h
    obtain ⟨-, rfl⟩ := Prod.mk.inj h₃
    obtain ⟨-, rfl⟩ := Prod.mk.inj h₄
    split at h
    · exact (chargePeriod_renewed (.read _) h).moved rfl rfl rfl rfl
    · cases h
      exact .of_kept (by decide) rfl rfl

/-- The transaction of a renewal: whatever does not charge leaves the books as they are. -/
theorem transaction_renew (env : Env) (config : Config) (sub : Subscription) (h : w.Settled) :
    (transaction (renew env config sub) w).2.Settled ∧
      ((transaction (renew env config sub) w).1 = .ok .charged →
        Renewed sub .charged w (transaction (renew env config sub) w).2) ∧
      ((transaction (renew env config sub) w).1 ≠ .ok .charged →
        (transaction (renew env config sub) w).2.ledger.tables = w.ledger.tables ∧
        (transaction (renew env config sub) w).2.idempotency.rows.committed =
          w.idempotency.rows.committed) := by
  refine ⟨⟨transaction_closed _ h.closed, transaction_sound _ h.closed h.sound⟩, ?_⟩
  rcases transaction_cases (renew env config sub) h.closed h.sound with
    ⟨renewal, w', hrun, hdone⟩ | ⟨e, w', hrun, hdone, hsame⟩
  · rw [hdone]
    have hrenewed : Renewed sub renewal w w'.commitAll := (renew_renewed hrun).moved rfl rfl rfl rfl
    constructor
    · intro hcharged
      cases hcharged
      exact hrenewed
    · intro hne
      apply hrenewed.kept
      rintro rfl
      exact hne rfl
  · rw [hdone]
    constructor
    · intro hcharged
      cases hcharged
    · intro _
      exact ⟨congrArg Journaled.rows hsame.ledger, congrArg (fun j => j.rows.committed) hsame.idempotency⟩

theorem openRow_settled (row : Subscription) (h : w.Settled) : (openRow row w).Settled := by
  obtain ⟨⟨hl, hi, hs, ho, hg, he, hu, hp, ha, ht⟩, ⟨hlots, hcolumns⟩⟩ := h
  have hclosed : ((SubscriptionWrite.start row).run w.subscriptions).undos = none := by
    simp [SubscriptionWrite.run, putRow, Journaled.write, Journaled.record, hu]
  exact ⟨⟨hl, hi, hs, ho, hg, he, hclosed, hp, ha, ht⟩, ⟨hlots, hcolumns⟩⟩

theorem lapse_settled (env : Env) (sub : Subscription) (h : w.Settled) :
    (transaction (lapseAtomically env sub) w).2.Settled ∧
      (transaction (lapseAtomically env sub) w).2.idempotency.rows.committed =
        w.idempotency.rows.committed := by
  refine ⟨⟨transaction_closed _ h.closed, transaction_sound _ h.closed h.sound⟩, ?_⟩
  rcases transaction_cases (lapseAtomically env sub) h.closed h.sound with
    ⟨_, w', hrun, hdone⟩ | ⟨e, w', hrun, hdone, hsame⟩
  · rw [hdone]
    exact ((lapseAtomically_offBooks env sub).ok hrun).2
  · rw [hdone]
    exact congrArg (fun j => j.rows.committed) hsame.idempotency

theorem settle_settled (env : Env) (sub : Subscription) (outcome : BillOutcome) (h : w.Settled) :
    (outcome.settle env sub w).Settled ∧
      (outcome.settle env sub w).idempotency.rows.committed = w.idempotency.rows.committed := by
  cases outcome with
  | charged => exact ⟨h, rfl⟩
  | untouched => exact ⟨h, rfl⟩
  | lapsed => exact lapse_settled env sub h
  | deadLettered reason => exact lapse_settled env sub h
  | retrying code => exact ⟨openRow_settled _ h, rfl⟩

end Renewal

/-! ## Runs -/

theorem renewalKey_fresh (sub : Subscription) : isReversalKey (renewalKey sub) = false := by
  have hkey : (renewalKey sub).toList =
      's' :: 'u' :: 'b' :: ':' :: (sub.id ++ (":p" ++ toString (sub.period + 1))).toList := by
    simp only [renewalKey, String.append_assoc]
    exact String.toList_append
  simp [isReversalKey, Text.startsWith, hkey, List.isPrefixOf]

/-- A charge posts once and files its key; anything else leaves the books as they were. -/
structure RenewalStep.Bills (r : RenewalStep) : Prop where
  charged : r.result = .ok .charged → ∃ transaction,
    r.after.idempotency.rows.committed.get (renewalKey r.sub) = some transaction ∧
      ChargePosted r.sub transaction r.before r.after
  kept : r.result ≠ .ok .charged → r.after.ledger.tables = r.before.ledger.tables

namespace Billing

structure Sound (s : Billing) : Prop where
  settled : s.world.Settled
  bills : ∀ r ∈ s.renewed, r.Bills
  filed : ∀ r ∈ s.renewed, r.result = .ok .charged →
    (s.world.idempotency.rows.committed.get (renewalKey r.sub)).isSome
  once : s.renewed.Pairwise fun r r' =>
    r.sub.id = r'.sub.id → r.sub.period = r'.sub.period → r.result = .ok .charged →
      r'.result ≠ .ok .charged

variable {s : Billing}

theorem Sound.renew (env : Env) (config : Config) (h : s.Sound) (sub : Subscription) :
    ({ s with
        world := (transaction (EconomyLab.renew env config sub) s.world).2
        renewed := s.renewed ++ [⟨sub, s.world, (transaction (EconomyLab.renew env config sub) s.world).1,
          (transaction (EconomyLab.renew env config sub) s.world).2⟩] } : Billing).Sound := by
  obtain ⟨hsettled, hcharged, hkept⟩ := transaction_renew env config sub h.settled
  have hkeeps : ∀ key, (s.world.idempotency.rows.committed.get key).isSome →
      ((transaction (EconomyLab.renew env config sub) s.world).2.idempotency.rows.committed.get
        key).isSome := by
    intro key hkey
    by_cases hresult : (transaction (EconomyLab.renew env config sub) s.world).1 = .ok .charged
    · obtain ⟨hfree, transaction, hset, -⟩ := (hcharged hresult).charged rfl
      rw [hset]
      have hne : key ≠ renewalKey sub := by
        rintro rfl
        rw [hfree] at hkey
        cases hkey
      rw [Table.get_set_of_ne _ _ hne]
      exact hkey
    · rw [(hkept hresult).2]
      exact hkey
  constructor
  · exact hsettled
  · intro r hr
    rcases List.mem_append.mp hr with hr | hr
    · exact h.bills r hr
    · obtain rfl := List.mem_singleton.mp hr
      constructor
      · intro hresult
        obtain ⟨-, transaction, hset, hposted⟩ := (hcharged hresult).charged rfl
        refine ⟨transaction, ?_, hposted⟩
        simp only [hset]
        exact Table.get_set_self _ _ _
      · exact fun hresult => (hkept hresult).1
  · intro r hr hresult
    rcases List.mem_append.mp hr with hr | hr
    · exact hkeeps _ (h.filed r hr hresult)
    · obtain rfl := List.mem_singleton.mp hr
      obtain ⟨-, transaction, hset, -⟩ := (hcharged hresult).charged rfl
      simp only [hset, Table.get_set_self, Option.isSome_some]
  · refine List.pairwise_append.mpr ⟨h.once, List.pairwise_singleton _ _, ?_⟩
    intro r hr r' hr' hid hperiod hresult hagain
    obtain rfl := List.mem_singleton.mp hr'
    have hkey : renewalKey r.sub = renewalKey sub := by
      unfold renewalKey
      simp only at hid hperiod
      rw [hid, hperiod]
    have hfiled := h.filed r hr hresult
    rw [hkey, ((hcharged hagain).charged rfl).1] at hfiled
    cases hfiled

theorem Sound.beside (h : s.Sound) {s' : Billing} (hsettled : s'.world.Settled)
    (hrenewed : s'.renewed = s.renewed)
    (hkeys : ∀ key transaction, isReversalKey key = false →
      s.world.idempotency.rows.committed.get key = some transaction →
      s'.world.idempotency.rows.committed.get key = some transaction) : s'.Sound where
  settled := hsettled
  bills := by
    rw [hrenewed]
    exact h.bills
  filed r hr hresult := by
    rw [hrenewed] at hr
    obtain ⟨transaction, hfiled⟩ := Option.isSome_iff_exists.mp (h.filed r hr hresult)
    rw [hkeys _ transaction (renewalKey_fresh r.sub) hfiled]
    rfl
  once := by
    rw [hrenewed]
    exact h.once

variable (ports : Ports) (env : Env) (config : Config)

theorem step_sound (h : s.Sound) (event : BillingEvent) : (step ports env config s event).Sound := by
  cases event with
  | submit operation now =>
    refine h.beside (submit_keepsGrants ports env config operation now h.settled).1 rfl ?_
    intro key transaction hkey hfiled
    exact submit_keepsKey h.settled hkey hfiled
  | claim now limit => exact h.beside h.settled rfl fun _ _ _ hfiled => hfiled
  | renew n =>
    simp only [step]
    cases s.claimed[n]? with
    | none => exact h
    | some sub => exact h.renew env config sub
  | settle n =>
    simp only [step]
    cases s.renewed[n]? with
    | none => exact h
    | some r =>
      obtain ⟨hsettled, hkeys⟩ := settle_settled env r.sub (billOutcome config r.sub r.result) h.settled
      refine h.beside hsettled rfl ?_
      intro key transaction _ hfiled
      rw [← hfiled]
      exact congrArg (fun committed => Table.get committed key) hkeys

theorem run_sound (h : s.Sound) (events : List BillingEvent) : (run ports env config events s).Sound := by
  induction events generalizing s with
  | nil => exact h
  | cons event events ih => exact ih (step_sound ports env config h event)

/-- However sweeps, retries, lapses and other submits interleave, and however old the rows are that they
work from: a period of a subscription is charged once at most, each charge is one posting filed under the
key of its period, and a renewal that charges nothing leaves the ledger as it was. -/
theorem renewals_charge_once {w : World} (h : w.Settled) (events : List BillingEvent) :
    (∀ r ∈ (run ports env config events (start w)).renewed, r.Bills) ∧
    (run ports env config events (start w)).renewed.Pairwise fun r r' =>
      r.sub.id = r'.sub.id → r.sub.period = r'.sub.period → r.result = .ok .charged →
        r'.result ≠ .ok .charged := by
  have hstart : (start w).Sound := by
    refine ⟨h, ?_, ?_, List.Pairwise.nil⟩
    · intro r hr
      cases hr
    · intro r hr
      cases hr
  have hrun := run_sound ports env config hstart events
  exact ⟨hrun.bills, hrun.once⟩

def claimedTwice : List BillingEvent :=
  [.submit (issueTen "a") 0, .submit
    (.subscribe ⟨"k2", .user "a", "a", "b", "pass", ⟨.credit, 5, .five⟩, 10⟩) 0,
    .claim 10 5, .claim 10 5, .renew 0, .renew 1, .settle 1]

theorem renewals_charge_once_twice :
    ((run parPorts tickEnv twoShards claimedTwice (start World.empty)).renewed.map fun r => r.result) =
      [.ok .charged, .ok .lost] ∧
    (∀ r ∈ (run parPorts tickEnv twoShards claimedTwice (start World.empty)).renewed, r.Bills) ∧
    (run parPorts tickEnv twoShards claimedTwice (start World.empty)).renewed.Pairwise fun r r' =>
      r.sub.id = r'.sub.id → r.sub.period = r'.sub.period → r.result = .ok .charged →
        r'.result ≠ .ok .charged :=
  ⟨by
    decide +kernel, renewals_charge_once parPorts tickEnv twoShards ⟨World.empty_closed, World.empty_sound⟩
    _⟩

/-- The rows left of a sweep are renewed and settled one after another. -/
theorem billAll_is_run (subs : List Subscription) (tally : SweepSummary) (s : Billing)
    (before : List Subscription) (hclaimed : s.claimed = before ++ subs) :
    ∃ events, (subs.foldl (fun s sub => billOne env config sub s) (tally, s.world)).2 =
      (run ports env config events s).world := by
  induction subs generalizing tally s before with
  | nil => exact ⟨[], rfl⟩
  | cons sub subs ih =>
    have hsub : s.claimed[before.length]? = some sub := by
      rw [hclaimed, List.getElem?_append_right (Nat.le_refl _), Nat.sub_self]
      rfl
    have hrenew : step ports env config s (.renew before.length) =
        { s with
          world := (transaction (EconomyLab.renew env config sub) s.world).2
          renewed := s.renewed ++ [⟨sub, s.world,
            (transaction (EconomyLab.renew env config sub) s.world).1,
            (transaction (EconomyLab.renew env config sub) s.world).2⟩] } := by
      simp only [step, hsub]
    have hsettle : step ports env config (step ports env config s (.renew before.length))
      (.settle s.renewed.length) =
        { step ports env config s (.renew before.length) with
          world := (billOne env config sub (tally, s.world)).2 } := by
      rw [hrenew]
      simp only [step, List.getElem?_append_right (Nat.le_refl _), Nat.sub_self, List.getElem?_cons_zero]
      rfl
    have hrest : (step ports env config (step ports env config s (.renew before.length))
        (.settle s.renewed.length)).claimed = (before ++ [sub]) ++ subs := by
      rw [hsettle, hrenew, List.append_assoc]
      exact hclaimed
    obtain ⟨events, hrun⟩ := ih (billOne env config sub (tally, s.world)).1 _ _ hrest
    refine ⟨.renew before.length :: .settle s.renewed.length :: events, ?_⟩
    simp only [run, List.foldl_cons] at hrun ⊢
    rw [← hrun, hsettle]

/-- A sweep is a claim, and then a renewal and a write for each row it claimed. -/
theorem sweepDueSubscriptions_is_run (now : Int) (limit : Nat) (s : Billing) :
    ∃ events, (sweepDueSubscriptions env config now limit s.world).2 =
      (run ports env config events s).world := by
  obtain ⟨events, hrun⟩ := billAll_is_run ports env config
    (claimDueSubscriptions s.world.subscriptions.rows now limit) ⟨[], [], [], []⟩
    (step ports env config s (.claim now limit)) s.claimed rfl
  exact ⟨.claim now limit :: events, hrun⟩

end Billing

end EconomyLab
