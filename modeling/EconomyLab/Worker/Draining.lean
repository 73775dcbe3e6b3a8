import Mathlib.Algebra.Order.BigOperators.Group.List
import EconomyLab.Economy.Locking
import EconomyLab.Netting.Posting
import EconomyLab.Worker.Accrual

/-!
# What a drain does

A drain that settles pays out what it marks, to the minor unit. It pays the debt that it
claimed before it credits earnings, but shares are claimed first, and the debt that the limit
cuts off is paid by none of them.
-/

namespace EconomyLab

open Foundation

/-- What consuming rows of debt comes to. -/
structure Recovers (negatives : List AccrualRow) (remaining : Int) (recovery : Recovery) : Prop where
  amount : recovery.recoveredMinor = min remaining (-minorOf negatives)
  exact_ : -minorOf recovery.consumed =
    recovery.recoveredMinor + (recovery.residual.map fun residual => -residual.amount.minor).getD 0
  split : ∃ rest, negatives = recovery.consumed ++ rest ∧
    (recovery.recoveredMinor < remaining → rest = [] ∧ recovery.residual = none)
  residual : ∀ residual, recovery.residual = some residual → residual.amount.minor < 0 ∧
    ∃ row ∈ recovery.consumed, residual.orderId = row.orderId ∧ residual.sellerId = row.sellerId ∧
      residual.seq = row.seq + 1

theorem minorOf_cons (row : AccrualRow) (rows : List AccrualRow) :
    minorOf (row :: rows) = row.amount.minor + minorOf rows := List.sum_cons

variable {rows : List AccrualRow} {sellerId : String} {w w' : World} {row : AccrualRow}

theorem minorOf_nonpos (h : ∀ row ∈ rows, row.amount.minor < 0) : minorOf rows ≤ 0 := by
  induction rows with
  | nil => exact le_refl 0
  | cons row rows ih =>
    have hrow := h row List.mem_cons_self
    have hrest := ih fun r hr => h r (List.mem_cons_of_mem _ hr)
    rw [minorOf_cons]
    omega

theorem consumeRecovery_eq {negatives : List AccrualRow} (h : ∀ row ∈ negatives, row.amount.minor < 0)
    {remaining : Int} (hremaining : 0 ≤ remaining) :
    ∃ recovery, consumeRecovery negatives remaining = .ok recovery ∧
      Recovers negatives remaining recovery := by
  induction negatives generalizing remaining with
  | nil =>
    refine ⟨⟨0, [], none⟩, rfl, ⟨?_, rfl, ⟨[], rfl, fun _ => ⟨rfl, rfl⟩⟩, fun _ hnone => by cases hnone⟩⟩
    exact (min_eq_right hremaining).symm
  | cons row rows ih =>
    have hrow := h row List.mem_cons_self
    have hrows : ∀ r ∈ rows, r.amount.minor < 0 := fun r hr => h r (List.mem_cons_of_mem _ hr)
    have hsum := minorOf_nonpos hrows
    unfold consumeRecovery
    by_cases hnone : remaining = 0
    · refine ⟨⟨0, [], none⟩, if_pos hnone, ⟨?_, rfl, ⟨row :: rows, rfl, ?_⟩,
        fun _ hresidual => by cases hresidual⟩⟩
      · rw [minorOf_cons]
        simp only
        omega
      · intro hlt
        exact absurd hlt (by simp only [hnone]; omega)
    · rw [if_neg hnone]
      by_cases hwhole : -row.amount.minor ≤ remaining
      · obtain ⟨rest, hrest, hrecovers⟩ := @ih hrows (remaining - -row.amount.minor) (by omega)
        refine ⟨⟨-row.amount.minor + rest.recoveredMinor, row :: rest.consumed, rest.residual⟩, ?_, ?_⟩
        · rw [if_pos hwhole, hrest]
          rfl
        · obtain ⟨later, hlater, hall⟩ := hrecovers.split
          refine ⟨?_, ?_, ⟨later, ?_, ?_⟩, ?_⟩
          · have hamount := hrecovers.amount
            rw [minorOf_cons]
            simp only
            omega
          · have hexact := hrecovers.exact_
            rw [minorOf_cons]
            simp only
            omega
          · exact congrArg (List.cons row) hlater
          · intro hlt
            apply hall
            simp only at hlt
            omega
          · intro residual hresidual
            obtain ⟨hnegative, first, hfirst, hsame⟩ := hrecovers.residual residual hresidual
            exact ⟨hnegative, first, List.mem_cons_of_mem _ hfirst, hsame⟩
      · have hrange := row.amount.inRange
        have hfits : I64 (-(-row.amount.minor - remaining)) := by
          unfold I64 at hrange ⊢
          omega
        refine ⟨⟨remaining, [row], some ⟨row.orderId, row.sellerId, row.seq + 1,
          ⟨.credit, -(-row.amount.minor - remaining), hfits⟩, row.shard⟩⟩, ?_, ?_⟩
        · rw [if_neg hwhole, toAmount_ok hfits]
          rfl
        · refine ⟨?_, ?_, ⟨rows, rfl, fun hlt => absurd hlt (lt_irrefl _)⟩, ?_⟩
          · rw [minorOf_cons]
            simp only
            omega
          · have hsingle : minorOf [row] = row.amount.minor := Int.add_zero _
            simp only [hsingle, Option.map_some, Option.getD_some]
            omega
          · intro residual hresidual
            cases hresidual
            refine ⟨?_, row, List.mem_singleton.mpr rfl, rfl, rfl, rfl⟩
            simp only
            omega

def creditedTo (legs : List Leg) (account : AccountRef) : Int :=
  ((legs.filter fun leg => leg.account = account && leg.amount.minor < 0).map fun leg =>
    -leg.amount.minor).sum

theorem creditedTo_append (legs later : List Leg) (account : AccountRef) :
    creditedTo (legs ++ later) account = creditedTo legs account + creditedTo later account := by
  simp only [creditedTo, List.filter_append, List.map_append, List.sum_append]

variable {env : Env} {legs : List Leg} {now : Int} {u : Unit} {limit : Nat}

theorem creditedTo_debits (h : ∀ leg ∈ legs, 0 ≤ leg.amount.minor) (account : AccountRef) :
    creditedTo legs account = 0 := by
  have hnone : legs.filter (fun leg => leg.account = account && leg.amount.minor < 0) = [] := by
    apply List.filter_eq_nil_iff.mpr
    intro leg hleg
    have hnonneg := h leg hleg
    simp only [Bool.and_eq_true, decide_eq_true_eq, not_and]
    omega
  rw [creditedTo, hnone]
  rfl

theorem creditedTo_dropZero (legs : List Leg) (account : AccountRef) :
    creditedTo (legs.filter (·.amount.minor ≠ 0)) account = creditedTo legs account := by
  unfold creditedTo
  rw [List.filter_filter]
  congr 2
  apply List.filter_congr
  intro leg _
  by_cases hnegative : leg.amount.minor < 0
  · have hsome : leg.amount.minor ≠ 0 := by omega
    simp only [hnegative, hsome, decide_true, Bool.and_true, ne_eq, not_false_eq_true]
  · simp only [hnegative, decide_false, Bool.and_false, Bool.false_and]

theorem creditSome_credits {account : AccountRef} {minor : Int}
    (h : creditSome account minor = .ok legs) (a : AccountRef) :
    creditedTo legs a = if account = a then max 0 minor else 0 := by
  unfold creditSome at h
  split at h
  · rename_i hpositive
    obtain ⟨amount, hamount, h⟩ := except_bind_ok.mp h
    obtain ⟨leg, hleg, h⟩ := except_bind_ok.mp h
    obtain rfl := except_pure_ok.mp h
    obtain ⟨haccount, hminor⟩ := credit_ok hleg
    have hwhole := (toAmount_eq_ok.mp hamount).2
    have hnegative : leg.amount.minor < 0 := by omega
    unfold creditedTo
    by_cases hsame : account = a
    · have hhere : leg.account = a := haccount.trans hsame
      simp only [List.filter_cons, hhere, hnegative, decide_true, Bool.and_true, if_true, List.filter_nil,
        List.map_cons, List.map_nil, List.sum_cons, List.sum_nil, if_pos hsame]
      omega
    · have hother : leg.account ≠ a := fun heq => hsame (haccount.symm.trans heq)
      simp only [List.filter_cons, hother, decide_false, Bool.false_and, Bool.false_eq_true, if_false,
        List.filter_nil, List.map_nil, List.sum_nil, if_neg hsame]
  · rename_i hnone
    cases h
    have hzero : max 0 minor = 0 := by omega
    rw [hzero, ite_self]
    rfl

theorem drainLegs_credits {positives : List AccrualRow} {earnedMinor recoveredMinor : Int}
    (hpositives : ∀ row ∈ positives, 0 < row.amount.minor)
    (h : drainLegs sellerId positives earnedMinor recoveredMinor = .ok legs) :
    creditedTo legs (earned sellerId) = max 0 earnedMinor ∧
      creditedTo legs SYSTEM.RECEIVABLE = max 0 recoveredMinor := by
  obtain ⟨parked, hparked, h⟩ := except_bind_ok.mp h
  obtain ⟨paid, hpaid, h⟩ := except_bind_ok.mp h
  obtain ⟨repaid, hrepaid, h⟩ := except_bind_ok.mp h
  obtain rfl := except_pure_ok.mp h
  have hdebits : ∀ leg ∈ parked, 0 ≤ leg.amount.minor := by
    intro leg hleg
    obtain ⟨⟨shard, minor⟩, hshare, hline⟩ := mem_mapM_ok hparked leg hleg
    obtain ⟨amount, hamount, hline⟩ := except_bind_ok.mp hline
    obtain rfl := except_pure_ok.mp hline
    have hminor : amount.minor = minor := (toAmount_eq_ok.mp hamount).2
    have htotal := (mem_tally.mp hshare).2
    have hnonneg : 0 ≤ total (positives.map fun row => (row.shard, row.amount.minor)) shard := by
      apply List.sum_nonneg
      intro x hx
      obtain ⟨entry, hentry, rfl⟩ := List.mem_map.mp hx
      obtain ⟨row, hrow, rfl⟩ := List.mem_map.mp (List.mem_filter.mp hentry).1
      exact (hpositives row hrow).le
    change 0 ≤ amount.minor
    omega
  have hearned : earned sellerId ≠ SYSTEM.RECEIVABLE := (system_ne_wallet (by
    decide) sellerId .earned).symm
  rw [creditedTo_append, creditedTo_append, creditedTo_append, creditedTo_append,
    creditedTo_debits hdebits,
    creditedTo_debits hdebits, creditSome_credits hpaid, creditSome_credits hpaid,
      creditSome_credits hrepaid,
    creditSome_credits hrepaid, if_pos rfl, if_pos rfl, if_neg hearned, if_neg hearned.symm]
  omega

def postedSince (w w' : World) : List Leg := legsOf (w'.ledger.tables.log.drop w.ledger.tables.log.length)

inductive PostsDrain (env : Env) (rows : List AccrualRow) (plan : DrainPlan) (w w' : World) : Prop
  | made (fresh : w.ledger.tables.findPosting (drainTxnId env.digest rows) = none)
      (posted : postedSince w w' = plan.legs.filter (·.amount.minor ≠ 0))
  | found (filed : (w.ledger.tables.findPosting (drainTxnId env.digest rows)).isSome = true)
      (posted : postedSince w w' = [])

theorem postDrain_cases {plan : DrainPlan}
    (h : (postDrain env sellerId rows plan).run w = (.ok u, w')) :
    ((w.ledger.tables.findPosting (drainTxnId env.digest rows)).isSome = true ∧ w' = w) ∨
      (w.ledger.tables.findPosting (drainTxnId env.digest rows) = none ∧
        ∃ transaction, (Work.postEntry env ⟨drainTxnId env.digest rows, plan.legs,
          drainMeta sellerId rows plan.recovery⟩).txn.run w = (.ok transaction, w')) := by
  obtain ⟨existing, w₁, hexisting, h⟩ := Txn.bind_ok h
  obtain rfl : w = w₁ := congrArg Prod.snd hexisting
  obtain rfl : w.ledger.tables.findPosting (drainTxnId env.digest rows) = existing :=
    Except.ok.inj (congrArg Prod.fst hexisting)
  by_cases hfiled : (w.ledger.tables.findPosting (drainTxnId env.digest rows)).isSome = true
  · rw [if_pos hfiled] at h
    exact .inl ⟨hfiled, (congrArg Prod.snd h).symm⟩
  · rw [if_neg hfiled] at h
    obtain ⟨transaction, w₂, hposted, h⟩ := Txn.bind_ok h
    obtain rfl : w₂ = w' := congrArg Prod.snd h
    exact .inr ⟨Option.not_isSome_iff_eq_none.mp hfiled, transaction, hposted⟩

theorem postDrain_posts {plan : DrainPlan}
    (h : (postDrain env sellerId rows plan).run w = (.ok u, w')) :
    PostsDrain env rows plan w w' ∧ w'.accruals = w.accruals := by
  rcases postDrain_cases h with ⟨hfiled, rfl⟩ | ⟨hfresh, transaction, hposted⟩
  · refine ⟨.found hfiled ?_, rfl⟩
    rw [postedSince, List.drop_length]
    rfl
  · obtain ⟨row, hrow, -, -, hlog, -⟩ := postEntry_posted hposted
    refine ⟨.made hfresh ?_, congrArg (fun r => r.2.accruals) hposted.symm⟩
    rw [postedSince, hlog, List.drop_left]
    have hlegs : row.legs = plan.legs.filter (·.amount.minor ≠ 0) := congrArg Posting.legs hrow
    rw [← hlegs]
    exact List.append_nil _

/-- The rows after a drain: what was marked, and the residual at the end. -/
def settledRows (claimed : List AccrualRow) (recovery : Recovery) (txnId : String) (now : Int)
    (rows : List AccrualRow) : List AccrualRow :=
  rows.map (AccrualTables.settledRow ((sharesOf claimed ++ recovery.consumed).map AccrualRow.key)
    .drained txnId) ++
    (recovery.residual.map fun residual => residual.row txnId now).toList

theorem settleRows_settles {claimed : List AccrualRow} {recovery : Recovery} {txnId : String}
    (hfiled : w.accruals.rows.Filed) (h : (settleRows claimed recovery txnId now).run w = (.ok u, w')) :
    w'.ledger = w.ledger ∧ w'.accruals.rows.Filed ∧
      w'.accruals.rows.listed = settledRows claimed recovery txnId now w.accruals.rows.listed := by
  obtain ⟨_, w₁, hmarked, h⟩ := Txn.bind_ok h
  have hkeys : ((sharesOf claimed ++ recovery.consumed).map AccrualRow.place).map
      (fun key => accrualKey key.1 key.2.1 key.2.2) = (sharesOf claimed ++ recovery.consumed).map
        AccrualRow.key := by
    rw [List.map_map]
    rfl
  have hmark := AccrualTables.mark_listed (by decide : AccrualStatus.drained ≠ .pending) txnId
    ((sharesOf claimed ++ recovery.consumed).map AccrualRow.place) hfiled
  rw [hkeys] at hmark
  have hrows : w₁.accruals = (AccrualWrite.mark
    ((sharesOf claimed ++ recovery.consumed).map AccrualRow.place)
      .drained txnId).run w.accruals := congrArg (fun r => r.2.accruals) hmarked.symm
  have hledger : w₁.ledger = w.ledger := congrArg (fun r => r.2.ledger) hmarked.symm
  rw [← hrows] at hmark
  obtain ⟨hfiled₁, hlisted₁⟩ := hmark
  unfold settledRows
  cases hresidual : recovery.residual with
  | none =>
    rw [hresidual] at h
    obtain rfl : w₁ = w' := congrArg Prod.snd h
    refine ⟨hledger, hfiled₁, hlisted₁.trans ?_⟩
    exact (List.append_nil _).symm
  | some residual =>
    rw [hresidual] at h
    have hput : w'.accruals = AccrualTables.put [residual.row txnId now] w₁.accruals :=
      congrArg (fun r => r.2.accruals) h.symm
    have hanswer := congrArg Prod.fst h
    have hfree : w₁.accruals.rows.rows.get (residual.row txnId now).key = none := by
      cases hget : w₁.accruals.rows.rows.get (residual.row txnId now).key with
      | none => rfl
      | some taken =>
        have hhas : w₁.accruals.rows.rows.has (residual.row txnId now).key = true := by
          rw [OrderedTable.has, hget]
          rfl
        simp only [Txn.putAccruals, Txn.firstTaken, hhas, if_true] at hanswer
        cases hanswer
    have hledger' : w'.ledger = w₁.ledger := congrArg (fun r => r.2.ledger) h.symm
    refine ⟨hledger'.trans hledger, ?_, ?_⟩
    · rw [hput]
      exact AccrualTables.put_filed _ hfiled₁
    · rw [hput, AccrualTables.putOne_listed hfiled₁ hfree, hlisted₁]
      rfl

structure Settles (env : Env) (sellerId : String) (now : Int) (limit : Nat) (w w' : World)
    (settled : Drained) (plan : DrainPlan) : Prop where
  provable : assertRowsProvable env.digest w.ledger.tables
    (claimSellerPending w.accruals.rows.listed sellerId limit) = .ok ()
  some_shares : sharesOf (claimSellerPending w.accruals.rows.listed sellerId limit) ≠ []
  planned : planDrain sellerId (claimSellerPending w.accruals.rows.listed sellerId limit) = .ok plan
  posts : PostsDrain env (claimSellerPending w.accruals.rows.listed sellerId limit) plan w w'
  filed : w'.accruals.rows.Filed
  listed : w'.accruals.rows.listed = settledRows (claimSellerPending w.accruals.rows.listed sellerId limit)
    plan.recovery
    (drainTxnId env.digest (claimSellerPending w.accruals.rows.listed sellerId limit)) now
      w.accruals.rows.listed
  reports : settled = ⟨sellerId, drainTxnId env.digest
    (claimSellerPending w.accruals.rows.listed sellerId limit),
    minorOf (sharesOf (claimSellerPending w.accruals.rows.listed sellerId
      limit)) - plan.recovery.recoveredMinor,
    plan.recovery.recoveredMinor⟩

def World.claimedRows (w : World) (sellerId : String) (limit : Nat) : List AccrualRow :=
  claimSellerPending w.accruals.rows.listed sellerId limit

theorem drainSeller_answers {answer : Option Drained}
    (h : (drainSeller env sellerId now limit).run w = (.ok answer, w')) :
    assertRowsProvable env.digest w.ledger.tables (w.claimedRows sellerId limit) = .ok () ∧
      ((answer = none ∧ w' = w) ∨ ∃ plan w₁, sharesOf (w.claimedRows sellerId limit) ≠ [] ∧
        planDrain sellerId (w.claimedRows sellerId limit) = .ok plan ∧
        (postDrain env sellerId (w.claimedRows sellerId limit) plan).run w = (.ok (), w₁) ∧
        (settleRows (w.claimedRows sellerId limit) plan.recovery
          (drainTxnId env.digest (w.claimedRows sellerId limit)) now).run w₁ = (.ok (), w') ∧
        answer = some ⟨sellerId, drainTxnId env.digest (w.claimedRows sellerId limit),
          minorOf (sharesOf (w.claimedRows sellerId limit)) - plan.recovery.recoveredMinor,
          plan.recovery.recoveredMinor⟩) := by
  obtain ⟨claimed, w₁, hclaimed, h⟩ := Txn.bind_ok h
  obtain rfl : w.claimedRows sellerId limit = claimed := Except.ok.inj (congrArg Prod.fst hclaimed)
  obtain rfl : w = w₁ := congrArg Prod.snd hclaimed
  obtain ⟨_, w₂, hprovable, h⟩ := Txn.bind_ok h
  obtain rfl : w = w₂ := congrArg Prod.snd hprovable
  refine ⟨congrArg Prod.fst hprovable, ?_⟩
  by_cases hnone : sharesOf (w.claimedRows sellerId limit) = []
  · rw [if_pos hnone] at h
    exact .inl ⟨(Except.ok.inj (congrArg Prod.fst h)).symm, (congrArg Prod.snd h).symm⟩
  · rw [if_neg hnone] at h
    obtain ⟨plan, w₃, hplan, h⟩ := Txn.bind_ok h
    obtain rfl : w = w₃ := congrArg Prod.snd hplan
    obtain ⟨_, w₄, hposted, h⟩ := Txn.bind_ok h
    obtain ⟨_, w₅, hsettled, h⟩ := Txn.bind_ok h
    obtain rfl : w₅ = w' := congrArg Prod.snd h
    exact .inr ⟨plan, w₄, hnone, congrArg Prod.fst hplan, hposted, hsettled,
      (Except.ok.inj (congrArg Prod.fst h)).symm⟩

theorem drainSeller_settles {settled : Drained} (hfiled : w.accruals.rows.Filed)
    (h : (drainSeller env sellerId now limit).run w = (.ok (some settled), w')) :
    ∃ plan, Settles env sellerId now limit w w' settled plan := by
  obtain ⟨hprovable, ⟨hanswer, -⟩ | ⟨plan, w₁, hshares, hplan, hposted, hsettled, hanswer⟩⟩ :=
    drainSeller_answers h
  · cases hanswer
  · obtain ⟨hposts, hsame⟩ := postDrain_posts hposted
    obtain ⟨hledger, hfiled', hlisted⟩ := settleRows_settles (hsame ▸ hfiled) hsettled
    have hsince : postedSince w w' = postedSince w w₁ := by
      rw [postedSince, hledger]
      rfl
    refine ⟨plan, hprovable, hshares, hplan, ?_, hfiled', ?_, Option.some.inj hanswer⟩
    · cases hposts with
      | made hfresh hlegs => exact .made hfresh (hsince.trans hlegs)
      | found hfound hlegs => exact .found hfound (hsince.trans hlegs)
    · rw [hlisted, hsame]
      rfl

theorem mem_sharesOf : row ∈ sharesOf rows ↔ row ∈ rows ∧ 0 < row.amount.minor := by
  simp only [sharesOf, List.mem_filter, decide_eq_true_eq]

theorem mem_debtsOf : row ∈ debtsOf rows ↔ row ∈ rows ∧ row.amount.minor < 0 := by
  simp only [debtsOf, List.mem_filter, decide_eq_true_eq]

theorem mem_pendingRows :
    row ∈ pendingRows rows sellerId ↔ row ∈ rows ∧ row.sellerId = sellerId ∧ row.status = .pending := by
  simp only [pendingRows, List.mem_filter, Bool.and_eq_true, decide_eq_true_eq]

/-- The pending rows of a seller in the order they are claimed in. -/
def claimOrder (rows : List AccrualRow) (sellerId : String) : List AccrualRow :=
  sharesOf (pendingRows rows sellerId) ++ debtsOf (pendingRows rows sellerId)

/-- The pending rows of a seller that the limit cuts off. -/
def unclaimed (rows : List AccrualRow) (sellerId : String) (limit : Nat) : List AccrualRow :=
  (claimOrder rows sellerId).drop limit

theorem claimed_append_unclaimed (rows : List AccrualRow) (sellerId : String) (limit : Nat) :
    claimSellerPending rows sellerId limit ++ unclaimed rows sellerId limit = claimOrder rows sellerId :=
  List.take_append_drop limit _

theorem mem_claimOrder :
    row ∈ claimOrder rows sellerId ↔ row ∈ pendingRows rows sellerId ∧ row.amount.minor ≠ 0 := by
  rw [claimOrder, List.mem_append, mem_sharesOf, mem_debtsOf, ← and_or_left]
  apply and_congr_right
  intro _
  omega

theorem nodup_claimOrder (h : rows.Nodup) (sellerId : String) : (claimOrder rows sellerId).Nodup := by
  have hpending : (pendingRows rows sellerId).Nodup := h.filter _
  apply List.nodup_append.mpr
  refine ⟨hpending.filter _, hpending.filter _, ?_⟩
  rintro row hshare _ hdebt rfl
  have hpositive := (mem_sharesOf.mp hshare).2
  have hnegative := (mem_debtsOf.mp hdebt).2
  omega

theorem mem_claimed (h : row ∈ claimSellerPending rows sellerId limit) :
    row ∈ rows ∧ row.sellerId = sellerId ∧ row.status = .pending :=
  mem_pendingRows.mp (mem_claimOrder.mp (List.mem_of_mem_take h)).1

def AccrualRow.drainedBy (row : AccrualRow) (txnId : String) : AccrualRow :=
  { row with status := .drained, settledTxnId := some txnId }

/-! ## Debt before earnings -/

/-- Debt is repaid before earnings, and all that a drain moves adds up. -/
structure RepaysFirst (sellerId : String) (limit : Nat) (w w' : World) (settled : Drained) : Prop where
  debt_first : 0 < creditedTo (postedSince w w') (earned sellerId) →
    debtsOf (pendingRows w'.accruals.rows.listed sellerId) = []
  paid : creditedTo (postedSince w w') (earned sellerId) + creditedTo (postedSince w w')
    SYSTEM.RECEIVABLE =
    minorOf (sharesOf (claimSellerPending w.accruals.rows.listed sellerId limit))
  shares : ∀ row ∈ sharesOf (claimSellerPending w.accruals.rows.listed sellerId limit),
    row.drainedBy settled.txnId ∈ w'.accruals.rows.listed
  debts : ∃ consumed rest residual, debtsOf (claimSellerPending w.accruals.rows.listed sellerId limit) =
    consumed ++ rest ∧
    (∀ row ∈ consumed, row.drainedBy settled.txnId ∈ w'.accruals.rows.listed) ∧
    (∀ row ∈ rest, row ∈ w'.accruals.rows.listed) ∧ residual.length ≤ 1 ∧
    (∀ row ∈ residual, row ∈ pendingRows w'.accruals.rows.listed sellerId ∧ row.amount.minor < 0) ∧
    -minorOf consumed = creditedTo (postedSince w w') SYSTEM.RECEIVABLE + -minorOf residual

/-- Nothing is filed under the id of the drain, and the limit cuts off no debt, or the debt that was
claimed takes all of the shares. -/
structure DebtCovered (env : Env) (sellerId : String) (limit : Nat) (w : World) : Prop where
  fresh : w.ledger.tables.findPosting
    (drainTxnId env.digest (claimSellerPending w.accruals.rows.listed sellerId limit)) = none
  covered : debtsOf (unclaimed w.accruals.rows.listed sellerId limit) = [] ∨
    minorOf (sharesOf (claimSellerPending w.accruals.rows.listed sellerId limit)) ≤
      -minorOf (debtsOf (claimSellerPending w.accruals.rows.listed sellerId limit))

section Settled

variable {env : Env} {sellerId : String} {now : Int} {limit : Nat} {w w' : World} {settled : Drained}
  {plan : DrainPlan}

theorem sharesOf_pos : ∀ row ∈ sharesOf rows, 0 < row.amount.minor :=
  fun _ hrow => (mem_sharesOf.mp hrow).2

theorem minorOf_pos (hsome : rows ≠ []) (h : ∀ row ∈ rows, 0 < row.amount.minor) :
    0 < minorOf rows := by
  induction rows with
  | nil => exact absurd rfl hsome
  | cons row rows ih =>
    have hrow := h row List.mem_cons_self
    rw [minorOf_cons]
    by_cases hrest : rows = []
    · rw [hrest]
      change 0 < row.amount.minor + 0
      omega
    · have hpositive := ih hrest fun r hr => h r (List.mem_cons_of_mem _ hr)
      omega

theorem Settles.recovers (h : Settles env sellerId now limit w w' settled plan) :
    Recovers (debtsOf (claimSellerPending w.accruals.rows.listed sellerId limit))
      (minorOf (sharesOf (claimSellerPending w.accruals.rows.listed sellerId limit))) plan.recovery := by
  have hnegative : ∀ row ∈ debtsOf (claimSellerPending w.accruals.rows.listed sellerId limit),
    row.amount.minor < 0 :=
    fun row hrow => (mem_debtsOf.mp hrow).2
  have hparked := minorOf_pos h.some_shares sharesOf_pos
  obtain ⟨recovery, hrecovery, hrecovers⟩ := consumeRecovery_eq hnegative hparked.le
  obtain ⟨recovery', hrecovery', hplan⟩ := except_bind_ok.mp h.planned
  obtain ⟨legs, -, hplan⟩ := except_bind_ok.mp hplan
  obtain rfl := except_pure_ok.mp hplan
  obtain rfl : recovery = recovery' := Except.ok.inj (hrecovery.symm.trans hrecovery')
  exact hrecovers

theorem Settles.credits (h : Settles env sellerId now limit w w' settled plan)
    (hposted : postedSince w w' = plan.legs.filter (·.amount.minor ≠ 0)) :
    creditedTo (postedSince w w') (earned sellerId) =
      minorOf (sharesOf (claimSellerPending w.accruals.rows.listed sellerId
        limit)) - plan.recovery.recoveredMinor ∧
    creditedTo (postedSince w w') SYSTEM.RECEIVABLE = plan.recovery.recoveredMinor := by
  have hamount := h.recovers.amount
  have hdebt : minorOf (debtsOf (claimSellerPending w.accruals.rows.listed sellerId limit)) ≤ 0 :=
    minorOf_nonpos fun row hrow => (mem_debtsOf.mp hrow).2
  have hparked := minorOf_pos h.some_shares sharesOf_pos
  obtain ⟨recovery, -, hplan⟩ := except_bind_ok.mp h.planned
  obtain ⟨legs, hlegs, hplan⟩ := except_bind_ok.mp hplan
  obtain rfl := except_pure_ok.mp hplan
  obtain ⟨hearned, hreceivable⟩ := drainLegs_credits sharesOf_pos hlegs
  rw [hposted, creditedTo_dropZero, creditedTo_dropZero, hearned, hreceivable]
  simp only at hamount ⊢
  omega

/-- What is marked is what was claimed, but for the debt that was not reached. -/
theorem Settles.marked (h : Settles env sellerId now limit w w' settled plan)
    (hrow : row ∈ sharesOf (claimSellerPending w.accruals.rows.listed sellerId limit) ++
      plan.recovery.consumed) :
    row ∈ claimSellerPending w.accruals.rows.listed sellerId limit := by
  obtain ⟨rest, hrest, -⟩ := h.recovers.split
  rcases List.mem_append.mp hrow with hrow | hrow
  · exact (mem_sharesOf.mp hrow).1
  · have hdebt : row ∈ debtsOf (claimSellerPending w.accruals.rows.listed sellerId limit) := by
      rw [hrest]
      exact List.mem_append_left _ hrow
    exact (mem_debtsOf.mp hdebt).1

theorem Settles.drained (h : Settles env sellerId now limit w w' settled plan)
    (hrow : row ∈ sharesOf (claimSellerPending w.accruals.rows.listed sellerId limit) ++
      plan.recovery.consumed) :
    row.drainedBy settled.txnId ∈ w'.accruals.rows.listed := by
  obtain ⟨hlisted, -, hpending⟩ := mem_claimed (h.marked hrow)
  rw [h.listed, h.reports]
  apply List.mem_append_left
  apply List.mem_map.mpr
  exact ⟨row, hlisted, if_pos ⟨List.mem_map_of_mem hrow, hpending⟩⟩

theorem Settles.kept (hfiled : w.accruals.rows.Filed)
    (h : Settles env sellerId now limit w w' settled plan)
    (hlisted : row ∈ w.accruals.rows.listed)
    (hrow : row ∉ sharesOf (claimSellerPending w.accruals.rows.listed sellerId limit) ++
      plan.recovery.consumed) :
    row ∈ w'.accruals.rows.listed := by
  rw [h.listed]
  apply List.mem_append_left
  apply List.mem_map.mpr
  refine ⟨row, hlisted, if_neg ?_⟩
  rintro ⟨hkey, -⟩
  obtain ⟨marked, hmarked, hsame⟩ := List.mem_map.mp hkey
  have hfound := (mem_claimed (h.marked hmarked)).1
  exact hrow (hfiled.eq_of_key hfound hlisted hsame ▸ hmarked)

/-- A pending row after the drain was pending before it, and was not marked, or it is the residual. -/
theorem Settles.pending (h : Settles env sellerId now limit w w' settled plan)
    (hrow : row ∈ pendingRows w'.accruals.rows.listed sellerId) :
    (row ∈ pendingRows w.accruals.rows.listed sellerId ∧
      row ∉ sharesOf (claimSellerPending w.accruals.rows.listed sellerId limit) ++
        plan.recovery.consumed) ∨
    plan.recovery.residual.isSome = true := by
  obtain ⟨hlisted, hseller, hpending⟩ := mem_pendingRows.mp hrow
  rw [h.listed] at hlisted
  rcases List.mem_append.mp hlisted with hlisted | hlisted
  · left
    obtain ⟨before, hbefore, rfl⟩ := List.mem_map.mp hlisted
    unfold AccrualTables.settledRow at hpending hseller ⊢
    split at hpending
    · cases hpending
    · rename_i hunmarked
      rw [if_neg hunmarked] at hseller ⊢
      refine ⟨mem_pendingRows.mpr ⟨hbefore, hseller, hpending⟩, ?_⟩
      exact fun hmarked => hunmarked ⟨List.mem_map_of_mem hmarked, hpending⟩
  · right
    cases hresidual : plan.recovery.residual with
    | none =>
      rw [hresidual] at hlisted
      exact absurd hlisted List.not_mem_nil
    | some residual => rfl

/-- When earnings are credited, the debt that is left is the debt that the limit cut off. -/
theorem Settles.debt_left (hfiled : w.accruals.rows.Filed)
    (h : Settles env sellerId now limit w w' settled plan)
    (hearned : plan.recovery.recoveredMinor <
      minorOf (sharesOf (claimSellerPending w.accruals.rows.listed sellerId limit))) :
    debtsOf (pendingRows w'.accruals.rows.listed sellerId) = [] ↔
      debtsOf (unclaimed w.accruals.rows.listed sellerId limit) = [] := by
  obtain ⟨rest, hrest, hall⟩ := h.recovers.split
  obtain ⟨rfl, hresidual⟩ := hall hearned
  rw [List.append_nil] at hrest
  have horder := claimed_append_unclaimed w.accruals.rows.listed sellerId limit
  have hnodup := nodup_claimOrder hfiled.nodup_listed sellerId
  rw [← horder] at hnodup
  constructor
  · intro hnone
    apply List.eq_nil_iff_forall_not_mem.mpr
    intro row hrow
    obtain ⟨hunclaimed, hnegative⟩ := mem_debtsOf.mp hrow
    have hpending := (mem_claimOrder.mp (horder ▸ List.mem_append_right _ hunclaimed)).1
    obtain ⟨hlisted, hseller, hstatus⟩ := mem_pendingRows.mp hpending
    have hkept : row ∈ w'.accruals.rows.listed := by
      apply h.kept hfiled hlisted
      intro hmarked
      exact (List.nodup_append.mp hnodup).2.2 row (h.marked hmarked) row hunclaimed rfl
    have hleft : row ∈ debtsOf (pendingRows w'.accruals.rows.listed sellerId) :=
      mem_debtsOf.mpr ⟨mem_pendingRows.mpr ⟨hkept, hseller, hstatus⟩, hnegative⟩
    rw [hnone] at hleft
    exact absurd hleft List.not_mem_nil
  · intro hnone
    apply List.eq_nil_iff_forall_not_mem.mpr
    intro row hrow
    obtain ⟨hpending, hnegative⟩ := mem_debtsOf.mp hrow
    rcases h.pending hpending with ⟨hbefore, hunmarked⟩ | hsome
    · have hordered : row ∈ claimOrder w.accruals.rows.listed sellerId :=
        mem_claimOrder.mpr ⟨hbefore, by omega⟩
      rw [← horder] at hordered
      rcases List.mem_append.mp hordered with hclaimed | hunclaimed
      · apply hunmarked
        apply List.mem_append_right
        rw [← hrest]
        exact mem_debtsOf.mpr ⟨hclaimed, hnegative⟩
      · have hcut : row ∈ debtsOf (unclaimed w.accruals.rows.listed sellerId limit) :=
          mem_debtsOf.mpr ⟨hunclaimed, hnegative⟩
        rw [hnone] at hcut
        exact absurd hcut List.not_mem_nil
    · rw [hresidual] at hsome
      cases hsome

/-- A drain that settles repays debt before earnings exactly when the debt is covered. -/
theorem Settles.repays_iff (hfiled : w.accruals.rows.Filed)
    (h : Settles env sellerId now limit w w' settled plan) :
    RepaysFirst sellerId limit w w' settled ↔ DebtCovered env sellerId limit w := by
  have hparked := minorOf_pos h.some_shares sharesOf_pos
  have hamount := h.recovers.amount
  cases h.posts with
  | found hfound hposted =>
    constructor
    · intro hrepays
      have hpaid := hrepays.paid
      rw [hposted] at hpaid
      change 0 + 0 = _ at hpaid
      omega
    · intro hcovered
      rw [hcovered.fresh] at hfound
      cases hfound
  | made hfresh hposted =>
    obtain ⟨hearned, hreceivable⟩ := h.credits hposted
    have hfirst : (0 < creditedTo (postedSince w w') (earned sellerId) →
        debtsOf (pendingRows w'.accruals.rows.listed sellerId) = []) ↔
        (debtsOf (unclaimed w.accruals.rows.listed sellerId limit) = [] ∨
          minorOf (sharesOf (claimSellerPending w.accruals.rows.listed sellerId limit)) ≤
            -minorOf (debtsOf (claimSellerPending w.accruals.rows.listed sellerId limit))) := by
      rw [hearned]
      by_cases hcredits : plan.recovery.recoveredMinor <
          minorOf (sharesOf (claimSellerPending w.accruals.rows.listed sellerId limit))
      · have hleft := h.debt_left hfiled hcredits
        constructor
        · intro hdebt
          exact Or.inl (hleft.mp (hdebt (by omega)))
        · rintro (hnone | hcovers) _
          · exact hleft.mpr hnone
          · omega
      · exact iff_of_true (fun hpositive => absurd hpositive (by omega)) (Or.inr (by omega))
    constructor
    · intro hrepays
      exact ⟨hfresh, hfirst.mp hrepays.debt_first⟩
    · intro hcovered
      obtain ⟨rest, hrest, hall⟩ := h.recovers.split
      refine ⟨hfirst.mpr hcovered.covered, by
        omega, fun row hrow => h.drained (List.mem_append_left _ hrow),
        plan.recovery.consumed, rest,
        (plan.recovery.residual.map fun residual => residual.row settled.txnId now).toList, hrest,
        fun row hrow => h.drained (List.mem_append_right _ hrow), ?_, ?_, ?_, ?_⟩
      · intro row hrow
        have hnodup : (debtsOf (claimSellerPending w.accruals.rows.listed sellerId limit)).Nodup := by
          have horder := nodup_claimOrder hfiled.nodup_listed sellerId
          exact (horder.sublist (List.take_sublist limit _)).filter _
        have hdebt : row ∈ debtsOf (claimSellerPending w.accruals.rows.listed sellerId limit) := by
          rw [hrest]
          exact List.mem_append_right _ hrow
        obtain ⟨hclaimed, hnegative⟩ := mem_debtsOf.mp hdebt
        apply h.kept hfiled (mem_claimed hclaimed).1
        intro hmarked
        rcases List.mem_append.mp hmarked with hshare | hconsumed
        · have hpositive := (mem_sharesOf.mp hshare).2
          omega
        · rw [hrest] at hnodup
          exact (List.nodup_append.mp hnodup).2.2 row hconsumed row hrow rfl
      · cases plan.recovery.residual with
        | none => exact Nat.zero_le 1
        | some residual => exact le_refl 1
      · intro row hrow
        cases hresidual : plan.recovery.residual with
        | none =>
          rw [hresidual] at hrow
          exact absurd hrow List.not_mem_nil
        | some residual =>
          rw [hresidual] at hrow
          obtain rfl := List.mem_singleton.mp hrow
          obtain ⟨hnegative, debt, hdebt, -, hseller, -⟩ := h.recovers.residual residual hresidual
          refine ⟨mem_pendingRows.mpr ⟨?_, ?_, rfl⟩, hnegative⟩
          · rw [h.listed, h.reports]
            apply List.mem_append_right
            rw [hresidual]
            exact List.mem_singleton.mpr rfl
          · have hclaimed := mem_claimed (h.marked (List.mem_append_right _ hdebt))
            exact hseller.trans hclaimed.2.1
      · have hexact := h.recovers.exact_
        rw [hreceivable, hexact]
        cases plan.recovery.residual with
        | none => rfl
        | some residual =>
          have hsingle : minorOf [residual.row settled.txnId now] = residual.amount.minor := Int.add_zero _
          simp only [Option.map_some, Option.getD_some, Option.toList_some, hsingle]

end Settled

theorem drainSeller_none
    (h : (drainSeller env sellerId now limit).run w = (.ok none, w')) : w' = w := by
  obtain ⟨-, ⟨-, hsame⟩ | ⟨plan, w₁, -, -, -, -, hanswer⟩⟩ := drainSeller_answers h
  · exact hsame
  · cases hanswer

/-- The transaction of a drain settles, or leaves the tables as they are. -/
theorem drainSeller_cases (env : Env) (sellerId : String) (now : Int) (limit : Nat)
    (hclosed : w.Closed) (hsound : w.Sound) :
    (∃ settled done, (drainSeller env sellerId now limit).run w.opened = (.ok (some settled), done) ∧
      transaction (drainSeller env sellerId now limit) w = (.ok (some settled), done.commitAll)) ∨
    ((∀ settled done, (drainSeller env sellerId now limit).run w.opened ≠ (.ok (some settled), done)) ∧
      (∀ settled, (transaction (drainSeller env sellerId now limit) w).1 ≠ .ok (some settled)) ∧
      w.SameTables (transaction (drainSeller env sellerId now limit) w).2) := by
  rcases transaction_cases (drainSeller env sellerId now limit) hclosed hsound with
    ⟨answer, done, hrun, htransaction⟩ | ⟨e, done, hrun, htransaction, hsame⟩
  · cases answer with
    | some settled => exact Or.inl ⟨settled, done, hrun, htransaction⟩
    | none =>
      right
      rw [hrun, htransaction]
      refine ⟨fun _ _ h => (by cases h), fun _ h => (by cases h), ?_⟩
      rw [drainSeller_none hrun]
      exact World.opened_commitAll hclosed
  · right
    rw [hrun, htransaction]
    exact ⟨fun _ _ h => (by cases h), fun _ h => (by cases h), hsame⟩

/-- Debt is repaid before earnings exactly when it is covered, in every drain that settles; the
other drains leave the rows and the ledger as they are. -/
theorem drain_repays_first_iff (env : Env) (sellerId : String) (now : Int) (limit : Nat) {w : World}
    (hclosed : w.Closed) (hsound : w.Sound) (hfiled : w.accruals.rows.Filed) :
    (∀ settled w', transaction (drainSeller env sellerId now limit) w = (.ok (some settled), w') →
      w'.accruals.rows.Filed ∧
      settled.earnedMinor + settled.recoveredMinor =
        minorOf (sharesOf (claimSellerPending w.accruals.rows.listed sellerId limit)) ∧
      (RepaysFirst sellerId limit w w' settled ↔ DebtCovered env sellerId limit w)) ∧
    (∀ w', transaction (drainSeller env sellerId now limit) w = (.ok none, w') → w.SameTables w') ∧
    ∀ e w', transaction (drainSeller env sellerId now limit) w = (.error e, w') → w.SameTables w' := by
  rcases drainSeller_cases env sellerId now limit hclosed hsound with
    ⟨drained, done, hrun, htransaction⟩ | ⟨-, hunsettled, hsame⟩
  · rw [htransaction]
    refine ⟨?_, fun _ h => (by cases h), fun _ _ h => (by cases h)⟩
    rintro settled w' h
    obtain rfl : drained = settled := Option.some.inj (Except.ok.inj (congrArg Prod.fst h))
    obtain rfl : done.commitAll = w' := congrArg Prod.snd h
    have hopened : w.opened.accruals.rows.Filed := hfiled
    obtain ⟨plan, hsettles⟩ := drainSeller_settles hopened hrun
    have hiff := hsettles.repays_iff hopened
    refine ⟨hsettles.filed, ?_, ?_, ?_⟩
    · rw [hsettles.reports]
      exact Int.sub_add_cancel _ _
    · intro hrepays
      obtain ⟨hfresh, hcovered⟩ := hiff.mp ⟨hrepays.debt_first, hrepays.paid, hrepays.shares,
        hrepays.debts⟩
      exact ⟨hfresh, hcovered⟩
    · intro hcovered
      obtain ⟨hfirst, hpaid, hshares, hdebts⟩ := hiff.mpr ⟨hcovered.fresh, hcovered.covered⟩
      exact ⟨hfirst, hpaid, hshares, hdebts⟩
  · refine ⟨?_, ?_, ?_⟩
    · intro settled w' h
      exact absurd (congrArg Prod.fst h) (hunsettled settled)
    · intro w' h
      rw [h] at hsame
      exact hsame
    · intro e w' h
      rw [h] at hsame
      exact hsame

def prefixEnv : Env := ⟨fun bytes => bytes.take 16, fun _ => 0, fun n => toString n⟩

def buyerFunds : World :=
  (transaction (Txn.postEntry prefixEnv ⟨"t0", [⟨SYSTEM.STORED_VALUE, ⟨.credit, 1000, .thousand⟩⟩,
    ⟨spendable "a", ⟨.credit, -1000, .neg_thousand⟩⟩], []⟩) World.empty).2

def refundedSale : World :=
  let sold := (transaction (spend prefixEnv twoShards (purchase "k1" "o")).txn buyerFunds).2
  let drained := (transaction (drainSeller prefixEnv "s" 0 10) sold).2
  (transaction (refund prefixEnv refundOrder).txn drained).2

def owingSeller : World := (transaction (spend prefixEnv twoShards (purchase "k2" "p")).txn refundedSale).2

theorem refundedSale_ready : refundedSale.Closed ∧ refundedSale.Sound := by
  have hfunds := transaction_closed
    (Txn.postEntry prefixEnv ⟨"t0", [⟨SYSTEM.STORED_VALUE, ⟨.credit, 1000, by decide⟩⟩,
    ⟨spendable "a", ⟨.credit, -1000, by decide⟩⟩], []⟩) World.empty_closed
  have hfundsSound := transaction_sound
    (Txn.postEntry prefixEnv ⟨"t0", [⟨SYSTEM.STORED_VALUE, ⟨.credit, 1000, by decide⟩⟩,
    ⟨spendable "a", ⟨.credit, -1000, by decide⟩⟩], []⟩) World.empty_closed World.empty_sound
  have hsold := transaction_closed (spend prefixEnv twoShards (purchase "k1" "o")).txn hfunds
  have hsoldSound := transaction_sound (spend prefixEnv twoShards (purchase "k1" "o")).txn
    hfunds hfundsSound
  have hdrained := transaction_closed (drainSeller prefixEnv "s" 0 10) hsold
  have hdrainedSound := transaction_sound (drainSeller prefixEnv "s" 0 10) hsold hsoldSound
  exact ⟨transaction_closed (refund prefixEnv refundOrder).txn hdrained,
    transaction_sound (refund prefixEnv refundOrder).txn hdrained hdrainedSound⟩

theorem owingSeller_ready : owingSeller.Closed ∧ owingSeller.Sound := by
  obtain ⟨hclosed, hsound⟩ := refundedSale_ready
  exact ⟨transaction_closed (spend prefixEnv twoShards (purchase "k2" "p")).txn hclosed,
    transaction_sound (spend prefixEnv twoShards (purchase "k2" "p")).txn hclosed hsound⟩

def settledOf : Except Fault (Option Drained) → Option Drained
  | .ok settled => settled
  | .error _ => none

theorem settledOf_eq_some {run : Except Fault (Option Drained) × World} {settled : Drained}
    (h : settledOf run.1 = some settled) : run = (.ok (some settled), run.2) := by
  obtain ⟨res, w⟩ := run
  cases res with
  | error e => cases h
  | ok answer =>
    obtain rfl : answer = some settled := h
    rfl

/-- With a limit of one row the new sale is paid out, and the debt stays. -/
theorem owingSeller_paid_first : ∃ settled w',
    transaction (drainSeller prefixEnv "s" 0 1) owingSeller = (.ok (some settled), w') ∧
    0 < creditedTo (postedSince owingSeller w') (earned "s") ∧
    debtsOf (pendingRows w'.accruals.rows.listed "s") ≠ [] := by
  obtain ⟨hsome, hcredited, howing⟩ :
      let drained := transaction (drainSeller prefixEnv "s" 0 1) owingSeller
      (settledOf drained.1).isSome = true ∧ 0 < creditedTo (postedSince owingSeller drained.2)
      (earned "s") ∧
        debtsOf (pendingRows drained.2.accruals.rows.listed "s") ≠ [] := by decide +kernel
  obtain ⟨settled, hsettled⟩ := Option.isSome_iff_exists.mp hsome
  exact ⟨settled, _, settledOf_eq_some hsettled, hcredited, howing⟩

theorem owingSeller_repays : ∃ settled w',
    transaction (drainSeller prefixEnv "s" 0 10) owingSeller = (.ok (some settled), w') ∧
    (RepaysFirst "s" 10 owingSeller w' settled ↔ DebtCovered prefixEnv "s" 10 owingSeller) := by
  obtain ⟨hclosed, hsound⟩ := owingSeller_ready
  obtain ⟨horder, hnodup, hkeyed, hsome⟩ :
      let rows := owingSeller.accruals.rows
      rows.order = rows.rows.keys ∧ rows.rows.keys.Nodup ∧
        (∀ entry ∈ rows.rows.entries, entry.2.key = entry.1) ∧
        (settledOf (transaction (drainSeller prefixEnv "s" 0 10) owingSeller).1).isSome = true := by
    decide +kernel
  have hfiled : owingSeller.accruals.rows.Filed := .of_entries horder hnodup hkeyed
  obtain ⟨settled, hsettled⟩ := Option.isSome_iff_exists.mp hsome
  have hrun := settledOf_eq_some hsettled
  obtain ⟨hsettles, -⟩ := drain_repays_first_iff prefixEnv "s" 0 10 hclosed hsound hfiled
  exact ⟨settled, _, hrun, (hsettles settled _ hrun).2.2⟩

end EconomyLab
