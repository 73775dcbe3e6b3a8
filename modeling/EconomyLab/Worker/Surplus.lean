import Mathlib.Algebra.BigOperators.Ring.Finset
import Mathlib.Algebra.Order.BigOperators.Group.List
import EconomyLab.Economy.Locking
import EconomyLab.Worker.Treasury
import Mathlib.Data.Int.ConditionallyCompleteOrder

/-!
# A fee sweep takes only the surplus

What a sweep draws in cash and what the users are owed, rounded down apart, come to no more than
they do rounded down together. The balances behind both ceilings are those the postings meet, and
matured revenue only grows between the two readings of it.
-/

namespace EconomyLab

open Foundation

/-! ## The ledger of a run -/

/-- The tables are those of a history whose rows are chained. -/
structure Accounted (digest : Digest) (t : LedgerTables) (h : History) : Prop where
  honest : Honest t h
  chained : Chained digest h.appended

theorem runLedger_accounted (digest : Digest) (cmds : List Command) :
    Accounted digest (runLedger digest cmds).ledger.tables (runLedger digest cmds).history.rows :=
  ⟨(runLedger_exact digest cmds).rows, (runLedger_chained digest cmds).1⟩

variable {env : Env} {digest : Digest} {t : LedgerTables} {config : Config} {account : AccountRef}
  {par : Rate} {h : History} {w w' : World} {heads : List AccountRef} {transaction : Transaction}

theorem Accounted.headed_iff (ha : Accounted digest t h) :
    (t.heads.get account).isSome = true ↔ account ∈ (legsOf h.appended).map Leg.account := by
  have hlinked : (∃ link ∈ h.appended.flatMap StoredPosting.links, link.account = account) ↔
      account ∈ (legsOf h.appended).map Leg.account := by
    constructor
    · rintro ⟨link, hlink, hsame⟩
      obtain ⟨row, hrow, hof⟩ := List.mem_flatMap.mp hlink
      obtain ⟨before, hlinks⟩ := ha.chained.of_mem hrow
      have hdistinct : account ∈ distinctAccounts row.legs := by
        rw [← hlinks.accounts]
        exact hsame ▸ List.mem_map_of_mem hof
      obtain ⟨leg, hleg, haccount⟩ := List.mem_map.mp (mem_distinctAccounts.mp hdistinct)
      exact List.mem_map.mpr ⟨leg, List.mem_flatMap.mpr ⟨row, hrow, hleg⟩, haccount⟩
    · intro hmem
      obtain ⟨leg, hleg, hsame⟩ := List.mem_map.mp hmem
      obtain ⟨row, hrow, hof⟩ := List.mem_flatMap.mp hleg
      obtain ⟨before, hlinks⟩ := ha.chained.of_mem hrow
      have hdistinct : account ∈ distinctAccounts row.legs :=
        mem_distinctAccounts.mpr (hsame ▸ List.mem_map_of_mem hof)
      rw [← hlinks.accounts] at hdistinct
      obtain ⟨link, hlink, haccount⟩ := List.mem_map.mp hdistinct
      exact ⟨link, List.mem_flatMap.mpr ⟨row, hrow, hlink⟩, haccount⟩
  rw [← hlinked, ha.honest.indexes.heads, Option.isSome_map, lastLink, List.getLast?_isSome, ne_eq,
    List.filter_eq_nil_iff]
  simp only [decide_eq_true_eq, not_forall, not_not, exists_prop]

theorem Accounted.balance_of_headless (ha : Accounted digest t h) (hhead : t.heads.get account = none) :
    t.balanceOf account = 0 := by
  have habsent : account ∉ (legsOf h.appended).map Leg.account := by
    rw [← ha.headed_iff, hhead]
    exact nofun
  unfold LedgerTables.balanceOf
  rw [ha.honest.indexes.balances, if_neg habsent]
  rfl

structure ListsHeads (t : LedgerTables) (heads : List AccountRef) : Prop where
  nodup : heads.Nodup
  covers : ∀ a, a ∈ heads ↔ (t.heads.get a).isSome = true

theorem Accounted.listsHeads (ha : Accounted digest t h) :
    ListsHeads t (distinctAccounts (legsOf h.appended)) :=
  ⟨distinctAccounts_nodup _, fun _ => mem_distinctAccounts.trans ha.headed_iff.symm⟩

structure EntersRow (env : Env) (posting : Posting) (w w' : World) (row : StoredPosting) : Prop where
  posting : row.posting = dropZeroLegs posting
  zeroSum : ZeroSum row.legs
  log : w'.ledger.tables.log = w.ledger.tables.log ++ [row]
  balance : ∀ a, w'.ledger.tables.balanceOf a = w.ledger.tables.balanceOf a + total (deltas row.legs) a
  accounted : ∀ h, Accounted env.digest w.ledger.tables h → Accounted env.digest w'.ledger.tables
    (h.append row)
  ticks : w.ticks ≤ w'.ticks

theorem postEntry_enters {posting : Posting}
    (h : (Txn.postEntry env posting).run w = (.ok transaction, w')) :
    ∃ row, EntersRow env posting w w' row ∧ row.txnId = transaction.id := by
  have hwork : (Work.postEntry env posting).txn.run w = (.ok transaction, w') := h
  obtain ⟨row, hrow, hid, hzero, hlog, hbalance⟩ := postEntry_posted hwork
  have hanswer : (postEntry env.digest (env.clock w.ticks) posting w.ledger).1 = .ok transaction :=
    congrArg Prod.fst h
  have hledger : (postEntry env.digest (env.clock w.ticks) posting w.ledger).2 = w'.ledger :=
    congrArg (fun r => r.2.ledger) h
  rcases postEntry_row env.digest (env.clock w.ticks) posting w.ledger with
    ⟨e, he, -⟩ | ⟨row', next, hchecked, hrow', hlinks, hnext, -, -, hposted⟩
  · rw [hanswer] at he
    cases he
  · have htables : w'.ledger.tables = applyPosting w.ledger.tables row' next := by
      rw [← hledger, hposted]
      rfl
    have hsame : row' = row := by
      have hlast : (applyPosting w.ledger.tables row' next).log = w.ledger.tables.log ++ [row] :=
        htables ▸ hlog
      exact List.singleton_injective (List.append_cancel_left hlast)
    subst hsame
    refine ⟨row', ⟨hrow, hzero, hlog, hbalance, ?_, ?_⟩, hid⟩
    · intro history ha
      rw [htables]
      exact ⟨ha.honest.applyPosting (assertBalanced_zeroSum hchecked.balanced)
        (advanceChain_hex hlinks) hnext,
        ha.chained.append (advanceChain_linked ha.honest.indexes.heads hlinks)⟩
    · have hticks : w'.ticks = w.ticks + 1 := congrArg (fun r => r.2.ticks) h.symm
      omega

def sumOver (kind : AccountRef → Bool) (heads : List AccountRef) (t : LedgerTables) : Int :=
  ((heads.filter kind).map t.balanceOf).sum

theorem backingTotals_eq (ht : ∀ a, I64 (t.balanceOf a)) (heads : List AccountRef)
    (totals : BackingTotals) : backingTotals t heads totals =
      .ok ⟨totals.custodialCreditMinor + sumOver isCustodialCredit heads t,
        totals.trustCashMinor + sumOver isTrustCashShard heads t⟩ := by
  induction heads generalizing totals with
  | nil =>
    simp only [backingTotals, sumOver, List.filter_nil, List.map_nil, List.sum_nil, Int.add_zero]
  | cons account heads ih =>
    have hbalance : t.balance account = .ok ⟨currency account, t.balanceOf account, ht account⟩ :=
      toAmount_ok (ht account)
    have hsum : ∀ kind : AccountRef → Bool, sumOver kind (account :: heads) t =
        (if kind account then t.balanceOf account else 0) + sumOver kind heads t := by
      intro kind
      unfold sumOver
      by_cases hkind : kind account = true
      · rw [List.filter_cons_of_pos hkind, List.map_cons, List.sum_cons, if_pos hkind]
      · rw [List.filter_cons_of_neg hkind, if_neg hkind, Int.zero_add]
    unfold backingTotals
    rw [hsum, hsum]
    by_cases hcounts : (isCustodialCredit account || isTrustCashShard account) = true
    · rw [if_pos hcounts, hbalance]
      change backingTotals t heads _ = _
      rw [ih]
      simp only [foldBackingAccount, Int.add_assoc]
    · rw [if_neg hcounts, ih]
      obtain ⟨hcustodial, htrust⟩ := Bool.or_eq_false_iff.mp (Bool.eq_false_iff.mpr hcounts)
      simp only [hcustodial, htrust, Bool.false_eq_true, if_false, Int.zero_add]

theorem sumOver_eq_sum (ha : Accounted digest t h) (hlists : ListsHeads t heads) {kind : AccountRef → Bool}
    {accounts : Finset AccountRef} (hkind : ∀ a ∈ accounts, kind a = true)
    (hcovers : ∀ a ∈ heads, kind a = true → a ∈ accounts) :
    sumOver kind heads t = ∑ a ∈ accounts, t.balanceOf a := by
  have hnodup : (heads.filter kind).Nodup := hlists.nodup.filter _
  unfold sumOver
  rw [← List.sum_toFinset t.balanceOf hnodup]
  apply Finset.sum_subset
  · intro a hmem
    obtain ⟨hhead, hof⟩ := List.mem_filter.mp (List.mem_toFinset.mp hmem)
    exact hcovers a hhead hof
  · intro a hmem habsent
    apply ha.balance_of_headless
    have hheadless : a ∉ heads := fun hhead =>
      habsent (List.mem_toFinset.mpr (List.mem_filter.mpr ⟨hhead, hkind a hmem⟩))
    rw [hlists.covers, Option.not_isSome_iff_eq_none] at hheadless
    exact hheadless

/-- What was moved on the one account of a kind is the change of the sum. -/
theorem sumOver_moved {t t' : LedgerTables} {h h' : History} (ha : Accounted digest t h)
    (ha' : Accounted digest t' h') {heads heads' : List AccountRef} (hlists : ListsHeads t heads)
    (hlists' : ListsHeads t' heads') (kind : AccountRef → Bool) {moved : AccountRef → Int}
    (hmoved : ∀ a, t'.balanceOf a = t.balanceOf a + moved a) (focus : AccountRef)
    (hfocus : ∀ a, kind a = true → a ≠ focus → moved a = 0) :
    sumOver kind heads' t' = sumOver kind heads t + if kind focus then moved focus else 0 := by
  let accounts : Finset AccountRef := ((focus :: (heads ++ heads')).filter kind).toFinset
  have hmem : ∀ a, a ∈ accounts ↔ a ∈ focus :: (heads ++ heads') ∧ kind a = true := fun a =>
    List.mem_toFinset.trans List.mem_filter
  have hof : ∀ a ∈ accounts, kind a = true := fun a h => ((hmem a).mp h).2
  rw [sumOver_eq_sum ha hlists hof fun a hhead hk =>
      (hmem a).mpr ⟨List.mem_cons_of_mem _ (List.mem_append_left _ hhead), hk⟩,
    sumOver_eq_sum ha' hlists' hof fun a hhead hk =>
      (hmem a).mpr ⟨List.mem_cons_of_mem _ (List.mem_append_right _ hhead), hk⟩,
    Finset.sum_congr rfl fun a _ => hmoved a, Finset.sum_add_distrib]
  congr 1
  split
  · rename_i hk
    apply Finset.sum_eq_single_of_mem focus ((hmem focus).mpr ⟨List.mem_cons_self, hk⟩)
    exact fun a hin hne => hfocus a (hof a hin) hne
  · rename_i hk
    apply Finset.sum_eq_zero
    intro a hin
    apply hfocus a (hof a hin)
    rintro rfl
    exact hk (hof a hin)

/-- The trust cash holds what the custodial credits require at par, rounded down. -/
def Backed (par : Rate) (heads : List AccountRef) (t : LedgerTables) : Prop :=
  sumOver isCustodialCredit heads t * par.rate / 10 ^ par.scale ≤ sumOver isTrustCashShard heads t

/-- Two floors come to no more than the floor of both together. -/
theorem surplus_covers {trust custodial inCredit : Int} {amount usd : Amount}
    (hpositive : 0 < amount.minor) (hconverted : usdToCredit trust par = .ok inCredit)
    (hwithin : amount.minor ≤ inCredit - custodial) (husd : convertFloor amount par .usd = .ok usd)
    (hbacked : custodial * par.rate / 10 ^ par.scale ≤ trust) :
    custodial * par.rate / 10 ^ par.scale ≤ trust - usd.minor := by
  obtain ⟨-, hfloor, -⟩ := convertFloor_bounds husd
  have hscale := scale_pos par
  by_cases hrate : 0 < par.rate
  · have hcap : inCredit * par.rate ≤ trust * 10 ^ par.scale := by
      unfold usdToCredit at hconverted
      rw [if_neg hrate.ne', mulDiv, divRound_floor _ hrate] at hconverted
      obtain ⟨-, rfl⟩ := checkI64_eq_ok.mp hconverted
      exact Int.ediv_mul_le _ hrate.ne'
    have hrequired : custodial * par.rate / 10 ^ par.scale * 10 ^ par.scale ≤ custodial * par.rate :=
      Int.ediv_mul_le _ hscale.ne'
    have hboth : (amount.minor + custodial) * par.rate ≤ inCredit * par.rate :=
      Int.mul_le_mul_of_nonneg_right (by omega) hrate.le
    have hscaled : (custodial * par.rate / 10 ^ par.scale + usd.minor) * 10 ^ par.scale ≤
        trust * 10 ^ par.scale := by
      linarith
    have hunscaled := Int.le_of_mul_le_mul_right hscaled hscale
    omega
  · have hnone : usd.minor ≤ 0 := by
      have hproduct : amount.minor * par.rate ≤ 0 :=
        Int.mul_nonpos_of_nonneg_of_nonpos hpositive.le (by omega)
      by_contra hsome
      have hgain : 0 < 10 ^ par.scale * usd.minor := Int.mul_pos hscale (by omega)
      omega
    omega

/-! ## Two readings of the matured revenue -/

/-- A matured balance as it was read, at one of the clock's readings from a tick on and before another. -/
structure ReadAt (env : Env) (config : Config) (t : LedgerTables) (start stop : Nat) (shard : AccountRef)
    (read : AccountRef × Int) : Prop where
  account : read.1 = shard
  matured : ∃ n, start ≤ n ∧ n < stop ∧ ∃ amount, maturedBalance t shard (env.clock n) config =
    .ok amount ∧
    amount.minor = read.2

theorem ReadAt.widen {start stop start' stop' : Nat}
    {shard : AccountRef} {read : AccountRef × Int} (h : ReadAt env config t start stop shard read)
    (hstart : start' ≤ start) (hstop : stop ≤ stop') : ReadAt env config t start' stop' shard read := by
  obtain ⟨n, hfrom, htill, hread⟩ := h.matured
  exact ⟨h.account, n, hstart.trans hfrom, lt_of_lt_of_le htill hstop, hread⟩

theorem maturedByShard_reads {shards : List AccountRef} {byShard : List (AccountRef × Int)}
    (h : (maturedByShard env config shards).run w = (.ok byShard, w')) :
    w'.ledger = w.ledger ∧ w.ticks ≤ w'.ticks ∧
      List.Forall₂ (ReadAt env config w.ledger.tables w.ticks w'.ticks) shards byShard := by
  induction shards generalizing w byShard with
  | nil =>
    cases h
    exact ⟨rfl, le_refl _, .nil⟩
  | cons shard shards ih =>
    obtain ⟨now, w₁, hnow, h⟩ := Txn.bind_ok h
    obtain ⟨matured, w₂, hmatured, h⟩ := Txn.bind_ok h
    obtain ⟨rest, w₃, hrest, h⟩ := Txn.bind_ok h
    obtain rfl : w₃ = w' := congrArg Prod.snd h
    obtain rfl : (shard, matured.minor) :: rest = byShard := Except.ok.inj (congrArg Prod.fst h)
    obtain rfl : env.clock w.ticks = now := Except.ok.inj (congrArg Prod.fst hnow)
    obtain rfl : w₁ = w₂ := congrArg Prod.snd hmatured
    have hledger : w₁.ledger = w.ledger := congrArg (fun r => r.2.ledger) hnow.symm
    have hticks : w₁.ticks = w.ticks + 1 := congrArg (fun r => r.2.ticks) hnow.symm
    have hread : maturedBalance w₁.ledger.tables shard (env.clock w.ticks) config = .ok matured :=
      congrArg Prod.fst hmatured
    obtain ⟨hledger', hticks', hreads⟩ := ih hrest
    rw [hledger] at hread hreads
    refine ⟨hledger'.trans hledger, by
      omega, .cons ⟨rfl, w.ticks, le_refl _, by omega, matured, hread, rfl⟩ ?_⟩
    exact hreads.imp fun _ _ hr => hr.widen (by omega) (le_refl _)

section Matured

variable {t : LedgerTables} {h : History}

theorem maturedBalance_nonneg (hh : Honest t h) {now : Int}
    {matured : Amount} (hmatured : maturedBalance t account now config = .ok matured) :
    0 ≤ matured.minor := by
  obtain ⟨amount, hamount, -, hminor⟩ := maturedBalance_eq hh account now config
  obtain rfl : amount = matured := Except.ok.inj (hamount.symm.trans hmatured)
  rw [hminor]
  exact taken_nonneg lotsOf_pos _ _

theorem maturedBalance_grows (hh : Honest t h) {now later : Int}
    (hlater : now ≤ later) {matured matured' : Amount}
    (hmatured : maturedBalance t account now config = .ok matured)
    (hmatured' : maturedBalance t account later config = .ok matured') :
    matured.minor ≤ matured'.minor := by
  obtain ⟨amount, hamount, -, hminor⟩ := maturedBalance_eq hh account now config
  obtain ⟨amount', hamount', -, hminor'⟩ := maturedBalance_eq hh account later config
  obtain rfl : amount = matured := Except.ok.inj (hamount.symm.trans hmatured)
  obtain rfl : amount' = matured' := Except.ok.inj (hamount'.symm.trans hmatured')
  rw [hminor, hminor']
  apply taken_mono lotsOf_pos
  intro lot _ hearly
  exact Moment.reached_later hearly hlater

variable {env : Env} {config : Config} {start stop start' stop' : Nat} {shards : List AccountRef}
  {byShard byShard' : List (AccountRef × Int)}

theorem reads_nonneg (hh : Honest t h)
    (hreads : List.Forall₂ (ReadAt env config t start stop) shards byShard) :
    ∀ read ∈ byShard, 0 ≤ read.2 := by
  induction hreads with
  | nil => exact fun read hnil => absurd hnil List.not_mem_nil
  | cons hread _ ih =>
    intro read hmem
    rcases List.mem_cons.mp hmem with rfl | hmem
    · obtain ⟨n, -, -, amount, hamount, hminor⟩ := hread.matured
      exact hminor ▸ maturedBalance_nonneg hh hamount
    · exact ih read hmem

theorem reads_accounts (hreads : List.Forall₂ (ReadAt env config t start stop) shards byShard) :
    byShard.map Prod.fst = shards := by
  induction hreads with
  | nil => rfl
  | cons hread _ ih => rw [List.map_cons, ih, hread.account]

theorem reads_of_shard (hreads : List.Forall₂ (ReadAt env config t start stop) shards byShard) :
    ∀ shard ∈ shards, ∃ read ∈ byShard, ReadAt env config t start stop shard read := by
  induction hreads with
  | nil => exact fun shard hnil => absurd hnil List.not_mem_nil
  | cons hread _ ih =>
    intro shard hshard
    rcases List.mem_cons.mp hshard with rfl | hshard
    · exact ⟨_, List.mem_cons_self, hread⟩
    · obtain ⟨read, hmem, hof⟩ := ih shard hshard
      exact ⟨read, List.mem_cons_of_mem _ hmem, hof⟩

theorem reads_grow (hclock : Monotone env.clock) (hh : Honest t h) (hlater : stop ≤ start')
    (hreads : List.Forall₂ (ReadAt env config t start stop) shards byShard)
    (hreads' : List.Forall₂ (ReadAt env config t start' stop') shards byShard') :
    (byShard.map Prod.snd).sum ≤ (byShard'.map Prod.snd).sum := by
  induction hreads generalizing byShard' with
  | nil =>
    cases hreads'
    exact le_refl _
  | cons hread _ ih =>
    cases hreads' with
    | cons hread' hrest' =>
      have hrest := ih hrest'
      obtain ⟨n, -, htill, amount, hamount, hminor⟩ := hread.matured
      obtain ⟨n', hfrom, -, amount', hamount', hminor'⟩ := hread'.matured
      have hgrown := maturedBalance_grows hh (hclock (by omega : n ≤ n')) hamount hamount'
      rw [List.map_cons, List.map_cons, List.sum_cons, List.sum_cons]
      omega

end Matured

/-- What drain legs take: the amount, from the shards, none more than it was read to hold. -/
structure Draws (byShard : List (AccountRef × Int)) (amount : Int) (legs : List Leg) : Prop where
  drawn : (legs.map (·.amount.minor)).sum = amount
  positive : ∀ leg ∈ legs, 0 < leg.amount.minor
  shards : ∀ leg ∈ legs, leg.account ∈ byShard.map Prod.fst
  within : ∀ read ∈ byShard, total (rawAmounts legs) read.1 ≤ read.2

variable {amount : Amount} {legs : List Leg} {a : AccountRef} {history : History}

theorem rawAmounts_absent (h : ∀ leg ∈ legs, leg.account ≠ account) :
    total (rawAmounts legs) account = 0 := by
  apply total_eq_zero
  rw [rawAmounts, List.map_map]
  rintro hmem
  obtain ⟨leg, hleg, hsame⟩ := List.mem_map.mp hmem
  exact h leg hleg hsame

theorem drainLegsOf_draws {currency : Currency} {byShard : List (AccountRef × Int)} {remaining : Int}
    (hnodup : (byShard.map Prod.fst).Nodup) (hreads : ∀ read ∈ byShard, 0 ≤ read.2)
    (hremaining : 0 ≤ remaining) (hcap : remaining ≤ (byShard.map Prod.snd).sum)
    (h : drainLegsOf currency byShard remaining = .ok legs) :
    Draws byShard remaining legs := by
  induction byShard generalizing remaining legs with
  | nil =>
    cases h
    refine ⟨?_, fun leg hnil => absurd hnil List.not_mem_nil, fun leg hnil => absurd hnil List.not_mem_nil,
      fun read hnil => absurd hnil List.not_mem_nil⟩
    change remaining ≤ 0 at hcap
    change 0 = remaining
    omega
  | cons read byShard ih =>
    obtain ⟨shard, maturedMinor⟩ := read
    obtain ⟨hfresh, hrest⟩ := List.nodup_cons.mp hnodup
    have hmatured : 0 ≤ maturedMinor := hreads (shard, maturedMinor) List.mem_cons_self
    have hothers : ∀ read ∈ byShard, 0 ≤ read.2 := fun read hread =>
      hreads read (List.mem_cons_of_mem _ hread)
    have hsum : 0 ≤ (byShard.map Prod.snd).sum := by
      apply List.sum_nonneg
      intro x hx
      obtain ⟨read, hread, rfl⟩ := List.mem_map.mp hx
      exact hothers read hread
    rw [List.map_cons, List.sum_cons] at hcap
    unfold drainLegsOf at h
    by_cases hdone : remaining = 0
    · rw [if_pos hdone] at h
      cases h
      refine ⟨hdone.symm, fun leg hnil => absurd hnil List.not_mem_nil, fun leg hnil =>
        absurd hnil List.not_mem_nil,
        hreads⟩
    · rw [if_neg hdone] at h
      by_cases htake : 0 < maturedMinor
      · have hpositive : (if maturedMinor < remaining then maturedMinor else remaining) > 0 := by
          split
          · exact htake
          · omega
        simp only [if_pos hpositive] at h
        obtain ⟨amount, hamount, h⟩ := except_bind_ok.mp h
        obtain ⟨rest, hrestlegs, h⟩ := except_bind_ok.mp h
        obtain rfl := except_pure_ok.mp h
        have hminor := (toAmount_eq_ok.mp hamount).2
        have hdraws := ih hrest hothers (by split <;> omega) (by split <;> omega) hrestlegs
        have hdrawn : (debit shard amount).amount.minor = if maturedMinor < remaining then
          maturedMinor else remaining :=
          hminor
        have habsent : ∀ leg ∈ rest, leg.account ≠ shard := by
          rintro leg hleg rfl
          exact hfresh (hdraws.shards leg hleg)
        have hcons : ∀ account, total (rawAmounts (debit shard amount :: rest)) account =
            (if shard = account then (debit shard amount).amount.minor else 0) + total
            (rawAmounts rest) account :=
          fun account => total_cons (shard, (debit shard amount).amount.minor) (rawAmounts rest) account
        refine ⟨?_, ?_, ?_, ?_⟩
        · rw [List.map_cons, List.sum_cons, hdraws.drawn, hdrawn]
          omega
        · intro leg hmem
          rcases List.mem_cons.mp hmem with rfl | hmem
          · exact hdrawn ▸ hpositive
          · exact hdraws.positive leg hmem
        · intro leg hmem
          rcases List.mem_cons.mp hmem with rfl | hmem
          · exact List.mem_cons_self
          · exact List.mem_cons_of_mem _ (hdraws.shards leg hmem)
        · intro read hmem
          rw [hcons]
          rcases List.mem_cons.mp hmem with rfl | hmem
          · rw [if_pos rfl, rawAmounts_absent habsent, hdrawn]
            split <;> omega
          · have hkey : read.1 ∈ byShard.map Prod.fst := List.mem_map_of_mem hmem
            have hother : shard ≠ read.1 := fun hsame => hfresh (hsame ▸ hkey)
            have hwithin := hdraws.within read hmem
            rw [if_neg hother]
            omega
      · obtain rfl : maturedMinor = 0 := by omega
        have hnone : ¬ (if (0 : Int) < remaining then 0 else remaining) > 0 := by
          split
          · exact lt_irrefl _
          · omega
        simp only [if_neg hnone] at h
        have hdraws := ih hrest hothers hremaining (by omega) h
        refine ⟨hdraws.drawn, hdraws.positive, fun leg hleg =>
          List.mem_cons_of_mem _ (hdraws.shards leg hleg), ?_⟩
        intro read hmem
        rcases List.mem_cons.mp hmem with rfl | hmem
        · have habsent : ∀ leg ∈ legs, leg.account ≠ shard := by
            rintro leg hleg rfl
            exact hfresh (hdraws.shards leg hleg)
          exact (rawAmounts_absent habsent).le
        · exact hdraws.within read hmem

theorem sweepableCredit_reads {sweepable : Int} (ht : ∀ a, I64 (w.ledger.tables.balanceOf a))
    (h : (sweepableCredit env config par heads).run w = (.ok sweepable, w')) :
    ∃ inCredit byShard, usdToCredit (sumOver isTrustCashShard heads w.ledger.tables) par = .ok inCredit ∧
      w'.ledger = w.ledger ∧ w.ticks ≤ w'.ticks ∧
      List.Forall₂ (ReadAt env config w.ledger.tables w.ticks w'.ticks)
        (shardsOf SYSTEM.REVENUE config.platformShards)
        byShard ∧
      (0 < sweepable → sweepable ≤ inCredit - sumOver isCustodialCredit heads w.ledger.tables ∧
        sweepable ≤ (byShard.map Prod.snd).sum) := by
  obtain ⟨surplus, w₁, hsurplus, h⟩ := Txn.bind_ok h
  obtain ⟨byShard, w₂, hreads, h⟩ := Txn.bind_ok h
  obtain rfl : w₂ = w' := congrArg Prod.snd h
  obtain rfl := Except.ok.inj (congrArg Prod.fst h)
  obtain rfl : w = w₁ := congrArg Prod.snd hsurplus
  have hsurplus' : surplusCredit par heads w.ledger.tables = .ok surplus := congrArg Prod.fst hsurplus
  unfold surplusCredit at hsurplus'
  rw [backingTotals_eq ht] at hsurplus'
  obtain ⟨totals, htotals, hsurplus'⟩ := except_bind_ok.mp hsurplus'
  obtain rfl := Except.ok.inj htotals
  obtain ⟨inCredit, hconverted, hsurplus'⟩ := except_bind_ok.mp hsurplus'
  obtain rfl := except_pure_ok.mp hsurplus'
  simp only [Int.zero_add] at hconverted ⊢
  obtain ⟨hledger, hticks, hread⟩ := maturedByShard_reads hreads
  refine ⟨inCredit, byShard, hconverted, hledger, hticks, hread, ?_⟩
  intro hpositive
  omega

structure SweepPosted (env : Env) (config : Config) (par : Rate) (heads : List AccountRef)
    (amount : Amount) (w w' : World) (transaction : Transaction) (credits cash : StoredPosting)
    (drained : List Leg) (usd : Amount) :
    Prop where
  converted : convertFloor amount par .usd = .ok usd
  surplus : ∃ inCredit, usdToCredit (sumOver isTrustCashShard heads w.ledger.tables) par = .ok inCredit ∧
    amount.minor ≤ inCredit - sumOver isCustodialCredit heads w.ledger.tables
  draws : ∃ byShard, Draws byShard amount.minor drained ∧
    List.Forall₂ (ReadAt env config w.ledger.tables w.ticks w'.ticks)
      (shardsOf SYSTEM.REVENUE config.platformShards)
      byShard
  id : credits.txnId = transaction.id
  log : w'.ledger.tables.log = w.ledger.tables.log ++ [credits, cash]
  zeroSum : ZeroSum credits.legs ∧ ZeroSum cash.legs
  issues : ∃ issued, issued.account = SYSTEM.STORED_VALUE ∧ credits.legs = drained ++ [issued]
  pays : ∃ paid, paid.account = SYSTEM.TRUST_CASH ∧ paid.amount.minor = -usd.minor ∧
    cash.legs = [debit SYSTEM.USD_CLEARING usd, paid].filter (·.amount.minor ≠ 0)
  balance : ∀ a, w'.ledger.tables.balanceOf a =
    w.ledger.tables.balanceOf a + (total (deltas credits.legs) a + total (deltas cash.legs) a)
  accounted : ∀ h, Accounted env.digest w.ledger.tables h →
    Accounted env.digest w'.ledger.tables ((h.append credits).append cash)

theorem sweepPostings_posts (hclock : Monotone env.clock) (hpositive : 0 < amount.minor)
    (ha : Accounted env.digest w.ledger.tables history)
    (h : (sweepPostings env config par heads amount).run w = (.ok transaction, w')) :
    ∃ credits cash drained usd, SweepPosted env config par heads amount w w' transaction credits cash
      drained usd := by
  obtain ⟨sweepable, w₁, hsweepable, h⟩ := Txn.bind_ok h
  obtain ⟨_, w₂, hwithin, h⟩ := Txn.bind_ok h
  obtain rfl : w₁ = w₂ := congrArg Prod.snd hwithin
  obtain ⟨usd, w₃, husd, h⟩ := Txn.bind_ok h
  obtain rfl : w₁ = w₃ := congrArg Prod.snd husd
  obtain ⟨txnId, w₄, hminted, h⟩ := Txn.bind_ok h
  obtain ⟨drained, w₅, hdrained, h⟩ := Txn.bind_ok h
  obtain ⟨issued, w₆, hissued, h⟩ := Txn.bind_ok h
  obtain rfl : w₅ = w₆ := congrArg Prod.snd hissued
  obtain ⟨posted, w₇, hposted, h⟩ := Txn.bind_ok h
  obtain ⟨cashId, w₈, hminted', h⟩ := Txn.bind_ok h
  obtain ⟨paid, w₉, hpaid, h⟩ := Txn.bind_ok h
  obtain rfl : w₈ = w₉ := congrArg Prod.snd hpaid
  obtain ⟨moved, w₁₀, hcash, h⟩ := Txn.bind_ok h
  obtain rfl : w₁₀ = w' := congrArg Prod.snd h
  obtain rfl : posted = transaction := Except.ok.inj (congrArg Prod.fst h)
  have hledger₄ : w₄.ledger = w₁.ledger := congrArg (fun r => r.2.ledger) hminted.symm
  have hticks₄ : w₄.ticks = w₁.ticks := congrArg (fun r => r.2.ticks) hminted.symm
  have hledger₈ : w₈.ledger = w₇.ledger := congrArg (fun r => r.2.ledger) hminted'.symm
  have hticks₈ : w₈.ticks = w₇.ticks := congrArg (fun r => r.2.ticks) hminted'.symm
  obtain ⟨inCredit, byShard, hconverted, hledger₁, hticks₁, hreads, hcap⟩ :=
    sweepableCredit_reads ha.honest.inRange hsweepable
  have hamount : amount.minor ≤ sweepable := by
    have hchecked : assertWithinSweepable amount sweepable = .ok () := congrArg Prod.fst hwithin
    by_contra hover
    rw [assertWithinSweepable, if_neg hover] at hchecked
    obtain ⟨cap, -, hchecked⟩ := except_bind_ok.mp hchecked
    cases hchecked
  obtain ⟨hsurplus, hrevenue⟩ := hcap (by omega)
  obtain ⟨byShard', w₁₁, hreads', hdrained⟩ := Txn.bind_ok hdrained
  obtain rfl : w₁₁ = w₅ := congrArg Prod.snd hdrained
  obtain ⟨hledger₅, hticks₅, hread'⟩ := maturedByShard_reads hreads'
  rw [hledger₄, hledger₁] at hread'
  have hledger : w₁₁.ledger = w.ledger := hledger₅.trans (hledger₄.trans hledger₁)
  have hgrown := reads_grow hclock ha.honest (by omega) hreads hread'
  have hnodup : (byShard'.map Prod.fst).Nodup := by
    rw [reads_accounts hread']
    exact shardsOf_nodup _ _
  have hdraws := drainLegsOf_draws hnodup (reads_nonneg ha.honest hread') hpositive.le (by omega)
    (congrArg Prod.fst hdrained)
  obtain ⟨credits, hcredits, hid⟩ := postEntry_enters hposted
  obtain ⟨cash, hentered, -⟩ := postEntry_enters hcash
  obtain ⟨hissuedAccount, hissuedMinor⟩ := credit_ok (congrArg Prod.fst hissued)
  obtain ⟨hpaidAccount, hpaidMinor⟩ := credit_ok (congrArg Prod.fst hpaid)
  have hkept : (drained ++ [issued]).filter (·.amount.minor ≠ 0) = drained ++ [issued] := by
    apply List.filter_eq_self.mpr
    intro leg hleg
    rcases List.mem_append.mp hleg with hleg | hleg
    · exact decide_eq_true (hdraws.positive leg hleg).ne'
    · obtain rfl := List.mem_singleton.mp hleg
      apply decide_eq_true
      omega
  have hticks₇ := hcredits.ticks
  have hticks₁₀ := hentered.ticks
  refine ⟨credits, cash, drained, usd, congrArg Prod.fst husd, ⟨inCredit, hconverted, by omega⟩,
    ⟨byShard', hdraws, hread'.imp fun _ _ hr => hr.widen (by omega) (by omega)⟩, hid, ?_,
    ⟨hcredits.zeroSum, hentered.zeroSum⟩, ⟨issued, hissuedAccount, ?_⟩,
      ⟨paid, hpaidAccount, hpaidMinor, ?_⟩, ?_, ?_⟩
  · rw [hentered.log, hledger₈, hcredits.log, hledger, List.append_assoc]
    rfl
  · exact (congrArg Posting.legs hcredits.posting).trans hkept
  · exact congrArg Posting.legs hentered.posting
  · intro a
    rw [hentered.balance, hledger₈, hcredits.balance, hledger, Int.add_assoc]
  · intro past hpast
    apply hentered.accounted
    rw [hledger₈]
    apply hcredits.accounted
    rw [hledger]
    exact hpast

/-! ## The sweep as a transaction -/

theorem sweepEvent_keeps
    {result : FeeSweepResult} (h : (sweepEvent env amount transaction).run w = (.ok result, w')) :
    result = .realized amount transaction ∧ w'.ledger = w.ledger ∧ w.ticks ≤ w'.ticks := by
  obtain ⟨_, w₁, hemitted, h⟩ := Txn.bind_ok h
  obtain rfl : w₁ = w' := congrArg Prod.snd h
  have hledger : w₁.ledger = w.ledger := congrArg (fun r => r.2.ledger) hemitted.symm
  have hticks : w₁.ticks = w.ticks + 2 := congrArg (fun r => r.2.ticks) hemitted.symm
  exact ⟨(Except.ok.inj (congrArg Prod.fst h)).symm, hledger, by omega⟩

/-- Work that ends well found its key taken, or posted and then recorded. -/
theorem sweepWork_ok {input : FeeSweep} {result : FeeSweepResult}
    (h : (sweepWork env config par heads input).run w = (.ok result, w')) :
    (result = .duplicate (zero .credit) ∧ w' = w) ∨
    ∃ transaction w₁ w₂, result = .realized input.amount transaction ∧ w₁.ledger = w.ledger ∧
      w.ticks ≤ w₁.ticks ∧
      (sweepPostings env config par heads input.amount).run w₁ = (.ok transaction, w₂) ∧
      w'.ledger = w₂.ledger ∧ w₂.ticks ≤ w'.ticks ∧
      ∀ key, input.key = some key → w.idempotency.rows.committed.get ("sweep:" ++ key) = none := by
  unfold sweepWork at h
  cases hkey : input.key with
  | none =>
    rw [hkey] at h
    obtain ⟨transaction, w₂, hposted, h⟩ := Txn.bind_ok h
    obtain ⟨hresult, hledger, hticks⟩ := sweepEvent_keeps h
    exact Or.inr ⟨transaction, w, w₂, hresult, rfl, le_refl _, hposted, hledger, hticks, fun _ hnone => by
      cases hnone⟩
  | some key =>
    rw [hkey] at h
    simp only [Txn.claiming] at h
    split at h
    · left
      exact ⟨(Except.ok.inj (congrArg Prod.fst h)).symm, (congrArg Prod.snd h).symm⟩
    · rename_i hfree
      split at h
      · cases h
      · rename_i w₂ hbody
        obtain ⟨transaction, w₃, hposted, hbody⟩ := Txn.bind_ok hbody
        cases hbody
      · rename_i posted _ w₂ hbody
        obtain ⟨transaction, w₃, hposted, hbody⟩ := Txn.bind_ok hbody
        obtain rfl : w₃ = w₂ := congrArg Prod.snd hbody
        obtain rfl : transaction = posted :=
          congrArg Prod.fst (Sum.inl.inj (Except.ok.inj (congrArg Prod.fst hbody)))
        obtain ⟨hresult, hledger, hticks⟩ := sweepEvent_keeps h
        exact Or.inr ⟨transaction, w.withIdempotency (claimKey (env.clock w.ticks) ("sweep:" ++ key)
          w.idempotency), w₃,
          hresult, rfl, Nat.le_succ _, hposted, hledger, (Nat.le_succ _).trans hticks,
          fun _ hsame => Option.some.inj hsame ▸ hfree⟩

structure Sweeps (env : Env) (config : Config) (par : Rate) (amount : Amount) (transaction : Transaction)
    (w w' : World) : Prop where
  posted : ∃ credits cash, w'.ledger.tables.log = w.ledger.tables.log ++ [credits, cash] ∧
    credits.txnId = transaction.id ∧ ZeroSum credits.legs ∧ ZeroSum cash.legs ∧
    acrossShards SYSTEM.REVENUE config.platformShards (total (rawAmounts credits.legs)) = amount.minor ∧
    ∀ shard ∈ shardsOf SYSTEM.REVENUE config.platformShards, ∃ n matured, w.ticks ≤ n ∧ n < w'.ticks ∧
      maturedBalance w.ledger.tables shard (env.clock n) config = .ok matured ∧
      total (rawAmounts credits.legs) shard ≤ matured.minor
  backed : ∀ heads, ListsHeads w'.ledger.tables heads → Backed par heads w'.ledger.tables

theorem acrossShards_raw {base : AccountRef} {shards : Nat}
    (h : ∀ leg ∈ legs, leg.account ∈ shardsOf base shards) :
    acrossShards base shards (total (rawAmounts legs)) = (legs.map (·.amount.minor)).sum := by
  induction legs with
  | nil =>
    apply List.sum_eq_zero
    intro x hx
    obtain ⟨shard, -, rfl⟩ := List.mem_map.mp hx
    rfl
  | cons leg legs ih =>
    have hrest := ih fun l hl => h l (List.mem_cons_of_mem _ hl)
    have hcons := @acrossShards_cons base shards leg.account leg.amount.minor (rawAmounts legs)
    rw [List.map_cons, List.sum_cons, ← hrest]
    rw [if_pos (h leg List.mem_cons_self)] at hcons
    exact hcons

theorem revenueShard_kinds {shards : Nat} (h : a ∈ shardsOf SYSTEM.REVENUE shards) :
    isTrustCashShard a = false ∧ isCustodialCredit a = false ∧ a ≠ SYSTEM.STORED_VALUE := by
  have hsystem : SYSTEM.REVENUE ∈ SYSTEM.values := by decide
  obtain ⟨shard, -, rfl⟩ := List.mem_map.mp h
  have hbase := baseOf_shardRef hsystem shard
  have htraits := traitsOf_shardRef hsystem shard
  refine ⟨?_, ?_, ?_⟩
  · rw [isTrustCashShard, hbase]
    decide
  · have hclass : classify (shardRef SYSTEM.REVENUE shard) = .houseLiability := by
      have hrevenue : traitsOf SYSTEM.REVENUE = some ⟨.credit, false, .houseLiability⟩ := by decide
      simp only [classify, htraits, hrevenue]
    rw [isCustodialCredit, hclass]
    rfl
  · intro hsame
    rw [hsame] at hbase
    exact absurd hbase (by decide)

section Swept

variable {env : Env} {config : Config} {par : Rate} {heads : List AccountRef} {amount usd : Amount}
  {w w' : World}
  {transaction : Transaction} {credits cash : StoredPosting} {drained : List Leg}

theorem SweepPosted.shards
    (h : SweepPosted env config par heads amount w w' transaction credits cash drained usd) :
    ∀ leg ∈ drained, leg.account ∈ shardsOf SYSTEM.REVENUE config.platformShards := by
  obtain ⟨byShard, hdraws, hreads⟩ := h.draws
  intro leg hleg
  rw [← reads_accounts hreads]
  exact hdraws.shards leg hleg

theorem SweepPosted.credits_moved
    (h : SweepPosted env config par heads amount w w' transaction credits cash drained usd)
    (hkind : isTrustCashShard a = true ∨ isCustodialCredit a = true) :
    total (deltas credits.legs) a = 0 := by
  obtain ⟨issued, hissued, hlegs⟩ := h.issues
  apply total_deltas_eq_zero
  rintro leg hleg rfl
  rw [hlegs] at hleg
  rcases List.mem_append.mp hleg with hleg | hleg
  · obtain ⟨htrust, hcustodial, -⟩ := revenueShard_kinds (h.shards leg hleg)
    rcases hkind with hkind | hkind
    · rw [htrust] at hkind
      cases hkind
    · rw [hcustodial] at hkind
      cases hkind
  · obtain rfl := List.mem_singleton.mp hleg
    rw [hissued] at hkind
    exact absurd hkind (by decide)

/-- The cash entry draws the converted amount from the trust cash, and moves no other account that counts.
-/
theorem SweepPosted.cash_moved
    (h : SweepPosted env config par heads amount w w' transaction credits cash drained usd)
    (hkind : isTrustCashShard a = true ∨ isCustodialCredit a = true) :
    total (deltas cash.legs) a = if a = SYSTEM.TRUST_CASH then -usd.minor else 0 := by
  obtain ⟨paid, hpaid, hminor, hlegs⟩ := h.pays
  have hsame := dropZeroLegs_total ⟨"", [debit SYSTEM.USD_CLEARING usd, paid], []⟩ a
  have hneither : ¬ (isTrustCashShard SYSTEM.USD_CLEARING = true ∨ isCustodialCredit SYSTEM.USD_CLEARING =
      true) := by
    decide
  have hclearing : (debit SYSTEM.USD_CLEARING usd).account ≠ a := by
    rintro rfl
    exact hneither hkind
  have hdelta : paid.delta = -usd.minor := by
    have hnormal : isDebitNormal paid.account = true := by
      rw [hpaid]
      decide
    rw [Leg.delta, if_pos hnormal, hminor]
  rw [hlegs]
  refine hsame.trans ?_
  rw [deltas_cons, deltas_cons, total_cons, total_cons, if_neg hclearing, hdelta, hpaid]
  by_cases ha : a = SYSTEM.TRUST_CASH
  · rw [if_pos ha.symm, if_pos ha]
    exact (Int.zero_add _).trans (Int.add_zero _)
  · rw [if_neg (Ne.symm ha), if_neg ha]
    rfl

theorem SweepPosted.sweeps (ha : Accounted env.digest w.ledger.tables history)
    (hlists : ListsHeads w.ledger.tables heads) (hbacked : Backed par heads w.ledger.tables)
    (hpositive : 0 < amount.minor)
    (h : SweepPosted env config par heads amount w w' transaction credits cash drained usd) :
    Sweeps env config par amount transaction w w' := by
  obtain ⟨byShard, hdraws, hreads⟩ := h.draws
  obtain ⟨issued, hissued, hlegs⟩ := h.issues
  obtain ⟨inCredit, hconverted, hwithin⟩ := h.surplus
  have hraw : ∀ shard ∈ shardsOf SYSTEM.REVENUE config.platformShards,
      total (rawAmounts credits.legs) shard = total (rawAmounts drained) shard := by
    intro shard hshard
    have hother : issued.account ≠ shard := by
      rintro rfl
      exact (revenueShard_kinds hshard).2.2 hissued
    have hnone : total (rawAmounts [issued]) shard = 0 := by
      apply rawAmounts_absent
      intro leg hleg
      exact List.mem_singleton.mp hleg ▸ hother
    rw [hlegs, rawAmounts, List.map_append, total_append]
    exact (congrArg (total (rawAmounts drained) shard + ·) hnone).trans (Int.add_zero _)
  constructor
  · refine ⟨credits, cash, h.log, h.id, h.zeroSum.1, h.zeroSum.2, ?_, ?_⟩
    · rw [← hdraws.drawn, ← acrossShards_raw h.shards]
      exact congrArg List.sum (List.map_congr_left hraw)
    · intro shard hshard
      obtain ⟨read, hread, hof⟩ := reads_of_shard hreads shard hshard
      obtain ⟨n, hfrom, htill, matured, hmatured, hminor⟩ := hof.matured
      refine ⟨n, matured, hfrom, htill, hmatured, ?_⟩
      rw [hraw shard hshard, hminor, ← hof.account]
      exact hdraws.within read hread
  · intro heads' hlists'
    have hmoved : ∀ a, isTrustCashShard a = true ∨ isCustodialCredit a = true →
        total (deltas credits.legs) a + total (deltas cash.legs) a =
          if a = SYSTEM.TRUST_CASH then -usd.minor else 0 := by
      intro a hkind
      rw [h.credits_moved hkind, h.cash_moved hkind, Int.zero_add]
    have ha' := h.accounted history ha
    have htrust := sumOver_moved ha ha' hlists hlists' isTrustCashShard h.balance SYSTEM.TRUST_CASH
      fun a hkind hne => (hmoved a (Or.inl hkind)).trans (if_neg hne)
    have hcustodial := sumOver_moved ha ha' hlists hlists' isCustodialCredit h.balance SYSTEM.TRUST_CASH
      fun a hkind hne => (hmoved a (Or.inr hkind)).trans (if_neg hne)
    have hcash : isTrustCashShard SYSTEM.TRUST_CASH = true := by decide
    have hhouse : isCustodialCredit SYSTEM.TRUST_CASH = false := by decide
    rw [hcash, if_pos rfl, hmoved _ (Or.inl hcash), if_pos rfl] at htrust
    rw [hhouse] at hcustodial
    simp only [Bool.false_eq_true, if_false, Int.add_zero] at hcustodial
    unfold Backed
    rw [htrust, hcustodial]
    exact surplus_covers hpositive hconverted hwithin h.converted hbacked

end Swept

theorem Sweeps.widen {w w₁ w₂ w' : World}
    (h : Sweeps env config par amount transaction w₁ w₂) (hbefore : w₁.ledger.tables = w.ledger.tables)
    (hstart : w.ticks ≤ w₁.ticks) (hafter : w'.ledger.tables = w₂.ledger.tables)
    (hstop : w₂.ticks ≤ w'.ticks) :
    Sweeps env config par amount transaction w w' := by
  obtain ⟨⟨credits, cash, hlog, hid, hcredits, hcash, hdrawn, hwithin⟩, hbacked⟩ := h
  rw [hbefore] at hlog hwithin
  rw [← hafter] at hlog hbacked
  refine ⟨⟨credits, cash, hlog, hid, hcredits, hcash, hdrawn, ?_⟩, hbacked⟩
  intro shard hshard
  obtain ⟨n, matured, hfrom, htill, hread⟩ := hwithin shard hshard
  exact ⟨n, matured, hstart.trans hfrom, lt_of_lt_of_le htill hstop, hread⟩

/-- A sweep takes the surplus under a key that was free, or leaves the tables as they were. -/
theorem sweepFees_cases (hclock : Monotone env.clock) (hclosed : w.Closed)
    (ha : Accounted env.digest w.ledger.tables history)
    (hlists : ListsHeads w.ledger.tables heads) (hbacked : Backed par heads w.ledger.tables)
    (input : FeeSweep) :
    (∃ transaction w', sweepFees env config par heads input w =
      (.ok (.realized input.amount transaction), w') ∧
      Sweeps env config par input.amount transaction w w' ∧
      ∀ key, input.key = some key → w.idempotency.rows.committed.get ("sweep:" ++ key) = none) ∨
    ((∀ swept transaction, (sweepFees env config par heads input w).1 ≠
      .ok (.realized swept transaction)) ∧
      w.SameTables (sweepFees env config par heads input w).2) := by
  have hready : w.Ready := ⟨hclosed, history, ha.honest⟩
  unfold sweepFees
  by_cases hpositive : input.amount.minor ≤ 0
  · right
    rw [if_pos hpositive]
    exact ⟨fun _ _ h => (by cases h), World.SameTables.refl w⟩
  · rw [if_neg hpositive]
    rcases transaction_cases (sweepWork env config par heads input) hclosed hready.sound with
      ⟨result, done, hrun, htransaction⟩ | ⟨e, done, hrun, htransaction, hsame⟩
    · rw [htransaction]
      rcases sweepWork_ok hrun with
        ⟨rfl, rfl⟩ | ⟨transaction, w₁, w₂, rfl, hledger₁, hticks₁, hposted, hledger₂, hticks₂, hfree⟩
      · right
        exact ⟨fun _ _ h => (by cases h), World.opened_commitAll hclosed⟩
      · left
        have htables₁ : w₁.ledger.tables = w.opened.ledger.tables := congrArg MemoryLedger.tables hledger₁
        have htables₂ : done.ledger.tables = w₂.ledger.tables := congrArg MemoryLedger.tables hledger₂
        obtain ⟨credits, cash, drained, usd, hsweep⟩ :=
          sweepPostings_posts hclock (lt_of_not_ge hpositive) (htables₁ ▸ ha) hposted
        have hsweeps := hsweep.sweeps (htables₁ ▸ ha) (htables₁ ▸ hlists) (htables₁ ▸ hbacked)
          (lt_of_not_ge hpositive)
        exact ⟨transaction, done.commitAll, rfl,
          hsweeps.widen htables₁ hticks₁ htables₂ hticks₂, hfree⟩
    · right
      rw [htransaction]
      exact ⟨fun _ _ h => (by cases h), hsame⟩

/-- A fee sweep takes only the surplus. One that commits leaves the credits backed, draws exactly
its amount from matured revenue, and posts two entries that balance; any other leaves the tables
as they were, and so does every sweep under a key that is committed. -/
theorem sweepFees_takes_surplus (env : Env) (config : Config) (par : Rate) (cmds : List Command)
    (hclock : Monotone env.clock) {w : World} (hclosed : w.Closed)
    (hledger : w.ledger = (runLedger env.digest cmds).ledger) {heads : List AccountRef}
    (hlists : ListsHeads w.ledger.tables heads) (hbacked : Backed par heads w.ledger.tables)
    (input : FeeSweep) :
    (∀ swept transaction w', sweepFees env config par heads input w =
      (.ok (.realized swept transaction), w') →
      swept = input.amount ∧ Sweeps env config par input.amount transaction w w') ∧
    (∀ swept w', sweepFees env config par heads input w = (.ok (.duplicate swept), w') → w.SameTables w') ∧
    (∀ e w', sweepFees env config par heads input w = (.error e, w') → w.SameTables w') ∧
    ∀ key, input.key = some key → (w.idempotency.rows.committed.get ("sweep:" ++ key)).isSome = true →
      w.SameTables (sweepFees env config par heads input w).2 := by
  have ha : Accounted env.digest w.ledger.tables (runLedger env.digest cmds).history.rows := by
    rw [hledger]
    exact runLedger_accounted env.digest cmds
  rcases sweepFees_cases hclock hclosed ha hlists hbacked input with
    ⟨transaction, done, hrun, hsweeps, hfree⟩ | ⟨hnever, hsame⟩
  · rw [hrun]
    refine ⟨?_, fun _ _ h => (by cases h), fun _ _ h => (by cases h), ?_⟩
    · rintro swept transaction' w' h
      cases h
      exact ⟨rfl, hsweeps⟩
    · intro key hkey hcommitted
      rw [hfree key hkey] at hcommitted
      cases hcommitted
  · refine ⟨?_, ?_, ?_, fun _ _ _ => hsame⟩
    · intro swept transaction w' h
      exact absurd (congrArg Prod.fst h) (hnever swept transaction)
    · intro swept w' h
      rw [h] at hsame
      exact hsame
    · intro e w' h
      rw [h] at hsame
      exact hsame

/-- Ten credits were bought with ten dollars, and three of them became fees. -/
def earnedFees : List Command :=
  [.write (.entry 0 ⟨"t0", [⟨SYSTEM.STORED_VALUE, ⟨.credit, 1000, .thousand⟩⟩,
      ⟨spendable "a", ⟨.credit, -1000, .neg_thousand⟩⟩], []⟩),
    .write (.entry 0 ⟨"t1", [⟨SYSTEM.TRUST_CASH, ⟨.usd, 1000, .thousand⟩⟩,
      ⟨SYSTEM.USD_CLEARING, ⟨.usd, -1000, .neg_thousand⟩⟩], []⟩),
    .write (.entry 0 ⟨"t2", [⟨spendable "a", ⟨.credit, 300, by decide⟩⟩,
      ⟨SYSTEM.REVENUE, ⟨.credit, -300, by decide⟩⟩], []⟩)]

def feesEarned : World := { World.empty with ledger := (runLedger tickEnv.digest earnedFees).ledger }

def parRate : Rate := ⟨1, 0, "par"⟩

def headsOfFees : List AccountRef :=
  distinctAccounts (legsOf (runLedger tickEnv.digest earnedFees).history.rows.appended)

def sweptAmount : Except Fault FeeSweepResult → Option Amount
  | .ok (.realized amount _) => some amount
  | _ => none

/-- Two of the three credits are swept, and eight dollars stay for seven credits. -/
theorem feesEarned_swept :
    let swept := sweepFees tickEnv twoShards parRate headsOfFees ⟨⟨.credit, 200, by
      decide⟩, some "k"⟩ feesEarned
    ∃ transaction, swept.1 = .ok (.realized ⟨.credit, 200, by decide⟩ transaction) ∧
      Sweeps tickEnv twoShards parRate ⟨.credit, 200, by decide⟩ transaction feesEarned swept.2 := by
  have hclosed : feesEarned.Closed :=
    ⟨rfl, rfl, rfl, rfl, rfl, rfl, rfl, rfl, rfl, rfl⟩
  have hlists : ListsHeads feesEarned.ledger.tables headsOfFees :=
    (runLedger_accounted tickEnv.digest earnedFees).listsHeads
  obtain ⟨hbacked, hrealized⟩ :
      sumOver isCustodialCredit headsOfFees feesEarned.ledger.tables * parRate.rate / 10 ^ parRate.scale ≤
        sumOver isTrustCashShard headsOfFees feesEarned.ledger.tables ∧
      sweptAmount (sweepFees tickEnv twoShards parRate headsOfFees ⟨⟨.credit, 200, by
        decide⟩, some "k"⟩ feesEarned).1 =
        some ⟨.credit, 200, by decide⟩ := by
    decide +kernel
  obtain ⟨hsweeps, -, -, -⟩ := sweepFees_takes_surplus tickEnv twoShards parRate earnedFees
    (fun _ _ _ => le_refl _)
    hclosed rfl hlists hbacked ⟨⟨.credit, 200, by decide⟩, some "k"⟩
  cases hrun : sweepFees tickEnv twoShards parRate headsOfFees ⟨⟨.credit, 200, by
    decide⟩, some "k"⟩ feesEarned with
  | mk result w' =>
    rw [hrun] at hrealized
    cases result with
    | error e => cases hrealized
    | ok outcome =>
      cases outcome with
      | duplicate transaction => cases hrealized
      | realized swept transaction =>
        obtain ⟨rfl, hswept⟩ := hsweeps swept transaction w' hrun
        exact ⟨transaction, rfl, hswept⟩

end EconomyLab
