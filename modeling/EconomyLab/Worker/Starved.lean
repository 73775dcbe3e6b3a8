import Mathlib.Data.List.Count
import EconomyLab.Foundation.Runs
import EconomyLab.Worker.Draining

/-!
# Which runs of the drain make progress

A run tries the first sellers that have a pending row, whatever the sign of it. A seller that
owes, or whose rows do not re-derive, is tried again in the next run and in every one after it,
and takes the place of a seller behind it. A run drains a share exactly when one of the sellers
it tries can be drained.
-/

namespace EconomyLab

open Foundation Text

/-- What the tables of a ledger ask of the legs of an entry. -/
structure Bookable (t : LedgerTables) (legs : List Leg) : Prop where
  checked : Checked t ⟨"", legs, []⟩
  balances : ∃ next, nextBalances t.balances legs = .ok next
  heads : ∀ account ∈ distinctAccounts legs, ∃ bytes, hashBytes (headOf t.heads account) = .ok bytes

theorem advanceLink_ok_iff (digest : Digest) {heads : Table AccountRef String} {posting : Posting}
    (hm : Encodable posting.fields) (account : AccountRef) :
    (∃ link, advanceLink digest heads posting account = .ok link) ↔
      ∃ bytes, hashBytes (headOf heads account) = .ok bytes := by
  obtain ⟨text, htext⟩ := hm
  constructor
  · rintro ⟨link, hlink⟩
    obtain ⟨bytes, hbytes, -⟩ := except_bind_ok.mp hlink
    exact ⟨bytes, hbytes⟩
  · rintro ⟨bytes, hbytes⟩
    simp only [advanceLink, chainHash, chainPreimage, hbytes, htext]
    exact ⟨_, rfl⟩

theorem mapM_ok_iff {ε α β : Type} {f : α → Except ε β} {xs : List α} :
    (∃ ys, xs.mapM f = .ok ys) ↔ ∀ x ∈ xs, ∃ y, f x = .ok y := by
  induction xs with
  | nil => exact iff_of_true ⟨[], rfl⟩ fun x hx => absurd hx List.not_mem_nil
  | cons x xs ih =>
    rw [List.forall_mem_cons, ← ih]
    constructor
    · rintro ⟨ys, hys⟩
      rw [List.mapM_cons] at hys
      obtain ⟨y, hy, hys⟩ := except_bind_ok.mp hys
      obtain ⟨rest, hrest, -⟩ := except_bind_ok.mp hys
      exact ⟨⟨y, hy⟩, rest, hrest⟩
    · rintro ⟨⟨y, hy⟩, rest, hrest⟩
      refine ⟨y :: rest, ?_⟩
      rw [List.mapM_cons, hy, hrest]
      rfl

/-- An entry is booked exactly when the tables take its legs, at any time and under any id. -/
theorem postEntry_ok_iff_bookable {l : MemoryLedger} (digest : Digest) (now : Int) (posting : Posting)
    (hz : ∀ leg ∈ posting.legs, leg.amount.minor ≠ 0) (hm : Encodable posting.fields) :
    (∃ transaction, (postEntry digest now posting l).1 = .ok transaction) ↔
      Bookable l.tables posting.legs := by
  have hchecks : Checked l.tables posting ↔ Checked l.tables ⟨"", posting.legs, []⟩ :=
    ⟨fun h => ⟨h.singleCurrency, h.balanced, h.known, h.covered⟩,
      fun h => ⟨h.singleCurrency, h.balanced, h.known, h.covered⟩⟩
  have hchain : (∃ links, advanceChain digest l.tables.heads posting = .ok links) ↔
      ∀ account ∈ distinctAccounts posting.legs, ∃ bytes, hashBytes (headOf l.tables.heads account) =
        .ok bytes := by
    simp only [← advanceLink_ok_iff digest hm]
    exact mapM_ok_iff
  constructor
  · rintro ⟨transaction, hok⟩
    rcases postEntry_row digest now posting l with ⟨e, he, -⟩ |
        ⟨row, next, hchecked, hrow, hlinks, hnext, -⟩
    · rw [he] at hok
      cases hok
    · rw [dropZeroLegs_eq hz] at hrow
      have hlegs : row.legs = posting.legs := congrArg Posting.legs hrow
      rw [hrow] at hchecked hlinks
      rw [hlegs] at hnext
      exact ⟨hchecks.mp hchecked, ⟨next, hnext⟩, hchain.mp ⟨_, hlinks⟩⟩
  · rintro ⟨hchecked, ⟨next, hnext⟩, hheads⟩
    obtain ⟨links, hlinks⟩ := hchain.mpr hheads
    obtain ⟨h1, h2, h3, h4⟩ := hchecks.mpr hchecked
    refine ⟨⟨posting.txnId, now, posting.legs, links, posting.fields⟩, ?_⟩
    simp only [postEntry, dropZeroLegs_eq hz, h1, h2, h3, h4, append, hlinks, commitPosting]
    simp only [MemoryLedger.tables] at hnext
    simp only [hnext, bind, Except.bind, pure, Except.pure]

/-! ## What a drain moves -/

/-- What a drain of claimed rows moves: the shards pay for the earnings and for the debt. -/
def drainMoves (sellerId : String) (rows : List AccrualRow) : List (AccountRef × Int) :=
  let parked := minorOf (sharesOf rows)
  let recovered := min parked (-minorOf (debtsOf rows))
  tally ((sharesOf rows).map fun row => (row.shard, row.amount.minor)) ++
    ([(earned sellerId, -(parked - recovered))].filter (·.2 ≠ 0) ++
      [(SYSTEM.RECEIVABLE, -recovered)].filter (·.2 ≠ 0))

structure Moves (legs : List Leg) (moves : List (AccountRef × Int)) : Prop where
  moved : legs.map (fun leg => (leg.account, leg.amount.minor)) = moves
  credits : ∀ leg ∈ legs, leg.amount.currency = .credit

namespace Moves

variable {legs legs' : List Leg} {moves moves' : List (AccountRef × Int)}

theorem append (h : Moves legs moves) (h' : Moves legs' moves') :
    Moves (legs ++ legs') (moves ++ moves') := by
  constructor
  · rw [List.map_append, h.moved, h'.moved]
  · intro leg hleg
    rcases List.mem_append.mp hleg with hleg | hleg
    · exact h.credits leg hleg
    · exact h'.credits leg hleg

theorem eq (h : Moves legs moves) (h' : Moves legs' moves) : legs = legs' := by
  induction legs generalizing legs' moves with
  | nil =>
    have hnone : legs'.map (fun leg => (leg.account, leg.amount.minor)) = [] := h'.moved.trans h.moved.symm
    exact (List.map_eq_nil_iff.mp hnone).symm
  | cons leg legs ih =>
    obtain ⟨hmoved, hcredits⟩ := h
    obtain ⟨hmoved', hcredits'⟩ := h'
    subst hmoved
    cases legs' with
    | nil => cases hmoved'
    | cons leg' legs' =>
      obtain ⟨hhead, htail⟩ := List.cons.inj hmoved'
      obtain ⟨haccount, hminor⟩ := Prod.mk.inj hhead
      have hcurrency := (hcredits leg List.mem_cons_self).trans (hcredits' leg' List.mem_cons_self).symm
      have hleg : leg = leg' := by
        obtain ⟨account, currency, minor, inRange⟩ := leg
        obtain ⟨account', currency', minor', inRange'⟩ := leg'
        simp only at haccount hminor hcurrency
        subst haccount hminor hcurrency
        rfl
      rw [hleg, ih ⟨rfl, fun l hl => hcredits l (List.mem_cons_of_mem _ hl)⟩
        ⟨htail, fun l hl => hcredits' l (List.mem_cons_of_mem _ hl)⟩]

end Moves

theorem creditSome_moves {account : AccountRef} {minor : Int} (hminor : 0 ≤ minor) {legs : List Leg}
    (h : creditSome account minor = .ok legs) : Moves legs ([(account, -minor)].filter (·.2 ≠ 0)) := by
  unfold creditSome at h
  split at h
  · rename_i hpositive
    obtain ⟨amount, hamount, h⟩ := except_bind_ok.mp h
    obtain ⟨leg, hleg, h⟩ := except_bind_ok.mp h
    obtain rfl := except_pure_ok.mp h
    obtain ⟨hcurrency, hwhole⟩ := toAmount_eq_ok.mp hamount
    obtain ⟨negated, hnegated, hleg⟩ := except_bind_ok.mp hleg
    obtain rfl := except_pure_ok.mp hleg
    obtain ⟨hsame, hnegative⟩ := toAmount_eq_ok.mp hnegated
    have hkept : [(account, -minor)].filter (fun move => move.2 ≠ 0) = [(account, -minor)] := by
      apply List.filter_eq_self.mpr
      intro move hmove
      obtain rfl := List.mem_singleton.mp hmove
      simp only [decide_eq_true_eq]
      omega
    rw [hkept]
    constructor
    · rw [List.map_singleton, hnegative, hwhole]
    · intro leg hleg
      obtain rfl := List.mem_singleton.mp hleg
      exact hsame.trans hcurrency
  · rename_i hnone
    cases h
    obtain rfl : minor = 0 := by omega
    exact ⟨rfl, fun leg hleg => absurd hleg List.not_mem_nil⟩

theorem creditSome_ok_iff (account : AccountRef) {minor : Int} (hminor : 0 ≤ minor) :
    (∃ legs, creditSome account minor = .ok legs) ↔ I64 minor := by
  unfold creditSome
  split
  · constructor
    · rintro ⟨legs, h⟩
      obtain ⟨amount, hamount, -⟩ := except_bind_ok.mp h
      exact (toAmount_eq_ok.mp hamount).2 ▸ amount.inRange
    · intro hfits
      have hnegated : I64 (-minor) := by
        unfold I64 at hfits ⊢
        omega
      simp only [credit, toAmount_ok hfits, toAmount_ok hnegated, bind, Except.bind, pure, Except.pure]
      exact ⟨_, rfl⟩
  · refine iff_of_true ⟨[], rfl⟩ ?_
    obtain rfl : minor = 0 := by omega
    decide

theorem parked_moves {shares : List (AccountRef × Int)} {legs : List Leg}
    (h : (shares.mapM fun share => do return debit share.1 (← toAmount .credit share.2) :
      Except Fault (List Leg)) =
      .ok legs) : Moves legs shares := by
  induction shares generalizing legs with
  | nil =>
    cases h
    exact ⟨rfl, fun leg hleg => absurd hleg List.not_mem_nil⟩
  | cons share shares ih =>
    rw [List.mapM_cons] at h
    obtain ⟨leg, hleg, h⟩ := except_bind_ok.mp h
    obtain ⟨rest, hrest, h⟩ := except_bind_ok.mp h
    obtain rfl := except_pure_ok.mp h
    obtain ⟨amount, hamount, hleg⟩ := except_bind_ok.mp hleg
    obtain rfl := except_pure_ok.mp hleg
    obtain ⟨hcurrency, hminor⟩ := toAmount_eq_ok.mp hamount
    have hfirst : Moves [debit share.1 amount] [share] := by
      constructor
      · exact congrArg (fun minor => [(share.1, minor)]) hminor
      · intro leg hleg
        obtain rfl := List.mem_singleton.mp hleg
        exact hcurrency
    exact hfirst.append (ih hrest)

theorem parked_ok_iff {shares : List (AccountRef × Int)} :
    (∃ legs, (shares.mapM fun share => do return debit share.1 (← toAmount .credit share.2) :
      Except Fault (List Leg)) = .ok legs) ↔ ∀ share ∈ shares, I64 share.2 := by
  rw [mapM_ok_iff]
  apply forall₂_congr
  intro share _
  constructor
  · rintro ⟨leg, hleg⟩
    obtain ⟨amount, hamount, -⟩ := except_bind_ok.mp hleg
    exact (toAmount_eq_ok.mp hamount).2 ▸ amount.inRange
  · intro hfits
    simp only [toAmount_ok hfits, bind, Except.bind, pure, Except.pure]
    exact ⟨_, rfl⟩

variable {digest : Digest} {env : Env} {negatives rows : List AccrualRow} {sellerId : String}
  {remaining : Int} {w : World} {row : AccrualRow} {plan : DrainPlan}

theorem byShard_pos (hpositives : ∀ row ∈ rows, 0 < row.amount.minor)
    {share : AccountRef × Int} (h : share ∈ tally (rows.map fun row => (row.shard, row.amount.minor))) :
    0 < share.2 := by
  obtain ⟨hkey, htotal⟩ := mem_tally.mp h
  obtain ⟨entry, hentry, hshard⟩ := List.mem_map.mp hkey
  obtain ⟨row, hrow, rfl⟩ := List.mem_map.mp hentry
  have hsome : (rows.filter fun r => r.shard = share.1) ≠ [] :=
    List.ne_nil_of_mem (List.mem_filter.mpr ⟨hrow, decide_eq_true hshard⟩)
  have hpositive := minorOf_pos hsome fun r hr => hpositives r (List.mem_filter.mp hr).1
  have hsum : total (rows.map fun r => (r.shard, r.amount.minor)) share.1 =
      minorOf (rows.filter fun r => r.shard = share.1) := by
    rw [total, minorOf, List.filter_map, List.map_map]
    rfl
  omega

section Plan

variable {sellerId : String} {rows : List AccrualRow}

theorem recovered_nonneg (rows : List AccrualRow) :
    0 ≤ min (minorOf (sharesOf rows)) (-minorOf (debtsOf rows)) ∧
      0 ≤ minorOf (sharesOf rows) - min (minorOf (sharesOf rows)) (-minorOf (debtsOf rows)) := by
  have hdebt : minorOf (debtsOf rows) ≤ 0 := minorOf_nonpos fun row hrow => (mem_debtsOf.mp hrow).2
  have hparked : 0 ≤ minorOf (sharesOf rows) := by
    apply List.sum_nonneg
    intro x hx
    obtain ⟨row, hrow, rfl⟩ := List.mem_map.mp hx
    exact (sharesOf_pos row hrow).le
  omega

theorem consumeRecovery_rows (rows : List AccrualRow) : ∃ recovery,
    consumeRecovery (debtsOf rows) (minorOf (sharesOf rows)) = .ok recovery ∧
      Recovers (debtsOf rows) (minorOf (sharesOf rows)) recovery := by
  obtain ⟨hrecovered, hearned⟩ := recovered_nonneg rows
  exact consumeRecovery_eq (fun row hrow => (mem_debtsOf.mp hrow).2) (by omega)

theorem planDrain_moves (h : planDrain sellerId rows = .ok plan) :
    Moves plan.legs (drainMoves sellerId rows) := by
  obtain ⟨hrecovered, hearned⟩ := recovered_nonneg rows
  obtain ⟨recovery, hrecovery, hrecovers⟩ := consumeRecovery_rows rows
  obtain ⟨recovery', hrecovery', h⟩ := except_bind_ok.mp h
  obtain rfl : recovery = recovery' := Except.ok.inj (hrecovery.symm.trans hrecovery')
  obtain ⟨legs, hlegs, h⟩ := except_bind_ok.mp h
  obtain rfl := except_pure_ok.mp h
  obtain ⟨parked, hparked, hlegs⟩ := except_bind_ok.mp hlegs
  obtain ⟨paid, hpaid, hlegs⟩ := except_bind_ok.mp hlegs
  obtain ⟨repaid, hrepaid, hlegs⟩ := except_bind_ok.mp hlegs
  obtain rfl := except_pure_ok.mp hlegs
  rw [hrecovers.amount] at hpaid hrepaid
  rw [List.append_assoc]
  exact (parked_moves hparked).append
    ((creditSome_moves hearned hpaid).append (creditSome_moves hrecovered hrepaid))

theorem planDrain_ok_iff : (∃ plan, planDrain sellerId rows = .ok plan) ↔
    ∀ move ∈ drainMoves sellerId rows, I64 |move.2| := by
  obtain ⟨hrecovered, hearned⟩ := recovered_nonneg rows
  obtain ⟨recovery, hrecovery, hrecovers⟩ := consumeRecovery_rows rows
  have hamount := hrecovers.amount
  have hzero : I64 0 := by decide
  have hcredit : ∀ account minor, 0 ≤ minor →
      ((∀ move ∈ [(account, -minor)].filter (fun move : AccountRef × Int => move.2 ≠ 0), I64 |move.2|) ↔
        I64 minor) := by
    intro account minor hminor
    by_cases hnone : minor = 0
    · subst hnone
      exact iff_of_true (fun move hmove => absurd hmove List.not_mem_nil) hzero
    · have hkept : [(account, -minor)].filter (fun move : AccountRef × Int => move.2 ≠ 0) =
          [(account, -minor)] := by
        apply List.filter_eq_self.mpr
        intro move hmove
        obtain rfl := List.mem_singleton.mp hmove
        simp only [decide_eq_true_eq]
        omega
      rw [hkept, List.forall_mem_singleton]
      simp only [abs_neg, abs_of_nonneg hminor]
  have hshards : (∀ move ∈ tally ((sharesOf rows).map fun row => (row.shard, row.amount.minor)),
    I64 |move.2|) ↔
      ∀ move ∈ tally ((sharesOf rows).map fun row => (row.shard, row.amount.minor)), I64 move.2 := by
    apply forall₂_congr
    intro move hmove
    rw [abs_of_pos (byShard_pos sharesOf_pos hmove)]
  simp only [drainMoves, List.forall_mem_append, hcredit _ _ hearned, hcredit _ _ hrecovered, hshards,
    ← parked_ok_iff, ← creditSome_ok_iff (earned sellerId) hearned,
    ← creditSome_ok_iff SYSTEM.RECEIVABLE hrecovered]
  constructor
  · rintro ⟨plan, hplan⟩
    obtain ⟨recovery', hrecovery', hplan⟩ := except_bind_ok.mp hplan
    obtain rfl : recovery = recovery' := Except.ok.inj (hrecovery.symm.trans hrecovery')
    obtain ⟨legs, hlegs, -⟩ := except_bind_ok.mp hplan
    obtain ⟨parked, hparked, hlegs⟩ := except_bind_ok.mp hlegs
    obtain ⟨paid, hpaid, hlegs⟩ := except_bind_ok.mp hlegs
    obtain ⟨repaid, hrepaid, -⟩ := except_bind_ok.mp hlegs
    rw [hamount] at hpaid hrepaid
    exact ⟨⟨parked, hparked⟩, ⟨paid, hpaid⟩, ⟨repaid, hrepaid⟩⟩
  · rintro ⟨⟨parked, hparked⟩, ⟨paid, hpaid⟩, ⟨repaid, hrepaid⟩⟩
    rw [← hamount] at hpaid hrepaid
    refine ⟨⟨recovery, parked ++ paid ++ repaid⟩, ?_⟩
    simp only [planDrain, drainLegs, hrecovery, hpaid, hrepaid, bind, Except.bind, pure, Except.pure]
    simp only [bind, Except.bind, pure, Except.pure] at hparked
    rw [hparked]

end Plan

def SplitDebt (negatives : List AccrualRow) (remaining : Int) (row : AccrualRow) : Prop :=
  ∃ before after, negatives = before ++ row :: after ∧ -minorOf before < remaining ∧
    remaining < -minorOf before + -row.amount.minor

theorem SplitDebt.cons_iff {first row : AccrualRow} : SplitDebt (first :: negatives) remaining row ↔
      (row = first ∧ 0 < remaining ∧ remaining < -first.amount.minor) ∨
        SplitDebt negatives (remaining - -first.amount.minor) row := by
  constructor
  · rintro ⟨before, after, heq, hreached, hshort⟩
    cases before with
    | nil =>
      obtain ⟨rfl, rfl⟩ := List.cons.inj heq
      change -0 < remaining at hreached
      change remaining < -0 + -first.amount.minor at hshort
      exact Or.inl ⟨rfl, by omega, by omega⟩
    | cons head before =>
      obtain ⟨rfl, rfl⟩ := List.cons.inj heq
      rw [minorOf_cons] at hreached hshort
      exact Or.inr ⟨before, after, rfl, by omega, by omega⟩
  · rintro (⟨rfl, hreached, hshort⟩ | ⟨before, after, rfl, hreached, hshort⟩)
    · refine ⟨[], negatives, rfl, ?_, ?_⟩
      · change -0 < remaining
        omega
      · change remaining < -0 + -row.amount.minor
        omega
    · refine ⟨first :: before, after, rfl, ?_, ?_⟩
      · rw [minorOf_cons]
        omega
      · rw [minorOf_cons]
        omega

theorem SplitDebt.pos (h : ∀ row ∈ negatives, row.amount.minor < 0)
    (hsplit : SplitDebt negatives remaining row) : 0 < remaining := by
  obtain ⟨before, after, rfl, hreached, -⟩ := hsplit
  have hbefore := minorOf_nonpos fun r hr => h r (List.mem_append_left _ hr)
  omega

def Residual.key (residual : Residual) : String :=
  accrualKey residual.orderId residual.sellerId residual.seq

def AccrualRow.nextKey (row : AccrualRow) : String := accrualKey row.orderId row.sellerId (row.seq + 1)

/-- The residual of a recovery has the next key of the row that is split. -/
theorem consumeRecovery_residual
    (h : ∀ row ∈ negatives, row.amount.minor < 0) (hremaining : 0 ≤ remaining)
    {recovery : Recovery} (hrecovery : consumeRecovery negatives remaining = .ok recovery) (key : String) :
    (∃ residual, recovery.residual = some residual ∧ residual.key = key) ↔
      ∃ row, SplitDebt negatives remaining row ∧ row.nextKey = key := by
  induction negatives generalizing remaining recovery with
  | nil =>
    cases hrecovery
    refine iff_of_false (fun ⟨residual, hnone, _⟩ => by cases hnone) ?_
    rintro ⟨row, ⟨before, after, hnil, -⟩, -⟩
    exact List.append_ne_nil_of_right_ne_nil before (List.cons_ne_nil row after) hnil.symm
  | cons first negatives ih =>
    have hfirst := h first List.mem_cons_self
    have hrest : ∀ row ∈ negatives, row.amount.minor < 0 := fun row hrow =>
      h row (List.mem_cons_of_mem _ hrow)
    unfold consumeRecovery at hrecovery
    by_cases hnone : remaining = 0
    · rw [if_pos hnone] at hrecovery
      cases hrecovery
      refine iff_of_false (fun ⟨residual, hresidual, _⟩ => by cases hresidual) ?_
      rintro ⟨row, hsplit, -⟩
      exact absurd (hsplit.pos h) (by omega)
    · rw [if_neg hnone] at hrecovery
      simp only [SplitDebt.cons_iff]
      by_cases hwhole : -first.amount.minor ≤ remaining
      · rw [if_pos hwhole] at hrecovery
        obtain ⟨rest, hconsumed, hrecovery⟩ := except_bind_ok.mp hrecovery
        obtain rfl := except_pure_ok.mp hrecovery
        rw [ih hrest (by omega) hconsumed]
        apply exists_congr
        intro row
        apply and_congr_left
        intro _
        refine (or_iff_right ?_).symm
        rintro ⟨-, -, hshort⟩
        omega
      · rw [if_neg hwhole] at hrecovery
        obtain ⟨amount, hamount, hrecovery⟩ := except_bind_ok.mp hrecovery
        obtain rfl := except_pure_ok.mp hrecovery
        constructor
        · rintro ⟨residual, hresidual, hkey⟩
          obtain rfl := Option.some.inj hresidual
          exact ⟨first, Or.inl ⟨rfl, by omega, by omega⟩, hkey⟩
        · rintro ⟨row, hsplit | hsplit, hkey⟩
          · obtain ⟨rfl, -, -⟩ := hsplit
            exact ⟨_, rfl, hkey⟩
          · exact absurd (hsplit.pos hrest) (by omega)

theorem AccrualTables.Filed.get_eq_none {t : AccrualTables} (h : t.Filed) {key : String} :
    t.rows.get key = none ↔ ∀ row ∈ t.listed, row.key ≠ key := by
  constructor
  · rintro hnone row hrow rfl
    rw [h.mem_listed.mp hrow] at hnone
    cases hnone
  · intro hall
    cases hget : t.rows.get key with
    | none => rfl
    | some row =>
      have hkey := h.keyed key row hget
      subst hkey
      exact absurd rfl (hall row (h.mem_listed.mpr hget))

/-- The claimed rows re-derive, one is a share, what they move fits and is booked or was, and the
debt that is split has a free key to go on under. -/
structure Drainable (digest : Digest) (limit : Nat) (w : World) (sellerId : String) : Prop where
  provable : ∀ row ∈ w.claimedRows sellerId limit, assertRowProvable digest w.ledger.tables row = .ok ()
  share : ∃ row ∈ w.claimedRows sellerId limit, 0 < row.amount.minor
  fits : ∀ move ∈ drainMoves sellerId (w.claimedRows sellerId limit), I64 |move.2|
  booked : (w.ledger.tables.findPosting (drainTxnId digest (w.claimedRows sellerId limit))).isSome = true ∨
    ∃ legs, Moves legs (drainMoves sellerId (w.claimedRows sellerId limit)) ∧ Bookable w.ledger.tables legs
  free : ∀ row, SplitDebt (debtsOf (w.claimedRows sellerId limit))
    (minorOf (sharesOf (w.claimedRows sellerId limit))) row →
    ∀ other ∈ w.accruals.rows.listed, other.key ≠ row.nextKey

theorem assertRowsProvable_ok_iff {t : LedgerTables} :
    assertRowsProvable digest t rows = .ok () ↔ ∀ row ∈ rows, assertRowProvable digest t row = .ok () := by
  induction rows with
  | nil => exact iff_of_true rfl fun row hrow => absurd hrow List.not_mem_nil
  | cons row rows ih =>
    rw [List.forall_mem_cons, ← ih]
    constructor
    · intro h
      obtain ⟨_, hrow, hrows⟩ := except_bind_ok.mp h
      exact ⟨hrow, hrows⟩
    · rintro ⟨hrow, hrows⟩
      exact except_bind_ok.mpr ⟨(), hrow, hrows⟩

theorem canonicalItems_strings (texts : List String) :
    ∃ out, canonicalItems (texts.map Json.string) = .ok out := by
  induction texts with
  | nil => exact ⟨[], by simp only [List.map_nil, canonicalItems]⟩
  | cons text texts ih =>
    obtain ⟨out, hout⟩ := ih
    refine ⟨quote text :: out, ?_⟩
    simp only [List.map_cons, canonicalItems, canonicalMeta, hout]
    rfl

theorem drainMeta_encodable (sellerId : String) (rows : List AccrualRow) (recovery : Recovery) :
    Encodable (drainMeta sellerId rows recovery) := by
  obtain ⟨out, hout⟩ := canonicalItems_strings (sortStrings (rows.map AccrualRow.orderId).eraseDups)
  unfold Encodable drainMeta
  cases recovery.residual with
  | none =>
    simp only [List.append_nil, canonicalMeta, canonicalFields, hout, bind, Except.bind, pure, Except.pure]
    exact ⟨_, rfl⟩
  | some residual =>
    simp only [List.cons_append, List.nil_append, canonicalMeta, canonicalFields, hout, bind, Except.bind,
      pure, Except.pure]
    exact ⟨_, rfl⟩

theorem drainMoves_ne_zero : ∀ move ∈ drainMoves sellerId rows, move.2 ≠ 0 := by
  intro move hmove
  rcases List.mem_append.mp hmove with hshare | hcredit
  · exact (byShard_pos sharesOf_pos hshare).ne'
  · rcases List.mem_append.mp hcredit with hearned | hreceivable
    · exact of_decide_eq_true (List.mem_filter.mp hearned).2
    · exact of_decide_eq_true (List.mem_filter.mp hreceivable).2

theorem postDrain_ok_iff (hplan : planDrain sellerId rows = .ok plan) :
    (∃ u w', (postDrain env sellerId rows plan).run w = (.ok u, w')) ↔
      (w.ledger.tables.findPosting (drainTxnId env.digest rows)).isSome = true ∨
        ∃ legs, Moves legs (drainMoves sellerId rows) ∧ Bookable w.ledger.tables legs := by
  have hmoves := planDrain_moves hplan
  have hbooks : (∃ legs, Moves legs (drainMoves sellerId rows) ∧ Bookable w.ledger.tables legs) ↔
      Bookable w.ledger.tables plan.legs := by
    constructor
    · rintro ⟨legs, hlegs, hbookable⟩
      exact hlegs.eq hmoves ▸ hbookable
    · exact fun hbookable => ⟨plan.legs, hmoves, hbookable⟩
  have hz : ∀ leg ∈ plan.legs, leg.amount.minor ≠ 0 := by
    intro leg hleg
    exact drainMoves_ne_zero (leg.account, leg.amount.minor) (hmoves.moved ▸ List.mem_map_of_mem hleg)
  rw [hbooks, ← postEntry_ok_iff_bookable env.digest (env.clock w.ticks)
    ⟨drainTxnId env.digest rows, plan.legs, drainMeta sellerId rows plan.recovery⟩ hz
    (drainMeta_encodable sellerId rows plan.recovery)]
  have hexisting : (Txn.findPosting (drainTxnId env.digest rows)).run w =
      (.ok (w.ledger.tables.findPosting (drainTxnId env.digest rows)), w) := rfl
  unfold postDrain
  rw [Txn.run_bind_ok hexisting]
  by_cases hfiled : (w.ledger.tables.findPosting (drainTxnId env.digest rows)).isSome = true
  · rw [if_pos hfiled]
    exact iff_of_true ⟨(), w, rfl⟩ (Or.inl hfiled)
  · rw [if_neg hfiled, or_iff_right hfiled]
    constructor
    · rintro ⟨u, w', h⟩
      obtain ⟨transaction, w₁, hposted, -⟩ := Txn.bind_ok h
      exact ⟨transaction, congrArg Prod.fst hposted⟩
    · rintro ⟨transaction, hposted⟩
      have hrun : (Txn.postEntry env ⟨drainTxnId env.digest rows, plan.legs,
          drainMeta sellerId rows plan.recovery⟩).run w = (.ok transaction, _) := Prod.ext hposted rfl
      rw [Txn.run_bind_ok hrun]
      exact ⟨(), _, rfl⟩

theorem settleRows_ok_iff (rows : List AccrualRow) (recovery : Recovery) (txnId : String) (now : Int)
    (hfiled : w.accruals.rows.Filed) :
    (∃ u w', (settleRows rows recovery txnId now).run w = (.ok u, w')) ↔
      ∀ residual, recovery.residual = some residual → ∀ other ∈ w.accruals.rows.listed, other.key ≠
        residual.key := by
  have hmark := AccrualTables.mark_listed (by decide : AccrualStatus.drained ≠ .pending) txnId
    ((sharesOf rows ++ recovery.consumed).map AccrualRow.place) hfiled
  obtain ⟨hfiled₁, hlisted₁⟩ := hmark
  have hmarked : (Txn.markAccruals ((sharesOf rows ++ recovery.consumed).map AccrualRow.place) .drained
    txnId).run w =
      (.ok (), { w with
        accruals := (AccrualWrite.mark ((sharesOf rows ++ recovery.consumed).map AccrualRow.place)
        .drained txnId).run w.accruals }) := rfl
  unfold settleRows
  rw [Txn.run_bind_ok hmarked]
  cases recovery.residual with
  | none => exact iff_of_true ⟨(), _, rfl⟩ fun residual hnone => by cases hnone
  | some residual =>
    have hkeys : (∀ other ∈ w.accruals.rows.listed, other.key ≠ residual.key) ↔
        ((AccrualWrite.mark ((sharesOf rows ++ recovery.consumed).map AccrualRow.place) .drained txnId).run
          w.accruals).rows.rows.get residual.key = none := by
      rw [hfiled₁.get_eq_none, hlisted₁, List.forall_mem_map]
      simp only [AccrualTables.settledRow_key]
    have hput : (∀ residual', some residual = some residual' →
        ∀ other ∈ w.accruals.rows.listed, other.key ≠ residual'.key) ↔
        ∀ other ∈ w.accruals.rows.listed, other.key ≠ residual.key :=
      ⟨fun h => h residual rfl, fun h residual' hsame => Option.some.inj hsame ▸ h⟩
    rw [hput, hkeys, ← Option.not_isSome_iff_eq_none]
    have hkey : (residual.row txnId now).key = residual.key := rfl
    simp only [Txn.putAccruals, Txn.firstTaken, OrderedTable.has, hkey]
    split
    · rename_i htaken
      split at htaken
      · rename_i hsome
        refine iff_of_false ?_ (fun hfree => hfree hsome)
        rintro ⟨u, w', h⟩
        cases h
      · cases htaken
    · rename_i hfree
      split at hfree
      · cases hfree
      · rename_i hnone
        exact iff_of_true ⟨_, _, rfl⟩ hnone

/-- The drain of a seller settles exactly when the seller can be drained. -/
theorem drainSeller_ok_iff (env : Env) (sellerId : String) (now : Int) (limit : Nat) {w : World}
    (hfiled : w.accruals.rows.Filed) :
    (∃ settled w', (drainSeller env sellerId now limit).run w = (.ok (some settled), w')) ↔
      Drainable env.digest limit w sellerId := by
  have hnegative : ∀ row ∈ debtsOf (w.claimedRows sellerId limit), row.amount.minor < 0 :=
    fun row hrow => (mem_debtsOf.mp hrow).2
  obtain ⟨hrecovered, hearned⟩ := recovered_nonneg (w.claimedRows sellerId limit)
  have hresidual : ∀ {plan : DrainPlan}, planDrain sellerId (w.claimedRows sellerId limit) = .ok plan →
      ((∀ residual, plan.recovery.residual = some residual → ∀ other ∈ w.accruals.rows.listed, other.key ≠
        residual.key) ↔
        ∀ row, SplitDebt (debtsOf (w.claimedRows sellerId limit))
          (minorOf (sharesOf (w.claimedRows sellerId limit))) row →
          ∀ other ∈ w.accruals.rows.listed, other.key ≠ row.nextKey) := by
    intro plan hplan
    obtain ⟨recovery, hrecovery, hplan⟩ := except_bind_ok.mp hplan
    obtain ⟨legs, -, hplan⟩ := except_bind_ok.mp hplan
    obtain rfl := except_pure_ok.mp hplan
    have hsame := consumeRecovery_residual hnegative (by omega) hrecovery
    constructor
    · intro hall row hsplit other hother
      obtain ⟨residual, hres, hkey⟩ := (hsame row.nextKey).mpr ⟨row, hsplit, rfl⟩
      exact hkey ▸ hall residual hres other hother
    · intro hall residual hres other hother
      obtain ⟨row, hsplit, hkey⟩ := (hsame residual.key).mp ⟨residual, hres, rfl⟩
      exact hkey ▸ hall row hsplit other hother
  constructor
  · rintro ⟨settled, w', h⟩
    obtain ⟨hprovable, ⟨hanswer, -⟩ | ⟨plan, w₁, hshares, hplan, hposted, hsettled, -⟩⟩ :=
      drainSeller_answers h
    · cases hanswer
    obtain ⟨-, hsame⟩ := postDrain_posts hposted
    obtain ⟨row, hrow⟩ := List.exists_mem_of_ne_nil _ hshares
    refine ⟨assertRowsProvable_ok_iff.mp hprovable, ⟨row, mem_sharesOf.mp hrow⟩,
      planDrain_ok_iff.mp ⟨plan, hplan⟩, (postDrain_ok_iff hplan).mp ⟨_, _, hposted⟩, ?_⟩
    have hfree := (settleRows_ok_iff _ _ _ _ (hsame ▸ hfiled)).mp ⟨_, _, hsettled⟩
    rw [hsame] at hfree
    exact (hresidual hplan).mp hfree
  · intro hdrainable
    obtain ⟨plan, hplan⟩ := planDrain_ok_iff.mpr hdrainable.fits
    obtain ⟨row, hrow⟩ := hdrainable.share
    have hshares : sharesOf (w.claimedRows sellerId limit) ≠ [] :=
      List.ne_nil_of_mem (mem_sharesOf.mpr hrow)
    obtain ⟨_, w₁, hposted⟩ := (postDrain_ok_iff hplan).mpr hdrainable.booked
    obtain ⟨-, hsame⟩ := postDrain_posts hposted
    have hfree : ∀ residual, plan.recovery.residual = some residual →
        ∀ other ∈ w₁.accruals.rows.listed, other.key ≠ residual.key := by
      rw [hsame]
      exact (hresidual hplan).mpr hdrainable.free
    obtain ⟨_, w₂, hsettled⟩ := (settleRows_ok_iff (w.claimedRows sellerId limit) plan.recovery
      (drainTxnId env.digest (w.claimedRows sellerId limit)) now (hsame ▸ hfiled)).mpr hfree
    have hclaimed : (Txn.read fun w => .ok (claimSellerPending w.accruals.rows.listed sellerId limit)).run
      w =
        (.ok (w.claimedRows sellerId limit), w) := rfl
    have hprovable : (Txn.read fun v => assertRowsProvable env.digest v.ledger.tables
      (w.claimedRows sellerId limit)).run w =
        (.ok (), w) := Prod.ext (assertRowsProvable_ok_iff.mpr hdrainable.provable) rfl
    have hplanned : (Txn.lift (planDrain sellerId (w.claimedRows sellerId limit))).run w = (.ok plan, w) :=
      Prod.ext hplan rfl
    unfold drainSeller
    rw [Txn.run_bind_ok hclaimed, Txn.run_bind_ok hprovable, if_neg hshares, Txn.run_bind_ok hplanned,
      Txn.run_bind_ok hposted, Txn.run_bind_ok hsettled]
    exact ⟨_, _, rfl⟩

/-! ## What a run keeps -/

theorem postDrain_log
    {w w' : World} {u : Unit} (h : (postDrain env sellerId rows plan).run w = (.ok u, w')) :
    ∃ later, w'.ledger.tables.log = w.ledger.tables.log ++ later := by
  rcases postDrain_cases h with ⟨-, rfl⟩ | ⟨-, transaction, hposted⟩
  · exact ⟨[], (List.append_nil _).symm⟩
  · obtain ⟨row, -, -, -, hlog, -⟩ := postEntry_posted hposted
    exact ⟨[row], hlog⟩

theorem drainSeller_log {now : Int} {limit : Nat} {w w' : World}
    {settled : Drained} (hfiled : w.accruals.rows.Filed)
    (h : (drainSeller env sellerId now limit).run w = (.ok (some settled), w')) :
    ∃ later, w'.ledger.tables.log = w.ledger.tables.log ++ later := by
  obtain ⟨-, ⟨hanswer, -⟩ | ⟨plan, w₁, -, -, hposted, hsettled, -⟩⟩ := drainSeller_answers h
  · cases hanswer
  · obtain ⟨-, hsame⟩ := postDrain_posts hposted
    obtain ⟨hledger, -, -⟩ := settleRows_settles (hsame ▸ hfiled) hsettled
    rw [hledger]
    exact postDrain_log hposted

theorem assertRowProvable_grown {t t' : LedgerTables} {later : List StoredPosting}
    (hlog : t'.log = t.log ++ later) (h : assertRowProvable digest t row = .ok ()) :
    assertRowProvable digest t' row = .ok () := by
  have hsame : verifiedPosting digest t' row.txnId = verifiedPosting digest t row.txnId := by
    cases hfind : t.log.find? (·.txnId = row.txnId) with
    | none =>
      have hnone : verifiedPosting digest t row.txnId = .ok none := by
        rw [verifiedPosting, LedgerTables.findPosting, hfind]
        rfl
      rw [assertRowProvable, hnone] at h
      cases h
    | some stored =>
      have hfind' : t'.log.find? (·.txnId = row.txnId) = some stored := by
        rw [hlog, List.find?_append, hfind]
        rfl
      simp only [verifiedPosting, LedgerTables.findPosting, LedgerTables.links, hfind, hfind']
  rw [assertRowProvable, hsame]
  exact h

def pendingShares (w : World) : Nat :=
  w.accruals.rows.listed.countP fun row => row.status = .pending && 0 < row.amount.minor

structure DrainKeeps (w w' : World) : Prop where
  closed : w'.Closed
  sound : w'.Sound
  filed : w'.accruals.rows.Filed
  log : ∃ later, w'.ledger.tables.log = w.ledger.tables.log ++ later
  rows : ∀ row ∈ w.accruals.rows.listed, row ∈ w'.accruals.rows.listed ∨
    row.status = .pending ∧ ∃ txnId, row.drainedBy txnId ∈ w'.accruals.rows.listed
  shares : pendingShares w' ≤ pendingShares w

def DrainsShare (w w' : World) : Prop :=
  ∃ row ∈ w.accruals.rows.listed, row.status = .pending ∧ 0 < row.amount.minor ∧
    ∃ txnId, row.drainedBy txnId ∈ w'.accruals.rows.listed

theorem DrainKeeps.refl (hclosed : w.Closed) (hsound : w.Sound) (hfiled : w.accruals.rows.Filed) :
    DrainKeeps w w :=
  ⟨hclosed, hsound, hfiled, ⟨[], (List.append_nil _).symm⟩, fun _ hrow => Or.inl hrow, le_refl _⟩

theorem DrainKeeps.trans {w w' w'' : World} (h : DrainKeeps w w') (h' : DrainKeeps w' w'') :
    DrainKeeps w w'' where
  closed := h'.closed
  sound := h'.sound
  filed := h'.filed
  log := by
    obtain ⟨later, hlater⟩ := h.log
    obtain ⟨later', hlater'⟩ := h'.log
    exact ⟨later ++ later', by rw [hlater', hlater, List.append_assoc]⟩
  rows := by
    intro row hrow
    rcases h.rows row hrow with hkept | ⟨hpending, txnId, hdrained⟩
    · exact h'.rows row hkept
    · rcases h'.rows _ hdrained with hkept | ⟨hpending', -⟩
      · exact Or.inr ⟨hpending, txnId, hkept⟩
      · cases hpending'
  shares := h'.shares.trans h.shares

theorem DrainsShare.kept {w w' w'' : World} (h : DrainsShare w w') (h' : DrainKeeps w' w'') :
    DrainsShare w w'' := by
  obtain ⟨row, hrow, hpending, hpositive, txnId, hdrained⟩ := h
  refine ⟨row, hrow, hpending, hpositive, txnId, ?_⟩
  rcases h'.rows _ hdrained with hkept | ⟨hpending', -⟩
  · exact hkept
  · cases hpending'

theorem countP_lt_countP {α : Type} {p q : α → Bool} {xs : List α}
    (himp : ∀ x ∈ xs, p x = true → q x = true) {x : α} (hx : x ∈ xs) (hq : q x = true) (hp : p x = false) :
    xs.countP p < xs.countP q := by
  have hfilter : xs.countP p = (xs.filter q).countP p := by
    rw [List.countP_filter]
    apply List.countP_congr
    intro y hy
    rw [Bool.and_eq_true]
    exact ⟨fun h => ⟨h, himp y hy h⟩, fun h => h.1⟩
  rw [hfilter, List.countP_eq_length_filter (p := q)]
  exact List.countP_lt_length_iff.mpr ⟨x, List.mem_filter.mpr ⟨hx, hq⟩, hp⟩

section Run

variable {env : Env} {now : Int} {limit : Nat} {w w' : World}

theorem drainSeller_keeps {settled : Drained} (hclosed : w.Closed) (hsound : w.Sound)
    (hfiled : w.accruals.rows.Filed)
    (h : transaction (drainSeller env sellerId now limit) w = (.ok (some settled), w')) :
    DrainKeeps w w' ∧ DrainsShare w w' ∧ pendingShares w' < pendingShares w := by
  have hclosed' := transaction_closed (drainSeller env sellerId now limit) hclosed
  have hsound' := transaction_sound (drainSeller env sellerId now limit) hclosed hsound
  rw [h] at hclosed' hsound'
  rcases transaction_cases (drainSeller env sellerId now limit) hclosed hsound with
    ⟨answer, done, hrun, htransaction⟩ | ⟨e, done, -, htransaction, -⟩
  · rw [h] at htransaction
    obtain rfl : some settled = answer := Except.ok.inj (congrArg Prod.fst htransaction)
    obtain rfl : w' = done.commitAll := congrArg Prod.snd htransaction
    have hopened : w.opened.accruals.rows.Filed := hfiled
    obtain ⟨plan, hsettles⟩ := drainSeller_settles hopened hrun
    obtain ⟨later, hlog⟩ := drainSeller_log hopened hrun
    have hlisted : done.commitAll.accruals.rows.listed = _ := hsettles.listed
    obtain ⟨row, hrow⟩ := List.exists_mem_of_ne_nil _ hsettles.some_shares
    have hmarked := List.mem_append_left plan.recovery.consumed hrow
    obtain ⟨hfound, -, hpending⟩ := mem_claimed (hsettles.marked hmarked)
    have hpositive := sharesOf_pos row hrow
    have hdrained : row.drainedBy settled.txnId ∈ done.commitAll.accruals.rows.listed :=
      hsettles.drained hmarked
    have hfewer : pendingShares done.commitAll < pendingShares w := by
      have hresidual : (plan.recovery.residual.map fun residual =>
        residual.row settled.txnId now).toList.countP
          (fun row => row.status = .pending && 0 < row.amount.minor) = 0 := by
        apply List.countP_eq_zero.mpr
        intro rest hrest
        obtain ⟨residual, hresidual, rfl⟩ := Option.map_eq_some_iff.mp (Option.mem_toList.mp hrest)
        have hnegative := (hsettles.recovers.residual residual hresidual).1
        have hminor : (residual.row settled.txnId now).amount.minor = residual.amount.minor := rfl
        simp only [hminor, Bool.and_eq_true, decide_eq_true_eq]
        omega
      have htxn := congrArg Drained.txnId hsettles.reports
      simp only at htxn
      unfold pendingShares
      rw [hlisted, settledRows, List.countP_append, ← htxn, hresidual, Nat.add_zero, List.countP_map]
      apply countP_lt_countP _ (x := row) hfound
      · simp only [hpending, hpositive, decide_true, Bool.and_self]
      · have hkey : row.key ∈ (sharesOf (claimSellerPending w.opened.accruals.rows.listed
          sellerId limit) ++
            plan.recovery.consumed).map AccrualRow.key := List.mem_map_of_mem hmarked
        simp only [Function.comp_apply, AccrualTables.settledRow, if_pos (And.intro hkey hpending),
          reduceCtorEq, decide_false, Bool.false_and]
      · intro other _ hother
        simp only [Function.comp_apply, AccrualTables.settledRow] at hother
        split at hother
        · simp only [reduceCtorEq, decide_false, Bool.false_and, Bool.false_eq_true] at hother
        · exact hother
    refine ⟨⟨hclosed', hsound', hsettles.filed, ⟨later, hlog⟩, ?_, hfewer.le⟩,
      ⟨row, hfound, hpending, hpositive, settled.txnId, hdrained⟩, hfewer⟩
    intro other hother
    by_cases hmark : other ∈ sharesOf (claimSellerPending w.accruals.rows.listed sellerId limit) ++
        plan.recovery.consumed
    · exact Or.inr ⟨(mem_claimed (hsettles.marked hmark)).2.2, settled.txnId, hsettles.drained hmark⟩
    · have hkept := hsettles.kept hopened hother hmark
      exact Or.inl hkept
  · rw [h] at htransaction
    cases congrArg Prod.fst htransaction

theorem Drainable.same (hsame : w.SameTables w') :
    Drainable digest limit w sellerId ↔ Drainable digest limit w' sellerId := by
  have htables : w'.ledger.tables = w.ledger.tables := congrArg Journaled.rows hsame.ledger
  have hrows : w'.accruals = w.accruals := hsame.accruals
  have hclaimed : w'.claimedRows sellerId limit = w.claimedRows sellerId limit := by
    unfold World.claimedRows
    rw [hrows]
  constructor
  · intro h
    refine ⟨?_, ?_, ?_, ?_, ?_⟩
    · rw [hclaimed, htables]
      exact h.provable
    · rw [hclaimed]
      exact h.share
    · rw [hclaimed]
      exact h.fits
    · rw [hclaimed, htables]
      exact h.booked
    · rw [hclaimed, hrows]
      exact h.free
  · intro h
    refine ⟨?_, ?_, ?_, ?_, ?_⟩
    · rw [← hclaimed, ← htables]
      exact h.provable
    · rw [← hclaimed]
      exact h.share
    · rw [← hclaimed]
      exact h.fits
    · rw [← hclaimed, ← htables]
      exact h.booked
    · rw [← hclaimed, ← hrows]
      exact h.free

theorem drainOne_cases (env : Env) (now : Int) (limit : Nat) (hclosed : w.Closed) (hsound : w.Sound)
    (hfiled : w.accruals.rows.Filed) (tally : DrainTally) (sellerId : String) :
    (Drainable env.digest limit w sellerId ∧ DrainKeeps w (drainOne env now limit (tally, w) sellerId).2 ∧
      DrainsShare w (drainOne env now limit (tally, w) sellerId).2 ∧
      pendingShares (drainOne env now limit (tally, w) sellerId).2 < pendingShares w) ∨
    (¬ Drainable env.digest limit w sellerId ∧
      w.SameTables (drainOne env now limit (tally, w) sellerId).2 ∧
      (drainOne env now limit (tally, w) sellerId).2.Closed) := by
  have hiff := @drainSeller_ok_iff env sellerId now limit w.opened hfiled
  have hopened : Drainable env.digest limit w.opened sellerId ↔ Drainable env.digest limit w sellerId :=
    ⟨fun h => ⟨h.provable, h.share, h.fits, h.booked, h.free⟩, fun h =>
      ⟨h.provable, h.share, h.fits, h.booked, h.free⟩⟩
  rw [hopened] at hiff
  rcases drainSeller_cases env sellerId now limit hclosed hsound with
    ⟨settled, done, hrun, htransaction⟩ | ⟨hnever, hunsettled, hsame⟩
  · left
    have hstep : (drainOne env now limit (tally, w) sellerId).2 = done.commitAll := by
      rw [drainOne, htransaction]
    rw [hstep]
    exact ⟨hiff.mp ⟨settled, done, hrun⟩, drainSeller_keeps hclosed hsound hfiled htransaction⟩
  · right
    have hstep : (drainOne env now limit (tally, w) sellerId).2 =
        (transaction (drainSeller env sellerId now limit) w).2 := by
      unfold drainOne
      rcases transaction (drainSeller env sellerId now limit) w with ⟨_ | _ | _, after⟩ <;> rfl
    rw [hstep]
    refine ⟨?_, hsame, transaction_closed _ hclosed⟩
    intro hdrainable
    obtain ⟨settled, done, hrun⟩ := hiff.mpr hdrainable
    exact hnever settled done hrun

theorem DrainKeeps.of_same (hsame : w.SameTables w') (hclosed' : w'.Closed) (hsound : w.Sound)
    (hfiled : w.accruals.rows.Filed) : DrainKeeps w w' where
  closed := hclosed'
  sound := hsame.sound hsound
  filed := hsame.accruals ▸ hfiled
  log := by
    have htables : w'.ledger.tables = w.ledger.tables := congrArg Journaled.rows hsame.ledger
    rw [htables]
    exact ⟨[], (List.append_nil _).symm⟩
  rows := by
    rw [hsame.accruals]
    exact fun row hrow => Or.inl hrow
  shares := by
    rw [pendingShares, pendingShares, hsame.accruals]

/-- A run over sellers drains a share if one of them can be drained, and changes nothing otherwise. -/
theorem drainSellers_cases (env : Env) (now : Int) (limit : Nat) (sellers : List String)
    (hclosed : w.Closed) (hsound : w.Sound) (hfiled : w.accruals.rows.Filed) (tally : DrainTally) :
    ((∃ sellerId ∈ sellers, Drainable env.digest limit w sellerId) ∧
      DrainKeeps w (sellers.foldl (drainOne env now limit) (tally, w)).2 ∧
      DrainsShare w (sellers.foldl (drainOne env now limit) (tally, w)).2 ∧
      pendingShares (sellers.foldl (drainOne env now limit) (tally, w)).2 < pendingShares w) ∨
    ((∀ sellerId ∈ sellers, ¬ Drainable env.digest limit w sellerId) ∧
      w.SameTables (sellers.foldl (drainOne env now limit) (tally, w)).2 ∧
      (sellers.foldl (drainOne env now limit) (tally, w)).2.Closed) := by
  induction sellers generalizing w tally with
  | nil =>
    exact Or.inr ⟨fun sellerId hnil => absurd hnil List.not_mem_nil, World.SameTables.refl w, hclosed⟩
  | cons sellerId sellers ih =>
    rw [List.foldl_cons]
    have hstep := drainOne_cases env now limit hclosed hsound hfiled tally sellerId
    generalize drainOne env now limit (tally, w) sellerId = after at hstep ⊢
    obtain ⟨tally', w₁⟩ := after
    rcases hstep with ⟨hdrainable, hkeeps, hdrains, hfewer⟩ | ⟨hnot, hsame, hclosed₁⟩
    · left
      have hrest : DrainKeeps w₁ (sellers.foldl (drainOne env now limit) (tally', w₁)).2 := by
        rcases ih hkeeps.closed hkeeps.sound hkeeps.filed tally' with ⟨-, hkept, -⟩ | ⟨-, hsame, hclosed'⟩
        · exact hkept
        · exact .of_same hsame hclosed' hkeeps.sound hkeeps.filed
      exact ⟨⟨sellerId, List.mem_cons_self, hdrainable⟩, hkeeps.trans hrest, hdrains.kept hrest,
        lt_of_le_of_lt hrest.shares hfewer⟩
    · have hkeeps : DrainKeeps w w₁ := .of_same hsame hclosed₁ hsound hfiled
      rcases ih hclosed₁ hkeeps.sound hkeeps.filed tally' with
        ⟨⟨other, hother, hdrainable⟩, hkept, hdrains, hfewer⟩ | ⟨hnone, hsame', hclosed'⟩
      · left
        refine ⟨⟨other, List.mem_cons_of_mem _ hother, (Drainable.same hsame).mpr hdrainable⟩,
          hkeeps.trans hkept, ?_,
          lt_of_lt_of_le hfewer hkeeps.shares⟩
        unfold DrainsShare at hdrains ⊢
        rw [hsame.accruals] at hdrains
        exact hdrains
      · right
        refine ⟨?_, hsame.trans hsame', hclosed'⟩
        intro other hother
        rcases List.mem_cons.mp hother with rfl | hother
        · exact hnot
        · exact fun hdrainable => hnone other hother ((Drainable.same hsame).mp hdrainable)

/-! ## Runs of the drain -/

structure ProvableShare (digest : Digest) (w : World) (row : AccrualRow) : Prop where
  listed : row ∈ w.accruals.rows.listed
  pending : row.status = .pending
  positive : 0 < row.amount.minor
  provable : assertRowProvable digest w.ledger.tables row = .ok ()

/-- The drain is on, and one of the sellers that it tries next can be drained. -/
def NextDrains (env : Env) (config : Config) (limit : Nat) (w : World) : Prop :=
  config.accrualDrain = true ∧
    ∃ sellerId ∈ pendingSellers w.accruals.rows.listed limit, Drainable env.digest limit w sellerId

/-- The store after some runs of the drain, at the readings of a clock. -/
def drainRuns (env : Env) (config : Config) (limit : Nat) (clock : Nat → Int) (w : World) : Nat → World
  | 0 => w
  | n + 1 => (drainAccruals env config (clock n) limit (drainRuns env config limit clock w n)).2

variable {config : Config}

theorem drainAccruals_cases (env : Env) (config : Config) (now : Int) (limit : Nat) (hclosed : w.Closed)
    (hsound : w.Sound) (hfiled : w.accruals.rows.Filed) :
    (NextDrains env config limit w ∧ DrainKeeps w (drainAccruals env config now limit w).2 ∧
      DrainsShare w (drainAccruals env config now limit w).2 ∧
      pendingShares (drainAccruals env config now limit w).2 < pendingShares w) ∨
    (¬ NextDrains env config limit w ∧ w.SameTables (drainAccruals env config now limit w).2 ∧
      (drainAccruals env config now limit w).2.Closed) := by
  unfold drainAccruals
  by_cases hon : config.accrualDrain = true
  · rw [if_pos hon]
    rcases drainSellers_cases env now limit (pendingSellers w.accruals.rows.listed limit) hclosed hsound
        hfiled ⟨[], [], false⟩ with
      ⟨hdrainable, hrest⟩ | ⟨hnone, hrest⟩
    · exact Or.inl ⟨⟨hon, hdrainable⟩, hrest⟩
    · exact Or.inr ⟨fun ⟨_, sellerId, hseller, hdrainable⟩ => hnone sellerId hseller hdrainable, hrest⟩
  · rw [if_neg hon]
    exact Or.inr ⟨fun hnext => hon hnext.1, World.SameTables.refl w, hclosed⟩

theorem drainAccruals_keeps (hclosed : w.Closed) (hsound : w.Sound) (hfiled : w.accruals.rows.Filed) :
    DrainKeeps w (drainAccruals env config now limit w).2 := by
  rcases drainAccruals_cases env config now limit hclosed hsound hfiled with
    ⟨-, hkeeps, -⟩ | ⟨-, hsame, hclosed'⟩
  · exact hkeeps
  · exact .of_same hsame hclosed' hsound hfiled

theorem drainRuns_keeps (env : Env) (config : Config) (limit : Nat) (hclosed : w.Closed) (hsound : w.Sound)
    (hfiled : w.accruals.rows.Filed) (clock : Nat → Int) (n : Nat) :
    DrainKeeps w (drainRuns env config limit clock w n) := by
  induction n with
  | zero => exact .refl hclosed hsound hfiled
  | succ n ih => exact ih.trans (drainAccruals_keeps ih.closed ih.sound ih.filed)

theorem drainsShare_same (hfiled : w.accruals.rows.Filed) (hsame : w.SameTables w') :
    ¬ DrainsShare w w' := by
  rintro ⟨row, hrow, hpending, -, txnId, hdrained⟩
  rw [hsame.accruals] at hdrained
  have heq : row.drainedBy txnId = row := hfiled.eq_of_key hdrained hrow rfl
  have hstatus : AccrualStatus.drained = row.status := congrArg AccrualRow.status heq
  rw [hpending] at hstatus
  cases hstatus

theorem DrainKeeps.provable (h : DrainKeeps w w') (hshare : ProvableShare digest w row) :
    ProvableShare digest w' row ∨ ∃ txnId, row.drainedBy txnId ∈ w'.accruals.rows.listed := by
  obtain ⟨later, hlog⟩ := h.log
  rcases h.rows row hshare.listed with hkept | ⟨-, hdrained⟩
  · exact Or.inl ⟨hkept, hshare.pending, hshare.positive, assertRowProvable_grown hlog hshare.provable⟩
  · exact Or.inr hdrained

end Run

/-- A run drains a share exactly when one of the sellers that it tries can be drained. Where every
run that finds a provable share finds such a seller, finitely many runs drain all of them. -/
theorem drain_progress_iff (env : Env) (config : Config) (limit : Nat) {w : World} (hclosed : w.Closed)
    (hsound : w.Sound) (hfiled : w.accruals.rows.Filed) :
    (∀ now, DrainsShare w (drainAccruals env config now limit w).2 ↔ NextDrains env config limit w) ∧
    ∀ clock : Nat → Int,
      (∀ n, (∃ row, ProvableShare env.digest (drainRuns env config limit clock w n) row) →
        NextDrains env config limit (drainRuns env config limit clock w n)) →
      ∃ n, ∀ row, ProvableShare env.digest w row →
        ∃ txnId, row.drainedBy txnId ∈ (drainRuns env config limit clock w n).accruals.rows.listed := by
  constructor
  · intro now
    rcases drainAccruals_cases env config now limit hclosed hsound hfiled with
      ⟨hnext, -, hdrains, -⟩ | ⟨hnot, hsame, -⟩
    · exact iff_of_true hdrains hnext
    · exact iff_of_false (drainsShare_same hfiled hsame) hnot
  · intro clock hnext
    have hfall : ∀ n, (∃ row, ProvableShare env.digest (drainRuns env config limit clock w n) row) →
        pendingShares (drainRuns env config limit clock w (n + 1)) <
          pendingShares (drainRuns env config limit clock w n) := by
      intro n hleft
      have hkept := drainRuns_keeps env config limit hclosed hsound hfiled clock n
      rcases drainAccruals_cases env config (clock n) limit hkept.closed
          hkept.sound hkept.filed with ⟨-, -, -, hfewer⟩ | ⟨hnot, -⟩
      · exact hfewer
      · exact absurd (hnext n hleft) hnot
    obtain ⟨n, -, hdone⟩ := @exists_done _ (drainRuns env config limit clock w)
      (fun v => ∃ row, ProvableShare env.digest v row) pendingShares hfall
    refine ⟨n, ?_⟩
    intro row hshare
    rcases (drainRuns_keeps env config limit hclosed hsound hfiled clock n).provable hshare with hleft |
        hdrained
    · exact absurd ⟨row, hleft⟩ hdone
    · exact hdrained

theorem starved_forever {config : Config} {limit : Nat} (hclosed : w.Closed)
    (hsound : w.Sound) (hfiled : w.accruals.rows.Filed) (hstarved : ¬ NextDrains env config limit w)
    (clock : Nat → Int) (n : Nat) : w.SameTables (drainRuns env config limit clock w n) := by
  induction n with
  | zero => exact World.SameTables.refl w
  | succ n ih =>
    have hkept := drainRuns_keeps env config limit hclosed hsound hfiled clock n
    rcases drainAccruals_cases env config (clock n) limit hkept.closed
        hkept.sound hkept.filed with ⟨⟨hon, sellerId, hseller, hdrainable⟩, -⟩ | ⟨-, hsame, -⟩
    · rw [ih.accruals] at hseller
      exact absurd ⟨hon, sellerId, hseller, (Drainable.same ih).mpr hdrainable⟩ hstarved
    · exact ih.trans hsame

def starvedSeller : World :=
  (transaction (spend prefixEnv twoShards { purchase "k2" "p" with recipients := [⟨"q", 10000⟩] }).txn
    refundedSale).2

theorem starvedSeller_ready : starvedSeller.Closed ∧ starvedSeller.Sound := by
  obtain ⟨hclosed, hsound⟩ := refundedSale_ready
  exact ⟨transaction_closed _ hclosed, transaction_sound _ hclosed hsound⟩

/-- With a limit of one seller only the one that owes is ever tried. -/
theorem starvedSeller_never_drained :
    (∃ row, ProvableShare prefixEnv.digest starvedSeller row) ∧
    ¬ DrainsShare starvedSeller (drainAccruals prefixEnv twoShards 0 1 starvedSeller).2 ∧
    ∀ clock n, starvedSeller.SameTables (drainRuns prefixEnv twoShards 1 clock starvedSeller n) := by
  obtain ⟨hclosed, hsound⟩ := starvedSeller_ready
  obtain ⟨horder, hnodup, hkeyed, ⟨row, hlisted, hpending, hpositive, hprovable⟩, hsellers, hdebt⟩ :
      let rows := starvedSeller.accruals.rows
      rows.order = rows.rows.keys ∧ rows.rows.keys.Nodup ∧
        (∀ entry ∈ rows.rows.entries, entry.2.key = entry.1) ∧
        (∃ row ∈ rows.listed, row.status = .pending ∧ 0 < row.amount.minor ∧
          (assertRowProvable prefixEnv.digest starvedSeller.ledger.tables row).isOk = true) ∧
        pendingSellers rows.listed 1 = ["s"] ∧ sharesOf (starvedSeller.claimedRows "s" 1) = [] := by
    decide +kernel
  have hfiled : starvedSeller.accruals.rows.Filed := .of_entries horder hnodup hkeyed
  have hstarved : ¬ NextDrains prefixEnv twoShards 1 starvedSeller := by
    rintro ⟨-, sellerId, hseller, hdrainable⟩
    rw [hsellers] at hseller
    obtain rfl := List.mem_singleton.mp hseller
    obtain ⟨share, hshare⟩ := hdrainable.share
    have hmem := mem_sharesOf.mpr hshare
    rw [hdebt] at hmem
    exact absurd hmem List.not_mem_nil
  have hforever := fun clock n => starved_forever hclosed hsound hfiled hstarved clock n
  refine ⟨⟨row, hlisted, hpending, hpositive, ?_⟩, drainsShare_same hfiled (hforever (fun _ => 0) 1),
    hforever⟩
  cases hrow : assertRowProvable prefixEnv.digest starvedSeller.ledger.tables row with
  | ok u => rfl
  | error e =>
    rw [hrow] at hprovable
    cases hprovable

/-- With a limit of two sellers the one behind it is drained. -/
theorem starvedSeller_progress :
    DrainsShare starvedSeller (drainAccruals prefixEnv twoShards 0 2 starvedSeller).2 ∧
      NextDrains prefixEnv twoShards 2 starvedSeller := by
  obtain ⟨hclosed, hsound⟩ := starvedSeller_ready
  obtain ⟨horder, hnodup, hkeyed, row, hlisted, hpending, hpositive, settled, -, hdrained⟩ :
      let rows := starvedSeller.accruals.rows
      let run := drainAccruals prefixEnv twoShards 0 2 starvedSeller
      rows.order = rows.rows.keys ∧ rows.rows.keys.Nodup ∧
        (∀ entry ∈ rows.rows.entries, entry.2.key = entry.1) ∧
        ∃ row ∈ rows.listed, row.status = .pending ∧ 0 < row.amount.minor ∧
          ∃ settled ∈ run.1.drained, row.drainedBy settled.txnId ∈ run.2.accruals.rows.listed := by
    decide +kernel
  have hdrains : DrainsShare starvedSeller (drainAccruals prefixEnv twoShards 0 2 starvedSeller).2 :=
    ⟨row, hlisted, hpending, hpositive, settled.txnId, hdrained⟩
  obtain ⟨hiff, -⟩ := drain_progress_iff prefixEnv twoShards 2 hclosed hsound
    (.of_entries horder hnodup hkeyed)
  exact ⟨hdrains, (hiff 0).mp hdrains⟩

end EconomyLab
