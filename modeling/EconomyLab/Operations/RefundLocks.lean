import EconomyLab.Operations.Refund

/-!
# What a refund locks

A refund locks the accounts of the sale's posting, and posts on the accounts of its rows: a pending
share is taken out of the shard that its row names, whatever the posting says.
-/

namespace EconomyLab

open Foundation Text

theorem recoveryRowsOf_ok {txnId : String} {now : Int} {claimed drained : List AccrualRow}
    (h : ∀ row ∈ drained, 0 < row.amount.minor) :
    ∃ rows, recoveryRowsOf txnId now claimed drained = .ok rows := by
  induction drained generalizing claimed with
  | nil => exact ⟨[], rfl⟩
  | cons row drained ih =>
    have hpositive : 0 < row.amount.minor := h row List.mem_cons_self
    have hrange : I64 (-row.amount.minor) := by
      have hrow := row.amount.inRange
      unfold I64 at hrow ⊢
      omega
    have hamount : toAmount .credit (-row.amount.minor) = .ok ⟨.credit, -row.amount.minor, hrange⟩ :=
      toAmount_ok hrange
    obtain ⟨rows, hrows⟩ := @ih (claimed ++ [{ row with
      seq := nextSeq claimed row.orderId row.sellerId
      amount := ⟨.credit, -row.amount.minor, hrange⟩
      status := .pending
      txnId := txnId
      settledTxnId := none
      recordedAt := now }]) fun r hr => h r (List.mem_cons_of_mem _ hr)
    refine ⟨_, except_bind_ok.mpr ⟨_, hamount, except_bind_ok.mpr ⟨rows, hrows, rfl⟩⟩⟩

theorem firstTaken_congr {batch : List AccrualRow} {rows rows' : OrderedTable String AccrualRow}
    (h : ∀ k, rows.has k = rows'.has k) : Txn.firstTaken batch rows = Txn.firstTaken batch rows' := by
  induction batch generalizing rows rows' with
  | nil => rfl
  | cons row batch ih =>
    have hset : ∀ k, (rows.set row.key row).has k = (rows'.set row.key row).has k := by
      intro k
      have hk := h k
      unfold OrderedTable.has at hk ⊢
      rw [OrderedTable.get_set, OrderedTable.get_set]
      split
      · rfl
      · exact hk
    simp only [Txn.firstTaken, h row.key, ih hset]

theorem markOne_has (status : AccrualStatus) (settledTxnId : String) (j : Journaled AccrualTables)
    (key : String × String × Nat) (k : String) :
    (AccrualTables.markOne status settledTxnId j key).rows.rows.has k = j.rows.rows.has k := by
  unfold AccrualTables.markOne
  simp only
  split
  · rfl
  · rename_i row hrow
    split
    · change (OrderedTable.set _ _ _).has k = _
      unfold OrderedTable.has
      rw [OrderedTable.get_set]
      split
      · rename_i hk
        rw [hk, hrow]
        rfl
      · rfl
    · rfl

theorem mark_has (status : AccrualStatus) (settledTxnId : String) (keys : List (String × String × Nat))
    (j : Journaled AccrualTables) (k : String) :
    ((AccrualWrite.mark keys status settledTxnId).run j).rows.rows.has k = j.rows.rows.has k := by
  change (keys.foldl (AccrualTables.markOne status settledTxnId) j).rows.rows.has k = _
  induction keys generalizing j with
  | nil => rfl
  | cons key keys ih => exact (ih _).trans (markOne_has status settledTxnId j key k)

variable {w : World} {posting : Posting}

theorem reverseSale_guarded {β : Type} {s : Watch} {f : Reversal → Work β} {Q : β → Watch → Prop}
    (hf : ∀ reversal late, (∀ leg ∈ reversal.legs, leg.account ∈ posting.legs.map Leg.account ∨
      leg.account = SYSTEM.RECEIVABLE) → Work.Guarded { s with reading := late } (f reversal) Q) :
    Work.Guarded s (reverseSale posting >>= f) Q := by
  have hstep : Work.Guarded s (reverseSale posting) fun reversal s' =>
      (∀ leg ∈ reversal.legs, leg.account ∈ posting.legs.map Leg.account ∨ leg.account =
        SYSTEM.RECEIVABLE) ∧
        ∃ late, s' = { s with reading := late } := by
    apply Work.Guarded.lift
    intro folded hfolded
    apply Work.Guarded.reading
    rintro coverage late ⟨balance, hcoverage⟩
    apply Work.Guarded.lift
    intro legs hlegs
    refine .pure ⟨?_, late, rfl⟩
    intro leg hleg
    rcases reversalLegs_accounts hlegs leg hleg with hm | hm
    · obtain ⟨d, hd, hd'⟩ := List.mem_map.mp hm
      obtain ⟨first, hfirst, haccount⟩ := List.mem_map.mp (coverageOf_accounts hcoverage d hd)
      exact Or.inl (hd' ▸ haccount ▸ foldDeltas_accounts hfolded first hfirst)
    · exact Or.inr hm
  apply hstep.bind
  rintro reversal s' ⟨hlegs, late, rfl⟩
  exact hf reversal late hlegs

structure Unhindered (w : World) (posting : Posting) (claimed saleRows : List AccrualRow)
    (txnId : String) (now : Int) : Prop where
  shares : assertRowsMatchShares saleRows posting = .ok ()
  legs : ∃ folded legs, foldDeltas posting.legs = .ok folded ∧
    accrualReversalLegs folded (saleRows.filter (isShare .pending)) (saleRows.filter (isShare .drained))
      w.ledger.tables.balance = .ok legs
  places : ∀ rows, recoveryRowsOf txnId now claimed (saleRows.filter (isShare .drained)) = .ok rows →
    Txn.firstTaken rows w.accruals.rows.rows = none

theorem reverseParked_guarded {s : Watch} {env : Env}
    {claimed saleRows : List AccrualRow} {txnId : String} :
    Work.GuardedAt w s (reverseParked env posting claimed saleRows txnId) fun reversal s' =>
      (∀ leg ∈ reversal.legs, leg.account ∈ posting.legs.map Leg.account ∨ leg.account =
        SYSTEM.RECEIVABLE ∨
        ∃ row ∈ saleRows.filter (isShare .pending), leg.account = row.shard) ∧
        (∃ late, s' = { s with reading := late }) ∧
        Unhindered w posting claimed saleRows txnId (env.clock w.ticks) := by
  apply Work.GuardedAt.lift
  intro _ hshares
  apply Work.GuardedAt.lift
  intro folded hfolded
  apply Work.GuardedAt.reading
  intro legs late hlegs
  have hcovered : ∀ leg ∈ legs, leg.account ∈ posting.legs.map Leg.account ∨
      leg.account = SYSTEM.RECEIVABLE ∨
      ∃ row ∈ saleRows.filter (isShare .pending), leg.account = row.shard := by
    intro leg hleg
    rcases accrualReversalLegs_accounts hlegs leg hleg with hm | hm
    · obtain ⟨d, hd, hd'⟩ := List.mem_map.mp hm
      exact Or.inl (hd' ▸ foldDeltas_accounts hfolded d hd)
    · exact Or.inr hm
  apply Work.GuardedAt.quiet rfl
  intro _ w₁ hmark
  have hw₁ : w₁ = { w with accruals := (AccrualWrite.mark ((saleRows.filter (isShare .pending)).map
      AccrualRow.place) .refunded txnId).run w.accruals } := (congrArg Prod.snd hmark).symm
  split
  · rename_i hnone
    apply Work.GuardedAt.pure
    refine ⟨hcovered, ⟨late, rfl⟩, hshares, ⟨folded, legs, hfolded, hlegs⟩, ?_⟩
    intro rows hrows
    rw [hnone] at hrows
    obtain rfl := Except.ok.inj hrows
    rfl
  · apply Work.GuardedAt.quiet rfl
    intro now w₂ hnow
    have hclock : now = env.clock w.ticks := by
      rw [hw₁] at hnow
      exact (Except.ok.inj (congrArg Prod.fst hnow)).symm
    have hkept : w₂.accruals = w₁.accruals := (congrArg (fun r => r.2.accruals) hnow).symm
    apply Work.GuardedAt.lift
    intro rows hrows
    apply Work.GuardedAt.quiet rfl
    intro _ w₃ hput
    apply Work.GuardedAt.pure
    refine ⟨hcovered, ⟨late, rfl⟩, hshares, ⟨folded, legs, hfolded, hlegs⟩, ?_⟩
    intro rows' hrows'
    subst hclock
    obtain rfl := Except.ok.inj (hrows.symm.trans hrows')
    have hfree : Txn.firstTaken rows w₂.accruals.rows.rows = none := by
      have hanswer := congrArg Prod.fst hput
      simp only [Work.putAccruals, Work.quiet, Txn.putAccruals] at hanswer
      split at hanswer
      · cases hanswer
      · rename_i hfree
        exact hfree
    refine Eq.trans (firstTaken_congr fun k => ?_) hfree
    rw [hkept, hw₁]
    exact (mark_has _ _ _ w.accruals k).symm

/-- A pending share of the sale is kept on an account that the sale's posting does not name. -/
def StrayShare (w : World) (sale : Sale) (posting : Posting) : Prop :=
  ∃ row ∈ saleRowsOf sale (rowsOfOrder w sale.orderId), isShare .pending row = true ∧
    row.shard ∉ REVERSAL_CONTRAS ++ posting.legs.map Leg.account

/-- The refund of an order finds its sale whole and not yet reversed, and goes on to post. -/
structure ComesToPost (env : Env) (operation : RefundOperation) (w : World) (sale : Sale)
    (posting : Posting) :
    Prop where
  ordered : requireOrderId operation.orderId = .ok ()
  found : w.sales.rows.get operation.orderId = some sale
  proved : salePosting env.digest w.ledger.tables sale = .ok posting
  matched : assertSaleMatchesPosting sale posting = .ok ()
  unreversed : w.idempotency.rows.committed.get (reversalKey operation.orderId) = none
  unhindered : Unhindered w posting (rowsOfOrder w sale.orderId)
    (saleRowsOf sale (rowsOfOrder w sale.orderId)) ("txn" ++ "_" ++ env.uuid w.minted)
    (env.clock (w.ticks + 1))

/-- No refund of the order posts on a stray share. -/
def Sheltered (env : Env) (operation : RefundOperation) (w : World) : Prop :=
  ∀ sale posting, ComesToPost env operation w sale posting → ¬ StrayShare w sale posting

theorem reverseOrder_guarded {w : World} {env : Env} {operation : RefundOperation} {sale : Sale}
    {posting : Posting}
    (h : Unhindered w posting (rowsOfOrder w sale.orderId) (saleRowsOf sale (rowsOfOrder w sale.orderId))
      ("txn" ++ "_" ++ env.uuid w.minted) (env.clock w.ticks) → ¬ StrayShare w sale posting) :
    Work.GuardedAt w ⟨REVERSAL_CONTRAS ++ posting.legs.map Leg.account, false, []⟩
      (reverseOrder env operation sale posting) fun _ s =>
        s.locked = REVERSAL_CONTRAS ++ posting.legs.map Leg.account := by
  have hpost : ∀ (reversal : Reversal) late txnId, (∀ leg ∈ reversal.legs,
      leg.account ∈ REVERSAL_CONTRAS ++ posting.legs.map Leg.account) →
      Work.Guarded ⟨REVERSAL_CONTRAS ++ posting.legs.map Leg.account, late, []⟩
        (Work.postEntry env ⟨txnId, reversal.legs, refundMeta operation sale reversal.recovered⟩)
        fun _ s => s.locked = REVERSAL_CONTRAS ++ posting.legs.map Leg.account :=
    fun reversal late txnId hlegs w' => ⟨⟨dropZero_covered hlegs, trivial⟩, fun _ => rfl⟩
  have hreceivable : SYSTEM.RECEIVABLE ∈ REVERSAL_CONTRAS ++ posting.legs.map Leg.account :=
    List.mem_append_left _ (List.mem_cons_of_mem _ (List.mem_cons_of_mem _ List.mem_cons_self))
  apply Work.GuardedAt.quiet rfl
  intro txnId w₁ hmint
  have hw₁ : w₁ = { w with minted := w.minted + 1 } := (congrArg Prod.snd hmint).symm
  obtain rfl : "txn" ++ "_" ++ env.uuid w.minted = txnId := Except.ok.inj (congrArg Prod.fst hmint)
  apply Work.GuardedAt.read
  intro claimed hclaimed
  obtain rfl : rowsOfOrder w sale.orderId = claimed := by
    rw [hw₁] at hclaimed
    exact Except.ok.inj hclaimed
  simp only
  split
  · apply reverseSale_guarded
    intro reversal late hlegs
    apply hpost
    intro leg hleg
    rcases hlegs leg hleg with hm | hm
    · exact List.mem_append_right _ hm
    · exact hm ▸ hreceivable
  · apply reverseParked_guarded.bind
    rintro reversal w₂ s - ⟨hlegs, ⟨late, rfl⟩, hshares, hfolded, hplaces⟩
    rw [hw₁] at hfolded hplaces
    apply hpost
    intro leg hleg
    rcases hlegs leg hleg with hm | hm | ⟨row, hrow, hm⟩
    · exact List.mem_append_right _ hm
    · exact hm ▸ hreceivable
    · obtain ⟨hmem, hpending⟩ := List.mem_filter.mp hrow
      by_contra hstray
      exact h ⟨hshares, hfolded, hplaces⟩ ⟨row, hmem, hpending, hm ▸ hstray⟩

theorem refund_extendsLocks (env : Env) (operation : RefundOperation) (h : Sheltered env operation w) :
    Work.GuardedAt w (.start REVERSAL_CONTRAS) (refund env operation) fun outcome _ => Calm outcome := by
  apply Work.GuardedAt.lift
  intro _ hordered
  apply Work.GuardedAt.read
  intro found hfound
  replace hfound : w.sales.rows.get operation.orderId = found := Except.ok.inj hfound
  cases found with
  | none => exact Work.GuardedAt.pure (by exact nofun)
  | some sale =>
    apply Work.GuardedAt.read
    intro posting hproved
    apply Work.GuardedAt.lift
    intro _ hmatched
    apply Work.GuardedAt.lockAll
    apply Work.GuardedAt.claiming
    · exact fun transaction => .pure (calm_duplicate transaction)
    · intro hfree
      have horder := @reverseOrder_guarded (Work.granted env (reversalKey operation.orderId) w)
        env operation
        sale posting fun hopen => h sale posting
          ⟨hordered, hfound, hproved, hmatched, hfree, ⟨hopen.shares, hopen.legs, hopen.places⟩⟩
      apply horder.bind
      rintro transaction w' s - -
      apply Work.Guarded.pure
      apply Work.Guarded.step fun _ => rfl
      exact fun _ => .pure (calm_committed transaction)

theorem mapM_ok_of_mem {α β : Type} {f : α → Except Fault β} {xs : List α} {ys : List β}
    (h : xs.mapM f = .ok ys) : ∀ x ∈ xs, ∃ y ∈ ys, f x = .ok y := by
  induction xs generalizing ys with
  | nil => exact fun x hx => absurd hx List.not_mem_nil
  | cons first xs ih =>
    simp only [List.mapM_cons] at h
    obtain ⟨y, hy, hrest⟩ := except_bind_ok.mp h
    obtain ⟨rest, hxs, hys⟩ := except_bind_ok.mp hrest
    obtain rfl := except_pure_ok.mp hys
    intro x hx
    rcases List.mem_cons.mp hx with rfl | hx
    · exact ⟨y, List.mem_cons_self, hy⟩
    · obtain ⟨y', hy', hf⟩ := ih hxs x hx
      exact ⟨y', List.mem_cons_of_mem _ hy', hf⟩

/-- The parked share of a pending row is among the lines of a reversal. -/
theorem accrualReversalLegs_parked {folded : List AccountDelta} {pending drained : List AccrualRow}
    {balance : AccountRef → Except Fault Amount} {legs : List Leg}
    (h : accrualReversalLegs folded pending drained balance = .ok legs) {row : AccrualRow}
    (hrow : row ∈ pending) :
    ∃ leg ∈ legs, lowerLeg row.shard row.amount.currency row.amount.minor = .ok leg := by
  obtain ⟨house, hhouse, h⟩ := except_bind_ok.mp h
  obtain ⟨parked, hparked, h⟩ := except_bind_ok.mp h
  obtain ⟨paid, hpaid, h⟩ := except_bind_ok.mp h
  obtain ⟨owed, howed, h⟩ := except_bind_ok.mp h
  obtain rfl := except_pure_ok.mp h
  obtain ⟨leg, hleg, hline⟩ := mapM_ok_of_mem hparked row hrow
  refine ⟨leg, ?_, hline⟩
  simp only [List.mem_append]
  exact Or.inl (Or.inl (Or.inr hleg))

theorem lowerLeg_minor {account : AccountRef} {currency : Currency} {minor : Int} {leg : Leg}
    (h : lowerLeg account currency minor = .ok leg) : leg.amount.minor = 0 ↔ minor = 0 := by
  obtain ⟨amount, hamount, h⟩ := except_bind_ok.mp h
  obtain ⟨signed, hsigned, h⟩ := except_bind_ok.mp h
  obtain rfl := except_pure_ok.mp h
  have hminor := (toAmount_eq_ok.mp hamount).2
  have hline := (toAmount_eq_ok.mp hsigned).2
  simp only [hline, hminor]
  split <;> omega

/-- Once nothing hinders it, the lines of the rows come out. -/
theorem reverseParked_answers {env : Env} {w : World} {posting : Posting}
    {claimed saleRows : List AccrualRow} {txnId : String}
    (h : Unhindered w posting claimed saleRows txnId (env.clock w.ticks)) :
    ∃ folded reversal w', accrualReversalLegs folded (saleRows.filter (isShare .pending))
        (saleRows.filter (isShare .drained)) w.ledger.tables.balance = .ok reversal.legs ∧
      Work.Answers (reverseParked env posting claimed saleRows txnId) w reversal w'
        ((clawedAccounts folded).map .balance) := by
  obtain ⟨folded, legs, hfolded, hlegs⟩ := h.legs
  have hpositive : ∀ row ∈ saleRows.filter (isShare .drained), 0 < row.amount.minor := by
    intro row hrow
    have hshare := (List.mem_filter.mp hrow).2
    simp only [isShare, Bool.and_eq_true, decide_eq_true_eq] at hshare
    exact hshare.2
  obtain ⟨rows, hrows⟩ := @recoveryRowsOf_ok txnId (env.clock w.ticks) claimed _ hpositive
  let marked := { w with accruals := (AccrualWrite.mark ((saleRows.filter (isShare .pending)).map
    AccrualRow.place) .refunded txnId).run w.accruals }
  have hmarked : Work.Answers (Work.markAccruals
    ((saleRows.filter (isShare .pending)).map AccrualRow.place)
      .refunded txnId) w () marked [] := ⟨rfl, rfl⟩
  have hrest : ∃ reversal w', reversal.legs = legs ∧ Work.Answers
      (if saleRows.filter (isShare .drained) = [] then return ⟨legs, []⟩ else do
        let now ← Work.now env
        let rows ← Work.lift (recoveryRowsOf txnId now claimed (saleRows.filter (isShare .drained)))
        Work.putAccruals rows
        return (⟨legs, saleRows.filter (isShare .drained)⟩ : Reversal)) marked reversal w' [] := by
    split
    · exact ⟨⟨legs, []⟩, marked, rfl, rfl, rfl⟩
    · have hfree : Txn.firstTaken rows marked.accruals.rows.rows = none :=
        (firstTaken_congr fun k => mark_has _ _ _ w.accruals k).trans (h.places rows hrows)
      have hnow : Work.Answers (Work.now env) marked (env.clock w.ticks)
          { marked with ticks := marked.ticks + 1 } [] := ⟨rfl, rfl⟩
      have hput : Work.Answers (Work.putAccruals rows) { marked with ticks := marked.ticks + 1 } ()
          { marked with
            ticks := marked.ticks + 1
            accruals := (AccrualWrite.put rows).run marked.accruals } [] := by
        refine ⟨Prod.ext ?_ rfl, rfl⟩
        simp only [Work.putAccruals, Work.quiet, Txn.putAccruals, hfree]
      exact ⟨⟨legs, saleRows.filter (isShare .drained)⟩, _, rfl,
        hnow.then ((Work.Answers.lift hrows _).then (hput.then (.pure _ _)))⟩
  obtain ⟨reversal, w', hlines, hrest⟩ := hrest
  refine ⟨folded, reversal, w', hlines ▸ hlegs, ?_⟩
  have hread : Work.Answers (Work.reading (clawedAccounts folded)
      (accrualReversalLegs folded (saleRows.filter (isShare .pending))
        (saleRows.filter (isShare .drained)))) w legs
      w ((clawedAccounts folded).map .balance) := .reading hlegs
  have htouched : (clawedAccounts folded).map Touch.balance ++ [] = (clawedAccounts folded).map .balance :=
    List.append_nil _
  unfold reverseParked
  apply (Work.Answers.lift h.shares w).then
  apply (Work.Answers.lift hfolded w).then
  rw [← htouched]
  apply hread.bind
  apply hmarked.then
  exact hrest

theorem reverseOrder_starts {env : Env} {operation : RefundOperation} {w : World} {sale : Sale}
    {posting : Posting}
    (h : Unhindered w posting (rowsOfOrder w sale.orderId) (saleRowsOf sale (rowsOfOrder w sale.orderId))
      ("txn" ++ "_" ++ env.uuid w.minted) (env.clock w.ticks)) (hstray : StrayShare w sale posting) :
    ∃ (accounts : List AccountRef) (legs : List Leg),
      accounts.map Touch.balance ++ [.post legs] <+: (reverseOrder env operation sale posting).trace w ∧
      ∃ leg ∈ legs, leg.account ∉ REVERSAL_CONTRAS ++ posting.legs.map Leg.account := by
  obtain ⟨row, hmem, hshare, hshard⟩ := hstray
  have hminted : Work.Answers (Work.mint env "txn") w ("txn" ++ "_" ++ env.uuid w.minted)
      { w with minted := w.minted + 1 } [] := ⟨rfl, rfl⟩
  have hclaimed : Work.Answers (Work.read (fun w => .ok (rowsOfOrder w sale.orderId)) fun _ => rfl)
      { w with minted := w.minted + 1 } (rowsOfOrder w sale.orderId)
      { w with minted := w.minted + 1 } [] :=
    .read rfl
  have hparked := @reverseParked_answers env { w with minted := w.minted + 1 } posting
    (rowsOfOrder w sale.orderId) (saleRowsOf sale (rowsOfOrder w sale.orderId))
    ("txn" ++ "_" ++ env.uuid w.minted)
    ⟨h.shares, h.legs, h.places⟩
  obtain ⟨folded, reversal, w', hlegs, hanswers⟩ := hparked
  obtain ⟨leg, hleg, hline⟩ := accrualReversalLegs_parked hlegs (List.mem_filter.mpr ⟨hmem, hshare⟩)
  have hpositive : 0 < row.amount.minor := by
    simp only [isShare, Bool.and_eq_true, decide_eq_true_eq] at hshare
    exact hshare.2
  have hkept : leg.amount.minor ≠ 0 := mt (lowerLeg_minor hline).mp (Int.ne_of_gt hpositive)
  have hrows : saleRowsOf sale (rowsOfOrder w sale.orderId) ≠ [] := List.ne_nil_of_mem hmem
  refine ⟨clawedAccounts folded, reversal.legs.filter fun leg => leg.amount.minor ≠ 0, ?_, leg,
    List.mem_filter.mpr ⟨hleg, decide_eq_true hkept⟩,
    lowerLeg_account hline ▸ hshard⟩
  unfold reverseOrder
  apply hminted.starts
  apply hclaimed.starts
  simp only [if_neg hrows]
  apply hanswers.starts
  exact List.prefix_rfl

theorem refund_starts {env : Env} {operation : RefundOperation} {sale : Sale}
    (h : ComesToPost env operation w sale posting) (hstray : StrayShare w sale posting) :
    ∃ (accounts : List AccountRef) (legs : List Leg),
      .lock (posting.legs.map Leg.account) :: accounts.map Touch.balance ++ [.post legs] <+:
        (refund env operation).trace w ∧
      ∃ leg ∈ legs, leg.account ∉ REVERSAL_CONTRAS ++ posting.legs.map Leg.account := by
  obtain ⟨accounts, legs, hstarts, hleg⟩ := @reverseOrder_starts env operation
    (Work.granted env (reversalKey operation.orderId) w) sale posting
    ⟨h.unhindered.shares, h.unhindered.legs, h.unhindered.places⟩ hstray
  refine ⟨accounts, legs, ?_, hleg⟩
  have hfound : Work.Answers (Work.findSale operation.orderId) w (some sale) w [] :=
    .read (congrArg Except.ok h.found)
  have hproved : Work.Answers (Work.read (fun w => salePosting env.digest w.ledger.tables sale) fun _ =>
    rfl) w
      posting w [] := .read h.proved
  have hlocked : Work.Answers (Work.lockAll (posting.legs.map Leg.account)) w () w
      [.lock (posting.legs.map Leg.account)] := ⟨rfl, rfl⟩
  unfold refund
  apply (Work.Answers.lift h.ordered w).starts
  apply hfound.starts
  apply hproved.starts
  apply (Work.Answers.lift h.matched w).starts
  apply hlocked.starts
  apply Work.starts_claiming h.unreversed
  exact Work.starts_bind hstarts _

/-- A refund posts on accounts it has locked, but for a stray share. -/
theorem refund_accepts_iff (env : Env) (operation : RefundOperation) (w : World) :
    coverage.Accepts (.start REVERSAL_CONTRAS) ((refund env operation).trace w) ↔
      Sheltered env operation w := by
  constructor
  · intro haccepts sale posting hcomes hstray
    obtain ⟨accounts, legs, ⟨later, htrace⟩, leg, hleg, haccount⟩ := refund_starts hcomes hstray
    rw [← htrace, Monitor.accepts_append] at haccepts
    have hallowed := Monitor.Accepts.allows_at coverage haccepts.1
    obtain ⟨-, late, hafter⟩ := Work.watch_balances
      ⟨REVERSAL_CONTRAS ++ posting.legs.map Leg.account, false, []⟩ accounts
    change ∀ leg ∈ legs, leg.account ∈ (coverage.after
      ⟨REVERSAL_CONTRAS ++ posting.legs.map Leg.account, false, []⟩
        (accounts.map .balance)).locked at hallowed
    rw [hafter] at hallowed
    exact haccount (hallowed leg hleg)
  · exact fun h => (refund_extendsLocks env operation h).1

end EconomyLab
