import EconomyLab.Worker.PayoutMoves

/-!
# Sales keep off the reserve

A refund posts where the sale did, and where the sale's shares were parked. A sale is paid from
wallets into wallets and into shards of other accounts, so what is on record of it never names a
shard of the payout reserve.
-/

namespace EconomyLab

open Foundation Text

/-! ## Work that upholds a property of the store -/

/-- From a store with `P`, work that answers leaves one with `P`, and answers as `Q` says. -/
def Work.Upholds {α : Type} (P : World → Prop) (x : Work α) (Q : α → Prop) : Prop :=
  ∀ w a w', P w → x.txn.run w = (.ok a, w') → P w' ∧ Q a

namespace Work.Upholds

variable {α β : Type} {P : World → Prop} {Q : α → Prop} {R : β → Prop}

theorem pure {a : α} (h : Q a) : Upholds P (Pure.pure a : Work α) Q := by
  intro w answer w' hw hrun
  cases hrun
  exact ⟨hw, h⟩

variable {f : α → Work β}

theorem bind {x : Work α} (hx : Upholds P x Q) (hf : ∀ a, Q a → Upholds P (f a) R) :
    Upholds P (x >>= f) R := by
  intro w b w' hw hrun
  obtain ⟨a, w₁, hfirst, hrest⟩ := Txn.bind_ok hrun
  obtain ⟨hw₁, ha⟩ := hx w a w₁ hw hfirst
  exact hf a ha w₁ b w' hw₁ hrest

theorem of_kept {x : Work α} (hx : ∀ w, P w → P (x.txn.run w).2) : Upholds P x fun _ => True := by
  intro w a w' hw hrun
  have hkept := hx w hw
  rw [hrun] at hkept
  exact ⟨hkept, trivial⟩

theorem step {x : Work α} (hx : ∀ w, P w → P (x.txn.run w).2) (hf : ∀ a, Upholds P (f a) R) :
    Upholds P (x >>= f) R := (of_kept hx).bind fun a _ => hf a

theorem lift {r : Except Fault α} (hf : ∀ a, r = .ok a → Upholds P (f a) R) :
    Upholds P (Work.lift r >>= f) R := by
  have hstep : Upholds P (Work.lift r) fun a => r = .ok a := by
    intro w a w' hw hrun
    obtain ⟨hr, rfl⟩ := lift_step hrun
    exact ⟨hw, hr⟩
  exact hstep.bind hf

theorem read {g : World → Except Fault α} {hg : ∀ w, g w = g w.view}
    (hf : ∀ w a, P w → g w = .ok a → Upholds P (f a) R) : Upholds P (Work.read g hg >>= f) R := by
  have hstep : Upholds P (Work.read g hg) fun a => ∃ w, P w ∧ g w = .ok a := by
    intro w a w' hw hrun
    obtain ⟨hr, rfl⟩ := read_step hrun
    exact ⟨hw, w, hw, hr⟩
  apply hstep.bind
  rintro a ⟨w, hw, hr⟩
  exact hf w a hw hr

theorem reading {accounts : List AccountRef} {g : (AccountRef → Except Fault Amount) → Except Fault α}
    (hf : ∀ balance a, g balance = .ok a → Upholds P (f a) R) :
    Upholds P (Work.reading accounts g >>= f) R := by
  have hstep : Upholds P (Work.reading accounts g) fun a => ∃ balance, g balance = .ok a := by
    intro w a w' hw hrun
    obtain rfl : w = w' := congrArg Prod.snd hrun
    exact ⟨hw, w.ledger.tables.balance, congrArg Prod.fst hrun⟩
  apply hstep.bind
  rintro a ⟨balance, hr⟩
  exact hf balance a hr

theorem claiming {env : Env} {key : String} {hkey : isReversalKey key = true}
    {onDuplicate : Transaction → Work α} {body : Work (Transaction ⊕ α)} {after : Transaction → Work α}
    (hkeys : ∀ w keys, P w → P (w.withIdempotency keys))
    (hduplicate : ∀ transaction, Upholds P (onDuplicate transaction) Q)
    (hbody : Upholds P body fun out => ∀ a, out = .inr a → Q a)
    (hafter : ∀ transaction, Upholds P (after transaction) Q) :
    Upholds P (Work.claiming env key hkey onDuplicate body after) Q := by
  intro w a w' hw hrun
  simp only [Work.claiming, Txn.claiming, Txn.run_bind] at hrun
  cases hcommitted : w.idempotency.rows.committed.get key with
  | some transaction =>
    rw [hcommitted] at hrun
    exact hduplicate transaction w a w' hw hrun
  | none =>
    rw [hcommitted] at hrun
    simp only at hrun
    have hclaimed : P (w.withIdempotency (claimKey (env.clock w.ticks) key w.idempotency)) := hkeys w _ hw
    rcases hr : body.txn.run (w.withIdempotency (claimKey (env.clock w.ticks) key w.idempotency)) with
        ⟨res, w₁⟩
    rw [hr] at hrun
    cases res with
    | error e => cases hrun
    | ok out =>
      obtain ⟨hw₁, hout⟩ := hbody _ out w₁ hclaimed hr
      cases out with
      | inr answer =>
        cases hrun
        exact ⟨hw₁, hout answer (Eq.refl _)⟩
      | inl transaction => exact hafter transaction _ a w' (hkeys w₁ _ hw₁) hrun

end Work.Upholds

section Accounts

variable {shards : Nat}

theorem wallet_off_reserve (owner : String) (kind : AccountKind) :
    wallet owner kind ∉ shardsOf SYSTEM.PAYOUT_RESERVE shards := by
  intro h
  rw [← platformShard_wallet owner kind "" shards, mem_shardsOf_iff (by decide) (.wallet owner kind)] at h
  have hkind : walletKindOf SYSTEM.PAYOUT_RESERVE = none := walletKindOf_system (by decide)
  rw [← h, walletKindOf_wallet] at hkind
  cases hkind

theorem shard_off_reserve {ref : AccountRef} (h : ref ∈ SYSTEM.values) (hne : ref ≠ SYSTEM.PAYOUT_RESERVE)
    (key : String) : platformShard ref key shards ∉ shardsOf SYSTEM.PAYOUT_RESERVE shards := fun hmem =>
  hne ((mem_shardsOf_iff (by decide) (.system h) key shards).mp hmem)

theorem system_off_reserve {ref : AccountRef} (h : ref ∈ SYSTEM.values)
    (hne : ref ≠ SYSTEM.PAYOUT_RESERVE) :
    ref ∉ shardsOf SYSTEM.PAYOUT_RESERVE shards := by
  intro hmem
  obtain ⟨shard, -, hshard⟩ := List.mem_map.mp hmem
  apply hne
  rw [← baseOf_system h, ← hshard, baseOf_shardRef (by decide)]

theorem receivable_off_reserve : SYSTEM.RECEIVABLE ∉ shardsOf SYSTEM.PAYOUT_RESERVE shards :=
  system_off_reserve (by decide) (by decide)

theorem spendLocks_off_reserve (o : SpendOperation) (accrual : Bool) :
    ∀ a ∈ LOCK_SETS.spend o shards accrual, a ∉ shardsOf SYSTEM.PAYOUT_RESERVE shards := by
  simp only [LOCK_SETS.spend, List.cons_append, List.nil_append, List.forall_mem_cons]
  refine ⟨wallet_off_reserve _ _, wallet_off_reserve _ _, shard_off_reserve (by decide) (by decide) _,
    shard_off_reserve (by decide) (by decide) _, ?_⟩
  split
  · simp only [List.forall_mem_singleton]
    exact shard_off_reserve (by decide) (by decide) _
  · intro a ha
    obtain ⟨r, -, rfl⟩ := List.mem_map.mp ha
    exact wallet_off_reserve _ _

theorem subscribeLocks_off_reserve (o : SubscribeOperation) (accrual : Bool) :
    ∀ a ∈ LOCK_SETS.subscribe o shards accrual, a ∉ shardsOf SYSTEM.PAYOUT_RESERVE shards := by
  unfold LOCK_SETS.subscribe
  split
  · simp only [List.forall_mem_cons]
    exact ⟨wallet_off_reserve _ _, wallet_off_reserve _ _, shard_off_reserve (by decide) (by decide) _,
      shard_off_reserve (by decide) (by decide) _, shard_off_reserve (by decide) (by decide) _,
      fun a ha => absurd ha List.not_mem_nil⟩
  · simp only [List.forall_mem_cons]
    exact ⟨wallet_off_reserve _ _, wallet_off_reserve _ _, system_off_reserve (by decide) (by decide),
      system_off_reserve (by
        decide) (by decide), wallet_off_reserve _ _, fun a ha => absurd ha List.not_mem_nil⟩

end Accounts

/-! ## What is on record of a sale -/

/-- No sale, and no row of a parked share, names a shard of the reserve. -/
structure World.SoldOff (config : Config) (w : World) : Prop where
  sold : ∀ orderId sale, w.sales.rows.get orderId = some sale →
    ∀ leg ∈ sale.legs, leg.account ∉ shardsOf SYSTEM.PAYOUT_RESERVE config.platformShards
  parked : ∀ key row, w.accruals.rows.rows.get key = some row →
    row.shard ∉ shardsOf SYSTEM.PAYOUT_RESERVE config.platformShards

/-- And the shards of the reserve hold what they held. -/
structure World.Apart (config : Config) (held : AccountRef → Int) (w : World) :
    Prop extends w.SoldOff config where
  reserve : ∀ a ∈ shardsOf SYSTEM.PAYOUT_RESERVE config.platformShards, w.ledger.tables.balanceOf a =
    held a

section Rows

variable {S : AccountRef → Prop}

variable {j : Journaled AccrualTables}

theorem put_shards {batch : List AccrualRow} (hbatch : ∀ row ∈ batch, S row.shard)
    (h : ∀ key row, j.rows.rows.get key = some row → S row.shard) :
    ∀ key row, (AccrualTables.put batch j).rows.rows.get key = some row → S row.shard := by
  induction batch generalizing j with
  | nil => exact h
  | cons first batch ih =>
    unfold AccrualTables.put
    cases j.rows.rows.get first.key with
    | some _ => exact h
    | none =>
      apply ih fun row hrow => hbatch row (List.mem_cons_of_mem _ hrow)
      intro key row hget
      have hset : (j.rows.rows.set first.key first).get key = some row := hget
      rw [OrderedTable.get_set] at hset
      split at hset
      · cases hset
        exact hbatch first List.mem_cons_self
      · exact h key row hset

theorem markOne_shards (status : AccrualStatus) (settledTxnId : String) (place : String × String × Nat)
    (h : ∀ key row, j.rows.rows.get key = some row → S row.shard) :
    ∀ key row, (AccrualTables.markOne status settledTxnId j place).rows.rows.get key = some row →
      S row.shard := by
  unfold AccrualTables.markOne
  simp only
  split
  · exact h
  · rename_i marked hmarked
    split
    · intro key row hget
      have hset : (j.rows.rows.set (accrualKey place.1 place.2.1 place.2.2)
          { marked with status, settledTxnId := some settledTxnId }).get key = some row := hget
      rw [OrderedTable.get_set] at hset
      split at hset
      · cases hset
        exact h _ marked hmarked
      · exact h key row hset
    · exact h

theorem mark_shards (status : AccrualStatus) (settledTxnId : String)
    (places : List (String × String × Nat))
    (h : ∀ key row, j.rows.rows.get key = some row → S row.shard) :
    ∀ key row, ((AccrualWrite.mark places status settledTxnId).run j).rows.rows.get key = some row →
      S row.shard := by
  change ∀ key row, (places.foldl (AccrualTables.markOne status settledTxnId) j).rows.rows.get key =
    some row → _
  induction places generalizing j with
  | nil => exact h
  | cons place places ih => exact ih (markOne_shards status settledTxnId place h)

end Rows

namespace World.SoldOff

variable {config : Config} {w w' : World}

theorem of_rows (h : w.SoldOff config) (hsales : w'.sales.rows = w.sales.rows)
    (haccruals : w'.accruals.rows.rows = w.accruals.rows.rows) : w'.SoldOff config :=
  ⟨hsales ▸ h.sold, haccruals ▸ h.parked⟩

theorem of_spares {stores : List RowStore} (h : w.SoldOff config) (hspares : w.Spares stores w')
    (hsales : .sales ∉ stores) (haccruals : .accruals ∉ stores) : w'.SoldOff config :=
  h.of_rows (hspares.rows .sales hsales) (congrArg AccrualTables.rows (hspares.rows .accruals haccruals))

theorem put_sale (h : w.SoldOff config) {sale : Sale}
    (hsale : ∀ leg ∈ sale.legs, leg.account ∉ shardsOf SYSTEM.PAYOUT_RESERVE config.platformShards) :
    SoldOff config { w with sales := (SaleWrite.put sale).run w.sales } := by
  refine ⟨?_, h.parked⟩
  intro orderId row hget
  have hset : (w.sales.rows.set sale.orderId sale).get orderId = some row := hget
  rw [OrderedTable.get_set] at hset
  split at hset
  · cases hset
    exact hsale
  · exact h.sold orderId row hset

theorem put_rows (h : w.SoldOff config) {batch : List AccrualRow}
    (hbatch : ∀ row ∈ batch, row.shard ∉ shardsOf SYSTEM.PAYOUT_RESERVE config.platformShards) :
    SoldOff config { w with accruals := (AccrualWrite.put batch).run w.accruals } := by
  refine ⟨h.sold, ?_⟩
  exact put_shards (S := fun shard => shard ∉ shardsOf SYSTEM.PAYOUT_RESERVE config.platformShards)
    hbatch h.parked

theorem mark_rows (h : w.SoldOff config) (places : List (String × String × Nat)) (status : AccrualStatus)
    (settledTxnId : String) :
    SoldOff config
      { w with accruals := (AccrualWrite.mark places status settledTxnId).run w.accruals } := by
  refine ⟨h.sold, ?_⟩
  exact mark_shards (S := fun shard => shard ∉ shardsOf SYSTEM.PAYOUT_RESERVE config.platformShards) status
    settledTxnId places h.parked

end World.SoldOff

section Sales

variable {env : Env} {config : Config}

theorem post_legs {posting : Posting} {w w' : World} {transaction : Transaction}
    (h : (Work.postEntry env posting).txn.run w = (.ok transaction, w')) :
    transaction.legs = (dropZeroLegs posting).legs := by
  have hanswer : (postEntry env.digest (env.clock w.ticks) posting w.ledger).1 = .ok transaction :=
    congrArg Prod.fst h
  rcases postEntry_row env.digest (env.clock w.ticks) posting w.ledger with
    ⟨e, he, -⟩ | ⟨row, next, -, hrow, -, -, -, -, hposted⟩
  · rw [hanswer] at he
    cases he
  · rw [hposted] at hanswer
    obtain rfl := Except.ok.inj hanswer
    exact congrArg Posting.legs hrow

theorem Work.WritesOnly.upholds {α : Type} {x : Work α} (h : x.WritesOnly []) :
    x.Upholds (World.SoldOff config) fun _ => True :=
  .of_kept fun w hw => hw.of_spares (h w) List.not_mem_nil List.not_mem_nil

theorem postEntry_upholds {posting : Posting} {β : Type} {f : Transaction → Work β} {R : β → Prop}
    (hf : ∀ transaction, transaction.legs = (dropZeroLegs posting).legs →
      (f transaction).Upholds (World.SoldOff config) R) :
    (Work.postEntry env posting >>= f).Upholds (World.SoldOff config) R := by
  have hstep : (Work.postEntry env posting).Upholds (World.SoldOff config) fun transaction =>
      transaction.legs = (dropZeroLegs posting).legs := by
    intro w transaction w' hw hrun
    have hsales : w'.sales.rows = w.sales.rows := (congrArg (fun r => r.2.sales.rows) hrun).symm
    have haccruals : w'.accruals.rows.rows = w.accruals.rows.rows :=
      (congrArg (fun r => r.2.accruals.rows.rows) hrun).symm
    exact ⟨hw.of_rows hsales haccruals, post_legs hrun⟩
  exact hstep.bind hf

theorem putAccruals_upholds {P : World → Prop} {batch : List AccrualRow}
    (hput : ∀ w, P w → P { w with accruals := (AccrualWrite.put batch).run w.accruals }) :
    (Work.putAccruals batch).Upholds P fun _ => True := by
  intro w a w' hw hrun
  simp only [Work.putAccruals, Work.quiet, Txn.putAccruals] at hrun
  split at hrun
  · cases hrun
  · cases hrun
    exact ⟨hput w hw, trivial⟩

theorem accrualRowsOf_shards {input : Accrued} {shares : Shares} {rows : List AccrualRow}
    (h : accrualRowsOf input shares = .ok rows) :
    ∀ row ∈ rows, row.shard = platformShard SYSTEM.SETTLEMENT_ACCRUAL input.routeKey input.shards := by
  intro row hrow
  obtain ⟨share, -, hshare⟩ := mem_mapM_ok h row hrow
  obtain ⟨amount, -, hshare⟩ := except_bind_ok.mp hshare
  obtain rfl := except_pure_ok.mp hshare
  exact Eq.refl _

theorem recordAccruals_upholds (orderId routeKey : String) (charge : Charge) (transaction : Transaction) :
    (recordAccruals config orderId routeKey charge transaction).Upholds (World.SoldOff config) fun _ =>
      True := by
  unfold recordAccruals
  split
  · exact .pure trivial
  · apply Work.Upholds.lift
    intro rows hrows
    apply putAccruals_upholds
    intro w hw
    apply hw.put_rows
    intro row hrow
    rw [accrualRowsOf_shards hrows row hrow]
    exact shard_off_reserve (by decide) (by decide) _

/-- A purchase records the legs that it posted. -/
theorem spend_upholds (o : SpendOperation) :
    (spend env config o).Upholds (World.SoldOff config) fun _ => True := by
  unfold spend
  apply Work.Upholds.lift
  intro _ _
  apply Work.Upholds.lift
  intro price _
  apply Work.Upholds.lift
  intro _ hshares
  apply Work.Upholds.lift
  intro recipientId _
  apply Work.Upholds.step fun w hw => hw
  intro existing
  split
  · exact .pure trivial
  · apply Work.Upholds.step fun w hw => hw
    intro promoBalance
    apply Work.Upholds.lift
    intro plan _
    apply Work.Upholds.step fun w hw => hw
    intro live
    apply (screenMaturity_writesOnly env config _ _ _).upholds.bind
    rintro (_ | immature) -
    · apply Work.Upholds.lift
      intro built hbuilt
      have hcharge := buildSpendLegs_charge (assertRecipientShares_positive hshares) hbuilt
      have hlegs : routePlatformLegs (parkCharge config built).legs o.idempotencyKey
        config.platformShards =
          chargedLegs config.accrualDrain o.idempotencyKey config.platformShards built := by
        rw [parkCharge_legs]
        exact Eq.refl _
      apply Work.Upholds.step fun w hw => ⟨hw.sold, hw.parked⟩
      intro txnId
      apply postEntry_upholds
      intro transaction hposted
      apply Work.Upholds.lift
      intro sale hsale
      have hsold : sale.legs = transaction.legs := by
        obtain ⟨feeMinor, -, hsale⟩ := except_bind_ok.mp hsale
        obtain ⟨fee, -, hsale⟩ := except_bind_ok.mp hsale
        obtain rfl := except_pure_ok.mp hsale
        exact Eq.refl _
      apply Work.Upholds.step
      · intro w hw
        apply hw.put_sale
        intro leg hleg
        rw [hsold, hposted] at hleg
        simp only [dropZeroLegs, hlegs, List.mem_filter, ne_eq, decide_eq_true_eq] at hleg
        have hcovered := hcharge.charged_covered _ _ _ hleg.1 hleg.2
        rw [← spendLocks_eq] at hcovered
        exact spendLocks_off_reserve o config.accrualDrain _ hcovered
      · intro _
        apply (recordAccruals_upholds _ _ _ _).bind
        intro _ _
        apply Work.Upholds.step fun w hw => ⟨hw.sold, hw.parked⟩
        exact fun _ => .pure trivial
    · exact .pure trivial

theorem subscribe_upholds (o : SubscribeOperation) :
    (subscribe env config o).Upholds (World.SoldOff config) fun _ => True := by
  unfold subscribe
  apply Work.Upholds.lift
  intro _ _
  apply Work.Upholds.lift
  intro _ _
  apply Work.Upholds.lift
  intro price _
  apply Work.Upholds.step fun w hw => hw
  intro existing
  split
  · exact .pure trivial
  · apply Work.Upholds.step fun w hw => hw
    intro promoBalance
    apply Work.Upholds.lift
    intro plan _
    apply (screenSpendable_writesOnly env config _ _).upholds.bind
    rintro (_ | refused) -
    · apply Work.Upholds.step fun w hw => ⟨hw.sold, hw.parked⟩
      intro subscriptionId
      have hcharge : (postCharge env config o plan subscriptionId).Upholds (World.SoldOff config) fun _ =>
          True := by
        apply Work.Upholds.lift
        intro built _
        apply Work.Upholds.step fun w hw => ⟨hw.sold, hw.parked⟩
        intro txnId
        apply postEntry_upholds
        intro transaction _
        apply (recordAccruals_upholds _ _ _ _).bind
        exact fun _ _ => .pure trivial
      apply hcharge.bind
      intro transaction _
      apply Work.Upholds.step fun w hw => ⟨hw.sold, hw.parked⟩
      intro _
      apply Work.Upholds.step fun w hw => ⟨hw.sold, hw.parked⟩
      exact fun _ => .pure trivial
    · exact .pure trivial

end Sales

/-! ## Refunds -/

/-- A line's key names its account: the currency and the amount hold no bar. -/
theorem legKey_account {leg leg' : Leg} (h : legKey leg = legKey leg') : leg.account = leg'.account := by
  have hdigits : ∀ n : Int, '|' ∉ (toString n).toList := by
    intro n hmem
    rcases mem_toString_int hmem with hdigit | hminus
    · exact absurd hdigit (by decide)
    · exact absurd hminus (by decide)
  have hcurrency : ∀ c : Currency, '|' ∉ c.text.toList := by
    intro c
    cases c <;> decide
  have hkey : ∀ leg : Leg, cutLast '|' (legKey leg) =
      some (leg.account ++ "|" ++ leg.amount.currency.text, toString leg.amount.minor) :=
    fun leg => cutLast_append '|' _ _ (hdigits _)
  have haccount : ∀ leg : Leg, cutLast '|' (leg.account ++ "|" ++ leg.amount.currency.text) =
      some (leg.account, leg.amount.currency.text) := fun leg => cutLast_append '|' _ _ (hcurrency _)
  have hfirst := hkey leg
  rw [h, hkey leg'] at hfirst
  have hcut := haccount leg
  rw [← (Prod.mk.inj (Option.some.inj hfirst)).1, haccount leg'] at hcut
  exact (Prod.mk.inj (Option.some.inj hcut)).1.symm

/-- The posting of a sale that matches it is on the sale's accounts. -/
theorem matched_accounts {sale : Sale} {posting : Posting}
    (h : assertSaleMatchesPosting sale posting = .ok ()) :
    ∀ leg ∈ posting.legs, ∃ sold ∈ sale.legs, leg.account = sold.account := by
  unfold assertSaleMatchesPosting at h
  split at h
  · rename_i hsame
    intro leg hleg
    have hmem : legKey leg ∈ sortStrings (posting.legs.map legKey) :=
      (List.mem_insertionSort _).mpr (List.mem_map_of_mem hleg)
    rw [hsame] at hmem
    obtain ⟨sold, hsold, hkey⟩ := List.mem_map.mp ((List.mem_insertionSort _).mp hmem)
    exact ⟨sold, hsold, legKey_account hkey.symm⟩
  · cases h

section Refunds

variable {env : Env} {config : Config} {held : AccountRef → Int}

theorem postEntry_apart {posting : Posting}
    (hlegs : ∀ leg ∈ posting.legs, leg.account ∉ shardsOf SYSTEM.PAYOUT_RESERVE config.platformShards) :
    (Work.postEntry env posting).Upholds (World.Apart config held) fun _ => True := by
  intro w transaction w' hw hrun
  obtain ⟨row, hrow, -, -, -, hbalance⟩ := postEntry_posted hrun
  have hsales : w'.sales.rows = w.sales.rows := (congrArg (fun r => r.2.sales.rows) hrun).symm
  have haccruals : w'.accruals.rows.rows = w.accruals.rows.rows :=
    (congrArg (fun r => r.2.accruals.rows.rows) hrun).symm
  refine ⟨⟨hw.of_rows hsales haccruals, ?_⟩, trivial⟩
  intro a ha
  rw [hbalance, total_eq_zero, Int.add_zero]
  · exact hw.reserve a ha
  · intro hmem
    obtain ⟨leg, hleg, hon⟩ := List.mem_map.mp (mem_deltas_account.mp hmem)
    have hposted : leg ∈ (dropZeroLegs posting).legs := hrow ▸ hleg
    exact hlegs leg (List.mem_filter.mp hposted).1 (hon ▸ ha)

theorem recoveryRowsOf_shards {txnId : String} {now : Int} {claimed drained rows : List AccrualRow}
    (h : recoveryRowsOf txnId now claimed drained = .ok rows) {S : AccountRef → Prop}
    (hdrained : ∀ row ∈ drained, S row.shard) : ∀ row ∈ rows, S row.shard := by
  induction drained generalizing claimed rows with
  | nil =>
    cases h
    intro row hrow
    cases hrow
  | cons first drained ih =>
    unfold recoveryRowsOf at h
    obtain ⟨amount, -, h⟩ := except_bind_ok.mp h
    obtain ⟨rest, hrest, h⟩ := except_bind_ok.mp h
    obtain rfl := except_pure_ok.mp h
    intro row hrow
    rcases List.mem_cons.mp hrow with rfl | hlater
    · exact hdrained first List.mem_cons_self
    · exact ih hrest (fun later hmem => hdrained later (List.mem_cons_of_mem _ hmem)) row hlater

def Reversal.Off (config : Config) (reversal : Reversal) : Prop :=
  ∀ leg ∈ reversal.legs, leg.account ∉ shardsOf SYSTEM.PAYOUT_RESERVE config.platformShards

section Posting

variable {posting : Posting}
  (hposting : ∀ leg ∈ posting.legs, leg.account ∉ shardsOf SYSTEM.PAYOUT_RESERVE config.platformShards)

include hposting

theorem folded_off_reserve {folded : List AccountDelta} (h : foldDeltas posting.legs = .ok folded) :
    ∀ a ∈ folded.map AccountDelta.account, a ∉ shardsOf SYSTEM.PAYOUT_RESERVE config.platformShards := by
  intro a ha
  obtain ⟨d, hd, rfl⟩ := List.mem_map.mp ha
  obtain ⟨leg, hleg, haccount⟩ := List.mem_map.mp (foldDeltas_accounts h d hd)
  exact haccount ▸ hposting leg hleg

theorem reverseSale_apart :
    (reverseSale posting).Upholds (World.Apart config held) (Reversal.Off config) := by
  apply Work.Upholds.lift
  intro folded hfolded
  have hoff := folded_off_reserve hposting hfolded
  apply Work.Upholds.reading
  intro balance coverage hcoverage
  apply Work.Upholds.lift
  intro legs hlegs
  apply Work.Upholds.pure
  intro leg hleg
  rcases reversalLegs_accounts hlegs leg hleg with hmem | hreceivable
  · obtain ⟨d, hd, haccount⟩ := List.mem_map.mp hmem
    exact haccount ▸ hoff _ (coverageOf_accounts hcoverage d hd)
  · exact hreceivable ▸ receivable_off_reserve

theorem reverseParked_apart {claimed saleRows : List AccrualRow} {txnId : String}
    (hrows : ∀ row ∈ saleRows, row.shard ∉ shardsOf SYSTEM.PAYOUT_RESERVE config.platformShards) :
    (reverseParked env posting claimed saleRows txnId).Upholds (World.Apart config held)
    (Reversal.Off config) := by
  apply Work.Upholds.lift
  intro _ _
  apply Work.Upholds.lift
  intro folded hfolded
  have hoff := folded_off_reserve hposting hfolded
  apply Work.Upholds.reading
  intro balance legs hlegs
  have hreversal : ∀ leg ∈ legs, leg.account ∉ shardsOf SYSTEM.PAYOUT_RESERVE config.platformShards := by
    intro leg hleg
    rcases accrualReversalLegs_accounts hlegs leg hleg with hmem | hreceivable | ⟨row, hrow, haccount⟩
    · exact hoff _ hmem
    · exact hreceivable ▸ receivable_off_reserve
    · exact haccount ▸ hrows row (List.mem_filter.mp hrow).1
  apply Work.Upholds.step fun w hw => ⟨hw.mark_rows _ _ _, hw.reserve⟩
  intro _
  split
  · exact .pure hreversal
  · apply Work.Upholds.step fun w hw => ⟨⟨hw.sold, hw.parked⟩, hw.reserve⟩
    intro now
    apply Work.Upholds.lift
    intro rows hrecovery
    have hbatch := recoveryRowsOf_shards hrecovery
      (S := fun shard => shard ∉ shardsOf SYSTEM.PAYOUT_RESERVE config.platformShards)
      fun row hrow => hrows row (List.mem_filter.mp hrow).1
    apply (putAccruals_upholds fun w hw => ⟨hw.put_rows hbatch, hw.reserve⟩).bind
    exact fun _ _ => .pure hreversal

theorem reverseOrder_apart {o : RefundOperation} {sale : Sale} :
    (reverseOrder env o sale posting).Upholds (World.Apart config held) fun _ => True := by
  unfold reverseOrder
  apply Work.Upholds.step fun w hw => ⟨⟨hw.sold, hw.parked⟩, hw.reserve⟩
  intro txnId
  apply Work.Upholds.read
  intro w claimed hw hclaimed
  have hrows : ∀ row ∈ saleRowsOf sale claimed,
      row.shard ∉ shardsOf SYSTEM.PAYOUT_RESERVE config.platformShards := by
    intro row hrow
    obtain rfl := Except.ok.inj hclaimed
    obtain ⟨key, -, hget⟩ := List.mem_filterMap.mp (List.mem_filter.mp (List.mem_filter.mp hrow).1).1
    exact hw.parked key row hget
  simp only
  split
  · apply (reverseSale_apart hposting).bind
    exact fun reversal hreversal => postEntry_apart hreversal
  · apply (reverseParked_apart hposting hrows).bind
    exact fun reversal hreversal => postEntry_apart hreversal

end Posting

/-- A refund leaves the reserve as it is, whatever it gives back. -/
theorem refund_apart (o : RefundOperation) :
    (refund env o).Upholds (World.Apart config held) fun _ => True := by
  unfold refund
  apply Work.Upholds.lift
  intro _ _
  apply Work.Upholds.read
  rintro w (_ | sale) hw hfound
  · exact .pure trivial
  · apply Work.Upholds.read
    intro w₁ posting _ hproved
    apply Work.Upholds.lift
    intro _ hmatched
    have hposting : ∀ leg ∈ posting.legs,
        leg.account ∉ shardsOf SYSTEM.PAYOUT_RESERVE config.platformShards := by
      intro leg hleg
      obtain ⟨sold, hsold, haccount⟩ := matched_accounts hmatched leg hleg
      exact haccount ▸ hw.sold o.orderId sale (Except.ok.inj hfound) sold hsold
    apply Work.Upholds.step fun w hw => hw
    intro _
    apply Work.Upholds.claiming fun w keys hw => ⟨⟨hw.sold, hw.parked⟩, hw.reserve⟩
    · exact fun _ => .pure trivial
    · apply (reverseOrder_apart hposting).bind
      exact fun _ _ => .pure fun _ _ => trivial
    · intro transaction
      apply Work.Upholds.step fun w hw => ⟨⟨hw.sold, hw.parked⟩, hw.reserve⟩
      exact fun _ => .pure trivial

theorem reverse_apart {o : ReverseOperation} {w w' : World} {outcome : Outcome} (h : w.SoldOff config)
    (hentry : ∀ posting ∈ w.ledger.tables.findPosting o.txnId,
      ∀ leg ∈ posting.legs, leg.account ∉ shardsOf SYSTEM.PAYOUT_RESERVE config.platformShards)
    (hrun : (reverse env o).txn.run w = (.ok outcome, w')) :
      w'.Apart config w.ledger.tables.balanceOf := by
  obtain ⟨_, w₁, hlift, hrun⟩ := Txn.bind_ok hrun
  obtain ⟨-, rfl⟩ := lift_step hlift
  obtain ⟨_, w₁, hlift, hrun⟩ := Txn.bind_ok hrun
  obtain ⟨-, rfl⟩ := lift_step hlift
  obtain ⟨original, w₁, hread, hrun⟩ := Txn.bind_ok hrun
  obtain ⟨hloaded, rfl⟩ := read_step hread
  have hfound : original ∈ w.ledger.tables.findPosting o.txnId := by
    obtain ⟨found, hverified, hloaded⟩ := except_bind_ok.mp hloaded
    unfold verifiedPosting at hverified
    split at hverified
    · cases hverified
      cases hloaded
    · rename_i posting hget
      obtain ⟨_, -, hverified⟩ := except_bind_ok.mp hverified
      obtain ⟨_, -, hverified⟩ := except_bind_ok.mp hverified
      cases hverified
      cases hloaded
      exact hget
  have hlegs := hentry original hfound
  have hrest : Work.Upholds (World.Apart config w.ledger.tables.balanceOf) (do
      Work.lift (assertNotReversal original)
      Work.lockAll (original.legs.map Leg.account)
      Work.claiming env (reversalKey o.txnId) (reversalKey_reversal _) answerDuplicate
        (do
          let txnId ← Work.mint env "txn"
          let legs ← Work.lift (original.legs.mapM reverseLeg)
          let transaction ← Work.postEntry env ⟨txnId, legs, reverseMeta o⟩
          return .inl transaction)
        fun transaction => return .committed transaction) fun _ => True := by
    apply Work.Upholds.lift
    intro _ _
    apply Work.Upholds.step fun w hw => hw
    intro _
    apply Work.Upholds.claiming fun w keys hw => ⟨⟨hw.sold, hw.parked⟩, hw.reserve⟩
    · exact fun _ => .pure trivial
    · apply Work.Upholds.step fun w hw => ⟨⟨hw.sold, hw.parked⟩, hw.reserve⟩
      intro txnId
      apply Work.Upholds.lift
      intro legs hreversed
      have hoff : ∀ leg ∈ legs, leg.account ∉ shardsOf SYSTEM.PAYOUT_RESERVE config.platformShards := by
        intro leg hleg
        obtain ⟨line, hline, haccount⟩ := List.mem_map.mp (reverseLegs_accounts hreversed leg hleg)
        exact haccount ▸ hlegs line hline
      apply (postEntry_apart hoff).bind
      exact fun _ _ => .pure fun _ _ => trivial
    · exact fun _ => .pure trivial
  exact (hrest w outcome w' ⟨h, fun _ _ => Eq.refl _⟩ hrun).1

end Refunds

/-- Whatever an operation commits, the sales on record keep off the reserve. -/
theorem handlerOf_soldOff {ports : Ports} {env : Env} {config : Config} {operation : Operation}
    {w w' : World} {outcome : Outcome} (h : w.SoldOff config)
    (hrun : (handlerOf ports env config operation).txn.run w = (.ok outcome, w')) : w'.SoldOff config := by
  have hspares := handlerOf_writesOnly ports env config operation w
  rw [hrun] at hspares
  have hother : .sales ∉ storesOf operation → .accruals ∉ storesOf operation → w'.SoldOff config :=
    fun hsales haccruals => h.of_spares hspares hsales haccruals
  cases operation with
  | spend o => exact (spend_upholds o w outcome w' h hrun).1
  | subscribe o => exact (subscribe_upholds o w outcome w' h hrun).1
  | refund o => exact (refund_apart o w outcome w' ⟨h, fun _ _ => Eq.refl _⟩ hrun).1.toSoldOff
  | _ => exact hother (by simp [storesOf]) (by simp [storesOf])

end EconomyLab
