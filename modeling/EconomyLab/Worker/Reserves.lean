import EconomyLab.Worker.Proceeds

/-!
# The reserve holds what open payouts set aside

Over any interleaving of submits with the steps of any number of sweeps, whatever a processor
answers and however stale the rows are that a sweep works from, the shards of the reserve hold
together what the open payouts set aside.
-/

namespace EconomyLab

open Foundation

/-- A correction may name the reserve itself, and a reversal an entry on it; no other operation can. -/
def Operation.SparesReserve (config : Config) (w : World) : Operation → Prop
  | .adjust o => o.account ∉ shardsOf SYSTEM.PAYOUT_RESERVE config.platformShards
  | .reverse o => ∀ posting ∈ w.ledger.tables.findPosting o.txnId,
      ∀ leg ∈ posting.legs, leg.account ∉ shardsOf SYSTEM.PAYOUT_RESERVE config.platformShards
  | _ => True

instance (config : Config) (w : World) :
    (operation : Operation) → Decidable (operation.SparesReserve config w)
  | .adjust o => inferInstanceAs (Decidable
    (o.account ∉ shardsOf SYSTEM.PAYOUT_RESERVE config.platformShards))
  | .reverse o => inferInstanceAs (Decidable (∀ posting ∈ w.ledger.tables.findPosting o.txnId,
      ∀ leg ∈ posting.legs, leg.account ∉ shardsOf SYSTEM.PAYOUT_RESERVE config.platformShards))
  | .refund _ => .isTrue trivial
  | .topUp _ => .isTrue trivial
  | .spend _ => .isTrue trivial
  | .clawback _ => .isTrue trivial
  | .requestPayout _ => .isTrue trivial
  | .subscribe _ => .isTrue trivial
  | .cancelSubscription _ => .isTrue trivial
  | .grantEntitlement _ => .isTrue trivial
  | .revokeEntitlement _ => .isTrue trivial
  | .grantPromo _ => .isTrue trivial
  | .reversePayout _ => .isTrue trivial
  | .settlePayout _ => .isTrue trivial

section Handlers

variable {ports : Ports} {env : Env} {config : Config} {answered : String → Prop} {w w' : World}
  {transaction : Transaction}

variable {x : Work Outcome} {operation : Operation} {stores : List RowStore} {outcome : Outcome}

/-- Work that posts on what it locked, off the reserve, and writes no payout. -/
theorem sits_of_locks {locked : List AccountRef} {Q : Outcome → Watch → Prop}
    (hguard : Work.GuardedAt w (.start locked) x Q)
    (hlocked : ∀ outcome s, Q outcome s → s.locked = locked)
    (hoff : ∀ a ∈ locked, a ∉ shardsOf SYSTEM.PAYOUT_RESERVE config.platformShards)
    (hwrites : x.WritesOnly stores) (hsagas : .sagas ∉ stores) (h : x.txn.run w = (.ok outcome, w')) :
    SagaMove env config answered w w' := by
  have hspares := hwrites w
  rw [h] at hspares
  apply SagaMove.sits (congrArg SagaTables.rows (hspares.rows .sagas hsagas))
  intro a ha
  have hposted := accepts_posted hguard.1 fun leg hleg => absurd hleg List.not_mem_nil
  rw [hlocked _ _ (hguard.2 h), after_posted] at hposted
  rw [(x.books h).balance, total_eq_zero, Int.add_zero]
  intro hmem
  obtain ⟨leg, hleg, hon⟩ := List.mem_map.mp (mem_deltas_account.mp hmem)
  exact hoff _ (hposted leg (List.mem_append_right _ hleg)) (hon ▸ ha)

theorem staysOn_sits {locked : List AccountRef} (hstays : StaysOn locked x)
    (hoff : ∀ a ∈ locked, a ∉ shardsOf SYSTEM.PAYOUT_RESERVE config.platformShards)
    (hwrites : x.WritesOnly stores) (hsagas : .sagas ∉ stores) (h : x.txn.run w = (.ok outcome, w')) :
    SagaMove env config answered w w' := by
  apply sits_of_locks (hstays w) _ hoff hwrites hsagas h
  exact fun _ _ hafter => hafter.2

theorem apart_sits (hapart : w'.Apart config w.ledger.tables.balanceOf) (hwrites : x.WritesOnly stores)
    (hsagas : .sagas ∉ stores) (h : x.txn.run w = (.ok outcome, w')) :
    SagaMove env config answered w w' := by
  have hspares := hwrites w
  rw [h] at hspares
  exact .sits (congrArg SagaTables.rows (hspares.rows .sagas hsagas)) hapart.reserve

theorem handler_moves (hvalid : validateOperation config operation = .ok ())
    (hspares : operation.SparesReserve config w) (hkeyed : w.sagas.rows.Keyed) (hsold : w.SoldOff config)
    (h : (handlerOf ports env config operation).txn.run w = (.ok (.committed transaction), w')) :
    SagaMove env config answered w w' := by
  cases operation with
  | topUp o =>
    apply staysOn_sits (topUp_staysOn env config ports.rates o)
      _ (topUp_writesOnly env config ports.rates o) (by simp)
      h
    simp only [LOCK_SETS.topUp, List.forall_mem_cons]
    exact ⟨wallet_off_reserve _ _, shard_off_reserve (by decide) (by decide) _,
      shard_off_reserve (by decide) (by decide) _, shard_off_reserve (by decide) (by decide) _,
      shard_off_reserve (by decide) (by decide) _, fun a ha => absurd ha List.not_mem_nil⟩
  | spend o =>
    refine sits_of_locks (spend_guarded env config o w) ?_ ?_ (spend_writesOnly env config o) (by simp) h
    · exact fun _ _ hafter => hafter.2.1
    · exact spendLocks_off_reserve o config.accrualDrain
  | refund o =>
    have hapart := (refund_apart o w _ w' ⟨hsold, fun _ _ => Eq.refl _⟩ h).1
    exact apart_sits hapart (refund_writesOnly env o) (by simp) h
  | clawback o =>
    apply staysOn_sits (clawback_staysOn env o) _ (clawback_writesOnly env o) (by simp) h
    simp only [LOCK_SETS.clawback, List.forall_mem_cons]
    exact ⟨wallet_off_reserve _ _, system_off_reserve (by decide) (by decide),
      system_off_reserve (by decide) (by decide), fun a ha => absurd ha List.not_mem_nil⟩
  | requestPayout o => exact requestPayout_opens h
  | subscribe o =>
    refine sits_of_locks (subscribe_guarded env config o (amount_positive hvalid rfl rfl) w) ?_ ?_
      (subscribe_writesOnly env config o) (by simp) h
    · exact fun _ _ hafter => hafter.2.1
    · exact subscribeLocks_off_reserve o config.accrualDrain
  | cancelSubscription o =>
    apply staysOn_sits (cancelSubscription_staysOn env o) _ (cancelSubscription_writesOnly env o) (by
      simp) h
    exact fun a ha => absurd ha List.not_mem_nil
  | grantEntitlement o =>
    apply staysOn_sits (grantEntitlement_staysOn env o) _ (grantEntitlement_writesOnly env o) (by simp) h
    exact fun a ha => absurd ha List.not_mem_nil
  | revokeEntitlement o =>
    apply staysOn_sits (revokeEntitlement_staysOn env o) _ (revokeEntitlement_writesOnly env o) (by simp) h
    exact fun a ha => absurd ha List.not_mem_nil
  | grantPromo o =>
    apply staysOn_sits (grantPromo_staysOn env o) _ (grantPromo_writesOnly env o) (by simp) h
    simp only [LOCK_SETS.grantPromo, List.forall_mem_cons]
    exact ⟨wallet_off_reserve _ _, system_off_reserve (by
      decide) (by decide), fun a ha => absurd ha List.not_mem_nil⟩
  | adjust o =>
    apply staysOn_sits (adjust_staysOn env o) _ (adjust_writesOnly env o) (by simp) h
    simp only [LOCK_SETS.adjust, List.forall_mem_cons]
    exact ⟨hspares, system_off_reserve (by decide) (by decide), fun a ha => absurd ha List.not_mem_nil⟩
  | reverse o => exact apart_sits (reverse_apart hsold hspares h) (reverse_writesOnly env o) (by simp) h
  | reversePayout o => exact reversePayout_returns hkeyed h
  | settlePayout o => exact settlePayout_settles hkeyed h

theorem Operation.SparesReserve.of_ledger (h : operation.SparesReserve config w)
    (hledger : w'.ledger.tables = w.ledger.tables) : operation.SparesReserve config w' := by
  cases operation with
  | reverse o => exact fun posting hposting => h posting (hledger ▸ hposting)
  | _ => exact h

/-- A submit makes one move at most, and its sales keep off the reserve. -/
theorem submit_moves {now : Int} (hsettled : w.Settled)
    (hspares : operation.SparesReserve config w) (hkeyed : w.sagas.rows.Keyed) (hsold : w.SoldOff config) :
    SagaMove env config answered w (submit (registry ports) env config operation now w).2 ∧
      (submit (registry ports) env config operation now w).2.SoldOff config := by
  have hminted : w.minted ≤ (submit (registry ports) env config operation now w).2.minted :=
    submit_minted hsettled
  by_cases hcommits : ∃ t, (submit (registry ports) env config operation now w).1 = .ok (.committed t)
  · obtain ⟨t, ht⟩ := hcommits
    have hslot := eq_of_slot ht
    have hvalid := (submit_committed (registry_orderly ports) hslot).valid
    obtain ⟨w₁, w₂, hfronts, hhandler, hfiles, hmore, -⟩ := submit_handles hsettled hslot
    have hbefore : w.Quiet w₁ := by
      apply World.Quiet.of_tables hfronts.ledger _ hfronts.minted.ge
      rw [hfronts.sagas]
    have hkeyed' : w₁.sagas.rows.Keyed := hfronts.sagas ▸ hkeyed
    have hafter : w₂.Quiet (submit (registry ports) env config operation now w).2 := by
      apply World.Quiet.of_tables hfiles.ledger _ hmore
      rw [hfiles.sagas]
    have hsold₁ : w₁.SoldOff config :=
      hsold.of_rows hfronts.sales (congrArg AccrualTables.rows hfronts.accruals)
    have hsold₂ : w₂.SoldOff config := handlerOf_soldOff hsold₁ hhandler
    have hmove : SagaMove env config answered w₁ w₂ :=
      handler_moves hvalid (hspares.of_ledger hfronts.ledger) hkeyed' hsold₁ hhandler
    exact ⟨(hmove.before_quiet hafter).after_quiet hbefore,
      hsold₂.of_rows hfiles.sales (congrArg AccrualTables.rows hfiles.accruals)⟩
  · have hstill := submit_still hsettled fun t ht => hcommits ⟨t, ht⟩
    have hquiet : w.Quiet (submit (registry ports) env config operation now w).2 :=
      .of_tables hstill.ledger (congrArg (fun r => r.sagas.rows) hstill.rows) hminted
    exact ⟨.of_quiet hquiet, hsold.of_rows (congrArg RowStores.sales hstill.rows)
      (congrArg (fun r => r.accruals.rows) hstill.rows)⟩

end Handlers

/-! ## What open payouts set aside -/

/-- What a payout keeps of its reserve. -/
def Saga.kept (saga : Saga) : Int := if saga.state.claimable then saga.reserve.minor else 0

def keptReserves (t : SagaTables) : Int := t.rows.held Saga.kept

def reserveHeld (config : Config) (w : World) : Int :=
  acrossShards SYSTEM.PAYOUT_RESERVE config.platformShards w.ledger.tables.balanceOf

/-- A payout's row is known by an id that was minted for it. -/
def World.MintedSagas (env : Env) (w : World) : Prop :=
  ∀ id saga, w.sagas.rows.rows.get id = some saga → ∃ n < w.minted, id = "pay" ++ "_" ++ env.uuid n

/-- Each payout is filed under its own minted id, and the reserve holds what the open ones keep. -/
structure World.ReservesKept (env : Env) (config : Config) (w : World) : Prop where
  keyed : w.sagas.rows.Keyed
  distinct : w.sagas.rows.rows.keys.Nodup
  minted : w.MintedSagas env
  kept : reserveHeld config w = keptReserves w.sagas.rows

theorem minted_ids_inj {env : Env} (hids : Function.Injective env.uuid) {m n : Nat}
    (h : "pay" ++ "_" ++ env.uuid m = "pay" ++ "_" ++ env.uuid n) : m = n := by
  apply hids
  have hlist := congrArg String.toList h
  simp only [String.toList_append] at hlist
  exact String.toList_inj.mp (List.append_cancel_left hlist)

theorem reserve_isDebitNormal {a : AccountRef} {shards : Nat}
    (h : a ∈ shardsOf SYSTEM.PAYOUT_RESERVE shards) :
    isDebitNormal a = false := by
  obtain ⟨shard, -, rfl⟩ := List.mem_map.mp h
  rw [isDebitNormal, traitsOf_shardRef (by decide)]
  decide

theorem reserveHeld_congr {config : Config} {w w' : World}
    (h : ∀ a ∈ shardsOf SYSTEM.PAYOUT_RESERVE config.platformShards,
      w'.ledger.tables.balanceOf a = w.ledger.tables.balanceOf a) : reserveHeld config w' =
        reserveHeld config w :=
  congrArg List.sum (List.map_congr_left h)

theorem World.Enters.reserveHeld {lines : List (AccountRef × Int)} {w w' : World} (h : w.Enters lines w')
    (config : Config) :
    EconomyLab.reserveHeld config w' =
      EconomyLab.reserveHeld config w - acrossShards SYSTEM.PAYOUT_RESERVE config.platformShards
        (total lines) := by
  have hsum := acrossShards_add SYSTEM.PAYOUT_RESERVE config.platformShards w'.ledger.tables.balanceOf
    (total lines)
  have hsame : (acrossShards SYSTEM.PAYOUT_RESERVE config.platformShards fun a =>
      w'.ledger.tables.balanceOf a + total lines a) = EconomyLab.reserveHeld config w := by
    apply congrArg List.sum
    apply List.map_congr_left
    intro a ha
    rw [h.balance a, reserve_isDebitNormal ha, if_neg Bool.false_ne_true]
    omega
  rw [hsame] at hsum
  exact eq_sub_of_add_eq hsum.symm

theorem acrossShards_nil (base : AccountRef) (shards : Nat) : acrossShards base shards (total []) = 0 := by
  apply List.sum_eq_zero
  intro x hx
  obtain ⟨a, -, rfl⟩ := List.mem_map.mp hx
  exact total_nil a

theorem earned_off_reserve (userId : String) (shards : Nat) :
    earned userId ∉ shardsOf SYSTEM.PAYOUT_RESERVE shards := wallet_off_reserve userId .earned

section Lines

variable {config : Config} {saga : Saga}

theorem reserveShard_mem :
    reserveShard config saga ∈ shardsOf SYSTEM.PAYOUT_RESERVE config.platformShards :=
  platformShard_mem _ _

theorem openLines_reserve :
    acrossShards SYSTEM.PAYOUT_RESERVE config.platformShards (total (openLines config saga)) =
      -saga.reserve.minor := by
  unfold openLines
  rw [acrossShards_cons, acrossShards_cons, acrossShards_nil, if_neg (earned_off_reserve _ _),
    if_pos reserveShard_mem, zero_add, add_zero]

theorem returnLines_reserve :
    acrossShards SYSTEM.PAYOUT_RESERVE config.platformShards (total (returnLines config saga)) =
      saga.reserve.minor := by
  unfold returnLines
  rw [acrossShards_cons, acrossShards_cons, acrossShards_nil, if_pos reserveShard_mem,
    if_neg (earned_off_reserve _ _), add_zero, add_zero]

theorem settleLines_reserve (usd : Amount) :
    acrossShards SYSTEM.PAYOUT_RESERVE config.platformShards (total (settleLines config saga usd)) =
      saga.reserve.minor := by
  unfold settleLines
  rw [List.cons_append, List.cons_append, List.nil_append, acrossShards_cons, acrossShards_cons,
    acrossShards_cons,
    acrossShards_cons, acrossShards_nil, if_pos reserveShard_mem,
    if_neg (system_off_reserve (by
      decide) (by decide)), if_neg (system_off_reserve (by decide) (by decide)),
    if_neg (system_off_reserve (by decide) (by decide))]
  omega

end Lines

section Moves

variable {env : Env} {config : Config} {answered : String → Prop} {w w' : World}

theorem kept_of_state {saga saga' : Saga} {state : SagaState} (hsame : saga.SameClaim saga')
    (hstate : saga'.state = state) (hopen : saga.state.claimable = state.claimable) :
    saga'.kept = saga.kept := by
  unfold Saga.kept
  rw [hstate, hopen, hsame.reserve]

theorem kept_of_closed {saga : Saga} (h : saga.state.claimable = false) : saga.kept = 0 := by
  unfold Saga.kept
  rw [h, if_neg Bool.false_ne_true]

theorem SagaState.Forward.open {answered : Prop} {state state' : SagaState}
    (h : state.Forward answered state') :
    state.claimable = true ∧ state'.claimable = true := by
  cases h with
  | stays _ hopen => exact ⟨hopen, hopen⟩
  | submits hanswered => exact ⟨Eq.refl _, Eq.refl _⟩

/-- A new payout's id is not taken. -/
theorem World.MintedSagas.absent (h : w.MintedSagas env) (hids : Function.Injective env.uuid) {n : Nat}
    (hold : w.minted ≤ n) : w.sagas.rows.rows.get ("pay" ++ "_" ++ env.uuid n) = none := by
  cases hget : w.sagas.rows.rows.get ("pay" ++ "_" ++ env.uuid n) with
  | none => exact Eq.refl _
  | some row =>
    obtain ⟨m, hm, hid⟩ := h _ _ hget
    have hsame := minted_ids_inj hids hid
    omega

/-- Every move keeps the rows filed and the reserve in step with them. -/
theorem SagaMove.reservesKept (hids : Function.Injective env.uuid) (h : w.ReservesKept env config)
    (hminted : w.minted ≤ w'.minted) (hmove : SagaMove env config answered w w') :
    w'.ReservesKept env config := by
  have hset : ∀ saga : Saga, (∃ n < w'.minted, saga.id = "pay" ++ "_" ++ env.uuid n) →
      w'.sagas.rows.rows = w.sagas.rows.rows.set saga.id saga →
      w'.sagas.rows.Keyed ∧ w'.sagas.rows.rows.keys.Nodup ∧ w'.MintedSagas env := by
    intro saga hid hrows
    refine ⟨?_, hrows ▸ OrderedTable.nodup_keys_set h.distinct _ _, ?_⟩
    · intro id row hget
      rw [hrows, OrderedTable.get_set] at hget
      split at hget
      · rename_i hsame
        cases hget
        exact hsame.symm
      · exact h.keyed id row hget
    · intro id row hget
      rw [hrows, OrderedTable.get_set] at hget
      split at hget
      · rename_i hsame
        exact hsame ▸ hid
      · obtain ⟨n, hn, hrow⟩ := h.minted id row hget
        exact ⟨n, by omega, hrow⟩
  have hold : ∀ saga saga' : Saga, w.sagas.rows.rows.get saga.id = some saga → saga.SameClaim saga' →
      ∃ n < w'.minted, saga'.id = "pay" ++ "_" ++ env.uuid n := by
    intro saga saga' hget hsame
    obtain ⟨n, hn, hid⟩ := h.minted saga.id saga hget
    exact ⟨n, by omega, hsame.id.trans hid⟩
  cases hmove with
  | sits hrows hreserve =>
    refine ⟨?_, hrows ▸ h.distinct, ?_, ?_⟩
    · exact fun id row hget => h.keyed id row (hrows ▸ hget)
    · intro id row hget
      obtain ⟨n, hn, hid⟩ := h.minted id row (hrows ▸ hget)
      exact ⟨n, by omega, hid⟩
    · rw [reserveHeld_congr hreserve, h.kept, keptReserves, keptReserves, hrows]
  | opens saga n hfresh hnew hid hstate hpos hrows henters =>
    obtain ⟨hkeyed, hdistinct, hmints⟩ := hset saga ⟨n, hnew, hid⟩ hrows
    refine ⟨hkeyed, hdistinct, hmints, ?_⟩
    have habsent := hid ▸ h.minted.absent hids hfresh
    rw [henters.reserveHeld, openLines_reserve, h.kept, keptReserves, keptReserves, hrows,
      OrderedTable.held_set_absent _ habsent, Saga.kept, hstate, SagaState.claimable, if_pos (Eq.refl _),
        sub_neg_eq_add]
  | amends saga saga' hget hsame hstate hrows henters =>
    obtain ⟨hkeyed, hdistinct, hmints⟩ := hset saga' (hold saga saga' hget hsame) (hsame.id.symm ▸ hrows)
    refine ⟨hkeyed, hdistinct, hmints, ?_⟩
    obtain ⟨hopen, hopen'⟩ := hstate.open
    have hkept := kept_of_state hsame (Eq.refl _) (hopen.trans hopen'.symm)
    rw [henters.reserveHeld, acrossShards_nil, sub_zero, h.kept, keptReserves, keptReserves, hrows,
      OrderedTable.held_set_same _ hget hkept]
  | returns saga saga' hget hsame hopen hstate hrows henters =>
    obtain ⟨hkeyed, hdistinct, hmints⟩ := hset saga' (hold saga saga' hget hsame) (hsame.id.symm ▸ hrows)
    refine ⟨hkeyed, hdistinct, hmints, ?_⟩
    have hnone : saga'.kept = 0 := kept_of_closed (hstate ▸ Eq.refl _)
    rw [henters.reserveHeld, returnLines_reserve, h.kept, keptReserves, keptReserves, hrows,
      OrderedTable.held_set_released _ hget hnone, Saga.kept, if_pos hopen]
  | settles saga saga' usd hget hsame hopen hstate husd hrows henters =>
    obtain ⟨hkeyed, hdistinct, hmints⟩ := hset saga' (hold saga saga' hget hsame) (hsame.id.symm ▸ hrows)
    refine ⟨hkeyed, hdistinct, hmints, ?_⟩
    have hnone : saga'.kept = 0 := kept_of_closed (hstate ▸ Eq.refl _)
    rw [henters.reserveHeld, settleLines_reserve, h.kept, keptReserves, keptReserves, hrows,
      OrderedTable.held_set_released _ hget hnone, Saga.kept, hopen, SagaState.claimable,
        if_pos (Eq.refl _)]

/-- The processor has, or had, the disbursement. -/
def SagaState.sent : SagaState → Bool
  | .submitted => true
  | .settled => true
  | _ => false

/-- What becomes of a payout's row: it names the same claim, it stays as it is once closed, and it is not
handed to the processor without an answer. -/
structure Saga.Becomes (answered : Prop) (row row' : Saga) : Prop where
  same : row.SameClaim row'
  closed : row.state.claimable = false → row' = row
  sent : row'.state.sent = true → row.state.sent = true ∨ answered

theorem Saga.Becomes.refl (answered : Prop) (row : Saga) : row.Becomes answered row :=
  ⟨.refl row, fun _ => Eq.refl _, Or.inl⟩

theorem SagaMove.row (hids : Function.Injective env.uuid) (h : w.ReservesKept env config)
    (hmove : SagaMove env config answered w w') {id : String} {row : Saga}
    (hget : w.sagas.rows.rows.get id = some row) :
    ∃ row', w'.sagas.rows.rows.get id = some row' ∧ row.Becomes (answered id) row' := by
  have hset : ∀ saga saga' : Saga, w.sagas.rows.rows.get saga.id = some saga →
      saga.Becomes (answered saga.id) saga' → w'.sagas.rows.rows = w.sagas.rows.rows.set saga.id saga' →
      ∃ row', w'.sagas.rows.rows.get id = some row' ∧ row.Becomes (answered id) row' := by
    intro saga saga' hold hbecomes hrows
    by_cases hid : id = saga.id
    · subst hid
      obtain rfl : saga = row := Option.some.inj (hold.symm.trans hget)
      exact ⟨saga', by rw [hrows, OrderedTable.get_set_self], hbecomes⟩
    · exact ⟨row, by rw [hrows, OrderedTable.get_set_of_ne _ _ hid, hget], .refl _ row⟩
  cases hmove with
  | sits hrows hreserve => exact ⟨row, hrows ▸ hget, .refl _ row⟩
  | opens saga n hfresh hnew hid hstate hpos hrows henters =>
    have habsent := hid ▸ h.minted.absent hids hfresh
    have hne : id ≠ saga.id := by
      rintro rfl
      rw [habsent] at hget
      cases hget
    exact ⟨row, by rw [hrows, OrderedTable.get_set_of_ne _ _ hne, hget], .refl _ row⟩
  | amends saga saga' hold hsame hstate hrows henters =>
    apply hset saga saga' hold _ hrows
    refine ⟨hsame, fun hclosed => absurd (hstate.open.1.symm.trans hclosed) nofun, ?_⟩
    intro hsent
    generalize hstate' : saga'.state = state' at hstate hsent
    generalize saga.state = state at hstate
    cases hstate with
    | stays _ hopen => exact Or.inl hsent
    | submits hanswered => exact Or.inr hanswered
  | returns saga saga' hold hsame hopen hstate hrows henters =>
    apply hset saga saga' hold _ hrows
    refine ⟨hsame, fun hclosed => absurd (hopen.symm.trans hclosed) nofun, ?_⟩
    intro hsent
    rw [hstate] at hsent
    cases hsent
  | settles saga saga' usd hold hsame hopen hstate husd hrows henters =>
    apply hset saga saga' hold _ hrows
    refine ⟨hsame, ?_, fun _ => Or.inl (hopen ▸ Eq.refl _)⟩
    intro hclosed
    rw [hopen] at hclosed
    cases hclosed

theorem SagaMove.newRow (hmove : SagaMove env config answered w w') {id : String} {row : Saga}
    (habsent : w.sagas.rows.rows.get id = none) (hget : w'.sagas.rows.rows.get id = some row) :
    row.state = .reserved := by
  have hset : ∀ saga saga' : Saga, w.sagas.rows.rows.get saga.id = some saga →
      w'.sagas.rows.rows = w.sagas.rows.rows.set saga.id saga' → row.state = .reserved := by
    intro saga saga' hold hrows
    rw [hrows, OrderedTable.get_set] at hget
    split at hget
    · rename_i hid
      rw [hid, hold] at habsent
      cases habsent
    · rw [habsent] at hget
      cases hget
  cases hmove with
  | sits hrows hreserve =>
    rw [hrows, habsent] at hget
    cases hget
  | opens saga n hfresh hnew hid hstate hpos hrows henters =>
    rw [hrows, OrderedTable.get_set] at hget
    split at hget
    · cases hget
      exact hstate
    · rw [habsent] at hget
      cases hget
  | amends saga saga' hold hsame hstate hrows henters => exact hset saga saga' hold hrows
  | returns saga saga' hold hsame hopen hstate hrows henters => exact hset saga saga' hold hrows
  | settles saga saga' usd hold hsame hopen hstate husd hrows henters => exact hset saga saga' hold hrows

end Moves

end EconomyLab
