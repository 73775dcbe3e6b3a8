import EconomyLab.Ledger.Solvency
import EconomyLab.Stores.Units

/-!
# Posting several entries

`postEntries` hands postings that share no account to the ledger's `appendAll` in one
call, after checking all of them; otherwise each is checked and appended in turn. The
two ways finish alike. Where one faults the other faults too, and the unit's rollback
takes back what the one by one path had already appended.
-/

namespace EconomyLab

open Foundation Text

namespace Txn

/-- The checks of `postEntry`, on a posting whose zero legs are gone. -/
def checkEntry (cleaned : Posting) : Txn Unit :=
  read fun w => do
    assertSingleCurrencyPerLeg cleaned
    assertBalanced cleaned
    assertKnownAccounts isKnownAccount cleaned
    assertNoOverdraft w.ledger.tables.balance cleaned

def checkEntries : List Posting → Txn Unit
  | [] => pure ()
  | posting :: postings => do
    checkEntry posting
    checkEntries postings

theorem append_undoable (digest : Digest) (now : Int) (posting : Posting) {w : World} (h : w.Sound)
    (ticks : Nat) :
    w.Extends { w with ledger := (EconomyLab.append digest now posting w.ledger).2, ticks := ticks } := by
  have hr := World.Extends.refl h
  rcases append_cases digest now posting w.ledger with
    ⟨e, -, hbook⟩ | ⟨row, next, -, hnext, -, -, -, happ⟩
  · refine ⟨?_, hr.idempotency, hr.sales, hr.outbox, hr.sagas, hr.entitlements, hr.subscriptions,
      hr.promos, hr.accruals, rfl, rfl, ?_⟩
    · simp only [hbook]
      exact hr.ledger
    · constructor <;> simp only [MemoryLedger.tables, hbook]
      · exact h.lots
      · exact h.columns
  · refine ⟨?_, hr.idempotency, hr.sales, hr.outbox, hr.sagas, hr.entitlements, hr.subscriptions,
      hr.promos, hr.accruals, rfl, rfl, ?_⟩
    · simp only [happ]
      exact Journaled.Extends.write _ (undoPosting_applyPosting h.lots h.columns hnext)
    · obtain ⟨hl, hc⟩ := applyPosting_sound h row next
      constructor <;> simp only [MemoryLedger.tables, happ, Journaled.write, Journaled.record]
      · exact hl
      · exact hc

def append (env : Env) (posting : Posting) : Txn Transaction where
  run w :=
    let appended := EconomyLab.append env.digest (env.clock w.ticks) posting w.ledger
    (appended.1, { w with ledger := appended.2, ticks := w.ticks + 1 })
  undoable _ h := append_undoable env.digest _ posting h _

/-- An `appendAll` that appends its postings in order. -/
def appendInOrder (env : Env) : List Posting → Txn (List Transaction)
  | [] => pure []
  | posting :: postings => do
    let txn ← append env posting
    let txns ← appendInOrder env postings
    return txn :: txns

def postSequentially (env : Env) : List Posting → Txn (List Transaction)
  | [] => pure []
  | posting :: postings => do
    let txn ← postEntry env posting
    let txns ← postSequentially env postings
    return txn :: txns

/-- Whether no account of a posting was seen in the ones before it. -/
def disjoint : List AccountRef → List Posting → Bool
  | _, [] => true
  | seen, posting :: postings =>
    (distinctAccounts posting.legs).all (· ∉ seen) &&
      disjoint (seen ++ distinctAccounts posting.legs) postings

/-- `appendAll` is the ledger's own, where it offers one. -/
def postEntries (env : Env) (appendAll : Option (List Posting → Txn (List Transaction)))
    (postings : List Posting) : Txn (List Transaction) :=
  match appendAll with
  | none => postSequentially env postings
  | some appendAll =>
    let cleaned := postings.map dropZeroLegs
    if disjoint [] cleaned then do
      checkEntries cleaned
      appendAll cleaned
    else postSequentially env postings

variable {posting : Posting} (env : Env) {postings : List Posting}

theorem postEntry_run (posting : Posting) (w : World) :
    ((postEntry env posting).run w = match ((checkEntry (dropZeroLegs posting)).run w).1 with
      | .ok () => (append env (dropZeroLegs posting)).run w
      | .error e => (.error e, { w with ticks := w.ticks + 1 })) := by
  unfold postEntry EconomyLab.postEntry checkEntry append
  simp only [run_read]
  split <;> rename_i hc <;> simp only [MemoryLedger.tables] at hc ⊢ <;> rw [hc]

theorem postEntry_checked {env : Env} {posting : Posting} {w : World}
    (h : ((checkEntry (dropZeroLegs posting)).run w).1 = .ok ()) :
    (postEntry env posting).run w = (append env (dropZeroLegs posting)).run w := by
  rw [postEntry_run, h]

theorem postEntry_refused {env : Env} {w : World} {e : Fault}
    (h : ((checkEntry (dropZeroLegs posting)).run w).1 = .error e) :
    (postEntry env posting).run w = (.error e, { w with ticks := w.ticks + 1 }) := by
  rw [postEntry_run, h]

theorem checkEntry_run (posting : Posting) (w : World) :
    (checkEntry posting).run w = (((checkEntry posting).run w).1, w) := rfl

theorem checkEntries_run (postings : List Posting) (w : World) :
    (checkEntries postings).run w = (((checkEntries postings).run w).1, w) := by
  induction postings with
  | nil => rfl
  | cons posting postings ih =>
    cases hc : ((checkEntry posting).run w).1 with
    | error e =>
      have hrun : (checkEntry posting).run w = (.error e, w) := by rw [checkEntry_run, hc]
      rw [checkEntries, run_bind_error hrun]
    | ok _ =>
      have hrun : (checkEntry posting).run w = (.ok (), w) := by rw [checkEntry_run, hc]
      rw [checkEntries, run_bind_ok hrun]
      exact ih

variable {moved : List (AccountRef × Int)} {seen : List AccountRef}

theorem assertCovered_congr {balance balance' : AccountRef → Except Fault Amount}
    (h : ∀ p ∈ moved, balance p.1 = balance' p.1) :
    assertCovered balance moved = assertCovered balance' moved := by
  induction moved with
  | nil => rfl
  | cons p moved ih =>
    have hrest := ih fun q hq => h q (List.mem_cons_of_mem _ hq)
    unfold assertCovered
    rw [h p List.mem_cons_self, hrest]

theorem mapM_accounts {legs : List Leg}
    (h : legs.mapM (fun leg => do return (leg.account, (← balanceDelta leg).minor)) = .ok moved) :
    moved.map Prod.fst = legs.map Leg.account := by
  induction legs generalizing moved with
  | nil =>
    cases h
    rfl
  | cons leg legs ih =>
    rw [List.mapM_cons] at h
    cases hd : balanceDelta leg with
    | error e =>
      rw [hd] at h
      cases h
    | ok d =>
      cases hr : legs.mapM (fun leg => do return (leg.account, (← balanceDelta leg).minor)) with
      | error e =>
        rw [hd, hr] at h
        cases h
      | ok rest =>
        rw [hd, hr] at h
        cases h
        rw [List.map_cons, List.map_cons, ih hr]

theorem guardedDeltas_accounts {legs : List Leg}
    (h : guardedDeltas legs = .ok moved) {p : AccountRef × Int} (hp : p ∈ moved) :
    p.1 ∈ legs.map Leg.account := by
  unfold guardedDeltas at h
  cases hm : (legs.filter fun leg => isUserGuarded leg.account).mapM
      (fun leg => do return (leg.account, (← balanceDelta leg).minor)) with
  | error e => rw [hm] at h; cases h
  | ok rows =>
    rw [hm] at h
    cases h
    have hk : p.1 ∈ rows.map Prod.fst := (tally_keys rows p.1).mp (List.mem_map_of_mem hp)
    rw [mapM_accounts hm] at hk
    obtain ⟨leg, hleg, he⟩ := List.mem_map.mp hk
    exact List.mem_map.mpr ⟨leg, (List.mem_filter.mp hleg).1, he⟩

theorem checkEntry_congr {w w' : World} (h : ∀ a ∈ posting.legs.map Leg.account,
      w'.ledger.tables.balanceOf a = w.ledger.tables.balanceOf a) :
    ((checkEntry posting).run w').1 = ((checkEntry posting).run w).1 := by
  have hcov : assertNoOverdraft w'.ledger.tables.balance posting =
      assertNoOverdraft w.ledger.tables.balance posting := by
    unfold assertNoOverdraft
    cases hg : guardedDeltas posting.legs with
    | error e => rfl
    | ok moved =>
      apply assertCovered_congr
      intro p hp
      unfold LedgerTables.balance
      rw [h p.1 (guardedDeltas_accounts hg hp)]
  simp only [checkEntry, run_read, hcov]

theorem append_balanceOf {env : Env} {w w' : World} {txn : Transaction}
    (h : (append env posting).run w = (.ok txn, w')) {a : AccountRef}
    (ha : a ∉ posting.legs.map Leg.account) :
    w'.ledger.tables.balanceOf a = w.ledger.tables.balanceOf a := by
  have hrun : ((EconomyLab.append env.digest (env.clock w.ticks) posting w.ledger).1,
      { w with
        ledger := (EconomyLab.append env.digest (env.clock w.ticks) posting w.ledger).2
        ticks := w.ticks + 1 }) = (.ok txn, w') := h
  rcases append_cases env.digest (env.clock w.ticks) posting w.ledger with
    ⟨e, hres, -⟩ | ⟨row, next, -, hnext, hrow, -, -, happ⟩
  · rw [Prod.mk.injEq, hres] at hrun
    cases hrun.1
  · rw [happ] at hrun
    cases hrun
    have hlegs : row.legs = posting.legs := congrArg Posting.legs hrow
    have hget := nextBalances_get hnext a
    rw [hlegs, if_neg ha] at hget
    simp only [MemoryLedger.tables, LedgerTables.balanceOf, Journaled.write, Journaled.record,
      applyPosting] at hget ⊢
    rw [hget]

theorem checkEntries_congr {w w' : World} (h : ∀ posting ∈ postings, ∀ a ∈ posting.legs.map Leg.account,
      w'.ledger.tables.balanceOf a = w.ledger.tables.balanceOf a) :
    ((checkEntries postings).run w').1 = ((checkEntries postings).run w).1 := by
  induction postings with
  | nil => rfl
  | cons posting postings ih =>
    have hhead := checkEntry_congr (h posting List.mem_cons_self)
    have hrest := ih fun q hq => h q (List.mem_cons_of_mem _ hq)
    have hrun' := checkEntry_run posting w'
    have hrun := checkEntry_run posting w
    rw [hhead] at hrun'
    cases hc : ((checkEntry posting).run w).1 with
    | error e =>
      rw [hc] at hrun hrun'
      rw [checkEntries, run_bind_error hrun, run_bind_error hrun']
    | ok _ =>
      rw [hc] at hrun hrun'
      rw [checkEntries, run_bind_ok hrun, run_bind_ok hrun']
      exact hrest

theorem disjoint_unseen (h : disjoint seen postings = true) :
    ∀ posting ∈ postings, ∀ a ∈ posting.legs.map Leg.account, a ∉ seen := by
  induction postings generalizing seen with
  | nil => simp
  | cons posting postings ih =>
    rw [disjoint, Bool.and_eq_true] at h
    obtain ⟨hhead, htail⟩ := h
    intro q hq a ha
    rcases List.mem_cons.mp hq with rfl | hq
    · simpa using List.all_eq_true.mp hhead a (mem_distinctAccounts.mpr ha)
    · exact fun hs => ih htail q hq a ha (List.mem_append_left _ hs)

/-- Postings that share no account with the first are checked alike before and after it. -/
theorem disjoint_apart (h : disjoint seen (posting :: postings) = true) :
    ∀ q ∈ postings, ∀ a ∈ q.legs.map Leg.account, a ∉ posting.legs.map Leg.account := by
  rw [disjoint, Bool.and_eq_true] at h
  intro q hq a ha hm
  exact disjoint_unseen h.2 q hq a ha (List.mem_append_right _ (mem_distinctAccounts.mpr hm))

/-- What `postEntries` runs on disjoint postings when the ledger appends them in order. -/
def postFused (env : Env) (cleaned : List Posting) : Txn (List Transaction) := do
  checkEntries cleaned
  appendInOrder env cleaned

theorem postFused_run (cleaned : List Posting) (w : World) :
    (postFused env cleaned).run w = match ((checkEntries cleaned).run w).1 with
      | .ok () => (appendInOrder env cleaned).run w
      | .error e => (.error e, w) := by
  have hrun := checkEntries_run cleaned w
  cases hc : ((checkEntries cleaned).run w).1 with
  | error e =>
    rw [hc] at hrun
    rw [postFused, run_bind_error hrun]
  | ok _ =>
    rw [hc] at hrun
    rw [postFused, run_bind_ok hrun]

theorem checkEntries_cons_run (posting : Posting) (postings : List Posting) (w : World) :
    ((checkEntries (posting :: postings)).run w).1 = match ((checkEntry posting).run w).1 with
      | .ok () => ((checkEntries postings).run w).1
      | .error e => .error e := by
  have hrun := checkEntry_run posting w
  cases hc : ((checkEntry posting).run w).1 with
  | error e =>
    rw [hc] at hrun
    rw [checkEntries, run_bind_error hrun]
  | ok _ =>
    rw [hc] at hrun
    rw [checkEntries, run_bind_ok hrun]

/-- The ledger refused a posting whose checks had passed with `e'`, and one of the postings after
it fails its own checks with `e`. -/
def RefusedBefore (env : Env) (postings : List Posting) (w : World) (e e' : Fault) : Prop :=
  ∃ before posting rest txns w', postings = before ++ posting :: rest ∧
    (postSequentially env before).run w = (.ok txns, w') ∧
    ((checkEntry (dropZeroLegs posting)).run w').1 = .ok () ∧
    ((append env (dropZeroLegs posting)).run w').1 = .error e' ∧
    ((checkEntries (rest.map dropZeroLegs)).run w').1 = .error e

theorem RefusedBefore.cons {env : Env} {w w₁ : World}
    {txn : Transaction} {e e' : Fault} (h : RefusedBefore env postings w₁ e e')
    (hp : (postEntry env posting).run w = (.ok txn, w₁)) :
    RefusedBefore env (posting :: postings) w e e' := by
  obtain ⟨before, q, rest, txns, w', rfl, hrun, hcheck, happ, hrest⟩ := h
  refine ⟨posting :: before, q, rest, txn :: txns, w', rfl, ?_, hcheck, happ, hrest⟩
  rw [postSequentially, run_bind_ok hp, run_bind_ok hrun]
  rfl

/-- Either both finish, with the same answer in the same store, or both fault. -/
theorem postFused_agrees (hd : disjoint seen (postings.map dropZeroLegs) = true) (w : World) :
    (∃ txns w', (postFused env (postings.map dropZeroLegs)).run w = (.ok txns, w') ∧
      (postSequentially env postings).run w = (.ok txns, w')) ∨
    (∃ e e', ((postFused env (postings.map dropZeroLegs)).run w).1 = .error e ∧
      ((postSequentially env postings).run w).1 = .error e' ∧
      (e = e' ∨ RefusedBefore env postings w e e')) := by
  induction postings generalizing seen w with
  | nil => exact Or.inl ⟨[], w, rfl, rfl⟩
  | cons posting postings ih =>
    rw [List.map_cons] at hd ⊢
    have hfused := postFused_run env (dropZeroLegs posting :: postings.map dropZeroLegs) w
    rw [checkEntries_cons_run] at hfused
    cases hc : ((checkEntry (dropZeroLegs posting)).run w).1 with
    | error e =>
      right
      rw [hc] at hfused
      refine ⟨e, e, by rw [hfused], ?_, Or.inl rfl⟩
      rw [postSequentially, run_bind_error (postEntry_refused hc)]
    | ok _ =>
      rw [hc] at hfused
      have hposted := @postEntry_checked env posting w hc
      rcases ha : (append env (dropZeroLegs posting)).run w with ⟨res, w₁⟩
      rw [ha] at hposted
      cases res with
      | error e' =>
        right
        cases hrest : ((checkEntries (postings.map dropZeroLegs)).run w).1 with
        | error e =>
          rw [hrest] at hfused
          refine ⟨e, e', by rw [hfused], ?_, Or.inr ?_⟩
          · rw [postSequentially, run_bind_error hposted]
          · exact ⟨[], posting, postings, [], w, rfl, rfl, hc, by rw [ha], hrest⟩
        | ok _ =>
          rw [hrest] at hfused
          refine ⟨e', e', ?_, ?_, Or.inl rfl⟩
          · rw [hfused, appendInOrder, run_bind_error ha]
          · rw [postSequentially, run_bind_error hposted]
      | ok txn =>
        have hsame : ((checkEntries (postings.map dropZeroLegs)).run w₁).1 =
            ((checkEntries (postings.map dropZeroLegs)).run w).1 :=
          checkEntries_congr fun q hq a hm => append_balanceOf ha (disjoint_apart hd q hq a hm)
        have htail : disjoint (seen ++ distinctAccounts (dropZeroLegs posting).legs)
            (postings.map dropZeroLegs) = true := by
          rw [disjoint, Bool.and_eq_true] at hd
          exact hd.2
        have hnext := postFused_run env (postings.map dropZeroLegs) w₁
        rw [hsame] at hnext
        rcases ih htail w₁ with ⟨txns, w', hf, hs⟩ | ⟨e, e', hf, hs, hcause⟩
        · left
          refine ⟨txn :: txns, w', ?_, ?_⟩
          · cases hrest : ((checkEntries (postings.map dropZeroLegs)).run w).1 with
            | error e =>
              rw [hrest, hf] at hnext
              cases hnext
            | ok _ =>
              rw [hrest] at hfused hnext
              rw [hfused, appendInOrder, run_bind_ok ha, run_bind_ok (hnext.symm.trans hf)]
              rfl
          · rw [postSequentially, run_bind_ok hposted, run_bind_ok hs]
            rfl
        · right
          refine ⟨e, e', ?_, ?_, hcause.imp id fun h => h.cons hposted⟩
          · cases hrest : ((checkEntries (postings.map dropZeroLegs)).run w).1 with
            | error e₀ =>
              rw [hrest] at hfused hnext
              rw [hnext] at hf
              rw [hfused]
              exact hf
            | ok _ =>
              rw [hrest] at hfused hnext
              have hlast : (appendInOrder env (postings.map dropZeroLegs)).run w₁ =
                  (.error e, ((appendInOrder env (postings.map dropZeroLegs)).run w₁).2) :=
                Prod.ext ((congrArg Prod.fst hnext).symm.trans hf) rfl
              rw [hfused, appendInOrder, run_bind_ok ha, run_bind_error hlast]
          · have hlast : (postSequentially env postings).run w₁ =
                (.error e', ((postSequentially env postings).run w₁).2) := Prod.ext hs rfl
            rw [postSequentially, run_bind_ok hposted, run_bind_error hlast]

/-- The ledger offers no `appendAll`, or one that appends its postings in order: a list of
postings ends the same way, or faults both times. -/
theorem postEntries_agree (postings : List Posting) (w : World) :
    (∃ txns w', (postEntries env (some (appendInOrder env)) postings).run w = (.ok txns, w') ∧
      (postEntries env none postings).run w = (.ok txns, w')) ∨
    (∃ e e', ((postEntries env (some (appendInOrder env)) postings).run w).1 = .error e ∧
      ((postEntries env none postings).run w).1 = .error e' ∧
      (e = e' ∨ RefusedBefore env postings w e e')) := by
  unfold postEntries
  by_cases hd : disjoint [] (postings.map dropZeroLegs) = true
  · simp only [hd, if_true]
    exact postFused_agrees env hd w
  · simp only [hd, if_false, Bool.false_eq_true]
    rcases hr : (postSequentially env postings).run w with ⟨res, w'⟩
    cases res with
    | ok txns => exact Or.inl ⟨txns, w', rfl, rfl⟩
    | error e => exact Or.inr ⟨e, e, rfl, rfl, Or.inl rfl⟩

end Txn

open Txn in
/-- No run of entries overdraws a protected row. A list of postings has one outcome, whether or
not the ledger appends them at once; where it faults the transaction leaves every table alone. -/
theorem entries_never_overdraw (env : Env) :
    (∀ (cmds : List Command) (a : AccountRef), Protected a →
      0 ≤ (runLedger env.digest cmds).ledger.tables.balanceOf a) ∧
    ∀ (postings : List Posting) (w : World), w.Closed → w.Sound →
      let fused := transaction (postEntries env (some (appendInOrder env)) postings) w
      let sequential := transaction (postEntries env none postings) w
      (∃ txns, fused.1 = .ok txns ∧ fused = sequential) ∨
      ∃ e e', fused.1 = .error e ∧ sequential.1 = .error e' ∧
        w.SameTables fused.2 ∧ w.SameTables sequential.2 ∧
        (e = e' ∨ RefusedBefore env postings w.opened e e') := by
  refine ⟨fun cmds a ha => runLedger_solvent env.digest cmds ha.guarded, ?_⟩
  intro postings w hc hs fused sequential
  rcases postEntries_agree env postings w.opened with ⟨txns, w', hf, hq⟩ | ⟨e, e', hf, hq, hcause⟩
  · left
    have hfused : fused = (.ok txns, w'.commitAll) := by
      simp only [fused, transaction, hc.beginAll, hf]
    have hsequential : sequential = (.ok txns, w'.commitAll) := by
      simp only [sequential, transaction, hc.beginAll, hq]
    exact ⟨txns, congrArg Prod.fst hfused, hfused.trans hsequential.symm⟩
  · right
    have hfaults : ∀ {work : Txn (List Transaction)} {e : Fault}, (work.run w.opened).1 = .error e →
        (transaction work w).1 = .error e ∧ w.SameTables (transaction work w).2 := by
      intro work e he
      rcases transaction_cases work hc hs with ⟨txns, w', hr, -⟩ | ⟨e₀, w', hr, ht, hsame⟩
      · rw [hr] at he
        cases he
      · rw [hr] at he
        cases he
        rw [ht]
        exact ⟨rfl, hsame⟩
    obtain ⟨hf, hfsame⟩ := hfaults hf
    obtain ⟨hq, hqsame⟩ := hfaults hq
    exact ⟨e, e', hf, hq, hfsame, hqsame, hcause⟩

open Txn in
/-- One posting that stands and one out of balance: both ways fault, and roll back. -/
theorem entries_never_overdraw_refused :
    let env : Env := ⟨fun _ => [], fun _ => 0, fun _ => ""⟩
    let issue : Posting := ⟨"txn_1", [⟨SYSTEM.STORED_VALUE, ⟨.credit, 10, by decide⟩⟩,
      ⟨spendable "usr_a", ⟨.credit, -10, by decide⟩⟩], []⟩
    let torn : Posting := ⟨"txn_2", [⟨SYSTEM.REVENUE, ⟨.credit, 1, by decide⟩⟩], []⟩
    (0 ≤ (runLedger env.digest [.write (.entry 0 issue)]).ledger.tables.balanceOf
      (spendable "usr_a")) ∧
    ((∃ txns, (transaction (postEntries env (some (appendInOrder env)) [issue, torn])
        World.empty).1 = .ok txns ∧
      transaction (postEntries env (some (appendInOrder env)) [issue, torn]) World.empty =
        transaction (postEntries env none [issue, torn]) World.empty) ∨
    ∃ e e', (transaction (postEntries env (some (appendInOrder env)) [issue, torn])
        World.empty).1 = .error e ∧
      (transaction (postEntries env none [issue, torn]) World.empty).1 = .error e' ∧
      World.empty.SameTables (transaction (postEntries env (some (appendInOrder env)) [issue, torn])
        World.empty).2 ∧
      World.empty.SameTables (transaction (postEntries env none [issue, torn]) World.empty).2 ∧
      (e = e' ∨ RefusedBefore env [issue, torn] World.empty.opened e e')) := by
  intro env issue torn
  have hclosed : World.empty.Closed := ⟨rfl, rfl, rfl, rfl, rfl, rfl, rfl, rfl, rfl, rfl⟩
  have hsound : World.empty.Sound :=
    ⟨Honest.empty.indexes.noEmptyLots, Honest.empty.indexes.compact⟩
  have huser : Protected (spendable "usr_a") := .user "usr_a" .spendable (by decide)
  exact ⟨(entries_never_overdraw env).1 _ _ huser,
    (entries_never_overdraw env).2 [issue, torn] World.empty hclosed hsound⟩

open Txn in
/-- The escrow of the user `platform` in a session named like a shard of the platform's own stock
goes below zero as it is funded. Where the second of two postings does not balance, the one by one
path has appended the first; and where the ledger refuses the first, it never sees the second. -/
theorem escrow_overdrawn_and_entries_differ :
    let env : Env := ⟨fun _ => [], fun _ => 0, fun _ => ""⟩
    let userId := "platform"
    let escrow := sessionEscrow userId "stored_value#1"
    let issue : Posting := ⟨"txn_1", [⟨SYSTEM.STORED_VALUE, ⟨.credit, 10, by decide⟩⟩,
      ⟨spendable userId, ⟨.credit, -10, by decide⟩⟩], []⟩
    let fund : Posting := ⟨"esc_fund_stored_value#1_platform",
      [⟨spendable userId, ⟨.credit, 5, by decide⟩⟩, ⟨escrow, ⟨.credit, -5, by decide⟩⟩], []⟩
    let raw : Posting := { issue with fields := [("amount", .bigint 10)] }
    let torn : Posting := ⟨"txn_2", [⟨SYSTEM.REVENUE, ⟨.credit, 1, by decide⟩⟩], []⟩
    let fused := fun (postings : List Posting) => postEntries env (some (appendInOrder env)) postings
    let sequential := fun (postings : List Posting) => postEntries env none postings
    let logOf := fun (out : Except Fault (List Transaction) × World) =>
      out.2.ledger.tables.log.map StoredPosting.txnId
    let codeOf := fun (out : Except Fault (List Transaction) × World) =>
      match out.1 with
      | .ok _ => none
      | .error e => e.code
    startsWith userId "platform:" = false ∧
    (runLedger env.digest [.write (.entry 0 issue), .write (.entry 0 fund)]).ledger.tables.balanceOf
      escrow = -5 ∧
    logOf ((fused [issue, torn]).run World.empty) = [] ∧
    logOf ((sequential [issue, torn]).run World.empty) = ["txn_1"] ∧
    codeOf (transaction (fused [raw, torn]) World.empty) = some .ledgerUnbalanced ∧
    codeOf (transaction (sequential [raw, torn]) World.empty) = some .malformedOperation := by
  intro env userId escrow issue fund raw torn fused sequential logOf codeOf
  refine ⟨by decide, ?_, ?_, ?_, ?_, ?_⟩ <;> decide +kernel

end EconomyLab
