import EconomyLab.Ledger.Runs

/-!
# When an entry is accepted

On an honest ledger the fate of an entry is decided by its legs: their currencies and
accounts, their sums, the guarded balances they draw on and the 64-bit range.
-/

namespace EconomyLab

open Foundation

/-! ## Each check, as a fact about the legs -/

variable {posting : Posting} {legs : List Leg}

theorem assertSingleCurrencyPerLeg_ok_iff : assertSingleCurrencyPerLeg posting = .ok () ↔
      ∀ leg ∈ posting.legs, leg.amount.currency = currency leg.account := by
  unfold assertSingleCurrencyPerLeg
  split <;> rename_i h <;> simpa using h

theorem assertKnownAccounts_ok_iff : assertKnownAccounts isKnownAccount posting = .ok () ↔
      ∀ leg ∈ posting.legs, isKnownAccount leg.account = true := by
  unfold assertKnownAccounts
  split <;> rename_i h <;> simpa using h

theorem assertBalanced_ok_iff : assertBalanced posting = .ok () ↔ ZeroSum posting.legs := by
  refine ⟨assertBalanced_zeroSum, ?_⟩
  intro h
  have hnone : (tally (currencyAmounts posting.legs)).find? (·.2 ≠ 0) = none := by
    rw [List.find?_eq_none]
    rintro ⟨c, v⟩ hm
    have hv := (mem_tally.mp hm).2
    simpa [hv] using h c
  unfold assertBalanced
  rw [hnone]

theorem balanceDelta_ok_iff {leg : Leg} : (∃ d, balanceDelta leg = .ok d) ↔ I64 leg.delta := by
  rw [balanceDelta_eq]
  constructor
  · rintro ⟨d, hd⟩
    rw [← (toAmount_eq_ok.mp hd).2]
    exact d.inRange
  · intro h
    exact ⟨_, toAmount_ok h⟩

/-- Every running balance of the legs, taken in order, is in range. -/
def BalancesFit : (AccountRef → Int) → List Leg → Prop
  | _, [] => True
  | b, leg :: legs =>
    I64 leg.delta ∧ I64 (b leg.account + leg.delta) ∧
      BalancesFit (Function.update b leg.account (b leg.account + leg.delta)) legs

theorem nextBalances_ok_iff {balances : Table AccountRef Int} :
    (∃ next, nextBalances balances legs = .ok next) ↔
      BalancesFit (fun a => (balances.get a).getD 0) legs := by
  induction legs generalizing balances with
  | nil => simp [nextBalances, BalancesFit]
  | cons leg legs ih =>
    have hstep : ∀ m, (fun a => ((balances.set leg.account m).get a).getD 0) =
        Function.update (fun a => (balances.get a).getD 0) leg.account m := by
      intro m
      funext a
      by_cases ha : a = leg.account <;> simp [ha, Function.update]
    unfold nextBalances BalancesFit
    constructor
    · rintro ⟨next, h⟩
      obtain ⟨d, hd, h⟩ := except_bind_ok.mp h
      obtain ⟨n, hn, h⟩ := except_bind_ok.mp h
      have hdm := (balanceDelta_minor hd).2
      have hnm := (toAmount_eq_ok.mp hn).2
      rw [hdm] at hnm
      refine ⟨balanceDelta_ok_iff.mp ⟨d, hd⟩, hnm ▸ n.inRange, ?_⟩
      rw [← hnm, ← hstep]
      exact ih.mp ⟨next, h⟩
    · rintro ⟨hd, hn, hrest⟩
      obtain ⟨d, hd⟩ := balanceDelta_ok_iff.mpr hd
      have hdm := (balanceDelta_minor hd).2
      rw [← hdm] at hn hrest
      rw [← hstep] at hrest
      obtain ⟨next, hnext⟩ := ih.mpr hrest
      refine ⟨next, except_bind_ok.mpr ⟨d, hd, except_bind_ok.mpr ⟨_, toAmount_ok hn, hnext⟩⟩⟩

theorem BalancesFit.delta {b : AccountRef → Int} (h : BalancesFit b legs) :
    ∀ leg ∈ legs, I64 leg.delta := by
  induction legs generalizing b with
  | nil => simp
  | cons leg legs ih =>
    obtain ⟨hd, -, hrest⟩ := h
    intro l hl
    rcases List.mem_cons.mp hl with rfl | hl
    · exact hd
    · exact ih hrest l hl

theorem balancesFit_of_nodup {b : AccountRef → Int} (hnd : (legs.map Leg.account).Nodup) :
    BalancesFit b legs ↔ ∀ leg ∈ legs, I64 leg.delta ∧ I64 (b leg.account + leg.delta) := by
  induction legs generalizing b with
  | nil => simp [BalancesFit]
  | cons leg legs ih =>
    rw [List.map_cons, List.nodup_cons] at hnd
    unfold BalancesFit
    rw [ih hnd.2, List.forall_mem_cons, and_assoc]
    have hsame : ∀ l ∈ legs,
        Function.update b leg.account (b leg.account + leg.delta) l.account = b l.account := by
      intro l hl
      apply Function.update_of_ne
      intro he
      exact hnd.1 (List.mem_map.mpr ⟨l, hl, he⟩)
    constructor
    · rintro ⟨hd, hb, hrest⟩
      refine ⟨hd, hb, ?_⟩
      intro l hl
      rw [← hsame l hl]
      exact hrest l hl
    · rintro ⟨hd, hb, hrest⟩
      refine ⟨hd, hb, ?_⟩
      intro l hl
      rw [hsame l hl]
      exact hrest l hl

/-- No guarded account is drawn below zero by the legs together. -/
def Covered (b : AccountRef → Int) (legs : List Leg) : Prop :=
  ∀ a, isUserGuarded a = true → total (deltas legs) a < 0 → 0 ≤ b a + total (deltas legs) a

theorem mapM_balanceDelta_ok (h : ∀ leg ∈ legs, I64 leg.delta) :
    legs.mapM (fun leg => do return (leg.account, (← balanceDelta leg).minor)) =
      .ok (deltas legs) := by
  induction legs with
  | nil => rfl
  | cons leg legs ih =>
    obtain ⟨d, hd⟩ := balanceDelta_ok_iff.mpr (h leg List.mem_cons_self)
    have hrest := ih fun l hl => h l (List.mem_cons_of_mem _ hl)
    rw [List.mapM_cons, hrest, hd]
    simp [bind, Except.bind, pure, Except.pure, (balanceDelta_minor hd).2]

theorem total_guarded (legs : List Leg) {a : AccountRef} (ha : isUserGuarded a = true) :
    total (deltas (legs.filter fun leg => isUserGuarded leg.account)) a = total (deltas legs) a := by
  induction legs with
  | nil => rfl
  | cons leg legs ih =>
    rw [List.filter_cons, deltas_cons, total_cons, ← ih]
    by_cases hg : isUserGuarded leg.account = true
    · rw [if_pos hg, deltas_cons, total_cons]
    · have hne : leg.account ≠ a := fun he => hg (he ▸ ha)
      rw [if_neg hg, if_neg hne, zero_add]

theorem assertCovered_ok_iff {t : LedgerTables} (ht : ∀ a, I64 (t.balanceOf a))
    {moved : List (AccountRef × Int)} :
    assertCovered t.balance moved = .ok () ↔
      ∀ p ∈ moved, p.2 < 0 → I64 (t.balanceOf p.1 + p.2) ∧ 0 ≤ t.balanceOf p.1 + p.2 := by
  induction moved with
  | nil => simp [assertCovered]
  | cons p moved ih =>
    obtain ⟨a, d⟩ := p
    rw [assertCovered, List.forall_mem_cons, ← ih]
    by_cases hd : 0 ≤ d
    · simp [hd, not_lt_of_ge hd]
    · rw [if_neg hd]
      have hbal : t.balance a = .ok ⟨currency a, t.balanceOf a, ht a⟩ := toAmount_ok (ht a)
      rw [hbal]
      by_cases hr : I64 (t.balanceOf a + d)
      · by_cases hneg : t.balanceOf a + d < 0
        · simp [bind, Except.bind, toAmount_ok hr, hneg, not_le_of_gt hneg, lt_of_not_ge hd]
        · simp [bind, Except.bind, toAmount_ok hr, hneg, le_of_not_gt hneg, hr]
      · simp [bind, Except.bind, toAmount, hr, lt_of_not_ge hd]

theorem assertNoOverdraft_ok_iff {t : LedgerTables} (ht : ∀ a, I64 (t.balanceOf a))
    {posting : Posting} (hfit : BalancesFit t.balanceOf posting.legs) :
    assertNoOverdraft t.balance posting = .ok () ↔ Covered t.balanceOf posting.legs := by
  have hguarded : guardedDeltas posting.legs =
      .ok (tally (deltas (posting.legs.filter fun leg => isUserGuarded leg.account))) := by
    unfold guardedDeltas
    rw [mapM_balanceDelta_ok fun leg hl => hfit.delta leg (List.mem_filter.mp hl).1]
    rfl
  have hrange : ∀ a, I64 (t.balanceOf a + total (deltas posting.legs) a) := by
    intro a
    obtain ⟨next, hnext⟩ := nextBalances_ok_iff.mpr hfit
    have hin := nextBalances_inRange hnext ht a
    rw [nextBalances_get hnext] at hin
    by_cases ha : a ∈ posting.legs.map Leg.account
    · rw [if_pos ha] at hin
      exact hin
    · rw [total_eq_zero (mt mem_deltas_account.mp ha), add_zero]
      exact ht a
  have hmem : ∀ a, a ∈ (deltas (posting.legs.filter fun leg => isUserGuarded leg.account)).map
      Prod.fst → isUserGuarded a = true := by
    intro a ha
    obtain ⟨leg, hleg, rfl⟩ := List.mem_map.mp (mem_deltas_account.mp ha)
    exact (List.mem_filter.mp hleg).2
  have hrun : assertNoOverdraft t.balance posting =
      assertCovered t.balance
        (tally (deltas (posting.legs.filter fun leg => isUserGuarded leg.account))) := by
    unfold assertNoOverdraft
    rw [hguarded]
    rfl
  rw [hrun, assertCovered_ok_iff ht]
  constructor
  · intro h a ha hneg
    have hm : (a, total (deltas posting.legs) a) ∈
        tally (deltas (posting.legs.filter fun leg => isUserGuarded leg.account)) := by
      refine mem_tally.mpr ⟨?_, (total_guarded posting.legs ha).symm⟩
      by_contra hn
      have hz := total_eq_zero hn
      rw [total_guarded posting.legs ha] at hz
      omega
    exact (h _ hm hneg).2
  · rintro h ⟨a, d⟩ hm hneg
    obtain ⟨ha, hd⟩ := mem_tally.mp hm
    have hg := hmem a ha
    rw [total_guarded posting.legs hg] at hd
    simp only [hd] at hneg ⊢
    exact ⟨hrange a, h a hg hneg⟩

/-- What an entry without zero legs must satisfy to be accepted. -/
structure Acceptable (b : AccountRef → Int) (legs : List Leg) : Prop where
  singleCurrency : ∀ leg ∈ legs, leg.amount.currency = currency leg.account
  zeroSum : ZeroSum legs
  known : ∀ leg ∈ legs, isKnownAccount leg.account = true
  covered : Covered b legs
  fit : BalancesFit b legs

/-- The metadata holds no raw bigint. -/
def Encodable (fields : Meta) : Prop := ∃ text, canonicalMeta (.object fields) = .ok text

theorem dropZeroLegs_eq (h : ∀ leg ∈ posting.legs, leg.amount.minor ≠ 0) :
    dropZeroLegs posting = posting := by
  have hf : posting.legs.filter (·.amount.minor ≠ 0) = posting.legs :=
    List.filter_eq_self.mpr fun leg hl => by simpa using h leg hl
  unfold dropZeroLegs
  rw [hf]

theorem advanceChain_ok {t : LedgerTables} {h : History} (hh : Honest t h) (digest : Digest)
    (hm : Encodable posting.fields) :
    ∃ links, advanceChain digest t.heads posting = .ok links := by
  unfold advanceChain
  generalize distinctAccounts posting.legs = accounts
  induction accounts with
  | nil => exact ⟨[], rfl⟩
  | cons a accounts ih =>
    obtain ⟨rest, hrest⟩ := ih
    obtain ⟨text, htext⟩ := hm
    have hprev : ∃ prev, hashBytes (headOf t.heads a) = .ok prev := by
      unfold hashBytes
      split
      · exact ⟨_, rfl⟩
      · rename_i hne
        cases hg : t.heads.get a with
        | none => simp [headOf, hg] at hne
        | some head =>
          obtain ⟨bytes, rfl⟩ := hh.hexHeads a head hg
          exact ⟨bytes, by rw [headOf, hg]; exact fromHex_toHex bytes⟩
    obtain ⟨prev, hprev⟩ := hprev
    have hlink : ∃ link, advanceLink digest t.heads posting a = .ok link := by
      simp only [advanceLink, chainHash, chainPreimage, hprev, htext]
      exact ⟨_, rfl⟩
    obtain ⟨link, hlink⟩ := hlink
    refine ⟨link :: rest, ?_⟩
    rw [List.mapM_cons, hlink, hrest]
    rfl

theorem postEntry_ok_iff {l : MemoryLedger} {h : History} (hh : Honest l.tables h) (digest : Digest)
    (now : Int) (hz : ∀ leg ∈ posting.legs, leg.amount.minor ≠ 0)
    (hm : Encodable posting.fields) :
    (∃ txn, (postEntry digest now posting l).1 = .ok txn) ↔
      Acceptable l.tables.balanceOf posting.legs := by
  constructor
  · rintro ⟨txn, hok⟩
    rcases postEntry_cases digest now posting l with ⟨e, he⟩ | ⟨hc, happ⟩
    · rw [he] at hok
      cases hok
    · rw [happ, dropZeroLegs_eq hz] at hok
      rw [dropZeroLegs_eq hz] at hc
      rcases append_cases digest now posting l with ⟨e, he, -⟩ | ⟨row, next, -, hnext, hrow, -⟩
      · rw [he] at hok
        cases hok
      · have hlegs : row.legs = posting.legs := congrArg Posting.legs hrow
        rw [hlegs] at hnext
        have hfit : BalancesFit l.tables.balanceOf posting.legs := nextBalances_ok_iff.mp ⟨next, hnext⟩
        exact ⟨assertSingleCurrencyPerLeg_ok_iff.mp hc.singleCurrency,
          assertBalanced_ok_iff.mp hc.balanced, assertKnownAccounts_ok_iff.mp hc.known,
          (assertNoOverdraft_ok_iff hh.inRange hfit).mp hc.covered, hfit⟩
  · intro ha
    obtain ⟨links, hlinks⟩ := advanceChain_ok hh digest hm
    obtain ⟨next, hnext⟩ := nextBalances_ok_iff.mpr ha.fit
    have h1 := assertSingleCurrencyPerLeg_ok_iff.mpr ha.singleCurrency
    have h2 := assertBalanced_ok_iff.mpr ha.zeroSum
    have h3 := assertKnownAccounts_ok_iff.mpr ha.known
    have h4 := (assertNoOverdraft_ok_iff hh.inRange ha.fit).mpr ha.covered
    refine ⟨⟨posting.txnId, now, posting.legs, links, posting.fields⟩, ?_⟩
    simp only [postEntry, dropZeroLegs_eq hz, h1, h2, h3, h4, append, hlinks, commitPosting]
    simp only [MemoryLedger.tables] at hnext
    simp [hnext, bind, Except.bind, pure, Except.pure]

end EconomyLab
