import EconomyLab.Ledger.Acceptance
import EconomyLab.Netting.Session

/-!
# Posting once

A settler posts under a derived id and skips an id that is already on the ledger. What
such a transaction can do is said here once: it finds the row, adds it, or is refused.
-/

namespace EconomyLab

open Foundation

namespace World

def balanceOf (w : World) (account : AccountRef) : Int := w.ledger.tables.balanceOf account

/-- No transaction is open, and the tables of the ledger are those of a history. -/
structure Ready (w : World) : Prop where
  closed : w.Closed
  honest : ∃ h, Honest w.ledger.tables h

variable {w w' : World}

theorem Ready.sound (h : w.Ready) : w.Sound := by
  obtain ⟨history, hh⟩ := h.honest
  exact ⟨hh.indexes.noEmptyLots, hh.indexes.compact⟩

theorem Ready.inRange (h : w.Ready) (a : AccountRef) : I64 (w.balanceOf a) := by
  obtain ⟨history, hh⟩ := h.honest
  exact hh.inRange a

theorem ready_of_run (hc : w.Closed) {digest : Digest} {cmds : List Command}
    (h : w.ledger = (runLedger digest cmds).ledger) : w.Ready := by
  refine ⟨hc, (runLedger digest cmds).history.rows, ?_⟩
  rw [h]
  exact (runLedger_exact digest cmds).rows

theorem SameTables.ready (h : w.SameTables w') (hc : w'.Closed) (hw : w.Ready) : w'.Ready := by
  obtain ⟨history, hh⟩ := hw.honest
  have ht : w'.ledger.tables = w.ledger.tables := congrArg Journaled.rows h.ledger
  exact ⟨hc, history, ht ▸ hh⟩

theorem SameTables.balanceOf (h : w.SameTables w') (a : AccountRef) :
    w'.balanceOf a = w.balanceOf a := by
  have ht : w'.ledger.tables = w.ledger.tables := congrArg Journaled.rows h.ledger
  simp only [World.balanceOf, ht]

theorem SameTables.posted (h : w.SameTables w') (txnId : String) :
    w'.posted txnId = w.posted txnId := by
  have ht : w'.ledger.tables = w.ledger.tables := congrArg Journaled.rows h.ledger
  simp only [World.posted, ht]

theorem opened_commitAll (hc : w.Closed) : w.SameTables w.opened.commitAll := by
  obtain ⟨⟨⟨_, _⟩, _⟩, ⟨_, _⟩, ⟨_, _⟩, ⟨_, _⟩, ⟨_, _⟩, ⟨_, _⟩, ⟨_, _⟩, ⟨_, _⟩, ⟨_, _⟩, ⟨_, _⟩⟩ := w
  obtain ⟨h1, h2, h3, h4, h5, h6, h7, h8, h9, h10⟩ := hc
  simp only at h1 h2 h3 h4 h5 h6 h7 h8 h9 h10
  subst h1 h2 h3 h4 h5 h6 h7 h8 h9 h10
  exact SameTables.refl _

structure Landed (posting : Posting) (w w' : World) : Prop where
  ready : w'.Ready
  log : ∃ row : StoredPosting, row.posting = posting ∧
    w'.ledger.tables.log = w.ledger.tables.log ++ [row]
  balance : ∀ a, w'.balanceOf a = w.balanceOf a + total (deltas posting.legs) a
  idempotency : w'.idempotency = w.idempotency
  sagas : w'.sagas = w.sagas
  sales : w'.sales = w.sales
  movements : w'.movements = w.movements
  reservations : w'.reservations = w.reservations

theorem Landed.posted {posting : Posting} (h : w.Landed posting w') (txnId : String) :
    w'.posted txnId = (w.posted txnId || decide (posting.txnId = txnId)) := by
  obtain ⟨row, hrow, hlog⟩ := h.log
  have hid : row.txnId = posting.txnId := congrArg Posting.txnId hrow
  simp only [World.posted, LedgerTables.findPosting, hlog, List.find?_append, Option.isSome_map,
    Option.isSome_or, ← hid]
  by_cases hr : row.txnId = txnId <;> simp [hr]

end World

variable (env : Env) {posting : Posting} {w : World}

theorem World.posted_eq_false {txnId : String}
    (h : txnId ∉ w.ledger.tables.log.map StoredPosting.txnId) : w.posted txnId = false := by
  rw [← Bool.not_eq_true, World.posted, LedgerTables.findPosting, Option.isSome_map,
    List.find?_isSome]
  rintro ⟨row, hr, he⟩
  exact h (List.mem_map.mpr ⟨row, hr, of_decide_eq_true he⟩)

theorem applyPosting_balanceOf {t : LedgerTables} {row : StoredPosting}
    {next : Table AccountRef Int} (hnext : nextBalances t.balances row.legs = .ok next)
    (a : AccountRef) :
    (applyPosting t row next).balanceOf a = t.balanceOf a + total (deltas row.legs) a := by
  simp only [LedgerTables.balanceOf, applyPosting]
  rw [nextBalances_get hnext]
  by_cases ha : a ∈ row.legs.map Leg.account
  · rw [if_pos ha, Option.getD_some]
  · rw [if_neg ha, total_eq_zero (mt mem_deltas_account.mp ha), add_zero]

/-- What an accepted entry leaves behind once its transaction committed. -/
theorem postEntry_landed (digest : Digest) (now : Int) (hw : w.Ready) {txn : Transaction}
    (hok : (postEntry digest now posting w.opened.ledger).1 = .ok txn) (ticks : Nat) :
    w.Landed (dropZeroLegs posting)
      { w.opened with
        ledger := (postEntry digest now posting w.opened.ledger).2
        ticks := ticks }.commitAll := by
  obtain ⟨history, hh⟩ := hw.honest
  rcases postEntry_book digest now posting w.opened.ledger with
    ⟨e, he, -⟩ | ⟨txn', row, next, hzero, hlinks, hnext, hrow, -, hbook⟩
  · rw [he] at hok
    cases hok
  · have hlegs : row.legs = (dropZeroLegs posting).legs := congrArg Posting.legs hrow
    have htables : (postEntry digest now posting w.opened.ledger).2.tables =
        applyPosting w.ledger.tables row next := congrArg Journaled.rows hbook
    have hc := hw.closed
    refine ⟨⟨World.commitAll_closed _, history.append row, ?_⟩, ⟨row, hrow, ?_⟩, ?_, ?_, ?_, ?_,
      rfl, rfl⟩
    · have hafter := hh.applyPosting hzero hlinks hnext
      rw [← htables] at hafter
      exact hafter
    · exact congrArg LedgerTables.log htables
    · intro a
      have hbal := applyPosting_balanceOf hnext a
      rw [hlegs] at hbal
      exact (congrArg (fun t => LedgerTables.balanceOf t a) htables).trans hbal
    · exact congrArg (Journaled.mk w.idempotency.rows) hc.idempotency.symm
    · exact congrArg (Journaled.mk w.sagas.rows) hc.sagas.symm
    · exact congrArg (Journaled.mk w.sales.rows) hc.sales.symm

theorem postOnce_cases (hw : w.Ready)
    (hz : ∀ leg ∈ posting.legs, leg.amount.minor ≠ 0) (hm : Encodable posting.fields) :
    (w.posted posting.txnId = true ∧
      ∃ w', transaction (postOnce env posting) w = (.ok (), w') ∧ w.SameTables w' ∧ w'.Ready) ∨
    (w.posted posting.txnId = false ∧ Acceptable w.balanceOf posting.legs ∧
      ∃ w', transaction (postOnce env posting) w = (.ok (), w') ∧ w.Landed posting w') ∨
    (w.posted posting.txnId = false ∧ ¬ Acceptable w.balanceOf posting.legs ∧
      ∃ e w', transaction (postOnce env posting) w = (.error e, w') ∧ w.SameTables w' ∧ w'.Ready) := by
  have hclosed := transaction_closed (postOnce env posting) hw.closed
  have hbegin := hw.closed.beginAll
  cases hf : w.ledger.tables.findPosting posting.txnId with
  | some found =>
    left
    have hrun : (postOnce env posting).run w.opened = (.ok (), w.opened) := by
      have hf' : w.opened.ledger.tables.findPosting posting.txnId = some found := hf
      unfold postOnce Txn.findPosting
      rw [Txn.run_bind, Txn.run_read, hf']
      rfl
    have htr : transaction (postOnce env posting) w = (.ok (), w.opened.commitAll) := by
      simp only [transaction, hbegin, hrun]
    have hsame := World.opened_commitAll hw.closed
    refine ⟨by simp [World.posted, hf], _, htr, hsame, hsame.ready ?_ hw⟩
    rw [htr] at hclosed
    exact hclosed
  | none =>
    right
    obtain ⟨history, hh⟩ := hw.honest
    have hposted : w.posted posting.txnId = false := by simp [World.posted, hf]
    have hiff := postEntry_ok_iff (l := w.opened.ledger) hh env.digest (env.clock w.ticks) hz hm
    have hrun : (postOnce env posting).run w.opened =
        ((postEntry env.digest (env.clock w.ticks) posting w.opened.ledger).1.map fun _ =>
          (), { w.opened with
          ledger := (postEntry env.digest (env.clock w.ticks) posting w.opened.ledger).2
          ticks := w.ticks + 1 }) := by
      have hf' : w.opened.ledger.tables.findPosting posting.txnId = none := hf
      unfold postOnce Txn.findPosting
      rw [Txn.run_bind, Txn.run_read, hf']
      simp only [Txn.run_bind, Txn.postEntry, World.opened]
      split <;> rename_i heq <;> simp only [Prod.mk.injEq] at heq <;> simp [heq.1, ← heq.2, Except.map]
    cases hres : (postEntry env.digest (env.clock w.ticks) posting w.opened.ledger).1 with
    | ok txn =>
      left
      rw [hres] at hrun
      have hland := postEntry_landed env.digest _ hw hres (w.ticks + 1)
      rw [dropZeroLegs_eq hz] at hland
      refine ⟨hposted, hiff.mp ⟨txn, hres⟩, _, ?_, hland⟩
      simp only [transaction, hbegin, hrun, Except.map]
    | error e =>
      right
      rw [hres] at hrun
      refine ⟨hposted, ?_, ?_⟩
      · intro ha
        obtain ⟨txn, htxn⟩ := hiff.mpr ha
        rw [hres] at htxn
        cases htxn
      · rcases transaction_cases (postOnce env posting) hw.closed hw.sound with
          ⟨a, w', hr, -⟩ | ⟨e', w', hr, ht, hsame⟩
        · rw [hrun] at hr
          cases hr
        · rw [ht] at hclosed
          exact ⟨e', _, ht, hsame, hsame.ready hclosed hw⟩

/-- A transaction of one entry lands it without its zero legs, or changes nothing. -/
theorem transaction_postEntry_cases (posting : Posting) (hw : w.Ready) :
    (∃ txn w', transaction (Txn.postEntry env posting) w = (.ok txn, w') ∧
      w.Landed (dropZeroLegs posting) w') ∨
    (∃ e w', transaction (Txn.postEntry env posting) w = (.error e, w') ∧ w.SameTables w' ∧
      w'.Ready) := by
  have hclosed := transaction_closed (Txn.postEntry env posting) hw.closed
  rcases transaction_cases (Txn.postEntry env posting) hw.closed hw.sound with
    ⟨txn, w', hr, ht⟩ | ⟨e, w', hr, ht, hsame⟩
  · left
    simp only [Txn.postEntry, Prod.mk.injEq] at hr
    obtain ⟨hok, rfl⟩ := hr
    exact ⟨txn, _, ht, postEntry_landed env.digest _ hw hok _⟩
  · right
    rw [ht] at hclosed
    exact ⟨e, _, ht, hsame, hsame.ready hclosed hw⟩

theorem transaction_postEntry (posting : Posting) (hw : w.Ready) :
    w.Landed (dropZeroLegs posting) (transaction (Txn.postEntry env posting) w).2 ∨
      (w.SameTables (transaction (Txn.postEntry env posting) w).2 ∧
        (transaction (Txn.postEntry env posting) w).2.Ready) := by
  rcases transaction_postEntry_cases env posting hw with ⟨txn, w', ht, hland⟩ | ⟨e, w', ht, hsame⟩
  · left
    rw [ht]
    exact hland
  · right
    rw [ht]
    exact hsame

/-- `w'` has every posting of `w`, and the journal and the registry are untouched. -/
structure World.Grows (w w' : World) : Prop where
  ready : w'.Ready
  posted : ∀ txnId, w.posted txnId = true → w'.posted txnId = true
  movements : w'.movements = w.movements
  reservations : w'.reservations = w.reservations

namespace World

theorem Grows.refl (hw : w.Ready) : w.Grows w := ⟨hw, fun _ h => h, rfl, rfl⟩

theorem Landed.grows {w w' : World} (h : w.Landed posting w') : w.Grows w' := by
  refine ⟨h.ready, ?_, h.movements, h.reservations⟩
  intro txnId hp
  rw [h.posted, hp, Bool.true_or]

theorem SameTables.grows {w w' : World} (h : w.SameTables w') (hw : w'.Ready) : w.Grows w' :=
  ⟨hw, fun txnId hp => (h.posted txnId).trans hp, h.movements, h.reservations⟩

end World

/-- Posting once under an id the ledger lacks is a transaction of that entry. -/
theorem transaction_postOnce_fresh
    (hbegin : w.beginAll = some w.opened) (hf : w.posted posting.txnId = false) :
    transaction (postOnce env posting) w =
      match transaction (Txn.postEntry env posting) w with
      | (.ok _, w') => (.ok (), w')
      | (.error e, w') => (.error e, w') := by
  have hsame : w.ledger.tables.findPosting posting.txnId = none := by
    simpa [World.posted, Option.isSome_iff_ne_none] using hf
  have hnone : w.opened.ledger.tables.findPosting posting.txnId = none := hsame
  unfold transaction postOnce Txn.findPosting
  rw [hbegin]
  simp only [Txn.run_bind, Txn.run_read, hnone]
  rcases (Txn.postEntry env posting).run w.opened with ⟨res, w'⟩
  cases res <;> rfl

/-- Posting once, whatever the legs, only adds to the ledger; where it goes through, the id is there. -/
theorem transaction_postOnce_grows (posting : Posting) (hw : w.Ready) :
    w.Grows (transaction (postOnce env posting) w).2 ∧
      ((transaction (postOnce env posting) w).1 = .ok () →
        (transaction (postOnce env posting) w).2.posted posting.txnId = true) := by
  have hbegin := hw.closed.beginAll
  cases hf : w.posted posting.txnId with
  | true =>
    obtain ⟨found, hfound⟩ := Option.isSome_iff_exists.mp hf
    have hrun : (postOnce env posting).run w.opened = (.ok (), w.opened) := by
      have hfound' : w.opened.ledger.tables.findPosting posting.txnId = some found := hfound
      unfold postOnce Txn.findPosting
      rw [Txn.run_bind, Txn.run_read, hfound']
      rfl
    have htr : transaction (postOnce env posting) w = (.ok (), w.opened.commitAll) := by
      simp only [transaction, hbegin, hrun]
    have hclosed := transaction_closed (postOnce env posting) hw.closed
    have hsame := World.opened_commitAll hw.closed
    rw [htr] at hclosed ⊢
    exact ⟨hsame.grows (hsame.ready hclosed hw), fun _ => (hsame.posted _).trans hf⟩
  | false =>
    rw [transaction_postOnce_fresh env hbegin hf]
    rcases transaction_postEntry_cases env posting hw with
      ⟨txn, w', ht, hland⟩ | ⟨e, w', ht, hsame, hready⟩
    · rw [ht]
      refine ⟨hland.grows, fun _ => ?_⟩
      rw [hland.posted]
      simp [dropZeroLegs]
    · rw [ht]
      refine ⟨hsame.grows hready, ?_⟩
      intro hok
      cases hok

end EconomyLab
