import EconomyLab.Foundation.OrderedTable
import EconomyLab.Ledger.Exact
import EconomyLab.Stores.Records

/-!
# The in-memory store and its transactions

Every participating store has its own journal; a transaction opens all of them, and a
failing one rolls all of them back. A unit of work carries the proof that unwinding
what it recorded gives back what it found.
-/

namespace EconomyLab

open Foundation

/-- Committed keys with their transactions, and the birth time of every row. -/
structure IdempotencyTables where
  committed : Table String Transaction
  bornAt : Table String Int

structure OutboxTables where
  rows : OrderedTable String OutboxMessage
  order : List String
  enqueuedAt : Table String Int

structure SagaTables where
  rows : OrderedTable String Saga
  lastByUser : Table String Int

structure AccrualTables where
  rows : OrderedTable String AccrualRow
  order : List String

structure TrustWindow where
  attempts : List Attempt
  head : Nat
  sumMinor : Int

structure TrustTables where
  bySubject : Table String TrustWindow
  seenAttempts : List String

/-- The store, with how often its clock was read and how many ids were minted. -/
structure World where
  ledger : MemoryLedger
  idempotency : Journaled IdempotencyTables
  sales : Journaled (OrderedTable String Sale)
  outbox : Journaled OutboxTables
  sagas : Journaled SagaTables
  entitlements : Journaled (OrderedTable String EntitlementRow)
  subscriptions : Journaled (OrderedTable String Subscription)
  promos : Journaled (OrderedTable String PromoGrant)
  accruals : Journaled AccrualTables
  trust : Journaled TrustTables
  movements : List Movement
  reservations : Table AccountRef Int
  ticks : Nat
  minted : Nat

/-- What the host supplies: the digest, the clock's readings and the minted ids. -/
structure Env where
  digest : Digest
  clock : Nat → Int
  uuid : Nat → String

namespace World

def empty : World where
  ledger := createLedgerStore
  idempotency := ⟨⟨Table.empty, Table.empty⟩, none⟩
  sales := ⟨OrderedTable.empty, none⟩
  outbox := ⟨⟨OrderedTable.empty, [], Table.empty⟩, none⟩
  sagas := ⟨⟨OrderedTable.empty, Table.empty⟩, none⟩
  entitlements := ⟨OrderedTable.empty, none⟩
  subscriptions := ⟨OrderedTable.empty, none⟩
  promos := ⟨OrderedTable.empty, none⟩
  accruals := ⟨⟨OrderedTable.empty, []⟩, none⟩
  trust := ⟨⟨Table.empty, []⟩, none⟩
  movements := []
  reservations := Table.empty
  ticks := 0
  minted := 0

structure Closed (w : World) : Prop where
  ledger : w.ledger.book.undos = none
  idempotency : w.idempotency.undos = none
  sales : w.sales.undos = none
  outbox : w.outbox.undos = none
  sagas : w.sagas.undos = none
  entitlements : w.entitlements.undos = none
  subscriptions : w.subscriptions.undos = none
  promos : w.promos.undos = none
  accruals : w.accruals.undos = none
  trust : w.trust.undos = none

/-- The ledger keeps no empty index row, which its undo relies on. -/
structure Sound (w : World) : Prop where
  lots : NoEmptyLots w.ledger.tables.lotIndexByAccount
  columns : CompactColumns w.ledger.tables.deltaColumns

theorem empty_closed : empty.Closed := ⟨rfl, rfl, rfl, rfl, rfl, rfl, rfl, rfl, rfl, rfl⟩

theorem empty_sound : empty.Sound := ⟨fun _ => nofun, ⟨fun _ _ => nofun, fun _ _ => nofun⟩⟩

end World

/-- What a rollback of claims and records does: it drops keys. -/
def IdempotencyTables.without (t : IdempotencyTables) (keys born : List String) : IdempotencyTables where
  committed := ⟨fun k => if k ∈ keys then none else t.committed.get k⟩
  bornAt := ⟨fun k => if k ∈ born then none else t.bornAt.get k⟩

/-- Since `j`, keys were added that `j` had not committed, and the reversers drop exactly these. -/
def AddsKeys (j j' : Journaled IdempotencyTables) : Prop :=
  match j.undos, j'.undos with
  | none, none => True
  | some undos, some undos' => ∃ new keys born, undos' = new ++ undos ∧
      (∀ t, Journaled.unwind new t = t.without keys born) ∧
      (∀ k ∈ keys, j.rows.committed.get k = none) ∧ (∀ k ∈ born, j.rows.bornAt.get k = none) ∧
      (∀ k, k ∉ keys → j'.rows.committed.get k = j.rows.committed.get k) ∧
      (∀ k, k ∉ born → j'.rows.bornAt.get k = j.rows.bornAt.get k)
  | _, _ => False

theorem AddsKeys.refl (j : Journaled IdempotencyTables) : AddsKeys j j := by
  unfold AddsKeys
  cases j.undos with
  | none => trivial
  | some undos =>
    refine ⟨[], [], [], rfl, ?_, by simp, by simp, by simp, by simp⟩
    intro t
    simp [Journaled.unwind, IdempotencyTables.without]

theorem IdempotencyTables.without_without (t : IdempotencyTables) (k k' b b' : List String) :
    (t.without k' b').without k b = t.without (k' ++ k) (b' ++ b) := by
  unfold IdempotencyTables.without
  congr 1
  · ext1 x
    by_cases hx : x ∈ k <;> by_cases hx' : x ∈ k' <;> simp [hx, hx']
  · ext1 x
    by_cases hx : x ∈ b <;> by_cases hx' : x ∈ b' <;> simp [hx, hx']

theorem AddsKeys.trans {j j' j'' : Journaled IdempotencyTables} (h : AddsKeys j j')
    (h' : AddsKeys j' j'') : AddsKeys j j'' := by
  unfold AddsKeys at *
  cases hu : j.undos with
  | none =>
    cases hu' : j'.undos with
    | none =>
      cases hu'' : j''.undos with
      | none => trivial
      | some us'' => simp [hu', hu''] at h'
    | some us => simp [hu, hu'] at h
  | some us =>
    cases hu' : j'.undos with
    | none => simp [hu, hu'] at h
    | some us' =>
      cases hu'' : j''.undos with
      | none => simp [hu', hu''] at h'
      | some us'' =>
        simp only [hu, hu'] at h
        simp only [hu', hu''] at h'
        obtain ⟨new, keys, born, rfl, hun, hk, hb, hsame, hbsame⟩ := h
        obtain ⟨new', keys', born', rfl, hun', hk', hb', hsame', hbsame'⟩ := h'
        refine ⟨new' ++ new, keys' ++ keys, born' ++ born, (List.append_assoc ..).symm, ?_, ?_, ?_,
          ?_, ?_⟩
        · intro t
          rw [Journaled.unwind_append, hun', hun, IdempotencyTables.without_without]
        · intro k hkm
          rcases List.mem_append.mp hkm with hkm | hkm
          · by_cases hin : k ∈ keys
            · exact hk k hin
            · rw [← hsame k hin]
              exact hk' k hkm
          · exact hk k hkm
        · intro k hkm
          rcases List.mem_append.mp hkm with hkm | hkm
          · by_cases hin : k ∈ born
            · exact hb k hin
            · rw [← hbsame k hin]
              exact hb' k hkm
          · exact hb k hkm
        · intro k hkm
          rw [List.mem_append, not_or] at hkm
          rw [hsame' k hkm.1, hsame k hkm.2]
        · intro k hkm
          rw [List.mem_append, not_or] at hkm
          rw [hbsame' k hkm.1, hbsame k hkm.2]

theorem AddsKeys.rollback {j j' : Journaled IdempotencyTables}
    (h : AddsKeys { j with undos := some [] } j') : j'.rollback = { j with undos := none } := by
  obtain ⟨s', undos'⟩ := j'
  cases undos' with
  | none => simp [AddsKeys] at h
  | some undos' =>
    obtain ⟨new, keys, born, hnew, hun, hk, hb, hsame, hbsame⟩ := h
    rw [List.append_nil] at hnew
    subst hnew
    refine congrArg (Journaled.mk · none) ?_
    obtain ⟨⟨committed, bornAt⟩, undos⟩ := j
    rw [hun]
    unfold IdempotencyTables.without
    congr 1
    · ext1 x
      by_cases hx : x ∈ keys
      · simpa [hx] using (hk x hx).symm
      · simpa [hx] using hsame x hx
    · ext1 x
      by_cases hx : x ∈ born
      · simpa [hx] using (hb x hx).symm
      · simpa [hx] using hbsame x hx

/-! ## Units of work -/

namespace World

/-- `w'` is `w` with writes that a rollback takes back. -/
structure Extends (w w' : World) : Prop where
  ledger : w.ledger.book.Extends w'.ledger.book
  idempotency : AddsKeys w.idempotency w'.idempotency
  sales : w.sales.Extends w'.sales
  outbox : w.outbox.Extends w'.outbox
  sagas : w.sagas.Extends w'.sagas
  entitlements : w.entitlements.Extends w'.entitlements
  subscriptions : w.subscriptions.Extends w'.subscriptions
  promos : w.promos.Extends w'.promos
  accruals : w.accruals.Extends w'.accruals
  movements : w'.movements = w.movements
  reservations : w'.reservations = w.reservations
  sound : w'.Sound

theorem Extends.refl {w : World} (h : w.Sound) : w.Extends w :=
  ⟨Journaled.Extends.refl _, AddsKeys.refl _, Journaled.Extends.refl _, Journaled.Extends.refl _,
    Journaled.Extends.refl _, Journaled.Extends.refl _, Journaled.Extends.refl _,
    Journaled.Extends.refl _, Journaled.Extends.refl _, rfl, rfl, h⟩

theorem Extends.trans {w w' w'' : World} (h : w.Extends w') (h' : w'.Extends w'') : w.Extends w'' :=
  ⟨h.ledger.trans h'.ledger, h.idempotency.trans h'.idempotency, h.sales.trans h'.sales,
    h.outbox.trans h'.outbox, h.sagas.trans h'.sagas, h.entitlements.trans h'.entitlements,
    h.subscriptions.trans h'.subscriptions, h.promos.trans h'.promos, h.accruals.trans h'.accruals,
    h'.movements.trans h.movements, h'.reservations.trans h.reservations, h'.sound⟩

end World

structure Txn (α : Type) where
  run : World → Except Fault α × World
  undoable : ∀ w : World, w.Sound → w.Extends (run w).2

namespace Txn

variable {α β : Type}

protected def pure (a : α) : Txn α := ⟨fun w => (.ok a, w), fun _ h => World.Extends.refl h⟩

protected def bind (x : Txn α) (f : α → Txn β) : Txn β where
  run w :=
    match x.run w with
    | (.ok a, w') => (f a).run w'
    | (.error e, w') => (.error e, w')
  undoable := by
    intro w hw
    have hx := x.undoable w hw
    rcases hr : x.run w with ⟨res, w'⟩
    rw [hr] at hx
    cases res with
    | error e => exact hx
    | ok a => exact hx.trans ((f a).undoable w' hx.sound)

protected def throw (e : Fault) : Txn α := ⟨fun w => (.error e, w), fun _ h => World.Extends.refl h⟩

instance : Monad Txn where
  pure := Txn.pure
  bind := Txn.bind

instance : MonadExceptOf Fault Txn where
  throw := Txn.throw
  tryCatch x handle :=
    { run := fun w =>
        match x.run w with
        | (.ok a, w') => (.ok a, w')
        | (.error e, w') => (handle e).run w'
      undoable := by
        intro w hw
        have hx := x.undoable w hw
        rcases hr : x.run w with ⟨res, w'⟩
        rw [hr] at hx
        cases res with
        | ok a => exact hx
        | error e => exact hx.trans ((handle e).undoable w' hx.sound) }

@[simp] theorem run_pure (a : α) (w : World) : (pure a : Txn α).run w = (.ok a, w) := rfl

theorem run_bind (x : Txn α) (f : α → Txn β) (w : World) :
    (x >>= f).run w = match x.run w with
      | (.ok a, w') => (f a).run w'
      | (.error e, w') => (.error e, w') := rfl

variable {x : Txn α} {f : α → Txn β}

theorem run_bind_ok {w w' : World} {a : α} (h : x.run w = (.ok a, w')) :
    (x >>= f).run w = (f a).run w' := by
  rw [run_bind, h]

theorem run_bind_error {w w' : World} {e : Fault}
    (h : x.run w = (.error e, w')) : (x >>= f).run w = (.error e, w') := by
  rw [run_bind, h]

theorem bind_ok {w w' : World} {b : β} (h : (x >>= f).run w = (.ok b, w')) :
    ∃ a w₁, x.run w = (.ok a, w₁) ∧ (f a).run w₁ = (.ok b, w') := by
  rw [run_bind] at h
  rcases hx : x.run w with ⟨res, w₁⟩
  rw [hx] at h
  cases res with
  | error e => simp at h
  | ok a => exact ⟨a, w₁, rfl, h⟩

def lift (r : Except Fault α) : Txn α := ⟨fun w => (r, w), fun _ h => World.Extends.refl h⟩

@[simp] theorem run_lift (r : Except Fault α) (w : World) : (lift r).run w = (r, w) := rfl

def read (f : World → Except Fault α) : Txn α :=
  ⟨fun w => (f w, w), fun _ h => World.Extends.refl h⟩

@[simp] theorem run_read (f : World → Except Fault α) (w : World) : (read f).run w = (f w, w) := rfl

end Txn

/-! ## Transactions -/

namespace World

/-- Opens every journal, or none when one is already open. -/
def beginAll (w : World) : Option World := do
  return { w with
    ledger := { w.ledger with book := ← w.ledger.book.begin }
    idempotency := ← w.idempotency.begin
    sales := ← w.sales.begin
    outbox := ← w.outbox.begin
    sagas := ← w.sagas.begin
    entitlements := ← w.entitlements.begin
    subscriptions := ← w.subscriptions.begin
    promos := ← w.promos.begin
    trust := ← w.trust.begin
    accruals := ← w.accruals.begin }

def commitAll (w : World) : World :=
  { w with
    ledger := { w.ledger with book := w.ledger.book.commit }
    idempotency := w.idempotency.commit
    sales := w.sales.commit
    outbox := w.outbox.commit
    sagas := w.sagas.commit
    entitlements := w.entitlements.commit
    subscriptions := w.subscriptions.commit
    promos := w.promos.commit
    trust := w.trust.commit
    accruals := w.accruals.commit }

def rollbackAll (w : World) : World :=
  { w with
    ledger := { w.ledger with book := w.ledger.book.rollback }
    idempotency := w.idempotency.rollback
    sales := w.sales.rollback
    outbox := w.outbox.rollback
    sagas := w.sagas.rollback
    entitlements := w.entitlements.rollback
    subscriptions := w.subscriptions.rollback
    promos := w.promos.rollback
    trust := w.trust.rollback
    accruals := w.accruals.rollback }

/-- The stores whose rollback is exact hold the same rows, with no transaction open. -/
structure SameTables (w w' : World) : Prop where
  ledger : w'.ledger.book = w.ledger.book
  idempotency : w'.idempotency = w.idempotency
  sales : w'.sales = w.sales
  outbox : w'.outbox = w.outbox
  sagas : w'.sagas = w.sagas
  entitlements : w'.entitlements = w.entitlements
  subscriptions : w'.subscriptions = w.subscriptions
  promos : w'.promos = w.promos
  accruals : w'.accruals = w.accruals
  movements : w'.movements = w.movements
  reservations : w'.reservations = w.reservations

theorem SameTables.refl (w : World) : w.SameTables w :=
  ⟨rfl, rfl, rfl, rfl, rfl, rfl, rfl, rfl, rfl, rfl, rfl⟩

theorem SameTables.trans {w w' w'' : World} (h : w.SameTables w') (h' : w'.SameTables w'') :
    w.SameTables w'' :=
  ⟨h'.ledger.trans h.ledger, h'.idempotency.trans h.idempotency, h'.sales.trans h.sales,
    h'.outbox.trans h.outbox, h'.sagas.trans h.sagas, h'.entitlements.trans h.entitlements,
    h'.subscriptions.trans h.subscriptions, h'.promos.trans h.promos,
    h'.accruals.trans h.accruals, h'.movements.trans h.movements,
    h'.reservations.trans h.reservations⟩

theorem SameTables.sound {w w' : World} (h : w.SameTables w') (hs : w.Sound) : w'.Sound := by
  have ht : w'.ledger.tables = w.ledger.tables := congrArg Journaled.rows h.ledger
  exact ⟨ht ▸ hs.lots, ht ▸ hs.columns⟩

def opened (w : World) : World :=
  { w with
    ledger := { w.ledger with book := { w.ledger.book with undos := some [] } }
    idempotency := { w.idempotency with undos := some [] }
    sales := { w.sales with undos := some [] }
    outbox := { w.outbox with undos := some [] }
    sagas := { w.sagas with undos := some [] }
    entitlements := { w.entitlements with undos := some [] }
    subscriptions := { w.subscriptions with undos := some [] }
    promos := { w.promos with undos := some [] }
    trust := { w.trust with undos := some [] }
    accruals := { w.accruals with undos := some [] } }

theorem Closed.beginAll {w : World} (h : w.Closed) : w.beginAll = some w.opened := by
  simp [World.beginAll, opened, Journaled.begin, h.ledger, h.idempotency, h.sales, h.outbox, h.sagas,
    h.entitlements, h.subscriptions, h.promos, h.accruals, h.trust]

theorem commitAll_closed (w : World) : w.commitAll.Closed :=
  ⟨rfl, rfl, rfl, rfl, rfl, rfl, rfl, rfl, rfl, rfl⟩

theorem rollback_undos {σ : Type} (j : Journaled σ) : j.rollback.undos = none := by
  obtain ⟨rows, undos⟩ := j
  cases undos <;> rfl

theorem rollbackAll_closed (w : World) : w.rollbackAll.Closed :=
  ⟨rollback_undos _, rollback_undos _, rollback_undos _, rollback_undos _, rollback_undos _,
    rollback_undos _, rollback_undos _, rollback_undos _, rollback_undos _, rollback_undos _⟩

theorem rollback_restores_row {σ : Type} {j j' : Journaled σ} (hj : j.undos = none)
    (h : Journaled.Extends { j with undos := some [] } j') : j'.rollback = j := by
  rw [h.rollback]
  obtain ⟨rows, undos⟩ := j
  exact congrArg (Journaled.mk rows) hj.symm

/-- Rolling back returns every exact store to what the transaction found. -/
theorem rollbackAll_sameTables {w w' : World} (hc : w.Closed) (h : w.opened.Extends w') :
    w.SameTables w'.rollbackAll where
  ledger := rollback_restores_row hc.ledger h.ledger
  idempotency := (AddsKeys.rollback (j := w.idempotency) h.idempotency).trans
    (congrArg (Journaled.mk w.idempotency.rows) hc.idempotency.symm)
  sales := rollback_restores_row hc.sales h.sales
  outbox := rollback_restores_row hc.outbox h.outbox
  sagas := rollback_restores_row hc.sagas h.sagas
  entitlements := rollback_restores_row hc.entitlements h.entitlements
  subscriptions := rollback_restores_row hc.subscriptions h.subscriptions
  promos := rollback_restores_row hc.promos h.promos
  accruals := rollback_restores_row hc.accruals h.accruals
  movements := h.movements
  reservations := h.reservations

end World

/-- `store.transaction(work)`: the queue runs one at a time, so an open journal is refused. -/
def transaction {α : Type} (work : Txn α) (w : World) : Except Fault α × World :=
  match w.beginAll with
  | none => (.error (plainError "in-memory transactions do not nest"), w)
  | some opened =>
    match work.run opened with
    | (.ok a, w') => (.ok a, w'.commitAll)
    | (.error e, w') => (.error e, w'.rollbackAll)

theorem opened_sound {w : World} (h : w.Sound) : w.opened.Sound := ⟨h.lots, h.columns⟩

/-- A transaction commits what its work did, or changes nothing a rollback covers. -/
theorem transaction_cases {α : Type} (work : Txn α) {w : World} (hc : w.Closed) (hs : w.Sound) :
    (∃ a w', work.run w.opened = (.ok a, w') ∧ transaction work w = (.ok a, w'.commitAll)) ∨
    (∃ e w', work.run w.opened = (.error e, w') ∧ transaction work w = (.error e, w'.rollbackAll) ∧
      w.SameTables w'.rollbackAll) := by
  have hext := work.undoable w.opened (opened_sound hs)
  rcases hr : work.run w.opened with ⟨res, w'⟩
  rw [hr] at hext
  cases res with
  | ok a => exact Or.inl ⟨a, w', rfl, by simp [transaction, hc.beginAll, hr]⟩
  | error e =>
    exact Or.inr ⟨e, w', rfl, by simp [transaction, hc.beginAll, hr],
      World.rollbackAll_sameTables hc hext⟩

theorem transaction_closed {α : Type} (work : Txn α) {w : World} (hc : w.Closed) :
    (transaction work w).2.Closed := by
  unfold transaction
  rw [hc.beginAll]
  simp only
  split
  · exact World.commitAll_closed _
  · exact World.rollbackAll_closed _

theorem transaction_sound {α : Type} (work : Txn α) {w : World} (hc : w.Closed) (hs : w.Sound) :
    (transaction work w).2.Sound := by
  rcases transaction_cases work hc hs with ⟨a, w', hr, ht⟩ | ⟨e, w', hr, ht, hsame⟩
  · have hext := (work.undoable w.opened (opened_sound hs)).sound
    rw [hr] at hext
    rw [ht]
    exact ⟨hext.lots, hext.columns⟩
  · rw [ht]
    exact hsame.sound hs

end EconomyLab
