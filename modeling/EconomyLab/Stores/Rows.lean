import EconomyLab.Foundation.Recoil
import EconomyLab.Foundation.Shelf
import EconomyLab.Ledger.Runs
import EconomyLab.Stores.World

/-!
# The stores that replace whole rows

Sales, payout sagas, entitlements, subscriptions, promo grants, accrual rows, and the ledger:
every write puts a new row in the place of the old one, and its reverser is exact. The
idempotency store only ever adds the rows it journals.
-/

namespace EconomyLab

open Foundation Journaled

/-- `recordRowUndo` and then `rows.set(key, row)`. -/
def putRow {V : Type} (j : Journaled (OrderedTable String V)) (key : String) (row : V) :
    Journaled (OrderedTable String V) :=
  j.write (j.rows.set key row) fun t => t.restore key (j.rows.get key)

theorem putRow_extends {V : Type} {j₀ j : Journaled (OrderedTable String V)} (h : j₀.Extends j)
    (key : String) (row : V) : j₀.Extends (putRow j key row) :=
  h.trans (.write j (OrderedTable.restore_set j.rows key row))

theorem delete_set {V : Type} {t : OrderedTable String V} {key : String} (h : t.get key = none)
    (row : V) : (t.set key row).delete key = t := by
  have hrestore := OrderedTable.restore_set t key row
  rw [h] at hrestore
  exact hrestore

inductive SaleWrite
  | put (sale : Sale)

def SaleWrite.run : SaleWrite → Journaled (OrderedTable String Sale) →
    Journaled (OrderedTable String Sale)
  | put sale, j => putRow j sale.orderId sale

theorem SaleWrite.run_extends {j₀ j : Journaled (OrderedTable String Sale)} (h : j₀.Extends j)
    (w : SaleWrite) : j₀.Extends (w.run j) := by
  cases w with
  | put sale => exact putRow_extends h _ _

/-! ## Payout sagas -/

namespace SagaTables

def putSaga (j : Journaled SagaTables) (id : String) (saga : Saga) : Journaled SagaTables :=
  j.write { j.rows with rows := j.rows.rows.set id saga }
    fun t => { t with rows := t.rows.restore id (j.rows.rows.get id) }

/-- The newest `updatedAt` of a user only rises. -/
def bumpLast (userId : String) (updatedAt : Int) (j : Journaled SagaTables) : Journaled SagaTables :=
  let prior := j.rows.lastByUser.get userId
  if prior.any (updatedAt ≤ ·) then j
  else
    j.write { j.rows with lastByUser := j.rows.lastByUser.set userId updatedAt }
      fun t => { t with lastByUser := t.lastByUser.restore userId prior }

theorem putSaga_extends {j₀ j : Journaled SagaTables} (h : j₀.Extends j) (id : String) (saga : Saga) :
    j₀.Extends (putSaga j id saga) := by
  apply h.trans (.write j _)
  simp only [OrderedTable.restore_set]

theorem bumpLast_extends {j₀ j : Journaled SagaTables} (h : j₀.Extends j) (userId : String)
    (updatedAt : Int) : j₀.Extends (bumpLast userId updatedAt j) := by
  simp only [bumpLast]
  split
  · exact h
  · apply h.trans (.write j _)
    have hrestore : (j.rows.lastByUser.set userId updatedAt).restore userId
        (j.rows.lastByUser.get userId) = j.rows.lastByUser := by
      ext1 k
      by_cases hk : k = userId
      · simp [hk]
      · simp [hk]
    simp only [hrestore]

end SagaTables

/-- `patch` overrides the fields a caller names. -/
inductive SagaWrite
  | start (saga : Saga)
  | advance (id : String) (source target : SagaState) (patch : Saga → Saga)
  | deadLetter (id reason : String)

namespace SagaWrite

open SagaTables

def run : SagaWrite → Journaled SagaTables → Journaled SagaTables
  | start saga, j => bumpLast saga.userId saga.updatedAt (putSaga j saga.id saga)
  | advance id source target patch, j =>
    match j.rows.rows.get id with
    | none => j
    | some saga =>
      if saga.state = source then
        bumpLast saga.userId (patch saga).updatedAt
          (putSaga j id { patch saga with state := target })
      else j
  | deadLetter id reason, j =>
    match j.rows.rows.get id with
    | none => j
    | some saga => putSaga j id { saga with state := .failed, reason := some reason }

theorem run_extends {j₀ j : Journaled SagaTables} (h : j₀.Extends j) (w : SagaWrite) :
    j₀.Extends (w.run j) := by
  cases w with
  | start saga => exact bumpLast_extends (putSaga_extends h _ _) _ _
  | advance id source target patch =>
    simp only [run]
    split
    · exact h
    · split
      · exact bumpLast_extends (putSaga_extends h _ _) _ _
      · exact h
  | deadLetter id reason =>
    simp only [run]
    split
    · exact h
    · exact putSaga_extends h _ _

end SagaWrite

def entitlementKey (userId sku : String) : String := userId ++ "::" ++ sku

inductive EntitlementWrite
  | grant (userId sku : String) (attrs : EntitlementAttributes)
  | revoke (userId sku : String)

namespace EntitlementWrite

/-- A grant clears an earlier revoke; revoking keeps the row. -/
def run : EntitlementWrite → Journaled (OrderedTable String EntitlementRow) →
    Journaled (OrderedTable String EntitlementRow)
  | grant userId sku attrs, j => putRow j (entitlementKey userId sku) ⟨attrs, false⟩
  | revoke userId sku, j =>
    match j.rows.get (entitlementKey userId sku) with
    | none => j
    | some row => if row.revoked then j else putRow j (entitlementKey userId sku)
      { row with revoked := true }

theorem run_extends {j₀ j : Journaled (OrderedTable String EntitlementRow)} (h : j₀.Extends j)
    (w : EntitlementWrite) : j₀.Extends (w.run j) := by
  cases w with
  | grant userId sku attrs => exact putRow_extends h _ _
  | revoke userId sku =>
    simp only [run]
    split
    · exact h
    · split
      · exact h
      · exact putRow_extends h _ _

end EntitlementWrite

inductive SubscriptionWrite
  | start (sub : Subscription)
  | cancel (id : String)
  | markBilled (id : String) (nextDueAt expectedDueAt : Int)
  | markLapsed (id : String)

namespace SubscriptionWrite

def run : SubscriptionWrite → Journaled (OrderedTable String Subscription) →
    Journaled (OrderedTable String Subscription)
  | start sub, j => putRow j sub.id sub
  | cancel id, j =>
    match j.rows.get id with
    | none => j
    | some sub => putRow j id { sub with state := .canceled }
  | markBilled id nextDueAt expectedDueAt, j =>
    match j.rows.get id with
    | none => j
    | some sub =>
      if sub.nextDueAt = expectedDueAt then
        putRow j id { sub with nextDueAt, period := sub.period + 1, attempts := 0 }
      else j
  | markLapsed id, j =>
    match j.rows.get id with
    | none => j
    | some sub => putRow j id { sub with state := .lapsed }

theorem run_extends {j₀ j : Journaled (OrderedTable String Subscription)} (h : j₀.Extends j)
    (w : SubscriptionWrite) : j₀.Extends (w.run j) := by
  cases w with
  | start sub => exact putRow_extends h _ _
  | cancel id =>
    simp only [run]
    split
    · exact h
    · exact putRow_extends h _ _
  | markBilled id nextDueAt expectedDueAt =>
    simp only [run]
    split
    · exact h
    · split
      · exact putRow_extends h _ _
      · exact h
  | markLapsed id =>
    simp only [run]
    split
    · exact h
    · exact putRow_extends h _ _

end SubscriptionWrite

inductive PromoWrite
  | start (grant : PromoGrant)
  | markReversed (id : String)

namespace PromoWrite

/-- Opening a grant again leaves the first row. -/
def run : PromoWrite → Journaled (OrderedTable String PromoGrant) →
    Journaled (OrderedTable String PromoGrant)
  | start grant, j =>
    match j.rows.get grant.id with
    | some _ => j
    | none => j.write (j.rows.set grant.id grant) fun t => t.delete grant.id
  | markReversed id, j =>
    match j.rows.get id with
    | none => j
    | some grant => if grant.reversed then j else putRow j id { grant with reversed := true }

theorem run_extends {j₀ j : Journaled (OrderedTable String PromoGrant)} (h : j₀.Extends j)
    (w : PromoWrite) : j₀.Extends (w.run j) := by
  cases w with
  | start grant =>
    simp only [run]
    split
    · exact h
    · rename_i hid
      exact h.trans (.write j (delete_set hid grant))
  | markReversed id =>
    simp only [run]
    split
    · exact h
    · split
      · exact h
      · exact putRow_extends h _ _

end PromoWrite

def accrualKey (orderId sellerId : String) (seq : Nat) : String :=
  orderId ++ "::" ++ sellerId ++ "::" ++ toString seq

def AccrualRow.key (row : AccrualRow) : String := accrualKey row.orderId row.sellerId row.seq

inductive AccrualWrite
  | put (batch : List AccrualRow)
  | mark (keys : List (String × String × Nat)) (status : AccrualStatus) (settledTxnId : String)

namespace AccrualTables

/-- Rows of a batch one after the other; a row that is there already throws, and the rows before
it stay. -/
def put : List AccrualRow → Journaled AccrualTables → Journaled AccrualTables
  | [], j => j
  | row :: batch, j =>
    match j.rows.rows.get row.key with
    | some _ => j
    | none =>
      put batch (j.write ⟨j.rows.rows.set row.key row, j.rows.order ++ [row.key]⟩
        fun t => ⟨t.rows.delete row.key, t.order.dropLast⟩)

def markOne (status : AccrualStatus) (settledTxnId : String) (j : Journaled AccrualTables)
    (key : String × String × Nat) : Journaled AccrualTables :=
  let id := accrualKey key.1 key.2.1 key.2.2
  match j.rows.rows.get id with
  | none => j
  | some row =>
    if row.status = .pending then
      j.write
        { j.rows with rows := j.rows.rows.set id { row with status, settledTxnId := some settledTxnId } }
        fun t => { t with rows := t.rows.restore id (some row) }
    else j

theorem put_extends {j₀ j : Journaled AccrualTables} (h : j₀.Extends j) (batch : List AccrualRow) :
    j₀.Extends (put batch j) := by
  induction batch generalizing j with
  | nil => exact h
  | cons row batch ih =>
    unfold put
    cases hkey : j.rows.rows.get row.key with
    | some prior => exact h
    | none =>
      apply ih (h.trans (.write j _))
      simp only [delete_set hkey, List.dropLast_concat]

theorem markOne_extends {j₀ j : Journaled AccrualTables} (h : j₀.Extends j) (status : AccrualStatus)
    (settledTxnId : String) (key : String × String × Nat) :
    j₀.Extends (markOne status settledTxnId j key) := by
  unfold markOne
  simp only
  cases hid : j.rows.rows.get (accrualKey key.1 key.2.1 key.2.2) with
  | none => exact h
  | some row =>
    simp only
    split
    · apply h.trans (.write j _)
      simp only [← hid, OrderedTable.restore_set]
    · exact h

end AccrualTables

namespace AccrualWrite

def run : AccrualWrite → Journaled AccrualTables → Journaled AccrualTables
  | put batch, j => AccrualTables.put batch j
  | mark keys status settledTxnId, j =>
    keys.foldl (AccrualTables.markOne status settledTxnId) j

theorem run_extends {j₀ j : Journaled AccrualTables} (h : j₀.Extends j) (w : AccrualWrite) :
    j₀.Extends (w.run j) := by
  cases w with
  | put batch => exact AccrualTables.put_extends h batch
  | mark keys status settledTxnId =>
    simp only [run]
    induction keys generalizing j with
    | nil => exact h
    | cons key keys ih => exact ih (AccrualTables.markOne_extends h status settledTxnId key)

end AccrualWrite

/-! ## Idempotency keys -/

/-- The committed keys with their transactions, and the birth time of every key. -/
structure IdempotencyRows where
  committed : Shelf String Transaction
  bornAt : OrderedTable String Int

inductive IdempotencyWrite
  | claim (key : String)
  | record (key : String) (transaction : Transaction)
  | deleteOlderThan (cutoffMs : Int) (limit : Nat)

namespace IdempotencyRows

/-- A key is born when it is first claimed or recorded. -/
def birth (now : Int) (key : String) (t : IdempotencyRows) : OrderedTable String Int :=
  if t.bornAt.has key then t.bornAt else t.bornAt.set key now

def unbirth (hadAt : Bool) (key : String) (t : IdempotencyRows) : OrderedTable String Int :=
  if hadAt then t.bornAt else t.bornAt.delete key

/-- A committed key answers its transaction, and nothing is written. -/
def claim (now : Int) (key : String) (j : Journaled IdempotencyRows) : Journaled IdempotencyRows :=
  match j.rows.committed.look key with
  | some _ => j
  | none =>
    let hadAt := j.rows.bornAt.has key
    j.write { j.rows with bornAt := birth now key j.rows }
      fun t => { t with bornAt := unbirth hadAt key t }

def record (now : Int) (key : String) (transaction : Transaction) (j : Journaled IdempotencyRows) :
    Journaled IdempotencyRows :=
  let hadAt := j.rows.bornAt.has key
  j.write ⟨j.rows.committed.put key transaction, birth now key j.rows⟩
    fun t => ⟨t.committed.delete key, unbirth hadAt key t⟩

/-- The oldest keys born before the cutoff. -/
def due (cutoffMs : Int) (limit : Nat) (t : IdempotencyRows) : List (String × Int) :=
  ((t.bornAt.entries.filter (·.2 < cutoffMs)).insertionSort fun a b => a.2 ≤ b.2).take limit

def forget (t : IdempotencyRows) (row : String × Int) : IdempotencyRows :=
  ⟨t.committed.delete row.1, t.bornAt.delete row.1⟩

/-- Housekeeping: nothing is journaled. -/
def deleteOlderThan (cutoffMs : Int) (limit : Nat) (j : Journaled IdempotencyRows) :
    Journaled IdempotencyRows :=
  { j with rows := (due cutoffMs limit j.rows).foldl forget j.rows }

structure Near (start cur t : IdempotencyRows) : Prop where
  committed : Shelf.Near start.committed cur.committed t.committed
  bornAt : t.bornAt = cur.bornAt

structure Kept (j₀ j : Journaled IdempotencyRows) : Prop where
  recoils : Recoils (Near j₀.rows) j₀ j
  now : Near j₀.rows j.rows j.rows

theorem Kept.refl {j : Journaled IdempotencyRows} (h : j.rows.committed.Allocated) : Kept j j :=
  ⟨Recoils.refl _ _, h.near, rfl⟩

theorem unbirth_birth (now : Int) (key : String) {t cur : IdempotencyRows}
    (h : t.bornAt = birth now key cur) : unbirth (cur.bornAt.has key) key t = cur.bornAt := by
  unfold unbirth
  rw [h, birth]
  cases hkey : cur.bornAt.get key with
  | some at_ => simp [OrderedTable.has, hkey]
  | none => simp [OrderedTable.has, hkey, delete_set hkey]

end IdempotencyRows

namespace IdempotencyWrite

open IdempotencyRows

def run (now : Int) : IdempotencyWrite → Journaled IdempotencyRows → Journaled IdempotencyRows
  | claim key => IdempotencyRows.claim now key
  | record key transaction => IdempotencyRows.record now key transaction
  | deleteOlderThan cutoffMs limit => IdempotencyRows.deleteOlderThan cutoffMs limit

/-- A key recorded in the unit was not committed before it, and housekeeping finds nothing due. -/
def Reversible (start cur : IdempotencyRows) : IdempotencyWrite → Prop
  | claim _ => True
  | record key _ => start.committed.look key = none
  | deleteOlderThan cutoffMs limit => due cutoffMs limit cur = []

variable {j₀ j : Journaled IdempotencyRows}

theorem claim_kept (h : Kept j₀ j) (now : Int) (key : String) :
    Kept j₀ (IdempotencyRows.claim now key j) := by
  unfold IdempotencyRows.claim
  split
  · exact h
  · exact ⟨h.recoils.write fun t ht => ⟨ht.committed, unbirth_birth now key ht.bornAt⟩,
      h.now.committed, rfl⟩

theorem record_kept (h : Kept j₀ j) (now : Int) (key : String) (transaction : Transaction)
    (hkey : j₀.rows.committed.look key = none) :
    Kept j₀ (IdempotencyRows.record now key transaction j) := by
  have hrow : j₀.rows.committed.rows.get key = none := by
    simpa [Shelf.look] using hkey
  exact ⟨h.recoils.write fun t ht =>
      ⟨ht.committed.put_undo hrow, unbirth_birth now key ht.bornAt⟩,
    h.now.committed.put_now, rfl⟩

theorem run_kept (h : Kept j₀ j) (now : Int) (w : IdempotencyWrite)
    (hw : w.Reversible j₀.rows j.rows) : Kept j₀ (w.run now j) := by
  cases w with
  | claim key => exact claim_kept h now key
  | record key transaction => exact record_kept h now key transaction hw
  | deleteOlderThan cutoffMs limit =>
    have hdue : due cutoffMs limit j.rows = [] := hw
    simp only [run, IdempotencyRows.deleteOlderThan, hdue, List.foldl_nil]
    exact h

theorem forget_allocated {t : IdempotencyRows} (h : t.committed.Allocated)
    (rows : List (String × Int)) : (rows.foldl forget t).committed.Allocated := by
  induction rows generalizing t with
  | nil => exact h
  | cons row rows ih => exact ih (h.delete row.1)

theorem run_allocated (now : Int) (w : IdempotencyWrite) (h : j.rows.committed.Allocated) :
    (w.run now j).rows.committed.Allocated := by
  cases w with
  | claim key =>
    simp only [run, IdempotencyRows.claim]
    split
    · exact h
    · exact h
  | record key transaction => exact h.put key transaction
  | deleteOlderThan cutoffMs limit => exact forget_allocated h _

theorem run_recording (now : Int) (w : IdempotencyWrite) (j : Journaled IdempotencyRows) :
    (w.run now j).recording = j.recording := by
  cases w with
  | claim key =>
    simp only [run, IdempotencyRows.claim]
    split
    · rfl
    · exact write_recording _ _ _
  | record key transaction => exact write_recording _ _ _
  | deleteOlderThan cutoffMs limit => rfl

end IdempotencyWrite

inductive LedgerWrite
  | append (posting : Posting)
  | prune (txnIds : List String)

namespace LedgerWrite

def run (digest : Digest) (now : Int) : LedgerWrite → MemoryLedger → MemoryLedger
  | append posting, l => (EconomyLab.append digest now posting l).2
  | prune txnIds, l => pruneFromLog txnIds l

/-- The reversers lead back, and the index rows they rely on are not empty. -/
structure Kept (l₀ l : MemoryLedger) : Prop where
  book : l₀.book.Extends l.book
  lots : NoEmptyLots l.tables.lotIndexByAccount
  columns : CompactColumns l.tables.deltaColumns

theorem run_kept {l₀ l : MemoryLedger} (h : Kept l₀ l) (digest : Digest) (now : Int) (w : LedgerWrite) :
    Kept l₀ (w.run digest now l) := by
  cases w with
  | append posting =>
    simp only [run]
    cases append_cases digest now posting l with
    | inl hfail =>
      obtain ⟨e, -, hbook⟩ := hfail
      exact ⟨hbook ▸ h.book, by rw [MemoryLedger.tables, hbook]; exact h.lots,
        by rw [MemoryLedger.tables, hbook]; exact h.columns⟩
    | inr hdone =>
      obtain ⟨row, next, -, hnext, -, -, -, hrun⟩ := hdone
      rw [hrun]
      refine ⟨h.book.trans (.write l.book (undoPosting_applyPosting h.lots h.columns hnext)), ?_, ?_⟩
      · exact (foldl_pushLot h.lots _ _).1
      · exact (foldl_appendDelta h.columns _).1
  | prune txnIds =>
    simp only [run, pruneFromLog]
    split
    · exact h
    · exact ⟨h.book.trans (.write l.book rfl), (lotsOfLog_spec _).1, (columnsOfLog_spec _).1⟩

end LedgerWrite

end EconomyLab
