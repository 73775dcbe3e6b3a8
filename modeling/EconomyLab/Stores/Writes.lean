import EconomyLab.Stores.Rows
import EconomyLab.Stores.Units

/-!
# Writes through a unit

The methods of the row stores as steps of a transaction's work, with the ids and clock
readings a handler takes on the way.
-/

namespace EconomyLab

open Foundation

namespace World.Extends

variable {w : World} (h : w.Sound)
include h

theorem withSubscriptions {j : Journaled (OrderedTable String Subscription)}
    (hj : w.subscriptions.Extends j) : w.Extends { w with subscriptions := j } :=
  { refl h with subscriptions := hj, sound := ⟨h.lots, h.columns⟩ }

theorem withEntitlements {j : Journaled (OrderedTable String EntitlementRow)}
    (hj : w.entitlements.Extends j) : w.Extends { w with entitlements := j } :=
  { refl h with entitlements := hj, sound := ⟨h.lots, h.columns⟩ }

theorem withAccruals {j : Journaled AccrualTables} (hj : w.accruals.Extends j) :
    w.Extends { w with accruals := j } :=
  { refl h with accruals := hj, sound := ⟨h.lots, h.columns⟩ }

theorem withSales {j : Journaled (OrderedTable String Sale)} (hj : w.sales.Extends j) :
    w.Extends { w with sales := j } :=
  { refl h with sales := hj, sound := ⟨h.lots, h.columns⟩ }

theorem withSagas {j : Journaled SagaTables} (hj : w.sagas.Extends j) :
    w.Extends { w with sagas := j } :=
  { refl h with sagas := hj, sound := ⟨h.lots, h.columns⟩ }

theorem withPromos {j : Journaled (OrderedTable String PromoGrant)} (hj : w.promos.Extends j) :
    w.Extends { w with promos := j } :=
  { refl h with promos := hj, sound := ⟨h.lots, h.columns⟩ }

theorem withOutbox {j : Journaled OutboxTables} (hj : w.outbox.Extends j) (ticks : Nat) :
    w.Extends { w with outbox := j, ticks := ticks } :=
  { refl h with outbox := hj, sound := ⟨h.lots, h.columns⟩ }

theorem withMinted (minted : Nat) : w.Extends { w with minted := minted } :=
  { refl h with sound := ⟨h.lots, h.columns⟩ }

end World.Extends

namespace Txn

def mint (env : Env) (kind : String) : Txn String where
  run w := (.ok (kind ++ "_" ++ env.uuid w.minted), { w with minted := w.minted + 1 })
  undoable _ h := .withMinted h _

/-- The due date moves only from the one the caller expects. -/
def markBilled (id : String) (nextDueAt expectedDueAt : Int) : Txn Bool where
  run w :=
    (.ok ((w.subscriptions.rows.get id).any (·.nextDueAt = expectedDueAt)),
      { w with
        subscriptions := (SubscriptionWrite.markBilled id nextDueAt expectedDueAt).run w.subscriptions })
  undoable _ h := .withSubscriptions h (SubscriptionWrite.run_extends (.refl _) _)

def subscription (write : SubscriptionWrite) : Txn Unit where
  run w := (.ok (), { w with subscriptions := write.run w.subscriptions })
  undoable _ h := .withSubscriptions h (SubscriptionWrite.run_extends (.refl _) write)

def entitlement (write : EntitlementWrite) : Txn Unit where
  run w := (.ok (), { w with entitlements := write.run w.entitlements })
  undoable _ h := .withEntitlements h (EntitlementWrite.run_extends (.refl _) write)

def sale (write : SaleWrite) : Txn Unit where
  run w := (.ok (), { w with sales := write.run w.sales })
  undoable _ h := .withSales h (SaleWrite.run_extends (.refl _) write)

def saga (write : SagaWrite) : Txn Unit where
  run w := (.ok (), { w with sagas := write.run w.sagas })
  undoable _ h := .withSagas h (SagaWrite.run_extends (.refl _) write)

/-- The state moves only from the one the caller expects. -/
def advanceSaga (id : String) (source target : SagaState) (patch : Saga → Saga) : Txn Bool where
  run w :=
    (.ok ((w.sagas.rows.rows.get id).any (·.state = source)),
      { w with sagas := (SagaWrite.advance id source target patch).run w.sagas })
  undoable _ h := .withSagas h (SagaWrite.run_extends (.refl _) _)

def promo (write : PromoWrite) : Txn Unit where
  run w := (.ok (), { w with promos := write.run w.promos })
  undoable _ h := .withPromos h (PromoWrite.run_extends (.refl _) write)

/-- The first row of a batch whose key is taken; the rows before it are written. -/
def firstTaken : List AccrualRow → OrderedTable String AccrualRow → Option AccrualRow
  | [], _ => none
  | row :: batch, rows => if rows.has row.key then some row else firstTaken batch (rows.set row.key row)

def putAccruals (batch : List AccrualRow) : Txn Unit where
  run w :=
    (match firstTaken batch w.accruals.rows.rows with
      | some row => .error (plainError ("duplicate accrual row: " ++ row.key))
      | none => .ok (),
      { w with accruals := (AccrualWrite.put batch).run w.accruals })
  undoable _ h := .withAccruals h (AccrualWrite.run_extends (.refl _) _)

def markAccruals (keys : List (String × String × Nat)) (status : AccrualStatus) (settledTxnId : String) :
    Txn Unit where
  run w := (.ok (), { w with accruals := (AccrualWrite.mark keys status settledTxnId).run w.accruals })
  undoable _ h := .withAccruals h (AccrualWrite.run_extends (.refl _) _)

/-- Messages carry minted ids, so the reverser's deletes restore what was there. -/
def OutboxTables.enqueue (now : Int) (message : OutboxMessage) (j : Journaled OutboxTables) :
    Journaled OutboxTables :=
  j.write ⟨j.rows.rows.set message.id message, j.rows.order ++ [message.id],
      j.rows.enqueuedAt.set message.id now⟩
    fun t => ⟨t.rows.restore message.id (j.rows.rows.get message.id), t.order.dropLast,
      t.enqueuedAt.restore message.id (j.rows.enqueuedAt.get message.id)⟩

theorem enqueue_extends (now : Int) (message : OutboxMessage) (j : Journaled OutboxTables) :
    j.Extends (OutboxTables.enqueue now message j) := by
  apply Journaled.Extends.write
  have htimes : (j.rows.enqueuedAt.set message.id now).restore message.id
      (j.rows.enqueuedAt.get message.id) = j.rows.enqueuedAt := by
    ext1 k
    by_cases hk : k = message.id
    · simp [hk]
    · simp [hk]
  simp only [OrderedTable.restore_set, List.dropLast_concat, htimes]

def enqueue (env : Env) (message : OutboxMessage) : Txn Unit where
  run w := (.ok (), { w with
    outbox := OutboxTables.enqueue (env.clock w.ticks) message w.outbox
    ticks := w.ticks + 1 })
  undoable w h := .withOutbox h (enqueue_extends _ _ w.outbox) _

/-- An event as a handler builds it, before its id and time are filled in. -/
structure EventDraft where
  type : String
  subject : String
  data : Meta
  audience : String

/-- `pendingOutbox(ids, event)`, enqueued. -/
def emit (env : Env) (draft : EventDraft) : Txn Unit := do
  let id ← mint env "evt"
  let occurredAt ← now env
  let messageId ← mint env "obx"
  enqueue env ⟨messageId, ⟨id, draft.type, 1, occurredAt, draft.subject, draft.data, draft.audience⟩,
    .pending, 0, none, none⟩

end Txn

end EconomyLab
