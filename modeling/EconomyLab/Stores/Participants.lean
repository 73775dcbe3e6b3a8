import EconomyLab.Foundation.Runs
import EconomyLab.Stores.Mailboxes
import EconomyLab.Stores.Rows
import EconomyLab.Stores.Velocity

/-!
# Transactions and batches over all participating stores

Every store that joins transactions has its own journal. A transaction opens all of them and
a failing one rolls all of them back; a batch opens them once and marks them for each item.
-/

namespace EconomyLab

open Foundation Journaled

/-- The members of a transaction's unit, in the order of `Object.values(unit)`. -/
structure Participants (Op : Type) where
  ledger : MemoryLedger
  idempotency : Journaled IdempotencyRows
  sales : Journaled (OrderedTable String Sale)
  outbox : Journaled OutboxRows
  inbox : Journaled (InboxRows Op)
  sagas : Journaled SagaTables
  entitlements : Journaled (OrderedTable String EntitlementRow)
  subscriptions : Journaled (OrderedTable String Subscription)
  promos : Journaled (OrderedTable String PromoGrant)
  trust : Journaled TrustTables
  accruals : Journaled AccrualTables

/-- What `memoryStore` is given. -/
structure MemoryDeps where
  digest : Digest
  velocityWindowMs : Int

inductive UnitWrite (Op : Type)
  | ledger (w : LedgerWrite)
  | idempotency (w : IdempotencyWrite)
  | sales (w : SaleWrite)
  | outbox (w : OutboxWrite)
  | inbox (w : InboxWrite Op)
  | sagas (w : SagaWrite)
  | entitlements (w : EntitlementWrite)
  | subscriptions (w : SubscriptionWrite)
  | promos (w : PromoWrite)
  | trust (w : TrustWrite)
  | accruals (w : AccrualWrite)

structure StoreCall (Op : Type) where
  now : Int
  write : UnitWrite Op

namespace Participants

variable {Op : Type}

def memoryStore : Participants Op where
  ledger := createLedgerStore
  idempotency := ⟨⟨Shelf.empty, OrderedTable.empty⟩, none⟩
  sales := ⟨OrderedTable.empty, none⟩
  outbox := ⟨Mailbox.empty Table.empty, none⟩
  inbox := ⟨Mailbox.empty Table.empty, none⟩
  sagas := ⟨⟨OrderedTable.empty, Table.empty⟩, none⟩
  entitlements := ⟨OrderedTable.empty, none⟩
  subscriptions := ⟨OrderedTable.empty, none⟩
  promos := ⟨OrderedTable.empty, none⟩
  trust := ⟨⟨Table.empty, []⟩, none⟩
  accruals := ⟨⟨OrderedTable.empty, []⟩, none⟩

/-- The same step on every journal. -/
def each (f : ∀ {σ : Type}, Journaled σ → Journaled σ) (s : Participants Op) : Participants Op where
  ledger := { s.ledger with book := f s.ledger.book }
  idempotency := f s.idempotency
  sales := f s.sales
  outbox := f s.outbox
  inbox := f s.inbox
  sagas := f s.sagas
  entitlements := f s.entitlements
  subscriptions := f s.subscriptions
  promos := f s.promos
  trust := f s.trust
  accruals := f s.accruals

/-- Every journal begins. The queue lets one transaction run at a time, so none is open. -/
def opened (s : Participants Op) : Participants Op := s.each fun j => { j with undos := some [] }

def commitAll (s : Participants Op) : Participants Op := s.each Journaled.commit

def rollbackAll (s : Participants Op) : Participants Op := s.each Journaled.rollback

/-- Every journal rolls back to the mark it had in `marked`. -/
def rollbackTo (marked s : Participants Op) : Participants Op where
  ledger := { s.ledger with book := s.ledger.book.rollbackTo marked.ledger.book.mark }
  idempotency := s.idempotency.rollbackTo marked.idempotency.mark
  sales := s.sales.rollbackTo marked.sales.mark
  outbox := s.outbox.rollbackTo marked.outbox.mark
  inbox := s.inbox.rollbackTo marked.inbox.mark
  sagas := s.sagas.rollbackTo marked.sagas.mark
  entitlements := s.entitlements.rollbackTo marked.entitlements.mark
  subscriptions := s.subscriptions.rollbackTo marked.subscriptions.mark
  promos := s.promos.rollbackTo marked.promos.mark
  trust := s.trust.rollbackTo marked.trust.mark
  accruals := s.accruals.rollbackTo marked.accruals.mark

def write (deps : MemoryDeps) (s : Participants Op) (c : StoreCall Op) : Participants Op :=
  match c.write with
  | .ledger w => { s with ledger := w.run deps.digest c.now s.ledger }
  | .idempotency w => { s with idempotency := w.run c.now s.idempotency }
  | .sales w => { s with sales := w.run s.sales }
  | .outbox w => { s with outbox := w.run c.now s.outbox }
  | .inbox w => { s with inbox := w.run s.inbox }
  | .sagas w => { s with sagas := w.run s.sagas }
  | .entitlements w => { s with entitlements := w.run s.entitlements }
  | .subscriptions w => { s with subscriptions := w.run s.subscriptions }
  | .promos w => { s with promos := w.run s.promos }
  | .trust w => { s with trust := w.run deps.velocityWindowMs c.now s.trust }
  | .accruals w => { s with accruals := w.run s.accruals }

/-! ## What a rollback gives back -/

/-- Every read of every store answers as it did in `s`; velocity is read at the time `latest` or
after it. Of the stores compared table by table, each read is a function of its tables. -/
structure Restored (deps : MemoryDeps) (latest : Int) (s s' : Participants Op) : Prop where
  ledger : s'.ledger.tables = s.ledger.tables
  committed : s'.idempotency.rows.committed.contents = s.idempotency.rows.committed.contents
  bornAt : s'.idempotency.rows.bornAt = s.idempotency.rows.bornAt
  sales : s'.sales.rows = s.sales.rows
  outboxSize : OutboxRows.size s'.outbox.rows = OutboxRows.size s.outbox.rows
  claimBatch : ∀ limit,
    OutboxRows.claimBatch limit s'.outbox.rows = OutboxRows.claimBatch limit s.outbox.rows
  outboxStats : ∀ now, OutboxRows.stats now s'.outbox.rows = OutboxRows.stats now s.outbox.rows
  claimInbound : ∀ limit,
    InboxRows.claimInbound limit s'.inbox.rows = InboxRows.claimInbound limit s.inbox.rows
  received : ∀ key, InboxRows.received key s'.inbox.rows = InboxRows.received key s.inbox.rows
  deadRows : InboxRows.deadRows s'.inbox.rows = InboxRows.deadRows s.inbox.rows
  sagas : s'.sagas.rows = s.sagas.rows
  entitlements : s'.entitlements.rows = s.entitlements.rows
  subscriptions : s'.subscriptions.rows = s.subscriptions.rows
  promos : s'.promos.rows = s.promos.rows
  seenAttempts : s'.trust.rows.seenAttempts = s.trust.rows.seenAttempts
  velocity : ∀ now subject, latest ≤ now →
    s'.trust.rows.read deps.velocityWindowMs now subject =
      s.trust.rows.read deps.velocityWindowMs now subject
  accruals : s'.accruals.rows = s.accruals.rows

/-- What the writes since `s₀` have recorded leads back to it. -/
structure Kept (floor : Int) (s₀ s : Participants Op) : Prop where
  ledger : LedgerWrite.Kept s₀.ledger s.ledger
  idempotency : IdempotencyRows.Kept s₀.idempotency s.idempotency
  sales : s₀.sales.Extends s.sales
  outbox : OutboxWrite.Kept s₀.outbox s.outbox
  inbox : InboxWrite.Kept s₀.inbox s.inbox
  sagas : s₀.sagas.Extends s.sagas
  entitlements : s₀.entitlements.Extends s.entitlements
  subscriptions : s₀.subscriptions.Extends s.subscriptions
  promos : s₀.promos.Extends s.promos
  trust : TrustTables.Kept floor s₀.trust s.trust
  accruals : s₀.accruals.Extends s.accruals

/-- What every reachable store satisfies. -/
structure Sound (s : Participants Op) : Prop where
  lots : NoEmptyLots s.ledger.tables.lotIndexByAccount
  columns : CompactColumns s.ledger.tables.deltaColumns
  idempotency : s.idempotency.rows.committed.Allocated
  outbox : s.outbox.rows.rows.Allocated
  inbox : s.inbox.rows.rows.Allocated
  trust : s.trust.rows.Counted

/-- The call is one whose reverser leads back to `s₀`; all but three stores have no other. -/
def Reversible (s₀ s : Participants Op) (c : StoreCall Op) : Prop :=
  match c.write with
  | .idempotency w => w.Reversible s₀.idempotency.rows s.idempotency.rows
  | .outbox w => w.Reversible s₀.outbox.rows s.outbox.rows
  | .inbox w => w.Reversible s₀.inbox.rows s.inbox.rows
  | _ => True

variable {deps : MemoryDeps} {floor : Int} {s s₀ s' : Participants Op}

theorem Sound.kept (h : s.Sound) (floor : Int) : Kept floor s s where
  ledger := ⟨.refl _, h.lots, h.columns⟩
  idempotency := .refl h.idempotency
  sales := .refl _
  outbox := .refl h.outbox fun _ _ _ => rfl
  inbox := .refl h.inbox fun _ => rfl
  sagas := .refl _
  entitlements := .refl _
  subscriptions := .refl _
  promos := .refl _
  trust := ⟨.refl _ _, h.trust⟩
  accruals := .refl _

theorem Kept.write (h : Kept floor s₀ s)
    {c : StoreCall Op} (hfloor : c.now - deps.velocityWindowMs ≤ floor) (hc : Reversible s₀ s c) :
    Kept floor s₀ (s.write deps c) := by
  obtain ⟨now, w⟩ := c
  cases w with
  | ledger w => exact { h with ledger := w.run_kept h.ledger deps.digest now }
  | idempotency w => exact { h with idempotency := w.run_kept h.idempotency now hc }
  | sales w => exact { h with sales := w.run_extends h.sales }
  | outbox w => exact { h with outbox := w.run_kept h.outbox now hc }
  | inbox w => exact { h with inbox := w.run_kept h.inbox hc }
  | sagas w => exact { h with sagas := w.run_extends h.sagas }
  | entitlements w => exact { h with entitlements := w.run_extends h.entitlements }
  | subscriptions w => exact { h with subscriptions := w.run_extends h.subscriptions }
  | promos w => exact { h with promos := w.run_extends h.promos }
  | trust w => exact { h with trust := w.run_kept h.trust hfloor }
  | accruals w => exact { h with accruals := w.run_extends h.accruals }

structure Recording (s : Participants Op) : Prop where
  ledger : s.ledger.book.recording = true
  idempotency : s.idempotency.recording = true
  sales : s.sales.recording = true
  outbox : s.outbox.recording = true
  inbox : s.inbox.recording = true
  sagas : s.sagas.recording = true
  entitlements : s.entitlements.recording = true
  subscriptions : s.subscriptions.recording = true
  promos : s.promos.recording = true
  trust : s.trust.recording = true
  accruals : s.accruals.recording = true

theorem opened_recording (s : Participants Op) : s.opened.Recording :=
  ⟨rfl, rfl, rfl, rfl, rfl, rfl, rfl, rfl, rfl, rfl, rfl⟩

/-- Any call, reversible or not, keeps what every reachable store satisfies. -/
theorem Sound.write (h : s.Sound) (deps : MemoryDeps) (c : StoreCall Op) : (s.write deps c).Sound := by
  obtain ⟨now, w⟩ := c
  cases w with
  | ledger w =>
    have hkept := @LedgerWrite.run_kept s.ledger s.ledger ⟨.refl _, h.lots, h.columns⟩ deps.digest now w
    exact { h with lots := hkept.lots, columns := hkept.columns }
  | idempotency w => exact { h with idempotency := w.run_allocated now h.idempotency }
  | outbox w => exact { h with outbox := (w.run_steady now s.outbox).allocated h.outbox }
  | inbox w => exact { h with inbox := (w.run_steady s.inbox).allocated h.inbox }
  | trust w => exact { h with trust := w.run_counted h.trust }
  | sales w => exact { h with }
  | sagas w => exact { h with }
  | entitlements w => exact { h with }
  | subscriptions w => exact { h with }
  | promos w => exact { h with }
  | accruals w => exact { h with }

theorem Recording.write (h : s.Recording) (hs : s.Sound) (deps : MemoryDeps)
    (c : StoreCall Op) : (s.write deps c).Recording := by
  obtain ⟨now, w⟩ := c
  cases w with
  | ledger w =>
    have hkept := @LedgerWrite.run_kept s.ledger s.ledger ⟨.refl _, hs.lots, hs.columns⟩ deps.digest now w
    exact { h with ledger := hkept.book.recording_eq.trans h.ledger }
  | idempotency w => exact { h with idempotency := (w.run_recording now _).trans h.idempotency }
  | outbox w => exact { h with outbox := (w.run_steady now _).recording.trans h.outbox }
  | inbox w => exact { h with inbox := (w.run_steady _).recording.trans h.inbox }
  | trust w => exact { h with trust := (w.run_recording _ now _).trans h.trust }
  | sales w => exact { h with sales := (w.run_extends (.refl _)).recording_eq.trans h.sales }
  | sagas w => exact { h with sagas := (w.run_extends (.refl _)).recording_eq.trans h.sagas }
  | entitlements w =>
    exact { h with entitlements := (w.run_extends (.refl _)).recording_eq.trans h.entitlements }
  | subscriptions w =>
    exact { h with subscriptions := (w.run_extends (.refl _)).recording_eq.trans h.subscriptions }
  | promos w => exact { h with promos := (w.run_extends (.refl _)).recording_eq.trans h.promos }
  | accruals w =>
    exact { h with accruals := (w.run_extends (.refl _)).recording_eq.trans h.accruals }

theorem Recording.rollbackTo (h : s.Recording) (marked : Participants Op) :
    (marked.rollbackTo s).Recording where
  ledger := (rollbackTo_recording _ _).trans h.ledger
  idempotency := (rollbackTo_recording _ _).trans h.idempotency
  sales := (rollbackTo_recording _ _).trans h.sales
  outbox := (rollbackTo_recording _ _).trans h.outbox
  inbox := (rollbackTo_recording _ _).trans h.inbox
  sagas := (rollbackTo_recording _ _).trans h.sagas
  entitlements := (rollbackTo_recording _ _).trans h.entitlements
  subscriptions := (rollbackTo_recording _ _).trans h.subscriptions
  promos := (rollbackTo_recording _ _).trans h.promos
  trust := (rollbackTo_recording _ _).trans h.trust
  accruals := (rollbackTo_recording _ _).trans h.accruals

/-- Rows that may stand for the rows of `s`, store by store. -/
structure Near (floor : Int) (s s' : Participants Op) : Prop where
  ledger : s.ledger.tables = s'.ledger.tables
  idempotency : IdempotencyRows.Near s.idempotency.rows s.idempotency.rows s'.idempotency.rows
  sales : s.sales.rows = s'.sales.rows
  outbox : Mailbox.Near (OutboxRows.SameTimes s.outbox.rows) s.outbox.rows s.outbox.rows s'.outbox.rows
  inbox : Mailbox.Near Eq s.inbox.rows s.inbox.rows s'.inbox.rows
  sagas : s.sagas.rows = s'.sagas.rows
  entitlements : s.entitlements.rows = s'.entitlements.rows
  subscriptions : s.subscriptions.rows = s'.subscriptions.rows
  promos : s.promos.rows = s'.promos.rows
  trust : TrustTables.Near floor s.trust.rows s'.trust.rows
  accruals : s.accruals.rows = s'.accruals.rows

theorem Near.restored {latest : Int} (hs : s.Sound)
    (h : Near (latest - deps.velocityWindowMs) s s') : Restored deps latest s s' := by
  obtain ⟨hsize, hclaim, hstats⟩ := OutboxRows.reads_eq (h.outbox.reads hs.outbox) hs.outbox
  obtain ⟨hinbound, hreceived, hdead⟩ := InboxRows.reads_eq (h.inbox.reads hs.inbox)
  exact {
    ledger := h.ledger.symm
    committed := h.idempotency.committed.contents_eq hs.idempotency
    bornAt := h.idempotency.bornAt
    sales := h.sales.symm
    outboxSize := hsize
    claimBatch := hclaim
    outboxStats := hstats
    claimInbound := hinbound
    received := hreceived
    deadRows := hdead
    sagas := h.sagas.symm
    entitlements := h.entitlements.symm
    subscriptions := h.subscriptions.symm
    promos := h.promos.symm
    seenAttempts := h.trust.seen
    velocity := fun now subject hle => h.trust.read_eq hs.trust (by omega) subject
    accruals := h.accruals.symm }

theorem Near.sound (hs : s.Sound) (h : Near floor s s') : s'.Sound where
  lots := h.ledger ▸ hs.lots
  columns := h.ledger ▸ hs.columns
  idempotency := h.idempotency.committed.allocated
  outbox := h.outbox.rows.allocated
  inbox := h.inbox.rows.allocated
  trust := h.trust.counted hs.trust

/-- A savepoint rolls back to what may stand for the rows at its mark. -/
theorem Kept.rollbackTo (h : Kept floor s₀ s)
    (hopen : s₀.Recording) : Near floor s₀ (s₀.rollbackTo s) where
  ledger := (h.ledger.book.recoils.rollbackTo hopen.ledger rfl).1
  idempotency := (h.idempotency.recoils.rollbackTo hopen.idempotency h.idempotency.now).1
  sales := (h.sales.recoils.rollbackTo hopen.sales rfl).1
  outbox := (h.outbox.recoils.rollbackTo hopen.outbox h.outbox.now).1
  inbox := (h.inbox.recoils.rollbackTo hopen.inbox h.inbox.now).1
  sagas := (h.sagas.recoils.rollbackTo hopen.sagas rfl).1
  entitlements := (h.entitlements.recoils.rollbackTo hopen.entitlements rfl).1
  subscriptions := (h.subscriptions.recoils.rollbackTo hopen.subscriptions rfl).1
  promos := (h.promos.recoils.rollbackTo hopen.promos rfl).1
  trust := (h.trust.recoils.rollbackTo hopen.trust (h.trust.counted.near floor)).1
  accruals := (h.accruals.recoils.rollbackTo hopen.accruals rfl).1

theorem Kept.rollbackAll (h : Kept floor s.opened s') : Near floor s s'.rollbackAll where
  ledger := (h.ledger.book.recoils.rollback rfl).1
  idempotency := (h.idempotency.recoils.rollback h.idempotency.now).1
  sales := (h.sales.recoils.rollback rfl).1
  outbox := (h.outbox.recoils.rollback h.outbox.now).1
  inbox := (h.inbox.recoils.rollback h.inbox.now).1
  sagas := (h.sagas.recoils.rollback rfl).1
  entitlements := (h.entitlements.recoils.rollback rfl).1
  subscriptions := (h.subscriptions.recoils.rollback rfl).1
  promos := (h.promos.recoils.rollback rfl).1
  trust := (h.trust.recoils.rollback (h.trust.counted.near floor)).1
  accruals := (h.accruals.recoils.rollback rfl).1

theorem Kept.calls {calls : List (StoreCall Op)} (h : Kept floor s₀ s)
    (hfloor : ∀ c ∈ calls, c.now - deps.velocityWindowMs ≤ floor)
    (hcalls : RunMeets (Participants.write deps) (Reversible s₀) s calls) :
    Kept floor s₀ (calls.foldl (Participants.write deps) s) := by
  induction calls generalizing s with
  | nil => exact h
  | cons c calls ih =>
    exact ih (h.write (hfloor c (by simp)) hcalls.1) (fun c' hc => hfloor c' (by simp [hc])) hcalls.2

theorem Sound.calls (h : s.Sound) (deps : MemoryDeps)
    (calls : List (StoreCall Op)) : (calls.foldl (Participants.write deps) s).Sound := by
  induction calls generalizing s with
  | nil => exact h
  | cons c calls ih => exact ih (h.write deps c)

theorem Recording.calls (h : s.Recording) (hs : s.Sound) (deps : MemoryDeps)
    (calls : List (StoreCall Op)) : (calls.foldl (Participants.write deps) s).Recording := by
  induction calls generalizing s with
  | nil => exact h
  | cons c calls ih => exact ih (h.write hs deps c) (hs.write deps c)

/-! ## Runs -/

/-- One work of a batch: the calls it makes before it ends, and whether it throws. -/
structure BatchItem (Op : Type) where
  calls : List (StoreCall Op)
  fails : Bool

inductive Episode (Op : Type)
  | direct (c : StoreCall Op)
  | transaction (calls : List (StoreCall Op)) (fails : Bool)
  | batch (items : List (BatchItem Op))

def batchItem (deps : MemoryDeps) (s : Participants Op) (item : BatchItem Op) : Participants Op :=
  let s' := item.calls.foldl (write deps) s
  if item.fails then s.rollbackTo s' else s'

def play (deps : MemoryDeps) (s : Participants Op) : Episode Op → Participants Op
  | .direct c => s.write deps c
  | .transaction calls fails =>
    let s' := calls.foldl (write deps) s.opened
    if fails then s'.rollbackAll else s'.commitAll
  | .batch items => (items.foldl (batchItem deps) s.opened).commitAll

/-- From the last clock reading of the calls on, every read answers as before them. -/
def TakenBack (deps : MemoryDeps) (calls : List (StoreCall Op)) (s s' : Participants Op) : Prop :=
  ∀ latest, (∀ c ∈ calls, c.now ≤ latest) → Restored deps latest s s'

/-- A failing transaction is taken back as a whole, and a failing batch item to the state the
items before it had left. -/
def RollsBack (deps : MemoryDeps) (s : Participants Op) : Episode Op → Prop
  | .direct _ => True
  | .transaction calls fails =>
    fails = true → TakenBack deps calls s (play deps s (.transaction calls fails))
  | .batch items =>
    RunMeets (batchItem deps)
      (fun s item => item.fails = true → TakenBack deps item.calls s (batchItem deps s item))
      s.opened items

/-- Every call of a failing transaction or item can be reversed to where it began. -/
def AllReversible (deps : MemoryDeps) (s : Participants Op) : Episode Op → Prop
  | .direct _ => True
  | .transaction calls fails =>
    fails = true → RunMeets (write deps) (Reversible s) s.opened calls
  | .batch items =>
    RunMeets (batchItem deps)
      (fun s item => item.fails = true → RunMeets (write deps) (Reversible s) s item.calls)
      s.opened items

theorem memoryStore_sound : (memoryStore : Participants Op).Sound where
  lots := by simp [NoEmptyLots, memoryStore, createLedgerStore, MemoryLedger.tables, LedgerTables.empty]
  columns := ⟨by simp [memoryStore, createLedgerStore, MemoryLedger.tables, LedgerTables.empty],
    by simp [memoryStore, createLedgerStore, MemoryLedger.tables, LedgerTables.empty]⟩
  idempotency := Shelf.Allocated.empty
  outbox := Shelf.Allocated.empty
  inbox := Shelf.Allocated.empty
  trust := by
    constructor
    · intro subject
      exact ⟨Nat.le_refl _, rfl⟩
    · intro subject a ha
      cases ha

theorem Sound.each_rows (h : s.Sound) (hledger : s'.ledger.tables = s.ledger.tables)
    (hidempotency : s'.idempotency.rows = s.idempotency.rows)
    (houtbox : s'.outbox.rows = s.outbox.rows) (hinbox : s'.inbox.rows = s.inbox.rows)
    (htrust : s'.trust.rows = s.trust.rows) : s'.Sound where
  lots := hledger ▸ h.lots
  columns := hledger ▸ h.columns
  idempotency := hidempotency ▸ h.idempotency
  outbox := houtbox ▸ h.outbox
  inbox := hinbox ▸ h.inbox
  trust := htrust ▸ h.trust

theorem Sound.opened {s : Participants Op} (h : s.Sound) : s.opened.Sound :=
  h.each_rows rfl rfl rfl rfl rfl

theorem Sound.commitAll (h : s.Sound) : s.commitAll.Sound :=
  h.each_rows rfl rfl rfl rfl rfl

/-- From what every reachable store satisfies, a reversible unit of calls can be taken back. -/
theorem takenBack {calls : List (StoreCall Op)}
    (hs : s.Sound) (hs₀ : s₀.Sound) (hcalls : RunMeets (write deps) (Reversible s₀) s₀ calls)
    (hback : ∀ floor, Kept floor s₀ (calls.foldl (write deps) s₀) → Near floor s s') :
    TakenBack deps calls s s' := by
  intro latest hlatest
  apply Near.restored hs
  apply hback
  apply (hs₀.kept _).calls _ hcalls
  intro c hc
  have hle := hlatest c hc
  omega

theorem batchItem_takenBack {item : BatchItem Op}
    (hs : s.Sound) (hopen : s.Recording) (hfails : item.fails = true)
    (hcalls : RunMeets (write deps) (Reversible s) s item.calls) :
    TakenBack deps item.calls s (batchItem deps s item) := by
  apply takenBack hs hs hcalls
  intro floor hkept
  simp only [batchItem, hfails, if_true]
  exact hkept.rollbackTo hopen

theorem transaction_takenBack {calls : List (StoreCall Op)} (hs : s.Sound)
    (hcalls : RunMeets (write deps) (Reversible s) s.opened calls) :
    TakenBack deps calls s (play deps s (.transaction calls true)) := by
  apply takenBack hs hs.opened hcalls
  intro floor hkept
  simp only [play, if_true]
  exact hkept.rollbackAll

/-- The latest reading of some calls, for a floor beneath which they have all been made. -/
theorem exists_floor (deps : MemoryDeps) (calls : List (StoreCall Op)) :
    ∃ floor, ∀ c ∈ calls, c.now - deps.velocityWindowMs ≤ floor := by
  induction calls with
  | nil => exact ⟨0, by simp⟩
  | cons c calls ih =>
    obtain ⟨floor, hfloor⟩ := ih
    refine ⟨max (c.now - deps.velocityWindowMs) floor, fun c' hc' => ?_⟩
    cases List.mem_cons.mp hc' with
    | inl heq => exact heq ▸ Int.le_max_left _ _
    | inr hmem => exact Int.le_trans (hfloor c' hmem) (Int.le_max_right _ _)

theorem batchItem_sound {item : BatchItem Op} (hs : s.Sound) (hopen : s.Recording)
    (hcalls : item.fails = true → RunMeets (write deps) (Reversible s) s item.calls) :
    (batchItem deps s item).Sound ∧ (batchItem deps s item).Recording := by
  unfold batchItem
  cases hfails : item.fails with
  | false => exact ⟨hs.calls deps _, hopen.calls hs deps _⟩
  | true =>
    obtain ⟨floor, hfloor⟩ := exists_floor deps item.calls
    have hkept := (hs.kept floor).calls hfloor (hcalls hfails)
    refine ⟨(hkept.rollbackTo hopen).sound hs, ?_⟩
    exact (hopen.calls hs deps item.calls).rollbackTo s

theorem batch_sound {items : List (BatchItem Op)} (hs : s.Sound) (hopen : s.Recording)
    (h : RunMeets (batchItem deps)
      (fun s item => item.fails = true → RunMeets (write deps) (Reversible s) s item.calls) s items) :
    (items.foldl (batchItem deps) s).Sound := by
  have hinv : ∀ (s : Participants Op) (item : BatchItem Op), (s.Sound ∧ s.Recording) →
      (item.fails = true → RunMeets (write deps) (Reversible s) s item.calls) →
      (batchItem deps s item).Sound ∧ (batchItem deps s item).Recording := by
    intro s item hinv hcalls
    exact batchItem_sound hinv.1 hinv.2 hcalls
  exact (h.inv hinv ⟨hs, hopen⟩).1

/-- An item that fails is taken back, whatever the items before it did. -/
theorem batch_takenBack {items : List (BatchItem Op)} (hs : s.Sound) (hopen : s.Recording)
    (h : RunMeets (batchItem deps)
      (fun s item => item.fails = true → RunMeets (write deps) (Reversible s) s item.calls) s items) :
    RunMeets (batchItem deps)
      (fun s item => item.fails = true → TakenBack deps item.calls s (batchItem deps s item))
      s items := by
  induction items generalizing s with
  | nil => trivial
  | cons item items ih =>
    obtain ⟨hsound, hrecording⟩ := batchItem_sound hs hopen h.1
    exact ⟨fun hfails => batchItem_takenBack hs hopen hfails (h.1 hfails),
      ih hsound hrecording h.2⟩

theorem play_sound {e : Episode Op} (hs : s.Sound)
    (h : AllReversible deps s e) : (play deps s e).Sound := by
  cases e with
  | direct c => exact hs.write deps c
  | transaction calls fails =>
    cases fails with
    | false => exact (hs.opened.calls deps calls).commitAll
    | true =>
      obtain ⟨floor, hfloor⟩ := exists_floor deps calls
      have hkept := (hs.opened.kept floor).calls hfloor (h rfl)
      exact hkept.rollbackAll.sound hs
  | batch items => exact (batch_sound hs.opened (opened_recording s) h).commitAll

theorem rollsBack {e : Episode Op} (hs : s.Sound)
    (h : AllReversible deps s e) : RollsBack deps s e := by
  cases e with
  | direct c => trivial
  | transaction calls fails =>
    intro hfails
    subst hfails
    exact transaction_takenBack hs (h rfl)
  | batch items => exact batch_takenBack hs.opened (opened_recording s) h

/-- In a run whose failing units make reversible calls only, every failing transaction and
every failing batch item is taken back, in the eyes of every read of every store. -/
theorem run_rollsBack (deps : MemoryDeps) (run : List (Episode Op))
    (h : RunMeets (play deps) (AllReversible deps) memoryStore run) :
    RunMeets (play deps) (RollsBack deps) memoryStore run := by
  have hall : ∀ (s : Participants Op) (run : List (Episode Op)), s.Sound →
      RunMeets (play deps) (AllReversible deps) s run → RunMeets (play deps) (RollsBack deps) s run := by
    intro s run hs h
    induction run generalizing s with
    | nil => trivial
    | cons e run ih => exact ⟨rollsBack hs h.1, ih _ (play_sound hs h.1) h.2⟩
  exact hall memoryStore run memoryStore_sound h

def plainDeps : MemoryDeps := ⟨fun bytes => bytes.take 32, 3600000⟩

def letter : OutboxMessage :=
  ⟨"msg_1", ⟨"evt_1", "economy.sale.completed", 1, 0, "usr_a", [], "internal"⟩, .pending, 0, none, none⟩

def enqueued : Episode Unit := .direct ⟨0, .outbox (.enqueue letter)⟩

def givingUp : List (StoreCall Unit) :=
  [⟨1, .outbox (.recordFailure "msg_1")⟩, ⟨1, .outbox (.deadLetter "msg_1" "PROVIDER.FAILURE")⟩]

/-- The attempt stays counted although the transaction was rolled back. -/
theorem not_rollsBack_givingUp :
    ¬ RunMeets (play plainDeps) (RollsBack plainDeps) memoryStore
      [enqueued, .transaction givingUp true] := by
  intro h
  have hback := h.2.1 rfl 1 (by simp [givingUp])
  have hattempts := congrArg (List.map OutboxMessage.attempts) (hback.claimBatch 1)
  exact absurd hattempts (by decide)

/-- A failing item whose calls all touch different messages, between two that go through. -/
theorem run_rollsBack_batch :
    RunMeets (play plainDeps) (RollsBack plainDeps) memoryStore
      [enqueued,
        .batch [⟨[⟨1, .outbox (.recordFailure "msg_1")⟩], false⟩,
          ⟨[⟨2, .outbox (.deadLetter "msg_1" "PROVIDER.FAILURE")⟩], true⟩,
          ⟨[⟨3, .outbox (.markRelayed ["msg_1"])⟩], false⟩]] := by
  apply run_rollsBack
  refine ⟨trivial, ⟨by simp, fun _ => ⟨fun _ => ?_, trivial⟩, by simp, trivial⟩, trivial⟩
  intro r₀ obj h₀ hobj _
  exact congrArg Obj.value (Option.some.inj (hobj.symm.trans h₀))

end Participants

end EconomyLab
