import EconomyLab.Stores.Participants

/-!
# What the rows of a store hold

The contents of a store are its rows without the objects that hold them, the sequence values of
the log and the attempts that have aged out. Writes act on the contents, rollbacks give them back.
-/

namespace EconomyLab

open Foundation Journaled

/-! ## Stores that replace whole rows -/

/-- The rows after a write do not depend on what the journal has recorded. -/
def ByRows {σ : Type} (step : Journaled σ → Journaled σ) : Prop :=
  ∀ j j' : Journaled σ, j.rows = j'.rows → (step j).rows = (step j').rows

namespace ByRows

variable {σ : Type} {f : Journaled σ → Journaled σ}

theorem foldl {α : Type} {step : Journaled σ → α → Journaled σ} (h : ∀ a, ByRows (step · a))
    (as : List α) : ByRows fun j => as.foldl step j := by
  induction as with
  | nil => exact fun j j' h => h
  | cons a as ih => exact fun j j' hrows => ih _ _ (h a j j' hrows)

/-- It is enough to know the rows that the closed journal comes to. -/
theorem of_closed (h : ∀ j, (f j).rows = (f ⟨j.rows, none⟩).rows) : ByRows f := by
  intro j j' hrows
  rw [h j, h j', hrows]

end ByRows

theorem putRow_byRows {V : Type} (key : String) (row : V) : ByRows (putRow · key row) :=
  .of_closed fun _ => rfl

theorem SaleWrite.run_byRows (w : SaleWrite) : ByRows w.run := by
  cases w with
  | put sale => exact putRow_byRows _ _

theorem SagaTables.bumpLast_byRows (userId : String) (updatedAt : Int) :
    ByRows (bumpLast userId updatedAt) := by
  apply ByRows.of_closed
  intro j
  unfold bumpLast
  simp only
  split <;> rfl

theorem SagaWrite.run_byRows (w : SagaWrite) : ByRows w.run := by
  apply ByRows.of_closed
  intro j
  cases w with
  | start saga => exact SagaTables.bumpLast_byRows _ _ _ _ rfl
  | advance id source target patch =>
    simp only [run]
    split
    · rfl
    · split
      · exact SagaTables.bumpLast_byRows _ _ _ _ rfl
      · rfl
  | deadLetter id reason =>
    simp only [run]
    split <;> rfl

theorem EntitlementWrite.run_byRows (w : EntitlementWrite) : ByRows w.run := by
  apply ByRows.of_closed
  intro j
  cases w
  all_goals
    simp only [run]
    repeat' split
    all_goals rfl

theorem SubscriptionWrite.run_byRows (w : SubscriptionWrite) : ByRows w.run := by
  apply ByRows.of_closed
  intro j
  cases w
  all_goals
    simp only [run]
    repeat' split
    all_goals rfl

theorem PromoWrite.run_byRows (w : PromoWrite) : ByRows w.run := by
  apply ByRows.of_closed
  intro j
  cases w
  all_goals
    simp only [run]
    repeat' split
    all_goals rfl

theorem AccrualTables.put_byRows (batch : List AccrualRow) : ByRows (put batch) := by
  induction batch with
  | nil => exact fun j j' h => h
  | cons row batch ih =>
    intro j j' h
    simp only [put, h]
    split
    · exact h
    · exact ih _ _ rfl

theorem AccrualWrite.run_byRows (w : AccrualWrite) : ByRows w.run := by
  cases w with
  | put batch => exact AccrualTables.put_byRows batch
  | mark keys status settledTxnId =>
    apply ByRows.foldl
    intro key
    apply ByRows.of_closed
    intro j
    unfold AccrualTables.markOne
    simp only
    repeat' split
    all_goals rfl

/-! ## The ledger -/

def StoredPosting.unstamped (row : StoredPosting) : StoredPosting := { row with seq := 0 }

/-- The tables without the sequence values of the log, which no read answers with. -/
def LedgerTables.unstamped (t : LedgerTables) : LedgerTables :=
  { t with log := t.log.map StoredPosting.unstamped }

@[simp] theorem StoredPosting.unstamped_unstamped (row : StoredPosting) :
    row.unstamped.unstamped = row.unstamped := rfl

@[simp] theorem LedgerTables.unstamped_unstamped (t : LedgerTables) :
    t.unstamped.unstamped = t.unstamped := by
  simp [LedgerTables.unstamped]

theorem append_unstamped (digest : Digest) (now : Int) (posting : Posting) (l : MemoryLedger) :
    (append digest now posting l).2.tables.unstamped =
      (append digest now posting ⟨⟨l.tables.unstamped, none⟩, 0⟩).2.tables.unstamped := by
  have hheads : (⟨⟨l.tables.unstamped, none⟩, 0⟩ : MemoryLedger).tables.heads = l.tables.heads := rfl
  unfold append
  rw [hheads]
  cases advanceChain digest l.tables.heads posting with
  | error e => simp [MemoryLedger.tables, LedgerTables.unstamped, StoredPosting.unstamped]
  | ok links =>
    simp only [commitPosting, LedgerTables.unstamped, MemoryLedger.tables]
    cases nextBalances l.book.rows.balances posting.legs with
    | error e => simp [bind, Except.bind]
    | ok next =>
      simp [bind, Except.bind, pure, Except.pure, Journaled.write, Journaled.record, applyPosting,
        StoredPosting.unstamped]

theorem lotsOfLog_unstamped (log : List StoredPosting) :
    lotsOfLog (log.map StoredPosting.unstamped) = lotsOfLog log := by
  simp only [lotsOfLog, List.zipIdx_map, List.foldl_map]
  rfl

theorem columnsOfLog_unstamped (log : List StoredPosting) :
    columnsOfLog (log.map StoredPosting.unstamped) = columnsOfLog log := by
  simp only [columnsOfLog, List.foldl_map]
  rfl

theorem pruneFromLog_tables (txnIds : List String) (l : MemoryLedger) :
    (pruneFromLog txnIds l).tables =
      let kept := l.tables.log.filter (·.txnId ∉ txnIds)
      if kept.length = l.tables.log.length then l.tables
      else
        { l.tables with
          log := kept
          lotIndexByAccount := lotsOfLog kept
          deltaColumns := columnsOfLog kept } := by
  simp only [pruneFromLog]
  split <;> rfl

theorem pruneFromLog_unstamped (txnIds : List String) (l : MemoryLedger) :
    (pruneFromLog txnIds l).tables.unstamped =
      (pruneFromLog txnIds ⟨⟨l.tables.unstamped, none⟩, 0⟩).tables.unstamped := by
  have htables : (⟨⟨l.tables.unstamped, none⟩, 0⟩ : MemoryLedger).tables = l.tables.unstamped := rfl
  have hkept : l.tables.unstamped.log.filter (·.txnId ∉ txnIds) =
      (l.tables.log.filter (·.txnId ∉ txnIds)).map StoredPosting.unstamped := List.filter_map
  have hlength : l.tables.unstamped.log.length = l.tables.log.length := List.length_map _
  rw [pruneFromLog_tables, pruneFromLog_tables, htables]
  simp only [hkept, hlength, List.length_map, lotsOfLog_unstamped, columnsOfLog_unstamped]
  split
  · exact l.tables.unstamped_unstamped.symm
  · simp [LedgerTables.unstamped]

theorem LedgerWrite.run_unstamped (digest : Digest) (now : Int) (w : LedgerWrite) {l l' : MemoryLedger}
    (h : l.tables.unstamped = l'.tables.unstamped) :
    (w.run digest now l).tables.unstamped = (w.run digest now l').tables.unstamped := by
  cases w with
  | append posting => exact (append_unstamped _ _ _ l).trans (h ▸ (append_unstamped _ _ _ l').symm)
  | prune txnIds => exact (pruneFromLog_unstamped _ l).trans (h ▸ (pruneFromLog_unstamped _ l').symm)

theorem IdempotencyRows.forget_contents {t t' : IdempotencyRows}
    (hcommitted : t.committed.contents = t'.committed.contents) (hborn : t.bornAt = t'.bornAt)
    (rows : List (String × Int)) :
    (rows.foldl forget t).committed.contents = (rows.foldl forget t').committed.contents ∧
      (rows.foldl forget t).bornAt = (rows.foldl forget t').bornAt := by
  induction rows generalizing t t' with
  | nil => exact ⟨hcommitted, hborn⟩
  | cons row rows ih =>
    apply ih
    · simp only [forget, Shelf.contents_delete, hcommitted]
    · simp only [forget, hborn]

theorem IdempotencyWrite.run_contents (now : Int) (w : IdempotencyWrite) {j j' : Journaled IdempotencyRows}
    (hcommitted : j.rows.committed.contents = j'.rows.committed.contents)
    (hborn : j.rows.bornAt = j'.rows.bornAt) :
    (w.run now j).rows.committed.contents = (w.run now j').rows.committed.contents ∧
      (w.run now j).rows.bornAt = (w.run now j').rows.bornAt := by
  cases w with
  | claim key =>
    simp only [run, IdempotencyRows.claim, Shelf.look_eq_lookup, hcommitted]
    split
    · exact ⟨hcommitted, hborn⟩
    · exact ⟨hcommitted, by simp only [Journaled.write, Journaled.record, IdempotencyRows.birth, hborn]⟩
  | record key transaction =>
    simp only [run, IdempotencyRows.record, Journaled.write, Journaled.record, Shelf.contents_put,
      IdempotencyRows.birth, hcommitted, hborn, and_self]
  | deleteOlderThan cutoffMs limit =>
    simp only [run, IdempotencyRows.deleteOlderThan, IdempotencyRows.due, hborn]
    exact IdempotencyRows.forget_contents hcommitted hborn _

/-! ## The mailboxes -/

namespace Mailbox

variable {M X : Type}

/-- A change of the row under an id, if there is one that may be changed. -/
def amend (may : M → Bool) (change : M → M) (id : String) (rows : List (String × M)) :
    List (String × M) :=
  match (OrderedTable.lookup id rows).filter may with
  | none => rows
  | some m => OrderedTable.put id (change m) rows

/-- A step does to the contents what `act` does; no row comes or goes. -/
structure Acts (act : List (String × M) → List (String × M)) (j j' : Journaled (Mailbox M X)) : Prop where
  contents : j'.rows.rows.contents = act j.rows.rows.contents
  order : j'.rows.order = j.rows.order
  index : j'.rows.index = j.rows.index
  there : ∀ id, (j'.rows.look id).isSome = (j.rows.look id).isSome

variable {j : Journaled (Mailbox M X)} {may : M → Bool} {change : M → M} {id : String}

theorem look_put_isSome {t : Mailbox M X} {obj : Obj M} (hid : t.find id = some obj) (m : M)
    {t' : Mailbox M X} (h : t'.rows.contents = OrderedTable.put id m t.rows.contents) (k : String) :
    (t'.look k).isSome = (t.look k).isSome := by
  have hput : (OrderedTable.mk (OrderedTable.put id m t.rows.contents)).get k =
      if k = id then some m else OrderedTable.lookup k t.rows.contents :=
    OrderedTable.get_set ⟨t.rows.contents⟩ id k m
  rw [look_eq_lookup, h]
  refine (congrArg Option.isSome hput).trans ?_
  split
  · rename_i hk
    rw [hk, look_of_find hid]
    rfl
  · rw [look_eq_lookup]

theorem amend_some {t : Mailbox M X} {obj : Obj M}
    (h : (t.find id).filter (fun o => may o.value) = some obj) :
    t.find id = some obj ∧ amend may change id t.rows.contents =
      OrderedTable.put id (change obj.value) t.rows.contents := by
  obtain ⟨hfind, hmay⟩ := Option.filter_eq_some_iff.mp h
  refine ⟨hfind, ?_⟩
  unfold amend
  rw [← look_eq_lookup, look_of_find hfind, Option.filter_some, if_pos hmay]

theorem Acts.none (h : (j.rows.find id).filter (fun o => may o.value) = none) :
    Acts (amend may change id) j j := by
  refine ⟨?_, rfl, rfl, fun _ => rfl⟩
  have hlook : (j.rows.look id).filter may = .none := by
    unfold look Shelf.look
    rw [Option.filter_map]
    exact congrArg (Option.map Obj.value) h
  unfold amend
  rw [← look_eq_lookup, hlook]

theorem Acts.edit {obj : Obj M} (h : (j.rows.find id).filter (fun o => may o.value) = some obj)
    (undo : M → M) :
    Acts (amend may change id) j (editRow j id obj change undo) := by
  obtain ⟨hfind, hamend⟩ := amend_some h
  have hcontents := Shelf.contents_edit hfind change
  exact ⟨hcontents.trans hamend.symm, rfl, rfl, look_put_isSome hfind _ hcontents⟩

theorem Acts.replace {obj : Obj M} (h : (j.rows.find id).filter (fun o => may o.value) = some obj) :
    Acts (amend may change id) j (replaceRow j id obj (change obj.value)) := by
  obtain ⟨hfind, hamend⟩ := amend_some h
  have hcontents : (replaceRow j id obj (change obj.value)).rows.rows.contents =
      OrderedTable.put id (change obj.value) j.rows.rows.contents := Shelf.contents_put _ _ _
  exact ⟨hcontents.trans hamend.symm, rfl, rfl, look_put_isSome hfind _ hcontents⟩

theorem Acts.foldl {α : Type} {step : Journaled (Mailbox M X) → α → Journaled (Mailbox M X)}
    {act : α → List (String × M) → List (String × M)} (h : ∀ j a, Acts (act a) j (step j a)) (as : List α)
    (j : Journaled (Mailbox M X)) :
    Acts (fun rows => as.foldl (fun rows a => act a rows) rows) j (as.foldl step j) := by
  induction as generalizing j with
  | nil => exact ⟨rfl, rfl, rfl, fun _ => rfl⟩
  | cons a as ih =>
    have hfirst := h j a
    have hrest := ih (step j a)
    exact ⟨hrest.contents.trans (by rw [hfirst.contents]; rfl), hrest.order.trans hfirst.order,
      hrest.index.trans hfirst.index, fun id => (hrest.there id).trans (hfirst.there id)⟩

end Mailbox

open Mailbox

namespace OutboxRows

def isPending (m : OutboxMessage) : Bool := m.status = .pending

/-- The enqueue time of a message that is there. -/
def enqueuedAt (t : OutboxRows) (id : String) : Option Int :=
  if (t.look id).isSome then t.index.get id else none

structure Same (t t' : OutboxRows) : Prop where
  contents : t.rows.contents = t'.rows.contents
  order : t.order = t'.order
  enqueuedAt : t.enqueuedAt = t'.enqueuedAt

variable (j : Journaled OutboxRows)

theorem markOne_acts (id : String) :
    Acts (amend isPending (fun m => { m with status := .relayed }) id) j (markOne j id) := by
  unfold markOne
  cases hp : pending j.rows id with
  | none => exact .none hp
  | some obj =>
    apply Acts.edit
    exact hp

theorem recordFailure_acts (id : String) :
    Acts (amend isPending (fun m => { m with attempts := m.attempts + 1 }) id) j
      (recordFailure id j) := by
  unfold recordFailure
  cases hp : pending j.rows id with
  | none => exact .none hp
  | some obj =>
    apply Acts.edit
    exact hp

theorem deadLetter_acts (id reason : String) :
    Acts (amend isPending (fun m => { m with status := .dead, reason := some reason }) id) j
      (deadLetter id reason j) := by
  unfold deadLetter
  cases hp : pending j.rows id with
  | none => exact .none hp
  | some obj => exact .replace hp

theorem Same.acts {act : List (String × OutboxMessage) → List (String × OutboxMessage)}
    {j j' k k' : Journaled OutboxRows} (h : Same j.rows k.rows) (hj : Acts act j j') (hk : Acts act k k') :
    Same j'.rows k'.rows where
  contents := by rw [hj.contents, hk.contents, h.contents]
  order := by rw [hj.order, hk.order, h.order]
  enqueuedAt := by
    funext id
    have hthere := congrFun h.enqueuedAt id
    simp only [OutboxRows.enqueuedAt] at hthere ⊢
    rw [hj.there, hk.there, hj.index, hk.index, hthere]

theorem Same.enqueue {j k : Journaled OutboxRows} (h : Same j.rows k.rows) (now : Int)
    (message : OutboxMessage) : Same (enqueue now message j).rows (enqueue now message k).rows where
  contents := by
    simp only [OutboxRows.enqueue, Journaled.write, Journaled.record, Shelf.contents_put, h.contents]
  order := by simp only [OutboxRows.enqueue, Journaled.write, Journaled.record, h.order]
  enqueuedAt := by
    have hnow : ∀ j : Journaled OutboxRows, ∀ id, (OutboxRows.enqueue now message j).rows.enqueuedAt id =
        if id = message.id then some now else j.rows.enqueuedAt id := by
      intro j id
      by_cases hid : id = message.id
      · simp [OutboxRows.enqueue, Journaled.write, Journaled.record, OutboxRows.enqueuedAt, Mailbox.look,
          Shelf.look, Shelf.put, hid]
      · simp [OutboxRows.enqueue, Journaled.write, Journaled.record, OutboxRows.enqueuedAt, Mailbox.look,
          Shelf.look, Shelf.put, hid]
    funext id
    rw [hnow, hnow, h.enqueuedAt]

end OutboxRows

theorem OutboxWrite.run_same (now : Int) (w : OutboxWrite) {j j' : Journaled OutboxRows}
    (h : OutboxRows.Same j.rows j'.rows) : OutboxRows.Same (w.run now j).rows (w.run now j').rows := by
  cases w with
  | enqueue message => exact h.enqueue now message
  | markRelayed ids =>
    exact h.acts (.foldl OutboxRows.markOne_acts ids j) (.foldl OutboxRows.markOne_acts ids j')
  | recordFailure id =>
    exact h.acts (OutboxRows.recordFailure_acts j id) (OutboxRows.recordFailure_acts j' id)
  | deadLetter id reason =>
    exact h.acts (OutboxRows.deadLetter_acts j id reason) (OutboxRows.deadLetter_acts j' id reason)

namespace InboxRows

variable {Op : Type}

def isPending (m : InboxMessage Op) : Bool := m.status = .pending

structure Same (t t' : InboxRows Op) : Prop where
  contents : t.rows.contents = t'.rows.contents
  order : t.order = t'.order
  index : t.index = t'.index

variable (j : Journaled (InboxRows Op))

theorem markApplied_acts (id : String) :
    Acts (amend isPending (fun m => { m with status := .applied }) id) j (markApplied id j) := by
  unfold markApplied
  cases hp : pending j.rows id with
  | none => exact .none hp
  | some obj =>
    apply Acts.edit
    exact hp

theorem bumpAttempt_acts (id : String) :
    Acts (amend isPending (fun m => { m with attempts := m.attempts + 1 }) id) j (bumpAttempt id j) := by
  unfold bumpAttempt
  cases hp : pending j.rows id with
  | none => exact .none hp
  | some obj =>
    apply Acts.edit
    exact hp

theorem deadLetter_acts (id reason : String) :
    Acts (amend isPending (fun m => { m with status := .dead, reason := some reason }) id) j
      (deadLetter id reason j) := by
  unfold deadLetter
  cases hp : pending j.rows id with
  | none => exact .none hp
  | some obj => exact .replace hp

theorem reviveOne_acts (row : String × InboxMessage Op) : Acts (amend (fun _ => true)
      (fun _ => { row.2 with status := .pending, attempts := 0, reason := none }) row.1) j
      (reviveOne j row) := by
  unfold reviveOne
  cases hp : j.rows.find row.1 with
  | none => exact .none (by rw [hp]; rfl)
  | some obj => exact .replace (by rw [hp]; rfl)

theorem Same.acts {act : List (String × InboxMessage Op) → List (String × InboxMessage Op)}
    {j j' k k' : Journaled (InboxRows Op)} (h : Same j.rows k.rows) (hj : Acts act j j')
    (hk : Acts act k k') : Same j'.rows k'.rows where
  contents := by rw [hj.contents, hk.contents, h.contents]
  order := by rw [hj.order, hk.order, h.order]
  index := by rw [hj.index, hk.index, h.index]

end InboxRows

theorem InboxWrite.run_same {Op : Type} (w : InboxWrite Op) {j j' : Journaled (InboxRows Op)}
    (h : InboxRows.Same j.rows j'.rows) : InboxRows.Same (w.run j).rows (w.run j').rows := by
  cases w with
  | enqueueInbound entry =>
    simp only [run, InboxRows.enqueueInbound, h.index]
    split
    · exact h
    · simp only [Journaled.write, Journaled.record]
      exact ⟨by rw [Shelf.contents_put, Shelf.contents_put, h.contents], by rw [h.order], rfl⟩
  | markApplied id => exact h.acts (InboxRows.markApplied_acts j id) (InboxRows.markApplied_acts j' id)
  | bumpAttempt id => exact h.acts (InboxRows.bumpAttempt_acts j id) (InboxRows.bumpAttempt_acts j' id)
  | deadLetter id reason =>
    exact h.acts (InboxRows.deadLetter_acts j id reason) (InboxRows.deadLetter_acts j' id reason)
  | reviveDead limit =>
    have hdead : InboxRows.deadRows j.rows = InboxRows.deadRows j'.rows := by
      simp only [InboxRows.deadRows, h.contents]
    simp only [run, InboxRows.reviveDead, hdead]
    exact h.acts (.foldl InboxRows.reviveOne_acts _ j) (.foldl InboxRows.reviveOne_acts _ j')

/-! ## Velocity -/

theorem dropWhile_twice (attempts : List Attempt) (cutoff cutoff' : Int) :
    (attempts.dropWhile (·.at_ ≤ cutoff)).dropWhile (·.at_ ≤ cutoff') =
      attempts.dropWhile (·.at_ ≤ max cutoff cutoff') := by
  induction attempts with
  | nil => rfl
  | cons a attempts ih =>
    by_cases ha : a.at_ ≤ cutoff
    · have hmax : a.at_ ≤ max cutoff cutoff' := Int.le_trans ha (Int.le_max_left _ _)
      simp only [List.dropWhile_cons, ha, hmax, decide_true, if_true, ih]
    · by_cases ha' : a.at_ ≤ cutoff'
      · have hmax : a.at_ ≤ max cutoff cutoff' := Int.le_trans ha' (Int.le_max_right _ _)
        have hle : max cutoff cutoff' = cutoff' := by omega
        simp [ha, ha', hle]
      · have hmax : ¬a.at_ ≤ max cutoff cutoff' := by omega
        simp only [List.dropWhile_cons, ha, ha', hmax, decide_false, Bool.false_eq_true, if_false]

namespace TrustWindow

/-- The live attempts that come after the floor. -/
def recent (floor : Int) (w : TrustWindow) : List Attempt := w.live.dropWhile (·.at_ ≤ floor)

theorem recent_of_le {floor floor' : Int} (h : floor ≤ floor') (w : TrustWindow) :
    w.recent floor' = (w.recent floor).dropWhile (·.at_ ≤ floor') := by
  unfold recent
  rw [dropWhile_twice, Int.max_eq_right h]

theorem recent_measure {w : TrustWindow} (h : w.Counted) (floor cutoff : Int) :
    (w.measure cutoff).recent floor = (w.recent floor).dropWhile (·.at_ ≤ cutoff) := by
  unfold recent
  rw [(measure_spec h cutoff).1, dropWhile_twice, dropWhile_twice, Int.max_comm]

theorem recent_push {w w' : TrustWindow} (h : w.Counted) (h' : w'.Counted) {floor : Int}
    (hrecent : w.recent floor = w'.recent floor) (attempt : Attempt) :
    (w.push attempt).recent floor = (w'.push attempt).recent floor := by
  unfold recent at *
  rw [live_push h, live_push h', List.dropWhile_append, List.dropWhile_append, hrecent]

theorem Stands.recent {floor : Int} {cur t : TrustWindow} (h : Stands floor cur t) :
    t.recent floor = cur.recent floor := by
  obtain ⟨aged, haged, hold⟩ := h.live
  unfold TrustWindow.recent
  rw [haged]
  symm
  apply List.dropWhile_append_of_pos
  exact fun a ha => decide_eq_true (hold a ha)

end TrustWindow

namespace TrustTables

structure Same (floor : Int) (t t' : TrustTables) : Prop where
  seenAttempts : t.seenAttempts = t'.seenAttempts
  recent : ∀ subject, (t.window subject).recent floor = (t'.window subject).recent floor

variable {floor : Int} {t t' : TrustTables}

theorem Same.measure (h : Same floor t t') (ht : t.Counted) (ht' : t'.Counted) (windowMs now : Int)
    (subject : String) :
    Same floor (t.measure windowMs now subject) (t'.measure windowMs now subject) where
  seenAttempts := by rw [measure_seen, measure_seen, h.seenAttempts]
  recent subject' := by
    rw [window_measure, window_measure]
    split
    · rw [TrustWindow.recent_measure (ht.windows _), TrustWindow.recent_measure (ht'.windows _), h.recent]
    · exact h.recent subject'

theorem Same.insert {j j' : Journaled TrustTables} (h : Same floor j.rows j'.rows) (hj : j.rows.Counted)
    (hj' : j'.rows.Counted) (subject : String) (attempt : Attempt) :
    Same floor (insert subject attempt j).rows (insert subject attempt j').rows := by
  unfold TrustTables.insert
  rw [h.seenAttempts]
  split
  · exact h
  · refine ⟨rfl, fun subject' => ?_⟩
    simp only [Journaled.write, Journaled.record, window_set]
    split
    · exact TrustWindow.recent_push (hj.windows subject) (hj'.windows subject) (h.recent subject) attempt
    · exact h.recent subject'

end TrustTables

theorem TrustWrite.run_same {floor windowMs now : Int} {j j' : Journaled TrustTables}
    (h : TrustTables.Same floor j.rows j'.rows) (hj : j.rows.Counted) (hj' : j'.rows.Counted)
    (w : TrustWrite) :
    TrustTables.Same floor (w.run windowMs now j).rows (w.run windowMs now j').rows := by
  cases w with
  | read subject => exact h.measure hj hj' _ _ _
  | bump subject attempt => exact h.insert hj hj' subject attempt
  | record subject attempt =>
    have hcounted : ∀ {j : Journaled TrustTables}, j.rows.Counted →
        (TrustTables.insert subject attempt j).rows.Counted :=
      fun hj => @run_counted windowMs now _ hj (.bump subject attempt)
    exact (h.insert hj hj' subject attempt).measure (hcounted hj) (hcounted hj') _ _ _

structure Contents (Op : Type) where
  ledger : LedgerTables
  committed : List (String × Transaction)
  bornAt : OrderedTable String Int
  sales : OrderedTable String Sale
  outbox : List (String × OutboxMessage)
  outboxOrder : List String
  enqueuedAt : String → Option Int
  inbox : List (String × InboxMessage Op)
  inboxOrder : List String
  inboxKeys : Table String String
  sagas : SagaTables
  entitlements : OrderedTable String EntitlementRow
  subscriptions : OrderedTable String Subscription
  promos : OrderedTable String PromoGrant
  seenAttempts : List String
  recent : String → List Attempt
  accruals : AccrualTables

namespace Participants

variable {Op : Type}

/-- What the store holds once the attempts up to `floor` have aged out. -/
def contents (floor : Int) (s : Participants Op) : Contents Op where
  ledger := s.ledger.tables.unstamped
  committed := s.idempotency.rows.committed.contents
  bornAt := s.idempotency.rows.bornAt
  sales := s.sales.rows
  outbox := s.outbox.rows.rows.contents
  outboxOrder := s.outbox.rows.order
  enqueuedAt := s.outbox.rows.enqueuedAt
  inbox := s.inbox.rows.rows.contents
  inboxOrder := s.inbox.rows.order
  inboxKeys := s.inbox.rows.index
  sagas := s.sagas.rows
  entitlements := s.entitlements.rows
  subscriptions := s.subscriptions.rows
  promos := s.promos.rows
  seenAttempts := s.trust.rows.seenAttempts
  recent := fun subject => (s.trust.rows.window subject).recent floor
  accruals := s.accruals.rows

structure Alike (floor : Int) (s s' : Participants Op) : Prop where
  ledger : s.ledger.tables.unstamped = s'.ledger.tables.unstamped
  committed : s.idempotency.rows.committed.contents = s'.idempotency.rows.committed.contents
  bornAt : s.idempotency.rows.bornAt = s'.idempotency.rows.bornAt
  sales : s.sales.rows = s'.sales.rows
  outbox : OutboxRows.Same s.outbox.rows s'.outbox.rows
  inbox : InboxRows.Same s.inbox.rows s'.inbox.rows
  sagas : s.sagas.rows = s'.sagas.rows
  entitlements : s.entitlements.rows = s'.entitlements.rows
  subscriptions : s.subscriptions.rows = s'.subscriptions.rows
  promos : s.promos.rows = s'.promos.rows
  trust : TrustTables.Same floor s.trust.rows s'.trust.rows
  accruals : s.accruals.rows = s'.accruals.rows

variable {s s' : Participants Op}

theorem alike_iff {floor : Int} : Alike floor s s' ↔ s.contents floor = s'.contents floor := by
  constructor
  · intro h
    simp only [contents, Contents.mk.injEq]
    exact ⟨h.ledger, h.committed, h.bornAt, h.sales, h.outbox.contents, h.outbox.order,
      h.outbox.enqueuedAt, h.inbox.contents, h.inbox.order, h.inbox.index, h.sagas, h.entitlements,
      h.subscriptions, h.promos, h.trust.seenAttempts, funext h.trust.recent, h.accruals⟩
  · intro h
    simp only [contents, Contents.mk.injEq] at h
    obtain ⟨hledger, hcommitted, hborn, hsales, houtbox, houtorder, hat, hinbox, hinorder, hkeys, hsagas,
      hentitlements, hsubscriptions, hpromos, hseen, hrecent, haccruals⟩ := h
    exact ⟨hledger, hcommitted, hborn, hsales, ⟨houtbox, houtorder, hat⟩,
      ⟨hinbox, hinorder, hkeys⟩, hsagas,
      hentitlements, hsubscriptions, hpromos, ⟨hseen, congrFun hrecent⟩, haccruals⟩

/-- A write leaves contents that depend on the contents it finds, and on nothing else. -/
theorem contents_write {deps : MemoryDeps} {floor : Int} (hs : s.Sound)
    (hs' : s'.Sound) (h : s.contents floor = s'.contents floor) (c : StoreCall Op) :
    (s.write deps c).contents floor = (s'.write deps c).contents floor := by
  rw [← alike_iff] at h ⊢
  obtain ⟨now, w⟩ := c
  cases w with
  | ledger w => exact { h with ledger := w.run_unstamped deps.digest now h.ledger }
  | idempotency w =>
    obtain ⟨hcommitted, hborn⟩ := w.run_contents now h.committed h.bornAt
    exact { h with committed := hcommitted, bornAt := hborn }
  | sales w => exact { h with sales := w.run_byRows _ _ h.sales }
  | outbox w => exact { h with outbox := w.run_same now h.outbox }
  | inbox w => exact { h with inbox := w.run_same h.inbox }
  | sagas w => exact { h with sagas := w.run_byRows _ _ h.sagas }
  | entitlements w => exact { h with entitlements := w.run_byRows _ _ h.entitlements }
  | subscriptions w => exact { h with subscriptions := w.run_byRows _ _ h.subscriptions }
  | promos w => exact { h with promos := w.run_byRows _ _ h.promos }
  | trust w => exact { h with trust := w.run_same h.trust hs.trust hs'.trust }
  | accruals w => exact { h with accruals := w.run_byRows _ _ h.accruals }

/-- What may stand for the rows of a store has its contents. -/
theorem Near.contents_eq {floor : Int} (hs : s.Sound) (h : Near floor s s') :
    s'.contents floor = s.contents floor := by
  have houtbox := h.outbox.reads hs.outbox
  have hinbox := h.inbox.reads hs.inbox
  apply alike_iff.mp
  exact {
    ledger := congrArg LedgerTables.unstamped h.ledger.symm
    committed := h.idempotency.committed.contents_eq hs.idempotency
    bornAt := h.idempotency.bornAt
    sales := h.sales.symm
    outbox := by
      refine ⟨houtbox.contents, houtbox.order, funext fun id => ?_⟩
      unfold OutboxRows.enqueuedAt
      rw [houtbox.look id]
      split
      · rename_i hthere
        apply houtbox.index
        simpa [Mailbox.look, Shelf.look, Mailbox.find] using hthere
      · rfl
    inbox := ⟨hinbox.contents, hinbox.order, hinbox.index.symm⟩
    sagas := h.sagas.symm
    entitlements := h.entitlements.symm
    subscriptions := h.subscriptions.symm
    promos := h.promos.symm
    trust := ⟨h.trust.seen, fun subject => (h.trust.windows subject).recent⟩
    accruals := h.accruals.symm }

theorem contents_of_le {floor floor' : Int} (hle : floor ≤ floor')
    (h : s.contents floor = s'.contents floor) : s.contents floor' = s'.contents floor' := by
  rw [← alike_iff] at h ⊢
  refine { h with trust := ⟨h.trust.seenAttempts, fun subject => ?_⟩ }
  rw [TrustWindow.recent_of_le hle, TrustWindow.recent_of_le hle, h.trust.recent]

end Participants

end EconomyLab
