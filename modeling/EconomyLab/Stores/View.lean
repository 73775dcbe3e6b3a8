import EconomyLab.Stores.Velocity
import EconomyLab.Stores.Writes

/-!
# Work that reads rows only

A handler reads and writes the rows of the stores: neither what the journals hold nor the
velocity windows change what it does, and it leaves the windows alone.
-/

namespace EconomyLab

open Foundation

def Foundation.Journaled.closed {σ : Type} (j : Journaled σ) : Journaled σ := ⟨j.rows, none⟩

/-- The rows of every store but the velocity windows, with no transaction open. -/
def World.view (w : World) : World :=
  { w with
    ledger := { w.ledger with book := w.ledger.book.closed }
    idempotency := w.idempotency.closed
    sales := w.sales.closed
    outbox := w.outbox.closed
    sagas := w.sagas.closed
    entitlements := w.entitlements.closed
    subscriptions := w.subscriptions.closed
    promos := w.promos.closed
    accruals := w.accruals.closed
    trust := ⟨⟨Table.empty, []⟩, none⟩ }

namespace World

@[simp] theorem view_view (w : World) : w.view.view = w.view := rfl

@[simp] theorem opened_view (w : World) : w.opened.view = w.view := rfl

@[simp] theorem commitAll_view (w : World) : w.commitAll.view = w.view := rfl

variable {w w' : World} (h : w.view = w'.view)
include h

theorem view_ticks : w.ticks = w'.ticks := (congrArg World.ticks h :)

theorem view_committed : w.idempotency.rows = w'.idempotency.rows :=
  (congrArg (fun v : World => v.idempotency.rows) h :)

theorem sound_of_view (hw : w.Sound) : w'.Sound := by
  have htables : w.ledger.tables = w'.ledger.tables :=
    (congrArg (fun v : World => v.ledger.tables) h :)
  exact ⟨htables ▸ hw.lots, htables ▸ hw.columns⟩

theorem view_withIdempotency {j j' : Journaled IdempotencyTables} (hj : j.rows = j'.rows) :
    (w.withIdempotency j).view = (w'.withIdempotency j').view := by
  have hopen : ∀ (v : World) (i : Journaled IdempotencyTables),
      (v.withIdempotency i).view = { v.view with idempotency := i.closed, ticks := v.view.ticks + 1 } :=
    fun _ _ => rfl
  rw [hopen, hopen, h, Journaled.closed, Journaled.closed, hj]

end World

theorem claimKey_rows {j j' : Journaled IdempotencyTables} (h : j.rows = j'.rows) (bornAt : Int)
    (key : String) : (claimKey bornAt key j).rows = (claimKey bornAt key j').rows := by
  simp only [claimKey, Journaled.write, Journaled.record, h]

theorem recordKey_rows {j j' : Journaled IdempotencyTables} (h : j.rows = j'.rows) (bornAt : Int)
    (key : String) (txn : Transaction) :
    (recordKey bornAt key txn j).rows = (recordKey bornAt key txn j').rows := by
  simp only [recordKey, Journaled.write, Journaled.record, h]

def MemoryLedger.closed (l : MemoryLedger) : MemoryLedger := { l with book := l.book.closed }

/-- What a posting does to the ledger's rows does not depend on its journal. -/
theorem postEntry_closed (digest : Digest) (now : Int) (posting : Posting) (l : MemoryLedger) :
    (postEntry digest now posting l).1 = (postEntry digest now posting l.closed).1 ∧
      (postEntry digest now posting l).2.closed = (postEntry digest now posting l.closed).2.closed := by
  have happend : ∀ cleaned, (append digest now cleaned l).1 = (append digest now cleaned l.closed).1 ∧
      (append digest now cleaned l).2.closed = (append digest now cleaned l.closed).2.closed := by
    intro cleaned
    have hcommit : ∀ stored, (commitPosting l.book stored).map Journaled.closed =
        (commitPosting l.closed.book stored).map Journaled.closed := by
      intro stored
      unfold commitPosting
      have hrows : l.closed.book.rows = l.book.rows := rfl
      rw [hrows]
      cases nextBalances l.book.rows.balances stored.legs with
      | error e => rfl
      | ok balances => rfl
    unfold append
    have htables : l.closed.tables = l.tables := rfl
    rw [htables]
    cases advanceChain digest l.tables.heads cleaned with
    | error e => exact ⟨rfl, rfl⟩
    | ok links =>
      simp only
      have hstored := hcommit ⟨cleaned.txnId, cleaned.legs, cleaned.fields, now, l.seq + 1, links⟩
      have hseq : l.closed.seq = l.seq := rfl
      rw [hseq]
      rcases hl : commitPosting l.book ⟨cleaned.txnId, cleaned.legs, cleaned.fields, now, l.seq + 1, links⟩
        with e | book
      · rcases hc : commitPosting l.closed.book
          ⟨cleaned.txnId, cleaned.legs, cleaned.fields, now, l.seq + 1, links⟩ with e' | book'
        · rw [hl, hc] at hstored
          exact ⟨congrArg Except.error (Except.error.inj hstored), rfl⟩
        · rw [hl, hc] at hstored
          cases hstored
      · rcases hc : commitPosting l.closed.book
          ⟨cleaned.txnId, cleaned.legs, cleaned.fields, now, l.seq + 1, links⟩ with e' | book'
        · rw [hl, hc] at hstored
          cases hstored
        · rw [hl, hc] at hstored
          exact ⟨rfl, congrArg (MemoryLedger.mk · (l.seq + 1)) (Except.ok.inj hstored)⟩
  unfold postEntry
  have htables : l.closed.tables = l.tables := rfl
  rw [htables]
  simp only
  split
  · exact ⟨rfl, rfl⟩
  · exact happend _

theorem World.view_ledger {w : World} {l l' : MemoryLedger} (h : l.closed = l'.closed) (ticks : Nat) :
    { w with ledger := l, ticks }.view = { w.view with ledger := l', ticks }.view :=
  congrArg (fun l => { w.view with ledger := l, ticks }) h

theorem World.view_accruals {w : World} {j j' : Journaled AccrualTables} (h : j.closed = j'.closed) :
    { w with accruals := j }.view = { w.view with accruals := j' }.view :=
  congrArg (fun j => { w.view with accruals := j }) h

namespace Txn

variable {α β : Type}

/-- The step answers by the rows it finds, changes them by what it finds, and keeps the windows. -/
structure Unaware (x : Txn α) : Prop where
  answer : ∀ {w w' : World}, w.view = w'.view → (x.run w).1 = (x.run w').1
  rows : ∀ {w w' : World}, w.view = w'.view → (x.run w).2.view = (x.run w').2.view
  trust : ∀ w, (x.run w).2.trust = w.trust

structure SameRun (r r' : Except Fault α × World) : Prop where
  answer : r.1 = r'.1
  view : r.2.view = r'.2.view

namespace Unaware

theorem same {x : Txn α} (h : Unaware x) {w w' : World} (hw : w.view = w'.view) :
    SameRun (x.run w) (x.run w') := ⟨h.answer hw, h.rows hw⟩

theorem lift (r : Except Fault α) : Unaware (Txn.lift r) := ⟨fun _ => rfl, id, fun _ => rfl⟩

theorem pure (a : α) : Unaware (Pure.pure a : Txn α) := ⟨fun _ => rfl, id, fun _ => rfl⟩

theorem read {f : World → Except Fault α} (h : ∀ w, f w = f w.view) : Unaware (Txn.read f) :=
  ⟨fun hw => (h _).trans ((congrArg f hw).trans (h _).symm), id, fun _ => rfl⟩

/-- A step whose run on the view tells its run on the store. -/
theorem of_view {x : Txn α} (h : ∀ w, (x.run w).1 = (x.run w.view).1)
    (hrows : ∀ w, (x.run w).2.view = (x.run w.view).2.view) (htrust : ∀ w, (x.run w).2.trust = w.trust) :
    Unaware x :=
  ⟨fun {w w'} hw => (h w).trans ((congrArg (fun v => (x.run v).1) hw).trans (h w').symm),
    fun {w w'} hw => (hrows w).trans ((congrArg (fun v => (x.run v).2.view) hw).trans (hrows w').symm),
    htrust⟩

theorem bind {x : Txn α} {f : α → Txn β} (hx : Unaware x) (hf : ∀ a, Unaware (f a)) :
    Unaware (x >>= f) := by
  have key : ∀ w w' : World, w.view = w'.view →
      ((x >>= f).run w).1 = ((x >>= f).run w').1 ∧ ((x >>= f).run w).2.view =
      ((x >>= f).run w').2.view := by
    intro w w' hw
    have hanswer := hx.answer hw
    have hrows := hx.rows hw
    rw [run_bind, run_bind]
    rcases hr : x.run w with ⟨res, w₁⟩
    rcases hr' : x.run w' with ⟨res', w₁'⟩
    rw [hr, hr'] at hanswer hrows
    simp only at hanswer hrows
    subst hanswer
    cases res with
    | error e => exact ⟨rfl, hrows⟩
    | ok a => exact ⟨(hf a).answer hrows, (hf a).rows hrows⟩
  refine ⟨fun hw => (key _ _ hw).1, fun hw => (key _ _ hw).2, ?_⟩
  intro w
  have htrust := hx.trust w
  rw [run_bind]
  rcases hr : x.run w with ⟨res, w₁⟩
  rw [hr] at htrust
  cases res with
  | error e => exact htrust
  | ok a => exact ((hf a).trust w₁).trans htrust

theorem now (env : Env) : Unaware (Txn.now env) := .of_view (fun _ => rfl) (fun _ => rfl) fun _ => rfl

theorem mint (env : Env) (kind : String) : Unaware (Txn.mint env kind) :=
  .of_view (fun _ => rfl) (fun _ => rfl) fun _ => rfl

theorem balance (account : AccountRef) : Unaware (Txn.balance account) := .read fun _ => rfl

theorem postEntry (env : Env) (posting : Posting) : Unaware (Txn.postEntry env posting) := by
  apply of_view
  · exact fun w => (postEntry_closed env.digest (env.clock w.ticks) posting w.ledger).1
  · intro w
    exact World.view_ledger (postEntry_closed env.digest (env.clock w.ticks) posting w.ledger).2 _
  · exact fun _ => rfl

/-! ### Writes of rows -/

theorem entitlement (write : EntitlementWrite) : Unaware (Txn.entitlement write) := by
  apply of_view (fun _ => rfl) ?_ fun _ => rfl
  intro w
  have hrows : ∀ j : Journaled (OrderedTable String EntitlementRow),
      (write.run j).closed = (write.run j.closed).closed := by
    intro j
    cases write with
    | grant userId sku attrs => rfl
    | revoke userId sku =>
      have hclosed : j.closed.rows = j.rows := rfl
      simp only [EntitlementWrite.run, hclosed]
      split
      · rfl
      · split
        · rfl
        · rfl
  exact congrArg (fun j => { w.view with entitlements := j }) (hrows w.entitlements)

theorem sale (write : SaleWrite) : Unaware (Txn.sale write) := by
  cases write with
  | put sale => exact .of_view (fun _ => rfl) (fun _ => rfl) fun _ => rfl

theorem subscription (write : SubscriptionWrite) : Unaware (Txn.subscription write) := by
  apply of_view (fun _ => rfl) ?_ fun _ => rfl
  intro w
  have hrows : ∀ j : Journaled (OrderedTable String Subscription),
      (write.run j).closed = (write.run j.closed).closed := by
    intro j
    have hclosed : j.closed.rows = j.rows := rfl
    cases write with
    | start sub => rfl
    | cancel id =>
      simp only [SubscriptionWrite.run, hclosed]
      split <;> rfl
    | markBilled id nextDueAt expectedDueAt =>
      simp only [SubscriptionWrite.run, hclosed]
      split
      · rfl
      · split <;> rfl
    | markLapsed id =>
      simp only [SubscriptionWrite.run, hclosed]
      split <;> rfl
  exact congrArg (fun j => { w.view with subscriptions := j }) (hrows w.subscriptions)

/-- What a write does to the rows of the sagas does not depend on their journal. -/
theorem sagaWrite_closed (write : SagaWrite) (j : Journaled SagaTables) :
    (write.run j).closed = (write.run j.closed).closed := by
  have hput : ∀ (j : Journaled SagaTables) id saga,
      (SagaTables.putSaga j id saga).closed = (SagaTables.putSaga j.closed id saga).closed :=
    fun _ _ _ => rfl
  have hbump : ∀ (j j' : Journaled SagaTables) userId updatedAt, j.rows = j'.rows →
      (SagaTables.bumpLast userId updatedAt j).closed =
      (SagaTables.bumpLast userId updatedAt j').closed := by
    intro j j' userId updatedAt h
    simp only [SagaTables.bumpLast, h]
    split
    · exact congrArg (Journaled.mk · none) h
    · rfl
  have hclosed : j.closed.rows = j.rows := rfl
  cases write with
  | start saga => exact hbump _ _ _ _ rfl
  | advance id source target patch =>
    simp only [SagaWrite.run, hclosed]
    split
    · rfl
    · split
      · exact hbump _ _ _ _ rfl
      · rfl
  | deadLetter id reason =>
    simp only [SagaWrite.run, hclosed]
    split
    · rfl
    · exact hput _ _ _

theorem saga (write : SagaWrite) : Unaware (Txn.saga write) := by
  apply of_view (fun _ => rfl) ?_ fun _ => rfl
  exact fun w => congrArg (fun j => { w.view with sagas := j }) (sagaWrite_closed write w.sagas)

theorem advanceSaga (id : String) (source target : SagaState) (patch : Saga → Saga) :
    Unaware (Txn.advanceSaga id source target patch) := by
  apply of_view (fun _ => rfl) ?_ fun _ => rfl
  exact fun w => congrArg (fun j => { w.view with sagas := j }) (sagaWrite_closed _ w.sagas)

theorem promo (write : PromoWrite) : Unaware (Txn.promo write) := by
  apply of_view (fun _ => rfl) ?_ fun _ => rfl
  intro w
  have hrows : ∀ j : Journaled (OrderedTable String PromoGrant),
      (write.run j).closed = (write.run j.closed).closed := by
    intro j
    have hclosed : j.closed.rows = j.rows := rfl
    cases write with
    | start grant =>
      simp only [PromoWrite.run, hclosed]
      split <;> rfl
    | markReversed id =>
      simp only [PromoWrite.run, hclosed]
      split
      · rfl
      · split <;> rfl
  exact congrArg (fun j => { w.view with promos := j }) (hrows w.promos)

theorem enqueue (env : Env) (message : OutboxMessage) : Unaware (Txn.enqueue env message) :=
  .of_view (fun _ => rfl) (fun _ => rfl) fun _ => rfl

theorem emit (env : Env) (draft : EventDraft) : Unaware (Txn.emit env draft) := by
  apply (mint env "evt").bind
  intro id
  apply (now env).bind
  intro occurredAt
  apply (mint env "obx").bind
  exact fun messageId => enqueue env _

theorem putAccruals (batch : List AccrualRow) : Unaware (Txn.putAccruals batch) := by
  apply of_view (fun _ => rfl) ?_ fun _ => rfl
  intro w
  have hrows : ∀ j j' : Journaled AccrualTables, j.rows = j'.rows →
      (AccrualTables.put batch j).closed = (AccrualTables.put batch j').closed := by
    induction batch with
    | nil => exact fun j j' h => congrArg (Journaled.mk · none) h
    | cons row batch ih =>
      intro j j' h
      unfold AccrualTables.put
      rw [h]
      split
      · exact congrArg (Journaled.mk · none) h
      · exact ih _ _ rfl
  exact World.view_accruals (hrows w.accruals w.view.accruals rfl)

theorem markAccruals (keys : List (String × String × Nat)) (status : AccrualStatus)
    (settledTxnId : String) :
    Unaware (Txn.markAccruals keys status settledTxnId) := by
  apply of_view (fun _ => rfl) ?_ fun _ => rfl
  intro w
  have hrows : ∀ j j' : Journaled AccrualTables, j.rows = j'.rows →
      (keys.foldl (AccrualTables.markOne status settledTxnId) j).closed =
        (keys.foldl (AccrualTables.markOne status settledTxnId) j').closed := by
    induction keys with
    | nil => exact fun j j' h => congrArg (Journaled.mk · none) h
    | cons key keys ih =>
      intro j j' h
      apply ih
      unfold AccrualTables.markOne
      rw [h]
      simp only
      split
      · exact h
      · split
        · rfl
        · exact h
  exact World.view_accruals (hrows w.accruals w.view.accruals rfl)

end Unaware

theorem SameRun.bind {x y : Txn α} {f g : α → Txn β} {w w' : World} (h : SameRun (x.run w) (y.run w'))
    (hf : ∀ a w₁ w₁', x.run w = (.ok a, w₁) → y.run w' = (.ok a, w₁') → w₁.view = w₁'.view →
      SameRun ((f a).run w₁) ((g a).run w₁')) :
    SameRun ((x >>= f).run w) ((y >>= g).run w') := by
  rw [run_bind, run_bind]
  rcases hx : x.run w with ⟨res, w₁⟩
  rcases hy : y.run w' with ⟨res', w₁'⟩
  rw [hx, hy] at h
  obtain ⟨hanswer, hview⟩ := h
  simp only at hanswer hview
  subst hanswer
  cases res with
  | error e => exact ⟨rfl, hview⟩
  | ok a => exact hf a w₁ w₁' hx hy hview

theorem claiming_trust (env : Env) (key : String) {onDuplicate : Transaction → Txn α}
    {body : Txn ((Transaction × β) ⊕ α)} {after : Transaction → β → Txn α}
    (hd : ∀ txn, Unaware (onDuplicate txn)) (ha : ∀ txn b, Unaware (after txn b)) (w : World) :
    ((claiming env key onDuplicate body after).run w).2.trust =
      match w.idempotency.rows.committed.get key with
      | some _ => w.trust
      | none =>
        (body.run (w.withIdempotency (claimKey (env.clock w.ticks) key w.idempotency))).2.trust := by
  unfold claiming
  simp only
  cases w.idempotency.rows.committed.get key with
  | some txn => exact (hd txn).trust w
  | none =>
    simp only
    rcases hr : body.run (w.withIdempotency (claimKey (env.clock w.ticks) key w.idempotency)) with ⟨res, v⟩
    cases res with
    | error e => rfl
    | ok out =>
      cases out with
      | inr outcome => rfl
      | inl out => exact (ha out.1 out.2).trust _

theorem claiming_same (env : Env) (key : String) {onDuplicate : Transaction → Txn α}
    {body body' : Txn ((Transaction × β) ⊕ α)} {after : Transaction → β → Txn α}
    (hd : ∀ txn, Unaware (onDuplicate txn)) (ha : ∀ txn b, Unaware (after txn b)) {w w' : World}
    (hw : w.view = w'.view)
    (hbody : w.idempotency.rows.committed.get key = none →
      SameRun (body.run (w.withIdempotency (claimKey (env.clock w.ticks) key w.idempotency)))
        (body'.run (w'.withIdempotency (claimKey (env.clock w'.ticks) key w'.idempotency)))) :
    SameRun ((claiming env key onDuplicate body after).run w)
      ((claiming env key onDuplicate body' after).run w') := by
  have hrows := World.view_committed hw
  have hticks := World.view_ticks hw
  unfold claiming
  simp only [hrows, hticks]
  cases hcommitted : w'.idempotency.rows.committed.get key with
  | some txn => exact (hd txn).same hw
  | none =>
    replace hbody := hbody (hrows ▸ hcommitted)
    rw [hticks] at hbody
    simp only
    rcases hr : body.run (w.withIdempotency (claimKey (env.clock w'.ticks) key w.idempotency)) with
        ⟨res, v⟩
    rcases hr' : body'.run (w'.withIdempotency (claimKey (env.clock w'.ticks) key w'.idempotency)) with
      ⟨res', v'⟩
    rw [hr, hr'] at hbody
    obtain ⟨hanswer, hview⟩ := hbody
    simp only at hanswer hview
    subst hanswer
    cases res with
    | error e => exact ⟨rfl, hview⟩
    | ok out =>
      cases out with
      | inr outcome => exact ⟨rfl, hview⟩
      | inl out =>
        have hrecorded := World.view_withIdempotency hview
          (recordKey_rows (World.view_committed hview) (env.clock v.ticks) key out.1)
        simp only
        rw [← World.view_ticks hview]
        exact (ha out.1 out.2).same hrecorded

theorem Unaware.claiming (env : Env) (key : String) {onDuplicate : Transaction → Txn α}
    {body : Txn ((Transaction × β) ⊕ α)} {after : Transaction → β → Txn α}
    (hd : ∀ txn, Unaware (onDuplicate txn)) (hb : Unaware body) (ha : ∀ txn b, Unaware (after txn b)) :
    Unaware (Txn.claiming env key onDuplicate body after) := by
  have hrun : ∀ {w w' : World}, w.view = w'.view →
      SameRun ((Txn.claiming env key onDuplicate body after).run w)
        ((Txn.claiming env key onDuplicate body after).run w') := by
    intro w w' hw
    apply claiming_same env key hd ha hw
    intro _
    apply hb.same
    rw [World.view_ticks hw]
    exact World.view_withIdempotency hw (claimKey_rows (World.view_committed hw) _ key)
  refine ⟨fun hw => (hrun hw).answer, fun hw => (hrun hw).view, ?_⟩
  intro w
  rw [claiming_trust env key hd ha w]
  split
  · rfl
  · exact hb.trust _

end Txn

end EconomyLab
