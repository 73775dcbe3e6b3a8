import EconomyLab.Economy.Registry
import EconomyLab.Economy.Sequence

/-!
# What a submit does to the store

Before the handler starts, the pipeline stakes the key and measures a velocity window; after it,
the transaction is filed under the key and an event follows. All else that a submit does to the
rows is its handler's, and an operation that does not commit leaves them as they were.
-/

namespace EconomyLab

open Foundation

/-! ## The probes -/

def Txn.ReadsOnly {α : Type} (x : Txn α) : Prop := ∀ w, (x.run w).2 = w

namespace Txn.ReadsOnly

variable {α β : Type}

theorem read (f : World → Except Fault α) : ReadsOnly (.read f) := fun _ => rfl

theorem bind {x : Txn α} {f : α → Txn β} (hx : ReadsOnly x) (hf : ∀ a, ReadsOnly (f a)) :
    ReadsOnly (x >>= f) := by
  intro w
  have hw := hx w
  rcases hr : x.run w with ⟨res, w'⟩
  rw [hr] at hw
  obtain rfl : w' = w := hw
  cases res with
  | error e => rw [Txn.run_bind_error hr]
  | ok a =>
    rw [Txn.run_bind_ok hr]
    exact hf a w'

end Txn.ReadsOnly

/-- What ends the work early is no commit. -/
def Txn.Refuses (x : Txn (Option Outcome)) : Prop :=
  ∀ w outcome w', x.run w = (.ok (some outcome), w') → ∀ transaction, outcome ≠ .committed transaction

namespace Txn.Refuses

theorem bind {α : Type} {x : Txn α} {f : α → Txn (Option Outcome)} (hf : ∀ a, Refuses (f a)) :
    Refuses (x >>= f) := by
  intro w outcome w' h
  obtain ⟨a, w₁, -, h⟩ := Txn.bind_ok h
  exact hf a w₁ outcome w' h

theorem none : Refuses (Pure.pure .none) := by
  intro w outcome w' h
  cases h

theorem rejected (detail : RejectionDetail) : Refuses (Pure.pure (.some (.rejected detail))) := by
  intro w outcome w' h transaction
  cases h
  exact Outcome.noConfusion

end Txn.Refuses

structure Catalog.Orderly {Op : Type} (p : Catalog Op) : Prop where
  preClaim : ∀ op, Txn.ReadsOnly (p.preClaim op)
  refuses : ∀ op, Txn.Refuses (p.preClaim op)
  fundsNeeded : ∀ op, Txn.ReadsOnly (p.fundsNeeded op)
  keys : ∀ env config op w key, isReversalKey key = false →
    ((p.handler env config op).run w).2.idempotency.rows.committed.get key =
      w.idempotency.rows.committed.get key

theorem registry_orderly (ports : Ports) : (registry ports).Orderly where
  preClaim := by
    intro operation
    cases operation with
    | spend o => exact Txn.ReadsOnly.bind (.read _) fun _ _ => rfl
    | _ => exact fun _ => rfl
  refuses := by
    intro operation
    cases operation with
    | spend o =>
      apply Txn.Refuses.bind
      intro existing
      cases existing with
      | none => exact .none
      | some sale => exact .rejected _
    | _ => exact .none
  fundsNeeded := by
    intro operation
    cases operation with
    | spend o => exact Txn.ReadsOnly.bind (.read _) fun _ => .bind (fun _ => rfl) fun _ _ => rfl
    | _ => exact fun _ => rfl
  keys env config operation := (handlerOf ports env config operation).keys

/-- All rows are the same but for keys that wait and for the velocity windows. -/
structure World.Fronts (w w' : World) : Prop where
  ledger : w'.ledger.tables = w.ledger.tables
  committed : w'.idempotency.rows.committed = w.idempotency.rows.committed
  sales : w'.sales.rows = w.sales.rows
  outbox : w'.outbox.rows = w.outbox.rows
  sagas : w'.sagas.rows = w.sagas.rows
  entitlements : w'.entitlements.rows = w.entitlements.rows
  subscriptions : w'.subscriptions.rows = w.subscriptions.rows
  promos : w'.promos.rows = w.promos.rows
  accruals : w'.accruals.rows = w.accruals.rows
  minted : w'.minted = w.minted

namespace World.Fronts

theorem refl (w : World) : w.Fronts w := ⟨rfl, rfl, rfl, rfl, rfl, rfl, rfl, rfl, rfl, rfl⟩

theorem trans {w w' w'' : World} (h : w.Fronts w') (h' : w'.Fronts w'') : w.Fronts w'' :=
  ⟨h'.ledger.trans h.ledger, h'.committed.trans h.committed, h'.sales.trans h.sales,
    h'.outbox.trans h.outbox,
    h'.sagas.trans h.sagas, h'.entitlements.trans h.entitlements, h'.subscriptions.trans h.subscriptions,
    h'.promos.trans h.promos, h'.accruals.trans h.accruals, h'.minted.trans h.minted⟩

end World.Fronts

structure World.Files (key : String) (transaction : Transaction) (w w' : World) : Prop where
  ledger : w'.ledger.tables = w.ledger.tables
  committed : w'.idempotency.rows.committed = w.idempotency.rows.committed.set key transaction
  sales : w'.sales.rows = w.sales.rows
  sagas : w'.sagas.rows = w.sagas.rows
  entitlements : w'.entitlements.rows = w.entitlements.rows
  subscriptions : w'.subscriptions.rows = w.subscriptions.rows
  promos : w'.promos.rows = w.promos.rows
  accruals : w'.accruals.rows = w.accruals.rows

section Pipeline

variable {Op : Type} {p : Catalog Op} (env : Env) (config : Config) (op : Op)

theorem claimKey_fronts (key : String) (w : World) :
    w.Fronts (w.withIdempotency (claimKey (env.clock w.ticks) key w.idempotency)) := by
  refine ⟨rfl, ?_, rfl, rfl, rfl, rfl, rfl, rfl, rfl, rfl⟩
  simp only [World.withIdempotency, claimKey, Journaled.write, Journaled.record]

theorem heardRisk_fronts (verdict : Except Fault (Option Outcome)) (w : World) :
    w.Fronts ((heardRisk p env op verdict).run w).2 := by
  unfold heardRisk
  split
  · have hnow : (Txn.now env).run w = (.ok (env.clock w.ticks), { w with ticks := w.ticks + 1 }) := rfl
    rw [Txn.run_bind_ok hnow]
    split
    · exact ⟨rfl, rfl, rfl, rfl, rfl, rfl, rfl, rfl, rfl, rfl⟩
    · rename_i check _
      cases check with
      | error e => exact ⟨rfl, rfl, rfl, rfl, rfl, rfl, rfl, rfl, rfl, rfl⟩
      | ok check => exact ⟨rfl, rfl, rfl, rfl, rfl, rfl, rfl, rfl, rfl, rfl⟩
  · exact .refl w

theorem screenRisk_fronts (w : World) : w.Fronts ((screenRisk p env config op).run w).2 := by
  rw [(screenRisk_run p env config op w).2]
  obtain ⟨hl, hk, hs, ho, hg, he, hu, hp, ha, hm⟩ :=
    heardRisk_fronts (p := p) env op (verdictAt p env config op w) w
  exact ⟨hl, hk, hs, ho, hg, he, hu, hp, ha, hm⟩

theorem screenNeeds_reads (needs : List (AccountRef × Amount)) : Txn.ReadsOnly (screenNeeds needs) := by
  induction needs with
  | nil => exact fun _ => rfl
  | cons need needs ih =>
    obtain ⟨account, amount⟩ := need
    unfold screenNeeds
    apply Txn.ReadsOnly.bind (.read _)
    intro have_
    apply Txn.ReadsOnly.bind fun _ => rfl
    intro _
    split
    · exact fun _ => rfl
    · exact ih

theorem screenFunds_reads (hp : p.Orderly) : Txn.ReadsOnly (screenFunds p op) :=
  (hp.fundsNeeded op).bind screenNeeds_reads

theorem screenNeeds_refuses (needs : List (AccountRef × Amount)) : Txn.Refuses (screenNeeds needs) := by
  induction needs with
  | nil => exact .none
  | cons need needs ih =>
    obtain ⟨account, amount⟩ := need
    unfold screenNeeds
    apply Txn.Refuses.bind
    intro have_
    apply Txn.Refuses.bind
    intro _
    split
    · exact .rejected _
    · exact ih

theorem screenRisk_refuses : Txn.Refuses (screenRisk p env config op) := by
  unfold screenRisk
  split
  · apply Txn.Refuses.bind
    intro now
    split
    · exact .none
    · apply Txn.Refuses.bind
      intro check
      apply Txn.Refuses.bind
      intro velocity
      unfold riskVerdict
      split
      · exact .rejected _
      · exact .none
  · exact .none

variable {w w' : World} {transaction : Transaction}

/-- What the work answers without a transaction is no commit. -/
theorem claimedBody_inr (hp : p.Orderly) {outcome : Outcome}
    (h : (claimedBody p env config op (screenRisk p env config op)).run w = (.ok (.inr outcome), w'))
    (transaction : Transaction) : outcome ≠ .committed transaction := by
  obtain ⟨duplicate, w₁, hprobe, h⟩ := Txn.bind_ok h
  cases duplicate with
  | some duplicate =>
    cases h
    exact hp.refuses op _ _ _ hprobe transaction
  | none =>
    obtain ⟨denied, w₂, hrisk, h⟩ := Txn.bind_ok h
    cases denied with
    | some denied =>
      cases h
      exact screenRisk_refuses env config op _ _ _ hrisk transaction
    | none =>
      obtain ⟨refused, w₃, hfunds, h⟩ := Txn.bind_ok h
      cases refused with
      | some refused =>
        cases h
        have hrefuses : Txn.Refuses (screenFunds p op) := Txn.Refuses.bind screenNeeds_refuses
        exact hrefuses _ _ _ hfunds transaction
      | none =>
        obtain ⟨answer, w₄, -, h⟩ := Txn.bind_ok h
        cases answer with
        | committed t => cases h
        | duplicate t =>
          cases h
          exact Outcome.noConfusion
        | rejected detail =>
          cases h
          exact Outcome.noConfusion

/-- The work of an operation that ends in a transaction ran its handler in the store as it was, and
filed what the handler answered. -/
theorem settleClaimed_inl (hp : p.Orderly)
    (h : (settleClaimed p env config op).run w = (.ok (.inl (transaction, ())), w')) :
    (p.handler env config op).run w = (.ok (.committed transaction), w') := by
  obtain ⟨refused, w₁, hfunds, h⟩ := Txn.bind_ok h
  have hsame := screenFunds_reads op hp w
  rw [hfunds] at hsame
  obtain rfl : w₁ = w := hsame
  cases refused with
  | some refused => cases h
  | none =>
    obtain ⟨outcome, w₂, hhandler, h⟩ := Txn.bind_ok h
    cases outcome with
    | committed t =>
      cases h
      exact hhandler
    | duplicate t => cases h
    | rejected detail => cases h

theorem claimedBody_inl (hp : p.Orderly)
    (h : (claimedBody p env config op (screenRisk p env config op)).run w =
      (.ok (.inl (transaction, ())), w')) :
    ∃ w₁, w.Fronts w₁ ∧ (p.handler env config op).run w₁ = (.ok (.committed transaction), w') := by
  obtain ⟨duplicate, w₁, hprobe, h⟩ := Txn.bind_ok h
  have hsame := hp.preClaim op w
  rw [hprobe] at hsame
  obtain rfl : w₁ = w := hsame
  cases duplicate with
  | some duplicate => cases h
  | none =>
    obtain ⟨denied, w₂, hrisk, h⟩ := Txn.bind_ok h
    have hfronts := screenRisk_fronts (p := p) env config op w₁
    rw [hrisk] at hfronts
    cases denied with
    | some denied => cases h
    | none => exact ⟨w₂, hfronts, settleClaimed_inl env config op hp h⟩

theorem claimedAfter_files {outcome : Outcome}
    (h : (claimedAfter p env op transaction).run w = (.ok outcome, w')) :
    outcome = .committed transaction ∧ ∃ outbox minted ticks, w' = { w with outbox, minted, ticks } := by
  obtain ⟨_, w₁, hevents, h⟩ := Txn.bind_ok h
  cases h
  refine ⟨rfl, ?_⟩
  unfold emitEvents at hevents
  split at hevents
  · cases hevents
    exact ⟨w.outbox, w.minted, w.ticks, rfl⟩
  · obtain ⟨id, w₂, hid, hevents⟩ := Txn.bind_ok hevents
    obtain ⟨messageId, w₃, hmessage, hevents⟩ := Txn.bind_ok hevents
    obtain rfl : { w with minted := w.minted + 1 } = w₂ := congrArg Prod.snd hid
    obtain rfl : { w with minted := w.minted + 1 + 1 } = w₃ := congrArg Prod.snd hmessage
    exact ⟨_, _, _, (congrArg Prod.snd hevents).symm⟩

/-- A transaction that a submit's work ends in came out of its handler, in a store that was as the
work found it. -/
theorem runClaimed_committed (hp : p.Orderly)
    (hnew : w.idempotency.rows.committed.get (p.idempotencyKey op) = none)
    (h : (runClaimed p env config op).run w = (.ok (.committed transaction), w')) :
    ∃ w₁ w₂, w.Fronts w₁ ∧ (p.handler env config op).run w₁ = (.ok (.committed transaction), w₂) ∧
      w₂.Files (p.idempotencyKey op) transaction w' := by
  simp only [runClaimed, runClaimedOver, Txn.claiming, hnew] at h
  have hclaimed := claimKey_fronts env (p.idempotencyKey op) w
  rcases hbody : (claimedBody p env config op (screenRisk p env config op)).run
    (w.withIdempotency (claimKey (env.clock w.ticks) (p.idempotencyKey op) w.idempotency)) with ⟨res, w₂⟩
  rw [hbody] at h
  cases res with
  | error e => cases h
  | ok out =>
    cases out with
    | inr outcome =>
      cases h
      exact absurd rfl (claimedBody_inr env config op hp hbody transaction)
    | inl out =>
      obtain ⟨posted, _⟩ := out
      obtain ⟨w₁, hfronts, hhandler⟩ := claimedBody_inl env config op hp hbody
      obtain ⟨hsame, outbox, minted, ticks, rfl⟩ := claimedAfter_files env op h
      obtain rfl : transaction = posted := Outcome.committed.inj hsame
      exact ⟨w₁, w₂, hclaimed.trans hfronts, hhandler, rfl, rfl, rfl, rfl, rfl, rfl, rfl, rfl⟩

end Pipeline

theorem eq_of_slot {result : Slot × World} {slot : Slot} (h : result.1 = slot) :
    result = (slot, result.2) := by
  cases h
  rfl

def committedOf : Slot → Option Transaction
  | .ok (.committed transaction) => some transaction
  | _ => none

theorem committedOf_eq_some {slot : Slot} {transaction : Transaction} :
    committedOf slot = some transaction ↔ slot = .ok (.committed transaction) := by
  constructor
  · intro h
    unfold committedOf at h
    split at h
    · cases h
      rfl
    · cases h
  · rintro rfl
    rfl

theorem begin_some {σ : Type} {j j' : Journaled σ} (h : j.begin = some j') :
    j.undos = none ∧ j' = { j with undos := some [] } := by
  unfold Journaled.begin at h
  split at h
  · cases h
  · rename_i hnone
    cases h
    exact ⟨hnone, rfl⟩

theorem beginAll_some {w opened : World} (h : w.beginAll = some opened) :
    w.Closed ∧ opened = w.opened := by
  simp only [World.beginAll, Option.bind_eq_bind, Option.bind_eq_some_iff] at h
  obtain ⟨book, hbook, keys, hkeys, sales, hsales, outbox, houtbox, sagas, hsagas, entitlements,
    hentitlements,
    subscriptions, hsubscriptions, promos, hpromos, trust, htrust, accruals, haccruals, hopened⟩ := h
  obtain ⟨closed_book, rfl⟩ := begin_some hbook
  obtain ⟨closed_keys, rfl⟩ := begin_some hkeys
  obtain ⟨closed_sales, rfl⟩ := begin_some hsales
  obtain ⟨closed_outbox, rfl⟩ := begin_some houtbox
  obtain ⟨closed_sagas, rfl⟩ := begin_some hsagas
  obtain ⟨closed_entitlements, rfl⟩ := begin_some hentitlements
  obtain ⟨closed_subscriptions, rfl⟩ := begin_some hsubscriptions
  obtain ⟨closed_promos, rfl⟩ := begin_some hpromos
  obtain ⟨closed_trust, rfl⟩ := begin_some htrust
  obtain ⟨closed_accruals, rfl⟩ := begin_some haccruals
  exact ⟨⟨closed_book, closed_keys, closed_sales, closed_outbox, closed_sagas, closed_entitlements,
    closed_subscriptions, closed_promos, closed_accruals, closed_trust⟩,
    (Option.some.inj hopened).symm⟩

section Submit

variable {Op : Type} {p : Catalog Op} {env : Env} {config : Config} {op : Op} {now : Int} {w w' : World}
  {transaction : Transaction}

structure CommitsFrom (p : Catalog Op) (env : Env) (config : Config) (op : Op) (transaction : Transaction)
    (w w' : World) : Prop where
  valid : p.validateOperation config op = .ok ()
  authorized : p.authorize op = .ok ()
  free : w.idempotency.rows.committed.get (p.idempotencyKey op) = none
  handled : ∃ w₁ w₂, w.Fronts w₁ ∧ (p.handler env config op).run w₁ = (.ok (.committed transaction), w₂) ∧
    w₂.Files (p.idempotencyKey op) transaction w'

theorem screenOperation_passed (h : screenOperation p config op now = .ok none) :
    p.validateOperation config op = .ok () ∧ p.authorize op = .ok () := by
  obtain ⟨_, hvalid, h⟩ := except_bind_ok.mp h
  obtain ⟨_, hauthorized, -⟩ := except_bind_ok.mp h
  exact ⟨hvalid, hauthorized⟩

theorem screenOperation_refused {refused : Outcome}
    (h : screenOperation p config op now = .ok (some refused)) :
    refused = .rejected (.economyPaused config.pauseEndMs) := by
  obtain ⟨_, -, h⟩ := except_bind_ok.mp h
  obtain ⟨_, -, h⟩ := except_bind_ok.mp h
  split at h
  · exact (Option.some.inj (Except.ok.inj h)).symm
  · cases h

theorem submit_committed (hp : p.Orderly)
    (h : submit p env config op now w = (.ok (.committed transaction), w')) :
    CommitsFrom p env config op transaction w w' := by
  unfold submit at h
  cases hscreen : screenOperation p config op now with
  | error e =>
    rw [hscreen] at h
    cases h
  | ok refused =>
    rw [hscreen] at h
    cases refused with
    | some refused =>
      have hrefused := screenOperation_refused hscreen
      cases h
      cases hrefused
    | none =>
      obtain ⟨hvalid, hauthorized⟩ := screenOperation_passed hscreen
      cases hbegin : w.beginAll with
      | none =>
        rw [hbegin] at h
        cases h
      | some opened =>
        rw [hbegin] at h
        obtain ⟨-, rfl⟩ := beginAll_some hbegin
        rcases hrun : (runClaimed p env config op).run w.opened with ⟨res, done⟩
        simp only [hrun] at h
        have hres : res = .ok (.committed transaction) ∧ w' = done.commitAll := by
          cases res with
          | error e => cases h
          | ok outcome =>
            cases outcome with
            | rejected detail => cases h
            | duplicate t => cases h
            | committed t =>
              cases h
              exact ⟨rfl, rfl⟩
        obtain ⟨rfl, rfl⟩ := hres
        have hfree : w.opened.idempotency.rows.committed.get (p.idempotencyKey op) = none := by
          cases hget : w.opened.idempotency.rows.committed.get (p.idempotencyKey op) with
          | none => rfl
          | some recorded =>
            simp only [runClaimed, runClaimedOver, Txn.claiming, hget] at hrun
            cases hrun
        obtain ⟨w₁, w₂, hfronts, hhandler, hfiles⟩ := runClaimed_committed env config op hp hfree hrun
        obtain ⟨hl, hk, hs, ho, hg, he, hu, hpr, ha, hm⟩ := hfronts
        obtain ⟨fl, fk, fs, fg, fe, fu, fp, fa⟩ := hfiles
        exact ⟨hvalid, hauthorized, hfree, w₁, w₂, ⟨hl, hk, hs, ho, hg, he, hu, hpr, ha, hm⟩, hhandler,
          ⟨fl, fk, fs, fg, fe, fu, fp, fa⟩⟩

end Submit

end EconomyLab
