import EconomyLab.Ledger.Runs
import EconomyLab.Stores.World

/-!
# What a unit of work may do

The ledger and idempotency methods of a transaction's unit, each with the proof that a
rollback takes it back.
-/

namespace EconomyLab

open Foundation

theorem applyPosting_sound {w : World} (h : w.Sound) (row : StoredPosting)
    (next : Table AccountRef Int) :
    NoEmptyLots (applyPosting w.ledger.tables row next).lotIndexByAccount ∧
      CompactColumns (applyPosting w.ledger.tables row next).deltaColumns :=
  ⟨(foldl_pushLot h.lots _ _).1, (foldl_appendDelta h.columns _).1⟩

theorem postEntry_undoable (digest : Digest) (now : Int) (posting : Posting) {w : World}
    (h : w.Sound) (ticks : Nat) :
    w.Extends { w with ledger := (postEntry digest now posting w.ledger).2, ticks := ticks } := by
  rcases postEntry_book digest now posting w.ledger with
    ⟨e, -, hbook⟩ | ⟨txn, row, next, -, -, hnext, -, -, hbook⟩
  · have hr := World.Extends.refl h
    refine ⟨?_, hr.idempotency, hr.sales, hr.outbox, hr.sagas, hr.entitlements, hr.subscriptions,
      hr.promos, hr.accruals, rfl, rfl, ?_⟩
    · simp only [hbook]
      exact hr.ledger
    · constructor <;> simp only [MemoryLedger.tables, hbook]
      · exact h.lots
      · exact h.columns
  · have hr := World.Extends.refl h
    refine ⟨?_, hr.idempotency, hr.sales, hr.outbox, hr.sagas, hr.entitlements, hr.subscriptions,
      hr.promos, hr.accruals, rfl, rfl, ?_⟩
    · simp only [hbook]
      exact Journaled.Extends.write _ (undoPosting_applyPosting h.lots h.columns hnext)
    · obtain ⟨hl, hc⟩ := applyPosting_sound h row next
      constructor <;> simp only [MemoryLedger.tables, hbook, Journaled.write, Journaled.record]
      · exact hl
      · exact hc

namespace Txn

def postEntry (env : Env) (posting : Posting) : Txn Transaction where
  run w :=
    let posted := EconomyLab.postEntry env.digest (env.clock w.ticks) posting w.ledger
    (posted.1, { w with ledger := posted.2, ticks := w.ticks + 1 })
  undoable _ h := postEntry_undoable env.digest _ posting h _

def findPosting (txnId : String) : Txn (Option Posting) :=
  read fun w => .ok (w.ledger.tables.findPosting txnId)

def balance (account : AccountRef) : Txn Amount := read fun w => w.ledger.tables.balance account

def now (env : Env) : Txn Int where
  run w := (.ok (env.clock w.ticks), { w with ticks := w.ticks + 1 })
  undoable _ h := ⟨Journaled.Extends.refl _, AddsKeys.refl _, Journaled.Extends.refl _,
    Journaled.Extends.refl _, Journaled.Extends.refl _, Journaled.Extends.refl _,
    Journaled.Extends.refl _, Journaled.Extends.refl _, Journaled.Extends.refl _, rfl, rfl,
    ⟨h.lots, h.columns⟩⟩

end Txn

def claimKey (bornAt : Int) (key : String) (j : Journaled IdempotencyTables) :
    Journaled IdempotencyTables :=
  let hadAt := j.rows.bornAt.has key
  j.write { j.rows with bornAt := if hadAt then j.rows.bornAt else j.rows.bornAt.set key bornAt }
    fun t => { t with bornAt := if hadAt then t.bornAt else t.bornAt.delete key }

def recordKey (bornAt : Int) (key : String) (txn : Transaction) (j : Journaled IdempotencyTables) :
    Journaled IdempotencyTables :=
  let hadAt := j.rows.bornAt.has key
  j.write { committed := j.rows.committed.set key txn
            bornAt := if hadAt then j.rows.bornAt else j.rows.bornAt.set key bornAt }
    fun t => { committed := t.committed.delete key
               bornAt := if hadAt then t.bornAt else t.bornAt.delete key }

theorem claimKey_addsKeys (bornAt : Int) (key : String) (j : Journaled IdempotencyTables) :
    AddsKeys j (claimKey bornAt key j) := by
  obtain ⟨⟨committed, at_⟩, undos⟩ := j
  cases undos with
  | none => trivial
  | some undos =>
    by_cases hat : at_.has key
    · refine ⟨[_], [], [], rfl, ?_, by
        simp, by
        simp, by
        simp [claimKey, Journaled.write, Journaled.record], by
        simp [claimKey, Journaled.write, Journaled.record, hat]⟩
      intro t
      simp [Journaled.unwind, IdempotencyTables.without, hat]
    · refine ⟨[_], [], [key], rfl, ?_, by simp, ?_, by simp [claimKey, Journaled.write, Journaled.record],
        ?_⟩
      · intro t
        simp only [Journaled.unwind, hat, Bool.false_eq_true, if_false]
        simp only [IdempotencyTables.without, Table.delete, List.not_mem_nil, if_false,
          List.mem_singleton]
      · simpa [Table.has] using hat
      · intro k hk
        simp only [List.mem_singleton] at hk
        simp [claimKey, Journaled.write, Journaled.record, hat, hk]

/-- A record after a granted claim: what ran in between may have recorded the same key. -/
theorem recordKey_addsKeys (bornAt : Int) {key : String} (txn : Transaction)
    {j j' : Journaled IdempotencyTables} (h : AddsKeys j j') (hk : j.rows.committed.get key = none) :
    AddsKeys j (recordKey bornAt key txn j') := by
  unfold AddsKeys at *
  cases hu : j.undos with
  | none =>
    cases hu' : j'.undos with
    | none => simp [recordKey, Journaled.write, Journaled.record, hu']
    | some us => simp [hu, hu'] at h
  | some us =>
    cases hu' : j'.undos with
    | none => simp [hu, hu'] at h
    | some us' =>
      simp only [hu, hu'] at h
      obtain ⟨new, keys, born, rfl, hun, hkeys, hborn, hsame, hbsame⟩ := h
      have hundos : (recordKey bornAt key txn j').undos = some ((fun t : IdempotencyTables =>
          { committed := t.committed.delete key
            bornAt := if j'.rows.bornAt.has key then t.bornAt else t.bornAt.delete key }) ::
            (new ++ us)) := by
        simp [recordKey, Journaled.write, Journaled.record, hu']
      simp only [hundos]
      have hcommitted : ∀ k, k ∉ key :: keys →
          (recordKey bornAt key txn j').rows.committed.get k = j.rows.committed.get k := by
        intro k hkm
        rw [List.mem_cons, not_or] at hkm
        rw [← hsame k hkm.2]
        simp [recordKey, Journaled.write, Journaled.record, hkm.1]
      by_cases hat : j'.rows.bornAt.has key
      · refine ⟨_ :: new, key :: keys, born, rfl, ?_, ?_, hborn, hcommitted, ?_⟩
        · intro t
          simp only [Journaled.unwind, hat, if_true, hun, IdempotencyTables.without]
          congr 1
          ext1 k
          by_cases h1 : k = key <;> by_cases h2 : k ∈ keys <;> simp [h1, h2]
        · intro k hkm
          rcases List.mem_cons.mp hkm with rfl | hkm
          · exact hk
          · exact hkeys k hkm
        · intro k hkm
          simpa [recordKey, Journaled.write, Journaled.record, hat] using hbsame k hkm
      · refine ⟨_ :: new, key :: keys, key :: born, rfl, ?_, ?_, ?_, hcommitted, ?_⟩
        · intro t
          simp only [Journaled.unwind, hat, Bool.false_eq_true, if_false, hun,
            IdempotencyTables.without]
          congr 1
          · ext1 k
            by_cases h1 : k = key <;> by_cases h2 : k ∈ keys <;> simp [h1, h2]
          · ext1 k
            by_cases h1 : k = key <;> by_cases h2 : k ∈ born <;> simp [h1, h2]
        · intro k hkm
          rcases List.mem_cons.mp hkm with rfl | hkm
          · exact hk
          · exact hkeys k hkm
        · intro k hkm
          rcases List.mem_cons.mp hkm with rfl | hkm
          · by_cases hb : k ∈ born
            · exact hborn k hb
            · rw [← hbsame k hb]
              simpa [Table.has] using hat
          · exact hborn k hkm
        · intro k hkm
          rw [List.mem_cons, not_or] at hkm
          rw [← hbsame k hkm.2]
          simp [recordKey, Journaled.write, Journaled.record, hat, hkm.1]

namespace World

def withIdempotency (w : World) (j : Journaled IdempotencyTables) : World :=
  { w with idempotency := j, ticks := w.ticks + 1 }

theorem Extends.withIdempotency {w w' : World} (h : w.Extends w') {j : Journaled IdempotencyTables}
    (hj : AddsKeys w.idempotency j) : w.Extends (w'.withIdempotency j) :=
  ⟨h.ledger, hj, h.sales, h.outbox, h.sagas, h.entitlements, h.subscriptions, h.promos, h.accruals,
    h.movements, h.reservations, ⟨h.sound.lots, h.sound.columns⟩⟩

end World

namespace Txn

variable {α β : Type}

/-- Claim a key, do the work, record its transaction under the key, and go on. A committed key
answers its transaction instead; work that ends early records nothing. -/
def claiming (env : Env) (key : String) (onDuplicate : Transaction → Txn α)
    (body : Txn ((Transaction × β) ⊕ α)) (after : Transaction → β → Txn α) : Txn α where
  run w :=
    match w.idempotency.rows.committed.get key with
    | some txn => (onDuplicate txn).run w
    | none =>
      match body.run (w.withIdempotency (claimKey (env.clock w.ticks) key w.idempotency)) with
      | (.error e, w') => (.error e, w')
      | (.ok (.inr a), w') => (.ok a, w')
      | (.ok (.inl (txn, b)), w') =>
        (after txn b).run
          (w'.withIdempotency (recordKey (env.clock w'.ticks) key txn w'.idempotency))
  undoable := by
    intro w hw
    cases hc : w.idempotency.rows.committed.get key with
    | some txn => exact (onDuplicate txn).undoable w hw
    | none =>
      have hclaim := (World.Extends.refl hw).withIdempotency
        (claimKey_addsKeys (env.clock w.ticks) key w.idempotency)
      have hbody := hclaim.trans (body.undoable _ hclaim.sound)
      simp only
      rcases hb : body.run
        (w.withIdempotency (claimKey (env.clock w.ticks) key w.idempotency)) with ⟨res, w'⟩
      rw [hb] at hbody
      cases res with
      | error e => exact hbody
      | ok out =>
        cases out with
        | inr a => exact hbody
        | inl out =>
          have hrec := hbody.withIdempotency
            (recordKey_addsKeys (env.clock w'.ticks) out.1 hbody.idempotency hc)
          exact hrec.trans ((after out.1 out.2).undoable _ hrec.sound)

section Related

variable (R : World → World → Prop) (trans : ∀ {w w' w''}, R w w' → R w' w'' → R w w'')

include trans

theorem bind_related {x : Txn α} {f : α → Txn β} (hx : ∀ w, R w (x.run w).2)
    (hf : ∀ a w, R w ((f a).run w).2) (w : World) : R w ((x >>= f).run w).2 := by
  have hfirst := hx w
  rw [run_bind]
  rcases hr : x.run w with ⟨res, w'⟩
  rw [hr] at hfirst
  cases res with
  | error e => exact hfirst
  | ok a => exact trans hfirst (hf a w')

theorem claiming_related {env : Env} {key : String} {onDuplicate : Transaction → Txn α}
    {body : Txn ((Transaction × β) ⊕ α)} {after : Transaction → β → Txn α}
    (hkeys : ∀ w j, R w (w.withIdempotency j))
    (hduplicate : ∀ transaction w, R w ((onDuplicate transaction).run w).2)
    (hbody : ∀ w, R w (body.run w).2) (hafter : ∀ transaction b w, R w ((after transaction b).run w).2)
    (w : World) : R w ((claiming env key onDuplicate body after).run w).2 := by
  unfold claiming
  simp only
  cases w.idempotency.rows.committed.get key with
  | some transaction => exact hduplicate transaction w
  | none =>
    have hclaimed := trans (hkeys w (claimKey (env.clock w.ticks) key w.idempotency)) (hbody _)
    simp only
    rcases hr : body.run (w.withIdempotency (claimKey (env.clock w.ticks) key w.idempotency)) with
        ⟨res, w'⟩
    rw [hr] at hclaimed
    cases res with
    | error e => exact hclaimed
    | ok out =>
      cases out with
      | inr a => exact hclaimed
      | inl out => exact trans (trans hclaimed (hkeys w' _)) (hafter out.1 out.2 _)

end Related

end Txn

end EconomyLab
