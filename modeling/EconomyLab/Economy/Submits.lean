import EconomyLab.Economy.Answers
import EconomyLab.Economy.Locking

/-!
# Submitting once

A key that committed answers every later submit with its transaction, whatever that submit asks for.
So over any run of submits an operation takes effect once at most.
-/

namespace EconomyLab

open Foundation

section Submit

variable {ports : Ports} {env : Env} {config : Config} {operation : Operation} {now : Int} {w w' : World}
  {transaction : Transaction}

variable {refused : Option Outcome}

theorem screenNeeds_screens (needs : List (AccountRef × Amount))
    (h : (screenNeeds needs).run w = (.ok refused, w')) : RefusesAfresh refused := by
  induction needs generalizing w with
  | nil =>
    cases h
    exact refusesAfresh_none
  | cons need needs ih =>
    obtain ⟨account, amount⟩ := need
    obtain ⟨have_, w₁, -, h⟩ := Txn.bind_ok h
    obtain ⟨_, w₂, -, h⟩ := Txn.bind_ok h
    split at h
    · cases h
      exact refusesAfresh_rejected _
    · exact ih h

theorem screenRisk_screens
    (h : (screenRisk (registry ports) env config operation).run w = (.ok refused, w')) :
    RefusesAfresh refused := by
  unfold screenRisk at h
  split at h
  · obtain ⟨now, w₁, -, h⟩ := Txn.bind_ok h
    split at h
    · cases h
      exact refusesAfresh_none
    · obtain ⟨check, w₂, -, h⟩ := Txn.bind_ok h
      obtain ⟨velocity, w₃, -, h⟩ := Txn.bind_ok h
      cases h
      unfold riskVerdict
      split
      · exact refusesAfresh_rejected _
      · exact refusesAfresh_none
  · cases h
    exact refusesAfresh_none

theorem preClaimOf_screens
    (h : (preClaimOf operation).run w = (.ok refused, w')) : RefusesAfresh refused := by
  cases operation with
  | spend o =>
    obtain ⟨existing, w₁, -, h⟩ := Txn.bind_ok h
    cases h
    cases existing with
    | none => exact refusesAfresh_none
    | some sale => exact refusesAfresh_rejected _
  | _ =>
    cases h
    exact refusesAfresh_none

theorem runClaimed_duplicate_cases
    (h : (runClaimed (registry ports) env config operation).run w = (.ok (.duplicate transaction), w')) :
    (w.idempotency.rows.committed.get operation.idempotencyKey = some transaction ∧ w' = w) ∨
      ∃ w₁, w.Still w₁ ∧
        ((registry ports).handler env config operation).run w₁ = (.ok (.duplicate transaction), w') := by
  simp only [runClaimed, runClaimedOver, Txn.claiming] at h
  cases hget : w.idempotency.rows.committed.get ((registry ports).idempotencyKey operation) with
  | some recorded =>
    rw [hget] at h
    cases h
    exact Or.inl ⟨hget, rfl⟩
  | none =>
    rw [hget] at h
    have hclaimed := (claimKey_fronts env ((registry ports).idempotencyKey operation) w).still
    generalize w.withIdempotency (claimKey (env.clock w.ticks) ((registry ports).idempotencyKey operation)
      w.idempotency) = start at h hclaimed
    simp only at h
    split at h
    · cases h
    · rename_i outcome done hbody
      cases h
      obtain ⟨duplicate, w₁, hprobe, hbody⟩ := Txn.bind_ok hbody
      have hsame := (registry_orderly ports).preClaim operation start
      rw [hprobe] at hsame
      obtain rfl : w₁ = start := hsame
      cases duplicate with
      | some duplicate =>
        cases hbody
        exact absurd rfl (preClaimOf_screens hprobe _ rfl transaction)
      | none =>
        obtain ⟨denied, w₂, hrisk, hbody⟩ := Txn.bind_ok hbody
        have hfronts := screenRisk_fronts (p := registry ports) env config operation w₁
        rw [hrisk] at hfronts
        cases denied with
        | some denied =>
          cases hbody
          exact absurd rfl (screenRisk_screens hrisk _ rfl transaction)
        | none =>
          obtain ⟨refused, w₃, hfunds, hbody⟩ := Txn.bind_ok hbody
          have hreads := screenFunds_reads operation (registry_orderly ports) w₂
          rw [hfunds] at hreads
          obtain rfl : w₃ = w₂ := hreads
          cases refused with
          | some refused =>
            obtain ⟨needs, w₄, -, hneeds⟩ := Txn.bind_ok hfunds
            cases hbody
            exact absurd rfl (screenNeeds_screens needs hneeds _ rfl transaction)
          | none =>
            obtain ⟨outcome, w₄, hhandler, hbody⟩ := Txn.bind_ok hbody
            cases outcome with
            | committed posted => cases hbody
            | rejected detail => cases hbody
            | duplicate posted =>
              cases hbody
              exact Or.inr ⟨w₃, hclaimed.trans hfronts.still, hhandler⟩
    · rename_i out done hbody
      obtain ⟨_, w₁, -, h⟩ := Txn.bind_ok h
      cases h

theorem runClaimed_duplicate
    (h : (runClaimed (registry ports) env config operation).run w = (.ok (.duplicate transaction), w')) :
    w.Still w' := by
  rcases runClaimed_duplicate_cases h with ⟨-, rfl⟩ | ⟨w₁, hstill, hhandler⟩
  · exact .refl w'
  · exact hstill.trans (handlerOf_idles ports env config operation _ _ _ hhandler)

theorem putBack_still (check : Option RiskCheck) (w : World) : w.Still (putBack check w) := by
  cases check with
  | none => exact .refl w
  | some check => exact ⟨rfl, rfl, rfl⟩

/-- What a submit does: it commits, or nothing that lasts but a velocity attempt. -/
theorem submit_still (h : w.Settled)
    (hrefused : ∀ t, (submit (registry ports) env config operation now w).1 ≠ .ok (.committed t)) :
    w.Still (submit (registry ports) env config operation now w).2 := by
  unfold submit at hrefused ⊢
  cases hscreen : screenOperation (registry ports) config operation now with
  | error e => exact .refl w
  | ok refused =>
    rw [hscreen] at hrefused
    cases refused with
    | some refused => exact .refl w
    | none =>
      rw [h.closed.beginAll] at hrefused ⊢
      have hext := (runClaimed (registry ports) env config operation).undoable w.opened
        (opened_sound h.sound)
      rcases hrun : (runClaimed (registry ports) env config operation).run w.opened with ⟨res, done⟩
      rw [hrun] at hext
      simp only [hrun] at hrefused ⊢
      have hback : w.Still (putBack (staged (registry ports) env operation w.opened) done.rollbackAll) :=
        (World.Still.of_sameTables (World.rollbackAll_sameTables h.closed hext)).trans (putBack_still _ _)
      cases res with
      | error e => exact hback
      | ok outcome =>
        cases outcome with
        | rejected detail => exact hback
        | committed t => exact absurd rfl (hrefused t)
        | duplicate t =>
          obtain ⟨hledger, hkeys, hrows⟩ := runClaimed_duplicate hrun
          exact ⟨hledger, hkeys, hrows⟩

theorem submit_repeats (h : w.Settled)
    (hkey : w.idempotency.rows.committed.get operation.idempotencyKey = some transaction)
    (hscreen : screenOperation (registry ports) config operation now = .ok none) :
    (submit (registry ports) env config operation now w).1 = .ok (.duplicate transaction) := by
  have hrun : (runClaimed (registry ports) env config operation).run w.opened =
      (.ok (.duplicate transaction), w.opened) := by
    have hopened : w.opened.idempotency.rows.committed.get ((registry ports).idempotencyKey operation) =
        some transaction := hkey
    simp only [runClaimed, runClaimedOver, Txn.claiming, hopened, Txn.run_pure]
  unfold submit
  rw [hscreen, h.closed.beginAll]
  simp only [hrun, rejectionsRollBack]

/-- Whatever is submitted, a key that committed keeps its transaction, unless it is one that handlers
stake. -/
theorem submit_keepsKey (h : w.Settled) {key : String} (hkey : isReversalKey key = false)
    (hcommitted : w.idempotency.rows.committed.get key = some transaction) :
    (submit (registry ports) env config operation now w).2.idempotency.rows.committed.get key =
      some transaction := by
  by_cases hcommits : ∃ t, (submit (registry ports) env config operation now w).1 = .ok (.committed t)
  · obtain ⟨t, ht⟩ := hcommits
    have hfrom := submit_committed (registry_orderly ports) (eq_of_slot ht)
    obtain ⟨w₁, w₂, hfronts, hhandler, hfiles⟩ := hfrom.handled
    have hkept := (registry_orderly ports).keys env config operation w₁ key hkey
    rw [hhandler] at hkept
    have hne : key ≠ (registry ports).idempotencyKey operation := by
      rintro rfl
      exact Option.some_ne_none _ (hcommitted.symm.trans hfrom.free)
    rw [hfiles.committed, Table.get_set_of_ne _ _ hne, hkept, hfronts.committed]
    exact hcommitted
  · have hstill := submit_still h fun t ht => hcommits ⟨t, ht⟩
    rw [hstill.committed]
    exact hcommitted

/-! ## A submit that commits -/

/-- The outbox has so many messages more, at the end of its order. -/
def Queued (count : Nat) (t t' : OutboxTables) : Prop :=
  ∃ ids, t'.order = t.order ++ ids ∧ ids.length = count

theorem Queued.none (t : OutboxTables) : Queued 0 t t := ⟨[], (List.append_nil _).symm, rfl⟩

theorem Queued.of_enqueue (at_ : Int) (message : OutboxMessage) (j : Journaled OutboxTables) :
    Queued 1 j.rows (Txn.OutboxTables.enqueue at_ message j).rows := ⟨[message.id], rfl, rfl⟩

def eventsOf (operation : Operation) (transaction : Transaction) : Nat :=
  if (eventOf operation transaction).isSome then 1 else 0

theorem emitEvents_queued
    (h : (emitEvents (registry ports) env operation transaction).run w = (.ok (), w')) :
    Queued (eventsOf operation transaction) w.outbox.rows w'.outbox.rows ∧ w.minted ≤ w'.minted := by
  have hcatalog : (registry ports).event operation transaction = eventOf operation transaction := rfl
  unfold eventsOf
  simp only [emitEvents, hcatalog] at h
  cases hevent : eventOf operation transaction with
  | none =>
    rw [hevent] at h
    cases h
    exact ⟨.none _, Nat.le_refl _⟩
  | some draft =>
    rw [hevent] at h
    obtain ⟨id, w₁, hid, h⟩ := Txn.bind_ok h
    obtain ⟨messageId, w₂, hmessage, h⟩ := Txn.bind_ok h
    obtain rfl : { w with minted := w.minted + 1 } = w₁ := congrArg Prod.snd hid
    obtain rfl : { w with minted := w.minted + 1 + 1 } = w₂ := congrArg Prod.snd hmessage
    obtain rfl := congrArg Prod.snd h
    have hle : w.minted ≤ w.minted + 1 + 1 := by omega
    exact ⟨.of_enqueue _ _ _, hle⟩

/-- What a submit that commits runs: its handler in the rows as they were, and then its announcement. -/
structure Handles (ports : Ports) (env : Env) (config : Config) (operation : Operation)
    (transaction : Transaction) (w w₁ w₂ w' : World) : Prop where
  fronts : w.Fronts w₁
  handler : (handlerOf ports env config operation).txn.run w₁ = (.ok (.committed transaction), w₂)
  files : w₂.Files operation.idempotencyKey transaction w'
  minted : w₂.minted ≤ w'.minted
  queued : Queued (eventsOf operation transaction) w₂.outbox.rows w'.outbox.rows

theorem runClaimed_handles (hfree : w.idempotency.rows.committed.get operation.idempotencyKey = none)
    (h : (runClaimed (registry ports) env config operation).run w = (.ok (.committed transaction), w')) :
    ∃ w₁ w₂, Handles ports env config operation transaction w w₁ w₂ w' := by
  have hkey : (registry ports).idempotencyKey operation = operation.idempotencyKey := rfl
  simp only [runClaimed, runClaimedOver, Txn.claiming, hkey, hfree] at h
  have hclaimed := claimKey_fronts env operation.idempotencyKey w
  generalize w.withIdempotency (claimKey (env.clock w.ticks) operation.idempotencyKey w.idempotency) =
    start at *
  rcases hbody : (claimedBody (registry ports) env config operation
    (screenRisk (registry ports) env config operation)).run start with ⟨res, w₂⟩
  rw [hbody] at h
  cases res with
  | error e => cases h
  | ok out =>
    cases out with
    | inr outcome =>
      cases h
      exact absurd rfl (claimedBody_inr env config operation (registry_orderly ports) hbody transaction)
    | inl out =>
      obtain ⟨posted, _⟩ := out
      obtain ⟨w₁, hfronts, hhandler⟩ := claimedBody_inl env config operation (registry_orderly ports) hbody
      obtain ⟨hsame, outbox, minted, ticks, hafter⟩ := claimedAfter_files env operation h
      obtain rfl : transaction = posted := Outcome.committed.inj hsame
      obtain ⟨_, w₃, hevents, h⟩ := Txn.bind_ok h
      obtain ⟨hqueued, hminted⟩ := emitEvents_queued hevents
      obtain rfl : w₃ = w' := congrArg Prod.snd h
      refine ⟨w₁, w₂, hclaimed.trans hfronts, hhandler, ?_, hminted, hqueued⟩
      rw [hafter]
      exact ⟨rfl, rfl, rfl, rfl, rfl, rfl, rfl, rfl⟩

theorem submit_handles (h : w.Settled)
    (hslot : submit (registry ports) env config operation now w = (.ok (.committed transaction), w')) :
    ∃ w₁ w₂, Handles ports env config operation transaction w w₁ w₂ w' := by
  have hfree := (submit_committed (registry_orderly ports) hslot).free
  unfold submit at hslot
  cases hscreen : screenOperation (registry ports) config operation now with
  | error e =>
    rw [hscreen] at hslot
    cases hslot
  | ok refused =>
    rw [hscreen] at hslot
    cases refused with
    | some refused =>
      have hrefused := screenOperation_refused hscreen
      cases hslot
      cases hrefused
    | none =>
      rw [h.closed.beginAll] at hslot
      rcases hrun : (runClaimed (registry ports) env config operation).run w.opened with ⟨res, done⟩
      simp only [hrun] at hslot
      cases res with
      | error e => cases hslot
      | ok outcome =>
        cases outcome with
        | rejected detail => cases hslot
        | duplicate t => cases hslot
        | committed t =>
          cases hslot
          have hopened : w.opened.idempotency.rows.committed.get operation.idempotencyKey = none := hfree
          obtain ⟨w₁, w₂, hhandles⟩ := runClaimed_handles hopened hrun
          obtain ⟨hfronts, hhandler, hfiles, hminted, hqueued⟩ := hhandles
          obtain ⟨hl, hk, hs, ho, hg, he, hu, hp, ha, hm⟩ := hfronts
          obtain ⟨fl, fk, fs, fg, fe, fu, fp, fa⟩ := hfiles
          exact ⟨w₁, w₂, ⟨hl, hk, hs, ho, hg, he, hu, hp, ha, hm⟩, hhandler,
            ⟨fl, fk, fs, fg, fe, fu, fp, fa⟩,
            hminted, hqueued⟩

theorem submit_minted (h : w.Settled) :
    w.minted ≤ (submit (registry ports) env config operation now w).2.minted := by
  unfold submit
  cases hscreen : screenOperation (registry ports) config operation now with
  | error e => exact Nat.le_refl _
  | ok refused =>
    cases refused with
    | some refused => exact Nat.le_refl _
    | none =>
      rw [h.closed.beginAll]
      have hspares := (runClaimed_writesOnly ports env config operation w.opened).minted
      rcases hrun : (runClaimed (registry ports) env config operation).run w.opened with ⟨res, done⟩
      rw [hrun] at hspares
      have hback : w.minted ≤ (putBack (staged (registry ports) env operation w.opened)
          done.rollbackAll).minted := by
        cases staged (registry ports) env operation w.opened with
        | none => exact hspares
        | some check => exact hspares
      simp only [hrun]
      cases res with
      | error e => exact hback
      | ok outcome =>
        cases outcome with
        | rejected detail => exact hback
        | committed t => exact hspares
        | duplicate t => exact hspares

end Submit

/-- One submit of a run: what was asked, at which reading of the pause gate, and what came of it. -/
structure SubmitStep where
  operation : Operation
  now : Int
  before : World
  slot : Slot
  after : World

def submitSteps (ports : Ports) (env : Env) (config : Config) :
    List (Operation × Int) → World → List SubmitStep
  | [], _ => []
  | (operation, now) :: requests, w =>
    let done := submit (registry ports) env config operation now w
    ⟨operation, now, w, done.1, done.2⟩ :: submitSteps ports env config requests done.2

namespace SubmitStep

/-- The submit changed nothing, and unless it was stopped before its transaction it answers this one. -/
structure Repeats (ports : Ports) (config : Config) (transaction : Transaction) (s : SubmitStep) :
    Prop where
  still : s.before.Still s.after
  answers : screenOperation (registry ports) config s.operation s.now = .ok none →
    s.slot = .ok (.duplicate transaction)

end SubmitStep

section Runs

variable {ports : Ports} {env : Env} {config : Config}

theorem repeats_of_committed {requests : List (Operation × Int)} {w : World} (h : w.Settled) {key : String}
    (hkey : isReversalKey key = false) {transaction : Transaction}
    (hcommitted : w.idempotency.rows.committed.get key = some transaction) :
    ∀ s ∈ submitSteps ports env config requests w, s.operation.idempotencyKey = key →
      s.Repeats ports config transaction := by
  induction requests generalizing w with
  | nil =>
    intro s hs
    cases hs
  | cons request requests ih =>
    obtain ⟨operation, now⟩ := request
    intro s hs hsame
    rcases List.mem_cons.mp hs with rfl | hs
    · have hrepeat : w.idempotency.rows.committed.get operation.idempotencyKey = some transaction := by
        rw [← hcommitted]
        exact congrArg _ hsame
      constructor
      · apply submit_still h
        intro t ht
        have hfrom := submit_committed (registry_orderly ports) (eq_of_slot ht)
        exact Option.some_ne_none _ (hrepeat.symm.trans hfrom.free)
      · exact submit_repeats h hrepeat
    · exact ih (submit_keepsGrants ports env config operation now h).1
        (submit_keepsKey h hkey hcommitted) s hs hsame

/-- Over any run of submits each key takes effect once at most: what did not commit left no trace beside a
velocity attempt, and after a commit every submit of the key only repeats its transaction. -/
theorem submits_take_effect_once (ports : Ports) (env : Env) (config : Config)
    (requests : List (Operation × Int)) {w : World} (h : w.Settled) {key : String}
    (hkey : isReversalKey key = false) :
    (∀ s ∈ submitSteps ports env config requests w, committedOf s.slot = none → s.before.Still s.after) ∧
    (submitSteps ports env config requests w).Pairwise fun s s' => ∀ transaction,
      committedOf s.slot = some transaction → s.operation.idempotencyKey = key →
      s'.operation.idempotencyKey = key → s'.Repeats ports config transaction := by
  induction requests generalizing w with
  | nil =>
    constructor
    · intro s hs
      cases hs
    · exact List.Pairwise.nil
  | cons request requests ih =>
    obtain ⟨operation, now⟩ := request
    have hnext := (submit_keepsGrants ports env config operation now h).1
    obtain ⟨hstill, hpairs⟩ := ih hnext
    constructor
    · intro s hs hnone
      rcases List.mem_cons.mp hs with rfl | hs
      · apply submit_still h
        intro t ht
        rw [committedOf_eq_some.mpr ht] at hnone
        cases hnone
      · exact hstill s hs hnone
    · refine List.Pairwise.cons ?_ hpairs
      intro s' hs' transaction hcommitted hsame hsame'
      have hslot := committedOf_eq_some.mp hcommitted
      have hfrom := submit_committed (registry_orderly ports) (eq_of_slot hslot)
      obtain ⟨w₁, w₂, -, -, hfiles⟩ := hfrom.handled
      have hrecorded : (submit (registry ports) env config operation now
        w).2.idempotency.rows.committed.get key =
          some transaction := by
        rw [hfiles.committed, ← hsame]
        exact Table.get_set_self _ _ _
      exact repeats_of_committed hnext hkey hrecorded s' hs' hsame'

end Runs

def issueTen (userId : String) : Operation :=
  .topUp ⟨"k1", .system "pay", userId, ⟨.credit, 1000, .thousand⟩, "card"⟩

/-- The key comes again, for another user even. -/
theorem submits_take_effect_once_used :
    ((submitSteps parPorts tickEnv twoShards [(issueTen "a", 0), (issueTen "a", 0), (issueTen "b", 0)]
      World.empty).map fun s => (committedOf s.slot).isSome) = [true, false, false] ∧
    (∀ s ∈ submitSteps parPorts tickEnv twoShards [(issueTen "a", 0), (issueTen "a", 0), (issueTen "b", 0)]
      World.empty, committedOf s.slot = none → s.before.Still s.after) ∧
    (submitSteps parPorts tickEnv twoShards [(issueTen "a", 0), (issueTen "a", 0), (issueTen "b", 0)]
      World.empty).Pairwise fun s s' => ∀ transaction,
        committedOf s.slot = some transaction → s.operation.idempotencyKey = "k1" →
        s'.operation.idempotencyKey = "k1" → s'.Repeats parPorts twoShards transaction :=
  ⟨by decide +kernel, submits_take_effect_once parPorts tickEnv twoShards _
    ⟨World.empty_closed, World.empty_sound⟩ (by decide)⟩

end EconomyLab
