import EconomyLab.Netting.Settlers

/-!
# The sweeps over journaled sessions

The orphan sweep settles the sessions of dead nodes, the retention sweep drops the rows of
settled ones, and the reservation repair recomputes the shared counter. Each recovers a
session from its journal and infers from the ledger whether it was settled.
-/

namespace EconomyLab

open Foundation Text

def sessionIds (log : List Movement) : List String := sortStrings (log.map Movement.sessionId).dedup

/-- The batch and the chunk width of a session that names neither. -/
def recoverByDefault (env : Env) (sessionId : String) (scope : Scope) (w : World) :
    Except Fault InstanceSession × World :=
  recoverSession env sessionId 64 ⟨16, by decide⟩ scope w

/-- A recovery whose registry is thrown away. -/
def inspectSession (env : Env) (sessionId : String) (w : World) : Except Fault InstanceSession :=
  (recoverByDefault env sessionId .process w).1

/-- Zero when the session has no row. -/
def newestMovementAt (sessionId : String) (w : World) : Int :=
  (bySession sessionId w.movements).foldl (fun newest m => if m.recordedAt > newest then
    m.recordedAt else newest) 0

def escrowRefundId (sessionId userId : String) : String := "esc_refund_" ++ sessionId ++ "_" ++ userId

def escrowRefund (env : Env) (sessionId userId : String) (remainder : Amount) : Txn Transaction := do
  let returned ← Txn.lift (credit (spendable userId) remainder)
  Txn.postEntry env ⟨escrowRefundId sessionId userId,
    [debit (sessionEscrow userId sessionId) remainder, returned],
    [("kind", .string "prefund_refund"), ("sessionId", .string sessionId), ("userId", .string userId)]⟩

/-- The repair paths share the posting's id, so the first wins. -/
def refundEscrowRemainder (env : Env) (sessionId userId : String) (w : World) :
    Except Fault (Option Int) × World :=
  match w.ledger.tables.balance (sessionEscrow userId sessionId) with
  | .error e => (.error e, w)
  | .ok remainder =>
    if remainder.minor ≤ 0 ∨ w.posted (escrowRefundId sessionId userId) = true then (.ok none, w)
    else
      match transaction (escrowRefund env sessionId userId remainder) w with
      | (.error e, w) => (.error e, w)
      | (.ok _, w) => (.ok (some remainder.minor), w)

def escrowOwners (sessionId : String) (w : World) : List String :=
  (((bySession sessionId w.movements).flatMap Movement.legs).filterMap fun leg =>
    match escrowPartsOf leg.account with
    | some (userId, session) => if session = sessionId then some userId else none
    | none => none).eraseDups

def refundOwners (env : Env) (sessionId : String) : List String → World →
    Except Fault Unit × List (String × String × Int) × World
  | [], w => (.ok (), [], w)
  | userId :: owners, w =>
    match refundEscrowRemainder env sessionId userId w with
    | (.error e, w) => (.error e, [], w)
    | (.ok minor, w) =>
      let (result, refunds, w) := refundOwners env sessionId owners w
      (result, (minor.map fun minor => (sessionId, userId, minor)).toList ++ refunds, w)

def refundSessionEscrows (env : Env) (sessionId : String) (w : World) :
    Except Fault Unit × List (String × String × Int) × World :=
  refundOwners env sessionId (escrowOwners sessionId w) w

/-! ## The orphan sweep -/

/-- The registry is the host's, else the one over the store's counter. -/
structure OrphanSweepInput where
  now : Int
  limit : Nat
  settleOlderThanMs : Option Int
  registry : Scope

structure OrphanSweepSummary where
  scanned : Nat := 0
  orphans : List (String × Int) := []
  settled : List (String × SettleMode) := []
  escrowRefunds : List (String × String × Int) := []
  failed : List (String × Reason) := []

def OrphanSweepSummary.refunded (summary : OrphanSweepSummary) (sessionId : String)
    (refunds : Except Fault Unit × List (String × String × Int) × World) : OrphanSweepSummary × World :=
  let summary := { summary with escrowRefunds := summary.escrowRefunds ++ refunds.2.1 }
  match refunds.1 with
  | .ok () => (summary, refunds.2.2)
  | .error e => ({ summary with failed := summary.failed ++ [(sessionId, reasonOf e)] }, refunds.2.2)

def OrphanSweepInput.ripe (input : OrphanSweepInput) (ageMs : Int) : Bool :=
  input.settleOlderThanMs.any fun bound => ageMs > bound

/-- The body of the loop. A settled session can still need an escrow refund. -/
def sweepSession (env : Env) (input : OrphanSweepInput) (sessionId : String) (summary : OrphanSweepSummary)
    (w : World) : OrphanSweepSummary × World :=
  let summary := { summary with scanned := summary.scanned + 1 }
  match recoverByDefault env sessionId input.registry w with
  | (.error e, w) => ({ summary with failed := summary.failed ++ [(sessionId, reasonOf e)] }, w)
  | (.ok session, w) =>
    if wasSettled session then summary.refunded sessionId (refundSessionEscrows env sessionId w)
    else
      let ageMs := input.now - newestMovementAt sessionId w
      let summary := { summary with orphans := summary.orphans ++ [(sessionId, ageMs)] }
      if input.ripe ageMs then
        match settle env session w with
        | (.error e, _, w) => ({ summary with failed := summary.failed ++ [(sessionId, reasonOf e)] }, w)
        | (.ok report, _, w) =>
          { summary with settled := summary.settled ++ [(sessionId, report.mode)] }.refunded sessionId
            (refundSessionEscrows env sessionId w)
      else (summary, w)

def sweepSessions (env : Env) (input : OrphanSweepInput) (ids : List String) (w : World) :
    OrphanSweepSummary × World :=
  ids.foldl (fun p sessionId => sweepSession env input sessionId p.1 p.2) ({}, w)

/-- Each run enumerates from the top. -/
def sweepOrphanSessions (env : Env) (input : OrphanSweepInput) (w : World) : OrphanSweepSummary × World :=
  sweepSessions env input ((sessionIds w.movements).take input.limit) w

structure RetentionSweepInput where
  now : Int
  limit : Nat
  sessionsOlderThanMs : Int

structure SessionsLane where
  scanned : Nat := 0
  pruned : List (String × Nat) := []
  escrowRefunds : List (String × String × Int) := []
  failed : List (String × Reason) := []

def pruneIfSettled (env : Env) (input : RetentionSweepInput) (sessionId : String) (lane : SessionsLane)
    (w : World) : SessionsLane × World :=
  let lane := { lane with scanned := lane.scanned + 1 }
  match inspectSession env sessionId w with
  | .error e => ({ lane with failed := lane.failed ++ [(sessionId, reasonOf e)] }, w)
  | .ok session =>
    if !wasSettled session then (lane, w)
    else if input.now - newestMovementAt sessionId w ≤ input.sessionsOlderThanMs then (lane, w)
    else
      match refundSessionEscrows env sessionId w with
      | (.error e, refunds, w) =>
        ({ lane with
            escrowRefunds := lane.escrowRefunds ++ refunds
            failed := lane.failed ++ [(sessionId, reasonOf e)] }, w)
      | (.ok (), refunds, w) =>
        ({ lane with
            escrowRefunds := lane.escrowRefunds ++ refunds
            pruned := lane.pruned ++ [(sessionId, (bySession sessionId w.movements).length)] },
          Settling.pruneSession sessionId w)

def pruneSessions (env : Env) (input : RetentionSweepInput) (ids : List String) (w : World) :
    SessionsLane × World :=
  ids.foldl (fun p sessionId => pruneIfSettled env input sessionId p.1 p.2) ({}, w)

def pruneSettledSessions (env : Env) (input : RetentionSweepInput) (w : World) : SessionsLane × World :=
  pruneSessions env input ((sessionIds w.movements).take input.limit) w

/-- What unsettled sessions still hold, in the order the journal names it. -/
def unsettledDeltas (env : Env) (w : World) : List String → Except Fault (List (AccountRef × Int))
  | [] => .ok []
  | sessionId :: ids => do
    let session ← inspectSession env sessionId w
    let rest ← unsettledDeltas env w ids
    if wasSettled session then return rest
    else return walletDeltas (bySession sessionId w.movements) ++ rest

def foldPending (deltas : List (AccountRef × Int)) : Table AccountRef Int :=
  deltas.foldl (fun desired p => desired.set p.1 ((desired.get p.1).getD 0 + p.2)) Table.empty

def reconcileRow (desired : Table AccountRef Int) (p : Nat × World) (row : AccountRef × Int) :
    Nat × World :=
  let target := (desired.get row.1).getD 0
  if row.2 ≠ target then (p.1 + 1, p.2.addReservation row.1 (target - row.2)) else p

/-- `rows` are the counter's rows, read in one go. The answer is how many there are and how many were
moved. -/
def reconcileReservations (env : Env) (rows : List AccountRef) (w : World) :
    Except Fault (Nat × Nat) × World :=
  match unsettledDeltas env w (sessionIds w.movements) with
  | .error e => (.error e, w)
  | .ok deltas =>
    let entries := rows.map fun account => (account, w.pendingOf account)
    let (adjusted, w) := entries.foldl (reconcileRow (foldPending deltas)) (0, w)
    (.ok (rows.length, adjusted), w)

end EconomyLab
