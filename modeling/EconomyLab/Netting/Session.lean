import EconomyLab.Foundation.Chunks
import EconomyLab.Stores.Units

/-!
# Session netting

A session accepts balanced movements against a reservation registry, journals them, and
settles their net against the ledger in clearing chunks. A refused chunk is compensated
and the movements are replayed one by one.
-/

namespace EconomyLab

open Foundation

/-- The batch is validated in full before any row lands. -/
def appendMovements (batch : List Movement) (log : List Movement) : Except Fault (List Movement) :=
  match batch.find? fun m => log.any fun row =>
      row.idempotencyKey = m.idempotencyKey || (row.sessionId = m.sessionId && row.seq = m.seq) with
  | some m => .error (plainError (
      if log.any fun row => row.idempotencyKey = m.idempotencyKey
      then "duplicate movement idempotency key: " ++ m.idempotencyKey
      else "duplicate movement position: " ++ m.sessionId ++ "::" ++ toString m.seq))
  | none => .ok (log ++ batch)

def bySession (sessionId : String) (log : List Movement) : List Movement :=
  (log.filter (·.sessionId = sessionId)).insertionSort fun a b => a.seq ≤ b.seq

def World.pendingOf (w : World) (account : AccountRef) : Int :=
  (w.reservations.get account).getD 0

/-- The registry's `add`: the counter moves and answers its new total. -/
def World.addReservation (w : World) (account : AccountRef) (delta : Int) : World :=
  { w with reservations := w.reservations.set account (w.pendingOf account + delta) }

/-- Whether a registry dies with its process or outlives it. -/
inductive Scope
  | process
  | shared
deriving DecidableEq, Repr

structure MovementRequest where
  idempotencyKey : String
  legs : List Leg

inductive MovementOutcome
  | accepted (seq : Nat)
  | rejected (reason : Reason)
deriving DecidableEq, Repr

inductive SettleMode
  | netted
  | replayed
deriving DecidableEq, Repr

structure SettleReport where
  mode : SettleMode
  postings : Nat
  rejected : List (String × Reason)
  journalHead : String
  netted : Nat
deriving DecidableEq, Repr

structure InstanceSession where
  sessionId : String
  maxBatch : Nat
  chunkWidth : Nat
  chunkWidth_pos : 0 < chunkWidth
  scope : Scope
  outcomes : Table String MovementOutcome
  settled : Bool
  replayForced : Bool
  accepted : List Movement
  pending : List Movement
  opening : Table AccountRef Int
  head : String
  seq : Nat
  released : Bool

def openInstanceSession (sessionId : String) (maxBatch : Nat) (chunkWidth : {n : Nat // 0 < n})
    (scope : Scope) : InstanceSession where
  sessionId := sessionId
  maxBatch := maxBatch
  chunkWidth := chunkWidth.1
  chunkWidth_pos := chunkWidth.2
  scope := scope
  outcomes := Table.empty
  settled := false
  replayForced := false
  accepted := []
  pending := []
  opening := Table.empty
  head := GENESIS_HEX
  seq := 0
  released := false

/-! ## Recording -/

def requireMovementLegs (legs : List Leg) : Except Fault Unit :=
  if legs.any fun leg => leg.amount.currency ≠ .credit || leg.amount.minor = 0 then
    .error (fault .malformedOperation "A movement leg must carry a nonzero CREDIT amount.")
  else if (legs.map fun leg => leg.amount.minor).sum ≠ 0 ∨ legs = [] then
    .error (fault .ledgerUnbalanced "A movement must carry legs that sum to zero.")
  else .ok ()

/-- Backs out the applied legs, newest first. -/
def unwindReservations (applied : List (AccountRef × Int)) (w : World) : World :=
  applied.reverse.foldl (fun w p => w.addReservation p.1 (-p.2)) w

def openingBalance (account : AccountRef) (s : InstanceSession) (w : World) :
    Except Fault (Int × InstanceSession) :=
  match s.opening.get account with
  | some known => .ok (known, s)
  | none => do
    let balance ← w.ledger.tables.balance account
    return (balance.minor, { s with opening := s.opening.set account balance.minor })

/-- Add, then check, leg by leg; a shortfall or an error backs the movement's legs out. -/
def reserveLegs : List Leg → List (AccountRef × Int) → InstanceSession → World →
    Except Fault (Option RejectionCode) × InstanceSession × World
  | [], _, s, w => (.ok none, s, w)
  | leg :: legs, applied, s, w =>
    if !isWalletAccount leg.account then reserveLegs legs applied s w
    else
      match balanceDelta leg with
      | .error e => (.error e, s, unwindReservations applied w)
      | .ok delta =>
        let w := w.addReservation leg.account delta.minor
        let applied := applied ++ [(leg.account, delta.minor)]
        if 0 ≤ delta.minor then reserveLegs legs applied s w
        else
          match openingBalance leg.account s w with
          | .error e => (.error e, s, unwindReservations applied w)
          | .ok (opening, s) =>
            if opening + w.pendingOf leg.account < 0 then
              (.ok (some .insufficientFunds), s, unwindReservations applied w)
            else reserveLegs legs applied s w

def reserve (legs : List Leg) (s : InstanceSession) (w : World) :
    Except Fault (Option RejectionCode) × InstanceSession × World :=
  match requireMovementLegs legs with
  | .error e => (.error e, s, w)
  | .ok () => reserveLegs legs [] s w

def legText (leg : Leg) : String :=
  leg.account ++ ":" ++ leg.amount.currency.text ++ ":" ++ toString leg.amount.minor

/-- The session chain: the previous head, the key, and the legs in canonical text. -/
def chain (digest : Digest) (prevHash idempotencyKey : String) (legs : List Leg) : String :=
  toHex (digest (Text.utf8
    (prevHash ++ "|" ++ idempotencyKey ++ "|" ++ ";".intercalate (legs.map legText))))

def InstanceSession.remember (s : InstanceSession) (key : String) (outcome : MovementOutcome) :
    InstanceSession :=
  { s with outcomes := s.outcomes.set key outcome }

/-- The pending batch leaves the session before the journal accepts or refuses it. -/
def flush (s : InstanceSession) (w : World) : Except Fault Unit × InstanceSession × World :=
  if s.pending = [] then (.ok (), s, w)
  else
    match appendMovements s.pending w.movements with
    | .error e => (.error e, { s with pending := [] }, w)
    | .ok log => (.ok (), { s with pending := [] }, { w with movements := log })

def sessionSettledFault : Fault :=
  fault .sessionSettled
    "A settled session refuses further movements; rotate to a new session id (epoch)."

def accept (env : Env) (request : MovementRequest) (s : InstanceSession) (w : World) :
    InstanceSession × World :=
  let movement : Movement :=
    { sessionId := s.sessionId
      seq := s.seq
      idempotencyKey := request.idempotencyKey
      legs := request.legs
      prevHash := s.head
      hash := chain env.digest s.head request.idempotencyKey request.legs
      recordedAt := env.clock w.ticks }
  ({ s with
      seq := s.seq + 1
      head := movement.hash
      accepted := s.accepted ++ [movement]
      pending := s.pending ++ [movement] }.remember request.idempotencyKey (.accepted movement.seq),
    { w with ticks := w.ticks + 1 })

def record (env : Env) (request : MovementRequest) (s : InstanceSession) (w : World) :
    Except Fault MovementOutcome × InstanceSession × World :=
  if s.settled then (.error sessionSettledFault, s, w)
  else
    match s.outcomes.get request.idempotencyKey with
    | some outcome => (.ok outcome, s, w)
    | none =>
      match reserve request.legs s w with
      | (.error e, s, w) => (.error e, s, w)
      | (.ok (some code), s, w) =>
        let outcome := .rejected (.rejection code)
        (.ok outcome, s.remember request.idempotencyKey outcome, w)
      | (.ok none, s, w) =>
        let seq := s.seq
        let (s, w) := accept env request s w
        if s.maxBatch ≤ s.pending.length then
          match flush s w with
          | (.error e, s, w) => (.error e, s, w)
          | (.ok (), s, w) => (.ok (.accepted seq), s, w)
        else (.ok (.accepted seq), s, w)

def verifyChain (digest : Digest) (prev : String) : List Movement → Except Fault Unit
  | [] => .ok ()
  | m :: ms =>
    if m.prevHash ≠ prev ∨ m.hash ≠ chain digest prev m.idempotencyKey m.legs then
      .error (fault .chainBroken
        "The session journal failed to re-derive; refusing to settle over a tampered journal.")
    else verifyChain digest m.hash ms

def journal (env : Env) (sessionId : String) (w : World) : Except Fault (List Movement) := do
  let movements := bySession sessionId w.movements
  verifyChain env.digest GENESIS_HEX movements
  return movements

/-! ## Chunks -/

abbrev Chunk := List (AccountRef × Int)

def movementAmounts (movements : List Movement) : List (AccountRef × Int) :=
  movements.flatMap fun m => m.legs.map fun leg => (leg.account, leg.amount.minor)

/-- The nonzero net of each account, in the order the movements first name them. -/
def positionsOf (movements : List Movement) : List (AccountRef × Int) :=
  (tally (movementAmounts movements)).filter (·.2 ≠ 0)

def InstanceSession.chunks (s : InstanceSession) (movements : List Movement) : List Chunk :=
  chunksOf s.chunkWidth (positionsOf movements)

/-- `Math.ceil(positions / chunkWidth)`. -/
def InstanceSession.chunkCount (s : InstanceSession) : Nat :=
  ((positionsOf s.accepted).length + s.chunkWidth - 1) / s.chunkWidth

def chunkTxnId (sessionId : String) (index : Nat) : String :=
  "net_" ++ sessionId ++ "_c" ++ toString index

def compTxnId (sessionId : String) (index : Nat) : String := chunkTxnId sessionId index ++ "_comp"

def movementTxnId (sessionId : String) (seq : Nat) : String :=
  "mv_" ++ sessionId ++ "_" ++ toString seq

/-- What every chunk of one settle shares. -/
structure Shape where
  chunkCount : Nat
  netted : Nat
  journalHead : String

def chunkLegs (sign : Int) (chunk : Chunk) : Except Fault (List Leg) := do
  let legs ← chunk.mapM fun p => do return (⟨p.1, ← toAmount .credit (p.2 * sign)⟩ : Leg)
  let clearing := -(chunk.map fun p => p.2 * sign).sum
  if clearing = 0 then return legs
  else return legs ++ [⟨SYSTEM.NETTING_CLEARING, ← toAmount .credit clearing⟩]

def postOnce (env : Env) (posting : Posting) : Txn Unit := do
  match ← Txn.findPosting posting.txnId with
  | some _ => pure ()
  | none => do
    let _ ← Txn.postEntry env posting
    pure ()

def chunkPosting (sessionId : String) (shape : Shape) (index : Nat) (compensate : Bool)
    (legs : List Leg) : Posting where
  txnId := if compensate then compTxnId sessionId index else chunkTxnId sessionId index
  legs := legs
  fields := [
    ("kind", .string
      (if compensate then "instance_settlement_compensation" else "instance_settlement")),
    ("sessionId", .string sessionId),
    ("netted", .number shape.netted),
    ("journalHead", .string shape.journalHead),
    ("chunk", .string (toString (index + 1) ++ "/" ++ toString shape.chunkCount))]

/-- The legs are built before the transaction opens. -/
def postChunk (env : Env) (sessionId : String) (shape : Shape) (chunk : Chunk) (index : Nat)
    (compensate : Bool) (w : World) : Except Fault Unit × World :=
  match chunkLegs (if compensate then -1 else 1) chunk with
  | .error e => (.error e, w)
  | .ok legs => transaction (postOnce env (chunkPosting sessionId shape index compensate legs)) w

/-! ## Settling -/

/-- The `try` block: the indexes posted, and whether every chunk went through. -/
def postChunks (env : Env) (sessionId : String) (shape : Shape) :
    List (Chunk × Nat) → List Nat → World → (Bool × List Nat) × World
  | [], posted, w => ((true, posted), w)
  | (chunk, index) :: rest, posted, w =>
    match postChunk env sessionId shape chunk index false w with
    | (.error _, w) => ((false, posted), w)
    | (.ok (), w) => postChunks env sessionId shape rest (posted ++ [index]) w

/-- Undoes the posted chunks, newest first; an error leaves the rest standing. -/
def compensateChunks (env : Env) (sessionId : String) (shape : Shape) (chunks : List Chunk) :
    List Nat → World → Except Fault Unit × World
  | [], w => (.ok (), w)
  | index :: rest, w =>
    match postChunk env sessionId shape (chunks.getD index []) index true w with
    | (.error e, w) => (.error e, w)
    | (.ok (), w) => compensateChunks env sessionId shape chunks rest w

def releaseKey (sessionId : String) : String := "resv_release:" ++ sessionId

/-- Exactly one process wins the release of a shared registry's reservations. -/
def claimRelease (env : Env) (sessionId : String) : Txn Bool :=
  Txn.claiming env (releaseKey sessionId) (fun _ => pure false)
    (do
      let postedAt ← Txn.now env
      return .inl (⟨releaseKey sessionId, postedAt, [], [],
        [("kind", .string "reservation_release"), ("sessionId", .string sessionId)]⟩, ()))
    (fun _ _ => pure true)

def walletDeltas (movements : List Movement) : List (AccountRef × Int) :=
  deltas ((movements.flatMap Movement.legs).filter fun leg => isWalletAccount leg.account)

def releaseAll (movements : List Movement) (w : World) : World :=
  (walletDeltas movements).foldl (fun w p => w.addReservation p.1 (-p.2)) w

def releaseReservations (env : Env) (s : InstanceSession) (w : World) :
    Except Fault Unit × InstanceSession × World :=
  if s.released then (.ok (), s, w)
  else
    match s.scope with
    | .process => (.ok (), { s with released := true }, releaseAll s.accepted w)
    | .shared =>
      match transaction (claimRelease env s.sessionId) w with
      | (.error e, w) => (.error e, s, w)
      | (.ok false, w) => (.ok (), { s with released := true }, w)
      | (.ok true, w) => (.ok (), { s with released := true }, releaseAll s.accepted w)

def replayPosting (sessionId journalHead : String) (m : Movement) : Posting where
  txnId := movementTxnId sessionId m.seq
  legs := m.legs
  fields := [
    ("kind", .string "instance_movement_replay"),
    ("sessionId", .string sessionId),
    ("seq", .number m.seq),
    ("journalHead", .string journalHead)]

/-- The code a caught error is reported under. -/
def reasonOf (e : Fault) : Reason := .error ((normalizeError e).code.getD .storeFailure)

/-- Every movement becomes its own posting with its own outcome. -/
def replayMovements (env : Env) (sessionId journalHead : String) :
    List Movement → Nat → List (String × Reason) → InstanceSession → World →
    (Nat × List (String × Reason)) × InstanceSession × World
  | [], postings, rejected, s, w => ((postings, rejected), s, w)
  | m :: ms, postings, rejected, s, w =>
    match transaction (postOnce env (replayPosting sessionId journalHead m)) w with
    | (.ok (), w) => replayMovements env sessionId journalHead ms (postings + 1) rejected s w
    | (.error e, w) =>
      replayMovements env sessionId journalHead ms postings
        (rejected ++ [(m.idempotencyKey, reasonOf e)])
        (s.remember m.idempotencyKey (.rejected (reasonOf e))) w

def replay (env : Env) (movements : List Movement) (head : String) (s : InstanceSession) (w : World) :
    Except Fault SettleReport × InstanceSession × World :=
  let ((postings, rejected), s, w) := replayMovements env s.sessionId head movements 0 [] s w
  match releaseReservations env s w with
  | (.error e, s, w) => (.error e, s, w)
  | (.ok (), s, w) => (.ok ⟨.replayed, postings, rejected, head, movements.length⟩, s, w)

/-- Settling a nonempty journal whose chain ends in `head`. -/
def settleJournal (env : Env) (movements : List Movement) (head : String) (s : InstanceSession)
    (w : World) : Except Fault SettleReport × InstanceSession × World :=
  if s.replayForced then replay env movements head { s with settled := true } w
  else
    let chunks := s.chunks movements
    let shape : Shape := ⟨chunks.length, movements.length, head⟩
    match postChunks env s.sessionId shape chunks.zipIdx [] w with
    | ((true, _), w) =>
      match releaseReservations env s w with
      | (.error e, s, w) => (.error e, s, w)
      | (.ok (), s, w) =>
        (.ok ⟨.netted, chunks.length, [], head, movements.length⟩, { s with settled := true }, w)
    | ((false, posted), w) =>
      match compensateChunks env s.sessionId shape chunks posted.reverse w with
      | (.error e, w) => (.error e, s, w)
      | (.ok (), w) => replay env movements head { s with settled := true } w

def settle (env : Env) (s : InstanceSession) (w : World) :
    Except Fault SettleReport × InstanceSession × World :=
  match flush s w with
  | (.error e, s, w) => (.error e, s, w)
  | (.ok (), s, w) =>
    match journal env s.sessionId w with
    | .error e => (.error e, s, w)
    | .ok movements =>
      match movements.getLast? with
      | none => (.ok ⟨.netted, 0, [], GENESIS_HEX, 0⟩, s, w)
      | some last => settleJournal env movements last.hash s w

def World.posted (w : World) (txnId : String) : Bool := (w.ledger.tables.findPosting txnId).isSome

/-- Replays the journal into a fresh session object. -/
def rebuild (movements : List Movement) (s : InstanceSession) (w : World) : InstanceSession × World :=
  movements.foldl (fun p m =>
    ({ p.1 with
        accepted := p.1.accepted ++ [m]
        outcomes := p.1.outcomes.set m.idempotencyKey (.accepted m.seq)
        head := m.hash
        seq := m.seq + 1 },
      match p.1.scope with
      | .shared => p.2
      | .process =>
        (walletDeltas [m]).foldl (fun w q => w.addReservation q.1 q.2) p.2)) (s, w)

/-- Compensations and replayed movements force the replay; a bare first chunk counts as settled. -/
def probeSettlement (s : InstanceSession) (w : World) : InstanceSession :=
  if (List.range s.chunkCount).any fun i => w.posted (compTxnId s.sessionId i) then
    { s with settled := true, replayForced := true }
  else if s.accepted.any fun m => w.posted (movementTxnId s.sessionId m.seq) then
    { s with settled := true, replayForced := true }
  else if w.posted (chunkTxnId s.sessionId 0) then { s with settled := true }
  else s

def recoverSession (env : Env) (sessionId : String) (maxBatch : Nat)
    (chunkWidth : {n : Nat // 0 < n}) (scope : Scope) (w : World) :
    Except Fault InstanceSession × World :=
  match journal env sessionId w with
  | .error e => (.error e, w)
  | .ok movements =>
    let (s, w) := rebuild movements (openInstanceSession sessionId maxBatch chunkWidth scope) w
    (.ok (probeSettlement s w), w)

def wasSettled (s : InstanceSession) : Bool := s.settled

end EconomyLab
