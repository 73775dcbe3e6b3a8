import EconomyLab.Ops.Audit
import EconomyLab.Stores.Records

/-!
# Detectors

A detector reads the buffered signals and says what it found. It keeps nothing from one poll to the
next: what was handled already is the caller's watermark.
-/

namespace EconomyLab.Ops

open Foundation

/-! ## Signals -/

inductive SignalSource
  | meter
  | log
deriving DecidableEq, Repr

def SignalSource.text : SignalSource → String
  | meter => "meter"
  | log => "log"

structure Signal where
  recordedAt : Int
  source : SignalSource
  name : String
  value : Int
  tags : List (String × String)
deriving DecidableEq, Repr

def Signal.tag (signal : Signal) (key : String) : Option String := signal.tags.lookup key

def Signal.isMeter (signal : Signal) (name : String) : Bool := signal.source = .meter && signal.name = name

/-- A time, or the negative infinity that every time is past. -/
abbrev Mark := Option Int

def Mark.next (mark : Mark) : Mark := mark.map (· + 1)

def Mark.later (mark : Mark) (t : Int) : Mark := some (mark.elim t (max · t))

def Mark.within (mark : Mark) (now windowMs : Int) : Bool := mark.elim false fun t => now - t < windowMs

def MIN_SAFE_INTEGER : Int := -9007199254740991

structure SignalFeed where
  since : Mark → List Signal

def bufferFeed (buffer : List Signal) : SignalFeed where
  since mark := buffer.filter fun signal => mark.elim true (· ≤ signal.recordedAt)

def totalValue (signals : List Signal) : Int := signals.foldl (fun sum signal => sum + signal.value) 0

def newestAt (signals : List Signal) (mark : Mark) : Mark :=
  signals.foldl (fun newest signal => newest.later signal.recordedAt) mark

def bump (key : String) (value : Int) : List (String × Int) → List (String × Int)
  | [] => [(key, value)]
  | (key', count) :: tally =>
    if key' = key then (key', count + value) :: tally else (key', count) :: bump key value tally

def tallyByTag (hits : List Signal) (tag : String) : List (String × Int) :=
  hits.foldl (fun tally hit => bump ((hit.tag tag).getD "unknown") hit.value tally) []

def newestMeter (all : List Signal) (name : String) : Option Signal :=
  all.reverse.find? fun signal => signal.isMeter name

/-! ## Findings -/

structure DeadlockStormFinding where
  retries : Int
  windowMs : Int

structure StuckSagaFinding where
  saga : Saga
  ageMs : Int
deriving DecidableEq

structure IntegrityMismatchFinding where
  recordedAt : Int
  channel : SignalSource
deriving DecidableEq, Repr

structure EngineStallFinding where
  pending : Nat
  oldestWaitMs : Int

structure TreasuryBreachFinding where
  breaches : Nat
  channels : List String
  newestAt : Mark

structure VelocityAnomalyFinding where
  rejections : Int
  byKind : List (String × Int)
  /-- Without a value where the window has no length. -/
  ratePerMin : Option Int
  windowMs : Int

structure SilenceFinding where
  signal : String
  silentForMs : Int

structure RetryExhaustionFinding where
  exhausted : Int
  byEngine : List (String × Int)
  windowMs : Int

structure OutboxBacklogFinding where
  ageMs : Int
  pending : Int

structure WebhookReplayStormFinding where
  duplicates : Int
  byProvider : List (String × Int)
  byLayer : List (String × Int)
  windowMs : Int

structure SlowSealFinding where
  maxMs : Int
  samples : Nat
  windowMs : Int

structure InboxDeadLetterFinding where
  deadLettered : Nat
  newestAt : Mark

/-! ## The twelve -/

def windowStart (now windowMs : Int) : Mark := some (now - windowMs)

def detectDeadlockStorm (signals : SignalFeed) (now : Int) (metric : String) (windowMs threshold : Int) :
    Option DeadlockStormFinding :=
  let retries := totalValue ((signals.since (windowStart now windowMs)).filter fun signal =>
    signal.isMeter metric)
  if retries < threshold then none else some ⟨retries, windowMs⟩

def terminalSagaStates : List SagaState := [.settled, .failed]

def detectStuckSagas (listed : List Saga) (now ageMs : Int) : List StuckSagaFinding :=
  listed.filterMap fun saga =>
    if saga.state ∈ terminalSagaStates then none
    else if now - saga.updatedAt ≥ ageMs then some ⟨saga, now - saga.updatedAt⟩
    else none

def detectEngineStall (signals : SignalFeed) (now graceMs : Int) : Option EngineStallFinding :=
  let all := signals.since (some MIN_SAFE_INTEGER)
  let lastCompletion := (all.filter fun signal => signal.isMeter "engine.pool.acquire_ms").foldl
    (fun latest signal => max latest signal.recordedAt) MIN_SAFE_INTEGER
  match all.filter fun signal => signal.isMeter "engine.pool.acquire" && lastCompletion <
    signal.recordedAt with
  | [] => none
  | oldest :: others =>
    if now - oldest.recordedAt < graceMs then none
    else some ⟨(oldest :: others).length, now - oldest.recordedAt⟩

def isMismatch (signal : Signal) : Bool :=
  match signal.source with
  | .meter => signal.name = "worker.checkpoint.verify" && signal.tag "outcome" = some "mismatch"
  | .log => signal.name = "worker.checkpoint.mismatch"

def detectIntegrityMismatches (signals : SignalFeed) (sinceExclusive : Mark) :
    List IntegrityMismatchFinding :=
  ((signals.since sinceExclusive.next).filter isMismatch).map fun signal =>
    ⟨signal.recordedAt, signal.source⟩

def breachMetrics : List String := ["worker.treasury.breach", "worker.treasury.float_breach"]

def detectTreasuryBreaches (signals : SignalFeed) (sinceExclusive : Mark) : Option TreasuryBreachFinding :=
  match (signals.since sinceExclusive.next).filter fun signal =>
    signal.source = .meter && breachMetrics.contains signal.name with
  | [] => none
  | hit :: hits =>
    some ⟨(hit :: hits).length, ((hit :: hits).map Signal.name).eraseDups,
      newestAt (hit :: hits) sinceExclusive⟩

def roundedQuotient (n d : Int) : Option Int := if d = 0 then none else some (Int.fdiv (2 * n + d) (2 * d))

def detectVelocityAnomaly (signals : SignalFeed) (now windowMs threshold : Int) :
    Option VelocityAnomalyFinding :=
  let hits := (signals.since (windowStart now windowMs)).filter fun signal =>
    signal.isMeter "economy.submit" &&
    signal.tag "status" = some "rejected" && signal.tag "reason" = some "RISK_DENIED"
  let rejections := totalValue hits
  if rejections < threshold then none
  else some ⟨rejections, tallyByTag hits "kind", roundedQuotient (rejections * 60000) windowMs, windowMs⟩

structure Watchdog where
  signal : String
  everyMs : Int
deriving DecidableEq, Repr

def detectSilences (signals : SignalFeed) (now : Int) (watchdogs : List Watchdog) (watchStartedAt : Int) :
    List SilenceFinding :=
  let all := signals.since (some MIN_SAFE_INTEGER)
  watchdogs.filterMap fun watchdog =>
    let lastSeen := (all.filter fun signal => signal.name = watchdog.signal).foldl
      (fun latest signal => max latest signal.recordedAt) watchStartedAt
    if now - lastSeen ≤ watchdog.everyMs * 2 then none else some ⟨watchdog.signal, now - lastSeen⟩

def detectRetryExhaustion (signals : SignalFeed) (now windowMs threshold : Int) :
    Option RetryExhaustionFinding :=
  let hits := (signals.since (windowStart now windowMs)).filter fun signal =>
    signal.isMeter "engine.retry" && signal.tag "outcome" = some "exhausted"
  let exhausted := totalValue hits
  if exhausted < threshold then none else some ⟨exhausted, tallyByTag hits "engine", windowMs⟩

def detectOutboxBacklog (signals : SignalFeed) (ageMs : Int) : Option OutboxBacklogFinding :=
  let all := signals.since (some MIN_SAFE_INTEGER)
  match newestMeter all "worker.relay.backlog_age_ms" with
  | none => none
  | some newestAge =>
    if newestAge.value < ageMs then none
    else some ⟨newestAge.value, ((newestMeter all "worker.relay.backlog").map Signal.value).getD 0⟩

def detectWebhookReplayStorm (signals : SignalFeed) (now windowMs threshold : Int) :
    Option WebhookReplayStormFinding :=
  let hits := (signals.since (windowStart now windowMs)).filter fun signal =>
    signal.isMeter "economy.webhook.duplicate"
  let duplicates := totalValue hits
  if duplicates < threshold then none
  else some ⟨duplicates, tallyByTag hits "provider", tallyByTag hits "layer", windowMs⟩

def detectSlowSeal (signals : SignalFeed) (now thresholdMs windowMs : Int) : Option SlowSealFinding :=
  match (signals.since (windowStart now windowMs)).filter fun signal =>
    signal.isMeter "worker.checkpoint.seal_ms" && signal.tag "outcome" = some "sealed" with
  | [] => none
  | sample :: samples =>
    let maxMs := (sample :: samples).foldl (fun slowest signal => max slowest signal.value) 0
    if maxMs < thresholdMs then none else some ⟨maxMs, (sample :: samples).length, windowMs⟩

def detectInboxDeadLetters (signals : SignalFeed) (sinceExclusive : Mark) (threshold : Int) :
    Option InboxDeadLetterFinding :=
  let hits := (signals.since sinceExclusive.next).filter fun signal =>
    signal.source = .log && signal.name = "worker.inbox.dead_lettered"
  if hits.length < threshold then none else some ⟨hits.length, newestAt hits sinceExclusive⟩

end EconomyLab.Ops
