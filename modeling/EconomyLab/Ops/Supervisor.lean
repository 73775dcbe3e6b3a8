import EconomyLab.Foundation.Programs
import EconomyLab.Foundation.Runs
import EconomyLab.Ops.Detect

/-!
# The supervisor

A tick runs twelve passes over the signals. Nine only report; three pull a lever under a cooldown and
a cap on attempts. An audit sink or a hook that throws ends the tick where it stands. A tick that
arrives while one is running is skipped, so the ticks of a run come one after the other.
-/

namespace EconomyLab.Ops

open Foundation Foundation.Programs

/-! ## Records -/

structure Detail where
  json : Json
  numerals : json.numerals

theorem numeralsItems_map {α : Type} (f : α → Json) (h : ∀ a, (f a).numerals) (items : List α) :
    numeralsItems (items.map f) := by
  induction items with
  | nil => rfl
  | cons item items ih =>
    rw [List.map_cons, numeralsItems, h item, ih]
    rfl

theorem numeralsFields_map {α : Type} (key : α → String) (f : α → Json) (h : ∀ a, (f a).numerals)
    (items : List α) : numeralsFields (items.map fun a => (key a, f a)) := by
  induction items with
  | nil => rfl
  | cons item items ih =>
    rw [List.map_cons, numeralsFields, h item, ih]
    rfl

namespace Detail

def null : Detail := ⟨.null, rfl⟩

def number (n : Int) : Detail := ⟨.number n, rfl⟩

def string (s : String) : Detail := ⟨.string s, rfl⟩

def strings (items : List String) : Detail :=
  ⟨.array (items.map .string), numeralsItems_map Json.string (fun _ => rfl) items⟩

def tally (counts : List (String × Int)) : Detail :=
  ⟨.object (counts.map fun count : String × Int => (count.1, Json.number count.2)),
    numeralsFields_map Prod.fst (fun count : String × Int => Json.number count.2) (fun _ => rfl) counts⟩

def object (fields : List (String × Detail)) : Detail :=
  ⟨.object (fields.map fun field : String × Detail => (field.1, field.2.json)),
    numeralsFields_map Prod.fst (fun field : String × Detail => field.2.json)
      (fun field => field.2.numerals) fields⟩

end Detail

def auditRecord (now : Int) (signature : SignatureName) (tier : AuditTier) (phase : AuditPhase)
    (subject : Option String) (fields : List (String × Detail)) : AuditRecord where
  recordedAt := now
  signature := signature
  tier := tier
  phase := phase
  subject := subject
  detail := fields.map fun field : String × Detail => (field.1, field.2.json)
  numerals :=
    numeralsFields_map Prod.fst (fun field : String × Detail => field.2.json)
      (fun field => field.2.numerals) fields

def sagaStateText : SagaState → String
  | .requested => "REQUESTED"
  | .reserved => "RESERVED"
  | .submitted => "SUBMITTED"
  | .settled => "SETTLED"
  | .failed => "FAILED"

def STALL_ADVISORY : String :=
  "Connection acquires started and none completed: the pool is starved or the database is " ++
  "unresponsive. Submits are queued, not failing, so no error surfaces on its own. Check database " ++
  "liveness, then pool sizing (DB_POOL_MAX)."

def VELOCITY_ADVISORY : String :=
  "A velocity-rejection spike is first a fraud signal: a cohort probing the limits (card testing, " ++
  "credit farming) trips the per-user gates long before a legitimate surge does. Inspect the rejected " ++
  "subjects and operation kinds before touching any limit; a limit change is a config rebuild, never a " ++
  "live mutation. Runbook: https://economy-lab-docs.pages.dev/economy/ops/runbooks/velocity-anomaly/."

def EXHAUSTION_ADVISORY : String :=
  "Retry budgets are running out: these submits failed to their callers after every retry, so users " ++
  "are seeing errors, not just latency. Sustained exhaustion means the conflict rate is beyond what the " ++
  "budget absorbs — check the deadlock counters and the pool before raising any budget. Runbook: " ++
  "https://economy-lab-docs.pages.dev/economy/ops/runbooks/retry-exhaustion/."

def REPLAY_STORM_ADVISORY : String :=
  "The same provider events keep arriving: a redelivery storm is a provider misconfiguration (acks not " ++
  "registering) or a replay attack. The gates held — every duplicate was dropped and no money moved " ++
  "twice — but the edge is burning work. Check the layer tag: \"stale\"/\"replay\" storms stop at the " ++
  "edge, an \"inbox\" storm means redeliveries are getting past it. Runbook: " ++
  "https://economy-lab-docs.pages.dev/economy/ops/runbooks/webhook-replay-storm/."

def SEAL_SLOW_ADVISORY : String :=
  "Checkpoint sealing is slowing down. The seal re-derives every chain head, so its duration tracks " ++
  "table growth: a rising trend is the ledger outgrowing the sweep, brewing toward timeouts. Plan " ++
  "capacity now, while it is a trend and not an outage. Runbook: " ++
  "https://economy-lab-docs.pages.dev/economy/ops/runbooks/checkpoint-seal-slow/."

def DEADLOCK_ADVISORY : String :=
  "Known signature: InnoDB gap locks on the idempotency claim under concurrent submits. Confirm " ++
  "against the engine deadlock counters (performance_schema on MySQL, pg_stat_database on Postgres), then " ++
  "reduce submit concurrency or shard the hot platform accounts; the retry budget absorbs the storm in " ++
  "the meantime."

def TREASURY_ADVISORY : String :=
  "The backing invariant is breached: custodial CREDIT exceeds what the trust or float covers. Money " ++
  "already moved wrong somewhere upstream; reconcile before anything is paid out. Never auto-fixed."

def SILENCE_ADVISORY : String :=
  "A signal the host declared as periodic has gone quiet. The process that should emit it is down, " ++
  "paused, or wedged; nothing downstream will say so on its own."

def BACKLOG_ADVISORY : String :=
  "Re-drives are not draining the outbox: the dispatcher is down or the pending events are poisoned. " ++
  "Runbook: https://economy-lab-docs.pages.dev/economy/ops/runbooks/outbox-backlog/."

def INBOX_ADVISORY : String :=
  "Revived inbox rows keep dead-lettering: the events are poisoned, not delayed. Inspect the rows " ++
  "before any further replay. Runbook: " ++
  "https://economy-lab-docs.pages.dev/economy/ops/runbooks/inbox-dead-letter/."

/-! ## Ports and state -/

structure SupervisorConfig where
  stuckSagaAgeMs : Int
  actionCooldownMs : Int
  maxActionAttempts : Nat
  deadlockMetric : String
  deadlockWindowMs : Int
  deadlockThreshold : Int
  stallGraceMs : Int
  anomalyWindowMs : Int
  anomalyThreshold : Int
  anomalyEscalationThreshold : Int
  retryExhaustionWindowMs : Int
  retryExhaustionThreshold : Int
  outboxBacklogAgeMs : Int
  webhookReplayWindowMs : Int
  webhookReplayThreshold : Int
  sealLatencyMs : Int
  sealLatencyWindowMs : Int
  inboxDeadLetterThreshold : Int
  inboxReviveLimit : Int
  watchdogs : List Watchdog

def defaultSupervisorConfig : SupervisorConfig where
  stuckSagaAgeMs := 300000
  actionCooldownMs := 60000
  maxActionAttempts := 3
  deadlockMetric := "engine.retry"
  deadlockWindowMs := 60000
  deadlockThreshold := 20
  stallGraceMs := 10000
  anomalyWindowMs := 300000
  anomalyThreshold := 20
  anomalyEscalationThreshold := 100
  retryExhaustionWindowMs := 300000
  retryExhaustionThreshold := 5
  outboxBacklogAgeMs := 300000
  webhookReplayWindowMs := 60000
  webhookReplayThreshold := 20
  sealLatencyMs := 5000
  sealLatencyWindowMs := 300000
  inboxDeadLetterThreshold := 1
  inboxReviveLimit := 10
  watchdogs := []

structure SupervisorPorts where
  prove : Bool
  escalate : Bool
  pauseWorker : Bool
  runRelay : Bool
  reviveInbox : Bool

structure SagaActionState where
  attempts : Nat
  lastActedAt : Mark
  escalated : Bool
deriving DecidableEq, Repr

def idleAction : SagaActionState := ⟨0, none, false⟩

structure OutboxVerify where
  actedAt : Int
  ageAtAction : Int
deriving DecidableEq, Repr

structure SupervisorState where
  perSaga : Table String SagaActionState
  stormReportedAt : Mark
  mismatchHandledUpTo : Mark
  stallEscalated : Bool
  breachHandledUpTo : Mark
  anomalyReportedAt : Mark
  silenceEscalated : Table String Bool
  watchStartedAt : Option Int
  exhaustionReportedAt : Mark
  replayStormReportedAt : Mark
  sealSlowReportedAt : Mark
  containment : Bool
  outboxAction : SagaActionState
  outboxVerify : Option OutboxVerify
  inboxAction : SagaActionState
  inboxHandledUpTo : Mark

def initialState : SupervisorState where
  perSaga := .empty
  stormReportedAt := none
  mismatchHandledUpTo := none
  stallEscalated := false
  breachHandledUpTo := none
  anomalyReportedAt := none
  silenceEscalated := .empty
  watchStartedAt := none
  exhaustionReportedAt := none
  replayStormReportedAt := none
  sealSlowReportedAt := none
  containment := false
  outboxAction := idleAction
  outboxVerify := none
  inboxAction := idleAction
  inboxHandledUpTo := none

inductive FeedRead
  | integrity
  | stall
  | treasury
  | silence
  | storm
  | exhaustion
  | replayStorm
  | sealLatency
  | velocity
  | redrive
  | backlog
  | deadLetters
deriving DecidableEq, Repr

/-- What the ports answer during one tick. A call that throws answers with the text of what it throws.
The buffer moves on between two reads, so every read has a feed of its own. A call of the sink is
named by its record's signature and phase and its place in the pass's loop. -/
structure TickInput where
  now : Int
  signals : FeedRead → SignalFeed
  sagas : Except String (List Saga)
  load : Nat → Except String (Option Saga)
  audit : SignatureName → AuditPhase → Nat → Except String Unit
  escalate : SignatureName → Nat → Except String Unit
  prove : Except String Detail
  pauseWorker : Except String Unit
  runSweep : Except String Unit
  redrive : Except String Unit
  reviveInbox : Except String (List String)

/-- The sweep of the stuck sagas it serves, the run for the outbox backlog, the revival of dead rows. -/
inductive Lever
  | sweep (sagas : List String)
  | redrive
  | revive
deriving DecidableEq, Repr

structure LeverCall where
  calledAt : Int
  lever : Lever
deriving DecidableEq, Repr

structure Tick where
  state : SupervisorState
  out : List AuditRecord
  escalations : List AuditRecord
  calls : List LeverCall

structure Pass where
  deps : SupervisorPorts
  config : SupervisorConfig
  input : TickInput

abbrev Step (α : Type) := EStateM String Tick α

def update (f : SupervisorState → SupervisorState) : Step Unit :=
  modify fun t => { t with state := f t.state }

namespace Pass

def emit (p : Pass) (k : Nat) (record : AuditRecord) : Step Unit := do
  answer (p.input.audit record.signature record.phase k)
  modify fun t => { t with out := t.out ++ [record] }

def escalate (p : Pass) (k : Nat) (escalation : AuditRecord) : Step Unit := do
  if p.deps.escalate then
    modify fun t => { t with escalations := t.escalations ++ [escalation] }
    answer (p.input.escalate escalation.signature k)

def emitEscalation (p : Pass) (k : Nat) (escalation : AuditRecord) : Step Unit := do
  p.emit k escalation
  p.escalate k escalation

def call (p : Pass) (lever : Lever) : Step Unit :=
  modify fun t => { t with calls := t.calls ++ [⟨p.input.now, lever⟩] }

def reported (p : Pass) (signature : SignatureName) (phase : AuditPhase)
    (fields : List (String × Detail)) :
    AuditRecord :=
  auditRecord p.input.now signature .three phase none fields

end Pass

def failureField {α : Type} : Except String α → List (String × Detail)
  | .ok _ => []
  | .error failure => [("failure", .string failure)]

def advice (advisory : String) : List (String × Detail) :=
  [("decision", .string "advise"), ("advisory", .string advisory)]

/-! ## Reporting passes -/

def runProver (p : Pass) : Detail :=
  if p.deps.prove then
    match p.input.prove with
    | .ok proof => proof
    | .error failure => .object [("proverFailed", .string failure)]
  else .null

def pauseHost (p : Pass) : Step Unit := do
  if p.deps.pauseWorker then
    p.emit 0 (p.reported .integrityMismatch .acted
      (("action", .string "pause") :: failureField p.input.pauseWorker))

def runIntegrityPass (p : Pass) : Step Unit := do
  let t ← get
  let findings := detectIntegrityMismatches (p.input.signals .integrity) t.state.mismatchHandledUpTo
  if findings.isEmpty then pure ()
  else
    p.emit 0 (p.reported .integrityMismatch .detected
      [("signals", .number findings.length),
        ("channels", .strings (findings.map fun finding => finding.channel.text).eraseDups)])
    p.emitEscalation 0 (p.reported .integrityMismatch .escalated [("proof", runProver p)])
    update fun s => { s with containment := true }
    pauseHost p
    update fun s => { s with
      mismatchHandledUpTo :=
        findings.foldl (fun newest finding => newest.later finding.recordedAt) s.mismatchHandledUpTo }

def runStallPass (p : Pass) : Step Unit := do
  let t ← get
  match detectEngineStall (p.input.signals .stall) p.input.now p.config.stallGraceMs with
  | none => update fun s => { s with stallEscalated := false }
  | some stall =>
    if t.state.stallEscalated then pure ()
    else
      update fun s => { s with stallEscalated := true }
      p.emit 0 (p.reported .engineStall .detected
        [("pending", .number stall.pending), ("oldestWaitMs", .number stall.oldestWaitMs)])
      p.emitEscalation 0 (p.reported .engineStall .escalated
        [("pending", .number stall.pending), ("oldestWaitMs", .number stall.oldestWaitMs),
          ("advisory", .string STALL_ADVISORY)])

def runTreasuryPass (p : Pass) : Step Unit := do
  let t ← get
  match detectTreasuryBreaches (p.input.signals .treasury) t.state.breachHandledUpTo with
  | none => pure ()
  | some breach =>
    update fun s => { s with breachHandledUpTo := breach.newestAt }
    p.emit 0 (p.reported .treasuryBreach .detected
      [("breaches", .number breach.breaches), ("channels", .strings breach.channels)])
    p.emitEscalation 0 (p.reported .treasuryBreach .escalated
      [("breaches", .number breach.breaches), ("channels", .strings breach.channels),
        ("advisory", .string TREASURY_ADVISORY)])

def clearBeating (silentNow : List String) (flags : Table String Bool) : Table String Bool :=
  ⟨fun signal => (flags.get signal).map fun flagged => flagged && silentNow.contains signal⟩

def reportSilence (p : Pass) (k : Nat) (finding : SilenceFinding) : Step Unit := do
  let t ← get
  if t.state.silenceEscalated.get finding.signal = some true then pure ()
  else
    update fun s => { s with silenceEscalated := s.silenceEscalated.set finding.signal true }
    p.emit k (auditRecord p.input.now .signalSilence .three .detected (some finding.signal)
      [("silentForMs", .number finding.silentForMs)])
    p.emitEscalation k (auditRecord p.input.now .signalSilence .three .escalated (some finding.signal)
      [("silentForMs", .number finding.silentForMs), ("advisory", .string SILENCE_ADVISORY)])

def runSilencePass (p : Pass) : Step Unit := do
  let t ← get
  let findings := detectSilences (p.input.signals .silence) p.input.now p.config.watchdogs
    (t.state.watchStartedAt.getD p.input.now)
  update fun s =>
    { s with silenceEscalated := clearBeating (findings.map SilenceFinding.signal) s.silenceEscalated }
  each (reportSilence p) 0 findings

/-- Past the escalation threshold someone is paged. -/
def answerAnomaly (p : Pass) (anomaly : VelocityAnomalyFinding) (measured : List (String × Detail)) :
    Step Unit := do
  if anomaly.rejections ≥ p.config.anomalyEscalationThreshold then
    p.emitEscalation 0 (p.reported .velocityAnomaly .escalated
      (measured ++ [("advisory", .string VELOCITY_ADVISORY)]))
  else
    p.emit 0 (p.reported .velocityAnomaly .decided (advice VELOCITY_ADVISORY))

def runVelocityPass (p : Pass) : Step Unit := do
  let t ← get
  if t.state.anomalyReportedAt.within p.input.now p.config.anomalyWindowMs then pure ()
  else
    match detectVelocityAnomaly (p.input.signals .velocity) p.input.now p.config.anomalyWindowMs
      p.config.anomalyThreshold with
    | none => pure ()
    | some anomaly =>
      let measured := [("rejections", Detail.number anomaly.rejections), ("byKind", .tally anomaly.byKind),
        ("ratePerMin", anomaly.ratePerMin.elim .null .number)]
      p.emit 0 (p.reported .velocityAnomaly .detected
        (measured ++ [("windowMs", .number anomaly.windowMs)]))
      answerAnomaly p anomaly measured
      update fun s => { s with anomalyReportedAt := some p.input.now }

def runRetryExhaustionPass (p : Pass) : Step Unit := do
  let t ← get
  if t.state.exhaustionReportedAt.within p.input.now p.config.retryExhaustionWindowMs then pure ()
  else
    match detectRetryExhaustion (p.input.signals .exhaustion) p.input.now p.config.retryExhaustionWindowMs
      p.config.retryExhaustionThreshold with
    | none => pure ()
    | some finding =>
      update fun s => { s with exhaustionReportedAt := some p.input.now }
      p.emit 0 (p.reported .retryExhaustion .detected
        [("exhausted", .number finding.exhausted), ("byEngine", .tally finding.byEngine),
          ("windowMs", .number finding.windowMs)])
      p.emitEscalation 0 (p.reported .retryExhaustion .escalated
        [("exhausted", .number finding.exhausted), ("byEngine", .tally finding.byEngine),
          ("advisory", .string EXHAUSTION_ADVISORY)])

def runReplayStormPass (p : Pass) : Step Unit := do
  let t ← get
  if t.state.replayStormReportedAt.within p.input.now p.config.webhookReplayWindowMs then pure ()
  else
    match detectWebhookReplayStorm (p.input.signals .replayStorm) p.input.now
      p.config.webhookReplayWindowMs
      p.config.webhookReplayThreshold with
    | none => pure ()
    | some finding =>
      update fun s => { s with replayStormReportedAt := some p.input.now }
      p.emit 0 (p.reported .webhookReplayStorm .detected
        [("duplicates", .number finding.duplicates), ("byProvider", .tally finding.byProvider),
          ("byLayer", .tally finding.byLayer), ("windowMs", .number finding.windowMs)])
      p.emit 0 (p.reported .webhookReplayStorm .decided (advice REPLAY_STORM_ADVISORY))

def runSealLatencyPass (p : Pass) : Step Unit := do
  let t ← get
  if t.state.sealSlowReportedAt.within p.input.now p.config.sealLatencyWindowMs then pure ()
  else
    match detectSlowSeal (p.input.signals .sealLatency) p.input.now p.config.sealLatencyMs
      p.config.sealLatencyWindowMs with
    | none => pure ()
    | some finding =>
      update fun s => { s with sealSlowReportedAt := some p.input.now }
      p.emit 0 (p.reported .checkpointSealSlow .detected
        [("maxMs", .number finding.maxMs), ("samples", .number finding.samples),
          ("windowMs", .number finding.windowMs)])
      p.emit 0 (p.reported .checkpointSealSlow .decided (advice SEAL_SLOW_ADVISORY))

def runStormPass (p : Pass) : Step Unit := do
  let t ← get
  if t.state.stormReportedAt.within p.input.now p.config.deadlockWindowMs then pure ()
  else
    match detectDeadlockStorm (p.input.signals .storm) p.input.now p.config.deadlockMetric
      p.config.deadlockWindowMs
      p.config.deadlockThreshold with
    | none => pure ()
    | some storm =>
      p.emit 0 (p.reported .deadlockStorm .detected
        [("retries", .number storm.retries), ("windowMs", .number storm.windowMs)])
      p.emit 0 (p.reported .deadlockStorm .decided (advice DEADLOCK_ADVISORY))
      update fun s => { s with stormReportedAt := some p.input.now }

def stuckRecord (p : Pass) (phase : AuditPhase) (subject : String) (fields : List (String × Detail)) :
    AuditRecord :=
  auditRecord p.input.now .stuckSaga .one phase (some subject) fields

def suppression (reason : String) : List (String × Detail) :=
  [("decision", .string "suppressed"), ("reason", .string reason)]

/-- Whether the guards let this tick's sweep serve the saga. -/
def weighStuckSaga (p : Pass) (k : Nat) (finding : StuckSagaFinding) (action : SagaActionState) :
    Step Bool := do
  let id := finding.saga.id
  let t ← get
  if t.state.containment then
    p.emit k (stuckRecord p .decided id (suppression "containment"))
    pure false
  else if action.escalated then
    p.emit k (stuckRecord p .decided id (suppression "escalated"))
    pure false
  else if action.attempts ≥ p.config.maxActionAttempts then
    update fun s => { s with perSaga := s.perSaga.set id { action with escalated := true } }
    p.emitEscalation k (stuckRecord p .escalated id
      [("attempts", .number action.attempts), ("state", .string (sagaStateText finding.saga.state))])
    pure false
  else if action.lastActedAt.within p.input.now p.config.actionCooldownMs then
    p.emit k (stuckRecord p .decided id (suppression "cooldown"))
    pure false
  else
    p.emit k (stuckRecord p .decided id [("decision", .string "act"), ("action", .string "sweep")])
    pure true

def decideStuckSaga (p : Pass) (k : Nat) (finding : StuckSagaFinding) : Step Bool := do
  let id := finding.saga.id
  p.emit k (stuckRecord p .detected id
    [("state", .string (sagaStateText finding.saga.state)), ("ageMs", .number finding.ageMs)])
  let t ← get
  let action := (t.state.perSaga.get id).getD idleAction
  update fun s => { s with perSaga := s.perSaga.set id action }
  weighStuckSaga p k finding action

def verifyStuckSaga (p : Pass) (k : Nat) (finding : StuckSagaFinding) : Step Unit := do
  let t ← get
  match t.state.perSaga.get finding.saga.id with
  | none => pure ()
  | some action =>
    let counted := { action with attempts := action.attempts + 1, lastActedAt := some p.input.now }
    update fun s => { s with perSaga := s.perSaga.set finding.saga.id counted }
    let after ← answer (p.input.load k)
    let progressed := after.any fun saga =>
      saga.state ≠ finding.saga.state || saga.updatedAt ≠ finding.saga.updatedAt
    p.emit k (stuckRecord p .verified finding.saga.id
      [("outcome", .string (if progressed then "progressed" else "unchanged")),
        ("from", .string (sagaStateText finding.saga.state)),
        ("to", after.elim .null fun saga => .string (sagaStateText saga.state)),
        ("attempts", .number counted.attempts)])

def sagaIds (findings : List StuckSagaFinding) : List String := findings.map fun finding => finding.saga.id

def actOnStuckSagas (p : Pass) (actionable : List StuckSagaFinding) : Step Unit := do
  p.call (.sweep (sagaIds actionable))
  p.emit 0 (auditRecord p.input.now .stuckSaga .one .acted none
    (("action", .string "sweep") :: ("sagas", .strings (sagaIds actionable)) :: failureField
      p.input.runSweep))
  each (verifyStuckSaga p) 0 actionable

def runStuckSagaPass (p : Pass) : Step Unit := do
  let listed ← answer p.input.sagas
  let actionable ← sift (decideStuckSaga p) 0 (detectStuckSagas listed p.input.now p.config.stuckSagaAgeMs)
  if actionable.isEmpty then pure ()
  else actOnStuckSagas p actionable

/-! ## The outbox backlog -/

inductive Suppression
  | containment
  | escalated
  | escalate
  | cooldown
deriving DecidableEq, Repr

def Suppression.text : Suppression → String
  | containment => "containment"
  | escalated => "escalated"
  | escalate => "escalate"
  | cooldown => "cooldown"

def decideSuppression (p : Pass) (state : SupervisorState) (action : SagaActionState) :
    Option Suppression :=
  if state.containment then some .containment
  else if action.escalated then some .escalated
  else if action.attempts ≥ p.config.maxActionAttempts then some .escalate
  else if action.lastActedAt.within p.input.now p.config.actionCooldownMs then some .cooldown
  else none

def backlogRecord (p : Pass) (phase : AuditPhase) (fields : List (String × Detail)) : AuditRecord :=
  auditRecord p.input.now .outboxBacklog .one phase none fields

def verifyOutboxRedrive (p : Pass) : Step Unit := do
  let t ← get
  match t.state.outboxVerify with
  | none => pure ()
  | some verify =>
    match (((p.input.signals .redrive).since (some (verify.actedAt + 1))).filter fun signal =>
      signal.isMeter "worker.relay.backlog_age_ms").getLast? with
    | none => pure ()
    | some fresh =>
      p.emit 0 (backlogRecord p .verified
        [("outcome", .string (if fresh.value < verify.ageAtAction then "drained" else "unchanged")),
          ("ageMs", .number fresh.value), ("ageAtAction", .number verify.ageAtAction)])
      update fun s => { s with outboxVerify := none }

def escalateBacklog (p : Pass) (finding : OutboxBacklogFinding) (action : SagaActionState) : Step Unit :=
  do
  update fun s => { s with outboxAction := { action with escalated := true } }
  p.emitEscalation 0 (backlogRecord p .escalated
    [("attempts", .number action.attempts), ("ageMs", .number finding.ageMs),
      ("pending", .number finding.pending),
      ("advisory", .string BACKLOG_ADVISORY)])

def redriveOutbox (p : Pass) (finding : OutboxBacklogFinding) (action : SagaActionState) : Step Unit := do
  let actionName := if p.deps.runRelay then "redriveRelay" else "sweep"
  p.emit 0 (backlogRecord p .decided [("decision", .string "act"), ("action", .string actionName)])
  p.call .redrive
  p.emit 0 (backlogRecord p .acted (("action", .string actionName) :: failureField p.input.redrive))
  update fun s => { s with
    outboxAction := { action with attempts := action.attempts + 1, lastActedAt := some p.input.now }
    outboxVerify := some ⟨p.input.now, finding.ageMs⟩ }

def runOutboxBacklogPass (p : Pass) : Step Unit := do
  verifyOutboxRedrive p
  match detectOutboxBacklog (p.input.signals .backlog) p.config.outboxBacklogAgeMs with
  | none => pure ()
  | some finding =>
    p.emit 0 (backlogRecord p .detected [("ageMs", .number finding.ageMs),
      ("pending", .number finding.pending)])
    let t ← get
    match decideSuppression p t.state t.state.outboxAction with
    | some .escalate => escalateBacklog p finding t.state.outboxAction
    | some reason => p.emit 0 (backlogRecord p .decided (suppression reason.text))
    | none => redriveOutbox p finding t.state.outboxAction

def inboxRecord (p : Pass) (phase : AuditPhase) (fields : List (String × Detail)) : AuditRecord :=
  auditRecord p.input.now .inboxDeadLetter .one phase none fields

def escalateInbox (p : Pass) (deadLettered : Nat) (action : SagaActionState) : Step Unit := do
  update fun s => { s with inboxAction := { action with escalated := true } }
  p.emitEscalation 0 (inboxRecord p .escalated
    [("attempts", .number action.attempts), ("deadLettered", .number deadLettered),
      ("advisory", .string INBOX_ADVISORY)])

def reviveDead (p : Pass) (action : SagaActionState) : Step Unit := do
  p.emit 0 (inboxRecord p .decided
    [("decision", .string "act"), ("action", .string "reviveInbox"),
      ("limit", .number p.config.inboxReviveLimit)])
  p.call .revive
  let ids := p.input.reviveInbox.toOption.getD []
  p.emit 0 (inboxRecord p .acted
    (("action", .string "reviveInbox") :: ("revived", .strings ids) :: failureField p.input.reviveInbox))
  update fun s => { s with
    inboxAction := { action with attempts := action.attempts + 1, lastActedAt := some p.input.now } }
  p.emit 0 (inboxRecord p .verified
    [("outcome", .string (if ids.isEmpty then "empty" else "revived")), ("revived", .number ids.length)])

def runInboxDeadLetterPass (p : Pass) : Step Unit := do
  let t ← get
  match detectInboxDeadLetters (p.input.signals .deadLetters) t.state.inboxHandledUpTo
    p.config.inboxDeadLetterThreshold with
  | none => pure ()
  | some finding =>
    update fun s => { s with inboxHandledUpTo := finding.newestAt }
    p.emit 0 (inboxRecord p .detected [("deadLettered", .number finding.deadLettered)])
    if p.deps.reviveInbox then
      match decideSuppression p t.state t.state.inboxAction with
      | some .escalate => escalateInbox p finding.deadLettered t.state.inboxAction
      | some reason => p.emit 0 (inboxRecord p .decided (suppression reason.text))
      | none => reviveDead p t.state.inboxAction
    else
      p.emit 0 (inboxRecord p .decided (suppression "no-lever"))

def runPasses (p : Pass) : Step Unit := do
  update fun s => { s with watchStartedAt := some (s.watchStartedAt.getD p.input.now) }
  runIntegrityPass p
  runStallPass p
  runTreasuryPass p
  runSilencePass p
  runStormPass p
  runRetryExhaustionPass p
  runReplayStormPass p
  runSealLatencyPass p
  runVelocityPass p
  runStuckSagaPass p
  runOutboxBacklogPass p
  runInboxDeadLetterPass p

def Tick.start (state : SupervisorState) : Tick := ⟨state, [], [], []⟩

/-- The records the tick returns, or what ended it, and what it leaves. -/
def tick (deps : SupervisorPorts) (config : SupervisorConfig) (state : SupervisorState)
    (input : TickInput) :
    Except String (List AuditRecord) × Tick :=
  match (runPasses ⟨deps, config, input⟩).run (Tick.start state) with
  | .ok _ t => (.ok t.out, t)
  | .error e t => (.error e, t)

end EconomyLab.Ops
