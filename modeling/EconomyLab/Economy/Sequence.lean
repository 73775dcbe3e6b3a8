import EconomyLab.Economy.Batch
import EconomyLab.Stores.Attempts

/-!
# A batch against the same operations one by one

Both paths run the same work on the same rows. They can only part where a velocity screen asks
for the attempts of operations that rolled back earlier: submitting puts an attempt back before the
next operation, a batch only after its commit.
-/

namespace EconomyLab

open Foundation

section Sequence

variable {Op : Type} (p : Catalog Op) (env : Env) (config : Config)

/-! ## The velocity screen as an answer -/

/-- What the screen makes of a window's total; a total that cannot be an amount throws. -/
def judged (check : RiskCheck) (spentMinor : Int) : Except Fault (Option Outcome) := do
  let spent ← toAmount VELOCITY_CURRENCY spentMinor
  return riskVerdict config check spent.minor

/-- The windows once the attempt is recorded in them, in a store that was admitted. -/
def recordedIn (a : World) (check : RiskCheck) : Journaled TrustTables :=
  (TrustWrite.record check.subject check.attempt).run config.velocityWindowMs
  (env.clock (a.ticks + 1)) a.trust

/-- The total that the screen of an admitted store reads. -/
def spentIn (a : World) (check : RiskCheck) : Int :=
  ((recordedIn env config a check).rows.window check.subject).sumMinor

def checkAt (op : Op) (a : World) : Option RiskCheck :=
  (riskCheckOf p op (env.clock a.ticks)).bind Except.toOption

def verdictAt (op : Op) (a : World) : Except Fault (Option Outcome) :=
  match checkAt p env op a with
  | some check => judged config check (spentIn env config a check)
  | none => .ok none

def riskTrust (op : Op) (a : World) : Journaled TrustTables :=
  match checkAt p env op a with
  | some check => recordedIn env config a check
  | none => a.trust

/-- The screen with its answer given: it reads the clock as the screen does, and no window. -/
def heardRisk (op : Op) (verdict : Except Fault (Option Outcome)) : Txn (Option Outcome) :=
  if (p.riskSubject op).isSome then do
    let now ← Txn.now env
    match riskCheckOf p op now with
    | none => return none
    | some check => do
      let _ ← Txn.lift check
      let _ ← Txn.now env
      Txn.lift verdict
  else return none

variable (op : Op) {w w' : World}

theorem heardRisk_unaware (verdict : Except Fault (Option Outcome)) :
    Txn.Unaware (heardRisk p env op verdict) := by
  unfold heardRisk
  split
  · apply (Txn.Unaware.now env).bind
    intro now
    split
    · exact .pure none
    · apply (Txn.Unaware.lift _).bind
      intro check
      apply (Txn.Unaware.now env).bind
      exact fun _ => .lift verdict
  · exact .pure none

theorem recordAttempt_run (a : World) (check : RiskCheck) :
    ((do
        let velocity ← Txn.recordAttempt env config.velocityWindowMs check.subject check.attempt
        return riskVerdict config check velocity.spent.minor : Txn (Option Outcome)).run
      { a with ticks := a.ticks + 1 }) =
      (judged config check (spentIn env config a check),
        { a with ticks := a.ticks + 2, trust := recordedIn env config a check }) := by
  have hspent : (TrustTables.insert check.subject check.attempt a.trust).rows.read
        config.velocityWindowMs (env.clock (a.ticks + 1)) check.subject =
      (((recordedIn env config a check).rows.window check.subject).velocity check.subject) := by
    unfold TrustTables.read recordedIn
    simp only [TrustWrite.run, TrustTables.window_measure, if_true]
  have hrun : (Txn.recordAttempt env config.velocityWindowMs check.subject check.attempt).run
      { a with ticks := a.ticks + 1 } =
      (((recordedIn env config a check).rows.window check.subject).velocity check.subject,
        { a with ticks := a.ticks + 2, trust := recordedIn env config a check }) := by
    simp only [Txn.recordAttempt, hspent]
    rfl
  rw [Txn.run_bind, hrun]
  unfold judged spentIn TrustWindow.velocity
  cases toAmount VELOCITY_CURRENCY
    ((recordedIn env config a check).rows.window check.subject).sumMinor with
  | error e => rfl
  | ok spent => rfl

/-- The screen is its heard answer, and beside that only records the attempt. -/
theorem screenRisk_run (a : World) :
    ((screenRisk p env config op).run a).1 = ((heardRisk p env op (verdictAt p env config op a)).run a).1 ∧
      ((screenRisk p env config op).run a).2 =
        { ((heardRisk p env op (verdictAt p env config op a)).run a).2 with
          trust := riskTrust p env config op a } := by
  unfold screenRisk heardRisk
  cases hrisk : p.riskSubject op with
  | none =>
    have hcheck : checkAt p env op a = none := by simp [checkAt, riskCheckOf, hrisk]
    simp [riskTrust, hcheck]
  | some risk =>
    have hnow : (Txn.now env).run a = (.ok (env.clock a.ticks), { a with ticks := a.ticks + 1 }) := rfl
    simp only [Option.isSome_some, if_true]
    rw [Txn.run_bind_ok hnow, Txn.run_bind_ok hnow]
    cases hof : riskCheckOf p op (env.clock a.ticks) with
    | none => simp [riskCheckOf, hrisk] at hof
    | some found =>
      cases found with
      | error e =>
        have hcheck : checkAt p env op a = none := by simp [checkAt, hof, Except.toOption]
        rw [Txn.run_bind_error (Txn.run_lift (.error e) _), Txn.run_bind_error (Txn.run_lift (.error e) _)]
        simp [riskTrust, hcheck]
      | ok check =>
        have hcheck : checkAt p env op a = some check := by simp [checkAt, hof, Except.toOption]
        rw [Txn.run_bind_ok (Txn.run_lift (.ok check) _), Txn.run_bind_ok (Txn.run_lift (.ok check) _),
          recordAttempt_run env config a check]
        have htick : (Txn.now env).run { a with ticks := a.ticks + 1 } =
            (.ok (env.clock (a.ticks + 1)), { a with ticks := a.ticks + 2 }) := rfl
        rw [Txn.run_bind_ok htick]
        simp [verdictAt, riskTrust, hcheck]

theorem screenNeeds_unaware (needs : List (AccountRef × Amount)) : Txn.Unaware (screenNeeds needs) := by
  induction needs with
  | nil => exact .pure none
  | cons need needs ih =>
    apply (Txn.Unaware.balance need.1).bind
    intro have_
    apply (Txn.Unaware.lift _).bind
    intro _
    split
    · exact .pure _
    · exact ih

theorem settleClaimed_unaware : Txn.Unaware (settleClaimed p env config op) := by
  have hscreen : Txn.Unaware (screenFunds p op) := by
    apply (p.fundsNeeded_unaware op).bind
    exact fun needs => screenNeeds_unaware needs
  apply hscreen.bind
  intro refused
  cases refused with
  | some refused => exact .pure _
  | none =>
    apply (p.handler_unaware env config op).bind
    intro outcome
    cases outcome with
    | committed transaction => exact .pure _
    | duplicate transaction => exact .pure _
    | rejected detail => exact .pure _

theorem emitEvents_unaware (transaction : Transaction) :
    Txn.Unaware (emitEvents p env op transaction) := by
  unfold emitEvents
  split
  · exact .pure ()
  · apply (Txn.Unaware.mint env "evt").bind
    intro id
    apply (Txn.Unaware.mint env "obx").bind
    exact fun messageId => .enqueue env _

theorem claimedAfter_unaware (transaction : Transaction) :
    Txn.Unaware (claimedAfter p env op transaction) := by
  apply (emitEvents_unaware p env op transaction).bind
  exact fun _ => .pure _

theorem view_claimed (hw : w.view = w'.view) (key : String) :
    (w.withIdempotency (claimKey (env.clock w.ticks) key w.idempotency)).view =
      (w'.withIdempotency (claimKey (env.clock w'.ticks) key w'.idempotency)).view := by
  rw [World.view_ticks hw]
  exact World.view_withIdempotency hw (claimKey_rows (World.view_committed hw) _ _)

/-- The work with the velocity screen's answer given. -/
def heardWork (op : Op) (verdict : Except Fault (Option Outcome)) : Txn Outcome :=
  runClaimedOver p env config op (heardRisk p env op verdict)

/-- The verdict that the work's screen comes to, when the work comes that far. -/
def verdictOf (op : Op) (w : World) : Except Fault (Option Outcome) :=
  match admitted p env op w with
  | some a => verdictAt p env config op a
  | none => .ok none

theorem runClaimed_heard (hw : w.view = w'.view) : Txn.SameRun ((runClaimed p env config op).run w)
      ((heardWork p env config op (verdictOf p env config op w)).run w') := by
  apply Txn.claiming_same env (p.idempotencyKey op) (fun _ => .pure _)
    (fun txn _ => claimedAfter_unaware p env op txn) hw
  intro hcommitted
  have hclaimed := view_claimed env hw (p.idempotencyKey op)
  apply ((p.preClaim_unaware op).same hclaimed).bind
  intro duplicate a a' ha ha' hview
  cases duplicate with
  | some duplicate => exact ⟨rfl, hview⟩
  | none =>
    have hadmitted : admitted p env op w = some a := by
      simp only [admitted, hcommitted, ha]
    have hverdict : verdictOf p env config op w = verdictAt p env config op a := by
      simp only [verdictOf, hadmitted]
    obtain ⟨hanswer, hstore⟩ := screenRisk_run p env config op a
    have hheard := (heardRisk_unaware p env op (verdictAt p env config op a)).same hview
    have hscreen : Txn.SameRun ((screenRisk p env config op).run a)
        ((heardRisk p env op (verdictOf p env config op w)).run a') := by
      rw [hverdict]
      refine ⟨hanswer.trans hheard.answer, ?_⟩
      rw [hstore]
      exact hheard.view
    apply hscreen.bind
    intro denied b b' _ _ hb
    cases denied with
    | some denied => exact ⟨rfl, hb⟩
    | none => exact (settleClaimed_unaware p env config op).same hb

/-- The check of the work's screen, and the reading at which its window is measured. -/
def screenedAt (op : Op) (w : World) : Option (RiskCheck × Int) :=
  (admitted p env op w).bind fun a => (checkAt p env op a).map (·, env.clock (a.ticks + 1))

def recordedBy (screened : RiskCheck × Int) (j : Journaled TrustTables) : Journaled TrustTables :=
  (TrustWrite.record screened.1.subject screened.1.attempt).run config.velocityWindowMs screened.2 j

theorem staged_eq (w : World) : staged p env op w = (screenedAt p env op w).map Prod.fst := by
  have hstaged : staged p env op w = (admitted p env op w).bind (checkAt p env op) := rfl
  rw [hstaged, screenedAt]
  cases admitted p env op w with
  | none => rfl
  | some a =>
    simp only [Option.bind_some]
    cases checkAt p env op a <;> rfl

theorem admitted_trust {op : Op} {w a : World} (h : admitted p env op w = some a) : a.trust = w.trust := by
  unfold admitted at h
  cases hcommitted : w.idempotency.rows.committed.get (p.idempotencyKey op) with
  | some txn => simp [hcommitted] at h
  | none =>
    simp only [hcommitted] at h
    have htrust := (p.preClaim_unaware op).trust
      (w.withIdempotency (claimKey (env.clock w.ticks) (p.idempotencyKey op) w.idempotency))
    split at h
    · rename_i w' hrun
      rw [hrun] at htrust
      cases h
      exact htrust
    · cases h

theorem admitted_view (hw : w.view = w'.view) :
    (admitted p env op w).map World.view = (admitted p env op w').map World.view := by
  unfold admitted
  rw [World.view_committed hw]
  cases w'.idempotency.rows.committed.get (p.idempotencyKey op) with
  | some txn => rfl
  | none =>
    obtain ⟨hanswer, hview⟩ := (p.preClaim_unaware op).same (view_claimed env hw (p.idempotencyKey op))
    simp only
    rcases hr : (p.preClaim op).run
      (w.withIdempotency (claimKey (env.clock w.ticks) (p.idempotencyKey op) w.idempotency)) with ⟨res, a⟩
    rcases hr' : (p.preClaim op).run
      (w'.withIdempotency (claimKey (env.clock w'.ticks) (p.idempotencyKey op) w'.idempotency)) with
        ⟨res', a'⟩
    rw [hr, hr'] at hanswer hview
    simp only at hanswer hview
    subst hanswer
    cases res with
    | error e => rfl
    | ok duplicate =>
      cases duplicate with
      | some duplicate => rfl
      | none => exact congrArg some hview

theorem screenedAt_view (hw : w.view = w'.view) : screenedAt p env op w = screenedAt p env op w' := by
  have hmap : ∀ v : World, screenedAt p env op v =
      ((admitted p env op v).map World.view).bind fun a =>
        (checkAt p env op a).map (·, env.clock (a.ticks + 1)) := by
    intro v
    rw [screenedAt]
    cases admitted p env op v <;> rfl
  rw [hmap, hmap, admitted_view p env op hw]

theorem screenedAt_attempt {op : Op} {screened : RiskCheck × Int}
    (h : screenedAt p env op w = some screened) :
    screened.1.attempt.idempotencyKey = p.idempotencyKey op ∧
      (∃ n, screened.1.attempt.at_ = env.clock n) ∧ ∃ n, screened.2 = env.clock n := by
  obtain ⟨a, -, hmeasured⟩ := Option.bind_eq_some_iff.mp h
  obtain ⟨check, hcheck, rfl⟩ := Option.map_eq_some_iff.mp hmeasured
  obtain ⟨found, hfound, hok⟩ := Option.bind_eq_some_iff.mp hcheck
  obtain ⟨risk, -, rfl⟩ := Option.map_eq_some_iff.mp hfound
  cases hamount : toAmount VELOCITY_CURRENCY (p.attemptMinor op) with
  | error e =>
    rw [hamount] at hok
    cases hok
  | ok amount =>
    rw [hamount] at hok
    cases hok
    exact ⟨rfl, ⟨_, rfl⟩, ⟨_, rfl⟩⟩

theorem verdictOf_eq (w : World) : verdictOf p env config op w = match screenedAt p env op w with
      | none => .ok none
      | some screened => judged config screened.1
          ((recordedBy config screened w.trust).rows.window screened.1.subject).sumMinor := by
  unfold verdictOf screenedAt
  cases hadmitted : admitted p env op w with
  | none => rfl
  | some a =>
    simp only [verdictAt, Option.bind_some]
    cases checkAt p env op a with
    | none => rfl
    | some check =>
      simp only [spentIn, recordedIn, Option.map_some, recordedBy, admitted_trust p env hadmitted]

theorem claimedBody_trust (w : World) :
    ((claimedBody p env config op (screenRisk p env config op)).run w).2.trust =
      match (p.preClaim op).run w with
      | (.ok none, a) => riskTrust p env config op a
      | _ => w.trust := by
  have hprobe := (p.preClaim_unaware op).trust w
  unfold claimedBody
  rw [Txn.run_bind]
  rcases hr : (p.preClaim op).run w with ⟨res, a⟩
  rw [hr] at hprobe
  cases res with
  | error e => exact hprobe
  | ok duplicate =>
    cases duplicate with
    | some duplicate => exact hprobe
    | none =>
      have hscreen : ((screenRisk p env config op).run a).2.trust = riskTrust p env config op a := by
        rw [(screenRisk_run p env config op a).2]
      simp only
      rw [Txn.run_bind]
      rcases hs : (screenRisk p env config op).run a with ⟨answer, b⟩
      rw [hs] at hscreen
      cases answer with
      | error e => exact hscreen
      | ok denied =>
        cases denied with
        | some denied => exact hscreen
        | none => exact ((settleClaimed_unaware p env config op).trust b).trans hscreen

theorem runClaimed_trust (w : World) : ((runClaimed p env config op).run w).2.trust =
      match screenedAt p env op w with
      | none => w.trust
      | some screened => recordedBy config screened w.trust := by
  have htrust : ((runClaimed p env config op).run w).2.trust = _ :=
    Txn.claiming_trust env (p.idempotencyKey op) (fun _ => .pure _)
      (fun txn _ => claimedAfter_unaware p env op txn) w
  rw [htrust, screenedAt]
  cases hcommitted : w.idempotency.rows.committed.get (p.idempotencyKey op) with
  | some txn =>
    have hadmitted : admitted p env op w = none := by simp only [admitted, hcommitted]
    rw [hadmitted]
    rfl
  | none =>
    have hprobe := (p.preClaim_unaware op).trust
      (w.withIdempotency (claimKey (env.clock w.ticks) (p.idempotencyKey op) w.idempotency))
    simp only
    rw [claimedBody_trust]
    rcases hr : (p.preClaim op).run
      (w.withIdempotency (claimKey (env.clock w.ticks) (p.idempotencyKey op) w.idempotency)) with ⟨res, a⟩
    rw [hr] at hprobe
    rcases res with e | duplicate | duplicate
    · have hadmitted : admitted p env op w = none := by simp only [admitted, hcommitted, hr]
      rw [hadmitted]
      rfl
    · have hadmitted : admitted p env op w = some a := by simp only [admitted, hcommitted, hr]
      have hstays : a.trust = w.trust := hprobe
      rw [hadmitted, Option.bind_some]
      simp only [riskTrust]
      cases checkAt p env op a with
      | none => exact hstays
      | some check => simp only [recordedIn, Option.map_some, recordedBy, hstays]
    · have hadmitted : admitted p env op w = none := by simp only [admitted, hcommitted, hr]
      rw [hadmitted]
      rfl

end Sequence

end EconomyLab
