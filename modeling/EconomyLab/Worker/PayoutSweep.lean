import EconomyLab.Worker.PayoutSystem

/-!
# The sweep as the worker runs it

The worker advances its due payouts one after the other, and waits for each answer. That is one
order of the steps that the system takes in any order, so what every run keeps, a sweep keeps.
-/

namespace EconomyLab

open Foundation PayoutSystem

/-! ## One payout to its end -/

def PayoutWork.then (work : PayoutWork) (f : PayoutTask → World → PayoutWork) : PayoutWork :=
  let next := f work.task work.world
  { next with calls := work.calls ++ next.calls }

section Sweep

variable {ports : Ports} {env : Env} {config : Config} {maxPayoutAttempts : Nat} {probes : Bool}

theorem PayoutSystem.work_put {s : PayoutSystem} {n : Nat} (hn : n < s.tasks.length) (work : PayoutWork)
    (f : PayoutTask → World → PayoutWork) : (s.put n work).work n f = s.put n (work.then f) := by
  have htask : (s.put n work).tasks[n]? = some work.task := List.getElem?_set_self hn
  unfold PayoutSystem.work
  rw [htask]
  simp only [put, PayoutWork.then, List.set_set, List.append_assoc]

def PayoutTask.through (env : Env) (config : Config) (maxPayoutAttempts : Nat) (probes : Bool)
    (said : Except Fault String) (status : Except Fault PayoutProviderState) (saga : Saga) (w : World) :
    PayoutWork :=
  ((((PayoutTask.ask env probes saga w).then (answer env config said)).then
    fun task w => ⟨task.report status, [], w⟩).then (drive env config maxPayoutAttempts probes)).then
      (drive env config maxPayoutAttempts probes)

def eventsThrough (n : Nat) (said : Except Fault String) (status : Except Fault PayoutProviderState) :
    List PayoutEvent := [.drive n, .answer n said, .report n status, .drive n, .drive n]

variable (ports env config maxPayoutAttempts probes)

variable (processor : PaymentProcessor) {saga : Saga}

theorem PayoutSystem.through_steps {s : PayoutSystem} {n : Nat}
    (hn : s.tasks[n]? = some (.claimed saga)) (said : Except Fault String)
    (status : Except Fault PayoutProviderState) :
    (eventsThrough n said status).foldl (step ports env config maxPayoutAttempts probes) s =
      s.put n (PayoutTask.through env config maxPayoutAttempts probes said status saga s.world) := by
  have hlt : n < s.tasks.length := (List.getElem?_eq_some_iff.mp hn).1
  have hfirst : s.work n (PayoutTask.drive env config maxPayoutAttempts probes) =
      s.put n (PayoutTask.ask env probes saga s.world) := by
    unfold work
    rw [hn]
    exact Eq.refl _
  simp only [eventsThrough, List.foldl_cons, List.foldl_nil, step, hfirst, work_put hlt]
  exact Eq.refl _

/-- A task that heard a verdict ends as the check ends it, or as the error boundary of what the check
threw. -/
theorem heard_ends (hstate : saga.state = .submitted) (calls : List SubmitPayoutCall) (w : World) :
    ∃ calls', (PayoutWork.then ⟨.heard saga (providerVerdict processor saga), calls, w⟩
        (PayoutTask.drive env config maxPayoutAttempts probes)).then
          (PayoutTask.drive env config maxPayoutAttempts probes) =
      ⟨.done (advanceOne env config maxPayoutAttempts processor saga w).1, calls',
        (advanceOne env config maxPayoutAttempts processor saga w).2⟩ := by
  unfold advanceOne driveTransition
  rw [hstate]
  simp only [PayoutWork.then, PayoutTask.drive]
  rcases checkSubmitted env config saga (providerVerdict processor saga) w with ⟨_ | outcome, w'⟩
  · exact ⟨_, Eq.refl _⟩
  · exact ⟨_, Eq.refl _⟩

theorem reserved_through (hstate : saga.state = .reserved) (w : World) :
    ∃ said status calls, PayoutTask.through env config maxPayoutAttempts probes said status saga w =
      ⟨.done (advanceOne env config maxPayoutAttempts processor saga w).1, calls,
        (advanceOne env config maxPayoutAttempts processor saga w).2⟩ := by
  unfold advanceOne driveTransition PayoutTask.through PayoutTask.ask askFirst submitToProvider
  rw [hstate]
  cases assertSagaAnchored env.digest w.ledger.tables saga with
  | error e => exact ⟨.ok "", .ok .unknown, _, Eq.refl _⟩
  | ok usd =>
    refine ⟨processor.submitPayout ⟨saga.id, saga.userId, usd⟩, .ok .unknown, ?_⟩
    simp only
    cases processor.submitPayout ⟨saga.id, saga.userId, usd⟩ with
    | error e => exact ⟨_, Eq.refl _⟩
    | ok providerRef => exact ⟨_, Eq.refl _⟩

/-- Whether the processor is asked for the status or cannot be, the check hears the same verdict. -/
theorem submitted_through (hstate : saga.state = .submitted) (w : World) : ∃ said status calls,
      PayoutTask.through env config maxPayoutAttempts processor.payoutStatus.isSome said status saga w =
        ⟨.done (advanceOne env config maxPayoutAttempts processor saga w).1, calls,
          (advanceOne env config maxPayoutAttempts processor saga w).2⟩ := by
  have hheard : ∀ calls, ∃ calls',
    (PayoutWork.then ⟨.heard saga (providerVerdict processor saga), calls, w⟩
      (PayoutTask.drive env config maxPayoutAttempts processor.payoutStatus.isSome)).then
        (PayoutTask.drive env config maxPayoutAttempts processor.payoutStatus.isSome) =
      ⟨.done (advanceOne env config maxPayoutAttempts processor saga w).1, calls',
        (advanceOne env config maxPayoutAttempts processor saga w).2⟩ := 
    fun calls => heard_ends env config maxPayoutAttempts _ processor hstate calls w
  unfold providerVerdict at hheard
  unfold PayoutTask.through PayoutTask.ask askFirst
  rw [hstate]
  cases hstatus : processor.payoutStatus with
  | none =>
    rw [hstatus] at hheard
    exact ⟨.ok "", .ok .unknown, hheard _⟩
  | some payoutStatus =>
    rw [hstatus] at hheard
    cases hsent : saga.providerRef with
    | none =>
      rw [hsent] at hheard
      exact ⟨.ok "", .ok .unknown, hheard _⟩
    | some providerRef =>
      rw [hsent] at hheard
      exact ⟨.ok "", payoutStatus providerRef, hheard _⟩

/-- A sweep goes through each of its payouts so, whatever processor it has. -/
theorem advanceOne_through (saga : Saga) (w : World) : ∃ said status calls,
      PayoutTask.through env config maxPayoutAttempts processor.payoutStatus.isSome said status saga w =
        ⟨.done (advanceOne env config maxPayoutAttempts processor saga w).1, calls,
          (advanceOne env config maxPayoutAttempts processor saga w).2⟩ := by
  have hidle : saga.state ≠ .reserved → saga.state ≠ .submitted → ∃ calls,
      PayoutTask.through env config maxPayoutAttempts processor.payoutStatus.isSome (.ok "")
        (.ok .unknown) saga w =
        ⟨.done (advanceOne env config maxPayoutAttempts processor saga w).1, calls,
          (advanceOne env config maxPayoutAttempts processor saga w).2⟩ := by
    intro hreserved hsubmitted
    unfold advanceOne driveTransition PayoutTask.through PayoutTask.ask askFirst
    cases hstate : saga.state with
    | reserved => exact absurd hstate hreserved
    | submitted => exact absurd hstate hsubmitted
    | _ => exact ⟨_, Eq.refl _⟩
  by_cases hreserved : saga.state = .reserved
  · exact reserved_through env config maxPayoutAttempts _ processor hreserved w
  · by_cases hsubmitted : saga.state = .submitted
    · exact submitted_through env config maxPayoutAttempts processor hsubmitted w
    · exact ⟨.ok "", .ok .unknown, hidle hreserved hsubmitted⟩

/-- Nothing is submitted in it. -/
def PayoutEvent.ofSweep : PayoutEvent → Bool
  | .submit _ _ => false
  | _ => true

theorem eventsThrough_ofSweep (n : Nat) (said : Except Fault String)
    (status : Except Fault PayoutProviderState) :
    ∀ event ∈ eventsThrough n said status, event.ofSweep = true := by
  simp [eventsThrough, PayoutEvent.ofSweep]

/-- The payouts of a batch one after the other, each to its end. -/
theorem PayoutSystem.batch_steps (batch : List Saga) {s : PayoutSystem}
    {earlier : List PayoutTask} (htasks : s.tasks = earlier ++ batch.map .claimed)
    (summary : PayoutSweepSummary) :
    ∃ (events : List PayoutEvent) (outcomes : List PayoutOutcome),
      (∀ event ∈ events, event.ofSweep = true) ∧
      (events.foldl (step ports env config maxPayoutAttempts processor.payoutStatus.isSome) s).tasks =
        earlier ++ outcomes.map .done ∧
      batch.foldl (advanceEach env config maxPayoutAttempts processor) (summary, s.world) =
        (outcomes.foldl PayoutSweepSummary.add summary,
          (events.foldl (step ports env config maxPayoutAttempts processor.payoutStatus.isSome)
            s).world) := by
  induction batch generalizing s earlier summary with
  | nil => exact ⟨[], [], by simp, htasks, Eq.refl _⟩
  | cons saga batch ih =>
    have hn : s.tasks[earlier.length]? = some (.claimed saga) := by
      rw [htasks, List.map_cons, List.getElem?_append_right (Nat.le_refl _), Nat.sub_self]
      exact Eq.refl _
    obtain ⟨said, status, calls, hthrough⟩ :=
      advanceOne_through env config maxPayoutAttempts processor saga s.world
    have hsteps := through_steps ports env config maxPayoutAttempts processor.payoutStatus.isSome
      hn said status
    rw [hthrough] at hsteps
    have hrest : s.tasks.set earlier.length
      (.done (advanceOne env config maxPayoutAttempts processor saga s.world).1) =
        (earlier ++ [.done (advanceOne env config maxPayoutAttempts processor saga s.world).1]) ++
          batch.map .claimed := by
      rw [htasks, List.map_cons, List.set_append_right _ _ (Nat.le_refl _), Nat.sub_self,
        List.set_cons_zero, List.append_assoc, List.singleton_append]
    obtain ⟨events, outcomes, hsweep, hdone, hfold⟩ := ih (s := s.put earlier.length
      ⟨.done (advanceOne env config maxPayoutAttempts processor saga s.world).1, calls,
        (advanceOne env config maxPayoutAttempts processor saga s.world).2⟩) hrest
      (summary.add (advanceOne env config maxPayoutAttempts processor saga s.world).1)
    refine ⟨eventsThrough earlier.length said status ++ events,
      (advanceOne env config maxPayoutAttempts processor saga s.world).1 :: outcomes, ?_, ?_, ?_⟩
    · intro event hevent
      rcases List.mem_append.mp hevent with hfirst | hlater
      · exact eventsThrough_ofSweep _ _ _ event hfirst
      · exact hsweep event hlater
    · rw [List.foldl_append, hsteps, hdone, List.append_assoc]
      exact Eq.refl _
    · rw [List.foldl_append, hsteps]
      exact hfold

/-- The worker's sweep, which advances its payouts one after the other, is one of the runs: it leaves the
store of that run, and its summary is what its tasks ended in. -/
theorem sweep_is_run (processor : PaymentProcessor) (now : Int) (limit : Nat) (s : PayoutSystem) :
    ∃ (events : List PayoutEvent) (outcomes : List PayoutOutcome),
      (∀ event ∈ events, event.ofSweep = true) ∧
      (events.foldl (PayoutSystem.step ports env config maxPayoutAttempts processor.payoutStatus.isSome)
        s).tasks =
        s.tasks ++ outcomes.map .done ∧
      advanceDuePayouts env config maxPayoutAttempts processor now limit s.world =
        (outcomes.foldl PayoutSweepSummary.add ⟨[], [], []⟩,
          (events.foldl (PayoutSystem.step ports env config
          maxPayoutAttempts processor.payoutStatus.isSome) s).world) := by
  have hclaimed : (s.step ports env config maxPayoutAttempts processor.payoutStatus.isSome
    (.claim now limit)).tasks =
      s.tasks ++ (s.world.sagas.rows.claimDue now limit).map .claimed := Eq.refl _
  obtain ⟨events, outcomes, hsweep, hdone, hfold⟩ :=
    PayoutSystem.batch_steps ports env config maxPayoutAttempts processor _ hclaimed ⟨[], [], []⟩
  refine ⟨.claim now limit :: events, outcomes, ?_, hdone, hfold⟩
  intro event hevent
  rcases List.mem_cons.mp hevent with rfl | hlater
  · exact Eq.refl _
  · exact hsweep event hlater

end Sweep

end EconomyLab
