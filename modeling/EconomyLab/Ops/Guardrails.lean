import EconomyLab.Ops.Supervisor

/-!
# The guardrails of the levers

An action is counted after its record is emitted, and the latch closes after the escalation is. Where
these records reach the sink, every call of a lever is counted for all on whose behalf it was made,
and no lever is pulled from the tick on that saw a mismatch.
-/

namespace EconomyLab.Ops

open Foundation Foundation.Programs

/-! ## Runs of ticks -/

/-- On whose behalf a lever is pulled. -/
inductive Target
  | saga (id : String)
  | outbox
  | inbox
deriving DecidableEq, Repr

def Lever.serves : Lever → Target → Bool
  | .sweep ids, .saga id => ids.contains id
  | .redrive, .outbox => true
  | .revive, .inbox => true
  | _, _ => false

/-- When a lever was pulled on the target's behalf. -/
def callTimes (target : Target) (calls : List LeverCall) : List Int :=
  (calls.filter fun call => call.lever.serves target).map LeverCall.calledAt

variable (target : Target) {f : SupervisorState → SupervisorState} (k : Nat)
  {findings done : List StuckSagaFinding} {state s : SupervisorState} (handled : Mark)
  {action : SagaActionState} {finding : StuckSagaFinding} {c : List LeverCall}

@[simp] theorem callTimes_nil : callTimes target [] = [] := rfl

@[simp] theorem callTimes_append (calls later : List LeverCall) :
    callTimes target (calls ++ later) = callTimes target calls ++ callTimes target later := by
  simp [callTimes]

theorem callTimes_single (call : LeverCall) :
    callTimes target [call] = if call.lever.serves target then [call.calledAt] else [] := by
  unfold callTimes
  rw [List.filter_cons]
  split
  · rfl
  · rfl

structure TickReport where
  mismatch : Bool
  calls : List LeverCall
deriving DecidableEq, Repr

/-- One supervisor after some ticks. -/
structure Supervision where
  state : SupervisorState
  reports : List TickReport

def mismatches (state : SupervisorState) (input : TickInput) : List IntegrityMismatchFinding :=
  detectIntegrityMismatches (input.signals .integrity) state.mismatchHandledUpTo

def Supervision.start : Supervision := ⟨initialState, []⟩

def Supervision.tick (deps : SupervisorPorts) (config : SupervisorConfig) (s : Supervision)
    (input : TickInput) :
    Supervision :=
  let t := (Ops.tick deps config s.state input).2
  ⟨t.state, s.reports ++ [⟨!(mismatches s.state input).isEmpty, t.calls⟩]⟩

def supervise (deps : SupervisorPorts) (config : SupervisorConfig) (inputs : List TickInput) :
    Supervision :=
  inputs.foldl (Supervision.tick deps config) .start

def allCalls (reports : List TickReport) : List LeverCall := reports.flatMap TickReport.calls

structure Guarded (config : SupervisorConfig) (reports : List TickReport) : Prop where
  capped : ∀ target, (callTimes target (allCalls reports)).length ≤ config.maxActionAttempts
  spaced : ∀ target, (callTimes target (allCalls reports)).Pairwise fun t t' =>
    config.actionCooldownMs ≤ t' - t
  contained : ∀ before report later, reports = before ++ report :: later → report.mismatch →
    ∀ r ∈ report :: later, r.calls = []

def contained (state : SupervisorState) (input : TickInput) : Bool :=
  state.containment || !(mismatches state input).isEmpty

/-- The state once the tick has looked for mismatches. -/
def latch (state : SupervisorState) (input : TickInput) : SupervisorState :=
  { state with containment := contained state input }

def SagaActionState.free (config : SupervisorConfig) (now : Int) (action : SagaActionState) : Bool :=
  !action.escalated && decide (action.attempts < config.maxActionAttempts) &&
    !action.lastActedAt.within now config.actionCooldownMs

def SupervisorState.budget (state : SupervisorState) : Target → SagaActionState
  | .saga id => (state.perSaga.get id).getD idleAction
  | .outbox => state.outboxAction
  | .inbox => state.inboxAction

def stuck (config : SupervisorConfig) (input : TickInput) : List StuckSagaFinding :=
  detectStuckSagas (input.sagas.toOption.getD []) input.now config.stuckSagaAgeMs

/-- The sagas that the tick's sweep is for. -/
def served (config : SupervisorConfig) (state : SupervisorState) (input : TickInput) :
    List StuckSagaFinding :=
  (stuck config input).filter fun finding => !contained state input &&
    (state.budget (.saga finding.saga.id)).free config input.now

def redrives (config : SupervisorConfig) (state : SupervisorState) (input : TickInput) : Bool :=
  !contained state input && (detectOutboxBacklog (input.signals .backlog)
    config.outboxBacklogAgeMs).isSome &&
    (state.budget .outbox).free config input.now

def revives (deps : SupervisorPorts) (config : SupervisorConfig) (state : SupervisorState)
    (input : TickInput) : Bool :=
  !contained state input && deps.reviveInbox && (detectInboxDeadLetters (input.signals .deadLetters)
    state.inboxHandledUpTo config.inboxDeadLetterThreshold).isSome && (state.budget .inbox).free
      config input.now

/-- No call throws between a lever and the count of its action, or between a mismatch and the latch.
A saga read or a `verified` record may fail once the sweep is counted for every saga it served. -/
structure Counts (deps : SupervisorPorts) (config : SupervisorConfig) (state : SupervisorState)
    (input : TickInput) : Prop where
  latches : mismatches state input ≠ [] → (input.audit .integrityMismatch .detected 0).isOk ∧
    (input.audit .integrityMismatch .escalated 0).isOk ∧
      (deps.escalate → (input.escalate .integrityMismatch 0).isOk)
  swept : served config state input ≠ [] → (input.audit .stuckSaga .acted 0).isOk
  verified : ∀ k < (served config state input).length,
    (input.load k).isOk = false ∨ (input.audit .stuckSaga .verified k).isOk = false →
      ∀ finding ∈ served config state input,
        finding.saga.id ∈ sagaIds ((served config state input).take (k + 1))
  redriven : redrives config state input → (input.audit .outboxBacklog .acted 0).isOk
  revived : revives deps config state input → (input.audit .inboxDeadLetter .acted 0).isOk

/-! ## What the passes do to the state and the calls -/

/-- An assertion about the state and the calls. -/
def On (J : SupervisorState → List LeverCall → Prop) (t : Tick) : Prop := J t.state t.calls

section Calls

variable {J K : SupervisorState → List LeverCall → Prop} {F : Tick → Prop} (p : Pass) (k : Nat)
  (r : AuditRecord)

theorem emit_stays : Stays (On J) (p.emit k r) :=
  Stays.bind (Stays.answer _) fun _ => Stays.modify fun _ ht => ht

theorem escalate_stays : Stays (On J) (p.escalate k r) := by
  unfold Pass.escalate
  apply Stays.ite
  · exact Stays.bind (Stays.modify fun _ ht => ht) fun _ => Stays.answer _
  · exact Stays.pure _

theorem emitEscalation_stays : Stays (On J) (p.emitEscalation k r) :=
  Stays.bind (emit_stays p k r) fun _ => escalate_stays p k r

theorem emit_triple (h : (p.input.audit r.signature r.phase k).isOk = false → ∀ t, On J t → F t) :
    Triple (On J) (p.emit k r) (fun _ => On J) F := by
  apply Triple.bind (Q := fun _ => On J)
  · apply Triple.answer
    · exact fun _ _ _ ht => ht
    · intro e he
      exact h (by rw [he]; rfl)
  · exact fun _ => Triple.modify fun _ ht => ht

theorem emit_ok (h : (p.input.audit r.signature r.phase k).isOk) :
    Triple (On J) (p.emit k r) (fun _ => On J) F := by
  apply emit_triple
  intro hfails
  rw [h] at hfails
  cases hfails

theorem escalate_ok (h : p.deps.escalate → (p.input.escalate r.signature k).isOk) :
    Triple (On J) (p.escalate k r) (fun _ => On J) F := by
  unfold Pass.escalate
  split
  · rename_i hhook
    refine Triple.bind (Q := fun _ => On J) (Triple.modify fun _ ht => ht) fun _ => ?_
    apply Triple.answer
    · exact fun _ _ _ ht => ht
    · intro e he
      have hok := h hhook
      rw [he] at hok
      cases hok
  · exact Triple.pure fun _ ht => ht

theorem update_triple (h : ∀ s c, J s c → K (f s) c) : Triple (On J) (update f) (fun _ => On K) F :=
  Triple.modify fun t ht => h t.state t.calls ht

theorem update_stays (h : ∀ s c, J s c → J (f s) c) : Stays (On J) (update f) :=
  update_triple h

theorem get_triple {β : Type} {f : Tick → Step β} {Q : β → Tick → Prop} (h : ∀ t, J t.state t.calls →
    Triple (On fun s c => s = t.state ∧ c = t.calls) (f t) Q F) : Triple (On J) (get >>= f) Q F := by
  apply Triple.get_bind
  intro t ht
  apply (h t ht).mono
  · intro t' ht'
    rw [ht']
    exact ⟨rfl, rfl⟩
  · exact fun _ _ hend => hend
  · exact fun _ hend => hend

theorem call_triple {lever : Lever} (h : ∀ s c, J s c → K s (c ++ [⟨p.input.now, lever⟩])) :
    Triple (On J) (p.call lever) (fun _ => On K) F :=
  Triple.modify fun t ht => h t.state t.calls ht

end Calls

structure SameGuards (s s' : SupervisorState) : Prop where
  containment : s'.containment = s.containment
  perSaga : s'.perSaga = s.perSaga
  outboxAction : s'.outboxAction = s.outboxAction
  inboxAction : s'.inboxAction = s.inboxAction
  inboxHandledUpTo : s'.inboxHandledUpTo = s.inboxHandledUpTo

theorem SameGuards.refl (s : SupervisorState) : SameGuards s s := ⟨rfl, rfl, rfl, rfl, rfl⟩

theorem SameGuards.trans {s s' s'' : SupervisorState} (h : SameGuards s s') (h' : SameGuards s' s'') :
    SameGuards s s'' :=
  ⟨h'.containment.trans h.containment, h'.perSaga.trans h.perSaga, h'.outboxAction.trans h.outboxAction,
    h'.inboxAction.trans h.inboxAction, h'.inboxHandledUpTo.trans h.inboxHandledUpTo⟩

section Reports

variable {s₀ : SupervisorState} {c₀ : List LeverCall}

/-- No lever was pulled and no guard has moved. -/
def Steady (s₀ : SupervisorState) (c₀ : List LeverCall) (s : SupervisorState) (c : List LeverCall) :
    Prop :=
  c = c₀ ∧ SameGuards s₀ s

theorem update_steady (h : ∀ s, SameGuards s (f s)) : Stays (On (Steady s₀ c₀)) (update f) :=
  update_stays fun s _ hs => ⟨hs.1, hs.2.trans (h s)⟩

variable (p : Pass)

theorem escalates_steady (h : ∀ s, SameGuards s (f s)) (k : Nat)
    (r escalation : AuditRecord) : Stays (On (Steady s₀ c₀)) (do
      update f
      p.emit k r
      p.emitEscalation k escalation) := by
  refine Stays.bind (update_steady h) fun _ => ?_
  exact Stays.bind (emit_stays p k r) fun _ => emitEscalation_stays p k escalation

theorem advises_steady (h : ∀ s, SameGuards s (f s)) (k : Nat)
    (r advised : AuditRecord) : Stays (On (Steady s₀ c₀)) (do
      update f
      p.emit k r
      p.emit k advised) := by
  refine Stays.bind (update_steady h) fun _ => ?_
  exact Stays.bind (emit_stays p k r) fun _ => emit_stays p k advised

theorem runStallPass_steady : Stays (On (Steady s₀ c₀)) (runStallPass p) := by
  unfold runStallPass
  refine Stays.get_bind fun t _ => ?_
  split
  · exact update_steady fun _ => ⟨rfl, rfl, rfl, rfl, rfl⟩
  · apply Stays.ite (Stays.pure _)
    refine escalates_steady p (fun _ => ?_) _ _ _
    exact ⟨rfl, rfl, rfl, rfl, rfl⟩

theorem runTreasuryPass_steady : Stays (On (Steady s₀ c₀)) (runTreasuryPass p) := by
  unfold runTreasuryPass
  refine Stays.get_bind fun t _ => ?_
  split
  · exact Stays.pure _
  · refine escalates_steady p (fun _ => ?_) _ _ _
    exact ⟨rfl, rfl, rfl, rfl, rfl⟩

theorem runSilencePass_steady : Stays (On (Steady s₀ c₀)) (runSilencePass p) := by
  unfold runSilencePass
  refine Stays.get_bind fun t _ => ?_
  refine Stays.bind (update_steady fun _ => ⟨rfl, rfl, rfl, rfl, rfl⟩) fun _ => ?_
  refine Stays.each fun k finding => ?_
  unfold reportSilence
  refine Stays.get_bind fun t _ => Stays.ite (Stays.pure _) ?_
  refine escalates_steady p (fun _ => ?_) _ _ _
  exact ⟨rfl, rfl, rfl, rfl, rfl⟩

theorem runVelocityPass_steady : Stays (On (Steady s₀ c₀)) (runVelocityPass p) := by
  unfold runVelocityPass
  refine Stays.get_bind fun t _ => Stays.ite (Stays.pure _) ?_
  split
  · exact Stays.pure _
  · refine Stays.bind (emit_stays p _ _) fun _ => Stays.bind ?_ fun _ => ?_
    · exact Stays.ite (emitEscalation_stays p _ _) (emit_stays p _ _)
    · exact update_steady fun _ => ⟨rfl, rfl, rfl, rfl, rfl⟩

theorem runRetryExhaustionPass_steady : Stays (On (Steady s₀ c₀)) (runRetryExhaustionPass p) := by
  unfold runRetryExhaustionPass
  refine Stays.get_bind fun t _ => Stays.ite (Stays.pure _) ?_
  split
  · exact Stays.pure _
  · refine escalates_steady p (fun _ => ?_) _ _ _
    exact ⟨rfl, rfl, rfl, rfl, rfl⟩

theorem runReplayStormPass_steady : Stays (On (Steady s₀ c₀)) (runReplayStormPass p) := by
  unfold runReplayStormPass
  refine Stays.get_bind fun t _ => Stays.ite (Stays.pure _) ?_
  split
  · exact Stays.pure _
  · refine advises_steady p (fun _ => ?_) _ _ _
    exact ⟨rfl, rfl, rfl, rfl, rfl⟩

theorem runSealLatencyPass_steady : Stays (On (Steady s₀ c₀)) (runSealLatencyPass p) := by
  unfold runSealLatencyPass
  refine Stays.get_bind fun t _ => Stays.ite (Stays.pure _) ?_
  split
  · exact Stays.pure _
  · refine advises_steady p (fun _ => ?_) _ _ _
    exact ⟨rfl, rfl, rfl, rfl, rfl⟩

theorem runStormPass_steady : Stays (On (Steady s₀ c₀)) (runStormPass p) := by
  unfold runStormPass
  refine Stays.get_bind fun t _ => Stays.ite (Stays.pure _) ?_
  split
  · exact Stays.pure _
  · refine Stays.bind (emit_stays p _ _) fun _ => Stays.bind (emit_stays p _ _) fun _ => ?_
    exact update_steady fun _ => ⟨rfl, rfl, rfl, rfl, rfl⟩

/-- Where the records of a mismatch reach the sink and the hook, the latch closes on it. -/
theorem runIntegrityPass_latches (h : mismatches s₀ p.input ≠ [] →
    (p.input.audit .integrityMismatch .detected 0).isOk ∧
    (p.input.audit .integrityMismatch .escalated 0).isOk ∧
      (p.deps.escalate → (p.input.escalate .integrityMismatch 0).isOk)) :
    Triple (On fun s c => s = s₀ ∧ c = c₀) (runIntegrityPass p)
      (fun _ => On (Steady (latch s₀ p.input) c₀)) (On (Steady (latch s₀ p.input) c₀)) := by
  unfold runIntegrityPass latch
  apply get_triple
  rintro t ⟨hstate, hcalls⟩
  rw [hstate, hcalls]
  by_cases hnone : mismatches s₀ p.input = []
  · have hopen : contained s₀ p.input = s₀.containment := by simp [contained, hnone]
    rw [hopen]
    unfold mismatches at hnone
    simp only [hnone, List.isEmpty_nil, if_true]
    apply Triple.pure
    rintro t' ⟨hs, hc⟩
    exact ⟨hc, hs ▸ .refl _⟩
  · obtain ⟨hdetected, hescalated, hhook⟩ := h hnone
    have hclosed : contained s₀ p.input = true := by simp [contained, hnone]
    rw [hclosed]
    unfold mismatches at hnone
    simp only [List.isEmpty_iff, hnone, if_false]
    refine Triple.bind (emit_ok p 0 _ hdetected) fun _ => ?_
    refine Triple.bind (Triple.bind (emit_ok p 0 _ hescalated) fun _ => escalate_ok p 0 _ hhook) fun _ =>
      ?_
    apply Triple.bind (Q := fun _ => On (Steady { s₀ with containment := true } c₀))
    · apply update_triple
      rintro s c ⟨rfl, rfl⟩
      exact ⟨rfl, .refl _⟩
    · intro _
      refine Stays.bind ?_ fun _ => update_steady fun _ => ⟨rfl, rfl, rfl, rfl, rfl⟩
      unfold pauseHost
      exact Stays.ite (emit_stays p _ _) (Stays.pure _)

end Reports

variable {s₀ : SupervisorState} {c₀ : List LeverCall}

/-- Either nothing was done on the target's behalf, or its guards let one call through and it counts. -/
def Spent (p : Pass) (s₀ s : SupervisorState) (added : List LeverCall) (target : Target) : Prop :=
  (callTimes target added = [] ∧ (s.budget target).attempts = (s₀.budget target).attempts ∧
      (s.budget target).lastActedAt = (s₀.budget target).lastActedAt) ∨
    (callTimes target added = [p.input.now] ∧ (s₀.budget target).free p.config p.input.now ∧
      (s₀.budget target).attempts < (s.budget target).attempts ∧
      (s.budget target).lastActedAt = some p.input.now)

structure Led (p : Pass) (mine : Target → Prop) (s₀ : SupervisorState) (c₀ : List LeverCall)
    (s : SupervisorState) (c : List LeverCall) : Prop where
  containment : s.containment = s₀.containment
  handled : ¬ mine .inbox → s.inboxHandledUpTo = s₀.inboxHandledUpTo
  others : ∀ target, ¬ mine target → s.budget target = s₀.budget target
  added : ∃ added, c = c₀ ++ added ∧ (s₀.containment → added = []) ∧
    (∀ target, ¬ mine target → callTimes target added = []) ∧ ∀ target, Spent p s₀ s added target

namespace Led

variable {p : Pass} {mine mine' : Target → Prop} {s s' : SupervisorState} {c c' : List LeverCall}

theorem budget_same (h : SameGuards s₀ s) (target : Target) : s.budget target = s₀.budget target := by
  cases target with
  | saga id => simp only [SupervisorState.budget, h.perSaga]
  | outbox => exact h.outboxAction
  | inbox => exact h.inboxAction

theorem of_steady (h : Steady s₀ c₀ s c) : Led p mine s₀ c₀ s c := by
  obtain ⟨hcalls, hguards⟩ := h
  refine ⟨hguards.containment, fun _ => hguards.inboxHandledUpTo, fun target _ =>
    budget_same hguards target,
    [], ?_, fun _ => rfl, fun _ _ => rfl, ?_⟩
  · rw [hcalls, List.append_nil]
  · intro target
    rw [Spent, budget_same hguards target]
    exact Or.inl ⟨rfl, rfl, rfl⟩

theorem trans (h : Led p mine s₀ c₀ s c) (h' : Led p mine' s c s' c')
    (hapart : ∀ target, mine target → ¬ mine' target) :
    Led p (fun target => mine target ∨ mine' target) s₀ c₀ s' c' := by
  obtain ⟨added, hcalls, hclosed, hother, hspent⟩ := h.added
  obtain ⟨added', hcalls', hclosed', hother', hspent'⟩ := h'.added
  refine ⟨h'.containment.trans h.containment, ?_, ?_, added ++ added', ?_, ?_, ?_, ?_⟩
  · intro hnot
    exact (h'.handled fun hm => hnot (Or.inr hm)).trans (h.handled fun hm => hnot (Or.inl hm))
  · intro target hnot
    exact (h'.others target fun hm => hnot (Or.inr hm)).trans (h.others target fun hm => hnot (Or.inl hm))
  · rw [hcalls', hcalls, List.append_assoc]
  · intro hlatched
    rw [hclosed hlatched, hclosed' (h.containment.trans hlatched), List.append_nil]
  · intro target hnot
    rw [callTimes_append, hother target fun hm => hnot (Or.inl hm), hother' target fun hm =>
      hnot (Or.inr hm),
      List.append_nil]
  · intro target
    by_cases hmine : mine target
    · have hlater := hspent target
      rw [Spent, callTimes_append, hother' target (hapart target hmine), List.append_nil,
        h'.others target (hapart target hmine)]
      exact hlater
    · have hlater := hspent' target
      rw [Spent, h.others target hmine] at hlater
      rw [Spent, callTimes_append, hother target hmine, List.nil_append]
      exact hlater

theorem widen (h : Led p mine s₀ c₀ s c) (hsub : ∀ target, mine target → mine' target) :
    Led p mine' s₀ c₀ s c := by
  obtain ⟨added, hcalls, hclosed, hother, hspent⟩ := h.added
  exact ⟨h.containment, fun hnot => h.handled fun hm => hnot (hsub _ hm),
    fun target hnot => h.others target fun hm => hnot (hsub _ hm), added, hcalls, hclosed,
    fun target hnot => hother target fun hm => hnot (hsub _ hm), hspent⟩

end Led

/-! ## The outbox and the inbox -/

section Signatures

variable (p : Pass)

theorem decideSuppression_none (h : decideSuppression p state action = none) :
    state.containment = false ∧ action.free p.config p.input.now := by
  unfold decideSuppression at h
  split at h
  · cases h
  · split at h
    · cases h
    · split at h
      · cases h
      · split at h
        · cases h
        · rename_i hopen hfresh hunder hcool
          simp only [Bool.not_eq_true, ge_iff_le, Nat.not_le] at hopen hfresh hunder hcool
          exact ⟨hopen, by simp [SagaActionState.free, hfresh, hunder, hcool]⟩

theorem verifyOutboxRedrive_steady : Stays (On (Steady s₀ c₀)) (verifyOutboxRedrive p) := by
  unfold verifyOutboxRedrive
  refine Stays.get_bind fun t _ => ?_
  split
  · exact Stays.pure _
  · split
    · exact Stays.pure _
    · refine Stays.bind (emit_stays p _ _) fun _ => update_steady fun _ => ?_
      exact ⟨rfl, rfl, rfl, rfl, rfl⟩

theorem Led.single {target : Target} {added : List LeverCall}
    (hcontainment : s.containment = s₀.containment)
    (hhandled : target ≠ .inbox → s.inboxHandledUpTo = s₀.inboxHandledUpTo)
    (hothers : ∀ other, other ≠ target → s.budget other = s₀.budget other)
    (hclosed : s₀.containment → added = []) (hcalls : ∀ other, other ≠ target → callTimes other added = [])
    (hspent : Spent p s₀ s added target) :
    Led p (· = target) s₀ c₀ s (c₀ ++ added) := by
  refine ⟨hcontainment, fun hnot => hhandled (Ne.symm hnot), hothers, added, rfl, hclosed, hcalls, ?_⟩
  intro other
  by_cases hother : other = target
  · rw [hother]
    exact hspent
  · have hsame := hothers other hother
    exact Or.inl ⟨hcalls other hother, congrArg SagaActionState.attempts hsame,
      congrArg SagaActionState.lastActedAt hsame⟩

theorem Led.uncalled {target : Target} (hcontainment : s.containment = s₀.containment)
    (hhandled : target ≠ .inbox → s.inboxHandledUpTo = s₀.inboxHandledUpTo)
    (hothers : ∀ other, other ≠ target → s.budget other = s₀.budget other)
    (hattempts : (s.budget target).attempts = (s₀.budget target).attempts)
    (hlast : (s.budget target).lastActedAt = (s₀.budget target).lastActedAt) :
    Led p (· = target) s₀ c₀ s c₀ := by
  have hled : Led p (· = target) s₀ c₀ s (c₀ ++ []) :=
    Led.single p hcontainment hhandled hothers (fun _ => rfl) (fun _ _ => rfl)
      (Or.inl ⟨rfl, hattempts, hlast⟩)
  rw [List.append_nil] at hled
  exact hled

variable {mine : Target → Prop}

theorem steady_led {α : Type} {m : Step α} (h : Stays (On (Steady s₀ c₀)) m) :
    Triple (On (Steady s₀ c₀)) m (fun _ => On (Steady s₀ c₀)) (On (Led p mine s₀ c₀)) :=
  Triple.mono h (fun _ ht => ht) (fun _ _ ht => ht) fun _ ht => Led.of_steady ht

theorem Spent.acted {target : Target} {lever : Lever} (hserves : lever.serves target)
    (hfree : (s₀.budget target).free p.config p.input.now)
    (hattempts : (s₀.budget target).attempts < (s.budget target).attempts)
    (hlast : (s.budget target).lastActedAt = some p.input.now) :
    Spent p s₀ s [⟨p.input.now, lever⟩] target := by
  right
  rw [callTimes_single, if_pos hserves]
  exact ⟨rfl, hfree, hattempts, hlast⟩

theorem redriveOutbox_led {s₁ : SupervisorState} (hsame : SameGuards s₀ s₁)
    (hopen : s₀.containment = false) (hfree : (s₀.budget .outbox).free p.config p.input.now)
    (h : (p.input.audit .outboxBacklog .acted 0).isOk) (finding : OutboxBacklogFinding) :
    Triple (On fun s c => s = s₁ ∧ c = c₀) (redriveOutbox p finding s₁.outboxAction)
      (fun _ => On (Led p (· = .outbox) s₀ c₀)) (On (Led p (· = .outbox) s₀ c₀)) := by
  unfold redriveOutbox
  apply Triple.bind (Q := fun _ => On fun s c => s = s₁ ∧ c = c₀)
  · apply Triple.mono (emit_stays p 0 _) (fun _ ht => ht) (fun _ _ ht => ht)
    rintro t ⟨hs, hc⟩
    exact Led.of_steady ⟨hc, hs ▸ hsame⟩
  · intro _
    apply Triple.bind (Q := fun _ => On fun s c => s = s₁ ∧ c = c₀ ++ [⟨p.input.now, .redrive⟩])
    · apply call_triple
      rintro s c ⟨rfl, rfl⟩
      exact ⟨rfl, rfl⟩
    · intro _
      refine Triple.bind (emit_ok p 0 _ h) fun _ => update_triple ?_
      rintro s c ⟨rfl, rfl⟩
      refine Led.single p ?_ ?_ ?_ ?_ ?_ ?_
      · exact hsame.containment
      · exact fun _ => hsame.inboxHandledUpTo
      · intro other hother
        cases other with
        | saga id => exact Led.budget_same hsame (.saga id)
        | outbox => exact absurd rfl hother
        | inbox => exact Led.budget_same hsame .inbox
      · intro hlatched
        rw [hopen] at hlatched
        cases hlatched
      · intro other hother
        cases other with
        | saga id => rfl
        | outbox => exact absurd rfl hother
        | inbox => rfl
      · apply Spent.acted p rfl hfree
        · change s₀.outboxAction.attempts < s.outboxAction.attempts + 1
          rw [hsame.outboxAction]
          exact Nat.lt_succ_self _
        · rfl

theorem escalateBacklog_led {s₁ : SupervisorState} (hsame : SameGuards s₀ s₁)
    (finding : OutboxBacklogFinding) :
    Triple (On fun s c => s = s₁ ∧ c = c₀) (escalateBacklog p finding s₁.outboxAction)
      (fun _ => On (Led p (· = .outbox) s₀ c₀)) (On (Led p (· = .outbox) s₀ c₀)) := by
  unfold escalateBacklog
  refine Triple.bind (update_triple ?_) fun _ => emitEscalation_stays p _ _
  rintro s c ⟨rfl, rfl⟩
  refine Led.uncalled p ?_ ?_ ?_ ?_ ?_
  · exact hsame.containment
  · exact fun _ => hsame.inboxHandledUpTo
  · intro other hother
    cases other with
    | saga id => exact Led.budget_same hsame (.saga id)
    | outbox => exact absurd rfl hother
    | inbox => exact Led.budget_same hsame .inbox
  · have hattempts := congrArg SagaActionState.attempts hsame.outboxAction
    exact hattempts
  · have hlast := congrArg SagaActionState.lastActedAt hsame.outboxAction
    exact hlast

/-- The backlog pass redrives under its guards, and counts it once its record reached the sink. -/
theorem runOutboxBacklogPass_led (h : s₀.containment = false →
    (detectOutboxBacklog (p.input.signals .backlog) p.config.outboxBacklogAgeMs).isSome →
      (s₀.budget .outbox).free p.config p.input.now → (p.input.audit .outboxBacklog .acted 0).isOk) :
    Triple (On (Steady s₀ c₀)) (runOutboxBacklogPass p) (fun _ => On (Led p (· = .outbox) s₀ c₀))
      (On (Led p (· = .outbox) s₀ c₀)) := by
  unfold runOutboxBacklogPass
  refine Triple.bind (steady_led p (verifyOutboxRedrive_steady p)) fun _ => ?_
  cases hfound : detectOutboxBacklog (p.input.signals .backlog) p.config.outboxBacklogAgeMs with
  | none => exact Triple.pure fun _ ht => Led.of_steady ht
  | some finding =>
    refine Triple.bind (steady_led p (emit_stays p 0 _)) fun _ => get_triple ?_
    rintro t ⟨hcalls, hsame⟩
    rw [hcalls]
    split
    · exact escalateBacklog_led p hsame finding
    · apply Triple.mono (emit_stays p 0 _) (fun _ ht => ht)
      · rintro _ t' ⟨hs, hc⟩
        exact Led.of_steady ⟨hc, hs ▸ hsame⟩
      · rintro t' ⟨hs, hc⟩
        exact Led.of_steady ⟨hc, hs ▸ hsame⟩
    · rename_i hdecided
      obtain ⟨hopen, hfree⟩ := decideSuppression_none p hdecided
      rw [hsame.containment] at hopen
      rw [hsame.outboxAction] at hfree
      exact redriveOutbox_led p hsame hopen hfree (h hopen (by rw [hfound]; rfl) hfree) finding

theorem inboxEpisode_led {handled : Mark} {added : List LeverCall}
    (hclosed : s₀.containment → added = []) (hcalls : ∀ other, other ≠ .inbox → callTimes other added = [])
    (hspent : Spent p s₀ { s₀ with inboxHandledUpTo := handled, inboxAction := action } added .inbox) :
    Led p (· = .inbox) s₀ c₀ { s₀ with inboxHandledUpTo := handled, inboxAction := action }
      (c₀ ++ added) := by
  refine Led.single p rfl ?_ ?_ hclosed hcalls hspent
  · exact fun hnot => absurd rfl hnot
  · intro other hother
    cases other with
    | saga id => rfl
    | outbox => rfl
    | inbox => exact absurd rfl hother

theorem inboxHandled_led : Led p (· = .inbox) s₀ c₀ { s₀ with inboxHandledUpTo := handled } c₀ := by
  have hled : Led p (· = .inbox) s₀ c₀ { s₀ with inboxHandledUpTo := handled } (c₀ ++ []) :=
    inboxEpisode_led p (fun _ => rfl) (fun _ _ => rfl) (Or.inl ⟨rfl, rfl, rfl⟩)
  rw [List.append_nil] at hled
  exact hled

theorem escalateInbox_led (deadLettered : Nat) :
    Triple (On fun s c => s = { s₀ with inboxHandledUpTo := handled } ∧ c = c₀)
      (escalateInbox p deadLettered s₀.inboxAction) (fun _ => On (Led p (· = .inbox) s₀ c₀))
      (On (Led p (· = .inbox) s₀ c₀)) := by
  unfold escalateInbox
  refine Triple.bind (update_triple ?_) fun _ => emitEscalation_stays p _ _
  rintro s c ⟨rfl, rfl⟩
  have hled : Led p (· = .inbox) s₀ c
      { s₀ with inboxHandledUpTo := handled, inboxAction := { s₀.inboxAction with escalated := true } }
      (c ++ []) :=
    inboxEpisode_led p (fun _ => rfl) (fun _ _ => rfl) (Or.inl ⟨rfl, rfl, rfl⟩)
  rw [List.append_nil] at hled
  exact hled

theorem reviveDead_led (hopen : s₀.containment = false)
    (hfree : (s₀.budget .inbox).free p.config p.input.now)
    (h : (p.input.audit .inboxDeadLetter .acted 0).isOk) :
    Triple (On fun s c => s = { s₀ with inboxHandledUpTo := handled } ∧ c = c₀)
      (reviveDead p s₀.inboxAction)
      (fun _ => On (Led p (· = .inbox) s₀ c₀)) (On (Led p (· = .inbox) s₀ c₀)) := by
  unfold reviveDead
  apply Triple.bind (Q := fun _ => On fun s c => s = { s₀ with inboxHandledUpTo := handled } ∧ c = c₀)
  · apply Triple.mono (emit_stays p 0 _) (fun _ ht => ht) (fun _ _ ht => ht)
    rintro t ⟨hs, hc⟩
    rw [On, hs, hc]
    exact inboxHandled_led handled p
  · intro _
    apply Triple.bind (Q := fun _ => On fun s c =>
      s = { s₀ with inboxHandledUpTo := handled } ∧ c = c₀ ++ [⟨p.input.now, .revive⟩])
    · apply call_triple
      rintro s c ⟨rfl, rfl⟩
      exact ⟨rfl, rfl⟩
    · intro _
      refine Triple.bind (emit_ok p 0 _ h) fun _ => Triple.bind (update_triple ?_) fun _ =>
        emit_stays p 0 _
      rintro s c ⟨rfl, rfl⟩
      apply inboxEpisode_led p
      · intro hlatched
        rw [hopen] at hlatched
        cases hlatched
      · intro other hother
        cases other with
        | saga id => rfl
        | outbox => rfl
        | inbox => exact absurd rfl hother
      · exact Spent.acted p rfl hfree (Nat.lt_succ_self _) rfl

/-- The dead-letter pass revives under its guards, and counts it once its record reached the sink. -/
theorem runInboxDeadLetterPass_led (h : s₀.containment = false → p.deps.reviveInbox →
    (detectInboxDeadLetters (p.input.signals .deadLetters) s₀.inboxHandledUpTo
      p.config.inboxDeadLetterThreshold).isSome →
      (s₀.budget .inbox).free p.config p.input.now → (p.input.audit .inboxDeadLetter .acted 0).isOk) :
    Triple (On fun s c => s = s₀ ∧ c = c₀) (runInboxDeadLetterPass p)
      (fun _ => On (Led p (· = .inbox) s₀ c₀))
      (On (Led p (· = .inbox) s₀ c₀)) := by
  unfold runInboxDeadLetterPass
  apply get_triple
  rintro t ⟨hstate, hcalls⟩
  rw [hstate, hcalls]
  cases hfound : detectInboxDeadLetters (p.input.signals .deadLetters) s₀.inboxHandledUpTo
    p.config.inboxDeadLetterThreshold with
  | none =>
    apply Triple.pure
    rintro t' ⟨hs, hc⟩
    exact Led.of_steady ⟨hc, hs ▸ .refl _⟩
  | some finding =>
    have hmarked : ∀ t', On (fun s c => s = { s₀ with inboxHandledUpTo := finding.newestAt } ∧ c = c₀) t' →
        On (Led p (· = .inbox) s₀ c₀) t' := by
      rintro t' ⟨hs, hc⟩
      rw [On, hs, hc]
      exact inboxHandled_led finding.newestAt p
    apply Triple.bind (Q := fun _ => On fun s c => s = { s₀ with inboxHandledUpTo := finding.newestAt } ∧
      c = c₀)
    · apply update_triple
      rintro s c ⟨rfl, rfl⟩
      exact ⟨rfl, rfl⟩
    · intro _
      apply Triple.bind (Triple.mono (emit_stays p 0 _) (fun _ ht => ht) (fun _ _ ht => ht) hmarked)
      intro _
      split
      · rename_i hlever
        split
        · exact escalateInbox_led finding.newestAt p finding.deadLettered
        · exact Triple.mono (emit_stays p 0 _) (fun _ ht => ht) (fun _ => hmarked) hmarked
        · rename_i hdecided
          obtain ⟨hopen, hfree⟩ := decideSuppression_none p hdecided
          exact reviveDead_led finding.newestAt p hopen hfree (h hopen hlever (by rw [hfound]; rfl) hfree)
      · exact Triple.mono (emit_stays p 0 _) (fun _ ht => ht) (fun _ => hmarked) hmarked

end Signatures

/-! ## Stuck sagas -/

theorem budget_set (s : SupervisorState) (id id' : String) (action : SagaActionState) :
    ({ s with perSaga := s.perSaga.set id action } : SupervisorState).budget (.saga id') =
      if id' = id then action else s.budget (.saga id') := by
  simp only [SupervisorState.budget, Table.get_set]
  split
  · rfl
  · rfl

theorem known_set {id id' : String}
    (h : id' = id ∨ (s.perSaga.get id').isSome) : ((s.perSaga.set id action).get id').isSome := by
  rw [Table.get_set]
  split
  · rfl
  · rename_i hne
    exact h.resolve_left hne

section Sagas

variable (p : Pass)

/-- The guards after some decisions: what may be done for a saga is what might be done before. -/
structure Weighed (s₀ s : SupervisorState) : Prop where
  containment : s.containment = s₀.containment
  outboxAction : s.outboxAction = s₀.outboxAction
  inboxAction : s.inboxAction = s₀.inboxAction
  inboxHandledUpTo : s.inboxHandledUpTo = s₀.inboxHandledUpTo
  attempts : ∀ id, (s.budget (.saga id)).attempts = (s₀.budget (.saga id)).attempts
  lastActedAt : ∀ id, (s.budget (.saga id)).lastActedAt = (s₀.budget (.saga id)).lastActedAt
  free : ∀ id, (s.budget (.saga id)).free p.config p.input.now =
    (s₀.budget (.saga id)).free p.config p.input.now

theorem Weighed.of_same (h : SameGuards s₀ s) : Weighed p s₀ s := by
  have hbudget := fun id => Led.budget_same h (.saga id)
  refine ⟨h.containment, h.outboxAction, h.inboxAction, h.inboxHandledUpTo, ?_, ?_, ?_⟩
  · exact fun id => congrArg SagaActionState.attempts (hbudget id)
  · exact fun id => congrArg SagaActionState.lastActedAt (hbudget id)
  · exact fun id => congrArg (SagaActionState.free p.config p.input.now) (hbudget id)

theorem Weighed.set (h : Weighed p s₀ s) {id : String}
    (hattempts : action.attempts = (s.budget (.saga id)).attempts)
    (hlast : action.lastActedAt = (s.budget (.saga id)).lastActedAt)
    (hfree : action.free p.config p.input.now = (s.budget (.saga id)).free p.config p.input.now) :
    Weighed p s₀ { s with perSaga := s.perSaga.set id action } := by
  refine ⟨h.containment, h.outboxAction, h.inboxAction, h.inboxHandledUpTo, ?_, ?_, ?_⟩
  · intro id'
    rw [budget_set]
    split
    · rename_i heq
      rw [heq, hattempts, h.attempts]
    · exact h.attempts id'
  · intro id'
    rw [budget_set]
    split
    · rename_i heq
      rw [heq, hlast, h.lastActedAt]
    · exact h.lastActedAt id'
  · intro id'
    rw [budget_set]
    split
    · rename_i heq
      rw [heq, hfree, h.free]
    · exact h.free id'

theorem Weighed.led (h : Weighed p s₀ s) :
    Led p (fun target => ∃ id, target = .saga id) s₀ c₀ s c₀ := by
  refine ⟨h.containment, fun _ => h.inboxHandledUpTo, ?_, [], (List.append_nil _).symm, fun _ => rfl,
    fun _ _ => rfl, ?_⟩
  · intro target hother
    cases target with
    | saga id => exact absurd ⟨id, rfl⟩ hother
    | outbox => exact h.outboxAction
    | inbox => exact h.inboxAction
  · intro target
    left
    cases target with
    | saga id => exact ⟨rfl, h.attempts id, h.lastActedAt id⟩
    | outbox =>
      have hattempts := congrArg SagaActionState.attempts h.outboxAction
      have hlast := congrArg SagaActionState.lastActedAt h.outboxAction
      exact ⟨rfl, hattempts, hlast⟩
    | inbox =>
      have hattempts := congrArg SagaActionState.attempts h.inboxAction
      have hlast := congrArg SagaActionState.lastActedAt h.inboxAction
      exact ⟨rfl, hattempts, hlast⟩

/-- The decisions so far, and the sagas they were about have an action of their own. -/
def Decided (s₀ : SupervisorState) (c₀ : List LeverCall) (done : List StuckSagaFinding)
    (s : SupervisorState) (c : List LeverCall) : Prop :=
  c = c₀ ∧ Weighed p s₀ s ∧ ∀ finding ∈ done, (s.perSaga.get finding.saga.id).isSome

theorem Decided.set {done done' : List StuckSagaFinding} (h : Decided p s₀ c₀ done s c) {id : String}
    (hafter : Weighed p s₀ { s with perSaga := s.perSaga.set id action })
    (hdone : ∀ finding ∈ done', finding.saga.id = id ∨ finding ∈ done) :
    Decided p s₀ c₀ done' { s with perSaga := s.perSaga.set id action } c := by
  refine ⟨h.1, hafter, fun finding hmem => known_set ?_⟩
  rcases hdone finding hmem with heq | hold
  · exact Or.inl heq
  · exact Or.inr (h.2.2 finding hold)

/-- Whether the guards let the sweep serve a saga. -/
def serves (s₀ : SupervisorState) (finding : StuckSagaFinding) : Bool :=
  !s₀.containment && (s₀.budget (.saga finding.saga.id)).free p.config p.input.now

theorem decided_weighed {t : Tick} (h : On (Decided p s₀ c₀ done) t) :
    On (fun s c => c = c₀ ∧ Weighed p s₀ s) t :=
  ⟨h.1, h.2.1⟩

theorem emit_decides (r : AuditRecord) {kept : Bool} (hkept : kept = serves p s₀ finding) :
    Triple (On (Decided p s₀ c₀ done)) (do p.emit k r; pure kept)
      (fun kept t => kept = serves p s₀ finding ∧ On (Decided p s₀ c₀ done) t)
      (On fun s c => c = c₀ ∧ Weighed p s₀ s) := by
  apply Triple.bind (Q := fun _ => On (Decided p s₀ c₀ done))
  · exact Triple.mono (emit_stays p k r) (fun _ ht => ht) (fun _ _ ht => ht) fun _ => decided_weighed p
  · exact fun _ => Triple.pure fun _ ht => ⟨hkept, ht⟩

theorem weighStuckSaga_decides (done : List StuckSagaFinding) (finding : StuckSagaFinding)
    (action : SagaActionState) :
    Triple (On fun s c => Decided p s₀ c₀ done s c ∧ s.budget (.saga finding.saga.id) = action)
      (weighStuckSaga p k finding action)
      (fun kept t => kept = serves p s₀ finding ∧ On (Decided p s₀ c₀ done) t)
      (On fun s c => c = c₀ ∧ Weighed p s₀ s) := by
  unfold weighStuckSaga
  apply get_triple
  rintro t ⟨hdecided, haction⟩
  obtain ⟨hcalls, hweighed, hknown⟩ := hdecided
  have hserves : serves p s₀ finding = (!t.state.containment && action.free p.config p.input.now) := by
    rw [serves, ← haction, hweighed.containment, hweighed.free]
  have hstart : ∀ t', On (fun s c => s = t.state ∧ c = t.calls) t' → On (Decided p s₀ c₀ done) t' := by
    rintro t' ⟨hs, hc⟩
    rw [On, hs, hc]
    exact ⟨hcalls, hweighed, hknown⟩
  split
  · rename_i hlatched
    apply Triple.mono (emit_decides k p _ _) hstart (fun _ _ hend => hend) fun _ hend => hend
    rw [hserves, hlatched]
    rfl
  split
  · rename_i hescalated
    apply Triple.mono (emit_decides k p _ _) hstart (fun _ _ hend => hend) fun _ hend => hend
    rw [hserves]
    simp [SagaActionState.free, hescalated]
  split
  · rename_i hcap
    have hheld : false = serves p s₀ finding := by
      rw [hserves]
      simp [SagaActionState.free, Nat.not_lt.mpr hcap]
    apply Triple.bind (Q := fun _ => On (Decided p s₀ c₀ done))
    · apply update_triple
      rintro s c ⟨rfl, rfl⟩
      apply Decided.set p ⟨hcalls, hweighed, hknown⟩ _ fun _ hmem => Or.inr hmem
      apply hweighed.set p
      · rw [haction]
      · rw [haction]
      · rw [haction]
        simp [SagaActionState.free, Nat.not_lt.mpr hcap]
    · intro _
      apply Triple.bind (Q := fun _ => On (Decided p s₀ c₀ done))
      · exact Triple.mono (emitEscalation_stays p k _) (fun _ ht => ht) (fun _ _ ht => ht) fun _ =>
          decided_weighed p
      · exact fun _ => Triple.pure fun _ ht => ⟨hheld, ht⟩
  split
  · rename_i hcool
    apply Triple.mono (emit_decides k p _ _) hstart (fun _ _ hend => hend) fun _ hend => hend
    rw [hserves]
    simp [SagaActionState.free, hcool]
  · rename_i hlatched hescalated hcap hcool
    apply Triple.mono (emit_decides k p _ _) hstart (fun _ _ hend => hend) fun _ hend => hend
    rw [hserves]
    simp only [Bool.not_eq_true, ge_iff_le, Nat.not_le] at hlatched hescalated hcap hcool
    simp [SagaActionState.free, hlatched, hescalated, hcap, hcool]

theorem decideStuckSaga_decides (done : List StuckSagaFinding) (finding : StuckSagaFinding) :
    Triple (On (Decided p s₀ c₀ done)) (decideStuckSaga p k finding)
      (fun kept t => kept = serves p s₀ finding ∧ On (Decided p s₀ c₀ (done ++ [finding])) t)
      (On fun s c => c = c₀ ∧ Weighed p s₀ s) := by
  unfold decideStuckSaga
  apply Triple.bind (Q := fun _ => On (Decided p s₀ c₀ done))
  · exact Triple.mono (emit_stays p k _) (fun _ ht => ht) (fun _ _ ht => ht) fun _ => decided_weighed p
  · intro _
    apply get_triple
    intro t ht
    refine Triple.bind (update_triple ?_) fun _ => weighStuckSaga_decides k p (done ++ [finding]) finding _
    rintro s c ⟨rfl, rfl⟩
    constructor
    · apply Decided.set p ht (ht.2.1.set p rfl rfl rfl)
      intro finding' hmem
      rcases List.mem_append.mp hmem with hdone | hlast
      · exact Or.inr hdone
      · exact Or.inl (by rw [List.mem_singleton.mp hlast])
    · rw [budget_set, if_pos rfl]

/-- The sweep was called for `findings` and is counted for those that are `done`. -/
structure Swept (s₀ : SupervisorState) (c₀ : List LeverCall) (findings done : List StuckSagaFinding)
    (s : SupervisorState) (c : List LeverCall) : Prop where
  calls : c = c₀ ++ [⟨p.input.now, .sweep (sagaIds findings)⟩]
  containment : s.containment = s₀.containment
  outboxAction : s.outboxAction = s₀.outboxAction
  inboxAction : s.inboxAction = s₀.inboxAction
  inboxHandledUpTo : s.inboxHandledUpTo = s₀.inboxHandledUpTo
  known : ∀ finding ∈ findings, (s.perSaga.get finding.saga.id).isSome
  counted : ∀ id ∈ sagaIds done, (s₀.budget (.saga id)).attempts < (s.budget (.saga id)).attempts ∧
    (s.budget (.saga id)).lastActedAt = some p.input.now
  untouched : ∀ id, id ∉ sagaIds done → (s.budget (.saga id)).attempts = (s₀.budget (.saga id)).attempts ∧
    (s.budget (.saga id)).lastActedAt = (s₀.budget (.saga id)).lastActedAt

theorem Swept.count (h : Swept p s₀ c₀ findings done s c) {action counted : SagaActionState}
    (haction : s.perSaga.get finding.saga.id = some action)
    (hattempts : counted.attempts = action.attempts + 1) (hlast : counted.lastActedAt = some p.input.now) :
    Swept p s₀ c₀ findings (done ++ [finding]) { s with perSaga := s.perSaga.set finding.saga.id counted }
      c := by
  have hbudget : s.budget (.saga finding.saga.id) = action := by
    rw [SupervisorState.budget, haction]
    rfl
  have hids : ∀ id, id ∈ sagaIds (done ++ [finding]) ↔ id ∈ sagaIds done ∨ id = finding.saga.id := by
    intro id
    simp [sagaIds]
  refine ⟨h.calls, h.containment, h.outboxAction, h.inboxAction, h.inboxHandledUpTo, ?_, ?_, ?_⟩
  · exact fun finding' hmem => known_set (Or.inr (h.known finding' hmem))
  · intro id hmem
    rw [budget_set]
    split
    · rename_i heq
      refine ⟨?_, hlast⟩
      rw [heq, hattempts, ← hbudget]
      by_cases hdone : finding.saga.id ∈ sagaIds done
      · exact Nat.lt_succ_of_lt (h.counted _ hdone).1
      · rw [(h.untouched _ hdone).1]
        exact Nat.lt_succ_self _
    · rename_i hne
      exact h.counted id (((hids id).mp hmem).resolve_right hne)
  · intro id hnot
    have hne : id ≠ finding.saga.id := fun heq => hnot ((hids id).mpr (Or.inr heq))
    rw [budget_set, if_neg hne]
    exact h.untouched id fun hmem => hnot ((hids id).mpr (Or.inl hmem))

/-- The pass stopped at a read or a record, with the sagas up to there counted. -/
def Interrupted (s₀ : SupervisorState) (c₀ : List LeverCall) (findings : List StuckSagaFinding)
    (s : SupervisorState) (c : List LeverCall) : Prop :=
  ∃ k < findings.length, ((p.input.load k).isOk = false ∨ (p.input.audit .stuckSaga .verified k).isOk =
    false) ∧
    Swept p s₀ c₀ findings (findings.take (k + 1)) s c

theorem verifyStuckSaga_counts {findings done rest : List StuckSagaFinding}
    (hsplit : findings = done ++ finding :: rest) :
    Triple (On (Swept p s₀ c₀ findings done)) (verifyStuckSaga p done.length finding)
      (fun _ => On (Swept p s₀ c₀ findings (done ++ [finding]))) (On (Interrupted p s₀ c₀ findings)) := by
  have hlength : done.length < findings.length := by
    rw [hsplit, List.length_append, List.length_cons]
    omega
  have htake : findings.take (done.length + 1) = done ++ [finding] := by
    rw [hsplit, ← List.singleton_append, ← List.append_assoc]
    exact List.take_left' (by rw [List.length_append, List.length_singleton])
  have hmem : finding ∈ findings := by simp [hsplit]
  unfold verifyStuckSaga
  apply get_triple
  intro t ht
  split
  · rename_i hnone
    have hknown := ht.known finding hmem
    rw [hnone] at hknown
    cases hknown
  · rename_i action haction
    apply Triple.bind (Q := fun _ => On (Swept p s₀ c₀ findings (done ++ [finding])))
    · apply update_triple
      rintro s c ⟨rfl, rfl⟩
      exact ht.count p haction rfl rfl
    · intro _
      apply Triple.bind (Q := fun _ => On (Swept p s₀ c₀ findings (done ++ [finding])))
      · apply Triple.answer
        · exact fun _ _ _ hs => hs
        · intro e hload t' hs
          refine ⟨done.length, hlength, Or.inl (by rw [hload]; rfl), ?_⟩
          rw [htake]
          exact hs
      · intro after
        apply emit_triple
        intro hfails t' hs
        refine ⟨done.length, hlength, Or.inr hfails, ?_⟩
        rw [htake]
        exact hs

/-- Once every saga it served is counted, the sweep is accounted for. -/
theorem Swept.led
    (h : Swept p s₀ c₀ findings done s c) (hserved : ∀ finding ∈ findings, serves p s₀ finding)
    (hne : findings ≠ []) (hall : ∀ finding ∈ findings, finding.saga.id ∈ sagaIds done)
    (hsub : ∀ id ∈ sagaIds done, id ∈ sagaIds findings) :
    Led p (fun target => ∃ id, target = .saga id) s₀ c₀ s c := by
  refine ⟨h.containment, fun _ => h.inboxHandledUpTo, ?_, [⟨p.input.now, .sweep (sagaIds findings)⟩],
    h.calls,
    ?_, ?_, ?_⟩
  · intro target hother
    cases target with
    | saga id => exact absurd ⟨id, rfl⟩ hother
    | outbox => exact h.outboxAction
    | inbox => exact h.inboxAction
  · intro hlatched
    obtain ⟨finding, hmem⟩ := List.exists_mem_of_ne_nil findings hne
    have hopen := hserved finding hmem
    simp [serves, hlatched] at hopen
  · intro target hother
    cases target with
    | saga id => exact absurd ⟨id, rfl⟩ hother
    | outbox => rfl
    | inbox => rfl
  · intro target
    cases target with
    | saga id =>
      by_cases hid : id ∈ sagaIds findings
      · obtain ⟨finding, hmem, hfid⟩ := List.mem_map.mp hid
        have hopen := hserved finding hmem
        rw [serves, Bool.and_eq_true] at hopen
        have hdone := hall finding hmem
        subst hfid
        apply Spent.acted p
        · simpa [Lever.serves] using hid
        · exact hopen.2
        · exact (h.counted _ hdone).1
        · exact (h.counted _ hdone).2
      · left
        have hquiet := h.untouched id fun hmem => hid (hsub id hmem)
        refine ⟨?_, hquiet.1, hquiet.2⟩
        rw [callTimes_single, if_neg]
        simpa [Lever.serves] using hid
    | outbox =>
      left
      have hattempts := congrArg SagaActionState.attempts h.outboxAction
      have hlast := congrArg SagaActionState.lastActedAt h.outboxAction
      exact ⟨rfl, hattempts, hlast⟩
    | inbox =>
      left
      have hattempts := congrArg SagaActionState.attempts h.inboxAction
      have hlast := congrArg SagaActionState.lastActedAt h.inboxAction
      exact ⟨rfl, hattempts, hlast⟩

theorem Interrupted.led
    (h : Interrupted p s₀ c₀ findings s c) (hserved : ∀ finding ∈ findings, serves p s₀ finding)
    (hverified : ∀ k < findings.length,
      (p.input.load k).isOk = false ∨ (p.input.audit .stuckSaga .verified k).isOk = false →
        ∀ finding ∈ findings, finding.saga.id ∈ sagaIds (findings.take (k + 1))) :
    Led p (fun target => ∃ id, target = .saga id) s₀ c₀ s c := by
  obtain ⟨k, hk, hfails, hswept⟩ := h
  apply hswept.led p hserved
  · intro hnil
    rw [hnil] at hk
    cases hk
  · exact hverified k hk hfails
  · intro id hmem
    obtain ⟨finding, hfinding, hid⟩ := List.mem_map.mp hmem
    exact List.mem_map.mpr ⟨finding, List.mem_of_mem_take hfinding, hid⟩

theorem actOnStuckSagas_led (hne : findings ≠ []) (hserved : ∀ finding ∈ findings, serves p s₀ finding)
    (hacted : (p.input.audit .stuckSaga .acted 0).isOk)
    (hverified : ∀ k < findings.length,
      (p.input.load k).isOk = false ∨ (p.input.audit .stuckSaga .verified k).isOk = false →
        ∀ finding ∈ findings, finding.saga.id ∈ sagaIds (findings.take (k + 1))) :
    Triple (On (Decided p s₀ c₀ findings)) (actOnStuckSagas p findings)
      (fun _ => On (Led p (fun target => ∃ id, target = .saga id) s₀ c₀))
      (On (Led p (fun target => ∃ id, target = .saga id) s₀ c₀)) := by
  unfold actOnStuckSagas
  apply Triple.bind (Q := fun _ => On (Swept p s₀ c₀ findings []))
  · apply call_triple
    rintro s c ⟨hcalls, hweighed, hknown⟩
    refine ⟨by rw [hcalls], hweighed.containment, hweighed.outboxAction, hweighed.inboxAction,
      hweighed.inboxHandledUpTo, hknown, ?_, ?_⟩
    · exact fun id hmem => absurd hmem List.not_mem_nil
    · exact fun id _ => ⟨hweighed.attempts id, hweighed.lastActedAt id⟩
  · intro _
    refine Triple.bind (emit_ok p 0 _ hacted) fun _ => ?_
    have hloop : Triple (On (Swept p s₀ c₀ findings [])) (each (verifyStuckSaga p) 0 findings)
        (fun _ => On (Swept p s₀ c₀ findings findings)) (On (Interrupted p s₀ c₀ findings)) :=
      @Triple.each _ _ _ (On (Interrupted p s₀ c₀ findings)) (fun done => On (Swept p s₀ c₀ findings done))
        (verifyStuckSaga p) findings fun done finding rest hsplit => verifyStuckSaga_counts p hsplit
    apply Triple.mono hloop (fun _ ht => ht)
    · intro _ t ht
      apply ht.led p hserved hne
      · exact fun finding hmem => List.mem_map_of_mem hmem
      · exact fun id hmem => hmem
    · exact fun t ht => ht.led p hserved hverified

/-- The stuck-saga pass sweeps under the guards of each saga it serves, and counts the sweep for each. -/
theorem runStuckSagaPass_led
    (hacted : (stuck p.config p.input).filter (serves p s₀) ≠ [] →
      (p.input.audit .stuckSaga .acted 0).isOk)
    (hverified : ∀ k < ((stuck p.config p.input).filter (serves p s₀)).length,
      (p.input.load k).isOk = false ∨ (p.input.audit .stuckSaga .verified k).isOk = false →
        ∀ finding ∈ (stuck p.config p.input).filter (serves p s₀),
          finding.saga.id ∈ sagaIds (((stuck p.config p.input).filter (serves p s₀)).take (k + 1))) :
    Triple (On (Steady s₀ c₀)) (runStuckSagaPass p)
      (fun _ => On (Led p (fun target => ∃ id, target = .saga id) s₀ c₀))
      (On (Led p (fun target => ∃ id, target = .saga id) s₀ c₀)) := by
  have hdecide : Triple (On (Steady s₀ c₀)) (sift (decideStuckSaga p) 0 (stuck p.config p.input))
      (fun kept t => kept = (stuck p.config p.input).filter (serves p s₀) ∧
        On (Decided p s₀ c₀ (stuck p.config p.input)) t)
      (On fun s c => c = c₀ ∧ Weighed p s₀ s) := by
    have hsift := @Triple.sift _ _ _ (On fun s c => c = c₀ ∧ Weighed p s₀ s)
      (fun done => On (Decided p s₀ c₀ done)) (serves p s₀) (decideStuckSaga p) (stuck p.config p.input)
      fun done finding _ _ => decideStuckSaga_decides done.length p done finding
    apply Triple.mono hsift _ (fun _ _ ht => ht) fun _ ht => ht
    rintro t ⟨hcalls, hsame⟩
    exact ⟨hcalls, Weighed.of_same p hsame, fun _ hmem => absurd hmem List.not_mem_nil⟩
  have hstopped : ∀ t, On (fun s c => c = c₀ ∧ Weighed p s₀ s) t →
      On (Led p (fun target => ∃ id, target = .saga id) s₀ c₀) t := by
    rintro t ⟨hcalls, hweighed⟩
    rw [On, hcalls]
    exact hweighed.led p
  unfold runStuckSagaPass
  apply Triple.bind (Q := fun listed t => p.input.sagas = .ok listed ∧ On (Steady s₀ c₀) t)
  · apply Triple.answer
    · exact fun listed hlisted t ht => ⟨hlisted, ht⟩
    · exact fun _ _ t ht => Led.of_steady ht
  · refine fun listed => Triple.of_fact fun hlisted => ?_
    have hstuck : stuck p.config p.input = detectStuckSagas listed p.input.now
        p.config.stuckSagaAgeMs := by
      rw [stuck, hlisted]
      rfl
    rw [← hstuck]
    apply Triple.bind (Triple.mono hdecide (fun _ ht => ht) (fun _ _ ht => ht) hstopped)
    refine fun actionable => Triple.of_fact fun hactionable => ?_
    rw [hactionable]
    by_cases hnone : (stuck p.config p.input).filter (serves p s₀) = []
    · rw [hnone]
      exact Triple.pure fun t ht => hstopped t (decided_weighed p ht)
    · have hserved : ∀ finding ∈ (stuck p.config p.input).filter (serves p s₀), serves p s₀ finding :=
        fun finding hmem => (List.mem_filter.mp hmem).2
      rw [if_neg (by rwa [List.isEmpty_iff])]
      apply Triple.mono (actOnStuckSagas_led p hnone hserved (hacted hnone) hverified)
      · rintro t ⟨hcalls, hweighed, hknown⟩
        exact ⟨hcalls, hweighed, fun finding hmem => hknown finding (List.mem_of_mem_filter hmem)⟩
      · exact fun _ _ ht => ht
      · exact fun _ ht => ht

end Sagas

section Ticks

variable {p : Pass} {mine mine' : Target → Prop}

theorem then_led {m : Step Unit} (hpass : ∀ s₁ c₁, Led p mine s₀ c₀ s₁ c₁ →
      Triple (On fun s c => s = s₁ ∧ c = c₁) m (fun _ => On (Led p mine' s₁ c₁)) (On (Led p mine' s₁ c₁)))
    (hapart : ∀ target, mine target → ¬ mine' target) :
    Triple (On (Led p mine s₀ c₀)) m (fun _ => On (Led p (fun target => mine target ∨ mine' target) s₀ c₀))
      (On (Led p (fun _ => True) s₀ c₀)) := by
  intro t ht
  have hboth : ∀ t', On (Led p mine' t.state t.calls) t' →
      On (Led p (fun target => mine target ∨ mine' target) s₀ c₀) t' := fun _ ht' =>
        Led.trans ht ht' hapart
  have hafter := Triple.mono (hpass t.state t.calls ht) (fun _ hs => hs) (fun _ => hboth)
    fun t' ht' => (hboth t' ht').widen fun _ _ => trivial
  exact hafter t ⟨rfl, rfl⟩

theorem report_then {m : Step Unit} {rest : Unit → Step Unit} (hm : Stays (On (Steady s₀ c₀)) m)
    (hrest : Triple (On (Steady s₀ c₀)) (rest ()) (fun _ => On (Led p (fun _ => True) s₀ c₀))
      (On (Led p (fun _ => True) s₀ c₀))) :
    Triple (On (Steady s₀ c₀)) (m >>= rest) (fun _ => On (Led p (fun _ => True) s₀ c₀))
      (On (Led p (fun _ => True) s₀ c₀)) :=
  Triple.bind (steady_led p hm) fun _ => hrest

theorem levers_led (h : Counts p.deps p.config state p.input) :
    Triple (On (Steady (latch state p.input) c₀)) (do
        runStuckSagaPass p
        runOutboxBacklogPass p
        runInboxDeadLetterPass p)
      (fun _ => On (Led p (fun _ => True) (latch state p.input) c₀))
      (On (Led p (fun _ => True) (latch state p.input) c₀)) := by
  have hsagas := @runStuckSagaPass_led (latch state p.input) c₀ p h.swept h.verified
  apply Triple.bind (Triple.mono hsagas (fun _ ht => ht) (fun _ _ ht => ht) fun t ht =>
    Led.widen ht fun _ _ => trivial)
  intro _
  apply Triple.bind (Q := fun _ => On (Led p (fun target => (∃ id, target = .saga id) ∨ target = .outbox)
    (latch state p.input) c₀))
  · apply then_led
    · intro s₁ c₁ hled
      have hbudget := hled.others .outbox (by rintro ⟨id, hid⟩; cases hid)
      have hpass := @runOutboxBacklogPass_led s₁ c₁ p ?_
      · apply Triple.mono hpass _ (fun _ _ ht => ht) fun _ ht => ht
        rintro t ⟨hs, hc⟩
        exact ⟨hc, hs ▸ .refl _⟩
      · intro hopen hfound hfree
        rw [hled.containment] at hopen
        rw [hbudget] at hfree
        apply h.redriven
        rw [redrives, hfound]
        exact Bool.and_eq_true_iff.mpr ⟨by
          rw [show contained state p.input = false from hopen]; rfl, hfree⟩
    · rintro target ⟨id, rfl⟩ hother
      cases hother
  · intro _
    have hinbox : ∀ s₁ c₁, Led p (fun target => (∃ id, target = .saga id) ∨ target = .outbox)
        (latch state p.input) c₀ s₁ c₁ →
        Triple (On fun s c => s = s₁ ∧ c = c₁) (runInboxDeadLetterPass p)
          (fun _ => On (Led p (· = .inbox) s₁ c₁))
          (On (Led p (· = .inbox) s₁ c₁)) := by
      intro s₁ c₁ hled
      have hother : ¬ ((∃ id, Target.inbox = .saga id) ∨ Target.inbox = .outbox) := by
        rintro (⟨id, hid⟩ | heq)
        · cases hid
        · cases heq
      apply runInboxDeadLetterPass_led
      intro hopen hlever hfound hfree
      rw [hled.containment] at hopen
      rw [hled.others .inbox hother] at hfree
      rw [hled.handled hother] at hfound
      apply h.revived
      rw [revives, hlever, show contained state p.input = false from hopen]
      exact Bool.and_eq_true_iff.mpr ⟨hfound, hfree⟩
    apply Triple.mono (then_led hinbox _) (fun _ ht => ht) _ fun _ ht => ht
    · rintro target (⟨id, rfl⟩ | rfl) hother
      · cases hother
      · cases hother
    · exact fun _ t ht => Led.widen ht fun _ _ => trivial

/-- Where the tick meets the condition, whatever ends it, its calls are counted and the latch is closed. -/
theorem runPasses_led {state : SupervisorState} (h : Counts p.deps p.config state p.input) :
    Triple (On fun s c => s = state ∧ c = []) (runPasses p)
      (fun _ => On (Led p (fun _ => True) (latch state p.input) []))
      (On (Led p (fun _ => True) (latch state p.input) [])) := by
  unfold runPasses
  apply Triple.bind (Q := fun _ => On fun s c =>
    s = { state with watchStartedAt := some (state.watchStartedAt.getD p.input.now) } ∧ c = [])
  · apply update_triple
    rintro s c ⟨rfl, rfl⟩
    exact ⟨rfl, rfl⟩
  intro _
  apply Triple.bind (Q := fun _ => On (Steady (latch state p.input) []))
  · have hlatches := @runIntegrityPass_latches { state with
        watchStartedAt := some (state.watchStartedAt.getD p.input.now) } [] p h.latches
    have hsame : ∀ t, On (Steady (latch { state with
        watchStartedAt := some (state.watchStartedAt.getD p.input.now) } p.input) []) t →
        On (Steady (latch state p.input) []) t :=
      fun t ht => ⟨ht.1, ht.2.containment, ht.2.perSaga, ht.2.outboxAction, ht.2.inboxAction,
        ht.2.inboxHandledUpTo⟩
    exact Triple.mono hlatches (fun _ ht => ht) (fun _ => hsame) fun t ht => Led.of_steady (hsame t ht)
  intro _
  apply report_then (runStallPass_steady p)
  apply report_then (runTreasuryPass_steady p)
  apply report_then (runSilencePass_steady p)
  apply report_then (runStormPass_steady p)
  apply report_then (runRetryExhaustionPass_steady p)
  apply report_then (runReplayStormPass_steady p)
  apply report_then (runSealLatencyPass_steady p)
  apply report_then (runVelocityPass_steady p)
  exact levers_led h

end Ticks

variable {deps : SupervisorPorts} {config : SupervisorConfig}

theorem tick_led {input : TickInput} (h : Counts deps config state input) :
    Led ⟨deps, config, input⟩ (fun _ => True) (latch state input) [] (tick deps config state input).2.state
      (tick deps config state input).2.calls := by
  have hrun := @runPasses_led ⟨deps, config, input⟩ state h (Tick.start state) ⟨rfl, rfl⟩
  unfold tick
  cases hend : (runPasses ⟨deps, config, input⟩).run (Tick.start state) with
  | ok _ t =>
    rw [hend] at hrun
    exact hrun
  | error _ t =>
    rw [hend] at hrun
    exact hrun

/-! ## Whole runs -/

theorem allCalls_append (reports : List TickReport) (report : TickReport) :
    allCalls (reports ++ [report]) = allCalls reports ++ report.calls := by
  simp [allCalls]

structure Watched (config : SupervisorConfig) (s : Supervision) : Prop where
  guarded : Guarded config s.reports
  counted : ∀ target, (callTimes target (allCalls s.reports)).length ≤ (s.state.budget target).attempts
  recent : ∀ target, ∀ t ∈ callTimes target (allCalls s.reports),
    ∃ last, (s.state.budget target).lastActedAt = some last ∧ t ≤ last
  latched : ∀ report ∈ s.reports, report.mismatch → s.state.containment

theorem Watched.start : Watched config .start := by
  refine ⟨⟨fun _ => Nat.zero_le _, fun _ => List.Pairwise.nil, ?_⟩, fun _ => Nat.zero_le _, ?_, ?_⟩
  · intro before report later hsplit
    cases before with
    | nil => cases hsplit
    | cons first before => cases hsplit
  · exact fun _ _ hmem => absurd hmem List.not_mem_nil
  · exact fun _ hmem => absurd hmem List.not_mem_nil

/-- An action that is free has rested for a cooldown since any time before its last. -/
theorem SagaActionState.free_rested {now last t : Int}
    (h : action.free config now) (hlast : action.lastActedAt = some last) (ht : t ≤ last) :
    config.actionCooldownMs ≤ now - t := by
  simp only [SagaActionState.free, hlast, Mark.within, Option.elim_some, Bool.and_eq_true,
    Bool.not_eq_true', decide_eq_false_iff_not] at h
  have hrest := h.2
  omega

theorem SagaActionState.free_under {now : Int} (h : action.free config now) :
    action.attempts < config.maxActionAttempts := by
  simp only [SagaActionState.free, Bool.and_eq_true, decide_eq_true_eq] at h
  exact h.1.2

section Step

variable {s : Supervision} {input : TickInput}

theorem tick_reports : (s.tick deps config input).reports = s.reports ++
    [⟨!(mismatches s.state input).isEmpty, (tick deps config s.state input).2.calls⟩] :=
  rfl

theorem callTimes_tick : callTimes target (allCalls (s.tick deps config input).reports) =
    callTimes target (allCalls s.reports) ++ callTimes target
      (tick deps config s.state input).2.calls := by
  rw [tick_reports, allCalls_append, callTimes_append]

theorem tick_spent (h : Counts deps config s.state input) (target : Target) :
    Spent ⟨deps, config, input⟩ s.state (s.tick deps config input).state
      (tick deps config s.state input).2.calls target := by
  obtain ⟨added, hcalls, -, -, hspent⟩ := (tick_led h).added
  rw [hcalls, List.nil_append]
  cases target with
  | saga id => exact hspent (.saga id)
  | outbox => exact hspent .outbox
  | inbox => exact hspent .inbox

theorem tick_closed (h : Counts deps config s.state input) (hclosed : contained s.state input) :
    (tick deps config s.state input).2.calls = [] := by
  obtain ⟨added, hcalls, hnone, -, -⟩ := (tick_led h).added
  rw [hcalls, hnone hclosed]
  rfl

theorem tick_containment (h : Counts deps config s.state input) :
    (s.tick deps config input).state.containment = contained s.state input :=
  (tick_led h).containment

theorem mem_callTimes_tick (h : Counts deps config s.state input) {target : Target} {t : Int}
    (ht : t ∈ callTimes target (allCalls (s.tick deps config input).reports)) :
    t ∈ callTimes target (allCalls s.reports) ∨ t = input.now := by
  rw [callTimes_tick, List.mem_append] at ht
  rcases ht with hold | hnew
  · exact Or.inl hold
  · rcases tick_spent h target with ⟨hnone, -⟩ | ⟨hone, -⟩
    · rw [hnone] at hnew
      cases hnew
    · rw [hone] at hnew
      exact Or.inr (List.mem_singleton.mp hnew)

variable (hw : Watched config s) (h : Counts deps config s.state input)
include hw h

theorem Watched.tick_capped :
    (callTimes target (allCalls (s.tick deps config input).reports)).length ≤ config.maxActionAttempts ∧
      (callTimes target (allCalls (s.tick deps config input).reports)).length ≤
        ((s.tick deps config input).state.budget target).attempts := by
  have hcounted := hw.counted target
  rw [callTimes_tick, List.length_append]
  rcases tick_spent h target with ⟨hnone, hattempts, -⟩ | ⟨hone, hfree, hattempts, -⟩
  · rw [hnone, List.length_nil, Nat.add_zero, hattempts]
    exact ⟨hw.guarded.capped target, hcounted⟩
  · have hunder := SagaActionState.free_under hfree
    rw [hone, List.length_singleton]
    constructor
    · exact Nat.lt_of_le_of_lt hcounted hunder
    · exact Nat.lt_of_le_of_lt hcounted hattempts

theorem Watched.tick_spaced : (callTimes target (allCalls (s.tick deps config input).reports)).Pairwise
      fun t t' => config.actionCooldownMs ≤ t' - t := by
  rw [callTimes_tick]
  rcases tick_spent h target with ⟨hnone, -⟩ | ⟨hone, hfree, -⟩
  · rw [hnone, List.append_nil]
    exact hw.guarded.spaced target
  · rw [hone, List.pairwise_append]
    refine ⟨hw.guarded.spaced target, List.pairwise_singleton _ _, ?_⟩
    intro t ht t' ht'
    obtain ⟨last, hlast, hle⟩ := hw.recent target t ht
    rw [List.mem_singleton.mp ht']
    exact SagaActionState.free_rested hfree hlast hle

theorem Watched.tick_recent (hclock : ∀ target, ∀ t ∈ callTimes target (allCalls s.reports), t ≤ input.now)
    (target : Target) : ∀ t ∈ callTimes target (allCalls (s.tick deps config input).reports),
      ∃ last, ((s.tick deps config input).state.budget target).lastActedAt = some last ∧ t ≤ last := by
  intro t ht
  rcases tick_spent h target with ⟨hnone, -, hlast⟩ | ⟨hone, -, -, hlast⟩
  · rw [callTimes_tick, hnone, List.append_nil] at ht
    rw [hlast]
    exact hw.recent target t ht
  · refine ⟨input.now, hlast, ?_⟩
    rcases mem_callTimes_tick h ht with hold | hnow
    · exact hclock target t hold
    · exact Int.le_of_eq hnow

theorem Watched.tick_latched : ∀ report ∈ (s.tick deps config input).reports, report.mismatch →
    (s.tick deps config input).state.containment := by
  intro report hmem hfound
  rw [tick_containment h, contained]
  rw [tick_reports, List.mem_append] at hmem
  rcases hmem with hold | hnew
  · rw [hw.latched report hold hfound]
    rfl
  · rw [List.mem_singleton.mp hnew] at hfound
    exact Bool.or_eq_true_iff.mpr (Or.inr hfound)

theorem Watched.tick_contained {before later : List TickReport} {report : TickReport}
    (hsplit : (s.tick deps config input).reports = before ++ report :: later) (hfound : report.mismatch) :
    ∀ r ∈ report :: later, r.calls = [] := by
  have hlatched : contained s.state input := by
    rw [← tick_containment h]
    exact hw.tick_latched h report (by rw [hsplit]; simp) hfound
  have hnow := tick_closed h hlatched
  rw [tick_reports] at hsplit
  rcases List.eq_nil_or_concat later with hnil | ⟨front, last, hlater⟩
  · rw [hnil, List.append_singleton_inj] at hsplit
    rintro r hmem
    rw [hnil, List.mem_singleton] at hmem
    rw [hmem, ← hsplit.2]
    exact hnow
  · rw [hlater, List.concat_eq_append, ← List.cons_append, ← List.append_assoc,
      List.append_singleton_inj] at hsplit
    intro r hmem
    rw [hlater, List.concat_eq_append, ← List.cons_append, List.mem_append] at hmem
    rcases hmem with hold | hnew
    · exact hw.guarded.contained before report front hsplit.1 hfound r hold
    · rw [List.mem_singleton.mp hnew, ← hsplit.2]
      exact hnow

/-- A tick that meets the condition keeps the levers to their guards. -/
theorem Watched.tick (hclock : ∀ target, ∀ t ∈ callTimes target (allCalls s.reports), t ≤ input.now) :
    Watched config (s.tick deps config input) where
  guarded :=
    { capped := fun target => (hw.tick_capped target h).1
      spaced := fun target => hw.tick_spaced target h
      contained := fun _ _ _ hsplit hfound => hw.tick_contained h hsplit hfound }
  counted target := (hw.tick_capped target h).2
  recent := hw.tick_recent h hclock
  latched := hw.tick_latched h

end Step

theorem watched_run {s : Supervision} {inputs : List TickInput} (hw : Watched config s)
    (hcounts : RunMeets (Supervision.tick deps config)
      (fun s input => Counts deps config s.state input) s inputs)
    (hclock : inputs.Pairwise fun input later => input.now ≤ later.now)
    (hbefore : ∀ target, ∀ t ∈ callTimes target (allCalls s.reports), ∀ input ∈ inputs, t ≤ input.now) :
    Watched config (inputs.foldl (Supervision.tick deps config) s) := by
  induction inputs generalizing s with
  | nil => exact hw
  | cons input inputs ih =>
    obtain ⟨hfirst, hrest⟩ := hcounts
    rw [List.pairwise_cons] at hclock
    apply ih (hw.tick hfirst fun target t ht => hbefore target t ht input List.mem_cons_self)
      hrest hclock.2
    intro target t ht later hlater
    rcases mem_callTimes_tick hfirst ht with hold | hnow
    · exact hbefore target t hold later (List.mem_cons_of_mem _ hlater)
    · rw [hnow]
      exact hclock.1 later hlater

/-- A tick meets the condition where no record, hook or read of it throws. -/
theorem Counts.of_answered {input : TickInput}
    (haudit : ∀ signature phase k, (input.audit signature phase k).isOk)
    (hescalate : ∀ signature k, (input.escalate signature k).isOk) (hload : ∀ k, (input.load k).isOk) :
    Counts deps config state input where
  latches _ := ⟨haudit _ _ _, haudit _ _ _, fun _ => hescalate _ _⟩
  swept _ := haudit _ _ _
  verified := by
    intro k _ hfails
    rw [hload k, haudit .stuckSaga .verified k] at hfails
    rcases hfails with hfails | hfails
    · cases hfails
    · cases hfails
  redriven _ := haudit _ _ _
  revived _ := haudit _ _ _

def stuckPayout : Saga where
  id := "saga_1"
  userId := "usr_1"
  reserve := ⟨.credit, 500, by decide⟩
  rateId := "rate_1"
  txnId := "txn_1"
  state := .submitted
  providerRef := none
  reason := none
  attempts := 0
  dueAt := 0
  updatedAt := 0
  payoutUsd := none

/-- A tick over one stuck saga and these signals, where nothing throws. -/
def payoutTick (now : Int) (buffer : List Signal) : TickInput where
  now := now
  signals _ := bufferFeed buffer
  sagas := .ok [stuckPayout]
  load _ := .ok (some stuckPayout)
  audit _ _ _ := .ok ()
  escalate _ _ := .ok ()
  prove := .ok .null
  pauseWorker := .ok ()
  runSweep := .ok ()
  redrive := .ok ()
  reviveInbox := .ok []

def sweepFails (now : Int) (buffer : List Signal) : TickInput := { payoutTick now buffer with
  runSweep := .error "worker down" }

def sinkFails (now : Int) : TickInput := { payoutTick now [] with
  audit := fun signature phase _ =>
    if signature = .stuckSaga ∧ phase = .acted then .error "write EPIPE" else .ok () }

def mismatchSignal : Signal := ⟨300000, .log, "worker.checkpoint.mismatch", 1, [("level", "error")]⟩

def pagerFails (now : Int) : TickInput := { payoutTick now [mismatchSignal] with
  escalate := fun _ _ => .error "pager down" }

def pagedHost : SupervisorPorts := ⟨false, true, false, false, false⟩

/-- In every run whose ticks meet the condition, each lever keeps to its cap and its cooldown, and none
is pulled from the tick on that saw a mismatch. -/
theorem guardrails_hold (deps : SupervisorPorts) (config : SupervisorConfig) (inputs : List TickInput)
    (hclock : inputs.Pairwise fun input later => input.now ≤ later.now)
    (hcounts : RunMeets (Supervision.tick deps config) (fun s input => Counts deps config s.state input)
      .start inputs) : Guarded config (supervise deps config inputs).reports :=
  (watched_run Watched.start hcounts hclock fun _ _ hmem => absurd hmem List.not_mem_nil).guarded

theorem guardrails_hold_failing_sweep :
    (supervise pagedHost defaultSupervisorConfig
      [sweepFails 300000 [], sweepFails 300001 [], sweepFails 360000 [mismatchSignal]]).reports =
        [⟨false, [⟨300000, .sweep ["saga_1"]⟩]⟩, ⟨false, []⟩, ⟨true, []⟩] ∧
    Guarded defaultSupervisorConfig (supervise pagedHost defaultSupervisorConfig
      [sweepFails 300000 [], sweepFails 300001 [], sweepFails 360000 [mismatchSignal]]).reports :=
  ⟨by decide +kernel, guardrails_hold pagedHost defaultSupervisorConfig
    [sweepFails 300000 [], sweepFails 300001 [], sweepFails 360000 [mismatchSignal]] (by decide)
    ⟨.of_answered (fun _ _ _ => rfl) (fun _ _ => rfl) fun _ => rfl,
      .of_answered (fun _ _ _ => rfl) (fun _ _ => rfl) fun _ => rfl,
      .of_answered (fun _ _ _ => rfl) (fun _ _ => rfl) fun _ => rfl, trivial⟩⟩

/-- A sink that throws on the record of a sweep leaves it uncounted; a pager that throws leaves the
latch open. -/
theorem levers_unguarded :
    ([sinkFails 300000, sinkFails 300001, sinkFails 300002, sinkFails 300003].Pairwise
      fun input later => input.now ≤ later.now) ∧
    callTimes (.saga "saga_1") (allCalls (supervise pagedHost defaultSupervisorConfig
      [sinkFails 300000, sinkFails 300001, sinkFails 300002, sinkFails 300003]).reports) =
        [300000, 300001, 300002, 300003] ∧
    ¬ Guarded defaultSupervisorConfig (supervise pagedHost defaultSupervisorConfig
      [sinkFails 300000, sinkFails 300001, sinkFails 300002, sinkFails 300003]).reports ∧
    (supervise pagedHost defaultSupervisorConfig [pagerFails 300000, payoutTick 300001 []]).reports =
      [⟨true, []⟩, ⟨false, [⟨300001, .sweep ["saga_1"]⟩]⟩] ∧
    ¬ Guarded defaultSupervisorConfig
      (supervise pagedHost defaultSupervisorConfig [pagerFails 300000, payoutTick 300001 []]).reports := by
  have htimes : callTimes (.saga "saga_1") (allCalls (supervise pagedHost defaultSupervisorConfig
      [sinkFails 300000, sinkFails 300001, sinkFails 300002, sinkFails 300003]).reports) =
        [300000, 300001, 300002, 300003] := by decide +kernel
  have hreports : (supervise pagedHost defaultSupervisorConfig
    [pagerFails 300000, payoutTick 300001 []]).reports =
      [⟨true, []⟩, ⟨false, [⟨300001, .sweep ["saga_1"]⟩]⟩] := by decide +kernel
  refine ⟨by decide, htimes, ?_, hreports, ?_⟩
  · intro h
    have hcap := h.capped (.saga "saga_1")
    rw [htimes] at hcap
    revert hcap
    decide
  · intro h
    have hnone := h.contained [] _ _ hreports rfl ⟨false, [⟨300001, .sweep ["saga_1"]⟩]⟩ (by simp)
    cases hnone

end EconomyLab.Ops
