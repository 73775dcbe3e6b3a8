import EconomyLab.Worker.Reserves

/-!
# Sweeps among submits

Any number of sweeps run beside the submits. Each works from the rows it claimed, waits for the
processor's answers, and is overtaken by anything that happens meanwhile. Every step of such a run
makes one move at most, and the moves say what becomes of the reserve.
-/

namespace EconomyLab

open Foundation Text

inductive PayoutTask
  | claimed (saga : Saga)
  | submitting (saga : Saga)
  | probing (saga : Saga)
  | heard (saga : Saga) (verdict : Option PayoutProviderState)
  | threw (saga : Saga) (error : Fault)
  | done (outcome : PayoutOutcome)

/-- The row it works from, until it is done. -/
def PayoutTask.saga : PayoutTask → Option Saga
  | claimed saga => some saga
  | submitting saga => some saga
  | probing saga => some saga
  | heard saga _ => some saga
  | threw saga _ => some saga
  | done _ => none

/-- What one stretch of work leaves: the task, what the processor was called with, the store. -/
structure PayoutWork where
  task : PayoutTask
  calls : List SubmitPayoutCall
  world : World

section Task

variable (env : Env) (config : Config) (maxPayoutAttempts : Nat) (probes : Bool)

/-- The work on a claimed payout up to its question, if it has one. -/
def PayoutTask.ask (saga : Saga) (w : World) : PayoutWork :=
  match askFirst env probes saga w with
  | .error e => ⟨.threw saga e, [], w⟩
  | .ok (.submit call) => ⟨.submitting saga, [call], w⟩
  | .ok (.status _) => ⟨.probing saga, [], w⟩
  | .ok .none => ⟨if saga.state = .submitted then .heard saga none else .done .untouched, [], w⟩

/-- The task's next stretch of work, up to its next question or its end. -/
def PayoutTask.drive (task : PayoutTask) (w : World) : PayoutWork :=
  match task with
  | .claimed saga => ask env probes saga w
  | .heard saga verdict =>
    match checkSubmitted env config saga verdict w with
    | (.ok outcome, w) => ⟨.done outcome, [], w⟩
    | (.error e, w) => ⟨.threw saga e, [], w⟩
  | .threw saga error =>
    let done := retryOrSetAside env config maxPayoutAttempts saga error w
    ⟨.done done.1, [], done.2⟩
  | task => ⟨task, [], w⟩

/-- The processor answers a disbursement. -/
def PayoutTask.answer (answer : Except Fault String) (task : PayoutTask) (w : World) : PayoutWork :=
  match task, answer with
  | .submitting saga, .ok providerRef =>
    ⟨.done (.submitted saga.id), [], ((recordSubmitted env config saga providerRef).run w).2⟩
  | .submitting saga, .error e => ⟨.threw saga e, [], w⟩
  | task, _ => ⟨task, [], w⟩

/-- The processor answers a probe. -/
def PayoutTask.report (status : Except Fault PayoutProviderState) : PayoutTask → PayoutTask
  | .probing saga => .heard saga (heardVerdict status)
  | task => task

end Task

/-- The store, the sweeps' tasks, and every call for a disbursement so far. -/
structure PayoutSystem where
  world : World
  tasks : List PayoutTask
  calls : List SubmitPayoutCall

inductive PayoutEvent
  | submit (operation : Operation) (now : Int)
  | claim (now : Int) (limit : Nat)
  | drive (n : Nat)
  | answer (n : Nat) (answer : Except Fault String)
  | report (n : Nat) (status : Except Fault PayoutProviderState)

namespace PayoutSystem

def start : PayoutSystem := ⟨World.empty, [], []⟩

/-- A task's work is taken over. -/
def put (s : PayoutSystem) (n : Nat) (work : PayoutWork) : PayoutSystem :=
  ⟨work.world, s.tasks.set n work.task, s.calls ++ work.calls⟩

def work (s : PayoutSystem) (n : Nat) (f : PayoutTask → World → PayoutWork) : PayoutSystem :=
  match s.tasks[n]? with
  | none => s
  | some task => s.put n (f task s.world)

variable (ports : Ports) (env : Env) (config : Config) (maxPayoutAttempts : Nat) (probes : Bool)

def step (s : PayoutSystem) : PayoutEvent → PayoutSystem
  | .submit operation now =>
    { s with world := (submit (registry ports) env config operation now s.world).2 }
  | .claim now limit => { s with tasks := s.tasks ++ (s.world.sagas.rows.claimDue now limit).map .claimed }
  | .drive n => s.work n (PayoutTask.drive env config maxPayoutAttempts probes)
  | .answer n answer => s.work n (PayoutTask.answer env config answer)
  | .report n status => s.work n fun task w => ⟨task.report status, [], w⟩

def run (events : List PayoutEvent) : PayoutSystem :=
  events.foldl (step ports env config maxPayoutAttempts probes) start

end PayoutSystem

/-- A submitted operation keeps off the reserve, unless it is a payout's own. -/
def PayoutEvent.SparesReserve (config : Config) (w : World) : PayoutEvent → Prop
  | .submit operation _ => operation.SparesReserve config w
  | _ => True

instance (config : Config) (w : World) : (event : PayoutEvent) → Decidable (event.SparesReserve config w)
  | .submit operation _ => inferInstanceAs (Decidable (operation.SparesReserve config w))
  | .claim _ _ => .isTrue trivial
  | .drive _ => .isTrue trivial
  | .answer _ _ => .isTrue trivial
  | .report _ _ => .isTrue trivial

/-- Every operation of a run does so in the store it finds. -/
def PayoutSystem.Spares (ports : Ports) (env : Env) (config : Config) (maxPayoutAttempts : Nat)
    (probes : Bool) (s : PayoutSystem) : List PayoutEvent → Prop
  | [] => True
  | event :: events => event.SparesReserve config s.world ∧
      Spares ports env config maxPayoutAttempts probes
        (s.step ports env config maxPayoutAttempts probes event) events

instance PayoutSystem.decidableSpares (ports : Ports) (env : Env) (config : Config)
    (maxPayoutAttempts : Nat) (probes : Bool) : (events : List PayoutEvent) → (s : PayoutSystem) →
      Decidable (s.Spares ports env config maxPayoutAttempts probes events)
  | [], _ => .isTrue trivial
  | event :: events, s =>
    have := decidableSpares ports env config maxPayoutAttempts probes events
      (s.step ports env config maxPayoutAttempts probes event)
    inferInstanceAs (Decidable (_ ∧ _))

/-! ## What a sweep's work moves -/

section Moves

variable {env : Env} {config : Config} {answered : String → Prop} {maxPayoutAttempts : Nat} {probes : Bool}
  {w : World} {saga : Saga}

variable {j : Journaled SagaTables}

theorem write_closed (h : j.undos = none) (rows : SagaTables)
    (undo : SagaTables → SagaTables) : (j.write rows undo).undos = none := by
  simp [Journaled.write, Journaled.record, h]

theorem bumpLast_closed (h : j.undos = none) (userId : String) (updatedAt : Int) :
    (SagaTables.bumpLast userId updatedAt j).undos = none := by
  simp only [SagaTables.bumpLast]
  split
  · exact h
  · exact write_closed h _ _

theorem advance_closed {id : String} {source target : SagaState} {patch : Saga → Saga}
    (h : j.undos = none) :
    ((SagaWrite.advance id source target patch).run j).undos = none := by
  simp only [SagaWrite.run]
  split
  · exact h
  · split
    · exact bumpLast_closed (write_closed h _ _) _ _
    · exact h

/-- A write of a payout's row outside a transaction. -/
theorem World.Settled.advanced (h : w.Settled) {id : String} {source target : SagaState}
    {patch : Saga → Saga} (ticks : Nat) :
    World.Settled { w with ticks, sagas := (SagaWrite.advance id source target patch).run w.sagas } :=
  ⟨{ h.closed with sagas := advance_closed h.closed.sagas }, ⟨h.sound.lots, h.sound.columns⟩⟩

theorem deadLetter_writesOnly (reason : String) :
    (deadLetter env config saga reason).WritesOnly [.sagas, .outbox] := by
  unfold deadLetter
  iterate 3 (apply Work.WritesOnly.step fun _ => ⟨Eq.refl _, Eq.refl _⟩); intro _
  apply Work.WritesOnly.bind (.advanceSaga _ _ _ _ (by simp))
  intro advanced
  cases advanced with
  | false => exact .pure
  | true =>
    apply Work.WritesOnly.mint
    intro _
    iterate 2 (apply Work.WritesOnly.step fun _ => ⟨Eq.refl _, Eq.refl _⟩); intro _
    apply Work.WritesOnly.bind (.emit _ _ (by simp))
    exact fun _ => .pure

/-- One step of a run: one move at most, between settled stores. -/
structure PayoutStep (env : Env) (config : Config) (answered : String → Prop) (w w' : World) : Prop where
  move : SagaMove env config answered w w'
  settled : w'.Settled
  minted : w.minted ≤ w'.minted
  sold : w.SoldOff config → w'.SoldOff config

theorem PayoutStep.stays (h : w.Settled) : PayoutStep env config answered w w :=
  ⟨.of_quiet (.of_same ⟨Eq.refl _, Eq.refl _, Eq.refl _⟩), h, Nat.le_refl _, id⟩

theorem PayoutStep.after_tick {w' : World} (n : Nat)
    (h : PayoutStep env config answered { w with ticks := w.ticks + n } w') :
    PayoutStep env config answered w w' := by
  obtain ⟨hmove, hsettled, hminted, hsold⟩ := h
  have htick : w.Quiet { w with ticks := w.ticks + n } := .of_same ⟨Eq.refl _, Eq.refl _, Eq.refl _⟩
  exact ⟨hmove.after_quiet htick, hsettled, hminted, fun h => hsold ⟨h.sold, h.parked⟩⟩

theorem setAside_steps (h : w.Settled) (hknows : w.sagas.rows.Knows saga)
    (hopen : saga.state.claimable = true) (reason : String) :
    PayoutStep env config answered w (setAside env config saga reason w).2 := by
  have hsettled : (transaction (deadLetter env config saga reason).txn w).2.Settled :=
    ⟨transaction_closed _ h.closed, transaction_sound _ h.closed h.sound⟩
  have hwrites : (deadLetter env config saga reason).WritesOnly [.sagas, .outbox] :=
    deadLetter_writesOnly reason
  have hspares := hwrites w.opened
  have hsame : (setAside env config saga reason w).2 =
      (transaction (deadLetter env config saga reason).txn w).2 := by
    unfold setAside
    split
    · rename_i hrun
      rw [hrun]
    · rename_i hrun
      rw [hrun]
    · rename_i hrun
      rw [hrun]
  rw [hsame]
  rcases transaction_cases (deadLetter env config saga reason).txn h.closed h.sound with
    ⟨done, w', hrun, htransaction⟩ | ⟨e, w', hrun, htransaction, htables⟩
  · rw [htransaction] at hsettled ⊢
    rw [hrun] at hspares
    have hbefore : w.Quiet w.opened := .of_tables (Eq.refl _) (Eq.refl _) (Nat.le_refl _)
    have hafter : w'.Quiet w'.commitAll := .of_tables (Eq.refl _) (Eq.refl _) (Nat.le_refl _)
    have hknows' : w.opened.sagas.rows.Knows saga := hknows
    have hsold : w.SoldOff config → w'.SoldOff config := by
      intro h
      have hopened : w.opened.SoldOff config := ⟨h.sold, h.parked⟩
      exact hopened.of_spares hspares (by decide) (by decide)
    exact ⟨((deadLetter_returns hknows' hopen hrun).before_quiet hafter).after_quiet hbefore, hsettled,
      hspares.minted, fun h => ⟨(hsold h).sold, (hsold h).parked⟩⟩
  · rw [htransaction] at hsettled ⊢
    rw [hrun] at hspares
    have hrows := World.Still.of_sameTables htables
    have hquiet : w.Quiet w'.rollbackAll :=
      .of_tables hrows.ledger (congrArg (fun r => r.sagas.rows) hrows.rows) hspares.minted
    exact ⟨.of_quiet hquiet, hsettled, hspares.minted, fun h =>
      h.of_rows (congrArg RowStores.sales hrows.rows)
      (congrArg (fun r => r.accruals.rows) hrows.rows)⟩

theorem bumpAttempt_steps (h : w.Settled) (hknows : w.sagas.rows.Knows saga)
    (hopen : saga.state.claimable = true) :
    PayoutStep env config answered w ((bumpAttempt env saga).run w).2 :=
  ⟨bumpAttempt_amends hknows hopen, h.advanced _, Nat.le_refl _, fun h => ⟨h.sold, h.parked⟩⟩

theorem recheckLater_steps (h : w.Settled) (hknows : w.sagas.rows.Knows saga) (updatedAt : Option Int) :
    PayoutStep env config answered w ((recheckLater env config saga updatedAt).run w).2 :=
  ⟨recheckLater_amends hknows updatedAt, h.advanced _, Nat.le_refl _, fun h => ⟨h.sold, h.parked⟩⟩

theorem recordSubmitted_steps (h : w.Settled) (hknows : w.sagas.rows.Knows saga)
    (hanswered : answered saga.id) (providerRef : String) :
    PayoutStep env config answered w ((recordSubmitted env config saga providerRef).run w).2 :=
  ⟨recordSubmitted_amends hknows hanswered providerRef, h.advanced _, Nat.le_refl _, fun h =>
    ⟨h.sold, h.parked⟩⟩

theorem World.Settled.ticked (h : w.Settled) (ticks : Nat) : World.Settled { w with ticks } :=
  ⟨{ h.closed with }, ⟨h.sound.lots, h.sound.columns⟩⟩

theorem checkSubmitted_steps (h : w.Settled) (hknows : w.sagas.rows.Knows saga)
    (hopen : saga.state.claimable = true) (verdict : Option PayoutProviderState) :
    PayoutStep env config answered w (checkSubmitted env config saga verdict w).2 := by
  unfold checkSubmitted
  split
  · exact setAside_steps h hknows hopen _
  · exact setAside_steps h hknows hopen _
  · exact recheckLater_steps h hknows none
  · have hticked := h.ticked (w.ticks + 1)
    simp only
    split
    · split
      · have hlater := h.ticked (w.ticks + 1 + 1 + 1)
        exact .after_tick 3 (recheckLater_steps hlater hknows _)
      · exact .after_tick 1 (recheckLater_steps hticked hknows none)
    · split
      · exact .after_tick 1 (setAside_steps hticked hknows hopen _)
      · exact .after_tick 1 (.stays hticked)

theorem retryOrSetAside_steps (h : w.Settled) (hknows : w.sagas.rows.Knows saga)
    (hopen : saga.state.claimable = true) (error : Fault) :
    PayoutStep env config answered w (retryOrSetAside env config maxPayoutAttempts saga error w).2 := by
  unfold retryOrSetAside
  simp only
  split
  · exact bumpAttempt_steps h hknows hopen
  · have haside : PayoutStep env config answered w
        (setAside env config saga (((normalizeError error).code.map ErrorCode.text).getD "") w).2 :=
      setAside_steps h hknows hopen _
    split
    · rename_i hrun
      rwa [hrun] at haside
    · rename_i hrun
      rwa [hrun] at haside

end Moves

/-! ## Runs -/

namespace PayoutSystem

/-- A disbursement was asked for under this id. -/
def Called (s : PayoutSystem) (id : String) : Prop := ∃ call ∈ s.calls, call.key = id

def row (s : PayoutSystem) (id : String) : Option Saga := s.world.sagas.rows.rows.get id

structure TaskSound (s : PayoutSystem) (task : PayoutTask) : Prop where
  knows : ∀ saga, task.saga = some saga → s.world.sagas.rows.Knows saga ∧ saga.state.claimable = true
  called : ∀ saga, task = .submitting saga → s.Called saga.id

/-- The call is for the payout that its key names, and for its quote. -/
def Quotes (s : PayoutSystem) (call : SubmitPayoutCall) : Prop :=
  ∃ row, s.row call.key = some row ∧ row.userId = call.userId ∧ row.payoutUsd = some call.amount

structure Sound (env : Env) (config : Config) (s : PayoutSystem) : Prop where
  settled : s.world.Settled
  kept : s.world.ReservesKept env config
  sold : s.world.SoldOff config
  tasks : ∀ task ∈ s.tasks, s.TaskSound task
  calls : ∀ call ∈ s.calls, s.Quotes call
  sent : ∀ id row, s.row id = some row → row.state.sent = true → s.Called id

theorem start_sound (env : Env) (config : Config) : start.Sound env config where
  settled := ⟨World.empty_closed, World.empty_sound⟩
  kept := by
    refine ⟨?_, List.nodup_nil, ?_, ?_⟩
    · intro id saga hget
      cases hget
    · intro id saga hget
      cases hget
    · apply List.sum_eq_zero
      intro x hx
      obtain ⟨a, -, rfl⟩ := List.mem_map.mp hx
      exact Eq.refl _
  sold := by
    constructor
    · intro orderId sale hget
      cases hget
    · intro key row hget
      cases hget
  tasks := by
    intro task htask
    cases htask
  calls := by
    intro call hcall
    cases hcall
  sent := by
    intro id row hget
    cases hget

section Step

variable {ports : Ports} {env : Env} {config : Config} {maxPayoutAttempts : Nat} {probes : Bool}
  {s : PayoutSystem}

theorem Sound.moved (hids : Function.Injective env.uuid) (h : s.Sound env config) {s' : PayoutSystem}
    (hstep : PayoutStep env config s.Called s.world s'.world) (hcalls : ∀ call ∈ s.calls, call ∈ s'.calls)
    (hquotes : ∀ call ∈ s'.calls, call ∈ s.calls ∨ s.Quotes call)
    (htasks : ∀ task ∈ s'.tasks, task ∈ s.tasks ∨
      (∀ saga, task.saga = some saga → s.world.sagas.rows.Knows saga ∧ saga.state.claimable = true) ∧
        ∀ saga, task = .submitting saga → s'.Called saga.id) : s'.Sound env config := by
  have hrow : ∀ {id row}, s.row id = some row → ∃ row', s'.row id = some row' ∧
    row.Becomes (s.Called id) row' :=
    fun hget => hstep.move.row hids h.kept hget
  have hcalled : ∀ id, s.Called id → s'.Called id := by
    rintro id ⟨call, hcall, hkey⟩
    exact ⟨call, hcalls call hcall, hkey⟩
  have hknows : ∀ saga, s.world.sagas.rows.Knows saga → s'.world.sagas.rows.Knows saga := by
    rintro saga ⟨row, hget, hsame⟩
    obtain ⟨row', hget', hbecomes⟩ := hrow hget
    exact ⟨row', hget', hsame.trans hbecomes.same⟩
  refine ⟨hstep.settled, hstep.move.reservesKept hids h.kept hstep.minted, hstep.sold h.sold, ?_, ?_, ?_⟩
  · intro task htask
    rcases htasks task htask with hold | ⟨hnew, hasked⟩
    · obtain ⟨hsound, hsubmitting⟩ := h.tasks task hold
      exact ⟨fun saga hsaga => ⟨hknows saga (hsound saga hsaga).1, (hsound saga hsaga).2⟩,
        fun saga hsaga => hcalled _ (hsubmitting saga hsaga)⟩
    · exact ⟨fun saga hsaga => ⟨hknows saga (hnew saga hsaga).1, (hnew saga hsaga).2⟩, hasked⟩
  · intro call hcall
    have hquoted : s.Quotes call := by
      rcases hquotes call hcall with hold | hnew
      · exact h.calls call hold
      · exact hnew
    obtain ⟨row, hget, huser, husd⟩ := hquoted
    obtain ⟨row', hget', hbecomes⟩ := hrow hget
    exact ⟨row', hget', hbecomes.same.userId.trans huser, hbecomes.same.payoutUsd.trans husd⟩
  · intro id row' hget' hsent
    cases hget : s.row id with
    | none =>
      have hnew := hstep.move.newRow hget hget'
      rw [hnew] at hsent
      cases hsent
    | some row =>
      obtain ⟨row'', hget'', hbecomes⟩ := hrow hget
      obtain rfl : row'' = row' := Option.some.inj (hget''.symm.trans hget')
      rcases hbecomes.sent hsent with hwas | hanswered
      · exact hcalled id (h.sent id row hget hwas)
      · exact hcalled id hanswered

structure WorkSound (env : Env) (config : Config) (s : PayoutSystem) (work : PayoutWork) : Prop where
  step : PayoutStep env config s.Called s.world work.world
  quotes : ∀ call ∈ work.calls, s.Quotes call
  knows : ∀ saga, work.task.saga = some saga → s.world.sagas.rows.Knows saga ∧ saga.state.claimable = true
  called : ∀ saga, work.task = .submitting saga → ∃ call ∈ s.calls ++ work.calls, call.key = saga.id

theorem Sound.put (hids : Function.Injective env.uuid) (h : s.Sound env config) {n : Nat}
    {work : PayoutWork} (hwork : s.WorkSound env config work) : (s.put n work).Sound env config := by
  have hstep : PayoutStep env config s.Called s.world (s.put n work).world := hwork.step
  apply h.moved hids hstep
  · exact fun call hcall => List.mem_append_left _ hcall
  · intro call hcall
    rcases List.mem_append.mp hcall with hold | hnew
    · exact Or.inl hold
    · exact Or.inr (hwork.quotes call hnew)
  · intro task htask
    rcases List.mem_or_eq_of_mem_set htask with hold | rfl
    · exact Or.inl hold
    · exact Or.inr ⟨hwork.knows, hwork.called⟩

variable {task : PayoutTask}

theorem silent_sound {w : World} (hstep : PayoutStep env config s.Called s.world w)
    (hknows : ∀ saga, task.saga = some saga → s.world.sagas.rows.Knows saga ∧ saga.state.claimable = true)
    (hcalled : ∀ saga, task = .submitting saga → s.Called saga.id) :
    s.WorkSound env config ⟨task, [], w⟩ := by
  refine ⟨hstep, ?_, hknows, ?_⟩
  · intro call hcall
    cases hcall
  · intro saga hsaga
    obtain ⟨call, hcall, hkey⟩ := hcalled saga hsaga
    exact ⟨call, List.mem_append_left _ hcall, hkey⟩

theorem done_sound {outcome : PayoutOutcome} {w : World}
    (hstep : PayoutStep env config s.Called s.world w) :
    s.WorkSound env config ⟨.done outcome, [], w⟩ := by
  apply silent_sound hstep
  · intro saga hsaga
    cases hsaga
  · intro saga hsaga
    cases hsaga

theorem same_sound {saga : Saga} {w : World}
    (hstep : PayoutStep env config s.Called s.world w) (hknows : s.world.sagas.rows.Knows saga)
    (hopen : saga.state.claimable = true) (hsaga : task.saga = some saga)
    (hcalled : ∀ saga', task = .submitting saga' → s.Called saga'.id) :
    s.WorkSound env config ⟨task, [], w⟩ := by
  apply silent_sound hstep _ hcalled
  intro saga' hsaga'
  obtain rfl : saga = saga' := Option.some.inj (hsaga.symm.trans hsaga')
  exact ⟨hknows, hopen⟩

theorem ask_sound (h : s.Sound env config) {saga : Saga} (hknows : s.world.sagas.rows.Knows saga)
    (hopen : saga.state.claimable = true) :
    s.WorkSound env config (PayoutTask.ask env probes saga s.world) := by
  have hstays : PayoutStep env config s.Called s.world s.world := .stays h.settled
  unfold PayoutTask.ask
  split
  · apply same_sound hstays hknows hopen (Eq.refl _)
    intro saga' hsaga'
    cases hsaga'
  · rename_i call hasked
    unfold askFirst at hasked
    split at hasked
    · obtain ⟨usd, hanchored, hasked⟩ := except_bind_ok.mp hasked
      cases hasked
      obtain ⟨row, hget, hrow⟩ := hknows
      refine ⟨hstays, ?_, ?_, ?_⟩
      · intro call hcall
        obtain rfl := List.mem_singleton.mp hcall
        exact ⟨row, hget, hrow.userId, hrow.payoutUsd.trans (assertSagaAnchored_quote hanchored)⟩
      · rintro saga' ⟨⟩
        exact ⟨⟨row, hget, hrow⟩, hopen⟩
      · rintro saga' ⟨⟩
        exact ⟨_, List.mem_append_right _ (List.mem_singleton_self _), Eq.refl _⟩
    · split at hasked
      · cases hasked
      · cases hasked
    · cases hasked
  · apply same_sound hstays hknows hopen (Eq.refl _)
    intro saga' hsaga'
    cases hsaga'
  · split
    · apply same_sound hstays hknows hopen (Eq.refl _)
      intro saga' hsaga'
      cases hsaga'
    · exact done_sound hstays

theorem drive_sound (h : s.Sound env config) (htask : task ∈ s.tasks) :
    s.WorkSound env config (task.drive env config maxPayoutAttempts probes s.world) := by
  obtain ⟨hknows, hcalled⟩ := h.tasks task htask
  have hidle : s.WorkSound env config ⟨task, [], s.world⟩ := silent_sound (.stays h.settled) hknows hcalled
  cases task with
  | claimed saga => exact ask_sound h (hknows saga (Eq.refl _)).1 (hknows saga (Eq.refl _)).2
  | submitting saga => exact hidle
  | probing saga => exact hidle
  | heard saga verdict =>
    obtain ⟨hsaga, hopen⟩ := hknows saga (Eq.refl _)
    have hstep : PayoutStep env config s.Called s.world
      (checkSubmitted env config saga verdict s.world).2 :=
      checkSubmitted_steps h.settled hsaga hopen verdict
    unfold PayoutTask.drive
    simp only
    split
    · rename_i hrun
      rw [hrun] at hstep
      exact done_sound hstep
    · rename_i hrun
      rw [hrun] at hstep
      apply same_sound hstep hsaga hopen (Eq.refl _)
      intro saga' hsaga'
      cases hsaga'
  | threw saga error =>
    obtain ⟨hsaga, hopen⟩ := hknows saga (Eq.refl _)
    exact done_sound (retryOrSetAside_steps h.settled hsaga hopen error)
  | done outcome => exact hidle

theorem answer_sound (h : s.Sound env config) (htask : task ∈ s.tasks)
    (answer : Except Fault String) : s.WorkSound env config (task.answer env config answer s.world) := by
  obtain ⟨hknows, hcalled⟩ := h.tasks task htask
  have hidle : s.WorkSound env config ⟨task, [], s.world⟩ := silent_sound (.stays h.settled) hknows hcalled
  cases task with
  | submitting saga =>
    obtain ⟨hsaga, hopen⟩ := hknows saga (Eq.refl _)
    cases answer with
    | ok providerRef =>
      exact done_sound (recordSubmitted_steps h.settled hsaga (hcalled saga (Eq.refl _)) providerRef)
    | error e =>
      apply same_sound (.stays h.settled) hsaga hopen (Eq.refl _)
      intro saga' hsaga'
      cases hsaga'
  | claimed saga => exact hidle
  | probing saga => exact hidle
  | heard saga verdict => exact hidle
  | threw saga error => exact hidle
  | done outcome => exact hidle

theorem report_sound (h : s.Sound env config) (htask : task ∈ s.tasks)
    (status : Except Fault PayoutProviderState) :
    s.WorkSound env config ⟨task.report status, [], s.world⟩ := by
  obtain ⟨hknows, hcalled⟩ := h.tasks task htask
  have hidle : s.WorkSound env config ⟨task, [], s.world⟩ := silent_sound (.stays h.settled) hknows hcalled
  cases task with
  | probing saga =>
    obtain ⟨hsaga, hopen⟩ := hknows saga (Eq.refl _)
    apply same_sound (.stays h.settled) hsaga hopen (Eq.refl _)
    intro saga' hsaga'
    cases hsaga'
  | claimed saga => exact hidle
  | submitting saga => exact hidle
  | heard saga verdict => exact hidle
  | threw saga error => exact hidle
  | done outcome => exact hidle

theorem work_sound (hids : Function.Injective env.uuid) (h : s.Sound env config) {n : Nat}
    {f : PayoutTask → World → PayoutWork}
    (hf : ∀ task ∈ s.tasks, s.WorkSound env config (f task s.world)) :
    (s.work n f).Sound env config ∧ PayoutStep env config s.Called s.world (s.work n f).world := by
  unfold work
  cases htask : s.tasks[n]? with
  | none => exact ⟨h, .stays h.settled⟩
  | some task =>
    have hwork := hf task (List.mem_of_getElem? htask)
    exact ⟨h.put hids hwork, hwork.step⟩

/-- Each step of the system is one step of its store, and keeps it sound. -/
theorem step_sound (hids : Function.Injective env.uuid) (h : s.Sound env config) (event : PayoutEvent)
    (hspares : event.SparesReserve config s.world) :
    (s.step ports env config maxPayoutAttempts probes event).Sound env config ∧
      PayoutStep env config s.Called s.world
        (s.step ports env config maxPayoutAttempts probes event).world := by
  cases event with
  | submit operation now =>
    have hstep : PayoutStep env config s.Called s.world
        (submit (registry ports) env config operation now s.world).2 := by
      obtain ⟨hmove, hsold⟩ := submit_moves h.settled hspares h.kept.keyed h.sold
      exact ⟨hmove, (submit_keepsGrants ports env config operation now h.settled).1,
        submit_minted h.settled,
        fun _ => hsold⟩
    refine ⟨?_, hstep⟩
    exact h.moved hids hstep (fun call hcall => hcall) (fun call hcall => Or.inl hcall) fun task htask =>
      Or.inl htask
  | claim now limit =>
    refine ⟨?_, .stays h.settled⟩
    refine h.moved hids ?_ (fun call hcall => hcall) (fun call hcall => Or.inl hcall) ?_
    · exact .stays h.settled
    intro task htask
    rcases List.mem_append.mp htask with hold | hnew
    · exact Or.inl hold
    · obtain ⟨saga, hsaga, rfl⟩ := List.mem_map.mp hnew
      obtain ⟨hrow, hdue⟩ := List.mem_filter.mp (List.mem_of_mem_take hsaga)
      obtain ⟨entry, hentry, rfl⟩ := List.mem_map.mp hrow
      have hget := (OrderedTable.get_eq_some h.kept.distinct).mpr hentry
      have hopen : entry.2.state.claimable = true := (Bool.and_eq_true_iff.mp hdue).2
      right
      constructor
      · rintro saga' ⟨⟩
        exact ⟨h.kept.keyed.knows hget, hopen⟩
      · intro saga' hsaga'
        cases hsaga'
  | drive n => exact work_sound hids h fun task htask => drive_sound h htask
  | answer n answer => exact work_sound hids h fun task htask => answer_sound h htask answer
  | report n status => exact work_sound hids h fun task htask => report_sound h htask status

end Step

/-! ## What every run keeps -/

section Runs

variable (ports : Ports) {env : Env} (config : Config) (maxPayoutAttempts : Nat) (probes : Bool)

variable {events : List PayoutEvent} {s : PayoutSystem}

theorem spares_append {events more : List PayoutEvent} :
    s.Spares ports env config maxPayoutAttempts probes (events ++ more) ↔
      s.Spares ports env config maxPayoutAttempts probes events ∧
        (events.foldl (step ports env config maxPayoutAttempts probes) s).Spares ports env config
          maxPayoutAttempts
          probes more := by
  induction events generalizing s with
  | nil => exact ⟨fun h => ⟨trivial, h⟩, And.right⟩
  | cons event events ih =>
    simp only [List.cons_append, Spares, List.foldl_cons, ih]
    exact and_assoc.symm

theorem steps_sound (hids : Function.Injective env.uuid)
    (h : s.Sound env config) (hspares : s.Spares ports env config maxPayoutAttempts probes events) :
    (events.foldl (step ports env config maxPayoutAttempts probes) s).Sound env config := by
  induction events generalizing s with
  | nil => exact h
  | cons event events ih => exact ih (step_sound hids h event hspares.1).1 hspares.2

theorem run_sound (hids : Function.Injective env.uuid)
    (hspares : start.Spares ports env config maxPayoutAttempts probes events) :
    (run ports env config maxPayoutAttempts probes events).Sound env config :=
  steps_sound ports config maxPayoutAttempts probes hids (start_sound env config) hspares

theorem run_append (events more : List PayoutEvent) :
    run ports env config maxPayoutAttempts probes (events ++ more) =
      more.foldl (step ports env config maxPayoutAttempts probes)
        (run ports env config maxPayoutAttempts probes events) := List.foldl_append

/-- Later steps leave a payout its claim, and a closed one its row. -/
theorem steps_row (hids : Function.Injective env.uuid)
    (h : s.Sound env config) (hspares : s.Spares ports env config maxPayoutAttempts probes events)
    {id : String} {row : Saga} (hget : s.row id = some row) :
    ∃ row', (events.foldl (step ports env config maxPayoutAttempts probes) s).row id = some row' ∧
      row.SameClaim row' ∧ (row.state.claimable = false → row' = row) := by
  induction events generalizing s row with
  | nil => exact ⟨row, hget, .refl row, fun _ => Eq.refl _⟩
  | cons event events ih =>
    obtain ⟨hnext, hstep⟩ := step_sound hids h event hspares.1
    obtain ⟨middle, hmiddle, hbecomes⟩ := hstep.move.row hids h.kept hget
    obtain ⟨row', hget', hsame, hclosed⟩ := ih hnext hspares.2 hmiddle
    refine ⟨row', hget', hbecomes.same.trans hsame, ?_⟩
    intro hstate
    obtain rfl := hbecomes.closed hstate
    exact hclosed hstate

end Runs

end PayoutSystem

open PayoutSystem

/-- Whatever interleaves with whatever, the shards of the reserve hold what the open payouts set aside. -/
theorem reserve_holds_open_payouts (ports : Ports) (config : Config) (maxPayoutAttempts : Nat)
    (probes : Bool) {env : Env} (hids : Function.Injective env.uuid) {events : List PayoutEvent}
    (hspares : start.Spares ports env config maxPayoutAttempts probes events) :
    reserveHeld config (run ports env config maxPayoutAttempts probes events).world =
      keptReserves (run ports env config maxPayoutAttempts probes events).world.sagas.rows :=
  (run_sound ports config maxPayoutAttempts probes hids hspares).kept.kept

def requestTwo (key : String) : Operation :=
  .requestPayout ⟨key, .user "s", "s", ⟨.credit, 200, .two_hundred⟩⟩

/-- One payout settles, one is returned after the sweep gave it up, and one is still open. -/
def payoutEvents : List PayoutEvent :=
  [.submit (.adjust ⟨"k0", .operator "op", earned "s", ⟨.credit, 1000, .thousand⟩, "opening balance"⟩) 0,
    .submit (requestTwo "k1") 0, .submit (requestTwo "k2") 0, .submit (requestTwo "k3") 0,
      .claim 0 2, .drive 0,
    .drive 1, .answer 1 (.error (fault .malformedOperation "no such account")),
      .answer 0 (.ok "ref"), .drive 1,
    .submit (.settlePayout ⟨"k4", .system "w", "pay_1", "ref", none⟩) 0]

theorem tickEnv_uuid_injective : Function.Injective tickEnv.uuid := fun _ _ h => toString_nat_inj h

theorem payoutEvents_spares : start.Spares parPorts tickEnv twoShards 3 false payoutEvents :=
  by decide +kernel

theorem reserve_holds_open_payouts_run :
    start.Spares parPorts tickEnv twoShards 3 false payoutEvents ∧
    reserveHeld twoShards (run parPorts tickEnv twoShards 3 false payoutEvents).world = 200 ∧
    reserveHeld twoShards (run parPorts tickEnv twoShards 3 false payoutEvents).world =
      keptReserves (run parPorts tickEnv twoShards 3 false payoutEvents).world.sagas.rows :=
  ⟨payoutEvents_spares, by decide +kernel,
    reserve_holds_open_payouts parPorts twoShards 3 false tickEnv_uuid_injective payoutEvents_spares⟩

/-- Every step of a run opens one payout, takes one forward, settles one or returns one's reserve, by the
entries these name, or leaves all of them. And what was once closed is left for good. -/
theorem reserve_leaves_once (ports : Ports) (config : Config) (maxPayoutAttempts : Nat) (probes : Bool)
    {env : Env} (hids : Function.Injective env.uuid) {events : List PayoutEvent}
    (hspares : start.Spares ports env config maxPayoutAttempts probes events) :
    (∀ pre event post, events = pre ++ event :: post →
      SagaMove env config (run ports env config maxPayoutAttempts probes pre).Called
        (run ports env config maxPayoutAttempts probes pre).world
        (run ports env config maxPayoutAttempts probes (pre ++ [event])).world) ∧
    ∀ pre post, events = pre ++ post → ∀ id row,
      (run ports env config maxPayoutAttempts probes pre).row id = some row →
      ∃ row', (run ports env config maxPayoutAttempts probes events).row id = some row' ∧
        row.SameClaim row' ∧
        (row.state.claimable = false → row' = row) := by
  constructor
  · rintro pre event post rfl
    obtain ⟨hpre, hpost⟩ := (spares_append ports config maxPayoutAttempts probes).mp hspares
    have hbefore := run_sound ports config maxPayoutAttempts probes hids hpre
    rw [run_append]
    exact (step_sound hids hbefore event hpost.1).2.move
  · rintro pre post rfl id row hget
    obtain ⟨hpre, hpost⟩ := (spares_append ports config maxPayoutAttempts probes).mp hspares
    have hbefore := run_sound ports config maxPayoutAttempts probes hids hpre
    rw [run_append]
    exact steps_row ports config maxPayoutAttempts probes hids hbefore hpost hget

/-- The settlement is one move, and the payout that was returned before it is left for good. -/
theorem reserve_leaves_once_run :
    ((run parPorts tickEnv twoShards 3 false (payoutEvents.take 10)).row "pay_5").any (·.state = .failed) =
      true ∧
    SagaMove tickEnv twoShards (run parPorts tickEnv twoShards 3 false (payoutEvents.take 10)).Called
      (run parPorts tickEnv twoShards 3 false (payoutEvents.take 10)).world
      (run parPorts tickEnv twoShards 3 false (payoutEvents.take 10 ++
        [.submit (.settlePayout ⟨"k4", .system "w", "pay_1", "ref", none⟩) 0])).world ∧
    ∀ row, (run parPorts tickEnv twoShards 3 false (payoutEvents.take 10)).row "pay_5" = some row →
      ∃ row', (run parPorts tickEnv twoShards 3 false payoutEvents).row "pay_5" = some row' ∧
        row.SameClaim row' ∧
        (row.state.claimable = false → row' = row) :=
  ⟨by decide +kernel,
    (reserve_leaves_once parPorts twoShards 3 false tickEnv_uuid_injective payoutEvents_spares).1
      _ _ [] (Eq.refl _),
    (reserve_leaves_once parPorts twoShards 3 false tickEnv_uuid_injective payoutEvents_spares).2
      (payoutEvents.take 10) (payoutEvents.drop 10) (Eq.refl _) "pay_5"⟩

/-- A processor that is called again for a payout is called as before; and no payout counts as submitted,
and none settles, for which it was not called with the seller and the quote of the payout. -/
theorem disbursements_repeat (ports : Ports) (config : Config) (maxPayoutAttempts : Nat) (probes : Bool)
    {env : Env} (hids : Function.Injective env.uuid) {events : List PayoutEvent}
    (hspares : start.Spares ports env config maxPayoutAttempts probes events) :
    (∀ call ∈ (run ports env config maxPayoutAttempts probes events).calls,
      ∀ call' ∈ (run ports env config maxPayoutAttempts probes events).calls, call.key = call'.key →
        call = call') ∧
    ∀ id row, (run ports env config maxPayoutAttempts probes events).row id = some row →
      row.state.sent = true →
      ∃ call ∈ (run ports env config maxPayoutAttempts probes events).calls,
        call.key = id ∧ call.userId = row.userId ∧ row.payoutUsd = some call.amount := by
  have hsound := run_sound ports config maxPayoutAttempts probes hids hspares
  constructor
  · intro call hcall call' hcall' hkey
    obtain ⟨row, hget, huser, husd⟩ := hsound.calls call hcall
    obtain ⟨row', hget', huser', husd'⟩ := hsound.calls call' hcall'
    rw [hkey, hget'] at hget
    obtain rfl := Option.some.inj hget
    obtain ⟨key, userId, amount⟩ := call
    obtain ⟨key', userId', amount'⟩ := call'
    obtain rfl : key = key' := hkey
    obtain rfl : userId = userId' := huser.symm.trans huser'
    obtain rfl : amount = amount' := Option.some.inj (husd.symm.trans husd')
    exact Eq.refl _
  · intro id row hget hsent
    obtain ⟨call, hcall, hkey⟩ := hsound.sent id row hget hsent
    obtain ⟨row', hget', huser, husd⟩ := hsound.calls call hcall
    rw [hkey, hget] at hget'
    obtain rfl := Option.some.inj hget'
    exact ⟨call, hcall, hkey, huser.symm, husd⟩

/-- The processor was called for two payouts, and the settled one is among them. -/
theorem disbursements_repeat_run :
    (run parPorts tickEnv twoShards 3 false payoutEvents).calls.map (·.key) = ["pay_1", "pay_5"] ∧
    ((run parPorts tickEnv twoShards 3 false payoutEvents).row "pay_1").any (·.state.sent) = true ∧
    (∀ call ∈ (run parPorts tickEnv twoShards 3 false payoutEvents).calls,
      ∀ call' ∈ (run parPorts tickEnv twoShards 3 false payoutEvents).calls, call.key = call'.key →
        call = call') ∧
    ∀ id row, (run parPorts tickEnv twoShards 3 false payoutEvents).row id = some row →
      row.state.sent = true →
      ∃ call ∈ (run parPorts tickEnv twoShards 3 false payoutEvents).calls,
        call.key = id ∧ call.userId = row.userId ∧ row.payoutUsd = some call.amount :=
  ⟨by decide +kernel, by decide +kernel,
    disbursements_repeat parPorts twoShards 3 false tickEnv_uuid_injective payoutEvents_spares⟩

end EconomyLab
