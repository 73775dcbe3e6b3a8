import EconomyLab.Worker.Deliveries

/-!
# Catching up after a crash

A drain may stop after a submit committed and before its row was marked. The next drain that claims the row
is answered with the transaction that is there, and marks it: no pause stops the operation of an event.
-/

namespace EconomyLab

open Foundation Mailbox

namespace Inbox

theorem write_elsewhere (outcome : ApplyOutcome) (entry : InboxMessage Operation)
    (j : Journaled (InboxRows Operation)) {k : String} (hk : k ≠ entry.id) :
    ((outcome.write entry).run j).rows.look k = j.rows.look k := by
  cases outcome with
  | applied =>
    simp only [ApplyOutcome.write, InboxWrite.run, InboxRows.markApplied]
    split
    · rfl
    · rename_i obj hp
      rw [look_edited (InboxWrite.pending_eq hp).1, if_neg hk]
  | failed e =>
    simp only [ApplyOutcome.write, InboxWrite.run, InboxRows.bumpAttempt]
    split
    · rfl
    · rename_i obj hp
      rw [look_edited (InboxWrite.pending_eq hp).1, if_neg hk]
  | deadLettered reason =>
    simp only [ApplyOutcome.write, InboxWrite.run, InboxRows.deadLetter]
    split
    · rfl
    · rw [look_replaced, if_neg hk]

variable {id : String} {env : Env} {m : InboxMessage Operation} {s : Inbox}

theorem look_not_pending {t : InboxRows Operation} (h : InboxRows.pending t id = none)
    (hm : t.look id = some m) : m.status ≠ .pending := by
  unfold Mailbox.look Shelf.look at hm
  obtain ⟨obj, hobj, rfl⟩ := Option.map_eq_some_iff.mp hm
  unfold InboxRows.pending find at h
  rw [hobj] at h
  simpa using h

/-- A row that waits, or was marked before, is applied after its mark. -/
theorem markApplied_applies {j : Journaled (InboxRows Operation)} (hm : j.rows.look id = some m)
    (hstatus : m.status = .pending ∨ m.status = .applied) :
    ∃ m', (InboxRows.markApplied id j).rows.look id = some m' ∧ m'.status = .applied := by
  unfold InboxRows.markApplied
  cases hp : InboxRows.pending j.rows id with
  | none =>
    rcases hstatus with hstatus | hstatus
    · exact absurd hstatus (look_not_pending hp hm)
    · exact ⟨m, hm, hstatus⟩
  | some obj =>
    refine ⟨{ obj.value with status := .applied }, ?_, rfl⟩
    simp only
    rw [look_edited (InboxWrite.pending_eq hp).1, if_pos rfl]

section Drain

variable (ports : Ports) (env : Env) (config : Config)

/-- One entry whose operation committed before: it is answered with its transaction, and its row is marked.
-/
theorem applyOne_repeats {now : Int} {s : InboxSummary × World × InboxRows Operation}
    {entry : InboxMessage Operation} {transaction : Transaction} (h : s.2.1.Settled)
    (hcommitted : s.2.1.idempotency.rows.committed.get entry.operation.idempotencyKey = some transaction)
    (hscreen : screenOperation (registry ports) config entry.operation now = .ok none) :
    (applyOne ports env config now s entry).2.2 = (InboxRows.markApplied entry.id ⟨s.2.2, none⟩).rows := by
  have hslot : (submit (registry ports) env config entry.operation now s.2.1).1 =
    .ok (.duplicate transaction) :=
    submit_repeats h hcommitted hscreen
  simp only [applyOne, hslot]
  rfl

/-- By the end of the entries the row is applied, if it is claimed among them or was applied before. -/
theorem applyAll_applies (gate : Nat → Int) (entries : List (InboxMessage Operation)) (k : Nat)
    (s : InboxSummary × World × InboxRows Operation) {operation : Operation} {transaction : Transaction}
    (h : s.2.1.Settled) (hkey : isReversalKey operation.idempotencyKey = false)
    (hcommitted : s.2.1.idempotency.rows.committed.get operation.idempotencyKey = some transaction)
    (hscreen : ∀ n, screenOperation (registry ports) config operation (gate n) = .ok none)
    (hentries : ∀ entry ∈ entries, entry.id = id → entry.operation = operation)
    (hm : s.2.2.look id = some m)
    (hstatus : m.status = .pending ∧ id ∈ entries.map InboxMessage.id ∨ m.status = .applied) :
    ∃ m', ((entries.zipIdx k).foldl (fun s p => applyOne ports env config (gate p.2) s p.1) s).2.2.look
      id =
      some m' ∧ m'.status = .applied := by
  induction entries generalizing k s m with
  | nil =>
    rcases hstatus with ⟨-, hclaimed⟩ | hstatus
    · cases hclaimed
    · exact ⟨m, hm, hstatus⟩
  | cons entry entries ih =>
    rw [List.zipIdx_cons, List.foldl_cons]
    have hsettled : (applyOne ports env config (gate k) s entry).2.1.Settled :=
      (submit_keepsGrants ports env config entry.operation (gate k) h).1
    have hkept : (applyOne ports env config (gate k) s entry).2.1.idempotency.rows.committed.get
        operation.idempotencyKey = some transaction := submit_keepsKey h hkey hcommitted
    have hrest : ∀ entry ∈ entries, entry.id = id → entry.operation = operation :=
      fun other hother => hentries other (List.mem_cons_of_mem _ hother)
    by_cases hid : entry.id = id
    · have hoperation := hentries entry List.mem_cons_self hid
      have hmark : (applyOne ports env config (gate k) s entry).2.2 =
          (InboxRows.markApplied entry.id ⟨s.2.2, none⟩).rows := by
        apply applyOne_repeats ports env config h
        · rw [hoperation]
          exact hcommitted
        · rw [hoperation]
          exact hscreen k
      have hwaits : m.status = .pending ∨ m.status = .applied := hstatus.imp_left And.left
      rw [← hid] at hm
      obtain ⟨m', hm', happlied⟩ :=
        markApplied_applies (show (⟨s.2.2, none⟩ : Journaled _).rows.look entry.id = some m from hm) hwaits
      rw [← hmark, hid] at hm'
      exact ih (k + 1) _ hsettled hkept hrest hm' (Or.inr happlied)
    · have hsame : (applyOne ports env config (gate k) s entry).2.2.look id = some m := by
        simp only [applyOne]
        rw [write_elsewhere _ _ _ (Ne.symm hid)]
        exact hm
      apply ih (k + 1) _ hsettled hkept hrest hsame
      apply hstatus.imp_left
      rintro ⟨hpending, hclaimed⟩
      refine ⟨hpending, ?_⟩
      rcases List.mem_cons.mp hclaimed with heq | hclaimed
      · exact absurd heq.symm hid
      · exact hclaimed

end Drain

/-- Every operation that committed passed the checks that look at the operation alone. -/
def Screened (ports : Ports) (config : Config) (s : Inbox) : Prop :=
  ∀ operation transaction, (operation, .ok (.committed transaction)) ∈ s.submitted →
    (registry ports).validateOperation config operation = .ok () ∧ (registry ports).authorize operation =
      .ok ()

variable {ports : Ports} {config : Config}

theorem answer_screened (h : Screened ports config s) (operation : Operation) (now : Int) :
    Screened ports config (answer ports env config operation now s).2 := by
  intro other transaction hmem
  rcases List.mem_append.mp hmem with hmem | hmem
  · exact h other transaction hmem
  · obtain ⟨rfl, hslot⟩ := Prod.mk.inj (List.mem_singleton.mp hmem)
    have hfrom := submit_committed (registry_orderly ports) (eq_of_slot hslot.symm)
    exact ⟨hfrom.valid, hfrom.authorized⟩

theorem step_screened (h : Screened ports config s) (event : InboxEvent) :
    Screened ports config (step ports env config s event) := by
  cases event with
  | deliver event => exact h
  | submit operation now => exact answer_screened h operation now
  | claim limit => exact h
  | attempt n now =>
    simp only [step]
    cases s.claimed[n]? with
    | none => exact h
    | some entry => exact answer_screened h entry.operation now
  | settle n =>
    simp only [step]
    cases s.answered[n]? with
    | none => exact h
    | some p => exact h
  | revive limit => exact h

theorem run_screened (h : Screened ports config s) (events : List InboxEvent) :
    Screened ports config (run ports env config events s) := by
  induction events generalizing s with
  | nil => exact h
  | cons event events ih => exact ih (step_screened h event)

/-- The pause gate stops users only, and events act for the system. -/
theorem screenOperation_event {event : WebhookEvent}
    (hvalid : (registry ports).validateOperation config (toOperation event) = .ok ())
    (hauthorized : (registry ports).authorize (toOperation event) = .ok ()) (now : Int) :
    screenOperation (registry ports) config (toOperation event) now = .ok none := by
  have hactor : ((registry ports).actor (toOperation event)).isUser = false := by
    cases event <;> rfl
  unfold screenOperation
  rw [hvalid, hauthorized]
  simp only [hactor, Bool.false_and]
  rfl

/-- After any run, however its drains were cut short: a drain that runs to its end and claims the row of an
event whose key has committed leaves the row applied, for the same event. -/
theorem drain_catches_up (ports : Ports) (config : Config) {env : Env} (hids : Function.Injective env.uuid)
    {w : World} (h : w.Settled) (hfree : ∀ key, w.idempotency.rows.committed.get
      (webhookIdempotencyKey key) = none)
    (events : List InboxEvent)
    (hcallers : ∀ operation now, .submit operation now ∈ events →
      ∀ key, operation.idempotencyKey ≠ webhookIdempotencyKey key)
    (limit : Nat) (gate : Nat → Int) {id : String} {m : InboxMessage Operation}
    (hm : (run ports env config events (start w)).look id = some m) (hpending : m.status = .pending)
    (hcommitted : ((run ports env config events (start w)).world.idempotency.rows.committed.get
      (webhookIdempotencyKey m.key)).isSome)
    (hclaimed : id ∈ (InboxRows.claimInbound limit (run ports env config events (start w)).rows).map
      InboxMessage.id) :
    ∃ m', (drainInbox ports env config limit gate (run ports env config events (start w)).world
      (run ports env config events (start w)).rows).2.2.look id = some m' ∧ m'.status = .applied ∧
        SameEvent m m' := by
  have hallowed : ∀ event ∈ events, Allowed (fun event => .deliver event ∈ events) event := by
    intro event hmem
    cases event with
    | deliver event => exact hmem
    | submit operation now => exact hcallers operation now hmem
    | _ => trivial
  have hsound := run_sound ports config hids hallowed (start_sound h hfree)
  have hscreened : Screened ports config (run ports env config events (start w)) := by
    apply run_screened
    intro operation transaction hmem
    cases hmem
  generalize run ports env config events (start w) = s at *
  obtain ⟨transaction, htransaction⟩ := Option.isSome_iff_exists.mp hcommitted
  obtain ⟨event, -, hkey, hoperation⟩ := hsound.rows.events id m hm
  have hopKey : m.operation.idempotencyKey = webhookIdempotencyKey m.key := by
    rw [hoperation, toOperation_key, hkey]
  have hsubmitted : (m.operation, .ok (.committed transaction)) ∈ s.submitted := by
    obtain ⟨op, hop, hmem⟩ := hsound.answers.recorded m.key transaction htransaction
    obtain ⟨id', m', hm', hmKey', hmOp'⟩ := hsound.answers.own op _ hmem m.key hop
    obtain ⟨-, rfl⟩ := hsound.rows.unique hm hm' hmKey'.symm
    rw [hmOp']
    exact hmem
  have hscreen : ∀ n, screenOperation (registry ports) config m.operation (gate n) = .ok none := by
    intro n
    obtain ⟨hvalid, hauthorized⟩ := hscreened m.operation transaction hsubmitted
    rw [hoperation] at hvalid hauthorized ⊢
    exact screenOperation_event hvalid hauthorized (gate n)
  have hentries : ∀ entry ∈ InboxRows.claimInbound limit s.rows, entry.id = id → entry.operation =
      m.operation := by
    intro entry hentry hid
    obtain ⟨m', hm', hsame⟩ := (claim_sound hsound limit).rows.claimed entry
      (List.mem_append_right _ hentry)
    rw [hid] at hm'
    obtain rfl : m = m' := Option.some.inj (hm.symm.trans hm')
    exact hsame.operation.symm
  obtain ⟨m', hm', happlied⟩ := applyAll_applies ports env config gate
    (InboxRows.claimInbound limit s.rows) 0
    (⟨[], [], []⟩, s.world, s.rows) hsound.answers.settled (by
      rw [hopKey]; exact webhookIdempotencyKey_fresh _)
    (by rw [hopKey]; exact htransaction) hscreen hentries hm (Or.inl ⟨hpending, hclaimed⟩)
  refine ⟨m', hm', happlied, ?_⟩
  obtain ⟨drained, hdrained, hrun⟩ := @drainInbox_is_run ports env config limit gate s
  have hnone : ∀ event ∈ drained, Allowed (fun event => .deliver event ∈ events) event := by
    intro event hmem
    have hevent := hdrained event hmem
    cases event with
    | deliver event => exact hevent.elim
    | submit operation now => exact hevent
    | _ => trivial
  obtain ⟨m'', hm'', hsame, -⟩ := run_ahead ports config hids hnone hsound hm
  have hrows : (drainInbox ports env config limit gate s.world s.rows).2.2 =
    (run ports env config drained s).rows :=
    congrArg Prod.snd hrun
  unfold look at hm''
  rw [← hrows] at hm''
  obtain rfl : m' = m'' := Option.some.inj (hm'.symm.trans hm'')
  exact hsame

/-- The submit committed, and the drain stopped before it marked the row. -/
def stoppedShort : List InboxEvent := [.deliver buysTen, .claim 5, .attempt 0 0]

theorem drain_catches_up_stopped : ∃ m m',
    (run parPorts tickEnv twoShards stoppedShort (start World.empty)).look "ibx_0" = some m ∧
      m.status = .pending ∧
    (drainInbox parPorts tickEnv twoShards 5 (fun _ => 0)
      (run parPorts tickEnv twoShards stoppedShort (start World.empty)).world
      (run parPorts tickEnv twoShards stoppedShort (start World.empty)).rows).2.2.look "ibx_0" = some m' ∧
    m'.status = .applied := by
  have hrow : ((run parPorts tickEnv twoShards stoppedShort (start World.empty)).look "ibx_0").map
      (fun m => (m.status, m.key)) = some (.pending, "e1") := by
    decide +kernel
  obtain ⟨m, hm, hfields⟩ := Option.map_eq_some_iff.mp hrow
  obtain ⟨hstatus, hkey⟩ := Prod.mk.inj hfields
  have hcallers : ∀ operation now, .submit operation now ∈ stoppedShort →
      ∀ key, operation.idempotencyKey ≠ webhookIdempotencyKey key := by
    intro operation now hmem
    simp [stoppedShort] at hmem
  obtain ⟨m', hm', happlied, -⟩ := drain_catches_up parPorts twoShards
    (fun _ _ h => Text.toString_nat_inj h)
    ⟨World.empty_closed, World.empty_sound⟩ (fun _ => rfl) stoppedShort hcallers 5 (fun _ => 0) hm hstatus
    (by rw [hkey]; decide +kernel) (by decide +kernel)
  exact ⟨m, m', hm, hstatus, hm', happlied⟩

end Inbox

end EconomyLab
