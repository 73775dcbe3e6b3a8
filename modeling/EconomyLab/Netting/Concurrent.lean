import EconomyLab.Netting.ExactlyOnce

/-!
# Concurrent settlers over a shared registry

When the store never fails and nobody is stopped, the session's reservations leave a
shared registry once: whoever claims the release key takes all of them out.
-/

namespace EconomyLab

open Foundation

theorem postOnce_run (env : Env) (posting : Posting) (w : World) :
    ((postOnce env posting).run w).2.idempotency = w.idempotency ∧
      ((postOnce env posting).run w).2.movements = w.movements ∧
        ((postOnce env posting).run w).2.reservations = w.reservations := by
  unfold postOnce
  simp only [Txn.findPosting, Txn.run_bind, Txn.run_read]
  cases w.ledger.tables.findPosting posting.txnId with
  | some found => exact ⟨rfl, rfl, rfl⟩
  | none =>
    simp only [Txn.run_bind, Txn.postEntry]
    split <;> rename_i heq <;> simp only [Prod.mk.injEq] at heq <;> obtain ⟨-, rfl⟩ := heq <;>
      exact ⟨rfl, rfl, rfl⟩

structure World.Beside (w w' : World) : Prop where
  idempotency : w'.idempotency = w.idempotency
  movements : w'.movements = w.movements
  reservations : w'.reservations = w.reservations

theorem postOnce_beside (env : Env) (posting : Posting) {w : World} (hw : w.Ready) :
    w.Beside (transaction (postOnce env posting) w).2 := by
  rcases transaction_cases (postOnce env posting) hw.closed hw.sound with
    ⟨a, w', hr, ht⟩ | ⟨e, w', -, ht, hsame⟩
  · obtain ⟨h1, h2, h3⟩ := postOnce_run env posting w.opened
    rw [hr] at h1 h2 h3
    rw [ht]
    refine ⟨?_, h2, h3⟩
    have hcommit : w'.commitAll.idempotency = w'.idempotency.commit := rfl
    rw [hcommit, h1]
    exact congrArg (Journaled.mk w.idempotency.rows) hw.closed.idempotency.symm
  · rw [ht]
    exact ⟨hsame.idempotency, hsame.movements, hsame.reservations⟩

theorem postChunk_beside (env : Env) (sessionId : String) (shape : Shape) (chunk : Chunk) (index : Nat)
    (compensate : Bool) {w : World} (hw : w.Ready) :
    w.Beside (postChunk env sessionId shape chunk index compensate w).2 := by
  unfold postChunk
  split
  · exact ⟨rfl, rfl, rfl⟩
  · exact postOnce_beside env _ hw

/-! ## The registry -/

def World.claimed (sessionId : String) (w : World) : Bool :=
  (w.idempotency.rows.committed.get (releaseKey sessionId)).isSome

/-- What a settler still has to take out of the registry. -/
def Phase.owes (a : AccountRef) : Phase → Int
  | .releasing rest _ => total rest a
  | _ => 0

theorem Phase.owes_idle (a : AccountRef) : Phase.idle.owes a = 0 := rfl

/-- What the claimed release takes out of the registry, or will have. -/
def taken (sessionId : String) (ms : List Movement) (w : World) (a : AccountRef) : Int :=
  if w.claimed sessionId then total (walletDeltas ms) a else 0

/-- The settlers work on a shared registry, which holds what they still owe. -/
structure ReleasedOnce (env : Env) (sessionId : String) (ms : List Movement) (start : World)
    (σ : Settling) :
    Prop where
  journaled : journal env sessionId σ.world = .ok ms
  shared : ∀ t ∈ σ.settlers, t.session.scope = .shared ∧ t.session.accepted = ms
  released : ∀ t ∈ σ.settlers, t.session.released = true → σ.world.claimed sessionId = true
  releasing : ∀ t ∈ σ.settlers, ∀ rest report, t.phase = .releasing rest report →
    σ.world.claimed sessionId = true
  reported : σ.reports ≠ [] → ms = [] ∨ σ.world.claimed sessionId = true
  pending : ∀ a, σ.world.pendingOf a = start.pendingOf a + σ.reserved a -
    taken sessionId ms σ.world a + (σ.settlers.map fun t => t.phase.owes a).sum

/-- The events of settlers that are never stopped, over a store that never fails. -/
def Event.Unstopped : Event → Prop
  | .recover _ _ scope => scope = .shared
  | .advance _ fate => fate = .proceed
  | .crash _ => False
  | .prune _ => False
  | _ => True

instance Event.Unstopped.decide : (e : Event) → Decidable e.Unstopped
  | .recover _ _ scope => inferInstanceAs (Decidable (scope = .shared))
  | .advance _ fate => inferInstanceAs (Decidable (fate = .proceed))
  | .crash _ => .isFalse id
  | .prune _ => .isFalse id
  | .call _ => .isTrue trivial
  | .ask _ => .isTrue trivial
  | .post _ => .isTrue trivial
  | .reserve _ _ => .isTrue trivial

section Registry

variable {env : Env} {sessionId : String} {ms : List Movement} {p : Nat} {start w w' : World}
  {σ : Settling}
  {t : Settler} {index : Nat}

theorem World.Beside.claimed (h : w.Beside w') : w'.claimed sessionId = w.claimed sessionId := by
  unfold World.claimed
  rw [h.idempotency]

theorem World.Beside.pendingOf (h : w.Beside w') (a : AccountRef) : w'.pendingOf a = w.pendingOf a := by
  unfold World.pendingOf
  rw [h.reservations]

/-- A settler's step changes its own debt and the registry by the same amounts. -/
theorem ReleasedOnce.put (h : ReleasedOnce env sessionId ms start σ) (hi : σ.settlers[index]? = some t)
    {after : (Settler × Option SettleReport) × World} (hmv : after.2.movements = σ.world.movements)
    (hsession : after.1.1.session.scope = t.session.scope ∧ after.1.1.session.accepted =
      t.session.accepted)
    (hclaim : σ.world.claimed sessionId = true → after.2.claimed sessionId = true)
    (hreleased : after.1.1.session.released = true → after.2.claimed sessionId = true)
    (hreleasing : ∀ rest report, after.1.1.phase = .releasing rest report →
      after.2.claimed sessionId = true)
    (hreported : after.1.2 ≠ none → ms = [] ∨ after.2.claimed sessionId = true)
    (hpending : ∀ a, after.2.pendingOf a + taken sessionId ms after.2 a - after.1.1.phase.owes a =
      σ.world.pendingOf a + taken sessionId ms σ.world a - t.phase.owes a) :
    ReleasedOnce env sessionId ms start (σ.put sessionId index t after) := by
  refine ⟨(journal_congr hmv).trans h.journaled, ?_, ?_, ?_, ?_, ?_⟩
  · intro u hu
    rcases List.mem_or_eq_of_mem_set hu with hu | rfl
    · exact h.shared u hu
    · rw [hsession.1, hsession.2]
      exact h.shared t (mem_settlers hi)
  · intro u hu hr
    rcases List.mem_or_eq_of_mem_set hu with hu | rfl
    · exact hclaim (h.released u hu hr)
    · exact hreleased hr
  · intro u hu rest report hphase
    rcases List.mem_or_eq_of_mem_set hu with hu | rfl
    · exact hclaim (h.releasing u hu rest report hphase)
    · exact hreleasing rest report hphase
  · intro hne
    by_cases hr : σ.reports = []
    · apply hreported
      intro hnone
      simp [Settling.put, hr, hnone] at hne
    · exact (h.reported hr).imp_right hclaim
  · intro a
    have hold := h.pending a
    have hstep := hpending a
    have hsum : ((σ.settlers.set index after.1.1).map fun t => t.phase.owes a).sum =
        (σ.settlers.map fun t => t.phase.owes a).sum - t.phase.owes a + after.1.1.phase.owes a :=
      sum_map_set (fun t => t.phase.owes a) hi
    simp only [Settling.put]
    omega

theorem ReleasedOnce.put_beside (h : ReleasedOnce env sessionId ms start σ)
    (hi : σ.settlers[index]? = some t)
    {after : (Settler × Option SettleReport) × World} (hbeside : σ.world.Beside after.2)
    (hsession : after.1.1.session.scope = t.session.scope ∧
      after.1.1.session.accepted = t.session.accepted ∧ after.1.1.session.released = t.session.released)
    (howes : ∀ a, after.1.1.phase.owes a = t.phase.owes a)
    (hreleasing : ∀ rest report, after.1.1.phase ≠ .releasing rest report)
    (hreported : after.1.2 ≠ none → ms = [] ∨ σ.world.claimed sessionId = true) :
    ReleasedOnce env sessionId ms start (σ.put sessionId index t after) := by
  have hclaimed : after.2.claimed sessionId = σ.world.claimed sessionId := hbeside.claimed
  apply h.put hi hbeside.movements ⟨hsession.1, hsession.2.1⟩
  · exact fun hc => hclaimed.trans hc
  · intro hr
    rw [hsession.2.2] at hr
    exact hclaimed.trans (h.released t (mem_settlers hi) hr)
  · exact fun rest report hphase => absurd hphase (hreleasing rest report)
  · rw [hclaimed]
    exact hreported
  · intro a
    rw [hbeside.pendingOf, howes, taken, taken, hclaimed]

theorem World.Beside.refl (w : World) : w.Beside w := ⟨rfl, rfl, rfl⟩

theorem ReleasedOnce.sets_out (h : ReleasedOnce env sessionId ms start σ)
    (hi : σ.settlers[index]? = some t) (hphase : ∀ a, t.phase.owes a = 0) (report : SettleReport) :
    ReleasedOnce env sessionId ms start (σ.put sessionId index t (t.release report, σ.world)) := by
  have hshared := h.shared t (mem_settlers hi)
  unfold Settler.release
  cases hr : t.session.released with
  | true =>
    rw [if_pos rfl]
    apply h.put_beside hi (World.Beside.refl _) ⟨rfl, rfl, rfl⟩
    · exact fun a => (hphase a).symm
    · intro rest report' he
      cases he
    · exact fun _ => Or.inr (h.released t (mem_settlers hi) hr)
  | false =>
    rw [if_neg Bool.false_ne_true]
    simp only [hshared.1]
    apply h.put_beside hi (World.Beside.refl _) ⟨rfl, rfl, rfl⟩
    · exact fun a => (hphase a).symm
    · intro rest report' he
      cases he
    · exact fun hne => absurd rfl hne

theorem ReleasedOnce.claims (h : ReleasedOnce env sessionId ms start σ) (hi : σ.settlers[index]? = some t)
    (hid : t.session.sessionId = sessionId) (hready : σ.world.Ready) {report : SettleReport}
    (hphase : t.phase = .claiming report) :
    ReleasedOnce env sessionId ms start
      (σ.put sessionId index t (t.advance env .proceed σ.world)) := by
  have hshared := h.shared t (mem_settlers hi)
  simp only [Settler.advance, hphase, Settler.attempt, hid]
  rcases claimRelease_cases env sessionId hready with
    ⟨txn, w', hk, htr, hsame, -⟩ | ⟨hk, txn, w', htr, -, -, hmv, hres, hset⟩
  · simp only [htr]
    have hclaimed : σ.world.claimed sessionId = true := by rw [World.claimed, hk]; rfl
    have hclaimed' : w'.claimed sessionId = true := by rw [World.claimed, hsame.idempotency, hk]; rfl
    apply h.put hi hsame.movements ⟨rfl, rfl⟩ (fun _ => hclaimed') (fun _ => hclaimed')
    · exact fun _ _ _ => hclaimed'
    · exact fun _ => Or.inr hclaimed'
    · intro a
      simp only [taken, hclaimed, hclaimed', hphase, Settler.released, Settler.finish, Phase.owes,
        World.pendingOf, hsame.reservations]
  · simp only [htr]
    have hunclaimed : σ.world.claimed sessionId = false := by rw [World.claimed, hk]; rfl
    have hclaimed' : w'.claimed sessionId = true := by
      rw [World.claimed, hset, Table.get_set_self]
      rfl
    apply h.put hi hmv ⟨rfl, rfl⟩ (fun _ => hclaimed') (fun _ => hclaimed')
    · exact fun _ _ _ => hclaimed'
    · exact fun hne => absurd rfl hne
    · intro a
      simp only [taken, hunclaimed, hclaimed', hphase, Settler.at_, Phase.owes, World.pendingOf, hres,
        hshared.2, if_true, Bool.false_eq_true, if_false]
      omega

theorem ReleasedOnce.releases (h : ReleasedOnce env sessionId ms start σ)
    (hi : σ.settlers[index]? = some t) {rest : List (AccountRef × Int)} {report : SettleReport}
    (hphase : t.phase = .releasing rest report) :
    ReleasedOnce env sessionId ms start
      (σ.put sessionId index t (t.advance env .proceed σ.world)) := by
  have hclaimed := h.releasing t (mem_settlers hi) rest report hphase
  cases rest with
  | nil =>
    simp only [Settler.advance, hphase]
    apply h.put hi rfl ⟨rfl, rfl⟩ (fun hc => hc) (fun _ => hclaimed) (fun _ _ _ => hclaimed)
    · exact fun _ => Or.inr hclaimed
    · intro a
      simp [hphase, Settler.released, Settler.finish, Phase.owes]
  | cons q rest =>
    obtain ⟨account, delta⟩ := q
    simp only [Settler.advance, hphase]
    have hsame : (σ.world.addReservation account (-delta)).claimed sessionId = σ.world.claimed sessionId :=
      rfl
    apply h.put hi rfl ⟨rfl, rfl⟩ (fun hc => hc) (fun _ => hclaimed) (fun _ _ _ => hclaimed)
    · exact fun hne => absurd rfl hne
    · intro a
      simp only [taken, hsame, World.pendingOf_addReservation, hphase, Settler.at_, Phase.owes, total_cons]
      split <;> omega

theorem ReleasedOnce.advances (h : ReleasedOnce env sessionId ms start σ)
    (hc : Consistent sessionId ms env start σ p) (hi : σ.settlers[index]? = some t) :
    ReleasedOnce env sessionId ms start
      (σ.put sessionId index t (t.advance env .proceed σ.world)) := by
  have hready := hc.evidence.ready
  have hid := (hc.settlers t (mem_settlers hi)).ofSession
  cases hphase : t.phase with
  | idle =>
    simp only [Settler.advance, hphase]
    apply h.put_beside hi (World.Beside.refl _) ⟨rfl, rfl, rfl⟩ (fun _ => rfl)
    · intro rest report he
      rw [hphase] at he
      cases he
    · exact fun hne => absurd rfl hne
  | netting rest posted =>
    cases rest with
    | nil =>
      simp only [Settler.advance, hphase]
      exact h.sets_out hi (fun a => by rw [hphase]; rfl) _
    | cons c rest =>
      obtain ⟨chunk, i⟩ := c
      have hbeside := postChunk_beside env t.session.sessionId t.shape chunk i false hready
      simp only [Settler.advance, hphase, Settler.attempt]
      split <;> rename_i heq <;> rw [heq] at hbeside <;>
        apply h.put_beside hi hbeside ⟨rfl, rfl, rfl⟩ (fun a => by rw [hphase]; rfl)
          (fun _ _ he => by cases he) (fun hne => absurd rfl hne)
  | compensating todo =>
    cases todo with
    | nil =>
      simp only [Settler.advance, hphase]
      apply h.put_beside hi (World.Beside.refl _) ⟨rfl, rfl, rfl⟩ (fun a => by rw [hphase]; rfl)
        (fun _ _ he => by cases he) (fun hne => absurd rfl hne)
    | cons i todo =>
      have hbeside := postChunk_beside env t.session.sessionId t.shape (t.chunks.getD i []) i true hready
      simp only [Settler.advance, hphase, Settler.attempt]
      split <;> rename_i heq <;> rw [heq] at hbeside <;>
        apply h.put_beside hi hbeside ⟨rfl, rfl, rfl⟩ (fun a => by rw [hphase]; rfl)
          (fun _ _ he => by cases he) (fun hne => absurd rfl hne)
  | replaying rest postings rejected =>
    cases rest with
    | nil =>
      simp only [Settler.advance, hphase]
      exact h.sets_out hi (fun a => by rw [hphase]; rfl) _
    | cons m rest =>
      have hbeside := postOnce_beside env (replayPosting t.session.sessionId t.head m) hready
      simp only [Settler.advance, hphase, Settler.attempt]
      split <;> rename_i heq <;> rw [heq] at hbeside <;>
        apply h.put_beside hi hbeside ⟨rfl, rfl, rfl⟩ (fun a => by rw [hphase]; rfl)
          (fun _ _ he => by cases he) (fun hne => absurd rfl hne)
  | claiming report => exact h.claims hi hid hready hphase
  | releasing rest report => exact h.releases hi hphase

theorem ReleasedOnce.called (h : ReleasedOnce env sessionId ms start σ)
    (hc : Consistent sessionId ms env start σ p) (hi : σ.settlers[index]? = some t)
    (hidle : t.phase = .idle) :
    ReleasedOnce env sessionId ms start (σ.put sessionId index t (t.call env σ.world)) := by
  have hs := hc.settlers t (mem_settlers hi)
  have hflush : flush t.session σ.world = (.ok (), t.session, σ.world) := by
    unfold flush
    rw [if_pos hs.flushed]
  have hj : journal env t.session.sessionId σ.world = .ok ms := hs.ofSession.symm ▸ h.journaled
  have howes : ∀ a, t.phase.owes a = 0 := fun a => by rw [hidle]; rfl
  unfold Settler.call
  simp only [hflush, hj]
  split
  · rename_i hempty
    apply h.put_beside hi (World.Beside.refl _) ⟨rfl, rfl, rfl⟩ (fun _ => rfl)
    · intro rest report he
      rw [show ({ t with session := t.session } : Settler).phase = t.phase from rfl, hidle] at he
      cases he
    · exact fun _ => Or.inl hempty
  · split
    · apply h.put_beside hi (World.Beside.refl _) ⟨rfl, rfl, rfl⟩ (fun a => by rw [howes]; rfl)
        (fun _ _ he => by cases he) (fun hne => absurd rfl hne)
    · apply h.put_beside hi (World.Beside.refl _) ⟨rfl, rfl, rfl⟩ (fun a => by rw [howes]; rfl)
        (fun _ _ he => by cases he) (fun hne => absurd rfl hne)

theorem ReleasedOnce.step (h : ReleasedOnce env sessionId ms start σ)
    (hc : Consistent sessionId ms env start σ p) {e : Event} (he : e.Unstopped) :
    ReleasedOnce env sessionId ms start (σ.step env sessionId e) := by
  cases e with
  | recover maxBatch width scope =>
    obtain ⟨s, w', hrec, -, hsame, -, -, hacc, hrel, hscope, -⟩ :=
      recoverSession_spec env sessionId maxBatch width scope h.journaled
    obtain rfl := hsame he
    simp only [Settling.step, hrec]
    refine ⟨h.journaled, ?_, ?_, ?_, h.reported, ?_⟩
    · intro u hu
      rcases List.mem_append.mp hu with hu | hu
      · exact h.shared u hu
      · rw [List.mem_singleton.mp hu]
        exact ⟨hscope.trans he, hacc⟩
    · intro u hu hr
      rcases List.mem_append.mp hu with hu | hu
      · exact h.released u hu hr
      · rw [List.mem_singleton.mp hu, hrel] at hr
        cases hr
    · intro u hu rest report hphase
      rcases List.mem_append.mp hu with hu | hu
      · exact h.releasing u hu rest report hphase
      · rw [List.mem_singleton.mp hu] at hphase
        cases hphase
    · intro a
      have hold := h.pending a
      simp only [List.map_append, List.map_cons, List.map_nil, List.sum_append, List.sum_cons,
        List.sum_nil, Phase.owes_idle]
      omega
  | call index =>
    simp only [Settling.step]
    split
    · exact h
    · rename_i t hi
      split
      · rename_i hidle
        exact h.called hc hi hidle
      · exact h
  | advance index fate =>
    obtain rfl : fate = .proceed := he
    simp only [Settling.step]
    split
    · exact h
    · rename_i t hi
      exact h.advances hc hi
  | crash index => exact absurd he id
  | ask index => exact h
  | prune index => exact absurd he id
  | post posting =>
    have hcases := transaction_postEntry env posting hc.evidence.ready
    simp only [Settling.step]
    generalize (transaction (Txn.postEntry env posting) σ.world).2 = w' at hcases ⊢
    have hbeside : σ.world.Beside w' := by
      rcases hcases with hland | ⟨hsame, -⟩
      · exact ⟨hland.idempotency, hland.movements, hland.reservations⟩
      · exact ⟨hsame.idempotency, hsame.movements, hsame.reservations⟩
    have hclaimed : w'.claimed sessionId = σ.world.claimed sessionId := hbeside.claimed
    refine ⟨(journal_congr hbeside.movements).trans h.journaled, h.shared, ?_, ?_, ?_, ?_⟩
    · exact fun u hu hr => hclaimed.trans (h.released u hu hr)
    · exact fun u hu rest report hphase => hclaimed.trans (h.releasing u hu rest report hphase)
    · exact fun hne => (h.reported hne).imp_right hclaimed.trans
    · intro a
      simp only [hbeside.pendingOf, taken, hclaimed]
      exact h.pending a
  | reserve account delta =>
    refine ⟨h.journaled, h.shared, h.released, h.releasing, h.reported, ?_⟩
    intro a
    have hold := h.pending a
    simp only [Settling.step, World.pendingOf_addReservation]
    have hsame : taken sessionId ms (σ.world.addReservation account delta) a =
        taken sessionId ms σ.world a := rfl
    rw [hsame]
    split <;> omega

end Registry

/-- What the claim of concurrent settlers starts from: a shared registry, nothing claimed. -/
structure AwaitingShared (env : Env) (s : InstanceSession) (w : World) :
    Prop extends Awaiting env s w where
  shared : s.scope = .shared
  unclaimed : w.claimed s.sessionId = false

section Runs

variable {env : Env} {s : InstanceSession} {w : World}

theorem AwaitingShared.releasedOnce (h : AwaitingShared env s w) :
    ReleasedOnce env s.sessionId s.accepted w (Settling.begun s w) := by
  refine ⟨h.journaling.journals h.flushed, ?_, ?_, ?_, ?_, ?_⟩
  · intro t ht
    rw [List.mem_singleton.mp ht]
    exact ⟨h.shared, rfl⟩
  · intro t ht hr
    rw [List.mem_singleton.mp ht, h.unreleased] at hr
    cases hr
  · intro t ht rest report hphase
    rw [List.mem_singleton.mp ht] at hphase
    cases hphase
  · intro hne
    exact absurd rfl hne
  · intro a
    simp [Settling.begun, taken, h.unclaimed, Phase.owes]

/-- Once every settler of an unstopped run is idle again and one of them reported, all reports
agree on what happened, and the reservations are out of the registry once. -/
theorem settlers_agree (env : Env) {s : InstanceSession} {w : World} (h : AwaitingShared env s w)
    {events : List Event}
    (hmeets : RunMeets (Settling.step env s.sessionId)
      (fun σ e => e.Unstopped ∧ σ.Meets env s.sessionId s.accepted e) (Settling.begun s w) events) :
    (∀ t ∈ (Settling.run env s.sessionId (Settling.begun s w) events).settlers, t.phase = .idle) →
    (Settling.run env s.sessionId (Settling.begun s w) events).reports ≠ [] →
      (∀ report ∈ (Settling.run env s.sessionId (Settling.begun s w) events).reports,
        EffectOnce s.sessionId s.accepted w (Settling.run env s.sessionId (Settling.begun s w) events)
          report.refused) ∧
      (∀ r ∈ (Settling.run env s.sessionId (Settling.begun s w) events).reports,
        ∀ r' ∈ (Settling.run env s.sessionId (Settling.begun s w) events).reports,
          r.mode = r'.mode ∧ ∀ key, key ∈ r.refused ↔ key ∈ r'.refused) ∧
      ∀ a, (Settling.run env s.sessionId (Settling.begun s w) events).world.pendingOf a =
        w.pendingOf a + (Settling.run env s.sessionId (Settling.begun s w) events).reserved a -
          total (walletDeltas s.accepted) a := by
  intro hidle hreports
  have hstep : ∀ σ e, ((∃ p, Consistent s.sessionId s.accepted env w σ p) ∧
      ReleasedOnce env s.sessionId s.accepted w σ) →
      (e.Unstopped ∧ σ.Meets env s.sessionId s.accepted e) →
        (∃ p, Consistent s.sessionId s.accepted env w (σ.step env s.sessionId e) p) ∧
          ReleasedOnce env s.sessionId s.accepted w (σ.step env s.sessionId e) := by
    rintro σ e ⟨⟨p, hc⟩, hr⟩ ⟨hun, hm⟩
    exact ⟨h.toAwaiting.step σ e ⟨p, hc⟩ hm, hr.step hc hun⟩
  obtain ⟨⟨p, hc⟩, hr⟩ := hmeets.inv hstep ⟨⟨0, h.consistent⟩, h.releasedOnce⟩
  refine ⟨fun report hm => (hc.effectOnce h.journaling.checked hm).1, ?_, ?_⟩
  · intro r hmr r' hmr'
    have hs := hc.reports r hmr
    have hs' := hc.reports r' hmr'
    cases hmode : r.mode <;> cases hmode' : r'.mode
    case netted.netted =>
      simp [SettleReport.refused, (hs.netted hmode).2, (hs'.netted hmode').2]
    case netted.replayed => exact absurd (hs.netted hmode).1 (hs'.replayed hmode').1
    case replayed.netted => exact absurd (hs'.netted hmode').1 (hs.replayed hmode).1
    case replayed.replayed =>
      refine ⟨rfl, ?_⟩
      have hkeys := (hs.replayed hmode).2.2
      have hkeys' := (hs'.replayed hmode').2.2
      intro key
      constructor
      · intro hk
        obtain ⟨m, hm, rfl⟩ := hkeys.named key hk
        exact (hkeys'.iff m hm).mpr ((hkeys.iff m hm).mp hk)
      · intro hk
        obtain ⟨m, hm, rfl⟩ := hkeys'.named key hk
        exact (hkeys.iff m hm).mpr ((hkeys'.iff m hm).mp hk)
  · intro a
    have hpending := hr.pending a
    have howes : ((Settling.run env s.sessionId (Settling.begun s w) events).settlers.map
        fun t => t.phase.owes a).sum = 0 := by
      apply List.sum_eq_zero
      intro x hx
      obtain ⟨t, ht, rfl⟩ := List.mem_map.mp hx
      rw [hidle t ht]
      rfl
    have htaken : taken s.sessionId s.accepted
        (Settling.run env s.sessionId (Settling.begun s w) events).world a =
          total (walletDeltas s.accepted) a := by
      unfold taken
      rcases hr.reported hreports with hempty | hclaimed
      · rw [hempty]
        split <;> rfl
      · have hclaimed : (Settling.run env s.sessionId (Settling.begun s w) events).world.claimed
            s.sessionId = true := hclaimed
        rw [if_pos hclaimed]
    have hpending : (Settling.run env s.sessionId (Settling.begun s w) events).world.pendingOf a =
        w.pendingOf a + (Settling.run env s.sessionId (Settling.begun s w) events).reserved a -
          taken s.sessionId s.accepted
            (Settling.run env s.sessionId (Settling.begun s w) events).world a +
          ((Settling.run env s.sessionId (Settling.begun s w) events).settlers.map
            fun t => t.phase.owes a).sum := hpending
    omega

end Runs

def transfer (txnId payer payee : String) : Posting :=
  ⟨txnId, [⟨spendable payer, ⟨.credit, 10, .ten⟩⟩, ⟨spendable payee, ⟨.credit, -10, .neg_ten⟩⟩], []⟩

/-- Two payers with ten each and a movement of each to a payee of its own, two accounts a chunk. -/
def twoMovements (env : Env) : InstanceSession × World :=
  let twenty : Amount := ⟨.credit, 20, by decide⟩
  let minusTen : Amount := ⟨.credit, -10, .neg_ten⟩
  let issue : Posting := ⟨"txn_1", [⟨SYSTEM.STORED_VALUE, twenty⟩, ⟨spendable "usr_a", minusTen⟩,
    ⟨spendable "usr_c", minusTen⟩], []⟩
  let w : World := { World.empty with ledger := (runLedger env.digest [.write (.entry 0 issue)]).ledger }
  let (s, w) := (record env ⟨"mv_1", (transfer "" "usr_a" "usr_b").legs⟩
    (openInstanceSession "ses_1" 1 ⟨2, Nat.two_pos⟩ .shared) w).2
  (record env ⟨"mv_2", (transfer "" "usr_c" "usr_d").legs⟩ s w).2

theorem twoMovements_awaiting :
    let env : Env := ⟨List.take 4, fun _ => 0, fun _ => ""⟩
    AwaitingShared env (twoMovements env).1 (twoMovements env).2 := by
  intro env
  have hlog : (twoMovements env).2.ledger.tables.log.map StoredPosting.txnId = ["txn_1"] := by decide
  have hposted : ∀ {txnId : String}, txnId.toList.head? ≠ some 't' →
      (twoMovements env).2.posted txnId = false := by
    intro txnId hne
    apply World.posted_eq_false
    rw [hlog, List.mem_singleton]
    rintro rfl
    exact hne (by decide)
  have hopen : Journaling env { World.empty with ledger := (twoMovements env).2.ledger }
      (openInstanceSession "ses_1" 1 ⟨2, by decide⟩ .shared) := by
    apply journaling_open
    · simp [World.empty]
    · intro i
      apply hposted
      rw [head?_chunkTxnId]
      decide
  have hfirst := (hopen.record ⟨"mv_1", (transfer "" "usr_a" "usr_b").legs⟩ (by simp [World.empty])).1
  have hsecond := (hfirst.record ⟨"mv_2", (transfer "" "usr_c" "usr_d").legs⟩ (by decide +kernel)).1
  refine ⟨⟨⟨rfl, rfl, rfl, rfl, rfl, rfl, rfl, rfl, rfl, rfl⟩, ⟨_, rfl⟩, hsecond, rfl, rfl, rfl, ?_, ?_⟩,
    rfl, rfl⟩
  · intro i
    apply hposted
    rw [head?_compTxnId]
    decide
  · intro i
    apply hposted
    rw [head?_movementTxnId]
    decide

def Phase.isIdle : Phase → Bool
  | idle => true
  | _ => false

theorem Phase.eq_of_isIdle {phase : Phase} (h : phase.isIdle) : phase = .idle := by
  cases phase with
  | idle => rfl
  | netting rest posted => cases h
  | compensating todo => cases h
  | replaying rest postings rejected => cases h
  | claiming report => cases h
  | releasing rest report => cases h

/-- Both settlers net, each posting a chunk that the other skips, around a foreign transfer. -/
theorem settlers_agree_in_turn :
    let env : Env := ⟨List.take 4, fun _ => 0, fun _ => ""⟩
    let start := twoMovements env
    let events : List Event := [.recover 1 ⟨2, by decide⟩ .shared, .call 0, .call 1, .advance 0 .proceed,
      .advance 1 .proceed, .post (transfer "txn_2" "usr_b" "usr_x"), .advance 1 .proceed,
        .advance 0 .proceed,
      .advance 0 .proceed, .advance 1 .proceed, .advance 1 .proceed, .advance 0 .proceed,
      .advance 1 .proceed, .advance 1 .proceed, .advance 1 .proceed, .advance 1 .proceed,
      .advance 1 .proceed]
    let σ := Settling.run env start.1.sessionId (Settling.begun start.1 start.2) events
    σ.reports.length = 2 ∧
      (∀ report ∈ σ.reports, EffectOnce start.1.sessionId start.1.accepted start.2 σ report.refused) ∧
      σ.world.pendingOf (spendable "usr_a") = 0 := by
  intro env start events σ
  have hmeets : RunMeets (Settling.step env start.1.sessionId)
      (fun σ e => e.Unstopped ∧ σ.Meets env start.1.sessionId start.1.accepted e)
      (Settling.begun start.1 start.2) events := by
    have hquiet : RunMeets (Settling.step env start.1.sessionId)
        (fun σ e => e.Unstopped ∧ σ.quiet start.1.sessionId start.1.accepted e = true)
        (Settling.begun start.1 start.2) events := by decide +kernel
    refine RunMeets.imp ?_ hquiet
    exact fun σ e h => ⟨h.1, Settling.Meets.of_quiet env σ e h.2⟩
  have hlength : σ.reports.length = 2 := by decide +kernel
  have hne : σ.reports ≠ [] := by
    intro hnil
    rw [hnil] at hlength
    cases hlength
  have hidle : (σ.settlers.all fun t => t.phase.isIdle) = true := by
    decide +kernel
  obtain ⟨honce, -, hpending⟩ := settlers_agree env twoMovements_awaiting hmeets
    (by
      intro t ht
      exact Phase.eq_of_isIdle (List.all_eq_true.mp hidle t ht))
    hne
  refine ⟨hlength, honce, (hpending _).trans ?_⟩
  decide +kernel

/-- One settler is refused its second chunk and undoes the first; the other, a moment later,
posts the second chunk and reports the session netted. -/
theorem settlers_disagree :
    let env : Env := ⟨List.take 4, fun _ => 0, fun _ => ""⟩
    let start := twoMovements env
    let events : List Event := [.recover 1 ⟨2, by decide⟩ .shared, .call 0, .call 1, .advance 0 .proceed,
      .post (transfer "txn_2" "usr_c" "usr_x"), .advance 0 .proceed, .advance 0 .proceed,
      .post (transfer "txn_3" "usr_x" "usr_c"), .advance 1 .proceed, .advance 1 .proceed,
      .advance 1 .proceed, .advance 1 .proceed, .advance 1 .proceed, .advance 1 .proceed,
      .advance 1 .proceed, .advance 1 .proceed, .advance 1 .proceed, .advance 0 .proceed,
      .advance 0 .proceed, .advance 0 .proceed, .advance 0 .proceed, .advance 0 .proceed]
    let σ := Settling.run env start.1.sessionId (Settling.begun start.1 start.2) events
    AwaitingShared env start.1 start.2 ∧ (∀ e ∈ events, e.Unstopped) ∧
      (σ.settlers.all fun t => match t.phase with | .idle => true | _ => false) = true ∧
      σ.reports.map (fun r => (r.mode, r.refused)) = [(.netted, []), (.replayed, ["mv_2"])] ∧
      ¬ ∀ report ∈ σ.reports, EffectOnce start.1.sessionId start.1.accepted start.2 σ report.refused := by
  intro env start events σ
  have hreports : σ.reports.map (fun r => (r.mode, r.refused)) =
      [(.netted, []), (.replayed, ["mv_2"])] := by decide +kernel
  refine ⟨twoMovements_awaiting, by decide, by decide +kernel, hreports, ?_⟩
  intro h
  have hmem : (SettleMode.replayed, ["mv_2"]) ∈ σ.reports.map fun r => (r.mode, r.refused) := by
    rw [hreports]
    exact List.mem_cons_of_mem _ List.mem_cons_self
  obtain ⟨report, hr, he⟩ := List.mem_map.mp hmem
  have hrefused : report.refused = ["mv_2"] := congrArg Prod.snd he
  have hpayee := (h report hr).balance (spendable "usr_d")
  rw [hrefused] at hpayee
  exact absurd hpayee (by decide +kernel)

end EconomyLab
