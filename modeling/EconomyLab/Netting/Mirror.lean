import EconomyLab.Netting.Dates

/-!
# Two sessions over alike worlds

Sessions that hold the same movements but for their dates, with remembered balances that are
still the ledger's, answer every call alike and stay so.
-/

namespace EconomyLab

open Foundation

/-- Sessions alike but for dates, remembered balances and what some keys answer. -/
structure TwinSession (refused : String → Prop) (s s' : InstanceSession) : Prop where
  same : s' = { s with
    outcomes := s'.outcomes
    accepted := s'.accepted
    pending := s'.pending
    opening := s'.opening }
  accepted : undated s'.accepted = undated s.accepted
  pending : undated s'.pending = undated s.pending
  outcomes : ∀ key, ¬ refused key → s'.outcomes.get key = s.outcomes.get key

/-- Every remembered balance is the ledger's. -/
def Current (s : InstanceSession) (w : World) : Prop :=
  ∀ a v, s.opening.get a = some v → v = w.balanceOf a

section Sessions

variable {refused : String → Prop} {s s' : InstanceSession} {w w' : World} {env env' : Env}

theorem TwinSession.sessionId (h : TwinSession refused s s') : s'.sessionId = s.sessionId := by
  rw [h.same]

theorem TwinSession.settled (h : TwinSession refused s s') : s'.settled = s.settled := by
  rw [h.same]

theorem TwinSession.full (h : TwinSession refused s s') :
    s'.maxBatch ≤ s'.pending.length ↔ s.maxBatch ≤ s.pending.length := by
  have hlen := congrArg List.length h.pending
  simp only [undated, List.length_map] at hlen
  have hmax : s'.maxBatch = s.maxBatch := by rw [h.same]
  rw [hlen, hmax]

theorem TwinSession.remember (h : TwinSession refused s s') (key : String) (outcome : MovementOutcome) :
    TwinSession refused (s.remember key outcome) (s'.remember key outcome) := by
  refine ⟨?_, h.accepted, h.pending, ?_⟩
  · rw [h.same]
    rfl
  · intro k hk
    simp only [InstanceSession.remember, Table.get_set]
    rw [h.outcomes k hk]

theorem openingBalance_current (hc : Current s w) (hw : w.Ready) (a : AccountRef) :
    ∃ opening, openingBalance a s w = .ok (w.balanceOf a, { s with opening := opening }) ∧
      Current { s with opening := opening } w := by
  unfold openingBalance
  cases ho : s.opening.get a with
  | some known =>
    refine ⟨s.opening, ?_, hc⟩
    rw [hc a known ho]
  | none =>
    have hread : w.ledger.tables.balance a = .ok ⟨currency a, w.balanceOf a, hw.inRange a⟩ := by
      unfold LedgerTables.balance
      rw [toAmount_eq_ok]
      exact ⟨rfl, rfl⟩
    refine ⟨s.opening.set a (w.balanceOf a), ?_, ?_⟩
    · simp only [hread]
      rfl
    · intro b v hv
      by_cases hb : b = a
      · subst hb
        simp only [Table.get_set_self, Option.some.injEq] at hv
        exact hv.symm
      · simp only [Table.get_set_of_ne _ _ hb] at hv
        exact hc b v hv

theorem unwindReservations_pending (applied : List (AccountRef × Int)) (w : World) (a : AccountRef) :
    (unwindReservations applied w).pendingOf a = w.pendingOf a - total applied.reverse a := by
  have hfold := (foldl_addReservation applied.reverse (-1) w).2 a
  simp only [neg_one_mul] at hfold
  exact hfold

structure Screens (r r' : Except Fault (Option RejectionCode) × InstanceSession × World) : Prop where
  verdict : r'.1 = r.1
  pending : ∀ a, r'.2.2.pendingOf a = r.2.2.pendingOf a
  current : Current r.2.1 r.2.2 ∧ Current r'.2.1 r'.2.2

theorem reserveLegs_screens (legs : List Leg) (applied : List (AccountRef × Int))
    (hw : w.Ready) (hw' : w'.Ready) (hbal : w'.balanceOf = w.balanceOf)
    (hpend : ∀ a, w'.pendingOf a = w.pendingOf a) (hc : Current s w) (hc' : Current s' w') :
    Screens (reserveLegs legs applied s w) (reserveLegs legs applied s' w') := by
  have hunwound : ∀ (applied : List (AccountRef × Int)) {w w' : World},
      (∀ a, w'.pendingOf a = w.pendingOf a) →
      ∀ a, (unwindReservations applied w').pendingOf a = (unwindReservations applied w).pendingOf a := by
    intro applied w w' h a
    rw [unwindReservations_pending, unwindReservations_pending, h]
  have hkept : ∀ (applied : List (AccountRef × Int)) {s : InstanceSession} {w : World}, Current s w →
      Current s (unwindReservations applied w) := by
    intro applied s w h a v ho
    rw [(unwindReservations_reserves applied w).balanceOf]
    exact h a v ho
  induction legs generalizing applied s s' w w' with
  | nil => exact ⟨rfl, hpend, hc, hc'⟩
  | cons leg legs ih =>
    unfold reserveLegs
    by_cases hwallet : isWalletAccount leg.account = true
    · simp only [hwallet, Bool.not_true, Bool.false_eq_true, if_false]
      cases hd : balanceDelta leg with
      | error e => exact ⟨rfl, hunwound applied hpend, hkept applied hc, hkept applied hc'⟩
      | ok delta =>
        have hres := w.addReservation_reserves leg.account delta.minor
        have hres' := w'.addReservation_reserves leg.account delta.minor
        have hadded : ∀ a, (w'.addReservation leg.account delta.minor).pendingOf a =
            (w.addReservation leg.account delta.minor).pendingOf a := by
          intro a
          rw [World.pendingOf_addReservation, World.pendingOf_addReservation, hpend]
        have hbal₁ : (w'.addReservation leg.account delta.minor).balanceOf =
            (w.addReservation leg.account delta.minor).balanceOf := hbal
        have hc₁ : Current s (w.addReservation leg.account delta.minor) := hc
        have hc₁' : Current s' (w'.addReservation leg.account delta.minor) := hc'
        simp only
        by_cases hpos : 0 ≤ delta.minor
        · simp only [hpos, if_true]
          exact ih _ (hres.ready hw) (hres'.ready hw') hbal₁ hadded hc₁ hc₁'
        · simp only [hpos, if_false]
          obtain ⟨opening, ho, hco⟩ := openingBalance_current hc₁ (hres.ready hw) leg.account
          obtain ⟨opening', ho', hco'⟩ := openingBalance_current hc₁' (hres'.ready hw') leg.account
          simp only [ho, ho', hbal₁, hadded]
          by_cases hshort : (w.addReservation leg.account delta.minor).balanceOf leg.account +
              (w.addReservation leg.account delta.minor).pendingOf leg.account < 0
          · simp only [hshort, if_true]
            exact ⟨rfl, hunwound _ hadded, hkept _ hco, hkept _ hco'⟩
          · simp only [hshort, if_false]
            exact ih _ (hres.ready hw) (hres'.ready hw') hbal₁ hadded hco hco'
    · simp only [hwallet, Bool.not_false, if_true]
      exact ih applied hw hw' hbal hpend hc hc'

theorem Twin.reserves {w₁ w₁' : World} (h : Twin w w') (hres : w.Reserves w₁) (hres' : w'.Reserves w₁')
    (hpend : ∀ a, w₁'.pendingOf a = w₁.pendingOf a) : Twin w₁ w₁' := by
  refine ⟨⟨hres.ready h.ready.1, hres'.ready h.ready.2⟩, ?_, ?_, ?_, ?_, hpend⟩
  · rw [hres.ledger, hres'.ledger]
    exact h.balances
  · rw [hres.ledger, hres'.ledger]
    exact h.heads
  · rw [hres.ledger, hres'.ledger]
    exact h.log
  · rw [hres.movements, hres'.movements]
    exact h.movements

/-- Nothing of the session's settlement is on the ledger. -/
def Unposted (sessionId : String) (w : World) : Prop :=
  ∀ i, w.posted (chunkTxnId sessionId i) = false ∧ w.posted (compTxnId sessionId i) = false

/-- Sessions over alike worlds; while they are open, their remembered balances are the ledger's
and nothing of their settlement is posted. -/
structure Mirrored (refused : String → Prop) (s : InstanceSession) (w : World) (s' : InstanceSession)
    (w' : World) : Prop where
  sessions : TwinSession refused s s'
  worlds : Twin w w'
  process : s.scope = .process
  open_ : s.settled = false → s.replayForced = false ∧ Unposted s.sessionId w ∧
    Current s w ∧ Current s' w'

variable {ms ms' : List Movement}

theorem undated_eq_nil (h : undated ms' = undated ms) : ms' = [] ↔ ms = [] := by
  have hlen := congrArg List.length h
  simp only [undated, List.length_map] at hlen
  rw [← List.length_eq_zero_iff, ← List.length_eq_zero_iff, hlen]

theorem appendMovements_twin {batch batch' log log' : List Movement}
    (hbatch : undated batch' = undated batch) (hlog : undated log' = undated log) :
    (∃ e, appendMovements batch log = .error e ∧ appendMovements batch' log' = .error e) ∨
    (∃ out out', appendMovements batch log = .ok out ∧ appendMovements batch' log' = .ok out' ∧
      undated out' = undated out) := by
  have h := appendMovements_undated batch log
  have h' := appendMovements_undated batch' log'
  rw [hbatch, hlog, h] at h'
  cases ha : appendMovements batch log with
  | error e =>
    cases ha' : appendMovements batch' log' with
    | error e' =>
      rw [ha, ha'] at h'
      exact Or.inl ⟨e, rfl, congrArg Except.error (Except.error.inj h').symm⟩
    | ok out' =>
      rw [ha, ha'] at h'
      cases h'
  | ok out =>
    cases ha' : appendMovements batch' log' with
    | error e' =>
      rw [ha, ha'] at h'
      cases h'
    | ok out' =>
      rw [ha, ha'] at h'
      exact Or.inr ⟨out, out', rfl, rfl, (Except.ok.inj h').symm⟩

theorem Twin.withMovements {log log' : List Movement} (h : Twin w w') (hlog : undated log' = undated log) :
    Twin { w with movements := log } { w' with movements := log' } :=
  ⟨⟨h.ready.1.withMovements log, h.ready.2.withMovements log'⟩, h.balances, h.heads, h.log, hlog,
    h.pending⟩

theorem Mirrored.flushes (h : Mirrored refused s w s' w') :
    (flush s' w').1 = (flush s w).1 ∧
      Mirrored refused (flush s w).2.1 (flush s w).2.2 (flush s' w').2.1 (flush s' w').2.2 := by
  unfold flush
  have hnil := undated_eq_nil h.sessions.pending
  by_cases hp : s.pending = []
  · rw [if_pos hp, if_pos (hnil.mpr hp)]
    exact ⟨rfl, h⟩
  · rw [if_neg hp, if_neg (mt hnil.mp hp)]
    have hemptied : TwinSession refused { s with pending := [] } { s' with pending := [] } := by
      refine ⟨?_, h.sessions.accepted, rfl, h.sessions.outcomes⟩
      rw [h.sessions.same]
    rcases appendMovements_twin h.sessions.pending h.worlds.movements with
      ⟨e, he, he'⟩ | ⟨log, log', hl, hl', hlog⟩
    · simp only [he, he']
      exact ⟨trivial, hemptied, h.worlds, h.process, h.open_⟩
    · simp only [hl, hl']
      exact ⟨trivial, hemptied, h.worlds.withMovements hlog, h.process, h.open_⟩

theorem Twin.withTicks (h : Twin w w') (ticks ticks' : Nat) :
    Twin { w with ticks := ticks } { w' with ticks := ticks' } := by
  have hready : ∀ {w : World} (ticks : Nat), w.Ready → ({ w with ticks := ticks } : World).Ready := by
    intro w ticks hw
    obtain ⟨h1, h2, h3, h4, h5, h6, h7, h8, h9, h10⟩ := hw.closed
    exact ⟨⟨h1, h2, h3, h4, h5, h6, h7, h8, h9, h10⟩, hw.honest⟩
  exact ⟨⟨hready ticks h.ready.1, hready ticks' h.ready.2⟩, h.balances, h.heads, h.log, h.movements,
    h.pending⟩

theorem Mirrored.accepts (h : Mirrored refused s w s' w') (hdigest : env'.digest = env.digest)
    (request : MovementRequest) :
    Mirrored refused (accept env request s w).1 (accept env request s w).2
      (accept env' request s' w').1 (accept env' request s' w').2 := by
  have hsame := h.sessions.same
  have hmovement : (nextMovement env' request s' w').undated = (nextMovement env request s w).undated := by
    rw [hsame]
    simp only [nextMovement, Movement.undated, hdigest]
  have hjoin : ∀ {ms ms' : List Movement}, undated ms' = undated ms →
      undated (ms' ++ [nextMovement env' request s' w']) =
        undated (ms ++ [nextMovement env request s w]) := by
    intro ms ms' hms
    simp only [undated, List.map_append, List.map_cons, List.map_nil] at hms ⊢
    rw [hms, hmovement]
  have hseq : s'.seq = s.seq := by rw [hsame]
  refine ⟨⟨?_, hjoin h.sessions.accepted, hjoin h.sessions.pending, ?_⟩, h.worlds.withTicks _ _,
    h.process, fun hset => h.open_ hset⟩
  · rw [hsame]
    simp only [accept, InstanceSession.remember, hdigest]
  · intro key hk
    simp only [accept, InstanceSession.remember, Table.get_set, hseq]
    rw [h.sessions.outcomes key hk]

theorem Mirrored.offers (h : Mirrored refused s w s' w') (hdigest : env'.digest = env.digest)
    {request : MovementRequest} (hkey : ¬ refused request.idempotencyKey) :
    (offer env' request s' w').1 = (offer env request s w).1 ∧
      (offer env' request s' w').2.1 = (offer env request s w).2.1 ∧
        Mirrored refused (offer env request s w).2.2.1 (offer env request s w).2.2.2
          (offer env' request s' w').2.2.1 (offer env' request s' w').2.2.2 := by
  unfold offer
  rw [h.sessions.settled, h.sessions.outcomes _ hkey]
  cases hset : s.settled with
  | true => exact ⟨rfl, rfl, h⟩
  | false =>
    simp only [Bool.false_eq_true, if_false]
    cases s.outcomes.get request.idempotencyKey with
    | some outcome => exact ⟨rfl, rfl, h⟩
    | none =>
      unfold reserve
      cases requireMovementLegs request.legs with
      | error e => exact ⟨rfl, rfl, h⟩
      | ok u =>
        obtain ⟨hforced, hunposted, hc, hc'⟩ := h.open_ hset
        have hscreen := reserveLegs_screens request.legs [] h.worlds.ready.1 h.worlds.ready.2
          h.worlds.balanceOf h.worlds.pending hc hc'
        obtain ⟨hs, hres, -⟩ := reserveLegs_spec request.legs [] s w
        obtain ⟨hs', hres', -⟩ := reserveLegs_spec request.legs [] s' w'
        simp only
        rcases hr : reserveLegs request.legs [] s w with ⟨verdict, s₁, w₁⟩
        rcases hr' : reserveLegs request.legs [] s' w' with ⟨other, s₁', w₁'⟩
        rw [hr, hr'] at hscreen
        rw [hr] at hs hres
        rw [hr'] at hs' hres'
        simp only at hs hres hs' hres'
        obtain ⟨hverdict, hpend, hcur⟩ := hscreen
        simp only at hverdict hpend hcur
        subst other
        have hworlds : Twin w₁ w₁' := h.worlds.reserves hres hres' hpend
        have hsessions : TwinSession refused s₁ s₁' := by
          have hsame := h.sessions.same
          refine ⟨?_, ?_, ?_, ?_⟩
          · rw [hs', hs, hsame]
          · rw [hs', hs]
            exact h.sessions.accepted
          · rw [hs', hs]
            exact h.sessions.pending
          · rw [hs', hs]
            exact h.sessions.outcomes
        have hprocess : s₁.scope = .process := by
          rw [hs]
          exact h.process
        have hposted : ∀ id, w₁.posted id = w.posted id :=
          World.posted_book (congrArg MemoryLedger.book hres.ledger)
        have hopen : s₁.settled = false → s₁.replayForced = false ∧ Unposted s₁.sessionId w₁ ∧
            Current s₁ w₁ ∧ Current s₁' w₁' := by
          intro _
          refine ⟨?_, ?_, hcur⟩
          · rw [hs]
            exact hforced
          · intro i
            rw [hposted, hposted, hs]
            exact hunposted i
        cases verdict with
        | error e => exact ⟨rfl, rfl, hsessions, hworlds, hprocess, hopen⟩
        | ok verdict =>
          cases verdict with
          | some code =>
            refine ⟨rfl, rfl, hsessions.remember _ _, hworlds, hprocess, ?_⟩
            exact fun hset => hopen hset
          | none =>
            have hseq : s₁'.seq = s₁.seq := by rw [hsessions.same]
            refine ⟨congrArg (fun seq => Except.ok (MovementOutcome.accepted seq)) hseq, rfl, ?_⟩
            exact Mirrored.accepts ⟨hsessions, hworlds, hprocess, hopen⟩ hdigest request

theorem Mirrored.records (h : Mirrored refused s w s' w') (hdigest : env'.digest = env.digest)
    {request : MovementRequest} (hkey : ¬ refused request.idempotencyKey) :
    (record env' request s' w').1 = (record env request s w).1 ∧
      Mirrored refused (record env request s w).2.1 (record env request s w).2.2
        (record env' request s' w').2.1 (record env' request s' w').2.2 := by
  have hoffer := h.offers hdigest hkey
  rw [← recordOver_taken, ← recordOver_taken]
  unfold recordOver
  revert hoffer
  rcases offer env request s w with ⟨res, entered, s₁, w₁⟩
  rcases offer env' request s' w' with ⟨res', entered', s₁', w₁'⟩
  rintro ⟨hres, hentered, hoffered⟩
  simp only at hres hentered hoffered
  subst res' entered'
  cases entered with
  | false => exact ⟨rfl, hoffered⟩
  | true =>
    have hfull := hoffered.sessions.full
    simp only [flushUnder_taken]
    by_cases hf : s₁.maxBatch ≤ s₁.pending.length
    · simp only [hf, hfull.mpr hf, if_true]
      have hflush := hoffered.flushes
      revert hflush
      rcases flush s₁ w₁ with ⟨r, s₂, w₂⟩
      rcases flush s₁' w₁' with ⟨r', s₂', w₂'⟩
      rintro ⟨hres, hflushed⟩
      simp only at hres hflushed
      subst r'
      cases r with
      | error e => exact ⟨rfl, hflushed⟩
      | ok u => exact ⟨rfl, hflushed⟩
    · simp only [hf, mt hfull.mp hf, if_false]
      exact ⟨trivial, hoffered⟩

theorem postChunk_twin (h : Twin w w') (hdigest : env'.digest = env.digest) (sessionId : String)
    (shape : Shape) (chunk : Chunk) (index : Nat) (compensate : Bool) :
    (postChunk env' sessionId shape chunk index compensate w').1 =
        (postChunk env sessionId shape chunk index compensate w).1 ∧
      Twin (postChunk env sessionId shape chunk index compensate w).2
        (postChunk env' sessionId shape chunk index compensate w').2 := by
  unfold postChunk
  cases chunkLegs (if compensate then -1 else 1) chunk with
  | error e => exact ⟨rfl, h⟩
  | ok legs => exact h.postOnce hdigest _

theorem postChunks_twin (h : Twin w w') (hdigest : env'.digest = env.digest) (sessionId : String)
    (shape : Shape) (pairs : List (Chunk × Nat)) (posted : List Nat) :
    (postChunks env' sessionId shape pairs posted w').1 =
    (postChunks env sessionId shape pairs posted w).1 ∧
      Twin (postChunks env sessionId shape pairs posted w).2
        (postChunks env' sessionId shape pairs posted w').2 := by
  induction pairs generalizing posted w w' with
  | nil => exact ⟨rfl, h⟩
  | cons pair pairs ih =>
    obtain ⟨chunk, index⟩ := pair
    have hone := postChunk_twin h hdigest sessionId shape chunk index false
    unfold postChunks
    revert hone
    rcases postChunk env sessionId shape chunk index false w with ⟨r, w₁⟩
    rcases postChunk env' sessionId shape chunk index false w' with ⟨r', w₁'⟩
    rintro ⟨hres, htwin⟩
    simp only at hres htwin
    subst r'
    cases r with
    | error e => exact ⟨rfl, htwin⟩
    | ok u => exact ih htwin _

theorem compensateChunks_twin (h : Twin w w') (hdigest : env'.digest = env.digest) (sessionId : String)
    (shape : Shape) (chunks : List Chunk) (indexes : List Nat) :
    (compensateChunks env' sessionId shape chunks indexes w').1 =
        (compensateChunks env sessionId shape chunks indexes w).1 ∧
      Twin (compensateChunks env sessionId shape chunks indexes w).2
        (compensateChunks env' sessionId shape chunks indexes w').2 := by
  induction indexes generalizing w w' with
  | nil => exact ⟨rfl, h⟩
  | cons index indexes ih =>
    have hone := postChunk_twin h hdigest sessionId shape (chunks.getD index []) index true
    unfold compensateChunks
    revert hone
    rcases postChunk env sessionId shape (chunks.getD index []) index true w with ⟨r, w₁⟩
    rcases postChunk env' sessionId shape (chunks.getD index []) index true w' with ⟨r', w₁'⟩
    rintro ⟨hres, htwin⟩
    simp only at hres htwin
    subst r'
    cases r with
    | error e => exact ⟨rfl, htwin⟩
    | ok u => exact ih htwin

theorem replayMovements_twin (hs : TwinSession refused s s') (h : Twin w w')
    (hdigest : env'.digest = env.digest) (sessionId head : String)
    (hms : undated ms' = undated ms) (postings : Nat) (rejected : List (String × Reason)) :
    (replayMovements env' sessionId head ms' postings rejected s' w').1 =
        (replayMovements env sessionId head ms postings rejected s w).1 ∧
      TwinSession refused (replayMovements env sessionId head ms postings rejected s w).2.1
        (replayMovements env' sessionId head ms' postings rejected s' w').2.1 ∧
      Twin (replayMovements env sessionId head ms postings rejected s w).2.2
        (replayMovements env' sessionId head ms' postings rejected s' w').2.2 := by
  induction ms generalizing ms' postings rejected s s' w w' with
  | nil =>
    rw [(undated_eq_nil hms).mpr rfl]
    exact ⟨rfl, hs, h⟩
  | cons m ms ih =>
    cases ms' with
    | nil => exact absurd ((undated_eq_nil hms).mp rfl) (List.cons_ne_nil m ms)
    | cons m' ms' =>
      obtain ⟨hm, htail⟩ := List.cons.inj hms
      have hposting : replayPosting sessionId head m' = replayPosting sessionId head m := by
        have hsame := congrArg (replayPosting sessionId head) hm
        exact hsame
      have hkey := congrArg Movement.idempotencyKey hm
      change m'.idempotencyKey = m.idempotencyKey at hkey
      have hone := h.postOnce hdigest (replayPosting sessionId head m)
      unfold replayMovements
      rw [hposting, hkey]
      revert hone
      rcases transaction (postOnce env (replayPosting sessionId head m)) w with ⟨r, w₁⟩
      rcases transaction (postOnce env' (replayPosting sessionId head m)) w' with ⟨r', w₁'⟩
      rintro ⟨hres, htwin⟩
      simp only at hres htwin
      subst r'
      cases r with
      | error e => exact ih (hs.remember _ _) htwin htail _ _
      | ok u => exact ih hs htwin htail _ _

theorem releaseReservations_process (env : Env) (hprocess : s.scope = .process) :
    releaseReservations env s w =
      (.ok (), { s with released := true }, if s.released then w else releaseAll s.accepted w) := by
  unfold releaseReservations
  cases hr : s.released with
  | true =>
    have hs : ({ s with released := true } : InstanceSession) = s := by rw [← hr]
    rw [if_pos rfl, if_pos rfl, hs]
  | false => simp only [hprocess, Bool.false_eq_true, if_false]

theorem releaseReservations_twin (env env' : Env) (hs : TwinSession refused s s') (h : Twin w w')
    (hprocess : s.scope = .process) :
    (releaseReservations env' s' w').1 = (releaseReservations env s w).1 ∧
      TwinSession refused (releaseReservations env s w).2.1 (releaseReservations env' s' w').2.1 ∧
      Twin (releaseReservations env s w).2.2 (releaseReservations env' s' w').2.2 := by
  have hscope : s'.scope = .process := by
    rw [hs.same]
    exact hprocess
  have hreleased : s'.released = s.released := by rw [hs.same]
  rw [releaseReservations_process env hprocess, releaseReservations_process env' hscope, hreleased]
  refine ⟨rfl, ⟨?_, hs.accepted, hs.pending, hs.outcomes⟩, ?_⟩
  · rw [hs.same]
  · cases s.released with
    | true => exact h
    | false =>
      obtain ⟨hres, hpend⟩ := releaseAll_spec s.accepted w
      obtain ⟨hres', hpend'⟩ := releaseAll_spec s'.accepted w'
      refine h.reserves hres hres' ?_
      intro a
      have hdeltas : walletDeltas s'.accepted = walletDeltas s.accepted := by
        rw [← walletDeltas_undated s'.accepted, hs.accepted, walletDeltas_undated]
      change (releaseAll s'.accepted w').pendingOf a = (releaseAll s.accepted w).pendingOf a
      rw [hpend, hpend', h.pending, hdeltas]

theorem replay_twin (hs : TwinSession refused s s') (h : Twin w w') (hprocess : s.scope = .process)
    (hdigest : env'.digest = env.digest) (head : String)
    (hms : undated ms' = undated ms) :
    (replay env' ms' head s' w').1 = (replay env ms head s w).1 ∧
      TwinSession refused (replay env ms head s w).2.1 (replay env' ms' head s' w').2.1 ∧
      Twin (replay env ms head s w).2.2 (replay env' ms' head s' w').2.2 := by
  have hreplayed := replayMovements_twin hs h hdigest s.sessionId head hms 0 []
  have hkept := (replayMovements_retains (s := s) env s.sessionId head ms 0 [] h.ready.1).session
  have hlen : ms'.length = ms.length := by
    have hlen := congrArg List.length hms
    simpa only [undated, List.length_map] using hlen
  unfold replay
  rw [hs.sessionId]
  revert hreplayed hkept
  rcases replayMovements env s.sessionId head ms 0 [] s w with ⟨p, s₁, w₁⟩
  rcases replayMovements env' s.sessionId head ms' 0 [] s' w' with ⟨p', s₁', w₁'⟩
  rintro ⟨hres, hsessions, hworlds⟩ hkept
  simp only at hres hsessions hworlds hkept
  subst p'
  have hscope : s₁.scope = .process := by
    rw [hkept]
    exact hprocess
  have hrelease := releaseReservations_twin env env' hsessions hworlds hscope
  revert hrelease
  simp only
  rcases releaseReservations env s₁ w₁ with ⟨r, s₂, w₂⟩
  rcases releaseReservations env' s₁' w₁' with ⟨r', s₂', w₂'⟩
  rintro ⟨hrel, hrels, hrelw⟩
  simp only at hrel hrels hrelw
  subst r'
  cases r with
  | error e => exact ⟨rfl, hrels, hrelw⟩
  | ok u =>
    simp only [hlen]
    exact ⟨trivial, hrels, hrelw⟩

theorem journal_twin (h : Twin w w') (hdigest : env'.digest = env.digest) (sessionId : String) :
    (∃ e, journal env sessionId w = .error e ∧ journal env' sessionId w' = .error e) ∨
    (∃ ms ms', journal env sessionId w = .ok ms ∧ journal env' sessionId w' = .ok ms' ∧
      undated ms' = undated ms) := by
  have hrows := h.bySession sessionId
  have hverify : verifyChain env'.digest GENESIS_HEX (bySession sessionId w'.movements) =
      verifyChain env.digest GENESIS_HEX (bySession sessionId w.movements) := by
    rw [← verifyChain_undated, hrows, verifyChain_undated, hdigest]
  simp only [journal, hverify]
  cases verifyChain env.digest GENESIS_HEX (bySession sessionId w.movements) with
  | error e => exact Or.inl ⟨e, rfl, rfl⟩
  | ok u => exact Or.inr ⟨_, _, rfl, rfl, hrows⟩

/-- Settling reads the journal, the chunk width and the flags, and they are alike. -/
theorem settleJournal_twin (hs : TwinSession refused s s') (h : Twin w w') (hprocess : s.scope = .process)
    (hdigest : env'.digest = env.digest) (head : String)
    (hms : undated ms' = undated ms) :
    (settleJournal env' ms' head s' w').1 = (settleJournal env ms head s w).1 ∧
      TwinSession refused (settleJournal env ms head s w).2.1 (settleJournal env' ms' head s' w').2.1 ∧
      Twin (settleJournal env ms head s w).2.2 (settleJournal env' ms' head s' w').2.2 := by
  have hforced : s'.replayForced = s.replayForced := by rw [hs.same]
  have hclosing : TwinSession refused { s with settled := true } { s' with settled := true } := by
    refine ⟨?_, hs.accepted, hs.pending, hs.outcomes⟩
    rw [hs.same]
  have hchunks : s'.chunks ms' = s.chunks ms := by
    have hpositions : positionsOf ms' = positionsOf ms := by
      rw [← positionsOf_undated ms', hms, positionsOf_undated]
    rw [hs.same]
    simp only [InstanceSession.chunks, hpositions]
  have hlen : ms'.length = ms.length := by
    have hlen := congrArg List.length hms
    simpa only [undated, List.length_map] using hlen
  unfold settleJournal
  by_cases hf : s.replayForced = true
  · rw [if_pos hf, if_pos (hforced.trans hf)]
    exact replay_twin hclosing h hprocess hdigest head hms
  · rw [if_neg hf, if_neg (hforced ▸ hf), hchunks, hlen]
    have hposts : (postChunks env' s'.sessionId ⟨(s.chunks ms).length, ms.length, head⟩
          (s.chunks ms).zipIdx [] w').1 =
          (postChunks env s.sessionId ⟨(s.chunks ms).length, ms.length, head⟩
            (s.chunks ms).zipIdx [] w).1 ∧
        Twin (postChunks env s.sessionId ⟨(s.chunks ms).length, ms.length, head⟩
            (s.chunks ms).zipIdx [] w).2
          (postChunks env' s'.sessionId ⟨(s.chunks ms).length, ms.length, head⟩
            (s.chunks ms).zipIdx [] w').2 := by
      rw [hs.sessionId]
      exact postChunks_twin h hdigest _ _ _ _
    have hcomps : ∀ {w w' : World}, Twin w w' → ∀ indexes,
        (compensateChunks env' s'.sessionId ⟨(s.chunks ms).length, ms.length, head⟩
          (s.chunks ms) indexes w').1 =
          (compensateChunks env s.sessionId ⟨(s.chunks ms).length, ms.length, head⟩
            (s.chunks ms) indexes w).1 ∧
        Twin (compensateChunks env s.sessionId ⟨(s.chunks ms).length, ms.length, head⟩
            (s.chunks ms) indexes w).2
          (compensateChunks env' s'.sessionId ⟨(s.chunks ms).length, ms.length, head⟩
            (s.chunks ms) indexes w').2 := by
      intro w w' h indexes
      rw [hs.sessionId]
      exact compensateChunks_twin h hdigest _ _ _ _
    revert hposts
    simp only
    rcases postChunks env s.sessionId ⟨(s.chunks ms).length, ms.length, head⟩ (s.chunks ms).zipIdx [] w
      with ⟨⟨through, posted⟩, w₁⟩
    rcases postChunks env' s'.sessionId ⟨(s.chunks ms).length, ms.length, head⟩ (s.chunks ms).zipIdx [] w'
      with ⟨p', w₁'⟩
    rintro ⟨hres, htwin⟩
    simp only at hres htwin
    subst p'
    cases through with
    | true =>
      have hrelease := releaseReservations_twin env env' hs htwin hprocess
      revert hrelease
      simp only
      rcases releaseReservations env s w₁ with ⟨r, s₂, w₂⟩
      rcases releaseReservations env' s' w₁' with ⟨r', s₂', w₂'⟩
      rintro ⟨hrel, hrels, hrelw⟩
      simp only at hrel hrels hrelw
      subst r'
      cases r with
      | error e => exact ⟨rfl, hrels, hrelw⟩
      | ok u =>
        refine ⟨rfl, ⟨?_, hrels.accepted, hrels.pending, hrels.outcomes⟩, hrelw⟩
        have hsame := hrels.same
        simp only at hsame ⊢
        rw [hsame]
    | false =>
      have hcomp := hcomps htwin posted.reverse
      revert hcomp
      simp only
      rcases compensateChunks env s.sessionId ⟨(s.chunks ms).length, ms.length, head⟩ (s.chunks ms)
        posted.reverse w₁ with ⟨r, w₂⟩
      rcases compensateChunks env' s'.sessionId ⟨(s.chunks ms).length, ms.length, head⟩ (s.chunks ms)
        posted.reverse w₁' with ⟨r', w₂'⟩
      rintro ⟨hcomp, hcompw⟩
      simp only at hcomp hcompw
      subst r'
      cases r with
      | error e => exact ⟨rfl, hs, hcompw⟩
      | ok u => exact replay_twin hclosing hcompw hprocess hdigest head hms

/-! ## Chunks that can be taken back -/

def Takes (b : AccountRef → Int) (sign : Int) (chunk : Chunk) : Prop :=
  ∃ legs, chunkLegs sign chunk = .ok legs ∧ Acceptable b legs

def movedBy (b : AccountRef → Int) (chunk : Chunk) : AccountRef → Int := fun a => b a + chunkMoves chunk a

def TakesAll : (AccountRef → Int) → List Chunk → Prop
  | _, [] => True
  | b, chunk :: rest => Takes b 1 chunk ∧ TakesAll (movedBy b chunk) rest

/-- Should a later chunk be refused, the ledger takes every chunk before it back. -/
def Retractable : (AccountRef → Int) → List Chunk → Prop
  | _, [] => True
  | b, chunk :: rest => Takes b 1 chunk →
      (¬ TakesAll (movedBy b chunk) rest → Takes (movedBy b chunk) (-1) chunk) ∧
        Retractable (movedBy b chunk) rest

/-- From `n` on, nothing of the session's settlement is on the ledger. -/
def UnpostedFrom (sessionId : String) (n : Nat) (w : World) : Prop :=
  ∀ i, n ≤ i → w.posted (chunkTxnId sessionId i) = false ∧ w.posted (compTxnId sessionId i) = false

theorem UnpostedFrom.landed {sessionId : String} {n : Nat} {posting : Posting}
    (h : UnpostedFrom sessionId n w) (hland : w.Landed posting w')
    (hid : posting.txnId = chunkTxnId sessionId n) : UnpostedFrom sessionId (n + 1) w' := by
  intro i hi
  obtain ⟨hchunk, hcomp⟩ := h i (by omega)
  have hother : posting.txnId ≠ chunkTxnId sessionId i := by
    rw [hid]
    intro he
    have := (chunkTxnId_inj.mp he).2
    omega
  have hother' : posting.txnId ≠ compTxnId sessionId i := by
    rw [hid]
    exact chunkTxnId_ne_comp sessionId n i
  rw [hland.posted, hland.posted, hchunk, hcomp]
  simp [hother, hother']

theorem movedBy_landed {chunk : Chunk} {legs : List Leg} {posting : Posting}
    (hlegs : chunkLegs 1 chunk = .ok legs) (hposting : posting.legs = legs) (hland : w.Landed posting w') :
    w'.balanceOf = movedBy w.balanceOf chunk := by
  funext a
  rw [hland.balance, hposting, chunk_moves hlegs]
  rfl

theorem postChunks_takesAll (env : Env) (sessionId : String) (shape : Shape) {chunks : List Chunk}
    {n : Nat} (posted : List Nat) (hnz : ∀ c ∈ chunks, ∀ p ∈ c, p.2 ≠ 0) (hw : w.Ready)
    (hun : UnpostedFrom sessionId n w) :
    (postChunks env sessionId shape (chunks.zipIdx n) posted w).1.1 = true ↔
      TakesAll w.balanceOf chunks := by
  induction chunks generalizing n posted w with
  | nil => exact ⟨fun _ => trivial, fun _ => rfl⟩
  | cons chunk chunks ih =>
    rw [List.forall_mem_cons] at hnz
    rw [List.zipIdx_cons]
    rcases postChunk_cases env sessionId shape hnz.1 n false hw rfl with
      ⟨hp, -⟩ | ⟨-, legs, hlegs, hacc, w', hpost, hland⟩ | ⟨-, hno, e, w', hpost, -⟩
    · rw [if_neg Bool.false_ne_true, (hun n le_rfl).1] at hp
      cases hp
    · simp only [postChunks, hpost]
      rw [ih (posted ++ [n]) hnz.2 hland.ready (hun.landed hland rfl), movedBy_landed hlegs rfl hland]
      exact ⟨fun h => ⟨⟨legs, hlegs, hacc⟩, h⟩, fun h => h.2⟩
    · simp only [postChunks, hpost, Bool.false_eq_true, false_iff]
      exact fun h => hno h.1

theorem compensateChunks_append {sessionId : String} {shape : Shape} {chunks : List Chunk}
    {xs ys : List Nat} (h : compensateChunks env sessionId shape chunks xs w = (.ok (), w')) :
    compensateChunks env sessionId shape chunks (xs ++ ys) w =
      compensateChunks env sessionId shape chunks ys w' := by
  induction xs generalizing w with
  | nil =>
    obtain ⟨-, rfl⟩ := Prod.mk.inj h
    rfl
  | cons x xs ih =>
    rw [compensateChunks] at h
    rw [List.cons_append, compensateChunks]
    rcases hp : postChunk env sessionId shape (chunks.getD x []) x true w with ⟨r, w₁⟩
    rw [hp] at h
    cases r with
    | error e => cases (Prod.mk.inj h).1
    | ok u => exact ih h

/-- After a refusal, the chunks posted since are taken back to the balances they found. -/
theorem postChunks_retracts (env : Env) (sessionId : String) (shape : Shape) {all chunks : List Chunk}
    {n : Nat} {posted posted' : List Nat} {w₁ : World} (hall : ∀ i, chunks.getD i [] = all.getD (n + i) [])
    (hnz : ∀ c ∈ chunks, ∀ p ∈ c, p.2 ≠ 0) (hw : w.Ready) (hun : UnpostedFrom sessionId n w)
    (hret : Retractable w.balanceOf chunks)
    (hrun : postChunks env sessionId shape (chunks.zipIdx n) posted w = ((false, posted'), w₁)) :
    ∃ new w₂, posted' = posted ++ new ∧
      compensateChunks env sessionId shape all new.reverse w₁ = (.ok (), w₂) ∧ w₂.Ready ∧
      w₂.balanceOf = w.balanceOf ∧
      ∀ i < n, w₂.posted (compTxnId sessionId i) = w.posted (compTxnId sessionId i) := by
  induction chunks generalizing n posted w with
  | nil => cases (Prod.mk.inj (Prod.mk.inj hrun).1).1
  | cons chunk chunks ih =>
    rw [List.forall_mem_cons] at hnz
    rw [List.zipIdx_cons] at hrun
    rcases postChunk_cases env sessionId shape hnz.1 n false hw rfl with
      ⟨hp, -⟩ | ⟨-, legs, hlegs, hacc, w', hpost, hland⟩ | ⟨-, -, e, w', hpost, hsame, hready⟩
    · rw [if_neg Bool.false_ne_true, (hun n le_rfl).1] at hp
      cases hp
    · simp only [postChunks, hpost] at hrun
      have hmoved := movedBy_landed hlegs rfl hland
      obtain ⟨hback, hrest⟩ := hret ⟨legs, hlegs, hacc⟩
      rw [← hmoved] at hback hrest
      have hun' := hun.landed hland rfl
      have htail : ∀ i, chunks.getD i [] = all.getD (n + 1 + i) [] := by
        intro i
        have hi := hall (i + 1)
        rw [List.getD_cons_succ] at hi
        rw [hi]
        congr 1
        omega
      obtain ⟨new, w₂, rfl, hcomp, hready₂, hbal₂, hids₂⟩ := ih htail hnz.2 hland.ready hun' hrest hrun
      have hrefused : ¬ TakesAll w'.balanceOf chunks := by
        rw [← postChunks_takesAll env sessionId shape (posted ++ [n]) hnz.2 hland.ready hun', hrun]
        exact Bool.false_ne_true
      -- the first chunk goes back last, over the balances it left
      have hcompn : w₂.posted (compTxnId sessionId n) = false := by
        rw [hids₂ n (Nat.lt_succ_self n), hland.posted, (hun n le_rfl).2, Bool.false_or,
          decide_eq_false_iff_not]
        exact chunkTxnId_ne_comp sessionId n n
      have hchunk : all.getD n [] = chunk := by
        have h0 := hall 0
        rw [List.getD_cons_zero, Nat.add_zero] at h0
        exact h0.symm
      have htakes := hback hrefused
      rw [← hbal₂] at htakes
      obtain ⟨w₃, hpost₃, legs₃, hlegs₃, hland₃⟩ : ∃ w₃, postChunk env sessionId shape chunk n true w₂ =
          (.ok (), w₃) ∧ ∃ legs₃, chunkLegs (-1) chunk = .ok legs₃ ∧
            w₂.Landed (chunkPosting sessionId shape n true legs₃) w₃ := by
        rcases postChunk_cases env sessionId shape hnz.1 n true hready₂ rfl with
          ⟨hp, -⟩ | ⟨-, legs', hlegs', -, w₃, hpost', hland'⟩ | ⟨-, hno, -⟩
        · rw [if_pos rfl, hcompn] at hp
          cases hp
        · exact ⟨w₃, hpost', legs', hlegs', hland'⟩
        · exact absurd htakes hno
      have hback₃ : ∀ a, w₃.balanceOf a = w.balanceOf a := by
        intro a
        have hlegs₃' : total (deltas (chunkPosting sessionId shape n true legs₃).legs) a =
            chunkMoves chunk a * -1 := by
          have hmoves := total_chunkEntries (-1) chunk a
          rw [← (chunkLegs_stored hlegs₃).1, ← deltas_eq_natural] at hmoves
          exact hmoves
        have hforth := congrFun hmoved a
        rw [hland₃.balance, hlegs₃', hbal₂, hforth]
        unfold movedBy
        ring
      refine ⟨n :: new, w₃, by simp, ?_, hland₃.ready, funext hback₃, ?_⟩
      · rw [List.reverse_cons, compensateChunks_append hcomp, compensateChunks, hchunk, hpost₃]
        rfl
      · intro i hi
        have hne : compTxnId sessionId n ≠ compTxnId sessionId i := by
          intro he
          have := compTxnId_inj.mp he
          omega
        have hid₃ : (chunkPosting sessionId shape n true legs₃).txnId = compTxnId sessionId n := rfl
        have hid : (chunkPosting sessionId shape n false legs).txnId = chunkTxnId sessionId n := rfl
        rw [hland₃.posted, hids₂ i (by omega), hland.posted, hid₃, hid, decide_eq_false hne,
          decide_eq_false (chunkTxnId_ne_comp sessionId n i), Bool.or_false, Bool.or_false]
    · simp only [postChunks, hpost] at hrun
      obtain ⟨hp, rfl⟩ := Prod.mk.inj hrun
      obtain ⟨-, rfl⟩ := Prod.mk.inj hp
      exact ⟨[], w', (List.append_nil _).symm, rfl, hready, funext fun a => hsame.balanceOf a,
        fun i _ => hsame.posted _⟩

theorem replayMovements_session (env : Env) (sessionId head : String) (ms : List Movement)
    (postings : Nat) (rejected : List (String × Reason)) (s : InstanceSession) (w : World) :
    ∃ outcomes, (replayMovements env sessionId head ms postings rejected s w).2.1 =
      { s with outcomes := outcomes } := by
  induction ms generalizing postings rejected s w with
  | nil => exact ⟨s.outcomes, rfl⟩
  | cons m ms ih =>
    unfold replayMovements
    rcases transaction (postOnce env (replayPosting sessionId head m)) w with ⟨r, w₁⟩
    cases r with
    | error e =>
      obtain ⟨outcomes, ho⟩ := ih postings (rejected ++ [(m.idempotencyKey, reasonOf e)])
        (s.remember m.idempotencyKey (.rejected (reasonOf e))) w₁
      exact ⟨outcomes, ho⟩
    | ok u => exact ih (postings + 1) rejected s w₁

theorem replay_session (env : Env) (ms : List Movement) (head : String) (s : InstanceSession)
    (hw : w.Ready) : ∃ outcomes, (replay env ms head s w).2.1 =
      { s with outcomes := outcomes, released := true } := by
  obtain ⟨outcomes, ho⟩ := replayMovements_session env s.sessionId head ms 0 [] s w
  have hready := (replayMovements_retains (s := s) env s.sessionId head ms 0 [] hw).ready
  unfold replay
  rcases hr : replayMovements env s.sessionId head ms 0 [] s w with ⟨⟨postings, rejected⟩, s₁, w₁⟩
  rw [hr] at ho hready
  simp only at ho hready
  obtain ⟨w₂, hrel, -⟩ := releaseReservations_ok env s₁ hready
  simp only [hrel]
  exact ⟨outcomes, by rw [ho]⟩

/-- What a settlement leaves of an open session: it is closed, or nothing was posted for good. -/
theorem settleJournal_open (env : Env) (head : String)
    (hforced : s.replayForced = false) (hw : w.Ready) (hun : Unposted s.sessionId w)
    (hret : Retractable w.balanceOf (s.chunks ms)) :
    (settleJournal env ms head s w).2.1.settled = true := by
  have hnz : ∀ c ∈ s.chunks ms, ∀ p ∈ c, p.2 ≠ 0 := by
    intro c hc p hp
    have hmem : p ∈ positionsOf ms := by
      rw [← flatten_chunksOf s.chunkWidth_pos (positionsOf ms)]
      exact List.mem_flatten_of_mem hc hp
    simpa using (List.mem_filter.mp hmem).2
  unfold settleJournal
  rw [if_neg (by simp [hforced])]
  simp only
  rcases hp : postChunks env s.sessionId ⟨(s.chunks ms).length, ms.length, head⟩ (s.chunks ms).zipIdx [] w
    with ⟨⟨through, posted⟩, w₁⟩
  have hready₁ := (postChunks_grows env s.sessionId ⟨(s.chunks ms).length, ms.length, head⟩
    (s.chunks ms).zipIdx [] hw).ready
  rw [hp] at hready₁
  cases through with
  | true =>
    obtain ⟨w₂, hrel, -⟩ := releaseReservations_ok env s hready₁
    simp only [hrel]
  | false =>
    obtain ⟨new, w₂, hposted, hcomp, hready₂, -⟩ := postChunks_retracts env s.sessionId _
      (fun i => by rw [Nat.zero_add]) hnz hw (fun i _ => hun i) hret hp
    rw [List.nil_append] at hposted
    subst hposted
    simp only [hcomp]
    obtain ⟨outcomes, ho⟩ := replay_session env ms head { s with settled := true } hready₂
    rw [ho]

theorem settleJournal_session (env : Env) (ms : List Movement) (head : String) (s : InstanceSession)
    (hw : w.Ready) : ∃ outcomes settled released, (settleJournal env ms head s w).2.1 =
      { s with outcomes := outcomes, settled := settled, released := released } ∧
        (s.settled = true → settled = true) := by
  unfold settleJournal
  split
  · obtain ⟨outcomes, ho⟩ := replay_session env ms head { s with settled := true } hw
    exact ⟨outcomes, true, true, ho, fun _ => rfl⟩
  · simp only
    have hready₁ := (postChunks_grows env s.sessionId ⟨(s.chunks ms).length, ms.length, head⟩
      (s.chunks ms).zipIdx [] hw).ready
    rcases hp : postChunks env s.sessionId ⟨(s.chunks ms).length, ms.length, head⟩
      (s.chunks ms).zipIdx [] w with ⟨⟨through, posted⟩, w₁⟩
    rw [hp] at hready₁
    cases through with
    | true =>
      obtain ⟨w₂, hrel, -⟩ := releaseReservations_ok env s hready₁
      simp only [hrel]
      exact ⟨s.outcomes, true, true, rfl, fun _ => rfl⟩
    | false =>
      have hready₂ := (compensateChunks_grows env s.sessionId
        ⟨(s.chunks ms).length, ms.length, head⟩ (s.chunks ms) posted.reverse hready₁).ready
      rcases hc : compensateChunks env s.sessionId ⟨(s.chunks ms).length, ms.length, head⟩ (s.chunks ms)
        posted.reverse w₁ with ⟨r, w₂⟩
      rw [hc] at hready₂
      simp only [hc]
      cases r with
      | error e => exact ⟨s.outcomes, s.settled, s.released, rfl, fun hset => hset⟩
      | ok u =>
        obtain ⟨outcomes, ho⟩ := replay_session env ms head { s with settled := true } hready₂
        exact ⟨outcomes, true, true, ho, fun _ => rfl⟩

def InstanceSession.nextChunks (s : InstanceSession) (w : World) : List Chunk :=
  s.chunks (bySession s.sessionId (flush s w).2.2.movements)

theorem flush_frame (s : InstanceSession) (w : World) :
    (∃ pending, (flush s w).2.1 = { s with pending := pending }) ∧
      ∃ log, (flush s w).2.2 = { w with movements := log } := by
  unfold flush
  split
  · exact ⟨⟨s.pending, rfl⟩, w.movements, rfl⟩
  · cases appendMovements s.pending w.movements with
    | error e => exact ⟨⟨[], rfl⟩, w.movements, rfl⟩
    | ok log => exact ⟨⟨[], rfl⟩, log, rfl⟩

/-- Both settle alike, and stay as alike as they were. -/
theorem Mirrored.settles (h : Mirrored refused s w s' w') (hdigest : env'.digest = env.digest)
    (hret : s.settled = false → Retractable w.balanceOf (s.nextChunks w)) :
    (settle env' s' w').1 = (settle env s w).1 ∧
      Mirrored refused (settle env s w).2.1 (settle env s w).2.2
        (settle env' s' w').2.1 (settle env' s' w').2.2 := by
  obtain ⟨⟨pending, hflushS⟩, log, hflushW⟩ := flush_frame s w
  have hboth := h.flushes
  unfold settle
  unfold InstanceSession.nextChunks at hret
  revert hboth hflushS hflushW hret
  rcases flush s w with ⟨r, s₁, w₁⟩
  rcases flush s' w' with ⟨r', s₁', w₁'⟩
  intro hret hflushS hflushW hboth
  obtain ⟨hres, hflushed⟩ := hboth
  simp only at hret hflushS hflushW hres hflushed
  subst r'
  cases r with
  | error e => exact ⟨rfl, hflushed⟩
  | ok u =>
    simp only
    rw [hflushed.sessions.sessionId]
    have hready := hflushed.worlds.ready
    rcases journal_twin hflushed.worlds hdigest s₁.sessionId with ⟨e, he, he'⟩ | ⟨ms, ms', hj, hj', hms⟩
    · simp only [he, he']
      exact ⟨trivial, hflushed⟩
    · simp only [hj, hj']
      have hrows : ms = bySession s.sessionId w₁.movements := by
        rw [journal_rows hj, hflushS]
      have hhead := congrArg List.getLast? hms
      simp only [undated, List.getLast?_map] at hhead
      cases hlast : ms.getLast? with
      | none =>
        rw [hlast] at hhead
        have hlast' : ms'.getLast? = none := by simpa using hhead
        simp only [hlast']
        exact ⟨trivial, hflushed⟩
      | some last =>
        rw [hlast] at hhead
        obtain ⟨last', hlast', hdates⟩ := Option.map_eq_some_iff.mp hhead
        have hhash := congrArg Movement.hash hdates
        change last'.hash = last.hash at hhash
        simp only [hlast', hhash]
        obtain ⟨hres, hsessions, hworlds⟩ := settleJournal_twin hflushed.sessions hflushed.worlds
          hflushed.process hdigest last.hash hms
        obtain ⟨outcomes, settled, released, hs, hclosed⟩ :=
          settleJournal_session env ms last.hash s₁ hready.1
        refine ⟨hres, hsessions, hworlds, ?_, ?_⟩
        · rw [hs]
          exact hflushed.process
        · -- a settlement whose chunks can be taken back closes the session
          intro hstill
          exfalso
          cases hopen : s₁.settled with
          | true =>
            rw [hs] at hstill
            rw [hclosed hopen] at hstill
            cases hstill
          | false =>
            obtain ⟨hforced, hun, -⟩ := hflushed.open_ hopen
            have hchunks : s₁.chunks ms = s.chunks (bySession s.sessionId w₁.movements) := by
              rw [← hrows, hflushS]
              rfl
            have hbal : w₁.balanceOf = w.balanceOf := by
              rw [hflushW]
              rfl
            have hset : s.settled = false := by
              rw [hflushS] at hopen
              exact hopen
            have hback := hret hset
            rw [← hchunks, ← hbal] at hback
            rw [settleJournal_open env last.hash hforced hready.1 hun hback] at hstill
            cases hstill

end Sessions

end EconomyLab
