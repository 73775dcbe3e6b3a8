import EconomyLab.Netting.Closing
import EconomyLab.Netting.Reserving

/-!
# A journal that fails

The pending batch leaves the session before the journal has taken it. A write that fails and
left nothing behind is the end of the batch: no later call brings it back, while its keys
still answer that they were accepted.
-/

namespace EconomyLab

open Foundation

/-! ## Calls over a failing journal -/

def journalFault : Fault := ⟨some .storeFailure, "The movement journal is unreachable.", true⟩

/-- `movements.append` under its fate, with the rows it leaves. -/
def appendUnder (fate : CallFate) (batch log : List Movement) : Except Fault Unit × List Movement :=
  match fate, appendMovements batch log with
  | .thrown, _ => (.error journalFault, log)
  | _, .error e => (.error e, log)
  | .taken, .ok log => (.ok (), log)
  | .lost, .ok log => (.error journalFault, log)

def flushUnder (fate : CallFate) (s : InstanceSession) (w : World) :
    Except Fault Unit × InstanceSession × World :=
  if s.pending = [] then (.ok (), s, w)
  else
    ((appendUnder fate s.pending w.movements).1, { s with pending := [] },
      { w with movements := (appendUnder fate s.pending w.movements).2 })

/-- `record` up to the flush of a full batch, and whether a movement entered the session. -/
def offer (env : Env) (request : MovementRequest) (s : InstanceSession) (w : World) :
    Except Fault MovementOutcome × Bool × InstanceSession × World :=
  if s.settled then (.error sessionSettledFault, false, s, w)
  else
    match s.outcomes.get request.idempotencyKey with
    | some outcome => (.ok outcome, false, s, w)
    | none =>
      match reserve request.legs s w with
      | (.error e, s, w) => (.error e, false, s, w)
      | (.ok (some code), s, w) =>
        let outcome := .rejected (.rejection code)
        (.ok outcome, false, s.remember request.idempotencyKey outcome, w)
      | (.ok none, s, w) => (.ok (.accepted s.seq), true, accept env request s w)

def recordOver (env : Env) (fate : CallFate) (request : MovementRequest) (s : InstanceSession)
    (w : World) : Except Fault MovementOutcome × InstanceSession × World :=
  match offer env request s w with
  | (res, false, s, w) => (res, s, w)
  | (res, true, s, w) =>
    if s.maxBatch ≤ s.pending.length then
      match flushUnder fate s w with
      | (.error e, s, w) => (.error e, s, w)
      | (.ok (), s, w) => (res, s, w)
    else (res, s, w)

def settleRead (env : Env) (s : InstanceSession) (w : World) :
    Except Fault SettleReport × InstanceSession × World :=
  match journal env s.sessionId w with
  | .error e => (.error e, s, w)
  | .ok movements =>
    match movements.getLast? with
    | none => (.ok ⟨.netted, 0, [], GENESIS_HEX, 0⟩, s, w)
    | some last => settleJournal env movements last.hash s w

def settleOver (env : Env) (fate : CallFate) (s : InstanceSession) (w : World) :
    Except Fault SettleReport × InstanceSession × World :=
  match flushUnder fate s w with
  | (.error e, s, w) => (.error e, s, w)
  | (.ok (), s, w) => settleRead env s w

theorem flushUnder_taken (s : InstanceSession) (w : World) : flushUnder .taken s w = flush s w := by
  unfold flushUnder flush appendUnder
  split
  · rfl
  · cases appendMovements s.pending w.movements <;> rfl

theorem recordOver_taken (env : Env) (request : MovementRequest) (s : InstanceSession) (w : World) :
    recordOver env .taken request s w = record env request s w := by
  unfold recordOver offer record
  cases s.settled with
  | true => rfl
  | false =>
    cases s.outcomes.get request.idempotencyKey with
    | some outcome => rfl
    | none =>
      simp only [Bool.false_eq_true, if_false]
      rcases reserve request.legs s w with ⟨res, s, w⟩
      cases res with
      | error e => rfl
      | ok verdict =>
        cases verdict with
        | some code => rfl
        | none =>
          simp only
          split_ifs with hfull
          · split
            all_goals
              rename_i hflush
              rw [flushUnder_taken] at hflush
              simp only [hflush]
          · rfl

theorem settleOver_taken (env : Env) (s : InstanceSession) (w : World) :
    settleOver env .taken s w = settle env s w := by
  unfold settleOver settle
  rcases hflush : flush s w with ⟨res, s', w'⟩
  have hunder : flushUnder .taken s w = (res, s', w') := (flushUnder_taken s w).trans hflush
  cases res with
  | error e => simp only [hunder]
  | ok done =>
    simp only [hunder]
    rfl

/-- The batch of a write that failed with nothing written. -/
def unwritten (fate : CallFate) (s : InstanceSession) (w : World) : List Movement :=
  match fate, appendMovements s.pending w.movements with
  | .thrown, _ => s.pending
  | _, .error _ => s.pending
  | _, .ok _ => []

inductive SessionCall
  | record (request : MovementRequest) (fate : CallFate)
  | flush (fate : CallFate)
  | settle (fate : CallFate)

def SessionCall.after (env : Env) (s : InstanceSession) (w : World) : SessionCall → InstanceSession × World
  | .record request fate => (recordOver env fate request s w).2
  | .flush fate => (flushUnder fate s w).2
  | .settle fate => (settleOver env fate s w).2

/-- The accepted movements whose write fails in the call with nothing written. -/
def SessionCall.unwritten (env : Env) (s : InstanceSession) (w : World) : SessionCall → List Movement
  | .record request fate =>
    match offer env request s w with
    | (_, true, s, w) => if s.maxBatch ≤ s.pending.length then EconomyLab.unwritten fate s w else []
    | _ => []
  | .flush fate => EconomyLab.unwritten fate s w
  | .settle fate => EconomyLab.unwritten fate s w

/-- A session object opened over a journal without its rows, or recovered from its rows. -/
inductive Begun (env : Env) : InstanceSession → World → Prop
  | opened {sessionId : String} (maxBatch : Nat) (width : {n : Nat // 0 < n}) (scope : Scope) {w : World}
      (ready : w.Ready) (fresh : bySession sessionId w.movements = []) :
      Begun env (openInstanceSession sessionId maxBatch width scope) w
  | recovered {sessionId : String} {maxBatch : Nat} {width : {n : Nat // 0 < n}} {scope : Scope}
      {w w' : World} {s : InstanceSession} (ready : w.Ready)
      (found : recoverSession env sessionId maxBatch width scope w = (.ok s, w')) : Begun env s w'

/-- Calls of one session object, each under its fate, between which the rest of the system
moves the world without touching the session's rows. The list collects what failing writes
left out. -/
inductive Outage (env : Env) :
    InstanceSession → World → List Movement → InstanceSession → World → Prop
  | done (s : InstanceSession) (w : World) : Outage env s w [] s w
  | call (c : SessionCall) {s s' : InstanceSession} {w w' : World} {left : List Movement}
      (later : Outage env (c.after env s w).1 (c.after env s w).2 left s' w') :
      Outage env s w (c.unwritten env s w ++ left) s' w'
  | outside {s s' : InstanceSession} {w w₁ w' : World} {left : List Movement} (ready : w₁.Ready)
      (rows : bySession s.sessionId w₁.movements = bySession s.sessionId w.movements)
      (later : Outage env s w₁ left s' w') : Outage env s w left s' w'

/-- Nothing accepted is lost: it is journaled or pending, in order, every key that answers
accepted has its movement, and a flush and a settle that go through cover all of them. -/
structure Unlost (s : InstanceSession) (w : World) : Prop where
  standing : bySession s.sessionId w.movements ++ s.pending = s.accepted
  reported : ∀ key seq, s.outcomes.get key = some (.accepted seq) →
    ∃ m ∈ s.accepted, m.idempotencyKey = key ∧ m.seq = seq
  journaled : ∀ s' w', flush s w = (.ok (), s', w') → bySession s.sessionId w'.movements = s.accepted
  settled : ∀ env report s' w', settle env s w = (.ok report, s', w') → report.netted = s.accepted.length

/-! ## Calls that add no movement -/

/-- The session's movements and the journal are as they were. -/
structure Retains (s : InstanceSession) (w : World) (s' : InstanceSession) (w' : World) : Prop where
  session : s' = { s with
    opening := s'.opening
    outcomes := s'.outcomes
    settled := s'.settled
    replayForced := s'.replayForced
    released := s'.released }
  outcomes : ∀ key seq, s'.outcomes.get key = some (.accepted seq) →
    s.outcomes.get key = some (.accepted seq)
  ready : w'.Ready
  movements : w'.movements = w.movements

section Frames

variable {env : Env} {s s' s'' : InstanceSession} {w w' w'' : World}

theorem Retains.refl (hw : w.Ready) : Retains s w s w := ⟨rfl, fun _ _ h => h, hw, rfl⟩

theorem Retains.trans (h : Retains s w s' w') (h' : Retains s' w' s'' w'') : Retains s w s'' w'' := by
  refine ⟨?_, ?_, h'.ready, h'.movements.trans h.movements⟩
  · rw [h'.session, h.session]
  · exact fun key seq ho => h.outcomes key seq (h'.outcomes key seq ho)

theorem Retains.grows (h : Retains s w s' w') (hgrows : w'.Grows w'') : Retains s w s' w'' :=
  ⟨h.session, h.outcomes, hgrows.ready, hgrows.movements.trans h.movements⟩

theorem Retains.refused (h : Retains s w s' w') (key : String) (reason : Reason) :
    Retains s w (s'.remember key (.rejected reason)) w' := by
  refine ⟨?_, ?_, h.ready, h.movements⟩
  · rw [h.session]
    rfl
  · intro k seq ho
    apply h.outcomes
    simp only [InstanceSession.remember] at ho
    by_cases hk : k = key
    · subst hk
      simp at ho
    · simpa [hk] using ho

theorem postChunks_grows (env : Env) (sessionId : String) (shape : Shape) (pairs : List (Chunk × Nat))
    (posted : List Nat) (hw : w.Ready) : w.Grows (postChunks env sessionId shape pairs posted w).2 := by
  induction pairs generalizing posted w with
  | nil => exact World.Grows.refl hw
  | cons pair pairs ih =>
    obtain ⟨chunk, index⟩ := pair
    have hone := (postChunk_grows env sessionId shape chunk index false hw).1
    unfold postChunks
    rcases hp : postChunk env sessionId shape chunk index false w with ⟨res, w₁⟩
    rw [hp] at hone
    cases res with
    | error e => exact hone
    | ok u =>
      have hrest := ih (posted ++ [index]) hone.ready
      exact ⟨hrest.ready, fun id h => hrest.posted id (hone.posted id h),
        hrest.movements.trans hone.movements, hrest.reservations.trans hone.reservations⟩

theorem compensateChunks_grows (env : Env) (sessionId : String) (shape : Shape) (chunks : List Chunk)
    (indexes : List Nat) (hw : w.Ready) :
    w.Grows (compensateChunks env sessionId shape chunks indexes w).2 := by
  induction indexes generalizing w with
  | nil => exact World.Grows.refl hw
  | cons index indexes ih =>
    have hone := (postChunk_grows env sessionId shape (chunks.getD index []) index true hw).1
    unfold compensateChunks
    rcases hp : postChunk env sessionId shape (chunks.getD index []) index true w with ⟨res, w₁⟩
    rw [hp] at hone
    cases res with
    | error e => exact hone
    | ok u =>
      have hrest := ih hone.ready
      exact ⟨hrest.ready, fun id h => hrest.posted id (hone.posted id h),
        hrest.movements.trans hone.movements, hrest.reservations.trans hone.reservations⟩

theorem replayMovements_retains (env : Env) (sessionId head : String) (movements : List Movement)
    (postings : Nat) (rejected : List (String × Reason)) (hw : w.Ready) :
    Retains s w (replayMovements env sessionId head movements postings rejected s w).2.1
      (replayMovements env sessionId head movements postings rejected s w).2.2 := by
  induction movements generalizing postings rejected s w with
  | nil => exact Retains.refl hw
  | cons m movements ih =>
    have hgrows := (transaction_postOnce_grows env (replayPosting sessionId head m) hw).1
    unfold replayMovements
    rcases ht : transaction (postOnce env (replayPosting sessionId head m)) w with ⟨res, w₁⟩
    rw [ht] at hgrows
    have hone : Retains s w s w₁ := (Retains.refl hw).grows hgrows
    cases res with
    | error e => exact (hone.refused m.idempotencyKey (reasonOf e)).trans (ih _ _ hgrows.ready)
    | ok u => exact hone.trans (ih _ _ hgrows.ready)

theorem replay_retains (env : Env) (movements : List Movement) (head : String) (hw : w.Ready) :
    Retains s w (replay env movements head s w).2.1 (replay env movements head s w).2.2 ∧
      ∀ report, (replay env movements head s w).1 = .ok report → report.netted = movements.length := by
  have hmoves := replayMovements_retains (s := s) env s.sessionId head movements 0 [] hw
  unfold replay
  rcases hr : replayMovements env s.sessionId head movements 0 [] s w with ⟨⟨postings, rejected⟩, s₁, w₁⟩
  rw [hr] at hmoves
  obtain ⟨w₂, hrel, hready, -, hmv, -⟩ := releaseReservations_ok env s₁ hmoves.ready
  simp only [hrel]
  refine ⟨hmoves.trans ⟨rfl, fun _ _ h => h, hready, hmv⟩, ?_⟩
  rintro report hok
  cases hok
  rfl

theorem settleJournal_retains (env : Env) (movements : List Movement) (head : String) (hw : w.Ready) :
    Retains s w (settleJournal env movements head s w).2.1 (settleJournal env movements head s w).2.2 ∧
      ∀ report, (settleJournal env movements head s w).1 = .ok report →
        report.netted = movements.length := by
  have hclosing : ∀ {w}, w.Ready → Retains s w { s with settled := true } w :=
    fun hw => ⟨rfl, fun _ _ h => h, hw, rfl⟩
  unfold settleJournal
  split
  · obtain ⟨hret, hcover⟩ := replay_retains (s := { s with settled := true }) env movements head hw
    exact ⟨(hclosing hw).trans hret, hcover⟩
  · have hposts := postChunks_grows env s.sessionId ⟨(s.chunks movements).length, movements.length, head⟩
      (s.chunks movements).zipIdx [] hw
    simp only
    rcases hp : postChunks env s.sessionId ⟨(s.chunks movements).length, movements.length, head⟩
      (s.chunks movements).zipIdx [] w with ⟨⟨through, posted⟩, w₁⟩
    rw [hp] at hposts
    have hkept : Retains s w s w₁ := (Retains.refl hw).grows hposts
    cases through with
    | true =>
      obtain ⟨w₂, hrel, hready, -, hmv, -⟩ := releaseReservations_ok env s hposts.ready
      simp only [hrel]
      refine ⟨hkept.trans ⟨rfl, fun _ _ h => h, hready, hmv⟩, ?_⟩
      rintro report hok
      cases hok
      rfl
    | false =>
      have hcomp := compensateChunks_grows env s.sessionId
        ⟨(s.chunks movements).length, movements.length, head⟩ (s.chunks movements) posted.reverse
        hposts.ready
      rcases hc : compensateChunks env s.sessionId ⟨(s.chunks movements).length, movements.length, head⟩
        (s.chunks movements) posted.reverse w₁ with ⟨res, w₂⟩
      rw [hc] at hcomp
      simp only [hc]
      cases res with
      | error e => exact ⟨hkept.grows hcomp, fun report hok => by cases hok⟩
      | ok u =>
        obtain ⟨hret, hcover⟩ := replay_retains (s := { s with settled := true }) env movements head
          hcomp.ready
        exact ⟨((hkept.grows hcomp).trans (hclosing hcomp.ready)).trans hret, hcover⟩

theorem journal_rows {sessionId : String} {movements : List Movement}
    (h : journal env sessionId w = .ok movements) : movements = bySession sessionId w.movements := by
  cases hv : verifyChain env.digest GENESIS_HEX (bySession sessionId w.movements) with
  | error e =>
    simp only [journal, hv] at h
    cases h
  | ok u =>
    simp only [journal, hv] at h
    exact (Except.ok.inj h).symm

theorem settleRead_retains (env : Env) (hw : w.Ready) :
    Retains s w (settleRead env s w).2.1 (settleRead env s w).2.2 ∧
      ∀ report, (settleRead env s w).1 = .ok report →
        report.netted = (bySession s.sessionId w.movements).length := by
  unfold settleRead
  cases hj : journal env s.sessionId w with
  | error e => exact ⟨Retains.refl hw, fun report hok => by cases hok⟩
  | ok movements =>
    have hread := journal_rows hj
    simp only
    cases hlast : movements.getLast? with
    | none =>
      have hnil : movements = [] := List.getLast?_eq_none_iff.mp hlast
      refine ⟨Retains.refl hw, ?_⟩
      rintro report hok
      cases hok
      rw [← hread, hnil]
      rfl
    | some last =>
      rw [← hread]
      exact settleJournal_retains env movements last.hash hw

theorem offer_retains {request : MovementRequest} {res : Except Fault MovementOutcome} (hw : w.Ready)
    (h : offer env request s w = (res, false, s', w')) : Retains s w s' w' := by
  unfold offer reserve at h
  cases hset : s.settled with
  | true =>
    simp only [hset, if_true, Prod.mk.injEq] at h
    obtain ⟨-, -, rfl, rfl⟩ := h
    exact Retains.refl hw
  | false =>
    simp only [hset, Bool.false_eq_true, if_false] at h
    cases hout : s.outcomes.get request.idempotencyKey with
    | some outcome =>
      simp only [hout, Prod.mk.injEq] at h
      obtain ⟨-, -, rfl, rfl⟩ := h
      exact Retains.refl hw
    | none =>
      cases hreq : requireMovementLegs request.legs with
      | error e =>
        simp only [hout, hreq, Prod.mk.injEq] at h
        obtain ⟨-, -, rfl, rfl⟩ := h
        exact Retains.refl hw
      | ok u =>
        obtain ⟨hs, hres, -⟩ := reserveLegs_spec request.legs [] s w
        rcases hr : reserveLegs request.legs [] s w with ⟨verdict, s₁, w₁⟩
        rw [hr] at hs hres
        simp only at hs hres
        have hscreened : Retains s w s₁ w₁ := by
          refine ⟨?_, ?_, hres.ready hw, hres.movements⟩
          · rw [hs]
          · rw [hs]
            exact fun _ _ h => h
        simp only [hout, hreq, hr] at h
        cases verdict with
        | error e =>
          simp only [Prod.mk.injEq] at h
          obtain ⟨-, -, rfl, rfl⟩ := h
          exact hscreened
        | ok verdict =>
          cases verdict with
          | some code =>
            simp only [Prod.mk.injEq] at h
            obtain ⟨-, -, rfl, rfl⟩ := h
            exact hscreened.refused request.idempotencyKey (.rejection code)
          | none => simp at h

structure Enters (s : InstanceSession) (w : World) (m : Movement) (s' : InstanceSession) (w' : World) :
    Prop where
  position : m.seq = s.seq ∧ m.sessionId = s.sessionId
  session : s'.sessionId = s.sessionId
  accepted : s'.accepted = s.accepted ++ [m]
  pending : s'.pending = s.pending ++ [m]
  seq : s'.seq = s.seq + 1
  outcomes : s'.outcomes = s.outcomes.set m.idempotencyKey (.accepted m.seq)
  ready : w'.Ready
  movements : w'.movements = w.movements

theorem offer_enters {request : MovementRequest} {res : Except Fault MovementOutcome} (hw : w.Ready)
    (h : offer env request s w = (res, true, s', w')) : ∃ m, Enters s w m s' w' := by
  unfold offer reserve at h
  cases hset : s.settled with
  | true => simp [hset] at h
  | false =>
    simp only [hset, Bool.false_eq_true, if_false] at h
    cases hout : s.outcomes.get request.idempotencyKey with
    | some outcome => simp [hout] at h
    | none =>
      cases hreq : requireMovementLegs request.legs with
      | error e => simp [hout, hreq] at h
      | ok u =>
        obtain ⟨hs, hres, -⟩ := reserveLegs_spec request.legs [] s w
        rcases hr : reserveLegs request.legs [] s w with ⟨verdict, s₁, w₁⟩
        rw [hr] at hs hres
        simp only at hs hres
        simp only [hout, hreq, hr] at h
        cases verdict with
        | error e => simp at h
        | ok verdict =>
          cases verdict with
          | some code => simp at h
          | none =>
            simp only [Prod.mk.injEq, true_and] at h
            have hs' : s' = (accept env request s₁ w₁).1 := (congrArg Prod.fst h.2).symm
            have hw' : w' = (accept env request s₁ w₁).2 := (congrArg Prod.snd h.2).symm
            have hready : w₁.Ready := hres.ready hw
            refine ⟨nextMovement env request s₁ w₁, ?_, ?_, ?_, ?_, ?_, ?_, ?_, ?_⟩
            · rw [hs]
              exact ⟨rfl, rfl⟩
            · rw [hs', hs]
              rfl
            · rw [hs', hs]
              rfl
            · rw [hs', hs]
              rfl
            · rw [hs', hs]
              rfl
            · rw [hs', hs]
              rfl
            · rw [hw']
              obtain ⟨h1, h2, h3, h4, h5, h6, h7, h8, h9, h10⟩ := hready.closed
              exact ⟨⟨h1, h2, h3, h4, h5, h6, h7, h8, h9, h10⟩, hready.honest⟩
            · rw [hw', ← hres.movements]
              rfl

end Frames

theorem orderedInsert_append {α : Type} (r : α → α → Prop) [DecidableRel r] {a : α} {xs ys : List α}
    (h : ∀ y ∈ ys, r a y) : (xs ++ ys).orderedInsert r a = xs.orderedInsert r a ++ ys := by
  induction xs with
  | nil =>
    cases ys with
    | nil => rfl
    | cons y ys => simp [h y List.mem_cons_self]
  | cons x xs ih =>
    simp only [List.cons_append, List.orderedInsert_cons]
    split
    · rfl
    · rw [ih, List.cons_append]

theorem insertionSort_append {α : Type} (r : α → α → Prop) [DecidableRel r] {xs ys : List α}
    (h : ∀ x ∈ xs, ∀ y ∈ ys, r x y) (hys : ys.Pairwise r) :
    (xs ++ ys).insertionSort r = xs.insertionSort r ++ ys := by
  induction xs with
  | nil => exact hys.insertionSort_eq
  | cons x xs ih =>
    rw [List.cons_append, List.insertionSort_cons, List.insertionSort_cons,
      ih fun x hx => h x (List.mem_cons_of_mem _ hx)]
    exact orderedInsert_append r (h x List.mem_cons_self)

/-! ## Where the accepted movements are -/

/-- The journal and the batch hold the accepted movements in order, less those left out. -/
structure Custody (s : InstanceSession) (w : World) (left : List Movement) : Prop where
  ready : w.Ready
  order : (bySession s.sessionId w.movements ++ s.pending).Sublist s.accepted
  held : (bySession s.sessionId w.movements ++ s.pending ++ left).Perm s.accepted
  sorted : s.accepted.Pairwise fun a b => a.seq ≤ b.seq
  next : ∀ m ∈ s.accepted, m.seq < s.seq
  stamped : ∀ m ∈ s.pending, m.sessionId = s.sessionId
  reported : ∀ key seq, s.outcomes.get key = some (.accepted seq) →
    ∃ m ∈ s.accepted, m.idempotencyKey = key ∧ m.seq = seq

section Runs

variable {env : Env} {s s' : InstanceSession} {w w' : World} {left : List Movement}

theorem Custody.retains (h : Custody s w left) (hr : Retains s w s' w') : Custody s' w' left := by
  have hs := hr.session
  obtain ⟨-, h2, h3, h4, h5, h6, h7⟩ := h
  refine ⟨hr.ready, ?_, ?_, ?_, ?_, ?_, ?_⟩
  · rw [hr.movements, hs]
    exact h2
  · rw [hr.movements, hs]
    exact h3
  · rw [hs]
    exact h4
  · rw [hs]
    exact h5
  · rw [hs]
    exact h6
  · intro key seq ho
    rw [hs]
    exact h7 key seq (hr.outcomes key seq ho)

theorem Custody.outside (h : Custody s w left) (hw : w'.Ready)
    (hrows : bySession s.sessionId w'.movements = bySession s.sessionId w.movements) :
    Custody s w' left :=
  ⟨hw, hrows ▸ h.order, hrows ▸ h.held, h.sorted, h.next, h.stamped, h.reported⟩

theorem Custody.bySession_append (h : Custody s w left) :
    bySession s.sessionId (w.movements ++ s.pending) =
      bySession s.sessionId w.movements ++ s.pending := by
  have hmine : s.pending.filter (·.sessionId = s.sessionId) = s.pending := by
    rw [List.filter_eq_self]
    exact fun m hm => decide_eq_true (h.stamped m hm)
  have hsorted := (h.sorted.sublist h.order)
  rw [List.pairwise_append] at hsorted
  unfold bySession
  rw [List.filter_append, hmine]
  apply insertionSort_append
  · intro x hx y hy
    exact hsorted.2.2 x (List.mem_insertionSort _ |>.mpr hx) y hy
  · exact hsorted.2.1

theorem appendMovements_eq {batch log log' : List Movement} (h : appendMovements batch log = .ok log') :
    log' = log ++ batch := by
  unfold appendMovements at h
  split at h
  · cases h
  · exact (Except.ok.inj h).symm

theorem World.Ready.withMovements (hw : w.Ready) (log : List Movement) :
    ({ w with movements := log } : World).Ready := by
  obtain ⟨h1, h2, h3, h4, h5, h6, h7, h8, h9, h10⟩ := hw.closed
  exact ⟨⟨h1, h2, h3, h4, h5, h6, h7, h8, h9, h10⟩, hw.honest⟩

theorem Custody.flushes (h : Custody s w left) (fate : CallFate) :
    Custody (flushUnder fate s w).2.1 (flushUnder fate s w).2.2 (unwritten fate s w ++ left) := by
  by_cases hp : s.pending = []
  · have hnone : unwritten fate s w = [] := by
      unfold unwritten
      rw [hp]
      cases fate <;> split <;> rfl
    unfold flushUnder
    rw [if_pos hp, hnone]
    exact h
  · unfold flushUnder
    rw [if_neg hp]
    have hlanded : Custody { s with pending := [] } { w with movements := w.movements ++ s.pending }
        left := by
      refine ⟨h.ready.withMovements _, ?_, ?_, h.sorted, h.next, by simp, h.reported⟩
      · rw [List.append_nil, h.bySession_append]
        exact h.order
      · rw [List.append_nil, h.bySession_append]
        exact h.held
    have hgone : Custody { s with pending := [] } w (s.pending ++ left) := by
      refine ⟨h.ready, ?_, ?_, h.sorted, h.next, by simp, h.reported⟩
      · rw [List.append_nil]
        exact (List.sublist_append_left _ _).trans h.order
      · rw [List.append_nil, ← List.append_assoc]
        exact h.held
    cases hm : appendMovements s.pending w.movements with
    | error e => cases fate <;> simpa only [appendUnder, unwritten, hm] using hgone
    | ok log =>
      rw [appendMovements_eq hm] at hm
      cases fate with
      | taken => simpa only [appendUnder, unwritten, hm, List.nil_append] using hlanded
      | thrown => simpa only [appendUnder, unwritten, hm] using hgone
      | lost => simpa only [appendUnder, unwritten, hm, List.nil_append] using hlanded

theorem Custody.enters {m : Movement} (h : Custody s w left) (he : Enters s w m s' w') :
    Custody s' w' left := by
  obtain ⟨hready, h2, h3, h4, h5, h6, h7⟩ := h
  have hrows : bySession s'.sessionId w'.movements = bySession s.sessionId w.movements := by
    rw [he.session, he.movements]
  refine ⟨he.ready, ?_, ?_, ?_, ?_, ?_, ?_⟩
  · rw [hrows, he.pending, he.accepted, ← List.append_assoc]
    exact h2.append_right [m]
  · rw [hrows, he.pending, he.accepted]
    have hmove : (bySession s.sessionId w.movements ++ (s.pending ++ [m]) ++ left).Perm
        (bySession s.sessionId w.movements ++ s.pending ++ left ++ [m]) := by
      simp only [List.append_assoc]
      exact ((List.perm_append_comm).append_left s.pending).append_left _
    exact hmove.trans (h3.append_right [m])
  · rw [he.accepted, List.pairwise_append]
    refine ⟨h4, List.pairwise_singleton _ _, ?_⟩
    intro a ha b hb
    rw [List.mem_singleton.mp hb, he.position.1]
    exact (h5 a ha).le
  · intro a ha
    rw [he.accepted] at ha
    rw [he.seq]
    rcases List.mem_append.mp ha with ha | ha
    · exact (h5 a ha).trans (Nat.lt_succ_self _)
    · rw [List.mem_singleton.mp ha, he.position.1]
      exact Nat.lt_succ_self _
  · intro a ha
    rw [he.pending] at ha
    rw [he.session]
    rcases List.mem_append.mp ha with ha | ha
    · exact h6 a ha
    · rw [List.mem_singleton.mp ha]
      exact he.position.2
  · intro key seq ho
    rw [he.outcomes] at ho
    rw [he.accepted]
    by_cases hk : key = m.idempotencyKey
    · subst hk
      simp only [Table.get_set_self, Option.some.injEq, MovementOutcome.accepted.injEq] at ho
      exact ⟨m, by simp, rfl, ho⟩
    · rw [Table.get_set_of_ne _ _ hk] at ho
      obtain ⟨a, ha, heq⟩ := h7 key seq ho
      exact ⟨a, List.mem_append_left _ ha, heq⟩

/-- One step: what a call leaves out joins what was left out before it. -/
theorem Custody.call (h : Custody s w left) (c : SessionCall) :
    Custody (c.after env s w).1 (c.after env s w).2 (c.unwritten env s w ++ left) := by
  cases c with
  | flush fate => exact h.flushes fate
  | settle fate =>
    have hflush := h.flushes fate
    unfold SessionCall.after SessionCall.unwritten settleOver
    simp only
    rcases hf : flushUnder fate s w with ⟨res, s₁, w₁⟩
    rw [hf] at hflush
    cases res with
    | error e => exact hflush
    | ok u => exact hflush.retains (settleRead_retains env hflush.ready).1
  | record request fate =>
    unfold SessionCall.after SessionCall.unwritten recordOver
    simp only
    rcases ho : offer env request s w with ⟨res, entered, s₁, w₁⟩
    cases entered with
    | false => exact h.retains (offer_retains h.ready ho)
    | true =>
      obtain ⟨m, hm⟩ := offer_enters h.ready ho
      have hentered := h.enters hm
      by_cases hfull : s₁.maxBatch ≤ s₁.pending.length
      · have hflush := hentered.flushes fate
        simp only [hfull, if_true]
        rcases hf : flushUnder fate s₁ w₁ with ⟨res', s₂, w₂⟩
        rw [hf] at hflush
        cases res' <;> exact hflush
      · simp only [hfull, if_false]
        exact hentered

theorem rebuild_stands (movements : List Movement) (s : InstanceSession) (w : World)
    (hnext : ∀ m ∈ s.accepted, m.seq < s.seq)
    (hsorted : (s.accepted ++ movements).Pairwise fun a b => a.seq ≤ b.seq)
    (hreported : ∀ key seq, s.outcomes.get key = some (.accepted seq) →
      ∃ m ∈ s.accepted, m.idempotencyKey = key ∧ m.seq = seq) :
    (∀ m ∈ s.accepted ++ movements, m.seq < (rebuild movements s w).1.seq) ∧
      ∀ key seq, (rebuild movements s w).1.outcomes.get key = some (.accepted seq) →
        ∃ m ∈ s.accepted ++ movements, m.idempotencyKey = key ∧ m.seq = seq := by
  induction movements generalizing s w with
  | nil =>
    rw [List.append_nil]
    exact ⟨hnext, hreported⟩
  | cons m movements ih =>
    rw [List.append_cons] at hsorted ⊢
    have hbefore : ∀ a ∈ s.accepted, a.seq ≤ m.seq := by
      rw [List.pairwise_append, List.pairwise_append] at hsorted
      exact fun a ha => hsorted.1.2.2 a ha m (List.mem_singleton_self m)
    refine ih { s with
      accepted := s.accepted ++ [m]
      outcomes := s.outcomes.set m.idempotencyKey (.accepted m.seq)
      head := m.hash
      seq := m.seq + 1 } _ ?_ hsorted ?_
    · intro a ha
      rcases List.mem_append.mp ha with ha | ha
      · exact Nat.lt_succ_of_le (hbefore a ha)
      · rw [List.mem_singleton.mp ha]
        exact Nat.lt_succ_self _
    · intro key seq ho
      by_cases hk : key = m.idempotencyKey
      · subst hk
        simp only [Table.get_set_self, Option.some.injEq, MovementOutcome.accepted.injEq] at ho
        exact ⟨m, by simp, rfl, ho⟩
      · rw [Table.get_set_of_ne _ _ hk] at ho
        obtain ⟨a, ha, heq⟩ := hreported key seq ho
        exact ⟨a, List.mem_append_left _ ha, heq⟩

theorem Begun.custody (h : Begun env s w) : Custody s w [] := by
  cases h with
  | opened maxBatch width scope ready fresh =>
    have hrows : bySession (openInstanceSession _ maxBatch width scope).sessionId w.movements = [] := fresh
    refine ⟨ready, ?_, ?_, by simp [openInstanceSession], by simp [openInstanceSession],
      by simp [openInstanceSession], by simp [openInstanceSession]⟩
    · rw [hrows]
      exact List.Sublist.refl []
    · rw [hrows]
      exact List.Perm.refl []
  | @recovered sessionId maxBatch width scope w₀ w s ready found =>
    unfold recoverSession at found
    cases hj : journal env sessionId w₀ with
    | error e =>
      rw [hj] at found
      cases (Prod.mk.inj found).1
    | ok movements =>
      have hread : movements = bySession sessionId w₀.movements := journal_rows hj
      obtain ⟨hs, hres, -⟩ := rebuild_spec movements (openInstanceSession sessionId maxBatch width scope)
        w₀
      have hsorted : movements.Pairwise fun a b => a.seq ≤ b.seq := by
        rw [hread]
        exact List.pairwise_insertionSort _ _
      obtain ⟨hnext, hreported⟩ := rebuild_stands movements
        (openInstanceSession sessionId maxBatch width scope) w₀ (by simp [openInstanceSession])
        (by simpa [openInstanceSession] using hsorted) (by simp [openInstanceSession])
      rw [hj] at found
      rcases hr : rebuild movements (openInstanceSession sessionId maxBatch width scope) w₀ with ⟨s₁, w₁⟩
      rw [hr] at hs hres hnext hreported
      simp only [hr, Prod.mk.injEq, Except.ok.injEq] at found hs hres hnext hreported
      obtain ⟨rfl, rfl⟩ := found
      have hacc : s₁.accepted = movements := by rw [hs]; rfl
      have hid : s₁.sessionId = sessionId := by rw [hs]; rfl
      have hpend : s₁.pending = [] := by rw [hs]; rfl
      have hrows : bySession s₁.sessionId w₁.movements = s₁.accepted := by
        rw [hid, hres.movements, ← hread, hacc]
      have hbase : Custody s₁ w₁ [] := by
        refine ⟨hres.ready ready, ?_, ?_, ?_, ?_, ?_, ?_⟩
        · rw [hrows, hpend, List.append_nil]
        · rw [hrows, hpend, List.append_nil, List.append_nil]
        · rw [hacc]
          exact hsorted
        · rw [hacc]
          exact hnext
        · rw [hpend]
          simp
        · rw [hacc]
          exact hreported
      refine hbase.retains ⟨?_, ?_, hbase.ready, rfl⟩
      · rw [(probeSettlement_spec s₁ w₁).1]
      · rw [(probeSettlement_spec s₁ w₁).1]
        exact fun _ _ h => h

theorem Custody.outage {before : List Movement} (h : Custody s w before)
    (hrun : Outage env s w left s' w') : ∃ after, Custody s' w' after ∧ after.Perm (before ++ left) := by
  induction hrun generalizing before with
  | done s w =>
    refine ⟨before, h, ?_⟩
    rw [List.append_nil]
  | call c later ih =>
    obtain ⟨after, hafter, hperm⟩ := ih (h.call c)
    refine ⟨after, hafter, hperm.trans ?_⟩
    rw [← List.append_assoc]
    exact List.perm_append_comm.append_right _
  | outside ready rows later ih => exact ih (h.outside ready rows)

/-- With nothing left out, the journal and the batch are the accepted movements. -/
theorem Custody.unlost_iff (h : Custody s w left) : Unlost s w ↔ left = [] := by
  have hlen := h.held.length_eq
  rw [List.length_append] at hlen
  constructor
  · intro hi
    rw [hi.standing] at hlen
    exact List.length_eq_zero_iff.mp (by omega)
  · rintro rfl
    have hstanding : bySession s.sessionId w.movements ++ s.pending = s.accepted :=
      h.order.eq_of_length (by simpa using hlen)
    have hjournaled : ∀ s' w', flush s w = (.ok (), s', w') →
        bySession s.sessionId w'.movements = s.accepted := by
      intro s' w' hf
      unfold flush at hf
      split at hf
      · rename_i hp
        obtain ⟨-, -, rfl⟩ := hf
        rw [← hstanding, hp, List.append_nil]
      · cases hm : appendMovements s.pending w.movements with
        | error e => simp [hm] at hf
        | ok log =>
          simp only [hm, Prod.mk.injEq, true_and] at hf
          obtain ⟨-, rfl⟩ := hf
          rw [← hstanding, ← h.bySession_append, appendMovements_eq hm]
    refine ⟨hstanding, h.reported, hjournaled, ?_⟩
    intro env report s' w' hs
    rw [← settleOver_taken] at hs
    have hflushed := h.flushes .taken
    unfold settleOver at hs
    rw [flushUnder_taken] at hs hflushed
    rcases hf : flush s w with ⟨res, s₁, w₁⟩
    rw [hf] at hs hflushed
    simp only at hflushed
    cases res with
    | error e => simp at hs
    | ok u =>
      have hid : s₁.sessionId = s.sessionId := by
        have hkept := flush_sessionId s w
        rw [hf] at hkept
        exact hkept
      have hcover := (settleRead_retains (s := s₁) env hflushed.ready).2 report (congrArg Prod.fst hs)
      rw [hcover, hid, hjournaled s₁ w₁ hf]

end Runs

/-- Over any run of calls of one session object, with writes that fail at any of them,
nothing accepted is lost exactly when no failing write left its batch out. -/
theorem outage_loses_nothing_iff {env : Env} {s s' : InstanceSession} {w w' : World} {left : List Movement}
    (hbegun : Begun env s w) (hrun : Outage env s w left s' w') : Unlost s' w' ↔ left = [] := by
  obtain ⟨after, hafter, hperm⟩ := hbegun.custody.outage hrun
  rw [hafter.unlost_iff]
  constructor
  · rintro rfl
    exact List.Perm.nil_eq hperm |>.symm
  · rintro rfl
    exact List.perm_nil.mp hperm

def outageEnv : Env := ⟨List.take 4, fun _ => 0, fun _ => ""⟩

def unopened : InstanceSession := openInstanceSession "ses_1" 64 ⟨2, Nat.two_pos⟩ .process

def callAll (calls : List SessionCall) (s : InstanceSession) (w : World) : InstanceSession × World :=
  calls.foldl (fun p c => c.after outageEnv p.1 p.2) (s, w)

def unwrittenAll : List SessionCall → InstanceSession → World → List Movement
  | [], _, _ => []
  | c :: calls, s, w =>
    c.unwritten outageEnv s w ++
      unwrittenAll calls (c.after outageEnv s w).1 (c.after outageEnv s w).2

theorem callAll_outage (calls : List SessionCall) (s : InstanceSession) (w : World) :
    Outage outageEnv s w (unwrittenAll calls s w) (callAll calls s w).1 (callAll calls s w).2 := by
  induction calls generalizing s w with
  | nil => exact Outage.done s w
  | cons c calls ih => exact Outage.call c (ih _ _)

/-- The batch was written and only the answer was lost: settling covers it. -/
theorem lost_answer_covered :
    let calls : List SessionCall :=
      [.record (tenFromTo "mv_1" "usr_a" "usr_b") .taken, .flush .lost, .settle .taken]
    Unlost (callAll calls unopened (fundedPayer outageEnv)).1
      (callAll calls unopened (fundedPayer outageEnv)).2 := by
  intro calls
  have hbegun : Begun outageEnv unopened (fundedPayer outageEnv) :=
    .opened 64 ⟨2, by decide⟩ .process (fundedPayer_ready outageEnv) rfl
  exact (outage_loses_nothing_iff hbegun (callAll_outage calls _ _)).mpr (by decide +kernel)

/-- A flush that meets a dead journal: the movement is neither journaled nor pending, its key
answers accepted, and behind the next movement the journal no longer re-derives. -/
theorem failed_flush_loses_batch :
    let lost : List SessionCall := [.record (tenFromTo "mv_1" "usr_a" "usr_b") .taken, .flush .thrown]
    let later : List SessionCall := [.record (tenFromTo "mv_2" "usr_b" "usr_a") .taken, .flush .taken]
    Begun outageEnv unopened (fundedPayer outageEnv) ∧
    (callAll lost unopened (fundedPayer outageEnv)).1.pending = [] ∧
    (callAll lost unopened (fundedPayer outageEnv)).2.movements = [] ∧
    (record outageEnv (tenFromTo "mv_1" "usr_a" "usr_b") (callAll lost unopened (fundedPayer outageEnv)).1
      (callAll lost unopened (fundedPayer outageEnv)).2).1 =
      .ok (.accepted 0) ∧
    ¬ Unlost (callAll lost unopened (fundedPayer outageEnv)).1
      (callAll lost unopened (fundedPayer outageEnv)).2 ∧
    ¬ Unlost (callAll (lost ++ later) unopened (fundedPayer outageEnv)).1
      (callAll (lost ++ later) unopened (fundedPayer outageEnv)).2 ∧
    (settle outageEnv (callAll (lost ++ later) unopened (fundedPayer outageEnv)).1
      (callAll (lost ++ later) unopened (fundedPayer outageEnv)).2).1 = .error brokenJournal := by
  intro lost later
  refine ⟨.opened 64 ⟨2, by decide⟩ .process (fundedPayer_ready outageEnv) rfl, by decide +kernel,
    by decide +kernel, by decide +kernel, ?_, ?_, by decide +kernel⟩
  · exact fun h => absurd (congrArg List.length h.standing) (by decide +kernel)
  · exact fun h => absurd (congrArg List.length h.standing) (by decide +kernel)

end EconomyLab
