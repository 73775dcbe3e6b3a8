import EconomyLab.Worker.Backlog

/-!
# The repair of the reservation counter

The repair moves each row of the counter to what the sessions without evidence of a settlement hold.
That is what unfinished sessions hold just when, account by account, those that left evidence before
they finished weigh what those weigh that finished without leaving any.
-/

namespace EconomyLab

open Foundation

structure ListsRows (rows : List AccountRef) (w : World) : Prop where
  nodup : rows.Nodup
  covers : ∀ a, a ∈ rows ↔ (w.reservations.get a).isSome = true

namespace World

def finished (w : World) (sessionId : String) : Bool :=
  (w.idempotency.rows.committed.get (releaseKey sessionId)).isSome

/-- What a session's journaled movements reserve on an account. -/
def owes (w : World) (a : AccountRef) (sessionId : String) : Int :=
  total (walletDeltas (bySession sessionId w.movements)) a

/-- What the sessions of a kind reserve together. -/
def owed (w : World) (kind : String → Bool) (a : AccountRef) : Int :=
  (((sessionIds w.movements).filter kind).map (w.owes a)).sum

end World

section Repair

variable {env : Env} {w : World} {rows : List AccountRef} {deltas : List (AccountRef × Int)}

theorem foldPending_get (deltas : List (AccountRef × Int)) (a : AccountRef) :
    ((foldPending deltas).get a).getD 0 = total deltas a := by
  have hfold : ∀ desired : Table AccountRef Int,
      ((deltas.foldl (fun desired p => desired.set p.1 ((desired.get p.1).getD 0 + p.2)) desired).get
        a).getD 0 =
        (desired.get a).getD 0 + total deltas a := by
    induction deltas with
    | nil => exact fun desired => (Int.add_zero _).symm
    | cons p deltas ih =>
      intro desired
      rw [List.foldl_cons, ih, total_cons, Table.get_set]
      by_cases hp : a = p.1
      · rw [if_pos hp, if_pos hp.symm, ← hp, Option.getD_some, Int.add_assoc]
      · rw [if_neg hp, if_neg (Ne.symm hp), Int.zero_add]
  exact (hfold Table.empty).trans (Int.zero_add _)

/-- The journal's truth is read when every session's journal re-derives. -/
theorem unsettledDeltas_ok_iff {ids : List String} :
    (∃ deltas, unsettledDeltas env w ids = .ok deltas) ↔ ∀ id ∈ ids, (journal env id w).isOk = true := by
  induction ids with
  | nil => exact ⟨fun _ id hid => absurd hid List.not_mem_nil, fun _ => ⟨[], rfl⟩⟩
  | cons id ids ih =>
    unfold unsettledDeltas
    rcases recoverByDefault_cases env id .process w with ⟨e, hjournal, hrun⟩ | ⟨s, w', hrun, hrecovered⟩
    · have hinspect : inspectSession env id w = .error e := congrArg Prod.fst hrun
      rw [hinspect]
      constructor
      · rintro ⟨deltas, hdeltas⟩
        cases hdeltas
      · intro hall
        have hok := hall id List.mem_cons_self
        rw [hjournal] at hok
        cases hok
    · have hinspect : inspectSession env id w = .ok s := congrArg Prod.fst hrun
      have hok : (journal env id w).isOk = true := by
        rw [hrecovered.journaled]
        rfl
      rw [hinspect]
      constructor
      · rintro ⟨deltas, hdeltas⟩
        obtain ⟨_, -, hdeltas⟩ := except_bind_ok.mp hdeltas
        obtain ⟨rest, hrest, -⟩ := except_bind_ok.mp hdeltas
        intro id' hid'
        rcases List.mem_cons.mp hid' with rfl | hid'
        · exact hok
        · exact ih.mp ⟨rest, hrest⟩ id' hid'
      · intro hall
        obtain ⟨rest, hrest⟩ := ih.mpr fun id' hid' => hall id' (List.mem_cons_of_mem _ hid')
        rw [hrest]
        change ∃ deltas, (if wasSettled s = true then _ else _) = _
        split
        · exact ⟨rest, rfl⟩
        · exact ⟨_, rfl⟩

theorem unsettledDeltas_total {ids : List String} (h : unsettledDeltas env w ids = .ok deltas)
    (a : AccountRef) :
    total deltas a = ((ids.filter fun id => !w.settledOnRecord id).map (w.owes a)).sum := by
  induction ids generalizing deltas with
  | nil =>
    cases h
    rfl
  | cons id ids ih =>
    unfold unsettledDeltas at h
    rcases recoverByDefault_cases env id .process w with ⟨e, hjournal, hrun⟩ | ⟨s, w', hrun, hrecovered⟩
    · have hinspect : inspectSession env id w = .error e := congrArg Prod.fst hrun
      rw [hinspect] at h
      cases h
    · have hinspect : inspectSession env id w = .ok s := congrArg Prod.fst hrun
      rw [hinspect] at h
      obtain ⟨_, hs, h⟩ := except_bind_ok.mp h
      obtain rfl := Except.ok.inj hs
      obtain ⟨rest, hrest, h⟩ := except_bind_ok.mp h
      have hsum := ih hrest
      rw [hrecovered.settled] at h
      by_cases hsettled : w.settledOnRecord id = true
      · rw [if_pos hsettled] at h
        obtain rfl := except_pure_ok.mp h
        rw [hsum, List.filter_cons_of_neg]
        rw [hsettled]
        exact Bool.false_ne_true
      · rw [if_neg hsettled] at h
        obtain rfl := except_pure_ok.mp h
        rw [total_append, hsum, List.filter_cons_of_pos, List.map_cons, List.sum_cons]
        · rfl
        · rw [Bool.eq_false_iff.mpr hsettled]
          rfl

theorem reconcileRow_spec (desired : Table AccountRef Int) (p : Nat × World) {account : AccountRef}
    {current : Int} (hcurrent : p.2.pendingOf account = current) :
    p.2.Reserves (reconcileRow desired p (account, current)).2 ∧
      (∀ a, (reconcileRow desired p (account, current)).2.pendingOf a =
        if a = account then (desired.get account).getD 0 else p.2.pendingOf a) ∧
      (∀ a, a ≠ account → (reconcileRow desired p (account, current)).2.reservations.get a =
        p.2.reservations.get a) ∧
      (current = (desired.get account).getD 0 → reconcileRow desired p (account, current) = p) := by
  unfold reconcileRow
  by_cases hsame : current = (desired.get account).getD 0
  · rw [if_neg (not_not.mpr hsame)]
    refine ⟨.refl _, fun a => ?_, fun _ _ => rfl, fun _ => rfl⟩
    split
    · rename_i ha
      rw [ha, hcurrent, hsame]
    · rfl
  · rw [if_pos hsame]
    refine ⟨p.2.addReservation_reserves account _, fun a => ?_, fun a hne => Table.get_set_of_ne _ _ hne,
      fun h => absurd h hsame⟩
    rw [World.pendingOf_addReservation]
    by_cases ha : a = account
    · rw [if_pos ha.symm, if_pos ha, ha, hcurrent]
      exact add_sub_cancel current _
    · rw [if_neg (Ne.symm ha), if_neg ha, Int.add_zero]

theorem reconcileRows_spec (desired : Table AccountRef Int) (view : AccountRef → Int) (hnodup : rows.Nodup)
    (start : Nat × World) (hview : ∀ a ∈ rows, start.2.pendingOf a = view a) :
    let after := (rows.map fun a => (a, view a)).foldl (reconcileRow desired) start
    start.2.Reserves after.2 ∧
      (∀ a, after.2.pendingOf a = if a ∈ rows then (desired.get a).getD 0 else start.2.pendingOf a) ∧
      (∀ a, a ∉ rows → after.2.reservations.get a = start.2.reservations.get a) ∧
      ((∀ a ∈ rows, view a = (desired.get a).getD 0) → after = start) := by
  induction rows generalizing start with
  | nil => exact ⟨.refl _, fun a => (if_neg List.not_mem_nil).symm, fun _ _ => rfl, fun _ => rfl⟩
  | cons account rows ih =>
    obtain ⟨hlast, hrest⟩ := List.nodup_cons.mp hnodup
    obtain ⟨hreserves, hpending, hothers, hidle⟩ :=
      reconcileRow_spec desired start (hview account List.mem_cons_self)
    have hview' : ∀ a ∈ rows, (reconcileRow desired start (account, view account)).2.pendingOf a =
        view a := by
      intro a ha
      have hne : a ≠ account := by
        rintro rfl
        exact hlast ha
      rw [hpending, if_neg hne]
      exact hview a (List.mem_cons_of_mem _ ha)
    obtain ⟨hreserves', hpending', hothers', hidle'⟩ :=
      ih hrest (reconcileRow desired start (account, view account)) hview'
    refine ⟨hreserves.trans hreserves', fun a => ?_, fun a ha => ?_, fun hall => ?_⟩
    · refine (hpending' a).trans ?_
      by_cases ha : a ∈ rows
      · rw [if_pos ha, if_pos (List.mem_cons_of_mem _ ha)]
      · rw [if_neg ha, hpending]
        by_cases hne : a = account
        · rw [if_pos hne, if_pos (hne ▸ List.mem_cons_self), hne]
        · rw [if_neg hne, if_neg]
          exact fun hin => (List.mem_cons.mp hin).elim hne ha
    · refine (hothers' a fun hin => ha (List.mem_cons_of_mem _ hin)).trans ?_
      exact hothers a fun he => ha (he ▸ List.mem_cons_self)
    · refine (hidle' fun a ha => hall a (List.mem_cons_of_mem _ ha)).trans ?_
      exact hidle (hall account List.mem_cons_self)

/-- The repair brings each row to what the sessions without evidence hold, or reads a journal that does not
re-derive and touches nothing. -/
theorem reconcile_cases (env : Env) (hrows : ListsRows rows w) :
    (¬ (∀ id ∈ sessionIds w.movements, (journal env id w).isOk = true) ∧
      ∃ e, reconcileReservations env rows w = (.error e, w)) ∨
    ((∀ id ∈ sessionIds w.movements, (journal env id w).isOk = true) ∧
      ∃ adjusted w', reconcileReservations env rows w = (.ok (rows.length, adjusted), w') ∧ w.Reserves w' ∧
        (∀ a, w'.pendingOf a = if a ∈ rows then w.owed (fun id => !w.settledOnRecord id) a else 0) ∧
        (∀ a, (w'.reservations.get a).isSome = true → a ∈ rows) ∧
        ((∀ a ∈ rows, w.pendingOf a = w.owed (fun id => !w.settledOnRecord id) a) → adjusted = 0 ∧
          w' = w)) := by
  have hiff := @unsettledDeltas_ok_iff env w (sessionIds w.movements)
  unfold reconcileReservations
  cases hdeltas : unsettledDeltas env w (sessionIds w.movements) with
  | error e =>
    left
    refine ⟨?_, e, rfl⟩
    rw [← hiff]
    rintro ⟨deltas, hok⟩
    rw [hdeltas] at hok
    cases hok
  | ok deltas =>
    right
    refine ⟨hiff.mp ⟨deltas, hdeltas⟩, ?_⟩
    obtain ⟨hreserves, hpending, hothers, hidle⟩ := reconcileRows_spec (foldPending deltas) w.pendingOf
      hrows.nodup (0, w)
      fun _ _ => rfl
    have htarget : ∀ a, ((foldPending deltas).get a).getD 0 = w.owed (fun id => !w.settledOnRecord id) a :=
      fun a =>
      (foldPending_get deltas a).trans (unsettledDeltas_total hdeltas a)
    rcases hafter : (rows.map fun a => (a, w.pendingOf a)).foldl (reconcileRow (foldPending deltas))
        (0, w) with
      ⟨adjusted, w'⟩
    rw [hafter] at hreserves hpending hothers hidle
    refine ⟨adjusted, w', by
      simp only [hafter], hreserves, fun a => ?_, fun a hsome => ?_, fun hsame => ?_⟩
    · refine (hpending a).trans ?_
      split
      · exact htarget a
      · rename_i hnone
        rw [hrows.covers, Bool.not_eq_true, Option.isSome_eq_false_iff, Option.isNone_iff_eq_none] at hnone
        simp only [World.pendingOf, hnone, Option.getD_none]
    · by_contra hnone
      rw [hothers a hnone] at hsome
      exact hnone ((hrows.covers a).mpr hsome)
    · have hsame' := hidle fun a ha => (hsame a ha).trans (htarget a).symm
      exact ⟨congrArg Prod.fst hsame', congrArg Prod.snd hsame'⟩

end Repair

/-! ## Finishing a session -/

/-- What becomes of the counter and the claims when a session's settlement ends well. -/
structure Finishes (sessionId : String) (w w' : World) : Prop where
  ready : w'.Ready
  movements : w'.movements = w.movements
  pending : ∀ a, w'.pendingOf a = w.pendingOf a - if w.finished sessionId then 0 else w.owes a sessionId
  finished : ∀ id ∈ sessionIds w.movements, w'.finished id = (w.finished id || decide (id = sessionId))

section Finishing

variable {env : Env} {sessionId : String} {w w' : World} {s s' : InstanceSession}

/-- A session object that holds a shared reservation for each of the journal's movements. -/
structure Holding (sessionId : String) (w : World) (s : InstanceSession) : Prop where
  ofSession : s.sessionId = sessionId
  accepted : s.accepted = bySession sessionId w.movements
  released : s.released = false
  scope : s.scope = .shared

theorem releaseReservations_finishes (env : Env) (hs : Holding sessionId w s) {w₁ : World}
    (hposts : w.Posts (OwnId sessionId) w₁) :
    ∃ w', releaseReservations env s w₁ = (.ok (), { s with released := true }, w') ∧
      Finishes sessionId w w' := by
  have hpending : ∀ a, w₁.pendingOf a = w.pendingOf a := fun a =>
    congrArg (fun t => (Table.get t a).getD 0) hposts.reservations
  have hclaims : ∀ id, w₁.finished id = w.finished id := fun id =>
    congrArg (fun c => (c.rows.committed.get (releaseKey id)).isSome) hposts.idempotency
  obtain ⟨_, _, _, _, _, _, _, _, _, _, _, _, _, _⟩ := s
  obtain ⟨hid, haccepted, hreleased, hscope⟩ := hs
  simp only at hid haccepted hreleased hscope
  obtain rfl := hid.symm
  subst haccepted hreleased hscope
  rcases claimRelease_cases env sessionId hposts.ready with
    ⟨txn, w₂, hclaimed, hrun, hsame, hready⟩ | ⟨hfree, txn, w₂, hrun, hready, -, hmovements,
      hreservations, hset⟩
  · have hfinished : w.finished sessionId = true := by
      rw [← hclaims]
      exact Option.isSome_iff_exists.mpr ⟨txn, hclaimed⟩
    refine ⟨w₂, ?_, hready, hsame.movements.trans hposts.movements, fun a => ?_, fun id _ => ?_⟩
    · unfold releaseReservations
      simp only [Bool.false_eq_true, if_false, hrun]
    · rw [hfinished, if_pos rfl, Int.sub_zero, ← hpending]
      exact congrArg (fun t => (Table.get t a).getD 0) hsame.reservations
    · have hkept : w₂.finished id = w₁.finished id :=
        congrArg (fun c => (c.rows.committed.get (releaseKey id)).isSome) hsame.idempotency
      rw [hkept, hclaims]
      by_cases he : id = sessionId
      · rw [he, hfinished]
        rfl
      · rw [decide_eq_false he, Bool.or_false]
  · obtain ⟨hreserves, htaken⟩ := releaseAll_spec (bySession sessionId w.movements) w₂
    have hunfinished : w.finished sessionId = false := by
      rw [← hclaims]
      unfold World.finished
      rw [hfree]
      rfl
    have hmoved : (releaseAll (bySession sessionId w.movements) w₂).movements = w.movements :=
      hreserves.movements.trans (hmovements.trans hposts.movements)
    refine ⟨releaseAll (bySession sessionId w.movements) w₂, ?_, hreserves.ready hready,
      hmoved, fun a => ?_,
      fun id _ => ?_⟩
    · unfold releaseReservations
      simp only [Bool.false_eq_true, if_false, hrun]
    · have hsame : w₂.pendingOf a = w.pendingOf a :=
        (congrArg (fun t => (Table.get t a).getD 0) hreservations).trans (hpending a)
      rw [htaken, hsame, hunfinished, if_neg Bool.false_ne_true]
      rfl
    · have hidempotency : (releaseAll (bySession sessionId w.movements) w₂).idempotency =
          w₂.idempotency := by
        rw [hreserves.same]
      unfold World.finished
      rw [hidempotency, hset, Table.get_set]
      by_cases he : id = sessionId
      · rw [if_pos (congrArg releaseKey he), decide_eq_true he, Bool.or_true]
        rfl
      · have hkey : releaseKey id ≠ releaseKey sessionId := fun h => he ((String.append_right_inj _).mp h)
        rw [if_neg hkey, decide_eq_false he, Bool.or_false]
        exact hclaims id

theorem replayMovements_holding (env : Env) (head : String) (ms : List Movement) (postings : Nat)
    (rejected : List (String × Reason)) (hs : Holding sessionId w s) (w₁ : World) :
    Holding sessionId w (replayMovements env sessionId head ms postings rejected s w₁).2.1 := by
  induction ms generalizing postings rejected s w₁ with
  | nil => exact hs
  | cons m ms ih =>
    unfold replayMovements
    split
    · exact ih _ _ hs _
    · rename_i e _ _
      have hs' : Holding sessionId w (s.remember m.idempotencyKey (.rejected (reasonOf e))) :=
        ⟨hs.ofSession, hs.accepted, hs.released, hs.scope⟩
      exact ih _ _ hs' _

theorem replay_finishes (env : Env) (movements : List Movement) (head : String)
    (hms : ∀ m ∈ movements, requireMovementLegs m.legs = .ok ()) (hs : Holding sessionId w s) {w₁ : World}
    (hposts : w.Posts (OwnId sessionId) w₁) :
    Finishes sessionId w (replay env movements head s w₁).2.2 := by
  have hreplayed := replayMovements_posts env sessionId head hms 0 [] s hposts.ready
  have hholding := replayMovements_holding env head movements 0 [] hs w₁
  unfold replay
  rw [hs.ofSession]
  rcases hrun : replayMovements env sessionId head movements 0 [] s w₁ with ⟨⟨postings, rejected⟩, s₁, w₂⟩
  rw [hrun] at hreplayed hholding
  obtain ⟨w₃, hrelease, hfinishes⟩ := releaseReservations_finishes env hholding (hposts.trans hreplayed)
  simp only [hrelease]
  exact hfinishes

theorem settleJournal_finishes (env : Env) {movements : List Movement} (head : String)
    (hms : ∀ m ∈ movements, requireMovementLegs m.legs = .ok ()) (hs : Holding sessionId w s)
    (hw : w.Ready) {report : SettleReport}
    (h : settleJournal env movements head s w = (.ok report, s', w')) :
    Finishes sessionId w w' := by
  obtain rfl := hs.ofSession
  have hsettled : Holding s.sessionId w { s with settled := true } :=
    ⟨hs.ofSession, hs.accepted, hs.released, hs.scope⟩
  have hnz : ∀ chunk ∈ s.chunks movements, ∀ p ∈ chunk, p.2 ≠ 0 := by
    intro chunk hchunk p hp
    apply positionsOf_nonzero
    rw [← s.chunks_flatten movements, List.flatMap_def, List.zipIdx_map_fst 0 (s.chunks movements)]
    exact List.mem_flatten.mpr ⟨chunk, hchunk, hp⟩
  unfold settleJournal at h
  split at h
  · have hfinishes := replay_finishes env movements head hms hsettled (.refl hw)
    rw [h] at hfinishes
    exact hfinishes
  · have hchunks := postChunks_posts env s.sessionId ⟨(s.chunks movements).length, movements.length, head⟩
      (chunks_nonzero s movements) [] hw
    simp only at h
    rcases hrun : postChunks env s.sessionId ⟨(s.chunks movements).length, movements.length, head⟩
      (s.chunks movements).zipIdx [] w with ⟨⟨through, posted⟩, w₁⟩
    rw [hrun] at hchunks h
    cases through with
    | true =>
      obtain ⟨w₂, hrelease, hfinishes⟩ := releaseReservations_finishes env hs hchunks
      simp only [hrelease] at h
      obtain rfl : w₂ = w' := congrArg (fun r => r.2.2) h
      exact hfinishes
    | false =>
      have hcomp := compensateChunks_posts env s.sessionId ⟨(s.chunks movements).length,
        movements.length, head⟩
        hnz posted.reverse hchunks.ready
      simp only at h
      rcases hundo : compensateChunks env s.sessionId ⟨(s.chunks movements).length, movements.length, head⟩
        (s.chunks movements) posted.reverse w₁ with ⟨result, w₂⟩
      rw [hundo] at hcomp h
      cases result with
      | error e => cases h
      | ok u =>
        have hfinishes := replay_finishes env movements head hms hsettled (hchunks.trans hcomp)
        simp only at h
        rw [h] at hfinishes
        exact hfinishes

end Finishing

/-- A recovery of a session: its options are the host's. -/
structure Resumption where
  sessionId : String
  maxBatch : Nat
  width : {n : Nat // 0 < n}

def finishSession (env : Env) (r : Resumption) (w : World) : Except Fault Unit × World :=
  match recoverSession env r.sessionId r.maxBatch r.width .shared w with
  | (.error e, w) => (.error e, w)
  | (.ok s, w) =>
    match settle env s w with
    | (.error e, _, w) => (.error e, w)
    | (.ok _, _, w) => (.ok (), w)

/-- One after another, up to the first that fails. -/
def finishAll (env : Env) : List Resumption → World → Except Fault Unit × World
  | [], w => (.ok (), w)
  | r :: rest, w =>
    match finishSession env r w with
    | (.error e, w) => (.error e, w)
    | (.ok (), w) => finishAll env rest w

section Later

variable {env : Env} {w w' : World}

theorem finishSession_finishes (env : Env) (r : Resumption) (hw : w.Journaled)
    (h : finishSession env r w = (.ok (), w')) : Finishes r.sessionId w w' := by
  unfold finishSession at h
  cases hjournal : journal env r.sessionId w with
  | error e =>
    unfold recoverSession at h
    rw [hjournal] at h
    cases h
  | ok movements =>
    obtain rfl := journal_ok hjournal
    obtain ⟨s, w₁, hrun, -, hshared, hid, hpending, haccepted, hreleased, hscope, -⟩ :=
      recoverSession_spec env r.sessionId r.maxBatch r.width .shared hjournal
    obtain rfl := hshared rfl
    have hholding : Holding r.sessionId w₁ s := ⟨hid, haccepted, hreleased, hscope⟩
    have hms : ∀ m ∈ bySession r.sessionId w₁.movements, requireMovementLegs m.legs = .ok () := fun m hm =>
      hw.rows m (mem_bySession.mp hm).1
    rw [hrun] at h
    simp only at h
    rcases hsettle : settle env s w₁ with ⟨result, s₂, w₂⟩
    rw [hsettle] at h
    cases result with
    | error e => cases h
    | ok report =>
      obtain rfl : w₂ = w' := congrArg Prod.snd h
      unfold settle at hsettle
      rw [flush_nothing hpending] at hsettle
      simp only [hid, hjournal] at hsettle
      cases hlast : (bySession r.sessionId w₁.movements).getLast? with
      | none =>
        rw [hlast] at hsettle
        obtain rfl : w₁ = w₂ := congrArg (fun x => x.2.2) hsettle
        have hempty := List.getLast?_eq_none_iff.mp hlast
        refine ⟨hw.ready, rfl, fun a => ?_, fun id hid' => ?_⟩
        · have hnone : w₁.owes a r.sessionId = 0 := by
            unfold World.owes
            rw [hempty]
            rfl
          rw [hnone, ite_self, Int.sub_zero]
        · have hne : id ≠ r.sessionId := by
            rintro rfl
            obtain ⟨m, hm, hof⟩ := mem_sessionIds.mp hid'
            have hmem : m ∈ bySession r.sessionId w₁.movements := mem_bySession.mpr ⟨hm, hof⟩
            rw [hempty] at hmem
            exact absurd hmem List.not_mem_nil
          rw [decide_eq_false hne, Bool.or_false]
      | some last =>
        rw [hlast] at hsettle
        exact settleJournal_finishes env last.hash hms hholding hw.ready hsettle

/-- Taking one element out of those of a kind takes its share out of their sum. -/
theorem sum_filter_without {ids : List String} (hnodup : ids.Nodup) (kind : String → Bool)
    (f : String → Int) {x : String} (hx : x ∈ ids) : ((ids.filter kind).map f).sum =
      ((ids.filter fun id => kind id && !decide (id = x)).map f).sum + if kind x then f x else 0 := by
  induction ids with
  | nil => exact absurd hx List.not_mem_nil
  | cons id ids ih =>
    obtain ⟨hlast, hrest⟩ := List.nodup_cons.mp hnodup
    rcases List.mem_cons.mp hx with rfl | hx
    · have hapart : ids.filter (fun id => kind id && !decide (id = x)) = ids.filter kind := by
        apply List.filter_congr
        intro id hid
        have hne : id ≠ x := by
          rintro rfl
          exact hlast hid
        rw [decide_eq_false hne, Bool.not_false, Bool.and_true]
      have hself : (kind x && !decide (x = x)) = false := by
        rw [decide_eq_true rfl, Bool.not_true, Bool.and_false]
      rw [List.filter_cons_of_neg (p := fun id => kind id && !decide (id = x)) (by
        rw [hself]; exact Bool.false_ne_true), hapart]
      by_cases hkind : kind x = true
      · rw [List.filter_cons_of_pos hkind, List.map_cons, List.sum_cons, if_pos hkind, Int.add_comm]
      · rw [List.filter_cons_of_neg hkind, if_neg hkind, Int.add_zero]
    · have hne : id ≠ x := by
        rintro rfl
        exact hlast hx
      have hsame : (kind id && !decide (id = x)) = kind id := by
        rw [decide_eq_false hne, Bool.not_false, Bool.and_true]
      by_cases hkind : kind id = true
      · rw [List.filter_cons_of_pos hkind,
          List.filter_cons_of_pos (p := fun id => kind id && !decide (id = x)) (hsame.trans hkind),
            List.map_cons,
          List.map_cons, List.sum_cons, List.sum_cons, ih hrest hx, Int.add_assoc]
      · rw [List.filter_cons_of_neg hkind,
          List.filter_cons_of_neg (p := fun id => kind id && !decide (id = x))
            (fun h => hkind (hsame.symm.trans h)), ih hrest hx]

theorem World.owed_split (w : World) (kind other : String → Bool) (a : AccountRef) :
    w.owed kind a = w.owed (fun id => kind id && other id) a + w.owed
      (fun id => kind id && !other id) a := by
  unfold World.owed
  induction sessionIds w.movements with
  | nil => rfl
  | cons id ids ih =>
    simp only [List.filter_cons]
    cases kind id <;> cases other id <;> simp [ih] <;> omega

/-- Sessions that are finished one after another take what the unfinished among them hold. -/
theorem finishAll_takes (env : Env) (order : List Resumption) (hw : w.Journaled)
    (h : finishAll env order w = (.ok (), w')) (a : AccountRef) :
    w'.pendingOf a = w.pendingOf a -
      w.owed (fun id => !w.finished id && decide (id ∈ order.map Resumption.sessionId)) a := by
  induction order generalizing w with
  | nil =>
    obtain rfl : w = w' := congrArg Prod.snd h
    have hnone : (sessionIds w.movements).filter
        (fun id => !w.finished id && decide (id ∈ ([] : List Resumption).map Resumption.sessionId)) =
        [] := by
      apply List.filter_eq_nil_iff.mpr
      intro id _
      rw [List.map_nil, decide_eq_false List.not_mem_nil, Bool.and_false]
      exact Bool.false_ne_true
    unfold World.owed
    rw [hnone]
    exact (Int.sub_zero _).symm
  | cons r rest ih =>
    unfold finishAll at h
    rcases hrun : finishSession env r w with ⟨result, w₁⟩
    rw [hrun] at h
    cases result with
    | error e => cases h
    | ok u =>
      have hfinishes := finishSession_finishes env r hw hrun
      have hjournaled : w₁.Journaled := ⟨hfinishes.ready, hfinishes.movements ▸ hw.rows⟩
      rw [ih hjournaled h, hfinishes.pending]
      have howed : w₁.owed (fun id => !w₁.finished id && decide (id ∈ rest.map Resumption.sessionId)) a =
          w.owed (fun id => (!w.finished id && decide (id ∈ (r :: rest).map Resumption.sessionId)) &&
            !decide (id = r.sessionId)) a := by
        unfold World.owed
        rw [hfinishes.movements]
        have hsame : w₁.owes a = w.owes a := by
          unfold World.owes
          rw [hfinishes.movements]
        rw [hsame]
        congr 2
        apply List.filter_congr
        intro id hid
        rw [hfinishes.finished id hid, List.map_cons]
        by_cases hne : id = r.sessionId
        · rw [decide_eq_true hne]
          simp only [Bool.or_true, Bool.not_true, Bool.false_and, Bool.and_false]
        · rw [decide_eq_false hne, Bool.or_false, Bool.not_false, Bool.and_true, decide_eq_decide.mpr]
          rw [List.mem_cons, or_iff_right hne]
      rw [howed]
      by_cases hlisted : r.sessionId ∈ sessionIds w.movements
      · have hsum := sum_filter_without (nodup_sessionIds w.movements)
          (fun id => !w.finished id && decide (id ∈ (r :: rest).map Resumption.sessionId))
          (w.owes a) hlisted
        have hmem : decide (r.sessionId ∈ (r :: rest).map Resumption.sessionId) = true :=
          decide_eq_true List.mem_cons_self
        rw [hmem, Bool.and_true] at hsum
        unfold World.owed
        rw [hsum]
        cases w.finished r.sessionId
        · simp only [Bool.not_false, Bool.false_eq_true, if_false, if_true]
          omega
        · simp only [Bool.not_true, Bool.false_eq_true, if_false, if_true]
          omega
      · have hnone : w.owes a r.sessionId = 0 := by
          have hempty : bySession r.sessionId w.movements = [] := by
            apply List.eq_nil_iff_forall_not_mem.mpr
            intro m hm
            exact hlisted (mem_sessionIds.mpr ⟨m, mem_bySession.mp hm⟩)
          unfold World.owes
          rw [hempty]
          rfl
        have hsame : w.owed (fun id =>
          (!w.finished id && decide (id ∈ (r :: rest).map Resumption.sessionId)) &&
            !decide (id = r.sessionId)) a =
            w.owed (fun id => !w.finished id && decide (id ∈ (r :: rest).map Resumption.sessionId)) a := by
          unfold World.owed
          congr 2
          apply List.filter_congr
          intro id hid
          have hne : id ≠ r.sessionId := by
            rintro rfl
            exact hlisted hid
          rw [decide_eq_false hne, Bool.not_false, Bool.and_true]
        rw [hsame, hnone, ite_self, Int.sub_zero]

end Later

/-- The counter is what unfinished sessions hold, it is empty once they finish, and a second repair moves
nothing. -/
structure RepairExact (env : Env) (rows : List AccountRef) (w w' : World) : Prop where
  exact_ : ∀ a, w'.pendingOf a = w.owed (fun id => !w.finished id) a
  drains : ∀ order : List Resumption,
    (∀ id ∈ sessionIds w.movements, w.finished id = false → id ∈ order.map Resumption.sessionId) →
      (finishAll env order w').1 = .ok () → ∀ a, (finishAll env order w').2.pendingOf a = 0
  idle : ∀ rows', ListsRows rows' w' → reconcileReservations env rows' w' = (.ok (rows'.length, 0), w')

/-- What is inferred of the sessions weighs, account by account, what their claims say. -/
structure Attuned (env : Env) (rows : List AccountRef) (w : World) : Prop where
  verified : ∀ id ∈ sessionIds w.movements, (journal env id w).isOk = true
  balanced : ∀ a ∈ rows, w.owed (fun id => w.settledOnRecord id && !w.finished id) a =
    w.owed (fun id => !w.settledOnRecord id && w.finished id) a
  rowless : ∀ a, a ∉ rows → w.owed (fun id => !w.finished id) a = 0

theorem owed_eq_iff (w : World) (a : AccountRef) :
    w.owed (fun id => !w.settledOnRecord id) a = w.owed (fun id => !w.finished id) a ↔
      w.owed (fun id => w.settledOnRecord id && !w.finished id) a =
        w.owed (fun id => !w.settledOnRecord id && w.finished id) a := by
  have hleft := w.owed_split (fun id => !w.settledOnRecord id) w.finished a
  have hright := w.owed_split (fun id => !w.finished id) w.settledOnRecord a
  have hswap : w.owed (fun id => !w.finished id && w.settledOnRecord id) a =
      w.owed (fun id => w.settledOnRecord id && !w.finished id) a :=
    congrArg (fun kind => w.owed kind a) (funext fun id => Bool.and_comm _ _)
  have hboth : w.owed (fun id => !w.finished id && !w.settledOnRecord id) a =
      w.owed (fun id => !w.settledOnRecord id && !w.finished id) a :=
    congrArg (fun kind => w.owed kind a) (funext fun id => Bool.and_comm _ _)
  rw [hleft, hright, hswap, hboth]
  omega

/-- The repair is exact just when each journal re-derives and what is inferred weighs what the claims say.
-/
theorem reconcile_exact_iff (env : Env) {w : World} (hw : w.Journaled) {rows : List AccountRef}
    (hrows : ListsRows rows w) :
    (∃ adjusted w', reconcileReservations env rows w = (.ok (rows.length, adjusted), w') ∧
      RepairExact env rows w w') ↔
      Attuned env rows w := by
  rcases reconcile_cases env hrows with
    ⟨hbroken, e, hrun⟩ | ⟨hverified, adjusted, w', hrun, hreserves, hpending, hlisted, -⟩
  · constructor
    · rintro ⟨adjusted, w', hok, -⟩
      rw [hrun] at hok
      cases hok
    · exact fun h => absurd h.verified hbroken
  · have hsettled : ∀ id, w'.settledOnRecord id = w.settledOnRecord id := by
      intro id
      have hsame : w.PostsFor (fun _ => False) w' :=
        .of_book (hreserves.ready hw.ready) (congrArg MemoryLedger.book hreserves.ledger)
          hreserves.movements
      exact hsame.settledOnRecord fun _ hnone => hnone.elim
    have howed : ∀ kind a, w'.owed kind a = w.owed kind a := by
      intro kind a
      unfold World.owed World.owes
      rw [hreserves.movements]
    have hfinished : ∀ id, w'.finished id = w.finished id := by
      intro id
      unfold World.finished
      rw [hreserves.same]
    constructor
    · rintro ⟨adjusted', w'', hok, hexact⟩
      obtain rfl : w' = w'' := congrArg Prod.snd (hrun.symm.trans hok)
      refine ⟨hverified, fun a ha => ?_, fun a ha => ?_⟩
      · rw [← owed_eq_iff, ← hexact.exact_, hpending, if_pos ha]
      · rw [← hexact.exact_, hpending, if_neg ha]
    · intro hattuned
      have hcounter : ∀ a, w'.pendingOf a = w.owed (fun id => !w.finished id) a := by
        intro a
        rw [hpending]
        split
        · rename_i ha
          exact (owed_eq_iff w a).mpr (hattuned.balanced a ha)
        · rename_i ha
          exact (hattuned.rowless a ha).symm
      refine ⟨adjusted, w', hrun, hcounter, fun order hcovers hdone a => ?_, fun rows' hrows' => ?_⟩
      · have hjournaled : w'.Journaled := ⟨hreserves.ready hw.ready, hreserves.movements ▸ hw.rows⟩
        rcases hfinish : finishAll env order w' with ⟨result, v⟩
        rw [hfinish] at hdone
        simp only at hdone
        subst hdone
        have htakes := finishAll_takes env order hjournaled hfinish a
        have hall : w.owed (fun id => !w'.finished id && decide (id ∈ order.map Resumption.sessionId)) a =
            w.owed (fun id => !w.finished id) a := by
          unfold World.owed
          congr 2
          apply List.filter_congr
          intro id hid
          rw [hfinished]
          cases hf : w.finished id with
          | true => rfl
          | false => exact decide_eq_true (hcovers id hid hf)
        simp only
        rw [htakes, howed, hall, hcounter, Int.sub_self]
      · have hverified' : ∀ id ∈ sessionIds w'.movements, (journal env id w').isOk = true := by
          intro id hid
          rw [hreserves.movements] at hid
          have hjournal : journal env id w' = journal env id w := by
            unfold journal
            rw [hreserves.movements]
          rw [hjournal]
          exact hverified id hid
        rcases reconcile_cases env hrows' with
          ⟨hbroken, -⟩ | ⟨-, adjusted', v, hrun', -, -, -, hidle⟩
        · exact absurd hverified' hbroken
        · obtain ⟨rfl, rfl⟩ := hidle fun a ha => by
            have hin := hlisted a ((hrows'.covers a).mp ha)
            have hkind : w'.owed (fun id => !w'.settledOnRecord id) a =
                w.owed (fun id => !w.settledOnRecord id) a := by
              rw [howed]
              exact congrArg (fun kind => w.owed kind a) (funext fun id => congrArg not (hsettled id))
            rw [hkind, hpending, if_pos hin]
          exact hrun'

def usrRows : List AccountRef := [spendable "usr_a", spendable "usr_b"]

/-- The session's reservations, and one of seven credits that no movement stands for. -/
def leaky : World :=
  (oneOrphan.addReservation (spendable "usr_a") (-12)).addReservation (spendable "usr_b") 5

/-- A crash after the first of two chunks. -/
def halfSettled : World :=
  (postChunk orphanEnv "ses_1" ⟨2, 1, "head"⟩ [(spendable "usr_a", 5)] 0 false
    ((oneOrphan.addReservation (spendable "usr_a") (-5)).addReservation (spendable "usr_b") 5)).2

theorem reserved_rows {a b : Int} :
    ListsRows usrRows ((oneOrphan.addReservation (spendable "usr_a") a).addReservation
      (spendable "usr_b") b) := by
  refine ⟨by decide, fun account => ?_⟩
  unfold usrRows World.addReservation
  simp only [Table.get_set, List.mem_cons, List.not_mem_nil, or_false]
  by_cases hb : account = spendable "usr_b"
  · rw [if_pos hb]
    exact ⟨fun _ => rfl, fun _ => Or.inr hb⟩
  · rw [if_neg hb, or_iff_left hb]
    by_cases ha : account = spendable "usr_a"
    · rw [if_pos ha]
      exact ⟨fun _ => rfl, fun _ => ha⟩
    · rw [if_neg ha]
      exact ⟨fun h => absurd h ha, fun h => by cases h⟩

theorem reserved_journaled (a b : Int) :
    ((oneOrphan.addReservation (spendable "usr_a") a).addReservation (spendable "usr_b") b).Journaled := by
  have hreserves := (oneOrphan.addReservation_reserves (spendable "usr_a") a).trans
    (World.addReservation_reserves _ (spendable "usr_b") b)
  exact ⟨hreserves.ready oneOrphan_journaled.ready, oneOrphan_journaled.rows⟩

/-- The leak is repaired, and nothing else is touched. -/
theorem leak_repaired : ∃ w', reconcileReservations orphanEnv usrRows leaky = (.ok (2, 1), w') ∧
    RepairExact orphanEnv usrRows leaky w' := by
  obtain ⟨hadjusted, hids, hverified, hunsettled, hunfinished, hbalanced⟩ :
      ((reconcileReservations orphanEnv usrRows leaky).1.toOption = some (2, 1)) ∧
        sessionIds leaky.movements = ["ses_1"] ∧ (journal orphanEnv "ses_1" leaky).isOk = true ∧
        leaky.settledOnRecord "ses_1" = false ∧ leaky.finished "ses_1" = false ∧
        ∀ a ∈ usrRows, leaky.owed (fun id => leaky.settledOnRecord id && !leaky.finished id) a =
          leaky.owed (fun id => !leaky.settledOnRecord id && leaky.finished id) a := by
    decide +kernel
  have hattuned : Attuned orphanEnv usrRows leaky := by
    refine ⟨fun id hid => ?_, hbalanced, fun a ha => ?_⟩
    · rw [hids] at hid
      obtain rfl := List.mem_singleton.mp hid
      exact hverified
    · have hkept : (sessionIds leaky.movements).filter (fun id => !leaky.finished id) = ["ses_1"] := by
        rw [hids, List.filter_cons_of_pos, List.filter_nil]
        rw [hunfinished]
        rfl
      have haccounts : (walletDeltas (bySession "ses_1" leaky.movements)).map Prod.fst = usrRows := by
        decide +kernel
      unfold World.owed World.owes
      rw [hkept, List.map_singleton, List.sum_singleton]
      apply total_eq_zero
      rw [haccounts]
      exact ha
  obtain ⟨adjusted, w', hrun, hexact⟩ :=
    (reconcile_exact_iff orphanEnv (reserved_journaled (-12) 5) reserved_rows).mpr hattuned
  have hone : adjusted = 1 := by
    rw [show reconcileReservations orphanEnv usrRows leaky = _ from hrun] at hadjusted
    exact congrArg Prod.snd (Option.some.inj hadjusted)
  subst hone
  exact ⟨w', hrun, hexact⟩

/-- The repair erases what the half-settled session still holds, and its release takes it once more. -/
theorem half_settled_erased :
    halfSettled.Journaled ∧ ListsRows usrRows halfSettled ∧
    (¬ ∃ adjusted w', reconcileReservations orphanEnv usrRows halfSettled =
      (.ok (usrRows.length, adjusted), w') ∧
      RepairExact orphanEnv usrRows halfSettled w') ∧
    (finishAll orphanEnv [⟨"ses_1", 64, ⟨1, by decide⟩⟩]
      (reconcileReservations orphanEnv usrRows halfSettled).2).2.pendingOf (spendable "usr_a") = 5 := by
  have hnz : ∀ p ∈ [(spendable "usr_a", (5 : Int))], p.2 ≠ 0 := by decide
  have hposts := postChunk_posts orphanEnv "ses_1" ⟨2, 1, "head"⟩ hnz 0 false
    (reserved_journaled (-5) 5).ready
  have hrows : ListsRows usrRows halfSettled := by
    have hbefore := @reserved_rows (-5) 5
    refine ⟨hbefore.nodup, fun a => ?_⟩
    unfold halfSettled
    rw [hposts.reservations]
    exact hbefore.covers a
  have hjournaled : halfSettled.Journaled := hposts.toPostsFor.journaled (reserved_journaled (-5) 5)
  obtain ⟨herased, howed, hgranted⟩ :
      (reconcileReservations orphanEnv usrRows halfSettled).2.pendingOf (spendable "usr_a") = 0 ∧
      halfSettled.owed (fun id => !halfSettled.finished id) (spendable "usr_a") = -5 ∧
      (finishAll orphanEnv [⟨"ses_1", 64, ⟨1, by decide⟩⟩]
        (reconcileReservations orphanEnv usrRows halfSettled).2).2.pendingOf (spendable "usr_a") = 5 := by
    decide +kernel
  refine ⟨hjournaled, hrows, ?_, hgranted⟩
  rintro ⟨adjusted, w', hrun, hexact⟩
  have hcounter := hexact.exact_ (spendable "usr_a")
  rw [hrun] at herased
  rw [howed] at hcounter
  exact absurd (herased.symm.trans hcounter) (by decide)

end EconomyLab
