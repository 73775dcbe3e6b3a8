import EconomyLab.Foundation.Runs
import EconomyLab.Netting.Settlement

/-!
# Settled exactly once

What a report, or the settled flag of a recovered session, says about the ledger at the
end of a run: every movement took effect once, or is reported as refused and took none.
-/

namespace EconomyLab

open Foundation

/-- The live session, with everything flushed and nothing settled yet. -/
structure Awaiting (env : Env) (s : InstanceSession) (w : World) : Prop where
  closed : w.Closed
  ledger : ∃ cmds, w.ledger = (runLedger env.digest cmds).ledger
  journaling : Journaling env w s
  flushed : s.pending = []
  unsettled : s.settled = false
  unreleased : s.released = false
  uncompensated : ∀ i, w.posted (compTxnId s.sessionId i) = false
  unreplayed : ∀ i, w.posted (movementTxnId s.sessionId i) = false

/-- The run begins with the live session alone. -/
def Settling.begun (s : InstanceSession) (w : World) : Settling :=
  ⟨w, [⟨s, [], .idle⟩], [], none, fun _ => 0, fun _ => 0⟩

section Outcome

variable (sessionId : String) (ms : List Movement) (start : World) (σ : Settling) (refused : List String)

/-- Each movement took effect once, or its key is refused and it took none. The chunks stand and
nothing else, or they are undone and the movements on the ledger are those not refused. -/
structure EffectOnce : Prop where
  balance : ∀ a, σ.world.balanceOf a = start.balanceOf a + σ.others a +
    total (deltas ((ms.filter (·.idempotencyKey ∉ refused)).flatMap Movement.legs)) a
  clearing : (∀ m ∈ ms, ∀ leg ∈ m.legs, leg.account ≠ SYSTEM.NETTING_CLEARING) →
    σ.world.balanceOf SYSTEM.NETTING_CLEARING =
      start.balanceOf SYSTEM.NETTING_CLEARING + σ.others SYSTEM.NETTING_CLEARING
  named : ∀ key ∈ refused, ∃ m ∈ ms, m.idempotencyKey = key
  rows : (refused = [] ∧ (∀ i, σ.world.posted (compTxnId sessionId i) = false) ∧
      ∀ m ∈ ms, σ.world.posted (movementTxnId sessionId m.seq) = false) ∨
    ((∀ i, σ.world.posted (chunkTxnId sessionId i) = true → σ.world.posted (compTxnId sessionId i) =
      true) ∧
      ∀ m ∈ ms, m.idempotencyKey ∈ refused ↔ σ.world.posted (movementTxnId sessionId m.seq) = false)

end Outcome

/-! ## Sums over chunks and movements -/

theorem chunkMoves_append (c c' : Chunk) (a : AccountRef) :
    chunkMoves (c ++ c') a = chunkMoves c a + chunkMoves c' a := by
  unfold chunkMoves
  rw [total_append, naturalOf_add, chunkSum_append]
  split <;> ring

theorem sum_chunkMoves (chunks : List Chunk) (a : AccountRef) :
    ((List.range chunks.length).map fun i => chunkMoves (chunks.getD i []) a).sum =
      chunkMoves chunks.flatten a := by
  have hmap : (List.range chunks.length).map (fun i => chunkMoves (chunks.getD i []) a) =
      chunks.map (chunkMoves · a) := by
    apply List.ext_getElem
    · simp
    · intro i hi hi'
      rw [List.length_map] at hi'
      simp [List.getD_eq_getElem?_getD, List.getElem?_eq_getElem hi']
  rw [hmap]
  clear hmap
  induction chunks with
  | nil => simp [chunkMoves]
  | cons c chunks ih => rw [List.map_cons, List.sum_cons, ih, List.flatten_cons, chunkMoves_append]

variable {sessionId : String} {refused : List String} {ms : List Movement}

theorem chunkMoves_positionsOf (h : ∀ m ∈ ms, requireMovementLegs m.legs = .ok ())
    (a : AccountRef) : chunkMoves (positionsOf ms) a = total (deltas (ms.flatMap Movement.legs)) a := by
  have hstored : movementAmounts ms = stored (ms.flatMap Movement.legs) := by
    unfold movementAmounts stored
    rw [List.map_flatMap]
  unfold chunkMoves
  rw [chunkSum_positionsOf h, positionsOf_total, hstored, ← total_deltas]
  split <;> rw [add_zero]

theorem replayed_eq {w : World}
    (h : ∀ m ∈ ms, m.idempotencyKey ∈ refused ↔ w.posted (movementTxnId sessionId m.seq) = false)
    (a : AccountRef) : replayed sessionId ms w a =
      total (deltas ((ms.filter (·.idempotencyKey ∉ refused)).flatMap Movement.legs)) a := by
  induction ms with
  | nil => rfl
  | cons m ms ih =>
    rw [List.forall_mem_cons] at h
    have hrest := ih h.2
    unfold replayed at hrest ⊢
    rw [List.map_cons, List.sum_cons, hrest, List.filter_cons]
    by_cases hk : m.idempotencyKey ∈ refused
    · have hp := h.1.mp hk
      simp [hk, hp]
    · have hp : w.posted (movementTxnId sessionId m.seq) = true := by
        by_contra hp
        exact hk (h.1.mpr (by simpa using hp))
      simp only [hp, if_true, hk, not_false_eq_true, decide_true, List.flatMap_cons, deltas_append,
        total_append]

section System

variable {env : Env} {sessionId : String} {ms : List Movement} {p : Nat} {start : World} {σ : Settling}

theorem clearing_untouched (h : ∀ m ∈ ms, ∀ leg ∈ m.legs, leg.account ≠ SYSTEM.NETTING_CLEARING) :
    total (deltas ((ms.filter (·.idempotencyKey ∉ refused)).flatMap Movement.legs))
      SYSTEM.NETTING_CLEARING = 0 := by
  apply total_eq_zero
  intro hm
  obtain ⟨leg, hl, he⟩ := List.mem_map.mp (mem_deltas_account.mp hm)
  obtain ⟨m, hm, hl⟩ := List.mem_flatMap.mp hl
  exact h m (List.mem_filter.mp hm).1 leg hl he

/-- With all chunks posted, every movement took effect and nothing else was posted. -/
theorem Consistent.effectOnce_of_whole (h : Consistent sessionId ms env start σ p)
    (hchecked : ∀ m ∈ ms, requireMovementLegs m.legs = .ok ()) (hwhole : Whole ms (σ.chunks ms) p) :
    EffectOnce sessionId ms start σ [] ∧ ∀ i, σ.world.posted (compTxnId sessionId i) = false := by
  have hcomp : ∀ i, σ.world.posted (compTxnId sessionId i) = false := by
    intro i
    by_contra hp
    exact (h.evidence.comp i (by simpa using hp)).2 hwhole
  have hmv : ∀ m ∈ ms, σ.world.posted (movementTxnId sessionId m.seq) = false := by
    intro m hm
    by_contra hp
    exact (h.evidence.movement m hm (by simpa using hp)).2 hwhole
  have hbalance : ∀ a, σ.world.balanceOf a = start.balanceOf a + σ.others a +
      total (deltas ((ms.filter (·.idempotencyKey ∉ ([] : List String))).flatMap Movement.legs)) a := by
    intro a
    have hstand : standing sessionId (σ.chunks ms) p σ.world a = chunkMoves (positionsOf ms) a := by
      unfold standing
      simp only [hcomp, Bool.false_eq_true, if_false]
      rw [hwhole.1, sum_chunkMoves, hwhole.2]
    have hrep : replayed sessionId ms σ.world a = 0 := by
      unfold replayed
      rw [List.map_congr_left fun m hm => by rw [hmv m hm, if_neg Bool.false_ne_true]]
      simp
    have hall : ms.filter (·.idempotencyKey ∉ ([] : List String)) = ms := by simp
    rw [h.evidence.balance, hstand, hrep, hall, chunkMoves_positionsOf hchecked, add_zero]
  refine ⟨⟨hbalance, ?_, by simp, Or.inl ⟨rfl, hcomp, hmv⟩⟩, hcomp⟩
  intro hclr
  rw [hbalance, clearing_untouched hclr, add_zero]

/-- With every chunk undone, the movements on the ledger are the ones that took effect. -/
theorem Consistent.effectOnce_of_undone (h : Consistent sessionId ms env start σ p)
    (hundone : Undone sessionId p σ.world)
    (hkeys : Refusals sessionId σ.world ms refused) : EffectOnce sessionId ms start σ refused := by
  have hbalance : ∀ a, σ.world.balanceOf a = start.balanceOf a + σ.others a +
      total (deltas ((ms.filter (·.idempotencyKey ∉ refused)).flatMap Movement.legs)) a := by
    intro a
    have hstand : standing sessionId (σ.chunks ms) p σ.world a = 0 := by
      unfold standing
      rw [List.map_congr_left fun i hi => by rw [hundone i (List.mem_range.mp hi), if_pos rfl]]
      simp
    rw [h.evidence.balance, hstand, replayed_eq hkeys.iff, add_zero]
  refine ⟨hbalance, ?_, hkeys.named, Or.inr ⟨?_, hkeys.iff⟩⟩
  · intro hclr
    rw [hbalance, clearing_untouched hclr, add_zero]
  · intro i hp
    rw [h.evidence.posted, decide_eq_true_eq] at hp
    exact hundone i hp

theorem Consistent.effectOnce (h : Consistent sessionId ms env start σ p)
    (hchecked : ∀ m ∈ ms, requireMovementLegs m.legs = .ok ()) {report : SettleReport}
    (hr : report ∈ σ.reports) : EffectOnce sessionId ms start σ report.refused ∧
      (report.mode = .netted →
        report.rejected = [] ∧ ∀ i, σ.world.posted (compTxnId sessionId i) = false) := by
  have hsound := h.reports report hr
  cases hmode : report.mode with
  | netted =>
    obtain ⟨hwhole, hnil⟩ := hsound.netted hmode
    obtain ⟨honce, hcomp⟩ := h.effectOnce_of_whole hchecked hwhole
    have hrefused : report.refused = [] := by rw [SettleReport.refused, hnil, List.map_nil]
    rw [hrefused]
    exact ⟨honce, fun _ => ⟨hnil, hcomp⟩⟩
  | replayed =>
    obtain ⟨-, hundone, hkeys⟩ := hsound.replayed hmode
    refine ⟨h.effectOnce_of_undone hundone hkeys, ?_⟩
    intro he
    cases he

/-- A settlement said to be done is, with the refusals some report names. -/
theorem Consistent.effectOnce_of_done (h : Consistent sessionId ms env start σ p)
    (hchecked : ∀ m ∈ ms, requireMovementLegs m.legs = .ok ()) (hdone : σ.Done sessionId ms) :
    ∃ refused, EffectOnce sessionId ms start σ refused ∧
      (refused = [] ∨ ∃ report ∈ σ.reports, report.refused = refused) := by
  rcases h.done_cases hdone with hwhole | ⟨report, hr, -⟩ | ⟨hne, hall⟩
  · exact ⟨[], (h.effectOnce_of_whole hchecked hwhole).1, Or.inl rfl⟩
  · exact ⟨report.refused, (h.effectOnce hchecked hr).1, Or.inr ⟨report, hr, rfl⟩⟩
  · obtain ⟨m, hm⟩ := List.exists_mem_of_ne_nil ms hne
    have hundone : Undone sessionId p σ.world := (h.evidence.movement m hm (hall m hm)).1
    refine ⟨[], h.effectOnce_of_undone hundone ⟨?_, by simp⟩, Or.inl rfl⟩
    intro m' hm'
    rw [hall m' hm']
    simp

theorem Awaiting.consistent {s : InstanceSession} {w : World} (h : Awaiting env s w) :
    Consistent s.sessionId s.accepted env w (Settling.begun s w) 0 := by
  obtain ⟨cmds, hledger⟩ := h.ledger
  have hready := World.ready_of_run h.closed hledger
  have hunposted := h.journaling.unposted h.unsettled
  refine ⟨⟨hready, Nat.zero_le _, ?_, fun i hi => absurd hi (Nat.not_lt_zero i), ?_, ?_, ?_⟩,
    ⟨fun _ => rfl, fun _ => rfl⟩, Or.inl (h.journaling.journals h.flushed), ?_, by simp [Settling.begun]⟩
  · exact hunposted
  · intro i hp
    rw [show (Settling.begun s w).world = w from rfl, h.uncompensated i] at hp
    cases hp
  · intro m _ hp
    rw [show (Settling.begun s w).world = w from rfl, h.unreplayed m.seq] at hp
    cases hp
  · intro a
    simp [Settling.begun, standing, replayed, h.unreplayed]
  · intro t ht
    rw [List.mem_singleton.mp ht]
    refine ⟨rfl, h.flushed, ?_, fun hne => absurd rfl hne, trivial⟩
    intro hf
    rw [h.journaling.unforced] at hf
    cases hf

end System

section Runs

variable {env : Env} {s : InstanceSession} {w : World}

theorem Awaiting.seqs (h : Awaiting env s w) : (s.accepted.map Movement.seq).Nodup := by
  rw [h.journaling.seqs]
  exact List.nodup_range

theorem Awaiting.step (h : Awaiting env s w) (σ : Settling) (e : Event)
    (hc : ∃ p, Consistent s.sessionId s.accepted env w σ p)
    (hmeets : σ.Meets env s.sessionId s.accepted e) :
    ∃ p, Consistent s.sessionId s.accepted env w (σ.step env s.sessionId e) p := by
  obtain ⟨p, hc⟩ := hc
  exact hc.step h.journaling.checked h.seqs h.journaling.keys hmeets

/-- In a run whose steps meet the condition, every report tells what happened, and whoever is
told that the session is settled can rely on it. -/
theorem settlements_exactly_once (env : Env) {s : InstanceSession} {w : World} (h : Awaiting env s w)
    {events : List Event}
    (hmeets : RunMeets (Settling.step env s.sessionId) (Settling.Meets env s.sessionId s.accepted)
      (Settling.begun s w) events) :
    (∀ report ∈ (Settling.run env s.sessionId (Settling.begun s w) events).reports,
      EffectOnce s.sessionId s.accepted w (Settling.run env s.sessionId (Settling.begun s w) events)
        report.refused ∧
      (report.mode = .netted → report.rejected = [] ∧ ∀ i,
        (Settling.run env s.sessionId (Settling.begun s w) events).world.posted
          (compTxnId s.sessionId i) = false)) ∧
    ∀ pre e post index t, events = pre ++ e :: post → (e = .ask index ∨ e = .prune index) →
      (Settling.run env s.sessionId (Settling.begun s w) pre).settlers[index]? = some t →
      wasSettled t.session = true →
        ∃ refused, EffectOnce s.sessionId s.accepted w
            (Settling.run env s.sessionId (Settling.begun s w) pre) refused ∧
          (refused = [] ∨ ∃ report ∈ (Settling.run env s.sessionId (Settling.begun s w) pre).reports,
            report.refused = refused) := by
  have hstart : ∃ p, Consistent s.sessionId s.accepted env w (Settling.begun s w) p := ⟨0, h.consistent⟩
  constructor
  · intro report hr
    obtain ⟨p, hc⟩ := hmeets.inv h.step hstart
    exact hc.effectOnce h.journaling.checked hr
  · intro pre e post index t hevents he hi hset
    obtain ⟨⟨p, hc⟩, hm⟩ := hmeets.before h.step hstart hevents
    have hdone : (Settling.run env s.sessionId (Settling.begun s w) pre).Done s.sessionId s.accepted := by
      rcases he with rfl | rfl
      · exact hm t hi hset
      · exact hm t hi hset
    exact hc.effectOnce_of_done h.journaling.checked hdone

end Runs

/-- Everybody nets: a condition that can be computed. -/
def Settling.quiet (sessionId : String) (ms : List Movement) (σ : Settling) : Event → Bool
  | .call index => σ.settlers[index]?.all fun t => !t.session.replayForced && !σ.abandoned sessionId ms
  | .advance index fate => σ.settlers[index]?.all fun t =>
    match t.phase with
    | .netting (_ :: _) _ => fate = .proceed && (σ.width.isNone || t.chunks = σ.chunks ms) &&
        !σ.abandoned sessionId ms
    | .replaying (_ :: _) _ _ => false
    | _ => true
  | .ask _ => !σ.reports.isEmpty
  | .prune _ => !σ.reports.isEmpty
  | .post posting => posting.txnId.toList.head? = some 't'
  | _ => true

theorem foreign_of_head {txnId : String}
    (h : txnId.toList.head? = some 't') : Foreign sessionId ms txnId := by
  refine ⟨?_, ?_, ?_⟩
  · rintro i rfl
    rw [head?_chunkTxnId] at h
    exact absurd h (by decide)
  · rintro i rfl
    rw [head?_compTxnId] at h
    exact absurd h (by decide)
  · rintro m - rfl
    rw [head?_movementTxnId] at h
    exact absurd h (by decide)

theorem Settling.Meets.of_quiet (env : Env) (σ : Settling)
    (e : Event) (h : σ.quiet sessionId ms e = true) : σ.Meets env sessionId ms e := by
  cases e with
  | recover maxBatch width scope => trivial
  | call index =>
    intro t hi _
    simp only [quiet, hi, Option.all_some, Bool.and_eq_true, Bool.not_eq_true'] at h
    exact ⟨fun hf => absurd hf (by simp [h.1]), fun _ => h.2⟩
  | advance index fate =>
    intro t hi
    simp only [quiet, hi, Option.all_some] at h
    split
    · rename_i hphase
      simp only [hphase, Bool.and_eq_true, decide_eq_true_eq, Bool.or_eq_true, Bool.not_eq_true',
        Option.isNone_iff_eq_none] at h
      refine ⟨h.1.2, fun _ _ _ => h.2, ?_⟩
      intro he
      rw [h.1.1] at he
      cases he
    · rename_i hphase
      simp [hphase] at h
    · trivial
  | crash index => trivial
  | ask index => exact fun t _ _ => Or.inl (by simpa [quiet] using h)
  | prune index => exact fun t _ _ => Or.inl (by simpa [quiet] using h)
  | post posting => exact foreign_of_head (of_decide_eq_true h)
  | reserve account delta => trivial

theorem oneMovement_awaiting :
    let env : Env := ⟨List.take 4, fun _ => 0, fun _ => ""⟩
    let start := oneMovement env ⟨1, by decide⟩ payerFirst
    Awaiting env start.1 start.2 := by
  intro env start
  have hlog : start.2.ledger.tables.log.map StoredPosting.txnId = ["txn_1"] := by decide
  have hposted : ∀ {txnId : String}, txnId.toList.head? ≠ some 't' → start.2.posted txnId = false := by
    intro txnId hne
    apply World.posted_eq_false
    rw [hlog, List.mem_singleton]
    rintro rfl
    exact hne (by decide)
  have hopen : Journaling env { World.empty with ledger := start.2.ledger }
      (openInstanceSession "ses_1" 1 ⟨1, by decide⟩ .process) := by
    apply journaling_open
    · simp [World.empty]
    · intro i
      apply hposted
      rw [head?_chunkTxnId]
      decide
  have hrecorded := (hopen.record ⟨"mv_1", payerFirst⟩ (by simp [World.empty])).1
  refine ⟨⟨rfl, rfl, rfl, rfl, rfl, rfl, rfl, rfl, rfl, rfl⟩, ⟨_, rfl⟩, hrecorded, rfl, rfl, rfl, ?_, ?_⟩
  · intro i
    apply hposted
    rw [head?_compTxnId]
    decide
  · intro i
    apply hposted
    rw [head?_movementTxnId]
    decide

/-- A crash after the first of two chunks; the recovered session posts the other. -/
theorem settlements_exactly_once_after_crash :
    let env : Env := ⟨List.take 4, fun _ => 0, fun _ => ""⟩
    let start := oneMovement env ⟨1, by decide⟩ payerFirst
    let events : List Event := [.call 0, .advance 0 .proceed, .crash 0, .recover 1 ⟨1, by decide⟩ .process,
      .call 0, .advance 0 .proceed, .advance 0 .proceed, .advance 0 .proceed, .advance 0 .proceed,
      .advance 0 .proceed, .advance 0 .proceed, .ask 0]
    ∃ report ∈ (Settling.run env start.1.sessionId (Settling.begun start.1 start.2) events).reports,
      EffectOnce start.1.sessionId start.1.accepted start.2
        (Settling.run env start.1.sessionId (Settling.begun start.1 start.2) events) report.refused := by
  intro env start events
  have hmeets : RunMeets (Settling.step env start.1.sessionId)
      (Settling.Meets env start.1.sessionId start.1.accepted) (Settling.begun start.1 start.2) events := by
    refine RunMeets.imp (Settling.Meets.of_quiet env) ?_
    decide +kernel
  have hreports : (Settling.run env start.1.sessionId (Settling.begun start.1 start.2) events).reports ≠
      [] := by
    decide +kernel
  obtain ⟨report, hr⟩ := List.exists_mem_of_ne_nil _ hreports
  exact ⟨report, hr, ((settlements_exactly_once env oneMovement_awaiting hmeets).1 report hr).1⟩

/-- A crash after the first of two chunks: the recovered session says it settled, although the
payee never got its ten. -/
theorem settled_flag_after_first_chunk :
    let env : Env := ⟨List.take 4, fun _ => 0, fun _ => ""⟩
    let start := oneMovement env ⟨1, by decide⟩ payerFirst
    let σ := Settling.run env start.1.sessionId (Settling.begun start.1 start.2)
      [.call 0, .advance 0 .proceed, .crash 0, .recover 1 ⟨1, by decide⟩ .process]
    Awaiting env start.1 start.2 ∧ σ.settlers[0]?.map (fun t => wasSettled t.session) = some true ∧
      ¬ ∃ refused, EffectOnce start.1.sessionId start.1.accepted start.2 σ refused := by
  intro env start σ
  refine ⟨oneMovement_awaiting, by decide +kernel, ?_⟩
  rintro ⟨refused, h⟩
  have hkey : ∀ m ∈ start.1.accepted, m.idempotencyKey = "mv_1" := by decide +kernel
  by_cases hr : "mv_1" ∈ refused
  · have hnone : start.1.accepted.filter (·.idempotencyKey ∉ refused) = [] := by
      rw [List.filter_eq_nil_iff]
      intro m hm
      simpa [hkey m hm] using hr
    have hpayer := h.balance (spendable "usr_a")
    rw [hnone] at hpayer
    exact absurd hpayer (by decide +kernel)
  · have hall : start.1.accepted.filter (·.idempotencyKey ∉ refused) = start.1.accepted := by
      rw [List.filter_eq_self]
      intro m hm
      simpa [hkey m hm] using hr
    have hpayee := h.balance (spendable "usr_b")
    rw [hall] at hpayee
    exact absurd hpayee (by decide +kernel)

end EconomyLab
