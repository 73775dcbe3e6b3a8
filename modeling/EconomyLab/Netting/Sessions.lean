import EconomyLab.Netting.Recording

/-!
# A session and its journal

The rows a session has journaled, with its pending batch, are the movements it accepted,
in order and chained. Recording, flushing and settling keep this, and it makes the flush
and the re-verification of the journal succeed.
-/

namespace EconomyLab

open Foundation

def headAfter (prev : String) (movements : List Movement) : String :=
  (movements.getLast?.map Movement.hash).getD prev

theorem verifyChain_append (digest : Digest) (prev : String) (movements : List Movement) (m : Movement) :
    verifyChain digest prev (movements ++ [m]) = .ok () ↔
      verifyChain digest prev movements = .ok () ∧ m.prevHash = headAfter prev movements ∧
        m.hash = chain digest (headAfter prev movements) m.idempotencyKey m.legs := by
  induction movements generalizing prev with
  | nil =>
    simp only [List.nil_append, verifyChain, headAfter, List.getLast?_nil, Option.map_none,
      Option.getD_none]
    by_cases h : m.prevHash ≠ prev ∨ m.hash ≠ chain digest prev m.idempotencyKey m.legs
    · rw [if_pos h]
      simp only [reduceCtorEq, true_and, false_iff]
      rintro ⟨h1, h2⟩
      rcases h with h | h
      · exact h h1
      · exact h h2
    · rw [if_neg h]
      push Not at h
      simp [h.1, h.2]
  | cons m' movements ih =>
    have hhead : headAfter prev (m' :: movements) = headAfter m'.hash movements := by
      unfold headAfter
      rw [List.getLast?_cons]
      cases movements.getLast? <;> rfl
    simp only [List.cons_append, verifyChain, hhead]
    by_cases h : m'.prevHash ≠ prev ∨ m'.hash ≠ chain digest prev m'.idempotencyKey m'.legs
    · simp [h]
    · simp only [h, if_false]
      exact ih m'.hash

theorem headAfter_append (prev : String) (movements : List Movement) (m : Movement) :
    headAfter prev (movements ++ [m]) = m.hash := by
  simp [headAfter]

/-- The session accepted what its journal rows and its pending batch say. -/
structure Journaling (env : Env) (w : World) (s : InstanceSession) : Prop where
  unforced : s.replayForced = false
  rows : w.movements.filter (·.sessionId = s.sessionId) ++ s.pending = s.accepted
  stamped : ∀ m ∈ s.accepted, m.sessionId = s.sessionId
  checked : ∀ m ∈ s.accepted, requireMovementLegs m.legs = .ok ()
  seqs : s.accepted.map Movement.seq = List.range s.accepted.length
  next : s.seq = s.accepted.length
  chained : verifyChain env.digest GENESIS_HEX s.accepted = .ok ()
  head : s.head = headAfter GENESIS_HEX s.accepted
  outcomes : ∀ m ∈ s.accepted, s.outcomes.get m.idempotencyKey ≠ none
  keys : (s.accepted.map Movement.idempotencyKey).Nodup
  foreign : ∀ m ∈ s.accepted, ∀ row ∈ w.movements, row.sessionId ≠ s.sessionId →
    row.idempotencyKey ≠ m.idempotencyKey
  unposted : s.settled = false → ∀ i, w.posted (chunkTxnId s.sessionId i) = false
  standing : s.settled = true → s.pending = [] ∧ ∀ c ∈ (s.chunks s.accepted).zipIdx,
    w.posted (chunkTxnId s.sessionId c.2) = true ∧ ∃ legs, chunkLegs 1 c.1 = .ok legs

section SessionInvariant

variable {env : Env} {w w' : World} {s s' : InstanceSession}

theorem journaling_open {sessionId : String} {maxBatch : Nat} {width : {n : Nat // 0 < n}}
    {scope : Scope} (hrows : ∀ row ∈ w.movements, row.sessionId ≠ sessionId)
    (hposted : ∀ i, w.posted (chunkTxnId sessionId i) = false) :
    Journaling env w (openInstanceSession sessionId maxBatch width scope) where
  unforced := rfl
  rows := by
    simp only [openInstanceSession, List.append_nil, List.filter_eq_nil_iff]
    intro row hr hd
    exact hrows row hr (of_decide_eq_true hd)
  stamped := by simp [openInstanceSession]
  checked := by simp [openInstanceSession]
  seqs := rfl
  next := rfl
  chained := rfl
  head := rfl
  outcomes := by simp [openInstanceSession]
  keys := by simp [openInstanceSession]
  foreign := by simp [openInstanceSession]
  unposted := fun _ => hposted
  standing := by simp [openInstanceSession]

/-- What other sessions may do meanwhile: add their own rows, post their own chunks. -/
theorem Journaling.frame (h : Journaling env w s) {added : List Movement}
    (hmv : w'.movements = w.movements ++ added)
    (hother : ∀ row ∈ added, row.sessionId ≠ s.sessionId ∧
      ∀ m ∈ s.accepted, row.idempotencyKey ≠ m.idempotencyKey)
    (hposted : ∀ i, w'.posted (chunkTxnId s.sessionId i) = w.posted (chunkTxnId s.sessionId i)) :
    Journaling env w' s := by
  have hfilter : added.filter (·.sessionId = s.sessionId) = [] := by
    rw [List.filter_eq_nil_iff]
    intro row hr
    simpa using (hother row hr).1
  obtain ⟨h1, h2, h3, h4, h5, h6, h7, h8, h9, h10, h11, h12, h13⟩ := h
  refine ⟨h1, ?_, h3, h4, h5, h6, h7, h8, h9, h10, ?_, ?_, ?_⟩
  · rw [hmv, List.filter_append, hfilter, List.append_nil]
    exact h2
  · intro m hm row hr hne
    rw [hmv] at hr
    rcases List.mem_append.mp hr with hr | hr
    · exact h11 m hm row hr hne
    · exact (hother row hr).2 m hm
  · intro hset i
    rw [hposted]
    exact h12 hset i
  · intro hset
    refine ⟨(h13 hset).1, ?_⟩
    intro c hc
    rw [hposted]
    exact (h13 hset).2 c hc

theorem Journaling.unrecorded (h : Journaling env w s) (hu : Unrecorded s w s' w') :
    Journaling env w' s' := by
  have hmv := hu.world.movements
  have hposted : ∀ id, w'.posted id = w.posted id :=
    World.posted_book (congrArg MemoryLedger.book hu.world.ledger)
  obtain ⟨h1, h2, h3, h4, h5, h6, h7, h8, h9, h10, h11, h12, h13⟩ := h
  rw [hu.session]
  refine ⟨h1, hmv ▸ h2, h3, h4, h5, h6, h7, h8, ?_, h10, hmv ▸ h11, ?_, ?_⟩
  · exact fun m hm => hu.outcomes _ (h9 m hm)
  · intro hset i
    rw [hposted]
    exact h12 hset i
  · intro hset
    refine ⟨(h13 hset).1, ?_⟩
    intro c hc
    rw [hposted]
    exact (h13 hset).2 c hc

theorem appendMovements_ok {batch log : List Movement}
    (h : ∀ m ∈ batch, ∀ row ∈ log, row.idempotencyKey ≠ m.idempotencyKey ∧
      ¬ (row.sessionId = m.sessionId ∧ row.seq = m.seq)) :
    appendMovements batch log = .ok (log ++ batch) := by
  have hnone : batch.find? (fun m => log.any fun row =>
      row.idempotencyKey = m.idempotencyKey || (row.sessionId = m.sessionId && row.seq = m.seq)) =
        none := by
    rw [List.find?_eq_none]
    intro m hm
    rw [List.any_eq_true]
    rintro ⟨row, hr, he⟩
    obtain ⟨h1, h2⟩ := h m hm row hr
    rw [Bool.or_eq_true, Bool.and_eq_true] at he
    rcases he with he | ⟨hid, hseq⟩
    · exact h1 (of_decide_eq_true he)
    · exact h2 ⟨of_decide_eq_true hid, of_decide_eq_true hseq⟩
  unfold appendMovements
  rw [hnone]

theorem Journaling.flushes (h : Journaling env w s) :
    flush s w = (.ok (), { s with pending := [] }, { w with movements := w.movements ++ s.pending }) := by
  unfold flush
  by_cases hp : s.pending = []
  · rw [if_pos hp]
    have hs : ({ s with pending := [] } : InstanceSession) = s := by rw [← hp]
    have hw : ({ w with movements := w.movements ++ s.pending } : World) = w := by
      rw [hp, List.append_nil]
    rw [hs, hw]
  · rw [if_neg hp, appendMovements_ok]
    intro m hm row hr
    have hmem : m ∈ s.accepted := by
      rw [← h.rows]
      exact List.mem_append_right _ hm
    by_cases hid : row.sessionId = s.sessionId
    · have hrow : row ∈ w.movements.filter (·.sessionId = s.sessionId) :=
        List.mem_filter.mpr ⟨hr, by simpa using hid⟩
      have hkeys := h.keys
      have hseqs : (s.accepted.map Movement.seq).Nodup := h.seqs ▸ List.nodup_range
      rw [← h.rows, List.map_append, List.nodup_append] at hkeys hseqs
      refine ⟨?_, ?_⟩
      · exact hkeys.2.2 _ (List.mem_map.mpr ⟨row, hrow, rfl⟩) _ (List.mem_map.mpr ⟨m, hm, rfl⟩)
      · rintro ⟨-, he⟩
        exact hseqs.2.2 _ (List.mem_map.mpr ⟨row, hrow, rfl⟩) _ (List.mem_map.mpr ⟨m, hm, rfl⟩) he
    · refine ⟨h.foreign m hmem row hr hid, ?_⟩
      rintro ⟨he, -⟩
      exact hid (he.trans (h.stamped m hmem))

theorem Journaling.flushed (h : Journaling env w s) :
    Journaling env { w with movements := w.movements ++ s.pending } { s with pending := [] } := by
  have hfilter : s.pending.filter (·.sessionId = s.sessionId) = s.pending := by
    rw [List.filter_eq_self]
    intro m hm
    have hmem : m ∈ s.accepted := by
      rw [← h.rows]
      exact List.mem_append_right _ hm
    simpa using h.stamped m hmem
  obtain ⟨h1, h2, h3, h4, h5, h6, h7, h8, h9, h10, h11, h12, h13⟩ := h
  refine ⟨h1, ?_, h3, h4, h5, h6, h7, h8, h9, h10, ?_, h12, ?_⟩
  · rw [List.append_nil, List.filter_append, hfilter]
    exact h2
  · intro m hm row hr hne
    rcases List.mem_append.mp hr with hr | hr
    · exact h11 m hm row hr hne
    · have hmem : row ∈ s.accepted := by
        rw [← h2]
        exact List.mem_append_right _ hr
      exact absurd (h3 row hmem) hne
  · exact fun hset => ⟨rfl, (h13 hset).2⟩

theorem Journaling.journals (h : Journaling env w s) (hp : s.pending = []) :
    journal env s.sessionId w = .ok s.accepted := by
  have hrows := h.rows
  rw [hp, List.append_nil] at hrows
  have hsorted : s.accepted.Pairwise fun a b => a.seq ≤ b.seq := by
    have hr : (s.accepted.map Movement.seq).Pairwise (· ≤ ·) := by
      rw [h.seqs]
      exact List.pairwise_le_range
    exact List.pairwise_map.mp hr
  have hsort : bySession s.sessionId w.movements = s.accepted := by
    unfold bySession
    rw [hrows]
    exact hsorted.insertionSort_eq
  simp only [journal, hsort, h.chained]
  rfl

theorem Journaling.accepts (h : Journaling env w s) {request : MovementRequest}
    (hset : s.settled = false) (hfresh : s.outcomes.get request.idempotencyKey = none)
    (hchecked : requireMovementLegs request.legs = .ok ())
    (hforeign : ∀ row ∈ w.movements, row.sessionId ≠ s.sessionId →
      row.idempotencyKey ≠ request.idempotencyKey)
    {s₁ : InstanceSession} {w₁ : World}
    (hs₁ : s₁ = { s with
      opening := s₁.opening
      seq := s.seq + 1
      head := (nextMovement env request s w).hash
      accepted := s.accepted ++ [nextMovement env request s w]
      pending := s.pending ++ [nextMovement env request s w]
      outcomes := s.outcomes.set request.idempotencyKey (.accepted s.seq) })
    (hw₁ : w₁ = { w with reservations := w₁.reservations, ticks := w₁.ticks }) :
    Journaling env w₁ s₁ := by
  have hnew : ∀ m ∈ s.accepted, m.idempotencyKey ≠ request.idempotencyKey := by
    intro m hm he
    exact h.outcomes m hm (he ▸ hfresh)
  have hmv : w₁.movements = w.movements := by rw [hw₁]
  have hposted : ∀ id, w₁.posted id = w.posted id :=
    World.posted_book (by rw [hw₁])
  obtain ⟨h1, h2, h3, h4, h5, h6, h7, h8, h9, h10, h11, h12, h13⟩ := h
  rw [hs₁]
  refine ⟨h1, ?_, ?_, ?_, ?_, ?_, ?_, ?_, ?_, ?_, ?_, ?_, ?_⟩
  · rw [hmv, ← List.append_assoc]
    exact congrArg (· ++ [nextMovement env request s w]) h2
  · intro m hm
    rcases List.mem_append.mp hm with hm | hm
    · exact h3 m hm
    · rw [List.mem_singleton.mp hm]
      rfl
  · intro m hm
    rcases List.mem_append.mp hm with hm | hm
    · exact h4 m hm
    · rw [List.mem_singleton.mp hm]
      exact hchecked
  · simp only [List.map_append, List.length_append, List.map_cons, List.map_nil, List.length_cons,
      List.length_nil, Nat.zero_add, List.range_succ, h5]
    rw [show (nextMovement env request s w).seq = s.accepted.length from h6]
  · simp only [List.length_append, List.length_cons, List.length_nil, h6, Nat.zero_add]
  · exact (verifyChain_append _ _ _ _).mpr ⟨h7, h8, congrArg
      (chain env.digest · request.idempotencyKey request.legs) h8⟩
  · exact (headAfter_append _ _ _).symm
  · intro m hm
    by_cases hk : m.idempotencyKey = request.idempotencyKey
    · simp [hk]
    · rcases List.mem_append.mp hm with hm | hm
      · simpa [hk] using h9 m hm
      · rw [List.mem_singleton.mp hm] at hk
        exact absurd rfl hk
  · rw [List.map_append, List.nodup_append]
    refine ⟨h10, by simp, ?_⟩
    intro k hk k' hk' he
    obtain ⟨m, hm, rfl⟩ := List.mem_map.mp hk
    rw [List.map_cons, List.map_nil, List.mem_singleton] at hk'
    exact hnew m hm (he.trans hk')
  · intro m hm row hr hne
    rw [hmv] at hr
    rcases List.mem_append.mp hm with hm | hm
    · exact h11 m hm row hr hne
    · rw [List.mem_singleton.mp hm]
      exact hforeign row hr hne
  · intro _ i
    rw [hposted]
    exact h12 hset i
  · intro hset'
    rw [hset] at hset'
    cases hset'

structure Accepts (env : Env) (request : MovementRequest) (s : InstanceSession) (w : World)
    (s' : InstanceSession) : Prop where
  accepted : s'.accepted = s.accepted ++ [nextMovement env request s w]
  unsettled : s.settled = false
  fresh : s.outcomes.get request.idempotencyKey = none
  checked : requireMovementLegs request.legs = .ok ()
  passed : ∃ s₁ w₁, Passed request.legs s w s₁ w₁

/-- What a call to `record` does to a journaling session and to the journal. -/
theorem Journaling.record (h : Journaling env w s) (request : MovementRequest)
    (hforeign : s.settled = false → s.outcomes.get request.idempotencyKey = none →
      requireMovementLegs request.legs = .ok () → ∀ row ∈ w.movements, row.sessionId ≠ s.sessionId →
        row.idempotencyKey ≠ request.idempotencyKey) :
    let s' := (EconomyLab.record env request s w).2.1
    let w' := (EconomyLab.record env request s w).2.2
    Journaling env w' s' ∧ s'.sessionId = s.sessionId ∧ s'.settled = s.settled ∧
      w'.ledger.book = w.ledger.book ∧ (w.Ready → w'.Ready) ∧
      (∃ added, w'.movements = w.movements ++ added ∧ ∀ row ∈ added, row ∈ s'.accepted) ∧
      (s'.accepted = s.accepted ∨ Accepts env request s w s') := by
  intro s' w'
  rcases record_cases env request s w with hu | hr
  · have hs : s' = _ := hu.session
    refine ⟨h.unrecorded hu, by rw [hs], by rw [hs], congrArg MemoryLedger.book hu.world.ledger,
      hu.world.ready, ⟨[], ?_, by simp⟩, Or.inl (by rw [hs])⟩
    rw [List.append_nil]
    exact hu.world.movements
  · obtain ⟨hset, hfresh, hchecked, hpassed, s₁, w₁, hs₁, hw₁, hafter⟩ := hr
    have hj₁ := h.accepts hset hfresh hchecked (hforeign hset hfresh hchecked) hs₁ hw₁
    have hacc : s₁.accepted = s.accepted ++ [nextMovement env request s w] := by rw [hs₁]
    have hid : s₁.sessionId = s.sessionId := by rw [hs₁]
    have hset₁ : s₁.settled = s.settled := by rw [hs₁]
    have hbook : w₁.ledger.book = w.ledger.book := by rw [hw₁]
    have hmv : w₁.movements = w.movements := by rw [hw₁]
    have hready : w.Ready → w₁.Ready := by
      intro hw
      rw [hw₁]
      obtain ⟨c1, c2, c3, c4, c5, c6, c7, c8, c9, c10⟩ := hw.closed
      exact ⟨⟨c1, c2, c3, c4, c5, c6, c7, c8, c9, c10⟩, hw.honest⟩
    have hnew : s'.accepted = s₁.accepted → Accepts env request s w s' :=
      fun e => ⟨e.trans hacc, hset, hfresh, hchecked, hpassed⟩
    rcases hafter with he | he
    · have hse : s' = s₁ := congrArg Prod.fst he
      have hwe : w' = w₁ := congrArg Prod.snd he
      rw [hwe]
      refine ⟨hse ▸ hj₁, hse ▸ hid, hse ▸ hset₁, hbook, hready, ⟨[], by simp [hmv], by simp⟩,
        Or.inr (hnew (by rw [hse]))⟩
    · rw [hj₁.flushes] at he
      have hse : s' = { s₁ with pending := [] } := congrArg Prod.fst he
      have hwe : w' = { w₁ with movements := w₁.movements ++ s₁.pending } := congrArg Prod.snd he
      refine ⟨hse ▸ hwe ▸ hj₁.flushed, by rw [hse, ← hid], by rw [hse, ← hset₁],
        by rw [hwe, ← hbook], ?_, ⟨s₁.pending, by rw [hwe, ← hmv], ?_⟩,
        Or.inr (hnew (by rw [hse]))⟩
      · intro hw
        rw [hwe]
        obtain ⟨c1, c2, c3, c4, c5, c6, c7, c8, c9, c10⟩ := (hready hw).closed
        exact ⟨⟨c1, c2, c3, c4, c5, c6, c7, c8, c9, c10⟩, (hready hw).honest⟩
      · intro row hrow
        rw [hse]
        simp only
        rw [← hj₁.rows]
        exact List.mem_append_right _ hrow

theorem Journaling.unsettled (h : Journaling env w s) (hset : s.settled = false) :
    Unsettled env s w s.accepted where
  flushes := by rw [h.flushes]
  journaled := by
    rw [h.flushes]
    exact h.flushed.journals rfl
  checked := h.checked
  fresh := fun i _ => h.unposted hset i
  unforced := h.unforced

theorem Journaling.settles (h : Journaling env w s) (hset : s.settled = false) (hw : w.Ready)
    (hafford : ∀ p ∈ positionsOf s.accepted, NonOverdrawing w.balanceOf p)
    (hpost : ∀ p ∈ positionsOf s.accepted, Postable w.balanceOf p ∧ p.1 ≠ SYSTEM.NETTING_CLEARING)
    (hcarry : ClearingCarries (w.balanceOf SYSTEM.NETTING_CLEARING) (s.chunks s.accepted)) :
    ∃ s' w', SettledInto env s w s.accepted s' w' ∧ Journaling env w' s' := by
  obtain ⟨s', w', hinto⟩ := (h.unsettled hset).settles hw hafford hpost hcarry
  refine ⟨s', w', hinto, ?_⟩
  have hmv : w'.movements = w.movements ++ s.pending := by
    rw [hinto.movements, h.flushes]
  obtain ⟨h1, h2, h3, h4, h5, h6, h7, h8, h9, h10, h11, h12, -⟩ := h.flushed
  rw [hinto.session]
  refine ⟨h1, ?_, h3, h4, h5, h6, h7, h8, h9, h10, ?_, ?_, ?_⟩
  · rw [hmv]
    exact h2
  · rw [hmv]
    exact h11
  · intro hset' i
    have hempty : s.accepted = [] := by
      simp only [hset, Bool.false_or, Bool.not_eq_false', List.isEmpty_iff] at hset'
      exact hset'
    rw [hinto.posted, h.unposted hset i, hempty]
    simp [InstanceSession.chunks, positionsOf, movementAmounts, tally, chunksOf, chunksFrom]
  · intro _
    refine ⟨rfl, ?_⟩
    intro c hc
    refine ⟨?_, ?_⟩
    · rw [hinto.posted, Bool.or_eq_true]
      right
      rw [List.any_eq_true]
      exact ⟨c, hc, decide_eq_true rfl⟩
    · apply chunkLegs_ok_iff.mpr
      simp only [mul_one]
      refine ⟨?_, hcarry.each c.1 ?_⟩
      · intro p hp
        have hmem : p ∈ positionsOf s.accepted := by
          rw [← s.chunks_flatten s.accepted]
          exact List.mem_flatMap.mpr ⟨c, hc, hp⟩
        exact (hpost p hmem).1.amount
      · rw [← List.zipIdx_map_fst 0 (s.chunks s.accepted)]
        exact List.mem_map.mpr ⟨c, hc, rfl⟩

theorem Journaling.settles_again (h : Journaling env w s) (hset : s.settled = true) (hw : w.Ready) :
    ∃ report s' w', settle env s w = (.ok report, s', w') ∧ report.mode = .netted ∧
      report.rejected = [] ∧ s' = { s with released := s'.released } ∧ w'.Ready ∧
      w'.ledger.book = w.ledger.book ∧ w'.movements = w.movements := by
  obtain ⟨hp, hstand⟩ := h.standing hset
  have hflush : flush s w = (.ok (), s, w) := by
    unfold flush
    rw [if_pos hp]
  have hj := h.journals hp
  cases hlast : s.accepted.getLast? with
  | none =>
    exact ⟨⟨.netted, 0, [], GENESIS_HEX, 0⟩, s, w, by simp only [settle, hflush, hj, hlast], rfl, rfl,
      rfl, hw, rfl, rfl⟩
  | some last =>
    obtain ⟨hgo, hsame, hready⟩ := postChunks_skip env s.sessionId
      ⟨(s.chunks s.accepted).length, s.accepted.length, last.hash⟩
      (chunks_nonzero s s.accepted) hw hstand []
    obtain ⟨w', hres, hready', hbook, hmv⟩ :=
      settleJournal_nets env s.accepted last.hash h.unforced rfl hgo hready
    have hs : ({ s with released := true, settled := true } : InstanceSession) =
        { s with released := true } := by rw [hset]
    have heq : settle env s w = settleJournal env s.accepted last.hash s w := by
      simp only [settle, hflush, hj, hlast]
    exact ⟨_, _, w', heq.trans hres, rfl, rfl, hs, hready', hbook.trans hsame.ledger,
      hmv.trans hsame.movements⟩

end SessionInvariant

end EconomyLab
