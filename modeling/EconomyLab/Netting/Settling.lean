import EconomyLab.Netting.Clearing

/-!
# Settling a session for the first time

The positions of a session sum to zero, so its chunks bring the clearing account back to
where it stood; between the chunks it stands elsewhere.
-/

namespace EconomyLab

open Foundation

/-! ## Movements and positions -/

theorem requireMovementLegs_ok_iff {legs : List Leg} :
    requireMovementLegs legs = .ok () ↔
      (∀ leg ∈ legs, leg.amount.currency = .credit ∧ leg.amount.minor ≠ 0) ∧
        chunkSum (stored legs) = 0 ∧ legs ≠ [] := by
  have hsum : chunkSum (stored legs) = (legs.map fun leg => leg.amount.minor).sum := by
    simp [chunkSum, stored, Function.comp_def]
  rw [hsum]
  have hany : (legs.any fun leg => leg.amount.currency ≠ .credit || leg.amount.minor = 0) = true ↔
      ¬ ∀ leg ∈ legs, leg.amount.currency = .credit ∧ leg.amount.minor ≠ 0 := by
    simp only [List.any_eq_true, Bool.or_eq_true, decide_eq_true_eq]
    push Not
    apply exists_congr
    intro leg
    by_cases h : leg.amount.currency = .credit <;> simp [h]
  unfold requireMovementLegs
  by_cases h : ∀ leg ∈ legs, leg.amount.currency = .credit ∧ leg.amount.minor ≠ 0
  · rw [if_neg (mt hany.mp (not_not.mpr h))]
    by_cases hs : (legs.map fun leg => leg.amount.minor).sum ≠ 0 ∨ legs = []
    · rw [if_pos hs]
      constructor
      · intro he
        cases he
      · rintro ⟨-, h0, hne⟩
        exact absurd hs (not_or.mpr ⟨not_not.mpr h0, hne⟩)
    · rw [if_neg hs]
      push Not at hs
      exact ⟨fun _ => ⟨h, hs⟩, fun _ => rfl⟩
  · rw [if_pos (hany.mpr h)]
    constructor
    · intro he
      cases he
    · rintro ⟨h', -⟩
      exact absurd h' h

variable (movements : List Movement) {w w' : World}

theorem positionsOf_nodup : ((positionsOf movements).map Prod.fst).Nodup :=
  (tally_nodup (movementAmounts movements)).sublist (List.filter_sublist.map _)

theorem positionsOf_nonzero {movements : List Movement} {p : AccountRef × Int}
    (h : p ∈ positionsOf movements) : p.2 ≠ 0 := by
  simpa using (List.mem_filter.mp h).2

theorem chunkSum_filter (chunk : Chunk) : chunkSum (chunk.filter (·.2 ≠ 0)) = chunkSum chunk := by
  induction chunk with
  | nil => rfl
  | cons p chunk ih =>
    by_cases hp : p.2 = 0
    · simp [hp, ← ih]
    · simp [hp, ← ih]

theorem chunkSum_append (c c' : Chunk) : chunkSum (c ++ c') = chunkSum c + chunkSum c' := by
  simp [chunkSum]

theorem movementAmounts_eq : movementAmounts movements = movements.flatMap fun m => stored m.legs := rfl

/-- Movements that passed the leg check net to zero. -/
theorem chunkSum_positionsOf {movements : List Movement}
    (h : ∀ m ∈ movements, requireMovementLegs m.legs = .ok ()) :
    chunkSum (positionsOf movements) = 0 := by
  have hamounts : chunkSum (movementAmounts movements) = 0 := by
    rw [movementAmounts_eq]
    induction movements with
    | nil => rfl
    | cons m movements ih =>
      rw [List.forall_mem_cons] at h
      rw [List.flatMap_cons, chunkSum_append, ih h.2, (requireMovementLegs_ok_iff.mp h.1).2.1, add_zero]
  unfold positionsOf
  rw [chunkSum_filter]
  exact (sum_tally (movementAmounts movements)).trans hamounts

theorem positionsOf_total (a : AccountRef) :
    total (positionsOf movements) a = total (movementAmounts movements) a := by
  have hfilter : ∀ xs : List (AccountRef × Int), total (xs.filter (·.2 ≠ 0)) a = total xs a := by
    intro xs
    induction xs with
    | nil => rfl
    | cons x xs ih =>
      by_cases hx : x.2 = 0
      · simp [hx, total_cons, ← ih]
      · simp [hx, total_cons, ← ih]
  unfold positionsOf
  rw [hfilter, tally_total]

theorem flatMap_fst_zipIdx {α : Type} (xss : List (List α)) (n : Nat) :
    (xss.zipIdx n).flatMap Prod.fst = xss.flatten := by
  induction xss generalizing n with
  | nil => rfl
  | cons xs xss ih => simp [ih]

theorem map_snd_zipIdx_nodup {α : Type} (xs : List α) : (xs.zipIdx.map Prod.snd).Nodup := by
  rw [List.zipIdx_map_snd]
  exact List.nodup_range'

theorem InstanceSession.chunks_flatten (s : InstanceSession) (movements : List Movement) :
    (s.chunks movements).zipIdx.flatMap Prod.fst = positionsOf movements := by
  rw [flatMap_fst_zipIdx]
  exact flatten_chunksOf s.chunkWidth_pos (positionsOf movements)

/-- A flush moves rows into the journal and leaves the rest of the store alone. -/
theorem flush_cases (s : InstanceSession) (w : World) :
    (flush s w).2.1 = { s with pending := [] } ∧
      (flush s w).2.2 = { w with movements := (flush s w).2.2.movements } := by
  unfold flush
  by_cases hp : s.pending = []
  · rw [if_pos hp]
    exact ⟨by rw [← hp], rfl⟩
  · rw [if_neg hp]
    cases appendMovements s.pending w.movements <;> exact ⟨rfl, rfl⟩

theorem flush_ready {s : InstanceSession} (hw : w.Ready) : (flush s w).2.2.Ready := by
  rw [(flush_cases s w).2]
  obtain ⟨h1, h2, h3, h4, h5, h6, h7, h8, h9, h10⟩ := hw.closed
  exact ⟨⟨h1, h2, h3, h4, h5, h6, h7, h8, h9, h10⟩, hw.honest⟩

/-! ## The first settlement -/

/-- A session whose journal re-derives to `movements`, with no chunk posted and no fall-back. -/
structure Unsettled (env : Env) (s : InstanceSession) (w : World) (movements : List Movement) : Prop where
  flushes : (flush s w).1 = .ok ()
  journaled : journal env s.sessionId (flush s w).2.2 = .ok movements
  checked : ∀ m ∈ movements, requireMovementLegs m.legs = .ok ()
  fresh : ∀ i < (s.chunks movements).length, w.posted (chunkTxnId s.sessionId i) = false
  unforced : s.replayForced = false

/-- The settle went through in netted mode and brought the clearing account back. -/
def Nets (env : Env) (s : InstanceSession) (w : World) : Prop :=
  ∃ report s' w', settle env s w = (.ok report, s', w') ∧ report.mode = .netted ∧
    w'.balanceOf SYSTEM.NETTING_CLEARING = w.balanceOf SYSTEM.NETTING_CLEARING

theorem replay_mode {env : Env} {movements : List Movement} {head : String} {s s' : InstanceSession}
    {report : SettleReport} (h : replay env movements head s w = (.ok report, s', w')) :
    report.mode = .replayed := by
  unfold replay at h
  simp only at h
  split at h
  · cases h
  · cases h
    rfl

/-- A journal whose chunks all go through nets, and its session is settled and released. -/
theorem settleJournal_nets (env : Env) (movements : List Movement) (head : String)
    {s : InstanceSession} (hs : s.replayForced = false) {shape : Shape}
    (hshape : shape = ⟨(s.chunks movements).length, movements.length, head⟩)
    (hgo : (postChunks env s.sessionId shape (s.chunks movements).zipIdx [] w).1.1 = true)
    (hready : (postChunks env s.sessionId shape (s.chunks movements).zipIdx [] w).2.Ready) :
    ∃ w', settleJournal env movements head s w =
        (.ok ⟨.netted, (s.chunks movements).length, [], head, movements.length⟩,
          { s with released := true, settled := true }, w') ∧ w'.Ready ∧
      w'.ledger.book = (postChunks env s.sessionId shape (s.chunks movements).zipIdx [] w).2.ledger.book ∧
      w'.movements = (postChunks env s.sessionId shape (s.chunks movements).zipIdx [] w).2.movements := by
  subst hshape
  rcases hafter : postChunks env s.sessionId ⟨(s.chunks movements).length, movements.length, head⟩
    (s.chunks movements).zipIdx [] w with ⟨⟨ok, posted⟩, w₁⟩
  rw [hafter] at hgo hready
  simp only at hgo hready
  subst hgo
  obtain ⟨w₂, hrel, hready₂, hbook, hmv, -⟩ := releaseReservations_ok env s hready
  refine ⟨w₂, ?_, hready₂, hbook, hmv⟩
  unfold settleJournal
  simp only [hs, Bool.false_eq_true, if_false, hafter, hrel]

theorem settleJournal_netted (env : Env) (movements : List Movement) (head : String)
    {s s' : InstanceSession} (hs : s.replayForced = false) {report : SettleReport}
    (h : settleJournal env movements head s w = (.ok report, s', w')) (hmode : report.mode = .netted) :
    (postChunks env s.sessionId ⟨(s.chunks movements).length, movements.length, head⟩
      (s.chunks movements).zipIdx [] w).1.1 = true := by
  rcases hafter : postChunks env s.sessionId ⟨(s.chunks movements).length, movements.length, head⟩
    (s.chunks movements).zipIdx [] w with ⟨⟨ok, posted⟩, w₁⟩
  cases ok with
  | true => rfl
  | false =>
    exfalso
    unfold settleJournal at h
    simp only [hs, Bool.false_eq_true, if_false, hafter] at h
    rcases hcomp : compensateChunks env s.sessionId
        ⟨(s.chunks movements).length, movements.length, head⟩ (s.chunks movements) posted.reverse w₁
        with ⟨res, w₂⟩
    rw [hcomp] at h
    cases res with
    | error e => cases h
    | ok u =>
      have hr := replay_mode h
      rw [hmode] at hr
      cases hr

theorem World.balanceOf_book (h : w'.ledger.book = w.ledger.book) (a : AccountRef) :
    w'.balanceOf a = w.balanceOf a := by
  simp only [World.balanceOf, MemoryLedger.tables, h]

theorem World.posted_book {w w' : World} (h : w'.ledger.book = w.ledger.book) (txnId : String) :
    w'.posted txnId = w.posted txnId := by
  simp only [World.posted, MemoryLedger.tables, h]

section FirstSettlement

variable {env : Env} {s : InstanceSession} {w : World} {movements : List Movement}

theorem settle_eq (hs : Unsettled env s w movements) :
    settle env s w = match movements.getLast? with
      | none => (.ok ⟨.netted, 0, [], GENESIS_HEX, 0⟩, (flush s w).2.1, (flush s w).2.2)
      | some last => settleJournal env movements last.hash (flush s w).2.1 (flush s w).2.2 := by
  have hid : (flush s w).2.1.sessionId = s.sessionId := by rw [(flush_cases s w).1]
  have hfl := hs.flushes
  have hj := hs.journaled
  rw [← hid] at hj
  rcases hf : flush s w with ⟨res, s₁, w₁⟩
  rw [hf] at hfl hj
  simp only at hfl hj
  cases hlast : movements.getLast? <;> simp only [settle, hf, hfl, hj, hlast]

theorem chunks_nonzero (s : InstanceSession) (movements : List Movement) :
    ∀ c ∈ (s.chunks movements).zipIdx, ∀ p ∈ c.1, p.2 ≠ 0 := by
  intro c hc p hp
  have hmem : p ∈ positionsOf movements := by
    rw [← s.chunks_flatten movements]
    exact List.mem_flatMap.mpr ⟨c, hc, hp⟩
  exact positionsOf_nonzero hmem

theorem Unsettled.freshPairs (hs : Unsettled env s w movements) :
    ∀ c ∈ (s.chunks movements).zipIdx,
      (flush s w).2.2.posted (chunkTxnId s.sessionId c.2) = false := by
  intro c hc
  have hbook : (flush s w).2.2.ledger.book = w.ledger.book := by rw [(flush_cases s w).2]
  have hlt : c.2 < (s.chunks movements).length := by
    simpa using List.snd_lt_add_of_mem_zipIdx hc
  rw [World.posted_book hbook]
  exact hs.fresh c.2 hlt

/-- The chunks that went through moved the positions; the clearing account gains what they
name on it. -/
theorem Unsettled.moves (hs : Unsettled env s w movements) (hw : w.Ready) (shape : Shape)
    (hgo : (postChunks env s.sessionId shape (s.chunks movements).zipIdx [] (flush s w).2.2).1.1 =
      true) :
    ChunksPosted s.sessionId (s.chunks movements).zipIdx (flush s w).2.2
        (postChunks env s.sessionId shape (s.chunks movements).zipIdx [] (flush s w).2.2).2 ∧
      ∀ a, (postChunks env s.sessionId shape (s.chunks movements).zipIdx [] (flush s w).2.2).2.balanceOf
        a = w.balanceOf a + naturalOf a (total (positionsOf movements) a) := by
  have hmoves := postChunks_moves env s.sessionId shape (map_snd_zipIdx_nodup (s.chunks movements))
    (chunks_nonzero s movements) (flush_ready hw) hs.freshPairs [] hgo
  refine ⟨hmoves, ?_⟩
  intro a
  have hbook : (flush s w).2.2.ledger.book = w.ledger.book := by rw [(flush_cases s w).2]
  rw [hmoves.balance, s.chunks_flatten, chunkSum_positionsOf hs.checked, World.balanceOf_book hbook]
  split <;> ring

/-- The chunks go through exactly when each position and each chunk sum is taken. -/
theorem Unsettled.chunks_iff (hs : Unsettled env s w movements) (hw : w.Ready) (shape : Shape)
    (hafford : ∀ p ∈ positionsOf movements, NonOverdrawing w.balanceOf p)
    (hclr : SYSTEM.NETTING_CLEARING ∉ (positionsOf movements).map Prod.fst) :
    (postChunks env s.sessionId shape (s.chunks movements).zipIdx [] (flush s w).2.2).1.1 = true ↔
      (∀ p ∈ positionsOf movements, Postable w.balanceOf p) ∧
        ClearingCarries (w.balanceOf SYSTEM.NETTING_CLEARING) (s.chunks movements) := by
  have hflat := s.chunks_flatten movements
  have hbook : (flush s w).2.2.ledger.book = w.ledger.book := by rw [(flush_cases s w).2]
  have hbal : (flush s w).2.2.balanceOf = w.balanceOf := funext (World.balanceOf_book hbook)
  have hfst : (s.chunks movements).zipIdx.map Prod.fst = s.chunks movements :=
    List.zipIdx_map_fst 0 (s.chunks movements)
  have hiff := postChunks_iff env s.sessionId shape (map_snd_zipIdx_nodup (s.chunks movements))
    (chunks_nonzero s movements) (hflat ▸ positionsOf_nodup movements) (hflat ▸ hclr)
    (flush_ready (s := s) hw) hs.freshPairs
    (by
      rw [hflat, hbal]
      exact hafford) []
  rw [hflat, hfst, hbal] at hiff
  exact hiff

/-- What a settlement that goes through leaves behind. -/
structure SettledInto (env : Env) (s : InstanceSession) (w : World) (movements : List Movement)
    (s' : InstanceSession) (w' : World) : Prop where
  report : ∃ report, settle env s w = (.ok report, s', w') ∧ report.mode = .netted ∧
    report.rejected = []
  session : s' = { s with
    pending := []
    released := s.released || !movements.isEmpty
    settled := s.settled || !movements.isEmpty }
  ready : w'.Ready
  balance : ∀ a, w'.balanceOf a = w.balanceOf a + naturalOf a (total (positionsOf movements) a)
  posted : ∀ txnId, w'.posted txnId = (w.posted txnId ||
    (s.chunks movements).zipIdx.any fun c => chunkTxnId s.sessionId c.2 = txnId)
  movements : w'.movements = (flush s w).2.2.movements

theorem Unsettled.settles (hs : Unsettled env s w movements) (hw : w.Ready)
    (hafford : ∀ p ∈ positionsOf movements, NonOverdrawing w.balanceOf p)
    (hpost : ∀ p ∈ positionsOf movements, Postable w.balanceOf p ∧ p.1 ≠ SYSTEM.NETTING_CLEARING)
    (hcarry : ClearingCarries (w.balanceOf SYSTEM.NETTING_CLEARING) (s.chunks movements)) :
    ∃ s' w', SettledInto env s w movements s' w' := by
  have heq := settle_eq hs
  have hbook : (flush s w).2.2.ledger.book = w.ledger.book := by rw [(flush_cases s w).2]
  have hsession := (flush_cases s w).1
  cases hlast : movements.getLast? with
  | none =>
    rw [hlast] at heq
    rw [List.getLast?_eq_none_iff] at hlast
    subst hlast
    refine ⟨_, _, ⟨_, heq, rfl, rfl⟩, ?_, flush_ready hw, ?_, ?_, rfl⟩
    · rw [hsession]
      simp
    · intro a
      rw [World.balanceOf_book hbook]
      simp [positionsOf, movementAmounts, tally]
    · intro txnId
      rw [World.posted_book hbook]
      simp [InstanceSession.chunks, positionsOf, movementAmounts, tally, chunksOf, chunksFrom]
  | some last =>
    rw [hlast] at heq
    simp only at heq
    have hne : movements.isEmpty = false := by
      cases movements with
      | nil => cases hlast
      | cons m ms => rfl
    have hclr : SYSTEM.NETTING_CLEARING ∉ (positionsOf movements).map Prod.fst := by
      intro hm
      obtain ⟨p, hp, hpe⟩ := List.mem_map.mp hm
      exact (hpost p hp).2 hpe
    have hgo := fun shape => (hs.chunks_iff hw shape hafford hclr).mpr
      ⟨fun p hp => (hpost p hp).1, hcarry⟩
    have hunforced : (flush s w).2.1.replayForced = false := by
      rw [hsession]
      exact hs.unforced
    have hid : (flush s w).2.1.sessionId = s.sessionId := by rw [hsession]
    have hchunks : (flush s w).2.1.chunks movements = s.chunks movements := by
      rw [hsession]
      rfl
    obtain ⟨hmoves, hbal⟩ := hs.moves hw ⟨(s.chunks movements).length, movements.length, last.hash⟩
      (hgo _)
    obtain ⟨w', hres, hready, hledger, hmv⟩ := settleJournal_nets env movements last.hash hunforced
      (w := (flush s w).2.2) rfl (by rw [hchunks, hid]; exact hgo _)
      (by rw [hchunks, hid]; exact hmoves.ready)
    rw [hchunks, hid] at hledger hmv
    refine ⟨_, w', ⟨_, heq.trans hres, rfl, rfl⟩, ?_, hready, ?_, ?_, hmv.trans hmoves.movements⟩
    · rw [hsession, hne]
      simp
    · intro a
      rw [World.balanceOf_book hledger, hbal]
    · intro txnId
      rw [World.posted_book hledger, hmoves.posted, World.posted_book hbook]

/-- A session none of whose positions overdraws nets, with the clearing account back where it
stood, exactly when the ledger takes each position, none stands on the clearing account
itself, and that account carries the chunk sums in their order. -/
theorem settle_nets_iff {cmds : List Command} (hclosed : w.Closed)
    (hledger : w.ledger = (runLedger env.digest cmds).ledger) (hs : Unsettled env s w movements)
    (hafford : ∀ p ∈ positionsOf movements, NonOverdrawing w.balanceOf p) :
    Nets env s w ↔
      (∀ p ∈ positionsOf movements, Postable w.balanceOf p ∧ p.1 ≠ SYSTEM.NETTING_CLEARING) ∧
        ClearingCarries (w.balanceOf SYSTEM.NETTING_CLEARING) (s.chunks movements) := by
  have hw : w.Ready := World.ready_of_run hclosed hledger
  constructor
  · rintro ⟨report, s', w', he, hmode, hclr⟩
    rw [settle_eq hs] at he
    cases hlast : movements.getLast? with
    | none =>
      rw [List.getLast?_eq_none_iff] at hlast
      subst hlast
      exact ⟨by simp [positionsOf, movementAmounts, tally], trivial⟩
    | some last =>
      rw [hlast] at he
      simp only at he
      have hsession := (flush_cases s w).1
      have hunforced : (flush s w).2.1.replayForced = false := by
        rw [hsession]
        exact hs.unforced
      have hid : (flush s w).2.1.sessionId = s.sessionId := by rw [hsession]
      have hchunks : (flush s w).2.1.chunks movements = s.chunks movements := by
        rw [hsession]
        rfl
      have hgo := settleJournal_netted env movements last.hash hunforced he hmode
      rw [hchunks, hid] at hgo
      obtain ⟨hmoves, hbal⟩ := hs.moves hw _ hgo
      obtain ⟨w₂, hres, -, hbook, -⟩ := settleJournal_nets env movements last.hash hunforced
        (w := (flush s w).2.2) rfl (by rw [hchunks, hid]; exact hgo)
        (by rw [hchunks, hid]; exact hmoves.ready)
      rw [he] at hres
      cases hres
      rw [hchunks, hid] at hbook
      rw [World.balanceOf_book hbook, hbal, naturalOf_clearing] at hclr
      -- a position on the clearing account would have moved it
      have hnot : SYSTEM.NETTING_CLEARING ∉ (positionsOf movements).map Prod.fst := by
        intro hm
        obtain ⟨p, hp, hpe⟩ := List.mem_map.mp hm
        have ht := total_of_mem (positionsOf_nodup movements) (k := p.1) (v := p.2) hp
        rw [hpe] at ht
        have hne := positionsOf_nonzero hp
        omega
      obtain ⟨hpost, hcarry⟩ := (hs.chunks_iff hw _ hafford hnot).mp hgo
      refine ⟨?_, hcarry⟩
      intro p hp
      exact ⟨hpost p hp, fun he => hnot (he ▸ List.mem_map.mpr ⟨p, hp, rfl⟩)⟩
  · rintro ⟨hpost, hcarry⟩
    obtain ⟨s', w', hset⟩ := hs.settles hw hafford hpost hcarry
    obtain ⟨report, he, hmode, -⟩ := hset.report
    refine ⟨report, s', w', he, hmode, ?_⟩
    have hnot : SYSTEM.NETTING_CLEARING ∉ (positionsOf movements).map Prod.fst := by
      intro hm
      obtain ⟨p, hp, hpe⟩ := List.mem_map.mp hm
      exact (hpost p hp).2 hpe
    rw [hset.balance, total_eq_zero hnot, naturalOf_zero, add_zero]

end FirstSettlement

/-- A payer, a payee and one movement between them; `width` accounts go into a chunk. -/
def oneMovement (env : Env) (width : {n : Nat // 0 < n}) (legs : List Leg) : InstanceSession × World :=
  let ten : Amount := ⟨.credit, 10, .ten⟩
  let minusTen : Amount := ⟨.credit, -10, .neg_ten⟩
  let issue : Posting := ⟨"txn_1", [⟨SYSTEM.STORED_VALUE, ten⟩, ⟨spendable "usr_a", minusTen⟩], []⟩
  let w : World := { World.empty with ledger := (runLedger env.digest [.write (.entry 0 issue)]).ledger }
  (record env ⟨"mv_1", legs⟩ (openInstanceSession "ses_1" 1 width .process) w).2

def payerFirst : List Leg :=
  [⟨spendable "usr_a", ⟨.credit, 10, .ten⟩⟩, ⟨spendable "usr_b", ⟨.credit, -10, .neg_ten⟩⟩]

/-- One account a chunk, the payer's chunk first. -/
theorem settle_nets_payer_first :
    let env : Env := ⟨List.take 4, fun _ => 0, fun _ => ""⟩
    let start := oneMovement env ⟨1, by decide⟩ payerFirst
    Nets env start.1 start.2 := by
  intro env start
  have hs : Unsettled env start.1 start.2 start.2.movements :=
    ⟨rfl, rfl, by decide, by decide, rfl⟩
  have hclosed : start.2.Closed := ⟨rfl, rfl, rfl, rfl, rfl, rfl, rfl, rfl, rfl, rfl⟩
  exact (settle_nets_iff hclosed rfl hs (by decide)).mpr ⟨by decide, by decide⟩

/-- The payee's chunk first: nothing overdraws, yet the first chunk is refused. -/
theorem settle_payee_first_replays :
    let env : Env := ⟨List.take 4, fun _ => 0, fun _ => ""⟩
    let start := oneMovement env ⟨1, by decide⟩ payerFirst.reverse
    Unsettled env start.1 start.2 start.2.movements ∧
      (∀ p ∈ positionsOf start.2.movements, NonOverdrawing start.2.balanceOf p) ∧
      ¬ Nets env start.1 start.2 := by
  intro env start
  refine ⟨⟨rfl, rfl, by decide, by decide, rfl⟩, by decide, ?_⟩
  rintro ⟨report, s', w', h, hmode, -⟩
  have hrep : (settle env start.1 start.2).1.toOption.map SettleReport.mode = some .replayed := by
    decide
  rw [h] at hrep
  simp only [Except.toOption, Option.map_some, hmode] at hrep
  cases hrep

end EconomyLab
