import EconomyLab.Netting.Settlers

/-!
# What settlers leave on the ledger

Chunks, their compensations and replayed movements are told apart by their ids alone.
Whatever settlers posted so far, each balance stands where it would without them, moved
by the chunks that stand uncompensated and by the movements that were replayed.
-/

namespace EconomyLab

open Foundation

theorem compTxnId_inj {sessionId : String} {i j : Nat} :
    compTxnId sessionId i = compTxnId sessionId j ↔ i = j := by
  constructor
  · intro h
    exact (chunkTxnId_inj.mp ((String.append_left_inj _).mp h)).2
  · rintro rfl
    rfl

theorem movementTxnId_inj {sessionId : String} {i j : Nat} :
    movementTxnId sessionId i = movementTxnId sessionId j ↔ i = j := by
  constructor
  · intro h
    exact Text.toString_nat_inj ((String.append_right_inj _).mp h)
  · rintro rfl
    rfl

variable (sessionId : String)

variable (i j : Nat)

theorem chunkTxnId_ne_comp : chunkTxnId sessionId i ≠ compTxnId sessionId j := by
  intro h
  have hcut : Text.cutLast 'c' (compTxnId sessionId j) =
      some (chunkTxnId sessionId j ++ "_", "omp") := by
    have he : compTxnId sessionId j =
        (chunkTxnId sessionId j ++ "_") ++ String.ofList ['c'] ++ "omp" := by
      apply String.toList_inj.mp
      simp [compTxnId]
    rw [he, Text.cutLast_append 'c' _ _ (by decide)]
  rw [← h, cutLast_chunkTxnId, Option.some.injEq, Prod.mk.injEq] at hcut
  have hmem : 'o' ∈ (toString i).toList := by
    rw [hcut.2]
    decide
  exact absurd (Text.isDigit_of_mem_toString hmem) (by decide)

theorem head?_chunkTxnId : (chunkTxnId sessionId i).toList.head? = some 'n' := by
  simp [chunkTxnId]

theorem head?_compTxnId : (compTxnId sessionId i).toList.head? = some 'n' := by
  simp [compTxnId, chunkTxnId]

theorem head?_movementTxnId : (movementTxnId sessionId i).toList.head? = some 'm' := by
  simp [movementTxnId]

theorem chunkTxnId_ne_movement : chunkTxnId sessionId i ≠ movementTxnId sessionId j := by
  intro h
  have hh := head?_chunkTxnId sessionId i
  rw [h, head?_movementTxnId] at hh
  exact absurd hh (by decide)

theorem compTxnId_ne_movement : compTxnId sessionId i ≠ movementTxnId sessionId j := by
  intro h
  have hh := head?_compTxnId sessionId i
  rw [h, head?_movementTxnId] at hh
  exact absurd hh (by decide)

/-- The id belongs to none of the session's settlement postings. -/
structure Foreign (sessionId : String) (ms : List Movement) (txnId : String) : Prop where
  chunk : ∀ i, txnId ≠ chunkTxnId sessionId i
  comp : ∀ i, txnId ≠ compTxnId sessionId i
  movement : ∀ m ∈ ms, txnId ≠ movementTxnId sessionId m.seq

/-! ## What stands on the ledger -/

def chunkMoves (chunk : Chunk) (a : AccountRef) : Int :=
  naturalOf a (total chunk a) + if a = SYSTEM.NETTING_CLEARING then chunkSum chunk else 0

/-- What the first `p` chunks move, but for those compensated. -/
def standing (sessionId : String) (chunks : List Chunk) (p : Nat) (w : World) (a : AccountRef) : Int :=
  ((List.range p).map fun i =>
    if w.posted (compTxnId sessionId i) then 0 else chunkMoves (chunks.getD i []) a).sum

def replayed (sessionId : String) (ms : List Movement) (w : World) (a : AccountRef) : Int :=
  (ms.map fun m =>
    if w.posted (movementTxnId sessionId m.seq) then total (deltas m.legs) a else 0).sum

def Whole (ms : List Movement) (chunks : List Chunk) (p : Nat) : Prop :=
  p = chunks.length ∧ chunks.flatten = positionsOf ms

/-- The first `p` chunks are posted, those compensated among them, and every movement replayed
after that was replayed with no chunk standing. `b` are the balances without the session. -/
structure Evidence (sessionId : String) (ms : List Movement) (b : AccountRef → Int)
    (chunks : List Chunk) (p : Nat) (w : World) : Prop where
  ready : w.Ready
  within : p ≤ chunks.length
  posted : ∀ i, w.posted (chunkTxnId sessionId i) = decide (i < p)
  built : ∀ i < p, ∃ legs, chunkLegs 1 (chunks.getD i []) = .ok legs
  comp : ∀ i, w.posted (compTxnId sessionId i) = true → i < p ∧ ¬ Whole ms chunks p
  movement : ∀ m ∈ ms, w.posted (movementTxnId sessionId m.seq) = true →
    (∀ i < p, w.posted (compTxnId sessionId i) = true) ∧ ¬ Whole ms chunks p
  balance : ∀ a, w.balanceOf a = b a + standing sessionId chunks p w a + replayed sessionId ms w a

section Evidence

variable {sessionId : String} {ms : List Movement} {b b' : AccountRef → Int} {chunks chunks' : List Chunk}
  {p : Nat} {w w' : World} {posting : Posting} {legs : List Leg} {shape : Shape}

theorem Evidence.same (h : Evidence sessionId ms b chunks p w) (hready : w'.Ready)
    (hbook : w'.ledger.book = w.ledger.book) : Evidence sessionId ms b chunks p w' := by
  have hposted := World.posted_book hbook
  obtain ⟨h1, h2, h3, h4, h5, h6, h7⟩ := h
  refine ⟨hready, h2, ?_, h4, ?_, ?_, ?_⟩
  · intro i
    rw [hposted]
    exact h3 i
  · intro i
    rw [hposted]
    exact h5 i
  · simp only [hposted]
    exact h6
  · intro a
    simp only [World.balanceOf_book hbook, standing, replayed, hposted]
    exact h7 a

theorem Evidence.recut (h : Evidence sessionId ms b chunks 0 w)
    (hnone : ∀ m ∈ ms, w.posted (movementTxnId sessionId m.seq) = false) :
    Evidence sessionId ms b chunks' 0 w := by
  obtain ⟨h1, h2, h3, h4, h5, h6, h7⟩ := h
  refine ⟨h1, Nat.zero_le _, h3, fun i hi => absurd hi (Nat.not_lt_zero i), ?_, ?_, h7⟩
  · intro i hi
    exact absurd (h5 i hi).1 (Nat.not_lt_zero i)
  · intro m hm hp
    rw [hnone m hm] at hp
    cases hp

theorem Evidence.comp_false (h : Evidence sessionId ms b chunks p w) {i : Nat} (hi : p ≤ i) :
    w.posted (compTxnId sessionId i) = false := by
  by_contra hp
  have hlt := (h.comp i (by simpa using hp)).1
  omega

theorem Evidence.chunk (h : Evidence sessionId ms b chunks p w) (hp : p < chunks.length)
    (hlegs : chunkLegs 1 (chunks.getD p []) = .ok legs)
    (hland : w.Landed (chunkPosting sessionId shape p false legs) w')
    (hcomp : ∀ i, w.posted (compTxnId sessionId i) = false)
    (hnone : ∀ m ∈ ms, w.posted (movementTxnId sessionId m.seq) = false) :
    Evidence sessionId ms b chunks (p + 1) w' := by
  have hid : (chunkPosting sessionId shape p false legs).txnId = chunkTxnId sessionId p := rfl
  have hcomp' : ∀ i, w'.posted (compTxnId sessionId i) = false := by
    intro i
    rw [hland.posted, hcomp, hid]
    simpa using chunkTxnId_ne_comp sessionId p i
  have hnone' : ∀ m ∈ ms, w'.posted (movementTxnId sessionId m.seq) = false := by
    intro m hm
    rw [hland.posted, hnone m hm, hid]
    simpa using chunkTxnId_ne_movement sessionId p m.seq
  refine ⟨hland.ready, hp, ?_, ?_, ?_, ?_, ?_⟩
  · intro i
    rw [hland.posted, h.posted, hid, ← Bool.decide_or]
    apply decide_eq_decide.mpr
    rw [chunkTxnId_inj, and_iff_right rfl]
    omega
  · intro i hi
    rcases Nat.lt_or_eq_of_le (Nat.le_of_lt_succ hi) with hi | rfl
    · exact h.built i hi
    · exact ⟨legs, hlegs⟩
  · intro i hi
    rw [hcomp'] at hi
    cases hi
  · intro m hm hmp
    rw [hnone' m hm] at hmp
    cases hmp
  · intro a
    have hmoves : total (deltas (chunkPosting sessionId shape p false legs).legs) a =
        chunkMoves (chunks.getD p []) a := chunk_moves hlegs a
    have hrep : replayed sessionId ms w' a = replayed sessionId ms w a := by
      unfold replayed
      congr 1
      apply List.map_congr_left
      intro m hm
      rw [hnone m hm, hnone' m hm]
    have hstand : standing sessionId chunks (p + 1) w' a =
        standing sessionId chunks p w a + chunkMoves (chunks.getD p []) a := by
      unfold standing
      rw [List.range_succ, List.map_append, List.sum_append]
      simp only [hcomp, hcomp', List.map_cons, List.map_nil, List.sum_cons, List.sum_nil]
      simp
    rw [hland.balance, h.balance, hmoves, hrep, hstand]
    ring

theorem Evidence.compensated (h : Evidence sessionId ms b chunks p w) {i : Nat} (hi : i < p)
    (hun : w.posted (compTxnId sessionId i) = false) (hwhole : ¬ Whole ms chunks p)
    (hlegs : chunkLegs (-1) (chunks.getD i []) = .ok legs)
    (hland : w.Landed (chunkPosting sessionId shape i true legs) w') :
    Evidence sessionId ms b chunks p w' := by
  have hid : (chunkPosting sessionId shape i true legs).txnId = compTxnId sessionId i := rfl
  have hcomp : ∀ j, w'.posted (compTxnId sessionId j) =
      (w.posted (compTxnId sessionId j) || decide (i = j)) := by
    intro j
    rw [hland.posted, hid]
    congr 1
    exact decide_eq_decide.mpr compTxnId_inj
  have hmv : ∀ m : Movement, w'.posted (movementTxnId sessionId m.seq) =
      w.posted (movementTxnId sessionId m.seq) := by
    intro m
    rw [hland.posted, hid]
    simpa using fun he => absurd he (compTxnId_ne_movement sessionId i m.seq)
  refine ⟨hland.ready, h.within, ?_, h.built, ?_, ?_, ?_⟩
  · intro j
    rw [hland.posted, h.posted, hid]
    simpa using fun he => absurd he.symm (chunkTxnId_ne_comp sessionId j i)
  · intro j hj
    rw [hcomp, Bool.or_eq_true] at hj
    rcases hj with hj | hj
    · exact h.comp j hj
    · exact ⟨of_decide_eq_true hj ▸ hi, hwhole⟩
  · intro m hm hmp
    rw [hmv] at hmp
    refine ⟨?_, hwhole⟩
    intro j hj
    rw [hcomp, (h.movement m hm hmp).1 j hj, Bool.true_or]
  · intro a
    have hmoves : total (deltas (chunkPosting sessionId shape i true legs).legs) a =
        -chunkMoves (chunks.getD i []) a := by
      have hsign := total_chunkEntries (-1) (chunks.getD i []) a
      rw [← (chunkLegs_stored hlegs).1, ← deltas_eq_natural] at hsign
      rw [show (chunkPosting sessionId shape i true legs).legs = legs from rfl, hsign]
      unfold chunkMoves
      ring
    have hrep : replayed sessionId ms w' a = replayed sessionId ms w a := by
      simp only [replayed, hmv]
    have hstand : standing sessionId chunks p w' a =
        standing sessionId chunks p w a + (0 - chunkMoves (chunks.getD i []) a) := by
      have hchange := sum_map_change (List.nodup_range (n := p)) (List.mem_range.mpr hi)
        (f := fun j => if w.posted (compTxnId sessionId j) then 0 else chunkMoves (chunks.getD j []) a)
        (g := fun j => if w'.posted (compTxnId sessionId j) then 0 else chunkMoves (chunks.getD j []) a)
        (by
          intro j _ hne
          simp only [hcomp, Ne.symm hne, decide_false, Bool.or_false])
      have hself : w'.posted (compTxnId sessionId i) = true := by
        rw [hcomp, decide_eq_true rfl, Bool.or_true]
      simp only [hun, hself, if_true, Bool.false_eq_true, if_false] at hchange
      exact hchange
    rw [hland.balance, h.balance, hmoves, hrep, hstand]
    ring

theorem Evidence.replays (h : Evidence sessionId ms b chunks p w) (hseqs : (ms.map Movement.seq).Nodup)
    {m : Movement} (hm : m ∈ ms) (hun : w.posted (movementTxnId sessionId m.seq) = false)
    (hcomps : ∀ i < p, w.posted (compTxnId sessionId i) = true) (hwhole : ¬ Whole ms chunks p)
    {head : String} (hland : w.Landed (replayPosting sessionId head m) w') :
    Evidence sessionId ms b chunks p w' := by
  have hid : (replayPosting sessionId head m).txnId = movementTxnId sessionId m.seq := rfl
  have hcomp : ∀ j, w'.posted (compTxnId sessionId j) = w.posted (compTxnId sessionId j) := by
    intro j
    rw [hland.posted, hid]
    simpa using fun he => absurd he.symm (compTxnId_ne_movement sessionId j m.seq)
  refine ⟨hland.ready, h.within, ?_, h.built, ?_, ?_, ?_⟩
  · intro j
    rw [hland.posted, h.posted, hid]
    simpa using fun he => absurd he.symm (chunkTxnId_ne_movement sessionId j m.seq)
  · intro j
    rw [hcomp]
    exact h.comp j
  · intro m' _ _
    simp only [hcomp]
    exact ⟨hcomps, hwhole⟩
  · intro a
    have hstand : standing sessionId chunks p w' a = standing sessionId chunks p w a := by
      simp only [standing, hcomp]
    have hother : ∀ m' ∈ ms, m' ≠ m → w'.posted (movementTxnId sessionId m'.seq) =
        w.posted (movementTxnId sessionId m'.seq) := by
      intro m' hm' hne
      have hseq : m.seq ≠ m'.seq := fun he => hne (List.inj_on_of_nodup_map hseqs hm' hm he.symm)
      rw [hland.posted, hid]
      simpa using fun he => absurd (movementTxnId_inj.mp he) hseq
    have hself : w'.posted (movementTxnId sessionId m.seq) = true := by
      rw [hland.posted, hid, decide_eq_true rfl, Bool.or_true]
    have hrep : replayed sessionId ms w' a =
        replayed sessionId ms w a + (total (deltas m.legs) a - 0) := by
      have hchange := sum_map_change hseqs.of_map hm
        (f := fun m' => if w.posted (movementTxnId sessionId m'.seq) then total (deltas m'.legs) a else 0)
        (g := fun m' => if w'.posted (movementTxnId sessionId m'.seq) then total (deltas m'.legs) a else 0)
        (by
          intro m' hm' hne
          simp only [hother m' hm' hne])
      simp only [hun, hself, if_true, Bool.false_eq_true, if_false] at hchange
      exact hchange
    rw [hland.balance, h.balance, hstand, hrep]
    simp only [replayPosting]
    ring

theorem Evidence.other (h : Evidence sessionId ms b chunks p w) (hready : w'.Ready)
    (hforeign : Foreign sessionId ms posting.txnId)
    (hposted : ∀ txnId, posting.txnId ≠ txnId → w'.posted txnId = w.posted txnId)
    (hb : ∀ a, b' a = b a + (w'.balanceOf a - w.balanceOf a)) :
    Evidence sessionId ms b' chunks p w' := by
  have hchunk := fun i => hposted _ (hforeign.chunk i)
  have hcomp := fun i => hposted _ (hforeign.comp i)
  have hmv := fun m hm => hposted _ (hforeign.movement m hm)
  obtain ⟨h1, h2, h3, h4, h5, h6, h7⟩ := h
  refine ⟨hready, h2, ?_, h4, ?_, ?_, ?_⟩
  · intro i
    rw [hchunk]
    exact h3 i
  · intro i
    rw [hcomp]
    exact h5 i
  · intro m hm
    rw [hmv m hm]
    simp only [hcomp]
    exact h6 m hm
  · intro a
    have hrep : replayed sessionId ms w' a = replayed sessionId ms w a := by
      unfold replayed
      congr 1
      apply List.map_congr_left
      intro m hm
      rw [hmv m hm]
    have hstand : standing sessionId chunks p w' a = standing sessionId chunks p w a := by
      simp only [standing, hcomp]
    rw [hrep, hstand, hb]
    have hbal := h7 a
    omega

end Evidence

end EconomyLab
