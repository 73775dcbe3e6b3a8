import EconomyLab.Netting.ChunkLegs
import EconomyLab.Netting.Release

/-!
# Chunks and the clearing account

Settling posts the chunks in order. Each one is taken exactly when the ledger takes its
positions and the clearing account can carry its sum, which that account, guarded like
a wallet, refuses whenever the sums carried so far would leave it below zero.
-/

namespace EconomyLab

open Foundation

/-! ## One chunk -/

/-- The ledger takes the position, whatever chunk it stands in. -/
structure Postable (b : AccountRef → Int) (p : AccountRef × Int) : Prop where
  known : isKnownAccount p.1 = true
  credit : currency p.1 = .credit
  amount : I64 p.2
  delta : I64 (naturalOf p.1 p.2)
  balance : I64 (b p.1 + naturalOf p.1 p.2)

/-- The position does not draw a guarded account below zero. -/
def NonOverdrawing (b : AccountRef → Int) (p : AccountRef × Int) : Prop :=
  isUserGuarded p.1 = true → naturalOf p.1 p.2 < 0 → 0 ≤ b p.1 + naturalOf p.1 p.2

/-- A clearing account standing at `clr` takes the chunk's sum. -/
structure Carries (clr sum : Int) : Prop where
  amount : I64 (-sum)
  delta : I64 sum
  balance : I64 (clr + sum)
  covered : sum < 0 → 0 ≤ clr + sum

instance (b : AccountRef → Int) (p : AccountRef × Int) : Decidable (Postable b p) :=
  decidable_of_iff (isKnownAccount p.1 = true ∧ currency p.1 = .credit ∧ I64 p.2 ∧
      I64 (naturalOf p.1 p.2) ∧ I64 (b p.1 + naturalOf p.1 p.2))
    ⟨fun ⟨h1, h2, h3, h4, h5⟩ => ⟨h1, h2, h3, h4, h5⟩, fun ⟨h1, h2, h3, h4, h5⟩ => ⟨h1, h2, h3, h4, h5⟩⟩

instance (b : AccountRef → Int) (p : AccountRef × Int) : Decidable (NonOverdrawing b p) :=
  inferInstanceAs (Decidable (_ → _))

instance (clr sum : Int) : Decidable (Carries clr sum) :=
  decidable_of_iff (I64 (-sum) ∧ I64 sum ∧ I64 (clr + sum) ∧ (sum < 0 → 0 ≤ clr + sum))
    ⟨fun ⟨h1, h2, h3, h4⟩ => ⟨h1, h2, h3, h4⟩, fun ⟨h1, h2, h3, h4⟩ => ⟨h1, h2, h3, h4⟩⟩

theorem chunkEntries_nodup {chunk : Chunk} (hnd : (chunk.map Prod.fst).Nodup)
    (hclr : SYSTEM.NETTING_CLEARING ∉ chunk.map Prod.fst) (sign : Int) :
    ((chunkEntries sign chunk).map Prod.fst).Nodup := by
  unfold chunkEntries clearingEntry
  rw [List.map_append, List.map_map]
  have hmap : chunk.map (Prod.fst ∘ fun p => (p.1, p.2 * sign)) = chunk.map Prod.fst := rfl
  rw [hmap]
  split
  · simpa using hnd
  · rw [List.nodup_append]
    refine ⟨hnd, by simp, ?_⟩
    intro a ha b hb hab
    apply hclr
    rw [List.map_cons, List.map_nil, List.mem_singleton] at hb
    rw [hab, hb] at ha
    exact ha

section OneChunk

variable {b : AccountRef → Int} {chunk : Chunk} {legs : List Leg}

theorem chunk_moves (hlegs : chunkLegs 1 chunk = .ok legs) (a : AccountRef) :
    total (deltas legs) a = naturalOf a (total chunk a) +
      if a = SYSTEM.NETTING_CLEARING then chunkSum chunk else 0 := by
  rw [deltas_eq_natural, (chunkLegs_stored hlegs).1, total_chunkEntries, mul_one]

theorem chunk_moves_clearing (hlegs : chunkLegs 1 chunk = .ok legs)
    (hclr : SYSTEM.NETTING_CLEARING ∉ chunk.map Prod.fst) :
    total (deltas legs) SYSTEM.NETTING_CLEARING = chunkSum chunk := by
  rw [chunk_moves hlegs, total_eq_zero hclr, naturalOf_zero, zero_add, if_pos rfl]

theorem naturalOf_clearing (minor : Int) : naturalOf SYSTEM.NETTING_CLEARING minor = -minor := by
  have hdebit : isDebitNormal SYSTEM.NETTING_CLEARING = false := by decide
  simp [naturalOf, hdebit]

theorem legs_nodup (hlegs : chunkLegs 1 chunk = .ok legs) (hnd : (chunk.map Prod.fst).Nodup)
    (hclr : SYSTEM.NETTING_CLEARING ∉ chunk.map Prod.fst) : (legs.map Leg.account).Nodup := by
  rw [← stored_account, (chunkLegs_stored hlegs).1]
  exact chunkEntries_nodup hnd hclr 1

theorem postable_of_acceptable (hnd : (chunk.map Prod.fst).Nodup)
    (hclr : SYSTEM.NETTING_CLEARING ∉ chunk.map Prod.fst) (hlegs : chunkLegs 1 chunk = .ok legs)
    (hacc : Acceptable b legs) : ∀ p ∈ chunk, Postable b p := by
  obtain ⟨hst, hcredit⟩ := chunkLegs_stored hlegs
  have hfit := (balancesFit_of_nodup (legs_nodup hlegs hnd hclr)).mp hacc.fit
  have hamount := (chunkLegs_ok_iff.mp ⟨legs, hlegs⟩).1
  intro p hp
  have hentry : p ∈ stored legs := by
    rw [hst]
    exact mem_chunkEntries.mpr (Or.inl ⟨p, hp, by simp⟩)
  obtain ⟨leg, hl, ha, hm⟩ := exists_leg_of_stored hentry
  have hf := hfit leg hl
  rw [Leg.delta_eq ha hm, ha] at hf
  refine ⟨ha ▸ hacc.known leg hl, ?_, by simpa using hamount p hp, hf.1, hf.2⟩
  rw [← ha, ← hacc.singleCurrency leg hl]
  exact hcredit leg hl

theorem carries_of_acceptable (hb : ∀ a, I64 (b a)) (hnd : (chunk.map Prod.fst).Nodup)
    (hclr : SYSTEM.NETTING_CLEARING ∉ chunk.map Prod.fst) (hlegs : chunkLegs 1 chunk = .ok legs)
    (hacc : Acceptable b legs) : Carries (b SYSTEM.NETTING_CLEARING) (chunkSum chunk) := by
  have hguard : isUserGuarded SYSTEM.NETTING_CLEARING = true := by decide
  have hcov := hacc.covered SYSTEM.NETTING_CLEARING hguard
  rw [chunk_moves_clearing hlegs hclr] at hcov
  by_cases hz : chunkSum chunk = 0
  · rw [hz]
    exact ⟨by decide, by decide, by simpa using hb _, fun h => absurd h (lt_irrefl 0)⟩
  · have hentry : (SYSTEM.NETTING_CLEARING, -chunkSum chunk) ∈ stored legs := by
      rw [(chunkLegs_stored hlegs).1]
      exact mem_chunkEntries.mpr (Or.inr ⟨by simpa using hz, by simp⟩)
    obtain ⟨leg, hl, ha, hm⟩ := exists_leg_of_stored hentry
    have hf := (balancesFit_of_nodup (legs_nodup hlegs hnd hclr)).mp hacc.fit leg hl
    rw [Leg.delta_eq ha hm, ha, naturalOf_clearing, neg_neg] at hf
    exact ⟨by simpa using (chunkLegs_ok_iff.mp ⟨legs, hlegs⟩).2, hf.1, hf.2, hcov⟩

theorem acceptable_of_postable (hnd : (chunk.map Prod.fst).Nodup)
    (hclr : SYSTEM.NETTING_CLEARING ∉ chunk.map Prod.fst)
    (hafford : ∀ p ∈ chunk, NonOverdrawing b p) (hpost : ∀ p ∈ chunk, Postable b p)
    (hcarry : Carries (b SYSTEM.NETTING_CLEARING) (chunkSum chunk))
    (hlegs : chunkLegs 1 chunk = .ok legs) : Acceptable b legs := by
  obtain ⟨hst, hcredit⟩ := chunkLegs_stored hlegs
  have hentry : ∀ leg ∈ legs, (∃ p ∈ chunk, leg.account = p.1 ∧ leg.delta = naturalOf p.1 p.2) ∨
      (leg.account = SYSTEM.NETTING_CLEARING ∧ leg.delta = chunkSum chunk) := by
    intro leg hl
    have hm : (leg.account, leg.amount.minor) ∈ chunkEntries 1 chunk := by
      rw [← hst]
      exact List.mem_map.mpr ⟨leg, hl, rfl⟩
    rcases mem_chunkEntries.mp hm with ⟨p, hp, he⟩ | ⟨-, he⟩
    · rw [mul_one] at he
      have ha : leg.account = p.1 := congrArg Prod.fst he
      have hm : leg.amount.minor = p.2 := congrArg Prod.snd he
      exact Or.inl ⟨p, hp, ha, Leg.delta_eq ha hm⟩
    · rw [mul_one] at he
      have hd : leg.delta = naturalOf SYSTEM.NETTING_CLEARING (-chunkSum chunk) :=
        Leg.delta_eq (congrArg Prod.fst he) (congrArg Prod.snd he)
      rw [naturalOf_clearing, neg_neg] at hd
      exact Or.inr ⟨congrArg Prod.fst he, hd⟩
  refine ⟨?_, chunkLegs_zeroSum hlegs, ?_, ?_, ?_⟩
  · intro leg hl
    rw [hcredit leg hl]
    rcases hentry leg hl with ⟨p, hp, ha, -⟩ | ⟨ha, -⟩
    · rw [ha, (hpost p hp).credit]
    · rw [ha]
      decide
  · intro leg hl
    rcases hentry leg hl with ⟨p, hp, ha, -⟩ | ⟨ha, -⟩
    · rw [ha]
      exact (hpost p hp).known
    · rw [ha]
      decide
  · intro a hg hneg
    by_cases ha : a = SYSTEM.NETTING_CLEARING
    · subst ha
      rw [chunk_moves_clearing hlegs hclr] at hneg ⊢
      exact hcarry.covered hneg
    · rw [chunk_moves hlegs, if_neg ha, add_zero] at hneg ⊢
      have hmem : a ∈ chunk.map Prod.fst := by
        by_contra hn
        rw [total_eq_zero hn, naturalOf_zero] at hneg
        exact lt_irrefl 0 hneg
      obtain ⟨p, hp, rfl⟩ := List.mem_map.mp hmem
      rw [total_of_mem hnd (k := p.1) (v := p.2) hp] at hneg ⊢
      exact hafford p hp hg hneg
  · rw [balancesFit_of_nodup (legs_nodup hlegs hnd hclr)]
    intro leg hl
    rcases hentry leg hl with ⟨p, hp, ha, hd⟩ | ⟨ha, hd⟩
    · rw [hd, ha]
      exact ⟨(hpost p hp).delta, (hpost p hp).balance⟩
    · rw [hd, ha]
      exact ⟨hcarry.delta, hcarry.balance⟩

theorem chunk_acceptable_iff (hb : ∀ a, I64 (b a)) (hnd : (chunk.map Prod.fst).Nodup)
    (hclr : SYSTEM.NETTING_CLEARING ∉ chunk.map Prod.fst)
    (hafford : ∀ p ∈ chunk, NonOverdrawing b p) :
    (∃ legs, chunkLegs 1 chunk = .ok legs ∧ Acceptable b legs) ↔
      (∀ p ∈ chunk, Postable b p) ∧ Carries (b SYSTEM.NETTING_CLEARING) (chunkSum chunk) := by
  constructor
  · rintro ⟨legs, hlegs, hacc⟩
    exact ⟨postable_of_acceptable hnd hclr hlegs hacc, carries_of_acceptable hb hnd hclr hlegs hacc⟩
  · rintro ⟨hpost, hcarry⟩
    have hlegs : ∃ legs, chunkLegs 1 chunk = .ok legs := by
      apply chunkLegs_ok_iff.mpr
      simp only [mul_one]
      exact ⟨fun p hp => (hpost p hp).amount, hcarry.amount⟩
    obtain ⟨legs, hlegs⟩ := hlegs
    exact ⟨legs, hlegs, acceptable_of_postable hnd hclr hafford hpost hcarry hlegs⟩

end OneChunk

def signOf (compensate : Bool) : Int := if compensate then -1 else 1

variable (env : Env) (sessionId : String) (shape : Shape) {pairs : List (Chunk × Nat)} {w : World}

theorem chunkPosting_encodable (index : Nat) (compensate : Bool)
    (legs : List Leg) : Encodable (chunkPosting sessionId shape index compensate legs).fields :=
  ⟨_, rfl⟩

/-- A chunk finds its row, adds it, or changes nothing. -/
theorem postChunk_cases {chunk : Chunk}
    (hnz : ∀ p ∈ chunk, p.2 ≠ 0) (index : Nat) (compensate : Bool) (hw : w.Ready)
    {txnId : String}
    (hid : txnId = if compensate then compTxnId sessionId index else chunkTxnId sessionId index) :
    (w.posted txnId = true ∧ (∃ legs, chunkLegs (signOf compensate) chunk = .ok legs) ∧
      ∃ w', postChunk env sessionId shape chunk index compensate w = (.ok (), w') ∧
        w.SameTables w' ∧ w'.Ready) ∨
    (w.posted txnId = false ∧ ∃ legs, chunkLegs (signOf compensate) chunk = .ok legs ∧
      Acceptable w.balanceOf legs ∧
      ∃ w', postChunk env sessionId shape chunk index compensate w = (.ok (), w') ∧
        w.Landed (chunkPosting sessionId shape index compensate legs) w') ∨
    ((w.posted txnId = false ∨ ¬ ∃ legs, chunkLegs (signOf compensate) chunk = .ok legs) ∧
      (¬ ∃ legs, chunkLegs (signOf compensate) chunk = .ok legs ∧ Acceptable w.balanceOf legs) ∧
      ∃ e w', postChunk env sessionId shape chunk index compensate w = (.error e, w') ∧
        w.SameTables w' ∧ w'.Ready) := by
  have hsign : signOf compensate ≠ 0 := by cases compensate <;> decide
  cases hlegs : chunkLegs (signOf compensate) chunk with
  | error e =>
    have hpost : postChunk env sessionId shape chunk index compensate w = (.error e, w) := by
      unfold signOf at hlegs
      simp only [postChunk, hlegs]
    exact Or.inr (Or.inr ⟨Or.inr (by simp), by simp, e, w, hpost, World.SameTables.refl w, hw⟩)
  | ok legs =>
    have hpost : postChunk env sessionId shape chunk index compensate w =
        transaction (postOnce env (chunkPosting sessionId shape index compensate legs)) w := by
      unfold signOf at hlegs
      simp only [postChunk, hlegs]
    have hz : ∀ leg ∈ (chunkPosting sessionId shape index compensate legs).legs,
        leg.amount.minor ≠ 0 := chunkLegs_nonzero hsign hlegs hnz
    have hidp : (chunkPosting sessionId shape index compensate legs).txnId = txnId := hid.symm
    rcases postOnce_cases env hw hz (chunkPosting_encodable sessionId shape index compensate legs) with
      ⟨hp, w', htr, hsame⟩ | ⟨hp, hacc, w', htr, hland⟩ | ⟨hp, hacc, e, w', htr, hsame⟩
    · rw [hidp] at hp
      exact Or.inl ⟨hp, ⟨legs, rfl⟩, w', hpost.trans htr, hsame⟩
    · rw [hidp] at hp
      exact Or.inr (Or.inl ⟨hp, legs, rfl, hacc, w', hpost.trans htr, hland⟩)
    · rw [hidp] at hp
      refine Or.inr (Or.inr ⟨Or.inl hp, ?_, e, w', hpost.trans htr, hsame⟩)
      rintro ⟨legs', he, hacc'⟩
      cases he
      exact hacc hacc'

def ClearingCarries : Int → List Chunk → Prop
  | _, [] => True
  | clr, chunk :: rest => Carries clr (chunkSum chunk) ∧ ClearingCarries (clr + chunkSum chunk) rest

theorem cutLast_chunkTxnId (index : Nat) : Text.cutLast 'c' (chunkTxnId sessionId index) =
      some ("net_" ++ sessionId ++ "_", toString index) := by
  have hdigits : 'c' ∉ (toString index).toList := by
    intro h
    exact absurd (Text.isDigit_of_mem_toString h) (by decide)
  have he : chunkTxnId sessionId index =
      ("net_" ++ sessionId ++ "_") ++ String.ofList ['c'] ++ toString index := by
    apply String.toList_inj.mp
    simp [chunkTxnId]
  rw [he, Text.cutLast_append 'c' _ _ hdigits]

theorem chunkTxnId_inj {sessionId sessionId' : String} {i j : Nat} :
    chunkTxnId sessionId i = chunkTxnId sessionId' j ↔ sessionId = sessionId' ∧ i = j := by
  constructor
  · intro h
    have hcut := congrArg (Text.cutLast 'c') h
    rw [cutLast_chunkTxnId, cutLast_chunkTxnId, Option.some.injEq, Prod.mk.injEq] at hcut
    refine ⟨?_, Text.toString_nat_inj hcut.2⟩
    exact (String.append_right_inj _).mp ((String.append_left_inj _).mp hcut.1)
  · rintro ⟨rfl, rfl⟩
    rfl

instance ClearingCarries.decide : (clr : Int) → (chunks : List Chunk) →
    Decidable (ClearingCarries clr chunks)
  | _, [] => .isTrue trivial
  | clr, chunk :: rest =>
    have := ClearingCarries.decide (clr + chunkSum chunk) rest
    inferInstanceAs (Decidable (_ ∧ _))

/-- What a run of fresh chunks that went through left behind. -/
structure ChunksPosted (sessionId : String) (pairs : List (Chunk × Nat)) (w w' : World) : Prop where
  ready : w'.Ready
  balance : ∀ a, w'.balanceOf a = w.balanceOf a + naturalOf a (total (pairs.flatMap Prod.fst) a) +
    if a = SYSTEM.NETTING_CLEARING then chunkSum (pairs.flatMap Prod.fst) else 0
  posted : ∀ txnId, w'.posted txnId =
    (w.posted txnId || pairs.any fun c => chunkTxnId sessionId c.2 = txnId)
  movements : w'.movements = w.movements

theorem fresh_after_landed {sessionId : String} {posting : Posting} {index : Nat} {w w' : World}
    (hland : w.Landed posting w') (hid : posting.txnId = chunkTxnId sessionId index)
    (hindex : index ∉ pairs.map Prod.snd)
    (hfresh : ∀ c ∈ pairs, w.posted (chunkTxnId sessionId c.2) = false) :
    ∀ c ∈ pairs, w'.posted (chunkTxnId sessionId c.2) = false := by
  intro c hc
  rw [hland.posted, hfresh c hc, Bool.false_or, decide_eq_false_iff_not, hid]
  intro he
  apply hindex
  rw [(chunkTxnId_inj.mp he).2]
  exact List.mem_map.mpr ⟨c, hc, rfl⟩

theorem postChunks_moves (hids : (pairs.map Prod.snd).Nodup) (hnz : ∀ c ∈ pairs, ∀ p ∈ c.1, p.2 ≠ 0)
    (hw : w.Ready) (hfresh : ∀ c ∈ pairs, w.posted (chunkTxnId sessionId c.2) = false)
    (posted : List Nat) (hgo : (postChunks env sessionId shape pairs posted w).1.1 = true) :
    ChunksPosted sessionId pairs w (postChunks env sessionId shape pairs posted w).2 := by
  induction pairs generalizing w posted with
  | nil => exact ⟨hw, by simp [postChunks], by simp [postChunks], rfl⟩
  | cons c pairs ih =>
    obtain ⟨chunk, index⟩ := c
    rw [List.map_cons, List.nodup_cons] at hids
    rw [List.forall_mem_cons] at hnz hfresh
    rcases postChunk_cases env sessionId shape hnz.1 index false hw rfl with
      ⟨hp, -⟩ | ⟨-, legs, hlegs, -, w', hpost, hland⟩ | ⟨-, -, e, w', hpost, -⟩
    · rw [if_neg Bool.false_ne_true, hfresh.1] at hp
      cases hp
    · simp only [postChunks, hpost] at hgo ⊢
      have hfresh' := fresh_after_landed hland rfl hids.1 hfresh.2
      obtain ⟨hready, hbal, hposted, hmv⟩ :=
        ih hids.2 hnz.2 hland.ready hfresh' (posted ++ [index]) hgo
      refine ⟨hready, ?_, ?_, hmv.trans hland.movements⟩
      · intro a
        have hmoves : total (deltas (chunkPosting sessionId shape index false legs).legs) a = _ :=
          chunk_moves hlegs a
        have hsum : chunkSum (chunk ++ pairs.flatMap Prod.fst) =
            chunkSum chunk + chunkSum (pairs.flatMap Prod.fst) := by
          simp [chunkSum]
        rw [hbal, hland.balance, hmoves, List.flatMap_cons, total_append, naturalOf_add, hsum]
        split <;> ring
      · intro txnId
        rw [hposted, hland.posted, List.any_cons, Bool.or_assoc]
        rfl
    · simp [postChunks, hpost] at hgo

/-- A run of fresh chunks goes through exactly when the ledger takes each position and the
clearing account carries each sum. -/
theorem postChunks_iff (hids : (pairs.map Prod.snd).Nodup) (hnz : ∀ c ∈ pairs, ∀ p ∈ c.1, p.2 ≠ 0)
    (hnd : ((pairs.flatMap Prod.fst).map Prod.fst).Nodup)
    (hclr : SYSTEM.NETTING_CLEARING ∉ (pairs.flatMap Prod.fst).map Prod.fst)
    (hw : w.Ready) (hfresh : ∀ c ∈ pairs, w.posted (chunkTxnId sessionId c.2) = false)
    (hafford : ∀ p ∈ pairs.flatMap Prod.fst, NonOverdrawing w.balanceOf p) (posted : List Nat) :
    (postChunks env sessionId shape pairs posted w).1.1 = true ↔
      (∀ p ∈ pairs.flatMap Prod.fst, Postable w.balanceOf p) ∧
        ClearingCarries (w.balanceOf SYSTEM.NETTING_CLEARING) (pairs.map Prod.fst) := by
  induction pairs generalizing w posted with
  | nil => simp [postChunks, ClearingCarries]
  | cons c pairs ih =>
    obtain ⟨chunk, index⟩ := c
    rw [List.map_cons, List.nodup_cons] at hids
    rw [List.forall_mem_cons] at hnz hfresh
    rw [List.flatMap_cons, List.map_append] at hnd hclr
    rw [List.mem_append, not_or] at hclr
    obtain ⟨hnd1, hnd2, hdisj⟩ := List.nodup_append.mp hnd
    rw [List.flatMap_cons] at hafford ⊢
    rw [List.forall_mem_append] at hafford ⊢
    have hone := chunk_acceptable_iff hw.inRange hnd1 hclr.1 hafford.1
    rw [List.map_cons, ClearingCarries]
    rcases postChunk_cases env sessionId shape hnz.1 index false hw rfl with
      ⟨hp, -⟩ | ⟨-, legs, hlegs, hacc, w', hpost, hland⟩ | ⟨-, hno, e, w', hpost, -⟩
    · rw [if_neg Bool.false_ne_true, hfresh.1] at hp
      cases hp
    · simp only [postChunks, hpost]
      have hfresh' := fresh_after_landed hland rfl hids.1 hfresh.2
      -- the positions of the later chunks stand where they stood
      have hsame : ∀ p ∈ pairs.flatMap Prod.fst, w'.balanceOf p.1 = w.balanceOf p.1 := by
        intro p hp
        have hmem : p.1 ∈ (pairs.flatMap Prod.fst).map Prod.fst := List.mem_map.mpr ⟨p, hp, rfl⟩
        have hne : p.1 ≠ SYSTEM.NETTING_CLEARING := fun he => hclr.2 (he ▸ hmem)
        have hnot : p.1 ∉ chunk.map Prod.fst := fun hm => hdisj _ hm _ hmem rfl
        have hmoves : total (deltas (chunkPosting sessionId shape index false legs).legs) p.1 = _ :=
          chunk_moves hlegs p.1
        rw [hland.balance, hmoves, total_eq_zero hnot, naturalOf_zero, if_neg hne, add_zero, add_zero]
      have hafford' : ∀ p ∈ pairs.flatMap Prod.fst, NonOverdrawing w'.balanceOf p := by
        intro p hp
        unfold NonOverdrawing
        rw [hsame p hp]
        exact hafford.2 p hp
      have hclearing : w'.balanceOf SYSTEM.NETTING_CLEARING =
          w.balanceOf SYSTEM.NETTING_CLEARING + chunkSum chunk := by
        have hmoves : total (deltas (chunkPosting sessionId shape index false legs).legs)
            SYSTEM.NETTING_CLEARING = _ := chunk_moves_clearing hlegs hclr.1
        rw [hland.balance, hmoves]
      obtain ⟨hpost1, hcarry1⟩ := hone.mp ⟨legs, hlegs, hacc⟩
      rw [ih hids.2 hnz.2 hnd2 hclr.2 hland.ready hfresh' hafford' (posted ++ [index]), hclearing]
      have hpostable : (∀ p ∈ pairs.flatMap Prod.fst, Postable w'.balanceOf p) ↔
          ∀ p ∈ pairs.flatMap Prod.fst, Postable w.balanceOf p := by
        constructor
        · intro h p hp
          obtain ⟨h1, h2, h3, h4, h5⟩ := h p hp
          exact ⟨h1, h2, h3, h4, hsame p hp ▸ h5⟩
        · intro h p hp
          obtain ⟨h1, h2, h3, h4, h5⟩ := h p hp
          exact ⟨h1, h2, h3, h4, (hsame p hp).symm ▸ h5⟩
      rw [hpostable]
      constructor
      · rintro ⟨h1, h2⟩
        exact ⟨⟨hpost1, h1⟩, hcarry1, h2⟩
      · rintro ⟨⟨-, h1⟩, -, h2⟩
        exact ⟨h1, h2⟩
    · simp only [postChunks, hpost, Bool.false_eq_true, false_iff]
      rintro ⟨⟨h1, -⟩, h2, -⟩
      exact hno (hone.mpr ⟨h1, h2⟩)

theorem ClearingCarries.each {clr : Int} {chunks : List Chunk} (h : ClearingCarries clr chunks) :
    ∀ c ∈ chunks, I64 (-chunkSum c) := by
  induction chunks generalizing clr with
  | nil => simp
  | cons chunk chunks ih =>
    intro c hc
    rcases List.mem_cons.mp hc with rfl | hc
    · exact h.1.amount
    · exact ih h.2 c hc

theorem postChunks_skip (hnz : ∀ c ∈ pairs, ∀ p ∈ c.1, p.2 ≠ 0) (hw : w.Ready)
    (hposted : ∀ c ∈ pairs, w.posted (chunkTxnId sessionId c.2) = true ∧
      ∃ legs, chunkLegs 1 c.1 = .ok legs) (posted : List Nat) :
    (postChunks env sessionId shape pairs posted w).1.1 = true ∧
      w.SameTables (postChunks env sessionId shape pairs posted w).2 ∧
      (postChunks env sessionId shape pairs posted w).2.Ready := by
  induction pairs generalizing w posted with
  | nil => exact ⟨rfl, World.SameTables.refl w, hw⟩
  | cons c pairs ih =>
    obtain ⟨chunk, index⟩ := c
    rw [List.forall_mem_cons] at hnz hposted
    rcases postChunk_cases env sessionId shape hnz.1 index false hw rfl with
      ⟨-, -, w', hpost, hsame, hready⟩ | ⟨hp, -⟩ | ⟨hp, -, e, w', hpost, -⟩
    · have hposted' : ∀ c ∈ pairs, w'.posted (chunkTxnId sessionId c.2) = true ∧
          ∃ legs, chunkLegs 1 c.1 = .ok legs := by
        intro c hc
        rw [hsame.posted]
        exact hposted.2 c hc
      obtain ⟨h1, h2, h3⟩ := ih hnz.2 hready hposted' (posted ++ [index])
      simp only [postChunks, hpost]
      exact ⟨h1, hsame.trans h2, h3⟩
    · rw [if_neg Bool.false_ne_true, hposted.1.1] at hp
      cases hp
    · exfalso
      rcases hp with hp | hp
      · rw [if_neg Bool.false_ne_true, hposted.1.1] at hp
        cases hp
      · exact hp hposted.1.2

end EconomyLab
