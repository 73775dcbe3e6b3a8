import EconomyLab.Netting.Posting

/-!
# The legs of a chunk

A chunk posts its positions and one leg on the clearing account that balances them. Its
acceptance is a condition on each position and on the sum that the clearing account
carries.
-/

namespace EconomyLab

open Foundation

/-- The account's own movement for a stored amount. -/
def naturalOf (a : AccountRef) (minor : Int) : Int := if isDebitNormal a then minor else -minor

def natural (entries : List (AccountRef × Int)) : List (AccountRef × Int) :=
  entries.map fun p => (p.1, naturalOf p.1 p.2)

def stored (legs : List Leg) : List (AccountRef × Int) :=
  legs.map fun leg => (leg.account, leg.amount.minor)

variable (a : AccountRef) {e : AccountRef × Int}

theorem naturalOf_add (m n : Int) : naturalOf a (m + n) = naturalOf a m + naturalOf a n := by
  unfold naturalOf
  split <;> ring

theorem naturalOf_mul (m sign : Int) : naturalOf a (m * sign) = naturalOf a m * sign := by
  unfold naturalOf
  split <;> ring

@[simp] theorem naturalOf_zero : naturalOf a 0 = 0 := by
  simp [naturalOf]

theorem deltas_eq_natural (legs : List Leg) : deltas legs = natural (stored legs) := by
  simp [deltas, natural, stored, Leg.delta, naturalOf]

theorem total_natural (entries : List (AccountRef × Int)) (a : AccountRef) :
    total (natural entries) a = naturalOf a (total entries a) := by
  induction entries with
  | nil => simp [natural]
  | cons p entries ih =>
    unfold natural at ih ⊢
    rw [List.map_cons, total_cons, total_cons, naturalOf_add, ih]
    by_cases hp : p.1 = a
    · subst hp
      simp
    · simp [hp]

theorem total_deltas (legs : List Leg) (a : AccountRef) :
    total (deltas legs) a = naturalOf a (total (stored legs) a) := by
  rw [deltas_eq_natural, total_natural]

theorem stored_account (legs : List Leg) : (stored legs).map Prod.fst = legs.map Leg.account := by
  simp [stored]

def chunkSum (chunk : Chunk) : Int := (chunk.map Prod.snd).sum

@[simp] theorem chunkSum_nil : chunkSum [] = 0 := rfl

@[simp] theorem chunkSum_cons (p : AccountRef × Int) (chunk : Chunk) :
    chunkSum (p :: chunk) = p.2 + chunkSum chunk := rfl

theorem sum_signed (chunk : Chunk) (sign : Int) :
    (chunk.map fun p => p.2 * sign).sum = chunkSum chunk * sign := by
  induction chunk with
  | nil => simp
  | cons p chunk ih =>
    rw [List.map_cons, List.sum_cons, ih, chunkSum_cons]
    ring

def clearingEntry (sum : Int) : List (AccountRef × Int) :=
  if sum = 0 then [] else [(SYSTEM.NETTING_CLEARING, -sum)]

def chunkEntries (sign : Int) (chunk : Chunk) : List (AccountRef × Int) :=
  chunk.map (fun p => (p.1, p.2 * sign)) ++ clearingEntry (chunkSum chunk * sign)

variable {sign : Int} {chunk : Chunk} {legs : List Leg}

theorem mapM_leg_ok :
    (∃ legs, chunk.mapM (fun p => do return (⟨p.1, ← toAmount .credit (p.2 * sign)⟩ : Leg)) =
      .ok legs) ↔ ∀ p ∈ chunk, I64 (p.2 * sign) := by
  induction chunk with
  | nil => simp [pure, Except.pure]
  | cons p chunk ih =>
    rw [List.forall_mem_cons, ← ih]
    constructor
    · rintro ⟨legs, h⟩
      rw [List.mapM_cons] at h
      obtain ⟨leg, hleg, h⟩ := except_bind_ok.mp h
      obtain ⟨rest, hrest, -⟩ := except_bind_ok.mp h
      obtain ⟨amount, hamount, -⟩ := except_bind_ok.mp hleg
      exact ⟨(toAmount_eq_ok.mp hamount).2 ▸ amount.inRange, rest, hrest⟩
    · rintro ⟨hp, rest, hrest⟩
      refine ⟨⟨p.1, ⟨.credit, p.2 * sign, hp⟩⟩ :: rest, ?_⟩
      rw [List.mapM_cons, toAmount_ok hp, hrest]
      rfl

theorem mapM_leg_stored
    (h : chunk.mapM (fun p => do return (⟨p.1, ← toAmount .credit (p.2 * sign)⟩ : Leg)) = .ok legs) :
    stored legs = chunk.map (fun p => (p.1, p.2 * sign)) ∧
      ∀ leg ∈ legs, leg.amount.currency = .credit := by
  induction chunk generalizing legs with
  | nil =>
    rw [List.mapM_nil, except_pure_ok] at h
    simp [← h, stored]
  | cons p chunk ih =>
    rw [List.mapM_cons] at h
    obtain ⟨leg, hleg, h⟩ := except_bind_ok.mp h
    obtain ⟨rest, hrest, h⟩ := except_bind_ok.mp h
    obtain ⟨amount, hamount, hleg⟩ := except_bind_ok.mp hleg
    rw [except_pure_ok] at h hleg
    obtain ⟨hcur, hmin⟩ := toAmount_eq_ok.mp hamount
    obtain ⟨hst, hcredit⟩ := ih hrest
    subst h hleg
    refine ⟨?_, ?_⟩
    · rw [List.map_cons, ← hst, ← hmin]
      rfl
    · intro l hl
      rcases List.mem_cons.mp hl with rfl | hl
      · exact hcur
      · exact hcredit l hl

/-- The legs exist exactly when every stored amount is in range. -/
theorem chunkLegs_ok_iff : (∃ legs, chunkLegs sign chunk = .ok legs) ↔
      (∀ p ∈ chunk, I64 (p.2 * sign)) ∧ I64 (-(chunkSum chunk * sign)) := by
  unfold chunkLegs
  rw [← mapM_leg_ok]
  simp only [sum_signed]
  constructor
  · rintro ⟨legs, h⟩
    obtain ⟨base, hbase, h⟩ := except_bind_ok.mp h
    refine ⟨⟨base, hbase⟩, ?_⟩
    by_cases hz : -(chunkSum chunk * sign) = 0
    · rw [hz]
      decide
    · rw [if_neg hz] at h
      obtain ⟨amount, hamount, -⟩ := except_bind_ok.mp h
      exact (toAmount_eq_ok.mp hamount).2 ▸ amount.inRange
  · rintro ⟨⟨base, hbase⟩, hr⟩
    rw [hbase]
    by_cases hz : -(chunkSum chunk * sign) = 0
    · exact ⟨base, by simp [hz, bind, Except.bind, pure, Except.pure]⟩
    · refine ⟨base ++ [⟨SYSTEM.NETTING_CLEARING, ⟨.credit, _, hr⟩⟩], ?_⟩
      simp only [bind, Except.bind, hz, if_false, toAmount_ok hr, pure, Except.pure]

theorem chunkLegs_stored (h : chunkLegs sign chunk = .ok legs) :
    stored legs = chunkEntries sign chunk ∧ ∀ leg ∈ legs, leg.amount.currency = .credit := by
  unfold chunkLegs at h
  simp only [sum_signed] at h
  obtain ⟨base, hbase, h⟩ := except_bind_ok.mp h
  obtain ⟨hst, hcredit⟩ := mapM_leg_stored hbase
  unfold chunkEntries clearingEntry
  by_cases hz : -(chunkSum chunk * sign) = 0
  · rw [if_pos hz, except_pure_ok] at h
    subst h
    rw [if_pos (neg_eq_zero.mp hz), List.append_nil]
    exact ⟨hst, hcredit⟩
  · rw [if_neg hz] at h
    obtain ⟨amount, hamount, h⟩ := except_bind_ok.mp h
    rw [except_pure_ok] at h
    subst h
    obtain ⟨hcur, hmin⟩ := toAmount_eq_ok.mp hamount
    refine ⟨?_, ?_⟩
    · rw [if_neg (mt neg_eq_zero.mpr hz), ← hst, ← hmin]
      simp [stored]
    · intro leg hleg
      rcases List.mem_append.mp hleg with hleg | hleg
      · exact hcredit leg hleg
      · rw [List.mem_singleton] at hleg
        exact hleg ▸ hcur

theorem total_signed (chunk : Chunk) (sign : Int) (a : AccountRef) :
    total (chunk.map fun p => (p.1, p.2 * sign)) a = total chunk a * sign := by
  induction chunk with
  | nil => simp
  | cons p chunk ih =>
    rw [List.map_cons, total_cons, total_cons, ih]
    split <;> ring

theorem total_clearingEntry (sum : Int) (a : AccountRef) :
    total (clearingEntry sum) a = if a = SYSTEM.NETTING_CLEARING then -sum else 0 := by
  unfold clearingEntry
  by_cases hz : sum = 0
  · simp [hz]
  · by_cases ha : a = SYSTEM.NETTING_CLEARING
    · rw [if_neg hz, if_pos ha, total_cons, if_pos ha.symm, total_nil, add_zero]
    · rw [if_neg hz, if_neg ha, total_cons, if_neg (Ne.symm ha), total_nil, add_zero]

theorem total_chunkEntries (sign : Int) (chunk : Chunk) (a : AccountRef) :
    total (natural (chunkEntries sign chunk)) a =
      (naturalOf a (total chunk a) +
        if a = SYSTEM.NETTING_CLEARING then chunkSum chunk else 0) * sign := by
  have hclr : isDebitNormal SYSTEM.NETTING_CLEARING = false := by decide
  rw [total_natural]
  unfold chunkEntries
  rw [total_append, total_signed, total_clearingEntry, naturalOf_add, naturalOf_mul]
  by_cases ha : a = SYSTEM.NETTING_CLEARING
  · subst ha
    simp only [if_true, naturalOf, hclr]
    simp only [Bool.false_eq_true, if_false]
    ring
  · simp only [ha, if_false, naturalOf_zero]
    ring

theorem mem_chunkEntries : e ∈ chunkEntries sign chunk ↔ (∃ p ∈ chunk, e = (p.1, p.2 * sign)) ∨
      (chunkSum chunk * sign ≠ 0 ∧ e = (SYSTEM.NETTING_CLEARING, -(chunkSum chunk * sign))) := by
  unfold chunkEntries clearingEntry
  rw [List.mem_append, List.mem_map]
  apply or_congr
  · constructor
    · rintro ⟨p, hp, rfl⟩
      exact ⟨p, hp, rfl⟩
    · rintro ⟨p, hp, rfl⟩
      exact ⟨p, hp, rfl⟩
  · by_cases hz : chunkSum chunk * sign = 0 <;> simp [hz]

theorem exists_leg_of_stored (h : e ∈ stored legs) :
    ∃ leg ∈ legs, leg.account = e.1 ∧ leg.amount.minor = e.2 := by
  obtain ⟨leg, hl, rfl⟩ := List.mem_map.mp h
  exact ⟨leg, hl, rfl, rfl⟩

theorem Leg.delta_eq {leg : Leg} (ha : leg.account = e.1)
    (hm : leg.amount.minor = e.2) : leg.delta = naturalOf e.1 e.2 := by
  unfold Leg.delta naturalOf
  rw [ha, hm]

theorem chunkLegs_nonzero (hs : sign ≠ 0)
    (h : chunkLegs sign chunk = .ok legs) (hnz : ∀ p ∈ chunk, p.2 ≠ 0) :
    ∀ leg ∈ legs, leg.amount.minor ≠ 0 := by
  intro leg hleg hz
  have hm : (leg.account, leg.amount.minor) ∈ chunkEntries sign chunk := by
    rw [← (chunkLegs_stored h).1]
    exact List.mem_map.mpr ⟨leg, hleg, rfl⟩
  rcases mem_chunkEntries.mp hm with ⟨p, hp, hpe⟩ | ⟨hne, hpe⟩
  · have hp2 : leg.amount.minor = p.2 * sign := congrArg Prod.snd hpe
    rw [hz] at hp2
    rcases Int.mul_eq_zero.mp hp2.symm with h0 | h0
    · exact hnz p hp h0
    · exact hs h0
  · have h2 : leg.amount.minor = -(chunkSum chunk * sign) := congrArg Prod.snd hpe
    omega

theorem sum_entries (sign : Int) (chunk : Chunk) : chunkSum (chunkEntries sign chunk) = 0 := by
  unfold chunkEntries clearingEntry chunkSum
  rw [List.map_append, List.map_map, List.sum_append]
  have hmap : (chunk.map (Prod.snd ∘ fun p => (p.1, p.2 * sign))).sum = chunkSum chunk * sign :=
    sum_signed chunk sign
  rw [hmap]
  unfold chunkSum
  split <;> rename_i hz
  · simp [hz]
  · simp

theorem zeroSum_of_credit (hc : ∀ leg ∈ legs, leg.amount.currency = .credit)
    (hs : chunkSum (stored legs) = 0) : ZeroSum legs := by
  have key : ∀ {legs : List Leg}, (∀ leg ∈ legs, leg.amount.currency = .credit) → ∀ c,
      total (currencyAmounts legs) c = if c = .credit then chunkSum (stored legs) else 0 := by
    intro legs hc c
    induction legs with
    | nil => simp [currencyAmounts, stored]
    | cons leg legs ih =>
      have ihl := ih fun l hl => hc l (List.mem_cons_of_mem _ hl)
      unfold currencyAmounts at ihl ⊢
      rw [List.map_cons, total_cons, ihl, hc leg List.mem_cons_self]
      cases c <;> simp [stored]
  intro c
  rw [key hc c, hs]
  split <;> rfl

theorem chunkLegs_zeroSum (h : chunkLegs sign chunk = .ok legs) : ZeroSum legs := by
  obtain ⟨hst, hcredit⟩ := chunkLegs_stored h
  exact zeroSum_of_credit hcredit (hst ▸ sum_entries sign chunk)

end EconomyLab
