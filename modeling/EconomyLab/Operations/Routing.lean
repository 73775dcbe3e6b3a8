import EconomyLab.Operations.Accrual

/-!
# What routing and parking leave alone

Shards are platform accounts, so routing moves no line on a user's wallet, and parking moves
only the credits to earned balances.
-/

namespace EconomyLab

open Foundation Text

/-! ## Shards are no wallets -/

variable {ref a : AccountRef} {legs : List Leg} {kind : AccountKind}

theorem kindOfText_eq_some {suffix : String} (h : kindOfText suffix = some kind) :
    suffix = kind.text := by
  unfold kindOfText at h
  split at h
  · next hs => cases h; exact hs
  · split at h
    · next hs => cases h; exact hs
    · split at h
      · next hs => cases h; exact hs
      · split at h
        · next hs => cases h; exact hs
        · cases h

theorem walletKindOf_platform {tail : String} (htail : ':' ∉ tail.toList)
    (hkind : kindOfText tail = none) :
    walletKindOf ("platform:" ++ tail) = none := by
  have hsplit : "platform:" ++ tail = "platform" ++ String.ofList [':'] ++ tail := rfl
  have hcut : cutLast ':' ("platform:" ++ tail) = some ("platform", tail) :=
    hsplit ▸ cutLast_append ':' "platform" tail htail
  simp only [walletKindOf, hcut, Option.bind_some, hkind]

theorem system_tail {base : AccountRef} (h : base ∈ SYSTEM.values) :
    ∃ tail, base = "platform:" ++ tail ∧ ':' ∉ tail.toList ∧ kindOfText tail = none := by
  have hall : ∀ base ∈ SYSTEM.values, ∃ tail ∈ ["trust_cash", "revenue", "stored_value", "payout_reserve",
      "receivable", "promo_float", "usd_clearing", "revenue_usd", "opening_equity", "netting_clearing",
      "settlement_accrual"], base = "platform:" ++ tail ∧ ':' ∉ tail.toList ∧ kindOfText tail = none := by
    decide
  obtain ⟨tail, -, htail⟩ := hall base h
  exact ⟨tail, htail⟩

theorem walletKindOf_shardRef {base : AccountRef} (h : base ∈ SYSTEM.values) (shard : Nat) :
    walletKindOf (shardRef base shard) = none := by
  obtain ⟨tail, rfl, hcolon, hkind⟩ := system_tail h
  unfold shardRef
  split
  · exact walletKindOf_platform hcolon hkind
  · have hassoc : "platform:" ++ tail ++ "#" ++ toString shard =
        "platform:" ++ (tail ++ "#" ++ toString shard) := by
      simp only [String.append_assoc]
    rw [hassoc]
    apply walletKindOf_platform
    · intro hmem
      simp only [String.toList_append, List.mem_append] at hmem
      rcases hmem with (hmem | hmem) | hmem
      · exact hcolon hmem
      · exact absurd hmem (by decide)
      · exact absurd (isDigit_of_mem_toString hmem) (by decide)
    · cases hk : kindOfText (tail ++ "#" ++ toString shard) with
      | none => rfl
      | some kind =>
        have hmem : '#' ∈ (tail ++ "#" ++ toString shard).toList := by
          simp only [String.toList_append, List.mem_append]
          exact Or.inl (Or.inr (by decide))
        rw [kindOfText_eq_some hk] at hmem
        exact absurd hmem (by cases kind <;> decide)

theorem sharded_system (h : SHARDED.contains ref = true) : ref ∈ SYSTEM.values := by
  have hall : ∀ ref ∈ SHARDED, ref ∈ SYSTEM.values := by decide
  exact hall ref (List.contains_iff_mem.mp h)

theorem platformShard_cases (ref : AccountRef) (key : String) (shards : Nat) :
    platformShard ref key shards = ref ∨
      ref ∈ SYSTEM.values ∧ ∃ shard, platformShard ref key shards = shardRef ref shard := by
  unfold platformShard
  split
  · exact Or.inl rfl
  · rename_i h
    simp only [Bool.or_eq_true, Bool.not_eq_true', not_or, Bool.not_eq_false] at h
    exact Or.inr ⟨sharded_system h.2, _, rfl⟩

theorem walletKindOf_system (h : ref ∈ SYSTEM.values) : walletKindOf ref = none := by
  obtain ⟨tail, rfl, hcolon, hkind⟩ := system_tail h
  exact walletKindOf_platform hcolon hkind

@[simp] theorem platformShard_wallet (owner : String) (kind : AccountKind) (key : String) (shards : Nat) :
    platformShard (wallet owner kind) key shards = wallet owner kind := by
  rcases platformShard_cases (wallet owner kind) key shards with h | ⟨h, -⟩
  · exact h
  · have hkind := walletKindOf_system h
    rw [walletKindOf_wallet] at hkind
    cases hkind

theorem platformShard_eq_wallet {key : String} {shards : Nat} {owner : String} :
    platformShard ref key shards = wallet owner kind ↔ ref = wallet owner kind := by
  constructor
  · intro h
    rcases platformShard_cases ref key shards with hs | ⟨hs, shard, hshard⟩
    · exact hs.symm.trans h
    · have hkind := walletKindOf_shardRef hs shard
      rw [hshard.symm.trans h, walletKindOf_wallet] at hkind
      cases hkind
  · rintro rfl
    exact platformShard_wallet owner kind key shards

theorem total_deltas_map {f : Leg → Leg}
    (haccount : ∀ leg ∈ legs, (f leg).account = a ↔ leg.account = a)
    (hdelta : ∀ leg ∈ legs, leg.account = a → (f leg).delta = leg.delta) :
    total (deltas (legs.map f)) a = total (deltas legs) a := by
  induction legs with
  | nil => rfl
  | cons leg legs ih =>
    have hrest := ih (fun l hl => haccount l (List.mem_cons_of_mem _ hl))
      fun l hl => hdelta l (List.mem_cons_of_mem _ hl)
    have hhead := haccount leg List.mem_cons_self
    simp only [List.map_cons, deltas_cons, total_cons, hrest]
    by_cases hleg : leg.account = a
    · simp only [hhead.mpr hleg, hleg, if_true, hdelta leg List.mem_cons_self hleg]
    · have hmoved : (f leg).account ≠ a := fun h => hleg (hhead.mp h)
      simp only [hmoved, hleg, if_false]

theorem total_filter {legs : List Leg} {p : Leg → Bool} {a : AccountRef}
    (h : ∀ leg ∈ legs, leg.account = a → p leg = false → leg.delta = 0) :
    total (deltas (legs.filter p)) a = total (deltas legs) a := by
  induction legs with
  | nil => rfl
  | cons leg legs ih =>
    have hrest := ih fun l hl => h l (List.mem_cons_of_mem _ hl)
    cases hp : p leg with
    | true => simp only [List.filter_cons_of_pos hp, deltas_cons, total_cons, hrest]
    | false =>
      have hkeep : List.filter p (leg :: legs) = List.filter p legs := by
        simp only [List.filter_cons, hp, Bool.false_eq_true, if_false]
      simp only [hkeep, deltas_cons, total_cons, hrest]
      split
      · rename_i hleg
        simp only [h leg List.mem_cons_self hleg hp, Int.zero_add]
      · exact (Int.zero_add _).symm

theorem total_deltas_eq_zero (h : ∀ leg ∈ legs, leg.account ≠ a) : total (deltas legs) a = 0 := by
  apply total_eq_zero
  rw [mem_deltas_account]
  intro hmem
  obtain ⟨leg, hleg, ha⟩ := List.mem_map.mp hmem
  exact h leg hleg ha

theorem total_deltas_nonneg
    (h : ∀ leg ∈ legs, leg.account = a → 0 ≤ leg.delta) : 0 ≤ total (deltas legs) a := by
  induction legs with
  | nil => exact le_refl _
  | cons leg legs ih =>
    have hrest := ih fun l hl => h l (List.mem_cons_of_mem _ hl)
    simp only [deltas_cons, total_cons]
    split
    · rename_i hleg
      have hhead := h leg List.mem_cons_self hleg
      omega
    · omega

theorem dropZeroLegs_total (posting : Posting) (a : AccountRef) :
    total (deltas (dropZeroLegs posting).legs) a = total (deltas posting.legs) a := by
  apply total_filter
  intro leg _ _ hzero
  have hminor : leg.amount.minor = 0 := by simpa using hzero
  simp only [Leg.delta, hminor]
  split <;> rfl

theorem routePlatformLegs_eq (legs : List Leg) (key : String) (shards : Nat) :
    routePlatformLegs legs key shards =
      legs.map fun leg => { leg with account := platformShard leg.account key shards } := by
  unfold routePlatformLegs
  split
  · rename_i h
    have hstay : ∀ leg : Leg, platformShard leg.account key shards = leg.account := by
      intro leg
      simp only [platformShard, h, decide_true, Bool.true_or, if_true]
    simp only [hstay, List.map_id']
  · rfl

theorem total_routed (legs : List Leg) (key : String) (shards : Nat) (owner : String)
    (kind : AccountKind) :
    total (deltas (routePlatformLegs legs key shards)) (wallet owner kind) =
      total (deltas legs) (wallet owner kind) := by
  rw [routePlatformLegs_eq]
  apply total_deltas_map
  · exact fun leg _ => platformShard_eq_wallet
  · intro leg _ ha
    simp only [Leg.delta, ha, platformShard_wallet]

theorem isEarnedCredit_iff {leg : Leg} :
    isEarnedCredit leg = true ↔ walletKindOf leg.account = some .earned ∧ leg.amount.minor < 0 := by
  simp [isEarnedCredit]

theorem total_parked (hkind : kind ≠ .earned) (legs : List Leg) (owner : String) :
    total (deltas (parkEarnedLegs legs).1) (wallet owner kind) =
      total (deltas legs) (wallet owner kind) := by
  have haccrual : SYSTEM.SETTLEMENT_ACCRUAL ≠ wallet owner kind := by
    intro h
    have hk := congrArg walletKindOf h
    rw [walletKindOf_wallet] at hk
    exact absurd hk (by rw [walletKindOf_system (by decide)]; exact nofun)
  have hearned : ∀ leg : Leg, isEarnedCredit leg = true → leg.account ≠ wallet owner kind := by
    intro leg h ha
    have hk := (isEarnedCredit_iff.mp h).1
    rw [ha, walletKindOf_wallet] at hk
    exact hkind (Option.some.inj hk)
  apply total_deltas_map
  · intro leg _
    split
    · rename_i h
      exact ⟨fun hm => absurd hm haccrual, fun hm => absurd hm (hearned leg h)⟩
    · exact Iff.rfl
  · intro leg _ ha
    split
    · rename_i h
      exact absurd ha (hearned leg h)
    · rfl

end EconomyLab
