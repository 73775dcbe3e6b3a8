import EconomyLab.Operations.Routing

/-!
# Platform accounts over their shards

A hot platform account is kept in shards, and a reader of it adds them up. Routing picks one
shard, so over all shards a routed posting moves an account by what its lines say.
-/

namespace EconomyLab

open Foundation Text

theorem takeWhile_append_stop {c : Char} {s rest : List Char} (h : c ∉ s) :
    (s ++ c :: rest).takeWhile (· ≠ c) = s := by
  induction s with
  | nil => simp
  | cons x s ih =>
    obtain ⟨hx, hs⟩ := not_or.mp (mt List.mem_cons.mpr h)
    have hne : decide (x ≠ c) = true := decide_eq_true (Ne.symm hx)
    rw [List.cons_append, List.takeWhile_cons, if_pos hne, ih hs]

variable {base : AccountRef}

theorem system_prefix (h : base ∈ SYSTEM.values) :
    startsWith base "platform:" = true ∧ '#' ∉ base.toList := by
  have hall : ∀ base ∈ SYSTEM.values, startsWith base "platform:" = true ∧ '#' ∉ base.toList := by decide
  exact hall base h

theorem shardRef_toList {shard : Nat} (h : shard ≠ 0) :
    (shardRef base shard).toList = base.toList ++ '#' :: (toString shard).toList := by
  rw [shardRef, if_neg h, String.toList_append, String.toList_append, List.append_assoc]
  rfl

@[simp] theorem shardRef_zero (base : AccountRef) : shardRef base 0 = base := rfl

theorem baseOf_system (h : base ∈ SYSTEM.values) : baseOf base = base := by
  have hall : ∀ base ∈ SYSTEM.values, baseOf base = base := by decide
  exact hall base h

theorem baseOf_shardRef (h : base ∈ SYSTEM.values) (shard : Nat) :
    baseOf (shardRef base shard) = base := by
  by_cases hshard : shard = 0
  · subst hshard
    exact baseOf_system h
  · obtain ⟨hplatform, hsign⟩ := system_prefix h
    have hstarts : startsWith (shardRef base shard) "platform:" = true := by
      simp only [startsWith, List.isPrefixOf_iff_prefix] at hplatform ⊢
      rw [shardRef_toList hshard]
      exact hplatform.trans (List.prefix_append _ _)
    rw [baseOf, if_pos hstarts, beforeFirst, shardRef_toList hshard, takeWhile_append_stop hsign]
    exact String.ofList_toList

theorem traitsOf_shardRef (h : base ∈ SYSTEM.values) (shard : Nat) :
    traitsOf (shardRef base shard) = traitsOf base := by
  rw [traitsOf, traitsOf, baseOf_shardRef h, baseOf_system h]

@[simp] theorem platformShard_isDebitNormal (ref : AccountRef) (key : String) (shards : Nat) :
    isDebitNormal (platformShard ref key shards) = isDebitNormal ref := by
  rcases platformShard_cases ref key shards with h | ⟨h, shard, hshard⟩
  · rw [h]
  · rw [hshard, isDebitNormal, traitsOf_shardRef h, isDebitNormal]

@[simp] theorem platformShard_currency (ref : AccountRef) (key : String) (shards : Nat) :
    currency (platformShard ref key shards) = currency ref := by
  rcases platformShard_cases ref key shards with h | ⟨h, shard, hshard⟩
  · rw [h]
  · rw [hshard, currency, traitsOf_shardRef h, currency]

theorem shardRef_inj {shard shard' : Nat} (h : shardRef base shard = shardRef base shard') :
    shard = shard' := by
  have hlist := congrArg String.toList h
  by_cases hz : shard = 0
  · by_cases hz' : shard' = 0
    · exact hz.trans hz'.symm
    · rw [hz, shardRef_zero, shardRef_toList hz'] at hlist
      exact absurd (List.self_eq_append_right.mp hlist) (List.cons_ne_nil _ _)
  · by_cases hz' : shard' = 0
    · rw [hz', shardRef_zero, shardRef_toList hz] at hlist
      exact absurd (List.self_eq_append_right.mp hlist.symm) (List.cons_ne_nil _ _)
    · rw [shardRef_toList hz, shardRef_toList hz'] at hlist
      have htail := (List.cons.inj (List.append_cancel_left hlist)).2
      exact toString_nat_inj (String.toList_inj.mp htail)

theorem shardsOf_nodup (base : AccountRef) (shards : Nat) : (shardsOf base shards).Nodup :=
  List.Nodup.map (fun _ _ h => shardRef_inj h) List.nodup_range

theorem mem_shardsOf_self (base : AccountRef) (shards : Nat) : base ∈ shardsOf base shards :=
  List.mem_map.mpr ⟨0, List.mem_range.mpr (by omega), rfl⟩

theorem platformShard_mem {base : AccountRef} (key : String) (shards : Nat) :
    platformShard base key shards ∈ shardsOf base shards := by
  unfold platformShard
  split
  · exact mem_shardsOf_self base shards
  · rename_i h
    have hmany : 2 ≤ shards := by
      simp only [Bool.or_eq_true, decide_eq_true_eq, not_or] at h
      omega
    have hlt := Nat.mod_lt (fnv1a key) (by omega : 0 < shards)
    exact List.mem_map.mpr ⟨_, List.mem_range.mpr (by omega), rfl⟩

/-- A platform account under its own name, or a wallet. -/
inductive Named : AccountRef → Prop
  | system {ref : AccountRef} (h : ref ∈ SYSTEM.values) : Named ref
  | wallet (owner : String) (kind : AccountKind) : Named (wallet owner kind)

theorem mem_shardsOf_iff {base ref : AccountRef} (hbase : base ∈ SYSTEM.values) (href : Named ref)
    (key : String) (shards : Nat) : platformShard ref key shards ∈ shardsOf base shards ↔ ref = base := by
  constructor
  · intro h
    obtain ⟨shard, -, hshard⟩ := List.mem_map.mp h
    cases href with
    | system href =>
      rcases platformShard_cases ref key shards with hs | ⟨-, other, hs⟩
      · rw [← baseOf_system href, ← hs, ← hshard, baseOf_shardRef hbase]
      · rw [← baseOf_shardRef href other, ← hs, ← hshard, baseOf_shardRef hbase]
    | wallet owner kind =>
      have hkind := walletKindOf_shardRef hbase shard
      rw [hshard, platformShard_wallet, walletKindOf_wallet] at hkind
      cases hkind
  · rintro rfl
    exact platformShard_mem key shards

/-- What a reader of the account adds up. -/
def acrossShards (base : AccountRef) (shards : Nat) (f : AccountRef → Int) : Int :=
  ((shardsOf base shards).map f).sum

theorem acrossShards_add (base : AccountRef) (shards : Nat) (f g : AccountRef → Int) :
    (acrossShards base shards fun a => f a + g a) = acrossShards base shards f + acrossShards
      base shards g :=
  List.sum_map_add

theorem acrossShards_ite {shards : Nat} (a : AccountRef) (v : Int) :
    (acrossShards base shards fun shard => if a = shard then v else 0) =
      if a ∈ shardsOf base shards then v else 0 := by
  unfold acrossShards
  split
  · rename_i h
    have hzero : ((shardsOf base shards).map fun _ => (0 : Int)).sum = 0 := by simp
    have hchange := @sum_map_change _ _ (shardsOf_nodup base shards) a h (fun _ => (0 : Int))
      (fun shard => if a = shard then v else 0) fun shard _ hne => if_neg (Ne.symm hne)
    rw [hchange, hzero, if_pos rfl, sub_zero, zero_add]
  · rename_i h
    apply List.sum_eq_zero
    intro x hx
    obtain ⟨shard, hshard, rfl⟩ := List.mem_map.mp hx
    apply if_neg
    rintro rfl
    exact h hshard

theorem acrossShards_cons {base : AccountRef} {shards : Nat} (a : AccountRef) (v : Int)
    (xs : List (AccountRef × Int)) :
    acrossShards base shards (total ((a, v) :: xs)) =
      (if a ∈ shardsOf base shards then v else 0) + acrossShards base shards (total xs) := by
  rw [← acrossShards_ite, ← acrossShards_add]
  exact congrArg (acrossShards base shards) (funext fun shard => total_cons (a, v) xs shard)

/-- Over all shards a routed posting moves an account by its own lines. -/
theorem acrossShards_routed (hbase : base ∈ SYSTEM.values) {legs : List Leg}
    (hlegs : ∀ leg ∈ legs, Named leg.account) (key : String) (shards : Nat) :
    acrossShards base shards (total (deltas (routePlatformLegs legs key shards))) =
      total (deltas legs) base := by
  rw [routePlatformLegs_eq]
  induction legs with
  | nil =>
    apply List.sum_eq_zero
    intro x hx
    obtain ⟨shard, -, rfl⟩ := List.mem_map.mp hx
    rfl
  | cons leg legs ih =>
    have hrest := ih fun l hl => hlegs l (List.mem_cons_of_mem _ hl)
    have hdelta : Leg.delta { leg with account := platformShard leg.account key shards } = leg.delta := by
      simp only [Leg.delta, platformShard_isDebitNormal]
    have hhead := mem_shardsOf_iff hbase (hlegs leg List.mem_cons_self) key shards
    rw [List.map_cons, deltas_cons, deltas_cons, total_cons, hdelta, acrossShards_cons, hrest]
    simp only [hhead]

end EconomyLab
